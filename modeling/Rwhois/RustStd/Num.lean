import Mathlib.Algebra.Group.Nat.Defs
import Rwhois.RustStd.Str

/-!
# RustStd — Num

`from_str_radix` for the unsigned integer types and the decimal and
zero-padded forms that `format!` writes. The accepted language is wider
than a digit string: one leading `+` is dropped.
-/

namespace RustStd

/-- `char::to_digit`. -/
def toDigit (radix : Nat) (c : Char) : Option Nat :=
  let d :=
    if '0' ≤ c ∧ c ≤ '9' then some (c.toNat - '0'.toNat)
    else if 'a' ≤ c ∧ c ≤ 'z' then some (c.toNat - 'a'.toNat + 10)
    else if 'A' ≤ c ∧ c ≤ 'Z' then some (c.toNat - 'A'.toNat + 10)
    else none
  d.filter (· < radix)

/-- `char::is_digit`. -/
def isDigitOf (radix : Nat) (c : Char) : Bool := (toDigit radix c).isSome

/-- `char::is_ascii_hexdigit`. -/
def isAsciiHexdigit (c : Char) : Bool :=
  c.isDigit || ('a' ≤ c && c ≤ 'f') || ('A' ≤ c && c ≤ 'F')

/-- The digit loop: `checked_mul` by the radix, then `checked_add`. -/
def parseDigits (radix max : Nat) : Nat → Str → Option Nat
  | acc, [] => some acc
  | acc, c :: s =>
      match toDigit radix c with
      | none => none
      | some d => if radix * acc + d ≤ max then parseDigits radix max (radix * acc + d) s else none

/-- `uN::from_str_radix` for the unsigned type with largest value `max`. -/
def fromStrRadix (radix max : Nat) (s : Str) : Option Nat :=
  match s with
  | [] | ['+'] | ['-'] => none
  | '+' :: t => parseDigits radix max 0 t
  | t => parseDigits radix max 0 t

/-- `str::parse::<usize>` on a 64-bit target. -/
def parseUsize (s : Str) : Option Nat := fromStrRadix 10 (UInt64.size - 1) s

/-- `str::parse::<u16>`. -/
def parseU16 (s : Str) : Option UInt16 := (fromStrRadix 10 (UInt16.size - 1) s).map UInt16.ofNat

/-- `u32::from_str_radix`. -/
def u32FromStrRadix (radix : Nat) (s : Str) : Option UInt32 :=
  (fromStrRadix radix (UInt32.size - 1) s).map UInt32.ofNat

/-- `str::parse::<u32>`. -/
def parseU32 (s : Str) : Option UInt32 := u32FromStrRadix 10 s

/-- `u8::from_str_radix`. -/
def u8FromStrRadix (radix : Nat) (s : Str) : Option UInt8 :=
  (fromStrRadix radix (UInt8.size - 1) s).map UInt8.ofNat

/-- `{}` of an unsigned integer. -/
def display (n : Nat) : Str := Nat.toDigits 10 n

/-- `{:0w}` of an unsigned integer. -/
def displayPadded (w n : Nat) : Str :=
  List.replicate (w - (display n).length) '0' ++ display n

/-- `{:0wx}` of an unsigned integer. -/
def hexPadded (w n : Nat) : Str :=
  List.replicate (w - (Nat.toDigits 16 n).length) '0' ++ Nat.toDigits 16 n

/-! ## The digit loop -/

/-- The digits of a small radix are those of radix 16 that are small
enough. -/
theorem toDigit_eq_filter {radix : Nat} (h : radix ≤ 16) (c : Char) :
    toDigit radix c = (toDigit 16 c).filter (· < radix) := by
  have hsmall : (fun d => decide (d < radix)) = fun d => decide (d < 16) && decide (d < radix) := by
    funext d
    rw [← Bool.decide_and, decide_eq_decide]
    omega
  simp only [toDigit, Option.filter_filter]
  rw [hsmall]

theorem toDigit_digitChar {radix d : Nat} (hradix : radix ≤ 16) (hd : d < radix) :
    toDigit radix (Nat.digitChar d) = some d := by
  have hhex : ∀ d < 16, toDigit 16 (Nat.digitChar d) = some d := by decide
  rw [toDigit_eq_filter hradix, hhex d (by omega), Option.filter_some, if_pos (by simpa using hd)]

theorem toDigit_lt {radix d : Nat} {c : Char} (h : toDigit radix c = some d) : d < radix := by
  simpa using (Option.filter_eq_some_iff.mp h).2

/-- Digits are ASCII, whatever the radix. -/
theorem toNat_of_isDigitOf {radix : Nat} {c : Char} (h : isDigitOf radix c = true) :
    c.toNat < 128 := by
  have hle : ∀ d : Char, c ≤ d → c.toNat ≤ d.toNat := fun d hd => UInt32.le_iff_toNat_le.mp hd
  obtain ⟨d, hd⟩ := Option.isSome_iff_exists.mp h
  obtain ⟨hraw, -⟩ := Option.filter_eq_some_iff.mp hd
  split at hraw
  · rename_i hc
    exact (hle '9' hc.2).trans_lt (by decide)
  · split at hraw
    · rename_i hc
      exact (hle 'z' hc.2).trans_lt (by decide)
    · split at hraw
      · rename_i hc
        exact (hle 'Z' hc.2).trans_lt (by decide)
      · cases hraw

theorem byteLen_of_isDigitOf {radix : Nat} {s : Str} (h : ∀ c ∈ s, isDigitOf radix c = true) :
    byteLen s = s.length :=
  byteLen_of_ascii fun c hc => toNat_of_isDigitOf (h c hc)

theorem parseDigits_cons {radix max acc d : Nat} {c : Char} (hd : toDigit radix c = some d)
    (hmax : radix * acc + d ≤ max) (s : Str) :
    parseDigits radix max acc (c :: s) = parseDigits radix max (radix * acc + d) s := by
  simp only [parseDigits, hd, if_pos hmax]

theorem parseDigits_cons_inv {radix max acc n : Nat} {c : Char} {s : Str}
    (h : parseDigits radix max acc (c :: s) = some n) :
    ∃ d, toDigit radix c = some d ∧ radix * acc + d ≤ max ∧
      parseDigits radix max (radix * acc + d) s = some n := by
  simp only [parseDigits] at h
  split at h
  · cases h
  · rename_i d hd
    split at h
    · exact ⟨d, hd, by assumption, h⟩
    · cases h

theorem parseDigits_append (radix max acc : Nat) (s t : Str) :
    parseDigits radix max acc (s ++ t) =
      (parseDigits radix max acc s).bind fun acc' => parseDigits radix max acc' t := by
  induction s generalizing acc with
  | nil => rfl
  | cons c s ih =>
      simp only [List.cons_append, parseDigits]
      split
      · rfl
      · split
        · exact ih _
        · rfl

/-- Leading zeros do not count. -/
theorem parseDigits_zeros {radix : Nat} (hpos : 0 < radix) (hradix : radix ≤ 16) (max k : Nat)
    (s : Str) :
    parseDigits radix max 0 (List.replicate k '0' ++ s) = parseDigits radix max 0 s := by
  have hzero : toDigit radix '0' = some 0 := toDigit_digitChar hradix hpos
  induction k with
  | zero => rfl
  | succ k ih =>
      rw [List.replicate_succ, List.cons_append, parseDigits_cons hzero (by simp), Nat.mul_zero]
      exact ih

/-- The loop computes the value of the digits that `format!` writes. -/
theorem parseDigits_toDigits {radix max : Nat} (htwo : 2 ≤ radix) (hradix : radix ≤ 16) {n : Nat}
    (h : n ≤ max) : parseDigits radix max 0 (Nat.toDigits radix n) = some n := by
  induction n using Nat.strongRecOn with
  | _ n ih =>
      by_cases hlt : n < radix
      · rw [Nat.toDigits_of_lt_base hlt, parseDigits_cons (toDigit_digitChar hradix hlt) (by omega)]
        simp [parseDigits]
      · have hdiv : n / radix < n := Nat.div_lt_self (by omega) htwo
        have hmod : radix * (n / radix) + n % radix = n := Nat.div_add_mod n radix
        rw [Nat.toDigits_of_base_le htwo (by omega), parseDigits_append,
          ih _ hdiv (by omega), Option.bind_some,
          parseDigits_cons (toDigit_digitChar hradix (Nat.mod_lt n (by omega))) (by omega), hmod]
        rfl

theorem isDigitOf_of_parseDigits {radix max acc n : Nat} {s : Str}
    (h : parseDigits radix max acc s = some n) : ∀ c ∈ s, isDigitOf radix c = true := by
  induction s generalizing acc with
  | nil =>
      rintro c ⟨⟩
  | cons c s ih =>
      obtain ⟨d, hd, -, hs⟩ := parseDigits_cons_inv h
      intro x hx
      rcases List.mem_cons.mp hx with rfl | hx
      · rw [isDigitOf, hd]
        rfl
      · exact ih hs x hx

theorem le_of_parseDigits {radix max acc n : Nat} {s : Str} (hacc : acc ≤ max)
    (h : parseDigits radix max acc s = some n) : n ≤ max := by
  induction s generalizing acc with
  | nil =>
      cases h
      exact hacc
  | cons c s ih =>
      obtain ⟨d, -, hle, hs⟩ := parseDigits_cons_inv h
      exact ih hle hs

/-- So many digits, so large a number. -/
theorem lt_pow_of_parseDigits {radix max acc n : Nat} {s : Str}
    (h : parseDigits radix max acc s = some n) : n < (acc + 1) * radix ^ s.length := by
  induction s generalizing acc with
  | nil =>
      cases h
      simp
  | cons c s ih =>
      obtain ⟨d, hd, -, hs⟩ := parseDigits_cons_inv h
      have hstep : radix * acc + d + 1 ≤ (acc + 1) * radix := by
        have hlt := toDigit_lt hd
        rw [Nat.add_mul, Nat.one_mul, Nat.mul_comm acc radix]
        omega
      calc n < (radix * acc + d + 1) * radix ^ s.length := ih hs
        _ ≤ (acc + 1) * radix * radix ^ s.length := Nat.mul_le_mul_right _ hstep
        _ = (acc + 1) * radix ^ (c :: s).length := by
            rw [List.length_cons, Nat.pow_succ', Nat.mul_assoc]

/-! ## Digits by their characters -/

theorem toDigit_ten {c : Char} {d : Nat} (h : toDigit 10 c = some d) :
    c.isDigit = true ∧ d = c.toNat - '0'.toNat := by
  obtain ⟨hraw, hlt⟩ := Option.filter_eq_some_iff.mp h
  have hd : d < 10 := of_decide_eq_true hlt
  split at hraw
  · rename_i hc
    cases hraw
    refine ⟨?_, rfl⟩
    simp only [Char.isDigit, Bool.and_eq_true, decide_eq_true_eq]
    exact hc
  · split at hraw
    · cases hraw
      omega
    · split at hraw
      · cases hraw
        omega
      · cases hraw

theorem isDigit_of_isDigitOf {c : Char} (h : isDigitOf 10 c = true) : c.isDigit = true := by
  obtain ⟨d, hd⟩ := Option.isSome_iff_exists.mp h
  exact (toDigit_ten hd).1

theorem isAsciiHexdigit_of_isDigitOf {c : Char} (h : isDigitOf 16 c = true) :
    isAsciiHexdigit c = true := by
  obtain ⟨d, hd⟩ := Option.isSome_iff_exists.mp h
  obtain ⟨hraw, hlt⟩ := Option.filter_eq_some_iff.mp hd
  have hd : d < 16 := of_decide_eq_true hlt
  have hle : ∀ x : Char, c.toNat ≤ x.toNat → c ≤ x := fun x hx => UInt32.le_iff_toNat_le.mpr hx
  simp only [isAsciiHexdigit, Char.isDigit, Bool.or_eq_true, Bool.and_eq_true, decide_eq_true_eq]
  split at hraw
  · rename_i hc
    exact .inl (.inl hc)
  · split at hraw
    · rename_i hc
      cases hraw
      refine .inl (.inr ⟨hc.1, hle 'f' ?_⟩)
      simp only [Char.reduceToNat] at hd ⊢
      omega
    · split at hraw
      · rename_i hc
        cases hraw
        refine .inr ⟨hc.1, hle 'F' ?_⟩
        simp only [Char.reduceToNat] at hd ⊢
        omega
      · cases hraw

/-- In radix 10 the loop computes the value of the text. -/
theorem ofDigitChars_of_parseDigits {max acc n : Nat} {s : Str}
    (h : parseDigits 10 max acc s = some n) : Nat.ofDigitChars 10 s acc = n := by
  induction s generalizing acc with
  | nil =>
      cases h
      rfl
  | cons c s ih =>
      obtain ⟨d, hd, -, hs⟩ := parseDigits_cons_inv h
      rw [Nat.ofDigitChars_cons, ← (toDigit_ten hd).2]
      exact ih hs

/-! ## Numbers as text -/

theorem toDigit_plus (radix : Nat) : toDigit radix '+' = none := rfl

theorem toDigit_minus (radix : Nat) : toDigit radix '-' = none := rfl

/-- A digit string carries no sign, so nothing is dropped from it. -/
theorem fromStrRadix_of_digits {radix : Nat} {s : Str} (hne : s ≠ [])
    (h : ∀ c ∈ s, isDigitOf radix c = true) (max : Nat) :
    fromStrRadix radix max s = parseDigits radix max 0 s := by
  have hplus : ∀ t, s ≠ '+' :: t := by
    rintro t rfl
    have hdigit := h '+' List.mem_cons_self
    rw [isDigitOf, toDigit_plus] at hdigit
    cases hdigit
  have hminus : s ≠ ['-'] := by
    rintro rfl
    have hdigit := h '-' List.mem_cons_self
    rw [isDigitOf, toDigit_minus] at hdigit
    cases hdigit
  unfold fromStrRadix
  split
  · exact absurd rfl hne
  · exact absurd rfl (hplus [])
  · exact absurd rfl hminus
  · exact absurd rfl (hplus _)
  · rfl

/-- **What the integer parsers accept**: digits, behind one `+` or none. -/
theorem fromStrRadix_eq_some {radix max n : Nat} {s : Str}
    (h : fromStrRadix radix max s = some n) :
    ∃ t, t ≠ [] ∧ (s = t ∨ s = '+' :: t) ∧ parseDigits radix max 0 t = some n := by
  unfold fromStrRadix at h
  split at h
  · cases h
  · cases h
  · cases h
  · rename_i t hne
    exact ⟨t, fun ht => hne (by rw [ht]), .inr rfl, h⟩
  · rename_i t hne _ _ _
    exact ⟨_, hne, .inl rfl, h⟩

theorem le_of_fromStrRadix {radix max n : Nat} {s : Str} (h : fromStrRadix radix max s = some n) :
    n ≤ max := by
  obtain ⟨t, -, -, ht⟩ := fromStrRadix_eq_some h
  exact le_of_parseDigits (Nat.zero_le _) ht

/-- Without a `+` only digits are accepted. -/
theorem isDigitOf_of_fromStrRadix {radix max n : Nat} {s : Str}
    (h : fromStrRadix radix max s = some n) (hplus : s.head? ≠ some '+') :
    s ≠ [] ∧ ∀ c ∈ s, isDigitOf radix c = true := by
  obtain ⟨t, hne, rfl | rfl, ht⟩ := fromStrRadix_eq_some h
  · exact ⟨hne, isDigitOf_of_parseDigits ht⟩
  · exact absurd rfl hplus

theorem lt_pow_of_fromStrRadix {radix max n : Nat} (hradix : 0 < radix) {s : Str}
    (h : fromStrRadix radix max s = some n) : n < radix ^ s.length := by
  obtain ⟨t, -, hs, ht⟩ := fromStrRadix_eq_some h
  have hlen : t.length ≤ s.length := by
    rcases hs with rfl | rfl
    · exact le_rfl
    · exact Nat.le_succ _
  calc n < (0 + 1) * radix ^ t.length := lt_pow_of_parseDigits ht
    _ ≤ radix ^ s.length := by
        rw [Nat.zero_add, Nat.one_mul]
        exact Nat.pow_le_pow_right hradix hlen

section Padded

variable {radix : Nat} (htwo : 2 ≤ radix) (hradix : radix ≤ 16)

include htwo hradix

theorem parseDigits_padded {max n : Nat} (h : n ≤ max) (k : Nat) :
    parseDigits radix max 0 (List.replicate k '0' ++ Nat.toDigits radix n) = some n := by
  rw [parseDigits_zeros (by omega) hradix, parseDigits_toDigits htwo hradix h]

theorem isDigitOf_padded (k n : Nat) :
    ∀ c ∈ List.replicate k '0' ++ Nat.toDigits radix n, isDigitOf radix c = true :=
  isDigitOf_of_parseDigits (parseDigits_padded htwo hradix le_rfl k)

/-- Numbers come back from the digits that `format!` writes. -/
theorem fromStrRadix_padded {max n : Nat} (h : n ≤ max) (k : Nat) :
    fromStrRadix radix max (List.replicate k '0' ++ Nat.toDigits radix n) = some n := by
  rw [fromStrRadix_of_digits (by simp) (isDigitOf_padded htwo hradix k n),
    parseDigits_padded htwo hradix h]

end Padded

theorem isDigitOf_of_mem_hexPadded {w n : Nat} {c : Char} (h : c ∈ hexPadded w n) :
    isDigitOf 16 c = true :=
  isDigitOf_padded (by decide) (by decide) _ n c h

theorem isDigit_of_mem_display {n : Nat} {c : Char} (h : c ∈ display n) : c.isDigit = true :=
  Nat.isDigit_of_mem_toDigits (by decide) (by decide) h

theorem isDigit_of_mem_displayPadded {w n : Nat} {c : Char} (h : c ∈ displayPadded w n) :
    c.isDigit = true := by
  rcases List.mem_append.mp h with h | h
  · obtain ⟨-, rfl⟩ := List.mem_replicate.mp h
    rfl
  · exact isDigit_of_mem_display h

theorem display_ne_nil (n : Nat) : display n ≠ [] := Nat.toDigits_ne_nil

theorem displayPadded_ne_nil (w n : Nat) : displayPadded w n ≠ [] := by
  simp [displayPadded, display_ne_nil]

theorem displayPadded_zero (n : Nat) : displayPadded 0 n = display n := by
  simp [displayPadded]

theorem parseU16_displayPadded (w : Nat) (n : UInt16) :
    parseU16 (displayPadded w n.toNat) = some n := by
  have hn : n.toNat ≤ UInt16.size - 1 := Nat.le_pred_of_lt n.toNat_lt
  rw [parseU16, displayPadded, display, fromStrRadix_padded (by decide) (by decide) hn]
  simp

theorem parseU16_display (n : UInt16) : parseU16 (display n.toNat) = some n := by
  rw [← displayPadded_zero, parseU16_displayPadded]

theorem parseU32_display (n : UInt32) : parseU32 (display n.toNat) = some n := by
  have hn : n.toNat ≤ UInt32.size - 1 := Nat.le_pred_of_lt n.toNat_lt
  have hread : fromStrRadix 10 (UInt32.size - 1) ([] ++ Nat.toDigits 10 n.toNat) = some n.toNat :=
    fromStrRadix_padded (by decide) (by decide) hn 0
  rw [parseU32, u32FromStrRadix, display]
  simpa using congrArg (Option.map UInt32.ofNat) hread

theorem u32FromStrRadix_hexPadded (w : Nat) (n : UInt32) :
    u32FromStrRadix 16 (hexPadded w n.toNat) = some n := by
  have hn : n.toNat ≤ UInt32.size - 1 := Nat.le_pred_of_lt n.toNat_lt
  rw [u32FromStrRadix, hexPadded, fromStrRadix_padded (by decide) (by decide) hn]
  simp

theorem u8FromStrRadix_hexPadded (w : Nat) (n : UInt8) :
    u8FromStrRadix 16 (hexPadded w n.toNat) = some n := by
  have hn : n.toNat ≤ UInt8.size - 1 := Nat.le_pred_of_lt n.toNat_lt
  rw [u8FromStrRadix, hexPadded, fromStrRadix_padded (by decide) (by decide) hn]
  simp

/-- A hex number takes its full width and no more. -/
theorem length_hexPadded {w n : Nat} (hw : 0 < w) (h : n < 16 ^ w) : (hexPadded w n).length = w := by
  have hle : (Nat.toDigits 16 n).length ≤ w := (Nat.length_toDigits_le_iff (by decide) hw).mpr h
  simp only [hexPadded, List.length_append, List.length_replicate]
  omega

/-! ## Bit masks -/

/-- The bits of values that are or'ed one after the other. -/
theorem testBit_foldl_or {α : Type} (f : α → UInt32) (xs : List α) (a : UInt32) (i : Nat) :
    (xs.foldl (fun acc x => acc ||| f x) a).toNat.testBit i =
      (a.toNat.testBit i || xs.any fun x => (f x).toNat.testBit i) := by
  induction xs generalizing a with
  | nil => simp
  | cons x xs ih =>
      rw [List.foldl_cons, ih, UInt32.toNat_or, Nat.testBit_or, List.any_cons, Bool.or_assoc]

/-! ## Bounds -/

theorem lt_of_parseUsize {s : Str} {n : Nat} (h : parseUsize s = some n) : n < UInt64.size := by
  have hle := le_of_fromStrRadix h
  have hsize : 0 < UInt64.size := by decide
  omega

/-- A `usize` has at most twenty digits. -/
theorem byteLen_display_le {n : Nat} (h : n < UInt64.size) : byteLen (display n) ≤ 20 := by
  have hascii : IsAscii (display n) := by
    intro c hc
    have hdigit := isDigit_of_mem_display hc
    simp only [Char.isDigit, Bool.and_eq_true, decide_eq_true_eq] at hdigit
    have hle : c.val.toNat ≤ 57 := UInt32.le_iff_toNat_le.mp hdigit.2
    show c.val.toNat < 128
    omega
  rw [byteLen_of_ascii hascii, display, Nat.length_toDigits_le_iff (by decide) (by decide)]
  exact h.trans (by decide)

end RustStd
