import Mathlib.Data.List.DropRight

/-!
# RustStd — Str

A Rust `str` is a sequence of Unicode scalar values that is addressed by
BYTE: `len`, every index and every slice count UTF-8 bytes, and a slice
whose end is not between two scalar values panics. Lean's `Char` is a
Unicode scalar value too, so a `str` is a `List Char` here and the byte
addresses are computed from `Char.utf8Size`.

`splitAtByte` is the one primitive behind all slices; its
characterization (`splitAtByte_eq_some`) is what proofs use.
-/

namespace RustStd

abbrev Str := List Char

abbrev Bytes := List UInt8

/-! ## Byte length and slices -/

/-- `str::len`. -/
def byteLen : Str → Nat
  | [] => 0
  | c :: s => c.utf8Size + byteLen s

@[simp] theorem byteLen_nil : byteLen [] = 0 := rfl

@[simp] theorem byteLen_cons (c : Char) (s : Str) :
    byteLen (c :: s) = c.utf8Size + byteLen s := rfl

@[simp] theorem byteLen_append (s t : Str) : byteLen (s ++ t) = byteLen s + byteLen t := by
  induction s with
  | nil => simp
  | cons c s ih =>
      rw [List.cons_append, byteLen_cons, byteLen_cons, ih]
      omega

theorem length_le_byteLen (s : Str) : s.length ≤ byteLen s := by
  induction s with
  | nil => simp
  | cons c s ih =>
      have hc := c.utf8Size_pos
      simp only [List.length_cons, byteLen_cons]
      omega

theorem byteLen_eq_zero {s : Str} : byteLen s = 0 ↔ s = [] := by
  constructor
  · intro h
    have hl := length_le_byteLen s
    exact List.eq_nil_of_length_eq_zero (by omega)
  · rintro rfl
    rfl

/-- Cut at byte `i`; `none` when `i` is past the end or inside a scalar
value. -/
def splitAtByte : Str → Nat → Option (Str × Str)
  | s, 0 => some ([], s)
  | [], _ + 1 => none
  | c :: s, i + 1 =>
      if c.utf8Size ≤ i + 1
      then (splitAtByte s (i + 1 - c.utf8Size)).map fun p => (c :: p.1, p.2)
      else none

theorem splitAtByte_eq_some {s a b : Str} {i : Nat} :
    splitAtByte s i = some (a, b) ↔ s = a ++ b ∧ byteLen a = i := by
  induction s generalizing i a with
  | nil =>
      cases i with
      | zero =>
          simp only [splitAtByte, Option.some.injEq, Prod.mk.injEq, List.nil_eq_append_iff]
          constructor
          · rintro ⟨rfl, rfl⟩
            exact ⟨⟨rfl, rfl⟩, rfl⟩
          · rintro ⟨⟨rfl, rfl⟩, -⟩
            exact ⟨rfl, rfl⟩
      | succ i =>
          simp only [splitAtByte, List.nil_eq_append_iff, reduceCtorEq, false_iff]
          rintro ⟨⟨rfl, rfl⟩, h⟩
          simp at h
  | cons c s ih =>
      have hc := c.utf8Size_pos
      cases i with
      | zero =>
          simp only [splitAtByte, Option.some.injEq, Prod.mk.injEq]
          constructor
          · rintro ⟨rfl, rfl⟩
            exact ⟨rfl, rfl⟩
          · rintro ⟨h, hz⟩
            rw [byteLen_eq_zero] at hz
            subst hz
            exact ⟨rfl, h⟩
      | succ i =>
          simp only [splitAtByte]
          cases a with
          | nil =>
              simp only [List.nil_append, byteLen_nil]
              split <;> simp
          | cons d a =>
              by_cases hle : c.utf8Size ≤ i + 1
              · simp only [if_pos hle, Option.map_eq_some_iff, Prod.mk.injEq, Prod.exists,
                  List.cons.injEq, List.cons_append, byteLen_cons]
                constructor
                · rintro ⟨a', b', h, ⟨rfl, rfl⟩, rfl⟩
                  obtain ⟨rfl, hl⟩ := ih.mp h
                  exact ⟨⟨rfl, rfl⟩, by omega⟩
                · rintro ⟨⟨rfl, rfl⟩, hl⟩
                  exact ⟨a, b, ih.mpr ⟨rfl, by omega⟩, ⟨rfl, rfl⟩, rfl⟩
              · simp only [if_neg hle, List.cons_append, List.cons.injEq, byteLen_cons,
                  reduceCtorEq, false_iff]
                rintro ⟨⟨rfl, rfl⟩, hl⟩
                omega

theorem splitAtByte_append (a b : Str) : splitAtByte (a ++ b) (byteLen a) = some (a, b) :=
  splitAtByte_eq_some.mpr ⟨rfl, rfl⟩

/-- `&s[i..]`. -/
def sliceFrom (s : Str) (i : Nat) : Option Str := (splitAtByte s i).map Prod.snd

/-- `&s[..i]`. -/
def sliceTo (s : Str) (i : Nat) : Option Str := (splitAtByte s i).map Prod.fst

/-- `&s[i..j]`; it panics on `j < i` as well. -/
def slice (s : Str) (i j : Nat) : Option Str :=
  if i ≤ j then (sliceFrom s i).bind fun t => sliceTo t (j - i) else none

/-- `i` is a character boundary of `s` (`str::is_char_boundary`). -/
def IsCharBoundary (s : Str) (i : Nat) : Prop := ∃ a b, s = a ++ b ∧ byteLen a = i

@[simp] theorem sliceFrom_append (a b : Str) : sliceFrom (a ++ b) (byteLen a) = some b := by
  simp [sliceFrom, splitAtByte_append]

@[simp] theorem sliceTo_append (a b : Str) : sliceTo (a ++ b) (byteLen a) = some a := by
  simp [sliceTo, splitAtByte_append]

theorem slice_append (a b c : Str) :
    slice (a ++ (b ++ c)) (byteLen a) (byteLen a + byteLen b) = some b := by
  simp [slice]

theorem sliceTo_isSome {s : Str} {i : Nat} :
    (sliceTo s i).isSome ↔ IsCharBoundary s i := by
  simp only [sliceTo, Option.isSome_map, Option.isSome_iff_exists, Prod.exists,
    splitAtByte_eq_some, IsCharBoundary]

/-! ## ASCII text -/

/-- `str::is_ascii`. -/
def IsAscii (s : Str) : Prop := ∀ c ∈ s, c.toNat < 128

instance (s : Str) : Decidable (IsAscii s) := List.decidableBAll (fun c : Char => c.toNat < 128) s

theorem IsAscii.nil : IsAscii [] := by
  intro c hc
  simp at hc

theorem IsAscii.append {s t : Str} : IsAscii (s ++ t) ↔ IsAscii s ∧ IsAscii t := by
  simp only [IsAscii, List.mem_append]
  constructor
  · intro h
    exact ⟨fun c hc => h c (.inl hc), fun c hc => h c (.inr hc)⟩
  · rintro ⟨hs, ht⟩ c (hc | hc)
    · exact hs c hc
    · exact ht c hc

theorem IsAscii.cons {c : Char} {s : Str} : IsAscii (c :: s) ↔ c.toNat < 128 ∧ IsAscii s := by
  simp [IsAscii]

theorem IsAscii.of_subset {s t : Str} (h : IsAscii s) (hsub : ∀ c ∈ t, c ∈ s) : IsAscii t :=
  fun c hc => h c (hsub c hc)

theorem toNat_ofNat_of_ascii : ∀ n < 128, (Char.ofNat n).toNat = n := by decide

theorem utf8Size_of_ascii {c : Char} (h : c.toNat < 128) : c.utf8Size = 1 := by
  have hv : c.val ≤ 0x7f := by
    rw [UInt32.le_iff_toNat_le]
    have hc : c.val.toNat < 128 := h
    simp only [UInt32.reduceToNat]
    omega
  simp [Char.utf8Size, hv]

/-- In ASCII text bytes and scalar values are the same thing. -/
theorem byteLen_of_ascii {s : Str} (h : IsAscii s) : byteLen s = s.length := by
  induction s with
  | nil => rfl
  | cons c s ih =>
      obtain ⟨hc, hs⟩ := IsAscii.cons.mp h
      rw [byteLen_cons, utf8Size_of_ascii hc, ih hs, List.length_cons, Nat.add_comm]

/-! ## UTF-8 -/

/-- `str::as_bytes`. -/
def utf8 (s : Str) : Bytes := s.flatMap String.utf8EncodeChar

@[simp] theorem utf8_nil : utf8 [] = [] := rfl

@[simp] theorem utf8_append (s t : Str) : utf8 (s ++ t) = utf8 s ++ utf8 t := by
  simp [utf8]

theorem length_utf8 (s : Str) : (utf8 s).length = byteLen s := by
  induction s with
  | nil => rfl
  | cons c s ih =>
      rw [utf8, List.flatMap_cons, List.length_append, String.length_utf8EncodeChar, byteLen_cons,
        ← ih]
      rfl

theorem utf8EncodeChar_ofNat : ∀ n < 128, String.utf8EncodeChar (Char.ofNat n) = [UInt8.ofNat n] := by
  decide

/-- An ASCII byte stands for itself: the bytes of the longer encodings
have their high bit set. -/
theorem toNat_of_mem_utf8EncodeChar {c : Char} {b : UInt8} (h : b ∈ String.utf8EncodeChar c)
    (hb : b.toNat < 128) : b.toNat = c.toNat := by
  have hsmall (n : Nat) (hn : n < 256) : (UInt8.ofNat n).toNat = n :=
    UInt8.toNat_ofNat'.trans (Nat.mod_eq_of_lt hn)
  have hhigh (n m k : Nat) (hm : 0 < m) (hk : 128 ≤ k) (hmk : m + k ≤ 256) :
      ¬ (UInt8.ofNat (n % m + k)).toNat < 128 := by
    have hmod := Nat.mod_lt n hm
    rw [hsmall _ (by omega)]
    omega
  simp only [String.utf8EncodeChar] at h
  split at h
  · obtain rfl := List.mem_singleton.mp h
    exact hsmall _ (by omega)
  split at h
  · simp only [List.mem_cons, List.not_mem_nil, or_false] at h
    rcases h with rfl | rfl <;> exact absurd hb (hhigh _ _ _ (by decide) (by decide) (by decide))
  split at h <;>
  · simp only [List.mem_cons, List.not_mem_nil, or_false] at h
    rcases h with rfl | rfl | rfl | rfl <;>
      exact absurd hb (hhigh _ _ _ (by decide) (by decide) (by decide))

/-- An ASCII text is encoded byte by byte. -/
theorem utf8_map_ofNat {bs : Bytes} (h : ∀ b ∈ bs, b.toNat < 128) :
    utf8 (bs.map fun b => Char.ofNat b.toNat) = bs := by
  induction bs with
  | nil => rfl
  | cons b bs ih =>
      have hb := utf8EncodeChar_ofNat b.toNat (h b List.mem_cons_self)
      have hbs := ih fun b' hb' => h b' (List.mem_cons_of_mem b hb')
      rw [utf8] at hbs ⊢
      rw [List.map_cons, List.flatMap_cons, hb, hbs, UInt8.ofNat_toNat]
      rfl

/-- `std::str::from_utf8`. -/
def fromUtf8 (b : Bytes) : Option Str :=
  (ByteArray.mk b.toArray).utf8Decode?.map Array.toList

/-- Reading back the bytes of a `str` gives the `str`. -/
theorem fromUtf8_utf8 (s : Str) : fromUtf8 (utf8 s) = some s := by
  have h : ByteArray.mk (utf8 s).toArray = s.utf8Encode := by
    apply ByteArray.ext
    simp [utf8, List.utf8Encode]
  rw [fromUtf8, h, List.utf8Decode?_utf8Encode]
  rfl

end RustStd
