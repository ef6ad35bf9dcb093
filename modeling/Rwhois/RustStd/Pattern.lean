import Rwhois.RustStd.Str

/-!
# RustStd — Pattern

The searching, splitting and trimming methods of `str`, and the rules
proofs use for them: what a split says about the text it was given, and
what splitting a text that was put together from its parts gives back.
-/

namespace RustStd

/-! ## Character classes and case -/

/-- `char::is_whitespace`, the Unicode `White_Space` property. -/
def isWhitespace (c : Char) : Bool :=
  let n := c.toNat
  (0x09 ≤ n && n ≤ 0x0D) || n == 0x20 || n == 0x85 || n == 0xA0 || n == 0x1680
    || (0x2000 ≤ n && n ≤ 0x200A) || n == 0x2028 || n == 0x2029 || n == 0x202F
    || n == 0x205F || n == 0x3000

/-- Space or tab. -/
def isBlank (c : Char) : Bool := c == ' ' || c == '\t'

/-- `str::to_ascii_lowercase` (`Char.toLower` moves ASCII letters only). -/
def toAsciiLowercase (s : Str) : Str := s.map Char.toLower

/-- `str::eq_ignore_ascii_case`. -/
def eqIgnoreAsciiCase (s t : Str) : Bool := toAsciiLowercase s == toAsciiLowercase t

/-- `a <= b` on `str`: UTF-8 bytes compare as the scalar values do. -/
def strLe (a b : Str) : Bool := !b.lex a fun c d => decide (c.toNat < d.toNat)

/-- `a < b` on `str`. -/
def strLt (a b : Str) : Bool := a.lex b fun c d => decide (c.toNat < d.toNat)

theorem strLt_iff {a b : Str} :
    strLt a b = true ↔ List.Lex (fun c d : Char => c.toNat < d.toNat) a b := by
  rw [strLt, List.lex_eq_true_iff_lex]
  simp only [decide_eq_true_eq]

theorem strLe_iff {a b : Str} :
    strLe a b = true ↔ ¬ List.Lex (fun c d : Char => c.toNat < d.toNat) b a := by
  rw [← strLt_iff, strLe, strLt, Bool.not_eq_true', Bool.not_eq_true]

instance : Std.Total fun a b : Str => strLe a b = true where
  total a b := by
    rw [strLe_iff, strLe_iff]
    exact List.le_total a b

instance : IsTrans Str fun a b => strLe a b = true where
  trans a b c := by
    rw [strLe_iff, strLe_iff, strLe_iff]
    exact List.le_trans

theorem strLt_of_strLe {a b : Str} (h : strLe a b = true) (hne : a ≠ b) : strLt a b = true :=
  strLt_iff.mpr ((List.le_iff_lt_or_eq.mp (strLe_iff.mp h)).resolve_right hne)

theorem strLt_irrefl (a : Str) : strLt a a ≠ true := by
  rw [Ne, strLt_iff]
  exact List.lt_irrefl a

theorem toNat_toLower (c : Char) :
    c.toLower.toNat = if 65 ≤ c.toNat ∧ c.toNat ≤ 90 then c.toNat + 32 else c.toNat := by
  unfold Char.toLower
  split
  · rename_i h
    have hge : 65 ≤ c.val.toNat := h.1
    have hle : c.val.toNat ≤ 90 := h.2
    rw [if_pos ⟨hge, hle⟩]
    show (c.val + ('a'.val - 'A'.val)).toNat = c.val.toNat + 32
    rw [UInt32.toNat_add]
    show (c.val.toNat + 32) % 2 ^ 32 = _
    omega
  · rename_i h
    exact (if_neg h).symm

/-- Lowercasing turns nothing into a control character. -/
theorem toLower_ne {c d : Char} (hne : c ≠ d) (hd : d.toNat < 32) : c.toLower ≠ d := by
  intro heq
  have hlower := toNat_toLower c
  rw [heq] at hlower
  split at hlower
  · omega
  · exact hne (Char.toNat_inj.mp hlower.symm)

@[simp] theorem toAsciiLowercase_length (s : Str) :
    (toAsciiLowercase s).length = s.length := by
  simp [toAsciiLowercase]

@[simp] theorem byteLen_toAsciiLowercase (s : Str) :
    byteLen (toAsciiLowercase s) = byteLen s := by
  have hchar (c : Char) : c.toLower.utf8Size = c.utf8Size := by
    by_cases hc : c.toNat < 128
    · have hlower : c.toLower.toNat < 128 := by
        rw [toNat_toLower]
        split <;> omega
      rw [utf8Size_of_ascii hc, utf8Size_of_ascii hlower]
    · have hsame : c.toLower = c := by
        apply Char.toNat_inj.mp
        rw [toNat_toLower, if_neg]
        omega
      rw [hsame]
  induction s with
  | nil => rfl
  | cons c s ih =>
      rw [toAsciiLowercase] at ih ⊢
      rw [List.map_cons, byteLen_cons, byteLen_cons, ih, hchar]

theorem isAscii_toAsciiLowercase (s : Str) : IsAscii (toAsciiLowercase s) ↔ IsAscii s := by
  have hchar : ∀ c : Char, c.toLower.toNat < 128 ↔ c.toNat < 128 := by
    intro c
    rw [toNat_toLower]
    split <;> omega
  simp [IsAscii, toAsciiLowercase, hchar]

/-- Only an ASCII text equals an ASCII text up to case. -/
theorem IsAscii.of_eqIgnoreAsciiCase {s t : Str} (ht : IsAscii t)
    (h : eqIgnoreAsciiCase s t = true) : IsAscii s := by
  rw [← isAscii_toAsciiLowercase, beq_iff_eq.mp h, isAscii_toAsciiLowercase]
  exact ht

/-! ## Trimming -/

theorem takeWhile_congr {p q : Char → Bool} {s : Str} (h : ∀ c ∈ s, p c = q c) :
    s.takeWhile p = s.takeWhile q := by
  induction s with
  | nil => rfl
  | cons c s ih =>
      have hc := h c List.mem_cons_self
      rw [List.takeWhile_cons, List.takeWhile_cons, hc,
        ih fun d hd => h d (List.mem_cons_of_mem c hd)]

theorem dropWhile_congr {α : Type} {p q : α → Bool} {s : List α} (h : ∀ c ∈ s, p c = q c) :
    s.dropWhile p = s.dropWhile q := by
  induction s with
  | nil => rfl
  | cons c s ih =>
      have hc := h c List.mem_cons_self
      rw [List.dropWhile_cons, List.dropWhile_cons, hc,
        ih fun d hd => h d (List.mem_cons_of_mem c hd)]

theorem rdropWhile_congr {α : Type} {p q : α → Bool} {s : List α} (h : ∀ c ∈ s, p c = q c) :
    s.rdropWhile p = s.rdropWhile q := by
  rw [List.rdropWhile, List.rdropWhile, dropWhile_congr fun c hc => h c (List.mem_reverse.mp hc)]

theorem rdropWhile_cons {α : Type} (p : α → Bool) (c : α) (s : List α) :
    (c :: s).rdropWhile p =
      if s.rdropWhile p = [] then [c].rdropWhile p else c :: s.rdropWhile p := by
  have hempty : (s.reverse.dropWhile p).isEmpty = true ↔ s.rdropWhile p = [] := by
    rw [List.rdropWhile, List.reverse_eq_nil_iff, List.isEmpty_iff]
  rw [List.rdropWhile, List.reverse_cons, List.dropWhile_append]
  by_cases hnil : s.rdropWhile p = []
  · rw [if_pos (hempty.mpr hnil), if_pos hnil]
    rfl
  · rw [if_neg (fun h => hnil (hempty.mp h)), if_neg hnil, List.reverse_append]
    rfl

/-- Which end is trimmed first does not matter. -/
theorem dropWhile_rdropWhile {α : Type} (p : α → Bool) (s : List α) :
    (s.rdropWhile p).dropWhile p = (s.dropWhile p).rdropWhile p := by
  induction s with
  | nil => rfl
  | cons c s ih =>
      by_cases hc : p c = true
      · rw [List.dropWhile_cons_of_pos hc, ← ih, rdropWhile_cons]
        split
        · rename_i hnil
          rw [hnil, List.rdropWhile_singleton, if_pos hc]
        · rw [List.dropWhile_cons_of_pos hc]
      · obtain ⟨t, ht⟩ : ∃ t, (c :: s).rdropWhile p = c :: t := by
          rw [rdropWhile_cons]
          split
          · exact ⟨[], by rw [List.rdropWhile_singleton, if_neg hc]⟩
          · exact ⟨_, rfl⟩
        rw [List.dropWhile_cons_of_neg hc, ht, List.dropWhile_cons_of_neg hc]

theorem mem_dropWhile_of_not {α : Type} {p : α → Bool} {s : List α} {c : α} (h : c ∈ s)
    (hc : p c = false) : c ∈ s.dropWhile p := by
  rw [← List.takeWhile_append_dropWhile (p := p) (l := s)] at h
  rcases List.mem_append.mp h with h | h
  · rw [List.mem_takeWhile_imp h] at hc
    cases hc
  · exact h

/-- `str::trim_start_matches`. -/
def trimStartMatches (p : Char → Bool) (s : Str) : Str := s.dropWhile p

/-- `str::trim_matches`. -/
def trimMatches (p : Char → Bool) (s : Str) : Str := (s.dropWhile p).rdropWhile p

/-- `str::trim_start`. -/
def trimStart (s : Str) : Str := trimStartMatches isWhitespace s

/-- `str::trim`. -/
def trim (s : Str) : Str := trimMatches isWhitespace s

theorem mem_of_mem_trimMatches {p : Char → Bool} {s : Str} {c : Char}
    (h : c ∈ trimMatches p s) : c ∈ s :=
  (List.dropWhile_suffix p).subset ((List.rdropWhile_prefix p _).subset h)

/-- Characters outside the class are never trimmed. -/
theorem mem_trimMatches_of_not {p : Char → Bool} {s : Str} {c : Char} (h : c ∈ s)
    (hc : p c = false) : c ∈ trimMatches p s := by
  rw [trimMatches, List.rdropWhile, List.mem_reverse]
  exact mem_dropWhile_of_not (List.mem_reverse.mpr (mem_dropWhile_of_not h hc)) hc

theorem trimMatches_map {α : Type} (p : Char → Bool) (f : α → Char) (s : List α) :
    trimMatches p (s.map f) = ((s.dropWhile (p ∘ f)).rdropWhile (p ∘ f)).map f := by
  rw [trimMatches, List.dropWhile_map, List.rdropWhile, List.rdropWhile, ← List.map_reverse,
    List.dropWhile_map, List.map_reverse]

/-- Nothing is trimmed from a text that starts and ends outside the class. -/
theorem trimMatches_eq_self {p : Char → Bool} {s : Str} (hhead : ∀ c ∈ s.head?, p c = false)
    (hlast : ∀ c ∈ s.getLast?, p c = false) : trimMatches p s = s := by
  have hdrop : s.dropWhile p = s := by
    cases s with
    | nil => rfl
    | cons c s => exact List.dropWhile_cons_of_neg (by simp [hhead c rfl])
  rw [trimMatches, hdrop, List.rdropWhile_eq_self_iff]
  intro hne
  simp [hlast _ (List.getLast?_eq_some_getLast hne)]

theorem head?_trimMatches {p : Char → Bool} {s : Str} {c : Char}
    (h : (trimMatches p s).head? = some c) : p c = false := by
  obtain ⟨t, ht⟩ := List.rdropWhile_prefix p (s.dropWhile p)
  have hhead : (s.dropWhile p).head? = some c := by
    rw [← ht, List.head?_append, show ((s.dropWhile p).rdropWhile p).head? = some c from h]
    rfl
  simpa [hhead] using List.head?_dropWhile_not p s

theorem getLast?_trimMatches {p : Char → Bool} {s : Str} {c : Char}
    (h : (trimMatches p s).getLast? = some c) : p c = false := by
  have hne : (s.dropWhile p).rdropWhile p ≠ [] := by
    intro hnil
    rw [trimMatches, hnil] at h
    cases h
  have hlast := List.rdropWhile_last_not p (s.dropWhile p) hne
  rw [trimMatches, List.getLast?_eq_some_getLast hne] at h
  rw [Option.some.inj h] at hlast
  simpa using hlast

theorem mem_of_mem_trim {s : Str} {c : Char} (h : c ∈ trim s) : c ∈ s :=
  mem_of_mem_trimMatches h

theorem IsAscii.trim {s : Str} (h : IsAscii s) : IsAscii (trim s) :=
  h.of_subset fun _ hc => mem_of_mem_trim hc

theorem isWhitespace_of_isBlank {c : Char} (h : isBlank c = true) : isWhitespace c = true := by
  simp only [isBlank, Bool.or_eq_true, beq_iff_eq] at h
  rcases h with rfl | rfl <;> rfl

/-- A trimmed text starts with no blank. -/
theorem dropWhile_isBlank_trim (s : Str) : (trim s).dropWhile isBlank = trim s := by
  cases hs : trim s with
  | nil => rfl
  | cons c t =>
      have hspace : isWhitespace c = false :=
        head?_trimMatches (show (trim s).head? = some c by rw [hs]; rfl)
      apply List.dropWhile_cons_of_neg
      intro hc
      rw [isWhitespace_of_isBlank hc] at hspace
      cases hspace

theorem mem_of_mem_trimStart {s : Str} {c : Char} (h : c ∈ trimStart s) : c ∈ s :=
  (List.dropWhile_suffix _).subset h

/-! ## Searching -/

/-- `str::find`: the byte offset of the first match. -/
def find (p : Char → Bool) : Str → Option Nat
  | [] => none
  | c :: s => if p c then some 0 else (find p s).map (c.utf8Size + ·)

theorem find_eq_none {p : Char → Bool} {s : Str} (h : find p s = none) :
    ∀ c ∈ s, p c = false := by
  induction s with
  | nil => simp
  | cons c s ih =>
      simp only [find] at h
      by_cases hc : p c = true
      · simp [hc] at h
      · simp only [hc, Bool.false_eq_true, if_false, Option.map_eq_none_iff] at h
        intro d hd
        rcases List.mem_cons.mp hd with rfl | hd
        · simpa using hc
        · exact ih h d hd

/-- A match sits on a character boundary: the text before it holds no
match, the text from it on starts with one. -/
theorem find_eq_some {p : Char → Bool} {s : Str} {i : Nat} (h : find p s = some i) :
    ∃ a c b, s = a ++ c :: b ∧ byteLen a = i ∧ p c = true ∧ ∀ d ∈ a, p d = false := by
  induction s generalizing i with
  | nil => simp [find] at h
  | cons c s ih =>
      simp only [find] at h
      by_cases hc : p c = true
      · simp only [hc, if_true, Option.some.injEq] at h
        subst h
        exact ⟨[], c, s, rfl, rfl, hc, by simp⟩
      · simp only [hc, Bool.false_eq_true, if_false, Option.map_eq_some_iff] at h
        obtain ⟨j, hj, rfl⟩ := h
        obtain ⟨a, d, b, rfl, rfl, hd, ha⟩ := ih hj
        refine ⟨c :: a, d, b, rfl, rfl, hd, ?_⟩
        intro e he
        rcases List.mem_cons.mp he with rfl | he
        · simpa using hc
        · exact ha e he

/-! ## Prefixes and splits -/

/-- `str::strip_prefix`. -/
def stripPrefix (pat s : Str) : Option Str := pat.isPrefixOf? s

theorem stripPrefix_eq_some {pat s t : Str} : stripPrefix pat s = some t ↔ s = pat ++ t := by
  induction pat generalizing s with
  | nil => simp [stripPrefix, List.isPrefixOf?]
  | cons c pat ih =>
      cases s with
      | nil => simp [stripPrefix, List.isPrefixOf?]
      | cons d s =>
          simp only [stripPrefix, List.isPrefixOf?, List.cons_append, List.cons.injEq] at ih ⊢
          by_cases hcd : c = d
          · simp [hcd, ih]
          · simp [hcd, Ne.symm hcd]

@[simp] theorem stripPrefix_append (pat t : Str) : stripPrefix pat (pat ++ t) = some t :=
  stripPrefix_eq_some.mpr rfl

/-- `str::split_once`. -/
def splitOnce (pat : Str) : Str → Option (Str × Str)
  | [] => if pat = [] then some ([], []) else none
  | c :: s =>
      match stripPrefix pat (c :: s) with
      | some t => some ([], t)
      | none => (splitOnce pat s).map fun p => (c :: p.1, p.2)

/-- `str::rsplit_once` at a single character. -/
def rsplitOnce (c : Char) (s : Str) : Option (Str × Str) :=
  (splitOnce [c] s.reverse).map fun p => (p.2.reverse, p.1.reverse)

theorem splitOnce_char_cons (c d : Char) (s : Str) :
    splitOnce [c] (d :: s) =
      if c = d then some ([], s) else (splitOnce [c] s).map fun p => (d :: p.1, p.2) := by
  by_cases h : c = d <;> simp [splitOnce, stripPrefix, List.isPrefixOf?, h]

theorem splitOnce_char {c : Char} {a : Str} (h : c ∉ a) (b : Str) :
    splitOnce [c] (a ++ c :: b) = some (a, b) := by
  induction a with
  | nil => simp [splitOnce_char_cons]
  | cons d a ih =>
      simp only [List.mem_cons, not_or] at h
      rw [List.cons_append, splitOnce_char_cons, if_neg h.1, ih h.2]
      rfl

/-- A separator that does not occur in `a` is looked for behind `a`. -/
theorem splitOnce_char_append {c : Char} {a : Str} (h : c ∉ a) (b : Str) :
    splitOnce [c] (a ++ b) = (splitOnce [c] b).map fun p => (a ++ p.1, p.2) := by
  induction a with
  | nil => simp
  | cons d a ih =>
      simp only [List.mem_cons, not_or] at h
      rw [List.cons_append, splitOnce_char_cons, if_neg h.1, ih h.2, Option.map_map]
      rfl

theorem splitOnce_char_eq_none {c : Char} {s : Str} : splitOnce [c] s = none ↔ c ∉ s := by
  induction s with
  | nil => simp [splitOnce]
  | cons d s ih =>
      rw [splitOnce_char_cons]
      by_cases hd : c = d
      · simp [hd]
      · simp [hd, ih]

theorem splitOnce_char_none {c : Char} {s : Str} (h : c ∉ s) : splitOnce [c] s = none :=
  splitOnce_char_eq_none.mpr h

theorem splitOnce_char_eq_some {c : Char} {s a b : Str} (h : splitOnce [c] s = some (a, b)) :
    s = a ++ c :: b ∧ c ∉ a := by
  induction s generalizing a with
  | nil => simp [splitOnce] at h
  | cons d s ih =>
      rw [splitOnce_char_cons] at h
      split at h
      · rename_i hd
        cases h
        exact ⟨by rw [hd]; rfl, List.not_mem_nil⟩
      · rename_i hd
        obtain ⟨p, hp, hab⟩ := Option.map_eq_some_iff.mp h
        obtain ⟨rfl, rfl⟩ := Prod.mk.inj hab
        obtain ⟨hs, hmem⟩ := ih hp
        exact ⟨by rw [hs]; rfl, by simp [hd, hmem]⟩

theorem rsplitOnce_char {c : Char} {b : Str} (h : c ∉ b) (a : Str) :
    rsplitOnce c (a ++ c :: b) = some (a, b) := by
  have hr : c ∉ b.reverse := by simpa using h
  have he : (a ++ c :: b).reverse = b.reverse ++ c :: a.reverse := by simp
  rw [rsplitOnce, he, splitOnce_char hr]
  simp

/-- A pattern of two different characters that does not occur in `m` is
found right behind `m`: it cannot overlap the end of `m`. -/
theorem splitOnce_pair {x y : Char} (hxy : x ≠ y) {m : Str} (h : ¬ [x, y] <:+: m) (e : Str) :
    splitOnce [x, y] (m ++ x :: y :: e) = some (m, e) := by
  induction m with
  | nil => simp [splitOnce, stripPrefix, List.isPrefixOf?]
  | cons c m ih =>
      have hm : ¬ [x, y] <:+: m := fun hi => h (hi.trans (List.suffix_cons c m).isInfix)
      have hno : stripPrefix [x, y] (c :: (m ++ x :: y :: e)) = none := by
        rw [Option.eq_none_iff_forall_ne_some]
        intro t ht
        rw [stripPrefix_eq_some] at ht
        simp only [List.cons_append, List.nil_append, List.cons.injEq] at ht
        obtain ⟨rfl, ht⟩ := ht
        cases m with
        | nil =>
            simp only [List.nil_append, List.cons.injEq] at ht
            exact hxy ht.1
        | cons d m =>
            simp only [List.cons_append, List.cons.injEq] at ht
            obtain ⟨rfl, -⟩ := ht
            exact h ⟨[], m, rfl⟩
      rw [List.cons_append, splitOnce, hno, ih hm]
      rfl

theorem splitOnce_none_of_not_infix {pat s : Str} (hp : pat ≠ []) (h : ¬ pat <:+: s) :
    splitOnce pat s = none := by
  induction s with
  | nil => simp [splitOnce, hp]
  | cons c s ih =>
      have hs : ¬ pat <:+: s := fun hi => h (hi.trans (List.suffix_cons c s).isInfix)
      have hno : stripPrefix pat (c :: s) = none := by
        rw [Option.eq_none_iff_forall_ne_some]
        intro t ht
        rw [stripPrefix_eq_some] at ht
        exact h ⟨[], t, by simp [ht]⟩
      rw [splitOnce, hno, ih hs]
      rfl

/-- Joining adds nothing but separators. -/
theorem mem_intercalate {sep c : Char} {ws : List Str} (h : c ∈ List.intercalate [sep] ws) :
    c = sep ∨ ∃ w ∈ ws, c ∈ w := by
  induction ws with
  | nil => simp at h
  | cons w ws ih =>
      cases ws with
      | nil =>
          rw [List.intercalate_singleton] at h
          exact .inr ⟨w, List.mem_cons_self, h⟩
      | cons w' ws =>
          rw [List.intercalate_cons_cons, List.mem_append, List.mem_append,
            List.mem_singleton] at h
          rcases h with (h | h) | h
          · exact .inr ⟨w, List.mem_cons_self, h⟩
          · exact .inl h
          · rcases ih h with h | ⟨x, hx, hc⟩
            · exact .inl h
            · exact .inr ⟨x, List.mem_cons_of_mem w hx, hc⟩

/-- An optional part behind its separator. -/
def behind (c : Char) : Option Str → Str
  | some t => c :: t
  | none => []

/-- Every text is a piece without the separator and what is behind it. -/
theorem exists_behind (c : Char) (s : Str) : ∃ a t, s = a ++ behind c t ∧ c ∉ a := by
  cases hsplit : splitOnce [c] s with
  | some p =>
      obtain ⟨hs, ha⟩ := splitOnce_char_eq_some (a := p.1) (b := p.2) hsplit
      exact ⟨p.1, some p.2, hs, ha⟩
  | none => exact ⟨s, none, (List.append_nil s).symm, splitOnce_char_eq_none.mp hsplit⟩

theorem splitOnce_behind {c : Char} {a : Str} (h : c ∉ a) (t : Option Str) :
    splitOnce [c] (a ++ behind c t) = t.map fun b => (a, b) := by
  cases t with
  | some b => exact splitOnce_char h b
  | none =>
      rw [behind, List.append_nil]
      exact splitOnce_char_none h

/-- `str::splitn` at a single character. -/
def splitN : Nat → Char → Str → List Str
  | 0, _, _ => []
  | 1, _, s => [s]
  | n + 2, c, s =>
      match splitOnce [c] s with
      | some (a, b) => a :: splitN (n + 1) c b
      | none => [s]

theorem splitN_behind {c : Char} {a : Str} (h : c ∉ a) (n : Nat) (t : Option Str) :
    splitN (n + 2) c (a ++ behind c t) = a :: (t.map (splitN (n + 1) c)).getD [] := by
  rw [splitN, splitOnce_behind h]
  cases t with
  | some b => rfl
  | none =>
      rw [behind, List.append_nil]
      rfl

/-- `str::split_whitespace`. -/
def splitWhitespace (s : Str) : List Str :=
  (s.splitOnP isWhitespace).filter (fun w => !w.isEmpty)

theorem mem_splitOnP {p : Char → Bool} {s w : Str} (h : w ∈ s.splitOnP p) :
    ∀ c ∈ w, c ∈ s ∧ p c = false := by
  induction s generalizing w with
  | nil => simp_all
  | cons d s ih =>
      rw [List.splitOnP_cons_eq_if_modifyHead] at h
      by_cases hd : p d = true
      · simp only [hd, if_true, List.mem_cons] at h
        rcases h with rfl | h
        · simp
        · intro c hc
          exact ⟨List.mem_cons_of_mem d (ih h c hc).1, (ih h c hc).2⟩
      · simp only [hd, Bool.false_eq_true, if_false] at h
        obtain ⟨w₀, ws, hw⟩ := List.exists_cons_of_ne_nil (List.splitOnP_ne_nil p s)
        rw [hw] at h ih
        simp only [List.modifyHead_cons, List.mem_cons] at h
        rcases h with rfl | h
        · intro c hc
          rcases List.mem_cons.mp hc with rfl | hc
          · exact ⟨by simp, by simpa using hd⟩
          · exact ⟨List.mem_cons_of_mem d (ih (by simp) c hc).1, (ih (by simp) c hc).2⟩
        · intro c hc
          exact ⟨List.mem_cons_of_mem d (ih (by simp [h]) c hc).1, (ih (by simp [h]) c hc).2⟩

/-- The words of a text are non-empty, taken from the text and free of
whitespace. -/
theorem mem_splitWhitespace {s w : Str} (h : w ∈ splitWhitespace s) :
    w ≠ [] ∧ ∀ c ∈ w, c ∈ s ∧ isWhitespace c = false := by
  simp only [splitWhitespace, List.mem_filter] at h
  exact ⟨by simpa using h.2, mem_splitOnP h.1⟩

end RustStd
