import Rwhois.RustStd.Pattern

/-!
# RustStd — Lines

Texts made of lines that each end in CR LF: how they are put together
(`unlines`) and how a reader takes them apart (`splitTerminator`, which
is `str::split_terminator("\r\n")`). A line that holds neither CR nor LF
survives the trip, whatever stands before and behind it.
-/

namespace RustStd

/-- No CR and no LF: the text stays inside one line. -/
def IsLine (s : Str) : Prop := ∀ c ∈ s, c ≠ '\r' ∧ c ≠ '\n'

instance (s : Str) : Decidable (IsLine s) :=
  List.decidableBAll (fun c => c ≠ '\r' ∧ c ≠ '\n') s

theorem IsLine.nil : IsLine [] := by
  intro c hc
  simp at hc

theorem IsLine.append_iff {s t : Str} : IsLine (s ++ t) ↔ IsLine s ∧ IsLine t := by
  simp only [IsLine, List.mem_append]
  constructor
  · intro h
    exact ⟨fun c hc => h c (.inl hc), fun c hc => h c (.inr hc)⟩
  · rintro ⟨hs, ht⟩ c (hc | hc)
    · exact hs c hc
    · exact ht c hc

theorem IsLine.append {s t : Str} (hs : IsLine s) (ht : IsLine t) : IsLine (s ++ t) :=
  IsLine.append_iff.mpr ⟨hs, ht⟩

theorem IsLine.cons_iff {c : Char} {s : Str} :
    IsLine (c :: s) ↔ (c ≠ '\r' ∧ c ≠ '\n') ∧ IsLine s := by
  simp [IsLine]

theorem IsLine.of_subset {s t : Str} (h : IsLine s) (hsub : ∀ c ∈ t, c ∈ s) : IsLine t :=
  fun c hc => h c (hsub c hc)

/-- The check on the bytes says the same. -/
theorem IsLine.of_utf8 {s : Str} (h : ∀ b ∈ utf8 s, b ≠ 0x0D ∧ b ≠ 0x0A) : IsLine s := by
  intro c hc
  constructor
  · rintro rfl
    exact (h 0x0D (List.mem_flatMap.mpr ⟨'\r', hc, by decide⟩)).1 rfl
  · rintro rfl
    exact (h 0x0A (List.mem_flatMap.mpr ⟨'\n', hc, by decide⟩)).2 rfl

theorem IsLine.utf8 {s : Str} (h : IsLine s) : ∀ b ∈ utf8 s, b ≠ 0x0D ∧ b ≠ 0x0A := by
  intro b hb
  obtain ⟨c, hc, hbc⟩ := List.mem_flatMap.mp hb
  obtain ⟨hcr, hlf⟩ := h c hc
  constructor
  · rintro rfl
    have hval := toNat_of_mem_utf8EncodeChar hbc (by decide)
    exact hcr (Char.toNat_inj.mp hval.symm)
  · rintro rfl
    have hval := toNat_of_mem_utf8EncodeChar hbc (by decide)
    exact hlf (Char.toNat_inj.mp hval.symm)

theorem IsLine.trim {s : Str} (h : IsLine s) : IsLine (trim s) :=
  h.of_subset fun _ hc => mem_of_mem_trim hc

theorem IsLine.toAsciiLowercase {s : Str} (h : IsLine s) : IsLine (toAsciiLowercase s) := by
  intro c hc
  obtain ⟨d, hd, rfl⟩ := List.mem_map.mp hc
  exact ⟨toLower_ne (h d hd).1 (by decide), toLower_ne (h d hd).2 (by decide)⟩

def crlf : Str := ['\r', '\n']

/-- Every line followed by CR LF. -/
def unlines (ls : List Str) : Str := ls.flatMap (· ++ crlf)

@[simp] theorem unlines_nil : unlines [] = [] := rfl

@[simp] theorem unlines_cons (l : Str) (ls : List Str) :
    unlines (l :: ls) = l ++ (crlf ++ unlines ls) := by
  simp [unlines]

@[simp] theorem unlines_append (ls ms : List Str) :
    unlines (ls ++ ms) = unlines ls ++ unlines ms := by
  simp [unlines]

/-- The pieces between the CR LF pairs, `acc` holding the current piece
in reverse; a last piece without terminator counts unless it is empty. -/
def splitTerminatorAux (acc : Str) : Str → List Str
  | [] => if acc = [] then [] else [acc.reverse]
  | '\r' :: '\n' :: s => acc.reverse :: splitTerminatorAux [] s
  | c :: s => splitTerminatorAux (c :: acc) s

/-- `str::split_terminator("\r\n")`. -/
def splitTerminator (s : Str) : List Str := splitTerminatorAux [] s

theorem splitTerminatorAux_isLine {l : Str} (h : IsLine l) (acc s : Str) :
    splitTerminatorAux acc (l ++ s) = splitTerminatorAux (l.reverse ++ acc) s := by
  induction l generalizing acc with
  | nil => rfl
  | cons c l ih =>
      obtain ⟨⟨hc, -⟩, hl⟩ := IsLine.cons_iff.mp h
      rw [List.cons_append, splitTerminatorAux]
      · rw [ih hl]
        simp
      · rintro s' rfl
        exact absurd rfl hc

theorem splitTerminator_line {l : Str} (h : IsLine l) (s : Str) :
    splitTerminator (l ++ (crlf ++ s)) = l :: splitTerminator s := by
  rw [splitTerminator, splitTerminatorAux_isLine h]
  simp [crlf, splitTerminatorAux, splitTerminator]

theorem splitTerminatorAux_append (acc s t : Str) :
    splitTerminatorAux acc (s ++ (crlf ++ t)) =
      splitTerminatorAux acc (s ++ crlf) ++ splitTerminatorAux [] t := by
  fun_induction splitTerminatorAux acc s with
  | case1 | case2 => simp [crlf, splitTerminatorAux]
  | case3 acc s ih => simp [splitTerminatorAux, ih]
  | case4 acc c s hpair ih =>
      -- a pair that starts with `c` would lie inside `s`
      have hstep (t : Str) : splitTerminatorAux acc (c :: s ++ (crlf ++ t)) =
          splitTerminatorAux (c :: acc) (s ++ (crlf ++ t)) := by
        rw [List.cons_append, splitTerminatorAux]
        rintro s' rfl hs
        cases s with
        | nil => simp [crlf] at hs
        | cons d s =>
            rw [List.cons_append] at hs
            obtain ⟨rfl, -⟩ := List.cons.inj hs
            exact hpair s rfl rfl
      have hnil := hstep []
      rw [List.append_nil] at hnil
      rw [hstep, hnil, ih]

/-- The piece that has been begun is the first one. -/
theorem exists_splitTerminatorAux (acc s : Str) :
    ∃ piece pieces, splitTerminatorAux acc (s ++ crlf) = (acc.reverse ++ piece) :: pieces := by
  induction s generalizing acc with
  | nil => exact ⟨[], [], by simp [crlf, splitTerminatorAux]⟩
  | cons c s ih =>
      by_cases hpair : c = '\r' ∧ ∃ t, s ++ crlf = '\n' :: t
      · obtain ⟨rfl, t, ht⟩ := hpair
        exact ⟨[], splitTerminatorAux [] t, by rw [List.cons_append, ht, splitTerminatorAux]; simp⟩
      · obtain ⟨piece, pieces, h⟩ := ih (c :: acc)
        refine ⟨c :: piece, pieces, ?_⟩
        rw [List.cons_append, splitTerminatorAux, h]
        · simp
        · rintro t rfl ht
          exact hpair ⟨rfl, t, ht⟩

/-- A text without CR and LF stays at the start of the first piece. -/
theorem exists_splitTerminator {l : Str} (h : IsLine l) (s : Str) :
    ∃ piece pieces, splitTerminator (l ++ (s ++ crlf)) = (l ++ piece) :: pieces := by
  obtain ⟨piece, pieces, hs⟩ := exists_splitTerminatorAux (l.reverse ++ []) s
  refine ⟨piece, pieces, ?_⟩
  rw [splitTerminator, splitTerminatorAux_isLine h, hs]
  simp

/-- Whole lines are read before what follows them, also when one of them
holds a terminator of its own. -/
theorem splitTerminator_unlines_append (ls : List Str) (t : Str) :
    splitTerminator (unlines ls ++ t) = splitTerminator (unlines ls) ++ splitTerminator t := by
  rcases List.eq_nil_or_concat ls with rfl | ⟨ls, l, rfl⟩
  · rfl
  · have hlast : unlines (ls.concat l) = (unlines ls ++ l) ++ crlf := by simp
    rw [hlast, List.append_assoc]
    exact splitTerminatorAux_append [] (unlines ls ++ l) t

/-- Lines come back as they were put together. -/
theorem splitTerminator_unlines {ls : List Str} (h : ∀ l ∈ ls, IsLine l) :
    splitTerminator (unlines ls) = ls := by
  induction ls with
  | nil => rfl
  | cons l ls ih =>
      rw [unlines_cons, splitTerminator_line (h l (by simp)),
        ih (fun m hm => h m (by simp [hm]))]

/-- A piece is no longer than the whole. -/
theorem length_le_of_mem_splitOn {α : Type} [BEq α] {a : α} {piece xs : List α}
    (h : piece ∈ xs.splitOn a) : piece.length ≤ xs.length := by
  induction xs generalizing piece with
  | nil =>
      rw [List.splitOn_nil] at h
      rw [List.mem_singleton.mp h]
  | cons x xs ih =>
      rw [List.splitOn_cons_eq_if_modifyHead] at h
      split at h
      · rcases List.mem_cons.mp h with rfl | h
        · exact Nat.zero_le _
        · exact Nat.le_succ_of_le (ih h)
      · obtain ⟨p, ps, hps⟩ := List.exists_cons_of_ne_nil (List.splitOn_ne_nil a xs)
        rw [hps, List.modifyHead_cons] at h
        rcases List.mem_cons.mp h with rfl | h
        · exact Nat.succ_le_succ (ih (by rw [hps]; exact List.mem_cons_self))
        · exact Nat.le_succ_of_le (ih (by rw [hps]; exact List.mem_cons_of_mem p h))

end RustStd
