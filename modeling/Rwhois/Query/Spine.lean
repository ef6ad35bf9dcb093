import Rwhois.Query.Grammar

/-!
# Query — Spine

Every tree of the parser leans to the left: a first term, and one more
term for each round of the loop of `parse_expr`. So a query is a term and
a LIST of joined terms, and what the parser makes of a text is a fact
about that list: `ReadsAs s t js` says that `s` is read as `t` with `js`
joined to it.

The printer and the class lift work on this list as well, and the results
about them are stated over it.
-/

namespace Rwhois

open RustStd Rwhois.Parser

/-- How a term is joined to the ones before it. -/
inductive Join where
  | and
  | or
  deriving Repr, DecidableEq

def Join.expr : Join → Expr → Expr → Expr
  | .and => .and
  | .or => .or

namespace Expr

/-- Join the terms to `lhs`, one after the other. -/
def attach (lhs : Expr) (js : List (Join × Term)) : Expr :=
  js.foldl (fun e j => j.1.expr e (.term j.2)) lhs

/-- The tree of a query. -/
def spine (t : Term) (js : List (Join × Term)) : Expr := attach (.term t) js

@[simp] theorem attach_nil (lhs : Expr) : attach lhs [] = lhs := rfl

@[simp] theorem attach_cons (lhs : Expr) (j : Join) (t : Term) (js : List (Join × Term)) :
    attach lhs ((j, t) :: js) = attach (j.expr lhs (.term t)) js := rfl

end Expr

/-! ## What a text is read as -/

namespace Parser

theorem readOperator_join (start : Str) : ∃ j : Join, (readOperator start).1 = j.expr := by
  unfold readOperator
  split
  · exact ⟨.and, rfl⟩
  · exact ⟨.or, rfl⟩
  · exact ⟨.and, rfl⟩

/-- The rounds of the loop on the text behind a term. -/
inductive Joined : Str → List (Join × Term) → Prop where
  | done {rest : Str} (hend : rest.dropWhile isBlank = []) : Joined rest []
  | next {rest start rest' : Str} {j : Join} {t : Term} {js : List (Join × Term)}
      (hne : rest.dropWhile isBlank ≠ [])
      (hop : readOperator (rest.dropWhile isBlank) = (j.expr, start))
      (hterm : readTerm start = .ok (t, rest')) (hrest : Joined rest' js) :
      Joined rest ((j, t) :: js)

/-- The text is read as `t` with the terms `js` joined to it. -/
def ReadsAs (s : Str) (t : Term) (js : List (Join × Term)) : Prop :=
  ∃ rest, readTerm s = .ok (t, rest) ∧ Joined rest js

/-! ## The loop -/

/-- Every term takes at least one character. -/
theorem readTerm_length {s rest : Str} {t : Term} (h : readTerm s = .ok (t, rest)) :
    rest.length < s.length := by
  have hlen := (List.dropWhile_suffix (l := s) isBlank).length_le
  have hs : (s.dropWhile isBlank).dropWhile isBlank = s.dropWhile isBlank :=
    List.dropWhile_idempotent ..
  rw [← readTerm_dropWhile] at h
  generalize s.dropWhile isBlank = start at h hlen hs
  have hne : start ≠ [] := by
    rintro rfl
    cases h
  have hagrees := Grammar.readTerm_agrees hs hne
  rw [h] at hagrees
  cases htok : Grammar.nextToken start with
  | none =>
      rw [htok] at hagrees
      obtain ⟨message, -, herr⟩ := hagrees
      cases herr
  | some p =>
      obtain ⟨tok, rest'⟩ := p
      have hshort := Grammar.nextToken_length hs hne htok
      rw [htok] at hagrees
      cases hterm : Grammar.termOf tok with
      | none =>
          simp only [Option.bind_some, hterm, Option.map_none] at hagrees
          obtain ⟨message, -, herr⟩ := hagrees
          cases herr
      | some t' =>
          simp only [Option.bind_some, hterm, Option.map_some] at hagrees
          cases hagrees
          omega

theorem readLoop_joined {fuel : Nat} {lhs e : Expr} {rest rest' : Str}
    (h : readLoop fuel lhs rest = .ok (e, rest')) : ∃ js, Joined rest js ∧ e = .attach lhs js := by
  induction fuel generalizing lhs rest with
  | zero => cases h
  | succ fuel ih =>
      simp only [readLoop] at h
      split at h
      · rename_i hend
        cases h
        exact ⟨[], .done hend, rfl⟩
      · rename_i hne
        cases hterm : readTerm (readOperator (rest.dropWhile isBlank)).2 with
        | ok p =>
            obtain ⟨t, left⟩ := p
            rw [hterm] at h
            obtain ⟨js, hjs, rfl⟩ := ih h
            obtain ⟨j, hj⟩ := readOperator_join (rest.dropWhile isBlank)
            refine ⟨(j, t) :: js, .next hne (Prod.ext hj rfl) hterm hjs, ?_⟩
            simp only [hj, Expr.attach_cons]
        | _ => simp [hterm, Outcome.bind] at h

/-- The loop needs no more rounds than the text has characters. -/
theorem Joined.readLoop {rest : Str} {js : List (Join × Term)} (h : Joined rest js) {fuel : Nat}
    (hfuel : rest.length < fuel) (lhs : Expr) :
    readLoop fuel lhs rest = .ok (.attach lhs js, []) := by
  induction h generalizing fuel lhs with
  | @done rest hend =>
      obtain ⟨fuel, rfl⟩ : ∃ n, fuel = n + 1 := ⟨fuel - 1, by omega⟩
      simp only [Parser.readLoop, hend, if_true, Expr.attach_nil]
  | @next rest start rest' j t js hne hop hterm hrest ih =>
      obtain ⟨fuel, rfl⟩ : ∃ n, fuel = n + 1 := ⟨fuel - 1, by omega⟩
      have hshort := readTerm_length hterm
      have hstart : start.length ≤ (rest.dropWhile isBlank).length := by
        have hsuffix := (readOperator_suffix (rest.dropWhile isBlank)).length_le
        rwa [hop] at hsuffix
      have hblanks := (List.dropWhile_suffix (l := rest) isBlank).length_le
      simp only [Parser.readLoop, if_neg hne, hop, hterm, Outcome.bind]
      rw [ih (by omega), Expr.attach_cons]

theorem readQuery_eq_ok {s rest : Str} {e : Expr} :
    readQuery s = .ok (e, rest) ↔ rest = [] ∧ ∃ t js, ReadsAs s t js ∧ e = .spine t js := by
  constructor
  · intro h
    cases hterm : readTerm s with
    | ok p =>
        obtain ⟨t, left⟩ := p
        rw [readQuery, hterm] at h
        obtain ⟨js, hjs, rfl⟩ := readLoop_joined h
        exact ⟨readLoop_rest h, t, js, ⟨left, hterm, hjs⟩, rfl⟩
    | _ => simp [readQuery, hterm, Outcome.bind] at h
  · rintro ⟨rfl, t, js, ⟨left, hterm, hjs⟩, rfl⟩
    have hshort := readTerm_length hterm
    rw [readQuery, hterm]
    exact hjs.readLoop (by omega) (.term t)

theorem ReadsAs.ne_nil {s : Str} {t : Term} {js : List (Join × Term)} (h : ReadsAs s t js) :
    s ≠ [] := by
  rintro rfl
  obtain ⟨rest, hterm, -⟩ := h
  cases hterm

end Parser

namespace Query

/-- **What the parser accepts, and as what**, on ASCII text. -/
theorem parse_eq_ok {s : Str} (hascii : IsAscii s) {q : Query} :
    parse s = .ok q ↔
      ∃ t js, ReadsAs (trim s) t js ∧ q = { cls := none, expr := .spine t js, raw := s } := by
  have haligned : Aligned (trim s) := .of_isAscii hascii.trim
  constructor
  · intro h
    simp only [parse, run_parseTrimmed, if_pos haligned] at h
    split at h
    · cases h
    · obtain ⟨e, hfst, rfl⟩ := Outcome.map_eq_ok.mp h
      obtain ⟨⟨e, rest⟩, hread, rfl⟩ := Outcome.map_eq_ok.mp hfst
      obtain ⟨-, t, js, hreads, rfl⟩ := readQuery_eq_ok.mp hread
      exact ⟨t, js, hreads, rfl⟩
  · rintro ⟨t, js, hreads, rfl⟩
    simp only [parse, run_parseTrimmed, if_pos haligned, if_neg hreads.ne_nil,
      readQuery_eq_ok.mpr ⟨rfl, t, js, hreads, rfl⟩]
    rfl

end Query

end Rwhois
