import Rwhois.Query.Spine

/-!
# Query — Progress

Why `parse_expr` ends. `pos` moves backwards in two places: a keyword that
was not one, and an attribute name without an operator. Still every round
of the loop that goes on has moved `pos` forward, because every term takes
at least one character, be it of stars or quotes only; and the loop is left
only at the end of the input. So `parse_expr` needs no more rounds than
there are bytes, and the check of `Query::parse` for input that is left
over never fails.
-/

namespace Rwhois

open RustStd

namespace Parser

/-! ## One round -/

/-- One round of the loop of `parse_expr`: `none` where it breaks. -/
def parseExprRound (lhs : Expr) : Exec Parser Error (Option Expr) := do
  skipWs
  if ← eof then
    pure none
  else
    tryKeywords fun op => do
      let rhs ← parseTerm
      pure (some (op lhs (.term rhs)))

/-- `parse_expr` with a bound on the rounds of its loop. -/
def parseExprWithin (rounds : Nat) : Exec Parser Error Expr := do
  skipWs
  let first ← parseTerm
  parseExprLoop rounds (.term first)

theorem tryKeywords_bind {α β : Type} (onTerm : (Expr → Expr → Expr) → Exec Parser Error α)
    (f : α → Exec Parser Error β) :
    tryKeywords onTerm >>= f = tryKeywords fun op => onTerm op >>= f := by
  simp only [tryKeywords, Exec.bind_bind]
  refine bind_congr fun save => bind_congr fun isAnd => ?_
  cases isAnd with
  | true => rfl
  | false =>
      simp only [Bool.false_eq_true, if_false, Exec.bind_bind]
      refine bind_congr fun _ => bind_congr fun isOr => ?_
      cases isOr with
      | true => rfl
      | false => simp only [Bool.false_eq_true, if_false, Exec.bind_bind]

/-- The loop is its first round and the loop behind it. -/
theorem parseExprLoop_succ (fuel : Nat) (lhs : Expr) :
    parseExprLoop (fuel + 1) lhs = (do
      match ← parseExprRound lhs with
      | none => pure lhs
      | some lhs' => parseExprLoop fuel lhs') := by
  simp only [parseExprRound, Exec.bind_bind]
  refine bind_congr fun _ => bind_congr fun atEnd => ?_
  cases atEnd with
  | true => rfl
  | false =>
      simp only [Bool.false_eq_true, if_false, tryKeywords_bind, Exec.bind_bind, Exec.pure_then]
      rfl

/-- Every term comes to an end. -/
theorem readTerm_returns (s : Str) : (readTerm s).Returns := by
  rw [← readTerm_dropWhile]
  have hs : (s.dropWhile isBlank).dropWhile isBlank = s.dropWhile isBlank :=
    List.dropWhile_idempotent ..
  generalize s.dropWhile isBlank = start at hs
  by_cases hne : start = []
  · subst hne
    trivial
  · have hagrees := Grammar.readTerm_agrees hs hne
    cases hspec : (Grammar.nextToken start).bind fun p =>
        (Grammar.termOf p.1).map fun t => (t, p.2) with
    | none =>
        rw [hspec] at hagrees
        obtain ⟨message, -, herr⟩ := hagrees
        rw [herr]
        trivial
    | some p =>
        rw [hspec] at hagrees
        rw [show readTerm start = .ok p from hagrees]
        trivial

/-- A routine whose reading comes to an end has moved over what it took,
or has failed. -/
theorem Reads.ends {α : Type} {x : Exec Parser Error α} {rest : Str}
    {o : Outcome Error (α × Str)} (h : Reads x rest o) (hreturns : o.Returns) (pre : Str) :
    (∃ a taken rest', o = .ok (a, rest') ∧ rest = taken ++ rest' ∧
      x.run (cursor pre rest) = (.ok a, cursor (pre ++ taken) rest')) ∨
      ∃ e self, x.run (cursor pre rest) = (.err e, self) := by
  cases o with
  | ok p =>
      obtain ⟨a, rest'⟩ := p
      obtain ⟨taken, hsplit, hrun⟩ := h.run_ok
      exact .inl ⟨a, taken, rest', rfl, hsplit, hrun pre⟩
  | err e => exact .inr ⟨e, _, Prod.ext (h.outcome pre) rfl⟩
  | panic => exact hreturns.elim
  | diverge => exact hreturns.elim

/-- What one round does: it breaks at the end of the input, it goes on
with at least one character taken, or it fails. -/
inductive RoundEnds (pre rest : Str) : Outcome Error (Option Expr) × Parser → Prop where
  | breaks : RoundEnds pre rest (.ok none, cursor (pre ++ rest) [])
  | goesOn {taken rest' : Str} (e : Expr) (hrest : rest = taken ++ rest') (hne : taken ≠ []) :
      RoundEnds pre rest (.ok (some e), cursor (pre ++ taken) rest')
  | fails (e : Error) (self : Parser) : RoundEnds pre rest (.err e, self)

/-- The same in terms of `pos`. -/
theorem RoundEnds.moves {pre rest : Str} {r : Outcome Error (Option Expr) × Parser} :
    RoundEnds pre rest r → match r with
    | (.ok (some _), self) => self.input = pre ++ rest ∧
        byteLen pre < self.pos ∧ self.pos ≤ byteLen (pre ++ rest)
    | (.ok none, self) => self.input = pre ++ rest ∧ self.pos = byteLen (pre ++ rest)
    | (.err _, _) => True
    | (.panic, _) | (.diverge, _) => False := by
  intro h
  cases h with
  | breaks => exact ⟨List.append_nil _, rfl⟩
  | fails e self => trivial
  | @goesOn taken rest' e hrest hne =>
      have htaken : byteLen taken ≠ 0 := fun h => hne (byteLen_eq_zero.mp h)
      rw [hrest, ← List.append_assoc]
      refine ⟨cursor_input _ _, ?_, ?_⟩
      · rw [cursor_pos, byteLen_append]
        omega
      · rw [cursor_pos, byteLen_append (pre ++ taken)]
        omega

theorem roundEnds {rest : Str} (hascii : IsAscii rest) (lhs : Expr) (pre : Str) :
    RoundEnds pre rest ((parseExprRound lhs).run (cursor pre rest)) := by
  set start := rest.dropWhile isBlank with hstart
  have hrest : rest = rest.takeWhile isBlank ++ start := by
    rw [hstart, List.takeWhile_append_dropWhile]
  rw [parseExprRound, Exec.run_bind_ok (run_skipWs pre rest), Exec.run_bind_ok (run_eof _ _),
    ← hstart]
  by_cases hend : start = []
  · rw [hend, List.append_nil] at hrest
    rw [hend, decide_eq_true rfl, if_pos rfl, ← hrest]
    exact .breaks
  rw [decide_eq_false hend, if_neg (by decide)]
  have hstartAscii : IsAscii start := hascii.of_subset (List.dropWhile_suffix _).subset
  have hreads : Reads (tryKeywords fun op => do
      let rhs ← parseTerm
      pure (some (op lhs (.term rhs)))) start
      ((readTerm (readOperator start).2).map fun p =>
        (some ((readOperator start).1 lhs (.term p.1)), p.2)) :=
    reads_tryKeywords _ ⟨cuts_of_isAscii hstartAscii 3, cuts_of_isAscii hstartAscii 2⟩
      ((reads_parseTerm _).map fun t => some ((readOperator start).1 lhs (.term t)))
  have hreturns := readTerm_returns (readOperator start).2
  rcases hreads.ends (Outcome.returns_map.mpr hreturns) (pre ++ rest.takeWhile isBlank) with
    ⟨e, taken, _, hok, hsplit, hrun⟩ | ⟨e, self, hrun⟩
  · obtain ⟨⟨t, left⟩, hterm, heq⟩ := Outcome.map_eq_ok.mp hok
    cases heq
    rw [hrun, List.append_assoc]
    refine .goesOn _ ?_ ?_
    · rw [List.append_assoc, ← hsplit, ← hrest]
    · intro hnil
      have hshort := readTerm_length hterm
      have hsuffix := (readOperator_suffix start).length_le
      have hlen : start.length = left.length := by
        rw [hsplit, (List.append_eq_nil_iff.mp hnil).2, List.nil_append]
      omega
  · rw [hrun]
    exact .fails e self

/-! ## The loop -/

/-- Behind enough rounds nothing changes any more. -/
theorem run_parseExprLoop_enough {rest : Str} (hascii : IsAscii rest) {m n : Nat}
    (hm : rest.length < m) (hn : rest.length < n) (lhs : Expr) (pre : Str) :
    (parseExprLoop m lhs).run (cursor pre rest) = (parseExprLoop n lhs).run (cursor pre rest) := by
  induction m generalizing n lhs pre rest with
  | zero => omega
  | succ m ih =>
      obtain ⟨n, rfl⟩ : ∃ k, n = k + 1 := ⟨n - 1, by omega⟩
      rw [parseExprLoop_succ, parseExprLoop_succ, Exec.run_bind, Exec.run_bind]
      have hround := roundEnds hascii lhs pre
      generalize (parseExprRound lhs).run (cursor pre rest) = r at hround
      cases hround with
      | breaks => rfl
      | fails e self => rfl
      | goesOn e hrest hne =>
          have hpos := List.length_pos_of_ne_nil hne
          rw [hrest, List.length_append] at hm hn
          rw [hrest] at hascii
          exact ih (IsAscii.append.mp hascii).2 (by omega) (by omega) e _

/-- The loop ends, with `pos` at the end of the input if it ends well. -/
theorem run_parseExprLoop_ends {rest : Str} (hascii : IsAscii rest) {fuel : Nat}
    (hfuel : rest.length < fuel) (lhs : Expr) (pre : Str) :
    (∃ e, (parseExprLoop fuel lhs).run (cursor pre rest) = (.ok e, cursor (pre ++ rest) [])) ∨
      ∃ e self, (parseExprLoop fuel lhs).run (cursor pre rest) = (.err e, self) := by
  induction fuel generalizing lhs pre rest with
  | zero => omega
  | succ fuel ih =>
      rw [parseExprLoop_succ, Exec.run_bind]
      have hround := roundEnds hascii lhs pre
      generalize (parseExprRound lhs).run (cursor pre rest) = r at hround
      cases hround with
      | breaks => exact .inl ⟨lhs, rfl⟩
      | fails e self => exact .inr ⟨e, self, rfl⟩
      | @goesOn taken rest' e hrest hne =>
          have hpos := List.length_pos_of_ne_nil hne
          rw [hrest, List.length_append] at hfuel
          rw [hrest] at hascii
          have h := ih (IsAscii.append.mp hascii).2 (by omega) e (pre ++ taken)
          rwa [List.append_assoc, ← hrest] at h

/-! ## The parser -/

/-- A position in an ASCII text cuts it in two. -/
theorem cursor_of_isAscii {s : Str} (hascii : IsAscii s) {p : Nat} (hp : p ≤ byteLen s) :
    ({ input := s, pos := p } : Parser) = cursor (s.take p) (s.drop p) := by
  have hpre : IsAscii (s.take p) := hascii.of_subset fun c hc => List.mem_of_mem_take hc
  rw [byteLen_of_ascii hascii] at hp
  rw [cursor, List.take_append_drop, byteLen_of_ascii hpre, List.length_take, Nat.min_eq_left hp]

/-- `parse_expr` ends: behind as many rounds as there are characters it
has come to the end of the input, or failed. -/
theorem run_parseExprWithin {rest : Str} (hascii : IsAscii rest) {rounds : Nat}
    (hrounds : rest.length ≤ rounds) (pre : Str) :
    (parseExprWithin rounds).run (cursor pre rest) = parseExpr.run (cursor pre rest) ∧
      ((∃ e, parseExpr.run (cursor pre rest) = (.ok e, cursor (pre ++ rest) [])) ∨
        ∃ e self, parseExpr.run (cursor pre rest) = (.err e, self)) := by
  rw [parseExprWithin, parseExpr, Exec.run_bind_ok (run_skipWs pre rest),
    Exec.run_bind_ok (run_skipWs pre rest)]
  have hstart : rest.takeWhile isBlank ++ rest.dropWhile isBlank = rest :=
    List.takeWhile_append_dropWhile
  generalize rest.takeWhile isBlank = blanks at hstart ⊢
  generalize rest.dropWhile isBlank = start at hstart ⊢
  subst hstart
  rcases (reads_parseTerm start).ends (readTerm_returns start) (pre ++ blanks) with
    ⟨t, taken, rest', hterm, hsplit, hrun⟩ | ⟨e, self, hrun⟩
  · have hshort := readTerm_length hterm
    have hall : blanks ++ start = blanks ++ taken ++ rest' := by
      rw [hsplit, List.append_assoc]
    rw [hall] at hascii
    have hrestAscii : IsAscii rest' := (IsAscii.append.mp hascii).2
    rw [List.length_append] at hrounds
    rw [Exec.run_bind_ok hrun, Exec.run_bind_ok hrun, Exec.run_get_bind, cursor_input]
    refine ⟨run_parseExprLoop_enough hrestAscii (by omega) ?_ _ _, ?_⟩
    · simp only [List.length_append]
      omega
    · have hfuel : rest'.length < (pre ++ blanks ++ taken ++ rest').length + 1 := by
        rw [List.length_append]
        omega
      have hends := run_parseExprLoop_ends hrestAscii hfuel (.term t) (pre ++ blanks ++ taken)
      rw [hall]
      simpa only [List.append_assoc] using hends
  · rw [Exec.run_bind, Exec.run_bind, hrun]
    exact ⟨rfl, .inr ⟨e, self, rfl⟩⟩

/-- At the end of the input there is nothing left over. -/
theorem run_finishTrimmed_end (e : Expr) (pre : Str) :
    (Query.finishTrimmed e).run (cursor pre []) = (.ok e, cursor pre []) := by
  rw [Query.finishTrimmed, Exec.run_bind_ok (run_skipWs pre []), List.takeWhile_nil,
    List.dropWhile_nil, List.append_nil, Exec.run_bind_ok (run_eof pre [])]
  rfl

theorem parse_ne_trailing (s text : Str) : Query.parse s ≠
    .err (.protocol .INVALID_QUERY_SYNTAX ("unexpected trailing input: ".toList ++ text)) := by
  intro h
  obtain ⟨message, hmem, heq⟩ := refuses_parse h
  have hnone : ∀ m ∈ refusals, ¬ "unexpected trailing input: ".toList <+: m.toList := by decide
  simp only [syntaxError, Error.protocol.injEq, true_and] at heq
  exact hnone message hmem ⟨text, heq⟩

/-- **Progress of the expression loop**, from every position in every ASCII
input. A round moves `pos` forward, breaks at the end of the input, or
fails; as many rounds as there are bytes left are enough; and when
`parse_expr` is done, `pos` is at the end of the input and nothing is left
over for `Query::parse` to refuse. -/
theorem parseExpr_progress (s : Str) (hascii : IsAscii s) (p : Nat) (hp : p ≤ byteLen s) :
    (∀ lhs, match (parseExprRound lhs).run { input := s, pos := p } with
      | (.ok (some _), self) => self.input = s ∧ p < self.pos ∧ self.pos ≤ byteLen s
      | (.ok none, self) => self.input = s ∧ self.pos = byteLen s
      | (.err _, _) => True
      | (.panic, _) | (.diverge, _) => False) ∧
    (∀ rounds, byteLen s - p ≤ rounds →
      (parseExprWithin rounds).run { input := s, pos := p } =
        parseExpr.run { input := s, pos := p }) ∧
    (parseExpr.run { input := s, pos := p }).1.Returns ∧
    (∀ e self, parseExpr.run { input := s, pos := p } = (.ok e, self) →
      self = { input := s, pos := byteLen s } ∧
        (Query.finishTrimmed e).run self = (.ok e, self)) ∧
    ∀ text, Query.parse s ≠
      .err (.protocol .INVALID_QUERY_SYNTAX ("unexpected trailing input: ".toList ++ text)) := by
  have hrestAscii : IsAscii (s.drop p) := hascii.of_subset fun c hc => List.mem_of_mem_drop hc
  have hall : s.take p ++ s.drop p = s := List.take_append_drop p s
  have hlen : byteLen (s.take p) = p := congrArg Parser.pos (cursor_of_isAscii hascii hp).symm
  rw [cursor_of_isAscii hascii hp]
  refine ⟨?_, ?_, ?_, ?_, parse_ne_trailing s⟩
  · intro lhs
    have hmoves := (roundEnds hrestAscii lhs (s.take p)).moves
    rw [hall, hlen] at hmoves
    exact hmoves
  · intro rounds hrounds
    refine (run_parseExprWithin hrestAscii ?_ _).1
    rw [byteLen_of_ascii hascii] at hrounds
    rwa [List.length_drop]
  · rcases (run_parseExprWithin hrestAscii le_rfl (s.take p)).2 with ⟨e, hrun⟩ | ⟨e, self, hrun⟩
    · rw [hrun]
      trivial
    · rw [hrun]
      trivial
  · intro e self hself
    rcases (run_parseExprWithin hrestAscii le_rfl (s.take p)).2 with ⟨e', hrun⟩ | ⟨e', self', hrun⟩
    · rw [hrun, hall] at hself
      cases hself
      exact ⟨by simp [cursor], run_finishTrimmed_end e s⟩
    · rw [hrun] at hself
      cases hself

/-- Behind `a`, the second character: the first keyword fails, the second
one is taken. -/
theorem parseExpr_progress_second :
    let s := "a or ***".toList
    IsAscii s ∧ 1 ≤ byteLen s ∧
      (∀ lhs, match (parseExprRound lhs).run { input := s, pos := 1 } with
        | (.ok (some _), self) => self.input = s ∧ 1 < self.pos ∧ self.pos ≤ byteLen s
        | (.ok none, self) => self.input = s ∧ self.pos = byteLen s
        | (.err _, _) => True
        | (.panic, _) | (.diverge, _) => False) := by
  intro s
  have hascii : IsAscii s := by decide
  exact ⟨hascii, by decide, (parseExpr_progress s hascii 1 (by decide)).1⟩

end Parser

end Rwhois
