import Rwhois.Query.Print

/-!
# Query — Lifting

`with_class_if` takes the first word of a query for a class name, so that
`domain a or b` means the query `a or b` in the class `domain`. It works
on the tree: the leftmost term goes, and every level above it is rebuilt.

On a class name, blanks and a query the result is the tree of the query.
But the tree no longer says HOW the first two terms were joined. A word
that is joined to the rest by an explicit `or` or `and`, or that a quote
follows directly, is lifted all the same, and the operator is dropped
with it.
-/

namespace Rwhois

open RustStd Rwhois.Parser

/-! ## Splitting off the first term -/

namespace Query

theorem splitLeadingTerm_join {l l' : Expr} {t : Term} (h : splitLeadingTerm l = some (t, l'))
    (j : Join) (r : Expr) : splitLeadingTerm (j.expr l r) = some (t, j.expr l' r) := by
  cases l with
  | term u => cases h
  | and a b => cases j <;> simp [Join.expr, splitLeadingTerm, h]
  | or a b => cases j <;> simp [Join.expr, splitLeadingTerm, h]

/-- Every level above the first term is rebuilt. -/
theorem splitLeadingTerm_attach {l l' : Expr} {t : Term} (h : splitLeadingTerm l = some (t, l'))
    (js : List (Join × Term)) :
    splitLeadingTerm (.attach l js) = some (t, .attach l' js) := by
  induction js generalizing l l' with
  | nil => exact h
  | cons j js ih => exact ih (splitLeadingTerm_join h j.1 (.term j.2))

theorem splitLeadingTerm_spine (t u : Term) (j : Join) (js : List (Join × Term)) :
    splitLeadingTerm (.spine t ((j, u) :: js)) = some (t, .spine u js) := by
  have hfirst : splitLeadingTerm (j.expr (.term t) (.term u)) = some (t, .term u) := by
    cases j <;> rfl
  exact splitLeadingTerm_attach hfirst js

theorem withClassIf_lifts {isClass : Str → Bool} {c : Str} (hclass : isClass c = true) (u : Term)
    (j : Join) (js : List (Join × Term)) (raw : Str) :
    withClassIf { cls := none, expr := .spine (.value ⟨c, .exact⟩) ((j, u) :: js), raw } isClass =
      { cls := some c, expr := .spine u js, raw } := by
  simp only [withClassIf, splitLeadingTerm_spine, hclass, if_true]

/-- Other first terms stay, and so does a first term that is the last. -/
theorem withClassIf_keeps {isClass : Str → Bool} {t : Term} {js : List (Join × Term)} {raw : Str}
    (h : ∀ c, t = .value ⟨c, .exact⟩ → isClass c = true → js = []) :
    withClassIf { cls := none, expr := .spine t js, raw } isClass =
      { cls := none, expr := .spine t js, raw } := by
  cases js with
  | nil => rfl
  | cons j js =>
      obtain ⟨j, u⟩ := j
      simp only [withClassIf, splitLeadingTerm_spine]
      split
      · rename_i c rest hterm
        obtain ⟨rfl, rfl⟩ := Prod.mk.inj (Option.some.inj hterm)
        rw [if_neg]
        intro hclass
        cases h c rfl hclass
      · rfl

end Query

/-! ## A class name in front of a query -/

/-- `and` or `or` in any case, with a blank or the end behind it. -/
def BeginsWithKeyword (s : Str) : Prop :=
  ∃ kw ∈ ["and".toList, "or".toList],
    eqIgnoreAsciiCase (s.take kw.length) kw = true ∧ (s.drop kw.length).head?.all isBlank = true

instance (s : Str) : Decidable (BeginsWithKeyword s) :=
  inferInstanceAs (Decidable (∃ kw ∈ ["and".toList, "or".toList],
    eqIgnoreAsciiCase (s.take kw.length) kw = true ∧ (s.drop kw.length).head?.all isBlank = true))

namespace Parser

/-- Two terms side by side. -/
theorem readOperator_of_not_keyword {s : Str} (h : ¬ BeginsWithKeyword s) :
    readOperator s = (.and, s) := by
  have hnone : ∀ kw ∈ ["and".toList, "or".toList], readKeyword kw s = none :=
    fun kw hkw => if_neg fun hk => h ⟨kw, hkw, hk⟩
  rw [readOperator, hnone _ List.mem_cons_self,
    hnone _ (List.mem_cons_of_mem _ List.mem_cons_self)]

/-- A name alone is an exact value. -/
theorem wf_name {c : Str} (hc : IsName c) : (Term.value ⟨c, .exact⟩).WF := by
  have hstar : ∀ x ∈ c, x ≠ '*' := by
    rintro x hx rfl
    exact absurd (hc.chars '*' hx) (by decide)
  have hhead : c.head? ≠ some '*' := fun h => hstar '*' (List.mem_of_mem_head? h) rfl
  have hlast : c.getLast? ≠ some '*' := fun h => hstar '*' (List.mem_of_getLast? h) rfl
  refine Or.inl ⟨⟨fun x hx => Grammar.isQueryChar_of_isIdChar (hc.chars x hx), ?_⟩, ?_⟩
  · show bareValue c = _
    rw [bareValue_of_ne_star hhead]
    simp [finishQueryString, hlast, hc.ne_nil, kindOf]
  · have htake : c.takeWhile isIdChar = c := List.takeWhile_eq_self_iff.mpr hc.chars
    have hdrop : c.dropWhile isIdChar = [] := List.dropWhile_eq_nil_iff.mpr hc.chars
    simp [Grammar.splitAttr, Grammar.isNameChar_eq, Value.print, htake, hdrop, hc.ne_nil]

theorem dropWhile_blanks {blanks s : Str} (h : ∀ b ∈ blanks, isBlank b = true) :
    (blanks ++ s).dropWhile isBlank = s.dropWhile isBlank :=
  List.dropWhile_append_of_pos h

/-- Blanks and a query that does not begin with a keyword are joined as
they are. -/
theorem ReadsAs.joined {s : Str} {t : Term} {js : List (Join × Term)} (h : ReadsAs s t js)
    (hs : s.dropWhile isBlank = s) (hkw : ¬ BeginsWithKeyword s) {blanks : Str}
    (hblanks : ∀ b ∈ blanks, isBlank b = true) : Joined (blanks ++ s) ((.and, t) :: js) := by
  have hne := h.ne_nil
  obtain ⟨rest, hterm, hjoined⟩ := h
  have hstart : (blanks ++ s).dropWhile isBlank = s := (dropWhile_blanks hblanks).trans hs
  refine .next ?_ ?_ hterm hjoined
  · rwa [hstart]
  · rw [hstart, readOperator_of_not_keyword hkw]
    rfl

end Parser

/-- Id characters are printable ASCII. -/
theorem toNat_of_isIdChar {c : Char} (h : isIdChar c = true) : 32 < c.toNat ∧ c.toNat < 127 := by
  show 32 < c.val.toNat ∧ c.val.toNat < 127
  -- upper case, lower case, digits
  have hclass : (((decide ('A'.val ≤ c.val ∧ c.val ≤ 'Z'.val) ||
      (decide ('a'.val ≤ c.val) && decide (c.val ≤ 'z'.val))) ||
      (decide ('0'.val ≤ c.val) && decide (c.val ≤ '9'.val))) || c == '_' || c == '-') = true := h
  simp only [Bool.or_eq_true, Bool.and_eq_true, decide_eq_true_eq, beq_iff_eq,
    UInt32.le_iff_toNat_le, Char.reduceVal, UInt32.reduceToNat] at hclass
  rcases hclass with (((h | h) | h) | rfl) | rfl
  · omega
  · omega
  · omega
  · decide
  · decide

theorem not_isWhitespace_of_isIdChar {c : Char} (h : isIdChar c = true) :
    isWhitespace c = false := by
  obtain ⟨hlo, hhi⟩ := toNat_of_isIdChar h
  simp only [isWhitespace, Bool.or_eq_false_iff, Bool.and_eq_false_iff, decide_eq_false_iff_not,
    beq_eq_false_iff_ne]
  omega

theorem toNat_of_isBlank {c : Char} (h : isBlank c = true) : c.toNat < 128 := by
  simp only [isBlank, Bool.or_eq_true, beq_iff_eq] at h
  rcases h with rfl | rfl <;> decide

namespace Query

/-- **A class name in front of a query is lifted off it**, and the query
stays what it is without the class name. -/
theorem class_lift_agrees (c : Str) (hname : c ≠ []) (hchars : ∀ x ∈ c, isIdChar x = true)
    (isClass : Str → Bool) (hclass : isClass c = true) (blanks : Str) (hsome : blanks ≠ [])
    (hblanks : ∀ b ∈ blanks, isBlank b = true) (s : Str) (hascii : IsAscii s) (htrim : trim s = s)
    (hkw : ¬ BeginsWithKeyword s) (q : Query) (hparse : parse s = .ok q) :
    ∃ full, parse (c ++ blanks ++ s) = .ok full ∧
      (full.withClassIf isClass).cls = some c ∧ (full.withClassIf isClass).expr = q.expr := by
  obtain ⟨t, js, hreads, rfl⟩ := (parse_eq_ok hascii).mp hparse
  rw [htrim] at hreads
  have hs : s.dropWhile isBlank = s := by
    rw [← htrim]
    exact dropWhile_isBlank_trim s
  have hcloses : Closes (blanks ++ s) := by
    cases blanks with
    | nil => exact absurd rfl hsome
    | cons b blanks => exact hblanks b List.mem_cons_self
  have hterm : readTerm (c ++ blanks ++ s) = .ok (.value ⟨c, .exact⟩, blanks ++ s) := by
    rw [List.append_assoc]
    exact readTerm_of_print (wf_name ⟨hname, hchars⟩) hcloses
  have hfull : ReadsAs (c ++ blanks ++ s) (.value ⟨c, .exact⟩) ((.and, t) :: js) :=
    ⟨blanks ++ s, hterm, hreads.joined hs hkw hblanks⟩
  have hfullTrim : trim (c ++ blanks ++ s) = c ++ blanks ++ s := by
    apply trimMatches_eq_self
    · intro x hx
      rw [List.append_assoc, List.head?_append_of_ne_nil _ hname] at hx
      exact not_isWhitespace_of_isIdChar (hchars x (List.mem_of_mem_head? hx))
    · intro x hx
      rw [List.getLast?_append_of_ne_nil _ hreads.ne_nil, ← htrim] at hx
      exact getLast?_trimMatches hx
  have hfullAscii : IsAscii (c ++ blanks ++ s) := by
    refine IsAscii.append.mpr ⟨IsAscii.append.mpr ⟨?_, ?_⟩, hascii⟩
    · intro x hx
      have hx := toNat_of_isIdChar (hchars x hx)
      omega
    · exact fun b hb => toNat_of_isBlank (hblanks b hb)
  refine ⟨_, (parse_eq_ok hfullAscii).mpr ⟨_, _, hfullTrim.symm ▸ hfull, rfl⟩, ?_⟩
  rw [withClassIf_lifts hclass]
  exact ⟨rfl, rfl⟩

/-- Two operators and a tab: every level is rebuilt. -/
theorem class_lift_agrees_two :
    let s := "a or b=c* \"d e\"".toList
    let e := Expr.spine (.value ⟨"a".toList, .exact⟩)
      [(.or, .attrEq "b".toList ⟨"c".toList, .prefixed⟩), (.and, .value ⟨"d e".toList, .quoted⟩)]
    parse s = .ok { cls := none, expr := e, raw := s } ∧
      ∃ full, parse ("ip-net".toList ++ " \t".toList ++ s) = .ok full ∧
        (full.withClassIf (· == "ip-net".toList)).cls = some "ip-net".toList ∧
        (full.withClassIf (· == "ip-net".toList)).expr = e := by
  intro s e
  have hparse : parse s = .ok { cls := none, expr := e, raw := s } := by decide
  have hchars : ∀ x ∈ "ip-net".toList, isIdChar x = true := List.all_eq_true.mp (by decide)
  have hblanks : ∀ b ∈ " \t".toList, isBlank b = true := List.all_eq_true.mp (by decide)
  exact ⟨hparse, class_lift_agrees "ip-net".toList (by decide) hchars _ (by decide)
    " \t".toList (by decide) hblanks s (by decide) (by decide) (by decide) _ hparse⟩

end Query

/-! ## What else is lifted -/

/-- The text is the class name, blanks, and a query in its own right that
does not begin with a keyword; otherwise nothing was lifted. -/
def KeepsStructure (s : Str) (q lifted : Query) : Prop :=
  match lifted.cls with
  | none => lifted = q
  | some c => ∃ blanks rest q', trim s = c ++ blanks ++ rest ∧
      blanks ≠ [] ∧ (∀ b ∈ blanks, isBlank b = true) ∧ rest.dropWhile isBlank = rest ∧
      ¬ BeginsWithKeyword rest ∧ Query.parse rest = .ok q' ∧ lifted.expr = q'.expr

/-- If the first term is a bare class name with something behind it, that
is a blank first, and then neither a keyword nor white space (a line feed,
say, which the parser takes for a part of a word, but trims at the ends). -/
def LiftsCleanly (isClass : Str → Bool) (s : Str) : Prop :=
  ∀ c rest, readTerm (trim s) = .ok (.value ⟨c, .exact⟩, rest) → isClass c = true →
    rest.dropWhile isBlank ≠ [] → rest.dropWhile isBlank ≠ rest ∧
      ¬ BeginsWithKeyword (rest.dropWhile isBlank) ∧
      ∀ x ∈ (rest.dropWhile isBlank).head?, isWhitespace x = false

/-- The leftmost term. -/
def Expr.first : Expr → Term
  | .term t => t
  | .and l _ | .or l _ => l.first

theorem Expr.first_attach (lhs : Expr) (js : List (Join × Term)) :
    (attach lhs js).first = lhs.first := by
  induction js generalizing lhs with
  | nil => rfl
  | cons j js ih =>
      obtain ⟨j, t⟩ := j
      rw [attach_cons, ih]
      cases j <;> rfl

theorem Expr.first_spine (t : Term) (js : List (Join × Term)) : (spine t js).first = t :=
  first_attach (.term t) js

namespace Parser

/-- A text that is read as `t` starts with the text of `t`. -/
theorem ReadsAs.head? {s : Str} {t : Term} {js : List (Join × Term)} (h : ReadsAs s t js)
    (hs : s.dropWhile isBlank = s) : s.head? = t.print.head? := by
  obtain ⟨rest, hterm, -⟩ := h
  obtain ⟨hwf, hsplit⟩ := readTerm_print hterm
  obtain ⟨c, w, hprint, -⟩ := print_head hwf
  rw [hs, hprint] at hsplit
  rw [hsplit, hprint]
  rfl

end Parser

namespace Query

theorem KeepsStructure.liftsCleanly {isClass : Str → Bool} {s : Str} {t : Term}
    {js : List (Join × Term)} (hascii : IsAscii s) (hreads : ReadsAs (trim s) t js)
    (h : KeepsStructure s { cls := none, expr := .spine t js, raw := s }
      (withClassIf { cls := none, expr := .spine t js, raw := s } isClass)) :
    LiftsCleanly isClass s := by
  intro c rest hterm hclass hne
  obtain ⟨rest', hterm', hjoined⟩ := hreads
  rw [hterm] at hterm'
  cases hterm'
  obtain ⟨-, hsplit⟩ := readTerm_print hterm
  rw [dropWhile_isBlank_trim] at hsplit
  cases hjoined with
  | done hend => exact absurd hend hne
  | @next _ start rest' j u js _ hop hnext hmore =>
      rw [withClassIf_lifts hclass] at h
      obtain ⟨blanks, query, q', htext, hsome, hblanks, hquery, hkw, hparse, hexpr⟩ := h
      -- the blanks and the query are what the parser has left behind the class name
      have hrest : rest = blanks ++ query := by
        rw [htext, List.append_assoc] at hsplit
        exact (List.append_cancel_left hsplit).symm
      have hstart : rest.dropWhile isBlank = query := by
        rw [hrest, dropWhile_blanks hblanks, hquery]
      rw [hstart] at hop ⊢
      refine ⟨?_, hkw, ?_⟩
      · rintro rfl
        exact hsome (List.self_eq_append_left.mp hrest)
      · intro x hx
        have hqueryAscii : IsAscii query := (IsAscii.append.mp (htext ▸ hascii.trim)).2
        obtain ⟨u', js', hagain, rfl⟩ := (parse_eq_ok hqueryAscii).mp hparse
        have hfirst := congrArg Expr.first hexpr
        simp only [Expr.first_spine] at hfirst
        subst hfirst
        -- with and without trimming the query starts with the same term
        rw [readOperator_of_not_keyword hkw] at hop
        obtain ⟨-, rfl⟩ := Prod.mk.inj hop
        have hhead : query.head? = (trim query).head? := by
          rw [ReadsAs.head? ⟨rest', hnext, hmore⟩ hquery,
            hagain.head? (dropWhile_isBlank_trim query)]
        rw [hhead] at hx
        exact head?_trimMatches hx

theorem LiftsCleanly.keepsStructure {isClass : Str → Bool} {s : Str} {t : Term}
    {js : List (Join × Term)} (hascii : IsAscii s) (hreads : ReadsAs (trim s) t js)
    (h : LiftsCleanly isClass s) :
    KeepsStructure s { cls := none, expr := .spine t js, raw := s }
      (withClassIf { cls := none, expr := .spine t js, raw := s } isClass) := by
  by_cases hlift : ∀ c, t = .value ⟨c, .exact⟩ → isClass c = true → js = []
  · rw [withClassIf_keeps hlift]
    exact rfl
  · push Not at hlift
    obtain ⟨c, rfl, hclass, hjs⟩ := hlift
    obtain ⟨rest, hterm, hjoined⟩ := hreads
    obtain ⟨-, hsplit⟩ := readTerm_print hterm
    rw [dropWhile_isBlank_trim] at hsplit
    cases hjoined with
    | done => exact absurd rfl hjs
    | @next _ start rest' j u js hne hop hnext hrest =>
        obtain ⟨hblank, hkw, hhead⟩ := h c rest hterm hclass hne
        rw [readOperator_of_not_keyword hkw] at hop
        obtain ⟨-, rfl⟩ := Prod.mk.inj hop
        have htext : trim s = c ++ rest.takeWhile isBlank ++ rest.dropWhile isBlank := by
          rw [List.append_assoc, List.takeWhile_append_dropWhile]
          exact hsplit
        have hquery : (rest.dropWhile isBlank).dropWhile isBlank = rest.dropWhile isBlank :=
          List.dropWhile_idempotent ..
        have hsome : rest.takeWhile isBlank ≠ [] := by
          intro hnil
          have hall := List.takeWhile_append_dropWhile (p := isBlank) (l := rest)
          rw [hnil] at hall
          exact hblank hall
        rw [withClassIf_lifts hclass]
        generalize rest.dropWhile isBlank = query at *
        have hqueryAscii : IsAscii query := (IsAscii.append.mp (htext ▸ hascii.trim)).2
        have hqueryTrim : trim query = query := by
          refine trimMatches_eq_self hhead ?_
          intro x hx
          apply getLast?_trimMatches (s := s)
          rw [← trim, htext, List.getLast?_append_of_ne_nil _ hne]
          exact hx
        refine ⟨rest.takeWhile isBlank, query, _, htext, hsome, ?_, hquery, hkw,
          (parse_eq_ok hqueryAscii).mpr ⟨u, js, ?_, rfl⟩, rfl⟩
        · exact fun b hb => List.mem_takeWhile_imp hb
        · rw [hqueryTrim]
          exact ⟨rest', hnext, hrest⟩

/-- **When the lift keeps the structure of a query**: exactly if blanks and
nothing else stand between the class name and the rest. -/
theorem keepsStructure_iff (s : Str) (hascii : IsAscii s) (isClass : Str → Bool) (q : Query)
    (hparse : parse s = .ok q) :
    KeepsStructure s q (q.withClassIf isClass) ↔ LiftsCleanly isClass s := by
  obtain ⟨t, js, hreads, rfl⟩ := (parse_eq_ok hascii).mp hparse
  exact ⟨KeepsStructure.liftsCleanly hascii hreads, LiftsCleanly.keepsStructure hascii hreads⟩

/-- The class name, a blank and a query. -/
theorem keepsStructure_iff_class :
    let s := "domain a or b".toList
    let q : Query := { cls := none, raw := s, expr := .or (.and (.term (.value ⟨"domain".toList, .exact⟩))
      (.term (.value ⟨"a".toList, .exact⟩))) (.term (.value ⟨"b".toList, .exact⟩)) }
    parse s = .ok q ∧ (q.withClassIf (· == "domain".toList)).cls = some "domain".toList ∧
      LiftsCleanly (· == "domain".toList) s ∧
      KeepsStructure s q (q.withClassIf (· == "domain".toList)) := by
  intro s q
  have hparse : parse s = .ok q := by decide
  have hclean : LiftsCleanly (· == "domain".toList) s := by
    intro c rest hread _ _
    have hfirst : Parser.readTerm (trim s) =
        .ok (.value ⟨"domain".toList, .exact⟩, " a or b".toList) := by decide
    cases hfirst.symm.trans hread
    refine ⟨by decide, by decide, ?_⟩
    rintro x ⟨⟩
    decide
  exact ⟨hparse, by decide, hclean, (keepsStructure_iff s (by decide) _ q hparse).mpr hclean⟩

/-- `domain or foo` becomes the query `foo` in the class `domain`: the
`or` is gone. -/
theorem lift_drops_or :
    let s := "domain or foo".toList
    let foo : Expr := .term (.value ⟨"foo".toList, .exact⟩)
    let q : Query := { cls := none, raw := s, expr := .or (.term (.value ⟨"domain".toList, .exact⟩)) foo }
    parse s = .ok q ∧
      q.withClassIf (· == "domain".toList) = { cls := some "domain".toList, raw := s, expr := foo } ∧
      ¬ KeepsStructure s q (q.withClassIf (· == "domain".toList)) := by
  intro s foo q
  have hparse : parse s = .ok q := by decide
  refine ⟨hparse, by decide, ?_⟩
  intro hkeeps
  obtain ⟨t, js, hreads, hq⟩ := (parse_eq_ok (by decide)).mp hparse
  have hclean : LiftsCleanly (· == "domain".toList) s := by
    apply KeepsStructure.liftsCleanly (by decide) hreads
    rwa [← hq]
  have hkw := (hclean "domain".toList " or foo".toList (by decide) (by decide) (by decide)).2.1
  exact hkw (by decide)

end Query

end Rwhois
