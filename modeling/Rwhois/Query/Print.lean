import Rwhois.Query.Spine

/-!
# Query — Print

A query as text again. `print` writes a value with its stars or quotes, an
attribute term with its operator, and between terms the operator the tree
has. The parser takes from its input exactly the printed terms and
otherwise only blanks and operators; so what it read can be printed and
read once more, with the same result.

Which terms can come out of the parser is said by `WF`: a bare value ends
in no star that is not its wildcard, a quoted one holds no quote, and a
value that stands alone does not look like an attribute with a value.
-/

namespace Rwhois

open RustStd Rwhois.Parser

/-! ## The printer -/

def Value.print (self : Value) : Str :=
  match self.kind with
  | .exact => self.text
  | .prefixed => self.text ++ ['*']
  | .suffixed => '*' :: self.text
  | .substring => '*' :: (self.text ++ ['*'])
  | .quoted => '"' :: (self.text ++ ['"'])

def Term.print : Term → Str
  | .attrEq attr v => attr ++ '=' :: v.print
  | .attrNe attr v => attr ++ '!' :: '=' :: v.print
  | .value v => v.print

/-- The operator with a blank on both sides. -/
def Join.word : Join → Str
  | .and => " and ".toList
  | .or => " or ".toList

def Expr.print : Expr → Str
  | .term t => t.print
  | .and l r => l.print ++ Join.and.word ++ r.print
  | .or l r => l.print ++ Join.or.word ++ r.print

/-- Every right child is a single term. -/
def Expr.LeftLeaning : Expr → Prop
  | .term _ => True
  | .and l r | .or l r => l.LeftLeaning ∧ ∃ t, r = .term t

/-- The text of the joined terms. -/
def printJoined (js : List (Join × Term)) : Str := js.flatMap fun j => j.1.word ++ j.2.print

theorem Expr.print_attach (lhs : Expr) (js : List (Join × Term)) :
    (attach lhs js).print = lhs.print ++ printJoined js := by
  induction js generalizing lhs with
  | nil => simp [printJoined]
  | cons j js ih =>
      obtain ⟨j, t⟩ := j
      rw [attach_cons, ih]
      cases j <;> simp [Join.expr, print, printJoined]

theorem Expr.leftLeaning_attach {lhs : Expr} (h : lhs.LeftLeaning) (js : List (Join × Term)) :
    (attach lhs js).LeftLeaning := by
  induction js generalizing lhs with
  | nil => exact h
  | cons j js ih =>
      obtain ⟨j, t⟩ := j
      rw [attach_cons]
      apply ih
      cases j with
      | and => exact ⟨h, t, rfl⟩
      | or => exact ⟨h, t, rfl⟩

/-! ## The terms of the parser -/

/-- A value without quotes, as it is read from its own text. -/
structure Value.IsBare (v : Value) : Prop where
  chars : ∀ c ∈ v.print, isQueryChar c = true
  reads : bareValue v.print = .ok v

structure Value.IsQuoted (v : Value) : Prop where
  kind : v.kind = .quoted
  ne_nil : v.text ≠ []
  chars : ∀ c ∈ v.text, c ≠ '"'

structure IsName (attr : Str) : Prop where
  ne_nil : attr ≠ []
  chars : ∀ c ∈ attr, isIdChar c = true

def Term.WF : Term → Prop
  | .attrEq attr v | .attrNe attr v => IsName attr ∧ (v.IsBare ∨ v.IsQuoted)
  | .value v => v.IsBare ∧ Grammar.splitAttr v.print = none ∨ v.IsQuoted

/-- A blank or the end follows. -/
def Closes (rest : Str) : Prop := rest.head?.all isBlank = true

theorem Closes.nil : Closes [] := rfl

theorem Closes.printJoined (js : List (Join × Term)) : Closes (printJoined js) := by
  cases js with
  | nil => exact .nil
  | cons j js =>
      obtain ⟨j, t⟩ := j
      cases j <;> rfl

namespace Parser

theorem print_kindOf (text : Str) (leading trailing : Bool) :
    Value.print { text, kind := kindOf leading trailing } =
      (if leading then ['*'] else []) ++ (text ++ if trailing then ['*'] else []) := by
  cases leading <;> cases trailing <;> simp [Value.print, kindOf]

/-- The stars that were cut off are put back. -/
theorem bareValue_print {w : Str} {v : Value} (h : bareValue w = .ok v) : v.print = w := by
  have hfinish : ∀ star text, finishQueryString star text = .ok v →
      v.print = (if star then ['*'] else []) ++ text := by
    intro star text h
    have htext : (if decide (text.getLast? = some '*') = true then text.dropLast else text) ++
        (if decide (text.getLast? = some '*') = true then ['*'] else []) = text := by
      by_cases hlast : text.getLast? = some '*'
      · obtain ⟨init, rfl⟩ := List.getLast?_eq_some_iff.mp hlast
        simp
      · simp [hlast]
    simp only [finishQueryString] at h
    generalize (if decide (text.getLast? = some '*') = true then text.dropLast else text) = w
      at h htext
    split at h
    · cases h
    · cases h
      rw [print_kindOf, htext]
  unfold bareValue at h
  split at h
  · exact hfinish true _ h
  · exact hfinish false _ h

theorem isBare_of_bareValue {w : Str} {v : Value} (hw : ∀ c ∈ w, isQueryChar c = true)
    (h : bareValue w = .ok v) : v.IsBare := by
  have hprint := bareValue_print h
  constructor
  · rw [hprint]
    exact hw
  · rw [hprint]
    exact h

theorem isBare_of_readBare {s rest : Str} {v : Value} (h : readBare s = .ok (v, rest)) :
    v.IsBare ∧ s = v.print ++ rest := by
  obtain ⟨v', hv, heq⟩ := Outcome.map_eq_ok.mp h
  cases heq
  refine ⟨isBare_of_bareValue (Grammar.isWord_span s).chars hv, ?_⟩
  rw [bareValue_print hv, List.takeWhile_append_dropWhile]

theorem isQuoted_of_readQuoted {s rest : Str} {v : Value} (h : readQuoted s = .ok (v, rest)) :
    v.IsQuoted ∧ '"' :: s = v.print ++ rest := by
  unfold readQuoted at h
  split at h
  · cases h
  · rename_i c rest' hdrop
    obtain rfl : c = '"' := by simpa using head?_dropWhile_ne hdrop
    split at h
    · cases h
    · rename_i hne
      cases h
      refine ⟨⟨rfl, hne, fun c hc => ?_⟩, ?_⟩
      · simpa using List.mem_takeWhile_imp hc
      · have hsplit := List.takeWhile_append_dropWhile (p := (· != '"')) (l := s)
        rw [hdrop] at hsplit
        simp only [Value.print, List.cons_append, List.append_assoc, List.nil_append, hsplit]

theorem readAfterOp_print {s rest : Str} {v : Value} (h : readAfterOp s = .ok (v, rest)) :
    (v.IsBare ∨ v.IsQuoted) ∧ s = v.print ++ rest := by
  unfold readAfterOp at h
  split at h
  · cases h
  split at h
  · rename_i hquote
    obtain ⟨hv, htext⟩ := isQuoted_of_readQuoted h
    rw [← eq_cons_of_head? hquote] at htext
    exact ⟨.inr hv, htext⟩
  · obtain ⟨hv, htext⟩ := isBare_of_readBare h
    exact ⟨.inl hv, htext⟩

theorem splitAttr_name {w name x : Str} {negated : Bool}
    (h : Grammar.splitAttr w = some (name, negated, x)) :
    IsName name ∧ w = name ++ ((if negated then ['!', '='] else ['=']) ++ x) := by
  have hname (hne : w.takeWhile isIdChar ≠ []) : IsName (w.takeWhile isIdChar) :=
    ⟨hne, fun c hc => List.mem_takeWhile_imp hc⟩
  have hw : w = w.takeWhile isIdChar ++ w.dropWhile isIdChar := by simp
  simp only [Grammar.splitAttr, Grammar.isNameChar_eq] at h
  split at h
  · cases h
  rename_i hne
  split at h
  · rename_i heq
    cases h
    refine ⟨hname hne, ?_⟩
    conv_lhs => rw [hw, eq_cons_of_head? heq]
    rfl
  split at h
  · rename_i hpre
    cases h
    refine ⟨hname hne, ?_⟩
    obtain ⟨y, hy⟩ := hpre
    conv_lhs => rw [hw, ← hy]
    rw [← hy]
    rfl
  · cases h

/-- **What is read is printed.** The parser takes the text of the term,
behind the blanks. -/
theorem readTerm_print {s rest : Str} {t : Term} (h : readTerm s = .ok (t, rest)) :
    t.WF ∧ s.dropWhile isBlank = t.print ++ rest := by
  simp only [readTerm] at h
  generalize s.dropWhile isBlank = start at h
  split at h
  · cases h
  split at h
  · rename_i hquote
    obtain ⟨p, hv, heq⟩ := Outcome.map_eq_ok.mp h
    cases heq
    obtain ⟨hwf, htext⟩ := isQuoted_of_readQuoted hv
    rw [← eq_cons_of_head? hquote] at htext
    exact ⟨Or.inr hwf, htext⟩
  · have hword := Grammar.isWord_span start
    have hsplit : start = start.takeWhile isQueryChar ++ start.dropWhile isQueryChar :=
      List.takeWhile_append_dropWhile.symm
    generalize start.takeWhile isQueryChar = w at hword hsplit
    generalize start.dropWhile isQueryChar = left at hword hsplit
    rw [hsplit, hword.readUnquoted] at h
    rw [hsplit]
    cases hattr : Grammar.splitAttr w with
    | none =>
        rw [hattr] at h
        obtain ⟨v, hv, heq⟩ := Outcome.map_eq_ok.mp h
        cases heq
        have hprint := bareValue_print hv
        refine ⟨Or.inl ⟨isBare_of_bareValue hword.chars hv, ?_⟩, ?_⟩
        · rw [hprint]
          exact hattr
        · rw [Term.print, hprint]
    | some a =>
        obtain ⟨name, negated, x⟩ := a
        obtain ⟨hname, rfl⟩ := splitAttr_name hattr
        rw [hattr] at h
        obtain ⟨⟨v, rest'⟩, hv, heq⟩ := Outcome.map_eq_ok.mp h
        cases heq
        obtain ⟨hwf, htext⟩ := readAfterOp_print hv
        cases negated with
        | false => exact ⟨⟨hname, hwf⟩, by simp [Grammar.attrTerm, Term.print, htext]⟩
        | true => exact ⟨⟨hname, hwf⟩, by simp [Grammar.attrTerm, Term.print, htext]⟩

/-! ## Reading a printed term -/

theorem isWord_closes {w rest : Str} (hchars : ∀ c ∈ w, isQueryChar c = true) (hrest : Closes rest) :
    Grammar.IsWord w rest := by
  refine ⟨hchars, fun c hc => Grammar.isQueryChar_of_isBlank ?_⟩
  rw [Closes, Option.mem_def.mp hc] at hrest
  exact hrest

theorem readBare_print {v : Value} (hv : v.IsBare) {rest : Str} (hrest : Closes rest) :
    readBare (v.print ++ rest) = .ok (v, rest) := by
  rw [(isWord_closes hv.chars hrest).readBare, hv.reads]
  rfl

theorem readQuoted_print {v : Value} (hv : v.IsQuoted) (rest : Str) :
    readQuoted (v.text ++ '"' :: rest) = .ok (v, rest) := by
  obtain ⟨text, kind⟩ := v
  obtain ⟨rfl, hne, hchars⟩ := hv
  have hall : ∀ c ∈ text, (c != '"') = true := fun c hc => by simpa using hchars c hc
  have htake : (text ++ '"' :: rest).takeWhile (· != '"') = text := by
    rw [List.takeWhile_append_of_pos hall]
    simp
  have hdrop : (text ++ '"' :: rest).dropWhile (· != '"') = '"' :: rest := by
    rw [List.dropWhile_append_of_pos hall]
    simp
  simp only [readQuoted, hdrop, htake, if_neg hne]

/-- The printed form starts with a character that is no blank, and with a
quote only if the value is quoted. -/
theorem Value.IsBare.head {v : Value} (hv : v.IsBare) :
    ∃ c w, v.print = c :: w ∧ isQueryChar c = true := by
  cases hprint : v.print with
  | nil =>
      have hreads := hv.reads
      rw [hprint] at hreads
      cases hreads
  | cons c w => exact ⟨c, w, rfl, hv.chars c (by rw [hprint]; exact List.mem_cons_self)⟩

theorem ne_quote_of_isQueryChar {c : Char} (h : isQueryChar c = true) : c ≠ '"' := by
  rintro rfl
  cases h

theorem not_isBlank_of_isQueryChar {c : Char} (h : isQueryChar c = true) : isBlank c = false := by
  cases hb : isBlank c with
  | false => rfl
  | true =>
      rw [Grammar.isQueryChar_of_isBlank hb] at h
      cases h

theorem readAfterOp_of_print {v : Value} (hv : v.IsBare ∨ v.IsQuoted) {rest : Str}
    (hrest : Closes rest) : readAfterOp (v.print ++ rest) = .ok (v, rest) := by
  rcases hv with hv | hv
  · obtain ⟨c, w, hprint, hc⟩ := Value.IsBare.head hv
    have hread := readBare_print hv hrest
    have hquote := ne_quote_of_isQueryChar hc
    rw [hprint, List.cons_append] at hread ⊢
    rw [readAfterOp, if_neg (List.cons_ne_nil _ _), if_neg (by simpa using hquote), hread]
  · have hread := readQuoted_print hv rest
    have hprint : v.print = '"' :: (v.text ++ ['"']) := by rw [Value.print, hv.kind]
    simp [readAfterOp, hprint, hread]

/-- A name in front of a character that cannot belong to it. -/
theorem span_name {name : Str} (hname : IsName name) {c : Char} (hc : isIdChar c = false)
    (rest : Str) :
    (name ++ c :: rest).takeWhile isIdChar = name ∧
      (name ++ c :: rest).dropWhile isIdChar = c :: rest := by
  constructor
  · rw [List.takeWhile_append_of_pos hname.chars]
    simp [hc]
  · rw [List.dropWhile_append_of_pos hname.chars]
    simp [hc]

theorem readUnquoted_attrEq {name : Str} (hname : IsName name) (rest : Str) :
    readUnquoted (name ++ '=' :: rest) =
      (readAfterOp rest).map fun p => (.attrEq name p.1, p.2) := by
  obtain ⟨htake, hdrop⟩ := span_name hname (c := '=') (by decide) rest
  simp [readUnquoted, htake, hdrop, hname.ne_nil]

theorem readUnquoted_attrNe {name : Str} (hname : IsName name) (rest : Str) :
    readUnquoted (name ++ '!' :: '=' :: rest) =
      (readAfterOp rest).map fun p => (.attrNe name p.1, p.2) := by
  obtain ⟨htake, hdrop⟩ := span_name hname (c := '!') (by decide) ('=' :: rest)
  simp [readUnquoted, htake, hdrop, hname.ne_nil]

theorem readTerm_unquoted {c : Char} (hc : isQueryChar c = true) (s : Str) :
    readTerm (c :: s) = readUnquoted (c :: s) := by
  have hblank := not_isBlank_of_isQueryChar hc
  have hquote := ne_quote_of_isQueryChar hc
  simp [readTerm, hblank, hquote]

theorem readTerm_name {name : Str} (hname : IsName name) (s : Str) :
    readTerm (name ++ s) = readUnquoted (name ++ s) := by
  obtain ⟨c, w, rfl⟩ := List.exists_cons_of_ne_nil hname.ne_nil
  exact readTerm_unquoted
    (Grammar.isQueryChar_of_isIdChar (hname.chars c List.mem_cons_self)) _

/-- **What is printed is read.** -/
theorem readTerm_of_print {t : Term} (ht : t.WF) {rest : Str} (hrest : Closes rest) :
    readTerm (t.print ++ rest) = .ok (t, rest) := by
  cases t with
  | attrEq attr value =>
      obtain ⟨hname, hvalue⟩ := ht
      rw [Term.print, List.append_assoc, readTerm_name hname, List.cons_append,
        readUnquoted_attrEq hname, readAfterOp_of_print hvalue hrest]
      rfl
  | attrNe attr value =>
      obtain ⟨hname, hvalue⟩ := ht
      rw [Term.print, List.append_assoc, readTerm_name hname, List.cons_append, List.cons_append,
        readUnquoted_attrNe hname, readAfterOp_of_print hvalue hrest]
      rfl
  | value value =>
      rcases ht with ⟨hbare, hattr⟩ | hquoted
      · obtain ⟨c, w, hprint, hc⟩ := Value.IsBare.head hbare
        have hread := (isWord_closes hbare.chars hrest).readUnquoted
        rw [hattr, hbare.reads] at hread
        rw [Term.print]
        rw [hprint, List.cons_append] at hread ⊢
        rw [readTerm_unquoted hc, hread]
        rfl
      · have hread := readQuoted_print hquoted rest
        have hprint : value.print = '"' :: (value.text ++ ['"']) := by
          rw [Value.print, hquoted.kind]
        have hblank : isBlank '"' = false := rfl
        simp [readTerm, Term.print, hprint, hblank, hread, Outcome.map]

/-- The first character of a term. -/
theorem print_head {t : Term} (ht : t.WF) : ∃ c w, t.print = c :: w ∧ isBlank c = false := by
  have hname {attr : Str} (h : IsName attr) (s : Str) :
      ∃ c w, attr ++ s = c :: w ∧ isBlank c = false := by
    obtain ⟨c, w, rfl⟩ := List.exists_cons_of_ne_nil h.ne_nil
    have hc := Grammar.isQueryChar_of_isIdChar (h.chars c List.mem_cons_self)
    exact ⟨c, w ++ s, rfl, not_isBlank_of_isQueryChar hc⟩
  cases t with
  | attrEq attr value => exact hname ht.1 _
  | attrNe attr value => exact hname ht.1 _
  | value value =>
      rcases ht with ⟨hbare, -⟩ | hquoted
      · obtain ⟨c, w, hprint, hc⟩ := Value.IsBare.head hbare
        exact ⟨c, w, hprint, not_isBlank_of_isQueryChar hc⟩
      · exact ⟨'"', value.text ++ ['"'], by rw [Term.print, Value.print, hquoted.kind], rfl⟩

/-! ## Whole queries -/

/-- A printed operator is read as an operator. -/
theorem readOperator_word (j : Join) (rest : Str) :
    readOperator ((j.word ++ rest).dropWhile isBlank) = (j.expr, rest.dropWhile isBlank) := by
  cases j <;> rfl

theorem Joined.wf {rest : Str} {js : List (Join × Term)} (h : Joined rest js) :
    ∀ j ∈ js, j.2.WF := by
  induction h with
  | done => simp
  | next hne hop hterm hrest ih =>
      intro j hj
      rcases List.mem_cons.mp hj with rfl | hj
      · exact (readTerm_print hterm).1
      · exact ih j hj

theorem joined_printJoined {js : List (Join × Term)} (h : ∀ j ∈ js, j.2.WF) :
    Joined (printJoined js) js := by
  induction js with
  | nil => exact .done rfl
  | cons j js ih =>
      obtain ⟨j, t⟩ := j
      have hterm : readTerm ((t.print ++ printJoined js).dropWhile isBlank) =
          .ok (t, printJoined js) := by
        rw [readTerm_dropWhile]
        exact readTerm_of_print (h (j, t) List.mem_cons_self) (.printJoined js)
      have htext : printJoined ((j, t) :: js) = j.word ++ (t.print ++ printJoined js) := by
        simp [printJoined]
      rw [htext]
      refine .next ?_ (readOperator_word j _) hterm
        (ih fun j' hj' => h j' (List.mem_cons_of_mem _ hj'))
      cases j <;> exact List.cons_ne_nil _ _

/-- What a round takes, as a part of the text. -/
theorem round_suffix {rest start rest' : Str} {j : Join} {t : Term}
    (hop : readOperator (rest.dropWhile isBlank) = (j.expr, start))
    (hterm : readTerm start = .ok (t, rest')) : t.print ++ rest' <:+ rest := by
  have hstart : start <:+ rest.dropWhile isBlank := by
    have hsuffix := readOperator_suffix (rest.dropWhile isBlank)
    rwa [hop] at hsuffix
  rw [← (readTerm_print hterm).2]
  exact (List.dropWhile_suffix _).trans (hstart.trans (List.dropWhile_suffix _))

theorem Joined.isAscii {rest : Str} {js : List (Join × Term)} (h : Joined rest js)
    (hascii : IsAscii rest) : IsAscii (printJoined js) := by
  induction h with
  | done => exact .nil
  | @next rest start rest' j t js hne hop hterm hrest ih =>
      have hpart := hascii.of_subset (round_suffix hop hterm).subset
      obtain ⟨ht, hrest'⟩ := IsAscii.append.mp hpart
      have hword : IsAscii j.word := by cases j <;> decide
      exact IsAscii.append.mpr ⟨IsAscii.append.mpr ⟨hword, ht⟩, ih hrest'⟩

/-- The printed text ends as the text did, if that did not end in blanks. -/
theorem Joined.getLast? {rest : Str} {js : List (Join × Term)} (h : Joined rest js)
    (hlast : ∀ c ∈ rest.getLast?, isBlank c = false) :
    (printJoined js).getLast? = rest.getLast? := by
  induction h with
  | @done rest hend =>
      cases hrest : rest.getLast? with
      | none => rfl
      | some c =>
          have hblank := List.dropWhile_eq_nil_iff.mp hend c (List.mem_of_getLast? hrest)
          rw [hlast c hrest] at hblank
          cases hblank
  | @next rest start rest' j t js hne hop hterm hrest ih =>
      obtain ⟨pre, rfl⟩ := round_suffix hop hterm
      obtain ⟨c, w, hprint, -⟩ := print_head (readTerm_print hterm).1
      have hsome : (t.print.getLast?).isSome = true := by simp [hprint]
      have hrest' : (printJoined js).getLast? = rest'.getLast? := by
        apply ih
        intro d hd
        apply hlast
        rw [← List.append_assoc, List.getLast?_append, Option.mem_def.mp hd]
        rfl
      obtain ⟨l, hl⟩ := Option.isSome_iff_exists.mp hsome
      have htext : printJoined ((j, t) :: js) = j.word ++ (t.print ++ printJoined js) := by
        simp [printJoined]
      rw [htext, List.getLast?_append, List.getLast?_append, List.getLast?_append,
        List.getLast?_append, hrest', hl]
      cases rest'.getLast? <;> rfl

/-- **A query that was read can be printed**: the text is ASCII again, has
nothing to be trimmed and is read as the same terms. -/
theorem ReadsAs.print {s : Str} (hascii : IsAscii s) {t : Term} {js : List (Join × Term)}
    (h : ReadsAs (trim s) t js) :
    IsAscii (Expr.spine t js).print ∧ trim (Expr.spine t js).print = (Expr.spine t js).print ∧
      ReadsAs (Expr.spine t js).print t js := by
  obtain ⟨rest, hterm, hjoined⟩ := h
  obtain ⟨hwf, hsplit⟩ := readTerm_print hterm
  obtain ⟨c, w, hprint, -⟩ := print_head hwf
  have htext : (Expr.spine t js).print = t.print ++ printJoined js := Expr.print_attach _ js
  rw [dropWhile_isBlank_trim] at hsplit
  have hparts : IsAscii t.print ∧ IsAscii rest := IsAscii.append.mp (hsplit ▸ hascii.trim)
  have hlast : (printJoined js).getLast? = rest.getLast? := by
    apply hjoined.getLast?
    intro d hd
    cases hblank : isBlank d with
    | false => rfl
    | true =>
        have hspace : isWhitespace d = false := by
          apply getLast?_trimMatches (s := s)
          rw [← trim, hsplit, List.getLast?_append, Option.mem_def.mp hd]
          rfl
        rw [isWhitespace_of_isBlank hblank] at hspace
        cases hspace
  rw [htext]
  refine ⟨IsAscii.append.mpr ⟨hparts.1, hjoined.isAscii hparts.2⟩, ?_, ?_⟩
  · apply trimMatches_eq_self
    · intro d hd
      apply head?_trimMatches (s := s)
      rw [← trim, hsplit, hprint]
      rwa [hprint] at hd
    · intro d hd
      apply getLast?_trimMatches (s := s)
      rw [← trim, hsplit, List.getLast?_append, ← hlast, ← List.getLast?_append]
      exact hd
  · exact ⟨_, readTerm_of_print hwf (.printJoined js), joined_printJoined hjoined.wf⟩

end Parser

namespace Query

/-- **Printing loses nothing.** What the parser accepts, printed, is
accepted as the same tree; and the tree leans to the left. -/
theorem parse_print (s : Str) (hascii : IsAscii s) (q : Query) (hparse : parse s = .ok q) :
    (∃ q', parse q.expr.print = .ok q' ∧ q'.expr = q.expr) ∧ q.expr.LeftLeaning := by
  obtain ⟨t, js, hreads, rfl⟩ := (parse_eq_ok hascii).mp hparse
  obtain ⟨hprinted, htrim, hagain⟩ := hreads.print hascii
  refine ⟨⟨{ cls := none, expr := .spine t js, raw := (Expr.spine t js).print }, ?_, rfl⟩, ?_⟩
  · refine (parse_eq_ok hprinted).mpr ⟨t, js, ?_, rfl⟩
    rwa [htrim]
  · exact Expr.leftLeaning_attach (show (Expr.term t).LeftLeaning from trivial) js

/-- A keyword as a term, an operator inside a value, stars, and a quote
without a blank in front. -/
theorem parse_print_odd :
    let s := "AND Or a!==b* ***\"x or\"".toList
    let e := Expr.spine (.value ⟨"AND".toList, .exact⟩) [(.or, .attrNe "a".toList ⟨"=b".toList, .prefixed⟩),
      (.and, .value ⟨"*".toList, .substring⟩), (.and, .value ⟨"x or".toList, .quoted⟩)]
    parse s = .ok { cls := none, expr := e, raw := s } ∧
      e.print = "AND or a!==b* and *** and \"x or\"".toList ∧
      (∃ q', parse e.print = .ok q' ∧ q'.expr = e) ∧ e.LeftLeaning := by
  intro s e
  have hparse : parse s = .ok { cls := none, expr := e, raw := s } := by decide
  exact ⟨hparse, by decide, parse_print s (by decide) _ hparse⟩

end Query

end Rwhois
