import Rwhois.Query.Cursor
import Rwhois.RustStd.Lines

/-!
# Query — Grammar

The query language as a TWO-PHASE definition, written without a cursor:
`tokens` cuts the text into quoted strings and words, `fold` joins the
terms of the token list from the left. `Query::parse` is a single pass
that looks ahead and sets its cursor back; the second half of this file
shows that on ASCII text the two accept the same queries and build the
same tree. The reference takes nothing from the parser: its classes of
characters and its table of wildcards are written out here, and that they
are the parser's is a lemma each.

The reference says only THAT a query is refused; every refusal of the
parser is the protocol error 350, with a message that stays in its line.
-/

namespace Rwhois

open RustStd Rwhois.Parser

namespace Grammar

/-! ## Tokens -/

/-- What separates tokens. -/
def isSeparator (c : Char) : Bool := c = ' ' ∨ c = '\t'

def isWordChar (c : Char) : Bool := c ≠ '"' ∧ c ≠ ' ' ∧ c ≠ '\t'

/-- Letters, digits, `_` and `-`. -/
def isNameChar (c : Char) : Bool :=
  ('a' ≤ c ∧ c ≤ 'z') ∨ ('A' ≤ c ∧ c ≤ 'Z') ∨ ('0' ≤ c ∧ c ≤ '9') ∨ c = '_' ∨ c = '-'

inductive Token where
  | quoted (text : Str)
  /-- `closed`: a blank or the end follows, not a quote. -/
  | word (text : Str) (closed : Bool)
  /-- A word that is a name and an operator, with the quoted string
  directly behind it. -/
  | attr (name : Str) (negated : Bool) (text : Str)
  deriving Repr, DecidableEq

/-- The text up to the closing quote, and what follows that. -/
def quotedText (s : Str) : Option (Str × Str) :=
  match s.dropWhile (· != '"') with
  | [] => none
  | _ :: rest =>
      let text := s.takeWhile (· != '"')
      if text = [] then none else some (text, rest)

/-- `name=rest` or `name!=rest`, with the longest name. -/
def splitAttr (w : Str) : Option (Str × Bool × Str) :=
  let name := w.takeWhile isNameChar
  let after := w.dropWhile isNameChar
  if name = [] then none
  else if after.head? = some '=' then some (name, false, after.tail)
  else if ['!', '='] <+: after then some (name, true, after.drop 2)
  else none

/-- The token a text begins with that does not begin with a blank. -/
def nextToken (s : Str) : Option (Token × Str) :=
  if s.head? = some '"' then (quotedText s.tail).map fun p => (.quoted p.1, p.2)
  else
    let w := s.takeWhile isWordChar
    let rest := s.dropWhile isWordChar
    let word := (.word w (rest.head?.all isSeparator), rest)
    match splitAttr w with
    | some (name, negated, x) =>
        if x = [] ∧ rest.head? = some '"' then
          (quotedText rest.tail).map fun p => (.attr name negated p.1, p.2)
        else some word
    | none => some word

/-- Each token takes a character, so the length of the text is fuel
enough. -/
def tokensFuel : Nat → Str → Option (List Token)
  | 0, _ => none
  | fuel + 1, s =>
      let start := s.dropWhile isSeparator
      if start = [] then some []
      else (nextToken start).bind fun p => (tokensFuel fuel p.2).map (p.1 :: ·)

def tokens (s : Str) : Option (List Token) := tokensFuel (s.length + 1) s

/-! ## Terms -/

/-- What the stars in front of a value and behind it say. -/
def starKind : Bool → Bool → ValueKind
  | false, false => .exact
  | false, true => .prefixed
  | true, false => .suffixed
  | true, true => .substring

/-- One leading star goes, then one trailing star of what is left. -/
def valueOf (w : Str) : Option Value :=
  let leading := decide (w.head? = some '*')
  let w := if leading then w.tail else w
  let trailing := decide (w.getLast? = some '*')
  let w := if trailing then w.dropLast else w
  if w = [] then none else some { text := w, kind := starKind leading trailing }

def attrTerm (name : Str) (negated : Bool) (value : Value) : Term :=
  if negated then .attrNe name value else .attrEq name value

def termOf : Token → Option Term
  | .quoted text => some (.value { text, kind := .quoted })
  | .attr name negated text => some (attrTerm name negated { text, kind := .quoted })
  | .word w _ =>
      match splitAttr w with
      | some (name, negated, rest) => (valueOf rest).map (attrTerm name negated)
      | none => (valueOf w).map .value

def operatorOf (w : Str) : Option (Expr → Expr → Expr) :=
  if eqIgnoreAsciiCase w "and".toList then some .and
  else if eqIgnoreAsciiCase w "or".toList then some .or
  else none

/-- The operator a token stands for behind a term. -/
def keyword : Token → Option (Expr → Expr → Expr)
  | .word w true => operatorOf w
  | _ => none

/-- Join the rest of the query to `lhs`. Behind an operator the next
token is a term whatever it looks like; two terms side by side are
joined by AND. -/
def fold : Expr → List Token → Option Expr
  | lhs, [] => some lhs
  | lhs, tok :: rest =>
      match keyword tok, rest with
      | some _, [] => none
      | some op, tok' :: rest' =>
          match termOf tok' with
          | some t => fold (op lhs (.term t)) rest'
          | none => none
      | none, rest =>
          match termOf tok with
          | some t => fold (.and lhs (.term t)) rest
          | none => none

/-- A term first, joined to what came before by `join`. -/
def foldTerm (join : Expr → Expr) : List Token → Option Expr
  | [] => none
  | tok :: rest => (termOf tok).bind fun t => fold (join (.term t)) rest

/-- The tree of a query text; `none` where it is refused. -/
def expr (s : Str) : Option Expr := (tokens (trim s)).bind (foldTerm id)

theorem fold_cons (lhs : Expr) (tok : Token) (rest : List Token) :
    fold lhs (tok :: rest) = match keyword tok with
      | some op => foldTerm (op lhs) rest
      | none => foldTerm (.and lhs) (tok :: rest) := by
  rw [fold.eq_def]
  cases hk : keyword tok with
  | none =>
      simp only [hk, foldTerm]
      cases termOf tok <;> rfl
  | some op =>
      cases rest with
      | nil => simp [hk, foldTerm]
      | cons tok' rest =>
          simp only [hk, foldTerm]
          cases termOf tok' <;> rfl

example : expr "a AND b=c* or x!=\"y z\"".toList = some
    (.or (.and (.term (.value ⟨"a".toList, .exact⟩))
        (.term (.attrEq "b".toList ⟨"c".toList, .prefixed⟩)))
      (.term (.attrNe "x".toList ⟨"y z".toList, .quoted⟩))) := by
  decide

/-! ## The parser and the grammar agree -/

theorem isSeparator_eq : isSeparator = isBlank := by
  funext c
  rw [Bool.eq_iff_iff]
  simp [isSeparator, isBlank]

theorem isWordChar_eq : isWordChar = isQueryChar := by
  funext c
  rw [Bool.eq_iff_iff]
  simp [isWordChar, isQueryChar, and_assoc]

theorem isNameChar_eq : isNameChar = isIdChar := by
  funext c
  have hclass : isIdChar c = (decide (65 ≤ c.val ∧ c.val ≤ 90) ||
      (97 ≤ c.val && c.val ≤ 122) || (48 ≤ c.val && c.val ≤ 57) || c == '_' || c == '-') := rfl
  rw [hclass, Bool.eq_iff_iff]
  simp only [isNameChar, Char.le_def, decide_eq_true_eq, Bool.or_eq_true, Bool.and_eq_true,
    beq_iff_eq]
  tauto

theorem starKind_eq (leading trailing : Bool) :
    starKind leading trailing = kindOf leading trailing := by
  cases leading <;> cases trailing <;> rfl

/-- The call returns what the reference gives, or the protocol error 350
where the reference gives nothing. -/
def Agrees {α : Type} (o : Outcome Error α) : Option α → Prop
  | some a => o = .ok a
  | none => ∃ message, IsLine message ∧ o = .err (.protocol .INVALID_QUERY_SYNTAX message)

section Agrees

variable {α β : Type} {o : Outcome Error α} {r : Option α}

theorem Agrees.syntaxError {message : String} (h : IsLine message.toList) :
    Agrees (.err (Rwhois.syntaxError message) : Outcome Error α) none :=
  ⟨_, h, rfl⟩

theorem Agrees.map (h : Agrees o r) (f : α → β) : Agrees (o.map f) (r.map f) := by
  cases r with
  | some a =>
      obtain rfl : o = .ok a := h
      rfl
  | none =>
      obtain ⟨message, hline, rfl⟩ := h
      exact ⟨message, hline, rfl⟩

end Agrees

theorem bareValue_agrees (w : Str) : Agrees (bareValue w) (valueOf w) := by
  have hfinish : ∀ star text, Agrees (finishQueryString star text)
      (let trailing := decide (text.getLast? = some '*')
        let w := if trailing then text.dropLast else text
        if w = [] then none else some { text := w, kind := starKind star trailing }) := by
    intro star text
    simp only [finishQueryString, starKind_eq]
    generalize (if decide (text.getLast? = some '*') = true then text.dropLast else text) = w
    split
    · exact .syntaxError (by decide)
    · rfl
  by_cases hstar : w.head? = some '*'
  · have h := hfinish true w.tail
    rw [eq_cons_of_head? hstar]
    simpa [bareValue, valueOf] using h
  · have h := hfinish false w
    rw [bareValue_of_ne_star hstar]
    simpa [valueOf, hstar] using h

theorem readQuoted_agrees (s : Str) : Agrees (readQuoted s)
    ((quotedText s).map fun p => ({ text := p.1, kind := .quoted }, p.2)) := by
  cases hd : s.dropWhile (· != '"') with
  | nil =>
      simp only [readQuoted, quotedText, hd]
      exact .syntaxError (by decide)
  | cons c rest =>
      simp only [readQuoted, quotedText, hd]
      by_cases hnil : s.takeWhile (· != '"') = []
      · rw [if_pos hnil, if_pos hnil]
        exact .syntaxError (by decide)
      · rw [if_neg hnil, if_neg hnil]
        rfl

/-! ## Words -/

/-- `w` is a longest run of query characters in front of `rest`. -/
structure IsWord (w rest : Str) : Prop where
  chars : ∀ c ∈ w, isQueryChar c = true
  stops : ∀ c ∈ rest.head?, isQueryChar c = false

theorem isWord_span (s : Str) :
    IsWord (s.takeWhile isQueryChar) (s.dropWhile isQueryChar) where
  chars _ hc := List.mem_takeWhile_imp hc
  stops c hc := by
    cases hd : s.dropWhile isQueryChar with
    | nil => simp [hd] at hc
    | cons d rest =>
        obtain rfl : d = c := by simpa [hd] using hc
        exact head?_dropWhile_ne hd

theorem isQueryChar_of_isIdChar {c : Char} (h : isIdChar c = true) : isQueryChar c = true := by
  have hne : ∀ d : Char, isIdChar d = false → c ≠ d := by
    rintro d hd rfl
    rw [hd] at h
    cases h
  simp [isQueryChar, hne '"' (by decide), hne ' ' (by decide), hne '\t' (by decide)]

section Word

variable {w rest : Str}

theorem IsWord.head?_eq (h : IsWord w rest) {c : Char} (hc : isQueryChar c = true) :
    (w ++ rest).head? = some c ↔ w.head? = some c := by
  cases w with
  | nil =>
      simp only [List.nil_append, List.head?_nil, reduceCtorEq, iff_false]
      intro hr
      rw [h.stops c hr] at hc
      cases hc
  | cons d w => simp

theorem IsWord.tail (h : IsWord w rest) : IsWord w.tail rest :=
  ⟨fun c hc => h.chars c (List.mem_of_mem_tail hc), h.stops⟩

theorem IsWord.isPrefix (h : IsWord w rest) {p : Str} (hp : ∀ c ∈ p, isQueryChar c = true) :
    p <+: w ++ rest ↔ p <+: w := by
  refine ⟨fun hpre => ?_, fun hpre => hpre.trans (List.prefix_append w rest)⟩
  induction p generalizing w with
  | nil => exact List.nil_prefix
  | cons c p ih =>
      have hhead : w.head? = some c := by
        refine (h.head?_eq (hp c (by simp))).mp ?_
        obtain ⟨t, ht⟩ := hpre
        rw [← ht]
        rfl
      rw [eq_cons_of_head? hhead, List.cons_append, List.cons_prefix_cons] at hpre
      rw [eq_cons_of_head? hhead, List.cons_prefix_cons]
      exact ⟨rfl, ih h.tail (fun d hd => hp d (by simp [hd])) hpre.2⟩

/-- Runs over a smaller class of characters end inside the word. -/
theorem IsWord.span (h : IsWord w rest) {p : Char → Bool}
    (hp : ∀ c, p c = true → isQueryChar c = true) :
    (w ++ rest).takeWhile p = w.takeWhile p ∧ (w ++ rest).dropWhile p = w.dropWhile p ++ rest := by
  induction w with
  | nil =>
      cases rest with
      | nil => simp
      | cons c rest =>
          have hc : p c = false := by
            have hstop := h.stops c rfl
            rw [Bool.eq_false_iff]
            intro hpc
            rw [hp c hpc] at hstop
            cases hstop
          simp [hc]
  | cons c w ih =>
      have ih := ih h.tail
      by_cases hc : p c = true <;> simp [hc, ih]

theorem IsWord.readBare (h : IsWord w rest) :
    readBare (w ++ rest) = (bareValue w).map fun v => (v, rest) := by
  have hspan := h.span (p := isQueryChar) fun _ => id
  have hall : w.takeWhile isQueryChar = w := List.takeWhile_eq_self_iff.mpr h.chars
  have hnone : w.dropWhile isQueryChar = [] := List.dropWhile_eq_nil_iff.mpr h.chars
  rw [Parser.readBare, hspan.1, hspan.2, hall, hnone, List.nil_append]

theorem IsWord.of_suffix (h : IsWord w rest) {x : Str} (hx : x <:+ w) : IsWord x rest :=
  ⟨fun c hc => h.chars c (hx.subset hc), h.stops⟩

/-- The name, the operator and what follows it lie inside the word. -/
theorem IsWord.readUnquoted (h : IsWord w rest) :
    readUnquoted (w ++ rest) = match splitAttr w with
      | some (name, negated, x) =>
          (readAfterOp (x ++ rest)).map fun p => (attrTerm name negated p.1, p.2)
      | none => (bareValue w).map fun v => (.value v, rest) := by
  obtain ⟨htake, hdrop⟩ := h.span fun _ => isQueryChar_of_isIdChar
  have hafter : IsWord (w.dropWhile isIdChar) rest := h.of_suffix (List.dropWhile_suffix _)
  have hbare : ((Parser.readBare (w ++ rest)).map fun p => (Term.value p.1, p.2)) =
      (bareValue w).map fun v => (.value v, rest) := by
    rw [h.readBare]
    cases bareValue w <;> rfl
  simp only [Parser.readUnquoted, splitAttr, isNameChar_eq, htake, hdrop, hbare]
  by_cases hnil : w.takeWhile isIdChar = []
  · rw [if_pos hnil, if_pos hnil]
  rw [if_neg hnil, if_neg hnil]
  have heq := hafter.head?_eq (c := '=') (by decide)
  by_cases hhead : (w.dropWhile isIdChar).head? = some '='
  · rw [if_pos (heq.mpr hhead), if_pos hhead, eq_cons_of_head? hhead]
    rfl
  rw [if_neg (heq.not.mpr hhead), if_neg hhead]
  have hpre := hafter.isPrefix (p := ['!', '=']) (List.all_eq_true.mp (by decide))
  by_cases hne : ['!', '='] <+: w.dropWhile isIdChar
  · rw [if_pos (hpre.mpr hne), if_pos hne]
    obtain ⟨x, hx⟩ := hne
    rw [← hx]
    rfl
  · rw [if_neg (hpre.not.mpr hne), if_neg hne]

/-- The value behind the operator: the quoted string if the word ends
there, the rest of the word otherwise. -/
theorem IsWord.readAfterOp_agrees (h : IsWord w rest) :
    Agrees (readAfterOp (w ++ rest))
      (if w = [] ∧ rest.head? = some '"' then
        (quotedText rest.tail).map fun p => ({ text := p.1, kind := .quoted }, p.2)
      else (valueOf w).map fun v => (v, rest)) := by
  by_cases hquote : (w ++ rest).head? = some '"'
  · obtain rfl : w = [] := by
      cases w with
      | nil => rfl
      | cons c w =>
          obtain rfl : c = '"' := by simpa using hquote
          exact absurd (h.chars '"' (by simp)) (by decide)
    rw [List.nil_append] at hquote ⊢
    rw [if_pos ⟨rfl, hquote⟩, eq_cons_of_head? hquote]
    exact readQuoted_agrees rest.tail
  · have hnot : ¬ (w = [] ∧ rest.head? = some '"') := by
      rintro ⟨rfl, hr⟩
      exact hquote hr
    rw [if_neg hnot, readAfterOp, if_neg hquote]
    split
    · rename_i hnil
      obtain ⟨rfl, rfl⟩ := List.append_eq_nil_iff.mp hnil
      exact .syntaxError (by decide)
    · rw [h.readBare]
      exact (bareValue_agrees w).map _

end Word

theorem splitAttr_suffix {w name x : Str} {negated : Bool}
    (h : splitAttr w = some (name, negated, x)) : x <:+ w := by
  have hdrop : w.dropWhile isIdChar <:+ w := List.dropWhile_suffix _
  simp only [splitAttr, isNameChar_eq] at h
  split at h
  · cases h
  · split at h
    · cases h
      exact (List.tail_suffix _).trans hdrop
    · split at h
      · cases h
        exact (List.drop_suffix _ _).trans hdrop
      · cases h

/-- **One term.** What the parser reads as a term is the term of the
next token. -/
theorem readTerm_agrees {s : Str} (hs : s.dropWhile isBlank = s) (hne : s ≠ []) :
    Agrees (readTerm s) ((nextToken s).bind fun p => (termOf p.1).map fun t => (t, p.2)) := by
  simp only [readTerm, hs, if_neg hne, nextToken, isWordChar_eq]
  by_cases hquote : s.head? = some '"'
  · rw [if_pos hquote, if_pos hquote]
    have h := (readQuoted_agrees s.tail).map fun p => (Term.value p.1, p.2)
    cases hq : quotedText s.tail <;> simpa [hq, termOf] using h
  rw [if_neg hquote, if_neg hquote]
  have hword := isWord_span s
  have hsplit : s = s.takeWhile isQueryChar ++ s.dropWhile isQueryChar :=
    (List.takeWhile_append_dropWhile).symm
  generalize s.takeWhile isQueryChar = w at hword hsplit ⊢
  generalize s.dropWhile isQueryChar = rest at hword hsplit ⊢
  rw [hsplit, hword.readUnquoted]
  cases hattr : splitAttr w with
  | none =>
      have h := (bareValue_agrees w).map fun v => (Term.value v, rest)
      cases hv : valueOf w <;> simpa [hv, termOf, hattr] using h
  | some a =>
      obtain ⟨name, negated, x⟩ := a
      have h := ((hword.of_suffix (splitAttr_suffix hattr)).readAfterOp_agrees).map fun p =>
        (attrTerm name negated p.1, p.2)
      simp only
      split at h
      · rename_i hx
        rw [if_pos hx]
        cases hq : quotedText rest.tail <;> simpa [hq, termOf] using h
      · rename_i hx
        rw [if_neg hx]
        cases hv : valueOf x <;> simpa [hv, termOf, hattr] using h

/-! ## Keywords -/

theorem IsWord.unique {w w' rest rest' : Str} (h : IsWord w rest) (h' : IsWord w' rest')
    (heq : w ++ rest = w' ++ rest') : w = w' ∧ rest = rest' := by
  have hw : ∀ {w rest}, IsWord w rest → (w ++ rest).takeWhile isQueryChar = w := by
    intro w rest h
    rw [(h.span (p := isQueryChar) fun _ => id).1]
    exact List.takeWhile_eq_self_iff.mpr h.chars
  obtain rfl : w = w' := by rw [← hw h, heq, hw h']
  exact ⟨rfl, List.append_cancel_left heq⟩

theorem isQueryChar_of_toLower {c : Char} (h : isQueryChar c.toLower = true) :
    isQueryChar c = true := by
  by_contra hc
  have hlower : c.toLower = c := by
    by_cases h1 : c = '"'
    · subst h1; rfl
    · by_cases h2 : c = ' '
      · subst h2; rfl
      · obtain rfl : c = '\t' := by simpa [isQueryChar, h1, h2] using hc
        rfl
  rw [hlower] at h
  exact hc h

theorem isQueryChar_of_isBlank {c : Char} (h : isBlank c = true) : isQueryChar c = false := by
  simp only [isBlank, Bool.or_eq_true, beq_iff_eq] at h
  rcases h with rfl | rfl <;> rfl

/-- The look ahead of `try_keyword` finds exactly the words that are the
keyword and end in front of a blank or the end. -/
theorem IsWord.readKeyword_eq {w rest : Str} (h : IsWord w rest) (kw : Str)
    (hkw : ∀ c ∈ toAsciiLowercase kw, isQueryChar c = true) :
    readKeyword kw (w ++ rest) =
      if eqIgnoreAsciiCase w kw ∧ rest.head?.all isBlank then some (rest.dropWhile isBlank)
      else none := by
  by_cases hw : eqIgnoreAsciiCase w kw = true
  · have hlen := length_eq_of_eqIgnoreAsciiCase hw
    simp only [readKeyword, ← hlen, List.take_left', List.drop_left']
  · rw [if_neg (fun hk => hw hk.1)]
    refine if_neg fun hk => hw ?_
    obtain ⟨hhead, hblank⟩ := hk
    have hcut : IsWord ((w ++ rest).take kw.length) ((w ++ rest).drop kw.length) := by
      refine ⟨fun c hc => isQueryChar_of_toLower (hkw _ ?_), fun c hc => ?_⟩
      · rw [← beq_iff_eq.mp hhead]
        exact List.mem_map_of_mem hc
      · have hb : isBlank c = true := by
          simp only [Option.mem_def] at hc
          simpa [hc] using hblank
        exact isQueryChar_of_isBlank hb
    rw [(h.unique hcut (List.take_append_drop _ _).symm).1]
    exact hhead

/-- The next token is an operator exactly if the word in front is one and
is closed: a quote in front or behind makes a term of it. -/
theorem keyword_nextToken (s : Str) :
    ((nextToken s).bind fun p => (keyword p.1).map fun op => (op, p.2)) =
      if (s.dropWhile isQueryChar).head?.all isBlank then
        (operatorOf (s.takeWhile isQueryChar)).map fun op => (op, s.dropWhile isQueryChar)
      else none := by
  simp only [nextToken, isWordChar_eq, isSeparator_eq]
  by_cases hquote : s.head? = some '"'
  · have hnil : s.takeWhile isQueryChar = [] := by
      rw [eq_cons_of_head? hquote]
      rfl
    rw [if_pos hquote, hnil]
    cases quotedText s.tail <;> simp [keyword, operatorOf, eqIgnoreAsciiCase, toAsciiLowercase]
  rw [if_neg hquote]
  generalize s.takeWhile isQueryChar = w
  generalize s.dropWhile isQueryChar = rest
  have hword : ((some (Token.word w (rest.head?.all isBlank), rest)).bind fun p =>
      (keyword p.1).map fun op => (op, p.2)) =
      if rest.head?.all isBlank then (operatorOf w).map fun op => (op, rest) else none := by
    cases rest.head?.all isBlank <;> rfl
  cases splitAttr w with
  | none => exact hword
  | some a =>
      simp only
      split
      · rename_i hx
        rw [hx.2]
        cases quotedText rest.tail <;> rfl
      · exact hword

/-- The operator and the place of the next term, from the next token. -/
theorem readOperator_eq (s : Str) :
    readOperator s = match (nextToken s).bind fun p => (keyword p.1).map fun op => (op, p.2) with
      | some (op, rest) => (op, rest.dropWhile isBlank)
      | none => (.and, s) := by
  have hword := isWord_span s
  have hsplit : s.takeWhile isQueryChar ++ s.dropWhile isQueryChar = s :=
    List.takeWhile_append_dropWhile
  have hand := hword.readKeyword_eq "and".toList (List.all_eq_true.mp (by decide))
  have hor := hword.readKeyword_eq "or".toList (List.all_eq_true.mp (by decide))
  rw [hsplit] at hand hor
  rw [keyword_nextToken, readOperator, hand, hor, operatorOf]
  generalize s.takeWhile isQueryChar = w
  generalize s.dropWhile isQueryChar = rest
  by_cases hclosed : rest.head?.all isBlank = true
  · rw [if_pos hclosed]
    by_cases ha : eqIgnoreAsciiCase w "and".toList = true
    · rw [if_pos ⟨ha, hclosed⟩, if_pos ha]
      rfl
    · rw [if_neg (fun h => ha h.1), if_neg ha]
      by_cases ho : eqIgnoreAsciiCase w "or".toList = true
      · rw [if_pos ⟨ho, hclosed⟩, if_pos ho]
        rfl
      · rw [if_neg (fun h => ho h.1), if_neg ho]
        rfl
  · rw [if_neg (fun h => hclosed h.2), if_neg (fun h => hclosed h.2), if_neg hclosed]

/-! ## The whole query -/

theorem quotedText_length {s text rest : Str} (h : quotedText s = some (text, rest)) :
    rest.length < s.length := by
  have hlen := (List.dropWhile_suffix (l := s) (· != '"')).length_le
  simp only [quotedText] at h
  split at h
  · cases h
  · rename_i hd
    rw [hd, List.length_cons] at hlen
    split at h
    · cases h
    · cases h
      omega

theorem nextToken_length {s rest : Str} {tok : Token} (hs : s.dropWhile isBlank = s)
    (hne : s ≠ []) (h : nextToken s = some (tok, rest)) : rest.length < s.length := by
  have hquoted : ∀ {u : Str} {f : Str → Token}, u.length ≤ s.length →
      (quotedText u).map (fun p => (f p.1, p.2)) = some (tok, rest) → rest.length < s.length := by
    intro u f hu hq
    obtain ⟨⟨text, r⟩, hq', hr⟩ := Option.map_eq_some_iff.mp hq
    obtain ⟨-, rfl⟩ := Prod.mk.inj hr
    exact (quotedText_length hq').trans_le hu
  have hdrop : (s.dropWhile isQueryChar).length ≤ s.length :=
    (List.dropWhile_suffix _).length_le
  simp only [nextToken, isWordChar_eq] at h
  split at h
  · exact hquoted (by simp) h
  · rename_i hquote
    have hshort : (s.dropWhile isQueryChar).length < s.length := by
      obtain ⟨c, t, rfl⟩ := List.exists_cons_of_ne_nil hne
      have hb : isBlank c = false := by
        by_contra hb
        rw [Bool.not_eq_false] at hb
        have := (List.dropWhile_suffix (l := t) isBlank).length_le
        rw [List.dropWhile_cons_of_pos hb] at hs
        rw [hs, List.length_cons] at this
        omega
      have hq : isQueryChar c = true := by
        simp only [isBlank, Bool.or_eq_false_iff, beq_eq_false_iff_ne] at hb
        simpa [isQueryChar, hb] using hquote
      rw [List.dropWhile_cons_of_pos hq, List.length_cons]
      exact Nat.lt_succ_of_le (List.dropWhile_suffix _).length_le
    split at h
    · split at h
      · exact hquoted (by rw [List.length_tail]; omega) h
      · cases h
        exact hshort
    · cases h
      exact hshort

/-- Leading blanks do not count. -/
theorem tokensFuel_dropWhile (n : Nat) (s : Str) :
    tokensFuel n (s.dropWhile isBlank) = tokensFuel n s := by
  cases n with
  | zero => rfl
  | succ n => simp only [tokensFuel, isSeparator_eq, List.dropWhile_idempotent]

/-- One term, read and then followed by the loop, against a term at the
head of the token list. The rest of the loop is the hypothesis. -/
theorem round_agrees {fuel : Nat}
    (ih : ∀ (lhs : Expr) (rest : Str) (n : Nat), rest.length < fuel → rest.length < n →
      Agrees ((readLoop fuel lhs rest).map Prod.fst) ((tokensFuel n rest).bind (fold lhs)))
    (join : Expr → Expr) {s : Str} {n : Nat} (hfuel : s.length ≤ fuel) (hn : s.length < n) :
    Agrees (((readTerm s).bind fun p => readLoop fuel (join (.term p.1)) p.2).map Prod.fst)
      ((tokensFuel n s).bind (foldTerm join)) := by
  rw [← readTerm_dropWhile, ← tokensFuel_dropWhile]
  have hlen := (List.dropWhile_suffix (l := s) isBlank).length_le
  have hs : (s.dropWhile isBlank).dropWhile isBlank = s.dropWhile isBlank :=
    List.dropWhile_idempotent ..
  generalize s.dropWhile isBlank = start at hlen hs ⊢
  obtain ⟨n, rfl⟩ : ∃ m, n = m + 1 := ⟨n - 1, by omega⟩
  by_cases hnil : start = []
  · subst hnil
    exact .syntaxError (by decide)
  have hterm := readTerm_agrees hs hnil
  simp only [tokensFuel, isSeparator_eq, hs, if_neg hnil]
  cases htok : nextToken start with
  | none =>
      rw [htok] at hterm
      obtain ⟨message, hline, herr⟩ := hterm
      exact ⟨message, hline, by rw [herr]; rfl⟩
  | some p =>
      obtain ⟨tok, rest⟩ := p
      have hrest := nextToken_length hs hnil htok
      simp only [htok, Option.bind_some] at hterm ⊢
      cases ht : termOf tok with
      | none =>
          rw [ht] at hterm
          obtain ⟨message, hline, herr⟩ := hterm
          have hfold : ((tokensFuel n rest).map (tok :: ·)).bind (foldTerm join) = none := by
            cases tokensFuel n rest <;> simp [foldTerm, ht]
          rw [hfold, herr]
          exact ⟨message, hline, rfl⟩
      | some t =>
          rw [ht] at hterm
          have hok : readTerm start = .ok (t, rest) := hterm
          have hfold : ((tokensFuel n rest).map (tok :: ·)).bind (foldTerm join) =
              (tokensFuel n rest).bind (fold (join (.term t))) := by
            cases tokensFuel n rest <;> simp [foldTerm, ht]
          rw [hfold, hok]
          exact ih (join (.term t)) rest n (by omega) (by omega)

/-- **The loop.** By induction on its fuel: a round takes an operator or
none, as the first token says, and then a term. -/
theorem readLoop_agrees (fuel : Nat) : ∀ (lhs : Expr) (rest : Str) (n : Nat),
    rest.length < fuel → rest.length < n →
    Agrees ((readLoop fuel lhs rest).map Prod.fst) ((tokensFuel n rest).bind (fold lhs)) := by
  induction fuel with
  | zero => intro lhs rest n hfuel; omega
  | succ fuel ih =>
      intro lhs rest n hfuel hn
      obtain ⟨n, rfl⟩ : ∃ m, n = m + 1 := ⟨n - 1, by omega⟩
      have hlen := (List.dropWhile_suffix (l := rest) isBlank).length_le
      have hs : (rest.dropWhile isBlank).dropWhile isBlank = rest.dropWhile isBlank :=
        List.dropWhile_idempotent ..
      rw [← tokensFuel_dropWhile]
      simp only [readLoop]
      generalize rest.dropWhile isBlank = start at hlen hs ⊢
      by_cases hnil : start = []
      · subst hnil
        rfl
      rw [if_neg hnil, readOperator_eq]
      have htokens : tokensFuel (n + 1) start =
          (nextToken start).bind fun p => (tokensFuel n p.2).map (p.1 :: ·) := by
        simp only [tokensFuel, isSeparator_eq, hs, if_neg hnil]
      -- without an operator the first token is the term
      have hterm := round_agrees ih (Expr.and lhs) (s := start) (n := n + 1) (by omega) (by omega)
      rw [htokens] at hterm ⊢
      cases htok : nextToken start with
      | none =>
          rw [htok] at hterm
          exact hterm
      | some p =>
          obtain ⟨tok, r⟩ := p
          have hr := nextToken_length hs hnil htok
          rw [htok] at hterm
          simp only [Option.bind_some] at hterm ⊢
          cases hk : keyword tok with
          | none =>
              have hfold : ((tokensFuel n r).map (tok :: ·)).bind (fold lhs) =
                  ((tokensFuel n r).map (tok :: ·)).bind (foldTerm (Expr.and lhs)) := by
                cases tokensFuel n r <;> simp [fold_cons, hk]
              rw [hfold]
              exact hterm
          | some op =>
              have hfold : ((tokensFuel n r).map (tok :: ·)).bind (fold lhs) =
                  (tokensFuel n (r.dropWhile isBlank)).bind (foldTerm (op lhs)) := by
                rw [tokensFuel_dropWhile]
                cases tokensFuel n r <;> simp [fold_cons, hk]
              have hlen' := (List.dropWhile_suffix (l := r) isBlank).length_le
              rw [hfold]
              exact round_agrees ih (op lhs) (s := r.dropWhile isBlank) (by omega) (by omega)

theorem readQuery_agrees (s : Str) :
    Agrees ((readQuery s).map Prod.fst) ((tokens s).bind (foldTerm id)) :=
  round_agrees (readLoop_agrees (s.length + 1)) id (by omega) (by omega)

end Grammar

namespace Query

theorem parse_agrees {s : Str} (haligned : Aligned (trim s)) :
    Grammar.Agrees (parse s) ((Grammar.expr s).map fun e => { cls := none, expr := e, raw := s }) := by
  simp only [parse, Grammar.expr]
  by_cases hnil : trim s = []
  · rw [if_pos hnil, hnil]
    exact .syntaxError (by decide)
  · rw [if_neg hnil, run_parseTrimmed, if_pos haligned]
    exact (Grammar.readQuery_agrees (trim s)).map _

/-- **The parser accepts exactly the grammar**, and builds the tree of
the grammar, on every ASCII text. Every other text is refused with the
protocol error 350. -/
theorem parse_eq_grammar (s : Str) (hascii : IsAscii s) :
    (∀ q, parse s = .ok q ↔
      ∃ e, Grammar.expr s = some e ∧ q = { cls := none, expr := e, raw := s }) ∧
    (Grammar.expr s = none ↔
      ∃ message, parse s = .err (.protocol .INVALID_QUERY_SYNTAX message)) := by
  have h := parse_agrees (.of_isAscii hascii.trim)
  cases he : Grammar.expr s with
  | some e =>
      rw [he] at h
      have hok : parse s = .ok { cls := none, expr := e, raw := s } := h
      simp [hok, eq_comm]
  | none =>
      rw [he] at h
      obtain ⟨message, -, herr⟩ := h
      simp [herr]

/-- Keywords and names that are words, all kinds of values, and one that is
refused. -/
theorem parse_eq_grammar_kinds :
    parse "x and\"b\" OR a-1=*c* d!=*e f*".toList = .ok {
      cls := none
      expr := .and (.and (.or (.and (.and (.term (.value ⟨"x".toList, .exact⟩))
                (.term (.value ⟨"and".toList, .exact⟩)))
              (.term (.value ⟨"b".toList, .quoted⟩)))
            (.term (.attrEq "a-1".toList ⟨"c".toList, .substring⟩)))
          (.term (.attrNe "d".toList ⟨"e".toList, .suffixed⟩)))
        (.term (.value ⟨"f".toList, .prefixed⟩))
      raw := "x and\"b\" OR a-1=*c* d!=*e f*".toList } ∧
    ∃ message, parse "foo=**".toList = .err (.protocol .INVALID_QUERY_SYNTAX message) :=
  ⟨((parse_eq_grammar "x and\"b\" OR a-1=*c* d!=*e f*".toList (by decide)).1 _).mpr
      ⟨_, by decide, rfl⟩,
    (parse_eq_grammar "foo=**".toList (by decide)).2.mp (by decide)⟩

/-- **The parser comes back if and only if the text is aligned**: with a
query or the protocol error 350. Otherwise it panics. -/
theorem parse_returns_iff (s : Str) :
    ((∃ q, parse s = .ok q) ∨
      ∃ message, parse s = .err (.protocol .INVALID_QUERY_SYNTAX message)) ↔
    Aligned (trim s) := by
  by_cases haligned : Aligned (trim s)
  · refine iff_of_true ?_ haligned
    have h := parse_agrees haligned
    cases he : Grammar.expr s with
    | some e =>
        rw [he] at h
        exact .inl ⟨_, h⟩
    | none =>
        rw [he] at h
        obtain ⟨message, -, herr⟩ := h
        exact .inr ⟨message, herr⟩
  · -- the empty text has no term, so there is no keyword to look for
    have hnil : trim s ≠ [] := by
      intro hnil
      rw [hnil] at haligned
      exact haligned (by decide)
    have hpanic : parse s = .panic := by
      simp only [parse]
      rw [if_neg hnil, run_parseTrimmed, if_neg haligned]
      rfl
    simp [hpanic, haligned]

/-- Other characters are fine in the first word, and behind the third byte
of the other words and quoted texts. -/
example : Aligned (trim "Zürich or Genève \"im Süden €\"".toList) := by decide

/-- The three bytes of the euro sign, cut behind the second one. -/
theorem parse_panics : parse "x €".toList = .panic := by decide

end Query

end Rwhois
