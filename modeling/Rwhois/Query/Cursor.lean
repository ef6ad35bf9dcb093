import Rwhois.Query

/-!
# Query — Cursor

The parser routines as readers of the text BEHIND the cursor. `cursor pre
rest` is a parser that stands between `pre` and `rest`; every routine
that starts there ends at a later cut of the same text, so `pos` is
always on a character boundary and the slices at `pos` never fail.

What a routine makes of `rest` is a function of `rest` alone (`readTerm`
and its parts); `Reads` ties the routine to that function.

The one routine that looks at a fixed number of bytes ahead is
`try_keyword`. It cuts the text behind the cursor after the two bytes of
`or` and the three of `and` without asking whether a character ends
there; on `x €` the cut goes through the euro sign. So the parser comes
back if and only if these cuts fall between characters wherever it looks
for a keyword (`Aligned`), which is behind every term.
-/

namespace Rwhois

open RustStd

namespace Parser

/-- The parser between `pre` and `rest`. -/
def cursor (pre rest : Str) : Parser := { input := pre ++ rest, pos := byteLen pre }

theorem cursor_start (s : Str) : ({ input := s, pos := 0 } : Parser) = cursor [] s := rfl

@[simp] theorem cursor_pos (pre rest : Str) : (cursor pre rest).pos = byteLen pre := rfl

@[simp] theorem cursor_input (pre rest : Str) : (cursor pre rest).input = pre ++ rest := rfl

/-! ## Moving the cursor -/

theorem run_peek (pre rest : Str) :
    peek.run (cursor pre rest) = (.ok rest.head?, cursor pre rest) := by
  simp [peek, cursor]

theorem run_eof (pre rest : Str) :
    eof.run (cursor pre rest) = (.ok (decide (rest = [])), cursor pre rest) := by
  have h : byteLen (pre ++ rest) ≤ byteLen pre ↔ rest = [] := by
    rw [byteLen_append, ← byteLen_eq_zero]
    omega
  simp only [eof, Exec.run_get_bind, cursor, Exec.run_pure, Prod.mk.injEq, and_true,
    Outcome.ok.injEq, decide_eq_decide]
  exact h

theorem run_advance (pre t rest : Str) :
    (advance (byteLen t)).run (cursor pre (t ++ rest)) = (.ok (), cursor (pre ++ t) rest) := by
  simp [advance, cursor]

theorem run_setPos (pre t rest : Str) :
    (setPos (byteLen pre)).run (cursor (pre ++ t) rest) = (.ok (), cursor pre (t ++ rest)) := by
  simp [setPos, cursor]

theorem run_sliceSince (pre t rest : Str) :
    (sliceSince (byteLen pre)).run (cursor (pre ++ t) rest) =
      (.ok t, cursor (pre ++ t) rest) := by
  simp only [sliceSince, Exec.run_get_bind, cursor, byteLen_append, List.append_assoc]
  rw [slice_append, Exec.run_index_some]

/-- The scanning loop stops in front of the first character outside its
class. The induction is on the fuel, one unit for each character. -/
theorem run_advanceWhile (p : Char → Bool) (fuel : Nat) : ∀ (pre rest : Str),
    rest.length < fuel →
    (advanceWhile p fuel).run (cursor pre rest) =
      (.ok (), cursor (pre ++ rest.takeWhile p) (rest.dropWhile p)) := by
  induction fuel with
  | zero => intro pre rest h; omega
  | succ fuel ih =>
      intro pre rest h
      rw [advanceWhile, Exec.run_bind_ok (run_peek pre rest)]
      cases rest with
      | nil => simp
      | cons c rest =>
          simp only [List.head?_cons]
          by_cases hc : p c = true
          · have hadv := run_advance pre [c] rest
            simp only [byteLen_cons, byteLen_nil, Nat.add_zero, List.singleton_append] at hadv
            rw [if_pos hc, Exec.run_bind_ok hadv,
              ih (pre ++ [c]) rest (by simp only [List.length_cons] at h; omega)]
            simp [hc]
          · simp [hc]

theorem run_scan (p : Char → Bool) (pre rest : Str) :
    (scan p).run (cursor pre rest) =
      (.ok (), cursor (pre ++ rest.takeWhile p) (rest.dropWhile p)) := by
  rw [scan, Exec.run_get_bind]
  exact run_advanceWhile p _ pre rest (by simp only [cursor, List.length_append]; omega)

theorem run_skipWs (pre rest : Str) :
    skipWs.run (cursor pre rest) =
      (.ok (), cursor (pre ++ rest.takeWhile isBlank) (rest.dropWhile isBlank)) :=
  run_scan isBlank pre rest

theorem run_consumeIdChars (pre rest : Str) :
    consumeIdChars.run (cursor pre rest) = (.ok (rest.takeWhile isIdChar),
      cursor (pre ++ rest.takeWhile isIdChar) (rest.dropWhile isIdChar)) := by
  rw [consumeIdChars, Exec.run_get_bind, Exec.run_bind_ok (run_scan isIdChar pre rest)]
  exact run_sliceSince pre _ _

/-! ## Reading a text -/

/-- `x` makes `o` of the text behind the cursor: a value and the text
left over, or an error. It moves the cursor over what it took. -/
structure Reads {α : Type} (x : Exec Parser Error α) (rest : Str)
    (o : Outcome Error (α × Str)) : Prop where
  outcome : ∀ pre, (x.run (cursor pre rest)).1 = o.map Prod.fst
  moves : ∀ pre a rest', o = .ok (a, rest') →
    ∃ t, rest = t ++ rest' ∧ (x.run (cursor pre rest)).2 = cursor (pre ++ t) rest'

section Reads

variable {α β : Type} {x : Exec Parser Error α} {rest : Str}

theorem Reads.run_ok {a : α} {rest' : Str} (h : Reads x rest (.ok (a, rest'))) :
    ∃ t, rest = t ++ rest' ∧
      ∀ pre, x.run (cursor pre rest) = (.ok a, cursor (pre ++ t) rest') := by
  obtain ⟨t, ht, -⟩ := h.moves [] a rest' rfl
  refine ⟨t, ht, fun pre => ?_⟩
  obtain ⟨t', ht', hs⟩ := h.moves pre a rest' rfl
  obtain rfl : t = t' := List.append_cancel_right (ht.symm.trans ht')
  exact Prod.ext (h.outcome pre) hs

/-- A routine that took nothing left the cursor where it was. -/
theorem Reads.run_stay {a : α} (h : Reads x rest (.ok (a, rest))) (pre : Str) :
    x.run (cursor pre rest) = (.ok a, cursor pre rest) := by
  obtain ⟨t, ht, hr⟩ := h.run_ok
  obtain rfl : t = [] := List.self_eq_append_left.mp ht
  rw [hr, List.append_nil]

theorem Reads.suffix {a : α} {rest' : Str} (h : Reads x rest (.ok (a, rest'))) :
    rest' <:+ rest := by
  obtain ⟨t, ht, -⟩ := h.run_ok
  exact ⟨t, ht.symm⟩

/-- A routine that ends at the same cut of the text whatever it returns. -/
theorem Reads.of_run {o : Outcome Error α} {t rest' : Str} (ht : rest = t ++ rest')
    (h : ∀ pre, x.run (cursor pre rest) = (o, cursor (pre ++ t) rest')) :
    Reads x rest (o.map fun a => (a, rest')) := by
  constructor
  · intro pre
    rw [h pre]
    cases o <;> rfl
  · intro pre a rest'' ho
    obtain ⟨b, rfl, hb⟩ := Outcome.map_eq_ok.mp ho
    cases hb
    exact ⟨t, ht, by rw [h pre]⟩

theorem Reads.of_run_ok {a : α} {t rest' : Str} (ht : rest = t ++ rest')
    (h : ∀ pre, x.run (cursor pre rest) = (.ok a, cursor (pre ++ t) rest')) :
    Reads x rest (.ok (a, rest')) :=
  .of_run (o := .ok a) ht h

/-- A routine that has moved over `t` goes on as `y`. -/
theorem Reads.of_step {y : Exec Parser Error α} {o : Outcome Error (α × Str)} {t rest' : Str}
    (ht : rest = t ++ rest')
    (h : ∀ pre, x.run (cursor pre rest) = y.run (cursor (pre ++ t) rest'))
    (hy : Reads y rest' o) : Reads x rest o := by
  constructor
  · intro pre
    rw [h pre, hy.outcome]
  · intro pre a rest'' ho
    obtain ⟨u, hu, hs⟩ := hy.moves (pre ++ t) a rest'' ho
    exact ⟨t ++ u, by rw [ht, hu, List.append_assoc], by rw [h pre, hs, List.append_assoc]⟩

theorem Reads.of_run_err {e : Error}
    (h : ∀ pre, (x.run (cursor pre rest)).1 = .err e) : Reads x rest (.err e) :=
  ⟨h, by simp⟩

theorem Reads.pure (a : α) : Reads (Pure.pure a) rest (.ok (a, rest)) :=
  .of_run_ok (t := []) rfl (fun pre => by simp)

theorem Reads.throw (e : Error) : Reads (Exec.throw e : Exec Parser Error α) rest (.err e) :=
  .of_run_err (fun _ => rfl)

/-- Sequencing: the second routine reads what the first left over. -/
theorem Reads.bind {o : Outcome Error (α × Str)} (hx : Reads x rest o)
    {f : α → Exec Parser Error β} {g : α × Str → Outcome Error (β × Str)}
    (hf : ∀ a rest', o = .ok (a, rest') → Reads (f a) rest' (g (a, rest'))) :
    Reads (x >>= f) rest (o.bind g) := by
  cases o with
  | ok p =>
      obtain ⟨a, rest'⟩ := p
      obtain ⟨t, ht, hr⟩ := hx.run_ok
      exact .of_step ht (fun pre => Exec.run_bind_ok (hr pre) f) (hf a rest' rfl)
  | _ =>
      refine ⟨fun pre => ?_, by simp [Outcome.bind]⟩
      have ho := hx.outcome pre
      rcases hrun : x.run (cursor pre rest) with ⟨o', s'⟩
      rw [hrun] at ho
      subst ho
      rw [Exec.run_bind, hrun]
      rfl

theorem Reads.map {o : Outcome Error (α × Str)} (hx : Reads x rest o) (f : α → β) :
    Reads (do let a ← x; Pure.pure (f a)) rest (o.map fun p => (f p.1, p.2)) := by
  have h := hx.bind (g := fun p => .ok (f p.1, p.2)) (fun a rest' _ => Reads.pure (f a))
  cases o <;> exact h

theorem reads_skipWs (rest : Str) : Reads skipWs rest (.ok ((), rest.dropWhile isBlank)) :=
  .of_run_ok (t := rest.takeWhile isBlank) (by simp) (fun pre => run_skipWs pre rest)

end Reads

/-! ## What the routines make of a text -/

/-- The value a run of query characters stands for. -/
def bareValue : Str → Outcome Error Value
  | '*' :: w => finishQueryString true w
  | w => finishQueryString false w

/-- One unquoted value, the longest run of query characters. -/
def readBare (rest : Str) : Outcome Error (Value × Str) :=
  (bareValue (rest.takeWhile isQueryChar)).map fun v => (v, rest.dropWhile isQueryChar)

/-- A quoted value, behind its opening quote. -/
def readQuoted (rest : Str) : Outcome Error (Value × Str) :=
  match rest.dropWhile (· != '"') with
  | [] => .err (syntaxError "unterminated quoted string")
  | _ :: rest' =>
      if rest.takeWhile (· != '"') = [] then .err (syntaxError "empty quoted string")
      else .ok ({ text := rest.takeWhile (· != '"'), kind := .quoted }, rest')

/-- The value behind `=` or `!=`. -/
def readAfterOp (rest : Str) : Outcome Error (Value × Str) :=
  if rest = [] then .err (syntaxError "missing value after operator")
  else if rest.head? = some '"' then readQuoted rest.tail
  else readBare rest

/-- A term that starts with neither a blank nor a quote. -/
def readUnquoted (rest : Str) : Outcome Error (Term × Str) :=
  let bare := (readBare rest).map fun p => (Term.value p.1, p.2)
  let id := rest.takeWhile isIdChar
  let after := rest.dropWhile isIdChar
  if id = [] then bare
  else if after.head? = some '=' then
    (readAfterOp after.tail).map fun p => (.attrEq id p.1, p.2)
  else if ['!', '='] <+: after then
    (readAfterOp (after.drop 2)).map fun p => (.attrNe id p.1, p.2)
  else bare

def readTerm (rest : Str) : Outcome Error (Term × Str) :=
  let start := rest.dropWhile isBlank
  if start = [] then .err (syntaxError "unexpected end of query")
  else if start.head? = some '"' then
    (readQuoted start.tail).map fun p => (.value p.1, p.2)
  else readUnquoted start

theorem run_advance_ascii {c : Char} (hc : c.toNat < 128) (pre rest : Str) :
    (advance 1).run (cursor pre (c :: rest)) = (.ok (), cursor (pre ++ [c]) rest) := by
  have h := run_advance pre [c] rest
  rwa [byteLen_cons, byteLen_nil, utf8Size_of_ascii hc] at h

theorem bareValue_of_ne_star {w : Str} (h : w.head? ≠ some '*') :
    bareValue w = finishQueryString false w := by
  unfold bareValue
  split
  · simp at h
  · rfl

/-- The part of `parse_query_string` behind the optional star. -/
theorem run_finishQueryString (star : Bool) (pre rest : Str) :
    (do
      scan isQueryChar
      let text ← sliceSince (byteLen pre)
      Exec.ofOutcome (finishQueryString star text) : Exec Parser Error Value).run
        (cursor pre rest) =
      (finishQueryString star (rest.takeWhile isQueryChar),
        cursor (pre ++ rest.takeWhile isQueryChar) (rest.dropWhile isQueryChar)) := by
  rw [Exec.run_bind_ok (run_scan isQueryChar pre rest), Exec.run_bind_ok (run_sliceSince pre _ _),
    Exec.run_ofOutcome]

theorem run_parseQueryString (pre rest : Str) :
    parseQueryString.run (cursor pre rest) = (bareValue (rest.takeWhile isQueryChar),
      cursor (pre ++ rest.takeWhile isQueryChar) (rest.dropWhile isQueryChar)) := by
  rw [parseQueryString, Exec.run_bind_ok (run_peek pre rest)]
  by_cases hstar : rest.head? = some '*'
  · obtain ⟨w, rfl⟩ : ∃ w, rest = '*' :: w := by
      cases rest with
      | nil => simp at hstar
      | cons c w => exact ⟨w, by simpa using hstar⟩
    have hq : isQueryChar '*' = true := rfl
    simp only [hstar, decide_true, if_true, List.takeWhile_cons, List.dropWhile_cons, hq]
    rw [Exec.run_bind_ok (run_advance_ascii (by decide) pre w), Exec.run_get_bind]
    simpa [bareValue] using run_finishQueryString true (pre ++ ['*']) w
  · have hadv : (advance 0).run (cursor pre rest) = (.ok (), cursor pre rest) := by
      simp [advance, cursor]
    have hhead : (rest.takeWhile isQueryChar).head? ≠ some '*' := by
      cases rest with
      | nil => simp
      | cons c w =>
          rw [List.takeWhile_cons]
          split <;> simp_all
    simp only [hstar, decide_false, Bool.false_eq_true, if_false, bareValue_of_ne_star hhead]
    rw [Exec.run_bind_ok hadv, Exec.run_get_bind]
    exact run_finishQueryString false pre rest

theorem reads_parseQueryString (rest : Str) : Reads parseQueryString rest (readBare rest) :=
  .of_run (t := rest.takeWhile isQueryChar) (by simp) (fun pre => run_parseQueryString pre rest)

theorem head?_dropWhile_ne {p : Char → Bool} {s s' : Str} {c : Char}
    (h : s.dropWhile p = c :: s') : p c = false := by
  have := List.head?_dropWhile_not p s
  simpa [h] using this

theorem reads_parseQuotedValue (rest : Str) :
    Reads parseQuotedValue ('"' :: rest) (readQuoted rest) := by
  unfold readQuoted
  split
  · rename_i hnil
    refine .of_run_err fun pre => ?_
    rw [parseQuotedValue, Exec.run_bind_ok (run_advance_ascii (by decide) pre rest),
      Exec.run_get_bind, Exec.run_bind_ok (run_scan _ _ rest), Exec.run_bind_ok (run_peek _ _),
      hnil]
    rfl
  · rename_i c rest' hcons
    obtain rfl : c = '"' := by simpa using head?_dropWhile_ne hcons
    set text := rest.takeWhile (· != '"') with htext
    have hrest : '"' :: rest = ('"' :: (text ++ ['"'])) ++ rest' := by
      conv_lhs => rw [← List.takeWhile_append_dropWhile (p := (· != '"')) (l := rest), hcons]
      simp [htext]
    have hclose : ∀ pre, parseQuotedValue.run (cursor pre ('"' :: rest)) =
        (if text = [] then .err (syntaxError "empty quoted string")
          else .ok { text, kind := .quoted }, cursor (pre ++ '"' :: (text ++ ['"'])) rest') := by
      intro pre
      rw [parseQuotedValue, Exec.run_bind_ok (run_advance_ascii (by decide) pre rest),
        Exec.run_get_bind, Exec.run_bind_ok (run_scan _ _ rest), Exec.run_bind_ok (run_peek _ _),
        hcons]
      simp only [List.head?_cons, if_true]
      rw [cursor_pos, Exec.run_bind_ok (run_sliceSince _ text _),
        Exec.run_bind_ok (run_advance_ascii (by decide) _ rest')]
      split <;> simp
    have h := Reads.of_run hrest hclose
    split at h
    · rwa [if_pos ‹_›]
    · rwa [if_neg ‹_›]

theorem eq_cons_of_head? {s : Str} {c : Char} (h : s.head? = some c) : s = c :: s.tail := by
  cases s with
  | nil => simp at h
  | cons d s => simpa using h

/-- A routine that starts by asking for the end. -/
theorem reads_atEnd {α : Type} {atEnd before : Exec Parser Error α} {rest : Str}
    {o : Outcome Error (α × Str)} (h : Reads (if rest = [] then atEnd else before) rest o) :
    Reads (do if ← eof then atEnd else before) rest o := by
  refine .of_step (t := []) rfl (fun pre => ?_) h
  rw [Exec.run_bind_ok (run_eof pre rest), List.append_nil]
  by_cases hnil : rest = [] <;> simp [hnil]

/-- A routine that asks for the end and, before it, for the next
character. -/
theorem reads_ahead {α : Type} {atEnd : Exec Parser Error α}
    {next : Option Char → Exec Parser Error α} {rest : Str} {o : Outcome Error (α × Str)}
    (h : Reads (if rest = [] then atEnd else next rest.head?) rest o) :
    Reads (do
      if ← eof then atEnd
      else do
        let c ← peek
        next c) rest o := by
  refine reads_atEnd (.of_step (t := []) rfl (fun pre => ?_) h)
  split
  · rw [List.append_nil]
  · rw [Exec.run_bind_ok (run_peek pre rest), List.append_nil]

theorem reads_parseValueAfterOp (rest : Str) :
    Reads parseValueAfterOp rest (readAfterOp rest) := by
  refine reads_ahead ?_
  unfold readAfterOp
  split
  · exact .throw _
  · split
    · rename_i hquote
      have h := reads_parseQuotedValue rest.tail
      rwa [← eq_cons_of_head? hquote] at h
    · exact reads_parseQueryString rest

/-- Setting the cursor back to the start of the token. -/
theorem run_parseBare (pre t rest : Str) :
    (parseBare (byteLen pre)).run (cursor (pre ++ t) rest) =
      (do let value ← parseQueryString; pure (Term.value value)).run (cursor pre (t ++ rest)) := by
  rw [parseBare, Exec.run_bind_ok (run_setPos pre t rest)]

section Operator

variable (start : Nat) (token pre rest : Str)

theorem run_parseOperator_eq :
    (parseOperator start token).run (cursor pre ('=' :: rest)) =
      (do let value ← parseValueAfterOp; pure (.attrEq token value) : Exec _ _ _).run
        (cursor (pre ++ ['=']) rest) := by
  rw [parseOperator, Exec.run_bind_ok (run_peek pre _)]
  simp only [List.head?_cons]
  rw [Exec.run_bind_ok (run_advance_ascii (by decide) pre rest)]

theorem run_parseOperator_ne :
    (parseOperator start token).run (cursor pre ('!' :: '=' :: rest)) =
      (do let value ← parseValueAfterOp; pure (.attrNe token value) : Exec _ _ _).run
        (cursor (pre ++ ['!', '=']) rest) := by
  rw [parseOperator, Exec.run_bind_ok (run_peek pre _)]
  have hadv := run_advance pre ['!', '='] rest
  simp only [List.head?_cons, Exec.run_get_bind, cursor_input, cursor_pos, sliceFrom_append,
    Exec.run_index_some_bind]
  rw [if_pos (by simp [List.isPrefixOf])]
  exact Exec.run_bind_ok hadv _

variable {rest}

theorem run_parseOperator_none (heq : rest.head? ≠ some '=') (hne : ¬ ['!', '='] <+: rest) :
    (parseOperator start token).run (cursor pre rest) =
      (parseBare start).run (cursor pre rest) := by
  rw [parseOperator, Exec.run_bind_ok (run_peek pre _)]
  split
  · exact absurd ‹_› heq
  · simp only [Exec.run_get_bind, cursor_input, cursor_pos, sliceFrom_append,
      Exec.run_index_some_bind]
    rw [if_neg (by simpa using hne)]
  · rfl

end Operator

theorem reads_parseUnquoted (rest : Str) : Reads parseUnquoted rest (readUnquoted rest) := by
  set id := rest.takeWhile isIdChar with hid
  set after := rest.dropWhile isIdChar with hafter
  have hrest : rest = id ++ after := by simp [hid, hafter]
  have htoken : ∀ pre, parseUnquoted.run (cursor pre rest) =
      (if id = [] then parseBare (byteLen pre) else parseOperator (byteLen pre) id).run
        (cursor (pre ++ id) after) := fun pre => by
    rw [parseUnquoted, Exec.run_get_bind, Exec.run_bind_ok (run_consumeIdChars pre rest)]
    rfl
  have hbare : (∀ pre, parseUnquoted.run (cursor pre rest) =
        (parseBare (byteLen pre)).run (cursor (pre ++ id) after)) →
      Reads parseUnquoted rest ((readBare rest).map fun p => (Term.value p.1, p.2)) := by
    intro h
    refine .of_step (t := []) rfl (fun pre => ?_) ((reads_parseQueryString rest).map Term.value)
    rw [h, run_parseBare, ← hrest, List.append_nil]
  simp only [readUnquoted, ← hid, ← hafter]
  split
  · rename_i hnil
    exact hbare fun pre => by rw [htoken, if_pos hnil]
  rename_i hnil
  simp only [if_neg hnil] at htoken
  split
  · rename_i heq
    have hafter' := eq_cons_of_head? heq
    refine .of_step (t := id ++ ['=']) ?_ (fun pre => ?_)
      ((reads_parseValueAfterOp after.tail).map (Term.attrEq id))
    · rw [hrest, hafter', List.append_assoc]
      rfl
    · rw [htoken, hafter', run_parseOperator_eq, List.append_assoc]
      rfl
  rename_i heq
  split
  · rename_i hne
    obtain ⟨rest', hr⟩ := hne
    refine .of_step (t := id ++ ['!', '=']) ?_ (fun pre => ?_)
      ((reads_parseValueAfterOp (after.drop 2)).map (Term.attrNe id))
    · rw [hrest, ← hr, List.append_assoc]
      rfl
    · rw [htoken, ← hr, List.cons_append, List.singleton_append, run_parseOperator_ne,
        List.append_assoc]
      rfl
  · rename_i hne
    exact hbare fun pre => by rw [htoken, run_parseOperator_none _ _ _ heq hne]

theorem reads_parseTerm (rest : Str) : Reads parseTerm rest (readTerm rest) := by
  refine (reads_skipWs rest).bind (g := fun _ => readTerm rest) fun _ start hs => ?_
  cases hs
  refine reads_ahead ?_
  simp only [readTerm]
  split
  · exact .throw _
  · split
    · rename_i hquote
      have h := (reads_parseQuotedValue (rest.dropWhile isBlank).tail).map Term.value
      rwa [← eq_cons_of_head? hquote] at h
    · exact reads_parseUnquoted _

/-! ## Keywords and the loop -/

/-- The text behind a keyword and the blanks after it. -/
def readKeyword (kw rest : Str) : Option Str :=
  let after := rest.drop kw.length
  if eqIgnoreAsciiCase (rest.take kw.length) kw ∧ after.head?.all isBlank then
    some (after.dropWhile isBlank)
  else none

/-- The operator in front of the next term and where the term begins. -/
def readOperator (start : Str) : (Expr → Expr → Expr) × Str :=
  match readKeyword "and".toList start, readKeyword "or".toList start with
  | some rest, _ => (.and, rest)
  | none, some rest => (.or, rest)
  | none, none => (.and, start)

def readLoop : Nat → Expr → Str → Outcome Error (Expr × Str)
  | 0, _, _ => .diverge
  | fuel + 1, lhs, rest =>
      let start := rest.dropWhile isBlank
      if start = [] then .ok (lhs, [])
      else
        (readTerm (readOperator start).2).bind fun p =>
          readLoop fuel ((readOperator start).1 lhs (.term p.1)) p.2

theorem length_eq_of_eqIgnoreAsciiCase {s t : Str} (h : eqIgnoreAsciiCase s t = true) :
    s.length = t.length := by
  have hl := congrArg List.length (beq_iff_eq.mp h)
  simpa using hl

/-- `try_keyword` between `head` and `after`, where the two slices cut. -/
theorem run_tryKeyword {kw head : Str} (hlen : byteLen head = byteLen kw) (pre after : Str) :
    (tryKeyword kw).run (cursor pre (head ++ after)) =
      if eqIgnoreAsciiCase head kw ∧ after.head?.all isBlank then
        (.ok true, cursor (pre ++ head ++ after.takeWhile isBlank) (after.dropWhile isBlank))
      else (.ok false, cursor pre (head ++ after)) := by
  have hfrom := sliceFrom_append head after
  have hto := sliceTo_append head after
  have hadv := run_advance pre head after
  rw [hlen] at hfrom hto hadv
  have hnot : ¬ byteLen (head ++ after) < byteLen kw := by
    rw [byteLen_append]
    omega
  simp only [tryKeyword, Exec.run_get_bind, cursor_input, cursor_pos, sliceFrom_append,
    Exec.run_index_some_bind, hnot, if_false, hto]
  by_cases heq : eqIgnoreAsciiCase head kw = true
  · simp only [heq, if_true, hfrom, Exec.run_index_some_bind, true_and]
    cases after with
    | nil =>
        simp only [List.head?_nil]
        rw [Exec.run_bind_ok hadv]
        simp
    | cons c after =>
        by_cases hc : c ≠ ' ' ∧ c ≠ '\t'
        · have hb : isBlank c = false := by simp [isBlank, hc.1, hc.2]
          simp [hc, hb]
        · have hb : isBlank c = true := by
            simp only [isBlank, Bool.or_eq_true, beq_iff_eq]
            tauto
          simp only [List.head?_cons, Option.all_some, hb, if_true]
          rw [if_neg hc, Exec.run_bind_ok hadv, Exec.run_bind_ok (run_skipWs _ _),
            Exec.run_pure]
  · simp [heq]

/-- `&rest[..k]` cuts between two characters, or `rest` is shorter. -/
def Cuts (k : Nat) (rest : Str) : Prop := byteLen rest < k ∨ (sliceTo rest k).isSome = true

instance (k : Nat) (rest : Str) : Decidable (Cuts k rest) :=
  inferInstanceAs (Decidable (byteLen rest < k ∨ (sliceTo rest k).isSome = true))

theorem cuts_iff {k : Nat} {rest : Str} :
    Cuts k rest ↔ byteLen rest < k ∨ IsCharBoundary rest k := by
  rw [Cuts, sliceTo_isSome]

/-- Every cut of an ASCII text falls between characters. -/
theorem cuts_of_isAscii {rest : Str} (h : IsAscii rest) (k : Nat) : Cuts k rest := by
  rw [cuts_iff]
  by_cases hk : rest.length < k
  · left
    rwa [byteLen_of_ascii h]
  · right
    refine ⟨rest.take k, rest.drop k, (List.take_append_drop k rest).symm, ?_⟩
    rw [byteLen_of_ascii (h.of_subset fun c hc => List.mem_of_mem_take hc), List.length_take]
    omega

/-- If as many characters as the keyword has read as the keyword, they are
what the slice takes. -/
theorem take_eq_of_eqIgnoreAsciiCase {kw head after : Str} (hkw : IsAscii kw)
    (hlen : byteLen head = byteLen kw)
    (h : eqIgnoreAsciiCase ((head ++ after).take kw.length) kw = true) :
    (head ++ after).take kw.length = head := by
  have hcut : byteLen ((head ++ after).take kw.length) = byteLen head := by
    rw [hlen, byteLen_of_ascii (hkw.of_eqIgnoreAsciiCase h), byteLen_of_ascii hkw]
    exact length_eq_of_eqIgnoreAsciiCase h
  have hsplit := splitAtByte_append ((head ++ after).take kw.length)
    ((head ++ after).drop kw.length)
  rw [List.take_append_drop, hcut, splitAtByte_append] at hsplit
  exact (Prod.mk.inj (Option.some.inj hsplit)).1.symm

/-- Where the slice cuts between characters, `try_keyword` reads the
keyword and the blanks behind it. -/
theorem reads_tryKeyword (kw : Str) {rest : Str} (hkw : IsAscii kw)
    (hcuts : Cuts (byteLen kw) rest) :
    Reads (tryKeyword kw) rest (.ok (match readKeyword kw rest with
      | some rest' => (true, rest')
      | none => (false, rest))) := by
  rcases cuts_iff.mp hcuts with hshort | ⟨head, after, rfl, hlen⟩
  · have hnone : readKeyword kw rest = none := by
      refine if_neg fun h => ?_
      have hkwLen := length_eq_of_eqIgnoreAsciiCase h.1
      have hrestLen := length_le_byteLen rest
      rw [List.length_take] at hkwLen
      rw [byteLen_of_ascii hkw] at hshort
      omega
    rw [hnone]
    refine .of_run_ok (t := []) rfl fun pre => ?_
    simp only [tryKeyword, Exec.run_get_bind, cursor_input, cursor_pos, sliceFrom_append,
      Exec.run_index_some_bind, hshort, if_true, Exec.run_pure, List.append_nil]
  · have hrun := fun pre => run_tryKeyword hlen pre after
    by_cases hk : eqIgnoreAsciiCase head kw = true ∧ after.head?.all isBlank = true
    · have hsome : readKeyword kw (head ++ after) = some (after.dropWhile isBlank) := by
        simp only [readKeyword, ← length_eq_of_eqIgnoreAsciiCase hk.1, List.take_left,
          List.drop_left]
        exact if_pos hk
      rw [hsome]
      refine .of_run_ok (t := head ++ after.takeWhile isBlank) ?_ fun pre => ?_
      · rw [List.append_assoc, List.takeWhile_append_dropWhile]
      · rw [hrun, if_pos hk, List.append_assoc]
    · have hnone : readKeyword kw (head ++ after) = none := by
        refine if_neg fun h => hk ?_
        have htake := take_eq_of_eqIgnoreAsciiCase hkw hlen h.1
        have hsplit := List.take_append_drop kw.length (head ++ after)
        rw [htake] at hsplit
        rw [htake, List.append_cancel_left hsplit] at h
        exact h
      rw [hnone]
      refine .of_run_ok (t := []) rfl fun pre => ?_
      rw [hrun, if_neg hk, List.append_nil]

/-- Where the slice would cut a character, `try_keyword` panics. -/
theorem reads_tryKeyword_panic (kw : Str) {rest : Str} (hcuts : ¬ Cuts (byteLen kw) rest) :
    Reads (tryKeyword kw) rest .panic := by
  have hlong : ¬ byteLen rest < byteLen kw := fun h => hcuts (.inl h)
  have hcut : sliceTo rest (byteLen kw) = none := by
    rw [← Option.not_isSome_iff_eq_none]
    exact fun h => hcuts (.inr h)
  refine ⟨fun pre => ?_, by simp⟩
  simp only [tryKeyword, Exec.run_get_bind, cursor_input, cursor_pos, sliceFrom_append,
    Exec.run_index_some_bind, hlong, if_false, hcut]
  rfl

/-- Both keywords can be looked for at the start of this text. -/
def CutsKeywords (start : Str) : Prop := Cuts 3 start ∧ Cuts 2 start

instance (start : Str) : Decidable (CutsKeywords start) :=
  inferInstanceAs (Decidable (Cuts 3 start ∧ Cuts 2 start))

section Operator

variable {α : Type} (onTerm : (Expr → Expr → Expr) → Exec Parser Error α)

/-- The body of the loop in front of a term. -/
def tryKeywords : Exec Parser Error α := do
  let save ← Exec.get
  if ← tryKeyword "and".toList then onTerm .and
  else do
    setPos save.pos
    if ← tryKeyword "or".toList then onTerm .or
    else do
      setPos save.pos
      onTerm .and

variable {start : Str}

theorem run_setPos_self (pre : Str) :
    (setPos (byteLen pre)).run (cursor pre start) = (.ok (), cursor pre start) := by
  simpa using run_setPos pre [] start

/-- A keyword decides the operator, and the cursor is set back where there
was none. -/
theorem reads_tryKeywords (hcuts : CutsKeywords start) {o : Outcome Error (α × Str)}
    (h : Reads (onTerm (readOperator start).1) (readOperator start).2 o) :
    Reads (tryKeywords onTerm) start o := by
  have hka := reads_tryKeyword "and".toList (by decide) hcuts.1
  have hko := reads_tryKeyword "or".toList (by decide) hcuts.2
  unfold readOperator at h
  cases hA : readKeyword "and".toList start with
  | some rest' =>
      rw [hA] at hka h
      obtain ⟨t, ht, hr⟩ := hka.run_ok
      refine .of_step ht (fun pre => ?_) h
      rw [tryKeywords, Exec.run_get_bind, Exec.run_bind_ok (hr pre), if_pos rfl]
  | none =>
      rw [hA] at hka h
      cases hO : readKeyword "or".toList start with
      | some rest' =>
          rw [hO] at hko h
          obtain ⟨t, ht, hr⟩ := hko.run_ok
          refine .of_step ht (fun pre => ?_) h
          rw [tryKeywords, Exec.run_get_bind, Exec.run_bind_ok (hka.run_stay pre),
            if_neg (by decide), cursor_pos, Exec.run_bind_ok (run_setPos_self pre),
            Exec.run_bind_ok (hr pre), if_pos rfl]
      | none =>
          rw [hO] at hko h
          refine .of_step (t := []) rfl (fun pre => ?_) h
          rw [tryKeywords, Exec.run_get_bind, Exec.run_bind_ok (hka.run_stay pre),
            if_neg (by decide), cursor_pos, Exec.run_bind_ok (run_setPos_self pre),
            Exec.run_bind_ok (hko.run_stay pre), if_neg (by decide),
            Exec.run_bind_ok (run_setPos_self pre), List.append_nil]

/-- A text that reads as the keyword `and` has its first three bytes, so
`or` can be looked for as well. -/
theorem readKeyword_and_none {start : Str} (htwo : ¬ Cuts 2 start) :
    readKeyword "and".toList start = none := by
  refine if_neg fun h => htwo ?_
  have hascii : IsAscii (start.take 3) := IsAscii.of_eqIgnoreAsciiCase (by decide) h.1
  have hcut : Cuts 2 (start.take 3) := cuts_of_isAscii hascii 2
  rw [cuts_iff] at hcut ⊢
  rcases hcut with hshort | ⟨head, after, hsplit, hlen⟩
  · have hle := length_le_byteLen (start.take 3)
    have hkw := length_eq_of_eqIgnoreAsciiCase h.1
    simp at hkw
    simp at hle
    omega
  · refine .inr ⟨head, after ++ start.drop 3, ?_, hlen⟩
    rw [← List.append_assoc, ← hsplit, List.take_append_drop]

theorem reads_tryKeywords_panic (hcuts : ¬ CutsKeywords start) :
    Reads (tryKeywords onTerm) start .panic := by
  have hpanic {β : Type} {x : Exec Parser Error β} (hx : Reads x start .panic)
      (f : β → Exec Parser Error α) : Reads (x >>= f) start .panic :=
    hx.bind (g := fun _ => .panic) (by rintro _ _ ⟨⟩)
  refine ⟨fun pre => ?_, by simp⟩
  rw [tryKeywords, Exec.run_get_bind]
  -- `and` is looked for first: its slice panics, or it is passed over
  by_cases hthree : Cuts 3 start
  · have htwo : ¬ Cuts 2 start := fun h => hcuts ⟨hthree, h⟩
    have hka := reads_tryKeyword "and".toList (by decide) hthree
    rw [readKeyword_and_none htwo] at hka
    rw [Exec.run_bind_ok (hka.run_stay pre), if_neg (by decide), cursor_pos,
      Exec.run_bind_ok (run_setPos_self pre)]
    exact (hpanic (reads_tryKeyword_panic "or".toList htwo) _).outcome pre
  · exact (hpanic (reads_tryKeyword_panic "and".toList hthree) _).outcome pre

end Operator

/-- The rests of the text in front of which the loop looks for a keyword:
what is left behind a term, without its blanks, up to the first term that
is malformed. -/
def loopPlaces : Nat → Str → List Str
  | 0, _ => []
  | fuel + 1, rest =>
      let start := rest.dropWhile isBlank
      if start = [] then []
      else start :: match readTerm (readOperator start).2 with
        | .ok p => loopPlaces fuel p.2
        | _ => []

/-- What becomes of the loop: it reads the text, or it panics at a place
where a keyword's length cuts a character. -/
def loopOutcome (fuel : Nat) (lhs : Expr) (rest : Str) : Outcome Error (Expr × Str) :=
  if ∀ start ∈ loopPlaces fuel rest, CutsKeywords start then readLoop fuel lhs rest else .panic

/-- The round in front of a text that is not at its end. -/
theorem loopOutcome_succ {start : Str} (hcuts : CutsKeywords start) (hnil : start ≠ [])
    (fuel : Nat) (lhs : Expr) {rest : Str} (hrest : rest.dropWhile isBlank = start) :
    loopOutcome (fuel + 1) lhs rest
      = (readTerm (readOperator start).2).bind fun p =>
          loopOutcome fuel ((readOperator start).1 lhs (.term p.1)) p.2 := by
  rw [loopOutcome, loopPlaces, readLoop, hrest, if_neg hnil, if_neg hnil]
  simp only [List.forall_mem_cons, hcuts, true_and]
  cases hread : readTerm (readOperator start).2 with
  | ok p => rfl
  | _ => rfl

/-- **The loop reads the text behind the cursor**, by induction on the
fuel. -/
theorem reads_parseExprLoop (fuel : Nat) : ∀ (lhs : Expr) (rest : Str),
    Reads (parseExprLoop fuel lhs) rest (loopOutcome fuel lhs rest) := by
  induction fuel with
  | zero => exact fun lhs rest => ⟨fun _ => rfl, by simp [loopOutcome, readLoop, loopPlaces]⟩
  | succ fuel ih =>
      intro lhs rest
      refine (reads_skipWs rest).bind (g := fun _ => loopOutcome (fuel + 1) lhs rest)
        fun _ start hs => ?_
      cases hs
      refine reads_atEnd ?_
      by_cases hnil : rest.dropWhile isBlank = []
      · rw [if_pos hnil, loopOutcome, loopPlaces, readLoop, if_pos hnil, if_pos hnil]
        simp only [List.not_mem_nil, false_implies, implies_true, if_true, hnil]
        exact .pure lhs
      rw [if_neg hnil]
      -- the slices of this round, and only then the rounds behind it
      by_cases hcuts : CutsKeywords (rest.dropWhile isBlank)
      · rw [loopOutcome_succ hcuts hnil fuel lhs rfl]
        refine reads_tryKeywords (fun op => do
          let rhs ← parseTerm
          parseExprLoop fuel (op lhs (.term rhs))) hcuts ?_
        exact (reads_parseTerm _).bind fun t left _ => ih _ left
      · have hpanic : loopOutcome (fuel + 1) lhs rest = .panic := by
          refine if_neg fun h => hcuts (h _ ?_)
          rw [loopPlaces, if_neg hnil]
          exact List.mem_cons_self
        rw [hpanic]
        exact reads_tryKeywords_panic (fun op => do
          let rhs ← parseTerm
          parseExprLoop fuel (op lhs (.term rhs))) hcuts

/-- The loop comes back only at the end of the text. -/
theorem readLoop_rest {fuel : Nat} : ∀ {lhs e : Expr} {rest rest' : Str},
    readLoop fuel lhs rest = .ok (e, rest') → rest' = [] := by
  induction fuel with
  | zero => simp [readLoop]
  | succ fuel ih =>
      intro lhs e rest rest' h
      simp only [readLoop] at h
      split at h
      · cases h
        rfl
      · cases ht : readTerm (readOperator (rest.dropWhile isBlank)).2 with
        | ok p =>
            rw [ht] at h
            exact ih h
        | _ => simp [ht, Outcome.bind] at h

/-- The whole text: a term, then the loop. -/
def readQuery (s : Str) : Outcome Error (Expr × Str) :=
  (readTerm s).bind fun p => readLoop (s.length + 1) (.term p.1) p.2

theorem readTerm_dropWhile (s : Str) : readTerm (s.dropWhile isBlank) = readTerm s := by
  simp only [readTerm, List.dropWhile_idempotent]

/-- From the start of the text the loop's fuel is the length of the text. -/
theorem run_parseExpr (s : Str) :
    parseExpr.run (cursor [] s) = (do
      skipWs
      let first ← parseTerm
      parseExprLoop (s.length + 1) (.term first)).run (cursor [] s) := by
  rw [parseExpr, Exec.run_bind_ok (run_skipWs [] s), Exec.run_bind_ok (run_skipWs [] s)]
  set start := s.dropWhile isBlank with hstart
  have hterm := reads_parseTerm start
  cases ht : readTerm start with
  | ok p =>
      obtain ⟨first, rest⟩ := p
      rw [ht] at hterm
      obtain ⟨t, hsplit, hr⟩ := hterm.run_ok
      have hs : s = s.takeWhile isBlank ++ t ++ rest := by
        rw [List.append_assoc, ← hsplit, hstart, List.takeWhile_append_dropWhile]
      rw [Exec.run_bind_ok (hr _), Exec.run_bind_ok (hr _), Exec.run_get_bind, cursor_input,
        List.nil_append, ← hs]
  | _ =>
      have ho := hterm.outcome ([] ++ s.takeWhile isBlank)
      rw [ht] at ho
      rcases hrun : parseTerm.run (cursor ([] ++ s.takeWhile isBlank) start) with ⟨o, p'⟩
      rw [hrun] at ho
      subst ho
      rw [Exec.run_bind, hrun, Exec.run_bind, hrun]
      rfl

/-- The rests of a text in front of which the parser looks for a keyword. -/
def keywordPlaces (s : Str) : List Str :=
  match readTerm s with
  | .ok p => loopPlaces (s.length + 1) p.2
  | _ => []

/-- Every place in the text where a keyword is looked for can be cut
behind two and behind three bytes. -/
def Aligned (s : Str) : Prop := ∀ start ∈ keywordPlaces s, CutsKeywords start

instance (s : Str) : Decidable (Aligned s) :=
  inferInstanceAs (Decidable (∀ start ∈ keywordPlaces s, CutsKeywords start))

theorem readOperator_suffix (start : Str) : (readOperator start).2 <:+ start := by
  have hkw : ∀ kw rest, readKeyword kw start = some rest → rest <:+ start := by
    intro kw rest h
    simp only [readKeyword] at h
    split at h
    · cases h
      exact (List.dropWhile_suffix _).trans (List.drop_suffix _ _)
    · cases h
  unfold readOperator
  split
  · exact hkw _ _ (by assumption)
  · exact hkw _ _ (by assumption)
  · exact List.suffix_rfl

theorem loopPlaces_suffix (fuel : Nat) : ∀ {rest start : Str},
    start ∈ loopPlaces fuel rest → start <:+ rest := by
  induction fuel with
  | zero =>
      intro rest start h
      cases h
  | succ fuel ih =>
      intro rest start h
      simp only [loopPlaces] at h
      split at h
      · cases h
      rcases List.mem_cons.mp h with rfl | h
      · exact List.dropWhile_suffix _
      · cases hread : readTerm (readOperator (rest.dropWhile isBlank)).2 with
        | ok p =>
            rw [hread] at h
            have hterm := reads_parseTerm (readOperator (rest.dropWhile isBlank)).2
            rw [hread] at hterm
            exact (ih h).trans (hterm.suffix.trans
              ((readOperator_suffix _).trans (List.dropWhile_suffix _)))
        | _ => simp [hread] at h

theorem Aligned.of_isAscii {s : Str} (h : IsAscii s) : Aligned s := by
  intro start hstart
  unfold keywordPlaces at hstart
  cases hread : readTerm s with
  | ok p =>
      rw [hread] at hstart
      have hterm := reads_parseTerm s
      rw [hread] at hterm
      have hsuffix : start <:+ s := (loopPlaces_suffix _ hstart).trans hterm.suffix
      have hascii : IsAscii start := h.of_subset hsuffix.subset
      exact ⟨cuts_of_isAscii hascii 3, cuts_of_isAscii hascii 2⟩
  | _ => simp [hread] at hstart

/-- The parser at the start of a text: it reads the whole text, or panics
where a keyword's length cuts a character. -/
theorem run_parseTrimmed (s : Str) :
    (Query.parseTrimmed.run { input := s, pos := 0 }).1
      = if Aligned s then (readQuery s).map Prod.fst else .panic := by
  have hexpr : Reads (do
      skipWs
      let first ← parseTerm
      parseExprLoop (s.length + 1) (.term first)) s
      ((readTerm s).bind fun p => loopOutcome (s.length + 1) (.term p.1) p.2) := by
    refine (reads_skipWs s).bind (g := fun _ => (readTerm s).bind fun p =>
      loopOutcome (s.length + 1) (.term p.1) p.2) fun _ start hs => ?_
    cases hs
    have hterm := reads_parseTerm (s.dropWhile isBlank)
    rw [readTerm_dropWhile] at hterm
    exact hterm.bind fun first rest _ => reads_parseExprLoop _ _ rest
  have houtcome : ((readTerm s).bind fun p => loopOutcome (s.length + 1) (.term p.1) p.2)
      = if Aligned s then readQuery s else .panic := by
    cases ht : readTerm s <;> simp [Aligned, keywordPlaces, readQuery, loopOutcome, ht, Outcome.bind]
  rw [houtcome] at hexpr
  have hend : ∀ e rest, (if Aligned s then readQuery s else .panic) = .ok (e, rest) → rest = [] := by
    intro e rest hq
    split at hq
    · unfold readQuery at hq
      cases ht : readTerm s with
      | ok p =>
          rw [ht] at hq
          exact readLoop_rest hq
      | _ => simp [ht, Outcome.bind] at hq
    · cases hq
  have hfinish : ∀ e rest, (if Aligned s then readQuery s else .panic) = .ok (e, rest) →
      Reads (Query.finishTrimmed e) rest (.ok (e, rest)) := by
    intro e rest hq
    cases hend e rest hq
    refine (reads_skipWs []).bind (g := fun _ => .ok (e, [])) fun _ start hs => ?_
    cases hs
    exact reads_atEnd (.pure e)
  have hwhole := hexpr.bind (g := fun p => .ok p) hfinish
  have hout := hwhole.outcome []
  rw [Exec.run_bind, ← run_parseExpr, ← Exec.run_bind] at hout
  rw [cursor_start]
  refine hout.trans ?_
  split
  · cases readQuery s <;> rfl
  · rfl

/-! ## Refusals -/

/-- The texts with which a query is refused. -/
def refusals : List String :=
  ["empty query", "empty query string", "empty quoted string", "unterminated quoted string",
    "missing value after operator", "unexpected end of query"]

/-- The error is one of the refusals. -/
def Refuses (e : Error) : Prop := ∃ message ∈ refusals, e = syntaxError message

theorem refuses_bareValue {w : Str} {e : Error} (h : bareValue w = .err e) : Refuses e := by
  have hfinish : ∀ star text, finishQueryString star text = .err e → Refuses e := by
    intro star text h
    simp only [finishQueryString] at h
    generalize (if decide (text.getLast? = some '*') = true then text.dropLast else text) = w at h
    split at h
    · cases h
      exact ⟨"empty query string", by decide, rfl⟩
    · cases h
  unfold bareValue at h
  split at h <;> exact hfinish _ _ h

theorem refuses_readQuoted {rest : Str} {e : Error} (h : readQuoted rest = .err e) :
    Refuses e := by
  unfold readQuoted at h
  split at h
  · cases h
    exact ⟨"unterminated quoted string", by decide, rfl⟩
  · split at h
    · cases h
      exact ⟨"empty quoted string", by decide, rfl⟩
    · cases h

theorem refuses_readBare {rest : Str} {e : Error} (h : readBare rest = .err e) : Refuses e :=
  refuses_bareValue (Outcome.map_eq_err.mp h)

theorem refuses_readAfterOp {rest : Str} {e : Error} (h : readAfterOp rest = .err e) :
    Refuses e := by
  unfold readAfterOp at h
  split at h
  · cases h
    exact ⟨"missing value after operator", by decide, rfl⟩
  · split at h
    · exact refuses_readQuoted h
    · exact refuses_readBare h

theorem refuses_readTerm {rest : Str} {e : Error} (h : readTerm rest = .err e) : Refuses e := by
  simp only [readTerm] at h
  split at h
  · cases h
    exact ⟨"unexpected end of query", by decide, rfl⟩
  split at h
  · exact refuses_readQuoted (Outcome.map_eq_err.mp h)
  simp only [readUnquoted] at h
  split at h
  · exact refuses_readBare (Outcome.map_eq_err.mp h)
  split at h
  · exact refuses_readAfterOp (Outcome.map_eq_err.mp h)
  split at h
  · exact refuses_readAfterOp (Outcome.map_eq_err.mp h)
  · exact refuses_readBare (Outcome.map_eq_err.mp h)

theorem refuses_readLoop {fuel : Nat} {lhs : Expr} {rest : Str} {e : Error}
    (h : readLoop fuel lhs rest = .err e) : Refuses e := by
  induction fuel generalizing lhs rest with
  | zero => cases h
  | succ fuel ih =>
      simp only [readLoop] at h
      split at h
      · cases h
      rcases Outcome.bind_eq_err.mp h with h | ⟨p, -, h⟩
      · exact refuses_readTerm h
      · exact ih h

/-- **A query is refused with one of these texts**; the error for trailing
input never comes up. -/
theorem refuses_parse {s : Str} {e : Error} (h : Query.parse s = .err e) : Refuses e := by
  simp only [Query.parse] at h
  split at h
  · cases h
    exact ⟨"empty query", by decide, rfl⟩
  have hread := Outcome.map_eq_err.mp h
  rw [run_parseTrimmed] at hread
  split at hread
  · rcases Outcome.bind_eq_err.mp (Outcome.map_eq_err.mp hread) with h | ⟨p, -, h⟩
    · exact refuses_readTerm h
    · exact refuses_readLoop h
  · cases hread

end Parser

end Rwhois
