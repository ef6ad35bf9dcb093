import Rwhois.Server.Framing
import Rwhois.Server.Settings

/-!
# Server — ObjectLimit

`-limit n` is meant to cap the number of objects a query returns. The
number is parsed, stored as the `hit_limit` of the session and reported by
`-status`; nothing else reads it. `dispatch` gives the handler the query
and the response but not the session, and does not look at what the
handler wrote.

So the reply to a query has the objects that the consumer's handlers put
there, whatever the limit is, and it keeps the limit if and only if they
do. They put them there in two ways: by the lines they append, and, if they
fail, by an error whose text goes on behind a CR LF.
-/

namespace Rwhois

open RustStd

variable {ω : Type}

/-! ## Objects -/

/-- The number of objects: groups of records between blank lines. Other
lines neither open nor close one. -/
def objectsFrom (inObject : Bool) : List ResponseLine → Nat
  | [] => 0
  | .record _ :: lines => (if inObject then 0 else 1) + objectsFrom true lines
  | .blank :: lines => objectsFrom false lines
  | _ :: lines => objectsFrom inObject lines

def objects (lines : List ResponseLine) : Nat := objectsFrom false lines

/-- A terminator among the lines does not count. -/
theorem objectsFrom_terminator {last : ResponseLine} (hlast : last.IsTerminator)
    (inObject : Bool) (lines more : List ResponseLine) :
    objectsFrom inObject (lines ++ last :: more) = objectsFrom inObject (lines ++ more) := by
  induction lines generalizing inObject with
  | nil => cases last <;> first | rfl | cases hlast
  | cons line lines ih => cases line <;> simp only [List.cons_append, objectsFrom, ih]

/-! ## What the consumer writes -/

/-- The methods of the writer leave whole lines behind. -/
def ResponseWriter.IsLines (self : ResponseWriter) : Prop :=
  ∃ lines, self.buf = utf8 (unlines lines)

theorem ResponseWriter.IsLines.new : ResponseWriter.new.IsLines := ⟨[], rfl⟩

theorem ResponseWriter.IsLines.runAll {out : ResponseWriter} (h : out.IsLines)
    (ops : List WriterOp) : (WriterOp.runAll ops out).IsLines := by
  obtain ⟨lines, hlines⟩ := h
  refine ⟨lines ++ ops.map WriterOp.line, ?_⟩
  rw [WriterOp.runAll_buf, hlines]
  simp

/-- The lines a terminator has behind its first: none, unless a text in it
holds CR LF. -/
def Terminator.extraLines (self : Terminator) : List Str :=
  (splitTerminator (self.line ++ crlf)).tail

theorem Terminator.Clean.extraLines {last : Terminator} (h : last.Clean) :
    last.extraLines = [] := by
  have hline := splitTerminator_line h.isLine []
  rw [List.append_nil] at hline
  rw [Terminator.extraLines, hline]
  rfl

/-- What a handler's result adds to the reply besides its terminator. -/
def extraLines : Except Error Unit → List Str
  | .error (.protocol code message) => (Terminator.error code (some message)).extraLines
  | _ => []

/-- A handler has no other access to the response than the methods of the
writer. -/
def HandlerFuture.KeepsLines (f : HandlerFuture (ResponseWriter × ω)) : Prop :=
  ∀ out world, out.IsLines → (f (out, world)).2.1.IsLines

theorem ServerContext.answer_keepsLines {ctx : ServerContext ω} {handler : QueryHandler ω}
    {q : Query} (hhandler : (handler.handle q).KeepsLines)
    (hreferral : ∀ p ∈ ctx.referral, (p.referrals q).KeepsLines) :
    (ctx.answer handler q).KeepsLines := by
  intro out world hout
  have hlines := hhandler out world hout
  -- the referrals are asked for only behind an `Ok`
  unfold answer
  rcases hrun : handler.handle q (out, world) with ⟨result, out', world'⟩
  rw [hrun] at hlines
  cases result with
  | error e => exact hlines
  | ok u =>
      cases href : ctx.referral with
      | none => exact hlines
      | some refs => exact hreferral refs href out' world' hlines

namespace Server

/-! ## One query -/

/-- The first line of a terminator reads as one, also when it ends early. -/
theorem exists_terminator_line (last : Terminator) :
    ∃ first, splitTerminator (last.line ++ crlf) = first :: last.extraLines ∧
      (ResponseLine.parse first).IsTerminator := by
  cases last with
  | ok => exact ⟨"%ok".toList, by decide, by decide⟩
  | error code extra =>
      have hline : (Terminator.error code extra).line ++ crlf =
          "%error ".toList ++ (errorText code extra ++ crlf) := by
        rw [Terminator.line, tagLine, if_neg (Terminator.errorText_ne_nil code extra)]
        simp
      obtain ⟨piece, pieces, hsplit⟩ :=
        exists_splitTerminator (by decide : IsLine "%error ".toList) (errorText code extra)
      refine ⟨"%error ".toList ++ piece, ?_, ?_⟩
      · rw [Terminator.extraLines, hline, hsplit]
        rfl
      · have htok : splitOnce [' '] ("%error".toList ++ ' ' :: piece) =
            some ("%error".toList, piece) := splitOnce_char (by decide) piece
        have hparse : ResponseLine.parse ("%error ".toList ++ piece) =
            ResponseLine.parseErrorBody (trimStartMatches (· == ' ') piece) := by
          show ResponseLine.parse ("%error".toList ++ ' ' :: piece) = _
          rw [ResponseLine.parse, if_neg (by simp), if_neg (by simp), htok]
          rfl
        obtain ⟨number, text, detail, herror⟩ :=
          ResponseLine.exists_parseErrorBody (trimStartMatches (· == ' ') piece)
        rw [hparse, herror]
        trivial

/-- The client reads the lines of the response, the terminator, and what
the terminator has behind its first line. -/
theorem received_reply {out : ResponseWriter} (hout : out.IsLines) (last : Terminator) :
    ∃ written first, received out.buf = some written ∧ first.IsTerminator ∧
      received (last.write out.buf) =
        some (written ++ first :: last.extraLines.map ResponseLine.parse) := by
  obtain ⟨lines, hlines⟩ := hout
  obtain ⟨first, hsplit, hfirst⟩ := exists_terminator_line last
  refine ⟨(splitTerminator (unlines lines)).map ResponseLine.parse, ResponseLine.parse first,
    ?_, hfirst, ?_⟩
  · rw [hlines, received, fromUtf8_utf8]
    rfl
  · rw [Terminator.write_eq, hlines, ← utf8_append, received, fromUtf8_utf8, Option.map_some,
      splitTerminator_unlines_append, hsplit, List.map_append]
    rfl

/-- **The reply has the objects of the response** and those behind the
first line of its terminator. -/
theorem objects_reply {r : Round (Env ω) Str Reply} {out : ResponseWriter} (hout : out.IsLines)
    {last : Terminator} (hbytes : r.result.bytes = last.write out.buf) (n : Nat) :
    (∃ reply, received r.result.bytes = some reply ∧ objects reply ≤ n) ↔
      ∃ written, received out.buf = some written ∧
        objects (written ++ last.extraLines.map ResponseLine.parse) ≤ n := by
  obtain ⟨written, first, hwritten, hfirst, hreply⟩ := received_reply hout last
  have hsame := objectsFrom_terminator hfirst false written
  rw [hbytes, hreply, hwritten]
  simp [objects, hsame]

/-- A failed line: behind what was written stands the error. -/
theorem bytes_error (e : Error) (req : Request) (env : Env ω) :
    ∃ last : Terminator, last.extraLines = extraLines (.error e) ∧ (e.Clean → last.Clean) ∧
      (Reply.of req (.error e) env).bytes = last.write env.out.buf := by
  cases e with
  | protocol code message =>
      refine ⟨.error code (some message), rfl, fun h => ⟨h.1, ?_⟩, rfl⟩
      rintro extra ⟨⟩
      exact h.2
  | _ =>
      have hclean : (Terminator.error .UNIDENTIFIED_ERROR none).Clean := ⟨by decide, by simp⟩
      exact ⟨.error .UNIDENTIFIED_ERROR none, hclean.extraLines, fun _ => hclean, rfl⟩

section Query

variable {ctx : ServerContext ω} {r : Round (Env ω) Str Reply} {line : Str}
  (hdoes : (connection ctx).Does r)
  (hreq : Request.read r.input r.before.session.isSpooling = .query line)

include hdoes hreq

/-- A query that parses: the response is what the consumer wrote. -/
theorem round_query {handler : QueryHandler ω} {q : Query} (hquery : ctx.query = some handler)
    (hparse : Query.parse line = .ok q)
    (hanswer : (ctx.answer handler q).KeepsLines) :
    let answer := ctx.answer handler q (.new, r.before.world)
    answer.2.1.IsLines ∧ ∃ last : Terminator, last.extraLines = extraLines answer.1 ∧
      r.result.bytes = last.write answer.2.1.buf := by
  intro answer
  obtain ⟨outcome, env', hrun, -, hresult⟩ := does_connection hdoes
  have hlines := hanswer .new r.before.world .new
  rw [hreq] at hrun hresult
  rw [dispatch, run_dispatchQuery hquery hparse] at hrun
  obtain ⟨houtcome, rfl⟩ := Prod.mk.inj hrun
  refine ⟨hlines, ?_⟩
  have hout : answer.1.map (fun _ => .ok) = outcome :=
    RustStd.Outcome.ofExcept_injective houtcome
  rw [hresult, ← hout]
  cases hdone : answer.1 with
  | ok u =>
      have hok : Terminator.ok.Clean := trivial
      exact ⟨.ok, hok.extraLines, rfl⟩
  | error e =>
      obtain ⟨last, hextra, -, hbytes⟩ := bytes_error e (.query line)
        { session := r.before.session, out := answer.2.1, world := answer.2.2 }
      exact ⟨last, hextra, hbytes⟩

/-- Without a handler, and for a query that does not parse, only an error
is sent. -/
theorem round_query_none (hline : IsAscii line)
    (hnone : ∀ handler q, ctx.query = some handler → Query.parse line ≠ .ok q) :
    ∃ last : Terminator, last.extraLines = [] ∧ r.result.bytes = last.write [] := by
  obtain ⟨outcome, env', hrun, -, hresult⟩ := does_connection hdoes
  have herr : ∃ e : Error, e.Clean ∧
      (dispatchQuery ctx line).run { r.before with out := .new } =
        (.err e, { r.before with out := .new }) := by
    unfold dispatchQuery
    cases hquery : ctx.query with
    | none =>
        have hclean : (Error.protocol .SERVICE_NOT_AVAILABLE "no query handler".toList).Clean :=
          ⟨by decide, by decide⟩
        exact ⟨_, hclean, rfl⟩
    | some handler =>
        have hclean := Query.parse_clean hline
        have hreturns := Query.parse_returns hline
        cases hparse : Query.parse line with
        | ok q => exact absurd hparse (hnone handler q hquery)
        | err e =>
            rw [hparse] at hclean
            exact ⟨e, hclean, rfl⟩
        | panic | diverge =>
            rw [hparse] at hreturns
            cases hreturns
  obtain ⟨e, hclean, herr⟩ := herr
  rw [hreq] at hrun hresult
  rw [dispatch, herr] at hrun
  obtain ⟨houtcome, rfl⟩ := Prod.mk.inj hrun
  obtain rfl : .error e = outcome := RustStd.Outcome.ofExcept_injective houtcome
  obtain ⟨last, -, hlast, hbytes⟩ := bytes_error e (.query line) { r.before with out := .new }
  rw [hresult]
  exact ⟨last, (hlast hclean).extraLines, hbytes⟩

end Query

/-! ## Whole connections -/

/-- **The limit is kept if and only if the handlers keep it.** In every
run, for every query behind a successful `-limit n`: the client reads at
most `n` objects exactly if the consumer's handlers put at most `n` there
for this query, in the lines they append and in what the text of their
error has behind its first line. -/
theorem objects_limited_iff (ctx : ServerContext ω)
    (hhandler : ∀ handler ∈ ctx.query, ∀ q, (handler.handle q).KeepsLines)
    (hreferral : ∀ p ∈ ctx.referral, ∀ q, (p.referrals q).KeepsLines)
    (peer : SocketAddr) (world : ω) (lines : List Str)
    (hlines : ∀ line ∈ lines, RwhoisCodec.Decoded line)
    {before after : List (Round (Env ω) Str Reply)} {r : Round (Env ω) Str Reply}
    (hrounds : (connection ctx).rounds (start ctx peer world) lines = before ++ r :: after)
    {line : Str} (hreq : Request.read r.input r.before.session.isSpooling = .query line) :
    ∀ n, lastSettled .limit limitArg before = some n → 0 < n →
      ((∃ reply, received r.result.bytes = some reply ∧ objects reply ≤ n) ↔
        ∀ handler q, ctx.query = some handler → Query.parse line = .ok q →
          let answer := ctx.answer handler q (.new, r.before.world)
          ∃ written, received answer.2.1.buf = some written ∧
            objects (written ++ (extraLines answer.1).map ResponseLine.parse) ≤ n) := by
  -- neither the limit nor how it was set plays a part
  intro n _ _
  have hmem : r ∈ (connection ctx).rounds (start ctx peer world) lines := by
    rw [hrounds]
    simp
  obtain ⟨hdoes, hinput⟩ := Loop.does_of_mem_rounds hmem
  have hascii : IsAscii line := by
    obtain rfl := Request.read_query hreq
    exact (hlines _ hinput).isAscii
  by_cases hsome : ∃ handler q, ctx.query = some handler ∧ Query.parse line = .ok q
  · obtain ⟨handler, q, hquery, hparse⟩ := hsome
    have hanswer := ServerContext.answer_keepsLines (hhandler handler hquery q)
      (fun p hp => hreferral p hp q)
    obtain ⟨hout, last, hextra, hbytes⟩ := round_query hdoes hreq hquery hparse hanswer
    rw [objects_reply hout hbytes, hextra]
    constructor
    · intro hwritten handler' q' hquery' hparse'
      -- there is one handler, and the parser is a function
      obtain rfl := Option.some.inj (hquery.symm.trans hquery')
      obtain rfl := RustStd.Outcome.ok.inj (hparse.symm.trans hparse')
      exact hwritten
    · intro h
      exact h handler q hquery hparse
  · have hnone : ∀ handler q, ctx.query = some handler → Query.parse line ≠ .ok q :=
      fun handler q hquery hparse => hsome ⟨handler, q, hquery, hparse⟩
    obtain ⟨last, hextra, hbytes⟩ := round_query_none hdoes hreq hascii hnone
    refine iff_of_true ?_ fun handler q hquery hparse => absurd hparse (hnone handler q hquery)
    refine (objects_reply .new hbytes n).mpr ⟨[], rfl, ?_⟩
    rw [hextra]
    exact Nat.zero_le n

/-- A handler that answers every query with the same calls. -/
def answering (ops : List WriterOp) : QueryHandler Unit where
  handle _ lent := (.ok (), WriterOp.runAll ops lent.1, lent.2)

/-- A handler that writes the same and fails the same way every time. -/
def failing (ops : List WriterOp) (e : Error) : QueryHandler Unit where
  handle _ lent := (.error e, WriterOp.runAll ops lent.1, lent.2)

/-- A limit that the handler happens to keep: one object is appended, and
one stands in the text of the error. -/
theorem objects_limited_iff_two :
    let ops : List WriterOp := [.recordAttr "a".toList "b".toList "1".toList]
    let error := Error.protocol .INVALID_QUERY_SYNTAX "x\r\n\r\na:b:2".toList
    let ctx : ServerContext Unit := { ServerContext.new with query := some (failing ops error) }
    let rounds := (connection ctx).rounds (start ctx ⟨[], 0⟩ ()) ["-limit 2".toList, "foo".toList]
    ∃ first second, rounds = [first, second] ∧
      (extraLines (.error error)).map ResponseLine.parse =
        [.blank, .record ⟨"a".toList, "b".toList, none, "2".toList⟩] ∧
      ∃ reply, received second.result.bytes = some reply ∧ objects reply ≤ 2 := by
  intro ops error ctx rounds
  have hlines : ∀ line ∈ ["-limit 2".toList, "foo".toList], RwhoisCodec.Decoded line :=
    RwhoisCodec.Decoded.of_unlines 512 (by decide)
  have hhandler : ∀ handler ∈ ctx.query, ∀ q, (handler.handle q).KeepsLines := by
    rintro handler ⟨⟩ q out world hout
    exact hout.runAll ops
  obtain ⟨first, second, hrounds⟩ := List.length_eq_two.mp (by decide : rounds.length = 2)
  have hlimit : lastSettled .limit limitArg (rounds.take 1) = some 2 := by decide
  have hreq : (rounds.map fun r => Request.read r.input r.before.session.isSpooling) =
      [.directive "limit".toList "2".toList, .query "foo".toList] := by decide
  rw [hrounds] at hlimit hreq
  refine ⟨first, second, hrounds, by decide, ?_⟩
  have hsplit : rounds = [first] ++ second :: [] := hrounds
  refine (objects_limited_iff ctx hhandler (by rintro p ⟨⟩) _ _ _ hlines hsplit
    (List.cons.inj (List.cons.inj hreq).2).1 2 hlimit (by decide)).mpr ?_
  rintro handler q ⟨⟩ -
  have hsent : (ctx.answer (failing ops error) q (.new, second.before.world)).2.1.buf =
      utf8 (unlines (ops.map WriterOp.line)) :=
    WriterOp.runAll_buf ops .new
  have hresult : (ctx.answer (failing ops error) q (.new, second.before.world)).1 =
      .error error := rfl
  simp only
  rw [hsent, hresult, received_unlines (by decide)]
  exact ⟨_, rfl, by decide⟩

/-- Two objects behind `-limit 1`. -/
theorem objects_unlimited :
    let ctx : ServerContext Unit := { ServerContext.new with query := some (answering
      [.recordAttr "a".toList "b".toList "1".toList, .blankLine,
        .recordAttr "a".toList "b".toList "2".toList]) }
    let rounds := (connection ctx).rounds (start ctx ⟨[], 0⟩ ()) ["-limit 1".toList, "foo".toList]
    ∃ first second, rounds = [first, second] ∧ lastSettled .limit limitArg [first] = some 1 ∧
      Request.read second.input second.before.session.isSpooling = .query "foo".toList ∧
      (received second.result.bytes).map objects = some 2 := by
  intro ctx rounds
  obtain ⟨first, second, hrounds⟩ := List.length_eq_two.mp (by decide : rounds.length = 2)
  have hlimit : lastSettled .limit limitArg (rounds.take 1) = some 1 := by decide
  have hreq : (rounds.map fun r => Request.read r.input r.before.session.isSpooling) =
      [.directive "limit".toList "1".toList, .query "foo".toList] := by decide
  have hsent : (rounds.map fun r => r.result.bytes) = [utf8 (unlines ["%ok".toList]),
      utf8 (unlines ["a:b:1".toList, [], "a:b:2".toList, "%ok".toList])] := by decide
  rw [hrounds] at hlimit hreq hsent
  refine ⟨first, second, hrounds, hlimit, (List.cons.inj (List.cons.inj hreq).2).1, ?_⟩
  have hbytes : second.result.bytes = _ := (List.cons.inj (List.cons.inj hsent).2).1
  rw [hbytes, received_unlines (by decide)]
  decide

end Server

end Rwhois
