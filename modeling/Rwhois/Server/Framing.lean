import Rwhois.Directive.Framing
import Rwhois.Server.Session

/-!
# Server — Framing

What a client reads of a whole connection. It cuts what comes after the
banner at CR LF and parses every line. Every directive and every query is
answered by a block of lines whose LAST line, and no other, is a
terminator. An empty line is not answered, and a spooled line only when
it was refused.

Two things beyond the answers can put a terminator on the wire. A client
that is silent for too long is told so, once, before the connection is
closed. And an auth handler that puts CR LF into a text of the session
has it printed by `-status`.
-/

namespace Rwhois

open RustStd

variable {ω : Type}

/-- A block whose last line is its only terminator. -/
def IsAnswer (block : List ResponseLine) : Prop :=
  ∃ body last, block = body ++ [last] ∧ last.IsTerminator ∧ ∀ l ∈ body, ¬ l.IsTerminator

/-- The block that answers a request, in a world the handlers see. -/
def Request.AnsweredBy (ctx : ServerContext ω) (world : ω) (block : List ResponseLine) :
    Request → Prop
  | .empty => block = []
  | .directive _ _ | .query _ => IsAnswer block
  | .spool line => ∃ h, ctx.register = some h ∧
      match (h.acceptLine line world).1 with
      | .ok _ => block = []
      | .error _ => ∃ code text extra, block = [.error code text extra]

/-! ## One line -/

theorem Query.parse_clean {s : Str} (h : IsAscii s) : (Query.parse s).Within Error.Clean := by
  have hagrees := Query.parse_agrees (.of_isAscii h.trim)
  cases he : Grammar.expr s with
  | some e =>
      rw [he] at hagrees
      rw [show Query.parse s = _ from hagrees]
      trivial
  | none =>
      rw [he] at hagrees
      obtain ⟨message, hmessage, herr⟩ := hagrees
      rw [herr]
      exact ⟨by decide, hmessage⟩

namespace Server

section Line

variable {ctx : ServerContext ω} {line : Str}

theorem dispatchQuery_keeps (hctx : ctx.Appends) (hline : IsAscii line) :
    KeepsFraming ctx (dispatchQuery ctx line) := by
  unfold dispatchQuery
  cases hquery : ctx.query with
  | none => exact .throw ⟨by decide, by decide⟩
  | some h =>
      refine (Exec.Keeps.ofOutcome (Query.parse_clean hline)).bind fun q => ?_
      refine (KeepsFraming.write (hctx.query h hquery q)).bind fun _ => ?_
      refine Exec.Keeps.bind ?_ fun _ => .pure _
      unfold appendReferrals
      cases href : ctx.referral with
      | none => exact .pure ()
      | some p => exact KeepsFraming.write (hctx.referral p href q)

theorem dispatchSpool_keeps (hctx : ctx.Appends) :
    KeepsFraming ctx (dispatchSpool ctx line) := by
  unfold dispatchSpool
  cases hreg : ctx.register with
  | none => exact .throw ⟨by decide, by decide⟩
  | some h =>
      exact (KeepsFraming.ask ((hctx.register h hreg).acceptLine line)).bind fun _ => .pure _

/-- **Every line is answered in the format**, also when it fails. -/
theorem dispatch_keeps (hdir : ctx.directives = .withBuiltins) (hhost : IsLine ctx.hostname)
    (hctx : ctx.Appends) (htexts : ∀ h ∈ ctx.auth, h.KeepsTexts) (hline : RwhoisCodec.Decoded line)
    (spooling : Bool) : KeepsFraming ctx (dispatch ctx (Request.read line spooling)) := by
  cases hreq : Request.read line spooling with
  | empty => exact .pure _
  | spool text => exact dispatchSpool_keeps hctx
  | query text =>
      obtain rfl := Request.read_query hreq
      exact dispatchQuery_keeps hctx hline.isAscii
  | directive name args =>
      have hargs : IsLine args := hline.isLine.of_subset (Request.read_directive hreq)
      rw [dispatch, dispatchDirective_eq hdir]
      cases Builtin.ofName name with
      | none =>
          obtain ⟨word, rfl, hword⟩ := Request.read_directive_name hreq
          exact .throw ⟨by decide, (hline.isLine.of_subset hword).toAsciiLowercase⟩
      | some b => exact (Builtin.run_keeps hdir hhost hctx htexts hargs b).bind fun _ => .pure _

theorem dispatchQuery_yields : Exec.Yields .ok (dispatchQuery ctx line) := by
  unfold dispatchQuery
  cases ctx.query with
  | none => exact .throw _ _
  | some h => exact .bind fun _ => .bind fun _ => .bind fun _ => .pure _

/-- A built-in directive never comes back `Handled`. -/
theorem dispatchDirective_yields (hdir : ctx.directives = .withBuiltins) (name args : Str) :
    ∃ o, (o = .ok ∨ o = .quit) ∧ Exec.Yields o (dispatchDirective ctx name args) := by
  rw [dispatchDirective_eq hdir]
  cases Builtin.ofName name with
  | none => exact ⟨.ok, .inl rfl, .throw _ _⟩
  | some b =>
      refine ⟨.ofDirective b.outcome, ?_, (Builtin.run_yields ctx args b).map _⟩
      cases b <;> simp [Builtin.outcome, Outcome.ofDirective]

/-- An error is always answered with a terminator, and so are `Ok` and
`Quit`. -/
theorem terminator_of_yields {x : Exec (Env ω) Error Outcome} {o : Outcome}
    (ho : o = .ok ∨ o = .quit) (hx : Exec.Yields o x) {env env' : Env ω}
    {outcome : Except Error Outcome} (hrun : x.run env = (.ofExcept outcome, env')) :
    ∃ last, Reply.terminator outcome = some last := by
  cases outcome with
  | error e => cases e <;> exact ⟨_, rfl⟩
  | ok o' =>
      obtain rfl := hx env o' (by rw [hrun]; rfl)
      rcases ho with rfl | rfl <;> exact ⟨_, rfl⟩

end Line

/-! ## One round -/

/-- What the round sent is these lines, and they answer its input. -/
structure Answered (ctx : ServerContext ω) (r : Round (Env ω) Str Reply) (lines : List Str) :
    Prop where
  bytes : r.result.bytes = utf8 (unlines lines)
  isLine : ∀ l ∈ lines, IsLine l
  answers : (Request.read r.input r.before.session.isSpooling).AnsweredBy ctx r.before.world
    (lines.map ResponseLine.parse)

theorem terminator_clean {outcome : Except Error Outcome} {last : Terminator}
    (h : (RustStd.Outcome.ofExcept outcome).Within Error.Clean)
    (hlast : Reply.terminator outcome = some last) : last.Clean := by
  cases outcome with
  | ok o =>
      cases o <;> cases hlast <;> trivial
  | error e =>
      cases e with
      | protocol code message =>
          cases hlast
          refine ⟨h.1, ?_⟩
          rintro e ⟨⟩
          exact h.2
      | _ =>
          cases hlast
          exact ⟨by decide, by simp⟩

/-- Only the terminator of a clean reply is one. -/
theorem isAnswer_reply {ops : List WriterOp} (hops : ∀ op ∈ ops, op.Clean) (last : Terminator) :
    IsAnswer ((ops.map WriterOp.line ++ [last.line]).map ResponseLine.parse) := by
  refine ⟨_, _, List.map_append, last.isTerminator, ?_⟩
  intro l hl
  obtain ⟨text, htext, rfl⟩ := List.mem_map.mp hl
  obtain ⟨op, hop, rfl⟩ := List.mem_map.mp htext
  exact (hops op hop).not_terminator

/-- The block of a directive or a query. -/
theorem Answered.block {ctx : ServerContext ω} {r : Round (Env ω) Str Reply} {env' : Env ω}
    {outcome : Except Error Outcome} {last : Terminator}
    (hresult : r.result = .of (Request.read r.input r.before.session.isSpooling) outcome env')
    (hout : env'.out.Clean) (hlast : Reply.terminator outcome = some last) (hclean : last.Clean)
    (hreq : ∀ block, IsAnswer block →
      (Request.read r.input r.before.session.isSpooling).AnsweredBy ctx r.before.world block) :
    ∃ lines, Answered ctx r lines := by
  obtain ⟨ops, hops, hbuf⟩ := hout
  refine ⟨ops.map WriterOp.line ++ [last.line], ?_, reply_isLine hops hclean,
    hreq _ (isAnswer_reply hops last)⟩
  rw [hresult, ← reply_text]
  simp only [Reply.bytes, Reply.of, hlast, hbuf]

/-- An error is answered with an error line. -/
theorem terminator_error (e : Error) :
    ∃ code extra, Reply.terminator (.error e) = some (.error code extra) := by
  cases e <;> exact ⟨_, _, rfl⟩

theorem run_dispatchSpool {ctx : ServerContext ω} {h : RegisterHandler ω}
    (hreg : ctx.register = some h) (line : Str) (env : Env ω) :
    (dispatchSpool ctx line).run env =
      (RustStd.Outcome.ofExcept ((h.acceptLine line env.world).1.map fun _ => .silent),
        { env with world := (h.acceptLine line env.world).2 }) := by
  unfold dispatchSpool
  rw [hreg]
  simp only [Exec.run_bind_pure, Env.ask, Exec.callOn]
  cases (h.acceptLine line env.world).1 <;> rfl

/-- A spooled line: the handler is asked, and only its refusal is
answered. -/
theorem Answered.spool {ctx : ServerContext ω} {h : RegisterHandler ω}
    (hreg : ctx.register = some h) {r : Round (Env ω) Str Reply} {env' : Env ω}
    {outcome : Except Error Outcome} {line : Str}
    (hreq : Request.read r.input r.before.session.isSpooling = .spool line)
    (hrun : (dispatchSpool ctx line).run { r.before with out := .new } = (.ofExcept outcome, env'))
    (hresult : r.result = .of (Request.read r.input r.before.session.isSpooling) outcome env')
    (hclean : ∀ last, Reply.terminator outcome = some last → last.Clean) :
    ∃ lines, Answered ctx r lines := by
  rw [run_dispatchSpool hreg] at hrun
  obtain ⟨hout, rfl⟩ := Prod.mk.inj hrun
  have houtcome : (h.acceptLine line r.before.world).1.map (fun _ => .silent) = outcome :=
    RustStd.Outcome.ofExcept_injective hout
  cases hres : (h.acceptLine line r.before.world).1 with
  | ok u =>
      obtain rfl : .ok .silent = outcome := by rw [← houtcome, hres]; rfl
      refine ⟨[], ?_, by simp, ?_⟩
      · rw [hresult]
        rfl
      · rw [hreq]
        refine ⟨h, hreg, ?_⟩
        rw [hres]
        rfl
  | error e =>
      obtain rfl : .error e = outcome := by rw [← houtcome, hres]; rfl
      obtain ⟨code, extra, hlast⟩ := terminator_error e
      obtain ⟨number, text, detail, hparse⟩ := Terminator.exists_parse_error code extra
      refine ⟨[(Terminator.error code extra).line], ?_, ?_, ?_⟩
      · rw [hresult]
        simp only [Reply.bytes, Reply.of, hlast, Terminator.write_eq]
        rw [unlines_cons, unlines_nil]
        rfl
      · intro l hl
        obtain rfl := List.mem_singleton.mp hl
        exact (hclean _ hlast).isLine
      · rw [hreq]
        refine ⟨h, hreg, ?_⟩
        rw [hres]
        exact ⟨number, text, detail, by rw [List.map_singleton, hparse]⟩

section Runs

variable {ctx : ServerContext ω}

/-- **One round** keeps the format and answers its line. -/
theorem round_answered (hdir : ctx.directives = .withBuiltins) (hhost : IsLine ctx.hostname)
    (hctx : ctx.Appends) (htexts : ∀ h ∈ ctx.auth, h.KeepsTexts)
    {r : Round (Env ω) Str Reply} (hdoes : (connection ctx).Does r)
    (hinput : RwhoisCodec.Decoded r.input) (hbefore : r.before.Framed ctx) :
    r.after.Framed ctx ∧ ∃ lines, Answered ctx r lines := by
  obtain ⟨outcome, env', hrun, hafter, hresult⟩ := does_connection hdoes
  have hkeeps := dispatch_keeps hdir hhost hctx htexts hinput r.before.session.isSpooling
    { r.before with out := .new } ⟨hbefore.session, hbefore.spool, .new⟩
  rw [hrun] at hkeeps
  obtain ⟨henv', hwithin⟩ := hkeeps
  have hclean : ∀ last, Reply.terminator outcome = some last → last.Clean :=
    fun last hlast => terminator_clean hwithin hlast
  refine ⟨?_, ?_⟩
  · rw [hafter]
    exact ⟨henv'.session, henv'.spool, .new⟩
  cases hreq : Request.read r.input r.before.session.isSpooling with
  | empty =>
      rw [hreq] at hrun
      obtain ⟨hout, rfl⟩ := Prod.mk.inj hrun
      obtain rfl : .ok .silent = outcome := RustStd.Outcome.ofExcept_injective hout
      refine ⟨[], ?_, by simp, ?_⟩
      · rw [hresult]
        rfl
      · rw [hreq]
        rfl
  | spool line =>
      have hstate : r.before.session.state = .spool := by
        simpa [Session.isSpooling] using (Request.read_spool hreq).1
      obtain ⟨h, hreg⟩ := Option.isSome_iff_exists.mp (hbefore.spool hstate)
      rw [hreq] at hrun
      exact Answered.spool hreg hreq hrun hresult hclean
  | query line =>
      rw [hreq] at hrun
      obtain ⟨last, hlast⟩ := terminator_of_yields (.inl rfl) dispatchQuery_yields hrun
      refine Answered.block hresult henv'.out hlast (hclean last hlast) fun block hblock => ?_
      rw [hreq]
      exact hblock
  | directive name args =>
      rw [hreq] at hrun
      obtain ⟨o, ho, hyields⟩ := dispatchDirective_yields hdir name args
      obtain ⟨last, hlast⟩ := terminator_of_yields ho hyields hrun
      refine Answered.block hresult henv'.out hlast (hclean last hlast) fun block hblock => ?_
      rw [hreq]
      exact hblock

/-- **All rounds** of a connection. -/
theorem run_answered (hdir : ctx.directives = .withBuiltins) (hhost : IsLine ctx.hostname)
    (hctx : ctx.Appends) (htexts : ∀ h ∈ ctx.auth, h.KeepsTexts) {lines : List Str}
    (hlines : ∀ line ∈ lines, RwhoisCodec.Decoded line) {env : Env ω} (henv : env.Framed ctx) :
    ∃ blocks, List.Forall₂ (Answered ctx) ((connection ctx).rounds env lines) blocks := by
  have hround : ∀ r ∈ (connection ctx).rounds env lines, r.before.Framed ctx →
      r.after.Framed ctx ∧ ∃ block, Answered ctx r block := by
    intro r hr hbefore
    obtain ⟨hdoes, hinput⟩ := Loop.does_of_mem_rounds hr
    exact round_answered hdir hhost hctx htexts hdoes (hlines r.input hinput) hbefore
  have hvisited : ∀ env' ∈ (connection ctx).visited env lines, env'.Framed ctx :=
    Loop.visited_of_keeps (fun r hr _ hbefore => (hround r hr hbefore).1) henv
  have hanswered : ∀ r ∈ (connection ctx).rounds env lines, ∃ block, Answered ctx r block :=
    fun r hr => (hround r hr (hvisited r.before (Loop.before_mem_visited hr))).2
  choose! block hblock using hanswered
  exact ⟨_, List.forall₂_map_right_iff.mpr (List.forall₂_same.mpr hblock)⟩

/-- What the rounds sent, taken together. -/
theorem bytes_of_answered {rounds : List (Round (Env ω) Str Reply)} {blocks : List (List Str)}
    (h : List.Forall₂ (Answered ctx) rounds blocks) :
    rounds.flatMap (fun r => r.result.bytes) = utf8 (unlines blocks.flatten) ∧
      ∀ l ∈ blocks.flatten, IsLine l := by
  induction h with
  | nil => exact ⟨rfl, by simp⟩
  | cons hfirst _ ih =>
      refine ⟨?_, ?_⟩
      · rw [List.flatMap_cons, ih.1, hfirst.bytes]
        simp
      · intro l hl
        rw [List.flatten_cons] at hl
        rcases List.mem_append.mp hl with hl | hl
        · exact hfirst.isLine l hl
        · exact ih.2 l hl

end Runs

/-- A banner that could be sent names a host without CR and LF. -/
theorem isLine_hostname {ctx : ServerContext ω} {greeting : Bytes}
    (h : (RwhoisCodec.withMaxLine ctx.maxLine).encode (utf8 ctx.banner.toLine) [] =
      (.ok (), greeting)) : IsLine ctx.hostname := by
  unfold RwhoisCodec.encode at h
  split at h
  · cases h
  · split at h
    · cases h
    · rename_i hclean
      have hline : IsLine ctx.banner.toLine := by
        apply IsLine.of_utf8
        intro b hb
        have hno : ¬ (b == CR || b == LF) = true :=
          fun hb' => hclean (List.any_eq_true.mpr ⟨b, hb, hb'⟩)
        simpa [CR, LF] using hno
      exact hline.of_subset fun c hc => Banner.mem_toLine hc

/-! ## A whole connection -/

/-- What the client reads of the transcript is one block for every line
that was handled, in their order, and `tail`. -/
def Transcript.Reads (ctx : ServerContext ω) (t : Transcript ω) (tail : List ResponseLine) : Prop :=
  ∃ blocks, received t.afterBanner = some (blocks.flatten ++ tail) ∧
    List.Forall₂ (fun (r : Round (Env ω) Str Reply) block => received r.result.bytes = some block ∧
      (Request.read r.input r.before.session.isSpooling).AnsweredBy ctx r.before.world block)
      t.rounds blocks

theorem Transcript.reads_of_answered {ctx : ServerContext ω} {t : Transcript ω}
    {blocks : List (List Str)} (h : List.Forall₂ (Answered ctx) t.rounds blocks) (tail : List Str)
    (htail : ∀ l ∈ tail, IsLine l) (hfarewell : t.farewell = utf8 (unlines tail)) :
    t.Reads ctx (tail.map ResponseLine.parse) := by
  obtain ⟨hbytes, hisLine⟩ := bytes_of_answered h
  refine ⟨blocks.map (List.map ResponseLine.parse), ?_, ?_⟩
  · have hall : ∀ l ∈ blocks.flatten ++ tail, IsLine l := by
      intro l hl
      rcases List.mem_append.mp hl with hl | hl
      · exact hisLine l hl
      · exact htail l hl
    have hafter : t.afterBanner = utf8 (unlines (blocks.flatten ++ tail)) := by
      rw [Transcript.afterBanner, hbytes, hfarewell, unlines_append, utf8_append]
    rw [hafter, received_unlines hall, List.map_append, List.map_flatten]
  · rw [List.forall₂_map_right_iff]
    refine h.imp fun r block hr => ⟨?_, hr.answers⟩
    rw [hr.bytes, received_unlines hr.isLine]

theorem start_framed (ctx : ServerContext ω) (peer : SocketAddr) (world : ω) :
    (start ctx peer world).Framed ctx where
  session := ⟨(by decide : IsLine "dump".toList), by simp [start, Session.new]⟩
  spool := by rintro ⟨⟩
  out := .new

/-- The line that ends an idle connection. -/
def idleLine : ResponseLine := .error 503 "Idle Time Exceeded".toList none

theorem reads_idle {ctx : ServerContext ω} {greeting : Bytes}
    {rounds : List (Round (Env ω) Str Reply)} {blocks : List (List Str)}
    (h : List.Forall₂ (Answered ctx) rounds blocks) :
    (Ending.idle.transcript greeting rounds).Reads ctx [idleLine] := by
  have hparse : ResponseLine.parse (Terminator.error .IDLE_TIME_EXCEEDED none).line = idleLine := by
    decide
  have hclean : (Terminator.error .IDLE_TIME_EXCEEDED none).Clean := ⟨by decide, by simp⟩
  rw [← hparse]
  refine Transcript.reads_of_answered h [_] ?_ ?_
  · intro l hl
    obtain rfl := List.mem_singleton.mp hl
    exact hclean.isLine
  · rw [unlines_cons, unlines_nil, List.append_nil]
    exact (Terminator.write_eq (.error .IDLE_TIME_EXCEEDED none) [])

/-- **Response framing.** Whatever a client sends, nothing panics, the
lines are handled in their order, and what the client reads is one block
for every handled line: a directive or a query is answered by lines of
which the last one is the only terminator, an empty line and a spooled
line by nothing, a refused spool line by one error. Behind the blocks
there is at most the line that ends an idle connection. -/
theorem responses_framed (ctx : ServerContext ω) (hdir : ctx.directives = .withBuiltins)
    (hctx : ctx.Appends) (htexts : ∀ h ∈ ctx.auth, h.KeepsTexts) (peer : SocketAddr) (world : ω)
    (inbound : Inbound) (hlines : ∀ line ∈ inbound.lines, RwhoisCodec.Decoded line) :
    let t := runConnection ctx peer world inbound
    t.result ≠ .panic ∧ t.rounds.map Round.input <+: inbound.lines ∧
      (t.Reads ctx [] ∨
        inbound.ending = .idle ∧ t.result = .err .idleTimeout ∧ t.Reads ctx [idleLine]) := by
  intro t
  rcases hencode : (RwhoisCodec.withMaxLine ctx.maxLine).encode (utf8 ctx.banner.toLine) []
    with ⟨sent, greeting⟩
  cases sent with
  | error e =>
      -- the banner could not be sent
      have ht : t = { greeting := [], rounds := [], farewell := [], result := .err e } := by
        simp only [t, runConnection, hencode]
      rw [ht]
      exact ⟨by simp, List.nil_prefix, .inl (Transcript.reads_of_answered .nil [] (by simp) rfl)⟩
  | ok _ =>
      obtain ⟨blocks, hblocks⟩ := run_answered hdir (isLine_hostname hencode) hctx htexts
        hlines (start_framed ctx peer world)
      have hexit := exit_ne_stuck ctx hlines (start ctx peer world)
      have hinputs := (connection ctx).inputs_initial (start ctx peer world) inbound.lines
      have ht : t = _ := runConnection_eq hencode peer world inbound
      generalize (connection ctx).rounds (start ctx peer world) inbound.lines = rounds
        at hblocks hinputs ht
      rw [ht]
      have hnone : ∀ result, (⟨greeting, rounds, [], result⟩ : Transcript ω).Reads ctx [] :=
        fun result => Transcript.reads_of_answered hblocks [] (by simp) rfl
      cases hend : ((connection ctx).run (start ctx peer world) inbound.lines).2 with
      | stuck => exact (hexit hend).elim
      | returned env => exact ⟨by simp, hinputs, .inl (hnone _)⟩
      | waiting env =>
          cases hending : inbound.ending with
          | eof => exact ⟨by simp [Ending.transcript], hinputs, .inl (hnone _)⟩
          | failed e => exact ⟨by simp [Ending.transcript], hinputs, .inl (hnone _)⟩
          | idle =>
              exact ⟨by simp [Ending.transcript], hinputs, .inr ⟨rfl, rfl, reads_idle hblocks⟩⟩

/-- A query between two directives, an empty line, a registration, and a
client that falls silent. -/
theorem responses_framed_idle :
    let handler : QueryHandler Unit :=
      ⟨fun _ lent => (.ok (), lent.1.recordAttr "a".toList "b".toList "c".toList, lent.2)⟩
    let ctx : ServerContext Unit :=
      { ServerContext.new with query := some handler, register := some .accepting }
    let inbound : Inbound :=
      { lines := ["-holdconnect on".toList, "foo".toList, [], "-register on add a@b".toList,
          "x".toList, "-status".toList]
        ending := .idle }
    let t := runConnection ctx ⟨[], 0⟩ () inbound
    t.rounds.length = 6 ∧ t.result ≠ .panic ∧ t.rounds.map Round.input <+: inbound.lines ∧
      (t.Reads ctx [] ∨
        inbound.ending = .idle ∧ t.result = .err .idleTimeout ∧ t.Reads ctx [idleLine]) := by
  intro handler ctx inbound t
  have hctx : ctx.Appends := { ServerContext.Appends.new with
    query := by
      rintro h ⟨⟩ q out world
      exact ⟨⟨[.recordAttr "a".toList "b".toList "c".toList], by decide, rfl⟩, by rintro e ⟨⟩⟩
    register := by
      rintro h ⟨⟩
      exact .accepting }
  have hlines : ∀ line ∈ inbound.lines, RwhoisCodec.Decoded line :=
    RwhoisCodec.Decoded.of_unlines 512 (by decide)
  exact ⟨by decide, responses_framed ctx rfl hctx (by simp [ctx, ServerContext.new]) _ _ inbound
    hlines⟩

/-- Two lines, three terminators: the text that the auth handler left in
the session ends a line of `-status`. And nothing was asked, but an idle
client reads an error. -/
theorem responses_unframed :
    let auth : AuthHandler Unit := ⟨fun _ lent =>
      (.ok (), { lent.1 with clientVendorId := some "x\r\n%ok".toList }, lent.2)⟩
    let ctx : ServerContext Unit := { ServerContext.new with auth := some auth }
    let lines := ["-security x".toList, "-status".toList]
    ctx.directives = .withBuiltins ∧ ctx.Appends ∧ (∀ line ∈ lines, RwhoisCodec.Decoded line) ∧
      received (runConnection ctx ⟨[], 0⟩ () { lines, ending := .eof }).afterBanner =
        some [.ok, .tagged .status "limit:0".toList, .tagged .status "hold:off".toList,
          .tagged .status "forward:off".toList, .tagged .status "display:dump".toList,
          .tagged .status "contact:x".toList, .ok, .taggedEnd .status, .ok] ∧
      received (runConnection ctx ⟨[], 0⟩ () { lines := [], ending := .idle }).afterBanner =
        some [idleLine] := by
  intro auth ctx lines
  have hlines : ∀ line ∈ lines, RwhoisCodec.Decoded line :=
    RwhoisCodec.Decoded.of_unlines 512 (by decide)
  have hctx : ctx.Appends := { ServerContext.Appends.new with
    auth := by
      rintro h ⟨⟩ args session out world
      exact ⟨rfl, ⟨[], by simp, rfl⟩, by rintro e ⟨⟩⟩ }
  refine ⟨rfl, hctx, hlines, ?_, ?_⟩
  · have hsent : (runConnection ctx ⟨[], 0⟩ () { lines, ending := .eof }).afterBanner =
        utf8 (unlines ["%ok".toList, "%status limit:0".toList, "%status hold:off".toList,
          "%status forward:off".toList, "%status display:dump".toList,
          "%status contact:x".toList, "%ok".toList, "%status".toList, "%ok".toList]) := by
      decide
    rw [hsent, received_unlines (by decide)]
    decide
  · have hsent : (runConnection ctx ⟨[], 0⟩ () { lines := [], ending := .idle }).afterBanner =
        utf8 (unlines ["%error 503 Idle Time Exceeded".toList]) := by
      decide
    rw [hsent, received_unlines (by decide)]
    decide

end Server

end Rwhois
