import Rwhois.Server.Framing

/-!
# Server — Reporting

Which errors reach the peer. `Error::Protocol` is documented as malformed
input that should be reported with a response code. While a line is
handled such errors come up in four layers: in `dispatch` itself, in
`Query::parse`, in a directive and in a handler of the consumer. All of
them leave `dispatch` as its result (`raises_iff`), and the loop renders
that result as ONE `%error` line behind what was written so far.

The decoder raises one too, for a line with a byte that is not ASCII. It
comes out of `framed.next()`, where the loop returns it at once: the
connection is closed and the peer is told nothing.
-/

namespace Rwhois

open RustStd

variable {ω : Type}

/-! ## Where errors come from -/

/-- What the registration handler answers to `-register`. -/
def Builtin.Register.consulted (h : RegisterHandler ω) (parts : List Str) (env : Env ω) :
    Option (Except Error Unit) :=
  let mode := parts.head?.map toAsciiLowercase
  let action := parts[1]?.getD []
  let email := parts[2]?.getD []
  let extra := if parts.length > 3 then List.intercalate [' '] (parts.drop 3) else []
  if mode = some "on".toList then
    if action = [] ∨ email = [] then none else some (h.begin action email extra env.world).1
  else if mode = some "off".toList then some (h.finish (env.out, env.world)).1
  else none

/-- What the handler behind a built-in directive answers, if one is
called. -/
def Builtin.consulted (ctx : ServerContext ω) (args : Str) (env : Env ω) :
    Builtin → Option (Except Error Unit)
  | .cls => ctx.cls.map fun p =>
      (p.list (parseAreaClasses args).1 (parseAreaClasses args).2 (env.out, env.world)).1
  | .schema => ctx.schema.map fun p =>
      (p.list (parseAreaClasses args).1 (parseAreaClasses args).2 (env.out, env.world)).1
  | .soa => ctx.soa.map fun p => (p.list (splitArgs args) (env.out, env.world)).1
  | .xfer => ctx.xfer.map fun p => (p.xfer args (env.out, env.world)).1
  | .security => ctx.auth.map fun h => (h.authenticate args (env.session, env.out, env.world)).1
  | .register => ctx.register.bind fun h => Register.consulted h (splitArgs args) env
  | _ => none

namespace Server

/-- An error that comes up while a request is handled, one constructor for
each place it can come from. -/
inductive Raises (ctx : ServerContext ω) (env : Env ω) : Request → Error → Prop where
  | unknown {name args : Str} (h : ctx.directives.get name = none) :
      Raises ctx env (.directive name args) (.protocol .DIRECTIVE_NOT_AVAILABLE name)
  | directive {name args : Str} {d : Directive ω} {e : Error}
      (hget : ctx.directives.get name = some d) (h : ((d.run ctx args).run env).1 = .err e) :
      Raises ctx env (.directive name args) e
  /-- The handler behind a built-in directive fails. -/
  | consulted {name args : Str} {d : Directive ω} {b : Builtin} {e : Error}
      (hget : ctx.directives.get name = some d) (hbody : d.body = .builtin b)
      (h : b.consulted ctx args env = some (.error e)) :
      Raises ctx env (.directive name args) e
  | noHandler {line : Str} (h : ctx.query = none) :
      Raises ctx env (.query line) (.protocol .SERVICE_NOT_AVAILABLE "no query handler".toList)
  | parse {line : Str} {handler : QueryHandler ω} {e : Error} (hquery : ctx.query = some handler)
      (h : Query.parse line = .err e) : Raises ctx env (.query line) e
  | handler {line : Str} {handler : QueryHandler ω} {q : Query} {e : Error}
      (hquery : ctx.query = some handler) (hparse : Query.parse line = .ok q)
      (h : (handler.handle q (env.out, env.world)).1 = .error e) :
      Raises ctx env (.query line) e
  | referral {line : Str} {handler : QueryHandler ω} {q : Query} {lent : ResponseWriter × ω}
      {refs : ReferralProvider ω} {e : Error} (hquery : ctx.query = some handler)
      (hparse : Query.parse line = .ok q)
      (hhandle : handler.handle q (env.out, env.world) = (.ok (), lent))
      (href : ctx.referral = some refs) (h : (refs.referrals q lent).1 = .error e) :
      Raises ctx env (.query line) e
  | noRegistration {line : Str} (h : ctx.register = none) :
      Raises ctx env (.spool line)
        (.protocol .REGISTRATION_NOT_AUTHORIZED "registration not supported".toList)
  | acceptLine {line : Str} {reg : RegisterHandler ω} {e : Error} (hreg : ctx.register = some reg)
      (h : (reg.acceptLine line env.world).1 = .error e) :
      Raises ctx env (.spool line) e

end Server

/-! ## They are the result of `dispatch` -/

theorem Builtin.provided_fails {name : Str} {tag : Tag}
    {provider : Option (HandlerFuture (ResponseWriter × ω))} {env : Env ω} {e : Error}
    (h : provider.map (fun list => (list (env.out, env.world)).1) = some (.error e)) :
    ((provided name tag provider).run env).1 = .err e := by
  cases provider with
  | none => cases h
  | some list => exact Exec.fails_callOn_bind (Option.some.inj h)

theorem Builtin.Register.fails {ctx : ServerContext ω} {args : Str} {env : Env ω} {e : Error}
    {h : RegisterHandler ω} (hreg : ctx.register = some h)
    (hfail : consulted h (splitArgs args) env = some (.error e)) :
    ((Register.run ctx args).run env).1 = .err e := by
  simp only [consulted] at hfail
  simp only [Register.run, hreg]
  split at hfail
  · rename_i hon
    rw [if_pos hon, Register.on]
    split at hfail
    · cases hfail
    · rename_i hargs
      rw [if_neg hargs]
      exact Exec.fails_callOn_bind (Option.some.inj hfail)
  · rename_i hon
    rw [if_neg hon]
    split at hfail
    · rename_i hoff
      rw [if_pos hoff]
      exact Exec.fails_callOn_bind (Option.some.inj hfail)
    · cases hfail

/-- A built-in directive fails if the handler behind it does. -/
theorem Builtin.run_fails {ctx : ServerContext ω} {args : Str} {env : Env ω} {e : Error}
    {b : Builtin} (h : b.consulted ctx args env = some (.error e)) :
    ((b.run ctx args).run env).1 = .err e := by
  cases b with
  | cls | schema | soa | xfer =>
      apply provided_fails
      rw [Option.map_map]
      exact h
  | security =>
      simp only [consulted, Option.map_eq_some_iff] at h
      obtain ⟨handler, hauth, herr⟩ := h
      simp only [Builtin.run, Security.run, hauth]
      exact Exec.fails_callOn_bind herr
  | register =>
      simp only [consulted, Option.bind_eq_some_iff] at h
      obtain ⟨handler, hreg, herr⟩ := h
      exact Register.fails hreg herr
  | _ => cases h

namespace Server

variable {ctx : ServerContext ω} {env : Env ω} {e : Error}

theorem fails_pure {α β : Type} {x : Exec (Env ω) Error α} {g : α → β} :
    ((x >>= fun a => pure (g a)).run env).1 = .err e ↔ (x.run env).1 = .err e := by
  rw [Exec.fails_bind]
  simp

theorem answer_fails_iff {handler : QueryHandler ω} {q : Query} {lent : ResponseWriter × ω} :
    (ctx.answer handler q lent).1 = .error e ↔ (handler.handle q lent).1 = .error e ∨
      ∃ lent' refs, handler.handle q lent = (.ok (), lent') ∧ ctx.referral = some refs ∧
        (refs.referrals q lent').1 = .error e := by
  unfold ServerContext.answer
  rcases handler.handle q lent with ⟨_ | _, lent'⟩
  · simp
  · cases ctx.referral <;> simp

theorem dispatchQuery_fails_iff {line : Str} :
    ((dispatchQuery ctx line).run env).1 = .err e ↔ Raises ctx env (.query line) e := by
  constructor
  · intro hfail
    cases hquery : ctx.query with
    | none =>
        rw [dispatchQuery, hquery] at hfail
        cases hfail
        exact .noHandler hquery
    | some handler =>
        cases hparse : Query.parse line with
        | ok q =>
            rw [run_dispatchQuery hquery hparse] at hfail
            have herr : (ctx.answer handler q (env.out, env.world)).1 = .error e := by
              cases hres : (ctx.answer handler q (env.out, env.world)).1 with
              | ok u => simp [hres, Except.map, RustStd.Outcome.ofExcept] at hfail
              | error e' => simpa [hres, Except.map, RustStd.Outcome.ofExcept] using hfail
            -- the query handler failed, or the referrals behind it did
            rcases answer_fails_iff.mp herr with h | ⟨lent, refs, hhandle, href, h⟩
            · exact .handler hquery hparse h
            · exact .referral hquery hparse hhandle href h
        | _ =>
            simp only [dispatchQuery, hquery, hparse] at hfail
            first
              | (cases hfail; exact .parse hquery hparse)
              | cases hfail
  · intro hraises
    have hanswer {handler : QueryHandler ω} {q : Query} (hquery : ctx.query = some handler)
        (hparse : Query.parse line = .ok q)
        (h : (ctx.answer handler q (env.out, env.world)).1 = .error e) :
        ((dispatchQuery ctx line).run env).1 = .err e := by
      simp only [run_dispatchQuery hquery hparse, h]
      rfl
    cases hraises with
    | noHandler h => rw [dispatchQuery, h]; rfl
    | parse hquery h => simp only [dispatchQuery, hquery, h]; rfl
    | handler hquery hparse h => exact hanswer hquery hparse (answer_fails_iff.mpr (.inl h))
    | referral hquery hparse hhandle href h =>
        exact hanswer hquery hparse (answer_fails_iff.mpr (.inr ⟨_, _, hhandle, href, h⟩))

theorem dispatchSpool_fails_iff {line : Str} :
    ((dispatchSpool ctx line).run env).1 = .err e ↔ Raises ctx env (.spool line) e := by
  unfold dispatchSpool
  cases hreg : ctx.register with
  | none =>
      constructor
      · rintro ⟨⟩
        exact .noRegistration hreg
      · intro h
        cases h with
        | noRegistration h => rfl
        | acceptLine hsome h => cases hreg.symm.trans hsome
  | some reg =>
      refine fails_pure.trans (Exec.fails_callOn.trans ?_)
      constructor
      · exact .acceptLine hreg
      · intro h
        cases h with
        | noRegistration hnone => cases hreg.symm.trans hnone
        | acceptLine hsome h =>
            obtain rfl := Option.some.inj (hreg.symm.trans hsome)
            exact h

theorem dispatchDirective_fails_iff {name args : Str} :
    ((dispatchDirective ctx name args).run env).1 = .err e ↔
      Raises ctx env (.directive name args) e := by
  unfold dispatchDirective
  cases hget : ctx.directives.get name with
  | none =>
      constructor
      · rintro ⟨⟩
        exact .unknown hget
      · intro h
        cases h with
        | unknown h => rfl
        | directive hsome h => cases hget.symm.trans hsome
        | consulted hsome hbody h => cases hget.symm.trans hsome
  | some d =>
      refine fails_pure.trans ?_
      constructor
      · exact .directive hget
      · intro h
        cases h with
        | unknown hnone => cases hget.symm.trans hnone
        | directive hsome h =>
            obtain rfl := Option.some.inj (hget.symm.trans hsome)
            exact h
        | consulted hsome hbody h =>
            obtain rfl := Option.some.inj (hget.symm.trans hsome)
            rw [Directive.run, hbody]
            exact Builtin.run_fails h

/-- **The errors of a request are the errors of `dispatch`.** -/
theorem raises_iff {req : Request} :
    Raises ctx env req e ↔ ((dispatch ctx req).run env).1 = .err e := by
  cases req with
  | empty =>
      constructor
      · rintro ⟨⟩
      · rintro ⟨⟩
  | query line => exact dispatchQuery_fails_iff.symm
  | spool line => exact dispatchSpool_fails_iff.symm
  | directive name args => exact dispatchDirective_fails_iff.symm

end Server

/-! ## They are reported -/

/-- The reply is what was written before the error, and one line that
starts with `%error` and the code. -/
structure Reply.Reports (self : Reply) (code : ResponseCode) (message : Str) : Prop where
  last : self.last = some (.error code (some message))
  line : ∃ detail, IsLine detail ∧ self.bytes = self.buf ++
    utf8 ("%error ".toList ++ displayPadded 3 code.code.toNat ++ ' ' :: detail ++ crlf)

theorem Reply.Reports.of_last {reply : Reply} {code : ResponseCode} {message : Str}
    (hlast : reply.last = some (.error code (some message))) (hcode : IsLine code.message)
    (hmessage : IsLine message) : reply.Reports code message := by
  refine ⟨hlast, code.message ++ detailText (some message), ?_, ?_⟩
  · refine hcode.append (Terminator.isLine_detailText.mpr ?_)
    rintro e ⟨⟩
    exact hmessage
  · have hline : (Terminator.error code (some message)).line =
        "%error ".toList ++ errorText code (some message) := by
      rw [Terminator.line, tagLine, if_neg (Terminator.errorText_ne_nil code _)]
      rfl
    rw [Reply.bytes, hlast]
    simp only [Terminator.write_eq, hline, errorText, List.append_assoc]

namespace Server

/-- **One round**, from any session state: what is raised is reported. -/
theorem round_reports {ctx : ServerContext ω} {r : Round (Env ω) Str Reply}
    (hdoes : (connection ctx).Does r) {code : ResponseCode} {message : Str}
    (hraises : Raises ctx { r.before with out := .new }
      (Request.read r.input r.before.session.isSpooling) (.protocol code message))
    (hcode : IsLine code.message) (hmessage : IsLine message) :
    r.result.Reports code message := by
  obtain ⟨outcome, env', hrun, -, hresult⟩ := does_connection hdoes
  have herr := raises_iff.mp hraises
  rw [hrun] at herr
  have houtcome : outcome = .error (.protocol code message) :=
    RustStd.Outcome.ofExcept_injective (y := .error _) herr
  refine .of_last ?_ hcode hmessage
  rw [hresult, houtcome]
  rfl

/-! ## Whole connections -/

/-- The lines of a client that the loop takes out of the decoder: one for
every round and, as long as no reply closes the connection, the one behind
them. -/
def Transcript.linesRead (t : Transcript ω) (stream : Bytes) : List Bytes :=
  (stream.splitOn LF).dropLast.take
    (t.rounds.length + if t.rounds.any (·.result.closes) then 0 else 1)

/-- Every line that is read is ASCII. -/
def Transcript.ReadsAscii (t : Transcript ω) (stream : Bytes) : Prop :=
  ∀ seg ∈ t.linesRead stream, ∀ b ∈ seg, b < 0x80

instance (t : Transcript ω) (stream : Bytes) : Decidable (t.ReadsAscii stream) :=
  @List.decidableBAll _ (fun seg : Bytes => ∀ b ∈ seg, b < 0x80)
    (fun seg => List.decidableBAll (fun b => b < 0x80) seg) _

/-- A protocol error of the decoder is that of the line behind those it
returned. The induction is on the pieces between the line feeds. -/
theorem exists_of_ending_protocol {max : Nat} {ending : Ending} {code : ResponseCode}
    {message : Str} (hown : ending ≠ .failed (.protocol code message)) {pieces : List Bytes}
    (h : (Inbound.ofResults ending (RwhoisCodec.pieceResults max pieces)).ending =
      .failed (.protocol code message)) :
    ∃ seg ∈ pieces.dropLast.take
        ((Inbound.ofResults ending (RwhoisCodec.pieceResults max pieces)).lines.length + 1),
      ∀ line, RwhoisCodec.lineResult seg ≠ .ok line := by
  induction pieces with
  | nil => exact absurd h hown
  | cons seg pieces ih =>
      cases pieces with
      | nil =>
          simp only [RwhoisCodec.pieceResults] at h
          split at h
          · cases h
          · exact absurd h hown
      | cons next pieces =>
          simp only [RwhoisCodec.pieceResults] at h ih ⊢
          split at h
          · cases h
          · rename_i hfits
            rw [if_neg hfits, List.dropLast_cons_cons]
            rcases RwhoisCodec.lineResult_cases seg with ⟨line, hline⟩ | herr
            · -- the line is returned, and the error comes later
              rw [hline] at h ⊢
              obtain ⟨seg', hmem, hseg'⟩ := ih h
              exact ⟨seg', List.mem_cons_of_mem seg hmem, hseg'⟩
            · refine ⟨seg, List.mem_cons_self, ?_⟩
              intro line hline
              rw [hline] at herr
              cases herr

/-- On a connection that stays open and reads ASCII lines the decoder raises
no protocol error. -/
theorem ending_ne_protocol {ctx : ServerContext ω} {env env' : Env ω} {chunks : List Bytes}
    {maxLine : Nat} {silent : Bool} {t : Transcript ω}
    (hrounds : t.rounds =
      (connection ctx).rounds env (Inbound.ofStream maxLine chunks silent).lines)
    (hwait : ((connection ctx).run env (Inbound.ofStream maxLine chunks silent).lines).2 =
      .waiting env')
    (hascii : t.ReadsAscii chunks.flatten) (code : ResponseCode) (message : Str) :
    (Inbound.ofStream maxLine chunks silent).ending ≠ .failed (.protocol code message) := by
  obtain ⟨hinputs, hopen⟩ := Loop.inputs_of_waiting hwait
  rw [← hrounds] at hinputs hopen
  have hread : t.linesRead chunks.flatten = (chunks.flatten.splitOn LF).dropLast.take
      ((Inbound.ofStream maxLine chunks silent).lines.length + 1) := by
    have hnone : t.rounds.any (·.result.closes) = false := by
      rw [List.any_eq_false]
      intro r hr
      exact Bool.eq_false_iff.mp (hopen r hr)
    rw [Transcript.linesRead, hnone, ← hinputs, List.length_map]
    rfl
  rw [Transcript.ReadsAscii, hread] at hascii
  unfold Inbound.ofStream at hascii ⊢
  simp only [RwhoisCodec.feed_start, RwhoisCodec.lineSpec] at hascii ⊢
  intro hending
  have hown : (if silent = true then Ending.idle else
      if (chunks.flatten.getLast?.all (· == LF)) = true then .eof else .failed .io) ≠
        .failed (.protocol code message) := by
    split
    · simp
    · split <;> simp
  obtain ⟨seg, hseg, hline⟩ := exists_of_ending_protocol hown hending
  have hnone := RwhoisCodec.any_high_of_ascii (hascii seg hseg)
  rw [RwhoisCodec.lineResult, hnone] at hline
  exact hline _ rfl

/-- The encoder raises none for a greeting without CR and LF. -/
theorem encode_banner_ne_protocol {ctx : ServerContext ω} (hhost : IsLine ctx.hostname)
    (code : ResponseCode) (message : Str) :
    ((RwhoisCodec.withMaxLine ctx.maxLine).encode (utf8 ctx.banner.toLine) []).1 ≠
      .error (.protocol code message) := by
  have htag : IsLine "%rwhois ".toList := by decide
  have hline : IsLine ctx.banner.toLine := htag.append (Builtin.isLine_banner hhost)
  have hclean : (utf8 ctx.banner.toLine).any (fun b => b == CR || b == LF) = false := by
    rw [List.any_eq_false]
    intro b hb
    obtain ⟨hcr, hlf⟩ := hline.utf8 b hb
    simp [CR, LF, hcr, hlf]
  unfold RwhoisCodec.encode
  rw [hclean]
  split <;> simp

/-- **Every protocol error is reported** if the lines that are read, up to
the one that closes the connection, are ASCII. Whatever the handlers do,
the connection does not end with a protocol error, and one that is raised
while a line is handled is answered with exactly one `%error` line, in the
reply to that line. -/
theorem protocol_errors_reported (ctx : ServerContext ω) (hhost : IsLine ctx.hostname)
    (peer : SocketAddr) (world : ω) (chunks : List Bytes) (silent : Bool)
    (hascii : (runConnection ctx peer world (.ofStream ctx.maxLine chunks silent)).ReadsAscii
      chunks.flatten) :
    let t := runConnection ctx peer world (.ofStream ctx.maxLine chunks silent)
    (∀ code message, t.result ≠ .err (.protocol code message)) ∧
    ∀ r ∈ t.rounds, ∀ code message,
      Raises ctx { r.before with out := .new } (Request.read r.input r.before.session.isSpooling)
        (.protocol code message) →
      IsLine code.message → IsLine message → r.result.Reports code message := by
  intro t
  rcases hencode : (RwhoisCodec.withMaxLine ctx.maxLine).encode (utf8 ctx.banner.toLine) []
    with ⟨sent, greeting⟩
  cases sent with
  | error e =>
      have ht : t = ⟨[], [], [], .err e⟩ := by
        simp only [t, runConnection, hencode]
      -- the greeting is refused, for its length alone
      have hne := encode_banner_ne_protocol hhost
      rw [hencode] at hne
      rw [ht]
      refine ⟨fun code message h => hne code message ?_, by rintro r ⟨⟩⟩
      rw [RustStd.Outcome.err.inj h]
  | ok u =>
      have ht : t = _ := runConnection_eq hencode peer world _
      have hrounds : t.rounds = _ := rounds_runConnection hencode peer world _
      have hdoes : ∀ r ∈ t.rounds, (connection ctx).Does r := by
        intro r hr
        rw [hrounds] at hr
        exact (Loop.does_of_mem_rounds hr).1
      refine ⟨?_, fun r hr code message hraises => round_reports (hdoes r hr) hraises⟩
      intro code message
      rw [ht]
      cases hexit : ((connection ctx).run (start ctx peer world)
          (Inbound.ofStream ctx.maxLine chunks silent).lines).2 with
      | waiting env =>
          have hending := ending_ne_protocol hrounds hexit hascii
          cases hend : (Inbound.ofStream ctx.maxLine chunks silent).ending with
          | failed e =>
              intro h
              exact hending code message (hend.trans (congrArg _ (RustStd.Outcome.err.inj h)))
          | _ => simp [Ending.transcript]
      | _ => simp

/-- A refused query, a directive that is not there and a switch with a
wrong argument, in two chunks; and a byte that is not ASCII behind the
`-quit`, where nobody reads it. -/
theorem protocol_errors_reported_three :
    let ctx : ServerContext Unit := .new
    let chunks := [utf8 "-holdconnect\r\nx=\n-f".toList,
      utf8 "oo\n-forward x\n-quit\n".toList ++ [0x80, LF]]
    let t := runConnection ctx ⟨[], 0⟩ () (.ofStream ctx.maxLine chunks false)
    (∀ code message, t.result ≠ .err (.protocol code message)) ∧
      ∃ hold query unknown forward quit, t.rounds = [hold, query, unknown, forward, quit] ∧
        query.result.Reports .SERVICE_NOT_AVAILABLE "no query handler".toList ∧
        unknown.result.Reports .DIRECTIVE_NOT_AVAILABLE "foo".toList ∧
        forward.result.Reports .INVALID_DIRECTIVE_SYNTAX "forward: x".toList := by
  intro ctx chunks t
  have h := protocol_errors_reported ctx (by decide) ⟨[], 0⟩ () chunks false (by decide)
  refine ⟨h.1, ?_⟩
  have hread : (t.rounds.map fun r => Request.read r.input r.before.session.isSpooling) =
      [.directive "holdconnect".toList [], .query "x=".toList, .directive "foo".toList [],
        .directive "forward".toList "x".toList, .directive "quit".toList []] := by decide
  obtain ⟨hold, _, hrounds, -, hread⟩ := List.map_eq_cons_iff.mp hread
  obtain ⟨query, _, rfl, hquery, hread⟩ := List.map_eq_cons_iff.mp hread
  obtain ⟨unknown, _, rfl, hunknown, hread⟩ := List.map_eq_cons_iff.mp hread
  obtain ⟨forward, _, rfl, hforward, hread⟩ := List.map_eq_cons_iff.mp hread
  obtain ⟨quit, _, rfl, -, hread⟩ := List.map_eq_cons_iff.mp hread
  obtain rfl := List.map_eq_nil_iff.mp hread
  have hmem : ∀ r ∈ [hold, query, unknown, forward, quit], r ∈ t.rounds := by
    rw [hrounds]
    exact fun _ hr => hr
  refine ⟨hold, query, unknown, forward, quit, hrounds, ?_, ?_, ?_⟩
  · refine h.2 query (hmem query (by simp)) _ _ ?_ (by decide) (by decide)
    rw [hquery]
    exact .noHandler rfl
  · refine h.2 unknown (hmem unknown (by simp)) _ _ ?_ (by decide) (by decide)
    rw [hunknown]
    exact .unknown (by decide)
  · refine h.2 forward (hmem forward (by simp)) _ _ ?_ (by decide) (by decide)
    rw [hforward]
    exact raises_iff.mpr rfl

/-- A byte that is not ASCII: the decoder raises 350, the connection ends
with it and nothing is sent. -/
theorem decode_error_unreported :
    let ctx : ServerContext Unit := .new
    let t := runConnection ctx ⟨[], 0⟩ () (.ofStream ctx.maxLine [[0x80, LF]] false)
    RwhoisCodec.feed (.withMaxLine ctx.maxLine, []) [[0x80, LF]] =
        [.err RwhoisCodec.nonAsciiError] ∧
      t.result = .err RwhoisCodec.nonAsciiError ∧ t.afterBanner = [] := by
  decide

end Server

end Rwhois
