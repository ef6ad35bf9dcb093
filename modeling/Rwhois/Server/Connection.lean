import Rwhois.Codec
import Rwhois.Directive.Effect
import Rwhois.Intake
import Rwhois.RustStd.Loop
import Rwhois.Wire.RoundTrip

/-!
# Server — Connection

One connection from its greeting to its end (`server.rs`: `dispatch` and
`run_connection`). The loop takes one decoded line a round; `exchange` is
its body. What a round hands to `send_buf` is the result of the round, so
the list of rounds is the whole conversation, with the session and the
world before and after every line.

Writing to the socket always succeeds here. The decoder's other results
(an error, the end of the stream) and the idle timer end the loop and are
kept as the ending of the inbound stream.
-/

namespace Rwhois

open RustStd

variable {ω : Type}

namespace Server

/-- How `dispatch` wants the response to end. -/
inductive Outcome where
  | silent
  | ok
  | handled
  | quit
  deriving Repr, DecidableEq

def Outcome.ofDirective : DirectiveOutcome → Outcome
  | .ok => .ok
  | .handled => .handled
  | .quit => .quit

/-! ## One line -/

/-- The referrals behind the records, if there is a provider. -/
def appendReferrals (ctx : ServerContext ω) (q : Query) : Exec (Env ω) Error Unit :=
  match ctx.referral with
  | some refs => Env.write (refs.referrals q)
  | none => pure ()

def dispatchQuery (ctx : ServerContext ω) (line : Str) : Exec (Env ω) Error Outcome :=
  match ctx.query with
  | none => Exec.throw (.protocol .SERVICE_NOT_AVAILABLE "no query handler".toList)
  | some handler => do
      let q ← Exec.ofOutcome (Query.parse line)
      Env.write (handler.handle q)
      appendReferrals ctx q
      pure .ok

def dispatchSpool (ctx : ServerContext ω) (line : Str) : Exec (Env ω) Error Outcome :=
  match ctx.register with
  | some reg => do
      Env.ask (reg.acceptLine line)
      pure .silent
  | none =>
      Exec.throw (.protocol .REGISTRATION_NOT_AUTHORIZED "registration not supported".toList)

def dispatchDirective (ctx : ServerContext ω) (name args : Str) : Exec (Env ω) Error Outcome :=
  match ctx.directives.get name with
  | none => Exec.throw (.protocol .DIRECTIVE_NOT_AVAILABLE name)
  | some d => do
      let outcome ← d.run ctx args
      pure (.ofDirective outcome)

def dispatch (ctx : ServerContext ω) : Request → Exec (Env ω) Error Outcome
  | .empty => pure .silent
  | .directive name args => dispatchDirective ctx name args
  | .query line => dispatchQuery ctx line
  | .spool line => dispatchSpool ctx line

end Server

/-- What the consumer's code does for a query: the handler and, if it
succeeds, the referral provider. -/
def ServerContext.answer (ctx : ServerContext ω) (handler : QueryHandler ω) (q : Query) :
    HandlerFuture (ResponseWriter × ω) := fun lent =>
  match handler.handle q lent, ctx.referral with
  | (.ok (), lent'), some refs => refs.referrals q lent'
  | done, _ => done

/-- What one round sends: the appended lines and the terminator. -/
structure Reply where
  buf : Bytes
  last : Option Terminator
  /-- The task returns after this reply. -/
  closes : Bool
  deriving Repr, DecidableEq

namespace Reply

def bytes (self : Reply) : Bytes :=
  match self.last with
  | some last => last.write self.buf
  | none => self.buf

/-- The arms behind `dispatch`: which terminator is written. -/
def terminator : Except Error Server.Outcome → Option Terminator
  | .ok .silent | .ok .handled => none
  | .ok .ok | .ok .quit => some .ok
  | .error (.protocol code message) => some (.error code (some message))
  | .error _ => some (.error .UNIDENTIFIED_ERROR none)

def isQuit : Except Error Server.Outcome → Bool
  | .ok .quit => true
  | _ => false

/-- The reply to `req`, when `dispatch` came back with `outcome` and left
`env` behind. -/
def of (req : Request) (outcome : Except Error Server.Outcome) (env : Env ω) : Reply where
  buf := env.out.buf
  last := terminator outcome
  closes := isQuit outcome ||
    -- read behind `dispatch`: the session as the line left it
    (!env.session.holdConnect && env.session.state == .query && req.isQuery)

end Reply

namespace Server

/-- The body of the loop in `run_connection`. -/
def exchange (ctx : ServerContext ω) (line : Str) : Exec (Env ω) Error Reply := do
  let env ← Exec.get
  let req ← Request.classify line env.session.isSpooling
  Exec.modify fun env => { env with out := .new }
  -- an error of `dispatch` is rendered, it does not leave the loop
  let outcome ← Exec.attempt (dispatch ctx req)
  let env ← Exec.get
  -- `out.take()`
  Exec.modify fun env => { env with out := .new }
  pure (Reply.of req outcome env)

/-! ## The connection -/

def connection (ctx : ServerContext ω) : Loop (Env ω) Str Reply where
  body env line :=
    match (exchange ctx line).run env with
    | (.ok reply, env') => some (reply, env')
    | (_, _) => none
  returns := Reply.closes

/-- What comes behind the last line of a client. -/
inductive Ending where
  | eof
  | failed (e : Error)
  | idle
  deriving Repr, DecidableEq

structure Inbound where
  lines : List Str
  ending : Ending
  deriving Repr, DecidableEq

/-- What `framed.next()` returns, item by item. An error is the last one. -/
def Inbound.ofResults (ending : Ending) : List (RustStd.Outcome Error Str) → Inbound
  | .ok line :: results =>
      { lines := line :: (ofResults ending results).lines
        ending := (ofResults ending results).ending }
  | .err e :: _ => { lines := [], ending := .failed e }
  | _ => { lines := [], ending }

/-- A client that sends these chunks and then falls silent, or closes. At
the end of the stream `Framed` reports bytes that no LF terminates as an
I/O error. -/
def Inbound.ofStream (maxLine : Nat) (chunks : List Bytes) (silent : Bool) : Inbound :=
  let ending :=
    if silent then .idle
    else if chunks.flatten.getLast?.all (· == LF) then .eof
    else .failed .io
  .ofResults ending (RwhoisCodec.feed (.withMaxLine maxLine, []) chunks)

/-- A connection from start to end. -/
structure Transcript (ω : Type) where
  greeting : Bytes
  rounds : List (Round (Env ω) Str Reply)
  /-- What is sent outside of a round, behind the last one. -/
  farewell : Bytes
  result : RustStd.Outcome Error Unit

/-- The state in which the loop is entered. -/
def start (ctx : ServerContext ω) (peer : SocketAddr) (world : ω) : Env ω where
  session := { Session.new peer with idleTimeout := ctx.idleTimeout }
  out := .new
  world := world

/-- The ways out of the loop that do not answer a line. -/
def Ending.transcript (ending : Ending) (greeting : Bytes)
    (rounds : List (Round (Env ω) Str Reply)) : Transcript ω :=
  match ending with
  | .eof => { greeting, rounds, farewell := [], result := .ok () }
  | .failed e => { greeting, rounds, farewell := [], result := .err e }
  | .idle =>
      { greeting, rounds, farewell := writeError [] .IDLE_TIME_EXCEEDED none,
        result := .err .idleTimeout }

def runConnection (ctx : ServerContext ω) (peer : SocketAddr) (world : ω) (inbound : Inbound) :
    Transcript ω :=
  match (RwhoisCodec.withMaxLine ctx.maxLine).encode (utf8 ctx.banner.toLine) [] with
  -- the `?` behind `framed.send`: the loop is never entered
  | (.error e, _) => { greeting := [], rounds := [], farewell := [], result := .err e }
  | (.ok (), greeting) =>
      match (connection ctx).run (start ctx peer world) inbound.lines with
      | (rounds, .stuck) => { greeting, rounds, farewell := [], result := .panic }
      | (rounds, .returned _) => { greeting, rounds, farewell := [], result := .ok () }
      | (rounds, .waiting _) => inbound.ending.transcript greeting rounds

/-- Everything that is written after the banner. -/
def Transcript.afterBanner (t : Transcript ω) : Bytes :=
  t.rounds.flatMap (fun r => r.result.bytes) ++ t.farewell

/-! ## What a round does -/

theorem run_exchange (ctx : ServerContext ω) (line : Str) (env : Env ω) :
    (exchange ctx line).run env =
      match (dispatch ctx (Request.read line env.session.isSpooling)).run { env with out := .new } with
      | (.ok o, env') =>
          (.ok (.of (Request.read line env.session.isSpooling) (.ok o) env'),
            { env' with out := .new })
      | (.err e, env') =>
          (.ok (.of (Request.read line env.session.isSpooling) (.error e) env'),
            { env' with out := .new })
      | (.panic, env') => (.panic, env')
      | (.diverge, env') => (.diverge, env') := by
  unfold exchange
  rw [Exec.run_get_bind, Exec.run_bind_ok (Request.run_classify line _ env), Exec.run_modify_bind,
    Exec.run_bind]
  simp only [Exec.attempt]
  rcases (dispatch ctx (Request.read line env.session.isSpooling)).run
    { env with out := .new } with ⟨_ | _ | _ | _, env'⟩ <;> rfl

/-- A query that parses is left to the consumer's code. -/
theorem run_dispatchQuery {ctx : ServerContext ω} {handler : QueryHandler ω}
    (hquery : ctx.query = some handler) {line : Str} {q : Query}
    (hparse : Query.parse line = .ok q) (env : Env ω) :
    (dispatchQuery ctx line).run env =
      let answer := ctx.answer handler q (env.out, env.world)
      (RustStd.Outcome.ofExcept (answer.1.map fun _ => .ok),
        { env with out := answer.2.1, world := answer.2.2 }) := by
  simp only [dispatchQuery, hquery, hparse, ServerContext.answer]
  rw [Exec.run_bind_ok (a := q) rfl, Exec.run_bind]
  simp only [Env.write, Exec.callOn]
  rcases handler.handle q (env.out, env.world) with ⟨_ | _, out, world⟩
  · rfl
  · simp only [appendReferrals, RustStd.Outcome.ofExcept]
    cases ctx.referral with
    | none => rfl
    | some refs =>
        rw [Exec.run_bind_pure]
        simp only [Env.write, Exec.callOn]
        cases (refs.referrals q (out, world)).1 <;> rfl

/-- **Inversion of a round**: `dispatch` ran on an empty response and came
back, and the reply is made of what it left behind. -/
theorem does_connection {ctx : ServerContext ω} {r : Round (Env ω) Str Reply}
    (h : (connection ctx).Does r) :
    ∃ outcome env', (dispatch ctx (Request.read r.input r.before.session.isSpooling)).run
        { r.before with out := .new } = (.ofExcept outcome, env') ∧
      r.after = { env' with out := .new } ∧
      r.result = .of (Request.read r.input r.before.session.isSpooling) outcome env' := by
  unfold Loop.Does connection at h
  simp only [run_exchange] at h
  rcases hrun : (dispatch ctx (Request.read r.input r.before.session.isSpooling)).run
    { r.before with out := .new } with ⟨o, env'⟩
  rw [hrun] at h
  cases o with
  | ok o =>
      obtain ⟨hreply, hafter⟩ := Prod.mk.inj (Option.some.inj h)
      exact ⟨.ok o, env', rfl, hafter.symm, hreply.symm⟩
  | err e =>
      obtain ⟨hreply, hafter⟩ := Prod.mk.inj (Option.some.inj h)
      exact ⟨.error e, env', rfl, hafter.symm, hreply.symm⟩
  | panic => cases h
  | diverge => cases h

/-- A connection whose banner was sent, by the way its loop ends. -/
theorem runConnection_eq {ctx : ServerContext ω} {greeting : Bytes}
    (hencode : (RwhoisCodec.withMaxLine ctx.maxLine).encode (utf8 ctx.banner.toLine) [] =
      (.ok (), greeting)) (peer : SocketAddr) (world : ω) (inbound : Inbound) :
    runConnection ctx peer world inbound =
      match ((connection ctx).run (start ctx peer world) inbound.lines).2 with
      | .stuck => ⟨greeting, (connection ctx).rounds (start ctx peer world) inbound.lines, [], .panic⟩
      | .returned _ =>
          ⟨greeting, (connection ctx).rounds (start ctx peer world) inbound.lines, [], .ok ()⟩
      | .waiting _ => inbound.ending.transcript greeting
          ((connection ctx).rounds (start ctx peer world) inbound.lines) := by
  simp only [runConnection, hencode, Loop.rounds]
  generalize (connection ctx).run (start ctx peer world) inbound.lines = run
  obtain ⟨rounds, exit⟩ := run
  cases exit <;> rfl

theorem rounds_runConnection {ctx : ServerContext ω} {greeting : Bytes}
    (hencode : (RwhoisCodec.withMaxLine ctx.maxLine).encode (utf8 ctx.banner.toLine) [] =
      (.ok (), greeting)) (peer : SocketAddr) (world : ω) (inbound : Inbound) :
    (runConnection ctx peer world inbound).rounds =
      (connection ctx).rounds (start ctx peer world) inbound.lines := by
  rw [runConnection_eq hencode]
  cases ((connection ctx).run (start ctx peer world) inbound.lines).2 with
  | waiting env => cases inbound.ending <;> rfl
  | _ => rfl

/-- A decoded line is always answered, whatever the handlers do. -/
theorem dispatch_returns (ctx : ServerContext ω) {line : Str} (hline : RwhoisCodec.Decoded line)
    (spooling : Bool) : Exec.Returns (dispatch ctx (Request.read line spooling)) := by
  cases hreq : Request.read line spooling with
  | empty => exact .pure _
  | spool text =>
      rw [dispatch, dispatchSpool]
      split
      · exact (Exec.Returns.callOn _ _ _).bind fun _ => .pure _
      · exact Exec.Returns.throw _
  | query text =>
      obtain rfl := Request.read_query hreq
      rw [dispatch, dispatchQuery]
      split
      · exact Exec.Returns.throw _
      · refine (Exec.Returns.ofOutcome (Query.parse_returns hline.isAscii)).bind fun q => ?_
        refine (Exec.Returns.callOn _ _ _).bind fun _ => Exec.Keeps.bind ?_ fun _ => .pure _
        unfold appendReferrals
        split
        · exact Exec.Returns.callOn _ _ _
        · exact .pure _
  | directive name args =>
      rw [dispatch, dispatchDirective]
      split
      · exact Exec.Returns.throw _
      · exact (Directive.run_returns _ ctx args).bind fun _ => .pure _

theorem body_isSome (ctx : ServerContext ω) {line : Str} (hline : RwhoisCodec.Decoded line)
    (env : Env ω) : ∃ reply env', (connection ctx).body env line = some (reply, env') := by
  obtain ⟨result, hresult⟩ :=
    (dispatch_returns ctx hline env.session.isSpooling).exists_except { env with out := .new }
  simp only [connection, run_exchange]
  rcases hrun : (dispatch ctx (Request.read line env.session.isSpooling)).run
    { env with out := .new } with ⟨o, env'⟩
  rw [hrun] at hresult
  obtain rfl : o = .ofExcept result := hresult
  cases result with
  | ok o => exact ⟨_, _, rfl⟩
  | error e => exact ⟨_, _, rfl⟩

/-- Decoded lines never get the loop stuck. -/
theorem exit_ne_stuck (ctx : ServerContext ω) {lines : List Str}
    (hlines : ∀ line ∈ lines, RwhoisCodec.Decoded line) (env : Env ω) :
    ((connection ctx).run env lines).2 ≠ .stuck :=
  Loop.exit_ne_stuck (fun env line hline => body_isSome ctx (hlines line hline) env) env

end Server

end Rwhois
