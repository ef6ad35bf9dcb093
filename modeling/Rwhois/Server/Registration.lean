import Rwhois.Server.Session

/-!
# Server — Registration

The calls a registration handler sees. `ServerContext.recorded` puts a
handler in front of the consumer's that writes down every call which came
back `Ok`; `Registers` says what one line can do to this log and to the
state of its session.

The documented order is one `begin`, any number of `accept_line`, one
`finish`. The `-register` directive does not look at the state of the
session, so a client that repeats `-register on`, or sends
`-register off` first, breaks it. A client whose `-register` lines fit
the state of its session never does.

An auth handler is lent the session; it is assumed to leave the state
alone.
-/

namespace Rwhois

open RustStd

variable {ω κ : Type}

/-! ## Recording the calls -/

inductive RegisterCall where
  | begin (action email args : Str)
  | acceptLine (line : Str)
  | finish
  deriving Repr, DecidableEq

/-- The log after a call: failed calls are not written down. -/
def noted (result : Except Error Unit) (entry : κ) (log : List κ) : List κ :=
  match result with
  | .ok _ => log ++ [entry]
  | .error _ => log

/-- A handler that knows nothing of the log. -/
def HandlerFuture.beside (f : HandlerFuture (ResponseWriter × ω)) :
    HandlerFuture (ResponseWriter × ω × List κ) :=
  fun lent =>
    let (result, out, world) := f (lent.1, lent.2.1)
    (result, out, world, lent.2.2)

def AuthHandler.beside (h : AuthHandler ω) : AuthHandler (ω × List κ) where
  authenticate args lent :=
    let (result, session, out, world) := h.authenticate args (lent.1, lent.2.1, lent.2.2.1)
    (result, session, out, world, lent.2.2.2)

/-- The handler with a log of its successful calls. -/
def RegisterHandler.recorded (h : RegisterHandler ω) (note : RegisterCall → κ) :
    RegisterHandler (ω × List κ) where
  begin action email args world :=
    let (result, world') := h.begin action email args world.1
    (result, world', noted result (note (.begin action email args)) world.2)
  acceptLine line world :=
    let (result, world') := h.acceptLine line world.1
    (result, world', noted result (note (.acceptLine line)) world.2)
  finish lent :=
    let (result, out, world') := h.finish (lent.1, lent.2.1)
    (result, out, world', noted result (note .finish) lent.2.2)

/-- The handlers of a context with the built-in directives, the
registration handler recorded. -/
def ServerContext.recorded (ctx : ServerContext ω) (note : RegisterCall → κ) :
    ServerContext (ω × List κ) where
  directives := .withBuiltins
  hostname := ctx.hostname
  idleTimeout := ctx.idleTimeout
  maxLine := ctx.maxLine
  query := ctx.query.map fun h => ⟨fun q => (h.handle q).beside⟩
  cls := ctx.cls.map fun p => ⟨fun area classes => (p.list area classes).beside⟩
  schema := ctx.schema.map fun p => ⟨fun area classes => (p.list area classes).beside⟩
  soa := ctx.soa.map fun p => ⟨fun areas => (p.list areas).beside⟩
  xfer := ctx.xfer.map fun p => ⟨fun args => (p.xfer args).beside⟩
  register := ctx.register.map fun h => h.recorded note
  referral := ctx.referral.map fun p => ⟨fun q => (p.referrals q).beside⟩
  auth := ctx.auth.map AuthHandler.beside

/-- What has been written down so far. -/
def Env.log (env : Env (ω × List κ)) : List κ := env.world.2

theorem IgnoresOut.log : IgnoresOut (Env.log : Env (ω × List κ) → List κ) := fun _ _ => rfl

theorem beside_log (f : HandlerFuture (ResponseWriter × ω)) :
    Exec.Preserves Env.log (Env.write (f.beside : HandlerFuture (ResponseWriter × ω × List κ))) :=
  fun _ => rfl

/-! ## What one line writes down -/

namespace Builtin

variable {ctx : ServerContext ω} {note : RegisterCall → κ}

theorem switch_log (name args : Str) (set : Bool → Session → Session) :
    Exec.Preserves (Env.log : Env (ω × List κ) → List κ) (switch name set args) := by
  unfold switch
  simp only
  split
  · exact .bind (.modify fun _ => rfl) fun _ => .pure _
  · split
    · exact .bind (.modify fun _ => rfl) fun _ => .pure _
    · exact .throw _

theorem provided_log {π : Type} (name : Str) (tag : Tag) (provider : Option π)
    {list : π → HandlerFuture (ResponseWriter × ω × List κ)}
    (h : ∀ p, Exec.Preserves Env.log (Env.write (list p))) :
    Exec.Preserves Env.log (provided name tag (provider.map list)) := by
  refine provided_preserves .log _ _ fun f hf => ?_
  obtain ⟨p, -, rfl⟩ := Option.map_eq_some_iff.mp hf
  exact h p

/-- Only `-register` reaches the registration handler. -/
theorem run_log (args : Str) {b : Builtin} (hb : b ≠ .register) :
    Exec.Preserves Env.log (b.run (ctx.recorded note) args) := by
  cases b with
  | register => exact (hb rfl).elim
  | holdConnect => exact switch_log _ _ _
  | forward => exact switch_log _ _ _
  | limit =>
      simp only [run, Limit.run]
      cases parseUsize (trim args) with
      | some n => exact .bind (.modify fun _ => rfl) fun _ => .pure _
      | none => exact .throw _
  | display =>
      simp only [run, Display.run]
      split
      · exact .bind .get fun _ => .bind (IgnoresOut.log.emit _) fun _ =>
          .bind (IgnoresOut.log.emit _) fun _ => .pure _
      · split
        · exact .bind (.modify fun _ => rfl) fun _ => .pure _
        · exact .throw _
  | status => exact Status.preserves .log
  | rwhois =>
      exact .bind (.modify fun _ => rfl) fun _ => .bind (IgnoresOut.log.emit _) fun _ => .pure _
  | directiveList => exact DirectiveList.preserves .log _
  | cls =>
      simp only [run, Class.run, ServerContext.recorded, Option.map_map]
      exact provided_log _ _ _ fun _ => beside_log _
  | schema =>
      simp only [run, Schema.run, ServerContext.recorded, Option.map_map]
      exact provided_log _ _ _ fun _ => beside_log _
  | soa =>
      simp only [run, Soa.run, ServerContext.recorded, Option.map_map]
      exact provided_log _ _ _ fun _ => beside_log _
  | xfer =>
      simp only [run, Xfer.run, ServerContext.recorded, Option.map_map]
      exact provided_log _ _ _ fun _ => beside_log _
  | security =>
      simp only [run, Security.run, ServerContext.recorded]
      cases ctx.auth with
      | none => exact .throw _
      | some h =>
          have hlend : Exec.Preserves Env.log
              (Env.lend ((h.beside : AuthHandler (ω × List κ)).authenticate args)) := fun _ => rfl
          exact .bind hlend fun _ => .pure _
  | quit => exact .pure _
  | notify => exact .pure _

end Builtin

/-- The call a request asks of the registration handler. -/
def Request.call : Request → Option RegisterCall
  | .directive name args =>
      if name = Builtin.register.name then
        match Builtin.RegisterArg.parse args with
        | some (.on action email extra) => some (.begin action email extra)
        | some .off => some .finish
        | none => none
      else
        none
  | .spool line => some (.acceptLine line)
  | _ => none

/-- The state of the session behind a successful call. -/
def RegisterCall.next : RegisterCall → SessionState → SessionState
  | .begin _ _ _, _ => .spool
  | .acceptLine _, state => state
  | .finish, _ => .query

/-- Every call comes back `Ok`. -/
structure RegisterHandler.Accepts (h : RegisterHandler ω) : Prop where
  begin : ∀ action email args world, (h.begin action email args world).1 = .ok ()
  acceptLine : ∀ line world, (h.acceptLine line world).1 = .ok ()
  finish : ∀ lent, (h.finish lent).1 = .ok ()

/-- An auth handler that does not switch between query and spool. -/
def AuthHandler.KeepsState (h : AuthHandler ω) : Prop :=
  ∀ args (lent : Session × ResponseWriter × ω),
    (h.authenticate args lent).2.1.state = lent.1.state

/-- What the request `req` did between `env` and `env'`: one call that was
written down, or none, and then the state is as before and the request
asked for no call that the handler would have accepted. -/
def Registers (ctx : ServerContext ω) (note : RegisterCall → κ) (req : Request)
    (env env' : Env (ω × List κ)) : Prop :=
  (∃ call, req.call = some call ∧ env'.log = env.log ++ [note call] ∧
      env'.session.state = call.next env.session.state) ∨
    (env'.log = env.log ∧
      ((∀ h ∈ ctx.auth, h.KeepsState) → env'.session.state = env.session.state) ∧
      ∀ h ∈ ctx.register, h.Accepts → req.call = none)

namespace Server

variable {ctx : ServerContext ω} {note : RegisterCall → κ}

theorem Registers.idle {req : Request} {env env' : Env (ω × List κ)} (hlog : env'.log = env.log)
    (hsession : env'.session = env.session) (hcall : ∀ h ∈ ctx.register, h.Accepts → req.call = none) :
    Registers ctx note req env env' :=
  .inr ⟨hlog, fun _ => by rw [hsession], hcall⟩

/-- A call that came back with an error is not written down. -/
theorem Registers.refused {req : Request} {env env' : Env (ω × List κ)} {h : RegisterHandler ω}
    (hctx : ctx.register = some h) (hno : ¬ h.Accepts) (hlog : env'.log = env.log)
    (hsession : env'.session = env.session) : Registers ctx note req env env' := by
  refine Registers.idle hlog hsession fun h' hmem hacc => ?_
  obtain rfl : h = h' := by simpa [hctx] using hmem
  exact (hno hacc).elim

theorem dispatchSpool_registers (line : Str) (env : Env (ω × List κ)) :
    Registers ctx note (.spool line) env
      ((dispatchSpool (ctx.recorded note) line).run env).2 := by
  cases hctx : ctx.register with
  | none =>
      simp only [dispatchSpool, ServerContext.recorded, hctx]
      exact Registers.idle rfl rfl (by simp [hctx])
  | some h =>
      simp only [dispatchSpool, ServerContext.recorded, hctx, Option.map_some, Exec.run_bind_pure,
        Env.ask, Exec.callOn, RegisterHandler.recorded]
      cases hr : (h.acceptLine line env.world.1).1 with
      | ok u => exact .inl ⟨_, rfl, rfl, rfl⟩
      | error e =>
          refine Registers.refused hctx (fun hacc => ?_) rfl rfl
          rw [hacc.acceptLine] at hr
          cases hr

theorem register_registers (args : Str) (env : Env (ω × List κ)) :
    Registers ctx note (.directive Builtin.register.name args) env
      ((Builtin.Register.run (ctx.recorded note) args).run env).2 := by
  cases hctx : ctx.register with
  | none =>
      have hrec : (ctx.recorded note).register = none := by simp [ServerContext.recorded, hctx]
      rw [Builtin.Register.run_none hrec]
      exact Registers.idle rfl rfl (by simp [hctx])
  | some h =>
      have hrec : (ctx.recorded note).register = some (h.recorded note) := by
        simp [ServerContext.recorded, hctx]
      cases harg : Builtin.RegisterArg.parse args with
      | none =>
          obtain ⟨message, -, hrun⟩ := Builtin.Register.run_malformed hrec harg
          rw [hrun]
          exact Registers.idle rfl rfl fun _ _ _ => by simp [Request.call, harg]
      | some arg =>
          cases arg with
          | on action email extra =>
              rw [Builtin.Register.run_on hrec harg]
              simp only [Exec.run_bind, Env.ask, Exec.callOn, RegisterHandler.recorded]
              cases hr : (h.begin action email extra env.world.1).1 with
              | ok u => exact .inl ⟨.begin action email extra, by simp [Request.call, harg], rfl, rfl⟩
              | error e =>
                  refine Registers.refused hctx (fun hacc => ?_) rfl rfl
                  rw [hacc.begin] at hr
                  cases hr
          | off =>
              rw [Builtin.Register.run_off hrec harg]
              simp only [Builtin.Register.off, Exec.run_bind, Env.write, Exec.callOn,
                RegisterHandler.recorded]
              cases hr : (h.finish (env.out, env.world.1)).1 with
              | ok u => exact .inl ⟨.finish, by simp [Request.call, harg], rfl, rfl⟩
              | error e =>
                  refine Registers.refused hctx (fun hacc => ?_) rfl rfl
                  rw [hacc.finish] at hr
                  cases hr

theorem builtin_registers (args : Str) (b : Builtin) (env : Env (ω × List κ)) :
    Registers ctx note (.directive b.name args) env
      ((b.run (ctx.recorded note) args).run env).2 := by
  by_cases hb : b = .register
  · subst hb
    exact register_registers args env
  · have hcall : Request.call (.directive b.name args) = none := by
      have hname : b.name ≠ Builtin.register.name := by
        intro heq
        have hof := Builtin.ofName_name b
        rw [heq, Builtin.ofName_name] at hof
        exact hb (Option.some.inj hof).symm
      simp [Request.call, hname]
    refine .inr ⟨Builtin.run_log args hb env, fun hauth => ?_, fun _ _ _ => hcall⟩
    by_cases hsec : b = .security
    · subst hsec
      cases hctx : ctx.auth with
      | none => simp [Builtin.run, Builtin.Security.run, ServerContext.recorded, hctx]
      | some h =>
          have hrec : (ctx.recorded note).auth = some h.beside := by
            simp [ServerContext.recorded, hctx]
          show ((Builtin.Security.run (ctx.recorded note) args).run env).2.session.state = _
          rw [Builtin.Security.run_some hrec]
          exact hauth h hctx args (env.session, env.out, env.world.1)
    · have heffect := Builtin.run_session (ctx.recorded note) args (b := b) fun h => (hsec h).elim
      rcases heffect.session_cases env with hsame | hset
      · rw [hsame]
      · rw [hset, Builtin.effect_state args _ hb]

/-- **What a line can do to the log.** -/
theorem dispatch_registers (req : Request) (env : Env (ω × List κ)) :
    Registers ctx note req env ((dispatch (ctx.recorded note) req).run env).2 := by
  cases req with
  | empty => exact Registers.idle rfl rfl fun _ _ _ => rfl
  | spool line => exact dispatchSpool_registers line env
  | query line =>
      refine Registers.idle ?_ (dispatchQuery_neutral _ line env) fun _ _ _ => rfl
      suffices hlog : Exec.Preserves Env.log (dispatchQuery (ctx.recorded note) line) from hlog env
      apply dispatchQuery_preserves
      · intro h hmem q
        obtain ⟨h', -, rfl⟩ := Option.map_eq_some_iff.mp hmem
        exact beside_log _
      · intro p hmem q
        obtain ⟨p', -, rfl⟩ := Option.map_eq_some_iff.mp hmem
        exact beside_log _
  | directive name args =>
      rw [dispatch, dispatchDirective_eq rfl]
      cases hb : Builtin.ofName name with
      | none =>
          refine Registers.idle rfl rfl fun _ _ _ => ?_
          have hname : name ≠ Builtin.register.name := by
            rintro rfl
            rw [Builtin.ofName_name] at hb
            cases hb
          simp [Request.call, hname]
      | some b =>
          rw [← Builtin.name_of_ofName hb]
          simp only [Exec.run_bind_pure]
          exact builtin_registers args b env

theorem round_registers {r : Round (Env (ω × List κ)) Str Reply}
    (hdoes : (connection (ctx.recorded note)).Does r) :
    Registers ctx note (Request.read r.input r.before.session.isSpooling) r.before r.after := by
  obtain ⟨outcome, env', hrun, hafter, -⟩ := does_connection hdoes
  have h : Registers ctx note (Request.read r.input r.before.session.isSpooling)
      { r.before with out := .new } _ := dispatch_registers _ _
  rw [hrun] at h
  rw [hafter]
  exact h

end Server

/-! ## The order of the calls -/

/-- One registration as its handler sees it. -/
structure Registration where
  action : Str
  email : Str
  args : Str
  lines : List Str
  deriving Repr, DecidableEq

/-- The calls up to the last spooled line. -/
def Registration.opening (self : Registration) : List RegisterCall :=
  .begin self.action self.email self.args :: self.lines.map .acceptLine

def Registration.calls (self : Registration) : List RegisterCall := self.opening ++ [.finish]

/-- The calls are those of whole registrations, the last one possibly not
finished yet: a prefix of a word of `(begin accept_line* finish)*`. -/
def InOrder (log : List RegisterCall) : Prop :=
  ∃ registrations : List Registration, log <+: registrations.flatMap Registration.calls

/-- The log fits the state of the session: in spool state a registration is
open, in query state none is. -/
def LogMatches (log : List RegisterCall) : SessionState → Prop
  | .query => ∃ done : List Registration, log = done.flatMap Registration.calls
  | .spool => ∃ (done : List Registration) (current : Registration),
      log = done.flatMap Registration.calls ++ current.opening

theorem LogMatches.inOrder {log : List RegisterCall} {state : SessionState}
    (h : LogMatches log state) : InOrder log := by
  cases state with
  | query =>
      obtain ⟨done, rfl⟩ := h
      exact ⟨done, List.prefix_rfl⟩
  | spool =>
      obtain ⟨done, current, rfl⟩ := h
      refine ⟨done ++ [current], [.finish], ?_⟩
      simp [Registration.calls]

/-- `on` when no registration is open, `off` when one is. -/
def FitsState (state : SessionState) : Option Builtin.RegisterArg → Prop
  | some (.on _ _ _) => state = .query
  | some .off => state = .spool
  | none => True

instance (state : SessionState) : (arg : Option Builtin.RegisterArg) →
    Decidable (FitsState state arg)
  | some (.on _ _ _) => inferInstanceAs (Decidable (state = .query))
  | some .off => inferInstanceAs (Decidable (state = .spool))
  | none => isTrue trivial

/-- A `-register` line asks for what is possible in the state it meets.
Other lines are free. -/
def Request.Fits (state : SessionState) : Request → Prop
  | .directive name args =>
      name = Builtin.register.name → FitsState state (Builtin.RegisterArg.parse args)
  | _ => True

instance (state : SessionState) : (req : Request) → Decidable (req.Fits state)
  | .directive name args => inferInstanceAs (Decidable
      (name = Builtin.register.name → FitsState state (Builtin.RegisterArg.parse args)))
  | .empty | .query _ | .spool _ => isTrue trivial

/-- The order of the calls as an automaton: `none` for a call out of
order. -/
def SessionState.after (state : SessionState) : RegisterCall → Option SessionState
  | .begin _ _ _ => if state = .query then some .spool else none
  | .acceptLine _ => if state = .spool then some .spool else none
  | .finish => if state = .spool then some .query else none

theorem LogMatches.empty : LogMatches [] .query := ⟨[], rfl⟩

/-- One more call in order. -/
theorem LogMatches.step {log : List RegisterCall} {state state' : SessionState}
    {call : RegisterCall} (h : LogMatches log state) (hcall : state.after call = some state') :
    LogMatches (log ++ [call]) state' := by
  cases state with
  | query =>
      obtain ⟨done, rfl⟩ := h
      cases call with
      | begin action email args =>
          cases hcall
          exact ⟨done, ⟨action, email, args, []⟩, rfl⟩
      | acceptLine line => cases hcall
      | finish => cases hcall
  | spool =>
      obtain ⟨done, current, rfl⟩ := h
      cases call with
      | begin action email args => cases hcall
      | acceptLine line =>
          cases hcall
          refine ⟨done, { current with lines := current.lines ++ [line] }, ?_⟩
          simp [Registration.opening]
      | finish =>
          cases hcall
          refine ⟨done ++ [current], ?_⟩
          simp [Registration.calls]

/-- A request that fits asks for a call in order; a spool line always
does. -/
theorem Request.Fits.after {req : Request} {call : RegisterCall} {state : SessionState}
    (hfits : req.Fits state) (hspool : ∀ text, req = .spool text → state = .spool)
    (hcall : req.call = some call) : state.after call = some (call.next state) := by
  cases req with
  | empty => cases hcall
  | query line => cases hcall
  | spool line =>
      cases hcall
      obtain rfl := hspool line rfl
      rfl
  | directive name args =>
      simp only [Request.call] at hcall
      split at hcall
      · rename_i hname
        have hfit := hfits hname
        cases harg : Builtin.RegisterArg.parse args with
        | none =>
            rw [harg] at hcall
            cases hcall
        | some arg =>
            rw [harg] at hcall hfit
            cases arg with
            | on action email extra =>
                cases hcall
                obtain rfl : state = .query := hfit
                rfl
            | off =>
                cases hcall
                obtain rfl : state = .spool := hfit
                rfl
      · cases hcall

namespace Server

variable {ctx : ServerContext ω}

theorem round_logMatches (hauth : ∀ h ∈ ctx.auth, h.KeepsState)
    {r : Round (Env (ω × List RegisterCall)) Str Reply}
    (hdoes : (connection (ctx.recorded id)).Does r)
    (hfits : (Request.read r.input r.before.session.isSpooling).Fits r.before.session.state)
    (h : LogMatches r.before.log r.before.session.state) :
    LogMatches r.after.log r.after.session.state := by
  rcases round_registers hdoes with ⟨call, hcall, hlog, hstate⟩ | ⟨hlog, hstate, -⟩
  · rw [hlog, hstate]
    refine h.step (hfits.after (fun text htext => ?_) hcall)
    have hspool := (Request.read_spool htext).1
    simpa [Session.isSpooling] using hspool
  · rw [hlog, hstate hauth]
    exact h

/-- **The calls come in order** on every connection whose `-register`
lines fit the state of its session, whatever the handlers answer. -/
theorem registration_inOrder (ctx : ServerContext ω) (hauth : ∀ h ∈ ctx.auth, h.KeepsState)
    (peer : SocketAddr) (world : ω) (lines : List Str)
    (hfits : ∀ r ∈ (connection (ctx.recorded id)).rounds
      (start (ctx.recorded id) peer (world, [])) lines,
      (Request.read r.input r.before.session.isSpooling).Fits r.before.session.state) :
    ∀ env ∈ (connection (ctx.recorded id)).visited
      (start (ctx.recorded id) peer (world, [])) lines, InOrder env.log := by
  intro env henv
  have hmatches : LogMatches env.log env.session.state :=
    Loop.visited_of_keeps
      (P := fun env : Env (ω × List RegisterCall) => LogMatches env.log env.session.state)
      (fun r hr hdoes h => round_logMatches hauth hdoes (hfits r hr) h) .empty env henv
  exact hmatches.inOrder

/-- Two registrations, the second one not finished. -/
theorem registration_inOrder_two :
    let ctx : ServerContext Unit := { ServerContext.new with register := some .accepting }
    let lines := ["-register on add a@b".toList, "x".toList, "-register off".toList,
      "-register on del c@d".toList]
    let visited := (connection (ctx.recorded id)).visited
      (start (ctx.recorded id) ⟨[], 0⟩ ((), [])) lines
    visited.map (fun env => env.log.length) = [0, 1, 2, 3, 4] ∧
      ∀ env ∈ visited, InOrder env.log := by
  refine ⟨by decide, ?_⟩
  exact registration_inOrder _ (by simp [ServerContext.new]) _ _ _ (by decide)

theorem not_inOrder_begin (action email args action' email' args' : Str) :
    ¬ InOrder [.begin action email args, .begin action' email' args'] := by
  rintro ⟨_ | ⟨⟨a, e, x, _ | ⟨l, ls⟩⟩, rs⟩, h⟩ <;>
    simp [Registration.calls, Registration.opening] at h

theorem not_inOrder_finish : ¬ InOrder [.finish] := by
  rintro ⟨_ | ⟨r, rs⟩, h⟩ <;> simp [Registration.calls, Registration.opening] at h

/-- Neither a second `-register on` nor a first `-register off` is
refused: both reach the handler. -/
theorem registration_out_of_order :
    let ctx : ServerContext Unit := { ServerContext.new with register := some .accepting }
    let logs := fun lines => ((connection (ctx.recorded id)).visited
      (start (ctx.recorded id) ⟨[], 0⟩ ((), [])) lines).map Env.log
    let begun := RegisterCall.begin "add".toList "a@b".toList []
    logs ["-register on add a@b".toList, "-register on add a@b".toList] =
        [[], [begun], [begun, begun]] ∧ ¬ InOrder [begun, begun] ∧
      logs ["-register off".toList] = [[], [.finish]] ∧ ¬ InOrder [.finish] :=
  ⟨by decide, not_inOrder_begin _ _ _ _ _ _, by decide, not_inOrder_finish⟩

end Server

end Rwhois
