import Rwhois.Directive.Effect
import Rwhois.Server.Connection

/-!
# Server — Session

The session over whole connections, with the built-in directives. Nothing
but a directive changes it, so the effect of a line is `Request.effect`.

`Session.Valid` says that the state, the registration fields and the
display fit together; it holds in every state a connection reaches.
-/

namespace Rwhois

open RustStd

variable {ω : Type}

/-! ## The effect of a line -/

/-- The session a request leaves behind when it succeeds. -/
def Request.effect (s : Session) : Request → Session
  | .directive name args =>
      match Builtin.ofName name with
      | some b => b.effect args s
      | none => s
  | _ => s

namespace Server

section Handlers

variable {τ : Type} {view : Env ω → τ} {ctx : ServerContext ω}

/-- A query line leaves alone what its two handlers leave alone. -/
theorem dispatchQuery_preserves (line : Str)
    (hquery : ∀ h ∈ ctx.query, ∀ q, Exec.Preserves view (Env.write (h.handle q)))
    (hreferral : ∀ p ∈ ctx.referral, ∀ q, Exec.Preserves view (Env.write (p.referrals q))) :
    Exec.Preserves view (dispatchQuery ctx line) := by
  have hrefs : ∀ q, Exec.Preserves view (appendReferrals ctx q) := by
    intro q
    unfold appendReferrals
    split
    · exact hreferral _ (by assumption) q
    · exact .pure _
  unfold dispatchQuery
  split
  · exact .throw _
  · rename_i handler hctx
    exact .bind (.ofOutcome _) fun q => .bind (hquery handler hctx q) fun _ =>
      .bind (hrefs q) fun _ => .pure _

end Handlers

theorem dispatchQuery_neutral (ctx : ServerContext ω) (line : Str) :
    SessionNeutral (dispatchQuery ctx line) :=
  dispatchQuery_preserves line (fun _ _ _ => SessionNeutral.write _)
    (fun _ _ _ => SessionNeutral.write _)

theorem dispatchSpool_neutral (ctx : ServerContext ω) (line : Str) :
    SessionNeutral (dispatchSpool ctx line) := by
  unfold dispatchSpool
  split
  · exact .bind (SessionNeutral.ask _) fun _ => .pure _
  · exact .throw _

/-- A directive line with the built-in registry. -/
theorem dispatchDirective_eq {ctx : ServerContext ω} (hdir : ctx.directives = .withBuiltins)
    (name args : Str) :
    dispatchDirective ctx name args =
      match Builtin.ofName name with
      | some b => b.run ctx args >>= fun outcome => pure (.ofDirective outcome)
      | none => Exec.throw (.protocol .DIRECTIVE_NOT_AVAILABLE name) := by
  unfold dispatchDirective
  rw [hdir, Registry.get_withBuiltins]
  cases Builtin.ofName name <;> rfl

theorem dispatch_effect {ctx : ServerContext ω} (hdir : ctx.directives = .withBuiltins)
    (hauth : ctx.auth = none) (req : Request) :
    SessionEffect (fun s => req.effect s) (dispatch ctx req) := by
  cases req with
  | empty => exact .neutral (.pure _) fun _ => rfl
  | query line => exact .neutral (dispatchQuery_neutral ctx line) fun _ => rfl
  | spool line => exact .neutral (dispatchSpool_neutral ctx line) fun _ => rfl
  | directive name args =>
      rw [dispatch, dispatchDirective_eq hdir]
      simp only [Request.effect]
      cases Builtin.ofName name with
      | none => exact .throw _
      | some b => exact (Builtin.run_session ctx args fun _ => hauth).bind_pure _

end Server

/-! ## The invariant -/

/-- A non-empty text without whitespace. -/
def IsToken (s : Str) : Prop := s ≠ [] ∧ ∀ c ∈ s, isWhitespace c = false

/-- State, registration fields and display of a session fit together. -/
structure Session.Valid (ctx : ServerContext ω) (s : Session) : Prop where
  spool : s.state = .spool ↔ s.registerAction.isSome ∧ s.registerEmail.isSome
  query : s.state = .query ↔ s.registerAction = none ∧ s.registerEmail = none
  action : ∀ a ∈ s.registerAction, IsToken a
  email : ∀ e ∈ s.registerEmail, IsToken e
  handler : s.state = .spool → ctx.register.isSome
  display : s.display = "dump".toList

/-- The fields the invariant is about are left alone. -/
def Session.SameRegistration (s s' : Session) : Prop :=
  s'.state = s.state ∧ s'.display = s.display ∧ s'.registerAction = s.registerAction ∧
    s'.registerEmail = s.registerEmail

/-- An auth handler that does not touch state, display and registration
fields. -/
def AuthHandler.KeepsRegistration (h : AuthHandler ω) : Prop :=
  ∀ args (lent : Session × ResponseWriter × ω),
    lent.1.SameRegistration (h.authenticate args lent).2.1

namespace Session.Valid

variable {ctx : ServerContext ω} {s s' : Session}

theorem start (peer : SocketAddr) (timeout : Nat) :
    Valid ctx { Session.new peer with idleTimeout := timeout } where
  spool := by simp [Session.new]
  query := by simp [Session.new]
  action := by simp [Session.new]
  email := by simp [Session.new]
  handler := by simp [Session.new]
  display := rfl

/-- Only four fields matter. -/
theorem congr (h : Valid ctx s) (hsame : s.SameRegistration s') : Valid ctx s' := by
  obtain ⟨hstate, hdisplay, haction, hemail⟩ := hsame
  constructor
  · rw [hstate, haction, hemail]
    exact h.spool
  · rw [hstate, haction, hemail]
    exact h.query
  · rw [haction]
    exact h.action
  · rw [hemail]
    exact h.email
  · rw [hstate]
    exact h.handler
  · rw [hdisplay]
    exact h.display

theorem registering (h : Valid ctx s) (hreg : ctx.register.isSome) {action email : Str}
    (ha : IsToken action) (he : IsToken email) :
    Valid ctx { s with
      state := .spool, registerAction := some action, registerEmail := some email } where
  spool := by simp
  query := by simp
  action := by simpa using ha
  email := by simpa using he
  handler := fun _ => hreg
  display := h.display

theorem registered (h : Valid ctx s) :
    Valid ctx { s with state := .query, registerAction := none, registerEmail := none } where
  spool := by simp
  query := by simp
  action := by simp
  email := by simp
  handler := by simp
  display := h.display

theorem isToken_of_mem_splitArgs {args w : Str} (h : w ∈ Builtin.splitArgs args) : IsToken w :=
  ⟨(Builtin.mem_splitArgs h).1, fun c hc => ((Builtin.mem_splitArgs h).2 c hc).2⟩

/-- Each directive that may succeed keeps the invariant. -/
theorem effect (h : Valid ctx s) (args : Str) {b : Builtin}
    (hreg : b = .register → ctx.register.isSome) : Valid ctx (b.effect args s) := by
  cases b with
  | display =>
      simp only [Builtin.effect]
      split
      · exact h
      · exact h.congr ⟨rfl, h.display.symm, rfl, rfl⟩
  | rwhois =>
      simp only [Builtin.effect]
      split
      · exact h
      · exact h.congr ⟨rfl, rfl, rfl, rfl⟩
  | register =>
      simp only [Builtin.effect]
      cases harg : Builtin.RegisterArg.parse args with
      | none => exact h
      | some arg =>
          cases arg with
          | on action email extra =>
              obtain ⟨ha, he⟩ := Builtin.RegisterArg.parse_on harg
              exact h.registering (hreg rfl) (isToken_of_mem_splitArgs ha)
                (isToken_of_mem_splitArgs he)
          | off => exact h.registered
  | _ => exact h.congr ⟨rfl, rfl, rfl, rfl⟩

end Session.Valid

namespace Server

variable {ctx : ServerContext ω}

theorem run_valid (hauth : ∀ h ∈ ctx.auth, h.KeepsRegistration) (b : Builtin) (args : Str)
    (env : Env ω) (h : env.session.Valid ctx) :
    ((b.run ctx args).run env).2.session.Valid ctx := by
  by_cases hsec : b = .security
  · subst hsec
    show ((Builtin.Security.run ctx args).run env).2.session.Valid ctx
    cases hctx : ctx.auth with
    | none =>
        simp only [Builtin.Security.run, hctx]
        exact h
    | some handler =>
        rw [Builtin.Security.run_some hctx]
        exact h.congr (hauth handler hctx args (env.session, env.out, env.world))
  · by_cases hreg : b = .register ∧ ctx.register = none
    · obtain ⟨rfl, hnone⟩ := hreg
      show ((Builtin.Register.run ctx args).run env).2.session.Valid ctx
      rw [Builtin.Register.run_none hnone]
      exact h
    · have heffect := Builtin.run_session ctx args (b := b) fun hb => (hsec hb).elim
      rcases heffect.session_cases env with hsame | hset
      · rw [hsame]
        exact h
      · rw [hset]
        refine h.effect args fun hb => ?_
        rw [← Option.ne_none_iff_isSome]
        exact fun hnone => hreg ⟨hb, hnone⟩

theorem dispatch_valid (hdir : ctx.directives = .withBuiltins)
    (hauth : ∀ h ∈ ctx.auth, h.KeepsRegistration) (req : Request) (env : Env ω)
    (h : env.session.Valid ctx) : ((dispatch ctx req).run env).2.session.Valid ctx := by
  cases req with
  | empty => exact h
  | query line =>
      rw [dispatch, dispatchQuery_neutral ctx line env]
      exact h
  | spool line =>
      rw [dispatch, dispatchSpool_neutral ctx line env]
      exact h
  | directive name args =>
      rw [dispatch, dispatchDirective_eq hdir]
      cases Builtin.ofName name with
      | none => exact h
      | some b =>
          simp only [Exec.run_bind_pure]
          exact run_valid hauth b args env h

theorem round_valid (hdir : ctx.directives = .withBuiltins)
    (hauth : ∀ h ∈ ctx.auth, h.KeepsRegistration) {r : Round (Env ω) Str Reply}
    (hdoes : (connection ctx).Does r) (h : r.before.session.Valid ctx) :
    r.after.session.Valid ctx := by
  obtain ⟨outcome, env', hrun, hafter, -⟩ := does_connection hdoes
  have hvalid := dispatch_valid hdir hauth (Request.read r.input r.before.session.isSpooling)
    { r.before with out := .new } h
  rw [hrun] at hvalid
  rw [hafter]
  exact hvalid

/-- **The session invariant**, in every state a connection reaches: spool
state and registration fields go together, the fields are words, and a
spool line always finds its handler. -/
theorem session_valid (ctx : ServerContext ω) (hdir : ctx.directives = .withBuiltins)
    (hauth : ∀ h ∈ ctx.auth, h.KeepsRegistration) (peer : SocketAddr) (world : ω)
    (lines : List Str) :
    ∀ env ∈ (connection ctx).visited (start ctx peer world) lines,
      env.session.Valid ctx ∧
        ∀ line text, Request.read line env.session.isSpooling = .spool text →
          ctx.register.isSome := by
  intro env henv
  have hvalid : env.session.Valid ctx :=
    Loop.visited_of_keeps (P := fun env => env.session.Valid ctx)
      (fun _ _ hdoes h => round_valid hdir hauth hdoes h) (.start peer ctx.idleTimeout) env henv
  refine ⟨hvalid, fun line text hread => hvalid.handler ?_⟩
  have hspool := (Request.read_spool hread).1
  simpa [Session.isSpooling] using hspool

/-- A registration that is begun, fed one line and finished, with an auth
handler that changes the limit in between. -/
theorem session_valid_registration :
    let auth : AuthHandler Unit := ⟨fun _ lent => (.ok (), { lent.1 with hitLimit := 7 }, lent.2)⟩
    let ctx : ServerContext Unit :=
      { ServerContext.new with register := some .accepting, auth := some auth }
    let lines := ["-register on add a@b".toList, "-security x".toList, "x".toList,
      "-register off".toList]
    let visited := (connection ctx).visited (start ctx ⟨[], 0⟩ ()) lines
    visited.map (fun env => (env.session.state, env.session.hitLimit)) =
        [(.query, 0), (.spool, 0), (.spool, 7), (.spool, 7), (.query, 7)] ∧
      ∀ env ∈ visited, env.session.Valid ctx ∧
        ∀ line text, Request.read line env.session.isSpooling = .spool text →
          ctx.register.isSome := by
  intro auth ctx lines visited
  have hauth : ∀ h ∈ ctx.auth, h.KeepsRegistration := by
    rintro h ⟨⟩ args lent
    exact ⟨rfl, rfl, rfl, rfl⟩
  exact ⟨by decide, session_valid ctx rfl hauth _ _ _⟩

end Server

end Rwhois
