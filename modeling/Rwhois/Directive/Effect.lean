import Rwhois.Directive.Builtin
import Rwhois.RustStd.Lines

/-!
# Directive — Effect

What a built-in directive does to the SESSION, without its handlers and
its output. `Builtin.effect` is the session a directive leaves behind when
it succeeds; when it fails it leaves the session as it was
(`Builtin.run_session`). Only `-security` is outside of this: its handler
is lent the session.
-/

namespace Rwhois

open RustStd

variable {ω : Type} {α : Type}

/-! ## Bodies that only write -/

section Writes

variable {τ : Type} {view : Env ω → τ}

/-- The view shows nothing of the response. -/
def IgnoresOut (view : Env ω → τ) : Prop := ∀ env out, view { env with out := out } = view env

theorem IgnoresOut.session : IgnoresOut (Env.session : Env ω → Session) := fun _ _ => rfl

theorem IgnoresOut.emit (h : IgnoresOut view) (f : ResponseWriter → ResponseWriter) :
    Exec.Preserves view (Env.emit f : Exec (Env ω) Error Unit) :=
  .modify fun env => h env _

namespace Builtin

theorem Status.preserves (h : IgnoresOut view) :
    Exec.Preserves view (Status.run : Exec (Env ω) Error DirectiveOutcome) :=
  .bind .get fun _ => .bind (h.emit _) fun _ => .bind (h.emit _) fun _ => .bind (h.emit _) fun _ =>
    .bind (h.emit _) fun _ => .bind (h.emit _) fun _ => .bind (h.emit _) fun _ => .pure _

theorem DirectiveList.entry_preserves (h : IgnoresOut view) (ctx : ServerContext ω) (name : Str) :
    Exec.Preserves view (DirectiveList.entry ctx name) := by
  unfold DirectiveList.entry
  split
  · refine .bind (h.emit _) fun _ => ?_
    split
    · exact .pure ()
    · exact h.emit _
  · exact .pure ()

theorem DirectiveList.preserves (h : IgnoresOut view) (ctx : ServerContext ω) :
    Exec.Preserves view (DirectiveList.run ctx) :=
  .bind (.forM (DirectiveList.entry_preserves h ctx)) fun _ => .bind (h.emit _) fun _ => .pure _

theorem provided_preserves (h : IgnoresOut view) (name : Str) (tag : Tag)
    {provider : Option (HandlerFuture (ResponseWriter × ω))}
    (hprovider : ∀ list ∈ provider, Exec.Preserves view (Env.write list)) :
    Exec.Preserves view (provided name tag provider) := by
  cases provider with
  | none => exact .throw _
  | some list => exact .bind (hprovider list rfl) fun _ => .bind (h.emit _) fun _ => .pure _

end Builtin

end Writes

/-! ## What a call does to the session -/

/-- However the call ends, the session is as before. -/
abbrev SessionNeutral (x : Exec (Env ω) Error α) : Prop := Exec.Preserves Env.session x

theorem SessionNeutral.write (f : HandlerFuture (ResponseWriter × ω)) :
    SessionNeutral (Env.write f) := fun _ => rfl

theorem SessionNeutral.ask (f : HandlerFuture ω) : SessionNeutral (Env.ask f) := fun _ => rfl

/-- The session is changed by `f` if the call succeeds and left as it was
if it fails. -/
def SessionEffect (f : Session → Session) (x : Exec (Env ω) Error α) : Prop :=
  ∀ env, (x.run env).2.session =
    match (x.run env).1 with
    | .ok _ => f env.session
    | _ => env.session

namespace SessionEffect

variable {f : Session → Session}

theorem throw (e : Error) : SessionEffect f (Exec.throw e : Exec (Env ω) Error α) :=
  fun _ => rfl

theorem set (a : α) :
    SessionEffect f (Env.setSession f >>= fun _ => (Pure.pure a : Exec (Env ω) Error α)) :=
  fun _ => rfl

theorem neutral {x : Exec (Env ω) Error α} (h : SessionNeutral x) (hf : ∀ s, f s = s) :
    SessionEffect f x := by
  intro env
  rw [h env, hf]
  split <;> rfl

/-- A call that does not touch the session, before the one that does. -/
theorem after {β : Type} {x : Exec (Env ω) Error α} {y : α → Exec (Env ω) Error β}
    (hx : SessionNeutral x) (hy : ∀ a, SessionEffect f (y a)) : SessionEffect f (x >>= y) := by
  intro env
  have hses := hx env
  rw [Exec.run_bind]
  rcases hrun : x.run env with ⟨o, env'⟩
  rw [hrun] at hses
  cases o with
  | ok a =>
      have h := hy a env'
      rw [hses] at h
      exact h
  | err e => exact hses
  | panic => exact hses
  | diverge => exact hses

theorem bind_pure {β : Type} {x : Exec (Env ω) Error α} (h : SessionEffect f x) (g : α → β) :
    SessionEffect f (x >>= fun a => Pure.pure (g a)) := by
  intro env
  have hx := h env
  rw [Exec.run_bind_pure]
  generalize x.run env = result at hx ⊢
  rcases result with ⟨_ | _ | _ | _, env'⟩ <;> exact hx

/-- The session behind the call is the one before or the changed one. -/
theorem session_cases {x : Exec (Env ω) Error α} (h : SessionEffect f x) (env : Env ω) :
    (x.run env).2.session = env.session ∨ (x.run env).2.session = f env.session := by
  rw [h env]
  cases (x.run env).1 with
  | ok a => exact .inr rfl
  | err e => exact .inl rfl
  | panic => exact .inl rfl
  | diverge => exact .inl rfl

end SessionEffect

namespace Builtin

/-! ## Arguments -/

/-- The value a switch is set to. -/
def switchArg (args : Str) : Option Bool :=
  let other := toAsciiLowercase (trim args)
  if other = [] ∨ other = "on".toList then some true
  else if other = "off".toList then some false
  else none

/-- What `-register` is asked for. -/
inductive RegisterArg where
  | on (action email extra : Str)
  | off
  deriving Repr, DecidableEq

def RegisterArg.parse (args : Str) : Option RegisterArg :=
  match splitArgs args with
  | [] => none
  | mode :: rest =>
      if toAsciiLowercase mode = "on".toList then
        match rest with
        | action :: email :: more => some (.on action email (List.intercalate [' '] more))
        | _ => none
      else if toAsciiLowercase mode = "off".toList then some .off
      else none

theorem mem_splitArgs {args w : Str} (h : w ∈ splitArgs args) :
    w ≠ [] ∧ ∀ c ∈ w, c ∈ args ∧ isWhitespace c = false :=
  mem_splitWhitespace h

/-- Action and email are words of the line. -/
theorem RegisterArg.parse_on {args action email extra : Str}
    (h : RegisterArg.parse args = some (.on action email extra)) :
    action ∈ splitArgs args ∧ email ∈ splitArgs args := by
  unfold RegisterArg.parse at h
  split at h
  · cases h
  · rename_i mode rest hparts
    split at h
    · split at h
      · cases h
        rw [hparts]
        exact ⟨by simp, by simp⟩
      · cases h
    · split at h <;> cases h

/-- The session a directive leaves behind when it succeeds. -/
def effect (args : Str) (s : Session) : Builtin → Session
  | .holdConnect => { s with holdConnect := (switchArg args).getD s.holdConnect }
  | .limit => { s with hitLimit := (parseUsize (trim args)).getD s.hitLimit }
  | .forward => { s with forward := (switchArg args).getD s.forward }
  | .display => if trim args = [] then s else { s with display := "dump".toList }
  | .rwhois => if trim args = [] then s else { s with clientVendorId := some (trim args) }
  | .register =>
      match RegisterArg.parse args with
      | some (.on action email _) =>
          { s with state := .spool, registerAction := some action, registerEmail := some email }
      | some .off => { s with state := .query, registerAction := none, registerEmail := none }
      | none => s
  | _ => s

/-- Each setting belongs to one directive. -/
theorem effect_other (args : Str) (s : Session) (b : Builtin) :
    (b ≠ .holdConnect → (b.effect args s).holdConnect = s.holdConnect) ∧
      (b ≠ .forward → (b.effect args s).forward = s.forward) ∧
      (b ≠ .limit → (b.effect args s).hitLimit = s.hitLimit) ∧
      (b ≠ .rwhois → (b.effect args s).clientVendorId = s.clientVendorId) := by
  cases b with
  | display =>
      simp only [effect]
      split <;> simp
  | rwhois =>
      simp only [effect]
      split <;> simp
  | register =>
      simp only [effect]
      split <;> simp
  | _ => simp [effect]

theorem effect_state (args : Str) (s : Session) {b : Builtin} (hb : b ≠ .register) :
    (b.effect args s).state = s.state := by
  cases b with
  | register => exact (hb rfl).elim
  | display =>
      simp only [effect]
      split <;> rfl
  | rwhois =>
      simp only [effect]
      split <;> rfl
  | _ => rfl

/-! ## `-register` by its argument -/

theorem Register.run_none {ctx : ServerContext ω} (hctx : ctx.register = none) (args : Str) :
    Register.run ctx args =
      Exec.throw (.protocol .REGISTRATION_NOT_AUTHORIZED "register".toList) := by
  simp only [Register.run, hctx]

/-- The body of a well-formed `-register on`. -/
theorem Register.run_on {ctx : ServerContext ω} {h : RegisterHandler ω}
    (hctx : ctx.register = some h) {args action email extra : Str}
    (harg : RegisterArg.parse args = some (.on action email extra)) :
    Register.run ctx args = (do
      Env.ask (h.begin action email extra)
      Env.setSession fun s =>
        { s with state := .spool, registerAction := some action, registerEmail := some email }
      pure .ok) := by
  obtain ⟨ha, he⟩ := RegisterArg.parse_on harg
  have hne : ¬ (action = [] ∨ email = []) := by
    rintro (rfl | rfl)
    · exact (mem_splitArgs ha).1 rfl
    · exact (mem_splitArgs he).1 rfl
  unfold RegisterArg.parse at harg
  split at harg
  · cases harg
  · rename_i mode rest hparts
    split at harg
    · rename_i hmode
      split at harg
      · rename_i more
        cases harg
        have hextra : (if (mode :: action :: email :: more).length > 3
            then List.intercalate [' '] ((mode :: action :: email :: more).drop 3) else []) =
              List.intercalate [' '] more := by
          cases more <;> simp [List.intercalate]
        simp only [Register.run, hctx, hparts, List.head?_cons, Option.map_some, hmode, if_true,
          Register.on, hextra]
        exact if_neg hne
      · cases harg
    · split at harg <;> cases harg

theorem Register.run_off {ctx : ServerContext ω} {h : RegisterHandler ω}
    (hctx : ctx.register = some h) {args : Str} (harg : RegisterArg.parse args = some .off) :
    Register.run ctx args = Register.off h := by
  unfold RegisterArg.parse at harg
  split at harg
  · cases harg
  · rename_i mode rest hparts
    split at harg
    · split at harg <;> cases harg
    · rename_i hon
      split at harg
      · rename_i hoff
        have hne : ¬ "off".toList = "on".toList := by decide
        simp only [Register.run, hctx, hparts, List.head?_cons, Option.map_some, hoff,
          Option.some.injEq, if_neg hne, if_true]
      · cases harg

/-- Any other argument is refused before the handler is called. -/
theorem Register.run_malformed {ctx : ServerContext ω} {h : RegisterHandler ω}
    (hctx : ctx.register = some h) {args : Str} (harg : RegisterArg.parse args = none) :
    ∃ message, IsLine message ∧
      Register.run ctx args = Exec.throw (.protocol .INVALID_DIRECTIVE_SYNTAX message) := by
  have hshort : IsLine "register on requires <action> <email>".toList := by decide
  have hmode : IsLine "register on|off".toList := by decide
  unfold RegisterArg.parse at harg
  split at harg
  · rename_i hparts
    exact ⟨_, hmode, by simp [Register.run, hctx, hparts]⟩
  · rename_i mode rest hparts
    split at harg
    · rename_i hon
      split at harg
      · cases harg
      · rename_i hrest
        refine ⟨_, hshort, ?_⟩
        simp only [Register.run, hctx, hparts, List.head?_cons, Option.map_some, hon, if_true,
          Register.on]
        -- one of the two words is missing
        refine if_pos ?_
        match rest, hrest with
        | [], _ => exact .inl rfl
        | [_], _ => exact .inr rfl
        | a :: e :: more, hrest => exact (hrest a e more rfl).elim
    · split at harg
      · cases harg
      · rename_i hon hoff
        refine ⟨_, hmode, ?_⟩
        simp only [Register.run, hctx, hparts, List.head?_cons, Option.map_some,
          Option.some.injEq, if_neg hon, if_neg hoff]

/-! ## `-security` -/

/-- Whether it succeeds or not, the handler's changes stay. -/
theorem Security.run_some {ctx : ServerContext ω} {h : AuthHandler ω} (hctx : ctx.auth = some h)
    (args : Str) (env : Env ω) :
    ((Security.run ctx args).run env).2 =
      { session := (h.authenticate args (env.session, env.out, env.world)).2.1
        out := (h.authenticate args (env.session, env.out, env.world)).2.2.1
        world := (h.authenticate args (env.session, env.out, env.world)).2.2.2 } := by
  simp only [Security.run, hctx, Exec.run_bind, Env.lend, Exec.callOn]
  cases (h.authenticate args (env.session, env.out, env.world)).1 <;> rfl

/-! ## Every directive -/

theorem switch_effect (name args : Str) (set : Bool → Session → Session) :
    SessionEffect (fun s => match switchArg args with
      | some on => set on s
      | none => s) (switch name set args : Exec (Env ω) Error DirectiveOutcome) := by
  unfold switch switchArg
  simp only
  generalize toAsciiLowercase (trim args) = other
  by_cases hon : other = [] ∨ other = "on".toList
  · simp only [if_pos hon]
    exact .set _
  · by_cases hoff : other = "off".toList
    · simp only [if_neg hon, if_pos hoff]
      exact .set _
    · simp only [if_neg hon, if_neg hoff]
      exact .throw _

theorem Register.effect (ctx : ServerContext ω) (args : Str) :
    SessionEffect (fun s => Builtin.effect args s .register) (Register.run ctx args) := by
  cases hctx : ctx.register with
  | none =>
      rw [Register.run_none hctx]
      exact .throw _
  | some h =>
      unfold Builtin.effect
      cases harg : RegisterArg.parse args with
      | none =>
          obtain ⟨message, -, hrun⟩ := Register.run_malformed hctx harg
          rw [hrun]
          exact .throw _
      | some arg =>
          cases arg with
          | on action email extra =>
              rw [Register.run_on hctx harg]
              exact .after (SessionNeutral.ask _) fun _ => .set _
          | off =>
              rw [Register.run_off hctx harg]
              exact .after (SessionNeutral.write _) fun _ => .set _

/-- **The effect of a directive.** -/
theorem run_session (ctx : ServerContext ω) (args : Str) {b : Builtin}
    (hb : b = .security → ctx.auth = none) :
    SessionEffect (fun s => b.effect args s) (b.run ctx args) := by
  cases b with
  | holdConnect =>
      have h := switch_effect (ω := ω) "holdconnect".toList args
        fun on s => { s with holdConnect := on }
      intro env
      rw [run, HoldConnect.run, h env]
      unfold effect
      cases switchArg args <;> rfl
  | forward =>
      have h := switch_effect (ω := ω) "forward".toList args fun on s => { s with forward := on }
      intro env
      rw [run, Forward.run, h env]
      unfold effect
      cases switchArg args <;> rfl
  | limit =>
      unfold run Limit.run effect
      cases parseUsize (trim args) with
      | some n => exact .set _
      | none => exact .throw _
  | display =>
      unfold run Display.run effect
      simp only
      by_cases hname : trim args = []
      · simp only [if_pos hname]
        exact .neutral (.bind .get fun _ => .bind (IgnoresOut.session.emit _) fun _ =>
          .bind (IgnoresOut.session.emit _) fun _ => .pure _) fun _ => rfl
      · simp only [if_neg hname]
        split
        · exact .set _
        · exact .throw _
  | rwhois =>
      intro env
      rfl
  | register => exact Register.effect ctx args
  | security =>
      unfold run Security.run
      rw [hb rfl]
      exact .throw _
  | quit => exact .neutral (.pure _) fun _ => rfl
  | notify => exact .neutral (.pure _) fun _ => rfl
  | status => exact .neutral (Status.preserves .session) fun _ => rfl
  | directiveList => exact .neutral (DirectiveList.preserves .session ctx) fun _ => rfl
  | cls => exact .neutral (provided_preserves .session _ _ fun _ _ => SessionNeutral.write _) fun _ => rfl
  | schema => exact .neutral (provided_preserves .session _ _ fun _ _ => SessionNeutral.write _) fun _ => rfl
  | soa => exact .neutral (provided_preserves .session _ _ fun _ _ => SessionNeutral.write _) fun _ => rfl
  | xfer => exact .neutral (provided_preserves .session _ _ fun _ _ => SessionNeutral.write _) fun _ => rfl

/-! ## Coming back

Whatever the handlers do, a directive comes back: it slices no text. -/

theorem switch_returns (name args : Str) (set : Bool → Session → Session) :
    Exec.Returns (switch name set args : Exec (Env ω) Error DirectiveOutcome) := by
  unfold switch
  simp only
  split
  · exact (Exec.Returns.modify _).bind fun _ => .pure _
  · split
    · exact (Exec.Returns.modify _).bind fun _ => .pure _
    · exact Exec.Returns.throw _

theorem provided_returns (name : Str) (tag : Tag)
    (provider : Option (HandlerFuture (ResponseWriter × ω))) :
    Exec.Returns (provided name tag provider) := by
  cases provider with
  | none => exact Exec.Returns.throw _
  | some list =>
      exact (Exec.Returns.callOn _ _ _).bind fun _ => (Exec.Returns.modify _).bind fun _ => .pure _

theorem DirectiveList.returns (ctx : ServerContext ω) : Exec.Returns (DirectiveList.run ctx) := by
  refine Exec.Keeps.bind (.forM fun name _ => ?_) fun _ =>
    (Exec.Returns.modify _).bind fun _ => .pure _
  unfold DirectiveList.entry
  split
  · refine (Exec.Returns.modify _).bind fun _ => ?_
    split
    · exact .pure ()
    · exact Exec.Returns.modify _
  · exact .pure ()

theorem Register.returns (ctx : ServerContext ω) (args : Str) :
    Exec.Returns (Register.run ctx args) := by
  unfold Register.run
  simp only
  split
  · exact Exec.Returns.throw _
  · split
    · unfold Register.on
      simp only
      split
      · exact Exec.Returns.throw _
      · exact (Exec.Returns.callOn _ _ _).bind fun _ => (Exec.Returns.modify _).bind fun _ => .pure _
    · split
      · exact (Exec.Returns.callOn _ _ _).bind fun _ => (Exec.Returns.modify _).bind fun _ => .pure _
      · exact Exec.Returns.throw _

theorem run_returns (ctx : ServerContext ω) (args : Str) (b : Builtin) :
    Exec.Returns (b.run ctx args) := by
  cases b with
  | quit => exact .pure _
  | notify => exact .pure _
  | holdConnect => exact switch_returns _ _ _
  | forward => exact switch_returns _ _ _
  | limit =>
      simp only [run, Limit.run]
      split
      · exact (Exec.Returns.modify _).bind fun _ => .pure _
      · exact Exec.Returns.throw _
  | display =>
      simp only [run, Display.run]
      split
      · exact .get_bind fun _ _ => (Exec.Returns.modify _).bind fun _ =>
          (Exec.Returns.modify _).bind fun _ => .pure _
      · split
        · exact (Exec.Returns.modify _).bind fun _ => .pure _
        · exact Exec.Returns.throw _
  | status =>
      intro env _
      exact ⟨trivial, trivial⟩
  | rwhois =>
      intro env _
      exact ⟨trivial, trivial⟩
  | directiveList => exact DirectiveList.returns ctx
  | cls => exact provided_returns _ _ _
  | schema => exact provided_returns _ _ _
  | soa => exact provided_returns _ _ _
  | xfer => exact provided_returns _ _ _
  | register => exact Register.returns ctx args
  | security =>
      simp only [run, Security.run]
      split
      · exact Exec.Returns.throw _
      · exact (Exec.Returns.callOn _ _ _).bind fun _ => .pure _

/-! ## Outcomes -/

theorem switch_yields (name args : Str) (set : Bool → Session → Session) :
    Exec.Yields .ok (switch name set args : Exec (Env ω) Error DirectiveOutcome) := by
  unfold switch
  simp only
  split
  · exact .bind fun _ => .pure _
  · split
    · exact .bind fun _ => .pure _
    · exact .throw _ _

theorem provided_yields (name : Str) (tag : Tag)
    (provider : Option (HandlerFuture (ResponseWriter × ω))) :
    Exec.Yields .ok (provided name tag provider) := by
  cases provider with
  | none => exact .throw _ _
  | some list => exact .bind fun _ => .bind fun _ => .pure _

theorem Register.yields (ctx : ServerContext ω) (args : Str) :
    Exec.Yields .ok (Register.run ctx args) := by
  unfold Register.run
  simp only
  split
  · exact .throw _ _
  · split
    · unfold Register.on
      simp only
      split
      · exact .throw _ _
      · exact .bind fun _ => .bind fun _ => .pure _
    · split
      · exact .bind fun _ => .bind fun _ => .pure _
      · exact .throw _ _

/-- No built-in directive prints its own terminator, and only `-quit`
closes the session. -/
def outcome : Builtin → DirectiveOutcome
  | .quit => .quit
  | _ => .ok

theorem run_yields (ctx : ServerContext ω) (args : Str) (b : Builtin) :
    Exec.Yields b.outcome (b.run ctx args) := by
  cases b with
  | quit => exact .pure _
  | holdConnect => exact switch_yields _ _ _
  | forward => exact switch_yields _ _ _
  | limit =>
      simp only [run, Limit.run]
      split
      · exact .bind fun _ => .pure _
      · exact .throw _ _
  | display =>
      simp only [run, Display.run]
      split
      · exact .bind fun _ => .bind fun _ => .bind fun _ => .pure _
      · split
        · exact .bind fun _ => .pure _
        · exact .throw _ _
  | status =>
      exact .bind fun _ => .bind fun _ => .bind fun _ => .bind fun _ => .bind fun _ =>
        .bind fun _ => .bind fun _ => .pure _
  | rwhois => exact .bind fun _ => .bind fun _ => .pure _
  | directiveList => exact .bind fun _ => .bind fun _ => .pure _
  | cls => exact provided_yields _ _ _
  | schema => exact provided_yields _ _ _
  | soa => exact provided_yields _ _ _
  | xfer => exact provided_yields _ _ _
  | register => exact Register.yields ctx args
  | security =>
      simp only [run, Security.run]
      split
      · exact .throw _ _
      · exact .bind fun _ => .pure _
  | notify => exact .pure _

end Builtin

theorem Directive.run_returns (d : Directive ω) (ctx : ServerContext ω) (args : Str) :
    Exec.Returns (d.run ctx args) := by
  unfold Directive.run
  split
  · exact Builtin.run_returns ctx args _
  · exact Exec.Returns.callOn _ _ _

end Rwhois
