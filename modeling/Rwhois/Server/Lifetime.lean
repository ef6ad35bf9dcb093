import Rwhois.Server.Framing
import Rwhois.Server.Settings

/-!
# Server — Lifetime

When a connection is closed. The loop looks at three things behind every
line: whether it was a query, the hold-connect switch and the state of the
session. Here the last two are read off the HISTORY instead, as the last
successful `-holdconnect` and `-register` before the line, so that a
client can tell from what it sent and what it was answered which line will
be the last one.
-/

namespace Rwhois

open RustStd

variable {ω : Type}

/-! ## Closing lines -/

/-- The name of a directive line, in lower case. -/
def directiveName (line : Str) : Option Str :=
  match Request.read line false with
  | .directive name _ => some name
  | _ => none

/-- The state a `-register` leads to. -/
def registerArg (args : Str) : Option SessionState :=
  match Builtin.RegisterArg.parse args with
  | some (.on _ _ _) => some .spool
  | some .off => some .query
  | none => none

/-- The last successful `-register` opened a registration. -/
def RegistrationOpen (before : List (Round (Env ω) Str Reply)) : Prop :=
  lastSettled .register registerArg before = some .spool

/-- The last successful `-holdconnect` turned it on. -/
def HoldOn (before : List (Round (Env ω) Str Reply)) : Prop :=
  lastSettled .holdConnect Builtin.switchArg before = some true

instance (before : List (Round (Env ω) Str Reply)) : Decidable (RegistrationOpen before) :=
  inferInstanceAs (Decidable (_ = _))

instance (before : List (Round (Env ω) Str Reply)) : Decidable (HoldOn before) :=
  inferInstanceAs (Decidable (_ = _))

/-- `-quit`; or a line that is neither empty nor a directive, while no
registration is open and hold-connect is off. -/
def Closing (before : List (Round (Env ω) Str Reply)) (line : Str) : Prop :=
  directiveName line = some "quit".toList ∨
    line ≠ [] ∧ isDirective line = false ∧ ¬ RegistrationOpen before ∧ ¬ HoldOn before

instance (before : List (Round (Env ω) Str Reply)) (line : Str) : Decidable (Closing before line) :=
  inferInstanceAs (Decidable (_ ∨ _))

/-! ## The classifier by the text of a line -/

/-- A directive is one in both states of the session. -/
theorem directiveName_eq {line name args : Str} {spooling : Bool}
    (h : Request.read line spooling = .directive name args) : directiveName line = some name := by
  unfold Request.read at h
  repeat' split at h
  all_goals cases h
  rename_i hne hdir
  simp only [directiveName, Request.read, if_neg hne, if_pos hdir]

theorem directiveName_eq_none {line : Str} (h : line = [] ∨ isDirective line = false) :
    directiveName line = none := by
  unfold directiveName Request.read
  rcases h with rfl | h
  · rfl
  · simp only [h, Bool.false_eq_true, if_false]
    by_cases hne : line = [] <;> simp [hne]

theorem read_cases (line : Str) (spooling : Bool) :
    match Request.read line spooling with
    | .empty => line = []
    | .directive _ _ => isDirective line = true
    | .spool _ => spooling = true ∧ line ≠ [] ∧ isDirective line = false
    | .query _ => spooling = false ∧ line ≠ [] ∧ isDirective line = false := by
  unfold Request.read
  by_cases hnil : line = []
  · rw [if_pos hnil]
    exact hnil
  rw [if_neg hnil]
  by_cases hdir : isDirective line = true
  · rw [if_pos hdir]
    exact hdir
  rw [if_neg hdir]
  have hdir : isDirective line = false := by simpa using hdir
  cases spooling with
  | true => exact ⟨rfl, hnil, hdir⟩
  | false => exact ⟨rfl, hnil, hdir⟩

namespace Server

variable {ctx : ServerContext ω}

/-! ## One round -/

section Round

variable (hdir : ctx.directives = .withBuiltins) (hauth : ctx.auth = none)
  {r : Round (Env ω) Str Reply} (hdoes : (connection ctx).Does r)

include hdir hauth hdoes

/-- The state of the session is one more setting, that of `-register`. -/
theorem round_state : r.after.session.state =
    (settled .register registerArg r).getD r.before.session.state := by
  refine round_setting hdir hauth Session.state ?_ (fun b' args s => b'.effect_state args s) hdoes
  intro args s
  simp only [Builtin.effect, registerArg]
  cases Builtin.RegisterArg.parse args with
  | none => rfl
  | some arg => cases arg <;> rfl

end Round

/-- What does not come back `Quit` does not close the session. -/
theorem isQuit_of_yields {x : Exec (Env ω) Error Outcome} {o : Outcome} (hx : Exec.Yields o x)
    (ho : o ≠ .quit) {env env' : Env ω} {outcome : Except Error Outcome}
    (hrun : x.run env = (.ofExcept outcome, env')) : Reply.isQuit outcome = false := by
  cases outcome with
  | error e => rfl
  | ok o' =>
      obtain rfl := hx env o' (by rw [hrun]; rfl)
      cases o' with
      | quit => exact absurd rfl ho
      | _ => rfl

theorem dispatchSpool_yields (line : Str) : Exec.Yields .silent (dispatchSpool ctx line) := by
  unfold dispatchSpool
  split
  · exact .bind fun _ => .pure _
  · exact .throw _ _

/-- A directive closes the session if and only if it is `-quit`. -/
theorem isQuit_dispatchDirective (hdir : ctx.directives = .withBuiltins) {name args : Str}
    {outcome : Except Error Outcome} {env env' : Env ω}
    (hrun : (dispatchDirective ctx name args).run env = (.ofExcept outcome, env')) :
    Reply.isQuit outcome = true ↔ name = "quit".toList := by
  rw [dispatchDirective_eq hdir] at hrun
  by_cases hname : name = "quit".toList
  · have hquit : Builtin.ofName name = some .quit := by
      rw [hname]
      exact Builtin.ofName_name .quit
    rw [hquit] at hrun
    obtain rfl : .ok .quit = outcome :=
      RustStd.Outcome.ofExcept_injective (congrArg Prod.fst hrun)
    simpa [Reply.isQuit] using hname
  · have hopen : Reply.isQuit outcome = false := by
      cases hb : Builtin.ofName name with
      | none =>
          rw [hb] at hrun
          exact isQuit_of_yields (o := .ok) (.throw _ _) (by simp) hrun
      | some b =>
          rw [hb] at hrun
          refine isQuit_of_yields ((Builtin.run_yields ctx args b).map _) ?_ hrun
          have hne : b ≠ .quit := by
            rintro rfl
            exact hname (Builtin.name_of_ofName hb).symm
          cases b with
          | quit => exact absurd rfl hne
          | _ => simp [Builtin.outcome, Outcome.ofDirective]
    rw [hopen]
    simpa using hname

/-- **Which round closes the connection**, by the session before it. -/
theorem round_closes_iff (hdir : ctx.directives = .withBuiltins) {r : Round (Env ω) Str Reply}
    (hdoes : (connection ctx).Does r) :
    r.result.closes = true ↔ directiveName r.input = some "quit".toList ∨
      r.input ≠ [] ∧ isDirective r.input = false ∧ r.before.session.state ≠ .spool ∧
        r.before.session.holdConnect = false := by
  obtain ⟨outcome, env', hrun, -, hresult⟩ := does_connection hdoes
  have hcases := read_cases r.input r.before.session.isSpooling
  rw [hresult]
  cases hreq : Request.read r.input r.before.session.isSpooling with
  | empty =>
      rw [hreq] at hrun hcases
      have hnil : r.input = [] := hcases
      have hname : directiveName [] = none := rfl
      have hopen := isQuit_of_yields (.pure _) (by simp) hrun
      simp [Reply.of, Request.isQuery, hopen, hnil, hname]
  | spool line =>
      rw [hreq] at hrun hcases
      obtain ⟨hspooling, -, hno⟩ := hcases
      have hstate : r.before.session.state = .spool := by
        simpa [Session.isSpooling] using hspooling
      have hopen := isQuit_of_yields (dispatchSpool_yields line) (by simp) hrun
      simp [Reply.of, Request.isQuery, hopen, directiveName_eq_none (.inr hno), hstate]
  | query line =>
      rw [hreq] at hrun hcases
      obtain ⟨hspooling, hne, hno⟩ := hcases
      have hopen := isQuit_of_yields dispatchQuery_yields (by simp) hrun
      -- the test is made behind the query, which leaves the session alone
      have hsession : env'.session = r.before.session := by
        have hneutral := dispatchQuery_neutral ctx line { r.before with out := .new }
        rw [show (dispatchQuery ctx line).run _ = _ from hrun] at hneutral
        exact hneutral
      have hstate : r.before.session.state = .query := by
        cases hs : r.before.session.state with
        | query => rfl
        | spool => simp [Session.isSpooling, hs] at hspooling
      simp [Reply.of, Request.isQuery, hopen, directiveName_eq_none (.inr hno), hne, hno, hsession,
        hstate]
  | directive name args =>
      rw [hreq] at hrun hcases
      have hquit := isQuit_dispatchDirective hdir hrun
      simp [Reply.of, Request.isQuery, hquit, directiveName_eq hreq, hcases]

/-! ## Whole connections -/

/-- The session before a round, as its history tells it. -/
theorem session_of_history (hdir : ctx.directives = .withBuiltins) (hauth : ctx.auth = none)
    {peer : SocketAddr} {world : ω} {lines : List Str}
    {before after : List (Round (Env ω) Str Reply)} {r : Round (Env ω) Str Reply}
    (h : (connection ctx).rounds (start ctx peer world) lines = before ++ r :: after) :
    (r.before.session.state = .spool ↔ RegistrationOpen before) ∧
      (r.before.session.holdConnect = true ↔ HoldOn before) := by
  obtain ⟨hwait, hrounds, -⟩ := Loop.waiting_before h
  have hstate := Loop.last_of_waiting (fun env : Env ω => env.session.state)
    (fun _ hdoes => round_state hdir hauth hdoes) hwait
  have hhold := Loop.last_of_waiting (fun env : Env ω => env.session.holdConnect)
    (fun _ hdoes => round_holdConnect hdir hauth hdoes) hwait
  rw [hrounds] at hstate hhold
  rw [hstate, hhold]
  -- without an earlier request the defaults are `query` and off
  refine ⟨?_, ?_⟩
  · unfold RegistrationOpen lastSettled
    cases before.reverse.findSome? (settled .register registerArg) with
    | none => simp [start, Session.new]
    | some state => simp
  · unfold HoldOn lastSettled
    cases before.reverse.findSome? (settled .holdConnect Builtin.switchArg) with
    | none => simp [start, Session.new]
    | some on => simp

/-- **Connection lifetime.** A line is closing if and only if the loop is
left with it; the lines up to the first closing one, and no others, are
handled, or all of them if there is none; and nothing is sent behind the
reply to a closing line. -/
theorem connection_lifetime (ctx : ServerContext ω) (hdir : ctx.directives = .withBuiltins)
    (hauth : ctx.auth = none) (peer : SocketAddr) (world : ω) (inbound : Inbound)
    (hlines : ∀ line ∈ inbound.lines, RwhoisCodec.Decoded line) :
    let run := (connection ctx).run (start ctx peer world) inbound.lines
    let t := runConnection ctx peer world inbound
    (∀ before r after, run.1 = before ++ r :: after →
      (Closing before r.input ↔ after = [] ∧ run.2 = .returned r.after)) ∧
    ((∃ env, run.2 = .waiting env ∧ run.1.map Round.input = inbound.lines) ∨
      ∃ before r rest, run.1 = before ++ [r] ∧ run.2 = .returned r.after ∧
        Closing before r.input ∧ inbound.lines = before.map Round.input ++ r.input :: rest) ∧
    ∀ greeting, (RwhoisCodec.withMaxLine ctx.maxLine).encode (utf8 ctx.banner.toLine) [] =
        (.ok (), greeting) →
      t.rounds = run.1 ∧ ∀ env, run.2 = .returned env →
        t.afterBanner = run.1.flatMap (fun r => r.result.bytes) ∧ t.result = .ok () := by
  intro run t
  have hiff : ∀ before r after, run.1 = before ++ r :: after →
      (Closing before r.input ↔ after = [] ∧ run.2 = .returned r.after) := by
    intro before r after h
    have hdoes := (Loop.does_of_mem_rounds (r := r) (show r ∈ run.1 by rw [h]; simp)).1
    obtain ⟨hopen, hhold⟩ := session_of_history hdir hauth h
    refine Iff.trans ?_ (Loop.returns_iff h)
    show _ ↔ r.result.closes = true
    rw [round_closes_iff hdir hdoes, Closing, ← hopen, ← hhold, Bool.not_eq_true]
  have hstuck := exit_ne_stuck ctx hlines (start ctx peer world)
  refine ⟨hiff, ?_, ?_⟩
  · cases hexit : run.2 with
    | stuck => exact absurd hexit hstuck
    | waiting env => exact .inl ⟨env, rfl, (Loop.inputs_of_waiting hexit).1⟩
    | returned env =>
        obtain ⟨before, r, hlast, hafter⟩ := Loop.last_of_returned hexit
        obtain ⟨-, -, rest, hrest⟩ := Loop.waiting_before hlast
        rw [← hafter] at hexit ⊢
        exact .inr ⟨before, r, rest, hlast, rfl, (hiff _ _ _ hlast).mpr ⟨rfl, hexit⟩, hrest⟩
  · intro greeting hencode
    have ht : t = _ := runConnection_eq hencode peer world inbound
    refine ⟨rounds_runConnection hencode peer world inbound, ?_⟩
    intro env hexit
    have hreturned : t = ⟨greeting, run.1, [], .ok ()⟩ := by
      rw [ht, show ((connection ctx).run _ _).2 = _ from hexit]
      rfl
    rw [hreturned]
    exact ⟨List.append_nil _, rfl⟩

/-- A query while hold-connect is on, one inside a registration, and one
that does not parse behind `-holdconnect off`. The line behind it is not
looked at any more. -/
theorem connection_lifetime_hold :
    let ctx : ServerContext Unit := { ServerContext.new with register := some .accepting }
    let lines := ["-holdconnect on".toList, "foo".toList, "-register on add a@b".toList,
      "-holdconnect off".toList, "bar".toList, "-register off".toList, [], "x=".toList,
      "-status".toList]
    let run := (connection ctx).run (start ctx ⟨[], 0⟩ ()) lines
    run.1.length = 8 ∧ ∀ before r after, run.1 = before ++ r :: after →
      (Closing before r.input ↔ after = [] ∧ run.2 = .returned r.after) := by
  intro ctx lines run
  have hlines : ∀ line ∈ lines, RwhoisCodec.Decoded line :=
    RwhoisCodec.Decoded.of_unlines 512 (by decide)
  exact ⟨by decide, (connection_lifetime ctx rfl rfl _ _ { lines, ending := .eof } hlines).1⟩

end Server

end Rwhois
