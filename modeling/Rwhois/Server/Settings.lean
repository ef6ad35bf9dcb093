import Rwhois.Server.Session

/-!
# Server — Settings

A request that is answered with `%error` changed nothing in the session,
so a setting has the value of the LAST request that set it successfully,
and `-status` reports these values.

This holds without an auth handler: that one is lent the session and may
change it before it fails.
-/

namespace Rwhois

open RustStd

variable {ω : Type} {α : Type}

namespace Server

variable {ctx : ServerContext ω}

/-- A request that succeeds without a terminator has no effect. -/
theorem dispatch_ok (hdir : ctx.directives = .withBuiltins) {req : Request} {env : Env ω}
    {o : Outcome} (h : ((dispatch ctx req).run env).1 = .ok o) :
    Reply.terminator (.ok o) = some .ok ∨ ∀ s, req.effect s = s := by
  cases req with
  | empty => exact .inr fun _ => rfl
  | query line => exact .inr fun _ => rfl
  | spool line => exact .inr fun _ => rfl
  | directive name args =>
      rw [dispatch, dispatchDirective_eq hdir] at h
      cases hb : Builtin.ofName name with
      | none => exact .inr fun s => by simp [Request.effect, hb]
      | some b =>
          rw [hb] at h
          obtain rfl := (Builtin.run_yields ctx args b).map Outcome.ofDirective env o h
          left
          cases b <;> rfl

/-! ## One round -/

/-- The effect of a round: that of its request if it is answered with
`%ok`, and none otherwise. -/
theorem round_effect (hdir : ctx.directives = .withBuiltins) (hauth : ctx.auth = none)
    {r : Round (Env ω) Str Reply} (hdoes : (connection ctx).Does r) :
    r.after.session = if r.result.last = some .ok
      then (Request.read r.input r.before.session.isSpooling).effect r.before.session
      else r.before.session := by
  obtain ⟨outcome, env', hrun, hafter, hreply⟩ := does_connection hdoes
  generalize Request.read r.input r.before.session.isSpooling = req at hrun hreply ⊢
  have heffect := dispatch_effect hdir hauth req { r.before with out := .new }
  rw [hrun] at heffect
  rw [hafter, hreply]
  cases outcome with
  | ok o =>
      have hset : env'.session = req.effect r.before.session := heffect
      rcases dispatch_ok hdir (congrArg Prod.fst hrun) with hlast | hid
      · simpa [Reply.of, hlast] using hset
      · rw [hid] at hset ⊢
        simpa using hset
  | error e =>
      have hlast : Reply.terminator (.error e) ≠ some .ok := by
        cases e <;> simp [Reply.terminator]
      have hsame : env'.session = r.before.session := heffect
      simpa [Reply.of, hlast] using hsame

end Server

/-- The reply ends in `%error`. -/
def Reply.Failed (self : Reply) : Prop := ∃ code extra, self.last = some (.error code extra)

/-- What a successful round asked of the directive `b`, as `arg` reads the
argument. -/
def settled (b : Builtin) (arg : Str → Option α) (r : Round (Env ω) Str Reply) : Option α :=
  if r.result.last = some .ok then
    match Request.read r.input r.before.session.isSpooling with
    | .directive name args => if name = b.name then arg args else none
    | _ => none
  else
    none

/-- The value that was asked of `b` last. -/
def lastSettled (b : Builtin) (arg : Str → Option α) (rounds : List (Round (Env ω) Str Reply)) :
    Option α :=
  rounds.reverse.findSome? (settled b arg)

theorem read_of_settled {b : Builtin} {arg : Str → Option α} {r : Round (Env ω) Str Reply}
    {a : α} (h : settled b arg r = some a) :
    ∃ args, Request.read r.input r.before.session.isSpooling = .directive b.name args ∧
      arg args = some a := by
  unfold settled at h
  by_cases hlast : r.result.last = some .ok
  · rw [if_pos hlast] at h
    cases hreq : Request.read r.input r.before.session.isSpooling with
    | directive name args =>
        simp only [hreq] at h
        by_cases hname : name = b.name
        · rw [if_pos hname] at h
          exact ⟨args, by rw [hname], h⟩
        · rw [if_neg hname] at h
          cases h
    | empty | query line | spool line =>
        simp only [hreq] at h
        cases h
  · rw [if_neg hlast] at h
    cases h

def limitArg (args : Str) : Option Nat := parseUsize (trim args)

/-- An empty argument of `-rwhois` names no client. -/
def vendorArg (args : Str) : Option Str := if trim args = [] then none else some (trim args)

namespace Server

variable {ctx : ServerContext ω}

/-- One setting over one round. `b` is the only directive that sets it. -/
theorem round_setting (hdir : ctx.directives = .withBuiltins) (hauth : ctx.auth = none)
    (view : Session → α) {b : Builtin} {arg : Str → Option α}
    (hown : ∀ args s, view (b.effect args s) = (arg args).getD (view s))
    (hother : ∀ b' args s, b' ≠ b → view (b'.effect args s) = view s)
    {r : Round (Env ω) Str Reply} (hdoes : (connection ctx).Does r) :
    view r.after.session = (settled b arg r).getD (view r.before.session) := by
  rw [round_effect hdir hauth hdoes, settled]
  split
  · cases hreq : Request.read r.input r.before.session.isSpooling with
    | directive name args =>
        simp only [Request.effect]
        by_cases hname : name = b.name
        · rw [hname, Builtin.ofName_name, if_pos rfl]
          exact hown args _
        · rw [if_neg hname]
          cases hb : Builtin.ofName name with
          | none => rfl
          | some b' =>
              have hne : b' ≠ b := by
                rintro rfl
                exact hname (Builtin.name_of_ofName hb).symm
              exact hother b' args _ hne
    | empty => rfl
    | query line => rfl
    | spool line => rfl
  · rfl

section Settings

variable (hdir : ctx.directives = .withBuiltins) (hauth : ctx.auth = none)
  {r : Round (Env ω) Str Reply} (hdoes : (connection ctx).Does r)

include hdir hauth hdoes

theorem round_holdConnect : r.after.session.holdConnect =
    (settled .holdConnect Builtin.switchArg r).getD r.before.session.holdConnect :=
  round_setting hdir hauth Session.holdConnect (fun _ _ => rfl)
    (fun b' args s => (b'.effect_other args s).1) hdoes

theorem round_forward : r.after.session.forward =
    (settled .forward Builtin.switchArg r).getD r.before.session.forward :=
  round_setting hdir hauth Session.forward (fun _ _ => rfl)
    (fun b' args s => (b'.effect_other args s).2.1) hdoes

theorem round_hitLimit : r.after.session.hitLimit =
    (settled .limit limitArg r).getD r.before.session.hitLimit :=
  round_setting hdir hauth Session.hitLimit (fun _ _ => rfl)
    (fun b' args s => (b'.effect_other args s).2.2.1) hdoes

theorem round_clientVendorId : r.after.session.clientVendorId =
    (settled .rwhois (fun args => (vendorArg args).map some) r).getD
      r.before.session.clientVendorId := by
  refine round_setting hdir hauth Session.clientVendorId ?_
    (fun b' args s => (b'.effect_other args s).2.2.2) hdoes
  intro args s
  simp only [Builtin.effect, vendorArg]
  split <;> rfl

end Settings

/-! ## `-status` -/

/-- The lines that report the settings, and the `%ok` behind them. -/
def statusReport (hitLimit : Nat) (holdConnect forward : Bool) (clientVendorId : Option Str) :
    List Str :=
  ["%status limit:".toList ++ display hitLimit,
    if holdConnect then "%status hold:on".toList else "%status hold:off".toList,
    if forward then "%status forward:on".toList else "%status forward:off".toList,
    "%status display:dump".toList,
    "%status contact:".toList ++ clientVendorId.getD [],
    "%status".toList,
    "%ok".toList]

theorem isLine_statusReport (hitLimit : Nat) (holdConnect forward : Bool)
    {clientVendorId : Option Str} (h : ∀ v ∈ clientVendorId, IsLine v) :
    ∀ l ∈ statusReport hitLimit holdConnect forward clientVendorId, IsLine l := by
  have hvendor : IsLine (clientVendorId.getD []) := by
    cases clientVendorId with
    | none => exact .nil
    | some v => exact h v rfl
  have hlimitLine : IsLine ("%status limit:".toList ++ display hitLimit) :=
    .append (by decide) (isLine_display hitLimit)
  have hvendorLine : IsLine ("%status contact:".toList ++ clientVendorId.getD []) :=
    .append (by decide) hvendor
  simp only [statusReport, List.forall_mem_cons]
  refine ⟨hlimitLine, ?_, ?_, by decide, hvendorLine, by decide, by decide, by simp⟩
  · cases holdConnect <;> decide
  · cases forward <;> decide

/-- The calls of `Status::run` on the response. -/
def statusOps (session : Session) : List WriterOp :=
  [.tagged .status ("limit:".toList ++ display session.hitLimit),
    .tagged .status ("hold:".toList ++ Builtin.onOff session.holdConnect),
    .tagged .status ("forward:".toList ++ Builtin.onOff session.forward),
    .tagged .status ("display:".toList ++ session.display),
    .tagged .status ("contact:".toList ++ session.clientVendorId.getD []),
    .endBlock .status]

theorem run_status (env : Env ω) :
    Builtin.Status.run.run env =
      (.ok .ok, { env with out := WriterOp.runAll (statusOps env.session) env.out }) :=
  rfl

theorem statusOps_lines {session : Session} (hdisplay : session.display = "dump".toList) :
    (statusOps session).map WriterOp.line ++ [Terminator.ok.line] =
      statusReport session.hitLimit session.holdConnect session.forward
        session.clientVendorId := by
  simp only [statusOps, hdisplay]
  cases session.holdConnect <;> cases session.forward <;> rfl

/-- **`-status`** is answered with the report. -/
theorem exchange_status (hdir : ctx.directives = .withBuiltins) {line args : Str} {env : Env ω}
    (hread : Request.read line env.session.isSpooling = .directive "status".toList args)
    (hdisplay : env.session.display = "dump".toList) :
    ∃ reply, (exchange ctx line).run env = (.ok reply, { env with out := .new }) ∧
      reply.closes = false ∧
      reply.bytes = utf8 (unlines (statusReport env.session.hitLimit env.session.holdConnect
        env.session.forward env.session.clientVendorId)) := by
  have hb : Builtin.ofName "status".toList = some .status := Builtin.ofName_name .status
  have hrun : (Builtin.run ctx args .status).run { env with out := .new } =
      (.ok .ok, { env with out := WriterOp.runAll (statusOps env.session) .new }) := run_status _
  refine ⟨{ buf := (WriterOp.runAll (statusOps env.session) .new).buf, last := some .ok,
            closes := false }, ?_, rfl, ?_⟩
  · rw [run_exchange, hread, dispatch, dispatchDirective_eq hdir, hb]
    simp only [Exec.run_bind_pure]
    rw [hrun]
    simp [RustStd.Outcome.map, Outcome.ofDirective, Reply.of, Reply.terminator, Reply.isQuit,
      Request.isQuery]
  · rw [← statusOps_lines hdisplay]
    exact reply_text (statusOps env.session) .ok

/-! ## Whole connections -/

/-- A setting that is itself optional. -/
theorem lastSettled_some (b : Builtin) (arg : Str → Option α)
    (rounds : List (Round (Env ω) Str Reply)) :
    (lastSettled b (fun args => (arg args).map some) rounds).getD none =
      lastSettled b arg rounds := by
  have hsettled : settled (ω := ω) b (fun args => (arg args).map some) =
      Option.map some ∘ settled b arg := by
    funext r
    simp only [settled, Function.comp_apply]
    split
    · split
      · split <;> rfl
      · rfl
    · rfl
  rw [lastSettled, lastSettled, hsettled, ← List.map_findSome?]
  cases rounds.reverse.findSome? (settled b arg) <;> rfl

/-- The client is known by a text that one of its lines holds. -/
theorem isLine_lastSettled_vendor {env : Env ω} {lines : List Str}
    (hlines : ∀ line ∈ lines, RwhoisCodec.Decoded line) :
    ∀ v ∈ lastSettled .rwhois vendorArg ((connection ctx).rounds env lines), IsLine v := by
  intro v hv
  obtain ⟨r, hr, hsettled⟩ := List.exists_of_findSome?_eq_some hv
  obtain ⟨args, hread, harg⟩ := read_of_settled hsettled
  have hinput := (Loop.does_of_mem_rounds (List.mem_reverse.mp hr)).2
  have hargs : IsLine args := (hlines _ hinput).isLine.of_subset (Request.read_directive hread)
  unfold vendorArg at harg
  by_cases hnil : trim args = []
  · rw [if_pos hnil] at harg
    cases harg
  · rw [if_neg hnil] at harg
    cases harg
    exact hargs.trim

/-- **Failed requests change nothing, and the last writer wins.** As long
as the connection is open, every setting has the value of the last
successful request for it, or its default, and `-status` sends the lines
that report it; a client whose lines came out of the decoder reads them as
they are. -/
theorem settings_lastSettled (ctx : ServerContext ω) (hdir : ctx.directives = .withBuiltins)
    (hauth : ctx.auth = none) (peer : SocketAddr) (world : ω) (lines : List Str) :
    (∀ r, (connection ctx).Does r → r.result.Failed → r.after.session = r.before.session) ∧
    ∀ env, ((connection ctx).run (start ctx peer world) lines).2 = .waiting env →
      let rounds := (connection ctx).rounds (start ctx peer world) lines
      let hitLimit := (lastSettled .limit limitArg rounds).getD 0
      let holdConnect := (lastSettled .holdConnect Builtin.switchArg rounds).getD false
      let forward := (lastSettled .forward Builtin.switchArg rounds).getD false
      let clientVendorId := lastSettled .rwhois vendorArg rounds
      let report := statusReport hitLimit holdConnect forward clientVendorId
      env.session.hitLimit = hitLimit ∧ env.session.holdConnect = holdConnect ∧
        env.session.forward = forward ∧ env.session.clientVendorId = clientVendorId ∧
        ∀ line args, Request.read line env.session.isSpooling = .directive "status".toList args →
          ∃ reply, (exchange ctx line).run env = (.ok reply, { env with out := .new }) ∧
            reply.closes = false ∧ reply.bytes = utf8 (unlines report) ∧
            ((∀ l ∈ lines, RwhoisCodec.Decoded l) →
              received reply.bytes = some (report.map ResponseLine.parse)) := by
  constructor
  · rintro r hdoes ⟨code, extra, hlast⟩
    rw [round_effect hdir hauth hdoes, hlast]
    rfl
  · intro env hwait rounds hitLimit holdConnect forward clientVendorId report
    have hlimit : env.session.hitLimit = hitLimit :=
      Loop.last_of_waiting (fun env : Env ω => env.session.hitLimit)
        (fun _ h => round_hitLimit hdir hauth h) hwait
    have hhold : env.session.holdConnect = holdConnect :=
      Loop.last_of_waiting (fun env : Env ω => env.session.holdConnect)
        (fun _ h => round_holdConnect hdir hauth h) hwait
    have hforward : env.session.forward = forward :=
      Loop.last_of_waiting (fun env : Env ω => env.session.forward)
        (fun _ h => round_forward hdir hauth h) hwait
    have hvendor : env.session.clientVendorId = clientVendorId :=
      (Loop.last_of_waiting (fun env : Env ω => env.session.clientVendorId)
        (fun _ h => round_clientVendorId hdir hauth h) hwait).trans (lastSettled_some _ _ _)
    refine ⟨hlimit, hhold, hforward, hvendor, ?_⟩
    intro line args hread
    have hvalid : env.session.Valid ctx :=
      Loop.visited_of_keeps (P := fun env => env.session.Valid ctx)
        (fun _ _ hdoes h => round_valid hdir (by simp [hauth]) hdoes h)
        (.start peer ctx.idleTimeout) env (Loop.waiting_mem_visited hwait)
    obtain ⟨reply, hrun, hopen, hbytes⟩ := exchange_status hdir hread hvalid.display
    rw [hlimit, hhold, hforward, hvendor] at hbytes
    refine ⟨reply, hrun, hopen, hbytes, fun hlines => ?_⟩
    rw [hbytes, received_unlines]
    exact isLine_statusReport _ _ _ (isLine_lastSettled_vendor hlines)

/-- A failed `-limit` and an empty `-rwhois` between the others, and what
the client then reads of `-status`. -/
theorem settings_lastSettled_mixed :
    let ctx : ServerContext Unit := .new
    let lines := ["-limit 5".toList, "-holdconnect".toList, "-limit x".toList,
      "-rwhois me".toList, "-rwhois".toList]
    let run := (connection ctx).run (start ctx ⟨[], 0⟩ ()) lines
    ∃ env reply, run.2 = .waiting env ∧
      env.session.hitLimit = (lastSettled .limit limitArg run.1).getD 0 ∧
      (env.session.hitLimit, env.session.holdConnect, env.session.clientVendorId) =
        (5, true, some "me".toList) ∧
      (exchange ctx "-status".toList).run env = (.ok reply, { env with out := .new }) ∧
      received reply.bytes = some [.tagged .status "limit:5".toList,
        .tagged .status "hold:on".toList, .tagged .status "forward:off".toList,
        .tagged .status "display:dump".toList, .tagged .status "contact:me".toList,
        .taggedEnd .status, .ok] := by
  intro ctx lines run
  have hwaits : run.2.waiting?.map (fun env => (env.session.hitLimit, env.session.holdConnect,
      env.session.clientVendorId, env.session.isSpooling)) =
      some (5, true, some "me".toList, false) := by decide
  obtain ⟨env, hwait, hsession⟩ := Option.map_eq_some_iff.mp hwaits
  have hrun : run.2 = .waiting env := Exit.eq_waiting hwait
  have hlines : ∀ line ∈ lines, RwhoisCodec.Decoded line :=
    RwhoisCodec.Decoded.of_unlines 512 (by decide)
  obtain ⟨hlimit, -, -, -, hstatus⟩ := (settings_lastSettled ctx rfl rfl _ _ _).2 env hrun
  simp only [Prod.mk.injEq] at hsession
  obtain ⟨h5, hhold, hme, hquery⟩ := hsession
  obtain ⟨reply, hreply, -, -, hread⟩ := hstatus "-status".toList [] (by rw [hquery]; decide)
  refine ⟨env, reply, hrun, hlimit, by rw [h5, hhold, hme], hreply, ?_⟩
  rw [hread hlines]
  decide

end Server

end Rwhois
