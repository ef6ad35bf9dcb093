import Mathlib.Data.Fintype.Basic
import Mathlib.Logic.Function.Basic
import Rwhois.Server.Registration

/-!
# Server — Interleaving

Several connections of one server. Each one is a task with a session and a
socket of its own; all share the handlers and the world behind them. A
schedule says whose task runs next.

Tasks are switched where they `await`, so a line is not ONE step. A line of
a registration makes one call, and the rest of what it does stays within
its connection: no other task sees the session, the response or the socket.
It is therefore cut at the call. The first step reads the line and makes
the call, the second one changes the session and sends the reply. Between
the two a registration has begun for the handler while its session still
says `query`, and other connections go on. (A query may make two calls,
which stay in one step here; the results below are about registrations.)

The methods of a registration handler do not say who calls, so two
registrations that are open at the same time are mixed up in what the
handler sees. As long as nobody begins a registration while the handler has
seen another one begin and not finish, it sees whole registrations, one
after the other, each with exactly the lines its client sent.
-/

namespace Rwhois

open RustStd

variable {ω ι : Type}

namespace Server

/-- Where the task of a connection stands. -/
inductive Task where
  /-- In front of the next line. -/
  | reading (session : Session)
  /-- Behind the handler call of a line: what it sends and the session it
  leaves are settled, neither has happened. -/
  | resuming (reply : Reply) (session : Session)
  | closed

/-- The session that the next line will meet. -/
def Task.next : Task → Option Session
  | .reading session => some session
  | .resuming reply session => if reply.closes then none else some session
  | .closed => none

/-- The tasks, the lines they have not read yet, and the world they
share. -/
structure System (ι ω : Type) where
  tasks : ι → Task
  unread : ι → List Str
  world : ω

/-- One step of one connection, with the reply if it sends one. The calls
are written down under the name of the connection. -/
def serve [DecidableEq ι] (ctx : ServerContext ω) :
    Loop (System ι (ω × List (ι × RegisterCall))) ι (Option Reply) where
  body sys i :=
    match sys.tasks i, sys.unread i with
    | .reading session, line :: rest =>
        match (connection (ctx.recorded (Prod.mk i))).body
            { session, out := .new, world := sys.world } line with
        | none => none
        | some (reply, env) =>
            some (none,
              { tasks := Function.update sys.tasks i (.resuming reply env.session)
                unread := Function.update sys.unread i rest
                world := env.world })
    | .resuming reply session, _ =>
        let task := if reply.closes then .closed else .reading session
        some (some reply, { sys with tasks := Function.update sys.tasks i task })
    -- nothing to read, or nobody to read it
    | .reading _, [] | .closed, _ => some (none, sys)
  returns _ := false

/-- All connections are new and nothing is written down. -/
def System.start (ctx : ServerContext ω) (peers : ι → SocketAddr) (world : ω)
    (sent : ι → List Str) : System ι (ω × List (ι × RegisterCall)) where
  tasks i := .reading (Server.start ctx (peers i) world).session
  unread := sent
  world := (world, [])

def System.log (sys : System ι (ω × List (ι × RegisterCall))) : List (ι × RegisterCall) :=
  sys.world.2

/-- What the connection `i` put into a log. -/
def callsOf [DecidableEq ι] (i : ι) (log : List (ι × RegisterCall)) : List RegisterCall :=
  (log.filter fun entry => entry.1 = i).map Prod.snd

end Server

def RegisterCall.isBegin : RegisterCall → Bool
  | .begin _ _ _ => true
  | _ => false

/-- Whether a registration is open behind a call. -/
def RegisterCall.leavesOpen (isOpen : Bool) : RegisterCall → Bool
  | .begin _ _ _ => true
  | .acceptLine _ => isOpen
  | .finish => false

/-- The calls leave a registration open: one has begun, and no `finish` has
come since. -/
def leftOpen (calls : List RegisterCall) : Bool :=
  calls.foldl RegisterCall.leavesOpen false

/-- The call a line stands for inside a registration block. -/
def lineCall (line : Str) : Option RegisterCall := (Request.read line true).call

/-- Nothing but blocks `-register on <action> <email>`, spool lines,
`-register off`; the last one may be incomplete. -/
def WellFormed (lines : List Str) : Prop :=
  ∃ calls, lines.map lineCall = calls.map some ∧ InOrder calls

/-- The call a step of the connection `i` is going to make. -/
def Server.System.call (sys : Server.System ι ω) (i : ι) : Option RegisterCall :=
  match sys.tasks i, sys.unread i with
  | .reading _, line :: _ => lineCall line
  | _, _ => none

theorem WellFormed.of_registrations (registrations : List Registration) {lines : List Str}
    (h : lines.map lineCall <+: (registrations.flatMap Registration.calls).map some) :
    WellFormed lines := by
  obtain ⟨rest, hrest⟩ := h
  obtain ⟨calls, more, hall, hcalls, -⟩ := List.map_eq_append_iff.mp hrest.symm
  exact ⟨calls, hcalls.symm, registrations, more, hall.symm⟩

/-- Whole registrations, one after the other, each of one connection; the
last one may not be finished yet. -/
def IsSerial (log : List (ι × RegisterCall)) : Prop :=
  ∃ registrations : List (ι × Registration),
    log <+: registrations.flatMap fun r => r.2.calls.map (Prod.mk r.1)

/-- The log consists of finished registrations, and of the calls of one
more while `owner` has it open. -/
def Owned (log : List (ι × RegisterCall)) : Option ι → Prop
  | none => ∃ done : List (ι × Registration),
      log = done.flatMap fun r => r.2.calls.map (Prod.mk r.1)
  | some i => ∃ (done : List (ι × Registration)) (current : Registration),
      log = (done.flatMap fun r => r.2.calls.map (Prod.mk r.1)) ++ current.opening.map (Prod.mk i)

theorem Owned.isSerial {log : List (ι × RegisterCall)} {owner : Option ι} (h : Owned log owner) :
    IsSerial log := by
  cases owner with
  | none =>
      obtain ⟨done, rfl⟩ := h
      exact ⟨done, List.prefix_rfl⟩
  | some i =>
      obtain ⟨done, current, rfl⟩ := h
      refine ⟨done ++ [(i, current)], [(i, .finish)], ?_⟩
      simp [Registration.calls]

/-- A call of the connection `i` when nobody else has a registration
open. -/
theorem Owned.step {log : List (ι × RegisterCall)} {i : ι} {call : RegisterCall}
    {state state' : SessionState} (h : Owned log (if state = .spool then some i else none))
    (hafter : state.after call = some state') :
    Owned (log ++ [(i, call)]) (if state' = .spool then some i else none) := by
  cases state with
  | query =>
      obtain ⟨done, rfl⟩ := h
      cases call with
      | begin action email args =>
          cases hafter
          exact ⟨done, ⟨action, email, args, []⟩, rfl⟩
      | acceptLine line => cases hafter
      | finish => cases hafter
  | spool =>
      obtain ⟨done, current, rfl⟩ := h
      cases call with
      | begin action email args => cases hafter
      | acceptLine line =>
          cases hafter
          refine ⟨done, { current with lines := current.lines ++ [line] }, ?_⟩
          simp [Registration.opening]
      | finish =>
          cases hafter
          refine ⟨done ++ [(i, current)], ?_⟩
          simp [Registration.calls]

/-- Between a `begin` and the next `finish` everything comes from the
connection that began. -/
def Unmixed (log : List (ι × RegisterCall)) : Prop :=
  ∀ pre i action email args mid j call post,
    log = pre ++ (i, .begin action email args) :: (mid ++ (j, call) :: post) →
    (∀ entry ∈ mid, entry.2 ≠ .finish) → (∀ a e x, call ≠ .begin a e x) → j = i

/-- The block of one connection: a `begin`, then other calls of the same
connection up to a `finish`. -/
theorem Registration.block (r : Registration) (k : ι) :
    ∃ body, r.calls.map (Prod.mk k) = (k, .begin r.action r.email r.args) :: body ∧
      (∀ entry ∈ body, entry.1 = k ∧ ∀ a e x, entry.2 ≠ .begin a e x) ∧ (k, .finish) ∈ body := by
  refine ⟨(r.lines.map RegisterCall.acceptLine ++ [RegisterCall.finish]).map (Prod.mk k), ?_, ?_,
    by simp⟩
  · simp [Registration.calls, Registration.opening]
  · intro entry hentry
    obtain ⟨call, hcall, rfl⟩ := List.mem_map.mp hentry
    refine ⟨rfl, ?_⟩
    rintro a e x rfl
    simp at hcall

/-- One block in front of others. -/
theorem Unmixed.cons {rest : List (ι × RegisterCall)} (h : Unmixed rest) (k : ι)
    (r : Registration) : Unmixed (r.calls.map (Prod.mk k) ++ rest) := by
  intro pre i action email args mid j call post hlog hmid hcall
  obtain ⟨body, hblock, hkeys, hfinish⟩ := r.block k
  rw [hblock] at hlog
  cases pre with
  | cons p pre =>
      -- the `begin` in question stands behind the first one
      obtain ⟨-, htail⟩ := List.cons.inj hlog
      rcases List.append_eq_append_iff.mp htail with ⟨more, rfl, hrest⟩ | ⟨more, hbody, hrest⟩
      · exact h more i action email args mid j call post hrest hmid hcall
      · cases more with
        | nil =>
            have hlog : rest = (i, .begin action email args) :: (mid ++ (j, call) :: post) := by
              simpa using hrest.symm
            exact h [] i action email args mid j call post hlog hmid hcall
        | cons q more =>
            obtain ⟨rfl, -⟩ := List.cons.inj hrest
            have hq := (hkeys (i, .begin action email args) (by simp [hbody])).2
            exact absurd rfl (hq action email args)
  | nil =>
      obtain ⟨hfirst, htail⟩ := List.cons.inj hlog
      obtain ⟨rfl, -⟩ := Prod.mk.inj hfirst
      -- the block ends in `finish`, which is not in `mid`
      have hnot : ∀ more, mid ≠ body ++ more := by
        rintro more rfl
        exact hmid _ (List.mem_append_left _ hfinish) rfl
      rcases List.append_eq_append_iff.mp htail with ⟨more, hm, -⟩ | ⟨more, hbody, hrest⟩
      · exact (hnot more hm).elim
      · cases more with
        | nil => exact (hnot [] (by simpa using hbody.symm)).elim
        | cons q more =>
            obtain ⟨rfl, -⟩ := List.cons.inj hrest
            exact (hkeys (j, call) (by simp [hbody])).1

theorem IsSerial.unmixed {log : List (ι × RegisterCall)} (h : IsSerial log) : Unmixed log := by
  obtain ⟨rs, rest, hrest⟩ := h
  have hall : Unmixed (rs.flatMap fun r => r.2.calls.map (Prod.mk r.1)) := by
    clear hrest
    induction rs with
    | nil =>
        intro pre i action email args mid j call post hlog
        simp at hlog
    | cons r rs ih => exact ih.cons r.1 r.2
  intro pre i action email args mid j call post hlog
  refine hall pre i action email args mid j call (post ++ rest) ?_
  rw [← hrest, hlog]
  simp

/-! ## The automaton and the words -/

/-- The state after a sequence of calls, `none` if one is out of order. -/
def stateAfter (state : SessionState) (calls : List RegisterCall) : Option SessionState :=
  calls.foldlM SessionState.after state

theorem stateAfter_append (state : SessionState) (calls more : List RegisterCall) :
    stateAfter state (calls ++ more) =
      (stateAfter state calls).bind fun state' => stateAfter state' more := by
  simp [stateAfter, List.foldlM_append]

theorem stateAfter_opening (r : Registration) : stateAfter .query r.opening = some .spool := by
  have hlines : ∀ lines : List Str,
      stateAfter .spool (lines.map .acceptLine) = some .spool := by
    intro lines
    induction lines with
    | nil => rfl
    | cons line lines ih => exact ih
  exact hlines r.lines

theorem stateAfter_calls (rs : List Registration) :
    stateAfter .query (rs.flatMap Registration.calls) = some .query := by
  induction rs with
  | nil => rfl
  | cons r rs ih =>
      have hfirst : stateAfter .query r.calls = some .query := by
        rw [Registration.calls, stateAfter_append, stateAfter_opening]
        rfl
      rw [List.flatMap_cons, stateAfter_append, hfirst]
      exact ih

theorem LogMatches.stateAfter_eq {log : List RegisterCall} {state : SessionState}
    (h : LogMatches log state) : stateAfter .query log = some state := by
  cases state with
  | query =>
      obtain ⟨done, rfl⟩ := h
      exact stateAfter_calls done
  | spool =>
      obtain ⟨done, current, rfl⟩ := h
      rw [stateAfter_append, stateAfter_calls]
      exact stateAfter_opening current

theorem leavesOpen_of_after {state state' : SessionState} {call : RegisterCall}
    (h : state.after call = some state') :
    call.leavesOpen (state == .spool) = (state' == .spool) := by
  cases state <;> cases call <;> cases h <;> rfl

/-- In an ordered sequence of calls a registration is open exactly in spool
state. -/
theorem foldl_leavesOpen {state state' : SessionState} {calls : List RegisterCall}
    (h : stateAfter state calls = some state') :
    calls.foldl RegisterCall.leavesOpen (state == .spool) = (state' == .spool) := by
  induction calls generalizing state with
  | nil =>
      cases h
      rfl
  | cons call calls ih =>
      cases hafter : state.after call with
      | none => simp [stateAfter, hafter] at h
      | some next =>
          rw [List.foldl_cons, leavesOpen_of_after hafter]
          apply ih
          simpa [stateAfter, hafter] using h

/-- The registration that a log leaves open is the one of a session in spool
state. -/
theorem LogMatches.leftOpen_iff {log : List RegisterCall} {state : SessionState}
    (h : LogMatches log state) : leftOpen log = true ↔ state = .spool := by
  have hopen : leftOpen log = (state == .spool) := foldl_leavesOpen h.stateAfter_eq
  rw [hopen, beq_iff_eq]

theorem InOrder.stateAfter_ne {calls : List RegisterCall} (h : InOrder calls) :
    stateAfter .query calls ≠ none := by
  obtain ⟨rs, rest, hrest⟩ := h
  have hall := stateAfter_calls rs
  rw [← hrest, stateAfter_append] at hall
  intro hnone
  rw [hnone] at hall
  cases hall

/-- The next call of an ordered sequence is possible in the state of the
log before it. -/
theorem LogMatches.next {log rest : List RegisterCall} {call : RegisterCall}
    {state : SessionState} (h : LogMatches log state) (horder : InOrder (log ++ call :: rest)) :
    ∃ state', state.after call = some state' := by
  have hne := horder.stateAfter_ne
  rw [stateAfter_append, h.stateAfter_eq] at hne
  cases hstep : state.after call with
  | some state' => exact ⟨state', rfl⟩
  | none =>
      exfalso
      apply hne
      simp [stateAfter, hstep]

/-! ## One line of a block -/

theorem next_of_after {state state' : SessionState} {call : RegisterCall}
    (h : state.after call = some state') : call.next state = state' := by
  cases state <;> cases call <;> cases h <;> rfl

/-- Inside its block a line is read as the call it stands for. -/
theorem call_read {line : Str} {call : RegisterCall} {session : Session} {state' : SessionState}
    (hline : lineCall line = some call) (hafter : session.state.after call = some state') :
    (Request.read line session.isSpooling).call = some call := by
  unfold lineCall Request.read at hline
  unfold Request.read
  by_cases hnil : line = []
  · rw [if_pos hnil] at hline
    cases hline
  · rw [if_neg hnil] at hline ⊢
    by_cases hdir : isDirective line = true
    · rw [if_pos hdir] at hline ⊢
      exact hline
    · rw [if_neg hdir, if_pos rfl] at hline
      cases hline
      have hspool : session.state = .spool := by
        by_contra hne
        simp [SessionState.after, hne] at hafter
      simp [if_neg hdir, Session.isSpooling, hspool, Request.call]

namespace Server

/-- A request that asks for a call comes back and does not quit. -/
theorem dispatch_call {ctx : ServerContext ω} (hdir : ctx.directives = .withBuiltins)
    {req : Request} {call : RegisterCall} (hcall : req.call = some call) (env : Env ω) :
    ∃ outcome, ((dispatch ctx req).run env).1 = .ofExcept outcome ∧
      Reply.isQuit outcome = false := by
  cases req with
  | empty => cases hcall
  | query line => cases hcall
  | spool line =>
      unfold dispatch dispatchSpool
      cases ctx.register with
      | none => exact ⟨.error _, rfl, rfl⟩
      | some reg =>
          simp only [Exec.run_bind_pure, Env.ask, Exec.callOn]
          cases (reg.acceptLine line env.world).1 with
          | ok u => exact ⟨.ok .silent, rfl, rfl⟩
          | error e => exact ⟨.error e, rfl, rfl⟩
  | directive name args =>
      have hname : name = Builtin.register.name := by
        by_contra hne
        simp [Request.call, hne] at hcall
      rw [dispatch, dispatchDirective_eq hdir, hname, Builtin.ofName_name]
      simp only [Exec.run_bind_pure]
      obtain ⟨result, hback⟩ := (Builtin.Register.returns ctx args).exists_except env
      have hyields := Builtin.Register.yields ctx args env
      show ∃ outcome, ((Builtin.Register.run ctx args).run env).1.map Outcome.ofDirective = _ ∧ _
      rw [hback] at hyields ⊢
      cases result with
      | ok out =>
          obtain rfl := hyields out rfl
          exact ⟨.ok .ok, rfl, rfl⟩
      | error e => exact ⟨.error e, rfl, rfl⟩

variable [DecidableEq ι] {ctx : ServerContext ω} {h : RegisterHandler ω}

/-- **The call of a line**: exactly this call is written down, under the
name of its connection, and the connection goes on in the state behind the
call. -/
theorem serve_call (hreg : ctx.register = some h) (hacc : h.Accepts)
    {sys : System ι (ω × List (ι × RegisterCall))} {i : ι} {line : Str} {rest : List Str}
    {session : Session} {call : RegisterCall} {state' : SessionState}
    (htask : sys.tasks i = .reading session) (hunread : sys.unread i = line :: rest)
    (hline : lineCall line = some call) (hafter : session.state.after call = some state') :
    ∃ task session' world', (serve ctx).body sys i =
        some (none, { tasks := Function.update sys.tasks i task,
                      unread := Function.update sys.unread i rest,
                      world := (world', sys.log ++ [(i, call)]) }) ∧
      task.next = some session' ∧ session'.state = state' := by
  have hcall := call_read hline hafter
  have hquery : (Request.read line session.isSpooling).isQuery = false := by
    cases hreq : Request.read line session.isSpooling with
    | query text =>
        rw [hreq] at hcall
        cases hcall
    | _ => rfl
  have hdir : (ctx.recorded (Prod.mk i)).directives = .withBuiltins := rfl
  obtain ⟨outcome, hout, hquit⟩ :=
    dispatch_call hdir hcall { session, out := .new, world := sys.world }
  have hregisters : Registers ctx (Prod.mk i) (Request.read line session.isSpooling)
      { session, out := .new, world := sys.world } _ := dispatch_registers _ _
  rcases hrun : (dispatch (ctx.recorded (Prod.mk i)) (Request.read line session.isSpooling)).run
    { session, out := .new, world := sys.world } with ⟨o, env'⟩
  rw [hrun] at hout hregisters
  have hbody : (connection (ctx.recorded (Prod.mk i))).body
      { session, out := .new, world := sys.world } line =
        some (.of (Request.read line session.isSpooling) outcome env',
          { env' with out := .new }) := by
    simp only [connection, run_exchange, hrun]
    obtain rfl : o = .ofExcept outcome := hout
    cases outcome <;> rfl
  have hopen : (Reply.of (Request.read line session.isSpooling) outcome env').closes = false := by
    simp [Reply.of, hquit, hquery]
  rcases hregisters with ⟨call', hcall', hlog, hstate⟩ | ⟨-, -, hno⟩
  · obtain rfl : call = call' := by
      rw [hcall] at hcall'
      exact Option.some.inj hcall'
    have hworld : env'.world = (env'.world.1, sys.log ++ [(i, call)]) := Prod.ext rfl hlog
    refine ⟨.resuming (.of (Request.read line session.isSpooling) outcome env') env'.session,
      env'.session, env'.world.1, ?_, ?_, hstate.trans (next_of_after hafter)⟩
    · simp only [serve, htask, hunread, hbody]
      rw [← hworld]
    · rw [Task.next, hopen]
      rfl
  · rw [hno h hreg hacc] at hcall
    cases hcall

/-- A step that reads no line: nothing is called, and every connection will
go on with the session it was going on with. -/
theorem serve_quiet (ctx : ServerContext ω) {sys : System ι (ω × List (ι × RegisterCall))} {i : ι}
    (hquiet : ∀ session line rest, sys.tasks i = .reading session →
      sys.unread i ≠ line :: rest) :
    ∃ reply sys', (serve ctx).body sys i = some (reply, sys') ∧ sys'.log = sys.log ∧
      sys'.unread = sys.unread ∧ ∀ j, (sys'.tasks j).next = (sys.tasks j).next := by
  cases htask : sys.tasks i with
  | closed =>
      refine ⟨none, sys, ?_, rfl, rfl, fun _ => rfl⟩
      simp only [serve, htask]
  | reading session =>
      cases hunread : sys.unread i with
      | cons line rest => exact absurd hunread (hquiet session line rest htask)
      | nil =>
          refine ⟨none, sys, ?_, rfl, rfl, fun _ => rfl⟩
          simp only [serve, htask, hunread]
  | resuming reply session =>
      let task : Task := if reply.closes then .closed else .reading session
      refine ⟨some reply, { sys with tasks := Function.update sys.tasks i task }, ?_, rfl, rfl, ?_⟩
      · simp only [serve, htask, task]
      · intro j
        by_cases hij : j = i
        · subst hij
          simp only [Function.update_self, htask, Task.next, task]
          cases reply.closes <;> rfl
        · simp only [Function.update_of_ne hij]

/-! ## Any number of steps -/

@[simp] theorem callsOf_append (j i : ι) (call : RegisterCall) (log : List (ι × RegisterCall)) :
    callsOf j (log ++ [(i, call)]) = callsOf j log ++ if i = j then [call] else [] := by
  by_cases hij : i = j <;> simp [callsOf, hij]

/-- The system between two steps, when the clients have sent `sent`: every
connection goes on, its session will fit its calls, these calls and the
lines behind them are what its client sent, in order, and the log is that
of one registration after the other. -/
structure Orderly (sent : ι → List Str) (sys : System ι (ω × List (ι × RegisterCall))) : Prop where
  task : ∀ i, ∃ session, (sys.tasks i).next = some session ∧
    LogMatches (callsOf i sys.log) session.state
  lines : ∀ i, (callsOf i sys.log).map some ++ (sys.unread i).map lineCall = (sent i).map lineCall
  owner : ∃ owner, Owned sys.log owner ∧
    ∀ i, leftOpen (callsOf i sys.log) = true ↔ owner = some i

/-- Nobody begins a registration while the handler has seen one of another
connection begin and not finish. -/
def BeginsAlone (r : Round (System ι (ω × List (ι × RegisterCall))) ι (Option Reply)) : Prop :=
  ∀ action email args, r.before.call r.input = some (.begin action email args) →
    ∀ j, j ≠ r.input → leftOpen (callsOf j r.before.log) = false

instance [Fintype ι] (r : Round (System ι (ω × List (ι × RegisterCall))) ι (Option Reply)) :
    Decidable (BeginsAlone r) :=
  decidable_of_iff
    ((∃ call ∈ r.before.call r.input, call.isBegin = true) →
      ∀ j, j ≠ r.input → leftOpen (callsOf j r.before.log) = false) (by
    constructor
    · intro h action email args hcall
      exact h ⟨_, hcall, rfl⟩
    · rintro h ⟨call, hcall, hbegin⟩
      cases call with
      | begin action email args => exact h action email args hcall
      | acceptLine line => cases hbegin
      | finish => cases hbegin)

/-- A connection in front of a line of its client: the line stands for a
call that is in order. -/
theorem Orderly.next {sent : ι → List Str} (hblocks : ∀ i, WellFormed (sent i))
    {sys : System ι (ω × List (ι × RegisterCall))} (ho : Orderly sent sys) {i : ι}
    {session : Session} {line : Str} {rest : List Str} (htask : sys.tasks i = .reading session)
    (hunread : sys.unread i = line :: rest) :
    LogMatches (callsOf i sys.log) session.state ∧
      ∃ call state', lineCall line = some call ∧ session.state.after call = some state' := by
  have hmatches : LogMatches (callsOf i sys.log) session.state := by
    obtain ⟨session', hnext, hmatches⟩ := ho.task i
    rw [htask] at hnext
    cases hnext
    exact hmatches
  refine ⟨hmatches, ?_⟩
  obtain ⟨calls, hcalls, horder⟩ := hblocks i
  have hlines := ho.lines i
  rw [hcalls, hunread, List.map_cons] at hlines
  obtain ⟨made, later, rfl, hmade, hlater⟩ := List.map_eq_append_iff.mp hlines.symm
  have hinj := List.map_injective_iff.mpr (Option.some_injective RegisterCall)
  obtain rfl : made = callsOf i sys.log := hinj hmade
  obtain ⟨call, later, rfl, hline, -⟩ := List.map_eq_cons_iff.mp hlater
  obtain ⟨state', hafter⟩ := hmatches.next horder
  exact ⟨call, state', hline.symm, hafter⟩

/-- A connection that can make a call is the only one that has a
registration open, if it has one. -/
theorem owner_eq {log : List (ι × RegisterCall)} {i : ι} {state state' : SessionState}
    {call : RegisterCall} {owner : Option ι} (hmatches : LogMatches (callsOf i log) state)
    (hafter : state.after call = some state')
    (halone : ∀ action email args, call = .begin action email args →
      ∀ j, j ≠ i → leftOpen (callsOf j log) = false)
    (howner : ∀ j, leftOpen (callsOf j log) = true ↔ owner = some j) :
    owner = if state = .spool then some i else none := by
  have hi : state = .spool ↔ owner = some i := hmatches.leftOpen_iff.symm.trans (howner i)
  by_cases hspool : state = .spool
  · rw [if_pos hspool]
    exact hi.mp hspool
  · rw [if_neg hspool]
    -- only a `begin` is in order, and nobody else has begun
    obtain ⟨action, email, args, rfl⟩ : ∃ action email args, call = .begin action email args := by
      cases call with
      | begin action email args => exact ⟨action, email, args, rfl⟩
      | acceptLine line => simp [SessionState.after, hspool] at hafter
      | finish => simp [SessionState.after, hspool] at hafter
    cases owner with
    | none => rfl
    | some j =>
        exfalso
        have hne : j ≠ i := by
          rintro rfl
          exact hspool (hi.mpr rfl)
        have hopen := (howner j).mpr rfl
        rw [halone action email args rfl j hne] at hopen
        cases hopen

/-- A call in order, made by a connection that begins alone. -/
theorem Orderly.call {sent : ι → List Str} {sys : System ι (ω × List (ι × RegisterCall))}
    (ho : Orderly sent sys) {i : ι} {line : Str} {rest : List Str} {call : RegisterCall}
    {state : SessionState} (hunread : sys.unread i = line :: rest)
    (hline : lineCall line = some call) (hmatches : LogMatches (callsOf i sys.log) state)
    {task : Task} {session : Session} (hnext : task.next = some session)
    (hafter : state.after call = some session.state)
    (halone : ∀ action email args, call = .begin action email args →
      ∀ j, j ≠ i → leftOpen (callsOf j sys.log) = false) (world : ω) :
    Orderly sent { tasks := Function.update sys.tasks i task,
                   unread := Function.update sys.unread i rest,
                   world := (world, sys.log ++ [(i, call)]) } := by
  have hlog : LogMatches (callsOf i sys.log ++ [call]) session.state := hmatches.step hafter
  refine ⟨?_, ?_, ?_⟩
  · -- the sessions
    intro j
    by_cases hij : i = j
    · subst hij
      refine ⟨session, by simpa using hnext, ?_⟩
      simpa [System.log] using hlog
    · obtain ⟨other, hother, hmatches⟩ := ho.task j
      refine ⟨other, by simpa [Function.update_of_ne (Ne.symm hij)] using hother, ?_⟩
      simpa [System.log, hij] using hmatches
  · -- the lines
    intro j
    have hlines := ho.lines j
    by_cases hij : i = j
    · subst hij
      rw [hunread, List.map_cons, hline] at hlines
      simpa [System.log] using hlines
    · simpa [System.log, hij, Function.update_of_ne (Ne.symm hij)] using hlines
  · -- who has a registration open
    obtain ⟨owner, howned, howner⟩ := ho.owner
    obtain rfl := owner_eq hmatches hafter halone howner
    refine ⟨_, howned.step hafter, ?_⟩
    intro j
    by_cases hij : i = j
    · subst hij
      have hopen : leftOpen (callsOf i sys.log ++ [call]) = true ↔ session.state = .spool :=
        hlog.leftOpen_iff
      simpa [System.log] using hopen
    · have hclosed := howner j
      simp only [System.log, callsOf_append, if_neg hij, List.append_nil] at hclosed ⊢
      rw [hclosed]
      split <;> split <;> simp [hij]

theorem Orderly.quiet {sent : ι → List Str} {sys sys' : System ι (ω × List (ι × RegisterCall))}
    (ho : Orderly sent sys) (hlog : sys'.log = sys.log) (hunread : sys'.unread = sys.unread)
    (hnext : ∀ i, (sys'.tasks i).next = (sys.tasks i).next) : Orderly sent sys' where
  task i := by
    rw [hnext, hlog]
    exact ho.task i
  lines i := by
    rw [hlog, hunread]
    exact ho.lines i
  owner := by
    rw [hlog]
    exact ho.owner

/-- **One step** of an orderly system. -/
theorem Orderly.step (hreg : ctx.register = some h) (hacc : h.Accepts) {sent : ι → List Str}
    (hblocks : ∀ i, WellFormed (sent i)) {sys : System ι (ω × List (ι × RegisterCall))} {i : ι}
    (ho : Orderly sent sys)
    (halone : ∀ reply sys', (serve ctx).body sys i = some (reply, sys') →
      BeginsAlone ⟨sys, i, reply, sys'⟩) :
    ∃ reply sys', (serve ctx).body sys i = some (reply, sys') ∧ Orderly sent sys' := by
  by_cases hread : ∃ session line rest, sys.tasks i = .reading session ∧
      sys.unread i = line :: rest
  · obtain ⟨session, line, rest, htask, hunread⟩ := hread
    obtain ⟨hmatches, call, state', hline, hafter⟩ := ho.next hblocks htask hunread
    obtain ⟨task, session', world', hbody, hnext, rfl⟩ :=
      serve_call hreg hacc htask hunread hline hafter
    refine ⟨none, _, hbody, ho.call hunread hline hmatches hnext hafter ?_ world'⟩
    rintro action email args rfl
    apply halone none _ hbody action email args
    simp only [System.call, htask, hunread]
    exact hline
  · have hquiet : ∀ session line rest, sys.tasks i = .reading session →
        sys.unread i ≠ line :: rest := fun session line rest htask hunread =>
      hread ⟨session, line, rest, htask, hunread⟩
    obtain ⟨reply, sys', hbody, hlog, hunread, hnext⟩ := serve_quiet ctx hquiet
    exact ⟨reply, sys', hbody, ho.quiet hlog hunread hnext⟩

/-- **All steps** of an orderly system. -/
theorem Orderly.run (hreg : ctx.register = some h) (hacc : h.Accepts) {sent : ι → List Str}
    (hblocks : ∀ i, WellFormed (sent i)) {sys : System ι (ω × List (ι × RegisterCall))}
    {schedule : List ι} (ho : Orderly sent sys)
    (halone : ∀ r ∈ (serve ctx).rounds sys schedule, BeginsAlone r) :
    ∃ sys', ((serve ctx).run sys schedule).2 = .waiting sys' ∧ Orderly sent sys' := by
  induction schedule generalizing sys with
  | nil => exact ⟨sys, rfl, ho⟩
  | cons i schedule ih =>
      obtain ⟨reply, next, hbody, hnext⟩ := ho.step hreg hacc hblocks (by
        intro reply next hbody
        apply halone
        rw [Loop.rounds_next hbody rfl]
        exact List.mem_cons_self)
      rw [Loop.exit_next hbody rfl]
      refine ih hnext fun r hr => halone r ?_
      rw [Loop.rounds_next hbody rfl]
      exact List.mem_cons_of_mem _ hr

theorem Orderly.start (ctx : ServerContext ω) (peers : ι → SocketAddr) (world : ω)
    (sent : ι → List Str) : Orderly sent (System.start ctx peers world sent) where
  task _ := ⟨_, rfl, .empty⟩
  lines _ := rfl
  owner := ⟨none, ⟨[], rfl⟩, by simp [System.start, System.log, callsOf, leftOpen]⟩

/-- **Registrations do not mix** as long as nobody begins one while the
handler has seen another connection begin one and not finish it. The
clients send nothing but blocks, the handler accepts every call. Then the
calls of a client and the lines it has not been read yet are what it sent,
none lost and none twice, and the log consists of whole registrations. -/
theorem registrations_serial (ctx : ServerContext ω) (h : RegisterHandler ω)
    (hreg : ctx.register = some h) (hacc : h.Accepts) (peers : ι → SocketAddr) (world : ω)
    (sent : ι → List Str) (hblocks : ∀ i, WellFormed (sent i)) (schedule : List ι)
    (halone : ∀ r ∈ (serve ctx).rounds (.start ctx peers world sent) schedule, BeginsAlone r) :
    ∃ sys, ((serve ctx).run (.start ctx peers world sent) schedule).2 = .waiting sys ∧
      (∀ i, (callsOf i sys.log).map some ++ (sys.unread i).map lineCall =
        (sent i).map lineCall) ∧
      IsSerial sys.log ∧ Unmixed sys.log := by
  obtain ⟨sys, hexit, ho⟩ := (Orderly.start ctx peers world sent).run hreg hacc hblocks halone
  obtain ⟨owner, howned, -⟩ := ho.owner
  exact ⟨sys, hexit, ho.lines, howned.isSerial, howned.isSerial.unmixed⟩

/-- Two clients. The second one begins when the handler has seen the first
one finish, before the first one is told so. -/
theorem registrations_serial_two :
    let ctx : ServerContext Unit := { ServerContext.new with register := some .accepting }
    let sent : Bool → List Str := fun second =>
      if second then ["-register on del c@d".toList, "y".toList]
      else ["-register on add a@b".toList, "x".toList, "-register off".toList]
    let schedule := [false, false, false, false, false, true, false, true, true]
    ∃ sys, ((serve ctx).run (.start ctx (fun _ => ⟨[], 0⟩) () sent) schedule).2 = .waiting sys ∧
      (∀ i, (callsOf i sys.log).map some ++ (sys.unread i).map lineCall =
        (sent i).map lineCall) ∧
      IsSerial sys.log ∧ Unmixed sys.log := by
  intro ctx sent schedule
  refine registrations_serial _ .accepting rfl ⟨fun _ _ _ _ => rfl, fun _ _ => rfl, fun _ => rfl⟩
    _ _ _ ?_ _ (by decide)
  intro i
  cases i with
  | false =>
      exact .of_registrations [⟨"add".toList, "a@b".toList, [], ["x".toList]⟩] (by decide)
  | true =>
      exact .of_registrations [⟨"del".toList, "c@d".toList, [], ["y".toList]⟩] (by decide)

/-- Two registrations that are open at the same time: the second client
begins while the first one waits for its answer, and its line comes between
the `begin` and the `finish` of the first. -/
theorem registrations_mixed :
    let ctx : ServerContext Unit := { ServerContext.new with register := some .accepting }
    let sent : Bool → List Str := fun second =>
      if second then ["-register on del c@d".toList, "y".toList, "-register off".toList]
      else ["-register on add a@b".toList, "x".toList, "-register off".toList]
    let schedule := [false, true, true, true, false, false, false, false, true, true]
    let log := [(false, RegisterCall.begin "add".toList "a@b".toList []),
      (true, .begin "del".toList "c@d".toList []), (true, .acceptLine "y".toList),
      (false, .acceptLine "x".toList), (false, .finish), (true, .finish)]
    (∀ i, WellFormed (sent i)) ∧
      ((serve ctx).run (.start ctx (fun _ => ⟨[], 0⟩) () sent) schedule).2.waiting?.map System.log =
        some log ∧ ¬ Unmixed log := by
  intro ctx sent schedule log
  refine ⟨?_, by decide, ?_⟩
  · intro i
    cases i with
    | false =>
        exact .of_registrations [⟨"add".toList, "a@b".toList, [], ["x".toList]⟩] (by decide)
    | true =>
        exact .of_registrations [⟨"del".toList, "c@d".toList, [], ["y".toList]⟩] (by decide)
  · intro hunmixed
    have := hunmixed [] false "add".toList "a@b".toList []
      [(true, .begin "del".toList "c@d".toList [])] true (.acceptLine "y".toList)
      [(false, .acceptLine "x".toList), (false, .finish), (true, .finish)] rfl (by simp) (by simp)
    cases this

end Server

end Rwhois
