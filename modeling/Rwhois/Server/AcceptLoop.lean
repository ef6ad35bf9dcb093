import Rwhois.RustStd.Loop
import Rwhois.RustStd.Sync
import Rwhois.Wire.Response

/-!
# Server — AcceptLoop

`serve_with_shutdown` as a state machine over what can happen next: a
connection arrives, a connection task ends, the shutdown signal comes, the
drain is over. Any interleaving is a list of such events; an event that is
not possible ends the run.

The loop counts the tasks it spawned in a `u32` and every task that runs
to its end puts one permit into `drain`. On shutdown it waits for as many
permits as it counted. The count saturates: after `u32::MAX` connections
it stands still while the permits go on, and the wait ends early.
-/

namespace Rwhois

open RustStd

namespace AcceptLoop

/-- A task that runs `run_connection`. -/
inductive TaskState where
  /-- `permit`: it holds one of the connection permits. -/
  | running (permit : Bool)
  /-- It reached the end of its body. -/
  | finished
  | panicked
  deriving Repr, DecidableEq

/-- The locals of `serve_with_shutdown` and the tasks it spawned. -/
structure State where
  connLimit : Option Semaphore
  drain : Semaphore
  spawned : UInt32
  tasks : List TaskState
  /-- The loop was left through the shutdown signal. -/
  draining : Bool
  deriving Repr, DecidableEq

inductive Event where
  | accept
  | acceptFailed
  /-- The task with this number comes to its end. -/
  | finished (task : Nat)
  | panicked (task : Nat)
  | shutdown
  /-- The wait for the permits is over. -/
  | drained
  deriving Repr, DecidableEq

inductive Step where
  | spawned
  | refused (sent : Bytes)
  | ended
  | draining
  | returned (result : Except Error Unit)

/-- `max_connections` as `bind` reads it: 0 is no limit. -/
def State.start (maxConnections : Nat) : State where
  connLimit := if maxConnections = 0 then none else some (.new maxConnections)
  drain := .new 0
  spawned := 0
  tasks := []
  draining := false

/-- A task is spawned; its permit was taken from `connLimit`. -/
def State.spawn (s : State) (connLimit : Option Semaphore) (permit : Bool) : State :=
  { s with
    connLimit
    spawned := saturatingAdd s.spawned 1
    tasks := s.tasks ++ [.running permit] }

/-- The permit of a task is dropped with it. -/
def dropPermit (permit : Bool) (connLimit : Option Semaphore) : Option Semaphore :=
  if permit then connLimit.map (·.addPermits 1) else connLimit

def refusal : Bytes :=
  writeError [] .SERVICE_NOT_AVAILABLE (some "server at capacity".toList)

def step (s : State) : Event → Option (Step × State)
  | .accept =>
      if s.draining then none
      else
        match s.connLimit with
        | none => some (.spawned, s.spawn none false)
        | some sem =>
            match sem.tryAcquire with
            | some sem' => some (.spawned, s.spawn (some sem') true)
            -- `continue`, before `spawned` is counted
            | none => some (.refused refusal, s)
  | .acceptFailed => if s.draining then none else some (.returned (.error .io), s)
  | .finished i =>
      match s.tasks[i]? with
      | some (.running permit) =>
          some (.ended, { s with
            connLimit := dropPermit permit s.connLimit
            drain := s.drain.addPermits 1
            tasks := s.tasks.set i .finished })
      | _ => none
  | .panicked i =>
      -- the body is left before `add_permits`
      match s.tasks[i]? with
      | some (.running permit) =>
          some (.ended, { s with
            connLimit := dropPermit permit s.connLimit
            tasks := s.tasks.set i .panicked })
      | _ => none
  | .shutdown => if s.draining then none else some (.draining, { s with draining := true })
  | .drained =>
      -- nothing was spawned: `acquire_many` is not even called
      if s.draining ∧ (s.spawned > 0 → s.drain.CanAcquireMany s.spawned.toNat) then
        some (.returned (.ok ()), s)
      else none

def Step.isReturn : Step → Bool
  | .returned _ => true
  | _ => false

/-- `serve_with_shutdown`. -/
def serveWithShutdown : Loop State Event Step where
  body := step
  returns := Step.isReturn

/-! ## What a step can do -/

/-- The steps with their guards. -/
inductive State.Takes (s : State) : Event → Step → State → Prop where
  | spawned (hopen : s.draining = false) (connLimit : Option Semaphore) (permit : Bool)
      (hpermit : dropPermit permit connLimit = s.connLimit)
      (hcap : permit = s.connLimit.isSome) : Takes s .accept .spawned (s.spawn connLimit permit)
  | refused (hopen : s.draining = false) (hfull : s.connLimit = some (.new 0)) :
      Takes s .accept (.refused refusal) s
  | acceptFailed (hopen : s.draining = false) : Takes s .acceptFailed (.returned (.error .io)) s
  | finished {i : Nat} {permit : Bool} (htask : s.tasks[i]? = some (.running permit)) :
      Takes s (.finished i) .ended { s with
        connLimit := dropPermit permit s.connLimit
        drain := s.drain.addPermits 1
        tasks := s.tasks.set i .finished }
  | panicked {i : Nat} {permit : Bool} (htask : s.tasks[i]? = some (.running permit)) :
      Takes s (.panicked i) .ended { s with
        connLimit := dropPermit permit s.connLimit
        tasks := s.tasks.set i .panicked }
  | shutdown (hopen : s.draining = false) :
      Takes s .shutdown .draining { s with draining := true }
  | drained (hdraining : s.draining = true) (hpermits : s.spawned.toNat ≤ s.drain.permits) :
      Takes s .drained (.returned (.ok ())) s

theorem takes_of_step {s s' : State} {e : Event} {r : Step} (h : step s e = some (r, s')) :
    s.Takes e r s' := by
  cases e with
  | accept =>
      simp only [step] at h
      split at h
      · cases h
      · rename_i hopen
        have hopen : s.draining = false := by simpa using hopen
        cases hlimit : s.connLimit with
        | none =>
            rw [hlimit] at h
            cases h
            exact .spawned hopen none false hlimit.symm (by simp [hlimit])
        | some sem =>
            rw [hlimit] at h
            cases htry : sem.tryAcquire with
            | none =>
                simp only [htry] at h
                cases h
                exact .refused hopen (by rw [hlimit, Semaphore.tryAcquire_eq_none htry])
            | some rest =>
                simp only [htry] at h
                cases h
                refine .spawned hopen (some rest) true ?_ (by simp [hlimit])
                simp [dropPermit, hlimit, Semaphore.tryAcquire_eq_some htry]
  | acceptFailed =>
      simp only [step] at h
      split at h
      · cases h
      · rename_i hopen
        cases h
        exact .acceptFailed (by simpa using hopen)
  | finished i =>
      simp only [step] at h
      split at h
      · rename_i permit htask
        cases h
        exact .finished htask
      · cases h
  | panicked i =>
      simp only [step] at h
      split at h
      · rename_i permit htask
        cases h
        exact .panicked htask
      · cases h
  | shutdown =>
      simp only [step] at h
      split at h
      · cases h
      · rename_i hopen
        cases h
        exact .shutdown (by simpa using hopen)
  | drained =>
      simp only [step] at h
      split at h
      · rename_i hdone
        cases h
        refine .drained hdone.1 ?_
        -- a count of zero needs no permit
        by_cases hpos : s.spawned > 0
        · exact hdone.2 hpos
        · have hzero : s.spawned.toNat = 0 := by
            rw [gt_iff_lt, UInt32.lt_iff_toNat_lt] at hpos
            simpa using hpos
          omega
      · cases h

/-- `Ok` is returned only behind the wait. -/
theorem State.Takes.returned_ok {s s' : State} {e : Event}
    (h : s.Takes e (.returned (.ok ())) s') : s' = s ∧ s.spawned.toNat ≤ s.drain.permits := by
  cases h with
  | drained hdraining hpermits => exact ⟨rfl, hpermits⟩

/-! ## The count and the permits -/

/-- The loop counted every task, and every finished task left a permit. -/
structure Counted (s : State) : Prop where
  spawned : s.spawned.toNat = s.tasks.length
  drain : s.drain.permits = s.tasks.count .finished

/-- There is room in the count for a connection that is not refused. -/
def HasRoom (s : State) (e : Event) : Prop :=
  e = .accept → s.connLimit ≠ some (.new 0) → s.spawned ≠ u32Max

instance (s : State) (e : Event) : Decidable (HasRoom s e) :=
  inferInstanceAs (Decidable (e = .accept → s.connLimit ≠ some (.new 0) → s.spawned ≠ u32Max))

theorem Counted.start (maxConnections : Nat) : Counted (.start maxConnections) := ⟨rfl, rfl⟩

theorem toNat_saturatingAdd_one {n : UInt32} (h : n ≠ u32Max) :
    (saturatingAdd n 1).toNat = n.toNat + 1 := by
  have hlt : n.toNat < UInt32.size := n.toNat_lt
  have hne : n.toNat ≠ UInt32.size - 1 := fun heq => h (UInt32.toNat_inj.mp heq)
  rw [toNat_saturatingAdd]
  show min (n.toNat + 1) _ = _
  omega

/-- A task that is spawned took a permit that was there. -/
theorem connLimit_ne_full {connLimit : Option Semaphore} {permit : Bool} {before : Option Semaphore}
    (hpermit : dropPermit permit connLimit = before) (hcap : permit = before.isSome) :
    before ≠ some (.new 0) := by
  rintro rfl
  subst hcap
  cases connLimit <;> simp [dropPermit, Semaphore.addPermits, Semaphore.new] at hpermit

theorem count_set_of_running {tasks : List TaskState} {i : Nat} {permit : Bool}
    (h : tasks[i]? = some (.running permit)) (state : TaskState) :
    (tasks.set i state).count .finished =
      tasks.count .finished + if state = .finished then 1 else 0 := by
  obtain ⟨hi, hget⟩ := List.getElem?_eq_some_iff.mp h
  rw [List.count_set hi, hget]
  simp

/-- Every finished task left a permit, and no other one. -/
theorem State.Takes.drain {s s' : State} {e : Event} {r : Step} (htakes : s.Takes e r s')
    (h : s.drain.permits = s.tasks.count .finished) :
    s'.drain.permits = s'.tasks.count .finished := by
  cases htakes with
  | spawned hopen connLimit permit hpermit hcap =>
      show s.drain.permits = (s.tasks ++ [TaskState.running permit]).count .finished
      rw [List.count_append, h]
      simp
  | refused hopen hfull => exact h
  | acceptFailed hopen => exact h
  | finished htask =>
      show s.drain.permits + 1 = _
      rw [count_set_of_running htask, h]
      rfl
  | panicked htask =>
      show s.drain.permits = _
      rw [count_set_of_running htask, h]
      rfl
  | shutdown hopen => exact h
  | drained hdraining hpermits => exact h

theorem Counted.step {s s' : State} {e : Event} {r : Step} (htakes : s.Takes e r s')
    (hroom : HasRoom s e) (h : Counted s) : Counted s' := by
  refine ⟨?_, htakes.drain h.drain⟩
  cases htakes with
  | spawned hopen connLimit permit hpermit hcap =>
      have hne := hroom rfl (connLimit_ne_full hpermit hcap)
      show (saturatingAdd s.spawned 1).toNat = (s.tasks ++ [TaskState.running permit]).length
      rw [toNat_saturatingAdd_one hne, h.spawned, List.length_append, List.length_singleton]
  | refused hopen hfull => exact h.spawned
  | acceptFailed hopen => exact h.spawned
  | finished htask => simpa using h.spawned
  | panicked htask => simpa using h.spawned
  | shutdown hopen => exact h.spawned
  | drained hdraining hpermits => exact h.spawned

/-- As many permits as tasks: all of them are finished. -/
theorem Counted.all_finished {s : State} (h : Counted s)
    (hpermits : s.spawned.toNat ≤ s.drain.permits) : ∀ task ∈ s.tasks, task = .finished := by
  have hcount : s.tasks.count .finished = s.tasks.length := by
    have hle : s.tasks.count .finished ≤ s.tasks.length := List.count_le_length
    rw [h.spawned, h.drain] at hpermits
    omega
  intro task htask
  exact (List.count_eq_length.mp hcount task htask).symm

/-- **Graceful shutdown does not return early**, on any interleaving in
which no task is spawned when the count stands at its maximum. -/
theorem shutdown_awaits_tasks (maxConnections : Nat) (events : List Event)
    (hroom : ∀ r ∈ serveWithShutdown.rounds (.start maxConnections) events,
      HasRoom r.before r.input) :
    ∀ r ∈ serveWithShutdown.rounds (.start maxConnections) events,
      r.result = .returned (.ok ()) → ∀ task ∈ r.after.tasks, task = .finished := by
  have hcounted : ∀ s ∈ serveWithShutdown.visited (.start maxConnections) events, Counted s :=
    Loop.visited_of_keeps
      (fun r hr hdoes h => h.step (takes_of_step hdoes) (hroom r hr)) (Counted.start maxConnections)
  intro r hr hresult
  have htakes := takes_of_step (Loop.does_of_mem_rounds hr).1
  rw [hresult] at htakes
  obtain ⟨hafter, hpermits⟩ := htakes.returned_ok
  rw [hafter]
  exact (hcounted r.before (Loop.before_mem_visited hr)).all_finished hpermits

/-- Three connections on two permits; one ends before the signal, one
behind it, and one is refused. -/
theorem shutdown_awaits_tasks_refused :
    let events := [Event.accept, .accept, .accept, .finished 0, .shutdown, .finished 1, .drained]
    (serveWithShutdown.rounds (.start 2) events).length = 7 ∧
      ∀ r ∈ serveWithShutdown.rounds (.start 2) events,
        r.result = .returned (.ok ()) → ∀ task ∈ r.after.tasks, task = .finished :=
  ⟨by decide, shutdown_awaits_tasks 2 _ (by decide)⟩

/-! ## Tasks that die

The permit for `drain` is put there by the last statement of the task's
body. A task that panics never gets to it, while the loop has counted it. -/

def TaskState.isRunning : TaskState → Bool
  | .running _ => true
  | _ => false

/-- Every task has come to its end, in whatever way. -/
def State.AllEnded (s : State) : Prop := ∀ task ∈ s.tasks, task.isRunning = false

instance (s : State) : Decidable s.AllEnded :=
  inferInstanceAs (Decidable (∀ task ∈ s.tasks, task.isRunning = false))

/-- No task died, and the loop counted no task twice. The count may stand
still, so this holds on every run. -/
structure Unharmed (s : State) : Prop where
  spawned : s.spawned.toNat ≤ s.tasks.length
  drain : s.drain.permits = s.tasks.count .finished
  alive : .panicked ∉ s.tasks

theorem Unharmed.start (maxConnections : Nat) : Unharmed (.start maxConnections) :=
  ⟨Nat.le_refl 0, rfl, List.not_mem_nil⟩

theorem toNat_saturatingAdd_one_le (n : UInt32) : (saturatingAdd n 1).toNat ≤ n.toNat + 1 := by
  rw [toNat_saturatingAdd]
  exact Nat.min_le_left _ _

theorem State.Takes.spawned_le {s s' : State} {e : Event} {r : Step} (htakes : s.Takes e r s')
    (h : s.spawned.toNat ≤ s.tasks.length) : s'.spawned.toNat ≤ s'.tasks.length := by
  cases htakes with
  | spawned hopen connLimit permit hpermit hcap =>
      have hle := toNat_saturatingAdd_one_le s.spawned
      show (saturatingAdd s.spawned 1).toNat ≤ (s.tasks ++ [TaskState.running permit]).length
      rw [List.length_append, List.length_singleton]
      omega
  | refused hopen hfull => exact h
  | acceptFailed hopen => exact h
  | finished htask => simpa using h
  | panicked htask => simpa using h
  | shutdown hopen => exact h
  | drained hdraining hpermits => exact h

theorem State.Takes.alive {s s' : State} {e : Event} {r : Step} (htakes : s.Takes e r s')
    (halive : ∀ task, e ≠ .panicked task) (h : .panicked ∉ s.tasks) : .panicked ∉ s'.tasks := by
  cases htakes with
  | spawned hopen connLimit permit hpermit hcap => simpa [State.spawn] using h
  | refused hopen hfull => exact h
  | acceptFailed hopen => exact h
  | finished htask =>
      intro hmem
      rcases List.mem_or_eq_of_mem_set hmem with hmem | heq
      · exact h hmem
      · cases heq
  | panicked htask => exact absurd rfl (halive _)
  | shutdown hopen => exact h
  | drained hdraining hpermits => exact h

theorem Unharmed.step {s s' : State} {e : Event} {r : Step} (htakes : s.Takes e r s')
    (halive : ∀ task, e ≠ .panicked task) (h : Unharmed s) : Unharmed s' where
  spawned := htakes.spawned_le h.spawned
  drain := htakes.drain h.drain
  alive := htakes.alive halive h.alive

/-- Tasks that neither run nor died are finished, and each left its permit. -/
theorem Unharmed.canAcquireMany {s : State} (h : Unharmed s) (hended : s.AllEnded) :
    s.drain.CanAcquireMany s.spawned.toNat := by
  have hfinished : ∀ task ∈ s.tasks, .finished = task := by
    intro task htask
    cases task with
    | running permit => cases hended _ htask
    | finished => rfl
    | panicked => exact absurd htask h.alive
  show s.spawned.toNat ≤ s.drain.permits
  rw [h.drain, List.count_eq_length.mpr hfinished]
  exact h.spawned

/-- **Graceful shutdown is not blocked**, on any interleaving in which no
task panics: once the last task has ended, the permits are there. -/
theorem drain_enabled (maxConnections : Nat) (events : List Event)
    (halive : ∀ r ∈ serveWithShutdown.rounds (.start maxConnections) events,
      ∀ task, r.input ≠ .panicked task) :
    ∀ s ∈ serveWithShutdown.visited (.start maxConnections) events,
      s.draining = true → s.AllEnded → s.drain.CanAcquireMany s.spawned.toNat := by
  have hunharmed : ∀ s ∈ serveWithShutdown.visited (.start maxConnections) events, Unharmed s :=
    Loop.visited_of_keeps
      (fun r hr hdoes h => h.step (takes_of_step hdoes) (halive r hr))
      (Unharmed.start maxConnections)
  intro s hs _ hended
  exact (hunharmed s hs).canAcquireMany hended

/-- Two connections on a server without a limit; the state behind the last
event is one of those the theorem speaks of. -/
theorem drain_enabled_two :
    let run := serveWithShutdown.visited (.start 0) [.accept, .accept, .finished 1, .shutdown, .finished 0]
    (∃ s ∈ run, s.draining = true ∧ s.AllEnded) ∧
      ∀ s ∈ run, s.draining = true → s.AllEnded → s.drain.CanAcquireMany s.spawned.toNat := by
  refine ⟨by decide, drain_enabled 0 _ ?_⟩
  intro r hr task heq
  have hmem := (Loop.does_of_mem_rounds hr).2
  rw [heq] at hmem
  simp at hmem

/-- One connection whose task dies: nothing can happen any more behind the
signal, and the loop has not returned. -/
theorem drain_blocked :
    ∃ s ∈ serveWithShutdown.visited (.start 128) [.accept, .panicked 0, .shutdown],
      s.draining = true ∧ s.AllEnded ∧ ¬ s.drain.CanAcquireMany s.spawned.toNat ∧
        ∀ e, step s e = none := by
  refine ⟨⟨some (.new 128), .new 0, 1, [.panicked], true⟩, by decide, rfl, by decide, by decide, ?_⟩
  intro e
  cases e with
  | accept => rfl
  | acceptFailed => rfl
  | finished i => rcases i with _ | i <;> rfl
  | panicked i => rcases i with _ | i <;> rfl
  | shutdown => rfl
  | drained => rfl

/-! ## When the count stands still -/

/-- `n` connections, each one gone before the next one comes. -/
def churn : Nat → List Event
  | 0 => []
  | n + 1 => churn n ++ [.accept, .finished n]

/-- The loop behind `churn n`. -/
def idle (maxConnections n : Nat) : State where
  connLimit := (State.start maxConnections).connLimit
  drain := .new n
  spawned := UInt32.ofNat (min n (UInt32.size - 1))
  tasks := List.replicate n .finished
  draining := false

theorem spawned_idle (n : Nat) :
    saturatingAdd (UInt32.ofNat (min n (UInt32.size - 1))) 1 =
      UInt32.ofNat (min (n + 1) (UInt32.size - 1)) := by
  have hsize : 0 < UInt32.size := by decide
  have hofNat : ∀ m, (UInt32.ofNat (min m (UInt32.size - 1))).toNat = min m (UInt32.size - 1) :=
    fun m => UInt32.toNat_ofNat_of_lt' (show min m (UInt32.size - 1) < UInt32.size by omega)
  apply UInt32.toNat_inj.mp
  rw [toNat_saturatingAdd, hofNat, hofNat]
  show min (min n _ + 1) _ = _
  omega

/-- An idle loop takes a connection. -/
theorem step_idle_accept (maxConnections n : Nat) :
    ∃ connLimit permit, step (idle maxConnections n) .accept =
        some (.spawned, (idle maxConnections n).spawn connLimit permit) ∧
      dropPermit permit connLimit = (State.start maxConnections).connLimit := by
  by_cases hmax : maxConnections = 0
  · exact ⟨none, false, by simp [step, idle, State.start, hmax], by simp [State.start, hmax, dropPermit]⟩
  · refine ⟨some (.new (maxConnections - 1)), true, ?_, ?_⟩
    · simp [step, idle, State.start, hmax, Semaphore.tryAcquire, Semaphore.new]
    · simp only [State.start, hmax, dropPermit, if_true, if_false, Option.map_some,
        Semaphore.addPermits, Semaphore.new]
      congr 2
      omega

/-- The task of that connection comes to its end. -/
theorem step_idle_finished {maxConnections : Nat} (n : Nat) {connLimit : Option Semaphore}
    {permit : Bool} (h : dropPermit permit connLimit = (State.start maxConnections).connLimit) :
    step ((idle maxConnections n).spawn connLimit permit) (.finished n) =
      some (.ended, idle maxConnections (n + 1)) := by
  have htask : ((idle maxConnections n).spawn connLimit permit).tasks[n]? =
      some (.running permit) := by
    simp [State.spawn, idle]
  have htasks : (List.replicate n TaskState.finished ++ [TaskState.running permit]).set n .finished =
      List.replicate (n + 1) .finished := by
    rw [List.set_append_right _ _ (by simp), List.replicate_succ']
    simp
  simp only [step, htask]
  simp only [State.spawn, idle, h, spawned_idle, htasks]
  rfl

theorem run_churn (maxConnections n : Nat) :
    (serveWithShutdown.run (.start maxConnections) (churn n)).2 =
      .waiting (idle maxConnections n) := by
  induction n with
  | zero => rfl
  | succ n ih =>
      obtain ⟨connLimit, permit, haccept, hdrop⟩ := step_idle_accept maxConnections n
      rw [churn, (Loop.run_append ih _).2, Loop.exit_next haccept rfl,
        Loop.exit_next (step_idle_finished n hdrop) rfl]
      rfl

/-- One more connection after `u32::MAX` others, and the signal while it
runs: the permits of the others are enough. -/
theorem returns_early (maxConnections : Nat) {n : Nat} (hn : UInt32.size - 1 ≤ n) :
    ∃ r ∈ serveWithShutdown.rounds (.start maxConnections)
        (churn n ++ [.accept, .shutdown, .drained]),
      r.result = .returned (.ok ()) ∧ ∃ permit, .running permit ∈ r.after.tasks := by
  obtain ⟨connLimit, permit, haccept, -⟩ := step_idle_accept maxConnections n
  have hspawned : saturatingAdd (idle maxConnections n).spawned 1 = u32Max := by
    show saturatingAdd (UInt32.ofNat (min n (UInt32.size - 1))) 1 = _
    rw [spawned_idle, Nat.min_eq_right (by omega)]
    rfl
  -- the loop has left `select!` with the task still running
  have hshutdown : step ((idle maxConnections n).spawn connLimit permit) .shutdown =
      some (.draining, { (idle maxConnections n).spawn connLimit permit with draining := true }) := rfl
  have hdrained : step { (idle maxConnections n).spawn connLimit permit with draining := true }
      .drained = some (.returned (.ok ()),
        { (idle maxConnections n).spawn connLimit permit with draining := true }) := by
    refine if_pos ⟨rfl, fun _ => ?_⟩
    show (saturatingAdd (idle maxConnections n).spawned 1).toNat ≤ n
    rw [hspawned]
    exact hn
  rw [(Loop.run_append (run_churn maxConnections n) _).1, Loop.rounds_next haccept rfl,
    Loop.rounds_next hshutdown rfl, Loop.rounds_return hdrained rfl]
  refine ⟨_, List.mem_append_right _ (List.mem_cons_of_mem _ (List.mem_cons_of_mem _
    List.mem_cons_self)), rfl, permit, ?_⟩
  simp [State.spawn]

/-- With the default limit of 128 connections. -/
theorem shutdown_returns_early :
    ∃ events, ∃ r ∈ serveWithShutdown.rounds (.start 128) events,
      r.result = .returned (.ok ()) ∧ ∃ permit, .running permit ∈ r.after.tasks :=
  ⟨_, returns_early 128 (Nat.le_refl _)⟩

end AcceptLoop

end Rwhois
