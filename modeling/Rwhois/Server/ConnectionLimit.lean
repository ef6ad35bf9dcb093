import Rwhois.Server.AcceptLoop
import Rwhois.Wire.RoundTrip

/-!
# Server — ConnectionLimit

`max_connections` over all interleavings. A permit is taken when a task is
spawned and comes back when the task is dropped, however it ends; a
refused connection takes none. So the permits and the tasks that run make
up the limit in every state.
-/

namespace Rwhois

open RustStd

namespace AcceptLoop

/-- The connection tasks that run. -/
def State.live (s : State) : Nat := s.tasks.countP TaskState.isRunning

/-- Every task that runs holds one of the `n` permits; the others are free. -/
structure Capped (n : Nat) (s : State) : Prop where
  held : ∀ task ∈ s.tasks, task ≠ .running false
  balance : ∃ free, s.connLimit = some (.new free) ∧ s.live + free = n

theorem Capped.start {n : Nat} (hn : 0 < n) : Capped n (.start n) where
  held := by simp [State.start]
  balance := ⟨n, if_neg (by omega), Nat.zero_add n⟩

theorem live_spawn (s : State) (connLimit : Option Semaphore) (permit : Bool) :
    (s.spawn connLimit permit).live = s.live + 1 := by
  show (s.tasks ++ [TaskState.running permit]).countP TaskState.isRunning = _
  rw [List.countP_append]
  rfl

/-- A task that ends runs no longer. -/
theorem countP_set_of_running {tasks : List TaskState} {i : Nat} {permit : Bool} {ended : TaskState}
    (h : tasks[i]? = some (.running permit)) (hended : ended.isRunning = false) :
    (tasks.set i ended).countP TaskState.isRunning + 1 = tasks.countP TaskState.isRunning := by
  obtain ⟨hi, hget⟩ := List.getElem?_eq_some_iff.mp h
  have hmem : TaskState.running permit ∈ tasks := hget ▸ List.getElem_mem hi
  have hpos : 0 < tasks.countP TaskState.isRunning := List.countP_pos_iff.mpr ⟨_, hmem, rfl⟩
  rw [List.countP_set hi, hget, hended]
  simp only [TaskState.isRunning, if_true, Bool.false_eq_true, if_false]
  omega

/-- A permit that was taken out leaves one less. -/
theorem dropPermit_eq_some {connLimit : Option Semaphore} {free : Nat}
    (h : dropPermit true connLimit = some (.new free)) :
    ∃ rest, connLimit = some (.new rest) ∧ rest + 1 = free := by
  cases connLimit with
  | none => cases h
  | some sem =>
      obtain ⟨rest⟩ := sem
      refine ⟨rest, rfl, ?_⟩
      simpa [dropPermit, Semaphore.addPermits, Semaphore.new] using h

section Step

variable {n : Nat} {s s' : State} {e : Event} {r : Step}

/-- The task takes its permit along, whether it ran to its end or died. -/
theorem Capped.ended {i : Nat} {permit : Bool} {ended : TaskState} {drain : Semaphore}
    (h : Capped n s) (htask : s.tasks[i]? = some (.running permit))
    (hended : ended.isRunning = false) :
    Capped n { s with
      connLimit := dropPermit permit s.connLimit
      drain
      tasks := s.tasks.set i ended } := by
  obtain ⟨held, free, hlimit, hbalance⟩ := h
  have hpermit : permit = true := by
    cases permit with
    | true => rfl
    | false => exact absurd rfl (held _ (List.mem_of_getElem? htask))
  subst hpermit
  constructor
  · intro task hmem
    rcases List.mem_or_eq_of_mem_set hmem with hmem | rfl
    · exact held task hmem
    · intro heq
      rw [heq] at hended
      cases hended
  · refine ⟨free + 1, by rw [hlimit]; rfl, ?_⟩
    have hlive := countP_set_of_running htask hended
    show (s.tasks.set i ended).countP TaskState.isRunning + (free + 1) = n
    unfold State.live at hbalance
    omega

theorem Capped.step (htakes : s.Takes e r s') (h : Capped n s) : Capped n s' := by
  cases htakes with
  | spawned hopen connLimit permit hpermit hcap =>
      obtain ⟨held, free, hlimit, hbalance⟩ := h
      obtain rfl : permit = true := by rw [hcap, hlimit]; rfl
      obtain ⟨rest, hrest, hfree⟩ := dropPermit_eq_some (hpermit.trans hlimit)
      constructor
      · intro task hmem
        rcases List.mem_append.mp hmem with hmem | hmem
        · exact held task hmem
        · obtain rfl := List.mem_singleton.mp hmem
          simp
      · refine ⟨rest, hrest, ?_⟩
        rw [live_spawn]
        omega
  | refused hopen hfull => exact h
  | acceptFailed hopen => exact h
  | finished htask => exact h.ended htask rfl
  | panicked htask => exact h.ended htask rfl
  | shutdown hopen => exact ⟨h.held, h.balance⟩
  | drained hdraining hpermits => exact h

/-- A connection is refused when no permit is left, which is when `n`
tasks run. -/
theorem Capped.refused_iff (htakes : s.Takes .accept r s') (h : Capped n s) :
    r = .refused refusal ↔ s.live = n := by
  obtain ⟨-, free, hlimit, hbalance⟩ := h
  cases htakes with
  | spawned hopen connLimit permit hpermit hcap =>
      obtain rfl : permit = true := by rw [hcap, hlimit]; rfl
      obtain ⟨rest, -, hfree⟩ := dropPermit_eq_some (hpermit.trans hlimit)
      constructor
      · intro hr
        cases hr
      · intro hlive
        omega
  | refused hopen hfull =>
      have hzero : free = 0 := by simpa [Semaphore.new] using hlimit.symm.trans hfull
      refine ⟨fun _ => ?_, fun _ => rfl⟩
      omega

/-- A task that ends, in whichever way, leaves one task less and one permit
more. -/
theorem Capped.ends {i : Nat} (htakes : s.Takes e r s') (h : Capped n s)
    (hend : e = .finished i ∨ e = .panicked i) :
    s'.live + 1 = s.live ∧
      ∃ free, s.connLimit = some (.new free) ∧ s'.connLimit = some (.new (free + 1)) := by
  have hafter := h.step htakes
  have hlive : s'.live + 1 = s.live := by
    rcases hend with rfl | rfl
    · cases htakes with
      | finished htask => exact countP_set_of_running htask rfl
    · cases htakes with
      | panicked htask => exact countP_set_of_running htask rfl
  obtain ⟨-, free, hlimit, hbalance⟩ := h
  obtain ⟨-, free', hlimit', hbalance'⟩ := hafter
  obtain rfl : free' = free + 1 := by omega
  exact ⟨hlive, free, hlimit, hlimit'⟩

end Step

/-- A refused client reads one error. -/
theorem refusal_reads : ∃ text, fromUtf8 refusal = some text ∧
    (splitTerminator text).map ResponseLine.parse =
      [.error 501 "Service Not Available".toList (some "server at capacity".toList)] := by
  have hno : ¬ ": ".toList <:+: ResponseCode.SERVICE_NOT_AVAILABLE.message := fun h =>
    absurd (h.subset (by decide : ':' ∈ ": ".toList)) (by decide)
  have hdetail : IsLine "server at capacity".toList := by decide
  have hclean : (Terminator.error .SERVICE_NOT_AVAILABLE
      (some "server at capacity".toList)).Clean := ⟨by decide, by simpa using hdetail⟩
  have hreadable : (Terminator.error .SERVICE_NOT_AVAILABLE
      (some "server at capacity".toList)).Readable := ⟨hno, by decide⟩
  obtain ⟨text, htext, hlines⟩ := reply_lines (List.forall_mem_nil WriterOp.Clean) hclean
  refine ⟨text, htext, ?_⟩
  rw [hlines, List.map_nil, List.nil_append, List.map_singleton,
    Terminator.parse_line hreadable]
  rfl

/-- **The connection cap**, on any interleaving: free permits and live
tasks make up the limit, a connection is refused with an error if and only
if the limit is reached, a refused one changes nothing, and a task that
ends gives its permit back. -/
theorem connections_capped (n : Nat) (hn : 0 < n) (events : List Event) :
    (∀ s ∈ serveWithShutdown.visited (.start n) events,
      s.live ≤ n ∧ ∃ free, s.connLimit = some (.new free) ∧ s.live + free = n) ∧
    (∀ r ∈ serveWithShutdown.rounds (.start n) events, r.input = .accept →
      (r.result = .refused refusal ↔ r.before.live = n) ∧
      (r.before.live = n → r.after = r.before) ∧
      (r.before.live ≠ n → r.after.live = r.before.live + 1)) ∧
    (∀ r ∈ serveWithShutdown.rounds (.start n) events, ∀ i,
      r.input = .finished i ∨ r.input = .panicked i →
      r.after.live + 1 = r.before.live ∧ ∃ free, r.before.connLimit = some (.new free) ∧
        r.after.connLimit = some (.new (free + 1))) ∧
    ∃ text, fromUtf8 refusal = some text ∧ (splitTerminator text).map ResponseLine.parse =
      [.error 501 "Service Not Available".toList (some "server at capacity".toList)] := by
  have hcapped : ∀ s ∈ serveWithShutdown.visited (.start n) events, Capped n s :=
    Loop.visited_of_keeps
      (fun r hr hdoes h => h.step (takes_of_step hdoes)) (Capped.start hn)
  refine ⟨?_, ?_, ?_, refusal_reads⟩
  · intro s hs
    obtain ⟨free, hlimit, hbalance⟩ := (hcapped s hs).balance
    exact ⟨by omega, free, hlimit, hbalance⟩
  · intro r hr hinput
    have htakes := takes_of_step (Loop.does_of_mem_rounds hr).1
    rw [hinput] at htakes
    have hiff := (hcapped r.before (Loop.before_mem_visited hr)).refused_iff htakes
    refine ⟨hiff, ?_⟩
    generalize r.before = s, r.after = s', r.result = res at htakes hiff
    cases htakes with
    | spawned hopen connLimit permit hpermit hcap =>
        exact ⟨fun hlive => (by cases hiff.mpr hlive), fun _ => live_spawn s connLimit permit⟩
    | refused hopen hfull => exact ⟨fun _ => rfl, fun hlive => absurd (hiff.mp rfl) hlive⟩
  · intro r hr i hend
    have htakes := takes_of_step (Loop.does_of_mem_rounds hr).1
    exact (hcapped r.before (Loop.before_mem_visited hr)).ends htakes hend

/-- One permit: the second connection is refused, the task that dies makes
room for the third one, and that one gives its permit back at its end. -/
theorem connections_capped_one :
    let events := [Event.accept, .accept, .panicked 0, .accept, .finished 1]
    let visited := serveWithShutdown.visited (.start 1) events
    visited.map (fun s => (s.live, s.connLimit)) = [(0, some (.new 1)), (1, some (.new 0)),
        (1, some (.new 0)), (0, some (.new 1)), (1, some (.new 0)), (0, some (.new 1))] ∧
      (∀ s ∈ visited,
        s.live ≤ 1 ∧ ∃ free, s.connLimit = some (.new free) ∧ s.live + free = 1) ∧
      ∀ r ∈ serveWithShutdown.rounds (.start 1) events, ∀ i,
        r.input = .finished i ∨ r.input = .panicked i →
        r.after.live + 1 = r.before.live ∧ ∃ free, r.before.connLimit = some (.new free) ∧
          r.after.connLimit = some (.new (free + 1)) := by
  intro events visited
  obtain ⟨hbalance, -, hends, -⟩ := connections_capped 1 (by decide) events
  exact ⟨by decide, hbalance, hends⟩

end AcceptLoop

end Rwhois
