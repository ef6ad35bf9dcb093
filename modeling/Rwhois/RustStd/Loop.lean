import Mathlib.Data.List.Basic

/-!
# RustStd — Loop

A `loop { .. }` that takes one input a round and may `return`: the list
of its rounds, each with the state before and after it, and where it
stands when the inputs are used up. A body that does not come back (a
panic) ends the list.

Claims about whole runs are claims about this list. The rules at the end
carry a fact of one round through all of them.
-/

namespace RustStd

/-- One round of a loop. -/
structure Round (σ α ρ : Type) where
  before : σ
  input : α
  result : ρ
  after : σ

/-- Where a loop stands behind its last input. -/
inductive Exit (σ : Type) where
  | waiting (s : σ)
  | returned (s : σ)
  | stuck

def Exit.waiting? {σ : Type} : Exit σ → Option σ
  | .waiting s => some s
  | _ => none

theorem Exit.eq_waiting {σ : Type} {e : Exit σ} {s : σ} (h : e.waiting? = some s) :
    e = .waiting s := by
  cases e with
  | waiting t =>
      cases h
      rfl
  | returned t => cases h
  | stuck => cases h

structure Loop (σ α ρ : Type) where
  body : σ → α → Option (ρ × σ)
  /-- The round ends in a `return`. -/
  returns : ρ → Bool

namespace Loop

variable {σ α ρ τ : Type} (l : Loop σ α ρ)

def run : σ → List α → List (Round σ α ρ) × Exit σ
  | s, [] => ([], .waiting s)
  | s, a :: as =>
      match l.body s a with
      | none => ([], .stuck)
      | some (r, s') =>
          if l.returns r then ([⟨s, a, r, s'⟩], .returned s')
          else (⟨s, a, r, s'⟩ :: (run s' as).1, (run s' as).2)

def rounds (s : σ) (as : List α) : List (Round σ α ρ) := (l.run s as).1

/-- All states between two rounds, the first one included. -/
def visited (s : σ) (as : List α) : List σ := s :: (l.rounds s as).map Round.after

/-- The body does what the round says. -/
def Does (r : Round σ α ρ) : Prop := l.body r.before r.input = some (r.result, r.after)

variable {l} {s t : σ} {as : List α}

/-! ## How a run unfolds -/

theorem run_stuck {a : α} (h : l.body s a = none) : l.run s (a :: as) = ([], .stuck) := by
  rw [run, h]

theorem run_return {a : α} {res : ρ} {s' : σ} (h : l.body s a = some (res, s'))
    (hret : l.returns res = true) :
    l.run s (a :: as) = ([⟨s, a, res, s'⟩], .returned s') := by
  simp only [run, h, hret, if_true]

theorem run_next {a : α} {res : ρ} {s' : σ} (h : l.body s a = some (res, s'))
    (hret : l.returns res = false) :
    l.run s (a :: as) = (⟨s, a, res, s'⟩ :: l.rounds s' as, (l.run s' as).2) := by
  simp only [run, h, hret, Bool.false_eq_true, if_false, rounds]

theorem rounds_stuck {a : α} (h : l.body s a = none) : l.rounds s (a :: as) = [] := by
  rw [rounds, run_stuck h]

theorem rounds_return {a : α} {res : ρ} {s' : σ} (h : l.body s a = some (res, s'))
    (hret : l.returns res = true) : l.rounds s (a :: as) = [⟨s, a, res, s'⟩] := by
  rw [rounds, run_return h hret]

theorem rounds_next {a : α} {res : ρ} {s' : σ} (h : l.body s a = some (res, s'))
    (hret : l.returns res = false) :
    l.rounds s (a :: as) = ⟨s, a, res, s'⟩ :: l.rounds s' as := by
  rw [rounds, run_next h hret]

theorem exit_next {a : α} {res : ρ} {s' : σ} (h : l.body s a = some (res, s'))
    (hret : l.returns res = false) : (l.run s (a :: as)).2 = (l.run s' as).2 := by
  rw [run_next h hret]

/-- **Induction along a run**: no input is left, the body does not come
back, the round returns, or the run goes on behind it. -/
theorem run_induction {motive : σ → List α → Prop} (nil : ∀ s, motive s [])
    (stuck : ∀ s a as, l.body s a = none → motive s (a :: as))
    (done : ∀ s a as res s', l.body s a = some (res, s') → l.returns res = true →
      motive s (a :: as))
    (next : ∀ s a as res s', l.body s a = some (res, s') → l.returns res = false →
      motive s' as → motive s (a :: as))
    (s : σ) (as : List α) : motive s as := by
  induction as generalizing s with
  | nil => exact nil s
  | cons a as ih =>
      -- as `run` splits
      cases hbody : l.body s a with
      | none => exact stuck s a as hbody
      | some p =>
          obtain ⟨res, s'⟩ := p
          cases hret : l.returns res with
          | true => exact done s a as res s' hbody hret
          | false => exact next s a as res s' hbody hret (ih s')

/-! ## Runs as a whole -/

/-- A run that still waits goes on where it stands. -/
theorem run_append (h : (l.run s as).2 = .waiting t) (bs : List α) :
    l.rounds s (as ++ bs) = l.rounds s as ++ l.rounds t bs ∧
      (l.run s (as ++ bs)).2 = (l.run t bs).2 := by
  induction s, as using run_induction (l := l) with
  | nil s =>
      cases h
      exact ⟨rfl, rfl⟩
  | stuck s a as hbody =>
      rw [run_stuck hbody] at h
      cases h
  | done s a as res s' hbody hret =>
      rw [run_return hbody hret] at h
      cases h
  | next s a as res s' hbody hret ih =>
      rw [exit_next hbody hret] at h
      obtain ⟨hrounds, hexit⟩ := ih h
      rw [List.cons_append, rounds_next hbody hret, rounds_next hbody hret, exit_next hbody hret,
        hrounds]
      exact ⟨rfl, hexit⟩

/-- The inputs are taken in their order. -/
theorem inputs_initial (s : σ) (as : List α) : (l.rounds s as).map Round.input <+: as := by
  induction s, as using run_induction (l := l) with
  | nil s => exact List.prefix_rfl
  | stuck s a as hbody =>
      rw [rounds_stuck hbody]
      exact List.nil_prefix
  | done s a as res s' hbody hret =>
      rw [rounds_return hbody hret]
      exact List.cons_prefix_cons.mpr ⟨rfl, List.nil_prefix⟩
  | next s a as res s' hbody hret ih =>
      rw [rounds_next hbody hret]
      exact List.cons_prefix_cons.mpr ⟨rfl, ih⟩

/-- Every round is one of the body, on an input of the run. -/
theorem does_of_mem_rounds {r : Round σ α ρ} (h : r ∈ l.rounds s as) : l.Does r ∧ r.input ∈ as := by
  induction s, as using run_induction (l := l) with
  | nil s => cases h
  | stuck s a as hbody =>
      rw [rounds_stuck hbody] at h
      cases h
  | done s a as res s' hbody hret =>
      rw [rounds_return hbody hret] at h
      obtain rfl := List.mem_singleton.mp h
      exact ⟨hbody, List.mem_cons_self⟩
  | next s a as res s' hbody hret ih =>
      rw [rounds_next hbody hret] at h
      rcases List.mem_cons.mp h with rfl | h
      · exact ⟨hbody, List.mem_cons_self⟩
      · obtain ⟨hdoes, hmem⟩ := ih h
        exact ⟨hdoes, List.mem_cons_of_mem a hmem⟩

/-- **Invariants.** What every round keeps holds all along the run. -/
theorem visited_of_keeps {P : σ → Prop}
    (hkeeps : ∀ r ∈ l.rounds s as, l.Does r → P r.before → P r.after) (h : P s) :
    ∀ t ∈ l.visited s as, P t := by
  intro t ht
  induction s, as using run_induction (l := l) with
  | nil s =>
      obtain rfl := List.mem_singleton.mp ht
      exact h
  | stuck s a as hbody =>
      rw [visited, rounds_stuck hbody] at ht
      obtain rfl := List.mem_singleton.mp ht
      exact h
  | done s a as res s' hbody hret =>
      rw [visited, rounds_return hbody hret] at ht
      rw [rounds_return hbody hret] at hkeeps
      rcases List.mem_cons.mp ht with rfl | ht
      · exact h
      · obtain rfl := List.mem_singleton.mp ht
        exact hkeeps _ List.mem_cons_self hbody h
  | next s a as res s' hbody hret ih =>
      rw [visited, rounds_next hbody hret] at ht
      rw [rounds_next hbody hret] at hkeeps
      rcases List.mem_cons.mp ht with rfl | ht
      · exact h
      · have h' : P s' := hkeeps _ List.mem_cons_self hbody h
        exact ih (fun r hr => hkeeps r (List.mem_cons_of_mem _ hr)) h' ht

/-- Where a run waits it has come by. -/
theorem waiting_mem_visited (h : (l.run s as).2 = .waiting t) : t ∈ l.visited s as := by
  induction s, as using run_induction (l := l) with
  | nil s =>
      cases h
      exact List.mem_cons_self
  | stuck s a as hbody =>
      rw [run_stuck hbody] at h
      cases h
  | done s a as res s' hbody hret =>
      rw [run_return hbody hret] at h
      cases h
  | next s a as res s' hbody hret ih =>
      rw [exit_next hbody hret] at h
      rw [visited, rounds_next hbody hret]
      exact List.mem_cons_of_mem s (ih h)

theorem before_mem_visited {r : Round σ α ρ} (h : r ∈ l.rounds s as) :
    r.before ∈ l.visited s as := by
  induction s, as using run_induction (l := l) with
  | nil s => cases h
  | stuck s a as hbody =>
      rw [rounds_stuck hbody] at h
      cases h
  | done s a as res s' hbody hret =>
      rw [rounds_return hbody hret] at h
      obtain rfl := List.mem_singleton.mp h
      exact List.mem_cons_self
  | next s a as res s' hbody hret ih =>
      rw [visited]
      rw [rounds_next hbody hret] at h ⊢
      rcases List.mem_cons.mp h with rfl | h
      · exact List.mem_cons_self
      · exact List.mem_cons_of_mem s (ih h)

/-- A loop that still waits has handled every input and returned in no
round. -/
theorem inputs_of_waiting (h : (l.run s as).2 = .waiting t) :
    (l.rounds s as).map Round.input = as ∧ ∀ r ∈ l.rounds s as, l.returns r.result = false := by
  induction s, as using run_induction (l := l) with
  | nil s => exact ⟨rfl, by rintro r ⟨⟩⟩
  | stuck s a as hbody =>
      rw [run_stuck hbody] at h
      cases h
  | done s a as res s' hbody hret =>
      rw [run_return hbody hret] at h
      cases h
  | next s a as res s' hbody hret ih =>
      rw [exit_next hbody hret] at h
      obtain ⟨hinputs, hopen⟩ := ih h
      rw [rounds_next hbody hret]
      refine ⟨by rw [List.map_cons, hinputs], ?_⟩
      intro r hr
      rcases List.mem_cons.mp hr with rfl | hr
      · exact hret
      · exact hopen r hr

/-- A body that answers every input gets no run stuck. -/
theorem exit_ne_stuck (h : ∀ s, ∀ a ∈ as, ∃ res s', l.body s a = some (res, s')) (s : σ) :
    (l.run s as).2 ≠ .stuck := by
  induction s, as using run_induction (l := l) with
  | nil s => simp [run]
  | stuck s a as hbody =>
      obtain ⟨res, s', hsome⟩ := h s a List.mem_cons_self
      rw [hbody] at hsome
      cases hsome
  | done s a as res s' hbody hret => simp [run_return hbody hret]
  | next s a as res s' hbody hret ih =>
      rw [exit_next hbody hret]
      exact ih fun t b hb => h t b (List.mem_cons_of_mem a hb)

/-- Where a round begins: the loop waits there behind the rounds before. -/
theorem waiting_before {before after : List (Round σ α ρ)} {r : Round σ α ρ}
    (h : l.rounds s as = before ++ r :: after) :
    (l.run s (before.map Round.input)).2 = .waiting r.before ∧
      l.rounds s (before.map Round.input) = before ∧
      ∃ rest, as = before.map Round.input ++ r.input :: rest := by
  induction s, as using run_induction (l := l) generalizing before with
  | nil s => cases before <;> cases h
  | stuck s a as hbody =>
      rw [rounds_stuck hbody] at h
      cases before <;> cases h
  | done s a as res s' hbody hret =>
      rw [rounds_return hbody hret] at h
      cases before with
      | nil =>
          obtain ⟨rfl, -⟩ := List.cons.inj h
          exact ⟨rfl, rfl, as, rfl⟩
      | cons b before => cases before <;> cases (List.cons.inj h).2
  | next s a as res s' hbody hret ih =>
      rw [rounds_next hbody hret] at h
      cases before with
      | nil =>
          obtain ⟨rfl, -⟩ := List.cons.inj h
          exact ⟨rfl, rfl, as, rfl⟩
      | cons b before =>
          obtain ⟨rfl, htail⟩ := List.cons.inj h
          obtain ⟨hwait, hrounds, rest, hrest⟩ := ih htail
          refine ⟨(exit_next hbody hret).trans hwait, ?_, rest, by rw [hrest]; rfl⟩
          rw [List.map_cons, rounds_next hbody hret, hrounds]

/-- The rounds from one of them on are a run of their own. -/
theorem rounds_from {before after : List (Round σ α ρ)} {r : Round σ α ρ}
    (h : l.rounds s as = before ++ r :: after) :
    ∃ rest, as = before.map Round.input ++ r.input :: rest ∧
      r :: after = l.rounds r.before (r.input :: rest) ∧
      (l.run s as).2 = (l.run r.before (r.input :: rest)).2 := by
  obtain ⟨hwait, hrounds, rest, hrest⟩ := waiting_before h
  obtain ⟨happend, hexit⟩ := run_append hwait (r.input :: rest)
  rw [← hrest] at happend hexit
  refine ⟨rest, hrest, ?_, hexit⟩
  rw [happend, hrounds] at h
  exact (List.append_cancel_left h).symm

/-- A loop that was left has a last round, which returned. -/
theorem last_of_returned (h : (l.run s as).2 = .returned t) :
    ∃ before r, l.rounds s as = before ++ [r] ∧ r.after = t := by
  induction s, as using run_induction (l := l) with
  | nil s => cases h
  | stuck s a as hbody =>
      rw [run_stuck hbody] at h
      cases h
  | done s a as res s' hbody hret =>
      rw [run_return hbody hret] at h
      exact ⟨[], ⟨s, a, res, s'⟩, rounds_return hbody hret, Exit.returned.inj h⟩
  | next s a as res s' hbody hret ih =>
      rw [exit_next hbody hret] at h
      obtain ⟨before, r, hlast, hafter⟩ := ih h
      refine ⟨⟨s, a, res, s'⟩ :: before, r, ?_, hafter⟩
      rw [rounds_next hbody hret, hlast, List.cons_append]

/-- A round returns if and only if the loop is left with it. -/
theorem returns_iff {before after : List (Round σ α ρ)} {r : Round σ α ρ}
    (h : l.rounds s as = before ++ r :: after) :
    l.returns r.result = true ↔ after = [] ∧ (l.run s as).2 = .returned r.after := by
  have hdoes : l.body r.before r.input = some (r.result, r.after) :=
    (does_of_mem_rounds (by rw [h]; simp)).1
  obtain ⟨rest, -, hrounds, hexit⟩ := rounds_from h
  rw [hexit]
  cases hret : l.returns r.result with
  | true =>
      rw [rounds_return hdoes hret] at hrounds
      rw [run_return hdoes hret]
      exact iff_of_true rfl ⟨(List.cons.inj hrounds).2, rfl⟩
  | false =>
      rw [rounds_next hdoes hret] at hrounds
      rw [exit_next hdoes hret]
      refine iff_of_false Bool.false_ne_true ?_
      rintro ⟨rfl, hreturned⟩
      -- the run behind the round would have a round of its own
      obtain ⟨init, last, hlast, -⟩ := last_of_returned hreturned
      have hnil := (List.cons.inj hrounds).2
      rw [hlast] at hnil
      simp at hnil

/-- **Last writer wins.** A part of the state that a round either
overwrites or keeps has the value of the last round that overwrote it. -/
theorem last_of_waiting (view : σ → τ) {write : Round σ α ρ → Option τ}
    (hview : ∀ r, l.Does r → view r.after = (write r).getD (view r.before))
    (h : (l.run s as).2 = .waiting t) :
    view t = ((l.rounds s as).reverse.findSome? write).getD (view s) := by
  induction s, as using run_induction (l := l) with
  | nil s =>
      cases h
      rfl
  | stuck s a as hbody =>
      rw [run_stuck hbody] at h
      cases h
  | done s a as res s' hbody hret =>
      rw [run_return hbody hret] at h
      cases h
  | next s a as res s' hbody hret ih =>
      rw [exit_next hbody hret] at h
      have hfirst : view s' = (write ⟨s, a, res, s'⟩).getD (view s) :=
        hview ⟨s, a, res, s'⟩ hbody
      rw [ih h, hfirst, rounds_next hbody hret, List.reverse_cons, List.findSome?_append]
      cases (l.rounds s' as).reverse.findSome? write with
      | some v => rfl
      | none =>
          rw [Option.none_or, List.findSome?_cons]
          cases write ⟨s, a, res, s'⟩ <;> rfl

end Loop

end RustStd
