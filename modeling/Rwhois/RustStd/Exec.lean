import Mathlib.Data.List.DropRight

/-!
# RustStd — Exec

Calls of Rust methods that take `&mut self` and return `Result<α, ε>`,
as state-passing functions. A call ends in one of four ways: `Ok`, `Err`,
a PANIC (an index or a slice out of range), or not at all (`diverge`: a
loop that used up its fuel). The state it leaves behind is returned in
every case: an early `?` does not roll back what was assigned before it.

Nothing here is about one program: the callers instantiate the state and
the error type, and their proofs run on the rules of this module.
-/

namespace RustStd

/-- How a call ends. -/
inductive Outcome (ε α : Type) where
  | ok (a : α)
  | err (e : ε)
  | panic
  | diverge
  deriving Repr, DecidableEq

namespace Outcome

variable {ε α β : Type}

/-- The call came back to its caller with a `Result`. -/
def Returns : Outcome ε α → Prop
  | .ok _ | .err _ => True
  | .panic | .diverge => False

instance : (o : Outcome ε α) → Decidable o.Returns
  | .ok _ | .err _ => isTrue trivial
  | .panic | .diverge => isFalse id

def map (f : α → β) : Outcome ε α → Outcome ε β
  | .ok a => .ok (f a)
  | .err e => .err e
  | .panic => .panic
  | .diverge => .diverge

def bind (o : Outcome ε α) (f : α → Outcome ε β) : Outcome ε β :=
  match o with
  | .ok a => f a
  | .err e => .err e
  | .panic => .panic
  | .diverge => .diverge

def ofExcept : Except ε α → Outcome ε α
  | .ok a => .ok a
  | .error e => .err e

theorem ofExcept_injective {x y : Except ε α} (h : (ofExcept x : Outcome ε α) = ofExcept y) :
    x = y := by
  cases x <;> cases y <;> cases h <;> rfl

theorem returns_map {o : Outcome ε α} {f : α → β} : (o.map f).Returns ↔ o.Returns := by
  cases o <;> rfl

theorem map_eq_ok {o : Outcome ε α} {f : α → β} {b : β} :
    o.map f = .ok b ↔ ∃ a, o = .ok a ∧ f a = b := by
  cases o <;> simp [map]

@[simp] theorem map_eq_err {o : Outcome ε α} {f : α → β} {e : ε} :
    o.map f = .err e ↔ o = .err e := by
  cases o <;> simp [map]

@[simp] theorem bind_eq_err {o : Outcome ε α} {f : α → Outcome ε β} {e : ε} :
    o.bind f = .err e ↔ o = .err e ∨ ∃ a, o = .ok a ∧ f a = .err e := by
  cases o <;> simp [bind]

/-- The call came back, and an error it came back with is one of `E`. -/
def Within (E : ε → Prop) : Outcome ε α → Prop
  | .ok _ => True
  | .err e => E e
  | .panic | .diverge => False

end Outcome

/-- A method on `&mut σ`. -/
structure Exec (σ ε α : Type) where
  run : σ → Outcome ε α × σ

namespace Exec

variable {σ ε α β : Type}

/-- `x?` followed by the rest of the body. -/
protected def bind (x : Exec σ ε α) (f : α → Exec σ ε β) : Exec σ ε β where
  run s :=
    match x.run s with
    | (.ok a, s') => (f a).run s'
    | (.err e, s') => (.err e, s')
    | (.panic, s') => (.panic, s')
    | (.diverge, s') => (.diverge, s')

instance : Monad (Exec σ ε) where
  pure a := ⟨fun s => (.ok a, s)⟩
  bind := Exec.bind

/-- `return Err(e)`. -/
def throw (e : ε) : Exec σ ε α := ⟨fun s => (.err e, s)⟩

def get : Exec σ ε σ := ⟨fun s => (.ok s, s)⟩

def modify (f : σ → σ) : Exec σ ε Unit := ⟨fun s => (.ok (), f s)⟩

/-- A loop that ran out of fuel. -/
def diverge : Exec σ ε α := ⟨fun s => (.diverge, s)⟩

/-- A checked index or slice: `none` is where Rust panics. -/
def index (o : Option α) : Exec σ ε α where
  run s :=
    match o with
    | some a => (.ok a, s)
    | none => (.panic, s)

/-- `&xs[i..]` of a Rust slice. -/
def sliceFrom (xs : List β) (i : Nat) : Exec σ ε (List β) :=
  index (if i ≤ xs.length then some (xs.drop i) else none)

/-- `&xs[..i]` of a Rust slice. -/
def sliceTo (xs : List β) (i : Nat) : Exec σ ε (List β) :=
  index (if i ≤ xs.length then some (xs.take i) else none)

/-- A `Result` that is at hand, or a call that does not touch the state. -/
def ofOutcome (o : Outcome ε α) : Exec σ ε α := ⟨fun s => (o, s)⟩

/-- A call into code that always returns and is lent only a part of the
state. -/
def callOn {τ : Type} (view : σ → τ) (put : τ → σ → σ) (f : τ → Except ε α × τ) :
    Exec σ ε α :=
  ⟨fun s => (.ofExcept (f (view s)).1, put (f (view s)).2 s)⟩

/-- `match x { Ok(..) => .., Err(..) => .. }`: the `Result` as a value. -/
def attempt (x : Exec σ ε α) : Exec σ ε (Except ε α) where
  run s :=
    match x.run s with
    | (.ok a, s') => (.ok (.ok a), s')
    | (.err e, s') => (.ok (.error e), s')
    | (.panic, s') => (.panic, s')
    | (.diverge, s') => (.diverge, s')

@[simp] theorem run_pure (a : α) (s : σ) : (pure a : Exec σ ε α).run s = (.ok a, s) := rfl

@[simp] theorem run_throw (e : ε) (s : σ) : (throw e : Exec σ ε α).run s = (.err e, s) := rfl

@[simp] theorem run_get (s : σ) : (get : Exec σ ε σ).run s = (.ok s, s) := rfl

@[simp] theorem run_modify (f : σ → σ) (s : σ) :
    (modify f : Exec σ ε Unit).run s = (.ok (), f s) := rfl

@[simp] theorem run_index_some (a : α) (s : σ) :
    (index (some a) : Exec σ ε α).run s = (.ok a, s) := rfl

@[simp] theorem run_ofOutcome (o : Outcome ε α) (s : σ) :
    (ofOutcome o : Exec σ ε α).run s = (o, s) := rfl

theorem run_sliceFrom {xs : List β} {i : Nat} (h : i ≤ xs.length) (s : σ) :
    (sliceFrom xs i : Exec σ ε (List β)).run s = (.ok (xs.drop i), s) := by
  rw [sliceFrom, if_pos h, run_index_some]

theorem run_sliceTo {xs : List β} {i : Nat} (h : i ≤ xs.length) (s : σ) :
    (sliceTo xs i : Exec σ ε (List β)).run s = (.ok (xs.take i), s) := by
  rw [sliceTo, if_pos h, run_index_some]

theorem run_bind (x : Exec σ ε α) (f : α → Exec σ ε β) (s : σ) :
    (x >>= f).run s = match x.run s with
      | (.ok a, s') => (f a).run s'
      | (.err e, s') => (.err e, s')
      | (.panic, s') => (.panic, s')
      | (.diverge, s') => (.diverge, s') := rfl

theorem bind_bind {γ : Type} (x : Exec σ ε α) (f : α → Exec σ ε β) (g : β → Exec σ ε γ) :
    x >>= f >>= g = x >>= fun a => f a >>= g := by
  apply congrArg Exec.mk
  funext s
  show ((x >>= f) >>= g).run s = (x >>= fun a => f a >>= g).run s
  rw [run_bind, run_bind, run_bind]
  rcases x.run s with ⟨_ | _ | _ | _, s'⟩ <;> rfl

theorem pure_then (a : α) (f : α → Exec σ ε β) : pure a >>= f = f a := rfl

/-- The rule that runs a body past a call which came back `Ok`. -/
theorem run_bind_ok {x : Exec σ ε α} {s s' : σ} {a : α} (h : x.run s = (.ok a, s'))
    (f : α → Exec σ ε β) : (x >>= f).run s = (f a).run s' := by
  rw [run_bind, h]

/-- The rule of `?`: a block fails if a call in it fails. -/
theorem fails_bind {x : Exec σ ε α} {f : α → Exec σ ε β} {s : σ} {e : ε} :
    ((x >>= f).run s).1 = .err e ↔ (x.run s).1 = .err e ∨
      ∃ a s', x.run s = (.ok a, s') ∧ ((f a).run s').1 = .err e := by
  rw [run_bind]
  rcases x.run s with ⟨_ | _ | _ | _, s'⟩ <;> simp

theorem fails_callOn {τ : Type} {view : σ → τ} {put : τ → σ → σ} {g : τ → Except ε α × τ} {s : σ}
    {e : ε} : ((callOn view put g : Exec σ ε α).run s).1 = .err e ↔ (g (view s)).1 = .error e := by
  simp only [callOn]
  cases (g (view s)).1 <;> simp [Outcome.ofExcept]

theorem fails_callOn_bind {τ : Type} {view : σ → τ} {put : τ → σ → σ} {g : τ → Except ε α × τ}
    {f : α → Exec σ ε β} {s : σ} {e : ε} (h : (g (view s)).1 = .error e) :
    ((callOn view put g >>= f).run s).1 = .err e :=
  fails_bind.mpr (.inl (fails_callOn.mpr h))

/-- A call whose result is only mapped. -/
theorem run_bind_pure (x : Exec σ ε α) (g : α → β) (s : σ) :
    (x >>= fun a => Pure.pure (g a)).run s = ((x.run s).1.map g, (x.run s).2) := by
  rw [run_bind]
  rcases x.run s with ⟨_ | _ | _ | _, s'⟩ <;> rfl

@[simp] theorem run_pure_bind (a : α) (f : α → Exec σ ε β) (s : σ) :
    (Pure.pure a >>= f).run s = (f a).run s := rfl

@[simp] theorem run_get_bind (f : σ → Exec σ ε β) (s : σ) :
    (get >>= f).run s = (f s).run s := rfl

@[simp] theorem run_modify_bind (g : σ → σ) (f : Unit → Exec σ ε β) (s : σ) :
    (modify g >>= f).run s = (f ()).run (g s) := rfl

@[simp] theorem run_throw_bind (e : ε) (f : α → Exec σ ε β) (s : σ) :
    (throw e >>= f).run s = (.err e, s) := rfl

@[simp] theorem run_index_some_bind (a : α) (f : α → Exec σ ε β) (s : σ) :
    (index (some a) >>= f).run s = (f a).run s := rfl

/-! ## What a call keeps

The rules follow the constructs a body is made of, so a proof of `Keeps`
reads like the body. -/

/-- From a state in `P` the call comes back to a state in `P`, also when
it fails, and it fails with an error in `E`. -/
def Keeps (P : σ → Prop) (E : ε → Prop) (x : Exec σ ε α) : Prop :=
  ∀ s, P s → P (x.run s).2 ∧ (x.run s).1.Within E

section Keeps

variable {P : σ → Prop} {E : ε → Prop} {x : Exec σ ε α} {f : α → Exec σ ε β}

theorem Keeps.pure (a : α) : Keeps P E (Pure.pure a : Exec σ ε α) :=
  fun _ hs => ⟨hs, trivial⟩

theorem Keeps.throw {e : ε} (h : E e) : Keeps P E (Exec.throw e : Exec σ ε α) :=
  fun _ hs => ⟨hs, h⟩

theorem Keeps.ofOutcome {o : Outcome ε α} (h : o.Within E) :
    Keeps P E (Exec.ofOutcome o : Exec σ ε α) :=
  fun _ hs => ⟨hs, h⟩

theorem Keeps.modify {g : σ → σ} (h : ∀ s, P s → P (g s)) :
    Keeps P E (Exec.modify g : Exec σ ε Unit) :=
  fun s hs => ⟨h s hs, trivial⟩

theorem Keeps.callOn {τ : Type} {view : σ → τ} {put : τ → σ → σ} {g : τ → Except ε α × τ}
    (h : ∀ s, P s → P (put (g (view s)).2 s) ∧ ∀ e, (g (view s)).1 = .error e → E e) :
    Keeps P E (Exec.callOn view put g) := by
  intro s hs
  obtain ⟨hput, herr⟩ := h s hs
  refine ⟨hput, ?_⟩
  show (Outcome.ofExcept (g (view s)).1).Within E
  cases hg : (g (view s)).1 with
  | ok a => trivial
  | error e => exact herr e hg

theorem Keeps.bind (hx : Keeps P E x) (hf : ∀ a, Keeps P E (f a)) : Keeps P E (x >>= f) := by
  intro s hs
  have h := hx s hs
  rw [run_bind]
  -- only an `Ok` of the first part goes on
  rcases hrun : x.run s with ⟨o, s'⟩
  rw [hrun] at h
  cases o with
  | ok a => exact hf a s' h.1
  | err e => exact h
  | panic => exact h.2.elim
  | diverge => exact h.2.elim

/-- What is read from the state is in `P`. -/
theorem Keeps.get_bind {f : σ → Exec σ ε β} (hf : ∀ s, P s → Keeps P E (f s)) :
    Keeps P E (Exec.get >>= f) :=
  fun s hs => hf s hs s hs

theorem Keeps.forM {xs : List α} {f : α → Exec σ ε Unit} (hf : ∀ a ∈ xs, Keeps P E (f a)) :
    Keeps P E (xs.forM f) := by
  induction xs with
  | nil => exact .pure ()
  | cons a xs ih => exact (hf a (by simp)).bind fun _ => ih fun b hb => hf b (by simp [hb])

end Keeps

/-- The call comes back from every state. -/
abbrev Returns (x : Exec σ ε α) : Prop := Keeps (fun _ => True) (fun _ => True) x

theorem Returns.throw (e : ε) : Returns (Exec.throw e : Exec σ ε α) := Keeps.throw trivial

theorem Returns.modify (g : σ → σ) : Returns (Exec.modify g : Exec σ ε Unit) :=
  Keeps.modify fun _ _ => trivial

theorem Returns.callOn {τ : Type} (view : σ → τ) (put : τ → σ → σ) (g : τ → Except ε α × τ) :
    Returns (Exec.callOn view put g) :=
  Keeps.callOn fun _ _ => ⟨trivial, fun _ _ => trivial⟩

theorem Returns.ofOutcome {o : Outcome ε α} (h : o.Returns) :
    Returns (Exec.ofOutcome o : Exec σ ε α) := by
  apply Keeps.ofOutcome
  cases o with
  | ok a => trivial
  | err e => trivial
  | panic => exact h
  | diverge => exact h

theorem Returns.exists_except {x : Exec σ ε α} (h : Returns x) (s : σ) :
    ∃ result, (x.run s).1 = .ofExcept result := by
  have hs := (h s trivial).2
  cases ho : (x.run s).1 with
  | ok a => exact ⟨.ok a, rfl⟩
  | err e => exact ⟨.error e, rfl⟩
  | panic =>
      rw [ho] at hs
      exact hs.elim
  | diverge =>
      rw [ho] at hs
      exact hs.elim

/-! ## What a call leaves alone -/

/-- However the call ends, the part of the state that `view` shows is as
before. -/
def Preserves {τ : Type} (view : σ → τ) (x : Exec σ ε α) : Prop :=
  ∀ s, view (x.run s).2 = view s

section Preserves

variable {τ : Type} {view : σ → τ}

theorem Preserves.pure (a : α) : Preserves view (Pure.pure a : Exec σ ε α) := fun _ => rfl

theorem Preserves.throw (e : ε) : Preserves view (Exec.throw e : Exec σ ε α) := fun _ => rfl

theorem Preserves.get : Preserves view (Exec.get : Exec σ ε σ) := fun _ => rfl

theorem Preserves.ofOutcome (o : Outcome ε α) :
    Preserves view (Exec.ofOutcome o : Exec σ ε α) := fun _ => rfl

theorem Preserves.modify {g : σ → σ} (h : ∀ s, view (g s) = view s) :
    Preserves view (Exec.modify g : Exec σ ε Unit) := h

theorem Preserves.bind {x : Exec σ ε α} {f : α → Exec σ ε β} (hx : Preserves view x)
    (hf : ∀ a, Preserves view (f a)) : Preserves view (x >>= f) := by
  intro s
  have h := hx s
  rw [run_bind]
  rcases hrun : x.run s with ⟨o, s'⟩
  rw [hrun] at h
  cases o with
  | ok a => exact (hf a s').trans h
  | err e => exact h
  | panic => exact h
  | diverge => exact h

theorem Preserves.forM {xs : List α} {f : α → Exec σ ε Unit} (hf : ∀ a, Preserves view (f a)) :
    Preserves view (xs.forM f) := by
  induction xs with
  | nil => exact .pure ()
  | cons a xs ih => exact (hf a).bind fun _ => ih

end Preserves

/-! ## What a call can return -/

/-- Whenever the call comes back `Ok`, it is with `a`. -/
def Yields (a : α) (x : Exec σ ε α) : Prop := ∀ s b, (x.run s).1 = .ok b → b = a

theorem Yields.pure (a : α) : Yields a (Pure.pure a : Exec σ ε α) := by
  rintro s b ⟨⟩
  rfl

theorem Yields.throw (a : α) (e : ε) : Yields a (Exec.throw e : Exec σ ε α) := by
  intro s b h
  cases h

theorem Yields.bind {b : β} {x : Exec σ ε α} {f : α → Exec σ ε β} (hf : ∀ a, Yields b (f a)) :
    Yields b (x >>= f) := by
  intro s c h
  rw [run_bind] at h
  rcases hrun : x.run s with ⟨o, s'⟩
  rw [hrun] at h
  cases o with
  | ok a => exact hf a s' c h
  | err e => cases h
  | panic => cases h
  | diverge => cases h

theorem Yields.map {a : α} {x : Exec σ ε α} (h : Yields a x) (f : α → β) :
    Yields (f a) (x >>= fun b => Pure.pure (f b)) := by
  intro s c hc
  rw [run_bind_pure] at hc
  cases hrun : (x.run s).1 with
  | ok b =>
      rw [hrun] at hc
      cases hc
      rw [h s b hrun]
  | err e =>
      rw [hrun] at hc
      cases hc
  | panic =>
      rw [hrun] at hc
      cases hc
  | diverge =>
      rw [hrun] at hc
      cases hc

end Exec

end RustStd
