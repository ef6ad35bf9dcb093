import Mathlib.Data.List.Basic

/-!
# RustStd — Sync

A semaphore as a plain counter of permits, and the saturating addition of
`u32`.
-/

namespace RustStd

structure Semaphore where
  permits : Nat
  deriving Repr, DecidableEq

namespace Semaphore

def new (permits : Nat) : Semaphore := { permits }

def addPermits (self : Semaphore) (n : Nat) : Semaphore := { permits := self.permits + n }

/-- `try_acquire`: the semaphore without the permit, if there is one. -/
def tryAcquire (self : Semaphore) : Option Semaphore :=
  if self.permits = 0 then none else some { permits := self.permits - 1 }

/-- `acquire_many(n)` does not wait. -/
def CanAcquireMany (self : Semaphore) (n : Nat) : Prop := n ≤ self.permits

instance (self : Semaphore) (n : Nat) : Decidable (self.CanAcquireMany n) :=
  inferInstanceAs (Decidable (n ≤ self.permits))

@[simp] theorem permits_addPermits (self : Semaphore) (n : Nat) :
    (self.addPermits n).permits = self.permits + n := rfl

theorem tryAcquire_eq_some {self rest : Semaphore} (h : self.tryAcquire = some rest) :
    rest.addPermits 1 = self := by
  obtain ⟨permits⟩ := self
  simp only [tryAcquire] at h
  split at h
  · cases h
  · cases h
    simp only [addPermits, mk.injEq]
    omega

theorem tryAcquire_eq_none {self : Semaphore} (h : self.tryAcquire = none) : self = .new 0 := by
  obtain ⟨permits⟩ := self
  simpa [tryAcquire, new] using h

end Semaphore

/-- `u32::MAX`. -/
def u32Max : UInt32 := 0xFFFFFFFF

/-- `u32::saturating_add`. -/
def saturatingAdd (a b : UInt32) : UInt32 :=
  if a.toNat + b.toNat < UInt32.size then a + b else u32Max

theorem toNat_saturatingAdd (a b : UInt32) :
    (saturatingAdd a b).toNat = min (a.toNat + b.toNat) (UInt32.size - 1) := by
  unfold saturatingAdd UInt32.size
  split
  · rw [UInt32.toNat_add]
    omega
  · show 4294967295 = _
    omega

end RustStd
