import Rwhois.RustStd.Str
import Rwhois.RustStd.Exec

/-!
# CStd

C strings in a buffer. A routine gets the bytes of a `char` array and
changes them in place; the string is what stands before the first NUL, and
behind the NUL there may be anything. A load or a store outside of the
array is undefined behaviour, which is modelled as a panic: what is proved
about a routine here includes that it has none.

`Rewrites x s t` says what a routine does to the string in its buffer,
whatever is behind it. The character classes are those of the C locale.
-/

namespace CStd

open RustStd

def NUL : UInt8 := 0

def iscntrl (b : UInt8) : Bool := b < 0x20 || b == 0x7F

def isspace (b : UInt8) : Bool := b == 0x20 || (0x09 ≤ b && b ≤ 0x0D)

section Buffer

variable {ε : Type}

/-- `str[i]`. -/
def load (i : Nat) : Exec Bytes ε UInt8 := do
  let buf ← Exec.get
  Exec.index buf[i]?

/-- `str[i] = b`. -/
def store (i : Nat) (b : UInt8) : Exec Bytes ε Unit := do
  let buf ← Exec.get
  let buf' ← Exec.index (if i < buf.length then some (buf.set i b) else none)
  Exec.modify fun _ => buf'

/-- `while (p(str[i])) i++`. -/
def scanFrom (p : UInt8 → Bool) : Nat → Nat → Exec Bytes ε Nat
  | 0, _ => Exec.diverge
  | fuel + 1, i => do
      let b ← load i
      if p b then scanFrom p fuel (i + 1) else pure i

/-- Enough fuel for one run over the array. -/
def scan (p : UInt8 → Bool) (i : Nat) : Exec Bytes ε Nat := do
  let buf ← Exec.get
  scanFrom p (buf.length + 1) i

def strlen : Exec Bytes ε Nat := scan (· != NUL) 0

/-- The string in a buffer. -/
def text (buf : Bytes) : Bytes := buf.takeWhile (· != NUL)

theorem text_append {s : Bytes} (h : NUL ∉ s) (junk : Bytes) : text (s ++ NUL :: junk) = s := by
  have hall : ∀ b ∈ s, (b != NUL) = true := by
    intro b hb
    rw [bne_iff_ne]
    rintro rfl
    exact h hb
  rw [text, List.takeWhile_append_of_pos hall, List.takeWhile_cons_of_neg (by decide),
    List.append_nil]

/-! ## Running over a buffer -/

theorem run_load (pre : Bytes) (b : UInt8) (rest : Bytes) :
    (load pre.length : Exec Bytes ε UInt8).run (pre ++ b :: rest) = (.ok b, pre ++ b :: rest) := by
  rw [load, Exec.run_get_bind, List.getElem?_append_right le_rfl, Nat.sub_self]
  rfl

theorem run_store (pre : Bytes) (c : UInt8) (rest : Bytes) (b : UInt8) :
    (store pre.length b : Exec Bytes ε Unit).run (pre ++ c :: rest) =
      (.ok (), pre ++ b :: rest) := by
  have hlt : pre.length < (pre ++ c :: rest).length := by simp
  rw [store, Exec.run_get_bind, if_pos hlt, Exec.run_index_some_bind, Exec.run_modify,
    List.set_append_right _ _ le_rfl, Nat.sub_self]
  rfl

/-- The index runs over `run` and stops in front of `b`. -/
theorem run_scanFrom {p : UInt8 → Bool} {run : Bytes} (hrun : ∀ x ∈ run, p x = true) {b : UInt8}
    (hb : p b = false) (rest : Bytes) {fuel : Nat} (hfuel : run.length < fuel) (pre : Bytes) :
    (scanFrom p fuel pre.length : Exec Bytes ε Nat).run (pre ++ (run ++ b :: rest)) =
      (.ok (pre.length + run.length), pre ++ (run ++ b :: rest)) := by
  induction run generalizing pre fuel with
  | nil =>
      obtain ⟨fuel, rfl⟩ : ∃ n, fuel = n + 1 := ⟨fuel - 1, by omega⟩
      rw [scanFrom, List.nil_append, Exec.run_bind_ok (run_load pre b rest), hb]
      rfl
  | cons x run ih =>
      obtain ⟨fuel, rfl⟩ : ∃ n, fuel = n + 1 := ⟨fuel - 1, by omega⟩
      have hx : p x = true := hrun x List.mem_cons_self
      have hshort : run.length < fuel := by
        rw [List.length_cons] at hfuel
        omega
      have hnext := ih (fun y hy => hrun y (List.mem_cons_of_mem x hy)) hshort (pre ++ [x])
      rw [scanFrom, List.cons_append, Exec.run_bind_ok (run_load pre x _), if_pos hx]
      simp only [List.length_append, List.length_singleton, List.append_assoc,
        List.singleton_append] at hnext
      rw [hnext, List.length_cons, Nat.add_assoc, Nat.add_comm 1]

theorem run_scan {p : UInt8 → Bool} {run : Bytes} (hrun : ∀ x ∈ run, p x = true) {b : UInt8}
    (hb : p b = false) (rest : Bytes) :
    (scan p 0 : Exec Bytes ε Nat).run (run ++ b :: rest) = (.ok run.length, run ++ b :: rest) := by
  have hfuel : run.length < (run ++ b :: rest).length + 1 := by
    rw [List.length_append]
    omega
  have h := run_scanFrom (ε := ε) hrun hb rest hfuel []
  rw [scan, Exec.run_get_bind]
  simpa using h

theorem run_strlen {s : Bytes} (h : NUL ∉ s) (junk : Bytes) :
    (strlen : Exec Bytes ε Nat).run (s ++ NUL :: junk) = (.ok s.length, s ++ NUL :: junk) := by
  apply run_scan
  · intro b hb
    rw [bne_iff_ne]
    rintro rfl
    exact h hb
  · rfl

/-! ## Moving bytes to the front

A loop that writes behind what it reads keeps its buffer in three parts:
what is done, a gap of bytes that are not needed any more, and what is
still to be read. -/

/-- A byte that has been read belongs to the gap, and the first byte of
the gap can be written. -/
theorem exists_gap (gap : Bytes) (b : UInt8) :
    ∃ c gap', gap'.length = gap.length ∧ ∀ todo, gap ++ b :: todo = c :: (gap' ++ todo) := by
  cases gap with
  | nil => exact ⟨b, [], rfl, fun _ => rfl⟩
  | cons c gap => exact ⟨c, gap ++ [b], by simp, fun todo => by simp⟩

/-! ## Lines -/

/-- In front of the line feed stands the line, and perhaps a carriage
return. -/
theorem exists_cr {line term : Bytes} (hlf : (0x0A : UInt8) ∉ line)
    (hterm : term = [0x0A] ∨ term = [0x0D, 0x0A]) :
    ∃ cr : Bytes, line ++ term = line ++ cr ++ [0x0A] ∧ (0x0A : UInt8) ∉ line ++ cr ∧
      (cr = [] ∨ cr = [0x0D]) := by
  rcases hterm with rfl | rfl
  · exact ⟨[], by simp, by simpa using hlf, .inl rfl⟩
  · exact ⟨[0x0D], by simp, by simp [hlf], .inr rfl⟩

/-! ## What a routine does to a string -/

/-- The routine turns the string `s` in its buffer into `t`. -/
def Rewrites (x : Exec Bytes ε Unit) (s t : Bytes) : Prop :=
  ∀ junk, ∃ junk', x.run (s ++ NUL :: junk) = (.ok (), t ++ NUL :: junk')

theorem Rewrites.bind {x y : Exec Bytes ε Unit} {s t u : Bytes} (hx : Rewrites x s t)
    (hy : Rewrites y t u) : Rewrites (do x; y) s u := by
  intro junk
  obtain ⟨junk', hrun⟩ := hx junk
  obtain ⟨junk'', hrun'⟩ := hy junk'
  exact ⟨junk'', (Exec.run_bind_ok hrun _).trans hrun'⟩

end Buffer

end CStd
