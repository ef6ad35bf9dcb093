import Rwhois.CStd
import Mathlib.Data.List.DropRight

/-!
# Reference — StrUtil

The clean-up of the C reference server: `strip_control`, `rtrim`, `ltrim`
and `trim` (`common/strutil.c`), and `readline` (`common/misc.c`), which
reads a line and cleans it. All of them work in place, on the buffer that
`fgets` has filled.

`strip_control` and `ltrim` write behind what they read, `rtrim` writes
NULs from the end on. Each of them comes down to a function on the string
(`stripControl_rewrites` and its like), so `readline` does as well.
-/

namespace Rwhois

open RustStd CStd

namespace Reference

variable {ε : Type}

/-- The bytes that `strip_control` keeps. -/
def keeps (b : UInt8) : Bool := !iscntrl b || b == 0x09

/-- `for (i = 0, j = 0; i < len; i++)`: the first argument is what is left
of `len`. Returns `j`. -/
def stripControlLoop : Nat → Nat → Nat → Exec Bytes ε Nat
  | 0, _, j => pure j
  | left + 1, i, j => do
      let b ← load i
      if keeps b then do
        store j b
        stripControlLoop left (i + 1) (j + 1)
      else
        stripControlLoop left (i + 1) j

def stripControl : Exec Bytes ε Unit := do
  let len ← strlen
  let j ← stripControlLoop len 0 0
  store j NUL

/-- `for (i = strlen(str) - 1; i >= 0 && isspace(str[i]); i--)`, on
`i + 1`. -/
def rtrimLoop : Nat → Exec Bytes ε Unit
  | 0 => pure ()
  | i + 1 => do
      let b ← load i
      if isspace b then do
        store i NUL
        rtrimLoop i
      else
        pure ()

def rtrim : Exec Bytes ε Unit := do
  let len ← strlen
  rtrimLoop len

/-- `while (*p1) *p2++ = *p1++`. Returns `p2`. -/
def copyLoop : Nat → Nat → Nat → Exec Bytes ε Nat
  | 0, _, _ => Exec.diverge
  | fuel + 1, p1, p2 => do
      let b ← load p1
      if b ≠ NUL then do
        store p2 b
        copyLoop fuel (p1 + 1) (p2 + 1)
      else
        pure p2

def ltrim : Exec Bytes ε Unit := do
  let p1 ← scan isspace 0
  -- copied to the front only if necessary
  if p1 ≠ 0 then do
    let buf ← Exec.get
    let p2 ← copyLoop (buf.length + 1) p1 0
    store p2 NUL
  else
    pure ()

def trim : Exec Bytes ε Unit := do
  rtrim
  ltrim

/-- The bytes `fgets` stores for a limit of `n` bytes, and the rest of the
stream. -/
def fgetsLine : Nat → Bytes → Bytes × Bytes
  | 0, fp => ([], fp)
  | _ + 1, [] => ([], [])
  | n + 1, b :: fp =>
      if b = 0x0A then ([b], fp) else (b :: (fgetsLine n fp).1, (fgetsLine n fp).2)

/-- `fgets(buffer, size, fp)`: the rest of the stream, or `none` for
`NULL`. -/
def fgets (size : Nat) (fp : Bytes) : Exec Bytes ε (Option Bytes) :=
  match fp with
  | [] => pure none
  | fp => do
      let (line, rest) := fgetsLine (size - 1) fp
      let buf ← Exec.get
      let buf' ← Exec.index
        (if line.length < buf.length then some (line ++ NUL :: buf.drop (line.length + 1)) else none)
      Exec.modify fun _ => buf'
      pure (some rest)

/-- One line of the stream, cleaned, in the buffer. -/
def readline (size : Nat) (fp : Bytes) : Exec Bytes ε (Option Bytes) := do
  match ← fgets size fp with
  | none => do
      store 0 NUL
      pure none
  | some rest => do
      stripControl
      trim
      pure (some rest)

/-! ## The routines on the string -/

/-- The loop of `strip_control`. The induction is on what is to be read;
`i` is behind the gap and `j` in front of it. -/
theorem run_stripControlLoop (todo junk : Bytes) : ∀ kept gap : Bytes, ∃ gap',
    (stripControlLoop todo.length (kept.length + gap.length) kept.length : Exec Bytes ε Nat).run
      (kept ++ (gap ++ (todo ++ NUL :: junk))) =
    (.ok (kept ++ todo.filter keeps).length,
      (kept ++ todo.filter keeps) ++ (gap' ++ NUL :: junk)) := by
  induction todo with
  | nil =>
      intro kept gap
      exact ⟨gap, by simp [stripControlLoop]⟩
  | cons b todo ih =>
      intro kept gap
      have hload : (load (kept.length + gap.length) : Exec Bytes ε UInt8).run
          (kept ++ (gap ++ (b :: todo ++ NUL :: junk))) =
          (.ok b, kept ++ (gap ++ (b :: todo ++ NUL :: junk))) := by
        have h := run_load (ε := ε) (kept ++ gap) b (todo ++ NUL :: junk)
        rwa [List.length_append, List.append_assoc] at h
      rw [List.length_cons, stripControlLoop, Exec.run_bind_ok hload]
      by_cases hb : keeps b = true
      · obtain ⟨c, gap', hlen, hgap⟩ := exists_gap gap b
        obtain ⟨gap'', hrun⟩ := ih (kept ++ [b]) gap'
        refine ⟨gap'', ?_⟩
        rw [if_pos hb, List.cons_append, hgap, Exec.run_bind_ok (run_store kept c _ b),
          List.filter_cons_of_pos hb]
        simp only [List.length_append, List.length_singleton, List.append_assoc,
          List.singleton_append, hlen] at hrun ⊢
        rw [← hrun, Nat.add_right_comm]
      · obtain ⟨gap', hrun⟩ := ih kept (gap ++ [b])
        refine ⟨gap', ?_⟩
        rw [if_neg hb, List.filter_cons_of_neg hb]
        simp only [List.length_append, List.length_singleton, List.append_assoc,
          List.nil_append, List.cons_append] at hrun ⊢
        rw [← hrun, Nat.add_assoc]

theorem stripControl_rewrites {s : Bytes} (h : NUL ∉ s) :
    Rewrites (stripControl : Exec Bytes ε Unit) s (s.filter keeps) := by
  intro junk
  obtain ⟨gap, hloop⟩ := run_stripControlLoop (ε := ε) s junk [] []
  simp only [List.length_nil, Nat.add_zero, List.nil_append] at hloop
  rw [stripControl, Exec.run_bind_ok (run_strlen h junk), Exec.run_bind_ok hloop]
  cases gap with
  | nil => exact ⟨junk, run_store _ _ _ _⟩
  | cons c gap => exact ⟨gap ++ NUL :: junk, run_store _ _ _ _⟩

theorem rtrimLoop_rewrites (s : Bytes) :
    Rewrites (rtrimLoop s.length : Exec Bytes ε Unit) s (s.rdropWhile isspace) := by
  induction s using List.reverseRecOn with
  | nil => exact fun junk => ⟨junk, rfl⟩
  | append_singleton s b ih =>
      intro junk
      have hload := run_load (ε := ε) s b (NUL :: junk)
      rw [List.length_append, List.length_singleton, rtrimLoop, List.append_assoc,
        List.singleton_append, Exec.run_bind_ok hload]
      by_cases hb : isspace b = true
      · obtain ⟨junk', hrun⟩ := ih (NUL :: junk)
        refine ⟨junk', ?_⟩
        rw [if_pos hb, Exec.run_bind_ok (run_store s b _ NUL), hrun,
          List.rdropWhile_concat_pos _ _ _ hb]
      · refine ⟨junk, ?_⟩
        rw [if_neg hb, List.rdropWhile_concat_neg _ _ _ hb, List.append_assoc]
        rfl

theorem rtrim_rewrites {s : Bytes} (h : NUL ∉ s) :
    Rewrites (rtrim : Exec Bytes ε Unit) s (s.rdropWhile isspace) := by
  intro junk
  obtain ⟨junk', hrun⟩ := rtrimLoop_rewrites (ε := ε) s junk
  exact ⟨junk', (Exec.run_bind_ok (run_strlen h junk) _).trans hrun⟩

/-- The copy loop of `ltrim`, with the same three parts of the buffer. -/
theorem run_copyLoop {todo : Bytes} (h : NUL ∉ todo) (junk : Bytes) {fuel : Nat}
    (hfuel : todo.length < fuel) : ∀ done gap : Bytes, ∃ gap',
    (copyLoop fuel (done.length + gap.length) done.length : Exec Bytes ε Nat).run
      (done ++ (gap ++ (todo ++ NUL :: junk))) =
    (.ok (done ++ todo).length, (done ++ todo) ++ (gap' ++ NUL :: junk)) := by
  induction todo generalizing fuel with
  | nil =>
      intro done gap
      obtain ⟨fuel, rfl⟩ : ∃ n, fuel = n + 1 := ⟨fuel - 1, by omega⟩
      have hload := run_load (ε := ε) (done ++ gap) NUL junk
      rw [List.length_append, List.append_assoc] at hload
      refine ⟨gap, ?_⟩
      rw [copyLoop, List.nil_append, Exec.run_bind_ok hload, List.append_nil]
      rfl
  | cons b todo ih =>
      intro done gap
      obtain ⟨fuel, rfl⟩ : ∃ n, fuel = n + 1 := ⟨fuel - 1, by omega⟩
      simp only [List.mem_cons, not_or] at h
      have hload := run_load (ε := ε) (done ++ gap) b (todo ++ NUL :: junk)
      rw [List.length_append, List.append_assoc] at hload
      obtain ⟨c, gap', hlen, hgap⟩ := exists_gap gap b
      have hshort : todo.length < fuel := by
        rw [List.length_cons] at hfuel
        omega
      obtain ⟨gap'', hrun⟩ := ih h.2 hshort (done ++ [b]) gap'
      refine ⟨gap'', ?_⟩
      rw [copyLoop, List.cons_append, Exec.run_bind_ok hload, if_pos (Ne.symm h.1), hgap,
        Exec.run_bind_ok (run_store done c _ b)]
      simp only [List.length_append, List.length_singleton, List.append_assoc,
        List.singleton_append, hlen] at hrun ⊢
      rw [← hrun, Nat.add_right_comm]

theorem ltrim_rewrites {s : Bytes} (h : NUL ∉ s) :
    Rewrites (ltrim : Exec Bytes ε Unit) s (s.dropWhile isspace) := by
  intro junk
  have hsplit : s.takeWhile isspace ++ s.dropWhile isspace = s := List.takeWhile_append_dropWhile
  have hspaces : ∀ b ∈ s.takeWhile isspace, isspace b = true := fun b hb =>
    List.mem_takeWhile_imp hb
  have hstop : ∃ b rest, s.dropWhile isspace ++ NUL :: junk = b :: rest ∧ isspace b = false := by
    have hhead := List.head?_dropWhile_not isspace s
    cases hrest : s.dropWhile isspace with
    | nil => exact ⟨NUL, junk, rfl, by decide⟩
    | cons b rest =>
        rw [hrest] at hhead
        exact ⟨b, rest ++ NUL :: junk, rfl, by simpa using hhead⟩
  have hrest : NUL ∉ s.dropWhile isspace := fun hmem => h ((List.dropWhile_suffix _).subset hmem)
  generalize s.takeWhile isspace = spaces at hsplit hspaces
  generalize s.dropWhile isspace = rest at hsplit hstop hrest
  subst hsplit
  obtain ⟨b, more, hmore, hb⟩ := hstop
  have hscan := run_scan (ε := ε) hspaces hb more
  rw [← hmore] at hscan
  rw [ltrim, List.append_assoc, Exec.run_bind_ok hscan]
  by_cases hnone : spaces = []
  · subst hnone
    exact ⟨junk, rfl⟩
  · have hpos : spaces.length ≠ 0 := by simpa using hnone
    have hfuel : rest.length < (spaces ++ (rest ++ NUL :: junk)).length + 1 := by
      simp only [List.length_append]
      omega
    obtain ⟨gap, hcopy⟩ := run_copyLoop (ε := ε) hrest junk hfuel [] spaces
    simp only [List.length_nil, Nat.zero_add, List.nil_append] at hcopy
    rw [if_pos hpos, Exec.run_get_bind, Exec.run_bind_ok hcopy]
    cases gap with
    | nil => exact ⟨junk, run_store _ _ _ _⟩
    | cons c gap => exact ⟨gap ++ NUL :: junk, run_store _ _ _ _⟩

theorem trim_rewrites {s : Bytes} (h : NUL ∉ s) :
    Rewrites (trim : Exec Bytes ε Unit) s ((s.rdropWhile isspace).dropWhile isspace) :=
  (rtrim_rewrites h).bind (ltrim_rewrites fun hmem => h ((List.rdropWhile_prefix _ _).subset hmem))

/-- `trim(strip_control(str))`. -/
def cleanUp : Exec Bytes ε Unit := do
  stripControl
  trim

/-- The string that is left. -/
def cleaned (s : Bytes) : Bytes := ((s.filter keeps).rdropWhile isspace).dropWhile isspace

theorem mem_of_mem_cleaned {s : Bytes} {b : UInt8} (h : b ∈ cleaned s) : b ∈ s ∧ keeps b = true :=
  List.mem_filter.mp ((List.rdropWhile_prefix _ _).subset ((List.dropWhile_suffix _).subset h))

theorem cleanUp_rewrites {s : Bytes} (h : NUL ∉ s) :
    Rewrites (cleanUp : Exec Bytes ε Unit) s (cleaned s) :=
  (stripControl_rewrites h).bind (trim_rewrites fun hmem => h (List.mem_filter.mp hmem).1)

/-- The string in the buffer behind the clean-up. -/
theorem text_cleanUp {s : Bytes} (h : NUL ∉ s) (junk : Bytes) :
    ∃ buf, (cleanUp : Exec Bytes ε Unit).run (s ++ NUL :: junk) = (.ok (), buf) ∧
      text buf = cleaned s := by
  obtain ⟨junk', hrun⟩ := cleanUp_rewrites (ε := ε) h junk
  exact ⟨_, hrun, text_append (fun hmem => h (mem_of_mem_cleaned hmem).1) junk'⟩

/-! ## Reading a line -/

theorem fgetsLine_line {seg : Bytes} (h : (0x0A : UInt8) ∉ seg) (rest : Bytes) {n : Nat}
    (hn : seg.length < n) : fgetsLine n (seg ++ 0x0A :: rest) = (seg ++ [0x0A], rest) := by
  induction seg generalizing n with
  | nil =>
      obtain ⟨n, rfl⟩ : ∃ k, n = k + 1 := ⟨n - 1, by omega⟩
      rfl
  | cons b seg ih =>
      obtain ⟨n, rfl⟩ : ∃ k, n = k + 1 := ⟨n - 1, by omega⟩
      simp only [List.mem_cons, not_or] at h
      have hshort : seg.length < n := by
        rw [List.length_cons] at hn
        omega
      rw [List.cons_append, fgetsLine, if_neg (Ne.symm h.1), ih h.2 hshort]
      rfl

theorem run_fgets {seg : Bytes} (h : (0x0A : UInt8) ∉ seg) (rest : Bytes) {size : Nat}
    (hsize : seg.length + 1 < size) {buf : Bytes} (hbuf : size ≤ buf.length) :
    (fgets size (seg ++ 0x0A :: rest) : Exec Bytes ε (Option Bytes)).run buf =
      (.ok (some rest), seg ++ [0x0A] ++ NUL :: buf.drop (seg.length + 2)) := by
  have hfits : (seg ++ [0x0A]).length < buf.length := by
    rw [List.length_append, List.length_singleton]
    omega
  unfold fgets
  split
  · rename_i hnil
    simp at hnil
  · rw [fgetsLine_line h rest (by omega)]
    simp only [Exec.run_get_bind, if_pos hfits, Exec.run_index_some_bind, Exec.run_modify_bind,
      Exec.run_pure]
    simp

/-- **`readline` cleans the line without its terminator**: `strip_control`
has dropped the terminator as well. -/
theorem readline_line {line term : Bytes} (hnul : NUL ∉ line) (hlf : (0x0A : UInt8) ∉ line)
    (hterm : term = [0x0A] ∨ term = [0x0D, 0x0A]) (rest : Bytes) {size : Nat}
    (hsize : (line ++ term).length < size) {buf : Bytes} (hbuf : size ≤ buf.length) :
    ∃ buf', (readline size (line ++ term ++ rest) : Exec Bytes ε (Option Bytes)).run buf =
      (.ok (some rest), buf') ∧ text buf' = cleaned line := by
  obtain ⟨cr, hseg, hnoLf, hcr⟩ := exists_cr hlf hterm
  have hkept : (line ++ cr ++ [0x0A]).filter keeps = line.filter keeps := by
    have hdropped : cr.filter keeps = [] := by rcases hcr with rfl | rfl <;> decide
    rw [List.filter_append, List.filter_append, hdropped, List.append_nil,
      show ([0x0A] : Bytes).filter keeps = [] by decide, List.append_nil]
  have hnoNul : NUL ∉ line ++ cr ++ [0x0A] := by
    have hnulCr : NUL ∉ cr := by rcases hcr with rfl | rfl <;> decide
    simp only [List.mem_append, List.mem_singleton, not_or]
    exact ⟨⟨hnul, hnulCr⟩, by decide⟩
  rw [hseg, List.length_append, List.length_singleton] at hsize
  obtain ⟨buf', hclean, htext⟩ := text_cleanUp (ε := ε) hnoNul (buf.drop ((line ++ cr).length + 2))
  refine ⟨buf', ?_, ?_⟩
  · rw [hseg, List.append_assoc _ [_] rest, List.singleton_append, readline,
      Exec.run_bind_ok (run_fgets hnoLf rest hsize hbuf)]
    show (do stripControl; trim; pure (some rest) : Exec Bytes ε (Option Bytes)).run _ = _
    rw [← Exec.bind_bind, show (do stripControl; trim : Exec Bytes ε Unit) = cleanUp from rfl,
      Exec.run_bind_ok hclean]
    rfl
  · rw [htext, cleaned, hkept, cleaned]

end Reference

end Rwhois
