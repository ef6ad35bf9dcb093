import Rwhois.RustStd.Exec
import Rwhois.RustStd.Pattern

/-!
# Wire — Request

The classifier of inbound lines (`wire/request.rs`). `classify` slices
the line by byte offsets; `Request.read` is the same reading without
offsets, and `run_classify` says that no slice of `classify` ever fails,
on ANY text.
-/

namespace Rwhois

open RustStd

/-- One trimmed line as the session loop sees it. -/
inductive Request where
  | empty
  | directive (name args : Str)
  | query (line : Str)
  | spool (line : Str)
  deriving Repr, DecidableEq

/-- A leading `-` followed by an ASCII letter. The source compares bytes;
a byte of a longer scalar value is never a letter. -/
def isDirective : Str → Bool
  | '-' :: c :: _ => c.isAlpha
  | _ => false

namespace Request

def isQuery : Request → Bool
  | .query _ => true
  | _ => false

def classify {σ ε : Type} (line : Str) (spooling : Bool) : Exec σ ε Request :=
  if line = [] then
    pure .empty
  else if isDirective line then do
    let rest ← Exec.index (sliceFrom line 1)
    match find isWhitespace rest with
    | some idx => do
        let name ← Exec.index (sliceTo rest idx)
        let args ← Exec.index (sliceFrom rest idx)
        pure (.directive (toAsciiLowercase name) (trimStart args))
    | none => pure (.directive (toAsciiLowercase rest) [])
  else if spooling then
    pure (.spool line)
  else
    pure (.query line)

/-- The words of the classification, without byte offsets. -/
def read (line : Str) (spooling : Bool) : Request :=
  if line = [] then .empty
  else if isDirective line then
    .directive (toAsciiLowercase (line.tail.takeWhile (!isWhitespace ·)))
      (trimStart (line.tail.dropWhile (!isWhitespace ·)))
  else if spooling then .spool line
  else .query line

theorem isDirective_eq {line : Str} (h : isDirective line = true) :
    ∃ c rest, line = '-' :: c :: rest ∧ c.isAlpha = true := by
  unfold isDirective at h
  split at h
  · exact ⟨_, _, rfl, h⟩
  · cases h

/-- `classify` always comes back, with what `read` says. -/
theorem run_classify {σ ε : Type} (line : Str) (spooling : Bool) (s : σ) :
    (classify line spooling : Exec σ ε Request).run s = (.ok (read line spooling), s) := by
  unfold classify read
  split
  · rfl
  · split
    · rename_i hdir
      obtain ⟨c, rest, rfl, -⟩ := isDirective_eq hdir
      have hcut : sliceFrom ('-' :: c :: rest) 1 = some (c :: rest) :=
        sliceFrom_append ['-'] (c :: rest)
      rw [hcut, Exec.run_index_some_bind]
      simp only [List.tail_cons]
      generalize c :: rest = text
      cases hf : find isWhitespace text with
      | none =>
          have hno := find_eq_none hf
          have htake : text.takeWhile (!isWhitespace ·) = text :=
            List.takeWhile_eq_self_iff.mpr (fun d hd => by simp [hno d hd])
          have hdrop : text.dropWhile (!isWhitespace ·) = [] :=
            List.dropWhile_eq_nil_iff.mpr (fun d hd => by simp [hno d hd])
          rw [htake, hdrop]
          rfl
      | some idx =>
          obtain ⟨a, d, b, rfl, rfl, hd, ha⟩ := find_eq_some hf
          have hall : ∀ e ∈ a, (!isWhitespace e) = true := fun e he => by simp [ha e he]
          have htake : (a ++ d :: b).takeWhile (!isWhitespace ·) = a := by
            rw [List.takeWhile_append_of_pos hall]
            simp [hd]
          have hdrop : (a ++ d :: b).dropWhile (!isWhitespace ·) = d :: b := by
            rw [List.dropWhile_append_of_pos hall]
            simp [hd]
          rw [htake, hdrop]
          simp
    · split <;> rfl

end Request

end Rwhois
