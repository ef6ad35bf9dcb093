import Rwhois.RustStd.Lines
import Rwhois.RustStd.Num

/-!
# Wire — Banner

The `%rwhois` greeting (`wire/banner.rs`): what the server sends to a new
peer and again on `-rwhois`.
-/

namespace Rwhois

open RustStd

/-- Capability identifier: six and two hex digits on the wire. -/
structure Capability where
  responseId : UInt32
  extraId : UInt8
  deriving Repr, DecidableEq

/-- `{:06x}:{:02x}`; only the low 24 bits of the mask are shown. -/
def Capability.toStr (self : Capability) : Str :=
  hexPadded 6 (self.responseId &&& 0x00FFFFFF).toNat ++ ':' :: hexPadded 2 self.extraId.toNat

/-- `<6hex>:<2hex>`. -/
def Capability.parse (s : Str) : Option Capability := do
  let (r, e) ← splitOnce [':'] s
  if byteLen r ≠ 6 ∨ byteLen e ≠ 2 then
    none
  else do
    let responseId ← u32FromStrRadix 16 r
    let extraId ← u8FromStrRadix 16 e
    pure { responseId, extraId }

structure Version where
  major : UInt32
  minor : UInt32
  capability : Option Capability
  deriving Repr, DecidableEq

def Version.toStr (self : Version) : Str :=
  "V-".toList ++ display self.major.toNat ++ '.' :: display self.minor.toNat ++
    match self.capability with
    | some c => ':' :: c.toStr
    | none => []

/-- The version number and what stands behind a colon. -/
def Version.splitParts (rest : Str) : Str × Option Str :=
  match splitOnce [':'] rest with
  | some (v, c) => (v, some c)
  | none => (rest, none)

/-- One token of the version list. -/
def Version.parse (s : Str) : Option Version := do
  let rest ← stripPrefix "V-".toList s
  let (verpart, cappart) := splitParts rest
  let (maj, min) ← splitOnce ['.'] verpart
  let major ← parseU32 maj
  let minor ← parseU32 min
  match cappart with
  | some c => do
      let capability ← Capability.parse c
      pure { major, minor, capability := some capability }
  | none => pure { major, minor, capability := none }

structure Banner where
  versions : List Version
  hostname : Str
  implementation : Option Str
  deriving Repr, DecidableEq

namespace Banner

def single (major minor : UInt32) (capability : Capability) (hostname : Str)
    (implementation : Option Str) : Banner :=
  { versions := [{ major, minor, capability := some capability }], hostname, implementation }

/-- What follows `%rwhois` and a blank. -/
def body (self : Banner) : Str :=
  List.intercalate [','] (self.versions.map Version.toStr) ++ ' ' :: self.hostname ++
    match self.implementation with
    | some i => ' ' :: i
    | none => []

/-- The wire form without its terminator. -/
def toLine (self : Banner) : Str := "%rwhois ".toList ++ self.body

/-- `parse` behind `%rwhois` and the blank. -/
def parseBody (body : Str) : Option Banner :=
  match splitN 3 ' ' body with
  | versionList :: hostname :: rest => do
      -- the third piece may be missing; an empty one counts as missing
      let implementation := rest.head?.filter fun i => !i.isEmpty
      let versions ← (versionList.splitOn ',').mapM Version.parse
      if versions = [] then none else pure { versions, hostname, implementation }
  | _ => none

/-- Read a banner line without its terminator. -/
def parse (line : Str) : Option Banner := do
  let body ← stripPrefix "%rwhois ".toList line
  parseBody body

end Banner

/-! ## A banner is one line -/

theorem isLine_hexPadded (w n : Nat) : IsLine (hexPadded w n) := by
  intro c hc
  have hd := isDigitOf_of_mem_hexPadded hc
  constructor <;>
  · rintro rfl
    exact absurd hd (by decide)

theorem isLine_display (n : Nat) : IsLine (display n) := by
  intro c hc
  have hd := isDigit_of_mem_display hc
  constructor <;>
  · rintro rfl
    exact absurd hd (by decide)

theorem Capability.isLine_toStr (c : Capability) : IsLine c.toStr :=
  (isLine_hexPadded _ _).append (IsLine.cons_iff.mpr ⟨by decide, isLine_hexPadded _ _⟩)

theorem Version.isLine_toStr (v : Version) : IsLine v.toStr := by
  have hv : IsLine "V-".toList := by decide
  have hminor : IsLine ('.' :: display v.minor.toNat) :=
    IsLine.cons_iff.mpr ⟨by decide, isLine_display _⟩
  refine ((hv.append (isLine_display _)).append hminor).append ?_
  split
  · exact IsLine.cons_iff.mpr ⟨by decide, Capability.isLine_toStr _⟩
  · exact .nil

/-- The greeting of a server: one version with a capability. -/
theorem Banner.isLine_body_single {hostname : Str} (hhost : IsLine hostname) (major minor : UInt32)
    (capability : Capability) {implementation : Option Str}
    (himpl : ∀ i ∈ implementation, IsLine i) :
    IsLine (Banner.single major minor capability hostname implementation).body := by
  have hversions : List.intercalate [',']
      ((Banner.single major minor capability hostname implementation).versions.map Version.toStr) =
        Version.toStr { major, minor, capability := some capability } := by
    simp [single, List.intercalate]
  have hhead : IsLine (Version.toStr { major, minor, capability := some capability } ++
      ' ' :: hostname) :=
    (Version.isLine_toStr _).append (IsLine.cons_iff.mpr ⟨by decide, hhost⟩)
  rw [body, hversions]
  refine IsLine.append hhead ?_
  cases implementation with
  | none => exact .nil
  | some i => exact IsLine.cons_iff.mpr ⟨by decide, himpl i rfl⟩

theorem Banner.mem_toLine {banner : Banner} {c : Char} (h : c ∈ banner.hostname) :
    c ∈ banner.toLine := by
  unfold toLine body
  apply List.mem_append_right
  apply List.mem_append_left
  exact List.mem_append_right _ (List.mem_cons_of_mem _ h)

end Rwhois
