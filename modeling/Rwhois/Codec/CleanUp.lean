import Rwhois.Codec.Stream
import Rwhois.Reference.StrUtil

/-!
# Codec — CleanUp

The clean-up of `decode` beside that of the C reference. Both drop control
bytes but keep the tab, and both trim afterwards. The codec compares with
`0x20` and trims blanks and tabs; the reference asks `iscntrl` and trims
whatever `isspace` says is white space. Behind the first step only blanks
and tabs are left of the white space, so the second step is the same.

The first step is not. DEL (`0x7F`) is a control character that lies above
`0x20`: the reference drops it and the codec keeps it. This one byte is
the whole difference.
-/

namespace Rwhois

open RustStd CStd

/-- Bytes as characters. -/
def asChars (s : Bytes) : Str := s.map fun b => Char.ofNat b.toNat

def DEL : UInt8 := 0x7F

/-- No ASCII control character other than the tab. -/
def NoControl (s : Str) : Prop := ∀ c ∈ s, c.toNat < 0x20 ∨ c.toNat = 0x7F → c = '\t'

namespace RwhoisCodec

/-- The bytes that `decode` keeps. -/
def keeps (b : UInt8) : Bool := b = 0x09 ∨ 0x20 ≤ b

/-- What `decode` makes of the bytes of a line. -/
def cleaned (line : Bytes) : Str := trimMatches isBlank (asChars (line.filter keeps))

/-- A CR in front of the line feed is dropped in any case. -/
theorem lineResult_ascii {seg : Bytes} (h : ∀ b ∈ seg, b.toNat < 128) :
    lineResult seg = .ok (cleaned seg) := by
  have hbody : (if seg.getLast? = some CR then seg.dropLast else seg).filter keeps =
      seg.filter keeps := by
    split
    · rename_i hcr
      obtain ⟨init, rfl⟩ := List.getLast?_eq_some_iff.mp hcr
      rw [List.dropLast_concat, List.filter_append, show [CR].filter keeps = [] by decide,
        List.append_nil]
    · rfl
  have hascii : ∀ b ∈ seg, b < 0x80 := fun b hb => UInt8.lt_iff_toNat_lt.mpr (h b hb)
  simp only [lineResult, any_high_of_ascii hascii, Bool.false_eq_true, if_false]
  rw [cleaned, asChars, ← hbody]
  rfl

section Bytes

variable {b : UInt8} (hascii : b.toNat < 128)

include hascii

/-- A fact about the ASCII bytes. -/
theorem of_ascii {P : UInt8 → Prop} (h : ∀ n < 128, P (UInt8.ofNat n)) : P b := by
  have hb := h b.toNat hascii
  rwa [UInt8.ofNat_toNat] at hb

/-- The two tests differ at DEL only. -/
theorem keeps_eq (hdel : b ≠ DEL) : keeps b = Reference.keeps b := by
  revert hdel
  exact of_ascii hascii (P := fun b => b ≠ DEL → keeps b = Reference.keeps b) (by decide)

/-- Blanks and tabs are the white space that is kept. -/
theorem isBlank_eq (h : keeps b = true) : isBlank (Char.ofNat b.toNat) = isspace b := by
  revert h
  exact of_ascii hascii
    (P := fun b => keeps b = true → isBlank (Char.ofNat b.toNat) = isspace b) (by decide)

theorem control_eq_tab (h : Reference.keeps b = true)
    (hc : (Char.ofNat b.toNat).toNat < 0x20 ∨ (Char.ofNat b.toNat).toNat = 0x7F) :
    Char.ofNat b.toNat = '\t' := by
  revert h hc
  exact of_ascii hascii (P := fun b => Reference.keeps b = true →
    (Char.ofNat b.toNat).toNat < 0x20 ∨ (Char.ofNat b.toNat).toNat = 0x7F →
    Char.ofNat b.toNat = '\t') (by decide)

end Bytes

theorem cleaned_eq {line : Bytes} (hascii : ∀ b ∈ line, b.toNat < 128) (hdel : DEL ∉ line) :
    cleaned line = asChars (Reference.cleaned line) := by
  have hkeeps : line.filter keeps = line.filter Reference.keeps := by
    apply List.filter_congr
    intro b hb
    refine keeps_eq (hascii b hb) ?_
    rintro rfl
    exact hdel hb
  have hblank : ∀ b ∈ line.filter keeps,
      (isBlank ∘ fun b : UInt8 => Char.ofNat b.toNat) b = isspace b := by
    intro b hb
    obtain ⟨hmem, hkept⟩ := List.mem_filter.mp hb
    exact isBlank_eq (hascii b hmem) hkept
  rw [cleaned, asChars, trimMatches_map, dropWhile_congr hblank,
    rdropWhile_congr fun b hb => hblank b ((List.dropWhile_suffix _).subset hb),
    Reference.cleaned, ← hkeeps, dropWhile_rdropWhile]
  rfl

theorem del_mem_cleaned {line : Bytes} (h : DEL ∈ line) : Char.ofNat DEL.toNat ∈ cleaned line := by
  apply mem_trimMatches_of_not
  · exact List.mem_map.mpr ⟨DEL, List.mem_filter.mpr ⟨h, by decide⟩, rfl⟩
  · decide

theorem noControl_reference {line : Bytes} (hascii : ∀ b ∈ line, b.toNat < 128) :
    NoControl (asChars (Reference.cleaned line)) := by
  intro c hc hcontrol
  obtain ⟨b, hb, rfl⟩ := List.mem_map.mp hc
  obtain ⟨hmem, hkept⟩ := Reference.mem_of_mem_cleaned hb
  exact control_eq_tab (hascii b hmem) hkept hcontrol

/-- With a DEL in it a text has a control character. -/
theorem not_noControl {s : Str} (h : Char.ofNat DEL.toNat ∈ s) : ¬ NoControl s := by
  intro hno
  exact absurd (hno _ h (by decide)) (by decide)

theorem cleaned_eq_iff {line : Bytes} (hascii : ∀ b ∈ line, b.toNat < 128) :
    (cleaned line = asChars (Reference.cleaned line) ↔ DEL ∉ line) ∧
      (NoControl (cleaned line) ↔ DEL ∉ line) := by
  by_cases hdel : DEL ∈ line
  · have hcontrol := not_noControl (del_mem_cleaned hdel)
    refine ⟨iff_of_false ?_ (not_not.mpr hdel), iff_of_false hcontrol (not_not.mpr hdel)⟩
    intro heq
    rw [heq] at hcontrol
    exact hcontrol (noControl_reference hascii)
  · have heq := cleaned_eq hascii hdel
    refine ⟨iff_of_true heq hdel, iff_of_true ?_ hdel⟩
    rw [heq]
    exact noControl_reference hascii

/-- One call of `decode` on a line that fits. -/
theorem decode_cleaned {self : RwhoisCodec} {line term rest : Bytes}
    (hascii : ∀ b ∈ line, b.toNat < 128) (hlf : LF ∉ line)
    (hterm : term = [LF] ∨ term = [CR, LF]) (hfits : (line ++ term).length ≤ self.maxLine)
    (hs : Scanned (self, line ++ term ++ rest)) :
    decode.run (self, line ++ term ++ rest) =
      (.ok (some (cleaned line)), ({ self with nextIndex := 0 }, rest)) := by
  obtain ⟨cr, hseg, hnoLf, hcr⟩ : ∃ cr, line ++ term = line ++ cr ++ [LF] ∧ LF ∉ line ++ cr ∧
      (cr = [] ∨ cr = [CR]) := exists_cr hlf hterm
  have hsegAscii : ∀ b ∈ line ++ cr, b.toNat < 128 := by
    intro b hb
    rcases List.mem_append.mp hb with hb | hb
    · exact hascii b hb
    · rcases hcr with rfl | rfl
      · cases hb
      · rw [List.mem_singleton.mp hb]
        decide
  have hclean : cleaned (line ++ cr) = cleaned line := by
    have hdropped : cr.filter keeps = [] := by rcases hcr with rfl | rfl <;> decide
    rw [cleaned, List.filter_append, hdropped, List.append_nil]
    rfl
  rw [hseg, List.length_append, List.length_singleton] at hfits
  rw [hseg, List.append_assoc _ [_] rest, List.singleton_append] at hs ⊢
  rw [decode_line hs hnoLf, if_neg (by omega), lineResult_ascii hsegAscii, hclean]
  rfl

/-- **When the codec cleans a line as the reference does**: exactly if there
is no DEL in it. The same byte decides whether a decoded line is free of
control characters. -/
theorem decode_eq_reference (self : RwhoisCodec) (line term rest junk : Bytes)
    (hascii : ∀ b ∈ line, b.toNat < 128) (hnul : NUL ∉ line) (hlf : LF ∉ line)
    (hterm : term = [LF] ∨ term = [CR, LF]) (hfits : (line ++ term).length ≤ self.maxLine)
    (hs : Scanned (self, line ++ term ++ rest)) :
    ∃ out st buf, decode.run (self, line ++ term ++ rest) = (.ok (some out), st) ∧
      (Reference.cleanUp : Exec Bytes Unit Unit).run (line ++ NUL :: junk) = (.ok (), buf) ∧
      (out = asChars (text buf) ↔ DEL ∉ line) ∧ (NoControl out ↔ DEL ∉ line) := by
  obtain ⟨buf, hrun, htext⟩ := Reference.text_cleanUp (ε := Unit) hnul junk
  refine ⟨cleaned line, _, buf, decode_cleaned hascii hlf hterm hfits hs, hrun, ?_⟩
  rw [htext]
  exact cleaned_eq_iff hascii

/-- A tab that becomes the outermost byte only when the control bytes are
gone. -/
theorem decode_eq_reference_tab :
    let line : Bytes := [0x01, 0x09, 0x0D, 0x61, 0x09, 0x62, 0x20, 0x1B]
    ∃ out st buf, decode.run (withMaxLine 10, line ++ [CR, LF] ++ []) = (.ok (some out), st) ∧
      (Reference.cleanUp : Exec Bytes Unit Unit).run (line ++ NUL :: []) = (.ok (), buf) ∧
      (out = asChars (text buf) ↔ DEL ∉ line) ∧ (NoControl out ↔ DEL ∉ line) := by
  intro line
  have hall : line.all (fun b => decide (b.toNat < 128)) = true := by decide
  have hascii : ∀ b ∈ line, b.toNat < 128 := fun b hb =>
    of_decide_eq_true (List.all_eq_true.mp hall b hb)
  exact decode_eq_reference (withMaxLine 10) line [CR, LF] [] [] hascii (by decide) (by decide)
    (.inr rfl) (by decide) ⟨Nat.zero_le _, by decide⟩

/-- The line `a DEL b`: the codec keeps the DEL, the reference drops it. -/
theorem decode_keeps_del :
    let line : Bytes := [0x61, DEL, 0x62]
    decode.run (withMaxLine 10, line ++ [LF]) =
        (.ok (some ['a', Char.ofNat 0x7F, 'b']), (withMaxLine 10, [])) ∧
      (Reference.cleanUp : Exec Bytes Unit Unit).run (line ++ [NUL]) =
        (.ok (), [0x61, 0x62, NUL, NUL]) ∧
      text [0x61, 0x62, NUL, NUL] = [0x61, 0x62] ∧
      ¬ NoControl ['a', Char.ofNat 0x7F, 'b'] := by
  intro line
  refine ⟨by decide, rfl, by decide, ?_⟩
  exact not_noControl (by decide)

/-- The same for the routine that reads a line: without a DEL the codec
yields what `readline` leaves in a buffer that is large enough. -/
theorem decode_eq_readline {self : RwhoisCodec} {line term rest : Bytes}
    (hascii : ∀ b ∈ line, b.toNat < 128) (hnul : NUL ∉ line) (hlf : LF ∉ line) (hdel : DEL ∉ line)
    (hterm : term = [LF] ∨ term = [CR, LF]) (hfits : (line ++ term).length ≤ self.maxLine)
    (hs : Scanned (self, line ++ term ++ rest)) {size : Nat} (hsize : (line ++ term).length < size)
    {buf : Bytes} (hbuf : size ≤ buf.length) :
    ∃ out self' buf', decode.run (self, line ++ term ++ rest) = (.ok (some out), (self', rest)) ∧
      (Reference.readline size (line ++ term ++ rest) : Exec Bytes Unit (Option Bytes)).run buf =
        (.ok (some rest), buf') ∧
      out = asChars (text buf') := by
  obtain ⟨buf', hrun, htext⟩ :=
    Reference.readline_line (ε := Unit) hnul hlf hterm rest hsize hbuf
  refine ⟨_, _, buf', decode_cleaned hascii hlf hterm hfits hs, hrun, ?_⟩
  rw [htext]
  exact (cleaned_eq_iff hascii).1.mpr hdel

end RwhoisCodec

end Rwhois
