import Rwhois.Wire.RoundTrip

/-!
# Wire — Splitting

Can a call write more than its own line? `RwhoisCodec::encode` refuses a
text that holds a CR or an LF. The writer's methods and `write_error` do
not look: they put their texts into the buffer as they are, and the
session sends the buffer without going through the encoder.

So a call keeps to ONE line if and only if every text it is given does
(`appendsLine_iff`). A text that ends its line early goes on with lines
of its own, and these can be records, or the terminator of the reply.
-/

namespace Rwhois

open RustStd

/-- The calls that append a line to a reply. -/
inductive LineCall where
  | writer (op : WriterOp)
  | rawLine (line : Str)
  | writeError (code : ResponseCode) (extra : Option Str)
  deriving Repr, DecidableEq

namespace LineCall

/-- The buffer behind the call. -/
def append : LineCall → Bytes → Bytes
  | .writer op, out => (op.run { buf := out }).buf
  | .rawLine line, out => (ResponseWriter.rawLine { buf := out } line).buf
  | .writeError code extra, out => Rwhois.writeError out code extra

/-- The calls in their order. -/
def appendAll (calls : List LineCall) (out : Bytes) : Bytes :=
  calls.foldl (fun out call => call.append out) out

/-- The texts a caller gives. The message of a code is one of them, since
`ResponseCode::new` takes any. -/
def texts : LineCall → List Str
  | .writer op => op.texts
  | .rawLine line => [line]
  | .writeError code extra => code.message :: extra.toList

/-- The line a call is meant to write. -/
def line : LineCall → Str
  | .writer op => op.line
  | .rawLine line => line
  | .writeError code extra => (Terminator.error code extra).line

theorem append_eq (call : LineCall) (out : Bytes) :
    call.append out = out ++ utf8 (call.line ++ crlf) := by
  cases call with
  | writer op =>
      rw [append, WriterOp.run_eq]
      rfl
  | rawLine line =>
      rw [append, ResponseWriter.rawLine, ResponseWriter.put_put]
      rfl
  | writeError code extra => exact Terminator.write_eq (.error code extra) out

theorem appendAll_eq (calls : List LineCall) (out : Bytes) :
    appendAll calls out = out ++ utf8 (unlines (calls.map line)) := by
  induction calls generalizing out with
  | nil => simp [appendAll]
  | cons call calls ih =>
      have hstep : appendAll (call :: calls) out = appendAll calls (call.append out) := rfl
      rw [hstep, ih, append_eq]
      simp

theorem isLine_line (call : LineCall) : IsLine call.line ↔ ∀ t ∈ call.texts, IsLine t := by
  cases call with
  | writer op => exact WriterOp.isLine_line
  | rawLine line => simp [LineCall.line, texts]
  | writeError code extra =>
      rw [LineCall.line, Terminator.isLine_error]
      simp [texts]

/-- One CR LF pair, at the very end, and no other CR or LF. -/
def OneLine (added : Bytes) : Prop :=
  ∃ line, added = line ++ [0x0D, 0x0A] ∧ ∀ b ∈ line, b ≠ 0x0D ∧ b ≠ 0x0A

theorem oneLine_utf8 {s : Str} : OneLine (utf8 (s ++ crlf)) ↔ IsLine s := by
  have hcrlf : utf8 crlf = [0x0D, 0x0A] := by decide
  rw [OneLine, utf8_append, hcrlf]
  constructor
  · rintro ⟨line, hline, hbytes⟩
    rw [List.append_cancel_right_eq] at hline
    rw [← hline] at hbytes
    exact IsLine.of_utf8 hbytes
  · intro h
    exact ⟨utf8 s, rfl, h.utf8⟩

/-- A call appends exactly one line if and only if its texts hold no CR
and no LF. -/
theorem appendsLine_iff (call : LineCall) (out : Bytes) :
    (∃ added, call.append out = out ++ added ∧ OneLine added) ↔ ∀ t ∈ call.texts, IsLine t := by
  rw [← isLine_line, ← oneLine_utf8, append_eq]
  constructor
  · rintro ⟨added, hadded, hone⟩
    rwa [List.append_cancel_left hadded]
  · intro hone
    exact ⟨_, rfl, hone⟩

/-- **No response splitting, where the texts are lines.** A call appends
exactly one line if and only if no text it is given holds a CR or an LF,
and of a run of such calls a client sees one line for each call, the one
the call is meant to write. -/
theorem no_response_splitting (call : LineCall) (out : Bytes) (calls : List LineCall) :
    ((∃ added, call.append out = out ++ added ∧ OneLine added) ↔ ∀ t ∈ call.texts, IsLine t) ∧
    ((∀ call ∈ calls, ∀ t ∈ call.texts, IsLine t) →
      ∃ text, fromUtf8 (appendAll calls []) = some text ∧
        splitTerminator text = calls.map line) := by
  refine ⟨appendsLine_iff call out, fun hcalls => ⟨unlines (calls.map line), ?_, ?_⟩⟩
  · rw [appendAll_eq, List.nil_append, fromUtf8_utf8]
  · apply splitTerminator_unlines
    intro l hl
    obtain ⟨call, hcall, rfl⟩ := List.mem_map.mp hl
    exact call.isLine_line.mpr (hcalls call hcall)

theorem no_response_splitting_two :
    ∃ text, fromUtf8 (appendAll [.writer (.recordAttr "a".toList "b".toList "é".toList),
        .writeError .INVALID_QUERY_SYNTAX (some "x".toList)] []) = some text ∧
      splitTerminator text =
        ["a:b:é".toList, "%error 350 Invalid Query Syntax: x".toList] :=
  (no_response_splitting (.rawLine []) []
    [.writer (.recordAttr "a".toList "b".toList "é".toList),
      .writeError .INVALID_QUERY_SYNTAX (some "x".toList)]).2 (by decide)

/-- A value that ends the record and the reply. The client reads a record
with another value, and a terminator the session did not write. -/
theorem record_splits :
    (¬ ∃ added, append (.writer (.recordAttr "a".toList "b".toList "x\r\n%ok".toList)) [] =
      [] ++ added ∧ OneLine added) ∧
    ∃ text, fromUtf8 (append (.writer (.recordAttr "a".toList "b".toList "x\r\n%ok".toList)) []) =
        some text ∧
      (splitTerminator text).map ResponseLine.parse =
        [.record { cls := "a".toList, attr := "b".toList, ty := none, value := "x".toList }, .ok] := by
  constructor
  · rw [appendsLine_iff]
    decide
  · refine ⟨"a:b:x\r\n%ok\r\n".toList, ?_, by decide⟩
    rw [append_eq, List.nil_append, fromUtf8_utf8]
    decide

end LineCall

end Rwhois
