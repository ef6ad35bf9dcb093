import Rwhois.Codec
import Rwhois.RustStd.Lines

/-!
# Codec — Stream

The specification of the decoder, and that the incremental decoder meets
it. The invariant between two calls is `Scanned`: the bytes before
`next_index` hold no line feed. It is what makes the search of `decode`
find the FIRST line feed of the buffer although it skips a part of it.
-/

namespace Rwhois

open RustStd

namespace RwhoisCodec

/-! ## The one-shot specification -/

/-- What one line gives, `seg` being its bytes before the LF: one CR in
front of the LF belongs to the terminator. -/
def lineResult (seg : Bytes) : Outcome Error Str :=
  let body := if seg.getLast? = some CR then seg.dropLast else seg
  if body.any (0x80 ≤ ·) then
    .err (.protocol ⟨350, "Invalid Query Syntax".toList⟩ "non-ASCII byte in line".toList)
  else .ok (trimMatches isBlank
    ((body.filter (fun b => b = 0x09 ∨ 0x20 ≤ b)).map fun b => Char.ofNat b.toNat))

/-- The results over the pieces between the line feeds; the last piece is
the tail that no LF terminates. -/
def pieceResults (max : Nat) : List Bytes → List (Outcome Error Str)
  | [] => []
  | [tail] => if tail.length > max then [.err (.lineTooLong max)] else []
  | seg :: segs =>
      if seg.length + 1 > max then [.err (.lineTooLong max)]
      else lineResult seg :: pieceResults max segs

/-- The results for a whole stream. -/
def lineSpec (max : Nat) (stream : Bytes) : List (Outcome Error Str) :=
  pieceResults max (stream.splitOn LF)

/-- Pieces within the limit are read before what follows them. -/
theorem pieceResults_append {max : Nat} {segs rest : List Bytes}
    (hsegs : ∀ seg ∈ segs, seg.length + 1 ≤ max) (hrest : rest ≠ []) :
    pieceResults max (segs ++ rest) = segs.map lineResult ++ pieceResults max rest := by
  induction segs with
  | nil => rfl
  | cons seg segs ih =>
      obtain ⟨next, more, hmore⟩ := List.exists_cons_of_ne_nil
        (List.append_ne_nil_of_right_ne_nil segs hrest)
      have hseg := hsegs seg List.mem_cons_self
      have hstep := ih fun seg' h => hsegs seg' (List.mem_cons_of_mem seg h)
      rw [List.cons_append, List.map_cons, List.cons_append, ← hstep, hmore, pieceResults,
        if_neg (by omega)]
      simp

theorem lineSpec_line (max : Nat) {seg : Bytes} (h : LF ∉ seg) (rest : Bytes) :
    lineSpec max (seg ++ LF :: rest) =
      if seg.length + 1 > max then [.err (.lineTooLong max)]
      else lineResult seg :: lineSpec max rest := by
  obtain ⟨p, ps, hp⟩ := List.exists_cons_of_ne_nil (List.splitOn_ne_nil LF rest)
  rw [lineSpec, List.splitOn_append_cons_self_of_not_mem h, lineSpec, hp, pieceResults]
  simp

theorem lineSpec_tail (max : Nat) {tail : Bytes} (h : LF ∉ tail) :
    lineSpec max tail = if tail.length > max then [.err (.lineTooLong max)] else [] := by
  rw [lineSpec, List.splitOn_eq_singleton h, pieceResults]

/-- A piece that is already too long stays so, whatever follows. -/
theorem lineSpec_tooLong {max : Nat} {src : Bytes} (h : LF ∉ src) (hlen : src.length > max)
    (more : Bytes) : lineSpec max (src ++ more) = [.err (.lineTooLong max)] := by
  by_cases hm : LF ∈ more
  · obtain ⟨seg, rest, rfl, hseg⟩ := List.eq_append_cons_of_mem hm
    have hno : LF ∉ src ++ seg := by simp [h, hseg]
    rw [← List.append_assoc, lineSpec_line max hno, if_pos]
    simp only [List.length_append]
    omega
  · have hno : LF ∉ src ++ more := by simp [h, hm]
    rw [lineSpec_tail max hno, if_pos]
    simp only [List.length_append]
    omega

/-! ## One call of `decode` -/

theorem stripControl_eq (raw : Bytes) (out : Str) :
    stripControl out raw =
      if raw.any (0x80 ≤ ·) then .error nonAsciiError
      else .ok (out ++
        (raw.filter (fun b => b = 0x09 ∨ 0x20 ≤ b)).map fun b => Char.ofNat b.toNat) := by
  induction raw generalizing out with
  | nil => simp [stripControl]
  | cons b raw ih =>
      by_cases hb : 0x80 ≤ b
      · simp [stripControl, hb]
      · by_cases hk : b = 0x09 ∨ 0x20 ≤ b
        · simp [stripControl, hb, hk, ih]
        · simp [stripControl, hb, hk, ih]

/-- The bytes before `next_index` were searched and hold no LF. -/
structure Scanned (st : RwhoisCodec × Bytes) : Prop where
  inRange : st.1.nextIndex ≤ st.2.length
  noLf : LF ∉ st.2.take st.1.nextIndex

theorem Scanned.start (max : Nat) : Scanned (withMaxLine max, []) := by
  constructor <;> simp [withMaxLine]

theorem Scanned.append {self : RwhoisCodec} {src : Bytes} (h : Scanned (self, src))
    (chunk : Bytes) : Scanned (self, src ++ chunk) := by
  obtain ⟨hr, hn⟩ := h
  constructor
  · simp only [List.length_append] at hr ⊢
    omega
  · simpa [List.take_append_of_le_length hr] using hn

/-- The scanned part lies before the first LF. -/
theorem Scanned.le_first {self : RwhoisCodec} {seg rest : Bytes}
    (h : Scanned (self, seg ++ LF :: rest)) : self.nextIndex ≤ seg.length := by
  by_contra hlt
  apply h.noLf
  have hle : seg.length + 1 ≤ self.nextIndex := by omega
  have hp : (seg ++ [LF]) <+: (seg ++ LF :: rest).take self.nextIndex := by
    rw [List.prefix_take_iff]
    exact ⟨⟨rest, by simp⟩, by simpa using hle⟩
  exact hp.subset (by simp)

/-- The search from `next_index` on finds the first LF of the buffer. -/
theorem findIdx_lf {seg : Bytes} (h : LF ∉ seg) (rest : Bytes) {k : Nat}
    (hk : k ≤ seg.length) :
    ((seg ++ LF :: rest).drop k).findIdx? (· == LF) = some (seg.length - k) := by
  have hno : (seg.drop k).findIdx? (· == LF) = none := by
    rw [List.findIdx?_eq_none_iff]
    intro b hb
    have hne : b ≠ LF := by
      rintro rfl
      exact h (List.mem_of_mem_drop hb)
    simpa using hne
  rw [List.drop_append_of_le_length hk, List.findIdx?_append, hno]
  simp [List.findIdx?_cons]

theorem run_lineEnd (st : RwhoisCodec × Bytes) (seg rest : Bytes) :
    (lineEnd (seg ++ LF :: rest) seg.length).run st =
      (.ok (if seg.getLast? = some CR then seg.length - 1 else seg.length), st) := by
  rcases List.eq_nil_or_concat' seg with rfl | ⟨init, b, rfl⟩
  · simp [lineEnd]
  · have hget : (init ++ [b] ++ LF :: rest)[(init ++ [b]).length - 1]? = some b := by
      simp
    rw [lineEnd, if_pos (by simp), hget, Exec.run_index_some_bind]
    simp

/-- `decode` on a buffer with a line feed in it. -/
theorem decode_line {self : RwhoisCodec} {seg rest : Bytes}
    (hs : Scanned (self, seg ++ LF :: rest)) (h : LF ∉ seg) :
    decode.run (self, seg ++ LF :: rest) =
      if seg.length + 1 > self.maxLine then
        (.err (.lineTooLong self.maxLine), (self, seg ++ LF :: rest))
      else
        ((lineResult seg).map some, ({ self with nextIndex := 0 }, rest)) := by
  have hk := hs.le_first
  have htake : (seg ++ LF :: rest).take (seg.length + 1) = seg ++ [LF] := by
    rw [List.take_append, List.take_of_length_le (by omega)]
    simp
  have hdrop : (seg ++ LF :: rest).drop (seg.length + 1) = rest := by
    simp [List.drop_append]
  rw [decode, Exec.run_get_bind]
  simp only
  rw [Exec.run_bind_ok (Exec.run_sliceFrom hs.inRange _), findIdx_lf h rest hk]
  simp only [Nat.add_sub_cancel' hk]
  split
  · rfl
  · rw [Exec.run_bind_ok (run_lineEnd _ seg rest),
      Exec.run_bind_ok (Exec.run_sliceTo (by simp) _), htake, hdrop, Exec.run_modify_bind,
      Exec.run_bind_ok (Exec.run_sliceTo (by split <;> simp; omega) _)]
    have hbody : (seg ++ [LF]).take (if seg.getLast? = some CR then seg.length - 1 else seg.length) =
        if seg.getLast? = some CR then seg.dropLast else seg := by
      split <;> simp [List.dropLast_eq_take, List.take_append]
    rw [hbody, stripControl_eq]
    simp only [lineResult]
    generalize (if seg.getLast? = some CR then seg.dropLast else seg) = body
    by_cases hb : body.any (0x80 ≤ ·) = true
    · simp [hb, Outcome.ofExcept, Outcome.map, Exec.run_bind, nonAsciiError,
        ResponseCode.INVALID_QUERY_SYNTAX]
    · simp [hb, Outcome.ofExcept, Outcome.map, Exec.run_bind]

/-- `decode` on a buffer without a line feed. -/
theorem decode_tail {self : RwhoisCodec} {src : Bytes} (hs : Scanned (self, src))
    (h : LF ∉ src) :
    decode.run (self, src) =
      if src.length > self.maxLine then (.err (.lineTooLong self.maxLine), (self, src))
      else (.ok none, ({ self with nextIndex := src.length }, src)) := by
  have hno : (src.drop self.nextIndex).findIdx? (· == LF) = none := by
    rw [List.findIdx?_eq_none_iff]
    intro b hb
    have hne : b ≠ LF := by
      rintro rfl
      exact h (List.mem_of_mem_drop hb)
    simpa using hne
  rw [decode, Exec.run_get_bind]
  simp only
  rw [Exec.run_bind_ok (Exec.run_sliceFrom hs.inRange _), hno]
  simp only
  split <;> rfl

/-- A line of ASCII bytes has none of the others, with or without its CR. -/
theorem any_high_of_ascii {seg : Bytes} (h : ∀ b ∈ seg, b < 0x80) :
    (if seg.getLast? = some CR then seg.dropLast else seg).any (0x80 ≤ ·) = false := by
  rw [List.any_eq_false]
  intro b hb
  have hmem : b ∈ seg := by
    split at hb
    · exact (List.dropLast_sublist seg).subset hb
    · exact hb
  have hlt := h b hmem
  simpa using hlt

theorem lineResult_cases (seg : Bytes) :
    (∃ line, lineResult seg = .ok line) ∨ lineResult seg = .err nonAsciiError := by
  simp only [lineResult]
  generalize (if seg.getLast? = some CR then seg.dropLast else seg) = body
  split
  · exact .inr rfl
  · exact .inl ⟨_, rfl⟩

/-! ## Whole runs -/

/-- The state in which `decode` waits for more bytes: everything in the
buffer was searched, and it is the beginning of one line. -/
structure Waiting (max : Nat) (st : RwhoisCodec × Bytes) : Prop where
  maxLine : st.1.maxLine = max
  scanned : st.1.nextIndex = st.2.length
  noLf : LF ∉ st.2
  fits : st.2.length ≤ max

theorem Waiting.start (max : Nat) : Waiting max (withMaxLine max, []) := by
  constructor <;> simp [withMaxLine]

theorem Waiting.toScanned {max : Nat} {st : RwhoisCodec × Bytes} (h : Waiting max st) :
    Scanned st := by
  refine ⟨Nat.le_of_eq h.scanned, ?_⟩
  rw [h.scanned, List.take_length]
  exact h.noLf

/-- Draining takes the finished lines of the buffer off the front of the
stream: what was returned is what the specification says about them, and
the rest of the stream decides the rest. The induction is on the fuel,
which the buffer's length bounds because every line that is returned
shortens the buffer. -/
theorem drain_spec {max : Nat} (fuel : Nat) : ∀ (self : RwhoisCodec) (src : Bytes),
    self.maxLine = max → Scanned (self, src) → src.length < fuel →
    (∃ rs st, drain fuel (self, src) = (rs, some st) ∧ Waiting max st ∧
        ∀ more, lineSpec max (src ++ more) = rs ++ lineSpec max (st.2 ++ more)) ∨
      (∃ rs, drain fuel (self, src) = (rs, none) ∧
        ∀ more, lineSpec max (src ++ more) = rs) := by
  induction fuel with
  | zero => intro self src _ _ hlt; omega
  | succ fuel ih =>
      intro self src hmax hs hlt
      subst hmax
      by_cases hlf : LF ∈ src
      · obtain ⟨seg, rest, rfl, hseg⟩ := List.eq_append_cons_of_mem hlf
        have hdec := decode_line hs hseg
        by_cases hlong : seg.length + 1 > self.maxLine
        · right
          rw [if_pos hlong] at hdec
          refine ⟨_, by rw [drain, hdec], ?_⟩
          intro more
          rw [List.append_assoc, List.cons_append, lineSpec_line _ hseg, if_pos hlong]
        · rw [if_neg hlong] at hdec
          have hnext : Scanned ({ self with nextIndex := 0 }, rest) := by
            constructor <;> simp
          have hstep : ∀ more, lineSpec self.maxLine (seg ++ LF :: rest ++ more) =
              lineResult seg :: lineSpec self.maxLine (rest ++ more) := by
            intro more
            rw [List.append_assoc, List.cons_append, lineSpec_line _ hseg, if_neg hlong]
          have hdrain : drain (fuel + 1) (self, seg ++ LF :: rest) =
              (lineResult seg :: (drain fuel ({ self with nextIndex := 0 }, rest)).1,
                (drain fuel ({ self with nextIndex := 0 }, rest)).2) := by
            rcases lineResult_cases seg with ⟨line, hl⟩ | hl <;>
              rw [drain, hdec, hl] <;> rfl
          have hshort : rest.length < fuel := by
            simp only [List.length_append, List.length_cons] at hlt
            omega
          rcases ih { self with nextIndex := 0 } rest rfl hnext hshort with ⟨rs, st, hd, hw, hspec⟩ | ⟨rs, hd, hspec⟩
          · left
            refine ⟨lineResult seg :: rs, st, by rw [hdrain, hd], hw, ?_⟩
            intro more
            rw [hstep, hspec, List.cons_append]
          · right
            refine ⟨lineResult seg :: rs, by rw [hdrain, hd], ?_⟩
            intro more
            rw [hstep, hspec]
      · have hdec := decode_tail hs hlf
        by_cases hlong : src.length > self.maxLine
        · right
          rw [if_pos hlong] at hdec
          exact ⟨_, by rw [drain, hdec], fun more => lineSpec_tooLong hlf hlong more⟩
        · left
          rw [if_neg hlong] at hdec
          refine ⟨[], _, by rw [drain, hdec], ⟨rfl, rfl, hlf, by simpa using hlong⟩, ?_⟩
          intro more
          rfl

/-- Feeding the chunks to a waiting decoder gives the results of the
buffer and the chunks read as one stream. -/
theorem feed_eq_lineSpec {max : Nat} {st : RwhoisCodec × Bytes} (hw : Waiting max st)
    (chunks : List Bytes) : feed st chunks = lineSpec max (st.2 ++ chunks.flatten) := by
  induction chunks generalizing st with
  | nil =>
      rw [List.flatten_nil, List.append_nil, lineSpec_tail max hw.noLf,
        if_neg (by have := hw.fits; omega), feed]
  | cons chunk chunks ih =>
      obtain ⟨self, src⟩ := st
      rw [List.flatten_cons, ← List.append_assoc, feed]
      rcases drain_spec _ self (src ++ chunk) hw.maxLine (hw.toScanned.append chunk) (Nat.lt_succ_self _) with
        ⟨rs, st', hd, hw', hspec⟩ | ⟨rs, hd, hspec⟩
      · rw [hd, hspec]
        simp only
        rw [ih hw']
      · rw [hd, hspec]

/-- The states of a codec and its buffer when bytes are appended and
`decode` is called in any order, up to the first `LineTooLong`. -/
inductive Visited (max : Nat) : RwhoisCodec × Bytes → Prop where
  | start : Visited max (withMaxLine max, [])
  | append {self : RwhoisCodec} {src : Bytes} (chunk : Bytes) :
      Visited max (self, src) → Visited max (self, src ++ chunk)
  | decode {st st' : RwhoisCodec × Bytes} {o : Outcome Error (Option Str)} :
      Visited max st → RwhoisCodec.decode.run st = (o, st') →
      o ≠ .err (.lineTooLong max) → Visited max st'

/-- What a call does in a scanned state, in one equation. -/
theorem decode_scanned {self : RwhoisCodec} {src : Bytes} (hs : Scanned (self, src)) :
    (∃ seg rest, src = seg ++ LF :: rest ∧ LF ∉ seg ∧ decode.run (self, src) =
        ((lineResult seg).map some, ({ self with nextIndex := 0 }, rest))) ∨
      decode.run (self, src) = (.ok none, ({ self with nextIndex := src.length }, src)) ∧
        LF ∉ src ∨
      decode.run (self, src) = (.err (.lineTooLong self.maxLine), (self, src)) := by
  by_cases hlf : LF ∈ src
  · obtain ⟨seg, rest, rfl, hseg⟩ := List.eq_append_cons_of_mem hlf
    have hdec := decode_line hs hseg
    split at hdec
    · exact .inr (.inr hdec)
    · exact .inl ⟨seg, rest, rfl, hseg, hdec⟩
  · have hdec := decode_tail hs hlf
    split at hdec
    · exact .inr (.inr hdec)
    · exact .inr (.inl ⟨hdec, hlf⟩)

theorem Visited.scanned {max : Nat} {st : RwhoisCodec × Bytes} (h : Visited max st) :
    st.1.maxLine = max ∧ Scanned st := by
  induction h with
  | start => exact ⟨rfl, Scanned.start max⟩
  | append chunk _ ih => exact ⟨ih.1, ih.2.append chunk⟩
  | @decode st st' o _ hdec hok ih =>
      obtain ⟨self, src⟩ := st
      obtain ⟨hmax, hs⟩ := ih
      rcases decode_scanned hs with ⟨seg, rest, rfl, -, hd⟩ | ⟨hd, hlf⟩ | hd
      · rw [hd] at hdec
        cases hdec
        exact ⟨hmax, by constructor <;> simp⟩
      · rw [hd] at hdec
        cases hdec
        exact ⟨hmax, by constructor <;> simp [hlf]⟩
      · rw [hd] at hdec
        cases hdec
        exact absurd (by rw [← hmax]) hok

theorem feed_start (max : Nat) (chunks : List Bytes) :
    feed (withMaxLine max, []) chunks = lineSpec max chunks.flatten := by
  rw [feed_eq_lineSpec (Waiting.start max), List.nil_append]

/-- **The incremental decoder is the one-shot reading.** For every stream,
every limit and every way of cutting the stream into chunks, the results
are those of `lineSpec` on the whole stream, so they do not depend on the
cut. In every state on the way the slice from `next_index` is in range,
and a protocol error takes exactly its own line off the buffer. -/
theorem decode_stream (max : Nat) (chunks : List Bytes) :
    feed (withMaxLine max, []) chunks = lineSpec max chunks.flatten ∧
      (∀ cut : List Bytes, cut.flatten = chunks.flatten →
        feed (withMaxLine max, []) cut = feed (withMaxLine max, []) chunks) ∧
      ∀ self src, Visited max (self, src) → self.nextIndex ≤ src.length ∧
        ∀ code message st', decode.run (self, src) = (.err (.protocol code message), st') →
          ∃ line, LF ∉ line ∧ src = line ++ LF :: st'.2 ∧ st'.1 = withMaxLine max := by
  refine ⟨feed_start max chunks, fun cut hcut => by rw [feed_start, feed_start, hcut], ?_⟩
  intro self src hv
  obtain ⟨hmax, hs⟩ := hv.scanned
  refine ⟨hs.inRange, ?_⟩
  intro code message st' hdec
  rcases decode_scanned hs with ⟨seg, rest, hsrc, hseg, hd⟩ | ⟨hd, -⟩ | hd
  · rw [hd] at hdec
    obtain ⟨-, rfl⟩ := Prod.mk.inj hdec
    exact ⟨seg, hseg, hsrc, by rw [withMaxLine, ← hmax]⟩
  · rw [hd] at hdec
    cases hdec
  · rw [hd] at hdec
    cases hdec

/-- A CRLF line cut in two places, a line with a byte that is not ASCII,
an LF line and an unfinished tail; and the buffer after the bad line. -/
theorem decode_stream_cut_line :
    feed (withMaxLine 8, []) [utf8 "-qu".toList, utf8 "it\r".toList,
        [LF, 0x61, 0xC3, LF, 0x20, 0x07, 0x62, LF, 0x63]] =
      [.ok "-quit".toList,
        .err (.protocol ⟨350, "Invalid Query Syntax".toList⟩ "non-ASCII byte in line".toList),
        .ok "b".toList] ∧
    ∃ line, LF ∉ line ∧ [0x61, 0xC3, LF, 0x62] = line ++ LF :: [0x62] := by
  refine ⟨by rw [(decode_stream 8 _).1]; decide, ?_⟩
  obtain ⟨line, hline, hsrc, -⟩ :=
    ((decode_stream 8 []).2.2 (withMaxLine 8) [0x61, 0xC3, LF, 0x62] (.append _ .start)).2
      .INVALID_QUERY_SYNTAX "non-ASCII byte in line".toList (withMaxLine 8, [0x62]) (by decide)
  exact ⟨line, hline, hsrc⟩

end RwhoisCodec

end Rwhois
