import Rwhois.Codec.Stream
import Rwhois.Query.Grammar
import Rwhois.Wire.Request

/-!
# Intake

The way of a client's bytes to a request: `decode` cuts and cleans a
line, `classify` sorts it, `Query::parse` reads a query. The first
guarantees what the others rest on: a decoded line is printable ASCII and
tabs, so every byte offset in it is a character boundary.
-/

namespace Rwhois

open RustStd

namespace RwhoisCodec

/-! ## What a decoded line looks like -/

/-- A line that the decoder returned for some stream. -/
def Decoded (line : Str) : Prop :=
  ∃ max chunks, Outcome.ok line ∈ feed (withMaxLine max, []) chunks

/-- It is enough to look at the stream as a whole. -/
theorem Decoded.of_lineSpec {max : Nat} {stream : Bytes} {line : Str}
    (h : Outcome.ok line ∈ lineSpec max stream) : Decoded line := by
  refine ⟨max, [stream], ?_⟩
  rw [feed_eq_lineSpec (Waiting.start max)]
  simpa using h

/-- Lines that come back from a stream of them. -/
theorem Decoded.of_unlines {lines : List Str} (max : Nat)
    (h : ∀ line ∈ lines, Outcome.ok line ∈ lineSpec max (utf8 (unlines lines))) :
    ∀ line ∈ lines, Decoded line :=
  fun line hline => .of_lineSpec (h line hline)

theorem mem_pieceResults {max : Nat} {pieces : List Bytes} {r : Outcome Error Str}
    (h : r ∈ pieceResults max pieces) :
    (∃ seg ∈ pieces.dropLast, r = lineResult seg) ∨ r = .err (.lineTooLong max) := by
  induction pieces with
  | nil => simp [pieceResults] at h
  | cons seg segs ih =>
      cases segs with
      | nil =>
          simp only [pieceResults] at h
          split at h
          · exact .inr (List.mem_singleton.mp h)
          · simp at h
      | cons seg' segs =>
          simp only [pieceResults] at h
          split at h
          · exact .inr (List.mem_singleton.mp h)
          · rw [List.dropLast_cons_cons]
            rcases List.mem_cons.mp h with h | h
            · exact .inl ⟨seg, List.mem_cons_self, h⟩
            · rcases ih h with ⟨seg'', hmem, hr⟩ | hlong
              · exact .inl ⟨seg'', List.mem_cons_of_mem seg hmem, hr⟩
              · exact .inr hlong

/-- Every result is that of a line of the stream, or the end of a line
that is too long. -/
theorem mem_feed {max : Nat} {chunks : List Bytes} {r : Outcome Error Str}
    (h : r ∈ feed (withMaxLine max, []) chunks) :
    (∃ seg ∈ (chunks.flatten.splitOn LF).dropLast, r = lineResult seg) ∨
      r = .err (.lineTooLong max) := by
  rw [feed_eq_lineSpec (Waiting.start max)] at h
  exact mem_pieceResults h

theorem lineResult_returns (seg : Bytes) : (lineResult seg).Returns := by
  rcases lineResult_cases seg with ⟨line, h⟩ | h <;> rw [h] <;> trivial

/-- A decoded line is printable ASCII and tabs. -/
theorem Decoded.char {line : Str} (h : Decoded line) {c : Char} (hc : c ∈ line) :
    c.toNat < 128 ∧ (c = '\t' ∨ 32 ≤ c.toNat) := by
  obtain ⟨max, chunks, hmem⟩ := h
  obtain ⟨seg, -, hseg⟩ := (mem_feed hmem).resolve_right (by simp)
  replace hseg := hseg.symm
  simp only [lineResult] at hseg
  generalize (if seg.getLast? = some CR then seg.dropLast else seg) = body at hseg
  split at hseg
  · cases hseg
  · rename_i hascii
    cases hseg
    have hraw := mem_of_mem_trimMatches hc
    obtain ⟨b, hb, rfl⟩ := List.mem_map.mp hraw
    obtain ⟨hbody, hkeep⟩ := List.mem_filter.mp hb
    have hlt : b.toNat < 128 := by
      have : ¬ 0x80 ≤ b := by
        intro hle
        exact hascii (List.any_eq_true.mpr ⟨b, hbody, by simpa using hle⟩)
      simpa [UInt8.le_iff_toNat_le] using this
    have hnat := toNat_ofNat_of_ascii b.toNat hlt
    refine ⟨by omega, ?_⟩
    simp only [decide_eq_true_eq] at hkeep
    rcases hkeep with rfl | hkeep
    · exact .inl rfl
    · right
      rw [hnat]
      simpa [UInt8.le_iff_toNat_le] using hkeep

theorem Decoded.isAscii {line : Str} (h : Decoded line) : IsAscii line :=
  fun _ hc => (h.char hc).1

theorem Decoded.isLine {line : Str} (h : Decoded line) : IsLine line := by
  intro c hc
  rcases (h.char hc).2 with rfl | hge
  · decide
  · constructor <;>
    · rintro rfl
      simp at hge

end RwhoisCodec

/-- One line on its way to the dispatcher: classified, and parsed if it
is a query. -/
def intake (line : Str) (spooling : Bool) : Outcome Error (Request × Option Query) :=
  ((Request.classify line spooling : Exec Unit Error Request).run ()).1.bind fun request =>
    match request with
    | .query text => (Query.parse text).map fun query => (request, some query)
    | _ => .ok (request, none)

theorem Request.read_query {line text : Str} {spooling : Bool}
    (h : Request.read line spooling = .query text) : text = line := by
  unfold Request.read at h
  repeat' split at h
  all_goals cases h
  rfl

theorem Request.read_spool {line text : Str} {spooling : Bool}
    (h : Request.read line spooling = .spool text) : spooling = true ∧ text = line := by
  unfold Request.read at h
  repeat' split at h
  all_goals cases h
  exact ⟨by assumption, rfl⟩

/-- Everything a directive is given is taken from its line. -/
theorem Request.read_directive {line name args : Str} {spooling : Bool}
    (h : Request.read line spooling = .directive name args) : ∀ c ∈ args, c ∈ line := by
  unfold Request.read at h
  repeat' split at h
  all_goals cases h
  intro c hc
  exact List.mem_of_mem_tail ((List.dropWhile_suffix _).subset (mem_of_mem_trimStart hc))

/-- The name is a word of the line, in lower case. -/
theorem Request.read_directive_name {line name args : Str} {spooling : Bool}
    (h : Request.read line spooling = .directive name args) :
    ∃ word, name = toAsciiLowercase word ∧ ∀ c ∈ word, c ∈ line := by
  unfold Request.read at h
  repeat' split at h
  all_goals cases h
  refine ⟨_, rfl, ?_⟩
  intro c hc
  exact List.mem_of_mem_tail ((List.takeWhile_prefix _).subset hc)

theorem Query.parse_returns {s : Str} (h : IsAscii s) : (Query.parse s).Returns := by
  have hagrees := Query.parse_agrees (.of_isAscii h.trim)
  cases he : Grammar.expr s with
  | some e =>
      rw [he] at hagrees
      rw [show Query.parse s = _ from hagrees]
      trivial
  | none =>
      rw [he] at hagrees
      obtain ⟨message, -, herr⟩ := hagrees
      rw [herr]
      trivial

theorem intake_of_isAscii {line : Str} (h : IsAscii line) (spooling : Bool) :
    (intake line spooling).Returns := by
  unfold intake
  rw [Request.run_classify]
  cases hread : Request.read line spooling with
  | query text =>
      obtain rfl := Request.read_query hread
      have hparse := Query.parse_returns h
      simp only [Outcome.bind]
      cases hq : Query.parse text with
      | ok q => trivial
      | err e => trivial
      | panic =>
          rw [hq] at hparse
          exact hparse
      | diverge =>
          rw [hq] at hparse
          exact hparse
  | _ => trivial

namespace RwhoisCodec

/-- **No client can crash the parsing.** From every state the codec can
be in, a call of `decode` comes back; every result on a stream is a
`Result`; and every decoded line comes back from the classifier and the
query parser, in both session states. -/
theorem intake_returns (max : Nat) (chunks : List Bytes) :
    (∀ st, Visited max st → (decode.run st).1.Returns) ∧
      ∀ r ∈ feed (withMaxLine max, []) chunks, r.Returns ∧
        ∀ line, r = .ok line → ∀ spooling, (intake line spooling).Returns := by
  constructor
  · rintro ⟨self, src⟩ hst
    rcases decode_scanned hst.scanned.2 with ⟨seg, rest, -, -, h⟩ | ⟨h, -⟩ | h
    · rw [h]
      rcases lineResult_cases seg with ⟨line, hl⟩ | hl <;> rw [hl] <;> trivial
    · rw [h]
      trivial
    · rw [h]
      trivial
  · intro r hr
    refine ⟨?_, ?_⟩
    · rcases mem_feed hr with ⟨seg, -, rfl⟩ | rfl
      · exact lineResult_returns seg
      · trivial
    · rintro line rfl spooling
      exact intake_of_isAscii (Decoded.isAscii ⟨max, chunks, hr⟩) spooling

/-- A query with a cut inside a keyword, and a byte that is not ASCII. -/
theorem intake_returns_cut_keyword :
    (decode.run (withMaxLine 16, [0x78, 0x20, 0x61, 0x6E])).1.Returns ∧
      (intake "x and b".toList false).Returns :=
  ⟨(intake_returns 16 []).1 _ (.append [0x78, 0x20, 0x61, 0x6E] .start),
    ((intake_returns 16 [utf8 "x an".toList, utf8 "d b".toList ++ [LF, 0xFF, LF]]).2
      (.ok "x and b".toList) (by rw [feed_eq_lineSpec (Waiting.start 16)]; decide)).2 _ rfl false⟩

end RwhoisCodec

end Rwhois
