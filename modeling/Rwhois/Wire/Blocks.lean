import Rwhois.Wire.RoundTrip

/-!
# Wire — Blocks

How the end of a block is recognised. A block of tagged lines ends with
its tag alone, and a reader should be told `TaggedEnd` for it, whichever
tag it is.

`parse` looks at the tag only after it has dealt with `%info` and
`%referral` on their own, and neither of these branches asks for an empty
body. So these two tags have no end line: alone they are read as `Tagged`
with an empty body, which no other line is.
-/

namespace Rwhois

open RustStd

/-- The token, and nothing but spaces behind it. -/
def Alone (tok line : Str) : Prop := ∃ n, line = tok ++ List.replicate n ' '

/-- A line ends the block of `t` if and only if it is the token of `t`
alone, and no line has a tag and an empty body. -/
def EndsUniformly (line : Str) : Prop :=
  (∀ t : Tag, ResponseLine.parse line = .taggedEnd t ↔ Alone t.asStr line) ∧
    ∀ t : Tag, ResponseLine.parse line ≠ .tagged t []

/-! ## Tags and tokens -/

theorem Tag.fromToken_eq_some {s : Str} {t : Tag} : fromToken s = some t ↔ s = t.asStr := by
  constructor
  · intro h
    have htable : ∀ arm ∈ tokenTable, arm.1.toList = arm.2.asStr := by decide
    obtain ⟨arm, harm, rfl⟩ := Option.map_eq_some_iff.mp h
    have hs : arm.1.toList = s := by simpa using List.find?_some harm
    rw [← hs]
    exact htable arm (List.mem_of_find?_eq_some harm)
  · rintro rfl
    exact t.fromToken_asStr

theorem Tag.asStr_inj {t u : Tag} : t.asStr = u.asStr ↔ t = u := by
  refine ⟨fun h => ?_, congrArg asStr⟩
  have hu := fromToken_eq_some.mpr h
  rw [fromToken_asStr] at hu
  exact Option.some.inj hu

namespace ResponseLine

/-! ## One token -/

theorem parseErrorBody_eq (body : Str) :
    ∃ code text extra, parseErrorBody body = .error code text extra := by
  simp only [parseErrorBody]
  split <;> exact ⟨_, _, _, rfl⟩

/-- Only an empty body is read as the end of a block or as empty. -/
theorem body_eq_nil {tok body : Str} {t : Tag}
    (h : parseTagged tok body = .taggedEnd t ∨ parseTagged tok body = .tagged t []) :
    body = [] := by
  obtain ⟨code, text, extra, herror⟩ := parseErrorBody_eq body
  unfold parseTagged at h
  rw [herror] at h
  split at h
  · rcases h with h | h <;> cases h
  split at h
  · rcases h with h | h <;> cases h
  split at h
  · split at h
    · rcases h with h | h <;> cases h
    split at h
    · rcases h with h | h <;> cases h
    · rcases h with h | h
      · cases h
      · exact (ResponseLine.tagged.inj h).2
  split at h
  · split at h
    · rcases h with h | h <;> cases h
    · rcases h with h | h
      · cases h
      · exact (ResponseLine.tagged.inj h).2
  split at h
  · split at h
    · assumption
    · rcases h with h | h
      · cases h
      · exact (ResponseLine.tagged.inj h).2
  · rcases h with h | h <;> cases h

/-- What a token alone is read as. -/
inductive ReadsAlone (tok : Str) : ResponseLine → Prop where
  | ends {t : Tag} (htok : tok = t.asStr) (hinfo : t ≠ .info) (href : t ≠ .referral) :
      ReadsAlone tok (.taggedEnd t)
  | empty {t : Tag} (htok : tok = t.asStr) (ht : t = .info ∨ t = .referral) :
      ReadsAlone tok (.tagged t [])
  | other {l : ResponseLine} (htok : ∀ t : Tag, tok ≠ t.asStr)
      (hl : ∀ t, l ≠ .taggedEnd t ∧ l ≠ .tagged t []) : ReadsAlone tok l

theorem readsAlone (tok : Str) : ReadsAlone tok (parseTagged tok []) := by
  obtain ⟨code, text, extra, herror⟩ := parseErrorBody_eq []
  unfold parseTagged
  rw [herror]
  split
  · rename_i htok
    refine .other (fun t => ?_) (by simp)
    rw [htok]
    cases t <;> decide
  split
  · rename_i htok
    refine .other (fun t => ?_) (by simp)
    rw [htok]
    cases t <;> decide
  split
  · rename_i htok
    rw [if_neg (by decide), if_neg (by decide)]
    exact .empty htok (.inl rfl)
  split
  · rename_i htok
    exact .empty htok (.inr rfl)
  rename_i hinfo href
  split
  · rename_i t ht
    have htok := Tag.fromToken_eq_some.mp ht
    refine .ends htok ?_ ?_
    · rintro rfl
      exact hinfo htok
    · rintro rfl
      exact href htok
  · rename_i hnone
    refine .other (fun t ht => ?_) (by simp)
    rw [Tag.fromToken_eq_some.mpr ht] at hnone
    cases hnone

/-! ## One line -/

/-- What `parse` makes of the text behind the token. -/
def bodyOf (rest : Option Str) : Str := (rest.map (trimStartMatches (· == ' '))).getD []

theorem parse_behind {tok : Str} (htok : ' ' ∉ tok) {rest : Option Str}
    (hhead : (tok ++ behind ' ' rest).head? = some '%') :
    parse (tok ++ behind ' ' rest) = parseTagged tok (bodyOf rest) := by
  have hne : tok ++ behind ' ' rest ≠ [] := by
    intro hnil
    rw [hnil] at hhead
    cases hhead
  rw [parse, if_neg hne, if_neg (not_not.mpr hhead), splitOnce_behind htok]
  cases rest with
  | none =>
      rw [behind, List.append_nil]
      rfl
  | some r => rfl

theorem alone_behind {tok : Str} (htok : ' ' ∉ tok) {tok' : Str} (htok' : ' ' ∉ tok')
    (rest : Option Str) : Alone tok' (tok ++ behind ' ' rest) ↔ tok' = tok ∧ bodyOf rest = [] := by
  constructor
  · rintro ⟨n, hn⟩
    have hsplit := splitOnce_behind htok rest
    rw [hn] at hsplit
    cases n with
    | zero =>
        rw [List.replicate_zero, List.append_nil, splitOnce_char_none htok'] at hsplit
        obtain rfl := Option.map_eq_none_iff.mp hsplit.symm
        rw [List.replicate_zero, behind, List.append_nil, List.append_nil] at hn
        exact ⟨hn.symm, rfl⟩
    | succ n =>
        rw [List.replicate_succ, splitOnce_char htok'] at hsplit
        obtain ⟨r, rfl, hr⟩ := Option.map_eq_some_iff.mp hsplit.symm
        obtain ⟨rfl, rfl⟩ := Prod.mk.inj hr
        exact ⟨rfl, by simp [bodyOf, trimStartMatches]⟩
  · rintro ⟨rfl, hbody⟩
    cases rest with
    | none => exact ⟨0, rfl⟩
    | some r =>
        have hspaces : ∀ c ∈ r, (c == ' ') = true := List.dropWhile_eq_nil_iff.mp hbody
        have hr : r = List.replicate r.length ' ' :=
          List.eq_replicate_of_mem fun c hc => beq_iff_eq.mp (hspaces c hc)
        refine ⟨r.length + 1, ?_⟩
        rw [behind, List.replicate_succ, ← hr]

end ResponseLine

theorem Alone.unique {tok tok' line : Str} (htok : ' ' ∉ tok) (htok' : ' ' ∉ tok')
    (h : Alone tok line) (h' : Alone tok' line) : tok = tok' := by
  obtain ⟨rest, rfl⟩ : ∃ rest, line = tok ++ behind ' ' rest := by
    obtain ⟨n, rfl⟩ := h
    cases n with
    | zero => exact ⟨none, rfl⟩
    | succ n => exact ⟨some (List.replicate n ' '), rfl⟩
  exact ((ResponseLine.alone_behind htok htok' rest).mp h').1.symm

namespace ResponseLine

theorem parse_untagged_ne {line : Str} (hhead : line.head? ≠ some '%') (t : Tag) :
    parse line ≠ .taggedEnd t ∧ parse line ≠ .tagged t [] := by
  unfold parse
  rw [if_pos hhead]
  split
  · exact ⟨by simp, by simp⟩
  · split
    · exact ⟨by simp, by simp⟩
    · exact ⟨by simp, by simp⟩

/-- A line is a token alone, or it neither ends a block nor is empty. -/
theorem alone_or (line : Str) :
    (∃ tok, ' ' ∉ tok ∧ Alone tok line ∧ parse line = parseTagged tok []) ∨
      ((∀ t : Tag, ¬ Alone t.asStr line) ∧
        ∀ t, parse line ≠ .taggedEnd t ∧ parse line ≠ .tagged t []) := by
  by_cases hhead : line.head? = some '%'
  · obtain ⟨tok, rest, rfl, htok⟩ := exists_behind ' ' line
    have hparse := parse_behind htok hhead
    by_cases hbody : bodyOf rest = []
    · left
      rw [hbody] at hparse
      exact ⟨tok, htok, (alone_behind htok htok rest).mpr ⟨rfl, hbody⟩, hparse⟩
    · right
      refine ⟨fun t halone => ?_, fun t => ?_⟩
      · exact hbody ((alone_behind htok t.space_notMem_asStr rest).mp halone).2
      · rw [hparse]
        exact ⟨fun h => hbody (body_eq_nil (.inl h)), fun h => hbody (body_eq_nil (.inr h))⟩
  · right
    refine ⟨fun t halone => ?_, parse_untagged_ne hhead⟩
    obtain ⟨n, rfl⟩ := halone
    apply hhead
    rw [List.head?_append, t.asStr_head?]
    rfl

theorem endsUniformly_iff (line : Str) :
    EndsUniformly line ↔ ¬ Alone Tag.info.asStr line ∧ ¬ Alone Tag.referral.asStr line := by
  rcases alone_or line with ⟨tok, htok, halone, hparse⟩ | ⟨hnot, hother⟩
  · have hiff : ∀ t : Tag, Alone t.asStr line ↔ tok = t.asStr := by
      intro t
      constructor
      · exact Alone.unique htok t.space_notMem_asStr halone
      · rintro rfl
        exact halone
    simp only [EndsUniformly, hiff, hparse]
    have hreads := readsAlone tok
    generalize parseTagged tok [] = l at hreads
    cases hreads with
    | @ends t ht hinfo href =>
        simp only [ht, Tag.asStr_inj]
        refine iff_of_true ⟨fun u => ?_, fun u => ?_⟩ ⟨hinfo, href⟩
        · simp
        · simp
    | @empty t ht hwhich =>
        simp only [ht, Tag.asStr_inj]
        refine iff_of_false (fun h => h.2 t rfl) fun h => ?_
        rcases hwhich with rfl | rfl
        · exact h.1 rfl
        · exact h.2 rfl
    | other ht hl =>
        refine iff_of_true ⟨fun u => ?_, fun u => (hl u).2⟩ ⟨ht _, ht _⟩
        exact iff_of_false (hl u).1 (ht u)
  · refine iff_of_true ⟨fun t => ?_, fun t => (hother t).2⟩ ⟨hnot _, hnot _⟩
    exact iff_of_false (hother t).1 (hnot t)

theorem parse_asStr (t : Tag) :
    parse t.asStr = .taggedEnd t ↔ t ≠ .info ∧ t ≠ .referral := by
  cases t <;> decide

end ResponseLine

/-- The lines a reader gets from a run of writer calls. -/
theorem WriterOp.lines_runAll {ops : List WriterOp} (h : ∀ op ∈ ops, op.Clean) :
    ∃ text, fromUtf8 (runAll ops .new).buf = some text ∧ splitTerminator text = ops.map line := by
  refine ⟨unlines (ops.map line), ?_, splitTerminator_unlines ?_⟩
  · rw [runAll_buf, ResponseWriter.new, List.nil_append, fromUtf8_utf8]
  · intro l hl
    obtain ⟨op, hop, rfl⟩ := List.mem_map.mp hl
    exact (h op hop).isLine

theorem endBlock_lines (t : Tag) :
    ∃ text, fromUtf8 (ResponseWriter.new.endBlock t).buf = some text ∧
      splitTerminator text = [t.asStr] := by
  obtain ⟨text, htext, hlines⟩ := WriterOp.lines_runAll
    (List.forall_mem_singleton.mpr (show (WriterOp.endBlock t).Clean from trivial))
  refine ⟨text, htext, ?_⟩
  rw [hlines, List.map_singleton, WriterOp.line, tagLine, if_pos rfl, List.append_nil]

/-- **Where the end of a block is recognised**: on every line except
`%info` and `%referral` alone; and so for the end line of every tag but
these two. -/
theorem endsUniformly (line : Str) (t : Tag) :
    (EndsUniformly line ↔ ¬ Alone Tag.info.asStr line ∧ ¬ Alone Tag.referral.asStr line) ∧
      ((∃ text, fromUtf8 (ResponseWriter.new.endBlock t).buf = some text ∧
          (splitTerminator text).map ResponseLine.parse = [.taggedEnd t]) ↔
        t ≠ .info ∧ t ≠ .referral) := by
  refine ⟨ResponseLine.endsUniformly_iff line, ?_⟩
  obtain ⟨text, htext, hlines⟩ := endBlock_lines t
  rw [← ResponseLine.parse_asStr]
  constructor
  · rintro ⟨text', htext', hparse⟩
    obtain rfl := Option.some.inj (htext.symm.trans htext')
    rw [hlines] at hparse
    exact List.singleton_inj.mp hparse
  · intro hparse
    exact ⟨text, htext, by rw [hlines, List.map_singleton, hparse]⟩

/-- `%info` and two spaces, and the end line of a referral block. -/
theorem endsUniformly_fails :
    ResponseLine.parse "%info  ".toList = .tagged .info [] ∧ ¬ EndsUniformly "%info  ".toList ∧
      (∃ text, fromUtf8 (ResponseWriter.new.endBlock .referral).buf = some text ∧
        (splitTerminator text).map ResponseLine.parse = [.tagged .referral []]) := by
  have hparse : ResponseLine.parse "%info  ".toList = .tagged .info [] := by decide
  refine ⟨hparse, fun h => h.2 .info hparse, ?_⟩
  obtain ⟨text, htext, hlines⟩ := endBlock_lines .referral
  exact ⟨text, htext, by rw [hlines]; decide⟩

end Rwhois
