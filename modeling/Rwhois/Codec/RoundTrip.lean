import Rwhois.Codec.Stream

/-!
# Codec — RoundTrip

`encode` against `decode` over whole streams. The encoder measures
`item.len() + 2`, the decoder the position of the line feed plus one; on
an item behind its CRLF these are the same number, so what one side takes
the other side never finds too long.
-/

namespace Rwhois

open RustStd

namespace RwhoisCodec

/-- `encode` for one item after another with the same destination: the
items it took, and the destination. -/
def encodeAll (self : RwhoisCodec) : List Bytes → Bytes → List Bytes × Bytes
  | [], dst => ([], dst)
  | item :: items, dst =>
      match self.encode item dst with
      | (.ok (), dst') => (item :: (encodeAll self items dst').1, (encodeAll self items dst').2)
      | (.error _, dst') => encodeAll self items dst'

/-- What the peer reads for an item. -/
def itemResult (item : Bytes) : Outcome Error Str :=
  if item.any (0x80 ≤ ·) then
    .err (.protocol ⟨350, "Invalid Query Syntax".toList⟩ "non-ASCII byte in line".toList)
  else .ok (trimMatches isBlank
    ((item.filter (fun b => b = 0x09 ∨ 0x20 ≤ b)).map fun b => Char.ofNat b.toNat))

/-! ## One item -/

/-- The encoder's two tests. -/
structure Accepts (self : RwhoisCodec) (item : Bytes) : Prop where
  fits : item.length + 2 ≤ self.maxLine
  noCr : CR ∉ item
  noLf : LF ∉ item

theorem encode_cases (self : RwhoisCodec) (item dst : Bytes) :
    self.encode item dst = (.ok (), dst ++ item ++ [CR, LF]) ∧ self.Accepts item ∨
      ∃ e, self.encode item dst = (.error e, dst) := by
  unfold encode
  split
  · exact .inr ⟨_, rfl⟩
  · rename_i hfits
    split
    · exact .inr ⟨_, rfl⟩
    · rename_i hclean
      have hno : ∀ b ∈ item, b ≠ CR ∧ b ≠ LF := by simpa using hclean
      refine .inl ⟨rfl, by omega, ?_, ?_⟩
      · intro hmem
        exact (hno CR hmem).1 rfl
      · intro hmem
        exact (hno LF hmem).2 rfl

theorem encode_refused {self : RwhoisCodec} {item dst : Bytes} {e : Error}
    (h : (self.encode item dst).1 = .error e) : (self.encode item dst).2 = dst := by
  rcases encode_cases self item dst with ⟨hok, -⟩ | ⟨e', herr⟩
  · rw [hok] at h
    cases h
  · rw [herr]

theorem encode_ok {self : RwhoisCodec} {item dst dst' : Bytes}
    (h : self.encode item dst = (.ok (), dst')) :
    self.Accepts item ∧ dst' = dst ++ item ++ [CR, LF] := by
  rcases encode_cases self item dst with ⟨hok, haccepts⟩ | ⟨e, herr⟩
  · rw [h] at hok
    exact ⟨haccepts, (Prod.mk.inj hok).2⟩
  · rw [h] at herr
    cases herr

/-- The CR of the terminator is not part of the item. -/
theorem lineResult_concat_cr (item : Bytes) : lineResult (item ++ [CR]) = itemResult item := by
  simp only [lineResult, itemResult, List.getLast?_append, List.getLast?_singleton,
    Option.some_or, if_true, List.dropLast_concat]

theorem itemResult_ne_tooLong (item : Bytes) (max : Nat) :
    itemResult item ≠ .err (.lineTooLong max) := by
  unfold itemResult
  split <;> simp

/-! ## Whole streams -/

/-- The destination holds the items that were taken, each behind a CRLF. -/
theorem encodeAll_spec (self : RwhoisCodec) (items : List Bytes) (dst : Bytes) :
    (self.encodeAll items dst).2 =
        dst ++ (self.encodeAll items dst).1.flatMap (· ++ [CR, LF]) ∧
      ∀ item ∈ (self.encodeAll items dst).1, self.Accepts item := by
  induction items generalizing dst with
  | nil => simp [encodeAll]
  | cons item items ih =>
      rcases encode_cases self item dst with ⟨hok, haccepts⟩ | ⟨e, herr⟩
      · obtain ⟨hdst, hall⟩ := ih (dst ++ item ++ [CR, LF])
        simp only [encodeAll, hok]
        constructor
        · rw [hdst, List.flatMap_cons, ← List.append_assoc, ← List.append_assoc]
        · intro item' hmem
          rcases List.mem_cons.mp hmem with rfl | hmem
          · exact haccepts
          · exact hall item' hmem
      · simp only [encodeAll, herr]
        exact ih dst

/-- One result for each item; the limit is met at the same length. -/
theorem lineSpec_items {max : Nat} {items : List Bytes}
    (h : ∀ item ∈ items, (withMaxLine max).Accepts item) :
    lineSpec max (items.flatMap (· ++ [CR, LF])) = items.map itemResult := by
  induction items with
  | nil =>
      rw [List.flatMap_nil, lineSpec_tail max List.not_mem_nil]
      rfl
  | cons item items ih =>
      obtain ⟨hfits, -, hno⟩ := h item List.mem_cons_self
      have hseg : LF ∉ item ++ [CR] := by
        intro hmem
        rcases List.mem_append.mp hmem with hmem | hmem
        · exact hno hmem
        · cases List.mem_singleton.mp hmem
      have hline : (item :: items).flatMap (· ++ [CR, LF]) =
          (item ++ [CR]) ++ LF :: items.flatMap (· ++ [CR, LF]) := by
        simp
      rw [hline, lineSpec_line max hseg, if_neg, lineResult_concat_cr,
        ih fun item' hmem => h item' (List.mem_cons_of_mem item hmem), List.map_cons]
      -- position of the line feed plus one against `item.len() + 2`
      rw [List.length_append, List.length_singleton]
      exact Nat.not_lt.mpr hfits

/-! ## Items that come back unchanged -/

/-- Tab and `0x20..=0x7f`, with no blank at the ends. -/
structure Plain (item : Bytes) : Prop where
  printable : ∀ b ∈ item, b = 0x09 ∨ 0x20 ≤ b ∧ b < 0x80
  head : ∀ b ∈ item.head?, b ≠ 0x20 ∧ b ≠ 0x09
  last : ∀ b ∈ item.getLast?, b ≠ 0x20 ∧ b ≠ 0x09

theorem Plain.ascii {item : Bytes} (h : Plain item) : ∀ b ∈ item, b.toNat < 128 := by
  intro b hb
  rcases h.printable b hb with rfl | ⟨-, hlt⟩
  · decide
  · exact UInt8.lt_iff_toNat_lt.mp hlt

theorem isBlank_ofNat : ∀ n < 128, isBlank (Char.ofNat n) = true → n = 0x20 ∨ n = 0x09 := by
  decide

theorem not_isBlank_of_ne {b : UInt8} (hascii : b.toNat < 128) (h : b ≠ 0x20 ∧ b ≠ 0x09) :
    isBlank (Char.ofNat b.toNat) = false := by
  cases hblank : isBlank (Char.ofNat b.toNat) with
  | false => rfl
  | true =>
      rcases isBlank_ofNat b.toNat hascii hblank with hb | hb
      · exact absurd (UInt8.toNat_inj.mp hb) h.1
      · exact absurd (UInt8.toNat_inj.mp hb) h.2

theorem trimMatches_plain {item : Bytes} (h : Plain item) :
    trimMatches isBlank (item.map fun b => Char.ofNat b.toNat) =
      item.map fun b => Char.ofNat b.toNat := by
  have hfront : (item.map fun b => Char.ofNat b.toNat).dropWhile isBlank =
      item.map fun b => Char.ofNat b.toNat := by
    cases item with
    | nil => rfl
    | cons b item =>
        have hb := not_isBlank_of_ne (h.ascii b List.mem_cons_self) (h.head b rfl)
        rw [List.map_cons, List.dropWhile_cons_of_neg]
        simpa using hb
  rw [trimMatches, hfront, List.rdropWhile_eq_self_iff]
  intro hne
  have hne' : item ≠ [] := by simpa using hne
  rw [List.getLast_map]
  have hlast := h.last (item.getLast hne') (List.getLast?_eq_getLast_of_ne_nil hne')
  simpa using not_isBlank_of_ne (h.ascii _ (List.getLast_mem hne')) hlast

theorem itemResult_plain {item : Bytes} (h : Plain item) :
    (itemResult item).map utf8 = .ok item := by
  have hascii : item.any (0x80 ≤ ·) = false := by
    rw [List.any_eq_false]
    intro b hb
    have hlt := h.ascii b hb
    simpa [UInt8.le_iff_toNat_le] using hlt
  have hkeep : item.filter (fun b => b = 0x09 ∨ 0x20 ≤ b) = item := by
    rw [List.filter_eq_self]
    intro b hb
    rcases h.printable b hb with rfl | ⟨hge, -⟩
    · rfl
    · simp [hge]
  rw [itemResult, hascii, hkeep, trimMatches_plain h]
  show Outcome.ok _ = _
  rw [utf8_map_ofNat h.ascii]

/-- **Decode undoes encode.** Whatever items are encoded one after the
other, and however the bytes are cut: a refused item leaves no trace, and
the peer reads one result for each item that was taken, in order, none of
them `LineTooLong`. Printable items without blanks at the ends come back
as they are. -/
theorem decode_encode (max : Nat) (items : List Bytes) (chunks : List Bytes)
    (hchunks : chunks.flatten = ((withMaxLine max).encodeAll items []).2) :
    (∀ item dst e, ((withMaxLine max).encode item dst).1 = .error e →
      ((withMaxLine max).encode item dst).2 = dst) ∧
    feed (withMaxLine max, []) chunks =
      ((withMaxLine max).encodeAll items []).1.map itemResult ∧
    .err (.lineTooLong max) ∉ feed (withMaxLine max, []) chunks ∧
    ((∀ item ∈ ((withMaxLine max).encodeAll items []).1, Plain item) →
      (feed (withMaxLine max, []) chunks).map (Outcome.map utf8) =
        ((withMaxLine max).encodeAll items []).1.map .ok) := by
  obtain ⟨hdst, haccepts⟩ := encodeAll_spec (withMaxLine max) items []
  have hfeed : feed (withMaxLine max, []) chunks =
      ((withMaxLine max).encodeAll items []).1.map itemResult := by
    rw [feed_eq_lineSpec (Waiting.start max), hchunks, hdst]
    exact lineSpec_items haccepts
  refine ⟨fun item dst e h => encode_refused h, hfeed, ?_, ?_⟩
  · rw [hfeed]
    intro hmem
    obtain ⟨item, -, hitem⟩ := List.mem_map.mp hmem
    exact itemResult_ne_tooLong item max hitem
  · intro hplain
    rw [hfeed, List.map_map]
    exact List.map_congr_left fun item hmem => itemResult_plain (hplain item hmem)

/-- Limit 6: an item of four bytes just fits, one of five and one with a
line feed are refused. The bytes are cut inside both terminators. -/
theorem decode_encode_boundary :
    let items := [utf8 "-abc".toList, utf8 "12345".toList, utf8 "a\nb".toList, [0x20, 0x07, 0x62],
      [0xC3]]
    ((withMaxLine 6).encodeAll items []).1 = [utf8 "-abc".toList, [0x20, 0x07, 0x62], [0xC3]] ∧
      feed (withMaxLine 6, []) [utf8 "-abc\r".toList, utf8 "\n \x07b\r".toList, [LF, 0xC3, CR, LF]] =
        ((withMaxLine 6).encodeAll items []).1.map itemResult :=
  ⟨by decide, (decode_encode 6 _ _ (by decide)).2.1⟩

end RwhoisCodec

end Rwhois
