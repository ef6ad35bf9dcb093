import Rwhois.Wire.Banner

/-!
# Wire — Greeting

Reading the banner back. Four separators nest in one line: blanks around
the host name, commas between the versions, colons in front of and inside
the capability, and a dot inside the version number. No part holds the
separator of a level above its own, except the implementation at the end,
which is taken as it is.

`WellFormed` says what the text form cannot express otherwise. Every
banner that `parse` gives is well formed, so a client that writes what it
read is understood the same way.
-/

namespace Rwhois

open RustStd

/-! ## Capabilities -/

/-- The mask of `Display` keeps it. -/
def Capability.Fits (c : Capability) : Prop := c.responseId.toNat < 2 ^ 24

namespace Capability

/-- What is read as a capability. -/
theorem parse_eq_some {s : Str} {c : Capability} :
    parse s = some c ↔ ∃ r e, s = r ++ ':' :: e ∧ ':' ∉ r ∧ byteLen r = 6 ∧ byteLen e = 2 ∧
      u32FromStrRadix 16 r = some c.responseId ∧ u8FromStrRadix 16 e = some c.extraId := by
  constructor
  · intro h
    simp only [parse, Option.bind_eq_bind, Option.bind_eq_some_iff] at h
    obtain ⟨⟨r, e⟩, hsplit, h⟩ := h
    obtain ⟨hs, hr⟩ := splitOnce_char_eq_some hsplit
    split at h
    · cases h
    · rename_i hlen
      simp only [ne_eq, not_or, not_not] at hlen
      obtain ⟨responseId, hresponse, h⟩ := Option.bind_eq_some_iff.mp h
      obtain ⟨extraId, hextra, h⟩ := Option.bind_eq_some_iff.mp h
      cases h
      exact ⟨r, e, hs, hr, hlen.1, hlen.2, hresponse, hextra⟩
  · rintro ⟨r, e, rfl, hr, hlen, helen, hresponse, hextra⟩
    simp [parse, splitOnce_char hr, hlen, helen, hresponse, hextra]

theorem not_mem_hexPadded {c : Char} (hc : isDigitOf 16 c = false) (w n : Nat) :
    c ∉ hexPadded w n := by
  intro hmem
  rw [isDigitOf_of_mem_hexPadded hmem] at hc
  cases hc

theorem byteLen_hexPadded {w n : Nat} (hw : 0 < w) (h : n < 16 ^ w) :
    byteLen (hexPadded w n) = w := by
  rw [byteLen_of_isDigitOf fun _ => isDigitOf_of_mem_hexPadded, length_hexPadded hw h]

theorem toStr_of_fits {c : Capability} (h : c.Fits) :
    c.toStr = hexPadded 6 c.responseId.toNat ++ ':' :: hexPadded 2 c.extraId.toNat := by
  have hmask : (c.responseId &&& 0x00FFFFFF).toNat = c.responseId.toNat := by
    rw [UInt32.toNat_and, show (0x00FFFFFF : UInt32).toNat = 2 ^ 24 - 1 from rfl,
      Nat.and_two_pow_sub_one_eq_mod]
    exact Nat.mod_eq_of_lt h
  rw [toStr, hmask]

theorem parse_toStr {c : Capability} (h : c.Fits) : parse c.toStr = some c :=
  parse_eq_some.mpr ⟨_, _, toStr_of_fits h, not_mem_hexPadded (by decide) _ _,
    byteLen_hexPadded (by decide) h, byteLen_hexPadded (by decide) c.extraId.toNat_lt,
    u32FromStrRadix_hexPadded _ _, u8FromStrRadix_hexPadded _ _⟩

/-- Six characters, sign or not, give at most 24 bits. -/
theorem fits_of_parse {s : Str} {c : Capability} (h : parse s = some c) : c.Fits := by
  obtain ⟨r, e, -, -, hlen, -, hresponse, -⟩ := parse_eq_some.mp h
  obtain ⟨n, hn, hc⟩ := Option.map_eq_some_iff.mp hresponse
  have hr : r.length ≤ 6 := hlen ▸ length_le_byteLen r
  have hlt : n < 2 ^ 24 := by
    calc n < 16 ^ r.length := lt_pow_of_fromStrRadix (by decide) hn
      _ ≤ 16 ^ 6 := Nat.pow_le_pow_right (by decide) hr
      _ = 2 ^ 24 := by decide
  rw [Fits, ← hc, UInt32.toNat_ofNat']
  exact (Nat.mod_le _ _).trans_lt hlt

end Capability

/-! ## Versions -/

namespace Version

def Fits (v : Version) : Prop := ∀ c ∈ v.capability, c.Fits

theorem not_mem_display {c : Char} (hc : c.isDigit = false) (n : Nat) : c ∉ display n := by
  intro hmem
  rw [isDigit_of_mem_display hmem] at hc
  cases hc

theorem splitParts_behind {number : Str} (h : ':' ∉ number) (cap : Option Str) :
    splitParts (number ++ behind ':' cap) = (number, cap) := by
  rw [splitParts, splitOnce_behind h]
  cases cap with
  | some cap => rfl
  | none =>
      rw [behind, List.append_nil]
      rfl

/-- What is read as a version. -/
theorem parse_eq_some {s : Str} {v : Version} :
    parse s = some v ↔ ∃ maj min cap, s = "V-".toList ++ (maj ++ '.' :: min ++ behind ':' cap) ∧
      '.' ∉ maj ∧ ':' ∉ maj ∧ ':' ∉ min ∧
      parseU32 maj = some v.major ∧ parseU32 min = some v.minor ∧
      cap.map Capability.parse = v.capability.map some := by
  constructor
  · intro h
    simp only [parse, Option.bind_eq_bind, Option.bind_eq_some_iff, stripPrefix_eq_some] at h
    obtain ⟨rest, hs, ⟨maj, min⟩, hdot, major, hmajor, minor, hminor, h⟩ := h
    obtain ⟨number, cap, rfl, hnumber⟩ := exists_behind ':' rest
    rw [splitParts_behind hnumber] at hdot h
    obtain ⟨rfl, hmaj⟩ := splitOnce_char_eq_some hdot
    simp only [List.mem_append, List.mem_cons, not_or] at hnumber
    refine ⟨maj, min, cap, hs, hmaj, hnumber.1, hnumber.2.2, ?_⟩
    cases cap with
    | none =>
        cases h
        exact ⟨hmajor, hminor, rfl⟩
    | some cap =>
        obtain ⟨c, hc, h⟩ := Option.bind_eq_some_iff.mp h
        cases h
        exact ⟨hmajor, hminor, congrArg some hc⟩
  · rintro ⟨maj, min, cap, rfl, hdot, hmaj, hmin, hmajor, hminor, hcap⟩
    have hnumber : ':' ∉ maj ++ '.' :: min := by simp [hmaj, hmin]
    simp only [parse, stripPrefix_append, Option.bind_eq_bind, Option.bind_some,
      splitParts_behind hnumber, splitOnce_char hdot, hmajor, hminor]
    obtain ⟨major, minor, capability⟩ := v
    cases cap with
    | none =>
        cases capability with
        | none => rfl
        | some c => cases hcap
    | some cap =>
        cases capability with
        | none => cases hcap
        | some c =>
            simp only [Option.some.inj hcap, Option.bind_some]
            rfl

theorem toStr_eq (v : Version) : v.toStr = "V-".toList ++
    (display v.major.toNat ++ '.' :: display v.minor.toNat ++
      behind ':' (v.capability.map Capability.toStr)) := by
  rw [toStr, List.append_assoc, List.append_assoc, List.append_assoc]
  cases v.capability <;> rfl

theorem parse_toStr {v : Version} (h : v.Fits) : parse v.toStr = some v := by
  refine parse_eq_some.mpr ⟨display v.major.toNat, display v.minor.toNat,
    v.capability.map Capability.toStr, v.toStr_eq, not_mem_display (by decide) _,
    not_mem_display (by decide) _, not_mem_display (by decide) _, parseU32_display _,
    parseU32_display _, ?_⟩
  cases hcap : v.capability with
  | none => rfl
  | some c => exact congrArg some (Capability.parse_toStr (h c hcap))

theorem fits_of_parse {s : Str} {v : Version} (h : parse s = some v) : v.Fits := by
  obtain ⟨maj, min, cap, -, -, -, -, -, -, hcap⟩ := parse_eq_some.mp h
  intro c hc
  rw [Option.mem_def.mp hc] at hcap
  obtain ⟨text, -, htext⟩ := Option.map_eq_some_iff.mp hcap
  exact Capability.fits_of_parse htext

/-- The separators of the levels above do not occur. -/
theorem not_mem_toStr (v : Version) {x : Char} (hx : x = ',' ∨ x = ' ') : x ∉ v.toStr := by
  have hdigit : x.isDigit = false := by rcases hx with rfl | rfl <;> decide
  have hhex : isDigitOf 16 x = false := by rcases hx with rfl | rfl <;> decide
  have hsep : x ≠ 'V' ∧ x ≠ '-' ∧ x ≠ '.' ∧ x ≠ ':' := by rcases hx with rfl | rfl <;> decide
  obtain ⟨hV, hdash, hdot, hcolon⟩ := hsep
  have hcap : x ∉ behind ':' (v.capability.map Capability.toStr) := by
    cases v.capability with
    | none => exact List.not_mem_nil
    | some c =>
        simp only [Option.map_some, behind, Capability.toStr, List.mem_cons, List.mem_append, not_or]
        exact ⟨hcolon, Capability.not_mem_hexPadded hhex _ _, hcolon,
          Capability.not_mem_hexPadded hhex _ _⟩
  have hmajor := not_mem_display hdigit v.major.toNat
  have hminor := not_mem_display hdigit v.minor.toNat
  rw [toStr_eq]
  simp [hV, hdash, hdot, hmajor, hminor, hcap]

end Version

/-! ## Banners -/

namespace Banner

/-- What a line can say. -/
structure WellFormed (b : Banner) : Prop where
  versions : b.versions ≠ []
  fits : ∀ v ∈ b.versions, v.Fits
  hostname : ' ' ∉ b.hostname
  implementation : ∀ i ∈ b.implementation, i ≠ []

/-- A version list, a host name and an optional last part. -/
def bodyOf (tokens : List Str) (hostname : Str) (rest : Option Str) : Str :=
  List.intercalate [','] tokens ++ behind ' ' (some (hostname ++ behind ' ' rest))

theorem body_eq (b : Banner) :
    b.body = bodyOf (b.versions.map Version.toStr) b.hostname b.implementation := by
  rw [body, bodyOf, List.append_assoc]
  cases b.implementation <;> rfl

theorem parse_iff {line : Str} {b : Banner} :
    parse line = some b ↔ ∃ body, line = "%rwhois ".toList ++ body ∧ parseBody body = some b := by
  rw [parse, Option.bind_eq_bind, Option.bind_eq_some_iff]
  simp only [stripPrefix_eq_some]

/-- What is read as a banner. -/
theorem parseBody_eq_some {text : Str} {b : Banner} :
    parseBody text = some b ↔ ∃ tokens rest, text = bodyOf tokens b.hostname rest ∧
      tokens ≠ [] ∧ (∀ w ∈ tokens, ',' ∉ w ∧ ' ' ∉ w) ∧ ' ' ∉ b.hostname ∧
      tokens.mapM Version.parse = some b.versions ∧ b.versions ≠ [] ∧
      b.implementation = rest.filter fun i => !i.isEmpty := by
  constructor
  · intro h
    obtain ⟨list, t, rfl, hlist⟩ := exists_behind ' ' text
    rw [parseBody, splitN_behind hlist] at h
    cases t with
    | none => cases h
    | some t =>
        obtain ⟨hostname, rest, rfl, hhost⟩ := exists_behind ' ' t
        rw [Option.map_some, Option.getD_some, splitN_behind hhost] at h
        obtain ⟨versions, hversions, h⟩ := Option.bind_eq_some_iff.mp h
        split at h
        · cases h
        · rename_i hsome
          cases h
          have htokens : List.intercalate [','] (list.splitOn ',') = list :=
            List.intercalate_splitOn ','
          refine ⟨list.splitOn ',', rest, ?_, ?_, ?_, hhost, hversions, hsome, ?_⟩
          · rw [bodyOf, htokens]
          · exact List.splitOnP_ne_nil _ list
          · intro w hw
            have hchars := mem_splitOnP hw
            refine ⟨fun hcomma => ?_, fun hspace => hlist (hchars ' ' hspace).1⟩
            exact absurd (hchars ',' hcomma).2 (by decide)
          · cases rest <;> rfl
  · rintro ⟨tokens, rest, rfl, hne, htokens, hhost, hversions, hsome, himpl⟩
    have hlist : ' ' ∉ List.intercalate [','] tokens := by
      intro hmem
      rcases mem_intercalate hmem with h | ⟨w, hw, hspace⟩
      · exact absurd h (by decide)
      · exact (htokens w hw).2 hspace
    have hsplit : (List.intercalate [','] tokens).splitOn ',' = tokens :=
      List.splitOn_intercalate ',' (fun w hw => (htokens w hw).1) hne
    have hrest : (Option.map (splitN 1 ' ') rest).getD [] = rest.toList := by
      cases rest <;> rfl
    rw [parseBody, bodyOf, splitN_behind hlist, Option.map_some, Option.getD_some,
      splitN_behind hhost, hrest]
    simp only [hsplit, hversions, Option.bind_eq_bind, Option.bind_some, if_neg hsome]
    rw [Option.head?_toList, ← himpl]
    rfl

theorem mapM_parse_toStr {versions : List Version} (h : ∀ v ∈ versions, v.Fits) :
    (versions.map Version.toStr).mapM Version.parse = some versions := by
  induction versions with
  | nil => rfl
  | cons v versions ih =>
      have hv := Version.parse_toStr (h v List.mem_cons_self)
      have hrest := ih fun w hw => h w (List.mem_cons_of_mem v hw)
      simp [List.mapM_cons, hv, hrest]

theorem fits_of_mapM_parse {tokens : List Str} {versions : List Version}
    (h : tokens.mapM Version.parse = some versions) : ∀ v ∈ versions, v.Fits := by
  induction tokens generalizing versions with
  | nil =>
      cases h
      rintro v ⟨⟩
  | cons token tokens ih =>
      simp only [List.mapM_cons, Option.bind_eq_bind, Option.bind_eq_some_iff] at h
      obtain ⟨v, hv, rest, hrest, h⟩ := h
      cases h
      intro w hw
      rcases List.mem_cons.mp hw with rfl | hw
      · exact Version.fits_of_parse hv
      · exact ih hrest w hw

theorem WellFormed.reads_back {b : Banner} (h : b.WellFormed) : parse b.toLine = some b := by
  refine parse_iff.mpr ⟨b.body, rfl, parseBody_eq_some.mpr ⟨b.versions.map Version.toStr,
    b.implementation, body_eq b, ?_, ?_, h.hostname, mapM_parse_toStr h.fits, h.versions, ?_⟩⟩
  · simpa using h.versions
  · intro w hw
    obtain ⟨v, -, rfl⟩ := List.mem_map.mp hw
    exact ⟨v.not_mem_toStr (.inl rfl), v.not_mem_toStr (.inr rfl)⟩
  · cases himpl : b.implementation with
    | none => rfl
    | some i => simp [Option.filter_some, h.implementation i himpl]

theorem wellFormed_of_parse {line : Str} {b : Banner} (h : parse line = some b) :
    b.WellFormed := by
  obtain ⟨text, -, hbody⟩ := parse_iff.mp h
  obtain ⟨tokens, rest, -, -, -, hhost, hversions, hsome, himpl⟩ := parseBody_eq_some.mp hbody
  refine ⟨hsome, fits_of_mapM_parse hversions, hhost, ?_⟩
  intro i hi
  rw [himpl] at hi
  have hkept := (Option.filter_eq_some_iff.mp hi).2
  simpa using hkept

/-- **The banner round trip.** A well-formed banner is read as it was
written; and only well-formed banners are read. -/
theorem parse_toLine :
    (∀ b : Banner, b.WellFormed → parse b.toLine = some b) ∧
      ∀ line b, parse line = some b → b.WellFormed ∧ parse b.toLine = some b :=
  ⟨fun _ => WellFormed.reads_back, fun _ _ h =>
    ⟨wellFormed_of_parse h, (wellFormed_of_parse h).reads_back⟩⟩

/-- Two versions, and every separator in the last part. -/
theorem parse_toLine_two :
    let b : Banner :=
      { versions := [⟨1, 0, none⟩, ⟨1, 5, some ⟨0xFFFFFF, 0x0F⟩⟩]
        hostname := "rs.net".toList, implementation := some " V-1.5, a:b ".toList }
    b.WellFormed ∧ parse b.toLine = some b := by
  intro b
  have hwf : b.WellFormed := by
    refine ⟨by decide, ?_, by decide, ?_⟩
    · intro v hv c hc
      rcases List.mem_cons.mp hv with rfl | hv
      · cases hc
      · obtain rfl := List.mem_singleton.mp hv
        cases hc
        show (0xFFFFFF : UInt32).toNat < 2 ^ 24
        decide
    · rintro i ⟨⟩
      decide
  exact ⟨hwf, parse_toLine.1 b hwf⟩

end Banner

end Rwhois
