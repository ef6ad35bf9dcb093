import Rwhois.Wire.Greeting
import Rwhois.Wire.Response

/-!
# Wire — Numbers

The numbers of the wire format. The grammar of RFC 2167 knows digits only:
a version is `"V-" 1*digit "." 1*digit`, a capability six and two hex
digits, a port a decimal number below 2^16.

The parsers check lengths and leave the digits to the integer parsers of
the standard library. These take one `+` in front of the digits, and the
`+` counts as one of the six or two characters of a capability. That is
the ONLY thing they take beyond the grammar: what is accepted is well
formed if and only if it holds no `+`.
-/

namespace Rwhois

open RustStd

/-! ## The grammar -/

/-- `1*digit`. -/
def IsNumber (s : Str) : Prop := s ≠ [] ∧ ∀ c ∈ s, c.isDigit = true

/-- `n` hex digits, upper or lower case. -/
def IsHex (n : Nat) (s : Str) : Prop := s.length = n ∧ ∀ c ∈ s, isAsciiHexdigit c = true

/-- `6hex-digit ":" 2hex-digit`. -/
def IsCapabilityId (s : Str) : Prop := ∃ r e, s = r ++ ':' :: e ∧ IsHex 6 r ∧ IsHex 2 e

/-- `"V-" 1*digit "." 1*digit [":" capability-id]`. -/
def IsVersionToken (s : Str) : Prop :=
  ∃ maj min cap, s = "V-".toList ++ (maj ++ '.' :: min ++ behind ':' cap) ∧
    IsNumber maj ∧ IsNumber min ∧ ∀ c ∈ cap, IsCapabilityId c

/-- A decimal number that a port can be. -/
def IsPort (s : Str) : Prop := IsNumber s ∧ Nat.ofDigitChars 10 s 0 < 2 ^ 16

/-- The text between the last colon of host and port and the slash. -/
def ReferralUrl.portPart (s : Str) : Option Str := do
  let rest ← stripPrefix "rwhois://".toList s
  let (hostport, _) ← splitOnce ['/'] rest
  let (_, port) ← rsplitOnce ':' hostport
  pure port

/-! ## No sign in the grammar -/

theorem IsNumber.not_mem_plus {s : Str} (h : IsNumber s) : '+' ∉ s := by
  intro hmem
  exact absurd (h.2 '+' hmem) (by decide)

theorem IsHex.not_mem_plus {n : Nat} {s : Str} (h : IsHex n s) : '+' ∉ s := by
  intro hmem
  exact absurd (h.2 '+' hmem) (by decide)

theorem IsCapabilityId.not_mem_plus {s : Str} (h : IsCapabilityId s) : '+' ∉ s := by
  obtain ⟨r, e, rfl, hr, he⟩ := h
  simp [hr.not_mem_plus, he.not_mem_plus]

theorem IsVersionToken.not_mem_plus {s : Str} (h : IsVersionToken s) : '+' ∉ s := by
  obtain ⟨maj, min, cap, rfl, hmaj, hmin, hcap⟩ := h
  have hpart : '+' ∉ behind ':' cap := by
    cases cap with
    | none => exact List.not_mem_nil
    | some c =>
        have hc := (hcap c rfl).not_mem_plus
        simp [behind, hc]
  simp [hmaj.not_mem_plus, hmin.not_mem_plus, hpart]

/-! ## Without a sign -/

theorem head?_ne_plus {s : Str} (h : '+' ∉ s) : s.head? ≠ some '+' :=
  fun hhead => h (List.mem_of_mem_head? hhead)

theorem isNumber_of_fromStrRadix {max n : Nat} {s : Str} (h : fromStrRadix 10 max s = some n)
    (hplus : '+' ∉ s) : IsNumber s := by
  obtain ⟨hne, hdigits⟩ := isDigitOf_of_fromStrRadix h (head?_ne_plus hplus)
  exact ⟨hne, fun c hc => isDigit_of_isDigitOf (hdigits c hc)⟩

theorem isHex_of_fromStrRadix {max n len : Nat} {s : Str} (h : fromStrRadix 16 max s = some n)
    (hlen : byteLen s = len) (hplus : '+' ∉ s) : IsHex len s := by
  obtain ⟨-, hdigits⟩ := isDigitOf_of_fromStrRadix h (head?_ne_plus hplus)
  rw [byteLen_of_isDigitOf hdigits] at hlen
  exact ⟨hlen, fun c hc => isAsciiHexdigit_of_isDigitOf (hdigits c hc)⟩

theorem isCapabilityId_of_parse {s : Str} {c : Capability} (h : Capability.parse s = some c)
    (hplus : '+' ∉ s) : IsCapabilityId s := by
  obtain ⟨r, e, rfl, -, hlen, helen, hresponse, hextra⟩ := Capability.parse_eq_some.mp h
  obtain ⟨n, hn, -⟩ := Option.map_eq_some_iff.mp hresponse
  obtain ⟨m, hm, -⟩ := Option.map_eq_some_iff.mp hextra
  simp only [List.mem_append, List.mem_cons, not_or] at hplus
  exact ⟨r, e, rfl, isHex_of_fromStrRadix hn hlen hplus.1,
    isHex_of_fromStrRadix hm helen hplus.2.2⟩

theorem isVersionToken_of_parse {s : Str} {v : Version} (h : Version.parse s = some v)
    (hplus : '+' ∉ s) : IsVersionToken s := by
  obtain ⟨maj, min, cap, rfl, -, -, -, hmajor, hminor, hcap⟩ := Version.parse_eq_some.mp h
  obtain ⟨n, hn, -⟩ := Option.map_eq_some_iff.mp hmajor
  obtain ⟨m, hm, -⟩ := Option.map_eq_some_iff.mp hminor
  simp only [List.mem_append, List.mem_cons, not_or] at hplus
  obtain ⟨-, ⟨hmaj, -, hmin⟩, hpart⟩ := hplus
  refine ⟨maj, min, cap, rfl, isNumber_of_fromStrRadix hn hmaj, isNumber_of_fromStrRadix hm hmin, ?_⟩
  rintro c rfl
  cases hv : v.capability with
  | none =>
      rw [hv] at hcap
      cases hcap
  | some c' =>
      rw [hv] at hcap
      refine isCapabilityId_of_parse (Option.some.inj hcap) fun hmem => hpart ?_
      exact List.mem_cons_of_mem _ hmem

namespace ReferralUrl

/-- An accepted URL has a port part, which was read as a `u16`. -/
theorem portPart_of_parse {s : Str} {url : ReferralUrl} (h : parse s = some url) :
    ∃ port, portPart s = some port ∧ parseU16 port = some url.port := by
  simp only [parse, Option.bind_eq_bind, Option.bind_eq_some_iff] at h
  obtain ⟨rest, hrest, p, hsplit, q, hport, n, hn, area, -, h⟩ := h
  cases h
  refine ⟨q.2, ?_, hn⟩
  simp only [portPart, hrest, hsplit, hport, Option.bind_eq_bind, Option.bind_some]
  rfl

end ReferralUrl

theorem isPort_of_parseU16 {s : Str} {n : UInt16} (h : parseU16 s = some n) (hplus : '+' ∉ s) :
    IsPort s := by
  obtain ⟨m, hm, -⟩ := Option.map_eq_some_iff.mp h
  have hnumber := isNumber_of_fromStrRadix hm hplus
  refine ⟨hnumber, ?_⟩
  obtain ⟨t, -, rfl | rfl, ht⟩ := fromStrRadix_eq_some hm
  · rw [ofDigitChars_of_parseDigits ht]
    exact (le_of_fromStrRadix hm).trans_lt (by decide)
  · exact absurd List.mem_cons_self hplus

/-- **What the numeric parsers accept beyond the grammar** is a `+`, and
nothing else: whatever is accepted is well formed exactly if it holds
none. -/
theorem numeric_fields (s : Str) :
    ((Version.parse s).isSome = true → (IsVersionToken s ↔ '+' ∉ s)) ∧
    ((Capability.parse s).isSome = true → (IsCapabilityId s ↔ '+' ∉ s)) ∧
    ((ReferralUrl.parse s).isSome = true →
      ∃ port, ReferralUrl.portPart s = some port ∧ (IsPort port ↔ '+' ∉ port)) := by
  refine ⟨fun h => ?_, fun h => ?_, fun h => ?_⟩
  · obtain ⟨v, hv⟩ := Option.isSome_iff_exists.mp h
    exact ⟨IsVersionToken.not_mem_plus, isVersionToken_of_parse hv⟩
  · obtain ⟨c, hc⟩ := Option.isSome_iff_exists.mp h
    exact ⟨IsCapabilityId.not_mem_plus, isCapabilityId_of_parse hc⟩
  · obtain ⟨url, hurl⟩ := Option.isSome_iff_exists.mp h
    obtain ⟨port, hport, hn⟩ := ReferralUrl.portPart_of_parse hurl
    exact ⟨port, hport, fun h => h.1.not_mem_plus, isPort_of_parseU16 hn⟩

theorem numeric_fields_plain :
    ((Version.parse "V-1.5:00fFfF:00".toList).isSome = true ∧
      (IsVersionToken "V-1.5:00fFfF:00".toList ↔ '+' ∉ "V-1.5:00fFfF:00".toList)) ∧
    ((Capability.parse "00ffff:0A".toList).isSome = true ∧
      (IsCapabilityId "00ffff:0A".toList ↔ '+' ∉ "00ffff:0A".toList)) ∧
    ((ReferralUrl.parse "rwhois://h:4321/auth-area=.".toList).isSome = true ∧
      ∃ port, ReferralUrl.portPart "rwhois://h:4321/auth-area=.".toList = some port ∧
        (IsPort port ↔ '+' ∉ port)) := by
  have hversion : (Version.parse "V-1.5:00fFfF:00".toList).isSome = true := by decide
  have hcapability : (Capability.parse "00ffff:0A".toList).isSome = true := by decide
  have hurl : (ReferralUrl.parse "rwhois://h:4321/auth-area=.".toList).isSome = true := by
    decide +kernel
  exact ⟨⟨hversion, (numeric_fields _).1 hversion⟩,
    ⟨hcapability, (numeric_fields _).2.1 hcapability⟩, hurl, (numeric_fields _).2.2 hurl⟩

/-- Signs in a version, in a capability and in a port. -/
theorem numeric_fields_signed :
    (Version.parse "V-+1.5".toList = some ⟨1, 5, none⟩ ∧ ¬ IsVersionToken "V-+1.5".toList) ∧
    (Capability.parse "+12345:+f".toList = some ⟨0x12345, 0xF⟩ ∧
      ¬ IsCapabilityId "+12345:+f".toList) ∧
    (ReferralUrl.parse "rwhois://h:+4321/auth-area=.".toList =
        some { host := "h".toList, port := 4321, authArea := ".".toList } ∧
      ReferralUrl.portPart "rwhois://h:+4321/auth-area=.".toList = some "+4321".toList ∧
      ¬ IsPort "+4321".toList) := by
  refine ⟨⟨by decide, fun h => ?_⟩, ⟨by decide, fun h => ?_⟩, by decide +kernel, by decide +kernel,
    fun h => ?_⟩
  · exact h.not_mem_plus (by decide)
  · exact h.not_mem_plus (by decide)
  · exact h.1.not_mem_plus (by decide)

end Rwhois
