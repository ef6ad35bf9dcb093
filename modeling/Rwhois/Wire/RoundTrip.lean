import Rwhois.Wire.Banner
import Rwhois.Wire.Response

/-!
# Wire — RoundTrip

What a client reads of what the server wrote. A writer call appends ONE
line (`WriterOp.line`), and the parser gives back the data of the call
(`WriterOp.meaning`) as long as no field holds the delimiter that ends
it. Two layers of conditions are kept apart:

* `Clean` — the texts hold no CR and no LF and a record class does not
  start with `%`. Then the lines stay lines, and none of them reads as a
  terminator;
* `Readable` — the delimiters. Then every field comes back.
-/

namespace Rwhois

open RustStd

/-! ## Writer calls -/

/-- The writer calls, `raw_line` apart. -/
inductive WriterOp where
  | blankLine
  | tagged (tag : Tag) (body : Str)
  | endBlock (tag : Tag)
  | referral (host : Str) (port : UInt16) (authArea : Str)
  | referralUrl (url : Str)
  | recordTyped (cls attr : Str) (ty : Option TypeChar) (value : Str)
  | recordAttr (cls attr value : Str)
  | infoOn
  | infoOff
  | xExt (name body : Str)
  deriving Repr, DecidableEq

/-- A tag token and, behind a blank, a body that is not empty. -/
def tagLine (tok body : Str) : Str := tok ++ if body = [] then [] else ' ' :: body

def referralText (host : Str) (port : UInt16) (authArea : Str) : Str :=
  "rwhois://".toList ++ host ++ ":".toList ++ display port.toNat ++ "/auth-area=".toList ++ authArea

def typeText : Option TypeChar → Str
  | some t => [';', t.asChar]
  | none => []

def recordText (cls attr : Str) (ty : Option TypeChar) (value : Str) : Str :=
  cls ++ ':' :: (attr ++ typeText ty ++ ':' :: value)

namespace WriterOp

def run : WriterOp → ResponseWriter → ResponseWriter
  | .blankLine, w => w.blankLine
  | .tagged tag body, w => w.tagged tag body
  | .endBlock tag, w => w.endBlock tag
  | .referral host port authArea, w => w.referral host port authArea
  | .referralUrl url, w => w.referralUrl url
  | .recordTyped cls attr ty value, w => w.recordTyped cls attr ty value
  | .recordAttr cls attr value, w => w.recordAttr cls attr value
  | .infoOn, w => w.infoOn
  | .infoOff, w => w.infoOff
  | .xExt name body, w => w.xExt name body

/-- The calls in their order. -/
def runAll (ops : List WriterOp) (w : ResponseWriter) : ResponseWriter :=
  ops.foldl (fun w op => op.run w) w

/-- The line a call writes. -/
def line : WriterOp → Str
  | .blankLine => []
  | .tagged tag body => tagLine tag.asStr body
  | .endBlock tag => tagLine tag.asStr []
  | .referral host port authArea => tagLine Tag.referral.asStr (referralText host port authArea)
  | .referralUrl url => tagLine Tag.referral.asStr url
  | .recordTyped cls attr ty value => recordText cls attr ty value
  | .recordAttr cls attr value => recordText cls attr none value
  | .infoOn => tagLine Tag.info.asStr "on".toList
  | .infoOff => tagLine Tag.info.asStr "off".toList
  | .xExt name body => tagLine ("%X-".toList ++ name) body

/-- The texts a caller gives. -/
def texts : WriterOp → List Str
  | .blankLine | .endBlock _ | .infoOn | .infoOff => []
  | .tagged _ body => [body]
  | .referral host _ authArea => [host, authArea]
  | .referralUrl url => [url]
  | .recordTyped cls attr _ value | .recordAttr cls attr value => [cls, attr, value]
  | .xExt name body => [name, body]

end WriterOp

namespace ResponseWriter

theorem put_put (w : ResponseWriter) (s t : Str) : (w.put s).put t = w.put (s ++ t) := by
  simp [put]

theorem tagged_eq (w : ResponseWriter) (tag : Tag) (body : Str) :
    w.tagged tag body = w.put (tagLine tag.asStr body ++ crlf) := by
  rw [tagged, put_put, put_put, tagLine, List.append_assoc]

theorem recordTyped_eq (w : ResponseWriter) (cls attr : Str) (ty : Option TypeChar)
    (value : Str) : w.recordTyped cls attr ty value = w.put (recordText cls attr ty value ++ crlf) := by
  cases ty <;> simp [recordTyped, put_put, recordText, typeText]

end ResponseWriter

/-- Every call writes its line and the terminator. -/
theorem WriterOp.run_eq (op : WriterOp) (w : ResponseWriter) :
    op.run w = w.put (op.line ++ crlf) := by
  cases op with
  | blankLine => rfl
  | recordTyped cls attr ty value => exact w.recordTyped_eq cls attr ty value
  | recordAttr cls attr value => exact w.recordTyped_eq cls attr none value
  | xExt name body =>
      rw [run, ResponseWriter.xExt, ResponseWriter.put_put, ResponseWriter.put_put,
        ResponseWriter.put_put, line, tagLine, List.append_assoc, List.append_assoc]
  | _ => exact w.tagged_eq _ _

/-- A run of calls appends its lines. -/
theorem WriterOp.runAll_buf (ops : List WriterOp) (w : ResponseWriter) :
    (runAll ops w).buf = w.buf ++ utf8 (unlines (ops.map line)) := by
  induction ops generalizing w with
  | nil => simp [runAll]
  | cons op ops ih =>
      have hstep : runAll (op :: ops) w = runAll ops (op.run w) := rfl
      rw [hstep, ih, run_eq]
      simp [ResponseWriter.put]

/-! ## Lines that are no terminators -/

namespace ResponseLine

theorem parse_tagLine {tok : Str} (hhead : tok.head? = some '%') (hsp : ' ' ∉ tok) (body : Str) :
    parse (tagLine tok body) = parseTagged tok (trimStartMatches (· == ' ') body) := by
  obtain ⟨t, rfl⟩ : ∃ t, tok = '%' :: t := by
    cases tok with
    | nil => simp at hhead
    | cons c t => exact ⟨t, by simpa using hhead⟩
  by_cases hbody : body = []
  · subst hbody
    simp only [tagLine, if_true, List.append_nil, parse, splitOnce_char_none hsp]
    rfl
  · have hline : tagLine ('%' :: t) body = '%' :: t ++ ' ' :: body := by
      rw [tagLine, if_neg hbody]
    rw [hline, parse, splitOnce_char hsp]
    rfl

/-- Only `%ok` and `%error` read as terminators. -/
theorem parseTagged_isTerminator {tok body : Str} (hok : tok ≠ "%ok".toList)
    (herr : tok ≠ "%error".toList) : ¬ (parseTagged tok body).IsTerminator := by
  unfold parseTagged
  rw [if_neg hok, if_neg herr]
  split
  · split
    · exact id
    · split <;> exact id
  · split
    · split <;> exact id
    · split
      · split <;> exact id
      · exact id

theorem exists_parseErrorBody (body : Str) :
    ∃ number text detail, parseErrorBody body = .error number text detail := by
  rw [parseErrorBody]
  obtain ⟨codeStr, rest⟩ := (splitOnce [' '] body).getD (body, [])
  simp only
  split <;> exact ⟨_, _, _, rfl⟩

theorem parse_untagged {line : Str} (h : line.head? ≠ some '%') :
    ¬ (parse line).IsTerminator := by
  unfold parse
  split
  · exact id
  · split <;> exact id

end ResponseLine

theorem Tag.asStr_head? (tag : Tag) : tag.asStr.head? = some '%' := by
  cases tag <;> rfl

theorem Tag.space_notMem_asStr (tag : Tag) : ' ' ∉ tag.asStr := by
  cases tag <;> decide

theorem Tag.asStr_isLine (tag : Tag) : IsLine tag.asStr := by
  cases tag <;> decide

namespace WriterOp

/-- No CR and no LF in any argument, and no record class that starts with
`%`. -/
def Clean : WriterOp → Prop
  | .blankLine | .endBlock _ | .infoOn | .infoOff => True
  | .tagged _ body => IsLine body
  | .referral host _ authArea => IsLine host ∧ IsLine authArea
  | .referralUrl url => IsLine url
  | .recordTyped cls attr _ value =>
      IsLine cls ∧ IsLine attr ∧ IsLine value ∧ cls.head? ≠ some '%'
  | .recordAttr cls attr value =>
      IsLine cls ∧ IsLine attr ∧ IsLine value ∧ cls.head? ≠ some '%'
  | .xExt name body => IsLine name ∧ IsLine body

instance : (op : WriterOp) → Decidable op.Clean
  | .blankLine | .endBlock _ | .infoOn | .infoOff => isTrue trivial
  | .tagged _ body => inferInstanceAs (Decidable (IsLine body))
  | .referral host _ authArea => inferInstanceAs (Decidable (IsLine host ∧ IsLine authArea))
  | .referralUrl url => inferInstanceAs (Decidable (IsLine url))
  | .recordTyped cls attr _ value | .recordAttr cls attr value =>
      inferInstanceAs (Decidable
        (IsLine cls ∧ IsLine attr ∧ IsLine value ∧ cls.head? ≠ some '%'))
  | .xExt name body => inferInstanceAs (Decidable (IsLine name ∧ IsLine body))

end WriterOp

theorem isLine_tagLine {tok body : Str} :
    IsLine (tagLine tok body) ↔ IsLine tok ∧ IsLine body := by
  rw [tagLine, IsLine.append_iff]
  refine and_congr_right fun _ => ?_
  split
  · rename_i hnil
    rw [hnil]
  · exact IsLine.cons_iff.trans (and_iff_right (by decide))

theorem isLine_typeText (ty : Option TypeChar) : IsLine (typeText ty) := by
  rcases ty with _ | t
  · exact .nil
  · cases t <;> decide

theorem isLine_recordText {cls attr value : Str} {ty : Option TypeChar} :
    IsLine (recordText cls attr ty value) ↔ IsLine cls ∧ IsLine attr ∧ IsLine value := by
  have hcolon (s : Str) : IsLine (':' :: s) ↔ IsLine s :=
    IsLine.cons_iff.trans (and_iff_right (by decide))
  have htype := isLine_typeText ty
  simp only [recordText, IsLine.append_iff, hcolon, htype, and_true]

theorem isLine_referralText {host authArea : Str} {port : UInt16} :
    IsLine (referralText host port authArea) ↔ IsLine host ∧ IsLine authArea := by
  have hscheme : IsLine "rwhois://".toList := by decide
  have hcolon : IsLine ":".toList := by decide
  have hpath : IsLine "/auth-area=".toList := by decide
  have hport := isLine_display port.toNat
  unfold referralText
  generalize "rwhois://".toList = scheme at *
  generalize ":".toList = colon at *
  generalize "/auth-area=".toList = path at *
  simp only [IsLine.append_iff, hscheme, hcolon, hport, hpath, true_and, and_true]

/-- What a call writes is one line if and only if its texts are. -/
theorem WriterOp.isLine_line {op : WriterOp} : IsLine op.line ↔ ∀ t ∈ op.texts, IsLine t := by
  have htag (tag : Tag) (body : Str) : IsLine (tagLine tag.asStr body) ↔ IsLine body :=
    isLine_tagLine.trans (and_iff_right tag.asStr_isLine)
  have hpre : IsLine "%X-".toList := by decide
  cases op with
  | blankLine => exact iff_of_true .nil (by simp [texts])
  | infoOn => exact iff_of_true (by decide) (by simp [texts])
  | infoOff => exact iff_of_true (by decide) (by simp [texts])
  | endBlock tag => exact iff_of_true ((htag tag []).mpr .nil) (by simp [texts])
  | tagged tag body =>
      rw [line, htag]
      simp [texts]
  | referralUrl url =>
      rw [line, htag]
      simp [texts]
  | referral host port authArea =>
      rw [line, htag, isLine_referralText]
      simp [texts]
  | recordTyped cls attr ty value =>
      rw [line, isLine_recordText]
      simp [texts]
  | recordAttr cls attr value =>
      rw [line, isLine_recordText]
      simp [texts]
  | xExt name body =>
      rw [line, isLine_tagLine, IsLine.append_iff, and_iff_right hpre]
      simp [texts]

theorem WriterOp.Clean.texts {op : WriterOp} (h : op.Clean) : ∀ t ∈ op.texts, IsLine t := by
  cases op <;> simp_all [Clean, WriterOp.texts]

theorem WriterOp.Clean.isLine {op : WriterOp} (h : op.Clean) : IsLine op.line :=
  isLine_line.mpr h.texts

theorem recordText_head? {cls : Str} (h : cls.head? ≠ some '%') (attr : Str)
    (ty : Option TypeChar) (value : Str) : (recordText cls attr ty value).head? ≠ some '%' := by
  cases cls with
  | nil => simp [recordText]
  | cons c cls => simpa [recordText] using h

theorem parse_tagLine_not_terminator (tag : Tag) (body : Str) :
    ¬ (ResponseLine.parse (tagLine tag.asStr body)).IsTerminator := by
  rw [ResponseLine.parse_tagLine tag.asStr_head? tag.space_notMem_asStr]
  apply ResponseLine.parseTagged_isTerminator <;> cases tag <;> decide

/-- An extension name may hold blanks; the token still starts with `%X-`. -/
theorem parse_xExt_not_terminator (name body : Str) :
    ¬ (ResponseLine.parse (tagLine ("%X-".toList ++ name) body)).IsTerminator := by
  have hline : ∃ rest, tagLine ("%X-".toList ++ name) body = "%X-".toList ++ rest :=
    ⟨_, List.append_assoc ..⟩
  obtain ⟨rest, hline⟩ := hline
  have hsplit := splitOnce_char_append (c := ' ') (a := "%X-".toList) (by decide) rest
  have hne : ∀ s : Str, "%X-".toList ++ s ≠ "%ok".toList ∧ "%X-".toList ++ s ≠ "%error".toList := by
    intro s
    constructor <;> simp
  rw [hline]
  unfold ResponseLine.parse
  rw [if_neg (by simp), if_neg (by simp), hsplit]
  cases splitOnce [' '] rest with
  | none => exact ResponseLine.parseTagged_isTerminator (hne _).1 (hne _).2
  | some p => exact ResponseLine.parseTagged_isTerminator (hne _).1 (hne _).2

/-- **No line of a clean call reads as a terminator.** -/
theorem WriterOp.Clean.not_terminator {op : WriterOp} (h : op.Clean) :
    ¬ (ResponseLine.parse op.line).IsTerminator := by
  cases op with
  | blankLine => exact id
  | recordTyped cls attr ty value =>
      exact ResponseLine.parse_untagged (recordText_head? h.2.2.2 attr ty value)
  | recordAttr cls attr value =>
      exact ResponseLine.parse_untagged (recordText_head? h.2.2.2 attr none value)
  | xExt name body => exact parse_xExt_not_terminator name body
  | _ => exact parse_tagLine_not_terminator _ _

/-! ## Terminators -/

/-- The last line of a response. -/
inductive Terminator where
  | ok
  | error (code : ResponseCode) (extra : Option Str)
  deriving Repr, DecidableEq

/-- The detail `write_error` adds; an empty one counts as none. -/
def detailText (extra : Option Str) : Str :=
  match extra.filter (fun s => !s.isEmpty) with
  | some extra => ": ".toList ++ extra
  | none => []

def errorText (code : ResponseCode) (extra : Option Str) : Str :=
  displayPadded 3 code.code.toNat ++ ' ' :: (code.message ++ detailText extra)

namespace Terminator

def write : Terminator → Bytes → Bytes
  | .ok, out => writeOk out
  | .error code extra, out => writeError out code extra

def line : Terminator → Str
  | .ok => tagLine "%ok".toList []
  | .error code extra => tagLine "%error".toList (errorText code extra)

def Clean : Terminator → Prop
  | .ok => True
  | .error code extra => IsLine code.message ∧ ∀ e ∈ extra, IsLine e

theorem errorText_ne_nil (code : ResponseCode) (extra : Option Str) : errorText code extra ≠ [] := by
  simp [errorText]

theorem write_eq (last : Terminator) (out : Bytes) :
    last.write out = out ++ utf8 (last.line ++ crlf) := by
  cases last with
  | ok =>
      rw [write, writeOk, List.append_assoc, ← utf8_append]
      rfl
  | error code extra =>
      have hline : (error code extra).line = "%error ".toList ++ errorText code extra := by
        rw [line, tagLine, if_neg (errorText_ne_nil code extra)]
        rfl
      have hwrite : (error code extra).write out = out ++ utf8 ("%error ".toList ++
          displayPadded 3 code.code.toNat ++ " ".toList ++ code.message) ++
          utf8 (detailText extra) ++ utf8 crlf := rfl
      rw [hwrite, hline, List.append_assoc, List.append_assoc, ← utf8_append, ← utf8_append]
      simp [errorText]

theorem isLine_detailText {extra : Option Str} :
    IsLine (detailText extra) ↔ ∀ e ∈ extra, IsLine e := by
  have hsep : IsLine ": ".toList := by decide
  rcases extra with _ | e
  · exact iff_of_true .nil (by simp)
  · have hdetail : detailText (some e) = if e = [] then [] else ": ".toList ++ e := by
      cases e <;> rfl
    have hsome : (∀ e' ∈ some e, IsLine e') ↔ IsLine e := by simp
    rw [hdetail, hsome]
    split
    · rename_i hnil
      rw [hnil]
    · rw [IsLine.append_iff, and_iff_right hsep]

theorem isLine_displayPadded (w n : Nat) : IsLine (displayPadded w n) := by
  intro c hc
  have hd := isDigit_of_mem_displayPadded hc
  constructor <;>
  · rintro rfl
    exact absurd hd (by decide)

theorem isLine_errorText {code : ResponseCode} {extra : Option Str} :
    IsLine (errorText code extra) ↔ IsLine code.message ∧ ∀ e ∈ extra, IsLine e := by
  have hblank : ' ' ≠ '\r' ∧ ' ' ≠ '\n' := by decide
  rw [errorText, IsLine.append_iff, IsLine.cons_iff, IsLine.append_iff, isLine_detailText,
    and_iff_right (isLine_displayPadded 3 _), and_iff_right hblank]

theorem isLine_error {code : ResponseCode} {extra : Option Str} :
    IsLine (error code extra).line ↔ IsLine code.message ∧ ∀ e ∈ extra, IsLine e := by
  have htok : IsLine "%error".toList := by decide
  rw [line, isLine_tagLine, and_iff_right htok, isLine_errorText]

theorem Clean.isLine {last : Terminator} (h : last.Clean) : IsLine last.line := by
  cases last with
  | ok => decide
  | error code extra => exact isLine_error.mpr h

/-- The body behind `%error` starts with the code, not with a blank. -/
theorem parse_error (code : ResponseCode) (extra : Option Str) :
    ResponseLine.parse (error code extra).line =
      ResponseLine.parseErrorBody (errorText code extra) := by
  have htrim : trimStartMatches (· == ' ') (errorText code extra) = errorText code extra := by
    obtain ⟨c, t, hct⟩ := List.exists_cons_of_ne_nil (displayPadded_ne_nil 3 code.code.toNat)
    have hc : c ≠ ' ' := by
      rintro rfl
      have hd := isDigit_of_mem_displayPadded (c := ' ') (w := 3) (n := code.code.toNat)
        (by simp [hct])
      exact absurd hd (by decide)
    simp [trimStartMatches, errorText, hct, hc]
  rw [line, ResponseLine.parse_tagLine rfl (by decide), htrim]
  rfl

/-- An error reads as an error, whatever its texts are. -/
theorem exists_parse_error (code : ResponseCode) (extra : Option Str) :
    ∃ number text detail, ResponseLine.parse (error code extra).line = .error number text detail := by
  rw [parse_error]
  exact ResponseLine.exists_parseErrorBody _

theorem isTerminator (last : Terminator) : (ResponseLine.parse last.line).IsTerminator := by
  cases last with
  | ok => decide
  | error code extra =>
      obtain ⟨number, text, detail, h⟩ := exists_parse_error code extra
      rw [h]
      trivial

end Terminator

/-! ## The round trip -/

namespace WriterOp

/-- No field holds the delimiter that ends it. -/
def Readable : WriterOp → Prop
  | .blankLine | .infoOn | .infoOff => True
  | .tagged tag body => tag ≠ .info ∧ tag ≠ .referral ∧ body ≠ [] ∧ body.head? ≠ some ' '
  | .endBlock tag => tag ≠ .info ∧ tag ≠ .referral
  | .referral host _ _ => '/' ∉ host
  | .referralUrl url => url.head? ≠ some ' '
  | .recordTyped cls attr _ _ => cls ≠ [] ∧ ':' ∉ cls ∧ attr ≠ [] ∧ ':' ∉ attr ∧ ';' ∉ attr
  | .recordAttr cls attr _ => cls ≠ [] ∧ ':' ∉ cls ∧ attr ≠ [] ∧ ':' ∉ attr ∧ ';' ∉ attr
  | .xExt name body => name ≠ [] ∧ ' ' ∉ name ∧ body.head? ≠ some ' '

instance : (op : WriterOp) → Decidable op.Readable
  | .blankLine | .infoOn | .infoOff => isTrue trivial
  | .tagged tag body => inferInstanceAs (Decidable
      (tag ≠ .info ∧ tag ≠ .referral ∧ body ≠ [] ∧ body.head? ≠ some ' '))
  | .endBlock tag => inferInstanceAs (Decidable (tag ≠ .info ∧ tag ≠ .referral))
  | .referral host _ _ => inferInstanceAs (Decidable ('/' ∉ host))
  | .referralUrl url => inferInstanceAs (Decidable (url.head? ≠ some ' '))
  | .recordTyped cls attr _ _ | .recordAttr cls attr _ => inferInstanceAs (Decidable
      (cls ≠ [] ∧ ':' ∉ cls ∧ attr ≠ [] ∧ ':' ∉ attr ∧ ';' ∉ attr))
  | .xExt name body => inferInstanceAs (Decidable
      (name ≠ [] ∧ ' ' ∉ name ∧ body.head? ≠ some ' '))

/-- The response line that carries the data of a call. -/
def meaning : WriterOp → ResponseLine
  | .blankLine => .blank
  | .tagged tag body => .tagged tag body
  | .endBlock tag => .taggedEnd tag
  | .referral host port authArea => .referral { host, port, authArea }
  | .referralUrl url =>
      match ReferralUrl.parse url with
      | some u => .referral u
      | none => .tagged .referral url
  | .recordTyped cls attr ty value => .record { cls, attr, ty, value }
  | .recordAttr cls attr value => .record { cls, attr, ty := none, value }
  | .infoOn => .infoMarker .on
  | .infoOff => .infoMarker .off
  | .xExt name body => .unknownTagged ("%X-".toList ++ name) body

end WriterOp

theorem trimStartMatches_of_head? {body : Str} (h : body.head? ≠ some ' ') :
    trimStartMatches (· == ' ') body = body := by
  cases body with
  | nil => rfl
  | cons c body =>
      have hc : c ≠ ' ' := by simpa using h
      simp [trimStartMatches, hc]

theorem Tag.fromToken_asStr (tag : Tag) : fromToken tag.asStr = some tag := by
  cases tag <;> decide

theorem Tag.fromToken_xExt {name : Str} (h : name ≠ []) :
    fromToken ("%X-".toList ++ name) = none := by
  obtain ⟨c, name, rfl⟩ := List.exists_cons_of_ne_nil h
  simp [fromToken, tokenTable]

theorem RecordLine.parse_recordText {cls attr : Str} (hcls : cls ≠ []) (hcolon : ':' ∉ cls)
    (hhead : cls.head? ≠ some '%') (hattr : attr ≠ []) (hacolon : ':' ∉ attr)
    (hasemi : ';' ∉ attr) (ty : Option TypeChar) (value : Str) :
    RecordLine.parse (recordText cls attr ty value) = some { cls, attr, ty, value } := by
  have hstart : ¬ ((recordText cls attr ty value).head? = some '%' ∨
      recordText cls attr ty value = []) := by
    rintro (h | h)
    · exact recordText_head? hhead attr ty value h
    · simp [recordText] at h
  have htyped : ':' ∉ attr ++ typeText ty := by
    rcases ty with _ | t
    · simpa [typeText] using hacolon
    · cases t <;> simp [typeText, TypeChar.asChar, hacolon]
  have htype : RecordLine.parseType (attr ++ typeText ty) = some (attr, ty) := by
    rcases ty with _ | t
    · simp [typeText, parseType, splitOnce_char_none hasemi]
    · cases t <;>
        simp [typeText, parseType, splitOnce_char hasemi, TypeChar.asChar, TypeChar.fromChar]
  have hsecond : splitOnce [':'] (attr ++ typeText ty ++ ':' :: value) =
      some (attr ++ typeText ty, value) := splitOnce_char htyped value
  rw [RecordLine.parse, if_neg hstart, recordText, splitOnce_char hcolon]
  simp only [Option.bind_eq_bind, Option.bind_some, hsecond]
  rw [if_neg (by simp [hcls, hattr]), htype]
  rfl

theorem referralText_eq (host : Str) (port : UInt16) (authArea : Str) :
    referralText host port authArea = "rwhois://".toList ++
      ((host ++ ':' :: display port.toNat) ++ '/' :: ("auth-area=".toList ++ authArea)) := by
  have hcolon : ":".toList = [':'] := rfl
  have hpath : "/auth-area=".toList = '/' :: "auth-area=".toList := by decide
  unfold referralText
  rw [hcolon, hpath]
  -- the literals are kept closed
  generalize "rwhois://".toList = scheme
  generalize "auth-area=".toList = path
  simp only [List.append_assoc, List.cons_append, List.nil_append]

theorem ReferralUrl.parse_referralText {host : Str} (h : '/' ∉ host) (port : UInt16)
    (authArea : Str) :
    ReferralUrl.parse (referralText host port authArea) = some { host, port, authArea } := by
  have hdigit : ∀ c, c.isDigit = false → c ∉ display port.toNat := by
    intro c hc hmem
    rw [isDigit_of_mem_display hmem] at hc
    cases hc
  have hslash : '/' ∉ host ++ ':' :: display port.toNat := by
    simp [h, hdigit '/' (by decide)]
  have hport : rsplitOnce ':' (host ++ ':' :: display port.toNat) =
      some (host, display port.toNat) := rsplitOnce_char (hdigit ':' (by decide)) host
  rw [ReferralUrl.parse, referralText_eq]
  generalize "rwhois://".toList = scheme
  generalize "auth-area=".toList = path
  rw [stripPrefix_append]
  simp only [Option.bind_eq_bind, Option.bind_some, splitOnce_char hslash, hport,
    parseU16_display, stripPrefix_append]
  rfl

theorem ResponseLine.parse_tag {tag : Tag} (hinfo : tag ≠ .info) (href : tag ≠ .referral)
    {body : Str} (hbody : body.head? ≠ some ' ') :
    parse (tagLine tag.asStr body) = if body = [] then .taggedEnd tag else .tagged tag body := by
  have htok : ∀ {s : Str} {o : Option Tag}, Tag.fromToken s = o → o ≠ some tag →
      tag.asStr ≠ s := by
    rintro s o rfl hne rfl
    exact hne tag.fromToken_asStr
  have hok := htok (s := "%ok".toList) (o := none) (by decide) (by simp)
  have herr := htok (s := "%error".toList) (o := none) (by decide) (by simp)
  have hin := htok (s := "%info".toList) (Tag.fromToken_asStr .info) (by simpa using hinfo.symm)
  have hre := htok (s := "%referral".toList) (Tag.fromToken_asStr .referral)
    (by simpa using href.symm)
  rw [parse_tagLine tag.asStr_head? tag.space_notMem_asStr, trimStartMatches_of_head? hbody,
    parseTagged, if_neg hok, if_neg herr, if_neg hin, if_neg hre, Tag.fromToken_asStr]

theorem ResponseLine.parse_referral {url : Str} (h : url.head? ≠ some ' ') :
    parse (tagLine Tag.referral.asStr url) = match ReferralUrl.parse url with
      | some u => .referral u
      | none => .tagged .referral url := by
  have htagged := parse_tagLine Tag.referral.asStr_head? Tag.referral.space_notMem_asStr url
  rw [trimStartMatches_of_head? h, parseTagged, if_neg (by decide), if_neg (by decide),
    if_neg (by decide), if_pos (by decide)] at htagged
  refine htagged.trans ?_
  cases ReferralUrl.parse url <;> rfl

theorem ResponseLine.parse_xExt {name body : Str} (hname : name ≠ []) (hsp : ' ' ∉ name)
    (hbody : body.head? ≠ some ' ') :
    parse (tagLine ("%X-".toList ++ name) body) = .unknownTagged ("%X-".toList ++ name) body := by
  have hnone := Tag.fromToken_xExt hname
  have hne : ∀ {s : Str}, (Tag.fromToken s).isSome = true → "%X-".toList ++ name ≠ s := by
    rintro s hs rfl
    rw [hnone] at hs
    cases hs
  have hsp' : ' ' ∉ "%X-".toList ++ name := by
    intro h
    rcases List.mem_append.mp h with h | h
    · exact absurd h (by decide)
    · exact hsp h
  rw [parse_tagLine rfl hsp', trimStartMatches_of_head? hbody, parseTagged, if_neg (by simp),
    if_neg (by simp), if_neg (hne (by decide)), if_neg (hne (by decide)), hnone]

theorem ResponseLine.parse_recordText {cls attr : Str} {ty : Option TypeChar} {value : Str}
    {r : RecordLine} (hhead : cls.head? ≠ some '%')
    (hr : RecordLine.parse (recordText cls attr ty value) = some r) :
    parse (recordText cls attr ty value) = .record r := by
  have hne : recordText cls attr ty value ≠ [] := by simp [recordText]
  rw [parse, if_neg hne, if_pos (recordText_head? hhead attr ty value), hr]

namespace WriterOp

/-- The parser gives the data of the call back. -/
theorem parse_line {op : WriterOp} (hclean : op.Clean) (h : op.Readable) :
    ResponseLine.parse op.line = op.meaning := by
  cases op with
  | blankLine => rfl
  | tagged tag body =>
      obtain ⟨hinfo, href, hne, hsp⟩ := h
      rw [line, ResponseLine.parse_tag hinfo href hsp, if_neg hne]
      rfl
  | endBlock tag =>
      rw [line, ResponseLine.parse_tag h.1 h.2 (by simp), if_pos rfl]
      rfl
  | referral host port authArea =>
      have hstart : (referralText host port authArea).head? ≠ some ' ' := by
        simp [referralText_eq]
      rw [line, ResponseLine.parse_referral hstart, ReferralUrl.parse_referralText h]
      rfl
  | referralUrl url => exact ResponseLine.parse_referral h
  | recordTyped cls attr ty value =>
      obtain ⟨hcls, hcolon, hattr, hacolon, hasemi⟩ := h
      have hhead := hclean.2.2.2
      exact ResponseLine.parse_recordText hhead
        (RecordLine.parse_recordText hcls hcolon hhead hattr hacolon hasemi ty value)
  | recordAttr cls attr value =>
      obtain ⟨hcls, hcolon, hattr, hacolon, hasemi⟩ := h
      have hhead := hclean.2.2.2
      exact ResponseLine.parse_recordText hhead
        (RecordLine.parse_recordText hcls hcolon hhead hattr hacolon hasemi none value)
  | infoOn => decide
  | infoOff => decide
  | xExt name body => exact ResponseLine.parse_xExt h.1 h.2.1 h.2.2

end WriterOp

namespace Terminator

def Readable : Terminator → Prop
  | .ok => True
  | .error code extra => ¬ ": ".toList <:+: code.message ∧ extra ≠ some []

def meaning : Terminator → ResponseLine
  | .ok => .ok
  | .error code extra => .error code.code code.message extra

theorem parse_line {last : Terminator} (h : last.Readable) :
    ResponseLine.parse last.line = last.meaning := by
  cases last with
  | ok => decide
  | error code extra =>
      obtain ⟨hmsg, hextra⟩ := h
      have hcode : ' ' ∉ displayPadded 3 code.code.toNat := by
        intro hc
        exact absurd (isDigit_of_mem_displayPadded hc) (by decide)
      have hsplit : splitOnce [' '] (errorText code extra) =
          some (displayPadded 3 code.code.toNat, code.message ++ detailText extra) :=
        splitOnce_char hcode _
      rw [parse_error, ResponseLine.parseErrorBody, hsplit]
      simp only [Option.getD_some, parseU16_displayPadded]
      cases extra with
      | none =>
          have hno : splitOnce ": ".toList (code.message ++ detailText none) = none := by
            rw [detailText, Option.filter_none, List.append_nil]
            exact splitOnce_none_of_not_infix (by decide) hmsg
          rw [hno]
          simp [detailText, meaning]
      | some e =>
          have he : e ≠ [] := by simpa using hextra
          have hdetail : detailText (some e) = ':' :: ' ' :: e := by
            have hkeep : (some e).filter (fun s => !s.isEmpty) = some e := by
              simp [Option.filter, he]
            rw [detailText, hkeep]
            rfl
          rw [hdetail]
          have hpair : splitOnce ": ".toList (code.message ++ ':' :: ' ' :: e) =
              some (code.message, e) := splitOnce_pair (by decide) hmsg e
          rw [hpair]
          rfl

end Terminator

/-! ## Whole replies -/

/-- What a client reads. -/
def received (bytes : Bytes) : Option (List ResponseLine) :=
  (fromUtf8 bytes).map fun text => (splitTerminator text).map ResponseLine.parse

/-- Lines that stay lines are read one by one. -/
theorem received_unlines {lines : List Str} (h : ∀ l ∈ lines, IsLine l) :
    received (utf8 (unlines lines)) = some (lines.map ResponseLine.parse) := by
  rw [received, fromUtf8_utf8, Option.map_some, splitTerminator_unlines h]

/-- The text of a reply: the lines of the calls and the terminator. -/
theorem reply_text (ops : List WriterOp) (last : Terminator) :
    last.write (WriterOp.runAll ops .new).buf =
      utf8 (unlines (ops.map WriterOp.line ++ [last.line])) := by
  rw [Terminator.write_eq, WriterOp.runAll_buf]
  simp [ResponseWriter.new]

/-- Every line of a clean reply stays a line. -/
theorem reply_isLine {ops : List WriterOp} {last : Terminator} (hops : ∀ op ∈ ops, op.Clean)
    (hlast : last.Clean) : ∀ l ∈ ops.map WriterOp.line ++ [last.line], IsLine l := by
  intro l hl
  rcases List.mem_append.mp hl with hl | hl
  · obtain ⟨op, hop, rfl⟩ := List.mem_map.mp hl
    exact (hops op hop).isLine
  · obtain rfl := List.mem_singleton.mp hl
    exact hlast.isLine

/-- A clean reply splits into the lines it was made of. -/
theorem reply_lines {ops : List WriterOp} {last : Terminator} (hops : ∀ op ∈ ops, op.Clean)
    (hlast : last.Clean) :
    ∃ text, fromUtf8 (last.write (WriterOp.runAll ops .new).buf) = some text ∧
      splitTerminator text = ops.map WriterOp.line ++ [last.line] :=
  ⟨_, by rw [reply_text, fromUtf8_utf8], splitTerminator_unlines (reply_isLine hops hlast)⟩

/-- Every line carries the data of its call. -/
theorem WriterOp.parse_lines {ops : List WriterOp} (h : ∀ op ∈ ops, op.Clean ∧ op.Readable) :
    (ops.map line).map ResponseLine.parse = ops.map meaning := by
  rw [List.map_map]
  exact List.map_congr_left fun op hop => parse_line (h op hop).1 (h op hop).2

/-- **Writer and parser agree.** A reply splits into one line per call,
in order, and every line carries the data of its call. -/
theorem reply_roundtrip (ops : List WriterOp) (last : Terminator)
    (hops : ∀ op ∈ ops, op.Clean ∧ op.Readable) (hlast : last.Clean ∧ last.Readable) :
    ∃ text, fromUtf8 (last.write (WriterOp.runAll ops .new).buf) = some text ∧
      (splitTerminator text).map ResponseLine.parse = ops.map WriterOp.meaning ++ [last.meaning] := by
  obtain ⟨text, htext, hlines⟩ := reply_lines (fun op hop => (hops op hop).1) hlast.1
  refine ⟨text, htext, ?_⟩
  rw [hlines, List.map_append, WriterOp.parse_lines hops, List.map_singleton,
    Terminator.parse_line hlast.2]

/-- A record value with delimiters in it, an IPv6 referral and an error
detail that holds the separator itself. -/
theorem reply_roundtrip_delimiters : ∃ text,
    fromUtf8 ((Terminator.error .INVALID_QUERY_SYNTAX (some "a: b".toList)).write
      (WriterOp.runAll [.recordTyped "domain".toList "Server".toList (some .id) "x;y:z".toList,
        .referral "::1".toList 4321 "a/b".toList, .xExt "foo".toList []] .new).buf) = some text ∧
      (splitTerminator text).map ResponseLine.parse =
        [.record ⟨"domain".toList, "Server".toList, some .id, "x;y:z".toList⟩,
          .referral ⟨"::1".toList, 4321, "a/b".toList⟩, .unknownTagged "%X-foo".toList [],
          .error 350 "Invalid Query Syntax".toList (some "a: b".toList)] := by
  have hno : ¬ ": ".toList <:+: ResponseCode.INVALID_QUERY_SYNTAX.message := fun h =>
    absurd (h.subset (by decide : ':' ∈ ": ".toList)) (by decide)
  obtain ⟨text, htext, hlines⟩ := reply_roundtrip
    [.recordTyped "domain".toList "Server".toList (some .id) "x;y:z".toList,
      .referral "::1".toList 4321 "a/b".toList, .xExt "foo".toList []]
    (.error .INVALID_QUERY_SYNTAX (some "a: b".toList)) (by decide)
    ⟨⟨by decide, by decide⟩, hno, by decide⟩
  exact ⟨text, htext, hlines.trans (by decide)⟩

end Rwhois
