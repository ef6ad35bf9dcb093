import Rwhois.Error
import Rwhois.RustStd.Lines
import Rwhois.RustStd.Num
import Rwhois.RustStd.Pattern

/-!
# Wire — Response

Both halves of the response format (`wire/response.rs`): the writer that
handlers append lines with, the two terminators the session adds, and the
client's parser of a single line.

The writer keeps BYTES and never looks at what it is given, so a CR or LF
in an argument ends the line early. Which texts keep the format is the
subject of `Wire.RoundTrip`.
-/

namespace Rwhois

open RustStd

/-- Tag in front of a tagged response block. -/
inductive Tag where
  | rwhois
  | referral
  | cls
  | seeAlso
  | load
  | soa
  | status
  | xfer
  | schema
  | directive
  | info
  | xExt
  | register
  | display
  deriving Repr, DecidableEq

namespace Tag

/-- Wire token including the leading `%`. -/
def asStr : Tag → Str
  | .rwhois => "%rwhois".toList
  | .referral => "%referral".toList
  | .cls => "%class".toList
  | .seeAlso => "%see-also".toList
  | .load => "%load".toList
  | .soa => "%soa".toList
  | .status => "%status".toList
  | .xfer => "%xfer".toList
  | .schema => "%schema".toList
  | .directive => "%directive".toList
  | .info => "%info".toList
  | .xExt => "%X-".toList
  | .register => "%register".toList
  | .display => "%display".toList

/-- The arms of `from_token`, in their order. -/
def tokenTable : List (String × Tag) :=
  [("%rwhois", .rwhois), ("%referral", .referral), ("%class", .cls), ("%see-also", .seeAlso),
    ("%load", .load), ("%soa", .soa), ("%status", .status), ("%xfer", .xfer),
    ("%schema", .schema), ("%directive", .directive), ("%info", .info), ("%X-", .xExt),
    ("%register", .register), ("%display", .display)]

/-- Parse a leading `%tag` token back into a tag. -/
def fromToken (s : Str) : Option Tag :=
  (tokenTable.find? fun arm => arm.1.toList = s).map Prod.snd

end Tag

/-- Type character of a typed record value. -/
inductive TypeChar where
  | text
  | id
  | seeAlso
  deriving Repr, DecidableEq

namespace TypeChar

def asChar : TypeChar → Char
  | .text => 'T'
  | .id => 'I'
  | .seeAlso => 'S'

def fromChar (c : Char) : Option TypeChar :=
  if c = 'T' ∨ c = 't' then some .text
  else if c = 'I' ∨ c = 'i' then some .id
  else if c = 'S' ∨ c = 's' then some .seeAlso
  else none

end TypeChar

/-! ## Writing -/

/-- The buffer handed to handlers. -/
structure ResponseWriter where
  buf : Bytes
  deriving Repr, DecidableEq

namespace ResponseWriter

def new : ResponseWriter := { buf := [] }

/-- `put_slice` of a text. -/
def put (self : ResponseWriter) (s : Str) : ResponseWriter := { buf := self.buf ++ utf8 s }

def rawLine (self : ResponseWriter) (line : Str) : ResponseWriter := (self.put line).put crlf

def blankLine (self : ResponseWriter) : ResponseWriter := self.put crlf

def tagged (self : ResponseWriter) (tag : Tag) (body : Str) : ResponseWriter :=
  ((self.put tag.asStr).put (if body = [] then [] else ' ' :: body)).put crlf

def endBlock (self : ResponseWriter) (tag : Tag) : ResponseWriter := self.tagged tag []

def referral (self : ResponseWriter) (host : Str) (port : UInt16) (authArea : Str) :
    ResponseWriter :=
  self.tagged .referral
    ("rwhois://".toList ++ host ++ ":".toList ++ display port.toNat ++ "/auth-area=".toList ++
      authArea)

def referralUrl (self : ResponseWriter) (url : Str) : ResponseWriter := self.tagged .referral url

def recordTyped (self : ResponseWriter) (cls attr : Str) (ty : Option TypeChar) (value : Str) :
    ResponseWriter :=
  let named := ((self.put cls).put ":".toList).put attr
  let typed :=
    match ty with
    | some t => (named.put ";".toList).put [t.asChar]
    | none => named
  ((typed.put ":".toList).put value).put crlf

def recordAttr (self : ResponseWriter) (cls attr value : Str) : ResponseWriter :=
  self.recordTyped cls attr none value

def infoOn (self : ResponseWriter) : ResponseWriter := self.tagged .info "on".toList

def infoOff (self : ResponseWriter) : ResponseWriter := self.tagged .info "off".toList

def xExt (self : ResponseWriter) (name body : Str) : ResponseWriter :=
  (((self.put "%X-".toList).put name).put (if body = [] then [] else ' ' :: body)).put crlf

end ResponseWriter

/-- `%error <code> <message>[: <extra>]`. -/
def writeError (out : Bytes) (code : ResponseCode) (extra : Option Str) : Bytes :=
  let header :=
    "%error ".toList ++ displayPadded 3 code.code.toNat ++ " ".toList ++ code.message
  let detail :=
    match extra.filter (fun s => !s.isEmpty) with
    | some extra => ": ".toList ++ extra
    | none => []
  out ++ utf8 header ++ utf8 detail ++ utf8 crlf

def writeOk (out : Bytes) : Bytes := out ++ utf8 "%ok".toList ++ utf8 crlf

/-! ## Parsing -/

inductive InfoMarker where
  | on
  | off
  deriving Repr, DecidableEq

structure ReferralUrl where
  host : Str
  port : UInt16
  authArea : Str
  deriving Repr, DecidableEq

def ReferralUrl.parse (s : Str) : Option ReferralUrl := do
  let rest ← stripPrefix "rwhois://".toList s
  let (hostport, rest) ← splitOnce ['/'] rest
  let (host, port) ← rsplitOnce ':' hostport
  let port ← parseU16 port
  let authArea ← stripPrefix "auth-area=".toList rest
  pure { host, port, authArea }

structure RecordLine where
  cls : Str
  attr : Str
  ty : Option TypeChar
  value : Str
  deriving Repr, DecidableEq

/-- The attribute and its type, if one follows a `;`. -/
def RecordLine.parseType (attrWithType : Str) : Option (Str × Option TypeChar) :=
  match splitOnce [';'] attrWithType with
  | some (a, [c]) => (TypeChar.fromChar c).map fun t => (a, some t)
  | some _ => none
  | none => some (attrWithType, none)

def RecordLine.parse (line : Str) : Option RecordLine := do
  if line.head? = some '%' ∨ line = [] then
    none
  else
    let (cls, rest) ← splitOnce [':'] line
    let (attrWithType, value) ← splitOnce [':'] rest
    if cls = [] ∨ attrWithType = [] then
      none
    else
      let (attr, ty) ← parseType attrWithType
      pure { cls, attr, ty, value }

/-- One parsed line of a server response. -/
inductive ResponseLine where
  | ok
  | error (code : UInt16) (text : Str) (extra : Option Str)
  | infoMarker (marker : InfoMarker)
  | tagged (tag : Tag) (body : Str)
  | taggedEnd (tag : Tag)
  | referral (url : ReferralUrl)
  | record (line : RecordLine)
  | blank
  | unknownTagged (tag body : Str)
  | freeForm (line : Str)
  deriving Repr, DecidableEq

namespace ResponseLine

def parseErrorBody (body : Str) : ResponseLine :=
  let (codeStr, rest) := (splitOnce [' '] body).getD (body, [])
  let code := (parseU16 codeStr).getD 0
  match splitOnce ": ".toList rest with
  | some (text, extra) => .error code text (some extra)
  | none => .error code rest none

/-- A line whose first token is `tagTok`. -/
def parseTagged (tagTok body : Str) : ResponseLine :=
  if tagTok = "%ok".toList then .ok
  else if tagTok = "%error".toList then parseErrorBody body
  else if tagTok = "%info".toList then
    if body = "on".toList then .infoMarker .on
    else if body = "off".toList then .infoMarker .off
    else .tagged .info body
  else if tagTok = "%referral".toList then
    match ReferralUrl.parse body with
    | some u => .referral u
    | none => .tagged .referral body
  else
    match Tag.fromToken tagTok with
    | some tag => if body = [] then .taggedEnd tag else .tagged tag body
    | none => .unknownTagged tagTok body

/-- Parse one line without its terminator. The source cuts at the byte
offset of the first blank, which is `split_once`. -/
def parse (line : Str) : ResponseLine :=
  if line = [] then .blank
  else if line.head? ≠ some '%' then
    match RecordLine.parse line with
    | some r => .record r
    | none => .freeForm line
  else
    match splitOnce [' '] line with
    | some (tagTok, rest) => parseTagged tagTok (trimStartMatches (· == ' ') rest)
    | none => parseTagged line []

/-- `%ok` and `%error` close a response. -/
def IsTerminator : ResponseLine → Prop
  | .ok | .error _ _ _ => True
  | _ => False

instance : (l : ResponseLine) → Decidable l.IsTerminator
  | .ok | .error _ _ _ => isTrue trivial
  | .infoMarker _ | .tagged _ _ | .taggedEnd _ | .referral _ | .record _ | .blank
  | .unknownTagged _ _ | .freeForm _ => isFalse id

end ResponseLine

end Rwhois
