import Rwhois.Error
import Rwhois.RustStd.Exec
import Rwhois.RustStd.Pattern

/-!
# Query

The query syntax tree and its parser (`query.rs`). The parser is a cursor
over the text: every routine slices the input at the byte offset `pos`,
some look ahead of it and two set it back. All slices are checked here,
so a cursor that leaves a character boundary shows as a panic.

The four scanning loops of the source (`skip_ws`, `consume_id_chars` and
the loops of `parse_query_string` and `parse_quoted_value`) are one loop
with the set of characters it runs over, `advanceWhile`.
-/

namespace Rwhois

open RustStd

inductive ValueKind where
  | exact
  | prefixed
  | suffixed
  | substring
  | quoted
  deriving Repr, DecidableEq

/-- A query value: its text without quotes and wildcards, and how it is
to be matched. -/
structure Value where
  text : Str
  kind : ValueKind
  deriving Repr, DecidableEq

inductive Term where
  | attrEq (attr : Str) (value : Value)
  | attrNe (attr : Str) (value : Value)
  | value (value : Value)
  deriving Repr, DecidableEq

inductive Expr where
  | term (t : Term)
  | and (lhs rhs : Expr)
  | or (lhs rhs : Expr)
  deriving Repr, DecidableEq

structure Query where
  cls : Option Str
  expr : Expr
  raw : Str
  deriving Repr, DecidableEq

/-- The error all failures of the parser carry, with their own text. -/
def syntaxError (message : String) : Error :=
  .protocol .INVALID_QUERY_SYNTAX message.toList

structure Parser where
  input : Str
  pos : Nat
  deriving Repr, DecidableEq

namespace Parser

/-- The characters of an attribute name. -/
def isIdChar (c : Char) : Bool := c.isAlphanum || c == '_' || c == '-'

/-- The characters of an unquoted query string. -/
def isQueryChar (c : Char) : Bool := !(c == '"' || c == ' ' || c == '\t')

def eof : Exec Parser Error Bool := do
  let self ← Exec.get
  pure (decide (byteLen self.input ≤ self.pos))

def peek : Exec Parser Error (Option Char) := do
  let self ← Exec.get
  let rest ← Exec.index (sliceFrom self.input self.pos)
  pure rest.head?

def advance (n : Nat) : Exec Parser Error Unit :=
  Exec.modify fun self => { self with pos := self.pos + n }

def setPos (pos : Nat) : Exec Parser Error Unit :=
  Exec.modify fun self => { self with pos }

/-- `while let Some(c) = self.peek()`: run over characters of one class. -/
def advanceWhile (p : Char → Bool) : Nat → Exec Parser Error Unit
  | 0 => Exec.diverge
  | fuel + 1 => do
      match ← peek with
      | some c =>
          if p c then do
            advance c.utf8Size
            advanceWhile p fuel
          else
            pure ()
      | none => pure ()

/-- Enough fuel for one run over the input. -/
def scan (p : Char → Bool) : Exec Parser Error Unit := do
  let self ← Exec.get
  advanceWhile p (self.input.length + 1)

def skipWs : Exec Parser Error Unit := scan isBlank

/-- The text from `start` up to the cursor. -/
def sliceSince (start : Nat) : Exec Parser Error Str := do
  let self ← Exec.get
  Exec.index (slice self.input start self.pos)

/-- Consume the keyword if a blank or the end follows it. -/
def tryKeyword (kw : Str) : Exec Parser Error Bool := do
  let self ← Exec.get
  let rest ← Exec.index (sliceFrom self.input self.pos)
  if byteLen rest < byteLen kw then
    pure false
  else do
    -- `rest[..kw.len()]` is cut by bytes, wherever the characters end
    let head ← Exec.index (sliceTo rest (byteLen kw))
    if eqIgnoreAsciiCase head kw then do
      let after ← Exec.index (sliceFrom rest (byteLen kw))
      match after.head? with
      | some c =>
          if c ≠ ' ' ∧ c ≠ '\t' then
            pure false
          else do
            advance (byteLen kw)
            skipWs
            pure true
      | none => do
          advance (byteLen kw)
          pure true
    else
      pure false

def consumeIdChars : Exec Parser Error Str := do
  let self ← Exec.get
  scan isIdChar
  sliceSince self.pos

def kindOf : Bool → Bool → ValueKind
  | false, false => .exact
  | false, true => .prefixed
  | true, false => .suffixed
  | true, true => .substring

/-- The end of `parse_query_string`: split off the trailing star. -/
def finishQueryString (leadingStar : Bool) (text : Str) : Outcome Error Value :=
  let trailingStar := decide (text.getLast? = some '*')
  let text := if trailingStar then text.dropLast else text
  if text = [] then .err (syntaxError "empty query string")
  else .ok { text, kind := kindOf leadingStar trailingStar }

def parseQueryString : Exec Parser Error Value := do
  let c ← peek
  let leadingStar := decide (c = some '*')
  advance (if leadingStar then 1 else 0)
  -- `start` is taken behind the star
  let self ← Exec.get
  scan isQueryChar
  let text ← sliceSince self.pos
  Exec.ofOutcome (finishQueryString leadingStar text)

def parseQuotedValue : Exec Parser Error Value := do
  advance 1
  let self ← Exec.get
  scan (· != '"')
  let c ← peek
  if c = some '"' then do
    let text ← sliceSince self.pos
    -- the closing quote
    advance 1
    if text = [] then
      Exec.throw (syntaxError "empty quoted string")
    else
      pure { text, kind := .quoted }
  else
    Exec.throw (syntaxError "unterminated quoted string")

def parseValueAfterOp : Exec Parser Error Value := do
  if ← eof then
    Exec.throw (syntaxError "missing value after operator")
  else do
    let c ← peek
    if c = some '"' then parseQuotedValue else parseQueryString

/-- The bare query string: the cursor goes back to its start. -/
def parseBare (start : Nat) : Exec Parser Error Term := do
  setPos start
  let value ← parseQueryString
  pure (.value value)

/-- Behind the identifier `token` that begins at `start`: an operator
and its value. Without an operator the token is part of a bare string. -/
def parseOperator (start : Nat) (token : Str) : Exec Parser Error Term := do
  match ← peek with
  | some '=' => do
      advance 1
      let value ← parseValueAfterOp
      pure (.attrEq token value)
  | some '!' => do
      let self ← Exec.get
      let rest ← Exec.index (sliceFrom self.input self.pos)
      if ['!', '='].isPrefixOf rest then do
        advance 2
        let value ← parseValueAfterOp
        pure (.attrNe token value)
      else
        parseBare start
  | _ => parseBare start

/-- A term that starts with neither a blank nor a quote. -/
def parseUnquoted : Exec Parser Error Term := do
  let self ← Exec.get
  let token ← consumeIdChars
  if token = [] then parseBare self.pos else parseOperator self.pos token

def parseTerm : Exec Parser Error Term := do
  skipWs
  if ← eof then
    Exec.throw (syntaxError "unexpected end of query")
  else do
    let c ← peek
    if c = some '"' then do
      let value ← parseQuotedValue
      pure (.value value)
    else
      parseUnquoted

/-- The loop of `parse_expr`: an operator and a term, or a term that
joins with an implicit AND. -/
def parseExprLoop : Nat → Expr → Exec Parser Error Expr
  | 0, _ => Exec.diverge
  | fuel + 1, lhs => do
      skipWs
      if ← eof then
        pure lhs
      else do
        let save ← Exec.get
        if ← tryKeyword "and".toList then do
          let rhs ← parseTerm
          parseExprLoop fuel (.and lhs (.term rhs))
        else do
          setPos save.pos
          if ← tryKeyword "or".toList then do
            let rhs ← parseTerm
            parseExprLoop fuel (.or lhs (.term rhs))
          else do
            -- no keyword: two terms side by side
            setPos save.pos
            let rhs ← parseTerm
            parseExprLoop fuel (.and lhs (.term rhs))

def parseExpr : Exec Parser Error Expr := do
  skipWs
  let first ← parseTerm
  let self ← Exec.get
  parseExprLoop (self.input.length + 1) (.term first)

end Parser

namespace Query

/-- `{:?}` of one ASCII character of a `str`. Beyond ASCII the source also
escapes what is not printable; here such a character stays as it is. -/
def debugChar (c : Char) : Str :=
  match c with
  | '\x00' => "\\0".toList
  | '\t' => "\\t".toList
  | '\r' => "\\r".toList
  | '\n' => "\\n".toList
  | '"' => "\\\"".toList
  | '\\' => "\\\\".toList
  | c =>
      if c.toNat < 0x20 ∨ c.toNat = 0x7F
      then "\\u\x7b".toList ++ Nat.toDigits 16 c.toNat ++ "\x7d".toList
      else [c]

/-- Nothing but blanks may be left behind the expression. -/
def finishTrimmed (expr : Expr) : Exec Parser Error Expr := do
  Parser.skipWs
  if ← Parser.eof then
    pure expr
  else do
    let self ← Exec.get
    let rest ← Exec.index (sliceFrom self.input self.pos)
    Exec.throw (.protocol .INVALID_QUERY_SYNTAX
      ("unexpected trailing input: \"".toList ++ rest.flatMap debugChar ++ "\"".toList))

/-- The body of `Query::parse` behind the empty check. -/
def parseTrimmed : Exec Parser Error Expr := do
  let expr ← Parser.parseExpr
  finishTrimmed expr

def parse (input : Str) : Outcome Error Query :=
  let trimmed := trim input
  if trimmed = [] then .err (syntaxError "empty query")
  else (parseTrimmed.run { input := trimmed, pos := 0 }).1.map fun expr =>
    { cls := none, expr, raw := input }

/-- The leftmost term of a left-associative tree and the tree without
it; `none` for a single term. -/
def splitLeadingTerm : Expr → Option (Term × Expr)
  | .term _ => none
  | .and (.term t) r => some (t, r)
  | .and l r => (splitLeadingTerm l).map fun p => (p.1, .and p.2 r)
  | .or (.term t) r => some (t, r)
  | .or l r => (splitLeadingTerm l).map fun p => (p.1, .or p.2 r)

/-- Lift the first bare token into the class scope if `isClass` accepts
it and something is left to query for. The early return of the source for
a query of one term is the last case: there is nothing to split off. -/
def withClassIf (self : Query) (isClass : Str → Bool) : Query :=
  match splitLeadingTerm self.expr with
  | some (.value { text, kind := .exact }, rest) =>
      if isClass text then { self with cls := some text, expr := rest } else self
  | _ => self

end Query

end Rwhois
