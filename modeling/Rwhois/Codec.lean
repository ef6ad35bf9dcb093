import Rwhois.Error
import Rwhois.RustStd.Exec
import Rwhois.RustStd.Pattern

/-!
# Codec

The line codec (`codec.rs`). `decode` is called again and again on a
buffer that grows between the calls; `next_index` remembers how far the
buffer was already searched for a line feed.

`drain` and `feed` are the callers' loop: append a chunk, then decode
until nothing is left to decode. What they give on a whole stream is in
`Codec.Stream`.
-/

namespace Rwhois

open RustStd

def LF : UInt8 := 0x0A
def CR : UInt8 := 0x0D

structure RwhoisCodec where
  maxLine : Nat
  nextIndex : Nat
  deriving Repr, DecidableEq

namespace RwhoisCodec

def withMaxLine (maxLine : Nat) : RwhoisCodec := { maxLine, nextIndex := 0 }

/-- What `decode` reports for a byte from `0x80` on. -/
def nonAsciiError : Error := .protocol .INVALID_QUERY_SYNTAX "non-ASCII byte in line".toList

/-- The loop over the raw line: drop control bytes, keep tab, stop at the
first byte that is not ASCII. -/
def stripControl (out : Str) : Bytes → Except Error Str
  | [] => .ok out
  | b :: raw =>
      if 0x80 ≤ b then .error nonAsciiError
      else if b = 0x09 ∨ 0x20 ≤ b then stripControl (out ++ [Char.ofNat b.toNat]) raw
      else stripControl out raw

/-- Where the payload of the line ends: one CR directly before the line
feed belongs to the terminator. -/
def lineEnd (src : Bytes) (newlinePos : Nat) : Exec (RwhoisCodec × Bytes) Error Nat :=
  if newlinePos > 0 then do
    let b ← Exec.index src[newlinePos - 1]?
    pure (if b = CR then newlinePos - 1 else newlinePos)
  else
    pure newlinePos

/-- `Decoder::decode` on the codec and its buffer. -/
def decode : Exec (RwhoisCodec × Bytes) Error (Option Str) := do
  let (self, src) ← Exec.get
  let tail ← Exec.sliceFrom src self.nextIndex
  match tail.findIdx? (· == LF) with
  | some rel =>
      let newlinePos := self.nextIndex + rel
      -- the line stays in the buffer: a second call reports it again
      if newlinePos + 1 > self.maxLine then
        Exec.throw (.lineTooLong self.maxLine)
      else do
        let lineEnd ← lineEnd src newlinePos
        -- `split_to` moves the line out of the buffer before it is looked at
        let raw ← Exec.sliceTo src (newlinePos + 1)
        Exec.modify fun _ => ({ self with nextIndex := 0 }, src.drop (newlinePos + 1))
        let line ← Exec.sliceTo raw lineEnd
        let out ← Exec.ofOutcome (.ofExcept (stripControl [] line))
        pure (some (trimMatches isBlank out))
  | none =>
      if src.length > self.maxLine then
        Exec.throw (.lineTooLong self.maxLine)
      else do
        -- the bytes looked at so far are not searched again
        Exec.modify fun _ => ({ self with nextIndex := src.length }, src)
        pure none

/-- `Encoder::encode`; the destination is returned as it is left behind. -/
def encode (self : RwhoisCodec) (item dst : Bytes) : Except Error Unit × Bytes :=
  if item.length + 2 > self.maxLine then
    (.error (.lineTooLong self.maxLine), dst)
  else if item.any (fun b => b == CR || b == LF) then
    (.error (.protocol .UNIDENTIFIED_ERROR "line contains embedded CR or LF".toList), dst)
  else
    (.ok (), dst ++ item ++ [CR, LF])

/-! ## Reading a stream chunk by chunk -/

/-- Call `decode` until it returns `None` or `LineTooLong`. What it
returned, and the state to go on with if there is one. The fuel bounds
the number of calls. -/
def drain : Nat → RwhoisCodec × Bytes → List (Outcome Error Str) × Option (RwhoisCodec × Bytes)
  | 0, _ => ([.diverge], none)
  | fuel + 1, st =>
      match decode.run st with
      | (.ok none, st') => ([], some st')
      | (.ok (some line), st') => ((.ok line :: (drain fuel st').1), (drain fuel st').2)
      | (.err (.lineTooLong max), _) => ([.err (.lineTooLong max)], none)
      | (.err e, st') => ((.err e :: (drain fuel st').1), (drain fuel st').2)
      | (.panic, _) => ([.panic], none)
      | (.diverge, _) => ([.diverge], none)

/-- Append the chunks one by one and drain the buffer after each. -/
def feed : RwhoisCodec × Bytes → List Bytes → List (Outcome Error Str)
  | _, [] => []
  | (self, src), chunk :: chunks =>
      match drain ((src ++ chunk).length + 1) (self, src ++ chunk) with
      | (results, some st) => results ++ feed st chunks
      | (results, none) => results

end RwhoisCodec

end Rwhois
