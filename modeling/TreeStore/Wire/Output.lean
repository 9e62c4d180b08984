import TreeStore.Library.Fallible
import TreeStore.Library.ByteFile

/-!
# Writing to the connection

The output half of `pb_encode.c`, with the callback of `common.c`, whose `send`
takes all that it is given.  A stream without a callback only counts.
-/

namespace TreeStore

namespace Wire

/-- `pb_ostream_t`; `state` are the bytes that have been sent. -/
structure Ostream where
  callback : Bool
  state : List UInt8
  maxSize : Nat
  bytesWritten : Nat
  errmsg : Option String
  deriving DecidableEq, Repr

/-- `PB_OSTREAM_SIZING`. -/
def Ostream.sizing : Ostream := ⟨false, [], 0, 0, none⟩

/-- Encoders have no input that could end. -/
abbrev Encoder := Fallible (fun _ : Ostream => 0)

namespace Encoder

/-- An encoder that is not held to anything. -/
abbrev of {α : Type} (run : Ostream → Option α × Ostream) : Encoder α :=
  ⟨run, fun _ => le_refl _⟩

variable {α : Type}

/-- `PB_RETURN_ERROR`. -/
def returnError (msg : String) : Encoder α :=
  of fun stream => (none, { stream with errmsg := stream.errmsg.getD msg })

/-- `writeCallback`. -/
def writeCallback (buf : List UInt8) : Encoder Unit :=
  of fun stream => (some (), { stream with state := stream.state ++ buf })

/-- `bytes_written += count`. -/
def count (count : Nat) : Encoder Unit :=
  of fun stream =>
    (some (), { stream with bytesWritten := stream.bytesWritten + count })

end Encoder

open Encoder

def pbWrite (buf : List UInt8) : Encoder Unit := do
  let stream ← Encoder.of fun stream => (some stream, stream)
  if buf ≠ [] ∧ stream.callback = true then
    if stream.maxSize < stream.bytesWritten + buf.length then
      Encoder.returnError "stream full"
    else
      writeCallback buf
      count buf.length
  else count buf.length

section Varints

/-- The first loop of `pb_encode_varint_32`, with at most `rounds` rounds: what
it leaves in `byte`, and the bytes that it puts into the buffer. -/
def varintLow : Nat → UInt8 → UInt32 → UInt32 → UInt8 × List UInt8
  | 0, byte, _, _ => (byte, [])
  | rounds + 1, byte, low, high =>
      if low ≠ 0 ∨ high ≠ 0 then
        let (last, buffer) :=
          varintLow rounds (low &&& 0x7F).toUInt8 (low >>> 7) high
        (last, (byte ||| 0x80) :: buffer)
      else (byte, [])

/-- The second loop, which ends because `high` gets smaller, and the byte
behind it. -/
def varintHigh (byte : UInt8) (high : UInt32) : List UInt8 :=
  if high ≠ 0 then
    (byte ||| 0x80) :: varintHigh (high &&& 0x7F).toUInt8 (high >>> 7)
  else [byte]
termination_by high.toNat
decreasing_by
  have nonzero : high.toNat ≠ 0 := fun zero =>
    absurd (UInt32.toNat_inj.mp zero) ‹high ≠ 0›
  rw [UInt32.toNat_shiftRight, Nat.shiftRight_eq_div_pow]
  apply Nat.div_lt_self (Nat.pos_of_ne_zero nonzero)
  decide

/-- The buffer of `pb_encode_varint_32`. -/
def varint32Buffer (low high : UInt32) : List UInt8 :=
  let (byte, buffer) := varintLow 4 (low &&& 0x7F).toUInt8 (low >>> 7) high
  if high ≠ 0 then
    buffer ++
      varintHigh (byte ||| ((high &&& 0x07) <<< 4).toUInt8) (high >>> 3)
  else buffer ++ [byte]

def pbEncodeVarint32 (low high : UInt32) : Encoder Unit :=
  pbWrite (varint32Buffer low high)

def pbEncodeVarint (value : UInt64) : Encoder Unit :=
  if value ≤ 0x7F then pbWrite [value.toUInt8]
  else pbEncodeVarint32 value.toUInt32 (value >>> 32).toUInt32

end Varints

/-- `pb_encode_fixed32`. -/
def pbEncodeFixed32 (value : UInt32) : Encoder Unit :=
  pbWrite [(value &&& 0xFF).toUInt8, (value >>> 8 &&& 0xFF).toUInt8,
    (value >>> 16 &&& 0xFF).toUInt8, (value >>> 24 &&& 0xFF).toUInt8]

def pbEncodeTag (wireType fieldNumber : UInt32) : Encoder Unit :=
  pbEncodeVarint (fieldNumber.toUInt64 <<< 3 ||| wireType.toUInt64)

def pbEncodeString (buffer : List UInt8) : Encoder Unit := do
  pbEncodeVarint (.ofNat buffer.length)
  pbWrite buffer

/-- `pb_enc_string` for an array of `dataSize` characters: the string ends at the
terminator, which has to be among them. -/
def pbEncString (dataSize : Nat) (str : List UInt8) : Encoder Unit :=
  if dataSize = 0 then Encoder.returnError "zero-length string"
  else
    let text := (str.take (dataSize - 1)).takeWhile (· ≠ 0)
    if str[text.length]? ≠ some 0 then Encoder.returnError "unterminated string"
    else pbEncodeString text

/-- What the stream takes over from its substream, if that has this size. -/
def joinSubstream (size : Nat) (stream : Ostream) :
    Option Unit × Ostream → Option Unit × Ostream
  | (status, substream) =>
      let stream := { stream with
        bytesWritten := stream.bytesWritten + substream.bytesWritten
        state := substream.state
        errmsg := substream.errmsg }
      if substream.bytesWritten ≠ size then
        (Encoder.returnError "submsg size changed").run stream
      else (status, stream)

/-- The pass of `pb_encode_submessage` that writes. -/
def secondPass (encode : Encoder Unit) (size : Nat) : Encoder Unit :=
  Encoder.of fun stream =>
    joinSubstream size stream (encode.run ⟨true, stream.state, size, 0, none⟩)

/-- `pb_encode_submessage` behind the pass that counts. -/
def writeSubmessage (encode : Encoder Unit) (size : Nat) : Encoder Unit := do
  pbEncodeVarint (.ofNat size)
  let stream ← Encoder.of fun stream => (some stream, stream)
  if stream.callback = false then count size
  else if stream.maxSize < stream.bytesWritten + size then
    Encoder.returnError "stream full"
  else secondPass encode size

/-- `pb_encode_submessage`, where `encode` is `pb_encode` for its fields. -/
def pbEncodeSubmessage (encode : Encoder Unit) : Encoder Unit :=
  Encoder.of fun stream =>
    match encode.run Ostream.sizing with
    | (none, substream) => (none, { stream with errmsg := substream.errmsg })
    | (some _, substream) =>
        (writeSubmessage encode substream.bytesWritten).run stream

end Wire

end TreeStore
