import PacketStream.Protocol
import PacketStream.Varint
import PacketStream.Text.Utf8

/-!
# Faults

Everything that can go wrong while packets are encoded, decoded, framed or moved, as causes. The
wording of each is in the `message` functions and nowhere else.

A fault is *fatal* when it leaves the framing of the connection in doubt: a broken compressed
stream, a size beyond its limit, an end of the stream, or a failed transfer. The other faults
concern one packet only.
-/

namespace PacketStream

/-- A packet id in hexadecimal, with two digits at least. Negative ids show their two's
complement. -/
def hexId (id : Int32) : String :=
  let digits := Nat.toDigits 16 id.toUInt32.toNat
  "0x" ++ String.ofList (if digits.length < 2 then '0' :: digits else digits)

/-- A byte in hexadecimal, as two capital digits. -/
def hexByte (b : UInt8) : String :=
  "0x" ++ String.ofList ([b.toNat / 16, b.toNat % 16].map fun d => (Nat.digitChar d).toUpper)

/-- A field of a value that breaks its rule. -/
inductive ValidationFault where
  | outOfRange (field : String) (value min max : Int)
  | tooLong (field : String) (length max : Nat)
  | invalid (field reason : String)
deriving DecidableEq, Repr

/-- Why bytes are no encoding of what they should be. -/
inductive Malformation where
  | varint (bits : Nat) (refusal : Varint.Refusal)
  | boolean (byte : UInt8) (offset : Nat)
  | negativeTextLength (length : Int) (offset : Nat)
  | textOverBudget (length : Int) (budget : Nat)
  | utf8 (offset : Nat) (refusal : Utf8.Refusal)
  | tooManyCharacters (offset length max : Nat)
  | notAscii (offset : Nat)
  | negativeArrayLength (length : Int) (offset : Nat)
  | negativeWordCount (count : Int) (offset : Nat)
  | unknownNextState (value : Int) (offset : Nat)
  | notJson
  | negativeFrameLength (length : Int)
  | frameTooLong (length limit : Nat)
  /-- A frame of `length` bytes ends inside one of its header fields. -/
  | frameEndsInside (field : String) (length offset available : Nat)
  | negativeDataLength (length : Int)
  | inflatedLength (actual declared : Nat)
  | negativePacketId (id : Int)
  /-- A cause in the words of the caller. -/
  | other (text : String)
deriving DecidableEq, Repr

/-- Why a compressed stream could not be read. -/
inductive Decompression where
  /-- The data end before the stream does. -/
  | incomplete
  | corrupt
  /-- A cause in the words of the caller. -/
  | other (text : String)
deriving DecidableEq, Repr

/-- Why a packet is out of place. -/
inductive ProtocolFault where
  | unknownPacket (id : Int32) (state : GameState)
  | unexpectedPacket (expected received : Int32)
  | thresholdInstalled (current : UInt32)
  /-- A cause in the words of the caller. -/
  | other (text : String)
deriving DecidableEq, Repr

/-- Why a transfer failed. -/
inductive TransferFault where
  | interrupted
  /-- A blocking writer had a write of no bytes. -/
  | bufferNotWritten
  /-- A cooperative writer had a write of no bytes. -/
  | writeZero
  /-- A framed link had a write of no bytes. -/
  | frameNotWritten
  /-- The input ended inside a frame. -/
  | bytesRemaining
  | notFound
  | isDirectory
  | notUtf8
  /-- A cause in the words of the transport. -/
  | other (text : String)
deriving DecidableEq, Repr

/-- Which rule a configuration breaks. -/
inductive ConfigFault where
  | noTextLength
  | noFrameLength
  | frameLengthTooLarge
  | noUncompressedLength
  | badLevel
  /-- A cause in the words of the caller. -/
  | other (text : String)
deriving DecidableEq, Repr

/-- What went wrong. -/
inductive Fault where
  /-- A read asked for more bytes than are there. -/
  | insufficientData (offset requested available : Nat)
  | malformed (cause : Malformation)
  | decompression (cause : Decompression)
  | sizeLimit (limit actual : Nat)
  /-- The stream ended inside a read. -/
  | connectionClosed (received expected : Nat)
  | validation (cause : ValidationFault)
  | protocol (cause : ProtocolFault)
  | transfer (cause : TransferFault)
  | config (cause : ConfigFault)
deriving DecidableEq, Repr

def ValidationFault.message : ValidationFault → String
  | outOfRange field value min max => s!"{field} out of range: {value} not within {min}..={max}"
  | tooLong field length max => s!"{field} too long: {length} exceeds maximum of {max}"
  | invalid field reason => s!"Invalid {field}: {reason}"

def Malformation.message : Malformation → String
  | varint bits .outOfRange => s!"Received varint was outside the range of a {bits}-bit integer"
  | varint bits .tooLong =>
    let max := Varint.maxBytes bits
    s!"Varint continues past {max} bytes allowed for a {bits}-bit integer"
  | boolean byte offset => "Invalid boolean byte " ++ hexByte byte ++ s!" at offset {offset}"
  | negativeTextLength length offset => s!"Negative string length {length} at offset {offset}"
  | textOverBudget length budget => s!"String length {length} exceeds maximum of {budget} bytes"
  | utf8 offset refusal =>
    let cause := refusal.message
    s!"Invalid UTF-8 in string at offset {offset}: {cause}"
  | tooManyCharacters offset length max =>
    s!"String at offset {offset} holds {length} characters, maximum is {max}"
  | notAscii offset => s!"Non-ASCII byte in string at offset {offset}"
  | negativeArrayLength length offset => s!"Negative byte array length {length} at offset {offset}"
  | negativeWordCount count offset => s!"Negative bitset word count {count} at offset {offset}"
  | unknownNextState value offset => s!"Unknown next state {value} at offset {offset}"
  | notJson => "Invalid JSON payload"
  | negativeFrameLength length => s!"Negative frame length {length}"
  | frameTooLong length limit => s!"Frame length {length} exceeds limit of {limit} bytes"
  | frameEndsInside field length offset available =>
    s!"Frame of {length} bytes ends inside the {field} at offset {offset} "
      ++ s!"({available} bytes left)"
  | negativeDataLength length => s!"Negative data length {length}"
  | inflatedLength actual declared =>
    s!"Decompressed {actual} bytes but frame declared {declared}"
  | negativePacketId id => s!"Negative packet id {id}"
  | other text => text

def Decompression.message : Decompression → String
  | incomplete => "incomplete deflate stream"
  | corrupt => "corrupt deflate stream"
  | other text => text

def ProtocolFault.message : ProtocolFault → String
  | unknownPacket id state => "Unknown packet id " ++ hexId id ++ " in state " ++ state.text
  | unexpectedPacket expected received =>
    "Expected packet " ++ hexId expected ++ " but received " ++ hexId received
  | thresholdInstalled current => s!"Compression threshold already set to {current}"
  | other text => text

def TransferFault.message : TransferFault → String
  | interrupted => "operation interrupted"
  | bufferNotWritten => "failed to write whole buffer"
  | writeZero => "write zero"
  | frameNotWritten => "failed to write frame to transport"
  | bytesRemaining => "bytes remaining on stream"
  | notFound => "No such file or directory (os error 2)"
  | isDirectory => "Is a directory (os error 21)"
  | notUtf8 => "stream did not contain valid UTF-8"
  | other text => text

def ConfigFault.message : ConfigFault → String
  | noTextLength => "max_string_length must be > 0"
  | noFrameLength => "max_frame_length must be > 0"
  | frameLengthTooLarge =>
    let max := Limits.prefixedLength
    s!"max_frame_length must be <= {max}"
  | noUncompressedLength => "max_uncompressed_length must be > 0"
  | badLevel => "compression_level must be 0-9"
  | other text => text

namespace Fault

def message : Fault → String
  | insufficientData offset requested available =>
    s!"Insufficient data at offset {offset}: requested {requested} bytes, {available} available"
  | malformed cause => "Malformed input: " ++ cause.message
  | decompression cause => "Decompression error: " ++ cause.message
  | sizeLimit limit actual => s!"Size limit exceeded: {actual} bytes exceeds limit of {limit}"
  | connectionClosed received expected =>
    s!"Connection closed: received {received} of {expected} bytes"
  | validation cause => "Validation error: " ++ cause.message
  | protocol cause => "Protocol error: " ++ cause.message
  | transfer cause => "IO error: " ++ cause.message
  | config cause => "Configuration error: " ++ cause.message

/-- Whether the fault leaves the framing of the connection in doubt. -/
def isFatal : Fault → Bool
  | decompression _ | sizeLimit .. | connectionClosed .. | transfer _ => true
  | _ => false

end Fault

end PacketStream
