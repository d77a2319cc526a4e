import PacketStream.Buffer.Get
import PacketStream.Config.Basic
import PacketStream.Event
import PacketStream.Zlib.Deflate

/-!
# Frames and the compression of bodies

A packet travels in a frame: the length of its contents as a varint, then the contents. The contents
are the body, which is the packet's id and payload; where compression is on, they are a data length
and the body, compressed if the data length is not zero.

A `Framing` is what both peers have to agree on to understand each other's frames.

Each body is compressed on its own; nothing is carried from one to the next. Decompressing takes a
limit, so that a small body cannot expand beyond what its reader is prepared for: one byte more than
the limit allows is read at most, by which a body that is too long is found out.
-/

namespace PacketStream

/-! ## Compression -/

namespace Compression

/-- The largest compression level. Levels above it count as it. -/
def maxLevel : Nat := 9

/-- Compresses data at a level. -/
def compress (level : Nat) (data : List UInt8) : List UInt8 :=
  Zlib.deflate (min level maxLevel) data

/-- What a body is charged with whose stream was stopped. -/
def cause : Zlib.Stop → Decompression
  | .incomplete => .incomplete
  | .corrupt => .corrupt

/-- What is read of compressed data under a limit. -/
def inflated (limit : Nat) (data : List UInt8) : Zlib.Reader.Collected :=
  (Zlib.Reader.ofBytes data).collect (limit + 1)

/-- Decompresses data, of which there may be at most `limit` bytes. -/
def decompress (limit : Nat) (data : List UInt8) : Checked (List UInt8) :=
  let read := inflated limit data
  match read.stop? with
  | some why => throw (.decompression (cause why))
  | none =>
    if limit < read.bytes.length then do
      Checked.report (.inflatedTooLong limit data.length)
      throw (.sizeLimit limit read.bytes.length)
    else return read.bytes

end Compression

/-! ## Framing -/

/-- The limits for frames, and the size from which bodies are compressed, if they are at all. -/
structure Framing where
  config : Config := .default
  threshold : Option UInt32 := none
deriving DecidableEq, Repr

/-- A packet from a frame: its id, and a buffer whose cursor stands at its payload. -/
structure Message where
  id : Int32
  payload : Buffer
deriving DecidableEq, Repr

namespace Framing

/-- The width of the varints in front of a frame and in it. -/
def varintBits : Nat := 32

/-- The length of a frame's contents that a peer announces, if it is acceptable. It is checked
before any of the contents is waited for. -/
def checkLength (f : Framing) (length : Int32) : Checked Nat :=
  let n := length.toInt.toNat
  if length < 0 then throw (.malformed (.negativeFrameLength length.toInt))
  else if f.config.frameLength < n then do
    Checked.report (.inboundTooLong n f.config.frameLength)
    throw (.malformed (.frameTooLong n f.config.frameLength))
  else return n

end Framing

end PacketStream
