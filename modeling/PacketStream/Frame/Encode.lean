import PacketStream.Frame.Basic
import PacketStream.Packet.Basic

/-!
# Writing frames

`contents` says what a frame holds for a body: without a threshold the body alone; below the
threshold a zero and the body; from the threshold on the body's length and the compressed body.
`wrap` puts the length in front of it. `encode` starts from a packet and writes nothing unless the
packet is valid.
-/

namespace PacketStream.Framing

/-- What a frame holds. -/
structure Contents where
  /-- The length of the body before compression, zero for a body that is not compressed. It is
  absent where compression is off. -/
  dataLength : Option Nat
  /-- The body, compressed or not. -/
  data : List UInt8

namespace Contents

/-- The contents as bytes. -/
def bytes (c : Contents) : List UInt8 :=
  match c.dataLength with
  | none => c.data
  | some n => Varint.encode n ++ c.data

/-- The number of bytes of the contents. -/
def length (c : Contents) : Nat :=
  match c.dataLength with
  | none => c.data.length
  | some n => c.data.length + Varint.length n

/-- Whether the body is compressed. -/
def isCompressed (c : Contents) : Bool := c.dataLength.any (0 < ·)

theorem length_bytes (c : Contents) : c.bytes.length = c.length := by
  obtain ⟨dataLength, data⟩ := c
  cases dataLength with
  | none => rfl
  | some n => simp [bytes, length, Nat.add_comm]

end Contents

/-- The contents of the frame for a body. -/
def contents (f : Framing) (body : List UInt8) : Contents :=
  match f.threshold with
  | none => { dataLength := none, data := body }
  | some threshold =>
    if body.length < threshold.toNat then { dataLength := some 0, data := body }
    else
      { dataLength := some body.length, data := Compression.compress f.config.level body }

/-- The frame for a body, unless it is too long. -/
def wrap (f : Framing) (body : List UInt8) : Checked (List UInt8) := do
  let c := f.contents body
  if f.config.frameLength < c.length then do
    Checked.report (.outboundTooLong c.length f.config.frameLength)
    throw (.sizeLimit f.config.frameLength c.length)
  else do
    let frame := Varint.encode c.length ++ c.bytes
    Checked.report (.framed body.length frame.length c.isCompressed)
    return frame

/-- Checks the id of a packet that is to be sent. -/
def checkId (id : Int32) : Except Fault Unit :=
  if id < 0 then
    .error (.validation (.outOfRange "packet_id" id.toInt 0 Int32.maxValue.toInt))
  else .ok ()

/-- The body of a packet, if the packet is valid. -/
def body (f : Framing) (id : Int32) (payload : Payload) : Except Fault (List UInt8) := do
  checkId id
  payload.validity.mapError Fault.validation
  (Put.varint id ++ payload.put).run f.config.textLength

/-- The frame of a packet, if the packet is valid and its frame is not too long. -/
def encode (f : Framing) (id : Int32) (payload : Payload) : Checked (List UInt8) := do
  f.wrap (← Checked.ofExcept (f.body id payload))

/-- The frame of a message: its id and the unread part of its payload. -/
def encodeMessage (f : Framing) (m : Message) : Checked (List UInt8) := do
  Checked.ofExcept (checkId m.id)
  f.wrap (Varint.encode m.id.toUInt32.toNat ++ m.payload.unread)

end PacketStream.Framing
