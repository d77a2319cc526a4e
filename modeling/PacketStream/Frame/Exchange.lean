import PacketStream.Frame.Decode
import PacketStream.Frame.Encode
import PacketStream.Link.Basic

/-!
# Frames over a link

Reading a frame takes exactly its bytes: the length is read a byte at a time, and then as many bytes
as it says. Writing a frame makes no call before the frame is complete.
-/

namespace PacketStream.Framing

/-- Reads on in a varint whose first bytes are `got`. -/
def receiveVarint (bits : Nat) (hbits : 0 < bits) (got : List UInt8) : Exchange Nat := do
  let b ← Exchange.receiveByte
  match h : Varint.decode bits (got ++ [b]) with
  | .error refusal => throw (.malformed (.varint bits refusal))
  | .ok none =>
    have : (got ++ [b]).length < Varint.maxBytes bits :=
      Varint.length_lt_of_decode_eq_none hbits h
    receiveVarint bits hbits (got ++ [b])
  | .ok (some (value, _)) => return value
termination_by Varint.maxBytes bits - got.length
decreasing_by
  rw [List.length_append, List.length_singleton] at this ⊢
  omega

/-- Reads the length in front of a frame. -/
def receiveLength (f : Framing) : Exchange Nat := do
  let value ← receiveVarint varintBits (by decide) []
  Exchange.ofChecked (f.checkLength value.toUInt32.toInt32)

/-- Reads a packet. -/
def receive (f : Framing) : Exchange Message := do
  let contents ← Exchange.receive (← f.receiveLength)
  Exchange.ofChecked (f.decode contents)

/-- Writes a packet. -/
def send (f : Framing) (id : Int32) (payload : Payload) : Exchange Unit := do
  Exchange.send (← Exchange.ofChecked (f.encode id payload))

end PacketStream.Framing
