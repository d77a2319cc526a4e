import PacketStream.Json.Parser
import PacketStream.Json.Printer
import PacketStream.Wire

/-!
# Packet types

A packet type has an encoding and a place in the protocol: an id, the state in which the id stands
for it, and the direction in which it travels. Its fields are written in the order of their
declaration.

Reading does not validate; the `new` of a type does, and so does framing before anything is sent.
-/

namespace PacketStream

/-- Types of packets. -/
class Packet (α : Type) extends Wire α where
  id : Int32
  state : GameState
  direction : Direction

/-- What is sent in a packet: an encoding, and whether what it encodes is valid. -/
structure Payload where
  put : Put
  validity : Except ValidationFault Unit := .ok ()

namespace Payload

/-- The payload that holds a value. -/
def ofValue {α : Type} [Wire α] (v : α) : Payload :=
  { put := Wire.put v, validity := Wire.validate v }

/-- The payload that holds just the bytes. -/
def ofBytes (bytes : List UInt8) : Payload := { put := Put.raw bytes }

end Payload

namespace Packet

/-- The reader of a packet type, where state and id are those of the type. -/
def getAs? (α : Type) [Packet α] {β : Type} (wrap : α → β) (s : GameState) (n : Int32) :
    Option (Get β) :=
  if s = state α ∧ n = id α then some (return wrap (← Wire.get)) else none

/-- Checks the length of a field in characters. -/
def checkLength (field : String) (v : String) (max : Nat) : Except ValidationFault Unit :=
  if max < v.length then .error (.tooLong field v.length max) else .ok ()

/-- Writes a document as a string. -/
def putJson (v : Json) : Put := Put.text v.text

/-- Reads a string that holds a document. A string that holds none has been read when that is
found out. -/
def getJson : Get Json := do
  match Json.ofText? (← Get.text) with
  | some v => return v
  | none => Get.malformed .notJson

end Packet

end PacketStream
