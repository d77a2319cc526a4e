import PacketStream.Packet.Basic

/-!
# Packets of the status state

A client asks for the server's status, which is a document, and for an echo to measure the delay.
-/

namespace PacketStream

/-- Asks for the server's status. It has no fields. -/
structure StatusRequest where
deriving DecidableEq, Repr

instance : Packet StatusRequest where
  put _ := Put.empty
  get := return {}
  id := 0
  state := .status
  direction := .serverbound

/-- The server's status. -/
structure StatusResponse where
  data : Json
deriving Repr

instance : Packet StatusResponse where
  put p := Packet.putJson p.data
  get := return { data := (← Packet.getJson) }
  id := 0
  state := .status
  direction := .clientbound

/-- Asks for an echo of a number. -/
structure StatusPing where
  payload : Int64
deriving DecidableEq, Repr

instance : Packet StatusPing where
  put p := Put.bigEndian 8 p.payload.toUInt64.toNat
  get := return { payload := (← Get.bigEndian 8).toUInt64.toInt64 }
  id := 1
  state := .status
  direction := .serverbound

/-- The echo of a number. -/
structure StatusPong where
  payload : Int64
deriving DecidableEq, Repr

instance : Packet StatusPong where
  put p := Put.bigEndian 8 p.payload.toUInt64.toNat
  get := return { payload := (← Get.bigEndian 8).toUInt64.toInt64 }
  id := 1
  state := .status
  direction := .clientbound

/-- The answer to a ping. -/
def StatusPong.ofPing (ping : StatusPing) : StatusPong := { payload := ping.payload }

end PacketStream
