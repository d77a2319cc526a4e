import PacketStream.Packet.Basic

/-!
# Handshake

The first packet of a connection. It names the protocol and the state that follows.
-/

namespace PacketStream

/-- The first packet of a client. -/
structure Handshake where
  protocolVersion : Int32
  serverAddress : String
  serverPort : UInt16
  nextState : NextState
deriving DecidableEq, Repr

namespace Handshake

def put (p : Handshake) : Put :=
  Put.varint p.protocolVersion ++ Put.text p.serverAddress
    ++ Put.bigEndian 2 p.serverPort.toNat ++ Put.varint p.nextState.toInt32

def get : Get Handshake := do
  let protocolVersion ← Get.varint
  let serverAddress ← Get.text
  let serverPort := (← Get.bigEndian 2).toUInt16
  let offset ← Get.position
  let number ← Get.varint
  match NextState.ofInt32? number with
  | some nextState => return { protocolVersion, serverAddress, serverPort, nextState }
  | none => Get.malformed (.unknownNextState number.toInt offset)

def validate (p : Handshake) : Except ValidationFault Unit :=
  Packet.checkLength "server_address" p.serverAddress Limits.serverAddressLength

instance : Packet Handshake where
  put := put
  get := get
  validate := validate
  id := 0
  state := .handshaking
  direction := .serverbound

/-- A valid handshake with the given fields. -/
def new (protocolVersion : Int32) (serverAddress : String) (serverPort : UInt16)
    (nextState : NextState) : Except ValidationFault Handshake := do
  let p : Handshake := { protocolVersion, serverAddress, serverPort, nextState }
  p.validate
  return p

end Handshake

end PacketStream
