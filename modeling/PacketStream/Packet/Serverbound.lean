import PacketStream.Event
import PacketStream.Packet.Handshake
import PacketStream.Packet.Login
import PacketStream.Packet.Status

/-!
# Packets of the client

All packets that a client may send, and how one is read: the state and the id select its type.
-/

namespace PacketStream

/-- A packet that a client sends. -/
inductive Serverbound where
  | handshake (p : Handshake)
  | statusRequest (p : StatusRequest)
  | statusPing (p : StatusPing)
  | loginStart (p : LoginStart)
  | loginEncryptionResponse (p : LoginEncryptionResponse)
  | loginPluginResponse (p : LoginPluginResponse)
deriving DecidableEq, Repr

namespace Serverbound

/-- The id in front of the packet. -/
def id : Serverbound → Int32
  | handshake _ => Packet.id Handshake
  | statusRequest _ => Packet.id StatusRequest
  | statusPing _ => Packet.id StatusPing
  | loginStart _ => Packet.id LoginStart
  | loginEncryptionResponse _ => Packet.id LoginEncryptionResponse
  | loginPluginResponse _ => Packet.id LoginPluginResponse

/-- The state that the packet belongs to. -/
def state : Serverbound → GameState
  | handshake _ => Packet.state Handshake
  | statusRequest _ => Packet.state StatusRequest
  | statusPing _ => Packet.state StatusPing
  | loginStart _ => Packet.state LoginStart
  | loginEncryptionResponse _ => Packet.state LoginEncryptionResponse
  | loginPluginResponse _ => Packet.state LoginPluginResponse

/-- The packet's fields, to be sent behind its id. -/
def payload : Serverbound → Payload
  | handshake p => .ofValue p
  | statusRequest p => .ofValue p
  | statusPing p => .ofValue p
  | loginStart p => .ofValue p
  | loginEncryptionResponse p => .ofValue p
  | loginPluginResponse p => .ofValue p

/-- The reader of the packet with a given state and id, if there is one. -/
def get? (s : GameState) (n : Int32) : Option (Get Serverbound) :=
  Packet.getAs? Handshake .handshake s n
    <|> Packet.getAs? StatusRequest .statusRequest s n
    <|> Packet.getAs? StatusPing .statusPing s n
    <|> Packet.getAs? LoginStart .loginStart s n
    <|> Packet.getAs? LoginEncryptionResponse .loginEncryptionResponse s n
    <|> Packet.getAs? LoginPluginResponse .loginPluginResponse s n

/-- Reads the packet with a given state and id. Where there is none, the cursor stays. -/
def decode (s : GameState) (n : Int32) (b : Buffer) : Traced (Except Fault Serverbound × Buffer) :=
  match get? s n with
  | some g => pure (b.get g)
  | none => do
    Traced.report (.unknownPacket .serverbound n s)
    return (.error (.protocol (.unknownPacket n s)), b)

end Serverbound

end PacketStream
