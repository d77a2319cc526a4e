import PacketStream.Event
import PacketStream.Packet.Login
import PacketStream.Packet.Status

/-!
# Packets of the server

All packets that a server may send, and how one is read: the state and the id select its type.
-/

namespace PacketStream

/-- A packet that a server sends. -/
inductive Clientbound where
  | statusResponse (p : StatusResponse)
  | statusPong (p : StatusPong)
  | loginDisconnect (p : LoginDisconnect)
  | loginEncryptionRequest (p : LoginEncryptionRequest)
  | loginSuccess (p : LoginSuccess)
  | loginSetCompression (p : LoginSetCompression)
  | loginPluginRequest (p : LoginPluginRequest)
deriving Repr

namespace Clientbound

/-- The id in front of the packet. -/
def id : Clientbound → Int32
  | statusResponse _ => Packet.id StatusResponse
  | statusPong _ => Packet.id StatusPong
  | loginDisconnect _ => Packet.id LoginDisconnect
  | loginEncryptionRequest _ => Packet.id LoginEncryptionRequest
  | loginSuccess _ => Packet.id LoginSuccess
  | loginSetCompression _ => Packet.id LoginSetCompression
  | loginPluginRequest _ => Packet.id LoginPluginRequest

/-- The state that the packet belongs to. -/
def state : Clientbound → GameState
  | statusResponse _ => Packet.state StatusResponse
  | statusPong _ => Packet.state StatusPong
  | loginDisconnect _ => Packet.state LoginDisconnect
  | loginEncryptionRequest _ => Packet.state LoginEncryptionRequest
  | loginSuccess _ => Packet.state LoginSuccess
  | loginSetCompression _ => Packet.state LoginSetCompression
  | loginPluginRequest _ => Packet.state LoginPluginRequest

/-- The packet's fields, to be sent behind its id. -/
def payload : Clientbound → Payload
  | statusResponse p => .ofValue p
  | statusPong p => .ofValue p
  | loginDisconnect p => .ofValue p
  | loginEncryptionRequest p => .ofValue p
  | loginSuccess p => .ofValue p
  | loginSetCompression p => .ofValue p
  | loginPluginRequest p => .ofValue p

/-- The reader of the packet with a given state and id, if there is one. -/
def get? (s : GameState) (n : Int32) : Option (Get Clientbound) :=
  Packet.getAs? StatusResponse .statusResponse s n
    <|> Packet.getAs? StatusPong .statusPong s n
    <|> Packet.getAs? LoginDisconnect .loginDisconnect s n
    <|> Packet.getAs? LoginEncryptionRequest .loginEncryptionRequest s n
    <|> Packet.getAs? LoginSuccess .loginSuccess s n
    <|> Packet.getAs? LoginSetCompression .loginSetCompression s n
    <|> Packet.getAs? LoginPluginRequest .loginPluginRequest s n

/-- Reads the packet with a given state and id. Where there is none, the cursor stays. -/
def decode (s : GameState) (n : Int32) (b : Buffer) : Traced (Except Fault Clientbound × Buffer) :=
  match get? s n with
  | some g => pure (b.get g)
  | none => do
    Traced.report (.unknownPacket .clientbound n s)
    return (.error (.protocol (.unknownPacket n s)), b)

end Clientbound

end PacketStream
