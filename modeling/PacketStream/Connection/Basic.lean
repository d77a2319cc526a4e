import PacketStream.Frame.Exchange
import PacketStream.Packet.Login

/-!
# Connections

A connection sends and receives packets over a link. It starts without compression; a threshold can
be installed once and stays for the rest of its life.
-/

namespace PacketStream

/-- A link with the framing in force on it. -/
structure Connection where
  link : Link
  framing : Framing := { threshold := none }

namespace Connection

variable {α : Type}

/-- A connection without compression. -/
def new (link : Link) (config : Config := .default) : Connection := { link, framing := { config } }

/-- Uses the connection's link. -/
def use (c : Connection) (x : Exchange α) : Traced (Except Fault α × Connection) := do
  let (a, link) ← x.run c.link
  return (a, { c with link })

/-- Sends a packet under an id. -/
def send (c : Connection) (id : Int32) (payload : Payload) :
    Traced (Except Fault Unit × Connection) := c.use (c.framing.send id payload)

/-- Sends a packet under its own id. -/
def sendPacket [Packet α] (c : Connection) (p : α) : Traced (Except Fault Unit × Connection) :=
  c.send (Packet.id α) (.ofValue p)

/-- Receives a packet. -/
def receive (c : Connection) : Traced (Except Fault Message × Connection) :=
  c.use c.framing.receive

/-- The packet of a type in a message. -/
def expect (α : Type) [Packet α] (m : Message) : Except Fault α :=
  if m.id = Packet.id α then (m.payload.get Wire.get).1
  else .error (.protocol (.unexpectedPacket (Packet.id α) m.id))

/-- Receives a packet that must be of a type. -/
def receivePacket (α : Type) [Packet α] (c : Connection) :
    Traced (Except Fault α × Connection) := do
  let (m, after) ← c.receive
  return (m >>= expect α, after)

/-- Installs a threshold, if none is there yet. -/
def setThreshold (c : Connection) (threshold : UInt32) :
    Traced (Except Fault Unit × Connection) :=
  match c.framing.threshold with
  | some current => return (.error (.protocol (.thresholdInstalled current)), c)
  | none => do
    Traced.report (.compressionOn threshold)
    return (.ok (), { c with framing := { c.framing with threshold := some threshold } })

/-- Does what a packet says about compression. A negative threshold changes nothing. -/
def apply (c : Connection) (p : LoginSetCompression) : Traced (Except Fault Unit × Connection) :=
  match p.installed? with
  | some threshold => c.setThreshold threshold
  | none => do
    Traced.report (.compressionStaysOff p.threshold)
    return (.ok (), c)

end Connection

end PacketStream
