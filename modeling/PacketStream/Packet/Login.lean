import PacketStream.Packet.Basic

/-!
# Packets of the login state

A client gives its name; the server may ask for encryption, switch compression on and ask questions
of its own before it accepts the player or turns the client away.
-/

namespace PacketStream

/-- A number of 128 bits that identifies a player. -/
structure Uuid where
  high : UInt64
  low : UInt64
deriving DecidableEq, Repr

/-- The identifier as a number. -/
def Uuid.toNat (u : Uuid) : Nat := UInt64.size * u.high.toNat + u.low.toNat

/-- The identifier with the low 128 bits of a number. -/
def Uuid.ofNat (n : Nat) : Uuid := { high := (n / UInt64.size).toUInt64, low := n.toUInt64 }

/-- The client's name, with which a login starts. -/
structure LoginStart where
  username : String
deriving DecidableEq, Repr

namespace LoginStart

def validate (p : LoginStart) : Except ValidationFault Unit :=
  Packet.checkLength "username" p.username Limits.usernameLength

instance : Packet LoginStart where
  put p := Put.text p.username
  get := return { username := (← Get.text) }
  validate := validate
  id := 0
  state := .login
  direction := .serverbound

/-- A valid packet with the given name. -/
def new (username : String) : Except ValidationFault LoginStart := do
  let p : LoginStart := { username }
  p.validate
  return p

end LoginStart

/-- Turns the client away. The reason is a document. -/
structure LoginDisconnect where
  reason : Json
deriving Repr

instance : Packet LoginDisconnect where
  put p := Packet.putJson p.reason
  get := return { reason := (← Packet.getJson) }
  id := 0
  state := .login
  direction := .clientbound

/-- Starts encryption. -/
structure LoginEncryptionRequest where
  serverId : String
  publicKey : List UInt8
  verifyToken : List UInt8
deriving DecidableEq, Repr

instance : Packet LoginEncryptionRequest where
  put p := Put.text p.serverId ++ Put.byteArray p.publicKey ++ Put.byteArray p.verifyToken
  get := return {
    serverId := (← Get.text)
    publicKey := (← Get.byteArray)
    verifyToken := (← Get.byteArray) }
  validate p := Packet.checkLength "server_id" p.serverId Limits.serverIdLength
  id := 1
  state := .login
  direction := .clientbound

/-- The client's secret and the token it was sent, both encrypted. -/
structure LoginEncryptionResponse where
  sharedSecret : List UInt8
  verifyToken : List UInt8
deriving DecidableEq, Repr

instance : Packet LoginEncryptionResponse where
  put p := Put.byteArray p.sharedSecret ++ Put.byteArray p.verifyToken
  get := return { sharedSecret := (← Get.byteArray), verifyToken := (← Get.byteArray) }
  id := 1
  state := .login
  direction := .serverbound

/-- Accepts the player. -/
structure LoginSuccess where
  uuid : Uuid
  username : String
deriving DecidableEq, Repr

namespace LoginSuccess

def put (p : LoginSuccess) : Put :=
  Put.bigEndian 8 p.uuid.high.toNat ++ Put.bigEndian 8 p.uuid.low.toNat ++ Put.text p.username

def get : Get LoginSuccess := do
  let high := (← Get.bigEndian 8).toUInt64
  let low := (← Get.bigEndian 8).toUInt64
  return { uuid := { high, low }, username := (← Get.text) }

instance : Packet LoginSuccess where
  put := put
  get := get
  validate p := Packet.checkLength "username" p.username Limits.usernameLength
  id := 2
  state := .login
  direction := .clientbound

end LoginSuccess

/-- Switches compression on, or leaves it off where the threshold is negative. -/
structure LoginSetCompression where
  threshold : Int32
deriving DecidableEq, Repr

instance : Packet LoginSetCompression where
  put p := Put.varint p.threshold
  get := return { threshold := (← Get.varint) }
  id := 3
  state := .login
  direction := .clientbound

/-- The threshold to install, if compression is to be switched on. -/
def LoginSetCompression.installed? (p : LoginSetCompression) : Option UInt32 :=
  if 0 ≤ p.threshold then some p.threshold.toUInt32 else none

/-- A question on a named channel. The data run to the end of the packet. -/
structure LoginPluginRequest where
  messageId : Int32
  channel : String
  data : List UInt8
deriving DecidableEq, Repr

instance : Packet LoginPluginRequest where
  put p := Put.varint p.messageId ++ Put.text p.channel ++ Put.raw p.data
  get := return { messageId := (← Get.varint), channel := (← Get.text), data := (← Get.rest) }
  id := 4
  state := .login
  direction := .clientbound

/-- The answer to a question on a channel, without data where the client did not understand it. The
data run to the end of the packet. -/
structure LoginPluginResponse where
  messageId : Int32
  data : Option (List UInt8)
deriving DecidableEq, Repr

instance : Packet LoginPluginResponse where
  put p := Put.varint p.messageId ++ Put.optional Put.raw p.data
  get := return { messageId := (← Get.varint), data := (← Get.optional Get.rest) }
  id := 2
  state := .login
  direction := .serverbound

end PacketStream
