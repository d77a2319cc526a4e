/-!
# What both peers agree on

The sizes that both peers keep to, and the states of a connection. Lengths of strings are counted in
characters, all others in bytes.

A packet id has a meaning only within a connection state and a direction. A client starts in
`handshaking` and names the state that follows in its first packet.
-/

namespace PacketStream

/-! ## Limits -/

namespace Limits

/-- The protocol version whose packet shapes this library implements. -/
def protocolVersion : Int32 := 757

/-- The largest frame length that a varint of three bytes can describe. -/
def frameLength : Nat := 2097151

/-- The largest packet body, before compression, that is accepted from a peer. -/
def uncompressedLength : Nat := 8388608

/-- The longest string accepted when nothing else is configured. -/
def textLength : Nat := 32767

/-- The longest server address of a handshake. -/
def serverAddressLength : Nat := 255

/-- The longest player name. -/
def usernameLength : Nat := 16

/-- The longest server id of an encryption request. -/
def serverIdLength : Nat := 20

/-- The compression level used when nothing else is configured. -/
def compressionLevel : Nat := 6

/-- The largest length that a signed 32-bit prefix can carry. -/
def prefixedLength : Nat := 2147483647

end Limits

/-! ## States -/

/-- The state of a connection, which selects the table of packet ids. -/
inductive GameState where
  | handshaking
  | status
  | login
  | play
deriving DecidableEq, Repr

/-- The peer that a packet travels towards. -/
inductive Direction where
  | serverbound
  | clientbound
deriving DecidableEq, Repr

/-- The state that a client asks for in its handshake. -/
inductive NextState where
  | status
  | login
deriving DecidableEq, Repr

namespace GameState

/-- The number of the state on the wire. -/
def toInt32 : GameState → Int32
  | handshaking => 0
  | status => 1
  | login => 2
  | play => 3

/-- The state with the given number. -/
def ofInt32? (n : Int32) : Option GameState :=
  if n = 0 then some handshaking
  else if n = 1 then some status
  else if n = 2 then some login
  else if n = 3 then some play
  else none

/-- The state's name in messages. -/
def text : GameState → String
  | handshaking => "handshaking"
  | status => "status"
  | login => "login"
  | play => "play"

/-- The state's name as a tag of a document. -/
def tag : GameState → String
  | handshaking => "Handshaking"
  | status => "Status"
  | login => "Login"
  | play => "Play"

/-- Every state, in the order of its number. -/
def all : List GameState := [handshaking, status, login, play]

theorem ofInt32?_toInt32 (s : GameState) : ofInt32? s.toInt32 = some s := by
  cases s <;> decide

end GameState

namespace Direction

/-- The direction's name as a tag of a document. -/
def tag : Direction → String
  | serverbound => "Serverbound"
  | clientbound => "Clientbound"

/-- Both directions. -/
def all : List Direction := [serverbound, clientbound]

end Direction

namespace NextState

/-- The number of the requested state on the wire. -/
def toInt32 : NextState → Int32
  | status => 1
  | login => 2

/-- The requested state with the given number. -/
def ofInt32? (n : Int32) : Option NextState :=
  if n = 1 then some status
  else if n = 2 then some login
  else none

/-- The connection state that a request leads to. -/
def toGameState : NextState → GameState
  | status => .status
  | login => .login

/-- The requested state's name as a tag of a document. -/
def tag : NextState → String
  | status => "Status"
  | login => "Login"

/-- Both states that can be asked for. -/
def all : List NextState := [status, login]

theorem ofInt32?_toInt32 (s : NextState) : ofInt32? s.toInt32 = some s := by
  cases s <;> decide

end NextState

end PacketStream
