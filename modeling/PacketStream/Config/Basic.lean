import PacketStream.Event

/-!
# Configuration

The limits under which frames are written and read. `validate` says which limits can be used at
all: with them, no length that a frame may announce leaves the range of its prefix.
-/

namespace PacketStream

/-- Limits, and the level at which bodies are compressed. -/
structure Config where
  /-- The longest string, in characters. -/
  textLength : Nat := Limits.textLength
  /-- The longest frame, without its length prefix. -/
  frameLength : Nat := Limits.frameLength
  /-- The longest packet body before compression that is accepted from a peer. -/
  uncompressedLength : Nat := Limits.uncompressedLength
  level : Nat := Limits.compressionLevel
deriving DecidableEq, Repr

namespace Config

/-- The configuration where nothing is configured. -/
def default : Config := { textLength := Limits.textLength }

instance : Inhabited Config := ⟨default⟩

/-- The first rule that a configuration breaks. -/
def broken? (c : Config) : Option ConfigFault :=
  if c.textLength = 0 then some .noTextLength
  else if c.frameLength = 0 then some .noFrameLength
  else if Limits.prefixedLength < c.frameLength then some .frameLengthTooLarge
  else if c.uncompressedLength = 0 then some .noUncompressedLength
  else if 9 < c.level then some .badLevel
  else none

/-- Checks that the limits can be used. -/
def validate (c : Config) : Except Fault Unit :=
  match c.broken? with
  | some cause => .error (.config cause)
  | none => .ok ()

/-- Reports the configuration. -/
def announce (c : Config) : Traced Unit := do
  Traced.report .configShown
  Traced.report (.textLengthShown c.textLength)
  Traced.report (.frameLengthShown c.frameLength)
  Traced.report (.uncompressedLengthShown c.uncompressedLength)
  Traced.report (.levelShown c.level)

end Config

end PacketStream
