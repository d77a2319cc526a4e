import PacketStream.BigEndian
import PacketStream.Buffer.Basic
import PacketStream.Fault

/-!
# Reading

A `Get α` reads a value from a buffer and moves the cursor. A read that fails leaves the cursor
where its last part put it; `restoring` puts it back to where it stood before all parts. The reads
of single values in this file all fail without moving the cursor, except `optional`, which has read
the presence flag by the time its value fails.
-/

namespace PacketStream

/-- A read of a value, which may fail and moves the cursor. -/
abbrev Get (α : Type) := ExceptT Fault (StateM Buffer) α

namespace Get

variable {α : Type}

/-- A fault about the bytes that are there. -/
def malformed (cause : Malformation) : Get α := throw (.malformed cause)

/-- Where the cursor stands. -/
def position : Get Nat := return (← get).position

/-- The limit for strings. -/
def textLimit : Get Nat := return (← get).textLimit

/-- The same read, which puts the cursor back if it fails. -/
def restoring (g : Get α) : Get α := fun b =>
  match g b with
  | (.ok a, after) => (.ok a, after)
  | (.error e, _) => (.error e, b)

/-- The next `n` bytes. -/
def take (n : Nat) : Get (List UInt8) := fun b =>
  if b.remaining < n then (.error (.insufficientData b.position n b.remaining), b)
  else (.ok (b.unread.take n), b.advance n)

/-- All bytes that are left. -/
def rest : Get (List UInt8) := fun b => (.ok b.unread, b.advance b.remaining)

/-- A number of `width` bytes, most significant first. -/
def bigEndian (width : Nat) : Get Nat := return BigEndian.decode (← take width)

/-- One byte. -/
def byte : Get UInt8 := return (← bigEndian 1).toUInt8

/-- A flag: a byte that is 0 or 1. -/
def bool : Get Bool := restoring do
  let offset ← position
  let b ← byte
  if b = 0 then return false
  else if b = 1 then return true
  else malformed (.boolean b offset)

/-- A varint of at most `bits` bits. Where the bytes end inside it, one more is asked for. -/
def varuint (bits : Nat) : Get UInt64 := fun b =>
  match Varint.decode bits b.unread with
  | .error refusal => (.error (.malformed (.varint bits refusal)), b)
  | .ok none => (.error (.insufficientData b.position (b.remaining + 1) b.remaining), b)
  | .ok (some (value, size)) => (.ok value.toUInt64, b.advance size)

/-- A varint that holds the two's complement of a 16-bit number. -/
def varshort : Get Int16 := return (← varuint 16).toUInt16.toInt16

/-- A varint that holds the two's complement of a 32-bit number. -/
def varint : Get Int32 := return (← varuint 32).toUInt32.toInt32

/-- A varint that holds the two's complement of a 64-bit number. -/
def varlong : Get Int64 := return (← varuint 64).toInt64

/-- A string of UTF-8 behind the number of its bytes. A character takes four bytes at most, so a
length above four times the limit is refused before its bytes are looked at. -/
def text : Get String := restoring do
  let offset ← position
  let length := (← varint).toInt
  let limit ← textLimit
  if length < 0 then malformed (.negativeTextLength length offset)
  else if 4 * limit < length.toNat then malformed (.textOverBudget length (4 * limit))
  else
    match Utf8.decode (← take length.toNat) with
    | .error refusal => malformed (.utf8 offset refusal)
    | .ok s =>
      if limit < s.length then malformed (.tooManyCharacters offset s.length limit)
      else return s

/-- An ASCII string that ends with a zero byte. -/
def ascii : Get String := fun b =>
  let chars := b.unread.takeWhile (· != 0)
  if chars.length = b.remaining then
    (.error (.insufficientData b.position (b.remaining + 1) b.remaining), b)
  else if chars.all (· < 128) then
    (.ok (String.ofList (chars.map fun c => Char.ofNat c.toNat)), b.advance (chars.length + 1))
  else (.error (.malformed (.notAscii b.position)), b)

/-- Bytes behind their number. -/
def byteArray : Get (List UInt8) := restoring do
  let offset ← position
  let length := (← varint).toInt
  if length < 0 then malformed (.negativeArrayLength length offset)
  else take length.toNat

/-- A presence flag and, where it is set, a value. -/
def optional (value : Get α) : Get (Option α) := do
  if (← bool) then return some (← value)
  else return none

end Get

/-- Reads a value and moves the cursor. -/
def Buffer.get {α : Type} (b : Buffer) (g : Get α) : Except Fault α × Buffer := g.run b

end PacketStream
