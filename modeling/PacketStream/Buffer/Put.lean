import PacketStream.BigEndian
import PacketStream.Buffer.Basic
import PacketStream.Fault

/-!
# Writing

A `Put` is a piece of an encoding: under a limit for strings it yields bytes and may end in a fault.
What it yielded before a fault stays written. Pieces are joined by `++`; after a fault nothing
more is written.

A `Put` can only append, so writing never moves the cursor or changes a byte.
-/

namespace PacketStream

/-- The bytes that a piece appends and the fault that ended it, if one did. -/
structure Written where
  bytes : List UInt8
  fault : Option Fault := none
deriving DecidableEq, Repr

/-- A piece of an encoding, under a limit for strings. -/
def Put := (textLimit : Nat) → Written

namespace Put

/-- Appends nothing. -/
def empty : Put := fun _ => { bytes := [] }

/-- One piece after the other, unless the first ends in a fault. -/
def andThen (p q : Put) : Put := fun limit =>
  match p limit with
  | { bytes, fault := some e } => { bytes, fault := some e }
  | { bytes, fault := none } => { q limit with bytes := bytes ++ (q limit).bytes }

instance : Append Put := ⟨andThen⟩

instance : Inhabited Put := ⟨empty⟩

/-- Appends nothing and ends in a fault. -/
def fail (e : Fault) : Put := fun _ => { bytes := [], fault := some e }

/-- Appends the bytes as they are. -/
def raw (bytes : List UInt8) : Put := fun _ => { bytes }

/-- Appends `width` bytes of a number, most significant first. -/
def bigEndian (width n : Nat) : Put := raw (BigEndian.encode width n)

/-- Appends a flag as one byte. -/
def bool (v : Bool) : Put := raw [if v then 1 else 0]

/-- Appends a varint, whatever its size. -/
def varnat (n : Nat) : Put := raw (Varint.encode n)

/-- Appends a varint that must fit `bits` bits. -/
def varuint (bits : Nat) (v : UInt64) : Put :=
  if bits < 64 ∧ 2 ^ bits ≤ v.toNat then
    fail (.validation (.outOfRange "varuint" v.toNat 0 (2 ^ bits - 1)))
  else varnat v.toNat

/-- Appends the two's complement of a 16-bit number as a varint. -/
def varshort (v : Int16) : Put := varnat v.toUInt16.toNat

/-- Appends the two's complement of a 32-bit number as a varint. -/
def varint (v : Int32) : Put := varnat v.toUInt32.toNat

/-- Appends the two's complement of a 64-bit number as a varint. -/
def varlong (v : Int64) : Put := varnat v.toUInt64.toNat

/-- Appends a length in front of what it counts. -/
def lengthOf (field : String) (length : Nat) : Put :=
  if Limits.prefixedLength < length then
    fail (.validation (.tooLong field length Limits.prefixedLength))
  else varnat length

/-- Appends a string as UTF-8 behind the number of its bytes. The limit counts characters. -/
def text (s : String) : Put := fun limit =>
  if limit < s.length then
    fail (.validation (.tooLong "string" s.length limit)) limit
  else
    let encoded := Utf8.encode s
    (lengthOf "string" encoded.length ++ raw encoded) limit

/-- Whether a string can end with a zero byte: all its characters are ASCII and none is NUL. -/
def isZeroTerminable (s : String) : Bool := s.toList.all fun c => c.toNat < 128 && c.toNat != 0

/-- Appends an ASCII string and a zero byte. -/
def ascii (s : String) : Put :=
  if isZeroTerminable s then raw (Utf8.encode s ++ [0])
  else fail (.validation (.invalid "ascii string" "must be ASCII without embedded NUL"))

/-- Appends bytes behind their number. -/
def byteArray (bytes : List UInt8) : Put := lengthOf "byte array" bytes.length ++ raw bytes

/-- Appends a presence flag and, where there is a value, the value. -/
def optional {α : Type} (put : α → Put) : Option α → Put
  | none => bool false
  | some v => bool true ++ put v

/-- What a piece appends to an empty buffer, if it ends well. -/
def run (p : Put) (textLimit : Nat := Limits.textLength) : Except Fault (List UInt8) :=
  match p textLimit with
  | { bytes, fault := none } => .ok bytes
  | { bytes := _, fault := some e } => .error e

theorem append_def (p q : Put) (limit : Nat) : (p ++ q) limit = andThen p q limit := rfl

theorem run_eq_ok {p : Put} {limit : Nat} {bytes : List UInt8} :
    p.run limit = .ok bytes ↔ p limit = { bytes } := by
  simp only [run]
  rcases p limit with ⟨written, _ | e⟩ <;> simp

end Put

/-- Appends a piece, up to its fault if it has one. -/
def Buffer.put (b : Buffer) (p : Put) : Except Fault Unit × Buffer :=
  let w := p b.textLimit
  (match w.fault with | none => .ok () | some e => .error e, b.append w.bytes)

end PacketStream
