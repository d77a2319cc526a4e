import Mathlib
import PacketStream.Bits.BitSet
import PacketStream.Bits.FixedBitSet

/-!
# Methods of a buffer in memory

A `Store` is a buffer as it lies in memory: all bytes one behind the other, and the offset of the
cursor. Nothing in its type keeps the cursor among the bytes. What a method asks of a store may be
out of range; then it has no result at all, which is worse than a fault.

A method checks that bytes are there before it takes them, and moves the cursor by adding to it. Where
a read fails behind its first part it puts the cursor back by hand.
-/

namespace PacketStream

variable {α β : Type}

/-- Bytes and the offset of a cursor, which may be any. -/
structure Store where
  data : List UInt8 := []
  cursor : Nat := 0
  textLimit : Nat := Limits.textLength
deriving DecidableEq, Repr

/-- A method of a store. It has no result if it is out of range. -/
abbrev Op (α : Type) := ExceptT Fault (StateT Store Option) α

namespace Op

/-- What a method does to a store. -/
def call (op : Op α) (s : Store) : Option (Except Fault α × Store) := op.run.run s

/-! ## The cursor and the bytes -/

/-- No result. -/
def outOfRange : Op α := fun _ => none

def cursor : Op Nat := return (← get).cursor

def length : Op Nat := return (← get).data.length

def textLimit : Op Nat := return (← get).textLimit

/-- Puts the cursor at an offset. -/
def seek (offset : Nat) : Op Unit := modify fun s => { s with cursor := offset }

/-- The bytes from one offset to another. -/
def slice (start stop : Nat) : Op (List UInt8) := do
  let data := (← get).data
  if start ≤ stop ∧ stop ≤ data.length then return (data.take stop).drop start
  else outOfRange

/-- The number of bytes behind the cursor. The difference is not negative. -/
def remaining : Op Nat := do
  let s ← get
  if s.cursor ≤ s.data.length then return s.data.length - s.cursor
  else outOfRange

/-- The bytes behind the cursor. -/
def unread : Op (List UInt8) := do slice (← cursor) (← length)

/-- Puts the cursor back and fails. -/
def failAt (offset : Nat) (e : Fault) : Op α := do
  seek offset
  throw e

/-! ## Reads -/

/-- Fails if fewer bytes are left than are asked for. -/
def ensure (requested : Nat) : Op Unit := do
  let available ← remaining
  if available < requested then throw (.insufficientData (← cursor) requested available)

/-- The next `n` bytes. -/
def read (n : Nat) : Op (List UInt8) := do
  ensure n
  let start ← cursor
  seek (start + n)
  slice start (start + n)

/-- A value of the next `n` bytes. -/
def readWith (n : Nat) (value : List UInt8 → α) : Op α := do
  ensure n
  let start ← cursor
  let chunk ← slice start (start + n)
  seek (start + n)
  return value chunk

/-- All bytes that are left. -/
def readRest : Op (List UInt8) := do
  let start ← cursor
  seek (← length)
  slice start (← length)

def readBigEndian (width : Nat) : Op Nat := readWith width BigEndian.decode

def readByte : Op UInt8 := return (← readBigEndian 1).toUInt8

def readBool : Op Bool := do
  let offset ← cursor
  let b ← readByte
  if b = 0 then return false
  else if b = 1 then return true
  else failAt offset (.malformed (.boolean b offset))

def readVaruint (bits : Nat) : Op UInt64 := do
  let source ← unread
  match Varint.decode bits source with
  | .error refusal => throw (.malformed (.varint bits refusal))
  | .ok none =>
    throw (.insufficientData (← cursor) (source.length + 1) source.length)
  | .ok (some (value, size)) =>
    seek ((← cursor) + size)
    return value.toUInt64

def readVarint : Op Int32 := return (← readVaruint 32).toUInt32.toInt32

def readText : Op String := do
  let offset ← cursor
  let length := (← readVarint).toInt
  let limit ← textLimit
  if length < 0 then failAt offset (.malformed (.negativeTextLength length offset))
  else if 4 * limit < length.toNat then
    failAt offset (.malformed (.textOverBudget length (4 * limit)))
  else
    let bytes ← tryCatch (read length.toNat) (failAt offset)
    match Utf8.decode bytes with
    | .error refusal => failAt offset (.malformed (.utf8 offset refusal))
    | .ok s =>
      if limit < s.length then
        failAt offset (.malformed (.tooManyCharacters offset s.length limit))
      else return s

def readAscii : Op String := do
  let source ← unread
  match source.findIdx? (· == 0) with
  | none => throw (.insufficientData (← cursor) (source.length + 1) source.length)
  | some stop =>
    if source.length < stop then outOfRange
    let chars := source.take stop
    if chars.all (· < 128) then
      seek ((← cursor) + (stop + 1))
      return String.ofList (chars.map fun c => Char.ofNat c.toNat)
    else throw (.malformed (.notAscii (← cursor)))

def readByteArray : Op (List UInt8) := do
  let offset ← cursor
  let length := (← readVarint).toInt
  if length < 0 then failAt offset (.malformed (.negativeArrayLength length offset))
  else tryCatch (read length.toNat) (failAt offset)

/-- Words of eight bytes, so many. -/
def readEach : (count : Nat) → Op (List UInt64)
  | 0 => return []
  | count + 1 => do
    let word := (← readBigEndian 8).toUInt64
    return word :: (← readEach count)

/-- A set of so many words, once it is known that they are there. -/
def readWords (count : Nat) : Op BitSet := do
  ensure (8 * count)
  return { words := (← readEach count) }

/-- The bytes of a set, which are as many as were asked for. -/
def readFixedBitSet (n : Nat) : Op (FixedBitSet n) := do
  let bytes ← read (FixedBitSet.byteLength n)
  if h : bytes.length = FixedBitSet.byteLength n then return { bytes, length_bytes := h }
  else outOfRange

/-! ## Writes -/

/-- Puts bytes behind those that are there. -/
def write (bytes : List UInt8) : Op Unit := modify fun s => { s with data := s.data ++ bytes }

def writeVaruint (bits : Nat) (v : UInt64) : Op Unit :=
  if bits < 64 ∧ 2 ^ bits ≤ v.toNat then
    throw (.validation (.outOfRange "varuint" v.toNat 0 (2 ^ bits - 1)))
  else write (Varint.encode v.toNat)

def writeLength (field : String) (length : Nat) : Op Unit :=
  if Limits.prefixedLength < length then
    throw (.validation (.tooLong field length Limits.prefixedLength))
  else write (Varint.encode length)

def writeText (s : String) : Op Unit := do
  let limit ← textLimit
  if limit < s.length then throw (.validation (.tooLong "string" s.length limit))
  writeLength "string" (Utf8.encode s).length
  write (Utf8.encode s)

def writeAscii (s : String) : Op Unit := do
  if Put.isZeroTerminable s then
    write (Utf8.encode s)
    write [0]
  else throw (.validation (.invalid "ascii string" "must be ASCII without embedded NUL"))

def writeByteArray (bytes : List UInt8) : Op Unit := do
  writeLength "byte array" bytes.length
  write bytes

/-- Writes words, one by one. -/
def writeEach : List UInt64 → Op Unit
  | [] => return ()
  | w :: words => do
    write (BigEndian.encode 8 w.toNat)
    writeEach words

/-! ## What a method does -/

@[simp] theorem call_pure (a : α) (s : Store) : (pure a : Op α).call s = some (.ok a, s) := rfl

@[simp] theorem call_throw (e : Fault) (s : Store) :
    (throw e : Op α).call s = some (.error e, s) := rfl

@[simp] theorem call_cursor (s : Store) : cursor.call s = some (.ok s.cursor, s) := rfl

@[simp] theorem call_length (s : Store) : length.call s = some (.ok s.data.length, s) := rfl

@[simp] theorem call_textLimit (s : Store) : textLimit.call s = some (.ok s.textLimit, s) := rfl

@[simp] theorem call_seek (offset : Nat) (s : Store) :
    (seek offset).call s = some (.ok (), { s with cursor := offset }) := rfl

@[simp] theorem call_failAt (offset : Nat) (e : Fault) (s : Store) :
    (failAt offset e : Op α).call s = some (.error e, { s with cursor := offset }) := rfl

@[simp] theorem call_write (bytes : List UInt8) (s : Store) :
    (write bytes).call s = some (.ok (), { s with data := s.data ++ bytes }) := rfl

theorem call_bind (x : Op α) (f : α → Op β) (s : Store) :
    (x >>= f).call s =
      match x.call s with
      | none => none
      | some (.error e, t) => some (.error e, t)
      | some (.ok a, t) => (f a).call t := by
  show (x.run.run s).bind _ = _
  rcases hx : x.call s with _ | ⟨e | a, t⟩ <;>
    · simp only [call] at hx
      rw [hx]
      rfl

theorem call_bind_of_ok {x : Op α} {f : α → Op β} {s t : Store} {a : α}
    (h : x.call s = some (.ok a, t)) : (x >>= f).call s = (f a).call t := by
  rw [call_bind, h]

theorem call_bind_of_error {x : Op α} {f : α → Op β} {s t : Store} {e : Fault}
    (h : x.call s = some (.error e, t)) : (x >>= f).call s = some (.error e, t) := by
  rw [call_bind, h]

theorem call_tryCatch (x : Op α) (f : Fault → Op α) (s : Store) :
    (tryCatch x f).call s =
      match x.call s with
      | none => none
      | some (.error e, t) => (f e).call t
      | some (.ok a, t) => some (.ok a, t) := by
  show (x.run.run s).bind _ = _
  rcases hx : x.call s with _ | ⟨e | a, t⟩ <;>
    · simp only [call] at hx
      rw [hx]
      rfl

end Op

end PacketStream
