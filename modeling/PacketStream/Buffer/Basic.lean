import PacketStream.Protocol

/-!
# Buffers

A byte sequence with a cursor. What has been read and what has not are kept apart, so the cursor
cannot pass the end: `position_add_remaining` holds of every buffer there is.

Writing appends behind the unread bytes, and reading moves bytes from the unread to the read part.
Neither changes a byte that is there; `bytes_advance` and `bytes_append` say so.
-/

namespace PacketStream

/-- Bytes, a position among them, and the longest string that may be read or written there. -/
structure Buffer where
  /-- The bytes before the cursor. -/
  consumed : List UInt8 := []
  /-- The bytes after the cursor. -/
  unread : List UInt8 := []
  /-- The longest string, in characters. -/
  textLimit : Nat := Limits.textLength
deriving DecidableEq, Repr

namespace Buffer

/-- A buffer that holds no bytes. -/
def empty : Buffer := { unread := [] }

instance : Inhabited Buffer := ⟨empty⟩

/-- A buffer that holds the bytes, all of them unread. -/
def ofBytes (bytes : List UInt8) : Buffer := { unread := bytes }

/-- The same bytes and cursor under another limit for strings. -/
def withTextLimit (b : Buffer) (limit : Nat) : Buffer := { b with textLimit := limit }

/-- All bytes, whether read or not. -/
def bytes (b : Buffer) : List UInt8 := b.consumed ++ b.unread

/-- The number of bytes before the cursor. -/
def position (b : Buffer) : Nat := b.consumed.length

/-- The number of bytes after the cursor. -/
def remaining (b : Buffer) : Nat := b.unread.length

/-- The number of all bytes. -/
def length (b : Buffer) : Nat := b.position + b.remaining

/-- Whether the buffer holds no bytes, read or unread. -/
def isEmpty (b : Buffer) : Bool := b.consumed.isEmpty && b.unread.isEmpty

/-- Puts the cursor back to the start. -/
def rewind (b : Buffer) : Buffer := { b with consumed := [], unread := b.bytes }

/-- Drops all bytes. -/
def clear (b : Buffer) : Buffer := { b with consumed := [], unread := [] }

/-- Moves the cursor past the next `n` bytes, or to the end where fewer are left. -/
def advance (b : Buffer) (n : Nat) : Buffer :=
  { b with consumed := b.consumed ++ b.unread.take n, unread := b.unread.drop n }

/-- Adds bytes at the end. -/
def append (b : Buffer) (bytes : List UInt8) : Buffer := { b with unread := b.unread ++ bytes }

variable {b : Buffer}

theorem length_bytes : b.bytes.length = b.length := by
  simp [bytes, length, position, remaining]

theorem position_add_remaining : b.position + b.remaining = b.bytes.length := length_bytes.symm

@[simp] theorem bytes_advance (n : Nat) : (b.advance n).bytes = b.bytes := by
  simp [bytes, advance]

@[simp] theorem bytes_append (bytes : List UInt8) : (b.append bytes).bytes = b.bytes ++ bytes := by
  simp [Buffer.bytes, append]

@[simp] theorem position_append (bytes : List UInt8) : (b.append bytes).position = b.position := rfl

@[simp] theorem advance_zero : b.advance 0 = b := by
  simp [advance]

theorem position_advance {n : Nat} (h : n ≤ b.remaining) :
    (b.advance n).position = b.position + n := by
  simp only [remaining] at h
  simp [position, advance, Nat.min_eq_left h]

theorem remaining_advance (n : Nat) : (b.advance n).remaining = b.remaining - n := by
  simp [remaining, advance]

theorem advance_advance (m n : Nat) : (b.advance m).advance n = b.advance (m + n) := by
  simp [advance, List.take_add]

/-- Bytes behind those that are taken stay where they are. -/
theorem advance_append {n : Nat} (h : n ≤ b.remaining) (bytes : List UInt8) :
    (b.append bytes).advance n = (b.advance n).append bytes := by
  simp only [remaining] at h
  simp [advance, append, List.take_append_of_le_length h, List.drop_append_of_le_length h]

@[simp] theorem bytes_rewind : b.rewind.bytes = b.bytes := by
  simp [bytes, rewind]

@[simp] theorem bytes_clear : b.clear.bytes = [] := rfl

end Buffer

end PacketStream
