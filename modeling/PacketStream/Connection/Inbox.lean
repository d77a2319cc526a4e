/-!
# Inboxes

Bytes that have come and are still to be taken, in storage of limited size. Bytes are taken off the
front and leave a gap there; new ones go behind the last. The room behind them bounds what one read
may bring.

`reserve` makes room: it moves the bytes to the front where they fit into the gap, and gives them
more storage where they do not. `le_room_reserve` says that there is enough then.
-/

namespace PacketStream

/-- Bytes that have come, and where in their storage they are. -/
structure Inbox where
  bytes : List UInt8 := []
  /-- The size of the storage. -/
  extent : Nat := 8192
  /-- The part of the storage in front of the bytes. -/
  gap : Nat := 0
deriving DecidableEq, Repr

namespace Inbox

/-- The room behind the bytes. -/
def room (s : Inbox) : Nat := s.extent - (s.gap + s.bytes.length)

/-- Makes room for `n` more bytes. Moving is tried first; storage that grows at least doubles. -/
def reserve (s : Inbox) (n : Nat) : Inbox :=
  if n ≤ s.room then s
  else if s.bytes.length ≤ s.gap ∧ s.bytes.length + n ≤ s.extent then { s with gap := 0 }
  else { s with extent := max (2 * s.extent) (s.gap + s.bytes.length + n) }

/-- Adds bytes behind the others. -/
def append (s : Inbox) (bytes : List UInt8) : Inbox := { s with bytes := s.bytes ++ bytes }

/-- Takes all but the given last bytes off the front. -/
def leave (s : Inbox) (rest : List UInt8) : Inbox :=
  { s with bytes := rest, gap := s.gap + (s.bytes.length - rest.length) }

@[simp] theorem bytes_append (s : Inbox) (bytes : List UInt8) :
    (s.append bytes).bytes = s.bytes ++ bytes := rfl

@[simp] theorem bytes_leave (s : Inbox) (rest : List UInt8) : (s.leave rest).bytes = rest := rfl

@[simp] theorem bytes_reserve (s : Inbox) (n : Nat) : (s.reserve n).bytes = s.bytes := by
  simp only [reserve]
  split
  · rfl
  · split <;> rfl

theorem le_room_reserve (s : Inbox) (n : Nat) : n ≤ (s.reserve n).room := by
  simp only [reserve]
  split
  · assumption
  · split <;> (simp only [room]; omega)

end Inbox

end PacketStream
