/-!
# Reading bits

Compressed data are read bit by bit, the lowest bit of each byte first, and at places whole bytes.
A `BitReader α` reads a value from a source of bits. It stops where the data end too early or are
no compressed data, and it can only move forward: that its rest is no longer than its source is
part of the type, so whatever loops on a reader ends.
-/

namespace PacketStream.Zlib

/-- Bits to be read: those left of the current byte, and the bytes after it. -/
structure BitSource where
  current : List Bool := []
  later : List UInt8
deriving DecidableEq, Repr

/-- Why reading stopped. -/
inductive Stop where
  /-- The data end too early. -/
  | incomplete
  /-- The data are no compressed data. -/
  | corrupt
deriving DecidableEq, Repr

namespace BitSource

/-- The number of bits left. -/
def size (s : BitSource) : Nat := s.current.length + 8 * s.later.length

/-- The bits of a byte, the lowest first. -/
def bitsOfByte (b : UInt8) : List Bool := (List.range 8).map b.toNat.testBit

/-- The next bit and what follows it. -/
def next? (s : BitSource) : Option (Bool × BitSource) :=
  match s.current, s.later with
  | b :: current, later => some (b, { current, later })
  | [], byte :: later => some (byte.toNat.testBit 0, { current := (bitsOfByte byte).tail, later })
  | [], [] => none

theorem size_of_next? {s t : BitSource} {b : Bool} (h : s.next? = some (b, t)) :
    t.size + 1 = s.size := by
  obtain ⟨current, later⟩ := s
  cases current with
  | cons c current =>
    simp only [next?, Option.some.injEq, Prod.mk.injEq] at h
    simp [size, ← h.2]
    omega
  | nil =>
    cases later with
    | nil => simp [next?] at h
    | cons byte later =>
      simp only [next?, Option.some.injEq, Prod.mk.injEq] at h
      simp [size, ← h.2, bitsOfByte]
      omega

end BitSource

/-- A read of a value from bits, which never gives back more than it was given. -/
structure BitReader (α : Type) where
  run : BitSource → Except Stop (α × BitSource)
  size_le : ∀ {s t a}, run s = .ok (a, t) → t.size ≤ s.size

namespace BitReader

variable {α β : Type}

/-- Reads nothing. -/
def value (a : α) : BitReader α where
  run s := .ok (a, s)
  size_le h := by cases h; exact Nat.le_refl _

/-- Stops. -/
def stop (why : Stop) : BitReader α where
  run _ := .error why
  size_le h := by cases h

/-- Reads one value and then, depending on it, another. -/
def andThen (r : BitReader α) (f : α → BitReader β) : BitReader β where
  run s :=
    match r.run s with
    | .error why => .error why
    | .ok (a, t) => (f a).run t
  size_le {s t b} h := by
    split at h
    · cases h
    · rename_i a u hr
      exact Nat.le_trans ((f a).size_le h) (r.size_le hr)

instance : Monad BitReader where
  pure := value
  bind := andThen

/-- One bit. -/
def bit : BitReader Bool where
  run s :=
    match s.next? with
    | none => .error .incomplete
    | some result => .ok result
  size_le {s t b} h := by
    split at h
    · cases h
    · rename_i hn
      cases h
      have := BitSource.size_of_next? hn
      omega

/-- A number of `n` bits, the lowest first. -/
def number : (n : Nat) → BitReader Nat
  | 0 => value 0
  | n + 1 => do
    let b ← bit
    return (← number n) * 2 + b.toNat

/-- Drops what is left of the current byte. -/
def align : BitReader Unit where
  run s := .ok ((), { s with current := [] })
  size_le h := by cases h; simp [BitSource.size]

/-- The next whole byte, where the current one is used up. -/
def byte : BitReader UInt8 where
  run s :=
    match s.later with
    | [] => .error .incomplete
    | b :: later => .ok (b, { s with later })
  size_le {s t b} h := by
    split at h
    · cases h
    · rename_i hl
      cases h
      simp only [BitSource.size, hl, List.length_cons]
      omega

/-- The same read, as often as given. -/
def repeated (r : BitReader α) : (n : Nat) → BitReader (List α)
  | 0 => value []
  | n + 1 => do
    let a ← r
    return a :: (← repeated r n)

theorem size_lt_of_bit {s t : BitSource} {b : Bool} (h : bit.run s = .ok (b, t)) :
    t.size < s.size := by
  simp only [bit] at h
  split at h
  · cases h
  · rename_i hn
    cases h
    have := BitSource.size_of_next? hn
    omega

theorem size_lt_of_andThen {r : BitReader α} {f : α → BitReader β} {s t : BitSource} {b : β}
    (hr : ∀ {u a}, r.run s = .ok (a, u) → u.size < s.size)
    (h : (andThen r f).run s = .ok (b, t)) : t.size < s.size := by
  simp only [andThen] at h
  split at h
  · cases h
  · rename_i a u hu
    exact Nat.lt_of_le_of_lt ((f a).size_le h) (hr hu)

end BitReader

end PacketStream.Zlib
