import PacketStream.Wire

/-!
# Bit sets of a fixed length

A set of `n` bits takes the fewest bytes that hold them; bit `i` is bit `i % 8` of byte `i / 8`. Its
length is known to both peers and not written. The type keeps the number of bytes, so no operation
can change it.

The bits of the last byte past `n` are there too: complement and `ofInt` may set them. An integer is
copied into the bytes of a set, and `fitted?_eq_some` says that the copy never goes past an end.
-/

namespace PacketStream

/-- The number of bytes of a set of `n` bits. -/
def FixedBitSet.byteLength (n : Nat) : Nat := (n + 7) / 8

/-- A bit set of `n` bits, the byte of the lowest bits first. -/
structure FixedBitSet (n : Nat) where
  bytes : List UInt8
  length_bytes : bytes.length = FixedBitSet.byteLength n
deriving DecidableEq, Repr

namespace FixedBitSet

variable {n : Nat}

/-- The set with no bit set. -/
def empty (n : Nat) : FixedBitSet n where
  bytes := List.replicate (byteLength n) 0
  length_bytes := List.length_replicate

instance : Inhabited (FixedBitSet n) := ⟨empty n⟩

/-- The fault of bytes that are not as many as a set of `n` bits takes. -/
def wrongLength (n held : Nat) : ValidationFault :=
  let expected := byteLength n
  .invalid "fixed bitset" s!"holds {held} bytes, expected {expected} for {n} bits"

/-- The set whose bytes these are, if they are as many as it takes. -/
def ofBytes (n : Nat) (bytes : List UInt8) : Except ValidationFault (FixedBitSet n) :=
  if h : bytes.length = byteLength n then .ok { bytes, length_bytes := h }
  else .error (wrongLength n bytes.length)

/-- The two's complement of an integer of 128 bits, most significant byte first. -/
def intBytes (value : Int) : List UInt8 := BigEndian.encode 16 (BitVec.ofInt 128 value).toNat

/-- The byte that continues an integer to the front. -/
def signByte (value : Int) : UInt8 := if value < 0 then 255 else 0

/-- The number of bytes that a set of `n` bits takes of an integer, the lowest ones. -/
def takenLength (n : Nat) : Nat := min (byteLength n) 16

/-- Writes `source` over all bytes of `target` from place `start` on, if it is as long as these. -/
def overwrite (target : List UInt8) (start : Nat) (source : List UInt8) : Option (List UInt8) :=
  if start ≤ target.length ∧ source.length = target.length - start then
    some (target.take start ++ source)
  else none

/-- The bytes of a set that an integer makes: bytes of its sign, with those taken of it written over
the last ones. -/
def fitted? (n : Nat) (value : Int) : Option (List UInt8) :=
  overwrite (List.replicate (byteLength n) (signByte value)) (byteLength n - takenLength n)
    ((intBytes value).drop (16 - takenLength n))

@[simp] theorem length_intBytes (value : Int) : (intBytes value).length = 16 :=
  BigEndian.length_encode ..

theorem takenLength_le (n : Nat) : takenLength n ≤ byteLength n ∧ takenLength n ≤ 16 :=
  ⟨Nat.min_le_left _ _, Nat.min_le_right _ _⟩

/-- The bytes taken have their place in the set, and fill it up. -/
theorem fitted?_eq_some (n : Nat) (value : Int) :
    fitted? n value = some (List.replicate (byteLength n - takenLength n) (signByte value)
      ++ (intBytes value).drop (16 - takenLength n)) := by
  obtain ⟨hset, hint⟩ := takenLength_le n
  rw [fitted?, overwrite, List.length_replicate, List.length_drop, length_intBytes,
    if_pos (by omega), List.take_replicate, Nat.min_eq_left (Nat.sub_le _ _)]

theorem isSome_fitted? (n : Nat) (value : Int) : (fitted? n value).isSome := by
  rw [fitted?_eq_some]
  rfl

/-- The two's complement of an integer of 128 bits, most significant byte first, cut to the width of
the set or continued by its sign. -/
def ofInt (n : Nat) (value : Int) : FixedBitSet n where
  bytes := (fitted? n value).get (isSome_fitted? n value)
  length_bytes := by
    obtain ⟨hset, hint⟩ := takenLength_le n
    simp only [fitted?_eq_some, Option.get_some, List.length_append, List.length_replicate,
      List.length_drop, length_intBytes]
    omega

/-- The number of bits, set or not. -/
def size (_ : FixedBitSet n) : Nat := n

/-- Whether the set has room for no bit. -/
def isEmpty (_ : FixedBitSet n) : Bool := n == 0

/-- Whether bit `i` is set. The bits past `n` of the last byte count. -/
def get (s : FixedBitSet n) (i : Nat) : Bool := (s.bytes.getD (i / 8) 0).toNat.testBit (i % 8)

/-- The set with bit `i` set to `v`; an `i` that is not below `n` changes nothing. -/
def set (s : FixedBitSet n) (i : Nat) (v : Bool) : FixedBitSet n :=
  if i < n then
    let mask : UInt8 := 1 <<< (i % 8).toUInt8
    { bytes := s.bytes.modify (i / 8) fun b => if v then b ||| mask else b &&& ~~~mask
      length_bytes := by rw [List.length_modify, s.length_bytes] }
  else s

/-- Joins two sets byte by byte. -/
def zip (f : UInt8 → UInt8 → UInt8) (s t : FixedBitSet n) : FixedBitSet n where
  bytes := List.zipWith f s.bytes t.bytes
  length_bytes := by rw [List.length_zipWith, s.length_bytes, t.length_bytes, Nat.min_self]

instance : AndOp (FixedBitSet n) := ⟨zip (· &&& ·)⟩

instance : OrOp (FixedBitSet n) := ⟨zip (· ||| ·)⟩

instance : XorOp (FixedBitSet n) := ⟨zip (· ^^^ ·)⟩

instance : Complement (FixedBitSet n) where
  complement s :=
    { bytes := s.bytes.map (~~~ ·), length_bytes := by rw [List.length_map, s.length_bytes] }

theorem length_take {b : Buffer} {size : Nat} (h : size ≤ b.remaining) :
    (b.unread.take size).length = size := by
  rw [List.length_take]
  exact Nat.min_eq_left h

/-- Reads the bytes of a set. -/
def read (n : Nat) : Get (FixedBitSet n) := fun b =>
  let size := byteLength n
  if h : b.remaining < size then (.error (.insufficientData b.position size b.remaining), b)
  else
    let s : FixedBitSet n :=
      { bytes := b.unread.take size, length_bytes := length_take (Nat.le_of_not_lt h) }
    (.ok s, b.advance size)

/-- Checks the number of bytes. -/
def validate (s : FixedBitSet n) : Except ValidationFault Unit :=
  if s.bytes.length = byteLength n then .ok () else .error (wrongLength n s.bytes.length)

/-- Writes the bytes of a set, if it is valid. -/
def put (s : FixedBitSet n) : Put :=
  match s.validate with
  | .error e => Put.fail (.validation e)
  | .ok () => Put.raw s.bytes

/-- A set has the right number of bytes by its type, so none is refused. -/
theorem validate_eq_ok (s : FixedBitSet n) : s.validate = .ok () := if_pos s.length_bytes

@[simp] theorem put_eq_raw (s : FixedBitSet n) : s.put = Put.raw s.bytes := by
  rw [put, validate_eq_ok]

instance : Wire (FixedBitSet n) where
  put := put
  get := read n
  validate := validate

end FixedBitSet

end PacketStream
