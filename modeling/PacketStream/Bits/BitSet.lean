import PacketStream.Wire

/-!
# Bit sets of any length

Bit `i` is bit `i % 64` of word `i / 64`. Bits past the last word read as unset; setting one there
adds words up to it.

On the wire a set is the number of its words as a varint, then the words, eight bytes each.
-/

namespace PacketStream

/-- A bit set in words of 64 bits, the word of the lowest bits first. -/
structure BitSet where
  words : List UInt64 := []
deriving DecidableEq, Repr

/-- The word with bit `k` set to `v`. -/
def setBit (w : UInt64) (k : Nat) (v : Bool) : UInt64 :=
  let mask : UInt64 := 1 <<< k.toUInt64
  if v then w ||| mask else w &&& ~~~mask

namespace BitSet

/-- The bits of a number, in as many words as given, or in the fewest that hold them all. -/
def ofNat (value : Nat) (count : Option Nat := none) : BitSet :=
  let needed := if value = 0 then 0 else value.log2 / 64 + 1
  { words := (List.range (count.getD needed)).map fun i => (value / 2 ^ (64 * i)).toUInt64 }

/-- The number of bits, set or not. -/
def size (s : BitSet) : Nat := 64 * s.words.length

/-- Whether the set has no words. -/
def isEmpty (s : BitSet) : Bool := s.words.isEmpty

/-- Whether bit `i` is set. -/
def get (s : BitSet) (i : Nat) : Bool := (s.words.getD (i / 64) 0).toNat.testBit (i % 64)

/-- The set with bit `i` set to `v`. -/
def set (s : BitSet) (i : Nat) (v : Bool) : BitSet :=
  if i / 64 < s.words.length then
    { words := s.words.modify (i / 64) fun w => setBit w (i % 64) v }
  else if v then
    let gap := List.replicate (i / 64 - s.words.length) 0
    { words := s.words ++ gap ++ [setBit 0 (i % 64) true] }
  else s

/-- The words, continued by zeros to a given number. -/
def pad (count : Nat) (words : List UInt64) : List UInt64 :=
  words ++ List.replicate (count - words.length) 0

/-- Joins two sets word by word; the shorter one is continued by zeros. -/
def zip (f : UInt64 → UInt64 → UInt64) (s t : BitSet) : BitSet :=
  let count := max s.words.length t.words.length
  { words := List.zipWith f (pad count s.words) (pad count t.words) }

instance : AndOp BitSet := ⟨zip (· &&& ·)⟩

instance : OrOp BitSet := ⟨zip (· ||| ·)⟩

instance : XorOp BitSet := ⟨zip (· ^^^ ·)⟩

instance : Complement BitSet := ⟨fun s => { words := s.words.map (~~~ ·) }⟩

/-- A set is valid when the number of its words fits its prefix. -/
def validate (s : BitSet) : Except ValidationFault Unit :=
  if Limits.prefixedLength < s.words.length then
    .error (.tooLong "bitset words" s.words.length Limits.prefixedLength)
  else .ok ()

/-- Writes a set, if it is valid. -/
def put (s : BitSet) : Put :=
  match s.validate with
  | .error e => Put.fail (.validation e)
  | .ok () =>
    Put.varnat s.words.length ++ Put.raw (s.words.flatMap fun w => BigEndian.encode 8 w.toNat)

/-- The words whose bytes follow each other; a last group of fewer than eight bytes is dropped. -/
def wordsOfBytes : List UInt8 → List UInt64
  | a :: b :: c :: d :: e :: f :: g :: h :: rest =>
    (BigEndian.decode [a, b, c, d, e, f, g, h]).toUInt64 :: wordsOfBytes rest
  | _ => []

/-- Reads a set. That its words are there is checked before any is read. -/
def read : Get BitSet := do
  let offset ← Get.position
  let count := (← Get.varint).toInt
  if count < 0 then Get.malformed (.negativeWordCount count offset)
  else return { words := wordsOfBytes (← Get.take (8 * count.toNat)) }

instance : Wire BitSet where
  put := put
  get := read
  validate := validate

end BitSet

end PacketStream
