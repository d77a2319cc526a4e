/-!
# UTF-8

Characters as bytes, and a decoder that goes through the bytes one at a time. Between two bytes of a
character the decoder knows how many are owed and the range of the next one; the range is what
keeps out overlong forms, surrogates and numbers past the last character.

A refusal names the first byte of the character at fault. Its `length` counts the bytes that could
still have started a character, and is at least one.
-/

namespace PacketStream.Utf8

/-- Why bytes are not UTF-8. -/
inductive Refusal where
  /-- The `length` bytes from `index` on cannot be continued by what follows them. -/
  | invalid (length index : Nat)
  /-- The input ends inside the character that starts at `index`. -/
  | incomplete (index : Nat)
deriving DecidableEq, Repr

/-- What is wrong, in words. -/
def Refusal.message : Refusal → String
  | invalid length index => s!"invalid utf-8 sequence of {length} bytes from index {index}"
  | incomplete index => s!"incomplete utf-8 byte sequence from index {index}"

/-- The bytes of a character. -/
def encodeChar (c : Char) : List UInt8 :=
  let n := c.toNat
  if n < 0x80 then [n.toUInt8]
  else if n < 0x800 then [(0xC0 + n / 64).toUInt8, (0x80 + n % 64).toUInt8]
  else if n < 0x10000 then
    [(0xE0 + n / 4096).toUInt8, (0x80 + n / 64 % 64).toUInt8, (0x80 + n % 64).toUInt8]
  else
    [(0xF0 + n / 262144).toUInt8, (0x80 + n / 4096 % 64).toUInt8, (0x80 + n / 64 % 64).toUInt8,
      (0x80 + n % 64).toUInt8]

/-- The bytes of a string. -/
def encode (s : String) : List UInt8 := s.toList.flatMap encodeChar

/-- A character of which the first bytes have been read. -/
structure Partial where
  /-- The bytes still owed, less one. -/
  owed : Nat
  /-- The least value of the next byte. -/
  low : Nat
  /-- The greatest value of the next byte. -/
  high : Nat
  /-- The number that the bytes so far make up. -/
  code : Nat
  /-- The bytes read. -/
  seen : Nat := 1

/-- What a first byte above `0x7F` starts, if a character can start with it. -/
def lead? (b : Nat) : Option Partial :=
  if b < 0xC2 then none
  else if b < 0xE0 then some { owed := 0, low := 0x80, high := 0xBF, code := b - 0xC0 }
  else if b = 0xE0 then some { owed := 1, low := 0xA0, high := 0xBF, code := 0 }
  else if b = 0xED then some { owed := 1, low := 0x80, high := 0x9F, code := 0xD }
  else if b < 0xF0 then some { owed := 1, low := 0x80, high := 0xBF, code := b - 0xE0 }
  else if b = 0xF0 then some { owed := 2, low := 0x90, high := 0xBF, code := 0 }
  else if b < 0xF4 then some { owed := 2, low := 0x80, high := 0xBF, code := b - 0xF0 }
  else if b = 0xF4 then some { owed := 2, low := 0x80, high := 0x8F, code := 4 }
  else none

/-- Reads on between characters (`none`) or inside one. The character that is being read, or the
next one, starts at `index`; `done` holds those before it, the last one first. -/
def decodeFrom (index : Nat) (done : List Char) :
    Option Partial → List UInt8 → Except Refusal (List Char)
  | none, [] => .ok done.reverse
  | some _, [] => .error (.incomplete index)
  | none, b :: rest =>
    if b.toNat < 0x80 then decodeFrom (index + 1) (Char.ofNat b.toNat :: done) none rest
    else match lead? b.toNat with
      | some p => decodeFrom index done (some p) rest
      | none => .error (.invalid 1 index)
  | some p, b :: rest =>
    let code := 64 * p.code + b.toNat % 64
    if p.low ≤ b.toNat ∧ b.toNat ≤ p.high then
      match p.owed with
      | 0 => decodeFrom (index + p.seen + 1) (Char.ofNat code :: done) none rest
      | owed + 1 =>
        decodeFrom index done (some { owed, low := 0x80, high := 0xBF, code, seen := p.seen + 1 })
          rest
    else .error (.invalid p.seen index)

/-- The string that the bytes encode. -/
def decode (bytes : List UInt8) : Except Refusal String :=
  (decodeFrom 0 [] none bytes).map String.ofList

end PacketStream.Utf8
