import PacketStream.BigEndian

/-!
# Magnitudes of 64-bit floating point

A magnitude is the bit pattern of a number that is not negative. A finite one stands for a
significand times a power of two. Products and quotients are rounded once, from the exact ratio, to
the nearest magnitude; a tie goes to the even significand.

All arithmetic is on natural numbers, so every operation can be computed with and reasoned about.
-/

namespace PacketStream.Binary64

/-- The bit pattern of infinity, above that of every finite magnitude. -/
def infinity : Nat := 0x7FF0000000000000

/-- The number of bits of a significand behind its leading bit. -/
def fractionBits : Nat := 52

/-- The number of bits that say the exponent. -/
def exponentBits : Nat := 11

/-- The leading bit of a significand. It is not part of the pattern. -/
def leadingBit : Nat := 2 ^ fractionBits

/-- The bit patterns of the numbers that are not negative come before those with a sign. -/
def signBit : Nat := 2 ^ (exponentBits + fractionBits)

/-- The significand of a finite magnitude, with its leading bit where it has one. -/
def significand (bits : Nat) : Nat :=
  if bits < leadingBit then bits else bits % leadingBit + leadingBit

/-- The power of two that the significand is multiplied by. -/
def exponent (bits : Nat) : Int :=
  if bits < leadingBit then -1074 else (bits / leadingBit : Nat) - 1075

/-- The quotient rounded to the nearest natural number; a tie goes to the even one. -/
def roundDiv (num den : Nat) : Nat :=
  let q := num / den
  let twice := 2 * (num % den)
  if twice < den ∨ (twice = den ∧ q % 2 = 0) then q else q + 1

/-- The ratio `num / den` times two to the power `e`, as a ratio. -/
def scale (num den : Nat) (e : Int) : Nat × Nat :=
  if 0 ≤ e then (num * 2 ^ e.toNat, den) else (num, den * 2 ^ (-e).toNat)

/-- The magnitude nearest to `num / den`, or one that is at least `infinity` where that is past the
largest finite one. -/
def ofRatio (num den : Nat) : Nat :=
  if num = 0 then 0
  else
    -- the quotient has 53 or 54 binary digits before the point once it is scaled by this
    let guess : Int := num.log2 - den.log2 - 53
    let (n, d) := scale num den (-guess)
    let e := max (if n < d * (2 * leadingBit) then guess else guess + 1) (-1074)
    let (n, d) := scale num den (-e)
    (e + 1074).toNat * leadingBit + roundDiv n d

/-- The magnitude nearest to a natural number. -/
def ofNat (n : Nat) : Nat := ofRatio n 1

/-- The product of two finite magnitudes. -/
def mul (a b : Nat) : Nat :=
  let (num, den) := scale (significand a * significand b) 1 (exponent a + exponent b)
  ofRatio num den

/-- The quotient of two finite magnitudes, the second of which is not zero. -/
def div (a b : Nat) : Nat :=
  let (num, den) := scale (significand a) (significand b) (exponent a - exponent b)
  ofRatio num den

/-- The magnitude nearest to ten to the power `k`. -/
def tenPow (k : Nat) : Nat := ofNat (10 ^ k)

example : ofNat 1 = 0x3FF0000000000000 ∧ ofRatio 1 10 = 0x3FB999999999999A := by decide

example : mul (ofNat 3) (ofRatio 1 2) = ofRatio 3 2 := by decide

end PacketStream.Binary64
