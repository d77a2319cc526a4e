import PacketStream.Decimal.Binary64

/-!
# The shortest decimal that reads back

Each finite magnitude other than zero is the nearest one to every number of an interval around it;
the ends belong to it when its significand is even. `shortest` finds the decimal with the fewest
digits in that interval, and of several the one nearest to the magnitude.

For a given count of digits only the two neighbours of the magnitude on the decimal grid matter: if
any point of the grid lies in the interval, one of these does.
-/

namespace PacketStream.Decimal

/-- The decimal `digits * 10 ^ exponent`. -/
structure Scientific where
  digits : Nat
  exponent : Int
deriving DecidableEq, Repr

/-- The number of decimal digits of `n`; one for zero. -/
def digitCount (n : Nat) : Nat := (Nat.toDigits 10 n).length

/-- A magnitude and the ends of its interval, as multiples of one unit. -/
structure Range where
  low : Nat
  mid : Nat
  high : Nat
  /-- How many units make one. -/
  one : Nat
  /-- Whether the ends belong to the interval. -/
  closed : Bool

/-- The interval of numbers that are nearest to a magnitude. Below a power of two the magnitudes
lie twice as dense, so there the lower end is half as far away. -/
def Range.ofBits (bits : Nat) : Range :=
  let m := Binary64.significand bits
  let e := Binary64.exponent bits
  let below := if m = Binary64.leadingBit ∧ -1074 < e then 1 else 2
  let unit := if 0 ≤ e then 2 ^ e.toNat else 1
  { low := (4 * m - below) * unit
    mid := 4 * m * unit
    high := (4 * m + 2) * unit
    one := 4 * (if 0 ≤ e then 1 else 2 ^ (-e).toNat)
    closed := m % 2 = 0 }

/-- The same interval in a unit that is smaller by a factor. -/
def Range.refine (r : Range) (factor : Nat) : Range :=
  { r with low := r.low * factor, mid := r.mid * factor, high := r.high * factor,
           one := r.one * factor }

/-- Whether a multiple of the unit lies in the interval. -/
def Range.contains (r : Range) (x : Nat) : Bool :=
  if r.closed then r.low ≤ x && x ≤ r.high else r.low < x && x < r.high

/-- The multiple of `10 ^ exponent` in the interval that is nearest to the magnitude, if there is
one; a tie goes to the even multiple. -/
def Range.onGrid? (r : Range) (exponent : Int) : Option Scientific :=
  let r := if exponent < 0 then r.refine (10 ^ (-exponent).toNat) else r
  let step := if exponent < 0 then r.one / 10 ^ (-exponent).toNat else r.one * 10 ^ exponent.toNat
  let below := r.mid / step
  let above := below + 1
  match r.contains (below * step), r.contains (above * step) with
  | false, false => none
  | true, false => some { digits := below, exponent }
  | false, true => some { digits := above, exponent }
  | true, true =>
    let down := r.mid - below * step
    let up := above * step - r.mid
    let digits := if down < up ∨ (down = up ∧ below % 2 = 0) then below else above
    some { digits, exponent }

/-- The same decimal without zeros at the end of its digits. -/
def Scientific.strip (s : Scientific) : Scientific :=
  if _ : s.digits ≠ 0 ∧ s.digits % 10 = 0 then
    strip { digits := s.digits / 10, exponent := s.exponent + 1 }
  else s
termination_by s.digits
decreasing_by omega

/-- A power of ten that lifts every magnitude but zero above one. -/
def lift : Nat := 340

/-- The shortest decimal that reads back as a finite magnitude. -/
def shortest (bits : Nat) : Scientific :=
  if bits = 0 then { digits := 0, exponent := 0 }
  else
    let r := Range.ofBits bits
    -- lifted, the magnitude has its first digit before the point
    let top : Int := digitCount (r.mid * 10 ^ lift / r.one) - lift
    let tries := (List.range 17).filterMap fun (n : Nat) => r.onGrid? (top - n - 1)
    (tries.head?.getD { digits := 0, exponent := 0 }).strip

end PacketStream.Decimal
