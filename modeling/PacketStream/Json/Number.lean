import PacketStream.Decimal.Binary64
import PacketStream.Json.Basic

/-!
# Numbers of a document

The digits of a number are gathered in 64 bits, the integer part first. Where the next digit does
not fit, the rest of the integer part only counts towards the exponent, and the rest of the fraction
is dropped. A number with a fraction or an exponent, an integer that does not fit 64 bits, and
negative zero become floating point: the gathered digits, times or divided by a power of ten.

A number too large for floating point is refused; one too small becomes zero.
-/

namespace PacketStream.Json

/-- Whether a character is a decimal digit. -/
def isDigit (c : Char) : Bool := '0' ≤ c && c ≤ '9'

/-- The value of a decimal digit. -/
def digitValue (c : Char) : Nat := c.toNat - '0'.toNat

/-- The parts of a number's text. -/
structure NumberText where
  negative : Bool
  integer : List Char
  /-- The digits after the point, if there is one. -/
  fraction : Option (List Char)
  /-- Whether the exponent is negative, and its digits. -/
  exponent : Option (Bool × List Char)

namespace NumberText

/-- Whether digits can be the integer part: there are some, and a zero in front is the only one. -/
def isWhole : List Char → Bool
  | [] => false
  | '0' :: rest => rest.isEmpty
  | _ => true

/-- Splits the text of a number. Zeros in front, and a point or exponent without digits, are
refused. -/
def ofChars? (text : List Char) : Option NumberText := do
  let (negative, text) := match text with
    | '-' :: rest => (true, rest)
    | _ => (false, text)
  let integer := text.takeWhile isDigit
  guard (isWhole integer)
  let text := text.dropWhile isDigit
  let (fraction, text) := match text with
    | '.' :: rest => (some (rest.takeWhile isDigit), rest.dropWhile isDigit)
    | _ => (none, text)
  guard (fraction != some [])
  match text with
  | [] => return { negative, integer, fraction, exponent := none }
  | c :: rest =>
    guard (c = 'e' || c = 'E')
    let (down, digits) := match rest with
      | '-' :: digits => (true, digits)
      | '+' :: digits => (false, digits)
      | _ => (false, rest)
    guard (!digits.isEmpty && digits.all isDigit)
    return { negative, integer, fraction, exponent := some (down, digits) }

end NumberText

/-- Gathers digits behind those gathered before while they fit 64 bits, and gives the number of
digits left. -/
def gather (value : Nat) : List Char → Nat × Nat
  | [] => (value, 0)
  | c :: rest =>
    let next := 10 * value + digitValue c
    if next < UInt64.size then gather next rest else (value, rest.length + 1)

/-- Divides a magnitude by ten to the power `n`, in steps of at most 308. -/
def divideByTenPow (f n : Nat) : Nat :=
  if f = 0 then 0
  else if n ≤ 308 then Binary64.div f (Binary64.tenPow n)
  else divideByTenPow (Binary64.div f (Binary64.tenPow 308)) (n - 308)
termination_by n

/-- The digits times ten to a power, in floating point, if it is finite. -/
def scaleByTen? (digits : Nat) (exponent : Int) : Option Nat :=
  let f := Binary64.ofNat digits
  if exponent < 0 then some (divideByTenPow f (-exponent).toNat)
  else if f = 0 then some 0
  else if 308 < exponent then none
  else
    let product := Binary64.mul f (Binary64.tenPow exponent.toNat)
    if product < Binary64.infinity then some product else none

/-- The floating-point number with a sign and a magnitude. -/
def ofMagnitude (negative : Bool) (magnitude : Nat) : Number :=
  .float (if negative then magnitude + Binary64.signBit else magnitude).toUInt64

/-- The value of a number without fraction and exponent whose digits fit 64 bits. -/
def ofWhole (negative : Bool) (digits : Nat) : Number :=
  if !negative then .natural digits.toUInt64
  else if 0 < digits ∧ Int64.minValue.toInt ≤ -digits then .negative (Int64.ofInt (-digits))
  else ofMagnitude true (Binary64.ofNat digits)

/-- The largest exponent that may be written. -/
def maxExponent : Nat := 2147483647

/-- The value of a number. -/
def NumberText.value? (t : NumberText) : Option Number := do
  let (digits, dropped) := gather 0 t.integer
  match t.fraction, t.exponent with
  | none, none =>
    if dropped = 0 then return ofWhole t.negative digits
    else return ofMagnitude t.negative (← scaleByTen? digits dropped)
  | fraction, exponent =>
    let fraction := fraction.getD []
    let (digits, left) := gather digits fraction
    let point : Int := dropped - (fraction.length - left : Nat)
    let (down, written) := exponent.getD (false, [])
    let power := written.foldl (fun n c => 10 * n + digitValue c) 0
    if maxExponent < power then
      if digits ≠ 0 ∧ !down then none
      else return ofMagnitude t.negative 0
    else
      let exponent := if down then point - power else point + power
      return ofMagnitude t.negative (← scaleByTen? digits exponent)

/-- The number that a text stands for. -/
def Number.ofChars? (text : List Char) : Option Number := do
  (← NumberText.ofChars? text).value?

end PacketStream.Json
