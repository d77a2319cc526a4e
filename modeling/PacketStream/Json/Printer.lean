import PacketStream.Decimal.Shortest
import PacketStream.Json.Basic

/-!
# Writing a document

The compact text of a value: no blanks, members in the order of their keys. In strings only quotes,
backslashes and control characters are escaped. Floating-point numbers have the fewest digits that
read back; a point divides them while their size is from `1e-5` up to `1e16`, and outside of that
they have an exponent.
-/

namespace PacketStream.Json

/-- A character of a string, escaped if it has to be. -/
def escapeChar (c : Char) : List Char :=
  match c with
  | '"' => ['\\', '"']
  | '\\' => ['\\', '\\']
  | '\x08' => ['\\', 'b']
  | '\x0c' => ['\\', 'f']
  | '\n' => ['\\', 'n']
  | '\r' => ['\\', 'r']
  | '\t' => ['\\', 't']
  | _ =>
    let n := c.toNat
    if n < 0x20 then ['\\', 'u', '0', '0', Nat.digitChar (n / 16), Nat.digitChar (n % 16)]
    else [c]

/-- A string in quotes. -/
def quote (s : String) : List Char := '"' :: s.toList.flatMap escapeChar ++ ['"']

/-- The exponents of ten, of the first digit, for which a number is written without an exponent. -/
def isPlain (exponent : Int) : Bool := -5 ≤ exponent && exponent < 16

/-- A finite magnitude. -/
def floatChars (magnitude : Nat) : List Char :=
  if magnitude = 0 then "0.0".toList
  else
    let s := Decimal.shortest magnitude
    let digits := Nat.toDigits 10 s.digits
    -- the number of digits before the point
    let point : Int := digits.length + s.exponent
    if isPlain (point - 1) then
      if 0 ≤ s.exponent then digits ++ List.replicate s.exponent.toNat '0' ++ ".0".toList
      else if 0 < point then digits.take point.toNat ++ '.' :: digits.drop point.toNat
      else "0.".toList ++ List.replicate (-point).toNat '0' ++ digits
    else
      let fraction := if digits.length ≤ 1 then [] else '.' :: digits.drop 1
      let sign := if point - 1 < 0 then '-' else '+'
      digits.take 1 ++ fraction ++ 'e' :: sign :: Nat.toDigits 10 (point - 1).natAbs

/-- A number. -/
def Number.chars : Number → List Char
  | .natural n => Nat.toDigits 10 n.toNat
  | .negative n => '-' :: Nat.toDigits 10 n.toInt.natAbs
  | .float bits =>
    if bits.toNat < Binary64.signBit then floatChars bits.toNat
    else '-' :: floatChars (bits.toNat - Binary64.signBit)

mutual

/-- The text of a value behind other text, all of it in reverse. -/
def valueOnto (done : List Char) : Json → List Char
  | .null => "null".toList.reverseAux done
  | .bool true => "true".toList.reverseAux done
  | .bool false => "false".toList.reverseAux done
  | .number n => n.chars.reverseAux done
  | .string s => (quote s).reverseAux done
  | .array items => ']' :: itemsOnto true ('[' :: done) items
  | .object members => '}' :: membersOnto true ('{' :: done) members

/-- The texts of items, with a comma in front of each but the first. -/
def itemsOnto (first : Bool) (done : List Char) : List Json → List Char
  | [] => done
  | v :: rest => itemsOnto false (valueOnto (if first then done else ',' :: done) v) rest

/-- The texts of members, with a comma in front of each but the first. -/
def membersOnto (first : Bool) (done : List Char) : List (String × Json) → List Char
  | [] => done
  | m :: rest => membersOnto false (memberOnto (if first then done else ',' :: done) m) rest

/-- The text of a member. -/
def memberOnto (done : List Char) : String × Json → List Char
  | (key, v) => valueOnto (':' :: (quote key).reverseAux done) v

end

/-- The compact text of a value. -/
def text (v : Json) : String := String.ofList (valueOnto [] v).reverse

end PacketStream.Json
