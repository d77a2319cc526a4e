import PacketStream.Config.Basic

/-!
# Options

A configuration is written as lines of the form `key = value`. Blank lines, lines that start with
`#` and lines without `=` say nothing. Of several assignments to one key the last counts, and a
value that is no number stands for the default. What is found at a path is a value, so that the
outcome of reading a configuration from a file can be told from it alone.
-/

namespace PacketStream

/-! ## Blanks and lines

Blank characters are those with the property White_Space. -/

namespace Text

/-- Whether a character has the property White_Space: the four controls from tab on with carriage
return, space, next line, and the spaces and separators outside Latin-1. -/
def isBlank (c : Char) : Bool :=
  let n := c.toNat
  (0x9 ≤ n && n ≤ 0xD) || n == 0x20 || n == 0x85 || n == 0xA0 || n == 0x1680
    || (0x2000 ≤ n && n ≤ 0x200A) || n == 0x2028 || n == 0x2029 || n == 0x202F || n == 0x205F
    || n == 0x3000

/-- The text without the blanks at its ends. -/
def trim (text : List Char) : List Char :=
  ((text.dropWhile isBlank).reverse.dropWhile isBlank).reverse

/-- The lines of a text. A line ends with a line feed, or with a carriage return and a line feed,
which are not part of it; the last line may lack its end. -/
def lines (text : List Char) : List (List Char) :=
  go [] text
where
  /-- Goes on inside the line whose characters so far are `line`, the last one first. -/
  go (line : List Char) : List Char → List (List Char)
    | [] => if line.isEmpty then [] else [line.reverse]
    | '\n' :: rest =>
      (match line with
        | '\r' :: before => before.reverse
        | whole => whole.reverse) :: go [] rest
    | c :: rest => go (c :: line) rest

end Text

namespace Config

/-! ## Options -/

/-- What a line assigns: the key and the value, both without blanks at their ends. -/
def assignment? (line : List Char) : Option (List Char × List Char) :=
  let line := Text.trim line
  if line.head? = some '#' ∨ '=' ∉ line then none
  else
    some (Text.trim (line.takeWhile (· != '=')), Text.trim ((line.dropWhile (· != '=')).drop 1))

/-- The number below `bound` that a value denotes in decimal digits, which a plus may precede. -/
def number? (bound : Nat) (value : List Char) : Option Nat :=
  let digits := if value.head? = some '+' then value.drop 1 else value
  if digits.isEmpty ∨ digits.any (fun c => !c.isDigit) then none
  else
    let n := digits.foldl (fun n c => 10 * n + (c.toNat - '0'.toNat)) 0
    if n < bound then some n else none

/-- The configuration after an assignment. -/
def assign (c : Config) (key value : List Char) : Traced Config :=
  let length := number? UInt64.size value
  match String.ofList key with
  | "max_string_length" => pure { c with textLength := length.getD Limits.textLength }
  | "max_frame_length" => pure { c with frameLength := length.getD Limits.frameLength }
  | "max_uncompressed_length" =>
    pure { c with uncompressedLength := length.getD Limits.uncompressedLength }
  | "compression_level" =>
    pure { c with level := (number? UInt32.size value).getD Limits.compressionLevel }
  | key => do
    Traced.report (.unknownOption key (String.ofList value))
    return c

/-- The configuration after the assignments of the lines, the first line first. -/
def assignAll (c : Config) : List (List Char) → Traced Config
  | [] => pure c
  | line :: rest =>
    match assignment? line with
    | none => assignAll c rest
    | some (key, value) => do assignAll (← c.assign key value) rest

/-- The configuration that options describe, if its limits can be used. -/
def parse (options : String) : Checked Config := do
  let c ← ExceptT.lift (assignAll default (Text.lines options.toList))
  Checked.ofExcept c.validate
  return c

/-! ## Files -/

/-- What is found at a path. -/
inductive Found where
  | nothing
  | directory
  | file (bytes : List UInt8)
deriving DecidableEq, Repr

/-- The text of a file. -/
def Found.text : Found → Except TransferFault String
  | nothing => .error .notFound
  | directory => .error .isDirectory
  | file bytes =>
    match Utf8.decode bytes with
    | .ok text => .ok text
    | .error _ => .error .notUtf8

/-- The configuration in what is found at a path. It is reported if it can be used. -/
def load (path : String) (found : Found) : Checked Config :=
  match found.text with
  | .error cause => throw (.transfer cause)
  | .ok options => do
    let c ← parse options
    Checked.report (.configLoaded path)
    ExceptT.lift c.announce
    return c

end Config

end PacketStream
