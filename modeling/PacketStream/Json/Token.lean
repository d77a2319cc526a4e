import PacketStream.Json.Number

/-!
# Tokens of a document

A document's text is taken apart one character at a time. Between two characters the lexer is
between tokens, in a word, in a number, or at some point of a string; escapes and the two halves of
a surrogate pair are points of a string too. A word or number ends where a character cannot belong
to it, and that character then starts afresh.
-/

namespace PacketStream.Json

/-- A token of a document. -/
inductive Token where
  | openArray
  | closeArray
  | openObject
  | closeObject
  | colon
  | comma
  | null
  | bool (v : Bool)
  | number (n : Number)
  | string (s : String)
deriving DecidableEq, Repr

/-- Where in a token the lexer is. Characters already read are in reverse. -/
inductive Mode where
  | between
  | word (chars : List Char)
  | number (chars : List Char)
  | string (chars : List Char)
  /-- After a backslash. -/
  | escape (chars : List Char)
  /-- In the four hexadecimal digits of an escape, after the first half of a pair or not. -/
  | hex (chars : List Char) (high : Option Nat) (left code : Nat)
  /-- After the first half of a pair, where the second must follow. -/
  | pair (chars : List Char) (high : Nat)
  /-- After the backslash of the second half. -/
  | pairEscape (chars : List Char) (high : Nat)

/-- The tokens so far, in reverse, and where the lexer is. -/
structure Lexer where
  tokens : List Token := []
  mode : Mode := .between

/-- The token of a word. -/
def Token.ofWord? (word : String) : Option Token :=
  if word = "null" then some .null
  else if word = "true" then some (.bool true)
  else if word = "false" then some (.bool false)
  else none

/-- The value of a hexadecimal digit. -/
def hexValue? (c : Char) : Option Nat :=
  if isDigit c then some (digitValue c)
  else if 'a' ≤ c ∧ c ≤ 'f' then some (c.toNat - 'a'.toNat + 10)
  else if 'A' ≤ c ∧ c ≤ 'F' then some (c.toNat - 'A'.toNat + 10)
  else none

/-- The character of an escape of one letter. -/
def escaped? (c : Char) : Option Char :=
  match c with
  | '"' => some '"'
  | '\\' => some '\\'
  | '/' => some '/'
  | 'b' => some '\x08'
  | 'f' => some '\x0c'
  | 'n' => some '\n'
  | 'r' => some '\r'
  | 't' => some '\t'
  | _ => none

/-- Whether a character can stand in a number. -/
def isNumeric (c : Char) : Bool :=
  isDigit c || c == '+' || c == '-' || c == '.' || c == 'e' || c == 'E'

namespace Lexer

/-- Adds a token and goes on between tokens. -/
def push (x : Lexer) (t : Token) : Lexer := { tokens := t :: x.tokens }

/-- Goes on in another mode. -/
def enter (x : Lexer) (mode : Mode) : Lexer := { x with mode }

/-- Takes a character between tokens. -/
def start? (x : Lexer) (c : Char) : Option Lexer :=
  match c with
  | ' ' | '\t' | '\n' | '\r' => some (x.enter .between)
  | '[' => some (x.push .openArray)
  | ']' => some (x.push .closeArray)
  | '{' => some (x.push .openObject)
  | '}' => some (x.push .closeObject)
  | ':' => some (x.push .colon)
  | ',' => some (x.push .comma)
  | '"' => some (x.enter (.string []))
  | _ =>
    if isDigit c || c == '-' then some (x.enter (.number [c]))
    else if 'a' ≤ c ∧ c ≤ 'z' then some (x.enter (.word [c]))
    else none

/-- Ends a word or number. A string cannot end without its quote. -/
def finish? (x : Lexer) : Option Lexer :=
  match x.mode with
  | .between => some x
  | .word chars => (Token.ofWord? (String.ofList chars.reverse)).map x.push
  | .number chars => (Number.ofChars? chars.reverse).map fun n => x.push (.number n)
  | _ => none

/-- Takes the last digit of an escape of four hexadecimal digits. -/
def unit? (x : Lexer) (chars : List Char) (high : Option Nat) (code : Nat) : Option Lexer :=
  let isHigh := 0xD800 ≤ code && code < 0xDC00
  let isLow := 0xDC00 ≤ code && code < 0xE000
  match high with
  | none =>
    if isHigh then some (x.enter (.pair chars code))
    else if isLow then none
    else some (x.enter (.string (Char.ofNat code :: chars)))
  | some high =>
    if isLow then
      let code := 0x10000 + 0x400 * (high - 0xD800) + (code - 0xDC00)
      some (x.enter (.string (Char.ofNat code :: chars)))
    else none

/-- Takes one character. -/
def step? (x : Lexer) (c : Char) : Option Lexer :=
  match x.mode with
  | .between => x.start? c
  | .word chars =>
    if 'a' ≤ c ∧ c ≤ 'z' then some (x.enter (.word (c :: chars)))
    else x.finish?.bind fun x => x.start? c
  | .number chars =>
    if isNumeric c then some (x.enter (.number (c :: chars)))
    else x.finish?.bind fun x => x.start? c
  | .string chars =>
    if c = '"' then some (x.push (.string (String.ofList chars.reverse)))
    else if c = '\\' then some (x.enter (.escape chars))
    else if c.toNat < 0x20 then none
    else some (x.enter (.string (c :: chars)))
  | .escape chars =>
    if c = 'u' then some (x.enter (.hex chars none 3 0))
    else (escaped? c).map fun c => x.enter (.string (c :: chars))
  | .hex chars high left code =>
    match hexValue? c, left with
    | none, _ => none
    | some d, 0 => x.unit? chars high (16 * code + d)
    | some d, left + 1 => some (x.enter (.hex chars high left (16 * code + d)))
  | .pair chars high => if c = '\\' then some (x.enter (.pairEscape chars high)) else none
  | .pairEscape chars high => if c = 'u' then some (x.enter (.hex chars (some high) 3 0)) else none

end Lexer

/-- The tokens of a document, if its text consists of tokens. -/
def tokens? (text : List Char) : Option (List Token) := do
  let last ← (← text.foldlM Lexer.step? {}).finish?
  return last.tokens.reverse

end PacketStream.Json
