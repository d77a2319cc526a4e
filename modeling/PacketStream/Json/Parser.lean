import PacketStream.Json.Token

/-!
# Reading a document

The parser is a machine with a stack. It takes one token at a time; the stack holds the arrays and
objects that are open, and beside it stands what may come next. So it needs no recursion of its own,
and the bound on the depth is a bound on the stack.
-/

namespace PacketStream.Json

/-- The most arrays and objects that may be open at once. -/
def maxDepth : Nat := 127

/-- An array or object that is open. Its parts are in reverse. -/
inductive Level where
  | array (items : List Json)
  | object (members : List (String × Json)) (key : String)

/-- What may come next. -/
inductive Expected where
  | value
  /-- The first item of an array, or its end. -/
  | firstItem
  /-- The first key of an object, or its end. -/
  | firstKey
  | key
  | colon
  /-- A comma, or the end of what is open. -/
  | more
  /-- Nothing: the document is complete. -/
  | nothing (result : Json)

/-- The open arrays and objects, the innermost first, and what may come next. -/
structure Parser where
  levels : List Level := []
  expected : Expected := .value

namespace Parser

/-- Whether a value may come next. -/
def takesValue (p : Parser) : Bool :=
  match p.expected with
  | .value | .firstItem => true
  | _ => false

/-- Adds a complete value to what is open. -/
def complete (levels : List Level) (v : Json) : Parser :=
  match levels with
  | [] => { expected := .nothing v }
  | .array items :: outer => { levels := .array (v :: items) :: outer, expected := .more }
  | .object members key :: outer =>
    { levels := .object ((key, v) :: members) key :: outer, expected := .more }

/-- Takes a value of one token. -/
def scalar? (p : Parser) (v : Json) : Option Parser :=
  if p.takesValue then some (complete p.levels v) else none

/-- Opens an array or object. -/
def open? (p : Parser) (level : Level) (expected : Expected) : Option Parser :=
  if p.takesValue ∧ p.levels.length < maxDepth then
    some { levels := level :: p.levels, expected }
  else none

/-- Takes one token. -/
def step? (p : Parser) (t : Token) : Option Parser :=
  match t with
  | .null => p.scalar? .null
  | .bool v => p.scalar? (.bool v)
  | .number n => p.scalar? (.number n)
  | .string s =>
    match p.expected, p.levels with
    | .firstKey, .object members _ :: outer | .key, .object members _ :: outer =>
      some { levels := .object members s :: outer, expected := .colon }
    | _, _ => p.scalar? (.string s)
  | .openArray => p.open? (.array []) .firstItem
  | .openObject => p.open? (.object [] "") .firstKey
  | .colon =>
    match p.expected with
    | .colon => some { p with expected := .value }
    | _ => none
  | .comma =>
    match p.expected, p.levels with
    | .more, .array _ :: _ => some { p with expected := .value }
    | .more, .object .. :: _ => some { p with expected := .key }
    | _, _ => none
  | .closeArray =>
    match p.expected, p.levels with
    | .more, .array items :: outer | .firstItem, .array items :: outer =>
      some (complete outer (.array items.reverse))
    | _, _ => none
  | .closeObject =>
    match p.expected, p.levels with
    | .more, .object members _ :: outer | .firstKey, .object members _ :: outer =>
      some (complete outer (.object (sortMembers members.reverse)))
    | _, _ => none

/-- The value of a complete document. -/
def result? (p : Parser) : Option Json :=
  match p.expected with
  | .nothing v => some v
  | _ => none

end Parser

/-- The value that a text stands for, if the text is a document. -/
def ofText? (text : String) : Option Json := do
  let tokens ← tokens? text.toList
  (← tokens.foldlM Parser.step? {}).result?

/-! ## Tags

A value of a type with a few values is a document that holds its name. -/

/-- The tag that a text spells: a document that is a string, or an object with one member, which is
null. -/
def tag? (text : List Char) : Option String :=
  match tokens? text with
  | some [.string tag] => some tag
  | some [.openObject, .string tag, .colon, .null, .closeObject] => some tag
  | _ => none

/-- The value whose tag a text spells. -/
def ofTag? {α : Type} (tag : α → String) (values : List α) (text : String) : Option α := do
  let name ← tag? text.toList
  values.find? fun v => tag v = name

end PacketStream.Json
