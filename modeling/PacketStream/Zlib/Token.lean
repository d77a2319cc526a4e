import PacketStream.Zlib.Match

/-!
# Tokens

Data as literal bytes and copies of what came before, cut into blocks. A match is put off by one
place where the next place has a longer one. A block ends with the data, where its tokens become too
many, or where they turn out to be no shorter than the bytes.
-/

namespace PacketStream.Zlib

/-- A piece of data. -/
inductive Token where
  | literal (b : UInt8)
  | copy (m : Match)
deriving DecidableEq, Repr

/-- A block of tokens. -/
structure Block where
  /-- The place of its first byte. -/
  start : Nat
  tokens : Array Token := #[]
  /-- The number of bytes that the tokens stand for. -/
  size : Nat := 0
  /-- A measure of the space for the tokens: one for a literal, three for a copy. -/
  weight : Nat := 0
  /-- Whether its bytes are all within reach, so that it may be stored as it is. -/
  isStorable : Bool := false

namespace Block

/-- The block with one more token. -/
def push (b : Block) : Token → Block
  | .literal c =>
    { b with tokens := b.tokens.push (.literal c), size := b.size + 1, weight := b.weight + 1 }
  | .copy m =>
    { b with tokens := b.tokens.push (.copy m), size := b.size + m.length, weight := b.weight + 3 }

/-- The space for the tokens, with a bit for each that tells its kind. -/
def space (b : Block) : Nat := 1 + b.weight + b.tokens.size / 8

/-- Whether there is no space for more tokens. -/
def isOutOfSpace (b : Block) : Bool := 65528 < b.space

/-- Whether the block ends here. -/
def isFull (b : Block) : Bool :=
  b.isOutOfSpace || (31744 < b.size && b.size ≤ 115 * b.space / 128)

/-- The block as it ends in front of a place. It may be stored if that place's window has all of
it. -/
def close (b : Block) (window place : Nat) : Block :=
  { b with isStorable := decide (place - b.start ≤ window) }

end Block

/-- How far back a copy may reach. -/
def windowSize : Nat := 32768

/-- A parse that has reached a place. -/
structure Parse where
  place : Nat := 0
  /-- A byte that has been passed, and the match that starts at it, if it is put off. -/
  putOff : Option (UInt8 × Match) := none
  block : Block := { start := 0 }
  blocks : Array Block := #[]

namespace Parse

/-- The length from which a match is taken at once. -/
def goodMatch : Nat := 128

/-- How far back a match at a place may be. -/
def reach (size place : Nat) : Nat := min place (windowSize - min maxMatch (size - place))

/-- Goes on by one place and `more`, and ends the block if it is full. -/
def advance (size place more : Nat) (putOff : Option (UInt8 × Match)) (block : Block)
    (blocks : Array Block) : Parse :=
  if block.isFull then
    let window := min windowSize (reach size place + (more + 1))
    { place := place + (more + 1), putOff
      block := { start := block.start + block.size }
      blocks := blocks.push (block.close window (place + (more + 1))) }
  else { place := place + (more + 1), putOff, block, blocks }

/-- Takes a match with the byte where it starts, at once or put off. -/
def take (size place : Nat) (b : UInt8) (m : Match) (atOnce : Bool) (block : Block)
    (blocks : Array Block) : Parse :=
  if atOnce || goodMatch ≤ m.length then
    advance size place (m.length - 1) none (block.push (.copy m)) blocks
  else advance size place 0 (some (b, m)) block blocks

/-- Takes the byte at the place into account. -/
def step (data : Array UInt8) (links : Array Nat) (effort : Effort) (b : UInt8) : Parse → Parse
  | { place, putOff, block, blocks } =>
    let find? := Match.find? data links effort place (reach data.size place)
    match putOff with
    | none =>
      match find? (minMatch - 1) with
      | none => advance data.size place 0 none (block.push (.literal b)) blocks
      | some m => take data.size place b m effort.isGreedy block blocks
    | some (c, earlier) =>
      match find? earlier.length with
      | none =>
        advance data.size place (earlier.length - 2) none (block.push (.copy earlier)) blocks
      | some m => take data.size place b m false (block.push (.literal c)) blocks

theorem place_lt_advance (size place more : Nat) (putOff : Option (UInt8 × Match)) (block : Block)
    (blocks : Array Block) : place < (advance size place more putOff block blocks).place := by
  simp only [advance]
  split <;> exact Nat.lt_add_of_pos_right (Nat.succ_pos more)

theorem place_lt_take (size place : Nat) (b : UInt8) (m : Match) (atOnce : Bool) (block : Block)
    (blocks : Array Block) : place < (take size place b m atOnce block blocks).place := by
  simp only [take]
  split <;> exact place_lt_advance ..

theorem place_lt_step (data : Array UInt8) (links : Array Nat) (effort : Effort) (b : UInt8)
    (s : Parse) : s.place < (s.step data links effort b).place := by
  simp only [step]
  split
  · split
    · exact place_lt_advance ..
    · exact place_lt_take ..
  · split
    · exact place_lt_advance ..
    · exact place_lt_take ..

/-- Goes on to the end of the data. -/
def finish (data : Array UInt8) (links : Array Nat) (effort : Effort) (s : Parse) : Parse :=
  if h : s.place < data.size then finish data links effort (s.step data links effort data[s.place])
  else s
termination_by data.size - s.place
decreasing_by
  have := place_lt_step data links effort data[s.place] s
  omega

end Parse

/-- The blocks of the data. The last one may be empty. -/
def blocks (effort : Effort) (data : Array UInt8) : List Block :=
  let s := Parse.finish data (Match.links data) effort {}
  (s.blocks.push (s.block.close (min windowSize data.size) s.place)).toList

end PacketStream.Zlib
