import PacketStream.Zlib.Huffman

/-!
# Inflating

A compressed stream is a sequence of bytes that come one at a time: `Inflater.next` gives the next
byte, or says that the stream is complete, ends too early, or is corrupt. A `Reader` hands them over
a few at a time. Its inflater works ahead by whole windows, so it knows of a corruption before the
bytes in front of it have been read.

A stream has a header of two bytes, blocks, and a checksum. A block is stored as it is, or is coded
by the fixed code or by a code of its own; a symbol of a coded block is a byte, the end of the
block, or a copy of bytes that came before. In front of its first byte a stream has zeros.
-/

namespace PacketStream.Zlib

/-! ## The checksum

Adler-32 is the sum of the bytes and the sum of those sums, both modulo a prime and the first
starting at one. -/

/-- The largest prime below 65536. -/
def adlerModulus : Nat := 65521

/-- The two sums after one more byte. -/
def adlerStep (sums : Nat × Nat) (b : UInt8) : Nat × Nat :=
  let low := (sums.1 + b.toNat) % adlerModulus
  (low, (sums.2 + low) % adlerModulus)

/-- The checksum of the bytes, as a number of 32 bits. -/
def adler32 (bytes : List UInt8) : Nat :=
  let (low, high) := bytes.foldl adlerStep (1, 0)
  65536 * high + low

example : adler32 [0x61] = 0x00620062 := by decide

/-! ## Blocks -/

/-- Codes for literals and lengths, and for distances. -/
structure Codes where
  literal : Huffman
  distance : Huffman
  literal_ne_nil : literal.levels ≠ []

/-- Where in a block the inflater is. -/
inductive Phase where
  /-- In front of a block. -/
  | between
  /-- In a stored block with bytes left. -/
  | stored (left : Nat)
  /-- In a coded block. -/
  | coded (codes : Codes)
  /-- In a copy of a coded block, with bytes left. -/
  | copying (codes : Codes) (left distance : Nat)

/-- A stream that is being inflated. -/
structure Inflater where
  source : BitSource
  output : Array UInt8 := #[]
  /-- Whether the current block is the last one. -/
  final : Bool := false
  phase : Phase := .between

/-- What comes next of a stream. -/
inductive Progress where
  /-- One more byte, which the output now ends with. -/
  | more (b : UInt8) (after : Inflater)
  | complete
  | stopped (why : Stop)

/-- The smallest length of each length symbol from 257 on, and its extra bits. -/
def lengthTable : List (Nat × Nat) :=
  [(3, 0), (4, 0), (5, 0), (6, 0), (7, 0), (8, 0), (9, 0), (10, 0), (11, 1), (13, 1), (15, 1),
    (17, 1), (19, 2), (23, 2), (27, 2), (31, 2), (35, 3), (43, 3), (51, 3), (59, 3), (67, 4),
    (83, 4), (99, 4), (115, 4), (131, 5), (163, 5), (195, 5), (227, 5), (258, 0)]

/-- The smallest distance of each distance symbol, and its extra bits. -/
def distanceTable : List (Nat × Nat) :=
  [(1, 0), (2, 0), (3, 0), (4, 0), (5, 1), (7, 1), (9, 2), (13, 2), (17, 3), (25, 3), (33, 4),
    (49, 4), (65, 5), (97, 5), (129, 6), (193, 6), (257, 7), (385, 7), (513, 8), (769, 8),
    (1025, 9), (1537, 9), (2049, 10), (3073, 10), (4097, 11), (6145, 11), (8193, 12), (12289, 12),
    (16385, 13), (24577, 13)]

/-- The order in which the lengths of the code for code lengths are written. -/
def lengthOrder : List Nat := [16, 17, 18, 0, 8, 7, 9, 6, 10, 5, 11, 4, 12, 3, 13, 2, 14, 1, 15]

/-- The size of a window, which holds all that a copy can reach. -/
def windowLength : Nat := 32768

namespace BitReader

/-- Stops on data that are no compressed data. -/
def demand (ok : Bool) : BitReader Unit := if ok then value () else stop .corrupt

/-- The number of a symbol in a table, with its extra bits. -/
def extended (table : List (Nat × Nat)) (symbol : Nat) : BitReader Nat :=
  match table[symbol]? with
  | none => stop .corrupt
  | some (least, extra) => return least + (← number extra)

/-- The header of the stream: its method, its window and its check bits. A preset dictionary is
refused. -/
def header : BitReader Unit := do
  let method := (← byte).toNat
  let flags := (← byte).toNat
  demand ((256 * method + flags) % 31 == 0)
  demand (flags / 32 % 2 == 0)
  demand (method % 16 == 8 && method / 16 ≤ 7)

/-- The checksum of the stream, behind its last block. -/
def checksum : BitReader Nat := do
  align
  return BigEndian.decode (← repeated byte 4)

/-- The length of a stored block, written twice. -/
def storedLength : BitReader Nat := do
  align
  let low := (← byte).toNat
  let high := (← byte).toNat
  let inverseLow := (← byte).toNat
  let inverseHigh := (← byte).toNat
  demand (low + inverseLow == 255 && high + inverseHigh == 255)
  return 256 * high + low

/-- What a symbol of the code for code lengths asks for: one length, or the number of times by which
an earlier length or zero is repeated, less one. -/
def codeLengthRun (last? : Option Nat) (symbol : Nat) : BitReader (Nat × Nat) :=
  if symbol < 16 then value (symbol, 0)
  else if symbol = 16 then
    match last? with
    | none => stop .corrupt
    | some last => return (last, 2 + (← number 2))
  else if symbol = 17 then return (0, 2 + (← number 3))
  else return (0, 10 + (← number 7))

/-- Reads code lengths until none is missing. Those read are in reverse; a repetition may have given
more than were missing. -/
def codeLengths (code : Huffman) (done : List Nat) : (missing : Nat) → BitReader (List Nat)
  | 0 => value done
  | missing + 1 => do
    let (length, more) ← codeLengthRun done.head? (← code.symbol)
    codeLengths code (List.replicate (more + 1) length ++ done) (missing - more)
termination_by missing => missing

/-- The lengths of the code for code lengths, by symbol. -/
def orderedLengths (written : List Nat) : List Nat :=
  (List.range lengthOrder.length).map fun symbol =>
    ((lengthOrder.zip written).lookup symbol).getD 0

/-- Whether a code can be used: it is complete, or it has no codeword but one of a single bit. -/
def isUsable (code : Huffman) : Bool :=
  code.isComplete || (code.used ≤ 1 && code.levels.length == 1)

/-- The codes of a block that has codes of its own. -/
def ownCodes : BitReader Codes := do
  let literals := 257 + (← number 5)
  let distances := 1 + (← number 5)
  let written := 4 + (← number 4)
  demand (literals ≤ 286 && distances ≤ 30)
  let code := Huffman.ofLengths (orderedLengths (← repeated (number 3) written))
  demand code.isComplete
  let lengths := (← codeLengths code [] (literals + distances)).reverse
  demand (lengths.length == literals + distances)
  let literalLengths := lengths.take literals
  let distance := Huffman.ofLengths (lengths.drop literals)
  demand (isUsable (.ofLengths literalLengths) && isUsable distance)
  return {
    literal := .ofLengths literalLengths
    distance
    literal_ne_nil := Huffman.levels_ofLengths_ne_nil _ }

/-- The kind of a block and what comes before its data. -/
def blockStart : BitReader Phase := do
  match (← number 2) with
  | 0 => return .stored (← storedLength)
  | 1 =>
    return .coded {
      literal := Huffman.fixed
      distance := Huffman.fixedDistance
      literal_ne_nil := Huffman.levels_ofLengths_ne_nil _ }
  | 2 => return .coded (← ownCodes)
  | _ => stop .corrupt

/-- What a symbol of a coded block asks for. -/
inductive Command where
  | literal (b : UInt8)
  | endOfBlock
  | copy (length distance : Nat)

/-- The next command of a coded block. -/
def command (codes : Codes) : BitReader Command := do
  let symbol ← codes.literal.symbol
  if symbol < 256 then return .literal symbol.toUInt8
  else if symbol = 256 then return .endOfBlock
  else
    let length ← extended lengthTable (symbol - 257)
    let distance ← extended distanceTable (← codes.distance.symbol)
    return .copy length distance

theorem size_lt_of_command {codes : Codes} {s t : BitSource} {c : Command}
    (h : (command codes).run s = .ok (c, t)) : t.size < s.size :=
  size_lt_of_andThen (fun hs => Huffman.size_lt_of_symbol codes.literal_ne_nil hs) h

end BitReader

namespace Inflater

/-- The stream behind a header. -/
def ofBytes (bytes : List UInt8) : Except Stop Inflater :=
  match BitReader.header.run { later := bytes } with
  | .error why => .error why
  | .ok ((), source) => .ok { source }

/-- Adds a byte to the output. -/
def emit (s : Inflater) (b : UInt8) (source : BitSource) (phase : Phase) : Progress :=
  .more b { s with output := s.output.push b, source, phase }

/-- The byte that lies a distance back, which is zero where that is in front of the first byte. -/
def byteBack (s : Inflater) (distance : Nat) : UInt8 :=
  if distance ≤ s.output.size then s.output.getD (s.output.size - distance) 0 else 0

/-- Adds the byte that a copy has at this place. -/
def emitCopy (s : Inflater) (source : BitSource) (codes : Codes) (left distance : Nat) : Progress :=
  s.emit (s.byteBack distance) source
    (if left = 0 then .coded codes else .copying codes left distance)

/-- The end of the stream, where the checksum has to agree. -/
def finish (s : Inflater) (source : BitSource) : Progress :=
  match BitReader.checksum.run source with
  | .error why => .stopped why
  | .ok (sum, _) => if sum = adler32 s.output.toList then .complete else .stopped .corrupt

/-- Whether the inflater stands inside a block. -/
def Phase.rank : Phase → Nat
  | .between => 0
  | _ => 1

/-- Goes on to the next byte of the stream. -/
def next (s : Inflater) : Progress :=
  match hphase : s.phase with
  | .between =>
    match hb : BitReader.bit.run s.source with
    | .error why => .stopped why
    | .ok (final, afterBit) =>
      match hp : BitReader.blockStart.run afterBit with
      | .error why => .stopped why
      | .ok (phase, source) =>
        have : source.size < s.source.size :=
          Nat.lt_of_le_of_lt (BitReader.blockStart.size_le hp) (BitReader.size_lt_of_bit hb)
        next { s with source, final, phase }
  | .stored 0 =>
    if s.final then s.finish s.source else next { s with phase := .between }
  | .stored (left + 1) =>
    match BitReader.byte.run s.source with
    | .error why => .stopped why
    | .ok (b, source) => s.emit b source (.stored left)
  | .coded codes =>
    match hc : (BitReader.command codes).run s.source with
    | .error why => .stopped why
    | .ok (.literal b, source) => s.emit b source (.coded codes)
    | .ok (.copy length distance, source) => s.emitCopy source codes (length - 1) distance
    | .ok (.endOfBlock, source) =>
      if s.final then s.finish source
      else
        have : source.size < s.source.size := BitReader.size_lt_of_command hc
        next { s with source, phase := .between }
  | .copying codes left distance => s.emitCopy s.source codes (left - 1) distance
termination_by (s.source.size, Phase.rank s.phase)
decreasing_by
  · exact Prod.Lex.left _ _ this
  · rw [hphase]
    exact Prod.Lex.right _ (by decide)
  · exact Prod.Lex.left _ _ this

end Inflater

/-! ## Reading a stream -/

/-- What is behind bytes that have been inflated. -/
inductive Behind where
  | more (s : Inflater)
  /-- Nothing; the stream is complete. -/
  | nothing
  | stopped (why : Stop)

/-- A compressed stream that is read. -/
structure Reader where
  /-- The bytes that have been inflated and not been read. -/
  ahead : List UInt8 := []
  behind : Behind

/-- Inflates at most `more` bytes behind those of `done`, the last of which comes first. -/
def Inflater.window (s : Inflater) (done : List UInt8) : (more : Nat) → Reader
  | 0 =>
    let behind :=
      match s.next with
      | .more .. => .more s
      | .complete => .nothing
      | .stopped why => .stopped why
    { ahead := done.reverse, behind }
  | more + 1 =>
    match s.next with
    | .more b after => after.window (b :: done) more
    | .complete => { ahead := done.reverse, behind := .nothing }
    | .stopped why => { ahead := done.reverse, behind := .stopped why }

namespace Reader

/-- The stream that the data hold, none of it read. What follows the stream is left alone. -/
def ofBytes (data : List UInt8) : Reader :=
  match Inflater.ofBytes data with
  | .error why => { behind := .stopped why }
  | .ok s => { behind := .more s }

/-- Inflates a window, where all bytes that were inflated have been read. If the stream is corrupt
behind the bytes of the window or among them, they do not count. -/
def fill : Reader → Reader
  | { ahead := [], behind := .more s } =>
    match s.window [] windowLength with
    | { behind := .stopped .corrupt, .. } => { behind := .stopped .corrupt }
    | r => r
  | r => r

/-- Reads at most `most` bytes in one call. If there are none, the stream is complete. -/
def read (most : Nat) (r : Reader) : Except Stop (List UInt8) × Reader :=
  match r.fill with
  | { ahead := [], behind := .stopped why } => (.error why, { behind := .stopped why })
  | { ahead, behind } => (.ok (ahead.take most), { ahead := ahead.drop most, behind })

/-- What came of reading a stream. -/
structure Collected where
  bytes : List UInt8
  /-- What stopped the stream, if a call failed. -/
  stop? : Option Stop
  /-- The stream afterwards. -/
  after : Reader

/-- Reads to the end of the stream, but at most `most` bytes: once these have come, no call is made. -/
def collect (most : Nat) (r : Reader) : Collected :=
  if most = 0 then { bytes := [], stop? := none, after := r }
  else
    match r.read most with
    | (.error why, after) => { bytes := [], stop? := some why, after }
    | (.ok chunk, after) =>
      if chunk.isEmpty then { bytes := [], stop? := none, after }
      else
        let later := collect (most - chunk.length) after
        { later with bytes := chunk ++ later.bytes }
termination_by most
decreasing_by
  have := List.length_pos_iff.2 (mt List.isEmpty_iff.2 ‹_›)
  omega

end Reader

end PacketStream.Zlib
