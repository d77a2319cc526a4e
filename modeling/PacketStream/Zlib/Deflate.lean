import PacketStream.Zlib.CodeLength
import PacketStream.Zlib.Inflate
import PacketStream.Zlib.Skim

/-!
# Deflating

Data are written in blocks, between a header that names the effort and a checksum. `stored` copies
the data as they are. `coded` looks for repetitions, and is chosen only where it inflates to the
data; that is checked on the stream itself, so `deflate` depends on no property of the search or of
the codes.
-/

namespace PacketStream.Zlib

/-! ## Stored blocks -/

/-- The number of bytes of a stored block that is not the last one. -/
def storedLength : Nat := 31745

theorem length_drop_lt {n : Nat} {data : List UInt8} (hn : 0 < n) (h : ¬ data.length < n) :
    (data.drop n).length < data.length := by
  rw [List.length_drop]
  omega

/-- The second byte of the header for each effort. The first is always the same. -/
def effortByte (level : Nat) : UInt8 :=
  if level ≤ 1 then 0x01 else if level ≤ 3 then 0x5e else if level ≤ 8 then 0x9c else 0xda

/-- The two bytes at the start of a stream. -/
def headerBytes (level : Nat) : List UInt8 := [0x78, effortByte level]

/-- A number of 16 bits, low byte first. -/
def littleEndian16 (n : Nat) : List UInt8 := [n.toUInt8, (n / 256).toUInt8]

/-- One stored block. -/
def storedBlock (final : Bool) (data : List UInt8) : List UInt8 :=
  (if final then 1 else 0) :: littleEndian16 data.length ++ littleEndian16 (65535 - data.length)
    ++ data

/-- The data in stored blocks, all but the last of them full. The last one may be empty. -/
def storedBlocks (data : List UInt8) : List UInt8 :=
  if _ : data.length < storedLength then storedBlock true data
  else storedBlock false (data.take storedLength) ++ storedBlocks (data.drop storedLength)
termination_by data.length
decreasing_by exact length_drop_lt (by decide) (by assumption)

/-- A stream around blocks. -/
def stream (level : Nat) (blocks data : List UInt8) : List UInt8 :=
  headerBytes level ++ blocks ++ BigEndian.encode 4 (adler32 data)

/-- A stream that holds the data as they are. -/
def stored (level : Nat) (data : List UInt8) : List UInt8 := stream level (storedBlocks data) data

/-! ## Writing bits

Bits are gathered, the lowest of each byte first, and handed over as bytes once eight are there. -/

/-- Bits that are being written. Fewer than eight of them are pending. -/
structure BitWriter where
  bytes : Array UInt8 := #[]
  pending : UInt64 := 0
  count : UInt64 := 0

namespace BitWriter

/-- Hands over a byte, if eight bits are there. -/
def settle (w : BitWriter) : BitWriter :=
  if 8 ≤ w.count then
    { bytes := w.bytes.push w.pending.toUInt8, pending := w.pending >>> 8, count := w.count - 8 }
  else w

/-- Adds the low bits of a number, sixteen at most, the lowest first. -/
def push (w : BitWriter) (value width : Nat) : BitWriter :=
  let pending := w.pending ||| (value.toUInt64 <<< w.count)
  settle (settle { w with pending, count := w.count + width.toUInt64 })

/-- Fills up the last byte with zeros. -/
def align (w : BitWriter) : BitWriter :=
  if w.count = 0 then w else { bytes := w.bytes.push w.pending.toUInt8 }

/-- All bytes, the last of them filled up with zeros. -/
def finish (w : BitWriter) : Array UInt8 := w.align.bytes

end BitWriter

/-! ## Coded blocks -/

/-- The last entry of a table that is not above a number, with its index. -/
def entryFor (table : List (Nat × Nat)) (n : Nat) : Nat × Nat × Nat :=
  table.zipIdx.foldl
    (fun best ((least, extra), symbol) => if least ≤ n then (symbol, least, extra) else best)
    (0, 0, 0)

/-- The symbol of the end of a block. -/
def endSymbol : Nat := 256

/-- The codewords for literals and lengths, and for distances. -/
structure Words where
  literal : Array (Nat × Nat)
  distance : Array (Nat × Nat)

/-- The codewords of the fixed codes. -/
def Words.fixed : Words where
  literal := Huffman.words Huffman.fixedLengths
  distance := Huffman.words (List.replicate 32 5)

/-- Writes a symbol. -/
def putSymbol (words : Array (Nat × Nat)) (w : BitWriter) (symbol : Nat) : BitWriter :=
  let (word, width) := words.getD symbol (0, 0)
  w.push word width

/-- Writes a token. -/
def putToken (words : Words) (w : BitWriter) : Token → BitWriter
  | .literal b => putSymbol words.literal w b.toNat
  | .copy m =>
    let (symbol, least, extra) := entryFor lengthTable m.length
    let w := (putSymbol words.literal w (257 + symbol)).push (m.length - least) extra
    let (symbol, least, extra) := entryFor distanceTable m.distance
    (putSymbol words.distance w symbol).push (m.distance - least) extra

/-- Writes tokens and the end of their block. -/
def putTokens (words : Words) (w : BitWriter) (tokens : Array Token) : BitWriter :=
  putSymbol words.literal (tokens.foldl (putToken words) w) endSymbol

/-- How often each symbol of literals and lengths, and each symbol of distances, occurs. -/
def frequencies (tokens : Array Token) : Array Nat × Array Nat :=
  tokens.foldl (fun (literals, distances) token =>
    match token with
    | .literal b => (literals.modify b.toNat (· + 1), distances)
    | .copy m =>
      (literals.modify (257 + (entryFor lengthTable m.length).1) (· + 1),
        distances.modify (entryFor distanceTable m.distance).1 (· + 1)))
    ((Array.replicate 286 0).setIfInBounds endSymbol 1, Array.replicate 30 0)

/-- Writes the codes of a block: their sizes, the code for code lengths, and the code lengths. -/
def putCodes (w : BitWriter) (literals distances : List Nat) : BitWriter :=
  let runs := CodeLength.runs (literals ++ distances)
  let lengths := CodeLength.ofWeights 7 ((List.range 19).map fun symbol =>
    (runs.filter (·.symbol == symbol)).length)
  let ordered := CodeLength.trim 4 (lengthOrder.map fun symbol => lengths.getD symbol 0)
  let w := ((w.push (literals.length - 257) 5).push (distances.length - 1) 5).push
    (ordered.length - 4) 4
  let w := ordered.foldl (fun w length => w.push length 3) w
  let words := Huffman.words lengths
  runs.foldl (fun w run => (putSymbol words w run.symbol).push run.extra run.width) w

/-- Writes tokens in codes made for them. -/
def putOwnCoded (w : BitWriter) (tokens : Array Token) : BitWriter :=
  let (literals, distances) := frequencies tokens
  let literals := CodeLength.ofWeights Huffman.maxLength literals.toList
  let distances := CodeLength.ofWeights Huffman.maxLength distances.toList
  let w := putCodes (w.push 2 2) (CodeLength.trim 257 literals) (CodeLength.trim 1 distances)
  putTokens { literal := Huffman.words literals, distance := Huffman.words distances } w tokens

/-- Writes tokens in the fixed codes. -/
def putFixed (w : BitWriter) (tokens : Array Token) : BitWriter :=
  putTokens Words.fixed (w.push 1 2) tokens

/-- Writes bytes as they are. -/
def putStored (w : BitWriter) (data : Array UInt8) : BitWriter :=
  let w := (w.push 0 2).align
  let w := (w.push (data.size % 65536) 16).push (65535 - data.size % 65536) 16
  data.foldl (fun w b => w.push b.toNat 8) w

/-- Writes a block. It has codes of its own where it is not too small for them, and is stored where
coding it saves nothing. -/
def putBlock (data : Array UInt8) (w : BitWriter) (b : Block) (isFinal : Bool) : BitWriter :=
  let w := w.push isFinal.toNat 1
  let coded := if b.size < 48 then putFixed w b.tokens else putOwnCoded w b.tokens
  if 32 < b.size ∧ b.size ≤ coded.bytes.size - w.bytes.size + 1 ∧ b.isStorable then
    putStored w (data.extract b.start (b.start + b.size))
  else coded

/-- Writes blocks, the last of them as the final one. -/
def putBlocks (data : Array UInt8) (w : BitWriter) : List Block → BitWriter
  | [] => w
  | [b] => putBlock data w b true
  | b :: rest => putBlocks data (putBlock data w b false) rest

/-- The blocks of the data. The lowest level skims them. -/
def blocksAt (level : Nat) (data : Array UInt8) : List Block :=
  if level = 1 then skim data else blocks (Effort.ofLevel level) data

/-- A stream that holds the data in coded form. -/
def coded (level : Nat) (data : List UInt8) : List UInt8 :=
  let bytes := data.toArray
  let w := putBlocks bytes {} (blocksAt level bytes)
  stream level w.finish.toList data

/-- A stream that inflates to the data. Level 0 makes no effort to be short, and the others differ
in how hard they look for repetitions. -/
def deflate (level : Nat) (data : List UInt8) : List UInt8 :=
  if level = 0 then stored level data
  else
    let short := coded level data
    let read := (Reader.ofBytes short).collect (data.length + 1)
    if read.stop?.isNone ∧ read.bytes = data then short else stored level data

end PacketStream.Zlib
