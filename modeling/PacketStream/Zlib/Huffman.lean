import PacketStream.BigEndian
import PacketStream.Zlib.BitReader

/-!
# Canonical Huffman codes

A code is given by the length of the codeword of each symbol, zero for a symbol that has none.
Codewords of one length are consecutive numbers in the order of their symbols, and the first of a
length follows on the last of the length before.

`Huffman.symbol` reads a codeword from its highest bit on, and `Huffman.words` lists the codewords.
A code need not use all words of its longest length; one that is not used is found out by then.
-/

namespace PacketStream.Zlib

/-- A code as the symbols of each codeword length from one on, in their order. -/
structure Huffman where
  levels : List (Array Nat)

namespace Huffman

/-- The longest codeword. -/
def maxLength : Nat := 15

/-- The code with the given length for each symbol. A code without symbols has a level too, where
its first bit is found to start no codeword. -/
def ofLengths (lengths : List Nat) : Huffman where
  levels := (List.range (max 1 (lengths.foldl max 0))).map fun n =>
    (lengths.zipIdx.filterMap fun (length, symbol) =>
      if length = n + 1 then some symbol else none).toArray

/-- The number of symbols that have a codeword. -/
def used (c : Huffman) : Nat :=
  c.levels.foldl (fun n symbols => n + symbols.size) 0

/-- The number of words of the longest length that start with a codeword. -/
def weight (c : Huffman) : Nat :=
  c.levels.foldl (fun n symbols => 2 * n + symbols.size) 0

/-- Whether every word starts with a codeword and none with two. -/
def isComplete (c : Huffman) : Bool := c.weight == 2 ^ c.levels.length

/-- Reads on behind a codeword's first bits, whose value is `word`. The first codeword with as many
bits is `first`. -/
def symbolFrom (word first : Nat) : List (Array Nat) → BitReader Nat
  | [] => .stop .corrupt
  | symbols :: longer => do
    let b ← BitReader.bit
    let word := 2 * word + b.toNat
    let first := 2 * first
    -- words below `first` start with a shorter codeword
    match symbols[word - first]? with
    | some symbol => return symbol
    | none => symbolFrom word (first + symbols.size) longer

/-- Reads a codeword and gives its symbol. -/
def symbol (c : Huffman) : BitReader Nat := symbolFrom 0 0 c.levels

/-- The lengths of the literal and length symbols in the fixed code. -/
def fixedLengths : List Nat :=
  List.replicate 144 8 ++ List.replicate 112 9 ++ List.replicate 24 7 ++ List.replicate 8 8

/-- The fixed code of literals and lengths. -/
def fixed : Huffman := ofLengths fixedLengths

/-- The fixed code of distances. -/
def fixedDistance : Huffman := ofLengths (List.replicate 32 5)

/-- The lowest bits of a number in reverse. -/
def reverseBits : (width : Nat) → (value : Nat) → Nat
  | 0, _ => 0
  | width + 1, value => value % 2 * 2 ^ width + reverseBits width (value / 2)

/-- The first codeword of each length, from zero on. -/
def firstWords (lengths : List Nat) : Array Nat :=
  ((List.range maxLength).foldl (fun (words, word) n =>
    let next := 2 * (word + if n = 0 then 0 else lengths.count n)
    (words.push next, next)) ((#[0] : Array Nat), 0)).1

/-- The codewords of a code, as they are written, and their lengths. -/
def words (lengths : List Nat) : Array (Nat × Nat) :=
  (lengths.foldl (fun (next, words) length =>
    let word := next.getD length 0
    (next.setIfInBounds length (word + 1), words.push (reverseBits length word, length)))
    (firstWords lengths, (#[] : Array (Nat × Nat)))).2

theorem size_lt_of_symbol {c : Huffman} (hc : c.levels ≠ []) {s t : BitSource} {n : Nat}
    (h : c.symbol.run s = .ok (n, t)) : t.size < s.size := by
  simp only [symbol] at h
  cases hl : c.levels with
  | nil => exact absurd hl hc
  | cons symbols longer =>
    rw [hl] at h
    exact BitReader.size_lt_of_andThen (fun hb => BitReader.size_lt_of_bit hb) h

theorem levels_ofLengths_ne_nil (lengths : List Nat) : (ofLengths lengths).levels ≠ [] := by
  have : max 1 (lengths.foldl max 0) ≠ 0 := by omega
  simp only [ofLengths, ne_eq, List.map_eq_nil_iff, List.range_eq_nil]
  exact this

end Huffman

end PacketStream.Zlib
