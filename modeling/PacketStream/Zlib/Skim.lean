import PacketStream.Zlib.Token

/-!
# Skimming

The parse that makes the least effort: at each place it tries the one earlier place that is
remembered for the hash of the next three bytes, and takes what it finds. Places inside a copy are
not remembered.

Data are skimmed in segments. No copy crosses the end of a segment, and the reach of a copy ends
where the whole of its segment would not fit into the window any more. A new segment starts where
the last one ends, and after each block.
-/

namespace PacketStream.Zlib

/-- A stretch of the data. -/
structure Segment where
  start : Nat
  stop : Nat

namespace Segment

/-- The longest segment. -/
def maxLength : Nat := 4096

/-- The segment from a place on, in data of the given size. -/
def ofPlace (size place : Nat) : Segment := { start := place, stop := min (place + maxLength) size }

/-- How far back a copy at a place of the segment may reach. -/
def reach (s : Segment) (place : Nat) : Nat :=
  min s.start (windowSize - (s.stop - s.start)) + (place - s.start)

end Segment

/-- A skim that has reached a place. -/
structure Skim where
  place : Nat
  segment : Segment
  /-- The last place remembered for each hash, in 16 bits. -/
  latest : Array Nat
  block : Block := { start := 0 }
  blocks : Array Block := #[]

namespace Skim

/-- The number of hashes. -/
def hashCount : Nat := 4096

/-- The hash of three bytes. -/
def hash (a b c : UInt8) : Nat :=
  let word := a.toUInt32 ||| (b.toUInt32 <<< 8) ||| (c.toUInt32 <<< 16)
  (word ^^^ (word >>> 17)).toNat % hashCount

/-- The copy at a place from the earlier place with the given low 16 bits, if it is worth it. -/
def find? (data : Array UInt8) (segment : Segment) (place earlier : Nat) : Option Match :=
  let distance := (place + 65536 - earlier) % 65536
  if distance = 0 ∨ segment.reach place < distance then none
  else
    let limit := min maxMatch (segment.stop - place)
    let length := Match.agreement data place (place - distance) limit
    if length < minMatch ∨ length = minMatch ∧ 8192 ≤ distance then none
    else some { length, distance }

/-- Goes on by one place and `more`. Ends the block if it has no space left. -/
def advance (size place more : Nat) (segment : Segment) (latest : Array Nat) (block : Block)
    (blocks : Array Block) : Skim :=
  let place := place + (more + 1)
  if block.isOutOfSpace then
    { place, latest
      segment := Segment.ofPlace size place
      block := { start := place }
      blocks := blocks.push (block.close (min windowSize (segment.reach place)) place) }
  else if place < segment.stop then { place, segment, latest, block, blocks }
  else { place, segment := Segment.ofPlace size place, latest, block, blocks }

/-- Takes the byte at the place into account. -/
def step (data : Array UInt8) (b : UInt8) : Skim → Skim
  | { place, segment, latest, block, blocks } =>
    if place + 4 ≤ segment.stop then
      let k := hash b (data.getD (place + 1) 0) (data.getD (place + 2) 0)
      let earlier := latest.getD k 0
      let latest := latest.setIfInBounds k (place % 65536)
      match find? data segment place earlier with
      | none => advance data.size place 0 segment latest (block.push (.literal b)) blocks
      | some m =>
        advance data.size place (m.length - 1) segment latest (block.push (.copy m)) blocks
    else advance data.size place 0 segment latest (block.push (.literal b)) blocks

theorem place_lt_advance (size place more : Nat) (segment : Segment) (latest : Array Nat)
    (block : Block) (blocks : Array Block) :
    place < (advance size place more segment latest block blocks).place := by
  simp only [advance]
  split
  · exact Nat.lt_add_of_pos_right (Nat.succ_pos more)
  · split <;> exact Nat.lt_add_of_pos_right (Nat.succ_pos more)

theorem place_lt_step (data : Array UInt8) (b : UInt8) (s : Skim) :
    s.place < (s.step data b).place := by
  simp only [step]
  split
  · split <;> exact place_lt_advance ..
  · exact place_lt_advance ..

/-- Goes on to the end of the data. -/
def finish (data : Array UInt8) (s : Skim) : Skim :=
  if h : s.place < data.size then finish data (s.step data data[s.place]) else s
termination_by data.size - s.place
decreasing_by
  have := place_lt_step data data[s.place] s
  omega

end Skim

/-- The blocks of data that are skimmed. The last one may be empty. -/
def skim (data : Array UInt8) : List Block :=
  let s := Skim.finish data {
    place := 0
    segment := Segment.ofPlace data.size 0
    latest := Array.replicate Skim.hashCount 0 }
  (s.blocks.push (s.block.close (min windowSize data.size) s.place)).toList

end PacketStream.Zlib
