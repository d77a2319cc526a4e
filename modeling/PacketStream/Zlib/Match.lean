/-!
# Repetitions

Places where bytes of the data have occurred before. Places are linked by the hash of the three
bytes from them on: each link leads to the last earlier place with the same hash. A search follows
the links for as long as its effort allows and keeps the longest match.

Which matches are found affects only the size of what is written; whether it spells the data is
checked after it has been coded.
-/

namespace PacketStream.Zlib

/-- A copy of bytes that came before. -/
structure Match where
  length : Nat
  /-- How far back the copied bytes are. -/
  distance : Nat
deriving DecidableEq, Repr

/-- The shortest copy there is. -/
def minMatch : Nat := 3

/-- The longest copy there is. -/
def maxMatch : Nat := 258

/-- How hard matches are looked for. -/
structure Effort where
  /-- How many groups of three links are followed in search of a match, and how many in search of
  one that is longer than a long one. -/
  groups : Nat
  groupsAfterLong : Nat
  /-- Whether a match is taken at once, without a look at the next place. -/
  isGreedy : Bool

/-- The effort of a level. -/
def Effort.ofLevel (level : Nat) : Effort :=
  let links := #[0, 1, 6, 32, 16, 32, 128, 256, 512, 768].getD level 768
  { groups := (links + 2) / 3, groupsAfterLong := (links / 4 + 2) / 3, isGreedy := level ≤ 3 }

namespace Match

/-- The number of hashes. -/
def hashCount : Nat := 32768

/-- A match of at least this length is long. -/
def longMatch : Nat := 32

/-- The hash of three bytes. -/
def hash (a b c : UInt8) : Nat :=
  ((a.toUInt32 <<< 10) ^^^ (b.toUInt32 <<< 5) ^^^ c.toUInt32).toNat % hashCount

/-- The links of all places but the last two. Places are kept in 16 bits, and zero stands for
none. -/
def links (data : Array UInt8) : Array Nat :=
  go 0 (Array.replicate hashCount 0) (Array.mkEmpty data.size)
where
  /-- Adds the links from a place on. -/
  go (place : Nat) (latest out : Array Nat) : Array Nat :=
    if h : place + 2 < data.size then
      let k := hash data[place] data[place + 1] data[place + 2]
      let out := out.push (latest.getD k 0)
      go (place + 1) (latest.setIfInBounds k (place % 65536)) out
    else out
  termination_by data.size - place

/-- The number of bytes, up to `most`, that are the same from two places on. -/
def agreement (data : Array UInt8) (i j : Nat) : (most : Nat) → Nat
  | 0 => 0
  | most + 1 =>
    match data[i]?, data[j]? with
    | some a, some b => if a = b then agreement data (i + 1) (j + 1) most + 1 else 0
    | _, _ => 0

/-- Whether a match at `other` could be longer than `length`, by the bytes at which it would end. -/
def mayExceed (data : Array UInt8) (place other length : Nat) : Bool :=
  data[place + length]? == data[other + length]?
    && data[place + length - 1]? == data[other + length - 1]?

/-- Follows the links from `from` on for as many groups as given, and some links before. `best` has
the greatest length so far, and `limit` is the length to look for at most. -/
def follow (data : Array UInt8) (links : Array Nat) (place reach limit : Nat) :
    (groups more : Nat) → (last : Nat) → (best : Match) → Match
  | 0, 0, _, best => best
  | groups + 1, 0, last, best => follow data links place reach limit groups 3 last best
  | groups, more + 1, last, best =>
    let earlier := links.getD last 0
    let distance := (place + 65536 - earlier) % 65536
    if earlier = 0 ∨ reach < distance ∨ distance = 0 then best
    else
      let other := place - distance
      if mayExceed data place other best.length then
        let length := agreement data place other limit
        if length = limit then { length, distance }
        else
          let best := if best.length < length then { length, distance } else best
          follow data links place reach limit groups 0 other best
      else follow data links place reach limit groups more other best
termination_by groups more => (groups, more)

/-- The longest match at a place that is longer than `least`, if one is found. -/
def find? (data : Array UInt8) (links : Array Nat) (effort : Effort) (place reach least : Nat) :
    Option Match :=
  let limit := min maxMatch (data.size - place)
  if limit ≤ least then none
  else
    let groups := if least < longMatch then effort.groups else effort.groupsAfterLong
    let m := follow data links place reach limit groups 0 place { length := least, distance := 0 }
    -- a short match far back costs as much as its bytes
    let isPoor := m.length = minMatch ∧ 8192 ≤ m.distance
    if m.distance = 0 ∨ isPoor ∨ m.distance = place % 32768 then none else some m

end Match

end PacketStream.Zlib
