import PacketStream.BigEndian

/-!
# Code lengths

The lengths of codewords for symbols of known weight, by merging the two lightest groups of symbols
until one is left. Lengths above a limit are brought down to it by lengthening the longest words
below it.

`runs` describes the lengths of a code the way a block does, with runs of equal lengths shortened.
-/

namespace PacketStream.Zlib.CodeLength

/-- Symbols that will be in one part of the code, by their depths, with their total weight. -/
structure Group where
  weight : Nat
  depths : List Nat

/-- Puts a group behind all that are no heavier. -/
def insert (g : Group) : List Group → List Group
  | [] => [g]
  | h :: rest => if g.weight < h.weight then g :: h :: rest else h :: insert g rest

theorem length_insert (g : Group) (groups : List Group) :
    (insert g groups).length = groups.length + 1 := by
  induction groups with
  | nil => rfl
  | cons h rest ih =>
    simp only [insert]
    split
    · rfl
    · simp [ih]

/-- Merges the two lightest groups until one is left, and gives its depths. -/
def merge : List Group → List Nat
  | [] => []
  | [g] => g.depths
  | g :: h :: rest =>
    merge (insert
      { weight := g.weight + h.weight, depths := (g.depths ++ h.depths).map (· + 1) } rest)
termination_by groups => groups.length
decreasing_by
  rw [length_insert]
  simp

/-- Makes a word longer, and its place that of two. The counts are those of the words of each
length, from the greatest on. -/
def lengthen : List Nat → List Nat
  | c :: (d + 1) :: rest => (c + 2) :: d :: rest
  | c :: 0 :: rest => c :: lengthen (0 :: rest)
  | counts => counts

/-- Moves words of the greatest length to shorter ones, as often as given. -/
def relieve (counts : List Nat) : (excess : Nat) → List Nat
  | 0 => counts
  | excess + 1 =>
    match counts with
    | [] => []
    | c :: rest => relieve (lengthen ((c - 1) :: rest)) excess

/-- The numbers of words of each length, from `limit` down to one. -/
def counts (limit : Nat) (depths : List Nat) : List Nat :=
  let capped := depths.map fun d => min limit (max 1 d)
  let counts := (List.range limit).map fun i => capped.count (limit - i)
  let total := counts.foldr (fun c n => c + 2 * n) 0
  if depths.length ≤ 1 then counts else relieve counts (total - 2 ^ limit)

/-- The lengths of codewords of at most `limit` bits for symbols with the given weights. A symbol
without weight gets no codeword. -/
def ofWeights (limit : Nat) (weights : List Nat) : List Nat :=
  let used := (weights.zipIdx.filter (0 < ·.1)).mergeSort fun a b => a.1 ≤ b.1
  let depths := merge (used.map fun (weight, _) => { weight, depths := [0] })
  let lengths := (counts limit depths).zipIdx.flatMap fun (c, i) => List.replicate c (limit - i)
  let given := (used.zip lengths).foldl (fun (out : Array Nat) ((_, symbol), length) =>
    out.setIfInBounds symbol length) (Array.replicate weights.length 0)
  given.toList

/-! ## Description of a code -/

/-- A symbol of the code for code lengths, with extra bits. -/
structure Run where
  symbol : Nat
  extra : Nat := 0
  width : Nat := 0

/-- A number of zeros, 138 at most. -/
def zeros (n : Nat) : List Run :=
  if n < 3 then List.replicate n { symbol := 0 }
  else if n ≤ 10 then [{ symbol := 17, extra := n - 3, width := 3 }]
  else [{ symbol := 18, extra := n - 11, width := 7 }]

/-- A number of repetitions of the length before, six at most. -/
def repetitions (length n : Nat) : List Run :=
  if n < 3 then List.replicate n { symbol := length }
  else [{ symbol := 16, extra := n - 3, width := 2 }]

/-- A number of equal lengths. -/
def runOf (length n : Nat) : List Run :=
  if length = 0 then (List.replicate (n / 138) (zeros 138)).flatten ++ zeros (n % 138)
  else
    { symbol := length } :: (List.replicate ((n - 1) / 6) (repetitions length 6)).flatten
      ++ repetitions length ((n - 1) % 6)

/-- The description of lengths. -/
def runs (lengths : List Nat) : List Run :=
  (lengths.splitBy (· == ·)).flatMap fun run => runOf (run.headD 0) run.length

/-- The lengths without the zeros at their end, but not fewer than `least`. -/
def trim (least : Nat) (lengths : List Nat) : List Nat :=
  lengths.take (max least (lengths.reverse.dropWhile (· == 0)).length)

end PacketStream.Zlib.CodeLength
