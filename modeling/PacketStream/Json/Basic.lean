/-!
# JSON values

The values of JSON. A number keeps the kind that its text has: an integer of 64 bits, or a
floating-point number as its bit pattern. Members of an object are in the order of their keys, each
key once.
-/

namespace PacketStream

/-- A number of a document. -/
inductive Json.Number where
  /-- An integer from 0 on. -/
  | natural (n : UInt64)
  /-- An integer below 0. -/
  | negative (n : Int64)
  /-- A finite floating-point number, as its bit pattern. -/
  | float (bits : UInt64)
deriving DecidableEq, Repr

/-- A value of a document. -/
inductive Json where
  | null
  | bool (v : Bool)
  | number (n : Json.Number)
  | string (s : String)
  | array (items : List Json)
  | object (members : List (String × Json))
deriving Repr

namespace Json

instance : Inhabited Json := ⟨null⟩

/-- Keeps the last of each run of members with one key. -/
def lastOfRuns : List (String × Json) → List (String × Json)
  | [] => []
  | [m] => [m]
  | m :: n :: rest =>
    if m.1 = n.1 then lastOfRuns (n :: rest) else m :: lastOfRuns (n :: rest)

/-- The members in the order of their keys. Of several with one key the last stays. -/
def sortMembers (members : List (String × Json)) : List (String × Json) :=
  lastOfRuns (members.mergeSort fun m n => m.1 ≤ n.1)

end Json

end PacketStream
