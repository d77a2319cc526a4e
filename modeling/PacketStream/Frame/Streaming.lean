import PacketStream.Frame.Decode
import PacketStream.Frame.Encode

/-!
# Frames from a growing input, and for a growing output

`next` takes the first frame off the bytes that have arrived. While the frame is not complete it
takes nothing, so it can be asked again when there is more; `missing` tells how much more. A fault
in front of the contents takes nothing either; a fault inside them takes the whole frame.

`enqueue` puts a frame behind the bytes that are still to be sent, or leaves them as they are.
-/

namespace PacketStream.Framing

/-- The result of a look for a message, and the bytes that are left for the next. -/
abbrev Look := Except Fault (Option Message) × List UInt8

/-- The first message of the bytes, if its frame is complete. -/
def next (f : Framing) (arrived : List UInt8) : Traced Look :=
  match Varint.decode varintBits arrived with
  | .error refusal => return (.error (.malformed (.varint varintBits refusal)), arrived)
  | .ok none => return (.ok none, arrived)
  | .ok (some (value, size)) => do
    match (← (f.checkLength value.toUInt32.toInt32).run) with
    | .error e => return (.error e, arrived)
    | .ok length =>
      let behind := arrived.drop size
      if behind.length < length then return (.ok none, arrived)
      else
        let m ← (f.decode (behind.take length)).run
        return (m.map some, behind.drop length)

/-- The number of bytes that have to arrive before the first frame is complete. It is zero where the
frame's length has not arrived, or is not acceptable. -/
def missing (f : Framing) (arrived : List UInt8) : Nat :=
  match Varint.decode varintBits arrived with
  | .ok (some (value, size)) =>
    match (f.checkLength value.toUInt32.toInt32).outcome with
    | .ok length => size + length - arrived.length
    | .error _ => 0
  | _ => 0

/-- The first message of the bytes where no more will arrive. Bytes of an incomplete frame are a
fault then. -/
def last (f : Framing) (arrived : List UInt8) : Traced Look := do
  match (← f.next arrived) with
  | (.ok none, rest) =>
    if rest.isEmpty then return (.ok none, rest)
    else return (.error (.transfer .bytesRemaining), rest)
  | look => return look

/-- Puts the frame of a message behind the bytes that are still to be sent. -/
def enqueue (f : Framing) (m : Message) (queued : List UInt8) :
    Traced (Except Fault Unit × List UInt8) := do
  match (← (f.encodeMessage m).run) with
  | .error e => return (.error e, queued)
  | .ok frame => return (.ok (), queued ++ frame)

/-- The same limits under another threshold. -/
def changeThreshold (f : Framing) (threshold : Option UInt32) : Traced Framing := do
  Traced.report (.streamThreshold threshold)
  return { f with threshold }

end PacketStream.Framing
