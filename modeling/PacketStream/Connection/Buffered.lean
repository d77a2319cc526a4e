import PacketStream.Connection.Basic
import PacketStream.Connection.Inbox
import PacketStream.Frame.Streaming

/-!
# Buffered connections

A buffered connection takes bytes off its link as they come and gives messages as soon as their
frames are complete, and it queues what it could not write. Giving up in the middle of a frame loses
nothing: the bytes stay in the buffer.

`next` looks for a message before it reads. After the end of the stream, and once after each fault,
it gives none; the call after that goes on with what is buffered. A read brings no more than the
inbox has room for, and the inbox makes room for a whole frame as soon as its length is known.
-/

namespace PacketStream

/-- A connection with buffers on both sides of its link. -/
structure Buffered where
  link : Link
  framing : Framing
  /-- The bytes that have come and are in no message yet. -/
  inbox : Inbox := {}
  /-- The bytes that are still to be written. -/
  queued : List UInt8 := []
  /-- Whether the stream has ended. -/
  ended : Bool := false
  /-- Whether the bytes that have come may hold a message. -/
  readable : Bool := false
  /-- Whether the last call gave a fault. -/
  failed : Bool := false

namespace Buffered

/-- What a call gives: a message, a fault, or nothing more for now. -/
inductive Item where
  | message (m : Message)
  | fault (e : Fault)
  | done
deriving DecidableEq, Repr

/-- The number of queued bytes from which they are written before others are added. -/
def capacity : Nat := 8192

/-- Buffers a connection. Limits and threshold stay. -/
def ofConnection (c : Connection) : Traced Buffered := do
  let framing ← c.framing.changeThreshold c.framing.threshold
  return { link := c.link, framing }

/-! ## Receiving -/

/-- Looks for a message in the bytes that have come. -/
def look (s : Buffered) : Traced (Option Item × Buffered) := do
  let inbox := s.inbox.reserve (s.framing.missing s.inbox.bytes)
  if s.ended then
    match (← s.framing.last inbox.bytes) with
    | (.ok (some m), rest) => return (some (.message m), { s with inbox := inbox.leave rest })
    | (.ok none, rest) =>
      return (some .done, { s with inbox := inbox.leave rest, readable := false })
    | (.error e, rest) =>
      return (some (.fault e), { s with inbox := inbox.leave rest, failed := true })
  else
    match (← s.framing.next inbox.bytes) with
    | (.ok (some m), rest) => return (some (.message m), { s with inbox := inbox.leave rest })
    | (.ok none, rest) => return (none, { s with inbox := inbox.leave rest, readable := false })
    | (.error e, rest) =>
      return (some (.fault e), { s with inbox := inbox.leave rest, failed := true })

/-- Adds bytes that have come. -/
def arrive (bytes : List UInt8) (link : Link) (s : Buffered) : Buffered :=
  { s with link, inbox := s.inbox.append bytes, ended := false, readable := true }

/-- Reads until there is something to give. -/
def await (s : Buffered) : Traced (Item × Buffered) :=
  let inbox := s.inbox.reserve 1
  match h : s.link.receiveSome inbox.room with
  | (.error e, link) => return (.fault e, { s with link, inbox, failed := true })
  | (.ok bytes, link) =>
    if hb : bytes.isEmpty then
      if s.ended then return (.done, { s with link, inbox })
      else do
        let (item, after) ← look { s with link, inbox, ended := true, readable := true }
        return (item.getD .done, after)
    else do
      have : link.incoming.length < s.link.incoming.length := Link.length_lt_of_receiveSome h hb
      let (item, after) ← look (arrive bytes link { s with inbox })
      match item with
      | some item => return (item, after)
      | none => await { after with link }
termination_by s.link.incoming.length

/-- The next message, fault or pause. -/
def next (s : Buffered) : Traced (Item × Buffered) := do
  if s.failed then return (.done, { s with readable := false, failed := false })
  else if s.readable then
    match (← s.look) with
    | (some item, after) => return (item, after)
    | (none, after) => after.await
  else s.await

/-! ## Sending -/

/-- How queued bytes are written. -/
def writeRule : WriteRule := { onZero := .frameNotWritten, repeats := false }

/-- Writes what is queued and flushes. What could not be written stays queued. -/
def flush (s : Buffered) : Except Fault Unit × Buffered :=
  let d := deliver writeRule s.queued s.link.writes
  let link := { s.link with outgoing := s.link.outgoing ++ d.bytes, writes := d.turns }
  match d.fault with
  | some e => (.error e, { s with link, queued := d.pending })
  | none =>
    let (result, link) := link.flush
    (result, { s with link, queued := d.pending })

/-- Makes room for one more frame, if much is queued. -/
def makeRoom (s : Buffered) : Except Fault Unit × Buffered :=
  if s.queued.length < capacity then (.ok (), s) else s.flush

/-- Sends a message. If its frame cannot be made, nothing is queued. -/
def send (s : Buffered) (m : Message) : Traced (Except Fault Unit × Buffered) :=
  match s.makeRoom with
  | (.error e, after) => return (.error e, after)
  | (.ok (), after) => do
    match (← after.framing.enqueue m after.queued) with
    | (.error e, queued) => return (.error e, { after with queued })
    | (.ok (), queued) => return flush { after with queued }

/-- Changes the threshold for the frames that follow. -/
def changeThreshold (s : Buffered) (threshold : Option UInt32) : Traced Buffered := do
  let framing ← s.framing.changeThreshold threshold
  return { s with framing }

end Buffered

end PacketStream
