import PacketStream.BigEndian
import PacketStream.Event

/-!
# Links

A byte stream between two peers, with everything it will do laid down beforehand: the bytes that
will come in, and for each call how many bytes it moves or how it fails. Whatever a real stream does
is such a link, so a statement about all links holds of all streams.

A call for which nothing is laid down moves all that it can. `receive` and `send` make calls until
all bytes have been moved or one of the calls fails for good; `collect_split` and `deliver_split`
say that no byte is lost, repeated or changed on the way.

An `Exchange α` reads from a link and writes to it, may fail, and reports events. Each part leaves
the link where it put it, also when it fails.
-/

namespace PacketStream

/-- What a stream does on one call. -/
inductive Turn where
  /-- Moves at most so many bytes. A read of no bytes is the end of the stream. -/
  | move (most : Nat)
  /-- Fails, but might not have. -/
  | interrupted
  | failed (reason : String)
  /-- Is not ready, and is called again at once when it is. -/
  | waiting
deriving DecidableEq, Repr

/-- How calls are made. -/
inductive Mode where
  /-- Each call waits until it can be answered. -/
  | blocking
  /-- A call gives way to other work while it cannot be answered. -/
  | cooperative
deriving DecidableEq, Repr

/-- A byte stream. -/
structure Link where
  mode : Mode := .blocking
  /-- The bytes that are still to be read. -/
  incoming : List UInt8 := []
  /-- The bytes that have been written. -/
  outgoing : List UInt8 := []
  /-- What the stream does on the next calls. -/
  reads : List Turn := []
  writes : List Turn := []
  flushes : List Turn := []
deriving DecidableEq, Repr

/-- What came of reading bytes. -/
structure Collected where
  bytes : List UInt8
  /-- The bytes that are still to be read. -/
  incoming : List UInt8
  turns : List Turn
  fault : Option Fault

/-- Reads until `missing` of `expected` bytes have come. -/
def collect (expected missing : Nat) (incoming : List UInt8) : (turns : List Turn) → Collected
  | [] =>
    let bytes := incoming.take missing
    let short := missing - bytes.length
    { bytes, incoming := incoming.drop missing, turns := []
      fault := if short = 0 then none else some (.connectionClosed (expected - short) expected) }
  | turn :: turns =>
    if missing = 0 then { bytes := [], incoming, turns := turn :: turns, fault := none }
    else
      match turn with
      | .interrupted | .waiting => collect expected missing incoming turns
      | .failed reason =>
        { bytes := [], incoming, turns, fault := some (.transfer (.other reason)) }
      | .move most =>
        let n := min most missing
        let chunk := incoming.take n
        if chunk.isEmpty then
          { bytes := [], incoming, turns
            fault := some (.connectionClosed (expected - missing) expected) }
        else
          let later := collect expected (missing - chunk.length) (incoming.drop n) turns
          { later with bytes := chunk ++ later.bytes }

/-- What calls a writer makes again, and what it makes of a call that moves nothing. -/
structure WriteRule where
  onZero : TransferFault
  /-- Whether an interrupted call is made again. -/
  repeats : Bool

/-- What came of writing bytes. -/
structure Delivered where
  bytes : List UInt8
  /-- The bytes that are still to be written. -/
  pending : List UInt8
  turns : List Turn
  fault : Option Fault

/-- Writes until all bytes have gone. -/
def deliver (rule : WriteRule) (data : List UInt8) : (turns : List Turn) → Delivered
  | [] => { bytes := data, pending := [], turns := [], fault := none }
  | turn :: turns =>
    if data.isEmpty then { bytes := [], pending := [], turns := turn :: turns, fault := none }
    else
      match turn with
      | .waiting => deliver rule data turns
      | .interrupted =>
        if rule.repeats then deliver rule data turns
        else { bytes := [], pending := data, turns, fault := some (.transfer .interrupted) }
      | .failed reason =>
        { bytes := [], pending := data, turns, fault := some (.transfer (.other reason)) }
      | .move 0 => { bytes := [], pending := data, turns, fault := some (.transfer rule.onZero) }
      | .move most =>
        let later := deliver rule (data.drop most) turns
        { later with bytes := data.take most ++ later.bytes }

/-- Makes sure that what was written is on its way. -/
def settle : (turns : List Turn) → Option Fault × List Turn
  | [] => (none, [])
  | .waiting :: turns => settle turns
  | .interrupted :: turns => (some (.transfer .interrupted), turns)
  | .failed reason :: turns => (some (.transfer (.other reason)), turns)
  | .move _ :: turns => (none, turns)

namespace Link

/-- The outcome of a call that may have ended in a fault. -/
def outcome {α : Type} (a : α) : Option Fault → Except Fault α
  | none => .ok a
  | some e => .error e

/-- Reads just so many bytes. If the stream ends or fails before, those that came are gone. -/
def receive (n : Nat) (l : Link) : Except Fault (List UInt8) × Link :=
  let c := collect n n l.incoming l.reads
  (outcome c.bytes c.fault, { l with incoming := c.incoming, reads := c.turns })

/-- Reads at most so many bytes in one call. -/
def receiveSome (most : Nat) (l : Link) : Except Fault (List UInt8) × Link :=
  go l.reads
where
  /-- Makes the call, once the stream is ready for it. -/
  go : List Turn → Except Fault (List UInt8) × Link
    | [] => take most []
    | .waiting :: turns => go turns
    | .interrupted :: turns => (.error (.transfer .interrupted), { l with reads := turns })
    | .failed reason :: turns => (.error (.transfer (.other reason)), { l with reads := turns })
    | .move n :: turns => take (min n most) turns
  /-- Moves bytes. -/
  take (n : Nat) (turns : List Turn) : Except Fault (List UInt8) × Link :=
    (.ok (l.incoming.take n), { l with incoming := l.incoming.drop n, reads := turns })

/-- Flushes what has been written. -/
def flush (l : Link) : Except Fault Unit × Link :=
  let (fault, turns) := settle l.flushes
  (outcome () fault, { l with flushes := turns })

/-- How packets are written in each mode. A blocking writer makes an interrupted call again; a
cooperative one fails with the first call that does. -/
def writeRule : Mode → WriteRule
  | .blocking => { onZero := .bufferNotWritten, repeats := true }
  | .cooperative => { onZero := .writeZero, repeats := false }

/-- Writes all bytes and flushes. -/
def send (data : List UInt8) (l : Link) : Except Fault Unit × Link :=
  let d := deliver (writeRule l.mode) data l.writes
  let after := { l with outgoing := l.outgoing ++ d.bytes, writes := d.turns }
  match d.fault with
  | some e => (.error e, after)
  | none => after.flush

/-- Adds bytes to those that will come in. -/
def feed (bytes : List UInt8) (l : Link) : Link := { l with incoming := l.incoming ++ bytes }

/-- Turns what has been written into what will come in. -/
def loopBack (l : Link) : Link :=
  { l with incoming := l.incoming ++ l.outgoing, outgoing := [] }

end Link

/-! ## Calls end

A call that moves bytes leaves fewer to come, so a reader that makes calls while bytes come ends. -/

theorem Link.length_lt_of_receiveSome {l after : Link} {most : Nat} {bytes : List UInt8}
    (h : l.receiveSome most = (.ok bytes, after)) (hb : ¬ bytes.isEmpty) :
    after.incoming.length < l.incoming.length := by
  have htake {n : Nat} {turns : List Turn}
      (ht : receiveSome.take l n turns = (.ok bytes, after)) :
      after.incoming.length < l.incoming.length := by
    simp only [receiveSome.take, Prod.mk.injEq, Except.ok.injEq] at ht
    obtain ⟨rfl, rfl⟩ := ht
    simp only [List.isEmpty_iff, List.take_eq_nil_iff, not_or] at hb
    have := List.length_pos_iff.2 hb.2
    rw [List.length_drop]
    omega
  simp only [receiveSome] at h
  generalize l.reads = turns at h
  induction turns with
  | nil => exact htake h
  | cons turn turns ih =>
    cases turn with
    | waiting => exact ih h
    | interrupted => simp [receiveSome.go] at h
    | failed reason => simp [receiveSome.go] at h
    | move n => exact htake h

/-! ## No byte is lost -/

/-- The bytes read and those still to be read are those that were to come. -/
theorem collect_split (expected missing : Nat) (incoming : List UInt8) (turns : List Turn) :
    let c := collect expected missing incoming turns
    c.bytes ++ c.incoming = incoming := by
  induction turns generalizing missing incoming with
  | nil => simp [collect]
  | cons turn turns ih =>
    simp only [collect]
    split
    · rfl
    · split
      · exact ih ..
      · exact ih ..
      · rfl
      · split
        · rfl
        · rw [List.append_assoc, ih]
          simp

/-- The bytes written and those still to be written are those that were given. -/
theorem deliver_split (rule : WriteRule) (data : List UInt8) (turns : List Turn) :
    let d := deliver rule data turns
    d.bytes ++ d.pending = data := by
  induction turns generalizing data with
  | nil => simp [deliver]
  | cons turn turns ih =>
    simp only [deliver]
    split
    · rename_i h
      simpa using h
    · split
      · exact ih ..
      · split
        · exact ih ..
        · rfl
      · rfl
      · rfl
      · rw [List.append_assoc, ih]
        simp

/-! ## Exchanges -/

/-- A computation on a link, which may fail and reports events. -/
abbrev Exchange (α : Type) := ExceptT Fault (StateT Link Traced) α

namespace Exchange

variable {α : Type}

/-- A use of the link that reports nothing. -/
def ofLink (f : Link → Except Fault α × Link) : Exchange α := fun l => pure (f l)

/-- A computation that leaves the link alone. -/
def ofChecked (x : Checked α) : Exchange α := fun l => return (← x.run, l)

/-- Reads just so many bytes. -/
def receive (n : Nat) : Exchange (List UInt8) := ofLink (Link.receive n)

/-- Reads one byte. -/
def receiveByte : Exchange UInt8 := return BigEndian.decode (← receive 1) |>.toUInt8

/-- Writes all bytes and flushes. -/
def send (data : List UInt8) : Exchange Unit := ofLink (Link.send data)

end Exchange

end PacketStream
