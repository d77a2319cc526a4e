import Mathlib
import PacketStream.Proofs.Buffer.Program

/-!
# What a buffer holds after any run of calls

`Buffer.Step` lists the calls: reads of every kind, writes of every kind, and those that put the cursor
back, drop all bytes or change the limit for strings. `runAll_store` runs them in memory, where a method
may be out of range, and says that none ever is: the store is that of the buffer after the same calls.

`bytes_runAll` tells its bytes, which are those of the writes since all were dropped last, whatever was
read in between. `Put.AllOrNothing` says which writes append nothing when they fail, and `intact_runAll`
puts this together with what the next call can do.
-/

namespace PacketStream

variable {α β : Type}

/-! ## Failing writes -/

namespace Put

/-- A piece that ends in a fault has appended nothing. -/
def AllOrNothing (p : Put) : Prop := ∀ limit, (p limit).fault.isSome → (p limit).bytes = []

theorem allOrNothing_raw (bytes : List UInt8) : (raw bytes).AllOrNothing := fun _ => nofun

theorem allOrNothing_fail (e : Fault) : (fail e).AllOrNothing := fun _ _ => rfl

/-- A length is refused in front of what it counts. -/
theorem allOrNothing_counted (field : String) (bytes : List UInt8) :
    (lengthOf field bytes.length ++ raw bytes).AllOrNothing := by
  intro limit h
  rw [append_def, lengthOf] at h ⊢
  split at h
  · rename_i hlong
    rw [if_pos hlong]
    rfl
  · cases h

theorem allOrNothing_varuint (bits : Nat) (v : UInt64) : (varuint bits v).AllOrNothing := by
  rw [varuint]
  split
  · exact allOrNothing_fail _
  · exact allOrNothing_raw _

theorem allOrNothing_text (s : String) : (text s).AllOrNothing := by
  intro limit h
  rw [text] at h ⊢
  split at h
  · rename_i hlong
    rw [if_pos hlong]
    rfl
  · rename_i hfits
    rw [if_neg hfits]
    exact allOrNothing_counted "string" _ limit h

theorem allOrNothing_ascii (s : String) : (ascii s).AllOrNothing := by
  rw [ascii]
  split
  · exact allOrNothing_raw _
  · exact allOrNothing_fail _

/-- **A single value is written whole or not at all.** -/
theorem allOrNothing_shape {s : Shape} (h : s.IsSingle) (v : s.Value) : (s.put v).AllOrNothing := by
  cases s with
  | varuint bits => exact allOrNothing_varuint bits v
  | text => exact allOrNothing_text v
  | ascii => exact allOrNothing_ascii v
  | byteArray => exact allOrNothing_counted "byte array" v
  | optional => exact absurd h not_false
  | bool | u8 | i8 | u16 | i16 | u32 | i32 | u64 | i64 | single | double | varshort | varint
    | varlong => exact allOrNothing_raw _

theorem AllOrNothing.put_error {p : Put} (h : p.AllOrNothing) {b after : Buffer} {e : Fault}
    (hput : b.put p = (.error e, after)) : after = b := by
  rw [Buffer.put] at hput
  rcases hwritten : p b.textLimit with ⟨bytes, _ | e'⟩ <;> rw [hwritten] at hput <;> cases hput
  have hnothing := h b.textLimit (by rw [hwritten]; rfl)
  rw [hwritten] at hnothing
  cases hnothing
  simp [Buffer.append]

end Put

/-! ## Calls -/

/-- What can be asked of a buffer: so many bytes, all that are left, a value of a shape, a bit set, the
packet at a place of a table, or an optional value that is one of these. -/
inductive Reading where
  | take (n : Nat)
  | rest
  | shape (s : Shape)
  | bitSet
  | fixedBitSet (n : Nat)
  | packet (d : Direction) (s : GameState) (n : Int32)
  | optional (inner : Reading)

namespace Reading

/-- What a reading gives. -/
@[reducible] def Value : Reading → Type
  | take _ | rest => List UInt8
  | shape s => s.Value
  | bitSet => BitSet
  | fixedBitSet n => FixedBitSet n
  | packet d _ _ => d.Packets
  | optional inner => Option inner.Value

/-- The read itself. -/
def get : (r : Reading) → Get r.Value
  | take n => Get.take n
  | rest => Get.rest
  | shape s => s.get
  | bitSet => BitSet.read
  | fixedBitSet n => FixedBitSet.read n
  | packet d s n => (d.get? s n).getD (throw (.protocol (.unknownPacket n s)))
  | optional inner => Get.optional inner.get

/-- How it is carried out in memory. -/
def program : (r : Reading) → Program r.get
  | take n => .take n
  | rest => .rest
  | shape s => s.program
  | bitSet => BitSet.program
  | fixedBitSet n => .fixedBitSet n
  | packet d s n => (d.program? s n).getD (.throw _)
  | optional inner => inner.program.optional

end Reading

/-- What can be put into a buffer: bytes as they are, a value of a shape, a bit set, a packet, or a
presence flag and what is present. -/
inductive Writing where
  | raw (bytes : List UInt8)
  | shape (s : Shape) (v : s.Value)
  | bitSet (s : BitSet)
  | fixedBitSet {n : Nat} (s : FixedBitSet n)
  | packet (d : Direction) (p : d.Packets)
  | absent
  | present (inner : Writing)

namespace Writing

/-- The piece itself. -/
def put : Writing → Put
  | raw bytes => Put.raw bytes
  | shape s v => s.put v
  | bitSet s => s.put
  | fixedBitSet s => s.put
  | packet d p => (d.payload p).put
  | absent => Put.bool false
  | present inner => Put.bool true ++ inner.put

/-- How it is written in memory. -/
def draft : (w : Writing) → Draft w.put
  | raw bytes => .raw bytes
  | shape s v => s.draft v
  | bitSet s => s.draft
  | fixedBitSet s => s.draft
  | packet d p => d.draft p
  | absent => .raw _
  | present inner => .andThen (.raw _) inner.draft

end Writing

/-- A call that changes a buffer. -/
inductive Step where
  | read (r : Reading)
  | write (w : Writing)
  | rewind
  | clear
  | limit (n : Nat)

/-- The store after a call, be it one that fails, if the call is not out of range. -/
def Store.step (s : Store) : Step → Option Store
  | .read r => (r.program.op.call s).map Prod.snd
  | .write w => (w.draft.op.call s).map Prod.snd
  | .rewind => some { s with cursor := 0 }
  | .clear => some { s with data := [], cursor := 0 }
  | .limit n => some { s with textLimit := n }

/-- The store after calls, the first call first, if none is out of range. -/
def Store.runAll (s : Store) (steps : List Step) : Option Store := steps.foldlM step s

namespace Buffer

/-- The buffer after a call, be it one that fails. -/
def step (b : Buffer) : Step → Buffer
  | .read r => (b.get r.get).2
  | .write w => (b.put w.put).2
  | .rewind => b.rewind
  | .clear => b.clear
  | .limit n => b.withTextLimit n

/-- The buffer after calls, the first call first. -/
def runAll (b : Buffer) (steps : List Step) : Buffer := steps.foldl step b

/-- The bytes that calls leave where there were some and strings had a limit: those of all writes since
the last time that all were dropped. -/
def stored (limit : Nat) (bytes : List UInt8) : List Step → List UInt8
  | [] => bytes
  | .write w :: steps => stored limit (bytes ++ (w.put limit).bytes) steps
  | .read _ :: steps => stored limit bytes steps
  | .rewind :: steps => stored limit bytes steps
  | .clear :: steps => stored limit [] steps
  | .limit n :: steps => stored n bytes steps

variable {b : Buffer}

/-- No call on the store of a buffer is out of range. -/
theorem step_store (b : Buffer) (call : Step) : b.store.step call = some (b.step call).store := by
  cases call with
  | read r => exact congrArg (Option.map Prod.snd) (r.program.performs b)
  | write w => exact congrArg (Option.map Prod.snd) (w.draft.writes b)
  | rewind =>
    exact congrArg (fun data => some ({ data, cursor := 0, textLimit := b.textLimit } : Store))
      b.bytes_rewind.symm
  | clear => rfl
  | limit n => rfl

/-- **No run of calls is ever out of range.** The store is that of the buffer after the same calls. -/
theorem runAll_store (b : Buffer) (steps : List Step) :
    b.store.runAll steps = some (b.runAll steps).store := by
  induction steps generalizing b with
  | nil => rfl
  | cons call steps ih =>
    rw [Store.runAll, List.foldlM_cons, step_store]
    exact ih (b.step call)

/-- A read, be it one that fails, leaves the bytes and the limit as they are, and the cursor where it
was or further on among the bytes. -/
theorem get_keeps (b : Buffer) (r : Reading) :
    ∃ n, n ≤ b.remaining ∧ (b.get r.get).2.store = { b.store with cursor := b.position + n } := by
  obtain ⟨n, hn, hafter⟩ := r.program.advances b
  exact ⟨n, hn, hafter ▸ store_advance hn⟩

/-- **The bytes after any run of calls are those that were written**, whatever was read between. -/
theorem bytes_runAll (b : Buffer) (steps : List Step) :
    (b.runAll steps).bytes = stored b.textLimit b.bytes steps := by
  induction steps generalizing b with
  | nil => rfl
  | cons call steps ih =>
    show ((b.step call).runAll steps).bytes = _
    rw [ih]
    cases call with
    | write w =>
      show stored b.textLimit (b.append (w.put b.textLimit).bytes).bytes steps = _
      rw [bytes_append, stored]
    | read r =>
      obtain ⟨n, -, hafter⟩ := get_keeps b r
      show stored (b.get r.get).2.store.textLimit (b.get r.get).2.store.data steps = _
      rw [hafter]
      rfl
    | rewind =>
      show stored b.textLimit b.rewind.bytes steps = _
      rw [bytes_rewind, stored]
    | clear => rfl
    | limit n => rfl

/-- **A buffer stays intact over any run of calls**, be they all that there are and whether they fail or
not. No call is out of range, so the run in memory comes to an end. Its bytes are those that were written
since it was cleared last. Its cursor stands among them, so that what is left to read can be told.

As to the next call: a read is not out of range either, whatever stops it and wherever. It leaves the
bytes as they are and the cursor where it was or further on, but not past the last byte. A write leaves
the cursor where it is and puts bytes behind those that are there. And the write of a single value that
fails, be it a string, a byte array or a varint of any width, changes nothing. -/
theorem intact_runAll (bytes : List UInt8) (steps : List Step) :
    let b := (ofBytes bytes).runAll steps
    ∃ s : Store, ({ data := bytes } : Store).runAll steps = some s ∧ s = b.store ∧
      (s.data = stored Limits.textLength bytes steps ∧ s.cursor ≤ s.data.length ∧
        Op.remaining.call s = some (.ok (s.data.length - s.cursor), s) ∧
        Op.unread.call s = some (.ok (s.data.drop s.cursor), s)) ∧
      (∀ r : Reading, ∃ cursor,
        r.program.op.call s = some ((b.get r.get).1, { s with cursor }) ∧
        s.cursor ≤ cursor ∧ cursor ≤ s.data.length) ∧
      (∀ w : Writing, w.draft.op.call s = some ((b.put w.put).1,
        { s with data := s.data ++ (w.put s.textLimit).bytes })) ∧
      ∀ shape : Shape, shape.IsSingle → ∀ (v : shape.Value) (e : Fault) (after : Store),
        (shape.draft v).op.call s = some (.error e, after) → after = s := by
  intro b
  have hlength := position_add_remaining (b := b)
  refine ⟨b.store, runAll_store (ofBytes bytes) steps, rfl, ⟨?_, ?_, ?_, ?_⟩, ?_, ?_, ?_⟩
  · exact bytes_runAll (ofBytes bytes) steps
  · show b.position ≤ b.bytes.length
    omega
  · rw [Op.call_remaining, cursor_store, data_store, ← hlength, Nat.add_sub_cancel_left]
  · rw [Op.call_unread, data_store, cursor_store, drop_bytes]
  · intro r
    obtain ⟨n, hn, hafter⟩ := get_keeps b r
    refine ⟨b.position + n, ?_, Nat.le_add_right _ _, ?_⟩
    · rw [r.program.performs b, hafter]
    · show b.position + n ≤ b.bytes.length
      omega
  · intro w
    rw [w.draft.writes b]
    exact congrArg (fun after => some ((b.put w.put).1, after)) (store_append b _)
  · intro shape hsingle v e after h
    rw [(shape.draft v).writes b] at h
    rcases hput : b.put (shape.put v) with ⟨reply, last⟩
    rw [hput] at h
    cases h
    rw [(Put.allOrNothing_shape hsingle v).put_error hput]

/-- A handshake that ends inside its port leaves the cursor behind the address. A string that is too long
is not written; behind a flag that says that it is there the flag stays. The read behind that takes the
byte of the port for a flag, and the next one fails at the end. -/
theorem intact_runAll_handshake :
    let steps : List Step := [
      .limit 2, .read (.packet .serverbound .handshaking 0), .write (.shape .text "abc"),
      .write (.present (.shape .text "abc")), .read (.optional .rest)]
    let s : Store := { data := [5, 1, 0x61, 0, 1], cursor := 4, textLimit := 2 }
    ({ data := [5, 1, 0x61, 0] } : Store).runAll steps = some s ∧
      Op.unread.call s = some (.ok [1], s) ∧
      (∃ cursor, (Reading.shape .u16).program.op.call s
        = some (.error (.insufficientData 4 2 1), { s with cursor })) ∧
      Shape.text.IsSingle ∧
      (Shape.text.draft "abc").op.call s
        = some (.error (.validation (.tooLong "string" 3 2)), s) := by
  intro steps s
  let b := (ofBytes [5, 1, 0x61, 0]).runAll steps
  have hb : b = { consumed := [5, 1, 0x61, 0], unread := [1], textLimit := 2 } := by cbv
  obtain ⟨s', hrun, hs, ⟨-, -, -, hunread⟩, hreads, hwrites, hsingle⟩ :=
    intact_runAll [5, 1, 0x61, 0] steps
  obtain rfl : s' = s := hs.trans (congrArg store hb)
  refine ⟨hrun, hunread, ?_, trivial, ?_⟩
  · obtain ⟨cursor, hread, -⟩ := hreads (.shape .u16)
    have hreply : (b.get (Reading.shape .u16).get).1 = .error (.insufficientData 4 2 1) := by
      rw [hb]
      cbv
    exact ⟨cursor, hreply ▸ hread⟩
  · have hwrite := hwrites (.shape .text "abc")
    have hreply : (b.put (Writing.shape .text "abc").put).1
        = .error (.validation (.tooLong "string" 3 2)) := by
      rw [hb]
      cbv
    have hsame := hsingle .text trivial "abc" _ _ (hreply ▸ hwrite)
    exact (hreply ▸ hwrite).trans (congrArg (fun after => some (_, after)) hsame)

end Buffer

end PacketStream
