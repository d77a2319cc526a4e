import Mathlib
import PacketStream.Proofs.Bits.Wire
import PacketStream.Proofs.Buffer.Reading
import PacketStream.Proofs.Buffer.Store

/-!
# Methods perform reads and writes

`Buffer.store` is a buffer as it lies in memory. `Op.Performs` says that a method does to the store of a
buffer what a read does to the buffer, so that it is never out of range, and `Op.Writes` says the same of
a method that writes.

A read that is taken back as a whole is performed by a method that puts the cursor back at each place
where it fails. `Op.PerformsBack` is what holds of the parts of such a method, with the cursor of the
buffer somewhere in front of them.
-/

namespace PacketStream

variable {α β : Type}

/-! ## Buffers in memory -/

/-- A buffer as it lies in memory. -/
def Buffer.store (b : Buffer) : Store :=
  { data := b.bytes, cursor := b.position, textLimit := b.textLimit }

namespace Buffer

variable {b : Buffer} {n : Nat}

@[simp] theorem cursor_store (b : Buffer) : b.store.cursor = b.position := rfl

@[simp] theorem data_store (b : Buffer) : b.store.data = b.bytes := rfl

@[simp] theorem textLimit_store (b : Buffer) : b.store.textLimit = b.textLimit := rfl

/-- Moving the cursor in memory, as long as it stays among the bytes. -/
theorem store_advance (h : n ≤ b.remaining) :
    (b.advance n).store = { b.store with cursor := b.position + n } := by
  rw [store, bytes_advance, position_advance h]
  rfl

/-- Putting the cursor back in memory. -/
theorem store_back (b : Buffer) (n : Nat) :
    { (b.advance n).store with cursor := b.position } = b.store := by
  simp [store, advance, bytes]

theorem store_append (b : Buffer) (bytes : List UInt8) :
    (b.append bytes).store = { b.store with data := b.bytes ++ bytes } := by
  rw [store, bytes_append]
  rfl

theorem drop_bytes (b : Buffer) : b.bytes.drop b.position = b.unread := List.drop_left

theorem take_drop_bytes (b : Buffer) (n : Nat) :
    (b.bytes.take (b.position + n)).drop b.position = b.unread.take n := by
  rw [List.drop_take, Nat.add_sub_cancel_left, drop_bytes]

end Buffer

namespace Op

/-- What the method does to the store of a buffer, the read does to the buffer; it is never out of
range. -/
def Performs (op : Op α) (g : Get α) : Prop :=
  ∀ b : Buffer, op.call b.store = some ((b.get g).1, (b.get g).2.store)

/-- What the method does to the store of a buffer, the piece does to the buffer. -/
def Writes (op : Op Unit) (p : Put) : Prop :=
  ∀ b : Buffer, op.call b.store = some ((b.put p).1, (b.put p).2.store)

theorem performs_pure (a : α) : (pure a : Op α).Performs (pure a) := fun _ => rfl

theorem performs_throw (e : Fault) : (throw e : Op α).Performs (throw e) := fun _ => rfl

theorem performs_cursor : cursor.Performs Get.position := fun _ => rfl

/-- **Methods that are made of methods perform what is made of their reads.** -/
theorem Performs.bind {x : Op α} {g : Get α} {f : α → Op β} {k : α → Get β} (hx : x.Performs g)
    (hf : ∀ a, (f a).Performs (k a)) : (x >>= f).Performs (g >>= k) := by
  intro b
  rw [call_bind, hx b, Buffer.get_bind]
  rcases b.get g with ⟨e | a, after⟩
  · rfl
  · exact hf a after

theorem Performs.ite {c : Prop} [Decidable c] {x y : Op α} {g h : Get α} (hx : x.Performs g)
    (hy : y.Performs h) : (if c then x else y).Performs (if c then g else h) := by
  split
  · exact hx
  · exact hy

/-! ### Bytes -/

variable {b : Buffer} {n : Nat}

theorem call_cursor_store (b : Buffer) : cursor.call b.store = some (.ok b.position, b.store) := rfl

theorem call_remaining (b : Buffer) : remaining.call b.store = some (.ok b.remaining, b.store) := by
  have hlength := Buffer.position_add_remaining (b := b)
  have hle : b.position ≤ b.bytes.length := by omega
  have hrest : b.bytes.length - b.position = b.remaining := by omega
  rw [← hrest]
  show (if b.position ≤ b.bytes.length then _ else _ : Op Nat).call b.store = _
  rw [if_pos hle]
  rfl

theorem call_slice {s : Store} {start stop : Nat} (h : start ≤ stop) (hstop : stop ≤ s.data.length) :
    (slice start stop).call s = some (.ok ((s.data.take stop).drop start), s) := by
  show (if start ≤ stop ∧ stop ≤ s.data.length then _ else _ : Op (List UInt8)).call s = _
  rw [if_pos ⟨h, hstop⟩]
  rfl

/-- The bytes behind the cursor of a buffer, wherever the cursor has been put since. -/
theorem call_slice_next {s : Store} (hdata : s.data = b.bytes) (hn : n ≤ b.remaining) :
    (slice b.position (b.position + n)).call s = some (.ok (b.unread.take n), s) := by
  have hlength := Buffer.position_add_remaining (b := b)
  rw [call_slice (Nat.le_add_right _ _) (by rw [hdata]; omega), hdata, Buffer.take_drop_bytes]

theorem call_slice_rest {s : Store} (hdata : s.data = b.bytes) :
    (slice b.position b.bytes.length).call s = some (.ok b.unread, s) := by
  rw [← Buffer.position_add_remaining, call_slice_next hdata (Nat.le_refl _), Buffer.remaining,
    List.take_length]

theorem call_unread (b : Buffer) : unread.call b.store = some (.ok b.unread, b.store) := by
  rw [unread, call_bind_of_ok (call_cursor _), call_bind_of_ok (call_length _)]
  exact call_slice_rest rfl

theorem call_ensure_of_le (h : n ≤ b.remaining) :
    (ensure n).call b.store = some (.ok (), b.store) := by
  rw [ensure, call_bind_of_ok (call_remaining b), if_neg (Nat.not_lt.2 h)]
  rfl

theorem call_ensure_of_lt (h : b.remaining < n) : (ensure n).call b.store =
    some (.error (.insufficientData b.position n b.remaining), b.store) := by
  rw [ensure, call_bind_of_ok (call_remaining b), if_pos h]
  rfl

theorem performs_read (n : Nat) : (read n).Performs (Get.take n) := by
  intro b
  rw [read, Buffer.get_take]
  rcases Nat.lt_or_ge b.remaining n with hshort | hn
  · rw [call_bind_of_error (call_ensure_of_lt hshort), if_pos hshort]
  · rw [call_bind_of_ok (call_ensure_of_le hn), call_bind_of_ok (call_cursor_store b),
      call_bind_of_ok (call_seek _ _), if_neg (Nat.not_lt.2 hn), Buffer.store_advance hn]
    exact call_slice_next rfl hn

theorem performs_readBigEndian (width : Nat) :
    (readBigEndian width).Performs (Get.bigEndian width) := by
  intro b
  rw [readBigEndian, readWith, Get.bigEndian, Buffer.get_bind, Buffer.get_take]
  rcases Nat.lt_or_ge b.remaining width with hshort | hn
  · rw [call_bind_of_error (call_ensure_of_lt hshort), if_pos hshort]
  · rw [call_bind_of_ok (call_ensure_of_le hn), call_bind_of_ok (call_cursor_store b),
      call_bind_of_ok (call_slice_next b.data_store hn), call_bind_of_ok (call_seek _ _),
      if_neg (Nat.not_lt.2 hn)]
    show _ = some (_, (b.advance width).store)
    rw [Buffer.store_advance hn]
    rfl

theorem performs_readRest : readRest.Performs Get.rest := by
  intro b
  have hrest : b.get Get.rest = (.ok b.unread, b.advance b.remaining) := rfl
  rw [readRest, call_bind_of_ok (call_cursor _), call_bind_of_ok (call_length _),
    call_bind_of_ok (call_seek _ _), call_bind_of_ok (call_length _), hrest,
    Buffer.store_advance (Nat.le_refl _), Buffer.position_add_remaining]
  exact call_slice_rest rfl

/-! ### Putting the cursor back -/

/-- With the cursor moved on by `n`, the method does what the read does, but where it fails it puts the
cursor back to where the buffer has it. -/
def PerformsBack (b : Buffer) (n : Nat) (op : Op α) (g : Get α) : Prop :=
  op.call (b.advance n).store = some (match (b.advance n).get g with
    | (.ok a, after) => (.ok a, after.store)
    | (.error e, _) => (.error e, b.store))

theorem performsBack_pure (a : α) : PerformsBack b n (pure a) (pure a) := rfl

theorem performsBack_textLimit : PerformsBack b n textLimit Get.textLimit := rfl

theorem performsBack_failAt (cause : Malformation) :
    PerformsBack b n (failAt b.position (.malformed cause) : Op α) (Get.malformed cause) := by
  rw [PerformsBack, call_failAt, Buffer.get_malformed, Buffer.store_back]

theorem PerformsBack.ite {c : Prop} [Decidable c] {x y : Op α} {g h : Get α}
    (hx : PerformsBack b n x g) (hy : PerformsBack b n y h) :
    PerformsBack b n (if c then x else y) (if c then g else h) := by
  split
  · exact hx
  · exact hy

/-- The first part of a read needs not put the cursor back, if it fails without moving it. -/
theorem Performs.back {op : Op α} {g : Get α} (h : op.Performs g) (hg : g.Robust) (b : Buffer) :
    PerformsBack b 0 op g := by
  rw [PerformsBack, Buffer.advance_zero, h b]
  rcases hget : b.get g with ⟨e | a, after⟩
  · rw [hg.restores hget]
  · rfl

/-- A later part puts it back. -/
theorem Performs.orBack {op : Op α} {g : Get α} (h : op.Performs g) (hg : g.Robust) :
    PerformsBack b n (tryCatch op (failAt b.position)) g := by
  rw [PerformsBack, call_tryCatch, h]
  rcases hget : (b.advance n).get g with ⟨e | a, after⟩
  · rw [hg.restores hget]
    dsimp only
    rw [call_failAt, Buffer.store_back]
  · rfl

theorem PerformsBack.bind {x : Op α} {g : Get α} {f : α → Op β} {k : α → Get β}
    (hx : PerformsBack b n x g) (hg : g.Follows g) (hf : ∀ a m, PerformsBack b m (f a) (k a)) :
    PerformsBack b n (x >>= f) (g >>= k) := by
  rw [PerformsBack, call_bind, hx, Buffer.get_bind]
  rcases hget : (b.advance n).get g with ⟨e | a, after⟩
  · rfl
  · obtain ⟨m, -, rfl, -⟩ := hg hget
    rw [Buffer.advance_advance]
    exact hf a (n + m)

/-- **A method that puts the cursor back by hand** performs a read that is taken back as a whole. -/
theorem performs_restoring {f : Nat → Op α} {k : Nat → Get α}
    (h : ∀ b : Buffer, PerformsBack b 0 (f b.position) (k b.position)) :
    (cursor >>= f).Performs (Get.position >>= k).restoring := by
  intro b
  have hback := h b
  rw [PerformsBack, Buffer.advance_zero] at hback
  rw [call_bind_of_ok (call_cursor_store b), hback, Buffer.get_restoring,
    Buffer.get_bind_of_ok (Buffer.get_position b)]
  rcases b.get (k b.position) with ⟨e | a, after⟩
  · rfl
  · rfl

/-! ### Single values -/

theorem performs_readByte : readByte.Performs Get.byte :=
  (performs_readBigEndian 1).bind fun n => performs_pure n.toUInt8

theorem performs_readBool : readBool.Performs Get.bool := by
  refine performs_restoring fun b => ?_
  refine (performs_readByte.back Get.robust_byte b).bind Get.robust_byte.follows fun flag n => ?_
  exact (performsBack_pure false).ite ((performsBack_pure true).ite (performsBack_failAt _))

theorem performs_readVaruint (bits : Nat) : (readVaruint bits).Performs (Get.varuint bits) := by
  intro b
  rw [readVaruint, call_bind_of_ok (call_unread b), Buffer.get_varuint]
  rcases hdecode : Varint.decode bits b.unread with refusal | (_ | ⟨value, size⟩)
  · rfl
  · rfl
  · have hbits : 0 < bits := Varint.pos_of_decode (by rw [hdecode]; simp)
    have hsize : size ≤ b.remaining := (Varint.decode_bounds hbits hdecode).2.1
    dsimp only
    rw [call_bind_of_ok (call_cursor_store b), call_bind_of_ok (call_seek _ _),
      Buffer.store_advance hsize]
    rfl

theorem performs_readVarint : readVarint.Performs Get.varint :=
  (performs_readVaruint 32).bind fun v => performs_pure v.toUInt32.toInt32

theorem performs_readText : readText.Performs Get.text := by
  refine performs_restoring fun b => ?_
  refine (performs_readVarint.back Get.robust_varint b).bind Get.robust_varint.follows
    fun length n => ?_
  refine performsBack_textLimit.bind Get.Follows.textLimit fun limit m => ?_
  refine (performsBack_failAt _).ite ((performsBack_failAt _).ite ?_)
  refine ((performs_read _).orBack (Get.robust_take _)).bind (Get.follows_take _) fun bytes k => ?_
  cases Utf8.decode bytes with
  | error refusal => exact performsBack_failAt _
  | ok s => exact (performsBack_failAt _).ite (performsBack_pure s)

theorem performs_readByteArray : readByteArray.Performs Get.byteArray := by
  refine performs_restoring fun b => ?_
  refine (performs_readVarint.back Get.robust_varint b).bind Get.robust_varint.follows
    fun length n => ?_
  exact (performsBack_failAt _).ite ((performs_read _).orBack (Get.robust_take _))

theorem performs_readAscii : readAscii.Performs Get.ascii := by
  intro b
  rw [readAscii, call_bind_of_ok (call_unread b)]
  rcases Buffer.split_at_zero b.unread with hnone | ⟨chars, rest, hnonzero, hunread⟩
  · have hfind : b.unread.findIdx? (· == 0) = none := by simpa using hnone
    rw [hfind, Buffer.get_ascii_of_nonzero hnone]
    rfl
  · have hfind : b.unread.findIdx? (· == 0) = some chars.length := by
      rw [hunread, List.findIdx?_append, List.findIdx?_eq_none_iff.2 (by simpa using hnonzero)]
      simp [List.findIdx?_cons]
    have hlength : chars.length + 1 ≤ b.remaining := by
      rw [Buffer.remaining, hunread]
      simp
    have htake : b.unread.take chars.length = chars := by
      rw [hunread, List.take_left]
    have hstop : ¬ b.unread.length < chars.length := Nat.not_lt.2 (Nat.le_of_succ_le hlength)
    rw [hfind, Buffer.get_ascii_of_zero hnonzero hunread]
    dsimp only
    rw [if_neg hstop, htake]
    split
    · rw [Buffer.store_advance hlength]
      rfl
    · rfl

/-! ### Bit sets -/

theorem call_readBigEndian {width : Nat} (h : width ≤ b.remaining) :
    (readBigEndian width).call b.store =
      some (.ok (BigEndian.decode (b.unread.take width)), (b.advance width).store) := by
  rw [performs_readBigEndian, Get.bigEndian, Buffer.get_bind, Buffer.get_take,
    if_neg (Nat.not_lt.2 h)]
  rfl

/-- Words that are read one by one are those of all their bytes. -/
theorem call_readEach (count : Nat) (h : 8 * count ≤ b.remaining) :
    (readEach count).call b.store =
      some (.ok (BitSet.wordsOfBytes (b.unread.take (8 * count))), (b.advance (8 * count)).store) := by
  induction count generalizing b with
  | zero => simp [readEach, BitSet.wordsOfBytes, Buffer.advance]
  | succ count ih =>
    have hword : 8 ≤ b.remaining := by omega
    have hlater : 8 * count ≤ (b.advance 8).remaining := by
      rw [Buffer.remaining_advance]
      omega
    have height : (b.unread.take 8).length = 8 := List.length_take_of_le hword
    have hsplit : b.unread.take (8 * (count + 1))
        = b.unread.take 8 ++ (b.advance 8).unread.take (8 * count) := by
      rw [Nat.mul_succ, Nat.add_comm, List.take_add]
      rfl
    rw [readEach, call_bind_of_ok (call_readBigEndian hword), call_bind_of_ok (ih hlater), hsplit,
      BitSet.wordsOfBytes_append height, Buffer.advance_advance, Nat.add_comm, ← Nat.mul_succ]
    rfl

theorem performs_readWords (count : Nat) : (readWords count).Performs
    (Get.take (8 * count) >>= fun bytes => pure { words := BitSet.wordsOfBytes bytes }) := by
  intro b
  rw [readWords, Buffer.get_bind, Buffer.get_take]
  rcases Nat.lt_or_ge b.remaining (8 * count) with hshort | hn
  · rw [call_bind_of_error (call_ensure_of_lt hshort), if_pos hshort]
  · rw [call_bind_of_ok (call_ensure_of_le hn), call_bind_of_ok (call_readEach count hn),
      if_neg (Nat.not_lt.2 hn)]
    rfl

theorem performs_readFixedBitSet (n : Nat) :
    (readFixedBitSet n).Performs (FixedBitSet.read n) := by
  intro b
  have hread := performs_read (FixedBitSet.byteLength n) b
  rw [Buffer.get_take] at hread
  show _ = some ((FixedBitSet.read n b).1, (FixedBitSet.read n b).2.store)
  rw [readFixedBitSet, FixedBitSet.read]
  rcases Nat.lt_or_ge b.remaining (FixedBitSet.byteLength n) with hshort | hn
  · rw [if_pos hshort] at hread
    rw [call_bind_of_error hread, dif_pos hshort]
  · have hlength : (b.unread.take (FixedBitSet.byteLength n)).length = FixedBitSet.byteLength n :=
      FixedBitSet.length_take hn
    rw [if_neg (Nat.not_lt.2 hn)] at hread
    rw [call_bind_of_ok hread, dif_neg (Nat.not_lt.2 hn), dif_pos hlength]
    rfl

/-! ### Writes -/

theorem writes_write (bytes : List UInt8) : (write bytes).Writes (Put.raw bytes) := by
  intro b
  show _ = some (Except.ok (), (b.append bytes).store)
  rw [call_write, Buffer.store_append]
  rfl

theorem writes_throw (e : Fault) : (throw e : Op Unit).Writes (Put.fail e) := by
  intro b
  rw [call_throw, Put.put_of_fail rfl]

/-- **Writes in sequence** write what is joined, and none after one that fails. -/
theorem Writes.andThen {x y : Op Unit} {p q : Put} (hx : x.Writes p) (hy : y.Writes q) :
    (do x; y).Writes (p ++ q) := by
  intro b
  have hfirst := hx b
  rw [Buffer.put] at hfirst ⊢
  rw [Put.append_def, Put.andThen]
  rcases hp : p b.textLimit with ⟨bytes, _ | e⟩
  · rw [hp] at hfirst
    rw [call_bind_of_ok hfirst, hy (b.append bytes), Buffer.put]
    simp [Buffer.append]
  · rw [hp] at hfirst
    exact call_bind_of_error hfirst

theorem Writes.ite {c : Prop} [Decidable c] {x y : Op Unit} {p q : Put} (hx : x.Writes p)
    (hy : y.Writes q) : (if c then x else y).Writes (if c then p else q) := by
  split
  · exact hx
  · exact hy

theorem writes_writeVaruint (bits : Nat) (v : UInt64) :
    (writeVaruint bits v).Writes (Put.varuint bits v) :=
  (writes_throw _).ite (writes_write _)

theorem writes_writeLength (field : String) (length : Nat) :
    (writeLength field length).Writes (Put.lengthOf field length) :=
  (writes_throw _).ite (writes_write _)

theorem writes_writeByteArray (bytes : List UInt8) :
    (writeByteArray bytes).Writes (Put.byteArray bytes) :=
  (writes_writeLength _ _).andThen (writes_write bytes)

theorem writes_writeAscii (s : String) : (writeAscii s).Writes (Put.ascii s) := by
  have hboth : Put.raw (Utf8.encode s) ++ Put.raw [0] = Put.raw (Utf8.encode s ++ [0]) := rfl
  exact (hboth ▸ (writes_write _).andThen (writes_write [0])).ite (writes_throw _)

theorem writes_writeText (s : String) : (writeText s).Writes (Put.text s) := by
  intro b
  rw [writeText, call_bind_of_ok (call_textLimit _), Buffer.textLimit_store]
  by_cases hlong : b.textLimit < s.length
  · rw [if_pos hlong, Put.put_of_fail (by rw [Put.text, if_pos hlong])]
    rfl
  · have hcounted : b.put (Put.text s)
        = b.put (Put.lengthOf "string" (Utf8.encode s).length ++ Put.raw (Utf8.encode s)) := by
      rw [Buffer.put, Buffer.put, Put.text, if_neg hlong]
    rw [if_neg hlong, hcounted]
    exact ((writes_writeLength _ _).andThen (writes_write _)) b

theorem writes_writeEach (words : List UInt64) : (writeEach words).Writes
    (Put.raw (words.flatMap fun w => BigEndian.encode 8 w.toNat)) := by
  induction words with
  | nil =>
    intro b
    show _ = some (Except.ok (), (b.append []).store)
    rw [Buffer.store_append, List.append_nil]
    rfl
  | cons w words ih => exact (writes_write (BigEndian.encode 8 w.toNat)).andThen ih

end Op

end PacketStream
