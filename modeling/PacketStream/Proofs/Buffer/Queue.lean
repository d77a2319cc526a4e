import Mathlib
import PacketStream.Proofs.Buffer.Shape

/-!
# A buffer as a queue

Values are written to a buffer and read from it in any order of calls, as long as each read asks for
the shape of the value whose turn it is, and comes after its write. Then the buffer is a first-in
first-out queue of typed values: `reads_accessAll` says that every read gives the value of its
write, and that the bytes still unread are those of the values still unread.

`Buffer.Holds` is the view: the unread bytes are the encodings of the values in the queue. A write
adds a value at the back of the view (`Holds.put`), a read takes the one at its front (`Holds.get`),
and `Holds.run` is the run of both by induction on the calls.
-/

namespace PacketStream

/-- A value with the shape in which it is written. -/
structure Entry where
  shape : Shape
  value : shape.Value

namespace Entry

def put (e : Entry) : Put := e.shape.put e.value

/-- The bytes in which the entry is written, under a limit for strings. -/
def bytes (limit : Nat) (e : Entry) : List UInt8 := (e.put limit).bytes

end Entry

/-- A call that writes a value, or reads one of a shape. -/
inductive Access where
  | write (e : Entry)
  | read (s : Shape)

namespace Access

def written? : Access → Option Entry
  | write e => some e
  | read _ => none

def asked? : Access → Option Shape
  | write _ => none
  | read s => some s

/-- The values that are written, in the order of the calls. -/
def written (accesses : List Access) : List Entry := accesses.filterMap written?

/-- The shapes that are asked for, in the order of the calls. -/
def asked (accesses : List Access) : List Shape := accesses.filterMap asked?

/-- At each point of the run, the shapes asked for so far are those of the first values written, of
which `waiting` were there at the start: the `k`-th read asks for the shape of the `k`-th write and
comes after it. -/
def Orderly (waiting : List Entry) (accesses : List Access) : Prop :=
  ∀ k, k ≤ accesses.length →
    asked (accesses.take k) <+: (waiting ++ written (accesses.take k)).map Entry.shape

instance (waiting : List Entry) (accesses : List Access) : Decidable (Orderly waiting accesses) :=
  inferInstanceAs (Decidable (∀ k, k ≤ accesses.length → _))

variable {waiting : List Entry} {accesses : List Access} {e : Entry} {s : Shape}

/-- What is orderly behind a write has the value written at the back. -/
theorem Orderly.of_write (h : Orderly waiting (write e :: accesses)) :
    Orderly (waiting ++ [e]) accesses := by
  intro k hk
  have hnext := h (k + 1) (Nat.succ_le_succ hk)
  rw [List.append_assoc]
  exact hnext

/-- A read asks for the value at the front, and what is orderly behind it goes on with the rest. -/
theorem Orderly.of_read (h : Orderly waiting (read s :: accesses)) :
    ∃ e rest, waiting = e :: rest ∧ e.shape = s ∧ Orderly rest accesses := by
  have hfirst : [s] <+: (waiting ++ []).map Entry.shape := h 1 (by simp)
  rw [List.append_nil] at hfirst
  cases waiting with
  | nil => simp at hfirst
  | cons e rest =>
    rw [List.map_cons, List.cons_prefix_cons] at hfirst
    refine ⟨e, rest, rfl, hfirst.1.symm, ?_⟩
    intro k hk
    have hnext := h (k + 1) (Nat.succ_le_succ hk)
    have hcons : s :: asked (accesses.take k)
        <+: e.shape :: (rest ++ written (accesses.take k)).map Entry.shape := hnext
    rw [List.cons_prefix_cons] at hcons
    exact hcons.2

end Access

open Access

namespace Buffer

/-- What came of calls, one after the other. -/
structure Accessed where
  writes : List (Except Fault Unit)
  reads : List (Except Fault Entry)
  last : Buffer

/-- Makes the calls. -/
def accessAll (b : Buffer) : List Access → Accessed
  | [] => { writes := [], reads := [], last := b }
  | .write e :: accesses =>
    let (result, after) := b.put e.put
    let later := after.accessAll accesses
    { later with writes := result :: later.writes }
  | .read s :: accesses =>
    let (result, after) := b.get s.get
    let later := after.accessAll accesses
    { later with reads := result.map (Entry.mk s) :: later.reads }

/-! ## The view -/

/-- The unread bytes are the encodings of the entries in the queue, each of which can be read. -/
structure Holds (b : Buffer) (entries : List Entry) : Prop where
  unread : b.unread = entries.flatMap (Entry.bytes b.textLimit)
  encodes : ∀ e ∈ entries, e.put.run b.textLimit = .ok (e.bytes b.textLimit)
  readable : ∀ e ∈ entries, e.shape.IsReadable

variable {b : Buffer} {entries : List Entry} {e : Entry} {accesses : List Access}

theorem Holds.nil (h : b.unread = []) : b.Holds [] where
  unread := h
  encodes := by simp
  readable := by simp

theorem put_ok (h : (b.put e.put).1 = .ok ()) :
    e.put.run b.textLimit = .ok (e.bytes b.textLimit) ∧
      b.put e.put = (.ok (), b.append (e.bytes b.textLimit)) := by
  rw [Put.run_eq_ok, Entry.bytes]
  simp only [put] at h ⊢
  rcases hput : e.put b.textLimit with ⟨bytes, _ | fault⟩
  · exact ⟨rfl, rfl⟩
  · rw [hput] at h
    cases h

/-- **A write adds an entry at the back.** -/
theorem Holds.put (h : b.Holds entries) (hreadable : e.shape.IsReadable)
    (hput : (b.put e.put).1 = .ok ()) : (b.put e.put).2.Holds (entries ++ [e]) := by
  obtain ⟨hrun, hafter⟩ := put_ok hput
  rw [hafter]
  refine ⟨?_, ?_, ?_⟩
  · show b.unread ++ e.bytes b.textLimit = _
    rw [h.unread, List.flatMap_append, List.flatMap_singleton]
    rfl
  · intro e' he'
    rcases List.mem_append.1 he' with hold | hnew
    · exact h.encodes e' hold
    · obtain rfl := List.mem_singleton.1 hnew
      exact hrun
  · intro e' he'
    rcases List.mem_append.1 he' with hold | hnew
    · exact h.readable e' hold
    · obtain rfl := List.mem_singleton.1 hnew
      exact hreadable

/-- **A read takes the entry at the front**, whatever has been written behind it. -/
theorem Holds.get (h : b.Holds (e :: entries)) :
    ∃ after, b.get e.shape.get = (.ok e.value, after) ∧ after.Holds entries ∧
      after.bytes = b.bytes ∧ after.textLimit = b.textLimit := by
  have hrun := h.encodes e List.mem_cons_self
  have hreads := e.shape.readsBack (h.readable e List.mem_cons_self) e.value hrun b.consumed
    (entries.flatMap (Entry.bytes b.textLimit)) (by simp)
  have hunread : b.unread = e.bytes b.textLimit ++ entries.flatMap (Entry.bytes b.textLimit) := by
    rw [h.unread, List.flatMap_cons]
  rw [← hunread] at hreads
  refine ⟨_, hreads, ⟨rfl, ?_, ?_⟩, ?_, rfl⟩
  · intro e' he'
    exact h.encodes e' (List.mem_cons_of_mem _ he')
  · intro e' he'
    exact h.readable e' (List.mem_cons_of_mem _ he')
  · rw [Buffer.bytes, Buffer.bytes, hunread, List.append_assoc]

/-! ## The run -/

/-- The queue in front of the calls and the values written by them, less those that have been read,
are the queue behind the calls. -/
theorem Holds.run (h : b.Holds entries) (horderly : Orderly entries accesses)
    (hreadable : ∀ e ∈ written accesses, e.shape.IsReadable)
    (hwrites : ∀ r ∈ (b.accessAll accesses).writes, r = .ok ()) :
    let ran := b.accessAll accesses
    let queue := entries ++ written accesses
    let taken := (asked accesses).length
    ran.reads = (queue.take taken).map .ok ∧ ran.last.Holds (queue.drop taken) ∧
      ran.last.bytes = b.bytes ++ (written accesses).flatMap (Entry.bytes b.textLimit) ∧
      ran.last.textLimit = b.textLimit := by
  induction accesses generalizing b entries with
  | nil =>
    refine ⟨rfl, ?_, (List.append_nil _).symm, rfl⟩
    show b.Holds (entries ++ [])
    rwa [List.append_nil]
  | cons access accesses ih =>
    cases access with
    | write e =>
      have hput : (b.put e.put).1 = .ok () := hwrites _ List.mem_cons_self
      have hlater : ∀ r ∈ ((b.put e.put).2.accessAll accesses).writes, r = .ok () :=
        fun r hr => hwrites r (List.mem_cons_of_mem _ hr)
      have hnext := h.put (hreadable e List.mem_cons_self) hput
      obtain ⟨hreads, hholds, hbytes, hlimit⟩ := ih hnext horderly.of_write
        (fun e' he' => hreadable e' (List.mem_cons_of_mem _ he')) hlater
      have hsame : (b.put e.put).2 = b.append (e.bytes b.textLimit) := by rw [(put_ok hput).2]
      rw [List.append_assoc] at hreads hholds
      refine ⟨hreads, hholds, ?_, ?_⟩
      · show ((b.put e.put).2.accessAll accesses).last.bytes = _
        rw [hbytes, hsame, bytes_append, List.append_assoc]
        rfl
      · show ((b.put e.put).2.accessAll accesses).last.textLimit = _
        rw [hlimit, hsame]
        rfl
    | read s =>
      obtain ⟨e, rest, rfl, rfl, hrest⟩ := horderly.of_read
      obtain ⟨after, hget, hafter, hbytes, hlimit⟩ := h.get
      have hrun : b.accessAll (.read e.shape :: accesses) = { after.accessAll accesses with
          reads := .ok e :: (after.accessAll accesses).reads } := by
        simp only [Buffer.accessAll, hget]
        rfl
      rw [hrun] at hwrites ⊢
      obtain ⟨hreads, hholds, hlast, hsame⟩ := ih hafter hrest hreadable hwrites
      refine ⟨?_, hholds, ?_, hsame.trans hlimit⟩
      · show .ok e :: (after.accessAll accesses).reads = .ok e :: _
        rw [hreads]
        rfl
      · show (after.accessAll accesses).last.bytes = _
        rw [hlast, hbytes, hlimit]
        rfl

/-- **A buffer is a typed first-in first-out queue.** Start with a buffer in which all has been
read, and let values be written and read in any interleaving in which the `k`-th read asks for the
shape of the `k`-th value and comes after its write. If all writes succeed, every read gives the
value of its write. Writes only append, and what is unread afterwards are the values not read yet,
in their order; after as many reads as writes there are none. -/
theorem reads_accessAll (b : Buffer) (accesses : List Access) (hb : b.unread = [])
    (horderly : Orderly [] accesses)
    (hreadable : ∀ e ∈ written accesses, e.shape.IsReadable)
    (hwrites : ∀ r ∈ (b.accessAll accesses).writes, r = .ok ()) :
    let ran := b.accessAll accesses
    let taken := (asked accesses).length
    ran.reads = ((written accesses).take taken).map .ok ∧
      ran.last.bytes = b.bytes ++ (written accesses).flatMap (Entry.bytes b.textLimit) ∧
      ran.last.unread = ((written accesses).drop taken).flatMap (Entry.bytes b.textLimit) ∧
      (taken = (written accesses).length → ran.last.remaining = 0) := by
  obtain ⟨hreads, hholds, hbytes, hlimit⟩ :=
    (Holds.nil hb).run horderly hreadable hwrites
  rw [List.nil_append] at hreads hholds
  have hunread := hholds.unread
  rw [hlimit] at hunread
  refine ⟨hreads, hbytes, hunread, ?_⟩
  intro hall
  rw [hall, List.drop_length] at hunread
  rw [remaining, hunread]
  rfl

/-- A number, a string and a varint of seven bits are read while others are written behind them,
from a buffer that starts with a byte that has been read. An absent value is left. -/
theorem reads_accessAll_interleaved :
    let accesses : List Access := [
      .write ⟨.i16, -2⟩, .write ⟨.text, "né"⟩, .read .i16, .write ⟨.varuint 7, 127⟩, .read .text,
      .write ⟨.optional (.optional .ascii), some (some "ok")⟩, .read (.varuint 7),
      .read (.optional (.optional .ascii)), .write ⟨.optional .byteArray, none⟩]
    let b : Buffer := { consumed := [9], textLimit := 2 }
    (b.unread = [] ∧ Orderly [] accesses ∧ (∀ e ∈ written accesses, e.shape.IsReadable) ∧
      ∀ r ∈ (b.accessAll accesses).writes, r = .ok ()) ∧
    (b.accessAll accesses).reads = [
      .ok ⟨.i16, -2⟩, .ok ⟨.text, "né"⟩, .ok ⟨.varuint 7, 127⟩,
      .ok ⟨.optional (.optional .ascii), some (some "ok")⟩] ∧
    (b.accessAll accesses).last.unread = [0] := by
  intro accesses b
  have horderly : Orderly [] accesses := by decide
  have hreadable : ∀ e ∈ written accesses, e.shape.IsReadable := by decide
  have hwrites : (b.accessAll accesses).writes = List.replicate 5 (.ok ()) := by cbv
  have hall : ∀ r ∈ (b.accessAll accesses).writes, r = .ok () := by
    rw [hwrites]
    exact fun r hr => List.eq_of_mem_replicate hr
  obtain ⟨hreads, -, hunread, -⟩ := reads_accessAll b accesses rfl horderly hreadable hall
  exact ⟨⟨rfl, horderly, hreadable, hall⟩, hreads, hunread⟩

end Buffer

end PacketStream
