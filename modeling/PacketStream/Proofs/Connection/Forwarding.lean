import Mathlib
import PacketStream.Packet.Status
import PacketStream.Proofs.Connection.Atomicity

/-!
# Forwarding

A frame can be made of a packet, whose fields are then checked and written, or of a buffer that
holds the fields already. `enqueue_eq_encode` says that both ways lead to the same frame or the same
fault, whatever has been read of the buffer before, and under whatever limit for strings.

A message that was taken off a stream has its id in front of the cursor, perhaps in a longer form
than the one that is written. It can be sent on as it is: `next_framed` is what a reader then finds.
-/

namespace PacketStream.Framing

variable {f g : Framing} {id : Int32} {payload : Payload} {m : Message}
  {bytes frame arrived rest : List UInt8}

/-- The body of a packet: the shortest varint of its id, and its fields. -/
def joined (id : Int32) (fields : List UInt8) : List UInt8 :=
  Varint.encode id.toUInt32.toNat ++ fields

/-- The frame that holds a body, if the limit allows its contents. -/
def framed (f : Framing) (body : List UInt8) : Except Fault (List UInt8) :=
  let contents := f.layout body
  if contents.length ≤ f.config.frameLength then .ok (enclose contents)
  else .error (.sizeLimit f.config.frameLength contents.length)

/-- A frame goes behind the bytes that wait, and without one they stay as they are. -/
def putBehind (queued : List UInt8) : Except Fault (List UInt8) → Except Fault Unit × List UInt8
  | .ok frame => (.ok (), queued ++ frame)
  | .error e => (.error e, queued)

/-- A packet whose fields can be written lacks a frame for its id or for its length. -/
theorem outcome_encode_of_run (hvalid : payload.validity = .ok ())
    (hput : payload.put.run f.config.textLength = .ok bytes) (id : Int32) :
    (f.encode id payload).outcome =
      if id < 0 then
        .error (.validation (.outOfRange "packet_id" id.toInt 0 Int32.maxValue.toInt))
      else f.framed (joined id bytes) := by
  by_cases hid : id < 0
  · rw [encode, Checked.outcome_bind, Checked.outcome_ofExcept, body_eq, if_pos hid, if_pos hid]
  · rw [if_neg hid]
    exact outcome_encode_of_put (Int32.not_lt.1 hid) hvalid hput

theorem outcome_encode_ofBytes (hid : 0 ≤ id) :
    (f.encode id (.ofBytes bytes)).outcome = f.framed (joined id bytes) := by
  rw [outcome_encode_of_run rfl (Put.run_raw.2 rfl), if_neg (Int32.not_lt.2 hid)]

/-- Queueing a message is putting the frame of a packet behind what waits, where the packet's fields
are what is unread in the message. -/
theorem enqueue_eq_putBehind (hvalid : payload.validity = .ok ())
    (hput : payload.put.run f.config.textLength = .ok m.payload.unread) (queued : List UInt8) :
    (f.enqueue m queued).value = putBehind queued (f.encode m.id payload).outcome := by
  rw [value_enqueue, outcome_encodeMessage hvalid hput]
  rcases (f.encode m.id payload).outcome with e | frame <;> rfl

/-- No message comes off a stream with a negative id. -/
theorem nonneg_of_next (h : (g.next arrived).value = (.ok (some m), rest)) : 0 ≤ m.id := by
  obtain ⟨frame, -, pre, contents, -, -, hdecode⟩ := carries_of_next h
  obtain ⟨body, -, hholds⟩ := outcome_decode_eq_ok.1 hdecode
  cases hholds with
  | intro declares nonneg => exact nonneg

/-- A frame made of an id and fields is read as just these. -/
theorem next_framed (hconfig : f.config.validate = .ok ()) (hid : 0 ≤ id)
    (hadmits : f.Admits (joined id bytes)) (hframe : f.framed (joined id bytes) = .ok frame)
    (tail : List UInt8) :
    (f.next (frame ++ tail)).value = (.ok (some (f.messageOf id bytes)), tail) := by
  rw [← outcome_encode_ofBytes hid] at hframe
  exact next_of_carries (carries_of_encode hconfig hframe (Put.run_raw.2 rfl) hadmits) tail

/-- **A buffer and the packet that it was written from have the same frame.** Let the packet be
valid and its fields be what is unread in the buffer. Then the frame of the packet is put behind the
bytes that wait, or they stay as they are and the fault is that of the packet: its id is negative,
or the contents of its frame are longer than the limit.

A message from a stream, whatever the framing there, can be queued unless its frame is too long. Its
frame holds the id once, in the shortest form, and then what was unread, and a reader finds just
this, if the limits can be used and the body is one that it admits. -/
theorem enqueue_eq_encode {b : Buffer} (hvalid : payload.validity = .ok ())
    (hput : payload.put.run f.config.textLength = .ok b.unread) (id : Int32)
    (queued : List UInt8) :
    (f.enqueue { id, payload := b } queued).value = putBehind queued (f.encode id payload).outcome ∧
    (f.encode id payload).outcome =
      (if id < 0 then
        .error (.validation (.outOfRange "packet_id" id.toInt 0 Int32.maxValue.toInt))
      else f.framed (joined id b.unread)) ∧
    ∀ (g : Framing) (arrived rest : List UInt8) (m : Message),
      (g.next arrived).value = (.ok (some m), rest) →
      let body := joined m.id m.payload.unread
      (f.enqueue m queued).value = putBehind queued (f.framed body) ∧
      ∀ frame tail, f.framed body = .ok frame → f.config.validate = .ok () → f.Admits body →
        (f.next (frame ++ tail)).value
          = (.ok (some (f.messageOf m.id m.payload.unread)), tail) := by
  refine ⟨enqueue_eq_putBehind hvalid hput queued, outcome_encode_of_run hvalid hput id, ?_⟩
  intro g arrived rest m hnext body
  have hid := nonneg_of_next hnext
  refine ⟨?_, ?_⟩
  · have hbytes : (Payload.ofBytes m.payload.unread).put.run f.config.textLength
        = .ok m.payload.unread := Put.run_raw.2 rfl
    rw [enqueue_eq_putBehind rfl hbytes, outcome_encode_ofBytes hid]
  · intro frame tail hframe hconfig hadmits
    exact next_framed hconfig hid hadmits hframe tail

/-- The number 5 in a buffer of which two bytes had been read, under another limit for strings; and
a message whose id came in two bytes and goes out in one. -/
theorem enqueue_eq_encode_paddedId :
    let f : Framing := { config := { frameLength := 9 } }
    let b : Buffer := { consumed := [9, 9], unread := [0, 0, 0, 0, 0, 0, 0, 5], textLimit := 0 }
    let m : Message := { id := 3, payload := { consumed := [0x83, 0], unread := [7, 7] } }
    (f.enqueue { id := 1, payload := b } [4]).value
        = (.ok (), [4, 9, 1, 0, 0, 0, 0, 0, 0, 0, 5]) ∧
      (f.enqueue { id := -1, payload := b } [4]).value
        = (.error (.validation (.outOfRange "packet_id" (-1) 0 2147483647)), [4]) ∧
      (f.next [4, 0x83, 0, 7, 7, 6]).value = (.ok (some m), [6]) ∧
      (f.enqueue m [4]).value = (.ok (), [4, 3, 3, 7, 7]) ∧
      (f.next [3, 3, 7, 7, 8]).value = (.ok (some (f.messageOf 3 [7, 7])), [8]) := by
  intro f b m
  have hput : (Payload.ofValue (StatusPing.mk 5)).put.run f.config.textLength = .ok b.unread := rfl
  have hping : (f.encode 1 (.ofValue (StatusPing.mk 5))).outcome
      = .ok [9, 1, 0, 0, 0, 0, 0, 0, 0, 5] := by cbv
  have hnext : (f.next [4, 0x83, 0, 7, 7, 6]).value = (.ok (some m), [6]) := by cbv
  have hframe : f.framed (joined 3 [7, 7]) = .ok [3, 3, 7, 7] := by cbv
  obtain ⟨hqueued, -, hagain⟩ := @enqueue_eq_encode f _ b rfl hput 1 [4]
  obtain ⟨hrefused, hnegative, -⟩ := @enqueue_eq_encode f _ b rfl hput (-1) [4]
  obtain ⟨hsent, hreads⟩ := hagain f _ _ _ hnext
  rw [hping] at hqueued
  rw [hnegative, if_pos (by decide)] at hrefused
  rw [hframe] at hsent
  exact ⟨hqueued, hrefused, hnext, hsent, hreads _ [8] hframe rfl (fun h => by cases h)⟩

end PacketStream.Framing
