import Mathlib
import PacketStream.Proofs.Connection.Receiving
import PacketStream.Proofs.Frame.Recovery

/-!
# Faults stay in their frame

A stream of frames may hold anything in them: packets, packets cut short, broken compressed streams,
nothing at all. As long as the length in front of each frame is right, a fault in one frame is the
fault of that frame alone. `receiveTimes_enclosed` says so for a connection and for the streaming
decoder: the `i`-th call gives what the `i`-th contents come to, whatever the calls before it gave,
and all calls together take just the frames.

The lengths need not be written in their shortest form; a reader takes any form that its varint
decoder takes. `Framing.Enclosed` is a frame of this kind.
-/

namespace PacketStream

namespace Framing

variable {f : Framing}

/-- Contents with their length in front of them, in any form that a reader of varints takes. -/
structure Enclosed (f : Framing) where
  pre : List UInt8
  contents : List UInt8
  encodes : Varint.decode varintBits pre = .ok (some (contents.length, pre.length))
  fits : contents.length ≤ min f.config.frameLength Limits.prefixedLength

namespace Enclosed

/-- The frame as it stands in a stream. -/
def bytes (e : f.Enclosed) : List UInt8 := e.pre ++ e.contents

/-- What the contents come to, be it a message or a fault. -/
def result (e : f.Enclosed) : Except Fault Message := (f.decode e.contents).outcome

theorem announces (e : f.Enclosed) : f.Announces e.pre e.contents.length := by
  have hfits := e.fits
  have hsigned : e.contents.length.toUInt32.toInt32.toInt = e.contents.length :=
    Limits.toInt_of_le_prefixedLength (by omega)
  have hdeclares : Declares e.pre e.contents.length := ⟨_, e.encodes, hsigned⟩
  exact announces_iff.2 ⟨hdeclares, by omega⟩

theorem next_bytes (e : f.Enclosed) (rest : List UInt8) :
    (f.next (e.bytes ++ rest)).value = (e.result.map some, rest) :=
  next_of_whole e.announces rest

end Enclosed

/-- Looks for a message so many times, each time in the bytes that the look before it has left. -/
def nextTimes (f : Framing) : (times : Nat) → (arrived : List UInt8) →
    List (Except Fault (Option Message)) × List UInt8
  | 0, arrived => ([], arrived)
  | times + 1, arrived =>
    let (result, rest) := (f.next arrived).value
    let (later, last) := f.nextTimes times rest
    (result :: later, last)

theorem nextTimes_succ {times : Nat} {arrived rest : List UInt8}
    {result : Except Fault (Option Message)} (h : (f.next arrived).value = (result, rest)) :
    f.nextTimes (times + 1) arrived =
      (result :: (f.nextTimes times rest).1, (f.nextTimes times rest).2) := by
  rw [nextTimes, h]

/-- A look takes one frame, so looks take the frames one by one. -/
theorem nextTimes_enclosed (frames : List f.Enclosed) (tail : List UInt8) :
    f.nextTimes frames.length (frames.flatMap Enclosed.bytes ++ tail)
      = (frames.map fun e => e.result.map some, tail) := by
  induction frames with
  | nil => rfl
  | cons e frames ih =>
    have hfirst := e.next_bytes (frames.flatMap Enclosed.bytes ++ tail)
    rw [← List.append_assoc, ← List.flatMap_cons] at hfirst
    rw [List.length_cons, nextTimes_succ hfirst, ih, List.map_cons]

end Framing

namespace Connection

open Framing (Enclosed)

variable {f : Framing}

/-- **Faults stay in their frame.** Let frames of any contents come over a link, with the right
length in front of each. Read after read, a connection gives what the contents of each frame come
to, and so does the streaming decoder on the same bytes, look after look. Neither takes less than
the frames or more: what comes behind the last one is left. -/
theorem receiveTimes_enclosed (l : Link) (hl : l.Delivers) (frames : List f.Enclosed)
    (tail : List UInt8) (hincoming : l.incoming = frames.flatMap Enclosed.bytes ++ tail) :
    (∃ after, receiveTimes { link := l, framing := f } frames.length
        = (frames.map Enclosed.result, { link := after, framing := f }) ∧
      l.Reads (frames.flatMap Enclosed.bytes) after ∧ after.incoming = tail) ∧
      f.nextTimes frames.length l.incoming
        = (frames.map fun e => e.result.map some, tail) := by
  constructor
  · -- the threshold and the limits stay, so each read stands in front of a frame of the same kind
    induction frames generalizing l with
    | nil => exact ⟨l, rfl, Link.Reads.refl l, hincoming⟩
    | cons e frames ih =>
      have hsplit : l.incoming
          = e.pre ++ e.contents ++ (frames.flatMap Enclosed.bytes ++ tail) := by
        rw [hincoming, List.flatMap_cons, List.append_assoc]
        rfl
      obtain ⟨next, hreceive, hreads, hnext⟩ :=
        receive_of_announces (c := { link := l, framing := f }) hl e.announces hsplit
      obtain ⟨after, hlater, hrest, htail⟩ := ih next (hreads.delivers hl) hnext
      refine ⟨after, ?_, ?_, htail⟩
      · rw [List.length_cons, receiveTimes_succ hreceive, hlater, List.map_cons]
        rfl
      · rw [List.flatMap_cons]
        exact hreads.trans hrest
  · rw [hincoming]
    exact Framing.nextTimes_enclosed frames tail

/-- Contents that end inside the data length, an empty frame, a declared size above the limit and a
packet, with lengths that are longer than they need to be, over a link that brings its first bytes
piecemeal. -/
theorem receiveTimes_enclosed_hostile :
    let f : Framing := { config := { uncompressedLength := 8 }, threshold := some 64 }
    let frames : List f.Enclosed := [
      { pre := [0x82, 0x00], contents := [0x80, 0x80], encodes := by cbv, fits := by decide },
      { pre := [0x80, 0x80, 0x80, 0x80, 0x00], contents := [], encodes := by cbv
        fits := by decide },
      { pre := [2], contents := [9, 0], encodes := by cbv, fits := by decide },
      { pre := [0x83, 0x80, 0x00], contents := [0, 5, 7], encodes := by cbv, fits := by decide }]
    let l : Link := {
      incoming := [0x82, 0x00, 0x80, 0x80, 0x80, 0x80, 0x80, 0x80, 0x00, 2, 9, 0, 0x83, 0x80, 0x00,
        0, 5, 7]
      reads := [.move 1, .interrupted, .waiting, .move 2] }
    frames.map Enclosed.result = [
        .error (.malformed (.frameEndsInside "data length" 2 0 2)),
        .error (.malformed (.frameEndsInside "data length" 0 0 0)),
        .error (.sizeLimit 8 9),
        .ok { id := 5, payload := { consumed := [5], unread := [7] } }] ∧
      (∃ after, receiveTimes { link := l, framing := f } 4
          = (frames.map Enclosed.result, { link := after, framing := f }) ∧ after.incoming = []) ∧
      f.nextTimes 4 l.incoming = (frames.map fun e => e.result.map some, []) := by
  intro f frames l
  obtain ⟨⟨after, hreads, -, hend⟩, hlooks⟩ :=
    receiveTimes_enclosed l (by decide) frames [] (by rfl)
  exact ⟨by cbv, ⟨after, hreads, hend⟩, hlooks⟩

end Connection

end PacketStream
