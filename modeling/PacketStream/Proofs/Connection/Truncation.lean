import Mathlib
import PacketStream.Proofs.Connection.Receiving
import PacketStream.Proofs.Frame.Chunks
import PacketStream.Proofs.Frame.Recovery

/-!
# Streams that are cut short

A stream of written frames may end at any byte: between frames, inside a length, behind a length,
inside the contents. `receiveAll_of_cut` says that a reader always finds out. It gives the packets
whose frames are whole, and then the end of the stream with the numbers of bytes that came and that
were waited for, the first below the second; the streaming decoder gives the same packets, and waits
with the bytes of the cut frame untouched.

The argument is in two parts. `exists_cut` finds the frame in which a strict prefix of the stream
ends. `drain_flatten` and `receiveAll_flatten` pass the whole frames in front of it, whatever comes
behind them, and the cut frame itself is one look (`next_of_cut`) and one read (`receive_of_cut`).
-/

namespace PacketStream

namespace Framing

variable {f : Framing}

/-! ## One frame that is cut -/

section Frame

variable {pre contents part : List UInt8} {value : Nat}

/-- A varint that is cut asks for more. -/
theorem decode_of_cut (hvalue : Varint.decode varintBits pre = .ok (some (value, pre.length)))
    (hpart : part <+: pre) (hshort : part.length < pre.length) :
    Varint.decode varintBits part = .ok none := by
  obtain ⟨behind, rfl⟩ := hpart
  by_contra hsettled
  -- what the part settles is settled for the whole varint, whose size is larger
  rw [Varint.decode_append varintBits_pos hsettled behind] at hvalue
  have hbounds := Varint.decode_bounds varintBits_pos hvalue
  omega

/-- A cut frame ends inside its length, or its length is there and some of its contents. -/
theorem cut_cases (hpart : part <+: pre ++ contents)
    (hshort : part.length < (pre ++ contents).length) :
    (part <+: pre ∧ part.length < pre.length) ∨
      ∃ behind, part = pre ++ behind ∧ behind.length < contents.length := by
  by_cases hlength : part.length < pre.length
  · have hpre : part <+: pre :=
      List.prefix_of_prefix_length_le hpart (List.prefix_append pre contents) (Nat.le_of_lt hlength)
    exact .inl ⟨hpre, hlength⟩
  · have hpre : pre <+: part :=
      List.prefix_of_prefix_length_le (List.prefix_append pre contents) hpart (by omega)
    obtain ⟨behind, rfl⟩ := hpre
    rw [List.length_append, List.length_append] at hshort
    exact .inr ⟨behind, rfl, by omega⟩

theorem next_of_cut (hannounces : f.Announces pre contents.length)
    (hpart : part <+: pre ++ contents) (hshort : part.length < (pre ++ contents).length) :
    (f.next part).value = (.ok none, part) := by
  rcases cut_cases hpart hshort with ⟨hpre, hlength⟩ | ⟨behind, rfl, hbehind⟩
  · obtain ⟨value, hvalue, -⟩ := hannounces
    exact next_of_open (decode_of_cut hvalue hpre hlength)
  · exact next_of_openContents hannounces hbehind

/-- The bytes that have come, and those that were waited for, where a reader finds that a frame has
been cut. The length is read byte by byte, and the contents are one read. -/
def shortage (pre contents part : List UInt8) : Nat × Nat :=
  if part.length < pre.length then (0, 1) else (part.length - pre.length, contents.length)

theorem shortage_lt (hshort : part.length < (pre ++ contents).length) :
    (shortage pre contents part).1 < (shortage pre contents part).2 := by
  rw [List.length_append] at hshort
  rw [shortage]
  split
  · exact Nat.zero_lt_one
  · dsimp only
    omega

theorem receive_of_cut {l : Link} (hl : l.Delivers) (hannounces : f.Announces pre contents.length)
    (hpart : l.incoming <+: pre ++ contents)
    (hshort : l.incoming.length < (pre ++ contents).length) :
    ∃ after, f.receive.outcome l =
      (.error (.connectionClosed (shortage pre contents l.incoming).1
        (shortage pre contents l.incoming).2), after) := by
  rw [shortage]
  rcases cut_cases hpart hshort with ⟨hpre, hlength⟩ | ⟨behind, hincoming, hbehind⟩
  · obtain ⟨value, hvalue, -⟩ := hannounces
    obtain ⟨after, hreceive, -⟩ := receive_of_open (f := f) hl (decode_of_cut hvalue hpre hlength)
    rw [if_pos hlength]
    exact ⟨after, hreceive⟩
  · obtain ⟨after, hreceive, -⟩ := receive_announced hl hannounces hincoming
    rw [if_pos hbehind] at hreceive
    have hlong : ¬ l.incoming.length < pre.length := by
      rw [hincoming, List.length_append]
      omega
    have hpresent : l.incoming.length - pre.length = behind.length := by
      rw [hincoming, List.length_append]
      omega
    rw [if_neg hlong, hpresent]
    exact ⟨after, hreceive⟩

end Frame

/-! ## The frames in front of it -/

theorem drain_flatten {frames : List (List UInt8)} {messages : List Message}
    (h : List.Forall₂ f.Carries frames messages) (tail : List UInt8) :
    f.drain (frames.flatten ++ tail) = (f.drain tail).prepend messages := by
  induction h with
  | nil => rfl
  | @cons frame m frames messages hcarries _ ih =>
    have hnext := next_of_carries hcarries (frames.flatten ++ tail)
    rw [List.flatten_cons, List.append_assoc, drain_of_message hnext, ih, Drained.prepend_prepend]
    rfl

/-! ## Written packets -/

/-- A packet that has been written, with a body that readers with the same limits admit. -/
structure Written (f : Framing) where
  id : Int32
  payload : Payload
  frame : List UInt8
  encodes : (f.encode id payload).outcome = .ok frame
  admitted : ∀ body, f.body id payload = .ok body → f.Admits body

namespace Written

/-- The packet as its reader gets it. -/
def message (w : f.Written) : Message := f.messageOf w.id (w.payload.put f.config.textLength).bytes

/-- What stands in the frame behind its length. -/
def contents (w : f.Written) : List UInt8 :=
  (f.contents (Varint.encode w.id.toUInt32.toNat
    ++ (w.payload.put f.config.textLength).bytes)).bytes

theorem put_eq (w : f.Written) :
    w.payload.put.run f.config.textLength
      = .ok (w.payload.put f.config.textLength).bytes := by
  obtain ⟨bytes, -, hput, -⟩ := outcome_encode_ok w.encodes
  rw [hput, Put.run_eq_ok.1 hput]

/-- A frame is the length of its contents in shortest form, and the contents. They keep to the limit
for frames. -/
theorem frame_eq (w : f.Written) :
    w.frame = Varint.encode w.contents.length ++ w.contents ∧
      w.contents.length ≤ f.config.frameLength := by
  obtain ⟨bytes, -, hput, hlength, hframe⟩ := outcome_encode_ok w.encodes
  rw [w.put_eq] at hput
  cases hput
  rw [hframe, contents, Contents.length_bytes]
  exact ⟨rfl, hlength⟩

theorem carries (w : f.Written) (hconfig : f.config.validate = .ok ()) :
    f.Carries w.frame w.message := by
  obtain ⟨body, hbody, -⟩ := Checked.outcome_bind_ok w.encodes
  have hadmits := w.admitted body hbody
  obtain ⟨-, -, bytes, hput, rfl⟩ := body_eq_ok.1 hbody
  rw [w.put_eq] at hput
  cases hput
  exact carries_of_encode hconfig w.encodes w.put_eq hadmits

theorem forall₂_carries (written : List f.Written) (hconfig : f.config.validate = .ok ()) :
    List.Forall₂ f.Carries (written.map frame) (written.map message) := by
  induction written with
  | nil => exact .nil
  | cons w written ih => exact .cons (w.carries hconfig) ih

end Written

/-- A stream of written frames that has been cut: the packets whose frames are whole, the packet in
whose frame the cut is, and what is there of this frame. -/
structure Cut (written : List f.Written) (stream : List UInt8) where
  whole : List f.Written
  next : f.Written
  later : List f.Written
  part : List UInt8
  order : written = whole ++ next :: later
  bytes : stream = (whole.map Written.frame).flatten ++ part
  isPart : part <+: next.frame
  isShort : part.length < next.frame.length

/-- A strict prefix of a stream ends inside one of its frames, or in front of one. -/
theorem exists_cut {written : List f.Written} {stream : List UInt8}
    (hcut : stream <+: (written.map Written.frame).flatten)
    (hshort : stream.length < (written.map Written.frame).flatten.length) :
    Nonempty (Cut written stream) := by
  induction written generalizing stream with
  | nil => cases hshort
  | cons w written ih =>
    rw [List.map_cons, List.flatten_cons] at hcut hshort
    rcases cut_cases hcut hshort with ⟨hpart, hinside⟩ | ⟨behind, rfl, hbehind⟩
    · exact ⟨{
        whole := [], next := w, later := written, part := stream, order := rfl, bytes := rfl
        isPart := hpart, isShort := hinside }⟩
    · rw [List.prefix_append_right_inj] at hcut
      obtain ⟨cut⟩ := ih hcut hbehind
      refine ⟨{ cut with whole := w :: cut.whole, order := ?_, bytes := ?_ }⟩
      · rw [List.cons_append, ← cut.order]
      · rw [List.map_cons, List.flatten_cons, List.append_assoc, ← cut.bytes]

end Framing

namespace Connection

open Framing (Written Cut shortage)

variable {f : Framing}

theorem receiveAll_flatten {frames : List (List UInt8)} {messages : List Message} {l : Link}
    {tail : List UInt8} (h : List.Forall₂ f.Carries frames messages) (hl : l.Delivers)
    (hincoming : l.incoming = frames.flatten ++ tail) :
    ∃ l' : Link, l'.Delivers ∧ l'.incoming = tail ∧
      let rest := receiveAll { link := l', framing := f }
      receiveAll { link := l, framing := f }
        = { rest with messages := messages ++ rest.messages } := by
  induction h generalizing l with
  | nil => exact ⟨l, hl, hincoming, rfl⟩
  | @cons frame m frames messages hcarries _ ih =>
    rw [List.flatten_cons, List.append_assoc] at hincoming
    obtain ⟨pre, contents, rfl, hannounces, hdecode⟩ := hcarries
    obtain ⟨next, hreceive, hreads, hnext⟩ :=
      receive_of_announces (c := { link := l, framing := f }) hl hannounces hincoming
    rw [hdecode] at hreceive
    obtain ⟨l', hl', hend, hrest⟩ := ih (hreads.delivers hl) hnext
    refine ⟨l', hl', hend, ?_⟩
    rw [receiveAll_of_ok hreceive, hrest]
    rfl

/-- **A stream that is cut short is found out.** Let a link bring a strict prefix of the frames of
written packets. A connection reads just the packets whose frames are whole, and then finds the end
of the stream, with fewer bytes than it has waited for: none of one byte in front of a frame or
inside its length, and otherwise the bytes that are there of the contents, of all that the length
announces. The streaming decoder gives the same packets, and leaves the bytes of the cut frame as
they are. -/
theorem receiveAll_of_cut (l : Link) (hl : l.Delivers) (hconfig : f.config.validate = .ok ())
    (written : List f.Written) (hcut : l.incoming <+: (written.map Written.frame).flatten)
    (hshort : l.incoming ≠ (written.map Written.frame).flatten) :
    ∃ cut : Cut written l.incoming,
      let packets := cut.whole.map Written.message
      let read := receiveAll { link := l, framing := f }
      let missing := shortage (Varint.encode cut.next.contents.length) cut.next.contents cut.part
      read.messages = packets ∧ read.fault = .connectionClosed missing.1 missing.2 ∧
        missing.1 < missing.2 ∧
        f.drain l.incoming = { messages := packets, fault := none, rest := cut.part } := by
  have hlength : l.incoming.length < (written.map Written.frame).flatten.length := by
    have hle := hcut.length_le
    have hne : l.incoming.length ≠ (written.map Written.frame).flatten.length :=
      fun h => hshort (hcut.eq_of_length h)
    omega
  obtain ⟨cut⟩ := Framing.exists_cut hcut hlength
  refine ⟨cut, ?_⟩
  intro packets read missing
  have hwhole := Written.forall₂_carries cut.whole hconfig
  have hannounces : f.Announces (Varint.encode cut.next.contents.length) cut.next.contents.length :=
    Framing.announces_encode hconfig cut.next.frame_eq.2
  have hpart := cut.isPart
  have hinside := cut.isShort
  rw [cut.next.frame_eq.1] at hpart hinside
  -- the connection passes the whole frames and stands in front of the cut one
  obtain ⟨l', hl', hend, hread⟩ := receiveAll_flatten hwhole hl cut.bytes
  rw [← hend] at hpart hinside
  obtain ⟨after, hreceive⟩ := Framing.receive_of_cut hl' hannounces hpart hinside
  rw [hend] at hpart hinside hreceive
  have hlast : (receive { link := l', framing := f }).value
      = (.error (.connectionClosed missing.1 missing.2), { link := after, framing := f }) := by
    rw [receive, value_use, hreceive]
  rw [receiveAll_of_error hlast] at hread
  have hmessages : read.messages = packets ++ [] := congrArg ReadOut.messages hread
  have hfault : read.fault = .connectionClosed missing.1 missing.2 := congrArg ReadOut.fault hread
  rw [List.append_nil] at hmessages
  refine ⟨hmessages, hfault, Framing.shortage_lt hinside, ?_⟩
  rw [congrArg f.drain cut.bytes, Framing.drain_flatten hwhole,
    Framing.drain_of_none (Framing.next_of_cut hannounces hpart hinside)]
  show (⟨packets ++ [], none, cut.part⟩ : Framing.Drained) = _
  rw [List.append_nil]

/-- Two frames, the second of which holds a stored body, cut behind the first byte of the second's
contents and brought piecemeal. -/
theorem receiveAll_of_cut_stored :
    let f : Framing := { config := { level := 0 }, threshold := some 4 }
    let written : List f.Written := [
      { id := 5, payload := .ofBytes [1], frame := [3, 0, 5, 1], encodes := by cbv
        admitted := by
          intro body hbody _
          cases hbody
          cbv },
      { id := 6, payload := .ofBytes [7, 8, 9]
        frame := [16, 4, 120, 1, 1, 4, 0, 251, 255, 6, 7, 8, 9, 0, 74, 0, 31], encodes := by cbv
        admitted := by
          intro body hbody _
          cases hbody
          cbv }]
    let l : Link := {
      mode := .cooperative, incoming := [3, 0, 5, 1, 16, 4], reads := [.move 1, .waiting, .move 2] }
    ∃ cut : Cut written l.incoming,
      let packets := cut.whole.map Written.message
      let read := receiveAll { link := l, framing := f }
      let missing := shortage (Varint.encode cut.next.contents.length) cut.next.contents cut.part
      read.messages = packets ∧ read.fault = .connectionClosed missing.1 missing.2 ∧
        missing.1 < missing.2 ∧
        f.drain l.incoming = { messages := packets, fault := none, rest := cut.part } := by
  intro f written l
  exact receiveAll_of_cut l (by decide) rfl written (by decide) (by decide)

end Connection

end PacketStream
