import PacketStream.Proofs.Connection.Buffered
import PacketStream.Proofs.Connection.Delivery
import PacketStream.Proofs.Connection.Sending
import PacketStream.Proofs.Connection.Streaming

/-!
# Handing a connection over to buffers

A connection that has read any number of packets can be handed over to a buffered one. That loses
nothing, because a read takes just its frame: all that is still to come is on the link. From then on
`useAll_ofConnection` compares the two, for every mixture of reads and writes, and however slowly
the link brings its bytes. The buffered connection gives the items that the other would have given,
up to the first fault, and accepts the bytes that the other would have written.

`itemsOf` is what a stream holds, item by item. `take_items_useAll` says that calls give it from the
front, whatever is sent between them; `accepts_useAll` says that what is sent is accepted in order,
whatever is read in between.
-/

namespace PacketStream

/-! ## The same packet on both sides -/

namespace Framing

variable {f : Framing}

/-- A valid packet, and the message that holds it as it is written. -/
structure Prepared (f : Framing) where
  payload : Payload
  message : Message
  valid : payload.validity = .ok ()
  holds : payload.put.run f.config.textLength = .ok message.payload.unread

theorem Prepared.outcome_encodeMessage (p : f.Prepared) :
    (f.encodeMessage p.message).outcome = f.written p.message.id p.payload := by
  rw [Framing.outcome_encodeMessage p.valid p.holds, written_eq]

end Framing

namespace Buffered

/-! ## Runs -/

/-- A use of a buffered connection: a call for the next item, or a packet that is sent. -/
inductive Use (f : Framing) where
  | next
  | send (p : f.Prepared)

/-- What came of using a buffered connection. -/
structure Used (f : Framing) where
  /-- What the calls for items gave. -/
  items : List Item
  /-- The packets that were sent, each with the reply to it. -/
  replies : List (f.Prepared × Except Fault Unit)
  last : Buffered

variable {f : Framing} {s after last : Buffered} {bytes rest more : List UInt8}

/-- Uses a buffered connection, whatever each use comes to. -/
def useAll (s : Buffered) : (uses : List (Use f)) → Used f
  | [] => { items := [], replies := [], last := s }
  | .next :: uses =>
    let (item, after) := s.next.value
    let later := after.useAll uses
    { later with items := item :: later.items }
  | .send p :: uses =>
    let (reply, after) := (s.send p.message).value
    let later := after.useAll uses
    { later with replies := (p, reply) :: later.replies }

/-! ## Reading -/

/-- What a reader finds at the end of what it can read: a fault, or no more bytes. Bytes of a frame
that is not complete are a fault, too. -/
def closing (fault : Option Fault) (rest : List UInt8) : Item :=
  match fault with
  | some e => .fault e
  | none => if rest.isEmpty then .done else .fault (.transfer .bytesRemaining)

/-- The items that a stream holds, up to its first fault or its end. -/
def itemsOf (f : Framing) (bytes : List UInt8) : List Item :=
  let d := f.drain bytes
  d.messages.map .message ++ [closing d.fault d.rest]

/-- The items of a stream are what stands first in it, and behind a message the items of the rest. -/
theorem itemsOf_eq (f : Framing) (bytes : List UInt8) :
    itemsOf f bytes =
      match (f.last bytes).value with
      | (.ok (some m), rest) => .message m :: itemsOf f rest
      | (.ok none, _) => [.done]
      | (.error e, _) => [.fault e] := by
  rw [Framing.value_last, itemsOf]
  rcases hnext : (f.next bytes).value with ⟨e | _ | m, rest⟩
  · rw [Framing.drain_of_error hnext]
    rfl
  · rw [Framing.drain_of_none hnext]
    by_cases hempty : rest.isEmpty = true
    · simp [closing, hempty]
    · simp [closing, hempty]
  · rw [Framing.drain_of_message hnext]
    rfl

/-- Calls give the items of the stream from the front, whatever is sent between them. -/
theorem take_items_useAll (hs : s.Awaits f bytes) (uses : List (Use f)) :
    let items := (s.useAll uses).items
    items.take (itemsOf f bytes).length = (itemsOf f bytes).take items.length := by
  induction uses generalizing s bytes with
  | nil => exact List.take_nil
  | cons use uses ih =>
    cases use with
    | send p =>
      obtain ⟨sent, hsends, -⟩ := s.send_accepts p.message
      exact ih (hsends.awaits hs)
    | next =>
      have hgives := gives_next hs
      let later := (s.next.value.2.useAll uses).items
      show (s.next.value.1 :: later).take (itemsOf f bytes).length
        = (itemsOf f bytes).take (later.length + 1)
      rw [itemsOf_eq]
      rcases hlast : (f.last bytes).value with ⟨e | _ | m, rest⟩ <;> rw [hlast] at hgives
      · have hitem : s.next.value.1 = .fault e := hgives
        simp [hitem]
      · have hitem : s.next.value.1 = .done := hgives
        simp [hitem]
      · obtain ⟨hitem, hrest⟩ : s.next.value.1 = .message m ∧ s.next.value.2.Awaits f rest := hgives
        rw [hitem, List.length_cons, List.take_succ_cons, List.take_succ_cons]
        exact congrArg (.message m :: ·) (ih hrest)

/-! ## Writing -/

/-- The bytes that the connection has been given to write, be they written yet or not. -/
def accepted (s : Buffered) : List UInt8 := s.link.outgoing ++ s.queued

theorem Sends.accepted_eq (h : s.Sends more after) : after.accepted = s.accepted ++ more := by
  obtain ⟨written, hwrites, hsplit⟩ := h.written
  rw [accepted, accepted, hwrites.outgoing, List.append_assoc, hsplit, List.append_assoc]

theorem Receives.accepted_eq (h : s.Receives after) : after.accepted = s.accepted := by
  obtain ⟨taken, hreads⟩ := h.link
  rw [accepted, accepted, h.queued, hreads.frame]

theorem Receives.takes (h : s.Receives after) (hs : s.link.Takes) : after.link.Takes := by
  obtain ⟨taken, hreads⟩ := h.link
  rw [hreads.frame]
  exact hs

theorem Accepts.mono {l l' : Link} {encoded : Except Fault (List UInt8)}
    {reply : Except Fault Unit} (hl : l.Takes → l'.Takes) (h : Accepts l' encoded bytes reply) :
    Accepts l encoded bytes reply := by
  cases h with
  | unencoded => exact .unencoded
  | whole => exact .whole
  | queued fails => exact .queued fun htakes => fails (hl htakes)
  | full fails => exact .full fun htakes => fails (hl htakes)

/-- Packets are accepted in the order in which they are sent, whatever is read between them, and
nothing else is. -/
theorem accepts_useAll (hs : s.framing = f) (uses : List (Use f)) :
    ∃ frames, (s.useAll uses).last.accepted = s.accepted ++ frames.flatten ∧
      List.Forall₂ (fun (p, reply) frame =>
        Accepts s.link (f.written p.message.id p.payload) frame reply)
        (s.useAll uses).replies frames := by
  induction uses generalizing s with
  | nil => exact ⟨[], (List.append_nil _).symm, .nil⟩
  | cons use uses ih =>
    cases use with
    | next =>
      have hreceives := s.receives_next
      obtain ⟨frames, haccepted, hreplies⟩ := ih (hreceives.framing.trans hs)
      refine ⟨frames, haccepted.trans (by rw [hreceives.accepted_eq]), hreplies.imp ?_⟩
      intro (p, reply) frame hframe
      exact hframe.mono hreceives.takes
    | send p =>
      obtain ⟨frame, hsends, haccepts⟩ := s.send_accepts p.message
      rw [hs, p.outcome_encodeMessage] at haccepts
      have hframing : (s.send p.message).value.2.framing = f := by rw [hsends.frame, hs]
      obtain ⟨frames, haccepted, hreplies⟩ := ih hframing
      refine ⟨frame :: frames, ?_, .cons haccepts (hreplies.imp ?_)⟩
      · show ((s.send p.message).value.2.useAll uses).last.accepted = _
        rw [haccepted, hsends.accepted_eq, List.flatten_cons, List.append_assoc]
      · intro (p, reply) frame hframe
        exact hframe.mono hsends.takes

/-- When a flush succeeds, all that has been accepted is on the link. -/
theorem outgoing_flush (h : s.flush.1 = .ok ()) : s.flush.2.link.outgoing = s.accepted := by
  rcases s.flush_cases with ⟨after, hflush, hsends, hqueued⟩ | ⟨cause, after, hflush, -⟩
  · have haccepted := hsends.accepted_eq
    rw [accepted, hqueued, List.append_nil, List.append_nil] at haccepted
    rw [hflush]
    exact haccepted
  · rw [hflush] at h
    cases h

/-! ## The handover -/

/-- What is awaited is all that is still on the link. -/
theorem awaits_ofConnection {c : Connection} (hc : c.link.Flows) :
    (ofConnection c).value.Awaits c.framing c.link.incoming where
  framing := rfl
  bytes := rfl
  flows := hc
  going := rfl
  unfailed := rfl
  looked := fun _ => Framing.next_of_open Varint.decode_nil

/-- **Handing a connection over loses nothing.** Let packets be read from a connection, each with
success, and let it be handed over then and used in any way. What has been read were whole frames,
and all that came behind them is still on the link, under the same limits and threshold. The calls
for items give what reads from the connection would have given, up to the first fault: where those
find the end of the stream, the calls find that there are no more bytes, or bytes of a frame that is
not complete. What is sent is accepted in order, frame by frame as the connection would have written
it, and is on the link once a flush succeeds. -/
theorem useAll_ofConnection {c c' : Connection} {k : Nat} {messages : List Message}
    (hread : c.receiveTimes k = (messages.map .ok, c')) (hflows : c'.link.Flows)
    (uses : List (Use c.framing)) :
    let s := (ofConnection c').value
    let later := c'.receiveAll
    let used := s.useAll uses
    (s.framing = c.framing ∧ ∃ frames, c.link.incoming = frames.flatten ++ s.link.incoming ∧
      List.Forall₂ c.framing.Carries frames messages) ∧
    (∃ rest, (later.fault.beforeEnd? = none → ∃ frames,
        s.link.incoming = frames.flatten ++ rest ∧
        List.Forall₂ c.framing.Carries frames later.messages) ∧
      let items := later.messages.map .message ++ [closing later.fault.beforeEnd? rest]
      used.items.take items.length = items.take used.items.length) ∧
    ∃ frames, used.last.accepted = c'.link.outgoing ++ frames.flatten ∧
      List.Forall₂ (fun (p, reply) frame =>
        Accepts c'.link (c.framing.written p.message.id p.payload) frame reply)
        used.replies frames ∧
      (used.last.flush.1 = .ok () →
        used.last.flush.2.link.outgoing = c'.link.outgoing ++ frames.flatten) := by
  intro s later used
  have hframing : c'.framing = c.framing := by
    rw [← c.framing_receiveTimes k, hread]
  have hs : s.Awaits c.framing c'.link.incoming := hframing ▸ awaits_ofConnection hflows
  obtain ⟨hmessages, hfault⟩ := Connection.receiveAll_eq_drain c' hflows.delivers
  rw [hframing] at hmessages hfault
  refine ⟨⟨hs.framing, ?_⟩, ⟨(c.framing.drain c'.link.incoming).rest, ?_, ?_⟩, ?_⟩
  · obtain ⟨pieces, hpieces, hcarries⟩ := Connection.exists_pieces c.framing c.link k
    rw [show ({ link := c.link, framing := c.framing } : Connection) = c from rfl, hread]
      at hpieces hcarries
    rw [List.forall₂_map_right_iff] at hcarries
    exact ⟨pieces, hpieces, hcarries.imp fun piece m hpiece => hpiece m rfl⟩
  · intro hend
    obtain ⟨frames, hsplit, hcarries, -⟩ := Framing.drain_split (hfault.trans hend)
    exact ⟨frames, hsplit, hmessages ▸ hcarries⟩
  · have hitems : itemsOf c.framing c'.link.incoming
        = later.messages.map .message
          ++ [closing later.fault.beforeEnd? (c.framing.drain c'.link.incoming).rest] := by
      rw [itemsOf, hmessages, hfault]
    have htake := take_items_useAll hs uses
    rw [hitems] at htake
    exact htake
  · obtain ⟨frames, haccepted, hreplies⟩ := accepts_useAll hs.framing uses
    have hstart : s.accepted = c'.link.outgoing := List.append_nil _
    rw [hstart] at haccepted
    exact ⟨frames, haccepted, hreplies, fun hflush => (outgoing_flush hflush).trans haccepted⟩

/-- One packet has been read; a second comes piecemeal, and the third is cut. Between the calls for
items two packets are sent, over a link that takes the first in two calls and does not take the
second. -/
theorem useAll_ofConnection_partway :
    let f : Framing := { threshold := some 64 }
    let c : Connection := {
      framing := f
      link := {
        mode := .cooperative, incoming := [3, 0, 5, 7, 2, 0, 6, 4, 0]
        reads := [.interrupted, .move 1, .move 2, .move 1, .waiting, .move 1, .move 1]
        writes := [.move 1, .move 2, .failed "reset"] } }
    let c' : Connection := {
      framing := f
      link := {
        mode := .cooperative, incoming := [2, 0, 6, 4, 0], reads := [.waiting, .move 1, .move 1]
        writes := [.move 1, .move 2, .failed "reset"] } }
    let m : Message := { id := 5, payload := { consumed := [5], unread := [7] } }
    let p : f.Prepared := {
      payload := .ofBytes [], message := { id := 1, payload := .ofBytes [] }, valid := rfl
      holds := rfl }
    let q : f.Prepared := {
      payload := .ofBytes [9], message := { id := 2, payload := .ofBytes [9] }, valid := rfl
      holds := rfl }
    let used := (ofConnection c').value.useAll [.next, .send p, .next, .send q, .next]
    (c.receiveTimes 1 = ([.ok m], c') ∧ c'.link.Flows) ∧
      used.items = [
        .message { id := 6, payload := { consumed := [6], unread := [] } },
        .fault (.transfer .bytesRemaining), .done] ∧
      used.last.link.outgoing = [2, 0, 1] ∧ used.last.queued = [3, 0, 2, 9] ∧
      ∃ frames, used.last.accepted = frames.flatten ∧
        List.Forall₂ (fun (p, reply) frame =>
          Accepts c'.link (f.written p.message.id p.payload) frame reply) used.replies frames := by
  intro f c c' m p q used
  have hread : c.receiveTimes 1 = ([m].map .ok, c') := by cbv
  have hflows : c'.link.Flows := by decide
  obtain ⟨-, -, frames, haccepted, hreplies, -⟩ :=
    useAll_ofConnection hread hflows [.next, .send p, .next, .send q, .next]
  have hitems : used.items = [
      .message { id := 6, payload := { consumed := [6], unread := [] } },
      .fault (.transfer .bytesRemaining), .done] := by cbv
  have houtgoing : used.last.link.outgoing = [2, 0, 1] := by cbv
  have hqueued : used.last.queued = [3, 0, 2, 9] := by cbv
  exact ⟨⟨hread, hflows⟩, hitems, houtgoing, hqueued, frames, haccepted, hreplies⟩

end Buffered

end PacketStream
