import PacketStream.Proofs.Connection.Receiving
import PacketStream.Proofs.Frame.Recovery
import PacketStream.Proofs.Link.Writing

/-!
# Sending over a connection

`Framing.send_sent` says once, for every link and every script of turns, what sending a packet can
come to and which bytes it has written by then: all of one frame, some of it, or nothing where the
packet has no frame.

A packet that has been sent has been written as a whole: `Connection.send_ok` says that its frame
stands behind what was written before. `Connection.receive_of_carries` is the other side of it: a
peer to whom a frame comes next reads its message, and leaves what comes after.

`Framing.written` is the frame of a packet as a connection writes it. A message that holds the same
packet is written in the same frame (`outcome_encodeMessage`).
-/

namespace PacketStream

/-! ## One packet -/

namespace Framing

/-- `Sent id payload l after written result` lists how sending a packet over `l`, which leaves the
link `after`, can end: the bytes it has written, and what it comes to. -/
inductive Sent (f : Framing) (id : Int32) (payload : Payload) (l after : Link) :
    List UInt8 → Except Fault Unit → Prop
  /-- The packet has no frame, and the link is not used. -/
  | unencoded {e : Fault} (rejects : (f.encode id payload).outcome = .error e)
      (unused : after = l) : Sent f id payload l after [] (.error e)
  /-- All of the frame is written. -/
  | whole {frame : List UInt8} (encodes : (f.encode id payload).outcome = .ok frame) :
      Sent f id payload l after frame (.ok ())
  /-- The link fails when some of the frame has been written. -/
  | part {frame written : List UInt8} {cause : TransferFault}
      (encodes : (f.encode id payload).outcome = .ok frame) (isPart : written <+: frame)
      (fails : ¬ l.Takes) : Sent f id payload l after written (.error (.transfer cause))

/-- The link is not used before the frame is complete. -/
theorem outcome_send (f : Framing) (id : Int32) (payload : Payload) (l : Link) :
    (f.send id payload).outcome l =
      match (f.encode id payload).outcome with
      | .error e => (.error e, l)
      | .ok frame => l.send frame := by
  rw [send, Exchange.outcome_bind, Exchange.outcome_ofChecked]
  rcases (f.encode id payload).outcome with e | frame <;> rfl

/-- **Every end of a write.** Whatever the link does, the bytes that have been written to it and the
result are related as `Sent` says. -/
theorem send_sent {f : Framing} {id : Int32} {payload : Payload} {l after : Link}
    {result : Except Fault Unit} (h : (f.send id payload).outcome l = (result, after)) :
    ∃ written, l.Writes written after ∧ f.Sent id payload l after written result := by
  rw [outcome_send] at h
  rcases hencode : (f.encode id payload).outcome with e | frame <;> rw [hencode] at h
  · cases h
    exact ⟨[], Link.Writes.refl l, .unencoded hencode rfl⟩
  · have hsend : l.send frame = (result, after) := h
    rcases l.send_cases frame with
      ⟨last, hwhole, hwrites⟩ | ⟨cause, written, last, hpart, hprefix, hwrites, hfails⟩
    · rw [hwhole] at hsend
      cases hsend
      exact ⟨frame, hwrites, .whole hencode⟩
    · rw [hpart] at hsend
      cases hsend
      exact ⟨written, hwrites, .part hencode hprefix hfails⟩

end Framing

namespace Connection

variable {c after r : Connection} {id : Int32} {payload : Payload} {frame bytes tail : List UInt8}
  {m : Message}

theorem send_sent {result : Except Fault Unit} (h : (c.send id payload).value = (result, after)) :
    ∃ written, c.link.Writes written after.link ∧
      c.framing.Sent id payload c.link after.link written result ∧ after.framing = c.framing := by
  rw [send, value_use, Prod.mk.injEq] at h
  obtain ⟨rfl, rfl⟩ := h
  obtain ⟨written, hwrites, hsent⟩ :=
    Framing.send_sent (Prod.eta ((c.framing.send id payload).outcome c.link)).symm
  exact ⟨written, hwrites, hsent, rfl⟩

/-- **A packet that has been sent is there as a whole frame**, behind what was written before. -/
theorem send_ok (h : (c.send id payload).value = (.ok (), after)) :
    ∃ frame, (c.framing.encode id payload).outcome = .ok frame ∧
      after.framing = c.framing ∧ after.link.outgoing = c.link.outgoing ++ frame := by
  obtain ⟨written, hwrites, hsent, hframing⟩ := send_sent h
  cases hsent with
  | whole encodes => exact ⟨written, encodes, hframing, hwrites.outgoing⟩

/-- What has been sent carries the packet, if its body is one that readers admit. -/
theorem carries_of_send (hconfig : c.framing.config.validate = .ok ())
    (h : (c.send id payload).value = (.ok (), after))
    (hadmits : ∀ body, c.framing.body id payload = .ok body → c.framing.Admits body) :
    ∃ frame bytes, after.framing = c.framing ∧
      after.link.outgoing = c.link.outgoing ++ frame ∧
      payload.put.run c.framing.config.textLength = .ok bytes ∧
      c.framing.Carries frame (c.framing.messageOf id bytes) := by
  obtain ⟨frame, hencode, hframing, houtgoing⟩ := send_ok h
  obtain ⟨body, hbody, -⟩ := Checked.outcome_bind_ok hencode
  obtain ⟨-, -, bytes, hput, hbytes⟩ := Framing.body_eq_ok.1 hbody
  refine ⟨frame, bytes, hframing, houtgoing, hput, ?_⟩
  exact Framing.carries_of_encode hconfig hencode hput (hbytes ▸ hadmits body hbody)

/-- A frame that carries a message is read as this message, and what stands behind it is left. -/
theorem receive_of_carries (hc : c.link.Delivers) (hcarries : c.framing.Carries frame m)
    (hincoming : c.link.incoming = frame ++ tail) :
    ∃ after, c.receive.value = (.ok m, after) ∧ after.framing = c.framing ∧
      after.link.Delivers ∧ after.link.incoming = tail := by
  obtain ⟨pre, contents, rfl, hannounces, hdecode⟩ := hcarries
  obtain ⟨link, hreceive, hreads, htail⟩ := receive_of_announces hc hannounces hincoming
  rw [hdecode] at hreceive
  exact ⟨{ c with link }, hreceive, rfl, hreads.delivers hc, htail⟩

end Connection

/-! ## Other writers of the same frames -/

namespace Framing

variable {f : Framing} {id : Int32} {payload : Payload}

/-- A packet that is valid and has been serialized has the same frame as a message. -/
theorem outcome_encodeMessage {m : Message} (hvalid : payload.validity = .ok ())
    (hput : payload.put.run f.config.textLength = .ok m.payload.unread) :
    (f.encodeMessage m).outcome = (f.encode m.id payload).outcome := by
  have hrun : (Put.varint m.id ++ payload.put).run f.config.textLength
      = .ok (Varint.encode m.id.toUInt32.toNat ++ m.payload.unread) :=
    Put.run_append.2 ⟨_, _, Put.run_raw.2 rfl, hput, rfl⟩
  rw [encodeMessage, encode, Checked.outcome_bind, Checked.outcome_bind, Checked.outcome_ofExcept,
    Checked.outcome_ofExcept, body, hvalid, hrun]
  rcases checkId m.id with e | ⟨⟩ <;> rfl

/-- What a connection in the framing writes for a packet, on a link that takes all it is given. -/
def written (f : Framing) (id : Int32) (payload : Payload) : Except Fault (List UInt8) :=
  let (result, after) := (Connection.send { link := {}, framing := f } id payload).value
  result.map fun _ => after.link.outgoing

theorem written_eq (f : Framing) (id : Int32) (payload : Payload) :
    f.written id payload = (f.encode id payload).outcome := by
  rcases hsend : (Connection.send { link := {}, framing := f } id payload).value
    with ⟨result, after⟩
  obtain ⟨bytes, hwrites, hsent, -⟩ := Connection.send_sent hsend
  rw [written, hsend]
  cases hsent with
  | unencoded rejects => exact rejects.symm
  | whole encodes =>
    rw [encodes]
    exact congrArg Except.ok hwrites.outgoing
  | part _ _ fails =>
    have htakes : Link.Takes {} := by decide
    exact absurd htakes fails

end Framing

end PacketStream
