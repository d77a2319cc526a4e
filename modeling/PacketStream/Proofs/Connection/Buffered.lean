import PacketStream.Connection.Buffered
import PacketStream.Proofs.Frame.Chunks
import PacketStream.Proofs.Link.Writing

/-!
# What a buffered connection does

The two directions of a buffered connection do not disturb each other. `Receives` says what calls
for items leave alone, and `Sends` what packets that are sent do: it also says that the sink writes
in order what it has been given.

A call for the next item gives what stands first in all bytes that are still to come, be they in the
inbox or on the link (`gives_next`). `Awaits` is the invariant: bytes that are to come are taken off
the front by messages only, and the inbox holds no message that a call would overlook.
`send_accepts` lists what sending can come to: a frame is accepted as a whole or not at all.
-/

namespace PacketStream

/-! ## One look, one frame -/

namespace Framing

/-- The last look differs from others where there is no message: bytes that wait are a fault then. -/
theorem value_last (f : Framing) (arrived : List UInt8) :
    (f.last arrived).value =
      match (f.next arrived).value with
      | (.ok none, rest) =>
        if rest.isEmpty then (.ok none, rest) else (.error (.transfer .bytesRemaining), rest)
      | look => look := by
  rw [last, Traced.value_bind]
  rcases (f.next arrived).value with ⟨e | _ | m, rest⟩
  · rfl
  · dsimp only
    split <;> rfl
  · rfl

/-- A frame that cannot be made leaves the bytes that wait as they are. -/
theorem value_enqueue (f : Framing) (m : Message) (queued : List UInt8) :
    (f.enqueue m queued).value =
      match (f.encodeMessage m).outcome with
      | .error e => (.error e, queued)
      | .ok frame => (.ok (), queued ++ frame) := by
  rw [enqueue, Traced.value_bind, Checked.outcome]
  rcases (f.encodeMessage m).run.value with e | frame <;> rfl

end Framing

namespace Buffered

variable {s after last : Buffered} {m : Message} {bytes more rest : List UInt8}

/-- A look before the end of the stream takes what the decoder takes. -/
theorem look_of_going (hgoing : s.ended = false) :
    ∃ inbox : Inbox, inbox.bytes = (s.framing.next s.inbox.bytes).value.2 ∧
      s.look.value =
        match (s.framing.next s.inbox.bytes).value.1 with
        | .ok (some m) => (some (.message m), { s with inbox })
        | .ok none => (none, { s with inbox, readable := false })
        | .error e => (some (.fault e), { s with inbox, failed := true }) := by
  refine ⟨(s.inbox.reserve (s.framing.missing s.inbox.bytes)).leave
    (s.framing.next s.inbox.bytes).value.2, rfl, ?_⟩
  simp only [look, hgoing, Bool.false_eq_true, if_false, Inbox.bytes_reserve, Traced.value_bind]
  rcases (s.framing.next s.inbox.bytes).value with ⟨e | _ | m, rest⟩ <;> rfl

/-- A look behind the end of the stream always has something to give. -/
theorem look_of_ended (hended : s.ended = true) :
    ∃ inbox : Inbox, inbox.bytes = (s.framing.last s.inbox.bytes).value.2 ∧
      s.look.value =
        match (s.framing.last s.inbox.bytes).value.1 with
        | .ok (some m) => (some (.message m), { s with inbox })
        | .ok none => (some .done, { s with inbox, readable := false })
        | .error e => (some (.fault e), { s with inbox, failed := true }) := by
  refine ⟨(s.inbox.reserve (s.framing.missing s.inbox.bytes)).leave
    (s.framing.last s.inbox.bytes).value.2, rfl, ?_⟩
  simp only [look, hended, if_true, Inbox.bytes_reserve, Traced.value_bind]
  rcases (s.framing.last s.inbox.bytes).value with ⟨e | _ | m, rest⟩ <;> rfl

/-! ## One read -/

section Await

variable {link : Link} {e : Fault}

theorem await_of_error (h : s.link.receiveSome (s.inbox.reserve 1).room = (.error e, link)) :
    s.await.value = (.fault e, { s with link, inbox := s.inbox.reserve 1, failed := true }) := by
  rw [await]
  split <;> rename_i hcall <;> rw [h] at hcall <;> cases hcall
  rfl

theorem await_of_nothing (h : s.link.receiveSome (s.inbox.reserve 1).room = (.ok bytes, link))
    (hbytes : bytes.isEmpty = true) :
    s.await.value =
      let atEnd : Buffered := { s with link, inbox := s.inbox.reserve 1 }
      if s.ended then (.done, atEnd)
      else
        let looked := (look { atEnd with ended := true, readable := true }).value
        (looked.1.getD .done, looked.2) := by
  rw [await]
  split <;> rename_i hcall <;> rw [h] at hcall <;> cases hcall
  rw [dif_pos hbytes]
  dsimp only
  split <;> rfl

theorem await_of_bytes (h : s.link.receiveSome (s.inbox.reserve 1).room = (.ok bytes, link))
    (hbytes : ¬ bytes.isEmpty = true) :
    s.await.value =
      match (look (arrive bytes link { s with inbox := s.inbox.reserve 1 })).value with
      | (some item, after) => (item, after)
      | (none, after) => (await { after with link }).value := by
  rw [await]
  split <;> rename_i hcall <;> rw [h] at hcall <;> cases hcall
  rw [dif_neg hbytes, Traced.value_bind]
  rcases (look (arrive bytes link { s with inbox := s.inbox.reserve 1 })).value with
    ⟨_ | item, after⟩ <;> rfl

end Await

/-! ## What receiving leaves alone -/

/-- Between `s` and `after` bytes may have come in, and nothing has gone out. -/
structure Receives (s after : Buffered) : Prop where
  link : ∃ taken, s.link.Reads taken after.link
  framing : after.framing = s.framing
  queued : after.queued = s.queued

theorem Receives.trans (h : s.Receives after) (h' : after.Receives last) : s.Receives last where
  link := by
    obtain ⟨taken, hreads⟩ := h.link
    obtain ⟨taken', hreads'⟩ := h'.link
    exact ⟨taken ++ taken', hreads.trans hreads'⟩
  framing := h'.framing.trans h.framing
  queued := h'.queued.trans h.queued

theorem receives_look (s : Buffered) : s.Receives s.look.value.2 := by
  have hsame (inbox : Inbox) (readable failed : Bool) :
      s.Receives { s with inbox, readable, failed } :=
    { link := ⟨[], Link.Reads.refl _⟩, framing := rfl, queued := rfl }
  rcases hended : s.ended with - | -
  · obtain ⟨inbox, -, hlook⟩ := look_of_going hended
    rw [hlook]
    split <;> exact hsame ..
  · obtain ⟨inbox, -, hlook⟩ := look_of_ended hended
    rw [hlook]
    split <;> exact hsame ..

theorem receives_await (s : Buffered) : s.Receives s.await.value.2 := by
  induction hn : s.link.incoming.length using Nat.strongRecOn generalizing s with
  | _ n ih =>
    obtain ⟨taken, hreads⟩ := s.link.reads_receiveSome (s.inbox.reserve 1).room
    rcases hcall : s.link.receiveSome (s.inbox.reserve 1).room with ⟨e | bytes, link⟩ <;>
      rw [hcall] at hreads
    · rw [await_of_error hcall]
      exact { link := ⟨taken, hreads⟩, framing := rfl, queued := rfl }
    by_cases hbytes : bytes.isEmpty = true
    · rw [await_of_nothing hcall hbytes]
      let atEnd : Buffered := { s with
        link, inbox := s.inbox.reserve 1, ended := true, readable := true }
      have hend : s.Receives atEnd := { link := ⟨taken, hreads⟩, framing := rfl, queued := rfl }
      by_cases hended : s.ended = true
      · rw [if_pos hended]
        exact { link := ⟨taken, hreads⟩, framing := rfl, queued := rfl }
      · rw [if_neg hended]
        exact hend.trans (receives_look atEnd)
    · have hlt := Link.length_lt_of_receiveSome hcall hbytes
      let arrived := arrive bytes link { s with inbox := s.inbox.reserve 1 }
      have harrived : s.Receives arrived :=
        { link := ⟨taken, hreads⟩, framing := rfl, queued := rfl }
      have hlooked := receives_look arrived
      rw [await_of_bytes hcall hbytes]
      rcases hlook : arrived.look.value with ⟨_ | item, after⟩ <;> rw [hlook] at hlooked
      · have hagain : s.Receives { after with link } :=
          { link := ⟨taken, hreads⟩, framing := hlooked.framing, queued := hlooked.queued }
        exact hagain.trans (ih _ (hn ▸ hlt) { after with link } rfl)
      · exact harrived.trans hlooked

theorem receives_next (s : Buffered) : s.Receives s.next.value.2 := by
  have hlooked := s.receives_look
  rw [next]
  split
  · exact { link := ⟨[], Link.Reads.refl _⟩, framing := rfl, queued := rfl }
  · split
    · rw [Traced.value_bind]
      rcases hlook : s.look.value with ⟨_ | item, after⟩ <;> rw [hlook] at hlooked
      · exact hlooked.trans after.receives_await
      · exact hlooked
    · exact s.receives_await

/-! ## What a call gives -/

/-- `s` is in framing `f`, no call on it has failed, and `bytes` are still to be made into items:
those in the inbox and those that come over the link. If it would not look into the inbox before it
reads, there is no message in it. -/
structure Awaits (s : Buffered) (f : Framing) (bytes : List UInt8) : Prop where
  framing : s.framing = f
  bytes : s.inbox.bytes ++ s.link.incoming = bytes
  flows : s.link.Flows
  going : s.ended = false
  unfailed : s.failed = false
  looked : s.readable = false → (f.next s.inbox.bytes).value = (.ok none, s.inbox.bytes)

/-- The item is what the look has found, and behind a message the bytes that are left are awaited. -/
def Gives (f : Framing) (item : Item) (after : Buffered) : Framing.Look → Prop
  | (.ok (some m), rest) => item = .message m ∧ after.Awaits f rest
  | (.ok none, _) => item = .done
  | (.error e, _) => item = .fault e

variable {f : Framing}

/-- A look finds what stands first in all bytes that come, or there is no message yet. -/
theorem look_of_awaits (h : s.Awaits f bytes) (hreadable : s.readable = true) :
    (∃ item after, s.look.value = (some item, after) ∧ Gives f item after (f.last bytes).value) ∨
      ∃ after, s.look.value = (none, after) ∧ after.Awaits f bytes ∧ after.readable = false ∧
        after.link = s.link := by
  obtain rfl := h.framing
  obtain ⟨inbox, hinbox, hlook⟩ := look_of_going h.going
  rw [Framing.value_last]
  rcases hnext : (s.framing.next s.inbox.bytes).value with ⟨e | _ | m, rest⟩ <;>
    rw [hnext] at hinbox hlook <;> dsimp only at hinbox hlook
  · have hall := Framing.next_error_append hnext s.link.incoming
    rw [h.bytes] at hall
    rw [hall]
    exact .inl ⟨_, _, hlook, rfl⟩
  · obtain ⟨rfl, -⟩ := Framing.no_frame_of_next hnext
    refine .inr ⟨_, hlook, ?_, rfl, rfl⟩
    exact {
      framing := rfl
      bytes := by rw [← h.bytes, ← hinbox]
      flows := h.flows
      going := h.going
      unfailed := h.unfailed
      looked := fun _ => hinbox ▸ hnext }
  · obtain ⟨frame, hframe, hcarries⟩ := Framing.carries_of_next hnext
    have hall := Framing.next_of_carries hcarries (rest ++ s.link.incoming)
    rw [← List.append_assoc, ← hframe, h.bytes] at hall
    rw [hall]
    refine .inl ⟨_, _, hlook, rfl, ?_⟩
    exact {
      framing := rfl
      bytes := by rw [← hinbox]
      flows := h.flows
      going := h.going
      unfailed := h.unfailed
      looked := fun hunreadable => (Bool.false_ne_true (hunreadable.symm.trans hreadable)).elim }

/-- At the end of the stream a look finds what the bytes in the inbox hold, which is no message. -/
theorem look_atEnd (h : s.Awaits f bytes) (hnil : s.link.incoming = [])
    (hwaits : (f.next s.inbox.bytes).value = (.ok none, s.inbox.bytes)) (link : Link)
    (inbox : Inbox) (hinbox : inbox.bytes = s.inbox.bytes) :
    ∃ item after, (look { s with link, inbox, ended := true, readable := true }).value
      = (some item, after) ∧ Gives f item after (f.last bytes).value := by
  obtain rfl := h.framing
  obtain ⟨rest, -, hlook⟩ :=
    look_of_ended (s := { s with link, inbox, ended := true, readable := true }) rfl
  have hbytes : bytes = s.inbox.bytes := by rw [← h.bytes, hnil, List.append_nil]
  have hlast := s.framing.value_last bytes
  rw [hbytes, hwaits] at hlast
  dsimp only at hlook hlast
  rw [hinbox, hlast] at hlook
  rw [hbytes, hlast]
  by_cases hempty : s.inbox.bytes.isEmpty = true
  · rw [if_pos hempty] at hlook ⊢
    exact ⟨_, _, hlook, rfl⟩
  · rw [if_neg hempty] at hlook ⊢
    exact ⟨_, _, hlook, rfl⟩

/-- Reads go on until there is something to give. -/
theorem gives_await (h : s.Awaits f bytes)
    (hwaits : (f.next s.inbox.bytes).value = (.ok none, s.inbox.bytes)) :
    Gives f s.await.value.1 s.await.value.2 (f.last bytes).value := by
  induction hn : s.link.incoming.length using Nat.strongRecOn generalizing s with
  | _ n ih =>
    obtain ⟨k, link, hk, hcall, hreads⟩ :=
      Link.receiveSome_of_flows h.flows (s.inbox.le_room_reserve 1)
    by_cases hchunk : (s.link.incoming.take k).isEmpty = true
    · -- a call brings nothing only at the end of the stream
      have hnil : s.link.incoming = [] :=
        (List.take_eq_nil_iff.1 (List.isEmpty_iff.1 hchunk)).resolve_left
          (Nat.pos_iff_ne_zero.1 hk)
      obtain ⟨item, after, hlook, hgives⟩ :=
        look_atEnd h hnil hwaits link (s.inbox.reserve 1) (s.inbox.bytes_reserve 1)
      have hawait := await_of_nothing hcall hchunk
      rw [h.going, if_neg Bool.false_ne_true] at hawait
      dsimp only at hawait
      rw [hawait, hlook]
      exact hgives
    · let arrived := arrive (s.link.incoming.take k) link { s with inbox := s.inbox.reserve 1 }
      have harrived : arrived.Awaits f bytes := {
        framing := h.framing
        bytes := by
          show (s.inbox.reserve 1).bytes ++ s.link.incoming.take k ++ link.incoming = bytes
          rw [Inbox.bytes_reserve, List.append_assoc, ← hreads.incoming, h.bytes]
        flows := hreads.flows h.flows
        going := rfl
        unfailed := h.unfailed
        looked := fun hunreadable => (Bool.false_ne_true hunreadable.symm).elim }
      rw [await_of_bytes hcall hchunk]
      rcases look_of_awaits harrived rfl with
        ⟨item, after, hlook, hgives⟩ | ⟨after, hlook, hafter, hunreadable, hlink⟩
      · rw [hlook]
        exact hgives
      · have hlt := Link.length_lt_of_receiveSome hcall hchunk
        obtain rfl : after.link = link := hlink
        rw [hlook]
        exact ih _ (hn ▸ hlt) hafter (hafter.looked hunreadable) rfl

/-- **A call gives what stands first in all bytes that come**, however they come, and behind a
message the others are awaited. -/
theorem gives_next (h : s.Awaits f bytes) :
    Gives f s.next.value.1 s.next.value.2 (f.last bytes).value := by
  rw [next, if_neg (by rw [h.unfailed]; exact Bool.false_ne_true)]
  rcases hreadable : s.readable with - | -
  · rw [if_neg Bool.false_ne_true]
    exact gives_await h (h.looked hreadable)
  · rw [if_pos rfl, Traced.value_bind]
    rcases look_of_awaits h hreadable with
      ⟨item, after, hlook, hgives⟩ | ⟨after, hlook, hafter, hunreadable, -⟩
    · rw [hlook]
      exact hgives
    · rw [hlook]
      exact gives_await hafter (hafter.looked hunreadable)

/-! ## Sending -/

/-- Between `s` and `after` a sink has been given `bytes`. It writes in order what it has been
given, and keeps what it has not written yet. -/
structure Sends (s : Buffered) (bytes : List UInt8) (after : Buffered) : Prop where
  written : ∃ written, s.link.Writes written after.link ∧
    written ++ after.queued = s.queued ++ bytes
  frame : after = { s with link := after.link, queued := after.queued }

theorem Sends.refl (s : Buffered) : s.Sends [] s where
  written := ⟨[], Link.Writes.refl _, by simp⟩
  frame := rfl

theorem Sends.trans (h : s.Sends bytes after) (h' : after.Sends more last) :
    s.Sends (bytes ++ more) last where
  written := by
    obtain ⟨written, hwrites, hsplit⟩ := h.written
    obtain ⟨written', hwrites', hsplit'⟩ := h'.written
    refine ⟨written ++ written', hwrites.trans hwrites', ?_⟩
    rw [List.append_assoc, hsplit', ← List.append_assoc, hsplit, List.append_assoc]
  frame := by rw [h'.frame, h.frame]

theorem Sends.takes (h : s.Sends bytes after) (hs : s.link.Takes) : after.link.Takes := by
  obtain ⟨written, hwrites, -⟩ := h.written
  exact hwrites.takes hs

/-- What is sent does not come between the bytes that are awaited. -/
theorem Sends.awaits (h : s.Sends more after) (hs : s.Awaits f bytes) : after.Awaits f bytes := by
  obtain ⟨written, hwrites, -⟩ := h.written
  have hincoming : after.link.incoming = s.link.incoming := by rw [hwrites.frame]
  have hreads : after.link.reads = s.link.reads := by rw [hwrites.frame]
  rw [h.frame]
  exact {
    framing := hs.framing
    bytes := by
      show s.inbox.bytes ++ after.link.incoming = bytes
      rw [hincoming, hs.bytes]
    flows := by
      show ∀ t ∈ after.link.reads, _
      rw [hreads]
      exact hs.flows
    going := hs.going
    unfailed := hs.unfailed
    looked := hs.looked }

/-- All that is queued is written, or the link fails. -/
theorem flush_cases (s : Buffered) :
    (∃ after, s.flush = (.ok (), after) ∧ s.Sends [] after ∧ after.queued = []) ∨
      ∃ cause after, s.flush = (.error (.transfer cause), after) ∧ s.Sends [] after ∧
        ¬ s.link.Takes := by
  let d := deliver writeRule s.queued s.link.writes
  let between : Link := { s.link with outgoing := s.link.outgoing ++ d.bytes, writes := d.turns }
  have hwrites : s.link.Writes d.bytes between := Link.writes_deliver writeRule s.queued s.link
  have hsplit : d.bytes ++ d.pending = s.queued := deliver_split writeRule s.queued s.link.writes
  rcases hfault : d.fault with _ | e
  · have hflush : s.flush
        = (between.flush.1, { s with link := between.flush.2, queued := d.pending }) := by
      rw [flush, hfault]
    have hboth := hwrites.trans (Link.writes_flush between)
    have hsends : s.Sends [] { s with link := between.flush.2, queued := d.pending } :=
      { written := ⟨_, hboth, by simp [hsplit]⟩, frame := rfl }
    rcases hresult : between.flush.1 with e | ⟨⟩
    · obtain ⟨cause, rfl⟩ := Link.flush_error hresult
      refine .inr ⟨cause, _, by rw [hflush, hresult], hsends, ?_⟩
      intro htakes
      rw [Link.flush_of_takes (hwrites.takes htakes)] at hresult
      cases hresult
    · exact .inl ⟨_, by rw [hflush, hresult], hsends, pending_deliver hfault⟩
  · obtain ⟨cause, rfl⟩ := fault_deliver hfault
    refine .inr ⟨cause, { s with link := between, queued := d.pending }, ?_, ?_, ?_⟩
    · rw [flush, hfault]
    · exact { written := ⟨_, hwrites, by simp [hsplit]⟩, frame := rfl }
    · intro htakes
      rw [fault_deliver_of_flows htakes.1] at hfault
      cases hfault

theorem makeRoom_cases (s : Buffered) :
    (∃ after, s.makeRoom = (.ok (), after) ∧ s.Sends [] after) ∨
      ∃ cause after, s.makeRoom = (.error (.transfer cause), after) ∧ s.Sends [] after ∧
        ¬ s.link.Takes := by
  by_cases hroom : s.queued.length < capacity
  · exact .inl ⟨s, by rw [makeRoom, if_pos hroom], Sends.refl s⟩
  · rw [makeRoom, if_neg hroom]
    rcases s.flush_cases with ⟨after, hflush, hsends, -⟩ | hfails
    · exact .inl ⟨after, hflush, hsends⟩
    · exact .inr hfails

/-- `Accepts l encoded bytes reply` lists what sending a packet can come to where `encoded` is its
frame, if it has one: the bytes that the sink accepts, and what it replies. Only a link that does
not take what it is given makes a difference to the frame. -/
inductive Accepts (l : Link) : (encoded : Except Fault (List UInt8)) → List UInt8 →
    Except Fault Unit → Prop
  /-- The packet has no frame. -/
  | unencoded {e : Fault} : Accepts l (.error e) [] (.error e)
  | whole {frame : List UInt8} : Accepts l (.ok frame) frame (.ok ())
  /-- The link fails, and what it has not taken stays queued. -/
  | queued {frame : List UInt8} {cause : TransferFault} (fails : ¬ l.Takes) :
      Accepts l (.ok frame) frame (.error (.transfer cause))
  /-- The link fails before there is room for the frame. -/
  | full {encoded : Except Fault (List UInt8)} {cause : TransferFault} (fails : ¬ l.Takes) :
      Accepts l encoded [] (.error (.transfer cause))

/-- **A frame is accepted as a whole or not at all.** -/
theorem send_accepts (s : Buffered) (m : Message) :
    ∃ bytes, s.Sends bytes (s.send m).value.2 ∧
      Accepts s.link (s.framing.encodeMessage m).outcome bytes (s.send m).value.1 := by
  rw [send]
  rcases s.makeRoom_cases with ⟨between, hroom, hsends⟩ | ⟨cause, after, hroom, hsends, hfails⟩
  · have hframing : between.framing = s.framing := by rw [hsends.frame]
    rw [hroom, ← hframing]
    dsimp only
    rw [Traced.value_bind, Framing.value_enqueue]
    rcases (between.framing.encodeMessage m).outcome with e | frame
    · exact ⟨[], hsends, .unencoded⟩
    · let given : Buffered := { between with queued := between.queued ++ frame }
      have hgiven : between.Sends frame given :=
        { written := ⟨[], Link.Writes.refl _, rfl⟩, frame := rfl }
      show ∃ bytes, s.Sends bytes given.flush.2 ∧ Accepts s.link (.ok frame) bytes given.flush.1
      rcases given.flush_cases with
        ⟨after, hflush, hrest, -⟩ | ⟨cause, after, hflush, hrest, hfails⟩ <;> rw [hflush]
      · have hall := (hsends.trans hgiven).trans hrest
        rw [List.nil_append, List.append_nil] at hall
        exact ⟨frame, hall, .whole⟩
      · have hall := (hsends.trans hgiven).trans hrest
        rw [List.nil_append, List.append_nil] at hall
        exact ⟨frame, hall, .queued fun htakes => hfails (hsends.takes htakes)⟩
  · rw [hroom]
    exact ⟨[], hsends, .full hfails⟩

end Buffered

end PacketStream
