import PacketStream.Proofs.Connection.Receiving
import PacketStream.Proofs.Frame.Chunks

/-!
# A streaming decoder and a connection read the same

Two readers of one stream: a streaming decoder, which looks at all bytes that have come, and a
connection, which reads the length of each frame one byte at a time. `feed_eq_receiveAll` says that
they give the same messages and the same fault, however the stream is cut into chunks and however
slowly the link brings it. Where the connection finds the end of the stream, the decoder waits for
more.

The two are compared frame by frame (`next_of_receive_ok`, `next_of_receive_error`): whatever
`Framing.Received` says of the connection's read is a fact about the bytes, and determines what a
look at the same bytes gives.
-/

namespace PacketStream

/-- The fault, unless it is the end of the stream. -/
def Fault.beforeEnd? : Fault → Option Fault
  | connectionClosed .. => none
  | e => some e

theorem Fault.beforeEnd?_of_isOfContents {e : Fault} (h : e.isOfContents = true) :
    e.beforeEnd? = some e := by
  cases e with
  | malformed _ | decompression _ | sizeLimit _ _ => rfl
  | _ => cases h

namespace Connection

variable {c after : Connection} {m : Message} {e : Fault}

/-- A message that a connection receives stands at the front of the bytes. -/
theorem next_of_receive_ok (h : c.receive.value = (.ok m, after)) :
    (c.framing.next c.link.incoming).value = (.ok (some m), after.link.incoming) := by
  obtain ⟨taken, hreads, hreceived, -⟩ := receive_received h
  generalize hresult : Except.ok m = result at hreceived
  cases hreceived with
  | whole announces =>
    rw [hreads.incoming, Framing.next_of_whole announces, ← hresult]
    rfl
  | _ => cases hresult

/-- What stops a connection stops a look at the bytes, or makes it wait. -/
theorem next_of_receive_error (hl : c.link.Delivers) (h : c.receive.value = (.error e, after)) :
    ∃ rest, (c.framing.next c.link.incoming).value
      = (match e.beforeEnd? with | none => .ok none | some e => .error e, rest) := by
  obtain ⟨taken, hreads, hreceived, -⟩ := receive_received h
  rw [hreads.incoming]
  generalize hresult : Except.error e = result at hreceived
  cases hreceived with
  | refused refuses =>
    cases hresult
    exact ⟨_, Framing.next_of_refused
      (Varint.decode_append_of_error Framing.varintBits_pos refuses _)⟩
  | unacceptable length rejects =>
    cases hresult
    -- the limits refuse a length as malformed
    have hcontents : e.isOfContents = true := by
      rw [Framing.outcome_checkLength] at rejects
      split at rejects
      · cases rejects
        rfl
      split at rejects <;> cases rejects
      rfl
    rw [Fault.beforeEnd?_of_isOfContents hcontents]
    exact ⟨_, Framing.next_of_unacceptable length rejects _⟩
  | whole announces =>
    rw [Fault.beforeEnd?_of_isOfContents (Framing.isOfContents_of_decode hresult.symm),
      Framing.next_of_whole announces, ← hresult]
    exact ⟨_, rfl⟩
  | cutLength isOpen _ closed =>
    cases hresult
    obtain ⟨rfl, hnil⟩ := closed hl
    rw [hnil, List.append_nil]
    exact ⟨_, Framing.next_of_open isOpen⟩
  | cutContents announces short _ closed =>
    cases hresult
    obtain ⟨rfl, hnil⟩ := closed hl
    rw [hnil, List.append_nil]
    exact ⟨_, Framing.next_of_openContents announces short⟩

/-- A connection that reads up to the first fault gives what its bytes give when they are drained. -/
theorem receiveAll_eq_drain (c : Connection) (hl : c.link.Delivers) :
    let read := c.receiveAll
    let drained := c.framing.drain c.link.incoming
    drained.messages = read.messages ∧ drained.fault = read.fault.beforeEnd? := by
  induction hn : c.link.incoming.length using Nat.strongRecOn generalizing c with
  | _ n ih =>
    rcases h : c.receive.value with ⟨e | m, after⟩
    · obtain ⟨rest, hnext⟩ := next_of_receive_error hl h
      rw [receiveAll_of_error h]
      dsimp only
      rcases he : e.beforeEnd? with _ | e' <;> rw [he] at hnext
      · rw [Framing.drain_of_none hnext]
        exact ⟨rfl, rfl⟩
      · rw [Framing.drain_of_error hnext]
        exact ⟨rfl, rfl⟩
    · obtain ⟨taken, hreads, -, hframing⟩ := receive_received h
      obtain ⟨hmessages, hfault⟩ :=
        ih _ (hn ▸ length_lt_of_receive h) after (hreads.delivers hl) rfl
      rw [receiveAll_of_ok h, Framing.drain_of_message (next_of_receive_ok h), ← hframing]
      exact ⟨congrArg (m :: ·) hmessages, hfault⟩

/-- **A streaming decoder and a connection read the same.** Let the bytes of a link be cut into
chunks in any way. Fed with the chunks, the streaming decoder gives the messages that a connection
over the link gives, and its first fault; only where the connection finds the end of the stream,
the decoder has no fault. Then the bytes are one frame for each message and those still waiting,
and no frame stands at the front of these. -/
theorem feed_eq_receiveAll (f : Framing) (chunks : List (List UInt8)) (l : Link)
    (hl : l.Delivers) (hincoming : l.incoming = chunks.flatten) :
    let fed := f.feed [] chunks
    let read := receiveAll { link := l, framing := f }
    fed.messages = read.messages ∧ fed.fault = read.fault.beforeEnd? ∧
      (fed.fault = none → ∃ frames, chunks.flatten = frames.flatten ++ fed.rest ∧
        List.Forall₂ f.Carries frames fed.messages ∧
        ∀ frame, f.IsFrame frame → ¬ frame <+: fed.rest) := by
  intro fed read
  have hwaiting : (f.next []).value = (.ok none, []) := Framing.next_of_open Varint.decode_nil
  obtain ⟨hmessages, hfault, hrest⟩ := Framing.feed_eq_drain chunks hwaiting
  obtain ⟨hread, hend⟩ := receiveAll_eq_drain { link := l, framing := f } hl
  rw [hincoming] at hread hend
  refine ⟨hmessages.trans hread, hfault.trans hend, ?_⟩
  intro hnone
  rw [hrest hnone, hmessages]
  exact Framing.drain_split (hfault.symm.trans hnone)

/-- Two frames and the start of a third, cut inside a length and inside contents, over a link that
brings its first bytes one at a time. -/
theorem feed_eq_receiveAll_trickling :
    let f : Framing := { threshold := some 64 }
    let l : Link := {
      incoming := [0x83, 0x00, 0, 1, 7, 0x02, 0, 5, 0x04, 0]
      reads := [.interrupted, .move 1, .waiting, .move 1, .move 2] }
    let chunks : List (List UInt8) := [[0x83], [0x00, 0, 1], [], [7, 0x02, 0, 5, 0x04], [0]]
    let fed := f.feed [] chunks
    let read := receiveAll { link := l, framing := f }
    (l.Delivers ∧ l.incoming = chunks.flatten) ∧
      fed.messages = read.messages ∧ fed.fault = read.fault.beforeEnd? ∧
      (fed.fault = none → ∃ frames, chunks.flatten = frames.flatten ++ fed.rest ∧
        List.Forall₂ f.Carries frames fed.messages ∧
        ∀ frame, f.IsFrame frame → ¬ frame <+: fed.rest) :=
  ⟨⟨by decide, by decide⟩, feed_eq_receiveAll _ _ _ (by decide) (by decide)⟩

end Connection

end PacketStream
