import PacketStream.Proofs.Connection.Buffered
import PacketStream.Proofs.Connection.Sending
import PacketStream.Proofs.Frame.Layout

/-!
# All of a frame, or the front of one

A packet that cannot be encoded is found out before anything is written: its checks, the writing of
its fields and the limit for frames all come before the first call on the link. What the link is
given then is one frame, and only the link can break it off.

`Framing.Encodes` says which packets have a frame, and to which fault the others come; `Link.Pushed`
says what can become of a frame on a link. `send_whole` puts the two together. It holds of a queue of
frames, too, where nothing can break them off.
-/

namespace PacketStream

variable {c : Connection} {id : Int32} {payload : Payload}

namespace Framing

variable {f : Framing} {m : Message}

/-! A message is queued like a packet that consists of its bytes. -/

theorem enqueue_of_error {e : Fault}
    (h : (f.encode m.id (.ofBytes m.payload.unread)).outcome = .error e) (queued : List UInt8) :
    (f.enqueue m queued).value = (.error e, queued) := by
  rw [← outcome_encodeMessage rfl rfl] at h
  rw [value_enqueue, h]

theorem enqueue_of_frame {frame : List UInt8}
    (h : (f.encode m.id (.ofBytes m.payload.unread)).outcome = .ok frame) (queued : List UInt8) :
    (f.enqueue m queued).value = (.ok (), queued ++ frame) := by
  rw [← outcome_encodeMessage rfl rfl] at h
  rw [value_enqueue, h]

end Framing

namespace Connection

/-- A packet that has no frame leaves the link as it is. -/
theorem send_of_error {e : Fault} (h : (c.framing.encode id payload).outcome = .error e) :
    (c.send id payload).value = (.error e, c) := by
  rw [send, value_use, Framing.outcome_send, h]

theorem send_of_frame {frame : List UInt8}
    (h : (c.framing.encode id payload).outcome = .ok frame) :
    (c.send id payload).value = ((c.link.send frame).1, { c with link := (c.link.send frame).2 }) := by
  rw [send, value_use, Framing.outcome_send, h]

/-- **A packet is written as one frame, unless it has none or the link breaks it off.** A packet has
no frame where its id is negative, a field is not valid or cannot be written, or the contents are too
long; the link is then not used at all. Otherwise it is given the frame: if the call succeeds, all of
it has been written and flushed; if the link fails, what has been written is the front of it, and the
flush has not been tried before all of it was there. A queue of frames grows by the frame of a
message, or is left as it is. -/
theorem send_whole (c : Connection) (id : Int32) (payload : Payload) (m : Message)
    (queued : List UInt8) :
    let encoded := (c.framing.encode id payload).outcome
    let message : Payload := .ofBytes m.payload.unread
    let queueable := (c.framing.encode m.id message).outcome
    (c.framing.Encodes id payload encoded ∧
      (∀ e, encoded = .error e → (c.send id payload).value = (.error e, c)) ∧
      ∀ frame, encoded = .ok frame → ∃ result link,
        (c.send id payload).value = (result, { c with link }) ∧ c.link.Pushed frame result link) ∧
    c.framing.Encodes m.id message queueable ∧
      (∀ e, queueable = .error e → (c.framing.enqueue m queued).value = (.error e, queued)) ∧
      ∀ frame, queueable = .ok frame →
        (c.framing.enqueue m queued).value = (.ok (), queued ++ frame) := by
  intro encoded message queueable
  refine ⟨⟨c.framing.encodes id payload, fun e => send_of_error, ?_⟩,
    c.framing.encodes m.id message, ?_, ?_⟩
  · intro frame hframe
    exact ⟨_, _, send_of_frame hframe, c.link.pushed_send frame⟩
  · intro e he
    exact Framing.enqueue_of_error he queued
  · intro frame hframe
    exact Framing.enqueue_of_frame hframe queued

/-- A link that takes two bytes and then fails, and a limit that is one byte below the contents. -/
theorem send_whole_torn :
    let c : Connection := {
      link := { outgoing := [9], writes := [.move 2, .interrupted, .failed "reset"] }
      framing := { config := { frameLength := 3 } } }
    let m (bytes : List UInt8) : Message := { id := 1, payload := .ofBytes bytes }
    (∃ result link, (c.send 1 (.ofBytes [7, 7])).value = (result, { c with link }) ∧
      c.link.Pushed [3, 1, 7, 7] result link ∧ link.outgoing = [9, 3, 1]) ∧
    (c.send 1 (.ofBytes [7, 7, 7])).value = (.error (.sizeLimit 3 4), c) ∧
    (c.framing.enqueue (m [7, 7, 7]) [5]).value = (.error (.sizeLimit 3 4), [5]) ∧
    (c.framing.enqueue (m [7, 7]) [5]).value = (.ok (), [5, 3, 1, 7, 7]) := by
  intro c m
  have hframe : (c.framing.encode 1 (.ofBytes [7, 7])).outcome = .ok [3, 1, 7, 7] := by cbv
  have hlong : (c.framing.encode 1 (.ofBytes [7, 7, 7])).outcome = .error (.sizeLimit 3 4) := by cbv
  have houtgoing : (c.send 1 (.ofBytes [7, 7])).value.2.link.outgoing = [9, 3, 1] := by cbv
  obtain ⟨⟨-, -, hsends⟩, -, -, hqueues⟩ := c.send_whole 1 (.ofBytes [7, 7]) (m [7, 7]) [5]
  obtain ⟨⟨-, hrefuses, -⟩, -, hkeeps, -⟩ :=
    c.send_whole 1 (.ofBytes [7, 7, 7]) (m [7, 7, 7]) [5]
  obtain ⟨result, link, hsend, hpushed⟩ := hsends _ hframe
  rw [hsend] at houtgoing
  exact ⟨⟨result, link, hsend, hpushed, houtgoing⟩, hrefuses _ hlong, hkeeps _ hlong,
    hqueues _ hframe⟩

end Connection

end PacketStream
