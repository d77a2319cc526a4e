import PacketStream.Connection.Basic
import PacketStream.Proofs.Frame.Contents
import PacketStream.Proofs.Frame.Front

/-!
# Receiving over a connection

`Connection.receive_received` carries what is known of reading a frame over to connections: the
bytes that are gone from the link and the result are related as `Framing.Received` says, and limits
and threshold stay. `receive_announced` is its use where a length stands at the front that the
limits allow, `receive_whole` where all of the frame is there, and `receive_of_open` where the
stream ends inside a length.

`Connection.receiveAll` reads one message after the other, up to the first fault, and
`Connection.receiveTimes` so many times, whatever each read comes to.
-/

namespace PacketStream

namespace Framing

variable {f : Framing} {l after : Link} {pre contents behind rest : List UInt8} {n : Nat}

/-- **A length that is announced says what a read comes to**: the contents, if so many bytes come
behind it, and otherwise the end of the stream, found when all of them have been taken. -/
theorem receive_announced (hl : l.Delivers) (hannounces : f.Announces pre n)
    (hincoming : l.incoming = pre ++ behind) :
    ∃ after, f.receive.outcome l =
        (if behind.length < n then .error (.connectionClosed behind.length n)
          else (f.decode (behind.take n)).outcome, after) ∧
      l.Reads (pre ++ behind.take n) after := by
  rcases hreceive : f.receive.outcome l with ⟨result, after⟩
  obtain ⟨taken, hreads, hreceived⟩ := receive_received hreceive
  have hsplit := hreads.incoming
  rw [hincoming] at hsplit
  obtain ⟨value, hvalue, hcheck⟩ := id hannounces
  have hfront := Varint.decode_append_of_some varintBits_pos hvalue behind
  rw [hsplit] at hfront
  cases hreceived with
  | refused refuses =>
    rw [Varint.decode_append_of_error varintBits_pos refuses] at hfront
    cases hfront
  | unacceptable length rejects =>
    rw [Varint.decode_append_of_some varintBits_pos length] at hfront
    simp only [Except.ok.injEq, Option.some.injEq, Prod.mk.injEq] at hfront
    rw [hfront.1, hcheck] at rejects
    cases rejects
  | whole announces =>
    rw [List.append_assoc] at hsplit
    obtain ⟨rfl, rfl⟩ := hannounces.unique announces hsplit
    have hbehind := List.append_cancel_left hsplit
    rw [hbehind, if_neg (by rw [List.length_append]; omega), List.take_left]
    exact ⟨after, rfl, hreads⟩
  | cutLength isOpen _ closed =>
    rw [(closed hl).2, List.append_nil, isOpen] at hfront
    cases hfront
  | cutContents announces short _ closed =>
    obtain ⟨rfl, hend⟩ := closed hl
    rw [hend, List.append_nil] at hsplit
    obtain ⟨rfl, rfl⟩ := hannounces.unique announces hsplit
    have hbehind := List.append_cancel_left hsplit
    rw [hbehind, if_pos short, List.take_of_length_le (Nat.le_of_lt short)]
    exact ⟨after, rfl, hreads⟩

/-- **A frame at the front is read as a whole.** No more and no less is taken, and the result is
that of its contents. -/
theorem receive_whole (hl : l.Delivers) (hannounces : f.Announces pre contents.length)
    (hincoming : l.incoming = pre ++ contents ++ rest) :
    ∃ after, f.receive.outcome l = ((f.decode contents).outcome, after) ∧
      l.Reads (pre ++ contents) after ∧ after.incoming = rest := by
  rw [List.append_assoc] at hincoming
  obtain ⟨after, hreceive, hreads⟩ := receive_announced hl hannounces hincoming
  have hlong : ¬ (contents ++ rest).length < contents.length := by
    rw [List.length_append]
    omega
  rw [if_neg hlong, List.take_left] at hreceive
  rw [List.take_left] at hreads
  have hrest := hreads.incoming
  rw [hincoming, ← List.append_assoc] at hrest
  exact ⟨after, hreceive, hreads, (List.append_cancel_left hrest).symm⟩

/-- A stream that ends inside a length gives nothing of the byte that is waited for. -/
theorem receive_of_open (hl : l.Delivers)
    (hopen : Varint.decode varintBits l.incoming = .ok none) :
    ∃ after, f.receive.outcome l = (.error (.connectionClosed 0 1), after) ∧
      l.Reads l.incoming after := by
  rcases hreceive : f.receive.outcome l with ⟨result, after⟩
  obtain ⟨taken, hreads, hreceived⟩ := receive_received hreceive
  have hsplit := hreads.incoming
  -- a length or a refusal that has been taken would stand at the front of all bytes
  have hnot : ∀ pre rest value, l.incoming = pre ++ rest →
      Varint.decode varintBits pre ≠ .ok (some (value, pre.length)) := by
    intro pre rest value hincoming hvalue
    rw [hincoming, Varint.decode_append_of_some varintBits_pos hvalue] at hopen
    cases hopen
  cases hreceived with
  | refused refuses =>
    rw [hsplit, Varint.decode_append_of_error varintBits_pos refuses] at hopen
    cases hopen
  | unacceptable length _ => exact absurd length (hnot _ _ _ hsplit)
  | whole announces =>
    obtain ⟨value, hvalue, -⟩ := announces
    rw [List.append_assoc] at hsplit
    exact absurd hvalue (hnot _ _ _ hsplit)
  | cutLength _ _ closed =>
    obtain ⟨rfl, hend⟩ := closed hl
    rw [hend, List.append_nil] at hsplit
    rw [hsplit]
    exact ⟨after, rfl, hreads⟩
  | cutContents announces _ _ _ =>
    obtain ⟨value, hvalue, -⟩ := announces
    rw [List.append_assoc] at hsplit
    exact absurd hvalue (hnot _ _ _ hsplit)

/-- At the end of the stream a read takes nothing, and says so. -/
theorem receive_atEnd (hl : l.Delivers) (hincoming : l.incoming = []) :
    ∃ after, f.receive.outcome l = (.error (.connectionClosed 0 1), after) ∧ l.Reads [] after := by
  have hopen : Varint.decode varintBits l.incoming = .ok none := by
    rw [hincoming]
    exact Varint.decode_nil
  have hreceive := receive_of_open (f := f) hl hopen
  rwa [hincoming] at hreceive

end Framing

namespace Connection

variable {α : Type} {c after : Connection} {result : Except Fault Message} {m : Message} {e : Fault}

theorem value_use (c : Connection) (x : Exchange α) :
    (c.use x).value = ((x.outcome c.link).1, { c with link := (x.outcome c.link).2 }) := rfl

theorem receive_received (h : c.receive.value = (result, after)) :
    ∃ taken, c.link.Reads taken after.link ∧ c.framing.Received c.link after.link taken result ∧
      after.framing = c.framing := by
  rw [receive, value_use, Prod.mk.injEq] at h
  obtain ⟨rfl, rfl⟩ := h
  obtain ⟨taken, hreads, hreceived⟩ :=
    Framing.receive_received (f := c.framing) (l := c.link) rfl
  exact ⟨taken, hreads, hreceived, rfl⟩

/-- A read that gives a message has taken a frame, so bytes are gone. -/
theorem length_lt_of_receive (h : c.receive.value = (.ok m, after)) :
    after.link.incoming.length < c.link.incoming.length := by
  obtain ⟨taken, hreads, hreceived, -⟩ := receive_received h
  generalize hresult : Except.ok m = result at hreceived
  cases hreceived with
  | whole announces =>
    have := announces.pos_length
    rw [hreads.incoming, List.length_append, List.length_append]
    omega
  | _ => cases hresult

/-- **A frame that comes next is read as a whole**, whatever its contents come to. -/
theorem receive_of_announces {pre contents rest : List UInt8} (hc : c.link.Delivers)
    (hannounces : c.framing.Announces pre contents.length)
    (hincoming : c.link.incoming = pre ++ contents ++ rest) :
    ∃ link, c.receive.value = ((c.framing.decode contents).outcome, { c with link }) ∧
      c.link.Reads (pre ++ contents) link ∧ link.incoming = rest := by
  obtain ⟨link, hreceive, hreads, hrest⟩ := Framing.receive_whole hc hannounces hincoming
  refine ⟨link, ?_, hreads, hrest⟩
  rw [receive, value_use, hreceive]

/-! ## One message after the other -/

/-- What came of reading messages up to the first fault. -/
structure ReadOut where
  messages : List Message
  fault : Fault
  /-- The connection after the fault. -/
  last : Connection

/-- Reads messages up to the first fault. The end of the stream is one. -/
def receiveAll (c : Connection) : ReadOut :=
  match h : c.receive.value with
  | (.ok m, after) =>
    have : after.link.incoming.length < c.link.incoming.length := length_lt_of_receive h
    let later := receiveAll after
    { later with messages := m :: later.messages }
  | (.error e, after) => { messages := [], fault := e, last := after }
termination_by c.link.incoming.length

theorem receiveAll_of_ok (h : c.receive.value = (.ok m, after)) :
    c.receiveAll = { after.receiveAll with messages := m :: after.receiveAll.messages } := by
  rw [receiveAll]
  split <;> rename_i h' <;> rw [h] at h' <;> cases h'
  rfl

theorem receiveAll_of_error (h : c.receive.value = (.error e, after)) :
    c.receiveAll = { messages := [], fault := e, last := after } := by
  rw [receiveAll]
  split <;> rename_i h' <;> rw [h] at h' <;> cases h'
  rfl

/-- Reads so many packets one after the other, whatever each read comes to. -/
def receiveTimes (c : Connection) : (times : Nat) → List (Except Fault Message) × Connection
  | 0 => ([], c)
  | times + 1 =>
    let (result, after) := c.receive.value
    let (later, last) := after.receiveTimes times
    (result :: later, last)

theorem receiveTimes_succ {times : Nat} (h : c.receive.value = (result, after)) :
    c.receiveTimes (times + 1) =
      (result :: (after.receiveTimes times).1, (after.receiveTimes times).2) := by
  rw [receiveTimes, h]

/-- Reads change neither limits nor threshold. -/
theorem framing_receiveTimes (c : Connection) (times : Nat) :
    (c.receiveTimes times).2.framing = c.framing := by
  induction times generalizing c with
  | zero => rfl
  | succ times ih => exact ih c.receive.value.2

end Connection

end PacketStream
