import Mathlib
import PacketStream.Proofs.Connection.Receiving
import PacketStream.Proofs.Link.Delivery

/-!
# Reads do not depend on how bytes come

A packet is read by two loops, one in the other: over the bytes of its length, and over the calls
for each of these bytes and for its contents. `receiveTimes_eq_plain` says that no script of pieces,
interruptions and waits makes a difference to them. Read after read, packets and faults are those of
the plain stream, and the same bytes are gone. Only a failure of the stream can make a difference,
and it does: where it comes before the bytes that the reads need, one of them fails with it, and
those before are as they would have been.

A frame's reader is steady because its parts are (`Framing.steady_receive`); `receiveTimes_cases`
follows it through a run of reads.
-/

namespace PacketStream

namespace Framing

theorem steady_receiveVarint (bits : Nat) (hbits : 0 < bits) (got : List UInt8) :
    (receiveVarint bits hbits got).Steady := by
  have hbyte : Exchange.receiveByte.Steady :=
    (Exchange.steady_receive 1).bind fun _ => Exchange.steady_pure _
  exact receiveVarint_of_bind (fun _ => hbyte.bind) (fun _ => Exchange.steady_throw rfl)
    Exchange.steady_pure got

/-- No fault that is found in the bytes of a frame waits for more of them. -/
theorem awaited_of_isOfContents {α : Type} {result : Except Fault α}
    (h : ∀ e, result = .error e → e.isOfContents = true) : awaited result = 0 := by
  cases result with
  | ok a => rfl
  | error e =>
    have he := h e rfl
    cases e with
    | malformed _ | decompression _ | sizeLimit _ _ => rfl
    | _ => cases he

theorem steady_receiveLength (f : Framing) : f.receiveLength.Steady := by
  apply (steady_receiveVarint varintBits varintBits_pos []).bind
  intro value
  apply Exchange.steady_ofChecked
  apply awaited_of_isOfContents
  intro e he
  rw [outcome_checkLength] at he
  split at he
  · cases he
    rfl
  split at he <;> cases he
  rfl

/-- **The reader of a frame is steady.** -/
theorem steady_receive (f : Framing) : f.receive.Steady := by
  apply f.steady_receiveLength.bind
  intro n
  apply (Exchange.steady_receive n).bind
  intro contents
  apply Exchange.steady_ofChecked
  exact awaited_of_isOfContents fun e he => isOfContents_of_decode he

end Framing

namespace Connection

variable {f : Framing} {l : Link} {n : Nat}

/-- What the last of the reads has waited for in vain. -/
def awaitedLast (results : List (Except Fault Message)) : Nat :=
  (results.getLast?.map awaited).getD 0

theorem awaitedLast_cons_le (result : Except Fault Message)
    (results : List (Except Fault Message)) :
    awaitedLast (result :: results) ≤ awaited result + awaitedLast results := by
  cases results with
  | nil => simp [awaitedLast]
  | cons next results =>
    rw [awaitedLast, awaitedLast, List.getLast?_cons_cons]
    exact Nat.le_add_left _ _

/-- The bytes that so many reads need of a stream: those that they take where all bytes are there
from the start, and one more where the last read finds the end of the stream. -/
def needs (f : Framing) (bytes : List UInt8) (n : Nat) : Nat :=
  let (results, last) := receiveTimes { link := .ofBytes bytes, framing := f } n
  bytes.length - last.link.incoming.length + awaitedLast results

/-- **A run of reads comes to what it comes to on the plain stream**, or one of them is stopped. -/
theorem receiveTimes_cases (f : Framing) (l : Link) (n : Nat) :
    let read := receiveTimes { link := l, framing := f } n
    let plain := receiveTimes { link := .ofBytes l.incoming, framing := f } n
    (∃ taken rest left, l.incoming = taken ++ rest ∧ read.1 = plain.1 ∧
        read.2.link.incoming = rest ∧ plain.2.link.incoming = rest ∧
        Passes l.reads left (taken.length + awaitedLast plain.1)) ∨
      ∃ k e, k < n ∧ read.1.take k = plain.1.take k ∧ read.1[k]? = some (.error e) ∧
        StopsAt l.reads e := by
  induction n generalizing l with
  | zero => exact .inl ⟨[], l.incoming, l.reads, rfl, rfl, rfl, rfl, Passes.refl _⟩
  | succ n ih =>
    rcases f.steady_receive l with
      ⟨result, taken, rest, left, hsplit, hl, hplain, hpasses⟩ | ⟨e, after, hl, hstops⟩
    · have hread : (receive { link := l, framing := f }).value
          = (result, { link := { l with incoming := rest, reads := left }, framing := f }) := by
        rw [receive, value_use, hl]
      have hsame : (receive { link := .ofBytes l.incoming, framing := f }).value
          = (result, { link := .ofBytes rest, framing := f }) := by
        rw [receive, value_use, hplain]
      rw [receiveTimes_succ hread, receiveTimes_succ hsame]
      rcases ih { l with incoming := rest, reads := left } with
        ⟨taken', rest', left', hsplit', hresults, hend, hend', hpasses'⟩ |
          ⟨k, e, hk, htake, hfault, hstops⟩
      · refine .inl ⟨taken ++ taken', rest', left', ?_, ?_, hend, hend', ?_⟩
        · rw [hsplit, List.append_assoc]
          exact congrArg (taken ++ ·) hsplit'
        · exact congrArg (result :: ·) hresults
        · let later := (receiveTimes { link := .ofBytes rest, framing := f } n).1
          have hlast := awaitedLast_cons_le result later
          apply (hpasses.trans hpasses').mono
          show (taken ++ taken').length + awaitedLast (result :: later)
            ≤ taken.length + awaited result + (taken'.length + awaitedLast later)
          rw [List.length_append]
          omega
      · refine .inr ⟨k + 1, e, Nat.succ_lt_succ hk, ?_, hfault, hpasses.stopsAt hstops⟩
        exact congrArg (result :: ·) htake
    · have hread : (receive { link := l, framing := f }).value
          = (.error e, { link := after, framing := f }) := by
        rw [receive, value_use, hl]
      rw [receiveTimes_succ hread]
      exact .inr ⟨0, e, Nat.succ_pos n, rfl, rfl, hstops⟩

/-- A read that gives a message has taken just its frame. -/
theorem carries_of_receive {c after : Connection} {m : Message}
    (h : c.receive.value = (.ok m, after)) :
    ∃ frame, c.framing.Carries frame m ∧ c.link.incoming = frame ++ after.link.incoming := by
  obtain ⟨taken, hreads, hreceived, -⟩ := receive_received h
  generalize hresult : Except.ok m = result at hreceived
  cases hreceived with
  | whole announces => exact ⟨_, ⟨_, _, rfl, announces, hresult.symm⟩, hreads.incoming⟩
  | _ => cases hresult

/-- The bytes that are gone are a piece for each read, and the piece of a message is its frame. -/
theorem exists_pieces (f : Framing) (l : Link) (n : Nat) :
    let read := receiveTimes { link := l, framing := f } n
    ∃ pieces, l.incoming = pieces.flatten ++ read.2.link.incoming ∧
      List.Forall₂ (fun piece result => ∀ m, result = .ok m → f.Carries piece m) pieces read.1 := by
  induction n generalizing l with
  | zero => exact ⟨[], rfl, .nil⟩
  | succ n ih =>
    rcases hread : (receive { link := l, framing := f }).value with ⟨result, after⟩
    obtain ⟨taken, hreads, -, hframing⟩ := receive_received hread
    obtain ⟨link, framing⟩ := after
    obtain rfl : framing = f := hframing
    obtain ⟨pieces, hpieces, hcarries⟩ := ih link
    rw [receiveTimes_succ hread]
    refine ⟨taken :: pieces, ?_, .cons ?_ hcarries⟩
    · rw [List.flatten_cons, List.append_assoc, ← hpieces]
      exact hreads.incoming
    · intro m hm
      rw [hm] at hread
      obtain ⟨frame, hframe, hincoming⟩ := carries_of_receive hread
      have htaken : taken = frame :=
        List.append_cancel_right (hreads.incoming.symm.trans hincoming)
      rwa [htaken]

/-- **Reads do not depend on how bytes come.** Let packets be read one after the other, whatever
each read comes to. If the link goes on bringing bytes, be it in pieces and with interruptions, the
results are those of the plain stream, and the same bytes are left. On every link, a read that gives
a message has taken just its frame. If a call fails before the bytes that the reads need, one of the
reads fails with it, and those before it are as on the plain stream. -/
theorem receiveTimes_eq_plain (f : Framing) (l : Link) (n : Nat) :
    let read := receiveTimes { link := l, framing := f } n
    let plain := receiveTimes { link := .ofBytes l.incoming, framing := f } n
    (l.Delivers → read.1 = plain.1 ∧ read.2.link.incoming = plain.2.link.incoming) ∧
    (∃ pieces, l.incoming = pieces.flatten ++ read.2.link.incoming ∧
      List.Forall₂ (fun piece result => ∀ m, result = .ok m → f.Carries piece m) pieces read.1) ∧
    (∀ turns reason later, l.reads = turns ++ .failed reason :: later →
      (∀ t ∈ turns, t.delivers = true) → brings turns < needs f l.incoming n →
      ∃ k, k < n ∧ read.1.take k = plain.1.take k ∧
        read.1[k]? = some (.error (.transfer (.other reason)))) := by
  intro read plain
  have hcases := receiveTimes_cases f l n
  refine ⟨?_, exists_pieces f l n, ?_⟩
  · intro hl
    rcases hcases with ⟨taken, rest, left, -, hresults, hrest, hplain, -⟩ | ⟨k, e, -, -, -, hstops⟩
    · exact ⟨hresults, hrest.trans hplain.symm⟩
    · exact absurd hl hstops.not_delivers
  · intro turns reason later hreads hturns hneeds
    rcases hcases with
      ⟨taken, rest, left, hsplit, -, -, hplain, hpasses⟩ | ⟨k, e, hk, htake, hfault, hstops⟩
    · -- the turns in front of the failure cannot have brought so many bytes
      rw [hreads] at hpasses
      have hbrings : taken.length + awaitedLast plain.1 ≤ brings turns := hpasses.le_brings rfl
      have hneeds' : needs f l.incoming n = taken.length + awaitedLast plain.1 := by
        show l.incoming.length - plain.2.link.incoming.length + awaitedLast plain.1 = _
        rw [hplain, hsplit, List.length_append, Nat.add_sub_cancel]
      omega
    · rw [hreads] at hstops
      have he : e = .transfer (.other reason) := hstops.stops_of_delivers hturns rfl
      exact ⟨k, hk, htake, he ▸ hfault⟩

/-- A frame, one whose contents end inside the packet id, and one that is cut, over a link that
brings them piecemeal; and the same where the link fails inside the last of them. -/
theorem receiveTimes_eq_plain_piecemeal :
    let f : Framing := {}
    let bytes : List UInt8 := [0x82, 0x00, 5, 7, 2, 0x80, 0x80, 3, 1]
    let l : Link := {
      mode := .cooperative, incoming := bytes
      reads := [.interrupted, .move 3, .waiting, .move 1, .move 1, .interrupted] }
    let failing : Link := {
      incoming := bytes
      reads := [.move 1, .move 1, .move 2, .move 1, .move 1, .move 1, .failed "reset", .move 5] }
    let results : List (Except Fault Message) := [
      .ok { id := 5, payload := { consumed := [5], unread := [7] } },
      .error (.malformed (.frameEndsInside "packet id" 2 0 2)), .error (.connectionClosed 1 3)]
    (l.Delivers ∧ brings (failing.reads.take 6) < needs f bytes 3) ∧
      receiveTimes { link := .ofBytes bytes, framing := f } 3
        = (results, { link := .ofBytes [], framing := f }) ∧
      (receiveTimes { link := l, framing := f } 3).1 = results ∧
      ∃ k, k < 3 ∧ (receiveTimes { link := failing, framing := f } 3).1.take k = results.take k ∧
        (receiveTimes { link := failing, framing := f } 3).1[k]?
          = some (.error (.transfer (.other "reset"))) := by
  intro f bytes l failing results
  have hplain : receiveTimes { link := .ofBytes bytes, framing := f } 3
      = (results, { link := .ofBytes [], framing := f }) := by cbv
  have hl : l.Delivers := by decide
  have hneeds : needs f bytes 3 = 10 := by
    rw [needs, hplain]
    rfl
  have hbrings : brings (failing.reads.take 6) < needs f bytes 3 := by
    rw [hneeds]
    decide
  obtain ⟨hsame, -, -⟩ := receiveTimes_eq_plain f l 3
  obtain ⟨-, -, hfails⟩ := receiveTimes_eq_plain f failing 3
  obtain ⟨k, hk, htake, hfault⟩ :=
    hfails (failing.reads.take 6) "reset" [.move 5] rfl (by decide) hbrings
  have hresults : (receiveTimes { link := l, framing := f } 3).1 = results := by
    rw [(hsame hl).1]
    exact congrArg Prod.fst hplain
  have hfirst : (receiveTimes { link := .ofBytes failing.incoming, framing := f } 3).1 = results :=
    congrArg Prod.fst hplain
  rw [hfirst] at htake
  exact ⟨⟨hl, hbrings⟩, hplain, hresults, k, hk, htake, hfault⟩

end Connection

end PacketStream
