import PacketStream.Proofs.Connection.Threshold

/-!
# How far both modes do the same

A blocking and a cooperative connection over the same stream have each a loop of their own that
writes. The loops differ in what they say where the stream takes no more bytes, and in that the
cooperative one fails with a call that is interrupted.

`Interrupts` says of the turns of a stream that this happens while bytes are left to be written.
Where it does not, the loops do the same (`deliver_of_not_interrupts`). Where it does, the
cooperative one leaves bytes unwritten and fails (`deliver_of_interrupts`), and the blocking one
never fails in this way (`fault_deliver_ne_interrupted`). Either way a write is settled for both
modes at once (`Link.send_of_not_interrupts`, `Link.send_of_interrupts`).

Reading goes alike in both modes, whatever the stream does. `Exchange.Agrees` carries this from one
read to a whole packet, since every way to build an exchange keeps it. `call_alike_iff` puts both
together for each call on a connection.
-/

namespace PacketStream

variable {α β : Type}

/-! ## Replies -/

/-- `Alike blocking cooperative` holds of the replies to one call in the two modes. Each mode has its
own words for a stream that takes no more bytes; otherwise the replies are the same. -/
inductive Alike : (blocking cooperative : Except Fault α) → Prop
  | same (reply : Except Fault α) : Alike reply reply
  | full : Alike (.error (.transfer .bufferNotWritten)) (.error (.transfer .writeZero))

theorem Alike.bind {blocking cooperative : Except Fault α} (h : Alike blocking cooperative)
    (f : α → Except Fault β) : Alike (blocking >>= f) (cooperative >>= f) := by
  cases h with
  | same => exact .same _
  | full => exact .full

/-- A blocking call that fails in the words of its own, or for a reason that the stream gives, is not
like one that is interrupted. -/
theorem not_alike_interrupted {e : Fault} (h : e ≠ .transfer .interrupted) :
    ¬ Alike (.error e : Except Fault α) (.error (.transfer .interrupted)) := by
  intro halike
  cases halike
  exact h rfl

/-! ## Interruptions -/

/-- While `left` bytes are still to be written, a call is interrupted. No call before it has failed. -/
inductive Interrupts : (left : Nat) → (turns : List Turn) → Prop
  | now {left : Nat} {turns : List Turn} (some : 0 < left) : Interrupts left (.interrupted :: turns)
  | wait {left : Nat} {turns : List Turn} (later : Interrupts left turns) :
      Interrupts left (.waiting :: turns)
  | move {left most : Nat} {turns : List Turn} (moves : 0 < most)
      (later : Interrupts (left - most) turns) : Interrupts left (.move most :: turns)

theorem Interrupts.pos {left : Nat} {turns : List Turn} (h : Interrupts left turns) : 0 < left := by
  induction h with
  | now some => exact some
  | wait _ ih => exact ih
  | move _ _ ih => exact Nat.lt_of_lt_of_le ih (Nat.sub_le _ _)

section Deliver

variable (r s : WriteRule) {data : List UInt8} {turns : List Turn}

theorem not_isEmpty_of_pos (h : 0 < data.length) : ¬ data.isEmpty = true :=
  mt List.isEmpty_iff.1 (List.length_pos_iff.1 h)

theorem deliver_of_moves {most : Nat} (hdata : ¬ data.isEmpty = true) (hmost : 0 < most) :
    deliver s data (.move most :: turns) =
      { deliver s (data.drop most) turns with
        bytes := data.take most ++ (deliver s (data.drop most) turns).bytes } := by
  rw [deliver, if_neg hdata]
  exact Nat.ne_of_gt hmost

/-- **Where no call is interrupted in time, all writers do the same**, and where they fail they say
the same, but for a stream that takes no more bytes. -/
theorem deliver_of_not_interrupts (h : ¬ Interrupts data.length turns) :
    deliver s data turns = deliver r data turns ∨
      (deliver r data turns).fault = some (.transfer r.onZero) ∧
        deliver s data turns
          = { deliver r data turns with fault := some (.transfer s.onZero) } := by
  -- one writer is followed call by call; the other makes the same calls until both are done
  fun_induction deliver r data turns with
  | case1 data => exact .inl rfl
  | case2 data turn turns hdata =>
    refine .inl ?_
    rw [deliver.eq_def]
    exact if_pos hdata
  | case3 data turns hdata ih =>
    rw [deliver, if_neg hdata]
    exact ih fun hlater => h (.wait hlater)
  | case4 data turns hdata | case5 data turns hdata =>
    exact absurd (.now (List.length_pos_iff.2 (mt List.isEmpty_iff.2 hdata))) h
  | case6 data turns hdata reason =>
    refine .inl ?_
    rw [deliver, if_neg hdata]
  | case7 data turns hdata =>
    refine .inr ⟨rfl, ?_⟩
    rw [deliver, if_neg hdata]
  | case8 data turns hdata most hmost later ih =>
    have hpos : 0 < most := Nat.pos_of_ne_zero hmost
    rw [deliver_of_moves s hdata hpos]
    have hnext : ¬ Interrupts (data.drop most).length turns := by
      rw [List.length_drop]
      exact fun hlater => h (.move hpos hlater)
    rcases ih hnext with hsame | ⟨hfault, hother⟩
    · exact .inl (by rw [hsame])
    · exact .inr ⟨hfault, by rw [hother]⟩

/-- **A writer that makes no call again fails where one is interrupted**, with bytes left to write. -/
theorem deliver_of_interrupts (hs : s.repeats = false) (h : Interrupts data.length turns) :
    (deliver s data turns).fault = some (.transfer .interrupted) ∧
      (deliver s data turns).bytes.length < data.length := by
  generalize hleft : data.length = left at h
  induction h generalizing data with
  | now some =>
    rw [deliver, if_neg (not_isEmpty_of_pos (hleft ▸ some)), hs]
    exact ⟨rfl, some⟩
  | wait later ih =>
    rw [deliver, if_neg (not_isEmpty_of_pos (hleft ▸ later.pos))]
    exact ih hleft
  | @move left most turns moves later ih =>
    have hlater := later.pos
    have hdrop : (data.drop most).length = left - most := by rw [List.length_drop, hleft]
    obtain ⟨hfault, hshort⟩ := ih hdrop
    rw [deliver_of_moves s (not_isEmpty_of_pos (by omega)) moves]
    refine ⟨hfault, ?_⟩
    simp only [List.length_append, List.length_take]
    omega

/-- A writer that makes interrupted calls again does not fail with one. -/
theorem fault_deliver_ne_interrupted (hr : r.repeats = true) (hzero : r.onZero ≠ .interrupted) :
    (deliver r data turns).fault ≠ some (.transfer .interrupted) := by
  intro h
  fun_induction deliver r data turns with
  | case1 | case2 | case6 => cases h
  | case3 data turns hdata ih => exact ih h
  | case4 data turns hdata hrepeats ih => exact ih h
  | case5 data turns hdata hrepeats => exact hrepeats hr
  | case7 data turns hdata =>
    injection h with hfault
    injection hfault with hreason
    exact hzero hreason
  | case8 data turns hdata most hmost later ih => exact ih h

end Deliver

/-! ## Links -/

namespace Link

/-- The same link, used in a mode. -/
def inMode (l : Link) (mode : Mode) : Link := { l with mode }

/-- The mode of a link decides on its loop only. -/
theorem send_inMode {l : Link} {mode : Mode} {data bytes pending : List UInt8} {turns : List Turn}
    {fault : Option Fault}
    (h : deliver (writeRule mode) data l.writes = { bytes, pending, turns, fault }) :
    let after : Link := { l with outgoing := l.outgoing ++ bytes, writes := turns }
    (l.inMode mode).send data =
      match fault with
      | some e => (.error e, after.inMode mode)
      | none => (after.flush.1, after.flush.2.inMode mode) := by
  have hd : deliver (writeRule (l.inMode mode).mode) data (l.inMode mode).writes
      = { bytes, pending, turns, fault } := h
  rw [send, hd]
  cases fault with
  | some e => rfl
  | none => rfl

theorem send_of_not_interrupts {l : Link} {data : List UInt8}
    (h : ¬ Interrupts data.length l.writes) :
    ∃ blocking cooperative, ∃ after : Link, Alike blocking cooperative ∧
      (l.inMode .blocking).send data = (blocking, after.inMode .blocking) ∧
      (l.inMode .cooperative).send data = (cooperative, after.inMode .cooperative) := by
  have hrules := deliver_of_not_interrupts (writeRule .blocking) (writeRule .cooperative) h
  rcases hd : deliver (writeRule .blocking) data l.writes with ⟨bytes, pending, turns, fault⟩
  rw [hd] at hrules
  rcases hrules with hsame | ⟨rfl, hother⟩
  · cases fault with
    | some e => exact ⟨_, _, _, .same _, send_inMode hd, send_inMode hsame⟩
    | none => exact ⟨_, _, _, .same _, send_inMode hd, send_inMode hsame⟩
  · exact ⟨_, _, _, .full, send_inMode hd, send_inMode hother⟩

/-- **An interrupted write tells the modes apart**: the cooperative one has failed, and the blocking
one has written more bytes or says something else. -/
theorem send_of_interrupts {l : Link} {data : List UInt8} (h : Interrupts data.length l.writes) :
    let blocking := (l.inMode .blocking).send data
    let cooperative := (l.inMode .cooperative).send data
    cooperative.1 = .error (.transfer .interrupted) ∧
      ¬ (Alike blocking.1 cooperative.1 ∧ cooperative.2.outgoing = blocking.2.outgoing) := by
  intro blocking cooperative
  obtain ⟨hfault, hshort⟩ := deliver_of_interrupts (writeRule .cooperative) rfl h
  rcases hc : deliver (writeRule .cooperative) data l.writes with ⟨bytes, pending, turns, fault⟩
  rw [hc] at hfault hshort
  cases hfault
  have hcooperative := send_inMode hc
  refine ⟨congrArg Prod.fst hcooperative, ?_⟩
  rintro ⟨halike, houtgoing⟩
  have hother : (deliver (writeRule .blocking) data l.writes).fault
      ≠ some (.transfer .interrupted) := fault_deliver_ne_interrupted _ rfl nofun
  rcases hb : deliver (writeRule .blocking) data l.writes with ⟨all, pending', turns', fault⟩
  have hblocking := send_inMode hb
  rw [hb] at hother
  cases fault with
  | some e =>
    rw [show blocking.1 = .error e from congrArg Prod.fst hblocking,
      show cooperative.1 = .error (.transfer .interrupted) from congrArg Prod.fst hcooperative]
      at halike
    exact not_alike_interrupted (fun he => hother (congrArg some he)) halike
  | none =>
    -- the blocking writer has written everything, the other has not
    have hall : (deliver (writeRule .blocking) data l.writes).bytes = data :=
      bytes_deliver (by rw [hb])
    rw [hb] at hall
    rw [show blocking.2.outgoing = l.outgoing ++ all from
        congrArg (fun sent => sent.2.outgoing) hblocking,
      show cooperative.2.outgoing = l.outgoing ++ bytes from
        congrArg (fun sent => sent.2.outgoing) hcooperative] at houtgoing
    have hlength := congrArg List.length (List.append_cancel_left houtgoing)
    rw [show all = data from hall] at hlength
    exact absurd hlength (Nat.ne_of_lt hshort)

end Link

/-! ## Exchanges -/

namespace Exchange

/-- The exchange comes to the same in both modes, and leaves the same link. -/
def Agrees (x : Exchange α) : Prop :=
  ∀ l : Link, ∃ blocking cooperative, ∃ after : Link, Alike blocking cooperative ∧
    x.outcome (l.inMode .blocking) = (blocking, after.inMode .blocking) ∧
    x.outcome (l.inMode .cooperative) = (cooperative, after.inMode .cooperative)

theorem agrees_ofChecked (x : Checked α) : (ofChecked x).Agrees := by
  intro l
  exact ⟨x.outcome, x.outcome, l, .same _, rfl, rfl⟩

theorem agrees_pure (a : α) : (pure a : Exchange α).Agrees := agrees_ofChecked (pure a)

theorem agrees_throw (e : Fault) : (throw e : Exchange α).Agrees := agrees_ofChecked (throw e)

theorem agrees_receive (n : Nat) : (receive n).Agrees := by
  intro l
  exact ⟨(l.receive n).1, (l.receive n).1, (l.receive n).2, .same _, rfl, rfl⟩

theorem Agrees.bind {x : Exchange α} {f : α → Exchange β} (hx : x.Agrees)
    (hf : ∀ a, (f a).Agrees) : (x >>= f).Agrees := by
  intro l
  obtain ⟨blocking, cooperative, after, halike, hblocking, hcooperative⟩ := hx l
  rw [outcome_bind, outcome_bind, hblocking, hcooperative]
  cases halike with
  | same =>
    cases blocking with
    | ok a => exact hf a after
    | error e => exact ⟨.error e, .error e, after, .same _, rfl, rfl⟩
  | full => exact ⟨_, _, after, .full, rfl, rfl⟩

end Exchange

/-! ## Frames -/

namespace Framing

theorem agrees_receiveVarint (bits : Nat) (hbits : 0 < bits) (got : List UInt8) :
    (receiveVarint bits hbits got).Agrees := by
  have hbyte : Exchange.receiveByte.Agrees :=
    (Exchange.agrees_receive 1).bind fun _ => Exchange.agrees_pure _
  exact receiveVarint_of_bind (fun _ => hbyte.bind) (fun _ => Exchange.agrees_throw _)
    Exchange.agrees_pure got

/-- **Reading a packet goes alike in both modes.** -/
theorem agrees_receive (f : Framing) : f.receive.Agrees := by
  have hlength : f.receiveLength.Agrees :=
    (agrees_receiveVarint varintBits varintBits_pos []).bind fun _ => Exchange.agrees_ofChecked _
  apply hlength.bind
  intro n
  exact (Exchange.agrees_receive n).bind fun _ => Exchange.agrees_ofChecked _

end Framing

/-! ## Connections -/

/-- The frame that a call writes under a framing, if it writes one. -/
def Call.frame? (f : Framing) : Call → Option (List UInt8)
  | .send id payload => (f.encode id payload).outcome.toOption
  | @Call.sendPacket α _ p => (f.encode (Packet.id α) (.ofValue p)).outcome.toOption
  | _ => none

namespace Connection

/-- The same connection, used in a mode. -/
def inMode (c : Connection) (mode : Mode) : Connection := { c with link := c.link.inMode mode }

/-- The call writes a frame, and is interrupted before the stream has taken all of it. -/
def Interrupted (c : Connection) (k : Call) : Prop :=
  ∃ frame, k.frame? c.framing = some frame ∧ Interrupts frame.length c.link.writes

/-- The call comes to the same in both modes, and leaves the same connection. -/
def CallAgrees (c : Connection) (call : Connection → Traced (Except Fault α × Connection)) : Prop :=
  Alike (call (c.inMode .blocking)).value.1 (call (c.inMode .cooperative)).value.1 ∧
    (call (c.inMode .cooperative)).value.2
      = (call (c.inMode .blocking)).value.2.inMode .cooperative

theorem agrees_use {c : Connection} (x : Framing → Exchange α)
    {blocking cooperative : Except Fault α} {after : Link} (halike : Alike blocking cooperative)
    (hblocking : (x c.framing).outcome (c.link.inMode .blocking)
      = (blocking, after.inMode .blocking))
    (hcooperative : (x c.framing).outcome (c.link.inMode .cooperative)
      = (cooperative, after.inMode .cooperative)) :
    c.CallAgrees fun c => c.use (x c.framing) := by
  have huse (mode : Mode) : ((c.inMode mode).use (x c.framing)).value =
      let used := (x c.framing).outcome (c.link.inMode mode)
      (used.1, { c with link := used.2 }) := rfl
  have hframing (mode : Mode) : (c.inMode mode).framing = c.framing := rfl
  simp only [CallAgrees, hframing, huse, hblocking, hcooperative]
  exact ⟨halike, rfl⟩

theorem agrees_receive (c : Connection) : c.CallAgrees receive := by
  obtain ⟨_, _, _, halike, hblocking, hcooperative⟩ := c.framing.agrees_receive c.link
  exact agrees_use Framing.receive halike hblocking hcooperative

theorem agrees_receivePacket (c : Connection) (α : Type) [Packet α] :
    c.CallAgrees (receivePacket α) := by
  obtain ⟨halike, hafter⟩ := c.agrees_receive
  have hreceive (mode : Mode) : ((c.inMode mode).receivePacket α).value =
      let received := (c.inMode mode).receive.value
      (received.1 >>= expect α, received.2) := rfl
  rw [CallAgrees, hreceive, hreceive]
  exact ⟨halike.bind (expect α), hafter⟩

theorem agrees_setThreshold (c : Connection) (threshold : UInt32) :
    c.CallAgrees fun c => c.setThreshold threshold := by
  have hframing (mode : Mode) : (c.inMode mode).framing = c.framing := rfl
  simp only [CallAgrees, value_setThreshold, hframing]
  rcases c.framing.threshold with _ | current
  · exact ⟨.same _, rfl⟩
  · exact ⟨.same _, rfl⟩

theorem agrees_apply (c : Connection) (p : LoginSetCompression) :
    c.CallAgrees fun c => c.apply p := by
  simp only [CallAgrees, value_apply]
  split
  · exact c.agrees_setThreshold p.threshold.toUInt32
  · exact ⟨.same _, rfl⟩

theorem agrees_send {c : Connection} (id : Int32) (payload : Payload)
    (h : ¬ c.Interrupted (.send id payload)) : c.CallAgrees fun c => c.send id payload := by
  rcases hencode : (c.framing.encode id payload).outcome with e | frame
  · have hsend (l : Link) : (c.framing.send id payload).outcome l = (.error e, l) := by
      rw [Framing.outcome_send, hencode]
    exact agrees_use (·.send id payload) (.same _) (hsend _) (hsend _)
  · have hsend (l : Link) : (c.framing.send id payload).outcome l = l.send frame := by
      rw [Framing.outcome_send, hencode]
    have hframe : ¬ Interrupts frame.length c.link.writes :=
      fun hlater => h ⟨frame, by rw [Call.frame?, hencode]; rfl, hlater⟩
    obtain ⟨_, _, _, halike, hblocking, hcooperative⟩ := Link.send_of_not_interrupts hframe
    exact agrees_use (·.send id payload) halike ((hsend _).trans hblocking)
      ((hsend _).trans hcooperative)

/-- A frame that is not taken whole before a call is interrupted tells the modes apart. -/
theorem send_of_interrupted {c : Connection} (id : Int32) (payload : Payload)
    (h : c.Interrupted (.send id payload)) :
    let blocking := ((c.inMode .blocking).send id payload).value
    let cooperative := ((c.inMode .cooperative).send id payload).value
    cooperative.1 = .error (.transfer .interrupted) ∧
      ¬ (Alike blocking.1 cooperative.1 ∧
        cooperative.2.link.outgoing = blocking.2.link.outgoing) := by
  obtain ⟨frame, hframe, hinterrupts⟩ := h
  have hsend (mode : Mode) : ((c.inMode mode).send id payload).value =
      let sent := (c.link.inMode mode).send frame
      (sent.1, { c with link := sent.2 }) := by
    show (let used := (c.framing.send id payload).outcome (c.link.inMode mode)
      (used.1, { c with link := used.2 })) = _
    rw [Framing.outcome_send]
    rcases hencode : (c.framing.encode id payload).outcome with e | frame' <;>
      rw [Call.frame?, hencode] at hframe <;> cases hframe
    rfl
  simp only [hsend]
  exact Link.send_of_interrupts hinterrupts

/-- **Both modes do the same, but for interrupted writes.** Let the same call be made by a blocking and
by a cooperative connection over the same stream, whatever the stream does. The replies are alike and
the same bytes have been written if and only if no call of the stream is interrupted before it has taken
all bytes of the frame. The connections then differ in their mode only: the same bytes have been read, the
stream has been called as often, and the framing is the same. Where one is interrupted, the cooperative
connection says so and leaves the frame unfinished, while the blocking one goes on with it. -/
theorem call_alike_iff (c : Connection) (k : Call) :
    let blocking := ((c.inMode .blocking).call k).value
    let cooperative := ((c.inMode .cooperative).call k).value
    (Alike blocking.1 cooperative.1 ∧ cooperative.2.link.outgoing = blocking.2.link.outgoing
      ↔ ¬ c.Interrupted k) ∧
    (¬ c.Interrupted k → cooperative.2 = blocking.2.inMode .cooperative) ∧
    (c.Interrupted k → cooperative.1 = .error (.transfer .interrupted)) := by
  intro blocking cooperative
  have hagrees : ¬ c.Interrupted k → Alike blocking.1 cooperative.1 ∧
      cooperative.2 = blocking.2.inMode .cooperative := by
    intro h
    cases k with
    | setThreshold threshold => exact c.agrees_setThreshold threshold
    | apply p => exact c.agrees_apply p
    | receive => exact c.agrees_receive
    | receivePacket α => exact c.agrees_receivePacket α
    | send id payload => exact agrees_send id payload h
    | @sendPacket α _ p => exact agrees_send (Packet.id α) (.ofValue p) h
  have hdiffers : c.Interrupted k → cooperative.1 = .error (.transfer .interrupted) ∧
      ¬ (Alike blocking.1 cooperative.1 ∧
        cooperative.2.link.outgoing = blocking.2.link.outgoing) := by
    intro h
    cases k with
    | setThreshold | apply | receive | receivePacket =>
      obtain ⟨frame, hframe, -⟩ := h
      cases hframe
    | send id payload => exact send_of_interrupted id payload h
    | @sendPacket α _ p => exact send_of_interrupted (Packet.id α) (.ofValue p) h
  refine ⟨⟨fun hsame h => (hdiffers h).2 hsame, fun h => ?_⟩, fun h => (hagrees h).2,
    fun h => (hdiffers h).1⟩
  obtain ⟨halike, hafter⟩ := hagrees h
  exact ⟨halike, by rw [hafter]; rfl⟩

/-- A frame of four bytes, of which the stream takes two in its first call. If it then interrupts a call,
the modes part. If it takes no more bytes first, they fail alike, each in its own words. -/
theorem call_alike_iff_partway :
    let parted : Connection := { link := { writes := [.move 2, .interrupted, .move 2] } }
    let full : Connection := { link := { writes := [.move 2, .move 0, .interrupted] } }
    let k : Call := .send 1 (.ofBytes [7, 7])
    let sent (c : Connection) (mode : Mode) := ((c.inMode mode).call k).value
    parted.Interrupted k ∧ (sent parted .blocking).1 = .ok () ∧
      (sent parted .cooperative).1 = .error (.transfer .interrupted) ∧
      ¬ full.Interrupted k ∧ (sent full .blocking).1 = .error (.transfer .bufferNotWritten) ∧
      (sent full .cooperative).2 = (sent full .blocking).2.inMode .cooperative := by
  intro parted full k sent
  have hframe (c : Connection) (h : c.framing = {}) : k.frame? c.framing = some [3, 1, 7, 7] := by
    rw [h]
    cbv
  have hparted : parted.Interrupted k :=
    ⟨_, hframe parted rfl, .move (by decide) (.now (by decide))⟩
  have hfull : ¬ full.Interrupted k := by
    rintro ⟨frame, hwritten, hinterrupts⟩
    rw [hframe full rfl] at hwritten
    cases hwritten
    cases hinterrupts with
    | move _ later =>
      cases later with
      | move moves => exact absurd moves (by decide)
  obtain ⟨-, -, hinterrupted⟩ := parted.call_alike_iff k
  obtain ⟨-, hsame, -⟩ := full.call_alike_iff k
  exact ⟨hparted, by cbv, hinterrupted hparted, hfull, by cbv, hsame hfull⟩

/-- A stream that interrupts the first call: the blocking connection writes its frame, the cooperative
one nothing. -/
theorem interrupted_write_differs :
    let c : Connection := { link := { writes := [.interrupted] } }
    let sent (mode : Mode) := ((c.inMode mode).send 1 (.ofBytes [7])).value
    (sent .blocking).1 = .ok () ∧ (sent .blocking).2.link.outgoing = [2, 1, 7] ∧
      (sent .cooperative).1 = .error (.transfer .interrupted) ∧
      (sent .cooperative).2.link.outgoing = [] := by
  refine ⟨by cbv, by cbv, by cbv, by cbv⟩

end Connection

end PacketStream
