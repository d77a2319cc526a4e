import PacketStream.Proofs.Connection.Sending

/-!
# The threshold is installed once

A user of a connection makes calls in any order: packets come and go, reads and writes fail, and
thresholds arrive by two ways, one of them signed. `Call` is one call with its arguments, and
`callAll` a run of them.

`Call.Does` says once what a call can do to a connection on which a framing is in force; `does_call`
finds the case for each kind of call. Of all of them only `installs` touches the framing, and it
needs one without a threshold (`framing_call`). So the threshold after a run is that of the first
call that carried one (`framing_callAll`), and every later frame is written and read under it.
-/

namespace PacketStream

/-- A call on a connection, with its arguments. -/
inductive Call where
  | setThreshold (threshold : UInt32)
  | apply (p : LoginSetCompression)
  | receive
  | receivePacket (α : Type) [Packet α]
  | send (id : Int32) (payload : Payload)
  | sendPacket {α : Type} [Packet α] (p : α)

namespace Call

/-- What a call gives when it succeeds. -/
abbrev Reply : Call → Type
  | receive => Message
  | @receivePacket α _ => α
  | _ => Unit

/-- The threshold that a call asks for. A negative one asks for none. -/
def carried? : Call → Option UInt32
  | setThreshold threshold => some threshold
  | apply p => if 0 ≤ p.threshold then some p.threshold.toUInt32 else none
  | _ => none

end Call

namespace Connection

/-- Makes a call. -/
def call (c : Connection) : (k : Call) → Traced (Except Fault k.Reply × Connection)
  | .setThreshold threshold => c.setThreshold threshold
  | .apply p => c.apply p
  | .receive => c.receive
  | @Call.receivePacket α _ => c.receivePacket α
  | .send id payload => c.send id payload
  | @Call.sendPacket _ _ p => c.sendPacket p

/-- The connection after calls, whatever each of them came to. -/
def callAll (c : Connection) : (calls : List Call) → Connection
  | [] => c
  | k :: calls => (c.call k).value.2.callAll calls

end Connection

/-! ## One call -/

/-- `Does f c k reply after` lists what the call `k` can do to the connection `c`, where `f` is the
framing in force when it begins: what it replies, and the connection after it. -/
inductive Call.Does (f : Framing) (c : Connection) :
    (k : Call) → Except Fault k.Reply → Connection → Prop
  /-- A threshold is installed where there is none. -/
  | installs {k : Call} {threshold : UInt32} {a : k.Reply} (carries : k.carried? = some threshold)
      (spare : f.threshold = none) :
      Does f c k (.ok a) { c with framing := { f with threshold := some threshold } }
  /-- A second one is refused. -/
  | refuses {k : Call} {threshold current : UInt32} (carries : k.carried? = some threshold)
      (installed : f.threshold = some current) :
      Does f c k (.error (.protocol (.thresholdInstalled current))) c
  /-- A negative threshold is nothing to install. -/
  | staysOff {p : LoginSetCompression} (negative : p.threshold < 0) : Does f c (.apply p) (.ok ()) c
  | receives {link : Link} {taken : List UInt8} {result : Except Fault Message}
      (reads : c.link.Reads taken link) (received : f.Received c.link link taken result) :
      Does f c .receive result { c with link }
  | receivesPacket {link : Link} {taken : List UInt8} {result : Except Fault Message} {α : Type}
      [Packet α] (reads : c.link.Reads taken link)
      (received : f.Received c.link link taken result) :
      Does f c (.receivePacket α) (result >>= Connection.expect α) { c with link }
  | sends {link : Link} {written : List UInt8} {result : Except Fault Unit} {id : Int32}
      {payload : Payload} (writes : c.link.Writes written link)
      (sent : f.Sent id payload c.link link written result) :
      Does f c (.send id payload) result { c with link }
  | sendsPacket {link : Link} {written : List UInt8} {result : Except Fault Unit} {α : Type}
      [Packet α] {p : α} (writes : c.link.Writes written link)
      (sent : f.Sent (Packet.id α) (.ofValue p) c.link link written result) :
      Does f c (.sendPacket p) result { c with link }

namespace Connection

theorem value_setThreshold (c : Connection) (threshold : UInt32) :
    (c.setThreshold threshold).value =
      match c.framing.threshold with
      | some current => (.error (.protocol (.thresholdInstalled current)), c)
      | none => (.ok (), { c with framing := { c.framing with threshold := some threshold } }) := by
  rw [setThreshold]
  rcases c.framing.threshold with _ | current <;> rfl

theorem value_apply (c : Connection) (p : LoginSetCompression) :
    (c.apply p).value =
      if 0 ≤ p.threshold then (c.setThreshold p.threshold.toUInt32).value else (.ok (), c) := by
  rw [apply, LoginSetCompression.installed?]
  by_cases hp : 0 ≤ p.threshold
  · rw [if_pos hp, if_pos hp]
  · rw [if_neg hp, if_neg hp]
    rfl

/-- **What a call does**, case by case. -/
theorem does_call (c : Connection) (k : Call) :
    k.Does c.framing c (c.call k).value.1 (c.call k).value.2 := by
  cases k with
  | setThreshold threshold =>
    show (Call.setThreshold threshold).Does _ _ (c.setThreshold threshold).value.1
      (c.setThreshold threshold).value.2
    rw [value_setThreshold]
    rcases hthreshold : c.framing.threshold with _ | current
    · exact .installs rfl hthreshold
    · exact .refuses rfl hthreshold
  | apply p =>
    show (Call.apply p).Does _ _ (c.apply p).value.1 (c.apply p).value.2
    rw [value_apply]
    by_cases hp : 0 ≤ p.threshold
    · have hcarries : (Call.apply p).carried? = some p.threshold.toUInt32 := if_pos hp
      rw [if_pos hp, value_setThreshold]
      rcases hthreshold : c.framing.threshold with _ | current
      · exact .installs hcarries hthreshold
      · exact .refuses hcarries hthreshold
    · rw [if_neg hp]
      exact .staysOff (Int32.not_le.1 hp)
  | receive =>
    obtain ⟨taken, hreads, hreceived, -⟩ := receive_received (c := c) rfl
    exact .receives hreads hreceived
  | receivePacket α =>
    obtain ⟨taken, hreads, hreceived, -⟩ := receive_received (c := c) rfl
    exact .receivesPacket hreads hreceived
  | send id payload =>
    obtain ⟨written, hwrites, hsent, -⟩ := send_sent (Prod.eta (c.send id payload).value).symm
    exact .sends hwrites hsent
  | @sendPacket α _ p =>
    obtain ⟨written, hwrites, hsent, -⟩ :=
      send_sent (Prod.eta (c.send (Packet.id α) (.ofValue p)).value).symm
    exact .sendsPacket hwrites hsent

/-- A call installs the threshold that it carries, where none is installed. Nothing else changes the
framing, be it of the connection or of the packets that come and go. -/
theorem framing_call (c : Connection) (k : Call) :
    (c.call k).value.2.framing
      = { c.framing with threshold := c.framing.threshold <|> k.carried? } := by
  have hsame (hnone : k.carried? = none) :
      c.framing = { c.framing with threshold := c.framing.threshold <|> k.carried? } := by
    simp [hnone]
  have hdoes := c.does_call k
  generalize (c.call k).value.2 = after at hdoes
  generalize (c.call k).value.1 = reply at hdoes
  cases hdoes with
  | installs hcarries hspare =>
    rw [hcarries, hspare]
    rfl
  | @refuses _ _ current hcarries hinstalled =>
    show c.framing = { c.framing with threshold := c.framing.threshold <|> k.carried? }
    rw [hinstalled]
    show c.framing = { c.framing with threshold := some current }
    rw [← hinstalled]
  | staysOff hnegative => exact hsame (if_neg (Int32.not_le.2 hnegative))
  | receives => exact hsame rfl
  | receivesPacket => exact hsame rfl
  | sends => exact hsame rfl
  | sendsPacket => exact hsame rfl

/-! ## A run of calls -/

/-- The threshold after calls is that of the first call that carried one. -/
theorem framing_callAll (c : Connection) (calls : List Call) :
    (c.callAll calls).framing
      = { c.framing with
          threshold := c.framing.threshold <|> (calls.filterMap Call.carried?).head? } := by
  induction calls generalizing c with
  | nil => simp [callAll]
  | cons k calls ih =>
    rw [callAll, ih, framing_call]
    rcases hk : k.carried? with _ | threshold
    · rw [List.filterMap_cons_none hk]
      simp
    · rw [List.filterMap_cons_some hk]
      rcases c.framing.threshold with _ | current <;> rfl

/-- **The threshold is installed once.** Let calls be made over a new connection, in any order and
with any arguments, and whatever they come to. The threshold is then that of the first call that
carried one, and there is none if none did. The next call finds it in force: it reads or writes its
frame under it, and if it carries a threshold, this is installed where there is none, and refused
otherwise. -/
theorem does_call_callAll (l : Link) (config : Config) (calls : List Call) (k : Call) :
    let c := (new l config).callAll calls
    let f : Framing := { config, threshold := (calls.filterMap Call.carried?).head? }
    c.framing = f ∧ k.Does f c (c.call k).value.1 (c.call k).value.2 := by
  intro c f
  have hframing : c.framing = f := by
    rw [framing_callAll]
    rfl
  refine ⟨hframing, ?_⟩
  rw [← hframing]
  exact c.does_call k

/-- A read that fails, a threshold that is negative, a packet that is not valid, the threshold 4, a
second one and a write that breaks off. The read behind them finds the threshold 4 in force: it
takes the zero in front of the body for a data length. -/
theorem does_call_callAll_mixed :
    let config : Config := {}
    let l : Link := {
      mode := .cooperative, incoming := [2, 0, 5]
      reads := [.failed "reset", .move 1, .interrupted], writes := [.move 1, .failed "reset"] }
    let calls : List Call := [
      .receive, .apply { threshold := -1 }, .send (-1) (.ofBytes []), .setThreshold 4,
      .apply { threshold := 7 }, .send 1 (.ofBytes [2])]
    let c := (new l config).callAll calls
    let f : Framing := { config, threshold := some 4 }
    c.framing = f ∧ c.link.outgoing = [3] ∧
      ∃ after, Call.receive.Does f c
        (.ok { id := 5, payload := { consumed := [5], unread := [] } }) after := by
  intro config l calls c f
  obtain ⟨hframing, hdoes⟩ := does_call_callAll l config calls .receive
  have hreply : (c.call .receive).value.1
      = .ok { id := 5, payload := { consumed := [5], unread := [] } } := by cbv
  have houtgoing : c.link.outgoing = [3] := by cbv
  refine ⟨hframing, houtgoing, (c.call .receive).value.2, ?_⟩
  rw [← hreply]
  exact hdoes

end Connection

end PacketStream
