import Mathlib
import PacketStream.Proofs.Connection.Sending
import PacketStream.Proofs.Packet.RoundTrip

/-!
# Sessions

A session is a list of parcels that one peer sends and the other receives. A parcel may switch
compression on: its sender applies it right after sending it, and its receiver right after
receiving it, so that the next frame is written and read in the same layout.

`Connection.Yields` says what bytes hold for a receiver, whatever comes behind them. The bytes of one
parcel and of those after it are joined by `Yields.cons`, and `yields_of_sendAll` does so along the
run of the sender. What carries it is that both sides stand in the same framing in front of every
parcel; the one that changes it changes it for both (`follow_eq`).
-/

namespace PacketStream

/-- Something that is sent in a session. -/
inductive Parcel where
  | packet (id : Int32) (payload : Payload)
  /-- The packet that says from which size on bodies are compressed. -/
  | switch (id : Int32) (p : LoginSetCompression)

namespace Parcel

def id : Parcel → Int32
  | packet id _ | switch id _ => id

def payload : Parcel → Payload
  | packet _ payload => payload
  | switch _ p => .ofValue p

def switch? : Parcel → Option LoginSetCompression
  | packet .. => none
  | switch _ p => some p

/-- Whether the parcel switches compression on. -/
def switchesOn (p : Parcel) : Bool := p.switch?.any (0 ≤ ·.threshold)

/-- The message is the parcel as it was sent. -/
def ArrivesAs (textLength : Nat) (p : Parcel) (m : Message) : Prop :=
  m.id = p.id ∧ p.payload.put.run textLength = .ok m.payload.unread

end Parcel

namespace Framing

/-- The framing behind a parcel. -/
def behind (f : Framing) (p : Parcel) : Framing :=
  { f with threshold := f.threshold <|> p.switch?.bind LoginSetCompression.installed? }

/-- Only a parcel that switches compression on brings a threshold. -/
theorem length_threshold_behind (f : Framing) (p : Parcel) :
    (f.behind p).threshold.toList.length
      ≤ f.threshold.toList.length + if p.switchesOn then 1 else 0 := by
  rw [behind]
  cases p with
  | packet => simp [Parcel.switch?]
  | switch _ q =>
    simp only [Parcel.switch?, Parcel.switchesOn, Option.bind_some, Option.any_some,
      LoginSetCompression.installed?]
    rcases f.threshold with _ | threshold
    · split <;> simp_all
    · simp

/-- A reader with the same limits takes back every body of the session. -/
def AdmitsAll (f : Framing) : List Parcel → Prop
  | [] => True
  | p :: rest =>
    (∀ body, f.body p.id p.payload = .ok body → f.Admits body) ∧ (f.behind p).AdmitsAll rest

end Framing

namespace Connection

/-! ## Both sides -/

/-- Does what a parcel says about compression, if it says anything. -/
def follow (c : Connection) : Option LoginSetCompression → Except Fault Unit × Connection
  | none => (.ok (), c)
  | some p => (c.apply p).value

/-- Sends parcels up to the first that cannot be written, and applies each one that has been sent.
The value lists what came of applying them. -/
def sendAll (c : Connection) : List Parcel → Except Fault (List (Except Fault Unit)) × Connection
  | [] => (.ok [], c)
  | p :: rest =>
    match (c.send p.id p.payload).value with
    | (.error e, after) => (.error e, after)
    | (.ok (), after) =>
      let (applied, next) := after.follow p.switch?
      let (later, last) := next.sendAll rest
      (later.map (applied :: ·), last)

/-- What a message says about compression, if it is one that does. -/
def switchIn (m : Message) (isSwitch : Bool) : Except Fault (Option LoginSetCompression) :=
  if isSwitch then (m.payload.get Wire.get).1.map some else .ok none

/-- Receives as many messages as there are flags, up to the first fault. Each message that is
flagged is decoded as one about compression and applied. -/
def receiveEach (c : Connection) : List Bool → Except Fault (List Message) × Connection
  | [] => (.ok [], c)
  | isSwitch :: flags =>
    match c.receive.value with
    | (.error e, after) => (.error e, after)
    | (.ok m, after) =>
      match switchIn m isSwitch with
      | .error e => (.error e, after)
      | .ok switch? =>
        match after.follow switch? with
        | (.error e, next) => (.error e, next)
        | (.ok (), next) =>
          let (later, last) := next.receiveEach flags
          (later.map (m :: ·), last)

/-! ## A parcel -/

variable {c last : Connection} {p : Parcel} {parcels : List Parcel} {bytes : List UInt8}
  {outcomes : List (Except Fault Unit)}

/-- What a parcel says about compression is done, unless it would be done a second time. -/
theorem follow_eq (h : p.switchesOn = true → c.framing.threshold = none) :
    c.follow p.switch? = (.ok (), { c with framing := c.framing.behind p }) := by
  cases p with
  | packet id payload =>
    rw [Framing.behind]
    simp [Parcel.switch?, follow]
  | switch id q =>
    rw [Framing.behind]
    simp only [Parcel.switch?, follow, apply, Option.bind_some]
    by_cases hon : 0 ≤ q.threshold
    · have hnone : c.framing.threshold = none := h (by simpa [Parcel.switchesOn, Parcel.switch?])
      simp only [LoginSetCompression.installed?, if_pos hon, setThreshold, hnone]
      rfl
    · simp only [LoginSetCompression.installed?, if_neg hon]
      simp

/-- A message about compression is decoded to the packet that was sent. -/
theorem switchIn_messageOf {f : Framing} {limit : Nat}
    (h : p.payload.put.run limit = .ok bytes) (id : Int32) :
    switchIn (f.messageOf id bytes) p.switch?.isSome = .ok p.switch? := by
  cases p with
  | packet => rfl
  | switch _ q =>
    cases h
    have hput : (Wire.put q).run f.config.textLength
        = .ok (Varint.encode q.threshold.toUInt32.toNat) := rfl
    have hget := q.readsBack.get_whole hput (Varint.encode id.toUInt32.toNat)
    have hwire : ((f.messageOf id (Varint.encode q.threshold.toUInt32.toNat)).payload.get
        (Wire.get : Get LoginSetCompression)).1 = .ok q := congrArg Prod.fst hget
    exact congrArg (Except.map some) hwire

/-! ## The run -/

/-- Every connection in framing `f` to which `bytes` come next receives the messages from them, is
in framing `f'` then, and leaves what comes after. -/
def Yields (f : Framing) (bytes : List UInt8) (flags : List Bool) (messages : List Message)
    (f' : Framing) : Prop :=
  ∀ (c : Connection) (tail : List UInt8), c.framing = f → c.link.Delivers →
    c.link.incoming = bytes ++ tail →
    ∃ last, c.receiveEach flags = (.ok messages, last) ∧ last.framing = f' ∧
      last.link.Delivers ∧ last.link.incoming = tail

theorem Yields.nil (f : Framing) : Yields f [] [] [] f :=
  fun c _ hframing hc hincoming => ⟨c, rfl, hframing, hc, hincoming⟩

theorem Yields.cons {f f' : Framing} {frame : List UInt8} {m : Message} {messages : List Message}
    {flags : List Bool} (hcarries : f.Carries frame m)
    (hswitch : switchIn m p.switch?.isSome = .ok p.switch?)
    (hspare : p.switchesOn = true → f.threshold = none)
    (h : Yields (f.behind p) bytes flags messages f') :
    Yields f (frame ++ bytes) (p.switch?.isSome :: flags) (m :: messages) f' := by
  intro c tail hframing hc hincoming
  subst hframing
  rw [List.append_assoc] at hincoming
  obtain ⟨after, hreceive, hframing, hafter, htail⟩ := receive_of_carries hc hcarries hincoming
  have hfollow := follow_eq (c := after) (p := p) (hframing ▸ hspare)
  rw [hframing] at hfollow
  obtain ⟨last, hlater, hlast⟩ := h { after with framing := c.framing.behind p } tail rfl hafter htail
  refine ⟨last, ?_, hlast⟩
  simp only [receiveEach, hreceive, hswitch, hfollow, hlater]
  rfl

/-- A session that has been sent is there as bytes that yield it, behind what was written before. -/
theorem yields_of_sendAll (hconfig : c.framing.config.validate = .ok ())
    (hspare : c.framing.threshold.toList.length + parcels.countP Parcel.switchesOn ≤ 1)
    (hsent : c.sendAll parcels = (.ok outcomes, last)) (hadmits : c.framing.AdmitsAll parcels) :
    (∀ outcome ∈ outcomes, outcome = .ok ()) ∧
      ∃ bytes messages, last.link.outgoing = c.link.outgoing ++ bytes ∧
        List.Forall₂ (Parcel.ArrivesAs c.framing.config.textLength) parcels messages ∧
        Yields c.framing bytes (parcels.map (·.switch?.isSome)) messages last.framing := by
  induction parcels generalizing c outcomes with
  | nil =>
    cases hsent
    exact ⟨by simp, [], [], by simp, .nil, .nil _⟩
  | cons p parcels ih =>
    rw [sendAll] at hsent
    rcases hsend : (c.send p.id p.payload).value with ⟨e | ⟨⟩, after⟩
    · rw [hsend] at hsent
      cases hsent
    obtain ⟨frame, bytes, hframing, houtgoing, hput, hcarries⟩ :=
      carries_of_send hconfig hsend hadmits.1
    have hbehind := c.framing.length_threshold_behind p
    rw [List.countP_cons] at hspare
    have hnone : p.switchesOn = true → c.framing.threshold = none := by
      intro hon
      rw [if_pos hon] at hspare
      rcases hthreshold : c.framing.threshold with _ | threshold
      · rfl
      · rw [hthreshold, Option.toList_some, List.length_singleton] at hspare
        omega
    have hfollow := follow_eq (c := after) (p := p) (hframing ▸ hnone)
    rw [hframing] at hfollow
    simp only [hsend, hfollow] at hsent
    rcases hlater : sendAll { after with framing := c.framing.behind p } parcels
      with ⟨e | later, last'⟩
    · rw [hlater] at hsent
      cases hsent
    rw [hlater] at hsent
    cases hsent
    obtain ⟨hoks, rest, messages, hrest, harrive, hyields⟩ :=
      ih (c := { after with framing := c.framing.behind p }) hconfig (by dsimp only; omega) hlater
        hadmits.2
    refine ⟨?_, frame ++ rest, c.framing.messageOf p.id bytes :: messages, ?_, ?_, ?_⟩
    · intro outcome houtcome
      rcases List.mem_cons.1 houtcome with rfl | houtcome
      · rfl
      · exact hoks outcome houtcome
    · rw [hrest, houtgoing, List.append_assoc]
    · exact .cons ⟨rfl, hput⟩ harrive
    · exact hyields.cons hcarries (switchIn_messageOf hput p.id) hnone

/-- **A session is received as it was sent.** Let parcels be sent over a new connection, at most one
of which switches compression on, and let the bytes come to a second connection with the same
limits. If readers admit all bodies, every parcel is applied on both sides, the receiver gets just
the packets that were sent, in their order, and both sides end in the same framing. Nothing is left
of the bytes, and one more read finds the end of the stream. -/
theorem receiveEach_of_sendAll {config : Config} {l l' : Link} (hconfig : config.validate = .ok ())
    (hsent : (new l config).sendAll parcels = (.ok outcomes, last))
    (hone : parcels.countP Parcel.switchesOn ≤ 1)
    (hadmits : (new l config).framing.AdmitsAll parcels) (hl' : l'.Delivers)
    (hincoming : last.link.outgoing = l.outgoing ++ l'.incoming) :
    (∀ outcome ∈ outcomes, outcome = .ok ()) ∧
      ∃ messages final,
        (new l' config).receiveEach (parcels.map (·.switch?.isSome)) = (.ok messages, final) ∧
        List.Forall₂ (Parcel.ArrivesAs config.textLength) parcels messages ∧
        final.framing = last.framing ∧ final.link.incoming = [] ∧
        ∃ after, final.receive.value = (.error (.connectionClosed 0 1), after) := by
  obtain ⟨hoks, bytes, messages, hbytes, harrive, hyields⟩ :=
    yields_of_sendAll (c := new l config) hconfig (by simpa [new] using hone) hsent hadmits
  have hall : l'.incoming = bytes ++ [] := by
    rw [List.append_nil]
    exact List.append_cancel_left (hincoming.symm.trans hbytes)
  obtain ⟨final, hreceive, hframing, hfinal, hend⟩ := hyields (new l' config) [] rfl hl' hall
  obtain ⟨after, hafter, -⟩ := Framing.receive_atEnd (f := final.framing) hfinal hend
  refine ⟨hoks, messages, final, hreceive, harrive, hframing, hend, { final with link := after }, ?_⟩
  rw [receive, value_use, hafter]

/-- A packet, a switch that leaves compression off, one that switches it on, and a packet behind it
whose body is compressed, read from a link that brings its first bytes piecemeal. -/
theorem receiveEach_of_sendAll_switching :
    let config : Config := { uncompressedLength := 4, level := 0 }
    let parcels : List Parcel := [
      .packet 5 (.ofBytes [1, 2]), .switch 3 { threshold := -1 }, .switch 3 { threshold := 4 },
      .packet 6 (.ofBytes [7, 8, 9])]
    let l' : Link := {
      incoming := [3, 5, 1, 2, 6, 3, 255, 255, 255, 255, 15, 2, 3, 4, 16, 4, 120, 1, 1, 4, 0, 251,
        255, 6, 7, 8, 9, 0, 74, 0, 31]
      reads := [.interrupted, .move 1, .waiting, .move 2] }
    (new {} config).sendAll parcels = (.ok (List.replicate 4 (.ok ())),
        { link := { outgoing := l'.incoming }, framing := { config, threshold := some 4 } }) ∧
      ∃ messages final,
        (new l' config).receiveEach [false, true, true, false] = (.ok messages, final) ∧
        List.Forall₂ (Parcel.ArrivesAs config.textLength) parcels messages ∧
        final.framing.threshold = some 4 ∧ final.link.incoming = [] := by
  intro config parcels l'
  have hsent : (new {} config).sendAll parcels = (.ok (List.replicate 4 (.ok ())),
      { link := { outgoing := l'.incoming }, framing := { config, threshold := some 4 } }) := by cbv
  have hadmits : (new {} config).framing.AdmitsAll parcels := by
    refine ⟨?_, ?_, ?_, ?_, trivial⟩
    · intro _ _ hcompressed
      cases hcompressed
    · intro _ _ hcompressed
      cases hcompressed
    · intro _ _ hcompressed
      cases hcompressed
    · intro body hbody _
      cases hbody
      cbv
  obtain ⟨-, messages, final, hreceive, harrive, hframing, hend, -⟩ :=
    receiveEach_of_sendAll rfl hsent (by decide) hadmits (show l'.Delivers by decide) rfl
  exact ⟨hsent, messages, final, hreceive, harrive, congrArg Framing.threshold hframing, hend⟩

end Connection

end PacketStream
