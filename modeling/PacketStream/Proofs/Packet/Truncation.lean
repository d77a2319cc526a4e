import Mathlib
import PacketStream.Proofs.Buffer.Reading
import PacketStream.Proofs.Packet.Registry

/-!
# Packets that are cut short

A packet of which the end is missing is never taken for another one, and never for a broken one: its
reader asks for more bytes. `Put.Delimits` says this of a piece and its reader, whole and cut at any
place, and is closed under writing one piece after the other, so that a cut inside a field is looked
at for each kind of field only. That the fields are read at all is `Put.ReadsBack`; that a fault
would have to stay if the bytes that are missing came is `Get.Settled`.

`Direction.delimits_head` is the entry for each packet, and `decode_truncated` the result.
-/

namespace PacketStream

variable {α β : Type} {p q : Put} {g : Get α} {f : α → Get β} {a : α} {limit : Nat}
  {bytes : List UInt8}

/-- A read that failed for want of bytes. -/
def IsWanting (result : Except Fault α) : Prop :=
  ∃ offset requested available, result = .error (.insufficientData offset requested available)

theorem not_isWanting_ok : ¬ IsWanting (.ok a : Except Fault α) := by
  rintro ⟨_, _, _, h⟩
  cases h

theorem not_isWanting_malformed {cause : Malformation} :
    ¬ IsWanting (.error (.malformed cause) : Except Fault α) := by
  rintro ⟨_, _, _, h⟩
  cases h

theorem isWanting_get_bind {b : Buffer} (h : IsWanting (b.get g).1) (f : α → Get β) :
    IsWanting (b.get (g >>= f)).1 := by
  rw [Buffer.get_bind]
  rcases hget : b.get g with ⟨e | a, after⟩ <;> rw [hget] at h
  · obtain ⟨offset, requested, available, he⟩ := h
    cases he
    exact ⟨_, _, _, rfl⟩
  · exact absurd h not_isWanting_ok

theorem not_isWanting_get_bind {b : Buffer} (h : ¬ IsWanting (b.get g).1)
    (hf : ∀ a after, ¬ IsWanting (Buffer.get after (f a)).1) :
    ¬ IsWanting (b.get (g >>= f)).1 := by
  rw [Buffer.get_bind]
  rcases hget : b.get g with ⟨e | a, after⟩ <;> rw [hget] at h
  · rintro ⟨_, _, _, hwant⟩
    cases hwant
    exact h ⟨_, _, _, rfl⟩
  · exact hf _ _

namespace Put

/-! ## Pieces that show where they end -/

/-- The reader has all it needs where the whole piece is there, and wants bytes where the piece is
cut short, wherever that is. -/
structure Delimits (p : Put) (g : Get α) : Prop where
  whole : ∀ ⦃limit : Nat⦄ ⦃bytes : List UInt8⦄, p.run limit = .ok bytes → ∀ consumed,
    ¬ IsWanting (Buffer.get { consumed, unread := bytes, textLimit := limit } g).1
  short : ∀ ⦃limit : Nat⦄ ⦃cut lost : List UInt8⦄, p.run limit = .ok (cut ++ lost) → lost ≠ [] →
    ∀ consumed, IsWanting (Buffer.get { consumed, unread := cut, textLimit := limit } g).1

/-- **A piece that reads back shows where it ends**, if more bytes can only make up for those that
are wanting: a value or a fault that the reader found on a part would be found on the whole. -/
theorem ReadsBack.delimits (h : p.ReadsBack g a false) (hg : g.Robust) : p.Delimits g where
  whole limit bytes hrun consumed := by
    rw [h.get_whole hrun]
    exact not_isWanting_ok
  short limit cut lost hrun hlost consumed := by
    have hread := h.get_whole hrun consumed
    have hcut := hg.settled { consumed, unread := cut, textLimit := limit }
    cases hget : Buffer.get { consumed, unread := cut, textLimit := limit } g with
    | mk result after =>
      rw [hget] at hcut
      cases hcut with
      | value keeps =>
        -- what is lost would be left behind the value
        have hmore := (keeps lost).symm.trans hread
        have hunread := congrArg (fun r => r.2.unread) hmore
        exact absurd (List.append_eq_nil_iff.1 hunread).2 hlost
      | malformed keeps =>
        have hmore := (keeps lost).symm.trans hread
        cases hmore
      | wanting => exact ⟨_, _, _, rfl⟩

/-- **A field in front of others** adds the places inside it to those at which they can be cut. -/
theorem Delimits.behind (hp : p.ReadsBack g a false) (hg : g.Robust) (hq : q.Delimits (f a)) :
    (p ++ q).Delimits (g >>= f) where
  whole limit bytes hrun consumed := by
    obtain ⟨front, back, hfront, hback, rfl⟩ := run_append.1 hrun
    rw [Buffer.get_bind_of_ok (hp hfront consumed back nofun)]
    exact hq.whole hback _
  short limit cut lost hrun hlost consumed := by
    obtain ⟨front, back, hfront, hback, hbytes⟩ := run_append.1 hrun
    have hbehind : ∀ more, cut = front ++ more → back = more ++ lost →
        IsWanting (Buffer.get { consumed, unread := cut, textLimit := limit } (g >>= f)).1 := by
      rintro more rfl rfl
      rw [Buffer.get_bind_of_ok (hp hfront consumed more nofun)]
      exact hq.short hback hlost _
    rcases List.append_eq_append_iff.1 hbytes with ⟨more, hcut, hmore⟩ | ⟨more, hcut, hmore⟩
    · rcases more with _ | ⟨b, more⟩
      · exact hbehind [] (by simpa using hcut.symm) (by simpa using hmore.symm)
      · subst hcut
        have hfield := (hp.delimits hg).short hfront (List.cons_ne_nil b more) consumed
        exact isWanting_get_bind hfield f
    · exact hbehind more hcut hmore

/-- What is done with the value afterwards asks for no more bytes. -/
theorem Delimits.andThen (h : p.Delimits g)
    (hf : ∀ a b, ¬ IsWanting (Buffer.get b (f a)).1) : p.Delimits (g >>= f) where
  whole _ _ hrun consumed := not_isWanting_get_bind (h.whole hrun consumed) hf
  short _ _ _ hrun hlost consumed := isWanting_get_bind (h.short hrun hlost consumed) f

theorem Delimits.andPure (h : p.Delimits g) {f : α → β} :
    p.Delimits (g >>= fun a => Pure.pure (f a)) :=
  h.andThen fun _ _ => not_isWanting_ok

/-- A reader may look where it stands. -/
theorem Delimits.afterPosition {f : Nat → Get α} (h : ∀ offset, p.Delimits (f offset)) :
    p.Delimits (Get.position >>= f) where
  whole _ _ hrun consumed := (h _).whole hrun consumed
  short _ _ _ hrun hlost consumed := (h _).short hrun hlost consumed

/-- Nothing cannot be cut. -/
theorem delimits_empty (a : α) : empty.Delimits (pure a) where
  whole _ _ _ _ := not_isWanting_ok
  short limit cut lost hrun hlost _ := by
    have hnil : cut ++ lost = [] := run_raw.1 hrun
    exact absurd (List.append_eq_nil_iff.1 hnil).2 hlost

end Put

/-! ## Wider limits -/

namespace Put

/-- What can be written under a limit can be written under all above it, and is the same. -/
def Widens (p : Put) : Prop :=
  ∀ ⦃limit wider : Nat⦄ ⦃bytes : List UInt8⦄, p.run limit = .ok bytes → limit ≤ wider →
    p.run wider = .ok bytes

theorem Widens.append (hp : p.Widens) (hq : q.Widens) : (p ++ q).Widens := by
  intro limit wider bytes hrun hle
  obtain ⟨front, back, hfront, hback, rfl⟩ := run_append.1 hrun
  exact run_append.2 ⟨front, back, hp hfront hle, hq hback hle, rfl⟩

theorem widens_raw (written : List UInt8) : (raw written).Widens := by
  intro limit wider bytes hrun _
  exact run_raw.2 (run_raw.1 hrun)

theorem widens_byteArray (written : List UInt8) : (byteArray written).Widens := by
  intro limit wider bytes hrun _
  exact run_byteArray.2 (run_byteArray.1 hrun)

theorem widens_text (s : String) : (text s).Widens := by
  intro limit wider bytes hrun hle
  obtain ⟨hlimit, hbytes⟩ := run_text.1 hrun
  exact run_text.2 ⟨Nat.le_trans hlimit hle, hbytes⟩

theorem widens_optional (data : Option (List UInt8)) : (optional raw data).Widens := by
  cases data with
  | none => exact widens_raw _
  | some data => exact (widens_raw _).append (widens_raw _)

end Put

/-! ## Packets -/

open Put

theorem Handshake.delimits (p : Handshake) : p.put.Delimits Handshake.get := by
  rw [Handshake.put, append_assoc, append_assoc]
  refine .behind (readsBack_varint _) Get.robust_varint ?_
  refine .behind (readsBack_text _) Get.robust_text ?_
  refine .behind (readsBack_bigEndian p.serverPort.toNat_lt) (Get.robust_bigEndian 2) ?_
  refine .afterPosition fun offset => ?_
  refine ((readsBack_varint _).delimits Get.robust_varint).andThen fun number b => ?_
  split
  · exact not_isWanting_ok
  · exact not_isWanting_malformed

/-- Whether the text is a document is asked when it has been read. -/
theorem Packet.delimits_putJson (v : Json) : (Packet.putJson v).Delimits Packet.getJson := by
  refine ((readsBack_text v.text).delimits Get.robust_text).andThen fun text b => ?_
  split
  · exact not_isWanting_ok
  · exact not_isWanting_malformed

theorem LoginEncryptionRequest.delimits (p : LoginEncryptionRequest) :
    (Wire.put p).Delimits (Wire.get : Get LoginEncryptionRequest) := by
  show (text p.serverId ++ byteArray p.publicKey ++ byteArray p.verifyToken).Delimits _
  rw [append_assoc]
  refine .behind (readsBack_text _) Get.robust_text ?_
  refine .behind (readsBack_byteArray _) Get.robust_byteArray ?_
  exact ((readsBack_byteArray _).delimits Get.robust_byteArray).andPure

theorem LoginSuccess.delimits (p : LoginSuccess) : p.put.Delimits LoginSuccess.get := by
  rw [LoginSuccess.put, append_assoc]
  refine .behind (readsBack_bigEndian p.uuid.high.toNat_lt) (Get.robust_bigEndian 8) ?_
  refine .behind (readsBack_bigEndian p.uuid.low.toNat_lt) (Get.robust_bigEndian 8) ?_
  exact ((readsBack_text _).delimits Get.robust_text).andPure

/-- The data behind the channel are never wanting. -/
theorem LoginPluginRequest.delimits (p : LoginPluginRequest) :
    (varint p.messageId ++ text p.channel).Delimits (Wire.get : Get LoginPluginRequest) := by
  refine .behind (readsBack_varint _) Get.robust_varint ?_
  exact ((readsBack_text _).delimits Get.robust_text).andThen fun _ _ => not_isWanting_ok

/-- The data behind the flag, where there are any, are never wanting. -/
theorem LoginPluginResponse.delimits (p : LoginPluginResponse) :
    (varint p.messageId ++ bool p.data.isSome).Delimits (Wire.get : Get LoginPluginResponse) := by
  refine .behind (readsBack_varint _) Get.robust_varint ?_
  refine Delimits.andPure ?_
  refine ((readsBack_bool _).delimits Get.robust_bool).andThen fun isSome b => ?_
  cases isSome
  · exact not_isWanting_ok
  · exact not_isWanting_ok

namespace Direction

/-- Whether a packet is of a type that shows its end. The data of two types run to the end of the
body. -/
def isDelimited : (d : Direction) → d.Packets → Bool
  | clientbound, .loginPluginRequest _ => false
  | serverbound, .loginPluginResponse _ => false
  | _, _ => true

/-- The fields of a packet up to data that run to the end of its body. -/
def head : (d : Direction) → d.Packets → Put
  | clientbound, .loginPluginRequest p => varint p.messageId ++ text p.channel
  | serverbound, .loginPluginResponse p => varint p.messageId ++ bool p.data.isSome
  | d, p => (d.payload p).put

/-- **The fields of a packet show where they end** to the reader at the packet's place. -/
theorem delimits_head {d : Direction} (p : d.Packets) :
    ∃ g, d.get? (d.state p) (d.id p) = some g ∧ (d.head p).Delimits g := by
  have hnumber {n : Int64} := (readsBack_bigEndian n.toUInt64.toNat_lt).delimits
    (Get.robust_bigEndian 8)
  cases d with
  | serverbound =>
    cases p with
    | handshake p => exact ⟨_, rfl, p.delimits.andPure⟩
    | statusRequest p => exact ⟨_, rfl, (delimits_empty p).andPure⟩
    | statusPing p => exact ⟨_, rfl, hnumber.andPure.andPure⟩
    | loginStart p =>
      exact ⟨_, rfl, ((readsBack_text _).delimits Get.robust_text).andPure.andPure⟩
    | loginEncryptionResponse p =>
      refine ⟨_, rfl, Delimits.andPure ?_⟩
      refine .behind (readsBack_byteArray _) Get.robust_byteArray ?_
      exact ((readsBack_byteArray _).delimits Get.robust_byteArray).andPure
    | loginPluginResponse p => exact ⟨_, rfl, p.delimits.andPure⟩
  | clientbound =>
    cases p with
    | statusResponse p => exact ⟨_, rfl, (Packet.delimits_putJson p.data).andPure.andPure⟩
    | statusPong p => exact ⟨_, rfl, hnumber.andPure.andPure⟩
    | loginDisconnect p => exact ⟨_, rfl, (Packet.delimits_putJson p.reason).andPure.andPure⟩
    | loginEncryptionRequest p => exact ⟨_, rfl, p.delimits.andPure⟩
    | loginSuccess p => exact ⟨_, rfl, p.delimits.andPure⟩
    | loginSetCompression p =>
      exact ⟨_, rfl, ((readsBack_varint _).delimits Get.robust_varint).andPure.andPure⟩
    | loginPluginRequest p => exact ⟨_, rfl, p.delimits.andPure⟩

theorem widens_payload {d : Direction} (p : d.Packets) : (d.payload p).put.Widens := by
  cases d with
  | serverbound =>
    cases p with
    | handshake p =>
      exact (((widens_raw _).append (widens_text _)).append (widens_raw _)).append (widens_raw _)
    | statusRequest p => exact widens_raw []
    | statusPing p => exact widens_raw _
    | loginStart p => exact widens_text _
    | loginEncryptionResponse p => exact (widens_byteArray _).append (widens_byteArray _)
    | loginPluginResponse p => exact (widens_raw _).append (widens_optional _)
  | clientbound =>
    cases p with
    | statusResponse p => exact widens_text _
    | statusPong p => exact widens_raw _
    | loginDisconnect p => exact widens_text _
    | loginEncryptionRequest p =>
      exact ((widens_text _).append (widens_byteArray _)).append (widens_byteArray _)
    | loginSuccess p => exact ((widens_raw _).append (widens_raw _)).append (widens_text _)
    | loginSetCompression p => exact widens_raw _
    | loginPluginRequest p => exact ((widens_raw _).append (widens_text _)).append (widens_raw _)

variable {d : Direction} {p q : d.Packets} {other : List UInt8} {otherLimit : Nat}

theorem head_of_isDelimited (h : d.isDelimited p = true) : d.head p = (d.payload p).put := by
  cases d <;> cases p <;> first | rfl | cases h

/-- The fields of a packet start with its head. -/
theorem exists_head (hrun : (d.payload p).put.run limit = .ok bytes) :
    ∃ front data, (d.head p).run limit = .ok front ∧ bytes = front ++ data ∧
      (d.isDelimited p = true → data = []) := by
  by_cases h : d.isDelimited p = true
  · rw [head_of_isDelimited h]
    exact ⟨bytes, [], hrun, (List.append_nil bytes).symm, fun _ => rfl⟩
  cases d with
  | serverbound =>
    cases p with
    | loginPluginResponse p =>
      obtain ⟨number, back, hnumber, hback, rfl⟩ := run_append.1 hrun
      rcases hdata : p.data with _ | data
      · refine ⟨_, [], run_append.2 ⟨number, back, hnumber, ?_, rfl⟩, (List.append_nil _).symm,
          fun _ => rfl⟩
        rw [hdata] at hback ⊢
        exact hback
      · rw [hdata] at hback
        obtain ⟨flag, rest, hflag, -, rfl⟩ := run_append.1 hback
        refine ⟨number ++ flag, rest, run_append.2 ⟨number, flag, hnumber, ?_, rfl⟩,
          (List.append_assoc _ _ _).symm, fun hdelimited => absurd hdelimited h⟩
        rw [hdata]
        exact hflag
    | _ => exact absurd rfl h
  | clientbound =>
    cases p with
    | loginPluginRequest p =>
      obtain ⟨front, data, hfront, -, rfl⟩ := run_append.1 hrun
      exact ⟨front, data, hfront, rfl, fun hdelimited => absurd hdelimited h⟩
    | _ => exact absurd rfl h

/-- The id of the type whose data run to the end of the body. -/
def openId : Direction → Int32
  | serverbound => Packet.id LoginPluginResponse
  | clientbound => Packet.id LoginPluginRequest

/-- A type is told by its place. -/
theorem isDelimited_eq (p : d.Packets) :
    d.isDelimited p = !decide (d.state p = .login ∧ d.id p = d.openId) := by
  cases d <;> cases p <;> rfl

/-- **A packet that is cut short is found to be.** Let the fields of a packet be written. They start
with the packet's head, and are just that but for the two types with data to the end of the body. Of
the head, every part that is not all of it fails for want of bytes when it is read at the packet's
place: nothing shorter is taken for a packet, and nothing is found to be malformed before the bytes
run out.

So no packet whose type shows its end starts with another packet of that type, whatever the limits
under which the two were written. -/
theorem decode_truncated (hrun : (d.payload p).put.run limit = .ok bytes) :
    (∃ front data, (d.head p).run limit = .ok front ∧ bytes = front ++ data ∧
      (d.isDelimited p = true → data = []) ∧
      ∀ cut, cut <+: front → cut ≠ front → ∀ consumed,
        IsWanting (d.decode (d.state p) (d.id p)
          { consumed, unread := cut, textLimit := limit }).value.1) ∧
    (d.isDelimited p = true → ∀ (q : d.Packets) (otherLimit : Nat) (other : List UInt8),
      d.state q = d.state p → d.id q = d.id p → (d.payload q).put.run otherLimit = .ok other →
      other <+: bytes → other = bytes) := by
  obtain ⟨g, hget, hdelimits⟩ := delimits_head p
  refine ⟨?_, ?_⟩
  · obtain ⟨front, data, hfront, hbytes, hdata⟩ := exists_head hrun
    refine ⟨front, data, hfront, hbytes, hdata, ?_⟩
    rintro cut ⟨lost, rfl⟩ hcut consumed
    rw [value_decode, hget]
    refine hdelimits.short hfront ?_ consumed
    rintro rfl
    exact hcut (List.append_nil cut).symm
  · intro hp q otherLimit other hstate hid hother hprefix
    obtain ⟨lost, rfl⟩ := hprefix
    -- both stand under the larger of the two limits
    have hlong := widens_payload p hrun (Nat.le_max_left limit otherLimit)
    have hshort := widens_payload q hother (Nat.le_max_right limit otherLimit)
    obtain ⟨g', hget', hdelimits'⟩ := delimits_head q
    rw [hstate, hid, hget] at hget'
    cases hget'
    rw [head_of_isDelimited hp] at hdelimits
    have hq : d.isDelimited q = true := by rw [isDelimited_eq, hstate, hid, ← isDelimited_eq, hp]
    rw [head_of_isDelimited hq] at hdelimits'
    by_contra hne
    have hlost : lost ≠ [] := by
      rintro rfl
      exact hne (List.append_nil other).symm
    exact hdelimits'.whole hshort [] (hdelimits.short hlong hlost [])

/-- The name `hé`, cut inside its last character, and a question cut inside its channel. No other
name has an encoding with which that of the first one starts. -/
theorem decode_truncated_name :
    IsWanting (Serverbound.decode .login 0 { unread := [3, 0x68, 0xC3] }).value.1 ∧
      IsWanting (Clientbound.decode .login 4 { consumed := [9], unread := [7, 2, 0x61] }).value.1 ∧
      ∀ (name : String) (limit : Nat) (other : List UInt8), (text name).run limit = .ok other →
        other <+: [3, 0x68, 0xC3, 0xA9] → other = [3, 0x68, 0xC3, 0xA9] := by
  let start : Packets serverbound := .loginStart { username := "hé" }
  let request : Packets clientbound :=
    .loginPluginRequest { messageId := 7, channel := "ab", data := [1] }
  have hstart : (serverbound.payload start).put.run = .ok [3, 0x68, 0xC3, 0xA9] := by cbv
  have hrequest : (clientbound.payload request).put.run = .ok [7, 2, 0x61, 0x62, 1] := by cbv
  have hhead : (clientbound.head request).run = .ok [7, 2, 0x61, 0x62] := by cbv
  obtain ⟨⟨front, data, -, hbytes, hdata, hname⟩, hprefix⟩ := decode_truncated hstart
  obtain ⟨⟨front', data', hfront', -, -, hchannel⟩, -⟩ := decode_truncated hrequest
  rw [hdata rfl, List.append_nil] at hbytes
  rw [hhead] at hfront'
  cases hfront'
  subst hbytes
  refine ⟨hname _ (by decide) (by decide) [], hchannel _ (by decide) (by decide) [9], ?_⟩
  intro name limit other hother
  exact hprefix rfl (.loginStart { username := name }) limit other rfl rfl hother

end Direction

end PacketStream
