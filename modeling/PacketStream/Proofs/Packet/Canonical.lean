import Mathlib
import PacketStream.Proofs.Buffer.Fields
import PacketStream.Proofs.Packet.Registry

/-!
# Packets are written in their shortest form

`Direction.fields` lists the fields of a packet as they stand on the wire. Whatever bytes a packet
is decoded from, they are a spelling of these fields, and the packet can be written again:
`Buffer.took_packet` says so for each type, from `Buffer.Took` of its fields. Validity plays no part
in this; a packet that no one would send can be decoded and written all the same.

`decode_canonical` is the result. Packets that hold a document are left out, since what is written
of a document is not the text that was read.
-/

namespace PacketStream

/-! ## The fields of packets -/

namespace Direction

open WireField

/-- The fields of a packet, in their order on the wire. -/
def fields : (d : Direction) → d.Packets → List WireField
  | serverbound, .handshake p =>
    [ofInt32 p.protocolVersion] ++ ofText p.serverAddress ++ [fixed 2 p.serverPort.toNat]
      ++ [ofInt32 p.nextState.toInt32]
  | serverbound, .statusRequest _ => []
  | serverbound, .statusPing p => [fixed 8 p.payload.toUInt64.toNat]
  | serverbound, .loginStart p => ofText p.username
  | serverbound, .loginEncryptionResponse p => counted p.sharedSecret ++ counted p.verifyToken
  | serverbound, .loginPluginResponse p => [ofInt32 p.messageId] ++ flagged p.data
  | clientbound, .statusResponse p => ofText p.data.text
  | clientbound, .statusPong p => [fixed 8 p.payload.toUInt64.toNat]
  | clientbound, .loginDisconnect p => ofText p.reason.text
  | clientbound, .loginEncryptionRequest p =>
    ofText p.serverId ++ counted p.publicKey ++ counted p.verifyToken
  | clientbound, .loginSuccess p =>
    [fixed 8 p.uuid.high.toNat] ++ [fixed 8 p.uuid.low.toNat] ++ ofText p.username
  | clientbound, .loginSetCompression p => [ofInt32 p.threshold]
  | clientbound, .loginPluginRequest p =>
    [ofInt32 p.messageId] ++ ofText p.channel ++ [.plain p.data]

end Direction

/-! ## Packets -/

theorem NextState.toInt32_of_ofInt32? {n : Int32} {s : NextState}
    (h : NextState.ofInt32? n = some s) : s.toInt32 = n := by
  rw [NextState.ofInt32?] at h
  split at h
  · cases h
    exact (‹n = 1›).symm
  split at h
  · cases h
    exact (‹n = 2›).symm
  · cases h

namespace Buffer

variable {b after : Buffer} {d : Direction}

theorem took_handshake {p : Handshake} (h : b.get Handshake.get = (.ok p, after)) :
    b.Took after p.put (Direction.serverbound.fields (.handshake p)) := by
  obtain ⟨version, _, hversion, h⟩ := get_bind_ok h
  obtain ⟨address, _, haddress, h⟩ := get_bind_ok h
  obtain ⟨port, _, hport, h⟩ := get_bind_ok h
  obtain ⟨offset, _, hoffset, h⟩ := get_bind_ok h
  cases hoffset
  obtain ⟨number, _, hnumber, hstate⟩ := get_bind_ok h
  split at hstate
  · rename_i next hnext
    cases hstate
    have hport' : port.toUInt16.toNat = port := by
      have hlt := lt_of_get_bigEndian hport
      simp [Nat.toUInt16]
      omega
    have htook := (((took_varint hversion).append (took_text haddress)).append
      (took_bigEndian hport)).append (took_varint hnumber)
    rw [← NextState.toInt32_of_ofInt32? hnext, ← hport'] at htook
    exact htook
  · cases hstate

theorem took_number {n : Nat} (h : b.get (Get.bigEndian 8) = (.ok n, after)) :
    b.Took after (Put.bigEndian 8 n.toUInt64.toNat) [.fixed 8 n.toUInt64.toNat] := by
  have hlt := lt_of_get_bigEndian h
  have hn : n.toUInt64.toNat = n := by
    simp [Nat.toUInt64]
    omega
  rw [hn]
  exact took_bigEndian h

/-- **A packet was read from a spelling of its fields, and can be written again.** -/
theorem took_packet {p : d.Packets} {g : Get d.Packets}
    (hget : d.get? (d.state p) (d.id p) = some g) (h : b.get g = (.ok p, after))
    (hdocument : d.document? p = none) : b.Took after (d.payload p).put (d.fields p) := by
  cases d with
  | serverbound =>
    cases p with
    | handshake p =>
      cases hget
      obtain ⟨_, _, hp, ⟨⟩⟩ := get_bind_ok h
      exact took_handshake hp
    | statusRequest p =>
      cases hget
      obtain ⟨_, _, ⟨⟩, ⟨⟩⟩ := get_bind_ok h
      exact took_nothing b
    | statusPing p =>
      cases hget
      obtain ⟨_, _, hp, ⟨⟩⟩ := get_bind_ok h
      obtain ⟨n, _, hn, ⟨⟩⟩ := get_bind_ok hp
      exact took_number hn
    | loginStart p =>
      cases hget
      obtain ⟨_, _, hp, ⟨⟩⟩ := get_bind_ok h
      obtain ⟨name, _, hname, ⟨⟩⟩ := get_bind_ok hp
      exact took_text hname
    | loginEncryptionResponse p =>
      cases hget
      obtain ⟨_, _, hp, ⟨⟩⟩ := get_bind_ok h
      obtain ⟨secret, _, hsecret, hp⟩ := get_bind_ok hp
      obtain ⟨token, _, htoken, ⟨⟩⟩ := get_bind_ok hp
      exact (took_byteArray hsecret).append (took_byteArray htoken)
    | loginPluginResponse p =>
      cases hget
      obtain ⟨_, _, hp, ⟨⟩⟩ := get_bind_ok h
      obtain ⟨number, _, hnumber, hp⟩ := get_bind_ok hp
      obtain ⟨data, _, hdata, ⟨⟩⟩ := get_bind_ok hp
      exact (took_varint hnumber).append (took_flagged hdata)
  | clientbound =>
    cases p with
    | statusResponse p => cases hdocument
    | statusPong p =>
      cases hget
      obtain ⟨_, _, hp, ⟨⟩⟩ := get_bind_ok h
      obtain ⟨n, _, hn, ⟨⟩⟩ := get_bind_ok hp
      exact took_number hn
    | loginDisconnect p => cases hdocument
    | loginEncryptionRequest p =>
      cases hget
      obtain ⟨_, _, hp, ⟨⟩⟩ := get_bind_ok h
      obtain ⟨serverId, _, hserverId, hp⟩ := get_bind_ok hp
      obtain ⟨key, _, hkey, hp⟩ := get_bind_ok hp
      obtain ⟨token, _, htoken, ⟨⟩⟩ := get_bind_ok hp
      exact ((took_text hserverId).append (took_byteArray hkey)).append (took_byteArray htoken)
    | loginSuccess p =>
      cases hget
      obtain ⟨_, _, hp, ⟨⟩⟩ := get_bind_ok h
      obtain ⟨high, _, hhigh, hp⟩ := get_bind_ok hp
      obtain ⟨low, _, hlow, hp⟩ := get_bind_ok hp
      obtain ⟨name, _, hname, ⟨⟩⟩ := get_bind_ok hp
      exact ((took_number hhigh).append (took_number hlow)).append (took_text hname)
    | loginSetCompression p =>
      cases hget
      obtain ⟨_, _, hp, ⟨⟩⟩ := get_bind_ok h
      obtain ⟨threshold, _, hthreshold, ⟨⟩⟩ := get_bind_ok hp
      exact took_varint hthreshold
    | loginPluginRequest p =>
      cases hget
      obtain ⟨_, _, hp, ⟨⟩⟩ := get_bind_ok h
      obtain ⟨number, _, hnumber, hp⟩ := get_bind_ok hp
      obtain ⟨channel, _, hchannel, hp⟩ := get_bind_ok hp
      obtain ⟨data, _, hdata, ⟨⟩⟩ := get_bind_ok hp
      exact ((took_varint hnumber).append (took_text hchannel)).append (took_rest hdata)

theorem Passed.exists_advance {fields : List WireField} (h : b.Passed after fields) :
    ∃ n, n ≤ b.remaining ∧ after = b.advance n ∧
      ∃ forms, WireField.Spells fields forms (b.unread.take n) := by
  obtain ⟨taken, forms, hunread, hconsumed, hspells⟩ := h.spelled
  have htake : b.unread.take taken.length = taken := by rw [hunread, List.take_left]
  refine ⟨taken.length, ?_, ?_, forms, by rwa [htake]⟩
  · rw [remaining, hunread, List.length_append]
    exact Nat.le_add_right _ _
  · obtain ⟨consumed, unread, limit⟩ := after
    have hdrop : b.unread.drop taken.length = unread := by rw [hunread, List.drop_left]
    rw [advance, htake, hdrop]
    cases hconsumed
    cases h.textLimit
    rfl

end Buffer

namespace Direction

/-- **Writing what was decoded gives its shortest form.** Let a packet without a document be
decoded, at whatever state and id and from whatever bytes, and let `n` bytes be taken. Then the
packet can be written under the same limit for strings, valid or not, and what is written are its
fields in their shortest forms: no more than `n` bytes, which are decoded to the packet again. The
bytes that were taken are the same fields, with some form of each varint, be it a number or a
length. They are what is written if and only if all these forms are minimal. -/
theorem decode_canonical {d : Direction} {s : GameState} {id : Int32} {b after : Buffer}
    {p : d.Packets} (h : (d.decode s id b).value = (.ok p, after))
    (hdocument : d.document? p = none) :
    let written := WireField.encode (d.fields p)
    ∃ n, n ≤ b.remaining ∧ after = b.advance n ∧
      (d.payload p).put.run b.textLimit = .ok written ∧ written.length ≤ n ∧
      (∀ consumed,
        (d.decode s id { consumed, unread := written, textLimit := b.textLimit }).value
          = (.ok p, { consumed := consumed ++ written, unread := [], textLimit := b.textLimit })) ∧
      (∃ forms, WireField.Spells (d.fields p) forms (b.unread.take n)) ∧
      ∀ forms, WireField.Spells (d.fields p) forms (b.unread.take n) →
        (written = b.unread.take n ↔ ∀ form ∈ forms, Varint.IsMinimal form) := by
  intro written
  rw [value_decode] at h
  cases hget : d.get? s id with
  | none =>
    rw [hget] at h
    cases h
  | some g =>
    rw [hget] at h
    obtain ⟨rfl, rfl⟩ := (places_get? d s id g hget).2 b p after h
    obtain ⟨g', hget', hreads⟩ := get?_own p (by simp [hdocument])
    obtain rfl : g = g' := Option.some.inj (hget.symm.trans hget')
    have htook := Buffer.took_packet hget h hdocument
    obtain ⟨n, hn, hafter, forms, hspells⟩ := htook.exists_advance
    refine ⟨n, hn, hafter, htook.writes, ?_, ?_, ⟨forms, hspells⟩, ?_⟩
    · have hlength := hspells.length_encode_le
      rw [List.length_take] at hlength
      exact Nat.le_trans hlength (Nat.min_le_left _ _)
    · intro consumed
      rw [value_decode, hget]
      exact hreads.get_whole htook.writes consumed
    · intro forms hspells
      exact hspells.encode_eq_iff

/-- The name `hé` behind a length of three bytes, of which one would do. -/
theorem decode_canonical_paddedName :
    let bytes : List UInt8 := [0x83, 0x80, 0, 0x68, 0xC3, 0xA9]
    let b : Buffer := { consumed := [9], unread := bytes ++ [7] }
    let p : Serverbound := .loginStart { username := "hé" }
    (Serverbound.decode .login 0 b).value = (.ok p, b.advance 6) ∧
      p.payload.put.run = .ok [3, 0x68, 0xC3, 0xA9] ∧
      (Serverbound.decode .login 0 { unread := [3, 0x68, 0xC3, 0xA9] }).value
        = (.ok p, { consumed := [3, 0x68, 0xC3, 0xA9] }) ∧
      WireField.Spells (serverbound.fields p) [[0x83, 0x80, 0]] bytes ∧
      ¬ Varint.IsMinimal [0x83, 0x80, 0] := by
  intro bytes b p
  have hdecode : (Serverbound.decode .login 0 b).value = (.ok p, b.advance 6) := by cbv
  have hfields : WireField.encode (serverbound.fields p) = [3, 0x68, 0xC3, 0xA9] := by cbv
  have hspells : WireField.Spells (serverbound.fields p) [[0x83, 0x80, 0]] bytes := by
    have hform : Varint.Denotes [0x83, 0x80, 0] 3 := by cbv
    exact .varint hform (.plain .nil)
  have hcanonical := @decode_canonical serverbound _ _ _ _ _ hdecode rfl
  rw [hfields] at hcanonical
  obtain ⟨n, hn, hadvance, hruns, -, hagain, -, hiff⟩ := hcanonical
  obtain rfl : n = 6 := by
    have hposition := congrArg Buffer.position hadvance
    rw [Buffer.position_advance (by decide), Buffer.position_advance hn] at hposition
    omega
  refine ⟨hdecode, hruns, hagain [], hspells, ?_⟩
  intro hminimal
  have hsame := (hiff _ hspells).2 (by simpa using hminimal)
  cases hsame

end Direction

end PacketStream
