import PacketStream.Packet.Clientbound
import PacketStream.Packet.Serverbound
import PacketStream.Proofs.Buffer.RoundTrip

/-!
# Packets read back

One lemma a packet type: the reader takes the fields in the order in which they were written, and
makes the packet of them. Two types keep bytes that run to the end of the packet, and read back
where nothing follows. Two hold a document, and read back where the parser makes the same document
of its text.
-/

namespace PacketStream

open Put

/-! ## Handshake and status -/

theorem Handshake.readsBack (p : Handshake) : p.put.ReadsBack Handshake.get p false := by
  rw [Handshake.put, append_assoc, append_assoc]
  refine (readsBack_varint _).append ((readsBack_text _).append ?_)
  refine (readsBack_bigEndian p.serverPort.toNat_lt).append ?_
  refine ReadsBack.afterPosition ?_
  intro offset
  refine (readsBack_varint _).andPure ?_
  rw [NextState.ofInt32?_toInt32, Nat.toUInt16, UInt16.ofNat_toNat]

theorem StatusRequest.readsBack (p : StatusRequest) :
    (Wire.put p).ReadsBack (Wire.get : Get StatusRequest) p false :=
  readsBack_empty p

theorem Packet.readsBack_putJson {v : Json} (h : Json.ofText? v.text = some v) :
    (Packet.putJson v).ReadsBack Packet.getJson v false := by
  refine (readsBack_text v.text).andPure ?_
  rw [h]

theorem StatusResponse.readsBack {p : StatusResponse} (h : Json.ofText? p.data.text = some p.data) :
    (Wire.put p).ReadsBack (Wire.get : Get StatusResponse) p false :=
  (Packet.readsBack_putJson h).andPure rfl

theorem StatusPing.readsBack (p : StatusPing) :
    (Wire.put p).ReadsBack (Wire.get : Get StatusPing) p false := by
  refine (readsBack_bigEndian p.payload.toUInt64.toNat_lt).andPure ?_
  rw [Nat.toUInt64, UInt64.ofNat_toNat, Int64.toInt64_toUInt64]

theorem StatusPong.readsBack (p : StatusPong) :
    (Wire.put p).ReadsBack (Wire.get : Get StatusPong) p false := by
  refine (readsBack_bigEndian p.payload.toUInt64.toNat_lt).andPure ?_
  rw [Nat.toUInt64, UInt64.ofNat_toNat, Int64.toInt64_toUInt64]

/-! ## Login -/

theorem LoginStart.readsBack (p : LoginStart) :
    (Wire.put p).ReadsBack (Wire.get : Get LoginStart) p false :=
  (readsBack_text _).andPure rfl

theorem LoginDisconnect.readsBack {p : LoginDisconnect}
    (h : Json.ofText? p.reason.text = some p.reason) :
    (Wire.put p).ReadsBack (Wire.get : Get LoginDisconnect) p false :=
  (Packet.readsBack_putJson h).andPure rfl

theorem LoginEncryptionRequest.readsBack (p : LoginEncryptionRequest) :
    (Wire.put p).ReadsBack (Wire.get : Get LoginEncryptionRequest) p false := by
  show (text p.serverId ++ byteArray p.publicKey ++ byteArray p.verifyToken).ReadsBack _ p false
  rw [append_assoc]
  refine (readsBack_text _).append ((readsBack_byteArray _).append ?_)
  exact (readsBack_byteArray _).andPure rfl

theorem LoginEncryptionResponse.readsBack (p : LoginEncryptionResponse) :
    (Wire.put p).ReadsBack (Wire.get : Get LoginEncryptionResponse) p false :=
  (readsBack_byteArray _).append ((readsBack_byteArray _).andPure rfl)

theorem LoginSuccess.readsBack (p : LoginSuccess) : p.put.ReadsBack LoginSuccess.get p false := by
  rw [LoginSuccess.put, append_assoc]
  refine (readsBack_bigEndian p.uuid.high.toNat_lt).append ?_
  refine (readsBack_bigEndian p.uuid.low.toNat_lt).append ?_
  refine (readsBack_text _).andPure ?_
  simp only [Nat.toUInt64, UInt64.ofNat_toNat]

theorem LoginSetCompression.readsBack (p : LoginSetCompression) :
    (Wire.put p).ReadsBack (Wire.get : Get LoginSetCompression) p false :=
  (readsBack_varint _).andPure rfl

/-- The data run to the end of the packet. -/
theorem LoginPluginRequest.readsBack (p : LoginPluginRequest) :
    (Wire.put p).ReadsBack (Wire.get : Get LoginPluginRequest) p true := by
  show (varint p.messageId ++ text p.channel ++ raw p.data).ReadsBack _ p true
  rw [append_assoc]
  refine (readsBack_varint _).append ((readsBack_text _).append ?_)
  exact (readsBack_rest _).andPure rfl

/-- The data, where there are any, run to the end of the packet. -/
theorem LoginPluginResponse.readsBack (p : LoginPluginResponse) :
    (Wire.put p).ReadsBack (Wire.get : Get LoginPluginResponse) p p.data.isSome := by
  have hdata := readsBack_optional p.data fun data _ => readsBack_rest data
  exact (readsBack_varint _).append (hdata.andPure rfl)

end PacketStream
