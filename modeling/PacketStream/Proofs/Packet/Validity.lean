import PacketStream.Proofs.Packet.Registry

/-!
# What validation promises

Validation bounds some of the texts in packets, and the encoding has demands of its own: texts keep
to the limit for strings, and a signed 32-bit length counts bytes. A valid packet can have parts
that are not bounded at all: the channel of a question, documents, keys and tokens.
`Direction.Fits` is what has to be asked of those parts.

`recovered_iff_fits` is the result: a valid packet can be written and is then read back if and only
if it fits and its document, if it holds one, is read back by the parser. So validity alone does
not promise it; `long_channel_not_written` is a valid packet that cannot be written.
-/

namespace PacketStream

/-! ## Pieces that can be written -/

namespace Put

variable {p q : Put} {limit : Nat}

/-- Whether a piece can be written under a limit for strings. -/
def Succeeds (p : Put) (limit : Nat) : Prop := ∃ bytes, p.run limit = .ok bytes

theorem succeeds_raw (bytes : List UInt8) (limit : Nat) : (raw bytes).Succeeds limit :=
  ⟨bytes, run_raw.2 rfl⟩

theorem succeeds_append : (p ++ q).Succeeds limit ↔ p.Succeeds limit ∧ q.Succeeds limit := by
  constructor
  · intro h
    obtain ⟨bytes, hbytes⟩ := h
    obtain ⟨front, back, hfront, hback, -⟩ := run_append.1 hbytes
    exact ⟨⟨front, hfront⟩, ⟨back, hback⟩⟩
  · intro h
    obtain ⟨⟨front, hfront⟩, ⟨back, hback⟩⟩ := h
    exact ⟨_, run_append.2 ⟨front, back, hfront, hback, rfl⟩⟩

theorem succeeds_byteArray {bytes : List UInt8} :
    (byteArray bytes).Succeeds limit ↔ bytes.length ≤ Limits.prefixedLength := by
  constructor
  · intro h
    obtain ⟨_, hwritten⟩ := h
    exact (run_byteArray.1 hwritten).1
  · intro h
    exact ⟨_, run_byteArray.2 ⟨h, rfl⟩⟩

/-- Under the usual limit only the characters of a string count: their bytes can be counted. -/
theorem succeeds_text {s : String} :
    (text s).Succeeds Limits.textLength ↔ s.length ≤ Limits.textLength := by
  constructor
  · intro h
    obtain ⟨_, hwritten⟩ := h
    exact (run_text.1 hwritten).1
  · intro h
    have hbytes : (Utf8.encode s).length ≤ Limits.prefixedLength :=
      calc (Utf8.encode s).length
          ≤ 4 * s.length := Utf8.length_encode_le s
        _ ≤ 4 * Limits.textLength := Nat.mul_le_mul_left 4 h
        _ ≤ Limits.prefixedLength := by decide
    exact ⟨_, run_text.2 ⟨h, hbytes, rfl⟩⟩

theorem succeeds_text_of_checkLength {field s : String} {max : Nat}
    (h : Packet.checkLength field s max = .ok ()) (hmax : max ≤ Limits.textLength) :
    (text s).Succeeds Limits.textLength := by
  rw [Packet.checkLength] at h
  split at h
  · cases h
  · exact succeeds_text.2 (by omega)

end Put

/-! ## Documents -/

/-- A packet that is made of a document comes back itself only where the parser reads the document
back. -/
theorem Packet.ofText?_of_get {α P : Type} {make : Json → α} {wrap : α → P} {v : Json}
    {bytes : List UInt8} {after : Buffer} (hinj : ∀ w, wrap (make w) = wrap (make v) → w = v)
    (hput : (Packet.putJson v).run = .ok bytes)
    (hget : (Buffer.ofBytes bytes).get (return wrap (← (return make (← Packet.getJson))))
      = (.ok (wrap (make v)), after)) :
    Json.ofText? v.text = some v := by
  obtain ⟨a, _, hmade, hwrap⟩ := Buffer.get_bind_ok hget
  obtain ⟨w, _, hread, hmake⟩ := Buffer.get_bind_ok hmade
  cases hmake
  have hsame : wrap (make w) = wrap (make v) := Except.ok.inj (congrArg Prod.fst hwrap)
  have htext := (Put.readsBack_text v.text).get_whole hput []
  rw [Packet.getJson, Buffer.ofBytes, Buffer.get_bind_of_ok htext] at hread
  split at hread
  · rename_i hparsed
    cases hread
    rw [hparsed, hinj w hsame]
  · cases hread

/-! ## Packets -/

namespace Direction

open Put

variable {d : Direction}

/-- What validation leaves open: the parts of a packet that it does not bound are short enough. -/
def Fits : (d : Direction) → d.Packets → Prop
  | serverbound, .loginEncryptionResponse p =>
    p.sharedSecret.length ≤ Limits.prefixedLength ∧ p.verifyToken.length ≤ Limits.prefixedLength
  | clientbound, .statusResponse p => p.data.text.length ≤ Limits.textLength
  | clientbound, .loginDisconnect p => p.reason.text.length ≤ Limits.textLength
  | clientbound, .loginEncryptionRequest p =>
    p.publicKey.length ≤ Limits.prefixedLength ∧ p.verifyToken.length ≤ Limits.prefixedLength
  | clientbound, .loginPluginRequest p => p.channel.length ≤ Limits.textLength
  | _, _ => True

/-- A valid packet can be written just where it fits. -/
theorem succeeds_iff_fits (p : d.Packets) (hvalid : (d.payload p).validity = .ok ()) :
    (d.payload p).put.Succeeds Limits.textLength ↔ d.Fits p := by
  cases d with
  | serverbound =>
    cases p with
    | handshake p =>
      have haddress := succeeds_text_of_checkLength hvalid (by decide)
      refine iff_of_true ?_ trivial
      refine succeeds_append.2 ⟨succeeds_append.2 ⟨succeeds_append.2 ⟨?_, haddress⟩, ?_⟩, ?_⟩
      · exact succeeds_raw _ _
      · exact succeeds_raw _ _
      · exact succeeds_raw _ _
    | statusRequest => exact iff_of_true ⟨[], rfl⟩ trivial
    | statusPing => exact iff_of_true (succeeds_raw _ _) trivial
    | loginStart p => exact iff_of_true (succeeds_text_of_checkLength hvalid (by decide)) trivial
    | loginEncryptionResponse p =>
      exact succeeds_append.trans (and_congr succeeds_byteArray succeeds_byteArray)
    | loginPluginResponse p =>
      refine iff_of_true (succeeds_append.2 ⟨succeeds_raw _ _, ?_⟩) trivial
      cases p.data with
      | none => exact succeeds_raw _ _
      | some data => exact succeeds_append.2 ⟨succeeds_raw _ _, succeeds_raw _ _⟩
  | clientbound =>
    cases p with
    | statusResponse p => exact succeeds_text
    | statusPong => exact iff_of_true (succeeds_raw _ _) trivial
    | loginDisconnect p => exact succeeds_text
    | loginEncryptionRequest p =>
      have hserver := succeeds_text_of_checkLength hvalid (by decide)
      show (text _ ++ byteArray _ ++ byteArray _).Succeeds _ ↔ _ ∧ _
      rw [succeeds_append, succeeds_append, and_iff_right hserver, succeeds_byteArray,
        succeeds_byteArray]
    | loginSuccess p =>
      have husername := succeeds_text_of_checkLength hvalid (by decide)
      refine iff_of_true ?_ trivial
      refine succeeds_append.2 ⟨succeeds_append.2 ⟨?_, ?_⟩, husername⟩
      · exact succeeds_raw _ _
      · exact succeeds_raw _ _
    | loginSetCompression => exact iff_of_true (succeeds_raw _ _) trivial
    | loginPluginRequest p =>
      show (varint _ ++ text _ ++ raw _).Succeeds _ ↔ _
      have hid : (varint p.messageId).Succeeds Limits.textLength := succeeds_raw _ _
      rw [succeeds_append, succeeds_append, and_iff_right hid, and_iff_left (succeeds_raw _ _),
        succeeds_text]
      rfl

/-- Only a packet whose document is read back comes back itself. -/
theorem document_of_decode {p : d.Packets} {bytes : List UInt8} {after : Buffer}
    (hput : (d.payload p).put.run = .ok bytes)
    (hget : (d.decode (d.state p) (d.id p) (Buffer.ofBytes bytes)).value = (.ok p, after)) :
    ∀ v ∈ d.document? p, Json.ofText? v.text = some v := by
  intro v hv
  rw [value_decode] at hget
  cases d with
  | serverbound => cases p <;> cases hv
  | clientbound =>
    cases p with
    | statusResponse p =>
      cases hv
      exact Packet.ofText?_of_get (by intro w h; cases h; rfl) hput hget
    | loginDisconnect p =>
      cases hv
      exact Packet.ofText?_of_get (by intro w h; cases h; rfl) hput hget
    | statusPong | loginEncryptionRequest | loginSuccess | loginSetCompression
      | loginPluginRequest => cases hv

/-- **A valid packet can be written and is read back if and only if it fits and the parser reads
its document back.** -/
theorem recovered_iff_fits (d : Direction) (p : d.Packets)
    (hvalid : (d.payload p).validity = .ok ()) :
    (∃ bytes, (d.payload p).put.run = .ok bytes ∧
        (d.decode (d.state p) (d.id p) (Buffer.ofBytes bytes)).value
          = (.ok p, { consumed := bytes, unread := [] })) ↔
      d.Fits p ∧ ∀ v ∈ d.document? p, Json.ofText? v.text = some v := by
  rw [← succeeds_iff_fits p hvalid]
  constructor
  · intro h
    obtain ⟨bytes, hput, hget⟩ := h
    exact ⟨⟨bytes, hput⟩, document_of_decode hput hget⟩
  · intro h
    obtain ⟨⟨bytes, hput⟩, hdocument⟩ := h
    obtain ⟨g, hplace, hreads⟩ := get?_own p hdocument
    have hget := hreads hput [] [] (fun _ => rfl)
    rw [List.append_nil, List.nil_append] at hget
    refine ⟨bytes, hput, ?_⟩
    rw [value_decode, hplace]
    exact hget

/-- A key and a token come back together with the server's id. -/
theorem recovered_iff_fits_key :
    (Packet.checkLength "server_id" "id" Limits.serverIdLength = .ok ()) ∧
    ∃ bytes,
      (Clientbound.loginEncryptionRequest
          { serverId := "id", publicKey := [1, 2], verifyToken := [3] }).payload.put.run
        = .ok bytes ∧
        (Clientbound.decode .login 1 (Buffer.ofBytes bytes)).value
          = (.ok (.loginEncryptionRequest
                { serverId := "id", publicKey := [1, 2], verifyToken := [3] }),
              { consumed := bytes, unread := [] }) := by
  have hvalid : Packet.checkLength "server_id" "id" Limits.serverIdLength = .ok () := rfl
  refine ⟨hvalid, ?_⟩
  refine (recovered_iff_fits .clientbound
    (.loginEncryptionRequest { serverId := "id", publicKey := [1, 2], verifyToken := [3] })
    hvalid).2 ⟨⟨by decide, by decide⟩, ?_⟩
  intro v hv
  cases hv

/-- Validation does not bound the channel of a question, and a string of the encoding is bounded. -/
theorem run_of_long_channel {p : LoginPluginRequest} (h : Limits.textLength < p.channel.length) :
    (Clientbound.loginPluginRequest p).payload.put.run
      = .error (.validation (.tooLong "string" p.channel.length Limits.textLength)) := by
  have htext : text p.channel Limits.textLength
      = fail (.validation (.tooLong "string" p.channel.length Limits.textLength))
          Limits.textLength := by
    rw [text, if_pos h]
  show (varint p.messageId ++ text p.channel ++ raw p.data).run = _
  simp only [run, append_def, andThen, htext, varint, varnat, raw, fail]

/-- A question whose channel has a character too many is valid and cannot be written. -/
theorem long_channel_not_written :
    (Clientbound.loginPluginRequest
        { messageId := 0, channel := String.ofList (List.replicate 32768 'a')
          data := [] }).payload.validity = .ok () ∧
    (Clientbound.loginPluginRequest
        { messageId := 0, channel := String.ofList (List.replicate 32768 'a')
          data := [] }).payload.put.run = .error (.validation (.tooLong "string" 32768 32767)) := by
  have hlength : (String.ofList (List.replicate 32768 'a')).length = 32768 := by
    rw [String.length_ofList, List.length_replicate]
  have hrun := run_of_long_channel
    (p := { messageId := 0, channel := String.ofList (List.replicate 32768 'a'), data := [] })
    (by rw [hlength]; decide)
  rw [hlength] at hrun
  exact ⟨rfl, hrun⟩

end Direction

end PacketStream
