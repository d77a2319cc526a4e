import PacketStream.Proofs.Packet.RoundTrip

/-!
# The tables of packets

The two directions have tables of the same kind: a packet stands at a state and an id, and what is
read at a state and an id is looked up there. `Direction.Packets` is the type of the packets of a
direction, so that a statement about both tables is made once.

`Packet.Places` says what the entries of a table have in common, and is proved entry by entry.
`table_coherent` is the result: decoding undoes encoding, a packet that was decoded stands at the
state and id it was decoded for, and nothing is taken from the buffer where nothing stands.
-/

namespace PacketStream

deriving instance Inhabited for NextState, Handshake, StatusRequest, StatusResponse, StatusPing,
  StatusPong, LoginStart, LoginDisconnect, LoginEncryptionRequest, LoginEncryptionResponse, Uuid,
  LoginSuccess, LoginSetCompression, LoginPluginRequest, LoginPluginResponse

/-! ## Packets of either direction -/

namespace Direction

/-- The packets that travel in the direction. -/
@[reducible] def Packets : Direction → Type
  | serverbound => Serverbound
  | clientbound => Clientbound

/-- The state that a packet belongs to. -/
def state : (d : Direction) → d.Packets → GameState
  | serverbound => Serverbound.state
  | clientbound => Clientbound.state

/-- The id in front of a packet. -/
def id : (d : Direction) → d.Packets → Int32
  | serverbound => Serverbound.id
  | clientbound => Clientbound.id

/-- The fields of a packet. -/
def payload : (d : Direction) → d.Packets → Payload
  | serverbound => Serverbound.payload
  | clientbound => Clientbound.payload

/-- The reader of the packet with a given state and id, if there is one. -/
def get? : (d : Direction) → GameState → Int32 → Option (Get d.Packets)
  | serverbound => Serverbound.get?
  | clientbound => Clientbound.get?

/-- Reads the packet with a given state and id. -/
def decode : (d : Direction) → GameState → Int32 → Buffer → Traced (Except Fault d.Packets × Buffer)
  | serverbound => Serverbound.decode
  | clientbound => Clientbound.decode

/-- The document that a packet holds, if it holds one. -/
def document? : (d : Direction) → d.Packets → Option Json
  | clientbound, .statusResponse p => some p.data
  | clientbound, .loginDisconnect p => some p.reason
  | _, _ => none

/-- Whether a packet ends in data that run to the end of its body. -/
def runsToEnd : (d : Direction) → d.Packets → Bool
  | clientbound, .loginPluginRequest _ => true
  | serverbound, .loginPluginResponse p => p.data.isSome
  | _, _ => false

end Direction

variable {α P : Type} {s : GameState} {n : Int32} {d : Direction}

/-! ## Entries -/

namespace Packet

/-- An entry, or a part of a table, for a state and an id: where there is a reader, some packet
stands there, and so does every packet that is read. -/
def Places (state : P → GameState) (id : P → Int32) (s : GameState) (n : Int32)
    (reader? : Option (Get P)) : Prop :=
  ∀ g, reader? = some g → (∃ p, state p = s ∧ id p = n) ∧
    ∀ b p after, Buffer.get b g = (.ok p, after) → state p = s ∧ id p = n

variable {state : P → GameState} {id : P → Int32} {x y : Option (Get P)}

theorem Places.orElse (hx : Places state id s n x) (hy : Places state id s n y) :
    Places state id s n (x <|> y) := by
  intro g h
  cases x with
  | none => exact hy g h
  | some => exact hx g h

theorem places_getAs? [Packet α] [Inhabited α] {wrap : α → P}
    (hstate : ∀ a, state (wrap a) = Packet.state α) (hid : ∀ a, id (wrap a) = Packet.id α) :
    Places state id s n (getAs? α wrap s n) := by
  intro g h
  rw [getAs?] at h
  split at h
  · rename_i hplace
    cases h
    have hwrap : ∀ a, state (wrap a) = s ∧ id (wrap a) = n := by
      intro a
      rw [hstate, hid, hplace.1, hplace.2]
      exact ⟨rfl, rfl⟩
    refine ⟨⟨wrap default, hwrap default⟩, ?_⟩
    intro b p after hget
    obtain ⟨a, _, -, hp⟩ := Buffer.get_bind_ok hget
    cases hp
    exact hwrap a
  · cases h

end Packet

/-! ## Tables -/

namespace Direction

theorem places_get? (d : Direction) (s : GameState) (n : Int32) :
    Packet.Places d.state d.id s n (d.get? s n) := by
  cases d with
  | serverbound =>
    simp only [get?, Serverbound.get?]
    iterate 5 refine Packet.Places.orElse (Packet.places_getAs? (fun _ => rfl) fun _ => rfl) ?_
    exact Packet.places_getAs? (fun _ => rfl) fun _ => rfl
  | clientbound =>
    simp only [get?, Clientbound.get?]
    iterate 6 refine Packet.Places.orElse (Packet.places_getAs? (fun _ => rfl) fun _ => rfl) ?_
    exact Packet.places_getAs? (fun _ => rfl) fun _ => rfl

/-- **A packet is found at its own place**, and its reader reads it back. -/
theorem get?_own (p : d.Packets) (hdocument : ∀ v ∈ d.document? p, Json.ofText? v.text = some v) :
    ∃ g, d.get? (d.state p) (d.id p) = some g ∧
      (d.payload p).put.ReadsBack g p (d.runsToEnd p) := by
  cases d with
  | serverbound =>
    cases p with
    | handshake p => exact ⟨_, rfl, p.readsBack.andPure rfl⟩
    | statusRequest p => exact ⟨_, rfl, p.readsBack.andPure rfl⟩
    | statusPing p => exact ⟨_, rfl, p.readsBack.andPure rfl⟩
    | loginStart p => exact ⟨_, rfl, p.readsBack.andPure rfl⟩
    | loginEncryptionResponse p => exact ⟨_, rfl, p.readsBack.andPure rfl⟩
    | loginPluginResponse p => exact ⟨_, rfl, p.readsBack.andPure rfl⟩
  | clientbound =>
    cases p with
    | statusResponse p =>
      exact ⟨_, rfl, (StatusResponse.readsBack (hdocument p.data rfl)).andPure rfl⟩
    | statusPong p => exact ⟨_, rfl, p.readsBack.andPure rfl⟩
    | loginDisconnect p =>
      exact ⟨_, rfl, (LoginDisconnect.readsBack (hdocument p.reason rfl)).andPure rfl⟩
    | loginEncryptionRequest p => exact ⟨_, rfl, p.readsBack.andPure rfl⟩
    | loginSuccess p => exact ⟨_, rfl, p.readsBack.andPure rfl⟩
    | loginSetCompression p => exact ⟨_, rfl, p.readsBack.andPure rfl⟩
    | loginPluginRequest p => exact ⟨_, rfl, p.readsBack.andPure rfl⟩

theorem value_decode (d : Direction) (s : GameState) (n : Int32) (b : Buffer) :
    (d.decode s n b).value =
      match d.get? s n with
      | some g => b.get g
      | none => (.error (.protocol (.unknownPacket n s)), b) := by
  cases d with
  | serverbound =>
    simp only [decode, get?, Serverbound.decode]
    cases Serverbound.get? s n <;> rfl
  | clientbound =>
    simp only [decode, get?, Clientbound.decode]
    cases Clientbound.get? s n <;> rfl

/-- **Decoding undoes encoding, at the place where the packet stands and nowhere else.** A packet
that was encoded under a limit is decoded to itself under that limit, and what follows it stays
unread; a packet that holds a document needs a parser that reads the document back, and one with
data to the end of its body has nothing behind it. A packet that was decoded stands at the state
and id it was decoded for. Where no packet stands, nothing is read. -/
theorem table_coherent (d : Direction) :
    (∀ (p : d.Packets) (limit : Nat) (bytes consumed tail : List UInt8),
      (d.payload p).put.run limit = .ok bytes →
      (∀ v ∈ d.document? p, Json.ofText? v.text = some v) →
      (d.runsToEnd p = true → tail = []) →
      (d.decode (d.state p) (d.id p)
          { consumed, unread := bytes ++ tail, textLimit := limit }).value
        = (.ok p, { consumed := consumed ++ bytes, unread := tail, textLimit := limit })) ∧
    (∀ (s : GameState) (n : Int32) (b after : Buffer) (p : d.Packets),
      (d.decode s n b).value = (.ok p, after) → d.state p = s ∧ d.id p = n) ∧
    (∀ (s : GameState) (n : Int32) (b : Buffer),
      (∀ p : d.Packets, ¬(d.state p = s ∧ d.id p = n)) →
      (d.decode s n b).value = (.error (.protocol (.unknownPacket n s)), b)) := by
  refine ⟨?_, ?_, ?_⟩
  · intro p limit bytes consumed tail hput hdocument htail
    obtain ⟨g, hget, hreads⟩ := get?_own p hdocument
    rw [value_decode, hget]
    exact hreads hput consumed tail htail
  · intro s n b after p h
    rw [value_decode] at h
    cases hget : d.get? s n with
    | none =>
      rw [hget] at h
      cases h
    | some g =>
      rw [hget] at h
      exact (places_get? d s n g hget).2 b p after h
  · intro s n b hnone
    rw [value_decode]
    cases hget : d.get? s n with
    | none => rfl
    | some g =>
      obtain ⟨p, hp⟩ := (places_get? d s n g hget).1
      exact absurd hp (hnone p)

/-- The status `[true]` in front of another byte, an answer with data to its end, and an id at which
no packet stands. -/
theorem table_coherent_status :
    (Clientbound.decode .status 0 { unread := [6, 91, 116, 114, 117, 101, 93, 7] }).value
      = (.ok (.statusResponse { data := .array [.bool true] }),
          { consumed := [6, 91, 116, 114, 117, 101, 93], unread := [7] }) ∧
    (Serverbound.decode .login 2 { unread := [9, 1, 5, 6] }).value
      = (.ok (.loginPluginResponse { messageId := 9, data := some [5, 6] }),
          { consumed := [9, 1, 5, 6], unread := [] }) ∧
    (Clientbound.statusResponse { data := .array [.bool true] }).state = .status ∧
    (Clientbound.decode .play 0 { unread := [7] }).value
      = (.error (.protocol (.unknownPacket 0 .play)), { unread := [7] }) := by
  have hone : ∀ n : Nat, n < 128 → Varint.encode n = [n.toUInt8] := by
    intro n hn
    rw [Varint.encode, if_pos hn]
  have hdocument : (Packet.putJson (.array [.bool true])).run
      = .ok [6, 91, 116, 114, 117, 101, 93] := by
    have hencoded : Utf8.encode (Json.text (.array [.bool true]))
        = [91, 116, 114, 117, 101, 93] := rfl
    refine Put.run_text.2 ⟨by decide, by decide, ?_⟩
    rw [hencoded, hone _ (by decide)]
    rfl
  have hparsed : Json.ofText? (Json.text (.array [.bool true])) = some (.array [.bool true]) := by
    rw [Json.ofText?, Json.text, String.toList_ofList]
    rfl
  have hdata : (Put.varint 9 ++ Put.optional Put.raw (some [5, 6])).run = .ok [9, 1, 5, 6] :=
    congrArg (fun front => Except.ok (front ++ [1, 5, 6])) (hone 9 (by decide))
  have hstatus := (table_coherent .clientbound).1 (.statusResponse { data := .array [.bool true] })
    Limits.textLength [6, 91, 116, 114, 117, 101, 93] [] [7] hdocument
    (by rintro v ⟨⟩; exact hparsed) (by decide)
  have hanswer := (table_coherent .serverbound).1
    (.loginPluginResponse { messageId := 9, data := some [5, 6] })
    Limits.textLength [9, 1, 5, 6] [] [] hdata (by rintro v ⟨⟩) (by decide)
  have hplace := (table_coherent .clientbound).2.1 .status 0 _ _ _ hstatus
  have hnone := (table_coherent .clientbound).2.2 .play 0 { unread := [7] } (by
    intro p hp
    cases p <;> cases hp.1)
  exact ⟨hstatus, hanswer, hplace.1, hnone⟩

end Direction

end PacketStream
