import Mathlib
import PacketStream.Proofs.Buffer.Performing
import PacketStream.Proofs.Packet.Registry

/-!
# Reads and writes as programs

`Program g` is a way to carry out the read `g` by methods of a store, with tests between them.
`Program.op` carries it out and `Program.performs` says, by induction on the program, that it does what
`g` does and is never out of range. `Draft p` is the same for a piece `p` that is written.

All that the library reads and writes has a program: values of every shape, bit sets, and every packet
of the tables.
-/

namespace PacketStream

variable {α β : Type}

/-! ## Reads only move the cursor -/

namespace Get

/-- Whatever the read comes to, it has moved the cursor over some of the unread bytes, and nothing
else. -/
def Advances (g : Get α) : Prop := ∀ b : Buffer, ∃ n, n ≤ b.remaining ∧ (b.get g).2 = b.advance n

theorem advances_of_stays {g : Get α} (h : ∀ b : Buffer, (b.get g).2 = b) : g.Advances := by
  intro b
  exact ⟨0, Nat.zero_le _, by rw [h, Buffer.advance_zero]⟩

/-- **What is made of two reads moves the cursor as far as both do**, and where the first fails as far
as that one does. -/
theorem Advances.bind {x : Get α} {f : α → Get β} (hx : x.Advances) (hf : ∀ a, (f a).Advances) :
    (x >>= f).Advances := by
  intro b
  obtain ⟨m, hm, hfirst⟩ := hx b
  rw [Buffer.get_bind]
  rcases hget : b.get x with ⟨e | a, after⟩ <;> rw [hget] at hfirst <;> subst hfirst
  · exact ⟨m, hm, rfl⟩
  · obtain ⟨n, hn, hsecond⟩ := hf a (b.advance m)
    rw [Buffer.remaining_advance] at hn
    exact ⟨m + n, by omega, hsecond.trans (Buffer.advance_advance m n)⟩

/-- The reads of single values take what they read, or nothing. -/
theorem Robust.advances {g : Get α} (h : g.Robust) : g.Advances := by
  intro b
  rcases hget : b.get g with ⟨e | a, after⟩
  · obtain rfl := h.restores hget
    exact ⟨0, Nat.zero_le _, Buffer.advance_zero.symm⟩
  · obtain ⟨n, hn, hafter, -⟩ := h.follows hget
    exact ⟨n, hn, hafter⟩

theorem advances_fixedBitSet (n : Nat) : (FixedBitSet.read n).Advances := by
  intro b
  show ∃ size, size ≤ b.remaining ∧ (FixedBitSet.read n b).2 = b.advance size
  rw [FixedBitSet.read]
  split
  · exact ⟨0, Nat.zero_le _, Buffer.advance_zero.symm⟩
  · rename_i hlong
    exact ⟨FixedBitSet.byteLength n, Nat.le_of_not_lt hlong, rfl⟩

end Get

/-! ## Reads -/

/-- How a read is carried out by methods of a store. -/
inductive Program : {α : Type} → Get α → Type 1
  | pure {α : Type} (a : α) : Program (Pure.pure a : Get α)
  | throw {α : Type} (e : Fault) : Program (throw e : Get α)
  | bind {α β : Type} {g : Get α} {k : α → Get β} (first : Program g) (next : ∀ a, Program (k a)) :
      Program (g >>= k)
  | ite {α : Type} {c : Prop} [Decidable c] {g h : Get α} (yes : Program g) (no : Program h) :
      Program (if c then g else h)
  | position : Program Get.position
  | take (n : Nat) : Program (Get.take n)
  | rest : Program Get.rest
  | bigEndian (width : Nat) : Program (Get.bigEndian width)
  | byte : Program Get.byte
  | bool : Program Get.bool
  | varuint (bits : Nat) : Program (Get.varuint bits)
  | text : Program Get.text
  | ascii : Program Get.ascii
  | byteArray : Program Get.byteArray
  | words (count : Nat) :
      Program (Get.take (8 * count) >>= fun bytes =>
        Pure.pure ({ words := BitSet.wordsOfBytes bytes } : BitSet))
  | fixedBitSet (n : Nat) : Program (FixedBitSet.read n)

namespace Program

/-- The methods, one after the other. -/
def op : {α : Type} → {g : Get α} → Program g → Op α
  | _, _, .pure a => Pure.pure a
  | _, _, .throw e => MonadExcept.throw e
  | _, _, .bind first next => first.op >>= fun a => (next a).op
  | _, _, @Program.ite _ c _ _ _ yes no => if c then yes.op else no.op
  | _, _, .position => Op.cursor
  | _, _, .take n => Op.read n
  | _, _, .rest => Op.readRest
  | _, _, .bigEndian width => Op.readBigEndian width
  | _, _, .byte => Op.readByte
  | _, _, .bool => Op.readBool
  | _, _, .varuint bits => Op.readVaruint bits
  | _, _, .text => Op.readText
  | _, _, .ascii => Op.readAscii
  | _, _, .byteArray => Op.readByteArray
  | _, _, .words count => Op.readWords count
  | _, _, .fixedBitSet n => Op.readFixedBitSet n

/-- **A program does what its read does**, and is never out of range. -/
theorem performs {g : Get α} (p : Program g) : p.op.Performs g := by
  induction p with
  | pure a => exact Op.performs_pure a
  | throw e => exact Op.performs_throw e
  | bind first next ihFirst ihNext => exact ihFirst.bind ihNext
  | ite yes no ihYes ihNo => exact ihYes.ite ihNo
  | position => exact Op.performs_cursor
  | take n => exact Op.performs_read n
  | rest => exact Op.performs_readRest
  | bigEndian width => exact Op.performs_readBigEndian width
  | byte => exact Op.performs_readByte
  | bool => exact Op.performs_readBool
  | varuint bits => exact Op.performs_readVaruint bits
  | text => exact Op.performs_readText
  | ascii => exact Op.performs_readAscii
  | byteArray => exact Op.performs_readByteArray
  | words count => exact Op.performs_readWords count
  | fixedBitSet n => exact Op.performs_readFixedBitSet n

/-- **A read moves the cursor** and does nothing else, whichever of its parts stops it. -/
theorem advances {g : Get α} (p : Program g) : g.Advances := by
  induction p with
  | pure | throw | position => exact Get.advances_of_stays fun _ => rfl
  | bind first next ihFirst ihNext => exact ihFirst.bind ihNext
  | @ite α c _ g h yes no ihYes ihNo =>
    split
    · exact ihYes
    · exact ihNo
  | take n => exact (Get.robust_take n).advances
  | rest => exact fun b => ⟨b.remaining, Nat.le_refl _, rfl⟩
  | bigEndian width => exact (Get.robust_bigEndian width).advances
  | byte => exact Get.robust_byte.advances
  | bool => exact Get.robust_bool.advances
  | varuint bits => exact (Get.robust_varuint bits).advances
  | text => exact Get.robust_text.advances
  | ascii => exact Get.robust_ascii.advances
  | byteArray => exact Get.robust_byteArray.advances
  | words count => exact ((Get.robust_take _).andPure _).advances
  | fixedBitSet n => exact Get.advances_fixedBitSet n

/-- A program, and what is made of its value. -/
def map {g : Get α} (p : Program g) (f : α → β) : Program (g >>= fun a => Pure.pure (f a)) :=
  .bind p fun a => .pure (f a)

def varint : Program Get.varint := (varuint 32).map fun v => v.toUInt32.toInt32

def optional {g : Get α} (p : Program g) : Program (Get.optional g) :=
  .bind .bool fun _ => .ite (p.map some) (.pure none)

end Program

/-- The program of a shape. -/
def Shape.program : (s : Shape) → Program s.get
  | .bool => .bool
  | .u8 => .byte
  | .i8 => Program.byte.map UInt8.toInt8
  | .u16 => (Program.bigEndian 2).map Nat.toUInt16
  | .i16 => (Program.bigEndian 2).map fun n => n.toUInt16.toInt16
  | .u32 => (Program.bigEndian 4).map Nat.toUInt32
  | .i32 => (Program.bigEndian 4).map fun n => n.toUInt32.toInt32
  | .u64 => (Program.bigEndian 8).map Nat.toUInt64
  | .i64 => (Program.bigEndian 8).map fun n => n.toUInt64.toInt64
  | .single => (Program.bigEndian 4).map fun n => ({ bits := n.toUInt32 } : Single)
  | .double => (Program.bigEndian 8).map fun n => ({ bits := n.toUInt64 } : Double)
  | .varshort => (Program.varuint 16).map fun v => v.toUInt16.toInt16
  | .varint => .varint
  | .varlong => (Program.varuint 64).map UInt64.toInt64
  | .varuint bits => .varuint bits
  | .text => .text
  | .ascii => .ascii
  | .byteArray => .byteArray
  | .optional inner => inner.program.optional

def BitSet.program : Program BitSet.read :=
  .bind .position fun _ => .bind .varint fun _ => .ite (.throw _) (.words _)

/-! ## Packets -/

namespace Packet

variable {P : Type} {s : GameState} {n : Int32}

/-- A string that holds a document. -/
def jsonProgram : Program getJson :=
  .bind .text fun text =>
    match Json.ofText? text with
    | some v => .pure v
    | none => .throw _

/-- The program of a part of a table, if there is a packet in it. -/
def Entry : Option (Get P) → Type 1
  | some g => Program g
  | none => PUnit

namespace Entry

def orElse : {x y : Option (Get P)} → Entry x → Entry y → Entry (x <|> y)
  | some _, _, p, _ => p
  | none, _, _, q => q

def given {g : Get P} (p : Program g) : {c : Prop} → [Decidable c] →
    Entry (if c then some g else none)
  | _, .isTrue _ => p
  | _, .isFalse _ => PUnit.unit

def ofPacket (α : Type) [Packet α] {wrap : α → P} (p : Program (Wire.get : Get α)) :
    Entry (getAs? α wrap s n) :=
  given (p.map wrap)

/-- The program where there is a packet, and another where there is none. -/
def getD {g : Get P} : {x : Option (Get P)} → Entry x → Program g → Program (x.getD g)
  | some _, p, _ => p
  | none, _, q => q

end Entry

end Packet

def Handshake.program : Program Handshake.get :=
  .bind .varint fun _ => .bind .text fun _ => .bind (.bigEndian 2) fun _ => .bind .position fun _ =>
    .bind .varint fun number =>
      match NextState.ofInt32? number with
      | some _ => .pure _
      | none => .throw _

def LoginSuccess.program : Program LoginSuccess.get :=
  .bind (.bigEndian 8) fun _ => .bind (.bigEndian 8) fun _ => Program.text.map _

def Serverbound.program? (s : GameState) (n : Int32) : Packet.Entry (Serverbound.get? s n) :=
  .orElse (.ofPacket Handshake Handshake.program) <|
  .orElse (.ofPacket StatusRequest (.pure _)) <|
  .orElse (.ofPacket StatusPing ((Program.bigEndian 8).map _)) <|
  .orElse (.ofPacket LoginStart (Program.text.map _)) <|
  .orElse (.ofPacket LoginEncryptionResponse
    (.bind .byteArray fun _ => Program.byteArray.map _)) <|
  .ofPacket LoginPluginResponse (.bind .varint fun _ => Program.rest.optional.map _)

def Clientbound.program? (s : GameState) (n : Int32) : Packet.Entry (Clientbound.get? s n) :=
  .orElse (.ofPacket StatusResponse (Packet.jsonProgram.map _)) <|
  .orElse (.ofPacket StatusPong ((Program.bigEndian 8).map _)) <|
  .orElse (.ofPacket LoginDisconnect (Packet.jsonProgram.map _)) <|
  .orElse (.ofPacket LoginEncryptionRequest
    (.bind .text fun _ => .bind .byteArray fun _ => Program.byteArray.map _)) <|
  .orElse (.ofPacket LoginSuccess LoginSuccess.program) <|
  .orElse (.ofPacket LoginSetCompression (Program.varint.map _)) <|
  .ofPacket LoginPluginRequest (.bind .varint fun _ => .bind .text fun _ => Program.rest.map _)

/-- The program of the packet at a place of a table. -/
def Direction.program? : (d : Direction) → (s : GameState) → (n : Int32) → Packet.Entry (d.get? s n)
  | .serverbound, s, n => Serverbound.program? s n
  | .clientbound, s, n => Clientbound.program? s n

/-! ## Writes -/

/-- How a piece is written by methods of a store. -/
inductive Draft : Put → Type
  | raw (bytes : List UInt8) : Draft (Put.raw bytes)
  | fail (e : Fault) : Draft (Put.fail e)
  | andThen {p q : Put} (first : Draft p) (second : Draft q) : Draft (p ++ q)
  | varuint (bits : Nat) (v : UInt64) : Draft (Put.varuint bits v)
  | text (s : String) : Draft (Put.text s)
  | ascii (s : String) : Draft (Put.ascii s)
  | byteArray (bytes : List UInt8) : Draft (Put.byteArray bytes)
  | words (words : List UInt64) :
      Draft (Put.raw (words.flatMap fun w => BigEndian.encode 8 w.toNat))

namespace Draft

/-- The methods, one after the other. -/
def op : {p : Put} → Draft p → Op Unit
  | _, raw bytes => Op.write bytes
  | _, fail e => throw e
  | _, andThen first second => do first.op; second.op
  | _, varuint bits v => Op.writeVaruint bits v
  | _, text s => Op.writeText s
  | _, ascii s => Op.writeAscii s
  | _, byteArray bytes => Op.writeByteArray bytes
  | _, words ws => Op.writeEach ws

/-- **A draft writes its piece**, up to a fault if it has one. -/
theorem writes {p : Put} (draft : Draft p) : draft.op.Writes p := by
  induction draft with
  | raw bytes => exact Op.writes_write bytes
  | fail e => exact Op.writes_throw e
  | andThen first second ihFirst ihSecond => exact ihFirst.andThen ihSecond
  | varuint bits v => exact Op.writes_writeVaruint bits v
  | text s => exact Op.writes_writeText s
  | ascii s => exact Op.writes_writeAscii s
  | byteArray bytes => exact Op.writes_writeByteArray bytes
  | words ws => exact Op.writes_writeEach ws

end Draft

/-- The draft of a value of a shape. -/
def Shape.draft : (s : Shape) → (v : s.Value) → Draft (s.put v)
  | .bool, _ => .raw _
  | .u8, _ => .raw _
  | .i8, _ => .raw _
  | .u16, _ => .raw _
  | .i16, _ => .raw _
  | .u32, _ => .raw _
  | .i32, _ => .raw _
  | .u64, _ => .raw _
  | .i64, _ => .raw _
  | .single, _ => .raw _
  | .double, _ => .raw _
  | .varshort, _ => .raw _
  | .varint, _ => .raw _
  | .varlong, _ => .raw _
  | .varuint bits, v => .varuint bits v
  | .text, v => .text v
  | .ascii, v => .ascii v
  | .byteArray, v => .byteArray v
  | .optional _, none => .raw _
  | .optional inner, some v => .andThen (.raw _) (inner.draft v)

/-- What is written once it is known to be valid. -/
def Draft.checked {p : Put} (draft : Draft p) : (validity : Except ValidationFault Unit) →
    Draft (match validity with | .error e => Put.fail (.validation e) | .ok () => p)
  | .error _ => .fail _
  | .ok () => draft

def BitSet.draft (s : BitSet) : Draft s.put :=
  .checked (.andThen (.raw _) (.words s.words)) s.validate

def FixedBitSet.draft {n : Nat} (s : FixedBitSet n) : Draft s.put :=
  .checked (.raw s.bytes) s.validate

/-- The draft of a packet. -/
def Direction.draft : (d : Direction) → (p : d.Packets) → Draft (d.payload p).put
  | .serverbound, .handshake _ =>
    .andThen (.andThen (.andThen (.raw _) (.text _)) (.raw _)) (.raw _)
  | .serverbound, .statusRequest _ => .raw []
  | .serverbound, .statusPing _ => .raw _
  | .serverbound, .loginStart _ => .text _
  | .serverbound, .loginEncryptionResponse _ => .andThen (.byteArray _) (.byteArray _)
  | .serverbound, .loginPluginResponse { data := none, .. } => .andThen (.raw _) (.raw _)
  | .serverbound, .loginPluginResponse { data := some _, .. } =>
    .andThen (.raw _) (.andThen (.raw _) (.raw _))
  | .clientbound, .statusResponse _ => .text _
  | .clientbound, .statusPong _ => .raw _
  | .clientbound, .loginDisconnect _ => .text _
  | .clientbound, .loginEncryptionRequest _ =>
    .andThen (.andThen (.text _) (.byteArray _)) (.byteArray _)
  | .clientbound, .loginSuccess _ => .andThen (.andThen (.raw _) (.raw _)) (.text _)
  | .clientbound, .loginSetCompression _ => .raw _
  | .clientbound, .loginPluginRequest _ => .andThen (.andThen (.raw _) (.text _)) (.raw _)

end PacketStream
