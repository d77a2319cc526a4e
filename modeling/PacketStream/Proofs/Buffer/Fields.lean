import Mathlib
import PacketStream.Proofs.Buffer.Text
import PacketStream.Proofs.Varint.Language

/-!
# Fields and their forms

Of what stands on the wire only the varints have more than one form: a number may have zero groups
behind it. A `WireField` is a varint, or bytes that can be written in one way only.
`WireField.Spells` relates fields to all the bytes that a reader takes for them, and to the forms of
the varints there.

`Spells.encode_eq_iff` is the law of this relation: what is written for the fields is the shortest
of their spellings, and the only one in which every varint is minimal. `Buffer.Took` says of a read
that it took a spelling of some fields and that these can be written again. It is closed under
reading one thing after the other, so it need only be proved for single values.
-/

namespace PacketStream

/-! ## Varints -/

namespace Varint

variable {form : List UInt8} {n : Nat}

/-- No form of the same number is shorter. -/
def IsMinimal (form : List UInt8) : Prop :=
  ∀ n other, Denotes form n → Denotes other n → form.length ≤ other.length

theorem Denotes.length_le (h : Denotes form n) : (encode n).length ≤ form.length := by
  rw [length_encode]
  exact length_le_of_decode (show 0 < 32 by decide) h

theorem Denotes.lt (h : Denotes form n) : n < 2 ^ 32 :=
  (decode_bounds (show 0 < 32 by decide) h).2.2

theorem denotes_encode (h : n < 2 ^ 32) : Denotes (encode n) n := by
  have hdecode : decode 32 (encode n ++ []) = .ok (some (n, length n)) :=
    decode_encode_append [] (by decide) h
  rw [List.append_nil] at hdecode
  rw [Denotes, hdecode, length_encode]

/-- **The minimal form of a number is the one that is written.** -/
theorem Denotes.isMinimal_iff (h : Denotes form n) : IsMinimal form ↔ form = encode n := by
  constructor
  · intro hminimal
    have hle := hminimal n (encode n) h (denotes_encode h.lt)
    have hlength : form.length = length n := by
      rw [← length_encode]
      exact Nat.le_antisymm hle h.length_le
    have hdecode : decode 32 form = .ok (some (n, length n)) := by rwa [Denotes, hlength] at h
    rw [← take_eq_encode (by decide) (by decide) hdecode, ← hlength, List.take_length]
  · rintro rfl n' other hform hother
    obtain ⟨-, rfl, -⟩ := h.append_inj hform (rfl : encode n ++ [] = encode n ++ [])
    exact hother.length_le

/-- A signed number keeps the bits of the number that was read. -/
theorem toNat_signed (h : n < 2 ^ 32) : n.toUInt64.toUInt32.toInt32.toUInt32.toNat = n := by
  simp [Nat.toUInt64]
  omega

/-- The upper half of the numbers of 32 bits are the negative ones. -/
theorem toInt_signed (number : Int32) :
    number.toInt = if 2 * number.toUInt32.toNat < 2 ^ 32 then (number.toUInt32.toNat : Int)
      else number.toUInt32.toNat - (2 ^ 32 : Nat) :=
  BitVec.toInt_eq_toNat_cond number.toBitVec

end Varint

/-! ## Spellings -/

/-- A field on the wire. -/
inductive WireField where
  /-- A varint of 32 bits: a number, or the length of what follows. -/
  | varint (n : Nat)
  /-- Bytes that have no other form. -/
  | plain (bytes : List UInt8)
deriving DecidableEq, Repr

namespace WireField

/-- What is written for fields. -/
def encode : List WireField → List UInt8
  | [] => []
  | varint n :: fields => Varint.encode n ++ encode fields
  | plain bytes :: fields => bytes ++ encode fields

/-- What a reader takes for fields: each varint may have any form. The forms are listed. -/
inductive Spells : List WireField → List (List UInt8) → List UInt8 → Prop
  | nil : Spells [] [] []
  | varint {n : Nat} {form bytes : List UInt8} {fields : List WireField} {forms : List (List UInt8)}
      (denotes : Varint.Denotes form n) (later : Spells fields forms bytes) :
      Spells (varint n :: fields) (form :: forms) (form ++ bytes)
  | plain {these bytes : List UInt8} {fields : List WireField} {forms : List (List UInt8)}
      (later : Spells fields forms bytes) :
      Spells (plain these :: fields) forms (these ++ bytes)

variable {fields fields' : List WireField} {forms forms' : List (List UInt8)}
  {bytes bytes' : List UInt8}

theorem encode_append (fields fields' : List WireField) :
    encode (fields ++ fields') = encode fields ++ encode fields' := by
  induction fields with
  | nil => rfl
  | cons field fields ih =>
    cases field with
    | varint n => rw [List.cons_append, encode, encode, ih, List.append_assoc]
    | plain these => rw [List.cons_append, encode, encode, ih, List.append_assoc]

theorem Spells.append (h : Spells fields forms bytes) (h' : Spells fields' forms' bytes') :
    Spells (fields ++ fields') (forms ++ forms') (bytes ++ bytes') := by
  induction h with
  | nil => exact h'
  | varint denotes later ih =>
    rw [List.append_assoc]
    exact .varint denotes ih
  | plain later ih =>
    rw [List.append_assoc]
    exact .plain ih

/-- What is written is never longer than what was read. -/
theorem Spells.length_encode_le (h : Spells fields forms bytes) :
    (encode fields).length ≤ bytes.length := by
  induction h with
  | nil => exact Nat.le_refl _
  | varint denotes later ih =>
    rw [encode, List.length_append, List.length_append]
    exact Nat.add_le_add denotes.length_le ih
  | plain later ih =>
    rw [encode, List.length_append, List.length_append]
    exact Nat.add_le_add_left ih _

/-- **What is written is what was read, if and only if every varint was minimal.** -/
theorem Spells.encode_eq_iff (h : Spells fields forms bytes) :
    encode fields = bytes ↔ ∀ form ∈ forms, Varint.IsMinimal form := by
  induction h with
  | nil => simp [encode]
  | @varint n form bytes fields forms denotes later ih =>
    rw [encode, List.forall_mem_cons, denotes.isMinimal_iff, ← ih]
    constructor
    · intro heq
      have hwritten := Varint.denotes_encode denotes.lt
      obtain ⟨hform, -, hlater⟩ := hwritten.append_inj denotes heq
      exact ⟨hform.symm, hlater⟩
    · rintro ⟨hform, hlater⟩
      rw [hlater, ← hform]
  | plain later ih => rw [encode, List.append_cancel_left_eq, ih]

/-! ### Fields of values -/

/-- The two's complement of a number. -/
def ofInt32 (v : Int32) : WireField := .varint v.toUInt32.toNat

/-- A number of fixed width. -/
def fixed (width n : Nat) : WireField := .plain (BigEndian.encode width n)

/-- A flag. -/
def flag (v : Bool) : WireField := .plain [if v then 1 else 0]

/-- Bytes behind their number. -/
def counted (bytes : List UInt8) : List WireField := [.varint bytes.length, .plain bytes]

/-- A flag and, where there are any, bytes to the end of the body. -/
def flagged : Option (List UInt8) → List WireField
  | none => [flag false]
  | some bytes => [flag true, .plain bytes]

/-- A string. -/
def ofText (s : String) : List WireField := counted (Utf8.encode s)

end WireField

/-! ## Reads -/

namespace Buffer

open WireField

variable {α : Type} {b mid after : Buffer} {p q : Put} {fields fields' : List WireField}

/-- What was read from one buffer to the other is a spelling of the fields. -/
structure Passed (b after : Buffer) (fields : List WireField) : Prop where
  textLimit : after.textLimit = b.textLimit
  spelled : ∃ taken forms, b.unread = taken ++ after.unread ∧
    after.consumed = b.consumed ++ taken ∧ Spells fields forms taken

/-- And the piece can be written in its place: it comes to just these fields. -/
structure Took (b after : Buffer) (p : Put) (fields : List WireField) : Prop
    extends Passed b after fields where
  writes : p.run b.textLimit = .ok (encode fields)

theorem took_nothing (b : Buffer) : b.Took b Put.empty [] where
  textLimit := rfl
  spelled := ⟨[], [], rfl, (List.append_nil _).symm, .nil⟩
  writes := rfl

theorem Passed.append (h : b.Passed mid fields) (h' : mid.Passed after fields') :
    b.Passed after (fields ++ fields') where
  textLimit := h'.textLimit.trans h.textLimit
  spelled := by
    obtain ⟨taken, forms, hunread, hconsumed, hspells⟩ := h.spelled
    obtain ⟨taken', forms', hunread', hconsumed', hspells'⟩ := h'.spelled
    refine ⟨taken ++ taken', forms ++ forms', ?_, ?_, hspells.append hspells'⟩
    · rw [hunread, hunread', List.append_assoc]
    · rw [hconsumed', hconsumed, List.append_assoc]

/-- **What is read one after the other is written one after the other.** -/
theorem Took.append (h : b.Took mid p fields) (h' : mid.Took after q fields') :
    b.Took after (p ++ q) (fields ++ fields') where
  toPassed := h.toPassed.append h'.toPassed
  writes := by
    rw [encode_append]
    exact Put.run_append.2 ⟨_, _, h.writes, h.textLimit ▸ h'.writes, rfl⟩

/-! ### Single values -/

theorem took_plain {taken : List UInt8} (hlimit : after.textLimit = b.textLimit)
    (hunread : b.unread = taken ++ after.unread)
    (hconsumed : after.consumed = b.consumed ++ taken) :
    b.Took after (Put.raw taken) [.plain taken] where
  textLimit := hlimit
  spelled := by
    have hspells : Spells [.plain taken] [] (taken ++ []) := .plain .nil
    rw [List.append_nil] at hspells
    exact ⟨taken, [], hunread, hconsumed, hspells⟩
  writes := by
    rw [encode, encode, List.append_nil]
    rfl

theorem took_take {n : Nat} {taken : List UInt8} (h : b.get (Get.take n) = (.ok taken, after)) :
    b.Took after (Put.raw taken) [.plain taken] := by
  rw [get_take] at h
  split at h
  · cases h
  · cases h
    exact took_plain rfl (List.take_append_drop n b.unread).symm rfl

theorem took_rest {taken : List UInt8} (h : b.get Get.rest = (.ok taken, after)) :
    b.Took after (Put.raw taken) [.plain taken] := by
  have hrest : b.get Get.rest = (.ok b.unread, b.advance b.remaining) := rfl
  rw [hrest] at h
  cases h
  refine took_plain rfl ?_ ?_
  · simp [advance, remaining]
  · simp [advance, remaining]

theorem took_bigEndian {width n : Nat} (h : b.get (Get.bigEndian width) = (.ok n, after)) :
    b.Took after (Put.bigEndian width n) [fixed width n] := by
  obtain ⟨taken, mid, htake, hn⟩ := get_bind_ok h
  cases hn
  have hbytes : BigEndian.encode width (BigEndian.decode taken) = taken := by
    rw [← length_of_get_take htake, BigEndian.encode_decode]
  rw [Put.bigEndian, fixed, hbytes]
  exact took_take htake

theorem lt_of_get_bigEndian {width n : Nat} (h : b.get (Get.bigEndian width) = (.ok n, after)) :
    n < 256 ^ width := by
  obtain ⟨taken, mid, htake, hn⟩ := get_bind_ok h
  cases hn
  rw [← length_of_get_take htake]
  exact BigEndian.decode_lt taken

theorem took_byte {v : UInt8} (h : b.get Get.byte = (.ok v, after)) :
    b.Took after (Put.raw [v]) [.plain [v]] := by
  obtain ⟨number, mid, hnumber, hv⟩ := get_bind_ok h
  cases hv
  have hencode : BigEndian.encode 1 number = [number.toUInt8] := by simp [BigEndian.encode]
  have htook := took_bigEndian hnumber
  rw [Put.bigEndian, fixed, hencode] at htook
  exact htook

theorem took_bool {v : Bool} (h : b.get Get.bool = (.ok v, after)) :
    b.Took after (Put.bool v) [flag v] := by
  obtain ⟨offset, _, hoffset, hget⟩ := get_bind_ok (get_of_restoring h)
  cases hoffset
  obtain ⟨byte, mid, hbyte, hget⟩ := get_bind_ok hget
  split at hget
  · cases hget
    subst byte
    exact took_byte hbyte
  split at hget
  · cases hget
    subst byte
    exact took_byte hbyte
  · cases hget

theorem took_varint {v : Int32} (h : b.get Get.varint = (.ok v, after)) :
    b.Took after (Put.varint v) [ofInt32 v] := by
  rw [get_varint] at h
  rcases hdecode : Varint.decode 32 b.unread with refusal | (_ | ⟨value, size⟩) <;>
    rw [hdecode] at h
  · cases h
  · cases h
  · cases h
    have hvalue : value.toUInt64.toUInt32.toInt32.toUInt32.toNat = value :=
      Varint.toNat_signed (Varint.decode_bounds (by decide) hdecode).2.2
    have hspells := Spells.varint (Varint.denotes_take hdecode) .nil
    rw [List.append_nil] at hspells
    have hfield : ofInt32 value.toUInt64.toUInt32.toInt32 = .varint value := by
      rw [ofInt32, hvalue]
    have hpassed : b.Passed (b.advance size) [.varint value] :=
      ⟨rfl, _, _, (List.take_append_drop size b.unread).symm, rfl, hspells⟩
    rw [hfield]
    refine ⟨hpassed, ?_⟩
    rw [encode, encode, List.append_nil, Put.varint, Put.varnat, hvalue]
    rfl

/-- A length that is not negative is written as it was read. -/
theorem ofInt32_of_nonneg {number : Int32} (h : ¬ number.toInt < 0) :
    ofInt32 number = .varint number.toInt.toNat := by
  have hcases := Varint.toInt_signed number
  have hlt := number.toUInt32.toNat_lt
  rw [ofInt32]
  congr 1
  split at hcases <;> omega

/-- Bytes behind their number. -/
theorem passed_counted {number : Int32} {taken : List UInt8}
    (hnumber : b.get Get.varint = (.ok number, mid)) (hnonneg : ¬ number.toInt < 0)
    (htake : mid.get (Get.take number.toInt.toNat) = (.ok taken, after)) :
    b.Passed after (counted taken) := by
  have hpassed := (took_varint hnumber).toPassed.append (took_take htake).toPassed
  rw [ofInt32_of_nonneg hnonneg, ← length_of_get_take htake] at hpassed
  exact hpassed

theorem took_byteArray {bytes : List UInt8} (h : b.get Get.byteArray = (.ok bytes, after)) :
    b.Took after (Put.byteArray bytes) (counted bytes) := by
  obtain ⟨offset, _, hoffset, hget⟩ := get_bind_ok (get_of_restoring h)
  cases hoffset
  obtain ⟨number, mid, hnumber, hget⟩ := get_bind_ok hget
  dsimp only at hget
  split at hget
  · cases hget
  rename_i hnonneg
  refine ⟨passed_counted hnumber hnonneg hget, ?_⟩
  rw [Put.run_byteArray, counted, encode, encode, encode, List.append_nil]
  exact ⟨length_le_of_get_take hget, rfl⟩

/-- A string has one form in UTF-8, so only its length may be written otherwise. -/
theorem took_text {s : String} (h : b.get Get.text = (.ok s, after)) :
    b.Took after (Put.text s) (ofText s) := by
  obtain ⟨hchars, hbytes⟩ := fits_of_get_text h
  obtain ⟨number, mid, taken, hnumber, hnonneg, htake, hdecode, -⟩ := get_text_ok h
  refine ⟨?_, ?_⟩
  · rw [ofText, Utf8.encode_of_decode hdecode]
    exact passed_counted hnumber hnonneg htake
  · rw [Put.run_text, ofText, counted, encode, encode, encode, List.append_nil]
    exact ⟨hchars, hbytes, rfl⟩

/-- Bytes to the end, where a flag says that there are any. -/
theorem took_flagged {data : Option (List UInt8)}
    (h : b.get (Get.optional Get.rest) = (.ok data, after)) :
    b.Took after (Put.optional Put.raw data) (flagged data) := by
  obtain ⟨isSome, _, hflag, h⟩ := get_bind_ok h
  cases isSome
  · cases h
    exact took_bool hflag
  · obtain ⟨bytes, _, hbytes, h⟩ := get_bind_ok h
    cases h
    exact (took_bool hflag).append (took_rest hbytes)

end Buffer

end PacketStream
