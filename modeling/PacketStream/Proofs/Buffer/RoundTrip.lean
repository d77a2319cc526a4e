import PacketStream.Buffer.Put
import PacketStream.Proofs.Outcome
import PacketStream.Proofs.Text.Utf8

/-!
# What is written reads back

`Put.ReadsBack` ties a piece of an encoding to its reader: wherever the piece stands, and whatever
follows it, the reader gives the value and stops just behind the piece. Pieces written one after
the other are read one after the other (`ReadsBack.append`), so the fields of a packet need only
be named in their order.

Bytes without a length in front run to the end of what there is. They read back where nothing
follows, and can only be the last piece.

The equations `Put.run_append`, `Put.run_text` and so on say what a piece comes to and when it can
be written at all.
-/

namespace PacketStream

variable {α β : Type} {n limit : Nat} {bytes : List UInt8}

theorem Limits.toInt_of_le_prefixedLength (h : n ≤ Limits.prefixedLength) :
    n.toUInt32.toInt32.toInt = n := by
  rw [Limits.prefixedLength] at h
  exact Int32.toInt_ofNat_of_lt (by omega)

namespace Put

variable {p q : Put}

/-! ## What a piece comes to -/

theorem run_raw {written : List UInt8} : (raw written).run limit = .ok bytes ↔ bytes = written := by
  rw [run_eq_ok, raw, Written.mk.injEq, and_iff_left rfl, eq_comm]

/-- Two pieces can be written together where each can. -/
theorem run_append : (p ++ q).run limit = .ok bytes ↔
    ∃ front back, p.run limit = .ok front ∧ q.run limit = .ok back ∧ bytes = front ++ back := by
  simp only [run_eq_ok, append_def, andThen]
  rcases p limit with ⟨front, _ | e⟩
  · rcases q limit with ⟨back, _ | e⟩ <;> simp [eq_comm]
  · simp

theorem append_assoc (p q r : Put) : p ++ q ++ r = p ++ (q ++ r) := by
  funext limit
  simp only [append_def, andThen]
  rcases p limit with ⟨front, _ | e⟩
  · rcases q limit with ⟨middle, _ | e⟩ <;> simp
  · rfl

theorem run_lengthOf {field : String} : (lengthOf field n).run limit = .ok bytes ↔
    n ≤ Limits.prefixedLength ∧ bytes = Varint.encode n := by
  rw [lengthOf]
  split
  · rename_i hlong
    constructor
    · intro h
      cases h
    · intro h
      omega
  · rename_i hfits
    rw [varnat, run_raw, and_iff_right (by omega)]

/-- Bytes can be written behind their number where a signed 32-bit length can tell it. -/
theorem run_counted (field : String) {written : List UInt8} :
    (lengthOf field written.length ++ raw written).run limit = .ok bytes ↔
      written.length ≤ Limits.prefixedLength ∧ bytes = Varint.encode written.length ++ written := by
  rw [run_append]
  constructor
  · intro h
    obtain ⟨front, back, hfront, hback, rfl⟩ := h
    obtain ⟨hlength, rfl⟩ := run_lengthOf.1 hfront
    obtain rfl := run_raw.1 hback
    exact ⟨hlength, rfl⟩
  · intro h
    exact ⟨_, _, run_lengthOf.2 ⟨h.1, rfl⟩, run_raw.2 rfl, h.2⟩

theorem run_byteArray {written : List UInt8} : (byteArray written).run limit = .ok bytes ↔
    written.length ≤ Limits.prefixedLength ∧ bytes = Varint.encode written.length ++ written :=
  run_counted "byte array"

/-- A string can be written where it keeps to the limit and its bytes can be counted. -/
theorem run_text {s : String} : (text s).run limit = .ok bytes ↔
    s.length ≤ limit ∧ (Utf8.encode s).length ≤ Limits.prefixedLength ∧
      bytes = Varint.encode (Utf8.encode s).length ++ Utf8.encode s := by
  have hcounted : (lengthOf "string" (Utf8.encode s).length ++ raw (Utf8.encode s)).run limit
      = .ok bytes ↔ _ := run_counted "string"
  rw [← hcounted, run_eq_ok, run_eq_ok, text]
  split
  · rename_i hlong
    constructor
    · intro h
      cases h
    · intro h
      omega
  · rename_i hfits
    rw [and_iff_right (by omega)]

/-! ## What a piece does to a buffer -/

theorem put_of_run {b : Buffer} (h : p.run b.textLimit = .ok bytes) :
    b.put p = (.ok (), b.append bytes) := by
  simp only [Buffer.put, run_eq_ok.1 h]

/-- A piece that fails at once leaves the buffer as it was. -/
theorem put_of_fail {b : Buffer} {e : Fault} (h : p b.textLimit = fail e b.textLimit) :
    b.put p = (.error e, b) := by
  simp [Buffer.put, h, fail, Buffer.append]

/-! ## Pieces that read back -/

/-- Wherever the piece is written, and whatever follows it, the reader gives the value and stops
just behind the piece. A piece that runs `toEnd` has nothing behind it. -/
def ReadsBack (p : Put) (g : Get α) (a : α) (toEnd : Bool) : Prop :=
  ∀ ⦃limit : Nat⦄ ⦃bytes : List UInt8⦄, p.run limit = .ok bytes →
    ∀ consumed tail : List UInt8, (toEnd = true → tail = []) →
      Buffer.get { consumed, unread := bytes ++ tail, textLimit := limit } g
        = (.ok a, { consumed := consumed ++ bytes, unread := tail, textLimit := limit })

variable {g : Get α} {f : α → Get β} {a : α} {b : β} {toEnd : Bool}

/-- A piece with nothing behind it is read to the end. -/
theorem ReadsBack.get_whole (h : p.ReadsBack g a toEnd) (hrun : p.run limit = .ok bytes)
    (consumed : List UInt8) :
    Buffer.get { consumed, unread := bytes, textLimit := limit } g
      = (.ok a, { consumed := consumed ++ bytes, unread := [], textLimit := limit }) := by
  have hread := h hrun consumed [] fun _ => rfl
  rwa [List.append_nil] at hread

theorem readsBack_empty (a : α) : ReadsBack empty (pure a) a false := by
  intro limit bytes h consumed tail _
  cases h
  rw [Buffer.get_pure, List.nil_append, List.append_nil]

/-- **Pieces are read in the order in which they were written.** All but the last must have an end
of their own. -/
theorem ReadsBack.append (hp : p.ReadsBack g a false) (hq : q.ReadsBack (f a) b toEnd) :
    (p ++ q).ReadsBack (g >>= f) b toEnd := by
  intro limit bytes h consumed tail htail
  obtain ⟨front, back, hfront, hback, rfl⟩ := run_append.1 h
  have hfirst := hp hfront consumed (back ++ tail) (by simp)
  have hsecond := hq hback (consumed ++ front) tail htail
  rw [List.append_assoc, Buffer.get_bind_of_ok hfirst, hsecond, List.append_assoc]

/-- What is done with the value afterwards moves nothing. -/
theorem ReadsBack.andPure (hp : p.ReadsBack g a toEnd) (hf : f a = pure b) :
    p.ReadsBack (g >>= f) b toEnd := by
  intro limit bytes h consumed tail htail
  rw [Buffer.get_bind_of_ok (hp h consumed tail htail), hf, Buffer.get_pure]

theorem ReadsBack.restoring (hp : p.ReadsBack g a toEnd) : p.ReadsBack g.restoring a toEnd := by
  intro limit bytes h consumed tail htail
  exact Buffer.get_restoring_of_ok (hp h consumed tail htail)

/-- A reader may look where it stands, as long as that makes no difference to what it reads. -/
theorem ReadsBack.afterPosition {f : Nat → Get α} (hp : ∀ offset, p.ReadsBack (f offset) a toEnd) :
    p.ReadsBack (Get.position >>= f) a toEnd := by
  intro limit bytes h consumed tail htail
  rw [Buffer.get_bind_of_ok (Buffer.get_position _)]
  exact hp _ h consumed tail htail

/-! ## Single values -/

theorem readsBack_take (written : List UInt8) :
    (raw written).ReadsBack (Get.take written.length) written false := by
  intro limit bytes h consumed tail _
  obtain rfl := run_raw.1 h
  rw [Buffer.get_take, if_neg (by simp [Buffer.remaining])]
  simp [Buffer.advance]

/-- Bytes that run to the end read back where nothing follows them. -/
theorem readsBack_rest (written : List UInt8) : (raw written).ReadsBack Get.rest written true := by
  intro limit bytes h consumed tail htail
  obtain rfl := run_raw.1 h
  obtain rfl := htail rfl
  show (Except.ok (bytes ++ []), Buffer.advance _ (bytes ++ []).length) = _
  rw [Buffer.advance, List.take_length, List.drop_length, List.append_nil]

theorem readsBack_bigEndian {width : Nat} (h : n < 256 ^ width) :
    (bigEndian width n).ReadsBack (Get.bigEndian width) n false := by
  have htake := readsBack_take (BigEndian.encode width n)
  rw [BigEndian.length_encode] at htake
  exact htake.andPure (by rw [BigEndian.decode_encode, Nat.mod_eq_of_lt h])

theorem readsBack_byte (b : UInt8) : (raw [b]).ReadsBack Get.byte b false := by
  have hnumber : (raw [b]).ReadsBack (Get.bigEndian 1) (BigEndian.decode [b]) false :=
    (readsBack_take [b]).andPure rfl
  have hvalue : (BigEndian.decode [b]).toUInt8 = b := by
    simp [BigEndian.decode, BigEndian.decodeFrom]
  exact hnumber.andPure (by rw [hvalue])

theorem readsBack_bool (v : Bool) : (bool v).ReadsBack Get.bool v false := by
  refine ReadsBack.restoring (ReadsBack.afterPosition ?_)
  intro offset
  cases v
  · exact (readsBack_byte 0).andPure rfl
  · exact (readsBack_byte 1).andPure rfl

theorem readsBack_varint (v : Int32) : (varint v).ReadsBack Get.varint v false := by
  intro limit bytes h consumed tail _
  obtain rfl := run_raw.1 h
  rw [Buffer.get_varint, Varint.decode_encode_append tail (by decide) v.toUInt32.toNat_lt]
  simp [Buffer.advance]

theorem readsBack_lengthOf (field : String) (n : Nat) :
    (lengthOf field n).ReadsBack Get.varint n.toUInt32.toInt32 false := by
  intro limit bytes h consumed tail htail
  obtain ⟨hn, rfl⟩ := run_lengthOf.1 h
  have hnat : n.toUInt32.toInt32.toUInt32.toNat = n := by
    rw [Limits.prefixedLength] at hn
    simp [Nat.toUInt32]
    omega
  have hwritten : (varint n.toUInt32.toInt32).run limit = .ok (Varint.encode n) := by
    rw [varint, varnat, run_raw, hnat]
  exact readsBack_varint _ hwritten consumed tail htail

theorem readsBack_byteArray (written : List UInt8) :
    (byteArray written).ReadsBack Get.byteArray written false := by
  intro limit bytes h
  have hlength : written.length.toUInt32.toInt32.toInt = written.length :=
    Limits.toInt_of_le_prefixedLength (run_byteArray.1 h).1
  refine ReadsBack.restoring (ReadsBack.afterPosition ?_) h
  intro offset
  refine (readsBack_lengthOf "byte array" written.length).append ?_
  dsimp only
  rw [hlength, if_neg (by omega)]
  exact readsBack_take written

/-- What the reader of a string makes of bytes behind their number. -/
theorem get_text_counted {counted : List UInt8} (hlength : counted.length ≤ Limits.prefixedLength)
    (limit : Nat) (consumed tail : List UInt8) :
    let written := Varint.encode counted.length ++ counted
    let b : Buffer := { consumed, unread := written ++ tail, textLimit := limit }
    b.get Get.text =
      if 4 * limit < counted.length then
        (.error (.malformed (.textOverBudget counted.length (4 * limit))), b)
      else match Utf8.decode counted with
        | .error refusal => (.error (.malformed (.utf8 b.position refusal)), b)
        | .ok s =>
          if limit < s.length then
            (.error (.malformed (.tooManyCharacters b.position s.length limit)), b)
          else (.ok s, { consumed := consumed ++ written, unread := tail, textLimit := limit }) := by
  intro written b
  have hint : counted.length.toUInt32.toInt32.toInt = counted.length :=
    Limits.toInt_of_le_prefixedLength hlength
  have hnumber := readsBack_lengthOf "string" counted.length
    (run_lengthOf.2 ⟨hlength, rfl⟩ : (lengthOf _ _).run limit = _) consumed (counted ++ tail)
    (by simp)
  have hbytes := readsBack_take counted (run_raw.2 rfl : (raw _).run limit = _)
    (consumed ++ Varint.encode counted.length) tail (by simp)
  rw [← List.append_assoc] at hnumber
  rw [Get.text, Buffer.get_restoring, Buffer.get_bind_of_ok (Buffer.get_position _),
    Buffer.get_bind_of_ok hnumber]
  dsimp only
  rw [Buffer.get_bind_of_ok (Buffer.get_textLimit _), hint, if_neg (by omega), Int.toNat_natCast]
  dsimp only
  by_cases hbudget : 4 * limit < counted.length
  · rw [if_pos hbudget, if_pos hbudget]
    rfl
  rw [if_neg hbudget, if_neg hbudget, Buffer.get_bind_of_ok hbytes]
  rcases Utf8.decode counted with refusal | s
  · rfl
  dsimp only
  by_cases hchars : limit < s.length
  · rw [if_pos hchars, if_pos hchars]
    rfl
  · rw [if_neg hchars, if_neg hchars, Buffer.get_pure, List.append_assoc]

/-- **A string reads back.** A character takes four bytes at most, so the string is within the
number of bytes that its reader takes at all. -/
theorem readsBack_text (s : String) : (text s).ReadsBack Get.text s false := by
  intro limit bytes h consumed tail _
  obtain ⟨hchars, hlength, rfl⟩ := run_text.1 h
  have hbudget := Utf8.length_encode_le s
  rw [get_text_counted hlength, if_neg (by omega), Utf8.decode_encode]
  dsimp only
  rw [if_neg (by omega)]

/-- **An optional value reads back** where each value does. -/
theorem readsBack_optional {put : α → Put} {value : Get α} {toEnd : Bool} (v : Option α)
    (h : ∀ a, v = some a → (put a).ReadsBack value a toEnd) :
    (optional put v).ReadsBack (Get.optional value) v (toEnd && v.isSome) := by
  cases v with
  | none =>
    rw [Option.isSome_none, Bool.and_false]
    exact (readsBack_bool false).andPure rfl
  | some a =>
    rw [Option.isSome_some, Bool.and_true]
    exact (readsBack_bool true).append ((h a rfl).andPure rfl)

end Put

end PacketStream
