import PacketStream.Buffer.Shape
import PacketStream.Proofs.Buffer.RoundTrip

/-!
# Every shape reads back

`Shape.readsBack` says of all encodings of single values at once what `Put.ReadsBack` says of a
piece: the reader of a shape gives the value that was written in it and stops just behind. There is
one exception, the varints of no bits: no reader takes any byte of those (`Shape.IsReadable`).

The induction is over shapes, and the only shape with one inside is the optional value. What the
fixed widths and the varints need is that a number of a type comes back from its bit pattern; an
ASCII string needs that its bytes are its characters, so that none of them is the zero at its end.
-/

namespace PacketStream

/-! ## ASCII strings as bytes -/

namespace Utf8

theorem encodeChar_of_lt {c : Char} (h : c.toNat < 0x80) : encodeChar c = [c.toNat.toUInt8] := by
  simp only [encodeChar]
  rw [if_pos h]

/-- An ASCII string has one byte for each character. -/
theorem flatMap_encodeChar {chars : List Char} (h : ∀ c ∈ chars, c.toNat < 0x80) :
    chars.flatMap encodeChar = chars.map fun c => c.toNat.toUInt8 := by
  induction chars with
  | nil => rfl
  | cons c chars ih =>
    have hc : c.toNat < 0x80 := h c List.mem_cons_self
    have hchars := ih fun d hd => h d (List.mem_cons_of_mem _ hd)
    rw [List.flatMap_cons, encodeChar_of_lt hc, hchars]
    rfl

/-- The characters of an ASCII string are its bytes, read as numbers. -/
theorem ofList_map_encode {s : String} (h : ∀ c ∈ s.toList, c.toNat < 0x80) :
    String.ofList ((encode s).map fun b => Char.ofNat b.toNat) = s := by
  have hback : ∀ c ∈ s.toList, Char.ofNat c.toNat.toUInt8.toNat = c := by
    intro c hc
    have hlow : c.toNat < 0x80 := h c hc
    rw [toNat_toUInt8 (by omega), Char.ofNat_toNat]
  have hchars : (encode s).map (fun b => Char.ofNat b.toNat) = s.toList := by
    calc (encode s).map (fun b => Char.ofNat b.toNat)
        = s.toList.map (fun c => Char.ofNat c.toNat.toUInt8.toNat) := by
          rw [encode, flatMap_encodeChar h, List.map_map]
          rfl
      _ = s.toList.map id := List.map_congr_left hback
      _ = s.toList := List.map_id _
  rw [hchars, String.ofList_toList]

end Utf8

namespace Put

variable {bits n : Nat}

/-! ## Varints -/

theorem readsBack_varnat (bits : Nat) (hbits : 0 < bits) (hn : n < 2 ^ min bits 64) :
    (varnat n).ReadsBack (Get.varuint bits) n.toUInt64 false := by
  intro limit bytes h consumed tail _
  obtain rfl := run_raw.1 h
  rw [Buffer.get_varuint, Varint.decode_encode_append tail hbits hn]
  simp [Buffer.advance]

/-- A varint that its width holds reads back. The writer refuses all others. -/
theorem readsBack_varuint (hbits : 0 < bits) (v : UInt64) :
    (varuint bits v).ReadsBack (Get.varuint bits) v false := by
  have hv : v.toNat.toUInt64 = v := UInt64.ofNat_toNat
  by_cases hrange : bits < 64 ∧ 2 ^ bits ≤ v.toNat
  · intro limit bytes h
    rw [varuint, if_pos hrange] at h
    cases h
  · have hfits : v.toNat < 2 ^ min bits 64 := by
      have hlt : v.toNat < 2 ^ 64 := v.toNat_lt
      by_cases hwide : bits < 64
      · have hnot : ¬ 2 ^ bits ≤ v.toNat := fun h => hrange ⟨hwide, h⟩
        rw [Nat.min_eq_left (by omega)]
        exact Nat.lt_of_not_le hnot
      · rwa [Nat.min_eq_right (by omega)]
    rw [varuint, if_neg hrange]
    have hreads := readsBack_varnat bits hbits hfits
    rwa [hv] at hreads

theorem readsBack_varshort (v : Int16) : (varshort v).ReadsBack Get.varshort v false := by
  have hreads := readsBack_varnat 16 (by decide) v.toUInt16.toNat_lt
  refine hreads.andPure ?_
  have hpattern : v.toUInt16.toNat.toUInt64.toUInt16 = v.toUInt16 := by simp [Nat.toUInt64]
  rw [hpattern, Int16.toInt16_toUInt16]

theorem readsBack_varlong (v : Int64) : (varlong v).ReadsBack Get.varlong v false := by
  have hreads := readsBack_varnat 64 (by decide) v.toUInt64.toNat_lt
  refine hreads.andPure ?_
  rw [Nat.toUInt64, UInt64.ofNat_toNat, Int64.toInt64_toUInt64]

/-! ## Strings that end with a zero byte -/

/-- The bytes of a string that can end with a zero byte are ASCII, and none is zero. -/
theorem encode_of_isZeroTerminable {s : String} (h : isZeroTerminable s = true) :
    (∀ c ∈ s.toList, c.toNat < 0x80) ∧ ∀ b ∈ Utf8.encode s, b ≠ 0 ∧ b < 128 := by
  have hchars : ∀ c ∈ s.toList, c.toNat < 0x80 ∧ c.toNat ≠ 0 := by
    simpa [isZeroTerminable] using h
  have hlow : ∀ c ∈ s.toList, c.toNat < 0x80 := fun c hc => (hchars c hc).1
  refine ⟨hlow, ?_⟩
  intro b hb
  rw [Utf8.encode, Utf8.flatMap_encodeChar hlow] at hb
  obtain ⟨c, hc, rfl⟩ := List.mem_map.1 hb
  obtain ⟨hc128, hc0⟩ := hchars c hc
  have hvalue : c.toNat.toUInt8.toNat = c.toNat := Utf8.toNat_toUInt8 (by omega)
  rw [Ne, ← UInt8.toNat_inj, UInt8.lt_iff_toNat_lt, hvalue]
  exact ⟨hc0, hc128⟩

/-- **An ASCII string reads back.** None of its bytes is zero, so its reader finds the zero at its
end, whatever comes behind that. -/
theorem readsBack_ascii (s : String) : (ascii s).ReadsBack Get.ascii s false := by
  intro limit bytes h consumed tail _
  by_cases hterminable : isZeroTerminable s = true
  · rw [ascii, if_pos hterminable, run_raw] at h
    subst h
    obtain ⟨hchars, hbytes⟩ := encode_of_isZeroTerminable hterminable
    have hnonzero : ∀ b ∈ Utf8.encode s, (b != 0) = true := by
      intro b hb
      simpa using (hbytes b hb).1
    have hall : (Utf8.encode s).all (· < 128) = true := by
      simpa using fun b hb => (hbytes b hb).2
    have hlength : (Utf8.encode s).length + 1 = (Utf8.encode s ++ [0]).length := by simp
    rw [Buffer.get_ascii_of_zero hnonzero (List.append_assoc _ _ tail), if_pos hall,
      Utf8.ofList_map_encode hchars, hlength, Buffer.advance, List.take_left, List.drop_left]
  · rw [ascii, if_neg hterminable] at h
    cases h

end Put

/-! ## All shapes -/

namespace Shape

/-- Whether a reader takes any bytes of the shape: a varint needs a width. -/
def IsReadable : Shape → Prop
  | varuint bits => 0 < bits
  | optional inner => inner.IsReadable
  | _ => True

instance decidableIsReadable : (s : Shape) → Decidable s.IsReadable
  | varuint bits => inferInstanceAs (Decidable (0 < bits))
  | optional inner => decidableIsReadable inner
  | bool | u8 | i8 | u16 | i16 | u32 | i32 | u64 | i64 | single | double | varshort | varint
  | varlong | text | ascii | byteArray => .isTrue trivial

/-- A number of a type comes back from its bit pattern. -/
theorem readsBack_pattern {α : Type} {width n : Nat} {f : Nat → α} {v : α} (hn : n < 256 ^ width)
    (hf : f n = v) :
    (Put.bigEndian width n).ReadsBack (do return f (← Get.bigEndian width)) v false :=
  (Put.readsBack_bigEndian hn).andPure (by rw [hf])

/-- **Every shape reads back**, wherever it is written and whatever follows. -/
theorem readsBack (s : Shape) (h : s.IsReadable) (v : s.Value) :
    (s.put v).ReadsBack s.get v false := by
  induction s with
  | bool => exact Put.readsBack_bool v
  | u8 => exact readsBack_pattern v.toNat_lt UInt8.ofNat_toNat
  | i8 =>
    have hbyte : (Put.bigEndian 1 v.toUInt8.toNat).ReadsBack Get.byte v.toUInt8 false :=
      readsBack_pattern v.toUInt8.toNat_lt UInt8.ofNat_toNat
    exact hbyte.andPure (by rw [Int8.toInt8_toUInt8])
  | u16 => exact readsBack_pattern v.toNat_lt UInt16.ofNat_toNat
  | i16 => exact readsBack_pattern v.toUInt16.toNat_lt (by simp [Nat.toUInt16])
  | u32 => exact readsBack_pattern v.toNat_lt UInt32.ofNat_toNat
  | i32 => exact readsBack_pattern v.toUInt32.toNat_lt (by simp [Nat.toUInt32])
  | u64 => exact readsBack_pattern v.toNat_lt UInt64.ofNat_toNat
  | i64 => exact readsBack_pattern v.toUInt64.toNat_lt (by simp [Nat.toUInt64])
  | single => exact readsBack_pattern v.bits.toNat_lt (by simp [Nat.toUInt32])
  | double => exact readsBack_pattern v.bits.toNat_lt (by simp [Nat.toUInt64])
  | varshort => exact Put.readsBack_varshort v
  | varint => exact Put.readsBack_varint v
  | varlong => exact Put.readsBack_varlong v
  | varuint bits => exact Put.readsBack_varuint h v
  | text => exact Put.readsBack_text v
  | ascii => exact Put.readsBack_ascii v
  | byteArray => exact Put.readsBack_byteArray v
  | optional inner ih =>
    exact Put.readsBack_optional v fun a _ => ih h a

end Shape

end PacketStream
