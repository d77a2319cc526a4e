import PacketStream.Bits.FixedBitSet

/-!
# Integers in fixed bit sets

`ofInt` makes a set of an integer of 128 bits by one copy: a set that is too narrow takes its lowest
bytes, and a wider one continues it by its sign. `bytes_ofInt_of_le` and `bytes_ofInt_of_ge` are the
bytes on either side of 16. Both come to the integer modulo what the bytes hold (`decode_ofInt`), so the
bytes are the two's complement of that width (`bytes_ofInt`) and read as a signed number they are the
integer again if it has room there.
-/

namespace PacketStream

/-! ## Numbers in parts -/

namespace BigEndian

theorem decode_append (high low : List UInt8) :
    decode (high ++ low) = decode high * 256 ^ low.length + decode low := by
  induction high with
  | nil => simp [decode, decodeFrom]
  | cons b high ih =>
    rw [List.cons_append, decode_cons, decode_cons, ih, List.length_append, Nat.pow_add, Nat.add_mul,
      Nat.mul_assoc, Nat.add_assoc]

theorem decode_replicate_zero (count : Nat) : decode (List.replicate count 0) = 0 := by
  induction count with
  | zero => rfl
  | succ count ih => rw [List.replicate_succ, decode_cons, ih, UInt8.toNat_zero, Nat.zero_mul]

/-- Bytes of ones are one short of the next power. -/
theorem decode_replicate_max (count : Nat) : decode (List.replicate count 255) + 1 = 256 ^ count := by
  induction count with
  | zero => rfl
  | succ count ih =>
    have hbyte : (255 : UInt8).toNat = 255 := rfl
    rw [List.replicate_succ, decode_cons, List.length_replicate, hbyte, Nat.pow_succ]
    omega

/-- The last bytes of a number are those of the number cut to them. -/
theorem drop_encode (front width n : Nat) : (encode (front + width) n).drop front = encode width n := by
  induction front with
  | zero => rw [Nat.zero_add, List.drop_zero]
  | succ front ih => rw [Nat.add_right_comm, encode, List.drop_succ_cons, ih]

end BigEndian

namespace FixedBitSet

open BigEndian

variable {n : Nat}

/-! ## The copy -/

theorem intBytes_toInt (value : BitVec 128) : intBytes value.toInt = encode 16 value.toNat := by
  rw [intBytes, BitVec.ofInt_toInt]

/-- The copy always succeeds, and makes the set. -/
theorem fitted?_eq_bytes (n : Nat) (value : Int) : fitted? n value = some (ofInt n value).bytes :=
  (Option.some_get _).symm

/-- A set of at most 16 bytes has the last bytes of the integer. -/
theorem bytes_ofInt_of_le (value : Int) (h : byteLength n ≤ 16) :
    (ofInt n value).bytes = (intBytes value).drop (16 - byteLength n) := by
  have hbytes := fitted?_eq_bytes n value
  rw [fitted?_eq_some, takenLength, Nat.min_eq_left h, Nat.sub_self, Option.some_inj] at hbytes
  exact hbytes.symm

/-- A set of at least 16 bytes has all bytes of the integer, and bytes of its sign in front. -/
theorem bytes_ofInt_of_ge (value : Int) (h : 16 ≤ byteLength n) :
    (ofInt n value).bytes
      = List.replicate (byteLength n - 16) (signByte value) ++ intBytes value := by
  have hbytes := fitted?_eq_bytes n value
  rw [fitted?_eq_some, takenLength, Nat.min_eq_right h, Nat.sub_self, List.drop_zero,
    Option.some_inj] at hbytes
  exact hbytes.symm

/-! ## The number that the bytes hold -/

/-- The bits of an integer as a number. -/
theorem toNat_eq_emod {width : Nat} (value : BitVec width) :
    (value.toNat : Int) = value.toInt % (2 ^ width : Nat) := by
  rw [BitVec.toInt_eq_toNat_bmod, Int.bmod_emod, ← Int.natCast_emod, Nat.mod_eq_of_lt value.isLt]

/-- Bytes that are cut off are multiples of the narrower modulus. -/
theorem decode_ofInt_of_le (value : BitVec 128) (h : byteLength n ≤ 16) :
    (decode (ofInt n value.toInt).bytes : Int) = value.toInt % (256 ^ byteLength n : Nat) := by
  have hdrop := drop_encode (16 - byteLength n) (byteLength n) value.toNat
  rw [Nat.sub_add_cancel h] at hdrop
  have hdvd : ((256 ^ byteLength n : Nat) : Int) ∣ (2 ^ 128 : Nat) :=
    Int.natCast_dvd_natCast.2 (Nat.pow_dvd_pow 256 h)
  rw [bytes_ofInt_of_le _ h, intBytes_toInt, hdrop, decode_encode, Int.natCast_emod, toNat_eq_emod,
    Int.emod_emod_of_dvd _ hdvd]

/-- Bytes of the sign in front add what the wider modulus does. -/
theorem decode_ofInt_of_ge (value : BitVec 128) (h : 16 ≤ byteLength n) :
    (decode (ofInt n value.toInt).bytes : Int) = value.toInt % (256 ^ byteLength n : Nat) := by
  have hlt := value.isLt
  have hcond := value.toInt_eq_toNat_cond
  have hwidth : 256 ^ byteLength n = 256 ^ (byteLength n - 16) * 256 ^ 16 := by
    rw [← Nat.pow_add, Nat.sub_add_cancel h]
  have hfront : 0 < 256 ^ (byteLength n - 16) := Nat.pow_pos (by decide)
  have hlow : value.toNat % 256 ^ 16 = value.toNat := Nat.mod_eq_of_lt hlt
  rw [bytes_ofInt_of_ge _ h, decode_append, length_intBytes, intBytes_toInt, decode_encode, hlow,
    hwidth, signByte]
  by_cases hneg : value.toInt < 0
  · have hones := decode_replicate_max (byteLength n - 16)
    rw [if_pos hneg, ← Int.add_emod_right, Int.emod_eq_of_lt (by omega) (by omega)]
    split at hcond <;> omega
  · rw [if_neg hneg, decode_replicate_zero, Int.emod_eq_of_lt (by omega) (by omega)]
    split at hcond <;> omega

/-- **The bytes are the integer modulo what they hold**, be it cut or continued. -/
theorem decode_ofInt (n : Nat) (value : BitVec 128) :
    (decode (ofInt n value.toInt).bytes : Int) = value.toInt % 256 ^ byteLength n := by
  rw [show (256 : Int) ^ byteLength n = (256 ^ byteLength n : Nat) from (Int.natCast_pow 256 _).symm]
  rcases Nat.le_total (byteLength n) 16 with h | h
  · exact decode_ofInt_of_le value h
  · exact decode_ofInt_of_ge value h

/-- The bytes are those of the number that they hold, and of no other. -/
theorem bytes_ofInt (n : Nat) (value : BitVec 128) :
    (ofInt n value.toInt).bytes
      = encode (byteLength n) (value.toInt % 256 ^ byteLength n).toNat := by
  have hencode := encode_decode (ofInt n value.toInt).bytes
  rw [(ofInt n value.toInt).length_bytes] at hencode
  rw [← decode_ofInt, Int.toNat_natCast, hencode]

/-! ## The signed number that the bytes hold -/

/-- The bytes as a signed number. -/
def signed (s : FixedBitSet n) : Int := (BitVec.ofNat (8 * byteLength n) (decode s.bytes)).toInt

theorem signed_ofInt (n : Nat) (value : BitVec 128) :
    (ofInt n value.toInt).signed = value.toInt.bmod (2 ^ (8 * byteLength n)) := by
  have hpow : (2 : Int) ^ (8 * byteLength n) = 256 ^ byteLength n := Int.pow_mul
  rw [signed, BitVec.toInt_ofNat', decode_ofInt, ← hpow]
  exact Int.emod_bmod _ _

/-- **An integer is read back if it has room**, in the range of signed numbers of that width. -/
theorem signed_ofInt_eq_iff (value : BitVec 128) (h : 0 < byteLength n) :
    (ofInt n value.toInt).signed = value.toInt ↔
      -(2 ^ (8 * byteLength n - 1)) ≤ value.toInt ∧ value.toInt < 2 ^ (8 * byteLength n - 1) := by
  constructor
  · intro hsame
    rw [← hsame]
    exact ⟨BitVec.le_toInt _, BitVec.toInt_lt⟩
  · intro hrange
    rw [signed_ofInt, ← BitVec.toInt_ofInt]
    exact BitVec.toInt_ofInt_eq_self (by omega) hrange.1 hrange.2

/-- Sixteen bytes have room for every integer. -/
theorem signed_ofInt_of_ge (value : BitVec 128) (h : 16 ≤ byteLength n) :
    (ofInt n value.toInt).signed = value.toInt := by
  have hpow : (2 : Int) ^ 127 ≤ 2 ^ (8 * byteLength n - 1) := by
    have hnat : 2 ^ 127 ≤ 2 ^ (8 * byteLength n - 1) :=
      Nat.pow_le_pow_right (by decide) (by omega)
    exact_mod_cast hnat
  have hlow := value.le_toInt
  have hhigh := value.toInt_lt
  refine (signed_ofInt_eq_iff value (by omega)).2 ⟨?_, ?_⟩
  · omega
  · omega

/-- **A set of an integer is its two's complement at every width.** Let an integer of 128 bits be put
into a set of any number of bits. The bytes taken of it are no more than it has and no more than the set
has, and the copy that makes the set succeeds. As a number without a sign, most significant byte first,
the bytes of the set are the integer modulo what so many bytes hold. A set of at most 16 bytes has the
last bytes of the integer; a wider one has all of them, with bytes in front that repeat its sign. Read as
a signed number, the bytes are the integer again if and only if it lies in the range of signed numbers of
their width, unless there are none; with 16 bytes or more it always does. -/
theorem ofInt_twosComplement (n : Nat) (value : BitVec 128) :
    let v := value.toInt
    let s := ofInt n v
    let size := byteLength n
    (takenLength n ≤ size ∧ takenLength n ≤ 16 ∧ fitted? n v = some s.bytes) ∧
    (decode s.bytes : Int) = v % 2 ^ (8 * size) ∧
    (size ≤ 16 → s.bytes = (intBytes v).drop (16 - size)) ∧
    (16 < size → s.bytes = List.replicate (size - 16) (if v < 0 then 255 else 0) ++ intBytes v) ∧
    (0 < size → (s.signed = v ↔ -(2 ^ (8 * size - 1)) ≤ v ∧ v < 2 ^ (8 * size - 1))) ∧
    (16 ≤ size → s.signed = v) := by
  intro v s size
  obtain ⟨hset, hint⟩ := takenLength_le n
  have hpow : (2 : Int) ^ (8 * size) = 256 ^ size := Int.pow_mul
  refine ⟨⟨hset, hint, fitted?_eq_bytes n v⟩, ?_, bytes_ofInt_of_le v,
    fun h => bytes_ofInt_of_ge v (Nat.le_of_lt h), signed_ofInt_eq_iff value,
    signed_ofInt_of_ge value⟩
  rw [hpow]
  exact decode_ofInt n value

/-- Twelve bits take two bytes, which hold the least number of 16 bits but not the one behind the
largest. The least number of all takes 16 bytes, and in a set of 129 bits a byte of its sign in front. A
set of no bits has no bytes, whatever the integer. -/
theorem ofInt_twosComplement_extremes :
    let least := BitVec.intMin 128
    (ofInt 12 (-32768)).signed = -32768 ∧ (ofInt 12 32768).signed ≠ 32768 ∧
      decode (ofInt 12 32768).bytes = 32768 ∧
      (ofInt 129 least.toInt).bytes = 255 :: 128 :: List.replicate 15 0 ∧
      (ofInt 129 least.toInt).signed = least.toInt ∧ decode (ofInt 0 least.toInt).bytes = 0 := by
  intro least
  obtain ⟨-, -, -, -, hlow, -⟩ := ofInt_twosComplement 12 (BitVec.ofInt 128 (-32768))
  obtain ⟨-, hnumber, -, -, hhigh, -⟩ := ofInt_twosComplement 12 32768#128
  obtain ⟨-, -, -, hbytes, -, hwide⟩ := ofInt_twosComplement 129 least
  obtain ⟨-, hnone, -⟩ := ofInt_twosComplement 0 least
  refine ⟨(hlow (by decide)).2 ⟨by decide, by decide⟩, fun h => ?_, ?_,
    (hbytes (by decide)).trans (by decide), hwide (by decide), ?_⟩
  · exact absurd ((hhigh (by decide)).1 h).2 (by decide)
  · exact Int.ofNat_inj.1 hnumber
  · exact Int.ofNat_inj.1 hnone

end FixedBitSet

end PacketStream
