/-!
# Big-endian numbers

A number as a fixed count of bytes, most significant first. `decode_encode` says that reading gives
the number back modulo the width, and `encode_decode` that the bytes are determined by the number.

Widths and groups of digits are powers of numbers with natural exponents. A library of algebra has
powers of its own for these numbers; within this library they are always the core's, so a formula
means the same wherever it stands.
-/

namespace PacketStream

attribute [scoped instance (high)] instPowNat

namespace BigEndian

/-- The `width` low bytes of `n`, most significant first. -/
def encode : (width : Nat) → (n : Nat) → List UInt8
  | 0, _ => []
  | width + 1, n => (n / 256 ^ width).toUInt8 :: encode width n

/-- The number whose digits to the base 256 are the bytes, after the leading digits `high`. -/
def decodeFrom (high : Nat) : List UInt8 → Nat
  | [] => high
  | b :: rest => decodeFrom (256 * high + b.toNat) rest

/-- The number whose digits to the base 256 are the bytes, most significant first. -/
def decode (bytes : List UInt8) : Nat := decodeFrom 0 bytes

@[simp] theorem length_encode (width n : Nat) : (encode width n).length = width := by
  induction width with
  | zero => rfl
  | succ width ih => simp [encode, ih]

/-- Byte `k` has the digit of `256 ^ (width - 1 - k)`. -/
theorem getElem?_encode {width k : Nat} (hk : k < width) (n : Nat) :
    (encode width n)[k]? = some (n / 256 ^ (width - 1 - k)).toUInt8 := by
  induction width generalizing k with
  | zero => exact absurd hk (Nat.not_lt_zero k)
  | succ width ih =>
    cases k with
    | zero => rfl
    | succ k =>
      rw [encode, List.getElem?_cons_succ, ih (Nat.lt_of_succ_lt_succ hk)]
      congr 4
      omega

theorem decodeFrom_eq (high : Nat) (bytes : List UInt8) :
    decodeFrom high bytes = high * 256 ^ bytes.length + decode bytes := by
  induction bytes generalizing high with
  | nil => simp [decodeFrom, decode]
  | cons b rest ih =>
    rw [decode, decodeFrom, decodeFrom, ih, ih (256 * 0 + b.toNat), List.length_cons, Nat.pow_succ,
      Nat.add_mul, ← Nat.add_assoc]
    congr 2
    · rw [Nat.mul_assoc, Nat.mul_left_comm, Nat.mul_comm 256]
    · simp

theorem decode_cons (b : UInt8) (rest : List UInt8) :
    decode (b :: rest) = b.toNat * 256 ^ rest.length + decode rest := by
  rw [decode, decodeFrom, decodeFrom_eq]
  simp

/-- Reading gives back the number, as far as the width holds it. -/
theorem decode_encode (width n : Nat) : decode (encode width n) = n % 256 ^ width := by
  induction width with
  | zero => simp [encode, decode, decodeFrom, Nat.mod_one]
  | succ width ih =>
    rw [encode, decode_cons, ih, length_encode, Nat.pow_succ, Nat.mod_mul, Nat.mul_comm]
    simp [Nat.toUInt8, Nat.add_comm]

theorem decode_lt (bytes : List UInt8) : decode bytes < 256 ^ bytes.length := by
  induction bytes with
  | nil => simp [decode, decodeFrom]
  | cons b rest ih =>
    rw [decode_cons, List.length_cons, Nat.pow_succ]
    have hb : b.toNat < 256 := b.toNat_lt
    calc b.toNat * 256 ^ rest.length + decode rest
        < b.toNat * 256 ^ rest.length + 256 ^ rest.length := by omega
      _ = (b.toNat + 1) * 256 ^ rest.length := by rw [Nat.add_mul, Nat.one_mul]
      _ ≤ 256 * 256 ^ rest.length := Nat.mul_le_mul_right _ hb
      _ = 256 ^ rest.length * 256 := Nat.mul_comm _ _

/-- What lies above the width is not written. -/
theorem encode_mul_add (width high n : Nat) :
    encode width (high * 256 ^ width + n) = encode width n := by
  induction width generalizing high with
  | zero => rfl
  | succ width ih =>
    have hpow : high * 256 ^ (width + 1) = 256 * high * 256 ^ width := by
      rw [Nat.pow_succ, Nat.mul_comm (256 ^ width), ← Nat.mul_assoc, Nat.mul_comm high]
    rw [encode, encode, hpow, ih, Nat.add_comm, Nat.add_mul_div_right _ _ (Nat.pow_pos (by decide))]
    congr 1
    simp [Nat.toUInt8]

/-- Bytes are written again as they were read. -/
theorem encode_decode (bytes : List UInt8) : encode bytes.length (decode bytes) = bytes := by
  induction bytes with
  | nil => rfl
  | cons b rest ih =>
    have hrest := decode_lt rest
    rw [List.length_cons, decode_cons, encode, encode_mul_add, ih, Nat.add_comm,
      Nat.add_mul_div_right _ _ (Nat.pow_pos (by decide)), Nat.div_eq_of_lt hrest, Nat.zero_add,
      Nat.toUInt8, UInt8.ofNat_toNat]

end BigEndian

end PacketStream
