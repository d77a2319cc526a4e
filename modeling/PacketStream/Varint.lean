import PacketStream.BigEndian

/-!
# Variable-length integers

A varint carries seven bits a byte, the lowest group first; every byte but the last has its high bit
set. `decode` reads one of at most a given width, and asks for more bytes where the input ends
inside it.

`encode` always gives the shortest form, `length` foretells its size, and `decode_encode_append`
says that it reads back whatever follows. Whether the value fits the width of a field is the
writer's to check.
-/

namespace PacketStream.Varint

/-- Why bytes are not a varint of the expected width. -/
inductive Refusal where
  /-- The value does not fit the width. -/
  | outOfRange
  /-- The last byte allowed still asks for another. -/
  | tooLong
deriving DecidableEq, Repr

/-- The most bytes a varint of `bits` bits may take. -/
def maxBytes (bits : Nat) : Nat := (bits + 6) / 7

/-- The number of bytes that `encode n` takes. -/
def length (n : Nat) : Nat := n.log2 / 7 + 1

/-- The shortest varint of `n`. -/
def encode (n : Nat) : List UInt8 :=
  if n < 128 then [n.toUInt8] else (n % 128 + 128).toUInt8 :: encode (n / 128)

/-- Reads on from the group with index `i`, with `low` the value of the groups before it. -/
def decodeFrom (bits i low : Nat) : List UInt8 → Except Refusal (Option (Nat × Nat))
  | [] => .ok none
  | b :: rest =>
    let value := low + b.toNat % 128 * 2 ^ (7 * i)
    if 64 ≤ 7 * i ∨ 2 ^ min bits 64 ≤ value then .error .outOfRange
    else if b.toNat < 128 then .ok (some (value, i + 1))
    else if i + 1 = maxBytes bits then .error .tooLong
    else decodeFrom bits (i + 1) value rest

/-- The varint at the start of the input, of at most `bits` bits: its value and its size, or `none`
where the input ends inside it. No value needs more than 64 bits. -/
def decode (bits : Nat) (input : List UInt8) : Except Refusal (Option (Nat × Nat)) :=
  decodeFrom bits 0 0 (input.take (maxBytes bits))

theorem maxBytes_pos {bits : Nat} (hbits : 0 < bits) : 0 < maxBytes bits := by
  rw [maxBytes]
  omega

/-! ## Groups -/

theorem two_pow_group (i : Nat) : 2 ^ (7 * (i + 1)) = 128 * 2 ^ (7 * i) := by
  rw [Nat.mul_add, Nat.pow_add, Nat.mul_comm]

/-- Splitting off the lowest group of `n` does not change the value. -/
theorem add_group (low n i : Nat) :
    low + n % 128 * 2 ^ (7 * i) + n / 128 * 2 ^ (7 * (i + 1)) = low + n * 2 ^ (7 * i) := by
  rw [two_pow_group, ← Nat.mul_assoc, Nat.add_assoc, ← Nat.add_mul, Nat.mul_comm (n / 128),
    Nat.mod_add_div]

/-! ## Size of the shortest form -/

theorem length_of_lt {n : Nat} (h : n < 128) : length n = 1 := by
  have : n.log2 < 7 := by
    rcases Nat.eq_zero_or_pos n with rfl | hpos
    · decide
    · exact (Nat.log2_lt (by omega)).2 h
  simp [length, Nat.div_eq_of_lt this]

theorem length_of_le {n : Nat} (h : 128 ≤ n) : length n = length (n / 128) + 1 := by
  have hn : n ≠ 0 := by omega
  have hlog : 7 ≤ n.log2 := (Nat.le_log2 hn).2 h
  have hle := Nat.log2_self_le hn
  have hlt := Nat.lt_log2_self (n := n)
  -- a shift by one group lowers the logarithm by seven
  have hdiv : (n / 128).log2 = n.log2 - 7 := by
    obtain ⟨k, hk⟩ : ∃ k, n.log2 = k + 7 := ⟨n.log2 - 7, by omega⟩
    rw [hk] at hle hlt ⊢
    rw [Nat.log2_eq_iff (by omega)]
    rw [Nat.pow_add] at hle
    rw [show k + 7 + 1 = k + 1 + 7 by omega, Nat.pow_add] at hlt
    constructor
    · rw [Nat.add_sub_cancel, Nat.le_div_iff_mul_le (by decide)]
      exact hle
    · rw [Nat.add_sub_cancel, Nat.div_lt_iff_lt_mul (by decide)]
      exact hlt
  simp only [length, hdiv]
  omega

@[simp] theorem length_encode (n : Nat) : (encode n).length = length n := by
  fun_induction encode n with
  | case1 n h => simp [length_of_lt h]
  | case2 n h ih => rw [List.length_cons, ih, length_of_le (n := n) (by omega)]

theorem length_le_maxBytes {bits n : Nat} (h : n < 2 ^ bits) (hbits : 0 < bits) :
    length n ≤ maxBytes bits := by
  simp only [length, maxBytes]
  rcases Nat.eq_zero_or_pos n with rfl | hpos
  · simp only [Nat.log2_zero]
    omega
  · have := (Nat.log2_lt (n := n) (by omega)).2 h
    omega

/-! ## Reading -/

theorem decodeFrom_eq_none {bits i low : Nat} {input : List UInt8}
    (h : decodeFrom bits i low input = .ok none) (hi : i < maxBytes bits) :
    i + input.length < maxBytes bits := by
  induction input generalizing i low with
  | nil => simpa using hi
  | cons b rest ih =>
    simp only [decodeFrom] at h
    split at h
    · cases h
    split at h
    · cases h
    split at h
    · cases h
    · have := ih h (by omega)
      rw [List.length_cons]
      omega

/-- A reader of a varint asks for more only while fewer bytes than the width allows have come. -/
theorem length_lt_of_decode_eq_none {bits : Nat} {input : List UInt8} (hbits : 0 < bits)
    (h : decode bits input = .ok none) : input.length < maxBytes bits := by
  have := decodeFrom_eq_none h (maxBytes_pos hbits)
  rw [List.length_take] at this
  omega

/-- The byte allowed last settles the outcome, so what follows it is never looked at. -/
theorem decodeFrom_take {bits i low : Nat} {input : List UInt8} (hi : i < maxBytes bits) :
    decodeFrom bits i low (input.take (maxBytes bits - i)) = decodeFrom bits i low input := by
  induction input generalizing i low with
  | nil => simp
  | cons b rest ih =>
    obtain ⟨k, hk⟩ : ∃ k, maxBytes bits - i = k + 1 := ⟨maxBytes bits - i - 1, by omega⟩
    rw [hk, List.take_succ_cons]
    simp only [decodeFrom]
    split
    · rfl
    split
    · rfl
    split
    · rfl
    · have := @ih (i + 1) (low + b.toNat % 128 * 2 ^ (7 * i)) (by omega)
      rwa [show maxBytes bits - (i + 1) = k by omega] at this

theorem decode_eq_decodeFrom {bits : Nat} (hbits : 0 < bits) (input : List UInt8) :
    decode bits input = decodeFrom bits 0 0 input :=
  decodeFrom_take (i := 0) (maxBytes_pos hbits)

theorem decodeFrom_encode_append {bits i low n : Nat} (rest : List UInt8)
    (hi : 7 * i < 64) (h : low + n * 2 ^ (7 * i) < 2 ^ min bits 64) :
    decodeFrom bits i low (encode n ++ rest)
      = .ok (some (low + n * 2 ^ (7 * i), i + length n)) := by
  fun_induction encode n generalizing i low with
  | case1 n hn =>
    have hb : n.toUInt8.toNat = n := by simp [Nat.toUInt8]; omega
    have hmod : n % 128 = n := Nat.mod_eq_of_lt hn
    simp only [List.cons_append, List.nil_append, decodeFrom, hb, hmod, length_of_lt hn]
    rw [if_neg (by omega), if_pos hn]
  | case2 n hn ih =>
    have hb : (n % 128 + 128).toUInt8.toNat = n % 128 + 128 := by simp [Nat.toUInt8]; omega
    have hmod : (n % 128 + 128) % 128 = n % 128 := by omega
    have hpow := two_pow_group i
    have hsplit := add_group low n i
    -- the value reaches past this group, so the width does too
    have hreach : 2 ^ (7 * (i + 1)) < 2 ^ min bits 64 := by
      have : 128 * 2 ^ (7 * i) ≤ n * 2 ^ (7 * i) := Nat.mul_le_mul_right _ (by omega)
      omega
    have hwidth : 7 * (i + 1) < min bits 64 := (Nat.pow_lt_pow_iff_right (by decide)).1 hreach
    have hmax : i + 1 ≠ maxBytes bits := by simp only [maxBytes]; omega
    have hlow : low + n % 128 * 2 ^ (7 * i) < 2 ^ min bits 64 := by
      have : n % 128 * 2 ^ (7 * i) ≤ n * 2 ^ (7 * i) :=
        Nat.mul_le_mul_right _ (Nat.mod_le _ _)
      omega
    simp only [List.cons_append, decodeFrom, hb, hmod]
    rw [if_neg (by omega), if_neg (by omega), if_neg hmax,
      ih (by omega) (by rw [hsplit]; exact h), hsplit, length_of_le (n := n) (by omega)]
    congr 3
    omega

/-- A value that fits the width reads back, and what follows it is left alone. -/
theorem decode_encode_append {bits n : Nat} (rest : List UInt8) (hbits : 0 < bits)
    (h : n < 2 ^ min bits 64) : decode bits (encode n ++ rest) = .ok (some (n, length n)) := by
  rw [decode_eq_decodeFrom hbits, decodeFrom_encode_append rest (by decide) (by simpa using h)]
  simp

end PacketStream.Varint
