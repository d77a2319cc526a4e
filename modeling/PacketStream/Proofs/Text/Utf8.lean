import PacketStream.Text.Utf8

/-!
# UTF-8 reads back

The bytes behind the first one of a character hold six bits each (`tails`). `decodeFrom_tails` goes
through them by the number still owed, and `decodeFrom_encodeChar` puts the first byte in front: in
front of anything, the bytes of a character give the character. `decode_encode` is the same for
strings.

What has to be shown is that each byte is in the range that the decoder allows. The range of the
second byte is narrower behind four of the first bytes, and the characters with such a first byte are
just those whose second byte is in it (`lead?_three`, `lead?_four`).
-/

namespace PacketStream.Utf8

variable {index : Nat} {done : List Char} {b : UInt8} {p : Partial} {rest : List UInt8} {n : Nat}

/-! ## Characters by the number of their bytes -/

/-- The last `k` bytes of the character with the number `n`. -/
def tails : (k : Nat) → (n : Nat) → List UInt8
  | 0, _ => []
  | k + 1, n => (0x80 + n / 64 ^ k % 64).toUInt8 :: tails k n

theorem length_tails (k n : Nat) : (tails k n).length = k := by
  induction k with
  | zero => rfl
  | succ k ih => rw [tails, List.length_cons, ih]

theorem toNat_toUInt8 (h : n < 256) : n.toUInt8.toNat = n := by
  simp only [Nat.toUInt8, UInt8.toNat_ofNat']
  omega

theorem toNat_ofNat (h : n < 0xD800 ∨ 0xDFFF < n ∧ n < 0x110000) : (Char.ofNat n).toNat = n := by
  rw [Char.ofNat, dif_pos h]
  rfl

theorem encodeChar_one (h : n < 0x80) : encodeChar (Char.ofNat n) = [n.toUInt8] := by
  rw [encodeChar, toNat_ofNat (by omega), if_pos h]

theorem encodeChar_two (hlow : 0x80 ≤ n) (hhigh : n < 0x800) :
    encodeChar (Char.ofNat n) = (0xC0 + n / 64).toUInt8 :: tails 1 n := by
  rw [encodeChar, toNat_ofNat (by omega), if_neg (by omega), if_pos hhigh]
  simp [tails]

theorem encodeChar_three (hlow : 0x800 ≤ n) (hhigh : n < 0x10000)
    (hvalid : n < 0xD800 ∨ 0xDFFF < n) :
    encodeChar (Char.ofNat n) = (0xE0 + n / 4096).toUInt8 :: tails 2 n := by
  rw [encodeChar, toNat_ofNat (by omega), if_neg (by omega), if_neg (by omega), if_pos hhigh]
  simp [tails]

theorem encodeChar_four (hlow : 0x10000 ≤ n) (hhigh : n < 0x110000) :
    encodeChar (Char.ofNat n) = (0xF0 + n / 262144).toUInt8 :: tails 3 n := by
  rw [encodeChar, toNat_ofNat (by omega), if_neg (by omega), if_neg (by omega), if_neg (by omega)]
  simp [tails]

/-! ## Steps -/

theorem decodeFrom_lead (hb : 0x80 ≤ b.toNat) (hp : lead? b.toNat = some p) :
    decodeFrom index done none (b :: rest) = decodeFrom index done (some p) rest := by
  rw [decodeFrom, if_neg (by omega), hp]

theorem decodeFrom_tail {owed : Nat} (hlow : p.low ≤ b.toNat) (hhigh : b.toNat ≤ p.high)
    (howed : p.owed = owed + 1) :
    decodeFrom index done (some p) (b :: rest) =
      decodeFrom index done
        (some { owed, low := 0x80, high := 0xBF, code := 64 * p.code + b.toNat % 64
                seen := p.seen + 1 }) rest := by
  rw [decodeFrom, if_pos ⟨hlow, hhigh⟩, howed]

theorem decodeFrom_last (hlow : p.low ≤ b.toNat) (hhigh : b.toNat ≤ p.high) (howed : p.owed = 0) :
    decodeFrom index done (some p) (b :: rest) =
      decodeFrom (index + p.seen + 1) (Char.ofNat (64 * p.code + b.toNat % 64) :: done) none
        rest := by
  rw [decodeFrom, if_pos ⟨hlow, hhigh⟩, howed]

/-- The last bytes of a character complete it, where the first of them is in range. -/
theorem decodeFrom_tails {owed : Nat} (howed : p.owed = owed) (hcode : p.code = n / 64 ^ (owed + 1))
    (hlow : p.low ≤ 0x80 + n / 64 ^ owed % 64) (hhigh : 0x80 + n / 64 ^ owed % 64 ≤ p.high) :
    decodeFrom index done (some p) (tails (owed + 1) n ++ rest) =
      decodeFrom (index + p.seen + (owed + 1)) (Char.ofNat n :: done) none rest := by
  have hbyte (k : Nat) : (0x80 + n / 64 ^ k % 64).toUInt8.toNat = 0x80 + n / 64 ^ k % 64 :=
    toNat_toUInt8 (by omega)
  -- a byte completes the quotient by one power less
  have hnext (k : Nat) : 64 * (n / 64 ^ (k + 1)) + (0x80 + n / 64 ^ k % 64) % 64 = n / 64 ^ k := by
    rw [Nat.pow_succ, ← Nat.div_div_eq_div_mul]
    omega
  induction owed generalizing p with
  | zero =>
    show decodeFrom index done (some p) ((0x80 + n / 64 ^ 0 % 64).toUInt8 :: rest) = _
    rw [decodeFrom_last (by rwa [hbyte]) (by rwa [hbyte]) howed, hbyte, hcode, hnext, Nat.pow_zero,
      Nat.div_one]
  | succ owed ih =>
    rw [tails, List.cons_append, decodeFrom_tail (by rwa [hbyte]) (by rwa [hbyte]) howed, hbyte,
      hcode, hnext, ih rfl rfl (by dsimp only; omega) (by dsimp only; omega),
      show index + (p.seen + 1) + (owed + 1) = index + p.seen + (owed + 1 + 1) by omega]

/-! ## First bytes -/

theorem lead?_two (hlow : 0x80 ≤ n) (hhigh : n < 0x800) :
    lead? (0xC0 + n / 64) = some { owed := 0, low := 0x80, high := 0xBF, code := n / 64 } := by
  rw [lead?, if_neg (by omega), if_pos (by omega), Nat.add_sub_cancel_left]

/-- Behind the first byte of a character of three bytes, the second is in range: overlong forms and
surrogates are what the narrower ranges leave out. -/
theorem lead?_three (hlow : 0x800 ≤ n) (hhigh : n < 0x10000) (hvalid : n < 0xD800 ∨ 0xDFFF < n) :
    ∃ p, lead? (0xE0 + n / 4096) = some p ∧ p.owed = 1 ∧ p.code = n / 4096 ∧ p.seen = 1 ∧
      p.low ≤ 0x80 + n / 64 % 64 ∧ 0x80 + n / 64 % 64 ≤ p.high := by
  rw [lead?, if_neg (by omega), if_neg (by omega)]
  split
  · exact ⟨_, rfl, rfl, by dsimp only; omega, rfl, by dsimp only; omega, by dsimp only; omega⟩
  split
  · exact ⟨_, rfl, rfl, by dsimp only; omega, rfl, by dsimp only; omega, by dsimp only; omega⟩
  rw [if_pos (by omega)]
  exact ⟨_, rfl, rfl, by dsimp only; omega, rfl, by dsimp only; omega, by dsimp only; omega⟩

/-- Behind the first byte of a character of four bytes, the second is in range: overlong forms and
numbers past the last character are what the narrower ranges leave out. -/
theorem lead?_four (hlow : 0x10000 ≤ n) (hhigh : n < 0x110000) :
    ∃ p, lead? (0xF0 + n / 262144) = some p ∧ p.owed = 2 ∧ p.code = n / 262144 ∧ p.seen = 1 ∧
      p.low ≤ 0x80 + n / 4096 % 64 ∧ 0x80 + n / 4096 % 64 ≤ p.high := by
  rw [lead?, if_neg (by omega), if_neg (by omega), if_neg (by omega), if_neg (by omega),
    if_neg (by omega)]
  split
  · exact ⟨_, rfl, rfl, by dsimp only; omega, rfl, by dsimp only; omega, by dsimp only; omega⟩
  split
  · exact ⟨_, rfl, rfl, by dsimp only; omega, rfl, by dsimp only; omega, by dsimp only; omega⟩
  rw [if_pos (by omega)]
  exact ⟨_, rfl, rfl, by dsimp only; omega, rfl, by dsimp only; omega, by dsimp only; omega⟩

/-! ## Characters and strings -/

/-- A first byte and the last bytes of a number are read as the character, where the second byte is
in the range that the first one starts. -/
theorem decodeFrom_first {first owed : Nat} (hmore : 0x80 ≤ first) (hbyte : first < 256)
    (hp : lead? first = some p) (howed : p.owed = owed) (hseen : p.seen = 1)
    (hcode : p.code = n / 64 ^ (owed + 1)) (hlow : p.low ≤ 0x80 + n / 64 ^ owed % 64)
    (hhigh : 0x80 + n / 64 ^ owed % 64 ≤ p.high) :
    decodeFrom index done none (first.toUInt8 :: tails (owed + 1) n ++ rest) =
      decodeFrom (index + (first.toUInt8 :: tails (owed + 1) n).length) (Char.ofNat n :: done) none
        rest := by
  have hfirst := toNat_toUInt8 hbyte
  rw [List.cons_append, decodeFrom_lead (by omega) (by rwa [hfirst]),
    decodeFrom_tails howed hcode hlow hhigh, hseen, List.length_cons, length_tails, Nat.add_assoc,
    Nat.add_comm 1]

/-- **The bytes of a character give the character**, whatever comes behind them. -/
theorem decodeFrom_encodeChar (index : Nat) (done : List Char) (c : Char) (rest : List UInt8) :
    decodeFrom index done none (encodeChar c ++ rest)
      = decodeFrom (index + (encodeChar c).length) (c :: done) none rest := by
  obtain ⟨n, hvalid, rfl⟩ :
      ∃ n, (n < 0xD800 ∨ 0xDFFF < n ∧ n < 0x110000) ∧ Char.ofNat n = c :=
    ⟨c.toNat, c.valid, Char.ofNat_toNat c⟩
  by_cases hone : n < 0x80
  · have hbyte : n.toUInt8.toNat = n := toNat_toUInt8 (by omega)
    rw [encodeChar_one hone, List.singleton_append, decodeFrom, hbyte, if_pos hone]
    rfl
  by_cases htwo : n < 0x800
  · have hlead := lead?_two (n := n) (by omega) htwo
    rw [encodeChar_two (by omega) htwo]
    exact decodeFrom_first (by omega) (by omega) hlead rfl rfl rfl (by dsimp only; omega)
      (by dsimp only; omega)
  by_cases hthree : n < 0x10000
  · obtain ⟨p, hlead, howed, hcode, hseen, hlow, hhigh⟩ :=
      lead?_three (n := n) (by omega) hthree (by omega)
    rw [encodeChar_three (by omega) hthree (by omega)]
    exact decodeFrom_first (by omega) (by omega) hlead howed hseen hcode hlow hhigh
  · obtain ⟨p, hlead, howed, hcode, hseen, hlow, hhigh⟩ :=
      lead?_four (n := n) (by omega) (by omega)
    rw [encodeChar_four (by omega) (by omega)]
    exact decodeFrom_first (by omega) (by omega) hlead howed hseen hcode hlow hhigh

theorem decodeFrom_flatMap (index : Nat) (done chars : List Char) :
    decodeFrom index done none (chars.flatMap encodeChar) = .ok (done.reverse ++ chars) := by
  induction chars generalizing index done with
  | nil => simp [decodeFrom]
  | cons c chars ih =>
    rw [List.flatMap_cons, decodeFrom_encodeChar, ih, List.reverse_cons, List.append_assoc]
    rfl

/-- **What was encoded decodes to itself.** -/
theorem decode_encode (s : String) : decode (encode s) = .ok s := by
  rw [decode, encode, decodeFrom_flatMap]
  simp [Except.map]

theorem length_encodeChar_le (c : Char) : (encodeChar c).length ≤ 4 := by
  rw [encodeChar]
  split
  · exact Nat.le_of_ble_eq_true rfl
  split
  · exact Nat.le_of_ble_eq_true rfl
  split
  · exact Nat.le_of_ble_eq_true rfl
  · exact Nat.le_refl 4

/-- No character takes more than four bytes. -/
theorem length_encode_le (s : String) : (encode s).length ≤ 4 * s.length := by
  have hchars : ∀ chars : List Char, (chars.flatMap encodeChar).length ≤ 4 * chars.length := by
    intro chars
    induction chars with
    | nil => exact Nat.le_refl 0
    | cons c chars ih =>
      have hc := length_encodeChar_le c
      rw [List.flatMap_cons, List.length_append, List.length_cons]
      omega
  have h := hchars s.toList
  rwa [String.length_toList] at h

end PacketStream.Utf8
