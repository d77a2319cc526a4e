import PacketStream.Proofs.Bits.Integer
import PacketStream.Proofs.Bits.Width

/-!
# Bits past the width of a fixed bit set

The last byte of a set of `n` bits has room for more bits than `n`, unless eight divides `n`. Setting
a bit leaves these spare bits alone and joining two sets joins them, but the complement flips them and a
number brings bits of its own. So a set can have bits past `n`, and two sets with the same bits below
`n` can differ and be written differently. `canonical_iff_eight_dvd` says when; its core is that a
recipe says of the spare bits too what comes of it.
-/

namespace PacketStream.FixedBitSet

variable {n i : Nat} {s t : FixedBitSet n}

/-! ## Clean sets -/

/-- No bit past `n` is set. -/
def IsClean (s : FixedBitSet n) : Prop := ∀ i, n ≤ i → s.get i = false

theorem isClean_empty (n : Nat) : (empty n).IsClean := fun i _ => get_empty n i

/-- Only the bits that the bytes hold count. -/
theorem isClean_iff : s.IsClean ↔ ∀ i, n ≤ i → i < 8 * byteLength n → s.get i = false := by
  refine ⟨fun h i hi _ => h i hi, fun h i hi => ?_⟩
  by_cases hheld : i < 8 * byteLength n
  · exact h i hi hheld
  · exact s.get_of_le (Nat.not_lt.1 hheld)

/-- Where eight divides `n` there are no bits to spare. -/
theorem isClean_of_dvd (h : 8 ∣ n) (s : FixedBitSet n) : s.IsClean := by
  refine isClean_iff.2 fun i hi hheld => ?_
  rw [byteLength] at hheld
  omega

/-- Elsewhere bit `n` is one. -/
theorem lt_of_not_dvd (h : ¬ 8 ∣ n) : n < 8 * byteLength n := by
  rw [byteLength]
  omega

/-- **Clean sets are told apart by their bits below `n`.** -/
theorem IsClean.eq (hs : s.IsClean) (ht : t.IsClean) (h : ∀ i, i < n → s.get i = t.get i) :
    s = t := by
  refine eq_of_get_eq fun i _ => ?_
  by_cases hi : i < n
  · exact h i hi
  · rw [hs i (Nat.not_lt.1 hi), ht i (Nat.not_lt.1 hi)]

/-- Sets are told apart by what is written of them. -/
theorem run_put_eq_iff (s t : FixedBitSet n) (limit : Nat) :
    (Wire.put s).run limit = (Wire.put t).run limit ↔ s = t := by
  refine ⟨fun h => ?_, fun h => h ▸ rfl⟩
  rw [run_put, run_put] at h
  cases s
  cases t
  cases h
  rfl

/-! ## Sets of numbers -/

/-- The last byte has the lowest bits of a number, and each byte its own lowest bit first. -/
theorem get_ofInt (value : BitVec 128) (hi : i < 8 * byteLength n) :
    (ofInt n value.toInt).get i = (value.toInt % 256 ^ byteLength n).toNat.testBit
      (8 * (byteLength n - 1 - i / 8) + i % 8) := by
  have hbyte : i / 8 < byteLength n := Nat.div_lt_of_lt_mul hi
  have hpow (k : Nat) : 256 ^ k = 2 ^ (8 * k) := (Nat.pow_mul 2 8 k).symm
  rw [get_eq, Packed.get, bytes_ofInt, BigEndian.getElem?_encode hbyte]
  show (BitVec.ofNat 8 _).getLsbD (i % 8) = _
  rw [BitVec.getLsbD_ofNat, decide_eq_true (Nat.mod_lt i (by decide)), Bool.true_and, hpow (_ - _),
    Nat.testBit_div_two_pow, Nat.add_comm]

/-- A spare bit is a bit of the number's lowest byte. -/
theorem get_ofInt_of_le (value : BitVec 128) (hi : n ≤ i) (hheld : i < 8 * byteLength n) :
    (ofInt n value.toInt).get i = (value.toInt % 256).toNat.testBit (i % 8) := by
  have hlast : byteLength n - 1 - i / 8 = 0 := by
    rw [byteLength]
    omega
  have hlow : (value.toInt % 256).toNat = (value.toInt % 256 ^ byteLength n).toNat % 256 := by
    obtain ⟨width, hwidth⟩ : ∃ width, byteLength n = width + 1 :=
      Nat.exists_eq_add_one.2 (by omega)
    have hpos : 0 ≤ value.toInt % 256 ^ byteLength n :=
      Int.emod_nonneg _ (Int.ne_of_gt (Int.pow_pos (by decide)))
    have hmod : value.toInt % 256 ^ byteLength n % 256 = value.toInt % 256 := by
      rw [hwidth, Int.pow_succ, Int.emod_emod_of_dvd _ (Int.dvd_mul_left _ _)]
    omega
  have hsmall : i % 8 < 8 := Nat.mod_lt i (by decide)
  have hbit := Nat.testBit_mod_two_pow (value.toInt % 256 ^ byteLength n).toNat 8 (i % 8)
  rw [decide_eq_true hsmall, Bool.true_and] at hbit
  rw [get_ofInt value hheld, hlast, hlow, Nat.mul_zero, Nat.zero_add]
  exact hbit.symm

/-- **A number fits in `n` bits as far as its lowest byte goes.** The bytes above it fill whole bytes
of the set. -/
theorem isClean_ofInt_iff (value : BitVec 128) :
    (ofInt n value.toInt).IsClean ↔ 8 ∣ n ∨ (value.toInt % 256).toNat < 2 ^ (n % 8) := by
  by_cases h : 8 ∣ n
  · simp [h, isClean_of_dvd]
  have hlow : (value.toInt % 256).toNat < 256 := by omega
  have hheld := lt_of_not_dvd h
  simp only [h, false_or]
  constructor
  · intro hclean
    refine Nat.lt_pow_two_of_testBit _ fun k hk => ?_
    by_cases hbyte : k < 8
    · have hget := hclean (n - n % 8 + k) (by omega)
      rw [get_ofInt_of_le value (by omega) (by rw [byteLength]; omega)] at hget
      rwa [show (n - n % 8 + k) % 8 = k by omega] at hget
    · exact Nat.testBit_lt_two_pow (Nat.lt_of_lt_of_le hlow
        (Nat.pow_le_pow_right Nat.two_pos (Nat.not_lt.1 hbyte)))
  · intro hfits
    refine isClean_iff.2 fun i hi hheld => ?_
    rw [get_ofInt_of_le value hi hheld]
    refine Nat.testBit_lt_two_pow (Nat.lt_of_lt_of_le hfits (Nat.pow_le_pow_right Nat.two_pos ?_))
    rw [byteLength] at hheld
    omega

/-- The number 128 has the last bit of its lowest byte, and so the last that the bytes of a set hold. -/
theorem get_ofInt_128 (hi : i < 8 * byteLength n) :
    (ofInt n 128).get i = decide (i + 1 = 8 * byteLength n) := by
  have hpow : (256 : Int) ≤ 256 ^ byteLength n := by
    obtain ⟨width, hwidth⟩ : ∃ width, byteLength n = width + 1 :=
      Nat.exists_eq_add_one.2 (by omega)
    have hpos : (0 : Int) < 256 ^ width := Int.pow_pos (by decide)
    rw [hwidth, Int.pow_succ]
    omega
  have hsmall : (128 : Int) % 256 ^ byteLength n = 128 :=
    Int.emod_eq_of_lt (by decide) (by omega)
  have hget : (ofInt n 128).get i = _ := get_ofInt 128#128 hi
  have hvalue : (128#128).toInt = 128 := rfl
  rw [hget, hvalue, hsmall]
  show Nat.testBit (2 ^ 7) _ = _
  rw [Nat.testBit_two_pow]
  congr 1
  simp only [eq_iff_iff]
  omega

/-! ## What a recipe leaves in the spare bits -/

namespace Recipe

/-- All sets that a recipe starts with are of a kind. -/
def StartsWith (kind : FixedBitSet n → Prop) : Recipe n → Prop
  | given s => kind s
  | set r _ _ => r.StartsWith kind
  | and r r' => r.StartsWith kind ∧ r'.StartsWith kind
  | or r r' => r.StartsWith kind ∧ r'.StartsWith kind
  | xor r r' => r.StartsWith kind ∧ r'.StartsWith kind
  | complement r => r.StartsWith kind

/-- What a recipe makes of a bit that it does not set and that no given set has. -/
def spare : Recipe n → Bool
  | given _ => false
  | set r _ _ => r.spare
  | and r r' => r.spare && r'.spare
  | or r r' => r.spare || r'.spare
  | xor r r' => r.spare ^^ r'.spare
  | complement r => !r.spare

/-- From clean sets all spare bits come out alike. -/
theorem bit_of_le {r : Recipe n} (h : r.StartsWith IsClean) (hi : n ≤ i) : r.bit i = r.spare := by
  induction r with
  | given s => exact h i hi
  | set r k v ih =>
    have hother : ¬ (k = i ∧ k < n) := by omega
    rw [bit, if_neg hother, spare, ih h]
  | and r r' ih ih' => rw [bit, spare, ih h.1, ih' h.2]
  | or r r' ih ih' => rw [bit, spare, ih h.1, ih' h.2]
  | xor r r' ih ih' => rw [bit, spare, ih h.1, ih' h.2]
  | complement r ih => rw [bit, spare, ih h]

theorem isClean_make_iff (r : Recipe n) :
    r.make.IsClean ↔ ∀ i, n ≤ i → i < 8 * byteLength n → r.bit i = false := by
  rw [isClean_iff]
  refine forall_congr' fun i => forall_congr' fun _ => forall_congr' fun hheld => ?_
  rw [r.get_make hheld]

/-- A set made of clean ones is clean, unless its spare bits have been flipped. -/
theorem isClean_make_iff_spare {r : Recipe n} (h : r.StartsWith IsClean) :
    r.make.IsClean ↔ 8 ∣ n ∨ r.spare = false := by
  by_cases hn : 8 ∣ n
  · simp [hn, isClean_of_dvd]
  rw [isClean_make_iff]
  simp only [hn, false_or]
  constructor
  · intro hclean
    rw [← bit_of_le h (Nat.le_refl n)]
    exact hclean n (Nat.le_refl n) (lt_of_not_dvd hn)
  · intro hspare i hi _
    rw [bit_of_le h hi, hspare]

end Recipe

/-! ## Canonical sets -/

/-- The set without bits, and the sets of numbers of 128 bits. -/
def IsNumber (s : FixedBitSet n) : Prop :=
  s = empty n ∨ ∃ value : BitVec 128, s = ofInt n value.toInt

/-- **Sets of `n` bits are canonical if and only if eight divides `n`.** Let sets be made of the empty
one and of numbers by setting bits, joining and taking complements. None of them has a bit past `n`, and
those with the same bits below `n` are equal, if and only if eight divides `n`; and only equal sets are
written alike. For all other `n` the spare bits are known: a recipe makes of them what it makes of the
same bits of the sets that it starts with, a number has the bits of its lowest byte in them, and where
all sets are clean at first, the spare bits are set if and only if the complements among the operations
come to flipping them. Clean sets are canonical for all `n`. -/
theorem canonical_iff_eight_dvd (n : Nat) :
    ((∀ r : Recipe n, r.StartsWith IsNumber → ∀ i, n ≤ i → r.make.get i = false) ↔ 8 ∣ n) ∧
    ((∀ r r' : Recipe n, r.StartsWith IsNumber → r'.StartsWith IsNumber →
      (∀ i, i < n → r.make.get i = r'.make.get i) → r.make = r'.make) ↔ 8 ∣ n) ∧
    (∀ (s t : FixedBitSet n) limit, (Wire.put s).run limit = (Wire.put t).run limit ↔ s = t) ∧
    (∀ (r : Recipe n) i, n ≤ i → i < 8 * byteLength n → r.make.get i = r.bit i) ∧
    (∀ value : BitVec 128, (ofInt n value.toInt).IsClean ↔
      8 ∣ n ∨ (value.toInt % 256).toNat < 2 ^ (n % 8)) ∧
    (∀ r : Recipe n, r.StartsWith IsClean → (r.make.IsClean ↔ 8 ∣ n ∨ r.spare = false)) ∧
    ∀ s t : FixedBitSet n, s.IsClean → t.IsClean → (∀ i, i < n → s.get i = t.get i) → s = t := by
  refine ⟨⟨fun hall => ?_, fun hn r _ => isClean_of_dvd hn r.make⟩, ⟨fun hall => ?_, ?_⟩,
    run_put_eq_iff, fun r i _ hheld => r.get_make hheld, fun value => isClean_ofInt_iff _,
    fun r hr => Recipe.isClean_make_iff_spare hr, fun s t => IsClean.eq⟩
  · -- the complement of the empty set
    have hclean := hall (.complement (.given (empty n))) (.inl rfl)
    have hempty : (Recipe.complement (.given (empty n))).StartsWith IsClean := isClean_empty n
    exact ((Recipe.isClean_make_iff_spare hempty).1 hclean).resolve_right nofun
  · -- the empty set and the number whose only bit is a spare one
    refine Classical.byContradiction fun hn => ?_
    have hheld := lt_of_not_dvd hn
    have hlow : ∀ i, i < n → (empty n).get i = (ofInt n 128).get i := by
      intro i hi
      rw [get_empty, get_ofInt_128 (by omega), decide_eq_false (by omega)]
    have hsame : empty n = ofInt n 128 :=
      hall (.given (empty n)) (.given (ofInt n 128)) (.inl rfl) (.inr ⟨128#128, rfl⟩) hlow
    have hbit : (ofInt n 128).get (8 * byteLength n - 1) = true := by
      rw [get_ofInt_128 (by omega), decide_eq_true (by omega)]
    rw [← hsame, get_empty] at hbit
    cases hbit
  · intro hn r r' _ _ hlow
    exact (isClean_of_dvd hn r.make).eq (isClean_of_dvd hn r'.make) hlow

/-- Twelve bits take two bytes with four bits to spare. The number 16 has one of them and 15 has none,
the complement of a clean set has all, and joining two complements flips them back. -/
theorem canonical_iff_eight_dvd_twelveBits :
    let flipped : Recipe 12 := .complement (.given (ofInt 12 15))
    ¬ (ofInt 12 16).IsClean ∧ (ofInt 12 15).IsClean ∧ ¬ flipped.make.IsClean ∧
      (flipped.xor flipped).make.IsClean ∧
      ¬ ∀ r : Recipe 12, r.StartsWith IsNumber → ∀ i, 12 ≤ i → r.make.get i = false := by
  intro flipped
  obtain ⟨hall, -, -, -, hnumber, hspare, -⟩ := canonical_iff_eight_dvd 12
  have hfifteen : (ofInt 12 15).IsClean := (hnumber 15#128).2 (.inr (by decide))
  have hflipped : flipped.StartsWith IsClean := hfifteen
  refine ⟨fun h => ?_, hfifteen, fun h => ?_, ?_, fun h => ?_⟩
  · exact absurd ((hnumber 16#128).1 h) (by decide)
  · exact absurd ((hspare _ hflipped).1 h) (by decide)
  · have htwice : (flipped.xor flipped).StartsWith IsClean := ⟨hflipped, hflipped⟩
    exact (hspare _ htwice).2 (.inr rfl)
  · exact absurd (hall.1 h) (by decide)

/-- The complement of the empty set of twenty bits has bit 20. Below it has the bits of the set that all
twenty are put into, but the two differ, and one is written as `FF FF FF`, the other as `FF FF 0F`. -/
theorem complement_sets_spare_bit :
    let flipped : Recipe 20 := .complement (.given (empty 20))
    let filled : Recipe 20 := (List.range 20).foldl (fun r i => r.set i true) (.given (empty 20))
    flipped.StartsWith IsNumber ∧ filled.StartsWith IsNumber ∧ flipped.make.get 20 = true ∧
      (∀ i, i < 20 → flipped.make.get i = filled.make.get i) ∧ flipped.make ≠ filled.make ∧
      (Wire.put flipped.make).run 0 = .ok [255, 255, 255] ∧
      (Wire.put filled.make).run 0 = .ok [255, 255, 15] := by
  refine ⟨.inl rfl, .inl rfl, by decide, by decide, by decide, rfl, rfl⟩

end PacketStream.FixedBitSet
