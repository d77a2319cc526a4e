import PacketStream.Bits.BitSet
import PacketStream.Proofs.Bits.Packing

/-!
# Bit sets as functions on indices

What each operation does to a set is said by what it does to `BitSet.get`, for all indices, those past
the last word included, and to the number of words. These two are all there is to a set
(`eq_of_get_eq`), so `operations_bitwise` describes the operations in full.
-/

namespace PacketStream.BitSet

variable {s t : BitSet} {i j k : Nat} {v : Bool}

/-! ## Words -/

/-- Bit `k` of a word. -/
def wordBit (w : UInt64) (k : Nat) : Bool := w.toNat.testBit k

theorem wordBit_zero (k : Nat) : wordBit 0 k = false := Nat.zero_testBit k

theorem wordBit_setBit (w : UInt64) (hi : i < 64) (hk : k < 64) :
    wordBit (setBit w i v) k = if i = k then v else wordBit w k := by
  have hmask : ((1 : UInt64) <<< i.toUInt64).toBitVec = 1#64 <<< i := by
    simp [Nat.toUInt64, Nat.mod_eq_of_lt hi]
  have hbits : (setBit w i v).toBitVec
      = if v then w.toBitVec ||| 1#64 <<< i else w.toBitVec &&& ~~~(1#64 <<< i) := by
    cases v <;> simp [setBit, hmask]
  show (setBit w i v).toBitVec.getLsbD k = if i = k then v else w.toBitVec.getLsbD k
  rw [hbits, getLsbD_setBit _ _ hk]

theorem wordBit_complement (w : UInt64) (hk : k < 64) : wordBit (~~~w) k = !wordBit w k := by
  show (~~~w).toBitVec.getLsbD k = !w.toBitVec.getLsbD k
  simp [hk]

theorem eq_of_wordBit_eq {u w : UInt64} (h : ∀ k, k < 64 → wordBit u k = wordBit w k) : u = w :=
  UInt64.toBitVec_inj.1 (BitVec.eq_of_getLsbD_eq h)

/-! ## The view -/

theorem get_eq (s : BitSet) (i : Nat) : s.get i = Packed.get 64 wordBit s.words i := by
  simp only [get, Packed.get, List.getD_eq_getElem?_getD, wordBit]
  split <;> rename_i hword <;> simp [hword]

theorem get_of_size_le (h : s.size ≤ i) : s.get i = false := by
  rw [get_eq, Packed.get_of_le (by decide) h]

/-- **Sets of one size are told apart by their bits.** -/
theorem eq_of_get_eq (hsize : s.size = t.size) (h : ∀ i, s.get i = t.get i) : s = t := by
  obtain ⟨words⟩ := s
  obtain ⟨others⟩ := t
  have hlength : words.length = others.length := Nat.eq_of_mul_eq_mul_left (by decide) hsize
  congr 1
  refine Packed.eq_of_get_eq (fun _ _ => eq_of_wordBit_eq) hlength fun i _ => ?_
  rw [← get_eq ⟨words⟩, ← get_eq ⟨others⟩, h]

/-! ## Setting a bit -/

theorem set_of_lt (h : i < s.size) (v : Bool) :
    s.set i v = { words := s.words.modify (i / 64) fun w => setBit w (i % 64) v } := by
  rw [size] at h
  rw [set, if_pos (by omega)]

theorem set_false_of_le (h : s.size ≤ i) : s.set i false = s := by
  rw [size] at h
  rw [set, if_neg (by omega), if_neg (by decide)]

theorem words_set_true_of_le (h : s.size ≤ i) : (s.set i true).words
    = (s.words ++ List.replicate (i / 64 - s.words.length) 0) ++ [setBit 0 (i % 64) true] := by
  rw [size] at h
  rw [set, if_neg (by omega), if_pos rfl]

/-- The words go on to the one that holds the bit, if it is set there. -/
theorem length_set (s : BitSet) (i : Nat) (v : Bool) : (s.set i v).words.length
    = if v then max s.words.length (i / 64 + 1) else s.words.length := by
  by_cases h : i < s.size
  · have hword : i / 64 < s.words.length := by
      rw [size] at h
      omega
    rw [set_of_lt h]
    cases v <;> simp
    omega
  · cases v
    · rw [set_false_of_le (Nat.not_lt.1 h)]
      rfl
    · rw [words_set_true_of_le (Nat.not_lt.1 h)]
      rw [size] at h
      simp
      omega

/-- **Setting a bit sets this one only**, also where the words end in front of it. -/
theorem get_set (s : BitSet) (i : Nat) (v : Bool) (j : Nat) :
    (s.set i v).get j = if i = j then v else s.get j := by
  by_cases h : i < s.size
  · rw [set_of_lt h, get_eq, get_eq]
    exact Packed.get_modify (by decide)
      (fun w k hk => wordBit_setBit w (Nat.mod_lt i (by decide)) hk) h j
  have hpast : s.size ≤ i := Nat.not_lt.1 h
  cases v
  · rw [set_false_of_le hpast]
    by_cases hij : i = j
    · rw [if_pos hij, ← hij, get_of_size_le hpast]
    · rw [if_neg hij]
  · -- the words are continued by zeros up to the one of the bit, which comes last
    have hfront : (s.words ++ List.replicate (i / 64 - s.words.length) 0).length = i / 64 := by
      rw [size] at hpast
      simp
      omega
    rw [get_eq, words_set_true_of_le hpast, Packed.get_concat, hfront,
      Packed.get_append_replicate wordBit_zero, ← get_eq]
    by_cases hword : j / 64 = i / 64
    · have hnew : s.get j = false := by
        refine get_of_size_le ?_
        rw [size] at hpast ⊢
        omega
      rw [if_pos hword, hnew, wordBit_setBit 0 (Nat.mod_lt i (by decide)) (Nat.mod_lt j (by decide)),
        wordBit_zero]
      congr 1
      simp only [eq_iff_iff]
      omega
    · rw [if_neg hword, if_neg (by rintro rfl; exact hword rfl)]

/-! ## Joining sets -/

theorem length_pad {count : Nat} {words : List UInt64} (h : words.length ≤ count) :
    (pad count words).length = count := by
  rw [pad, List.length_append, List.length_replicate]
  omega

@[simp] theorem length_zip (f : UInt64 → UInt64 → UInt64) (s t : BitSet) :
    (zip f s t).words.length = max s.words.length t.words.length := by
  show (List.zipWith f (pad _ s.words) (pad _ t.words)).length = _
  rw [List.length_zipWith, length_pad (Nat.le_max_left _ _), length_pad (Nat.le_max_right _ _),
    Nat.min_self]

/-- Joining the words joins the bits, where the shorter set has none. -/
theorem get_zip {f : UInt64 → UInt64 → UInt64} {op : Bool → Bool → Bool}
    (hf : ∀ u w k, k < 64 → wordBit (f u w) k = op (wordBit u k) (wordBit w k))
    (hop : op false false = false) (s t : BitSet) (i : Nat) :
    (zip f s t).get i = op (s.get i) (t.get i) := by
  have hsame : (pad (max s.words.length t.words.length) s.words).length
      = (pad (max s.words.length t.words.length) t.words).length := by
    rw [length_pad (Nat.le_max_left _ _), length_pad (Nat.le_max_right _ _)]
  rw [get_eq, zip, Packed.get_zipWith (by decide) hf hop hsame, pad, pad,
    Packed.get_append_replicate wordBit_zero, Packed.get_append_replicate wordBit_zero, get_eq,
    get_eq]

theorem get_and (s t : BitSet) (i : Nat) : (s &&& t).get i = (s.get i && t.get i) :=
  get_zip (fun u w k _ => by simp [wordBit]) rfl s t i

theorem get_or (s t : BitSet) (i : Nat) : (s ||| t).get i = (s.get i || t.get i) :=
  get_zip (fun u w k _ => by simp [wordBit]) rfl s t i

theorem get_xor (s t : BitSet) (i : Nat) : (s ^^^ t).get i = (s.get i ^^ t.get i) :=
  get_zip (fun u w k _ => by simp [wordBit]) rfl s t i

/-- The complement is taken among the bits that there are. -/
theorem get_complement (s : BitSet) (i : Nat) :
    (~~~s).get i = (decide (i < s.size) && !s.get i) := by
  rw [get_eq, get_eq]
  exact Packed.get_map (by decide) (fun w k hk => wordBit_complement w hk) i

/-! ## Sets of numbers -/

@[simp] theorem length_ofNat_some (value count : Nat) :
    (ofNat value (some count)).words.length = count := by
  simp [ofNat]

/-- **The bits of the set are those of the number**, as far as the words go. -/
theorem get_ofNat (value : Nat) (count : Option Nat) (i : Nat) :
    (ofNat value count).get i = (decide (i < (ofNat value count).size) && value.testBit i) := by
  by_cases hi : i < (ofNat value count).size
  · have hword : i / 64 < (ofNat value count).words.length := by
      rw [size] at hi
      omega
    have hbit : wordBit (value / 2 ^ (64 * (i / 64))).toUInt64 (i % 64) = value.testBit i := by
      show (BitVec.ofNat 64 (value / 2 ^ (64 * (i / 64)))).getLsbD (i % 64) = _
      rw [BitVec.getLsbD_ofNat, decide_eq_true (Nat.mod_lt i (by decide)), Bool.true_and,
        Nat.testBit_div_two_pow, Nat.mod_add_div]
    simp [ofNat] at hword
    rw [get_eq, decide_eq_true hi, Bool.true_and, ← hbit]
    simp [Packed.get, ofNat, hword]
  · rw [get_of_size_le (Nat.not_lt.1 hi), decide_eq_false hi, Bool.false_and]

theorem length_ofNat (value : Nat) : (ofNat value).words.length
    = if value = 0 then 0 else value.log2 / 64 + 1 := by
  simp [ofNat]

/-- The fewest words for a number hold all its bits. -/
theorem testBit_imp_get_ofNat {value : Nat} (h : value.testBit i = true) :
    (ofNat value).get i = true := by
  have hvalue : value ≠ 0 := by
    rintro rfl
    simp at h
  have hlog : i ≤ value.log2 := (Nat.le_log2 hvalue).2 (Nat.ge_two_pow_of_testBit h)
  have hi : i < (ofNat value).size := by
    rw [size, length_ofNat, if_neg hvalue]
    omega
  rw [get_ofNat, decide_eq_true hi, Bool.true_and, h]

/-- No set with fewer words has them all. -/
theorem length_ofNat_le {value : Nat} (h : ∀ i, value.testBit i = true → s.get i = true) :
    (ofNat value).words.length ≤ s.words.length := by
  rw [length_ofNat]
  split
  · exact Nat.zero_le _
  · rename_i hvalue
    -- the highest bit of the number must have a word
    have hhigh : s.get value.log2 = true := h _ (Nat.testBit_log2 hvalue)
    have hlog : value.log2 < s.size := by
      refine Nat.lt_of_not_le fun hpast => ?_
      rw [get_of_size_le hpast] at hhigh
      cases hhigh
    rw [size] at hlog
    omega

/-! ## All operations -/

/-- **The operations on bit sets are the operations on their bits.** Writing a bit writes this one and
no other, wherever it is. No word is lost by it; past the end nothing is cleared, and setting a bit
there adds words up to the one that holds it, in which no other bit is set. Joining two sets joins their
bits, also where one of them has ended, and has the size of the larger; the complement is taken among
the bits that there are. The set of a number of 128 bits has the bits of the number in as many words as
are asked for, or else in the fewest words that a set with all these bits can have. And since sets of
one size are told apart by their bits, nothing is left to say about these sets. -/
theorem operations_bitwise (s t : BitSet) :
    (∀ i, s.size ≤ i → s.get i = false) ∧
    (∀ i v j, (s.set i v).get j = if i = j then v else s.get j) ∧
    (∀ i v, s.size ≤ (s.set i v).size ∧ (i < s.size → (s.set i v).size = s.size)) ∧
    (∀ i, s.size ≤ i → s.set i false = s ∧ (s.set i true).words.length = i / 64 + 1 ∧
      ∀ j, s.size ≤ j → j ≠ i → (s.set i true).get j = false) ∧
    (∀ i, (s &&& t).get i = (s.get i && t.get i) ∧ (s ||| t).get i = (s.get i || t.get i) ∧
      (s ^^^ t).get i = (s.get i ^^ t.get i)) ∧
    ((s &&& t).size = max s.size t.size ∧ (s ||| t).size = max s.size t.size ∧
      (s ^^^ t).size = max s.size t.size) ∧
    (∀ i, (~~~s).get i = (decide (i < s.size) && !s.get i)) ∧ (~~~s).size = s.size ∧
    (∀ (value : BitVec 128) (count : Option Nat) (i : Nat), (ofNat value.toNat count).get i
      = (decide (i < 128 ∧ i < (ofNat value.toNat count).size) && value.getLsbD i)) ∧
    (∀ (value : BitVec 128) (count : Nat), (ofNat value.toNat (some count)).words.length = count) ∧
    (∀ value : BitVec 128,
      (∀ i, value.getLsbD i = true → (ofNat value.toNat).get i = true) ∧
      ∀ u : BitSet, (∀ i, value.getLsbD i = true → u.get i = true) →
        (ofNat value.toNat).words.length ≤ u.words.length) ∧
    (s.size = t.size → (∀ i, s.get i = t.get i) → s = t) := by
  refine ⟨fun i => get_of_size_le, get_set s, ?_, ?_,
    fun i => ⟨get_and s t i, get_or s t i, get_xor s t i⟩, ?_, get_complement s, ?_, ?_,
    fun value => length_ofNat_some value.toNat, ?_, eq_of_get_eq⟩
  · intro i v
    have hlength := length_set s i v
    rw [size, size]
    constructor
    · cases v <;> simp at hlength <;> omega
    · intro hi
      cases v <;> simp at hlength <;> omega
  · intro i hi
    have hlength := length_set s i true
    rw [if_pos rfl, Nat.max_eq_right (by rw [size] at hi; omega)] at hlength
    refine ⟨set_false_of_le hi, hlength, ?_⟩
    intro j hj hother
    rw [get_set, if_neg (Ne.symm hother), get_of_size_le hj]
  · have hsize (f : UInt64 → UInt64 → UInt64) : (zip f s t).size = max s.size t.size := by
      rw [size, length_zip, size, size, Nat.mul_max_mul_left]
    exact ⟨hsize _, hsize _, hsize _⟩
  · show 64 * (s.words.map (~~~ ·)).length = 64 * s.words.length
    rw [List.length_map]
  · intro value count i
    rw [get_ofNat, BitVec.testBit_toNat]
    by_cases hi : i < 128
    · simp [hi]
    · rw [BitVec.getLsbD_of_ge value i (Nat.not_lt.1 hi), Bool.and_false, Bool.and_false]
  · intro value
    exact ⟨fun i hi => testBit_imp_get_ofNat hi, fun u hu => length_ofNat_le hu⟩

/-- A bit is set two words behind the end of a set, which has no bit there that could be cleared. A
longer set is joined to it, and a number of 65 bits takes two words. -/
theorem operations_bitwise_growing :
    let s : BitSet := { words := [12] }
    let t : BitSet := { words := [10, 1] }
    s.size ≤ 200 ∧ s.set 200 false = s ∧ (s.set 200 true).words.length = 4 ∧
      (s.set 200 true).get 3 = true ∧ (s.set 200 true).get 201 = false ∧
      (s ^^^ t).get 64 = true ∧ (s ^^^ t).size = 128 ∧ (~~~s).get 64 = false ∧
      (ofNat 18446744073709551616).get 64 = true := by
  intro s t
  have hpast : s.size ≤ 200 := by decide
  obtain ⟨-, hset, -, hgrows, hjoin, hsize, hcomplement, -, -, -, hnumber, -⟩ :=
    operations_bitwise s t
  obtain ⟨hclear, hlength, hnew⟩ := hgrows 200 hpast
  refine ⟨hpast, hclear, hlength, ?_, hnew 201 (by decide) (by decide), (hjoin 64).2.2.trans ?_,
    hsize.2.2, (hcomplement 64).trans ?_, (hnumber (1#128 <<< 64)).1 64 (by decide)⟩
  · rw [hset]
    decide
  · decide
  · decide

end PacketStream.BitSet
