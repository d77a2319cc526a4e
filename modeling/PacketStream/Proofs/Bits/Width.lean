import PacketStream.Bits.FixedBitSet
import PacketStream.Proofs.Bits.Packing
import PacketStream.Proofs.Buffer.RoundTrip

/-!
# The width of fixed bit sets

A set of `n` bits has the bytes that `n` bits take, whatever has been done to it, so it is valid, is
written as just these bytes and read back from them, and no bit below `n` lies outside. `Recipe` is the
syntax of what can be done to sets, and `Recipe.bit` what this means for a single bit. `get_make` says
that the two agree on all bits that the bytes hold, by induction on the recipe with one law for each
operation.
-/

namespace PacketStream.FixedBitSet

variable {n i j k : Nat} {v : Bool} {s t : FixedBitSet n}

/-! ## Bytes -/

/-- Bit `k` of a byte. -/
def byteBit (b : UInt8) (k : Nat) : Bool := b.toNat.testBit k

theorem byteBit_zero (k : Nat) : byteBit 0 k = false := Nat.zero_testBit k

theorem byteBit_complement (b : UInt8) (hk : k < 8) : byteBit (~~~b) k = !byteBit b k := by
  show (~~~b).toBitVec.getLsbD k = !b.toBitVec.getLsbD k
  simp [hk]

theorem byteBit_setBit (b : UInt8) (hi : i < 8) (hk : k < 8) (v : Bool) :
    byteBit (if v then b ||| 1 <<< i.toUInt8 else b &&& ~~~(1 <<< i.toUInt8)) k
      = if i = k then v else byteBit b k := by
  have hmask : ((1 : UInt8) <<< i.toUInt8).toBitVec = 1#8 <<< i := by
    simp [Nat.toUInt8, Nat.mod_eq_of_lt hi]
  have hbits : (if v then b ||| 1 <<< i.toUInt8 else b &&& ~~~(1 <<< i.toUInt8)).toBitVec
      = if v then b.toBitVec ||| 1#8 <<< i else b.toBitVec &&& ~~~(1#8 <<< i) := by
    cases v <;> simp [hmask]
  show (if v then b ||| 1 <<< i.toUInt8 else b &&& ~~~(1 <<< i.toUInt8)).toBitVec.getLsbD k
    = if i = k then v else b.toBitVec.getLsbD k
  rw [hbits, getLsbD_setBit _ _ hk]

theorem eq_of_byteBit_eq {a b : UInt8} (h : ∀ k, k < 8 → byteBit a k = byteBit b k) : a = b :=
  UInt8.toBitVec_inj.1 (BitVec.eq_of_getLsbD_eq h)

/-! ## The width -/

/-- The bytes hold the bits, and there is no byte too many. -/
theorem byteLength_bounds (n : Nat) : n ≤ 8 * byteLength n ∧ 8 * byteLength n < n + 8 := by
  rw [byteLength]
  omega

/-- A bit below `n` lies in one of the bytes. -/
theorem index_lt (s : FixedBitSet n) (hi : i < n) : i / 8 < s.bytes.length := by
  rw [s.length_bytes, byteLength]
  omega

/-- A set is made of its own bytes, and of no others. -/
theorem ofBytes_eq_ok {bytes : List UInt8} : ofBytes n bytes = .ok s ↔ bytes = s.bytes := by
  obtain ⟨own, hown⟩ := s
  rw [ofBytes]
  constructor
  · intro h
    split at h
    · cases h
      rfl
    · cases h
  · rintro rfl
    rw [dif_pos hown]

/-- A set is written as its bytes. -/
theorem run_put (s : FixedBitSet n) (limit : Nat) : (Wire.put s).run limit = .ok s.bytes := by
  show s.put.run limit = .ok s.bytes
  rw [put_eq_raw, Put.run_raw]

/-- The bytes of a set are what its reader takes, wherever they stand. -/
theorem readsBack_put (s : FixedBitSet n) : s.put.ReadsBack (read n) s false := by
  intro limit bytes h consumed tail _
  rw [put_eq_raw] at h
  obtain rfl := Put.run_raw.1 h
  have hread : ∀ b : Buffer, b.get (read n) =
      if h : b.remaining < byteLength n
      then (.error (.insufficientData b.position (byteLength n) b.remaining), b)
      else (.ok { bytes := b.unread.take (byteLength n)
                  length_bytes := length_take (Nat.le_of_not_lt h) }, b.advance (byteLength n)) :=
    fun _ => rfl
  rw [hread, dif_neg (by simp [Buffer.remaining, s.length_bytes])]
  simp [Buffer.advance, ← s.length_bytes]

/-! ## Bits -/

theorem get_eq (s : FixedBitSet n) (i : Nat) : s.get i = Packed.get 8 byteBit s.bytes i := by
  simp only [get, Packed.get, List.getD_eq_getElem?_getD, byteBit]
  split <;> rename_i hbyte <;> simp [hbyte]

theorem get_of_le (s : FixedBitSet n) (h : 8 * byteLength n ≤ i) : s.get i = false := by
  rw [get_eq, Packed.get_of_le (by decide) (by rwa [s.length_bytes])]

@[simp] theorem get_empty (n i : Nat) : (empty n).get i = false := by
  rw [get_eq]
  show Packed.get 8 byteBit ([] ++ List.replicate (byteLength n) 0) i = false
  rw [Packed.get_append_replicate byteBit_zero, Packed.get_of_le (by decide) (Nat.zero_le _)]

/-- **Sets are told apart by the bits that their bytes hold.** -/
theorem eq_of_get_eq (h : ∀ i, i < 8 * byteLength n → s.get i = t.get i) : s = t := by
  have hbytes : s.bytes = t.bytes := by
    refine Packed.eq_of_get_eq (fun _ _ => eq_of_byteBit_eq)
      (s.length_bytes.trans t.length_bytes.symm) fun i hi => ?_
    rw [s.length_bytes] at hi
    rw [← get_eq, ← get_eq, h i hi]
  cases s
  cases t
  cases hbytes
  rfl

/-- Setting a bit sets this one only. -/
theorem get_set (s : FixedBitSet n) (hi : i < n) (v : Bool) (j : Nat) :
    (s.set i v).get j = if i = j then v else s.get j := by
  have hinside : i < 8 * s.bytes.length := by
    have := s.index_lt hi
    omega
  rw [get_eq, get_eq, set, if_pos hi]
  exact Packed.get_modify (by decide)
    (fun b k hk => byteBit_setBit b (Nat.mod_lt i (by decide)) hk v) hinside j

/-- A bit past the end is not set, be there room for it in the last byte or not. -/
theorem set_of_le (s : FixedBitSet n) (hi : n ≤ i) (v : Bool) : s.set i v = s := by
  rw [set, if_neg (Nat.not_lt.2 hi)]

theorem get_zip {f : UInt8 → UInt8 → UInt8} {op : Bool → Bool → Bool}
    (hf : ∀ a b k, k < 8 → byteBit (f a b) k = op (byteBit a k) (byteBit b k))
    (hop : op false false = false) (s t : FixedBitSet n) (i : Nat) :
    (zip f s t).get i = op (s.get i) (t.get i) := by
  rw [get_eq, zip, Packed.get_zipWith (by decide) hf hop
    (s.length_bytes.trans t.length_bytes.symm), get_eq, get_eq]

theorem get_and (s t : FixedBitSet n) (i : Nat) : (s &&& t).get i = (s.get i && t.get i) :=
  get_zip (fun a b k _ => by simp [byteBit]) rfl s t i

theorem get_or (s t : FixedBitSet n) (i : Nat) : (s ||| t).get i = (s.get i || t.get i) :=
  get_zip (fun a b k _ => by simp [byteBit]) rfl s t i

theorem get_xor (s t : FixedBitSet n) (i : Nat) : (s ^^^ t).get i = (s.get i ^^ t.get i) :=
  get_zip (fun a b k _ => by simp [byteBit]) rfl s t i

/-- The complement is taken of all bits of the bytes. -/
theorem get_complement (s : FixedBitSet n) (i : Nat) :
    (~~~s).get i = (decide (i < 8 * byteLength n) && !s.get i) := by
  rw [get_eq, get_eq, ← s.length_bytes]
  exact Packed.get_map (by decide) (fun b k hk => byteBit_complement b hk) i

/-! ## Recipes -/

/-- What can be done to sets of `n` bits, one operation after the other. -/
inductive Recipe (n : Nat) where
  | given (s : FixedBitSet n)
  | set (r : Recipe n) (k : Nat) (v : Bool)
  | and (r r' : Recipe n)
  | or (r r' : Recipe n)
  | xor (r r' : Recipe n)
  | complement (r : Recipe n)

namespace Recipe

/-- The set that comes of a recipe. -/
def make : Recipe n → FixedBitSet n
  | given s => s
  | set r k v => r.make.set k v
  | and r r' => r.make &&& r'.make
  | or r r' => r.make ||| r'.make
  | xor r r' => r.make ^^^ r'.make
  | complement r => ~~~r.make

/-- What a recipe means for bit `i`. -/
def bit (i : Nat) : Recipe n → Bool
  | given s => s.get i
  | set r k v => if k = i ∧ k < n then v else r.bit i
  | and r r' => r.bit i && r'.bit i
  | or r r' => r.bit i || r'.bit i
  | xor r r' => r.bit i ^^ r'.bit i
  | complement r => !r.bit i

/-- **Operations act bit by bit**, on the bits past `n` in the last byte too. -/
theorem get_make (r : Recipe n) (hi : i < 8 * byteLength n) : r.make.get i = r.bit i := by
  induction r with
  | given s => rfl
  | set r k v ih =>
    rw [make, bit, ← ih]
    by_cases hk : k < n
    · simp [get_set _ hk, hk]
    · simp [set_of_le _ (Nat.not_lt.1 hk), hk]
  | and r r' ih ih' => rw [make, bit, get_and, ih, ih']
  | or r r' ih ih' => rw [make, bit, get_or, ih, ih']
  | xor r r' ih ih' => rw [make, bit, get_xor, ih, ih']
  | complement r ih => rw [make, bit, get_complement, decide_eq_true hi, Bool.true_and, ih]

end Recipe

/-- **A set of `n` bits keeps its width.** Let sets be given: ones without bits, of numbers, of bytes
that are as many as `n` bits take and no others, or read from a buffer. Whatever is then done to them,
bits set below `n` or past it, sets joined, complements taken, what comes of it has just these bytes
still. So it is valid; it is written without fail, as its bytes; it is read back from them, whatever
follows; and a bit below `n` lies in one of them. Each bit below `n` is what the operations make of the
same bit of the given sets, where setting a bit sets this one only, and one past the end none. -/
theorem width_kept (r : Recipe n) :
    let s := r.make
    let size := byteLength n
    (n ≤ 8 * size ∧ 8 * size < n + 8) ∧ s.bytes.length = size ∧ Wire.validate s = .ok () ∧
    (∀ b : Buffer, b.put (Wire.put s) = (.ok (), b.append s.bytes)) ∧
    (∀ consumed tail limit,
      Buffer.get { consumed, unread := s.bytes ++ tail, textLimit := limit } Wire.get
        = (.ok s, { consumed := consumed ++ s.bytes, unread := tail, textLimit := limit })) ∧
    (∀ bytes, ofBytes n bytes = .ok s ↔ bytes = s.bytes) ∧
    (∀ i, i < n → i / 8 < s.bytes.length ∧ s.get i = r.bit i ∧
      ∀ v j, (s.set i v).get j = if i = j then v else s.get j) ∧
    ∀ i v, n ≤ i → s.set i v = s := by
  intro s size
  refine ⟨byteLength_bounds n, s.length_bytes, s.validate_eq_ok,
    fun b => Put.put_of_run (run_put s _), ?_, fun bytes => ofBytes_eq_ok, ?_, fun i v hi => s.set_of_le hi v⟩
  · intro consumed tail limit
    exact readsBack_put s (run_put s limit) consumed tail nofun
  · intro i hi
    have hheld : i < 8 * byteLength n := Nat.lt_of_lt_of_le hi (byteLength_bounds n).1
    exact ⟨s.index_lt hi, r.get_make hheld, s.get_set hi⟩

/-- Eleven bits take two bytes. Bit 10 of a complement is set, and clearing bit 11 changes nothing, though
the second byte holds it. -/
theorem width_kept_elevenBits :
    let given : FixedBitSet 11 := { bytes := [255, 6], length_bytes := rfl }
    let r : Recipe 11 := .set (.set (.complement (.given given)) 10 true) 11 false
    r.make.bytes = [0, 253] ∧ Wire.validate r.make = .ok () ∧
      Buffer.get { unread := [0, 253, 9] } Wire.get
        = (.ok r.make, { consumed := [0, 253], unread := [9] }) ∧
      ofBytes 11 [0, 253] = .ok r.make ∧ r.make.get 10 = true ∧
      (r.make.set 3 true).get 3 = true ∧ r.make.set 15 false = r.make := by
  intro given r
  have hbytes : r.make.bytes = [0, 253] := by decide
  obtain ⟨-, -, hvalid, -, hread, hown, hbit, hpast⟩ := width_kept r
  have hback := hread [] [9] Limits.textLength
  rw [hbytes] at hback
  refine ⟨hbytes, hvalid, hback, (hown _).2 hbytes.symm, (hbit 10 (by decide)).2.1.trans ?_,
    ((hbit 3 (by decide)).2.2 true 3).trans ?_, hpast 15 false (by decide)⟩
  · decide
  · decide

end PacketStream.FixedBitSet
