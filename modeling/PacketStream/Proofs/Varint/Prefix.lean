import PacketStream.Varint

/-!
# Varints at the front of longer inputs

A reader that has seen only some of the bytes must come to the outcome that it would have come to
with all of them. `decode_append` says so: an outcome other than "more bytes" is settled by the
bytes that gave it. `decode_concat_size` adds that a varint which a single byte completes ends with
that byte, so that a reader who takes one byte at a time takes none too many.

`eq_of_decode_encode` is the converse of `decode_encode_append`: whatever the width, what the
reader accepts of a shortest form is the number that was written.
-/

namespace PacketStream.Varint

variable {bits i low value size n : Nat} {input rest : List UInt8}

/-- A byte that asks for more, and is allowed to, is added to the number. -/
theorem decodeFrom_cons_of_more {b : UInt8}
    (hrange : ¬ (64 ≤ 7 * i ∨ 2 ^ min bits 64 ≤ low + b.toNat % 128 * 2 ^ (7 * i)))
    (hmore : ¬ b.toNat < 128) (hmax : i + 1 ≠ maxBytes bits) (rest : List UInt8) :
    decodeFrom bits i low (b :: rest)
      = decodeFrom bits (i + 1) (low + b.toNat % 128 * 2 ^ (7 * i)) rest := by
  simp only [decodeFrom]
  rw [if_neg hrange, if_neg hmore, if_neg hmax]

theorem decodeFrom_append (h : decodeFrom bits i low input ≠ .ok none) :
    decodeFrom bits i low (input ++ rest) = decodeFrom bits i low input := by
  fun_induction decodeFrom bits i low input with
  | case1 => exact absurd rfl h
  | case2 i low b tail value hrange =>
    simp only [List.cons_append, decodeFrom]
    rw [if_pos hrange]
  | case3 i low b tail value hrange hlast =>
    simp only [List.cons_append, decodeFrom]
    rw [if_neg hrange, if_pos hlast]
  | case4 i low b tail value hrange hmore hmax =>
    simp only [List.cons_append, decodeFrom]
    rw [if_neg hrange, if_neg hmore, if_pos hmax]
  | case5 i low b tail value hrange hmore hmax ih =>
    rw [List.cons_append, decodeFrom_cons_of_more hrange hmore hmax]
    exact ih h

/-- **What settles a varint stays settled.** Bytes behind those that gave a value or a refusal are
never looked at. -/
theorem decode_append (hbits : 0 < bits) (h : decode bits input ≠ .ok none)
    (rest : List UInt8) : decode bits (input ++ rest) = decode bits input := by
  rw [decode_eq_decodeFrom hbits] at h ⊢
  rw [decode_eq_decodeFrom hbits, decodeFrom_append h]

theorem decode_append_of_some (hbits : 0 < bits) (h : decode bits input = .ok (some (value, size)))
    (rest : List UInt8) : decode bits (input ++ rest) = .ok (some (value, size)) := by
  rw [decode_append hbits (by rw [h]; simp), h]

theorem decode_append_of_error {refusal : Refusal} (hbits : 0 < bits)
    (h : decode bits input = .error refusal) (rest : List UInt8) :
    decode bits (input ++ rest) = .error refusal := by
  rw [decode_append hbits (by rw [h]; simp), h]

@[simp] theorem decode_nil : decode bits [] = .ok none := by
  simp [decode, decodeFrom]

/-- A width of no bits never comes to an end. -/
theorem pos_of_decode (h : decode bits input ≠ .ok none) : 0 < bits := by
  refine Nat.pos_of_ne_zero ?_
  rintro rfl
  exact h (by simp [decode, maxBytes, decodeFrom])

/-! ## Sizes -/

theorem decodeFrom_bounds (h : decodeFrom bits i low input = .ok (some (value, size))) :
    i < size ∧ size ≤ i + input.length ∧ value < 2 ^ min bits 64 := by
  fun_induction decodeFrom bits i low input with
  | case1 => cases h
  | case2 => cases h
  | case3 i low b tail low' hrange =>
    obtain ⟨hvalue, hsize⟩ : low' = value ∧ i + 1 = size := by simpa using h
    rw [List.length_cons]
    omega
  | case4 => cases h
  | case5 i low b tail low' _ _ _ ih =>
    obtain ⟨hlow, hhigh, hvalue⟩ := ih h
    rw [List.length_cons]
    omega

theorem decode_bounds (hbits : 0 < bits) (h : decode bits input = .ok (some (value, size))) :
    0 < size ∧ size ≤ input.length ∧ value < 2 ^ min bits 64 := by
  rw [decode_eq_decodeFrom hbits] at h
  obtain ⟨hlow, hhigh, hvalue⟩ := decodeFrom_bounds h
  exact ⟨hlow, by omega, hvalue⟩

theorem decodeFrom_take_size (h : decodeFrom bits i low input = .ok (some (value, size))) :
    decodeFrom bits i low (input.take (size - i)) = .ok (some (value, size)) := by
  fun_induction decodeFrom bits i low input with
  | case1 => cases h
  | case2 => cases h
  | case3 i low b tail low' hrange hlast =>
    obtain ⟨hvalue, hsize⟩ : low' = value ∧ i + 1 = size := by simpa using h
    rw [← hsize, ← hvalue, Nat.add_sub_cancel_left, List.take_succ_cons]
    simp only [decodeFrom]
    rw [if_neg hrange, if_pos hlast]
  | case4 => cases h
  | case5 i low b tail low' hrange hmore hmax ih =>
    have hbounds := decodeFrom_bounds h
    rw [show size - i = size - (i + 1) + 1 by omega, List.take_succ_cons,
      decodeFrom_cons_of_more hrange hmore hmax]
    exact ih h

/-- The bytes of a varint alone give the varint. -/
theorem decode_take_size (hbits : 0 < bits) (h : decode bits input = .ok (some (value, size))) :
    decode bits (input.take size) = .ok (some (value, size)) := by
  rw [decode_eq_decodeFrom hbits] at h ⊢
  exact decodeFrom_take_size (i := 0) h

theorem decodeFrom_concat_size {b : UInt8} (hopen : decodeFrom bits i low input = .ok none)
    (h : decodeFrom bits i low (input ++ [b]) = .ok (some (value, size))) :
    size = i + input.length + 1 := by
  fun_induction decodeFrom bits i low input with
  | case1 i low =>
    have hbounds := decodeFrom_bounds h
    rw [List.nil_append, List.length_singleton] at hbounds
    rw [List.length_nil]
    omega
  | case2 => cases hopen
  | case3 => cases hopen
  | case4 => cases hopen
  | case5 i low c tail low' hrange hmore hmax ih =>
    rw [List.cons_append, decodeFrom_cons_of_more hrange hmore hmax] at h
    rw [ih hopen h, List.length_cons]
    omega

/-- **The byte that completes a varint is its last.** -/
theorem decode_concat_size {b : UInt8} (hbits : 0 < bits) (hopen : decode bits input = .ok none)
    (h : decode bits (input ++ [b]) = .ok (some (value, size))) :
    size = (input ++ [b]).length := by
  rw [decode_eq_decodeFrom hbits] at hopen h
  have := decodeFrom_concat_size hopen h
  rw [List.length_append, List.length_singleton]
  omega

/-! ## Whole forms -/

/-- All of `form` is a varint of 32 bits, for the number. -/
def Denotes (form : List UInt8) (n : Nat) : Prop := decode 32 form = .ok (some (n, form.length))

/-- The bytes that a reader takes for a number are a form of it. -/
theorem denotes_take (h : decode 32 input = .ok (some (n, size))) :
    Denotes (input.take size) n := by
  have hsize : size ≤ input.length := (decode_bounds (by decide) h).2.1
  rw [Denotes, List.length_take, Nat.min_eq_left hsize]
  exact decode_take_size (by decide) h

/-- What is in front of other bytes is read, whatever its form. -/
theorem Denotes.decode_append {form : List UInt8} (h : Denotes form n) (rest : List UInt8) :
    decode 32 (form ++ rest) = .ok (some (n, form.length)) :=
  decode_append_of_some (show 0 < 32 by decide) h rest

/-- **A form stops where every other form in its place does.** -/
theorem Denotes.append_inj {form form' rest' : List UInt8} {n' : Nat} (h : Denotes form n)
    (h' : Denotes form' n') (heq : form ++ rest = form' ++ rest') :
    form = form' ∧ n = n' ∧ rest = rest' := by
  have hsame := (h.decode_append rest).symm.trans (heq ▸ h'.decode_append rest')
  simp only [Except.ok.injEq, Option.some.injEq, Prod.mk.injEq] at hsame
  obtain ⟨hform, hrest⟩ := List.append_inj heq hsame.2
  exact ⟨hform, hsame.1, hrest⟩

/-! ## Shortest forms -/

theorem eq_of_decodeFrom_encode
    (h : decodeFrom bits i low (encode n ++ rest) = .ok (some (value, size))) :
    value = low + n * 2 ^ (7 * i) ∧ size = i + length n := by
  fun_induction encode n generalizing i low with
  | case1 n hn =>
    have hb : n.toUInt8.toNat = n := by simp [Nat.toUInt8]; omega
    have hmod : n % 128 = n := Nat.mod_eq_of_lt hn
    simp only [List.cons_append, List.nil_append, decodeFrom, hb, hmod] at h
    rw [length_of_lt hn]
    split at h
    · cases h
    · cases h
      exact ⟨rfl, rfl⟩
  | case2 n hn ih =>
    have hb : (n % 128 + 128).toUInt8.toNat = n % 128 + 128 := by simp [Nat.toUInt8]; omega
    have hmod : (n % 128 + 128) % 128 = n % 128 := by omega
    simp only [List.cons_append, decodeFrom, hb, hmod] at h
    split at h
    · cases h
    rw [if_neg (by omega)] at h
    split at h
    · cases h
    · obtain ⟨rfl, rfl⟩ := ih h
      rw [length_of_le (n := n) (by omega), add_group]
      exact ⟨rfl, by omega⟩

/-- **A shortest form is never taken for another number**, also under a width that is too small
for it. -/
theorem eq_of_decode_encode (hbits : 0 < bits)
    (h : decode bits (encode n ++ rest) = .ok (some (value, size))) :
    value = n ∧ size = length n := by
  rw [decode_eq_decodeFrom hbits] at h
  simpa using eq_of_decodeFrom_encode h

/-- The groups that have been read bound the value. -/
theorem decodeFrom_lt (h : decodeFrom bits i low input = .ok (some (value, size)))
    (hlow : low < 2 ^ (7 * i)) : value < 2 ^ (7 * size) := by
  -- a group on top of what is read so far stays below the next power
  have hstep {i low : Nat} (b : UInt8) (hlow : low < 2 ^ (7 * i)) :
      low + b.toNat % 128 * 2 ^ (7 * i) < 2 ^ (7 * (i + 1)) := by
    have hgroup : b.toNat % 128 * 2 ^ (7 * i) ≤ 127 * 2 ^ (7 * i) :=
      Nat.mul_le_mul_right _ (by omega)
    rw [two_pow_group]
    omega
  fun_induction decodeFrom bits i low input with
  | case1 => cases h
  | case2 => cases h
  | case3 i low b tail low' hrange hlast =>
    obtain ⟨rfl, rfl⟩ : low' = value ∧ i + 1 = size := by simpa using h
    exact hstep b hlow
  | case4 => cases h
  | case5 i low b tail low' hrange hmore hmax ih => exact ih h (hstep b hlow)

theorem length_le_of_lt {k : Nat} (hk : 0 < k) (h : n < 2 ^ (7 * k)) : length n ≤ k := by
  have hmax := length_le_maxBytes h (Nat.mul_pos (by decide) hk)
  rw [maxBytes] at hmax
  omega

/-- **No accepted form is shorter** than the one that is written. -/
theorem length_le_of_decode (hbits : 0 < bits) (h : decode bits input = .ok (some (value, size))) :
    length value ≤ size := by
  have hsize := (decode_bounds hbits h).1
  rw [decode_eq_decodeFrom hbits] at h
  exact length_le_of_lt hsize (decodeFrom_lt h (by simp))

/-- Only zero begins with a zero byte. -/
theorem head?_encode (n : Nat) : (encode n).head? = some 0 ↔ n = 0 := by
  rw [encode]
  split
  · rw [List.head?_cons, Option.some.injEq, ← UInt8.toNat_inj]
    simp [Nat.toUInt8]
    omega
  · rw [List.head?_cons, Option.some.injEq, ← UInt8.toNat_inj]
    simp [Nat.toUInt8]
    omega

end PacketStream.Varint
