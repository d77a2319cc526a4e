import Mathlib
import PacketStream.Proofs.Varint.Prefix

/-!
# The language of varints

Which bytes are a varint, said without the reader. A `Form` is a run of bytes that ends with its
first byte without the high bit; `total` is the number it stands for, with no bound on it; and
`Begins` says that an input begins with a form that a width allows, be it the shortest of its number
or not.

`decode_eq_some_iff` ties the reader to the language, and `decode_concat_zero` says when it asks for
more: one byte more, a zero, would do. `decode_language` puts these together with the stability of
all other outcomes. `take_eq_encode` is about one number: of all its forms only the one that is
written is as short as that.
-/

namespace PacketStream.Varint

variable {bits i low value size n : Nat} {b : UInt8} {input form rest : List UInt8}

/-! ## Forms -/

/-- Bytes that end with their first byte without the high bit. -/
inductive Form : List UInt8 → Prop
  | last {b : UInt8} (ends : b.toNat < 128) : Form [b]
  | more {b : UInt8} {later : List UInt8} (goesOn : 128 ≤ b.toNat) (form : Form later) :
      Form (b :: later)

/-- The number that the low seven bits of the bytes make up, the lowest group first. -/
def total (bytes : List UInt8) : Nat :=
  ∑ i : Fin bytes.length, bytes[i].toNat % 128 * 2 ^ (7 * i.val)

/-- The input begins with a form that a width of `bits` bits allows, for its size and for its
number. -/
inductive Begins (bits : Nat) : (input : List UInt8) → (value size : Nat) → Prop
  | intro {form rest : List UInt8} (isForm : Form form) (short : form.length ≤ maxBytes bits)
      (fits : total form < 2 ^ bits) : Begins bits (form ++ rest) (total form) form.length

theorem Form.length_pos (h : Form form) : 0 < form.length := by
  cases h with
  | last => exact Nat.one_pos
  | more => exact Nat.succ_pos _

@[simp] theorem total_nil : total [] = 0 := rfl

theorem total_cons (b : UInt8) (rest : List UInt8) :
    total (b :: rest) = b.toNat % 128 + 128 * total rest := by
  have hshift (i : Nat) (c : UInt8) :
      c.toNat % 128 * 2 ^ (7 * (i + 1)) = 128 * (c.toNat % 128 * 2 ^ (7 * i)) := by
    rw [two_pow_group, Nat.mul_left_comm]
  show ∑ i : Fin (rest.length + 1), _ = _
  rw [Fin.sum_univ_succ, total, Finset.mul_sum]
  congr 1
  · simp
  · refine Finset.sum_congr rfl fun i _ => ?_
    exact hshift i rest[i]

/-- A group in front moves all others up one place. -/
theorem total_cons_mul (b : UInt8) (rest : List UInt8) (low i : Nat) :
    low + total (b :: rest) * 2 ^ (7 * i)
      = low + b.toNat % 128 * 2 ^ (7 * i) + total rest * 2 ^ (7 * (i + 1)) := by
  rw [total_cons, two_pow_group, Nat.add_mul, Nat.add_assoc, Nat.mul_comm 128, Nat.mul_assoc]

/-! ## The reader and the language -/

theorem shift_lt (hi : i < maxBytes bits) (hwidth : bits ≤ 64) : 7 * i < 64 := by
  rw [maxBytes] at hi
  omega

/-- A form that the width allows is read, whatever follows it. -/
theorem decodeFrom_form_append (hform : Form form) (rest : List UInt8) (hwidth : bits ≤ 64)
    (hshort : i + form.length ≤ maxBytes bits)
    (hfits : low + total form * 2 ^ (7 * i) < 2 ^ bits) :
    decodeFrom bits i low (form ++ rest)
      = .ok (some (low + total form * 2 ^ (7 * i), i + form.length)) := by
  induction hform generalizing i low with
  | @last b ends =>
    have hi := shift_lt (show i < maxBytes bits from hshort) hwidth
    have hvalue := total_cons_mul b [] low i
    rw [total_nil, Nat.zero_mul, Nat.add_zero] at hvalue
    rw [hvalue] at hfits ⊢
    show decodeFrom bits i low (b :: rest) = _
    rw [decodeFrom, Nat.min_eq_left hwidth, if_neg (by omega), if_pos ends]
    rfl
  | @more b later goesOn form ih =>
    have hi := shift_lt (show i < maxBytes bits by rw [List.length_cons] at hshort; omega) hwidth
    have hlater := form.length_pos
    rw [List.length_cons] at hshort
    rw [total_cons_mul] at hfits ⊢
    have hrange : ¬ (64 ≤ 7 * i ∨ 2 ^ min bits 64 ≤ low + b.toNat % 128 * 2 ^ (7 * i)) := by
      rw [Nat.min_eq_left hwidth]
      omega
    rw [List.cons_append, decodeFrom_cons_of_more hrange (by omega) (by omega),
      ih (by omega) hfits, List.length_cons, Nat.add_right_comm i 1]
    rfl

/-- What is read is a form that the width allows. -/
theorem exists_form_of_decodeFrom (hwidth : bits ≤ 64) (hi : i < maxBytes bits)
    (h : decodeFrom bits i low input = .ok (some (value, size))) :
    ∃ form rest, input = form ++ rest ∧ Form form ∧ size = i + form.length ∧
      size ≤ maxBytes bits ∧ value = low + total form * 2 ^ (7 * i) ∧ value < 2 ^ bits := by
  fun_induction decodeFrom bits i low input with
  | case1 => cases h
  | case2 => cases h
  | case3 i low b tail low' hrange hlast =>
    obtain ⟨rfl, rfl⟩ : low' = value ∧ i + 1 = size := by simpa using h
    rw [Nat.min_eq_left hwidth] at hrange
    refine ⟨[b], tail, rfl, .last hlast, rfl, hi, ?_, by omega⟩
    rw [total_cons_mul, total_nil, Nat.zero_mul, Nat.add_zero]
  | case4 => cases h
  | case5 i low b tail low' hrange hmore hmax ih =>
    obtain ⟨form, rest, rfl, hform, hsize, hshort, hvalue, hfits⟩ := ih (by omega) h
    refine ⟨b :: form, rest, rfl, .more (by omega) hform, ?_, hshort, ?_, hfits⟩
    · rw [hsize, List.length_cons]
      omega
    · rw [hvalue, total_cons_mul]

/-- **The reader accepts just the language.** -/
theorem decode_eq_some_iff (hbits : 0 < bits) (hwidth : bits ≤ 64) :
    decode bits input = .ok (some (value, size)) ↔ Begins bits input value size := by
  rw [decode_eq_decodeFrom hbits]
  constructor
  · intro h
    obtain ⟨form, rest, rfl, hform, hsize, hshort, hvalue, hfits⟩ :=
      exists_form_of_decodeFrom hwidth (maxBytes_pos hbits) h
    obtain rfl : size = form.length := by omega
    obtain rfl : value = total form := by simpa using hvalue
    exact .intro hform hshort hfits
  · intro h
    cases h with
    | @intro form rest isForm short fits =>
      have hread : decodeFrom bits 0 0 (form ++ rest) = _ :=
        decodeFrom_form_append isForm rest hwidth (by omega) (by simpa using fits)
      simpa using hread

/-- An input that ends inside a varint would be one with a zero byte more. -/
theorem decodeFrom_concat_zero (hwidth : bits ≤ 64) (hi : i < maxBytes bits) (hlow : low < 2 ^ bits)
    (h : decodeFrom bits i low input = .ok none) :
    ∃ value, decodeFrom bits i low (input ++ [0]) = .ok (some (value, i + input.length + 1)) := by
  fun_induction decodeFrom bits i low input with
  | case1 i low =>
    have hshift := shift_lt hi hwidth
    refine ⟨low, ?_⟩
    show decodeFrom bits i low [0] = _
    simp only [decodeFrom, UInt8.toNat_zero, Nat.zero_mod, Nat.zero_mul, Nat.add_zero]
    rw [Nat.min_eq_left hwidth, if_neg (by omega), if_pos (by decide)]
    rfl
  | case2 => cases h
  | case3 => cases h
  | case4 => cases h
  | case5 i low b tail low' hrange hmore hmax ih =>
    have hfits : low' < 2 ^ bits := by
      rw [Nat.min_eq_left hwidth] at hrange
      omega
    obtain ⟨value, hvalue⟩ := ih (by omega) hfits h
    refine ⟨value, ?_⟩
    rw [List.cons_append, decodeFrom_cons_of_more hrange hmore hmax, hvalue, List.length_cons,
      Nat.add_right_comm i 1, Nat.add_assoc i]

/-- **The reader asks for more where one byte more would do.** -/
theorem decode_concat_zero (hbits : 0 < bits) (hwidth : bits ≤ 64)
    (h : decode bits input = .ok none) :
    ∃ value, decode bits (input ++ [0]) = .ok (some (value, input.length + 1)) := by
  rw [decode_eq_decodeFrom hbits] at h
  obtain ⟨value, hvalue⟩ :=
    decodeFrom_concat_zero hwidth (maxBytes_pos hbits) (Nat.two_pow_pos bits) h
  refine ⟨value, ?_⟩
  rw [decode_eq_decodeFrom hbits, hvalue, Nat.zero_add]

/-- **The language of varints.** Under a width of 1 to 64 bits, the reader gives a number and a size
if and only if the input begins with so many bytes of which just the last has no high bit, there are
no more of them than the width allows, and the sum of their groups, whatever its size, is that
number and fits the width. It asks for more if and only if it gives nothing for the input, but
something for some longer one, and refuses the input if and only if it gives nothing for any
input that begins with it. So what is given or refused stays so, whatever bytes come behind. -/
theorem decode_language (hbits : 1 ≤ bits) (hwidth : bits ≤ 64) (input : List UInt8) :
    (∀ value size,
      decode bits input = .ok (some (value, size)) ↔ Begins bits input value size) ∧
    (decode bits input = .ok none ↔
      (∀ value size, decode bits input ≠ .ok (some (value, size))) ∧
        ∃ rest value size, decode bits (input ++ rest) = .ok (some (value, size))) ∧
    ((∃ refusal, decode bits input = .error refusal) ↔
      ∀ rest value size, decode bits (input ++ rest) ≠ .ok (some (value, size))) ∧
    (decode bits input ≠ .ok none → ∀ rest, decode bits (input ++ rest) = decode bits input) := by
  refine ⟨fun value size => decode_eq_some_iff hbits hwidth, ?_, ?_, decode_append hbits⟩
  · constructor
    · intro h
      obtain ⟨value, hvalue⟩ := decode_concat_zero hbits hwidth h
      refine ⟨?_, [0], value, _, hvalue⟩
      intro value' size' hsome
      rw [h] at hsome
      cases hsome
    · intro h
      obtain ⟨hnot, rest, value, size, hlater⟩ := h
      rcases hdecode : decode bits input with refusal | (_ | ⟨value', size'⟩)
      · rw [decode_append_of_error hbits hdecode] at hlater
        cases hlater
      · rfl
      · exact absurd hdecode (hnot value' size')
  · constructor
    · intro h rest value size hlater
      obtain ⟨refusal, hrefusal⟩ := h
      rw [decode_append_of_error hbits hrefusal] at hlater
      cases hlater
    · intro h
      rcases hdecode : decode bits input with refusal | (_ | ⟨value, size⟩)
      · exact ⟨refusal, rfl⟩
      · obtain ⟨value, hvalue⟩ := decode_concat_zero hbits hwidth hdecode
        exact absurd hvalue (h [0] value _)
      · exact absurd (decode_append_of_some hbits hdecode []) (h [] value size)

/-- The tenth byte of a varint of 64 bits has room for one bit: nine bytes of ones are the beginning
of the largest number, and no beginning of any number if a two stands behind them. Zeros behind a
number of seven bits may fill up the bytes of its width, and no more than these. -/
theorem decode_language_tenthByte :
    let nine : List UInt8 := List.replicate 9 0xFF
    (∃ rest value size, decode 64 (nine ++ rest) = .ok (some (value, size))) ∧
      Begins 64 (nine ++ [1, 7]) 18446744073709551615 10 ∧
      (∀ rest value size, decode 64 (nine ++ [2] ++ rest) ≠ .ok (some (value, size))) ∧
      Begins 15 [0x85, 0x80, 0, 9] 5 3 ∧
      ∀ rest value size, decode 14 ([0x85, 0x80, 0, 9] ++ rest) ≠ .ok (some (value, size)) := by
  intro nine
  obtain ⟨-, hopen, -, -⟩ := @decode_language 64 (by decide) (by decide) nine
  obtain ⟨hlargest, -, -, -⟩ := @decode_language 64 (by decide) (by decide) (nine ++ [1, 7])
  obtain ⟨-, -, hrefused, -⟩ := @decode_language 64 (by decide) (by decide) (nine ++ [2])
  obtain ⟨hpadded, -, -, -⟩ := @decode_language 15 (by decide) (by decide) [0x85, 0x80, 0, 9]
  obtain ⟨-, -, hfull, -⟩ := @decode_language 14 (by decide) (by decide) [0x85, 0x80, 0, 9]
  exact ⟨(hopen.1 (by cbv)).2, (hlargest _ _).1 (by cbv), hrefused.1 ⟨.outOfRange, by cbv⟩,
    (hpadded _ _).1 (by cbv), hfull.1 ⟨.tooLong, by cbv⟩⟩

/-! ## The shortest form of a number -/

/-- A form with as many bytes as are written for its number is what is written. -/
theorem encode_total (h : Form form) (hlength : form.length = length (total form)) :
    encode (total form) = form := by
  induction h with
  | @last b ends =>
    have hvalue : total [b] = b.toNat := by
      rw [total_cons, total_nil]
      omega
    rw [hvalue, encode, if_pos ends, Nat.toUInt8, UInt8.ofNat_toNat]
  | @more b later goesOn form ih =>
    have hlater := form.length_pos
    rw [total_cons] at hlength ⊢
    rw [List.length_cons] at hlength
    -- one byte would do for a number below 128
    have hlarge : 128 ≤ b.toNat % 128 + 128 * total later := by
      by_contra hsmall
      rw [length_of_lt (by omega)] at hlength
      omega
    have hdiv : (b.toNat % 128 + 128 * total later) / 128 = total later := by omega
    have hmod : (b.toNat % 128 + 128 * total later) % 128 + 128 = b.toNat := by
      have := b.toNat_lt
      omega
    rw [length_of_le hlarge, hdiv] at hlength
    rw [encode, if_neg (by omega), hdiv, hmod, ih (by omega), Nat.toUInt8, UInt8.ofNat_toNat]

/-- **Only the form that is written is as short as that.** -/
theorem take_eq_encode (hbits : 0 < bits) (hwidth : bits ≤ 64)
    (h : decode bits input = .ok (some (n, length n))) : input.take (length n) = encode n := by
  have hbegins := (decode_eq_some_iff hbits hwidth).1 h
  generalize hsize : length n = size at hbegins ⊢
  cases hbegins with
  | intro isForm short fits => rw [encode_total isForm hsize.symm, List.take_left]

end PacketStream.Varint
