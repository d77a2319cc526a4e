import Mathlib
import PacketStream.Proofs.Bits.Wire

/-!
# Reads with a header

An optional value stands behind a flag, and the words of a bit set behind their number. Neither read
puts the cursor back, so its failure leaves the header read where the header was all right and what
should follow it was not. The reads of single values are otherwise: all of them move nothing when
they fail.

`get_optional` is the equation of the optional read on all buffers, as `BitSet.get_read` is that of
bit sets. `restores_iff_header_fails` is the result: a failure leaves the cursor where it was if and
only if it is a failure of the header, and otherwise leaves it just behind the header.
-/

namespace PacketStream

variable {α : Type}

/-- A read that moves nothing when it fails. -/
def Get.Restores (g : Get α) : Prop :=
  ∀ ⦃b after : Buffer⦄ ⦃e : Fault⦄, b.get g = (.error e, after) → after = b

namespace Buffer

variable {b after : Buffer} {e : Fault} {flag : UInt8} {rest : List UInt8} {value : Get α}

/-! ## The flag -/

theorem get_byte_of_cons (h : b.unread = flag :: rest) : b.get Get.byte = (.ok flag, b.advance 1) := by
  have htake : b.get (Get.take 1) = (.ok [flag], b.advance 1) := by
    rw [get_take, if_neg (by simp [remaining, h]), h]
    rfl
  have hvalue : (BigEndian.decode [flag]).toUInt8 = flag := by
    simp [BigEndian.decode, BigEndian.decodeFrom, Nat.toUInt8]
  rw [Get.byte, Get.bigEndian, get_bind, get_bind_of_ok htake]
  show (Except.ok (BigEndian.decode [flag]).toUInt8, b.advance 1) = _
  rw [hvalue]

/-- A flag is one byte, and a byte that is no flag is left where it is. -/
theorem get_bool_of_cons (h : b.unread = flag :: rest) :
    b.get Get.bool =
      if flag = 0 then (.ok false, b.advance 1)
      else if flag = 1 then (.ok true, b.advance 1)
      else (.error (.malformed (.boolean flag b.position)), b) := by
  rw [Get.bool, get_restoring, get_bind_of_ok (get_position b), get_bind_of_ok (get_byte_of_cons h)]
  by_cases hzero : flag = 0
  · rw [if_pos hzero, if_pos hzero]
    rfl
  by_cases hone : flag = 1
  · rw [if_neg hzero, if_pos hone, if_neg hzero, if_pos hone]
    rfl
  · rw [if_neg hzero, if_neg hone, if_neg hzero, if_neg hone]
    rfl

theorem get_bool_of_nil (h : b.unread = []) :
    b.get Get.bool = (.error (.insufficientData b.position 1 0), b) := by
  obtain ⟨consumed, unread, textLimit⟩ := b
  cases h
  rfl

/-! ## Optional values -/

/-- **The read of an optional value, on all buffers.** What its value does starts behind the flag, and
so does what its value leaves when it fails. -/
theorem get_optional (value : Get α) (b : Buffer) :
    b.get (Get.optional value) =
      match b.unread with
      | [] => (.error (.insufficientData b.position 1 0), b)
      | flag :: _ =>
        if flag = 0 then (.ok none, b.advance 1)
        else if flag = 1 then
          match (b.advance 1).get value with
          | (.ok v, after) => (.ok (some v), after)
          | (.error e, after) => (.error e, after)
        else (.error (.malformed (.boolean flag b.position)), b) := by
  rw [Get.optional, get_bind]
  rcases h : b.unread with _ | ⟨flag, rest⟩
  · rw [get_bool_of_nil h]
  rw [get_bool_of_cons h]
  by_cases hzero : flag = 0
  · simp only [if_pos hzero]
    rfl
  by_cases hone : flag = 1
  · simp only [if_neg hzero, if_pos hone]
    rw [if_pos trivial, get_bind]
    rcases (b.advance 1).get value with ⟨e | v, after⟩ <;> rfl
  · simp only [if_neg hzero, if_neg hone]

/-- An optional read fails at its flag, or behind it in the read of the value. -/
theorem get_optional_error (h : b.get (Get.optional value) = (.error e, after)) :
    (b.unread.head? ≠ some 1 ∧ after = b) ∨
      (b.unread.head? = some 1 ∧ (b.advance 1).get value = (.error e, after)) := by
  rw [get_optional] at h
  rcases hunread : b.unread with _ | ⟨flag, rest⟩ <;> rw [hunread] at h
  · cases h
    exact .inl ⟨nofun, rfl⟩
  dsimp only at h
  split at h
  · cases h
  split at h
  · rename_i hone
    rcases hvalue : (b.advance 1).get value with ⟨e' | v, last⟩ <;> rw [hvalue] at h <;> cases h
    exact .inr ⟨by rw [hone]; rfl, rfl⟩
  · rename_i hone
    cases h
    exact .inl ⟨by simpa using hone, rfl⟩

/-! ## Both reads -/

/-- The cursor behind a header is not where it was. -/
theorem advance_ne {n : Nat} (hpos : 0 < n) (h : n ≤ b.remaining) : b.advance n ≠ b := by
  intro hsame
  have hposition := congrArg position hsame
  rw [position_advance h] at hposition
  omega

/-- The read of a bit set fails at the number of its words, or has read just that number. -/
theorem get_read_error (h : b.get BitSet.read = (.error e, after)) :
    ((∀ count size, Varint.decode 32 b.unread ≠ .ok (some (count, size))) ∧ after = b) ∨
      ∃ count size, Varint.decode 32 b.unread = .ok (some (count, size)) ∧
        after = b.advance size ∧
        (Limits.prefixedLength < count ∨ (b.advance size).remaining < 8 * count) := by
  rw [BitSet.get_read] at h
  rcases hdecode : Varint.decode 32 b.unread with refusal | (_ | ⟨count, size⟩) <;>
    rw [hdecode] at h
  · cases h
    exact .inl ⟨nofun, rfl⟩
  · cases h
    exact .inl ⟨nofun, rfl⟩
  dsimp only at h
  refine .inr ⟨count, size, rfl, ?_⟩
  split at h
  · rename_i hnegative
    cases h
    exact ⟨rfl, .inl hnegative⟩
  split at h
  · rename_i hshort
    cases h
    exact ⟨rfl, .inr hshort⟩
  · cases h

/-- **A read with a header puts the cursor back if and only if the header itself fails.** An optional
read of a value whose own read moves nothing when it fails has gone past the flag just where the flag
says that there is a value, and stays behind it with the fault of the value. A failing read of a bit
set has gone past the number of words just where that number can be read, and stays behind it: the
number was negative, or the words are not all there. -/
theorem restores_iff_header_fails (b : Buffer) :
    (∀ {α : Type} (value : Get α), value.Restores → ∀ e after,
      b.get (Get.optional value) = (.error e, after) →
      (after = b ↔ b.unread.head? ≠ some 1) ∧
      (b.unread.head? = some 1 →
        after = b.advance 1 ∧ (b.advance 1).get value = (.error e, b.advance 1))) ∧
    ∀ e after, b.get BitSet.read = (.error e, after) →
      (after = b ↔ ∀ count size, Varint.decode 32 b.unread ≠ .ok (some (count, size))) ∧
      ∀ count size, Varint.decode 32 b.unread = .ok (some (count, size)) →
        after = b.advance size ∧
          (Limits.prefixedLength < count ∨ (b.advance size).remaining < 8 * count) := by
  refine ⟨?_, ?_⟩
  · intro α value hvalue e after h
    rcases get_optional_error h with ⟨hflag, rfl⟩ | ⟨hflag, hfails⟩
    · exact ⟨iff_of_true rfl hflag, fun hone => absurd hone hflag⟩
    · obtain rfl := hvalue hfails
      have hlong : 1 ≤ b.remaining := by
        rw [remaining]
        rcases hunread : b.unread with _ | ⟨flag, rest⟩
        · rw [hunread] at hflag
          cases hflag
        · exact Nat.succ_le_succ (Nat.zero_le _)
      exact ⟨iff_of_false (advance_ne Nat.one_pos hlong) (not_not_intro hflag),
        fun _ => ⟨rfl, hfails⟩⟩
  · intro e after h
    rcases get_read_error h with ⟨hnone, rfl⟩ | ⟨count, size, hdecode, rfl, hcause⟩
    · exact ⟨iff_of_true rfl hnone, fun _ _ hdecode => absurd hdecode (hnone _ _)⟩
    · have hsize := Varint.decode_bounds (by decide) hdecode
      refine ⟨iff_of_false (advance_ne hsize.1 hsize.2.1) fun hnone => hnone _ _ hdecode, ?_⟩
      intro count' size' hdecode'
      rw [hdecode] at hdecode'
      cases hdecode'
      exact ⟨rfl, hcause⟩

/-- A missing byte behind a flag, and a missing word behind the number of words. A string that is not
all there is put back as far as its own length, but not the flag in front of it. -/
theorem restores_iff_header_fails_string :
    let b : Buffer := { consumed := [7], unread := [1, 3, 0x61] }
    let words : Buffer := { consumed := [7], unread := [1, 0x61] }
    Get.text.Restores ∧
      b.get (Get.optional Get.text) = (.error (.insufficientData 3 3 1), b.advance 1) ∧
      b.advance 1 ≠ b ∧
      words.get BitSet.read = (.error (.insufficientData 2 8 1), words.advance 1) ∧
      words.advance 1 ≠ words := by
  intro b words
  have htext : Get.text.Restores := Get.robust_text.restores
  have hb : (b.get (Get.optional Get.text)).1 = .error (.insufficientData 3 3 1) := by cbv
  have hwords : (words.get BitSet.read).1 = .error (.insufficientData 2 8 1) := by cbv
  have hone : Varint.decode 32 words.unread = .ok (some (1, 1)) := by cbv
  obtain ⟨hmoved, hbehind⟩ := (restores_iff_header_fails b).1 Get.text htext _ _ (Prod.ext hb rfl)
  obtain ⟨hleft, hcount⟩ := (restores_iff_header_fails words).2 _ _ (Prod.ext hwords rfl)
  have hafter := (hbehind rfl).1
  have hafter' := (hcount 1 1 hone).1
  refine ⟨htext, Prod.ext hb hafter, ?_, Prod.ext hwords hafter', ?_⟩
  · rw [← hafter]
    exact fun hsame => hmoved.1 hsame rfl
  · rw [← hafter']
    exact fun hsame => hleft.1 hsame 1 1 hone

/-- A byte that is not there behind its flag, and a word that is not there behind the number of words:
both reads have moved the cursor. -/
theorem header_stays_read :
    let b : Buffer := { unread := [1] }
    Get.byte.Restores ∧
      b.get (Get.optional Get.byte)
        = (.error (.insufficientData 1 1 0), { consumed := [1], unread := [] }) ∧
      b.get BitSet.read = (.error (.insufficientData 1 8 0), { consumed := [1], unread := [] }) ∧
      b ≠ { consumed := [1], unread := [] } := by
  refine ⟨Get.robust_byte.restores, by cbv, by cbv, by decide⟩

end Buffer

end PacketStream
