/-!
# Bits packed in words

Both kinds of bit sets keep their bits in a list of words of one width, the word of the lowest bits
first. `Packed.get` is the view of such a list as a function on all indices, and each way to make a
list from others has one lemma that says what comes of the view. Words enter these lemmas by their
bits alone, so they hold of bytes and of words of 64 bits.

`getLsbD_setBit` says of a single word, of either width, what setting or clearing a bit does.
-/

namespace PacketStream

namespace Packed

variable {α : Type} {width : Nat} {bit : α → Nat → Bool} {words others : List α} {i j : Nat}

/-- Bit `i` of words of `width` bits. Past the last word no bit is set. -/
def get (width : Nat) (bit : α → Nat → Bool) (words : List α) (i : Nat) : Bool :=
  match words[i / width]? with
  | some w => bit w (i % width)
  | none => false

theorem get_of_le (hwidth : 0 < width) (h : width * words.length ≤ i) :
    get width bit words i = false := by
  have hpast : words.length ≤ i / width := (Nat.le_div_iff_mul_le hwidth).2 (by rwa [Nat.mul_comm])
  simp [get, hpast]

/-- A bit among the words is a bit of one of them. -/
theorem exists_word (bit : α → Nat → Bool) (hi : i < width * words.length) :
    ∃ w, words[i / width]? = some w ∧ get width bit words i = bit w (i % width) := by
  have hword : i / width < words.length := Nat.div_lt_of_lt_mul hi
  refine ⟨words[i / width], List.getElem?_eq_getElem hword, ?_⟩
  simp [get, hword]

/-- What is done to each bit of each word is done to each bit that there is. -/
theorem get_map {f : α → α} {op : Bool → Bool} (hwidth : 0 < width)
    (hf : ∀ w k, k < width → bit (f w) k = op (bit w k)) (i : Nat) :
    get width bit (words.map f) i
      = (decide (i < width * words.length) && op (get width bit words i)) := by
  by_cases hi : i < width * words.length
  · obtain ⟨w, hw, hget⟩ := exists_word bit hi
    rw [hget, ← hf w _ (Nat.mod_lt i hwidth)]
    simp [get, hw, hi]
  · rw [get_of_le hwidth (by rw [List.length_map]; omega)]
    simp [hi]

/-- What is done to the bits of two words is done to the bits of both lists, if it makes an unset bit
of two unset ones. -/
theorem get_zipWith {f : α → α → α} {op : Bool → Bool → Bool} (hwidth : 0 < width)
    (hf : ∀ u w k, k < width → bit (f u w) k = op (bit u k) (bit w k))
    (hop : op false false = false) (hsame : words.length = others.length) (i : Nat) :
    get width bit (words.zipWith f others) i
      = op (get width bit words i) (get width bit others i) := by
  by_cases hi : i < width * words.length
  · obtain ⟨u, hu, hget⟩ := exists_word bit hi
    obtain ⟨w, hw, hget'⟩ := exists_word bit (hsame ▸ hi)
    rw [hget, hget', ← hf u w _ (Nat.mod_lt i hwidth)]
    simp [get, List.getElem?_zipWith, hu, hw]
  · have hlength : (words.zipWith f others).length = words.length := by simp [hsame]
    rw [get_of_le hwidth (by rw [hlength]; omega), get_of_le hwidth (by omega),
      get_of_le hwidth (by rw [← hsame]; omega), hop]

/-- Where a word changes in one bit, this bit changes and no other. -/
theorem get_modify {f : α → α} {v : Bool} (hwidth : 0 < width)
    (hf : ∀ w k, k < width → bit (f w) k = if i % width = k then v else bit w k)
    (hi : i < width * words.length) (j : Nat) :
    get width bit (words.modify (i / width) f) j = if i = j then v else get width bit words j := by
  by_cases hword : i / width = j / width
  · obtain ⟨w, hw, hget⟩ := exists_word bit hi
    have hbit := hf w _ (Nat.mod_lt j hwidth)
    have hsame : i = j ↔ i % width = j % width := by
      refine ⟨fun h => h ▸ rfl, fun h => ?_⟩
      rw [← Nat.div_add_mod i width, ← Nat.div_add_mod j width, hword, h]
    rw [hword] at hw ⊢
    simp [get, hw, hbit, hsame]
  · have hother : i ≠ j := fun h => hword (h ▸ rfl)
    simp [get, hword, hother]

/-- Words without bits at the end make no difference. -/
theorem get_append_replicate {zero : α} (hzero : ∀ k, bit zero k = false) (count i : Nat) :
    get width bit (words ++ List.replicate count zero) i = get width bit words i := by
  simp only [get]
  by_cases hword : i / width < words.length
  · rw [List.getElem?_append_left hword]
  · rw [List.getElem?_append_right (by omega), List.getElem?_replicate,
      List.getElem?_eq_none (by omega)]
    by_cases hgap : i / width - words.length < count <;> simp [hgap, hzero]

/-- A word at the end has the bits behind all others. -/
theorem get_concat (w : α) (i : Nat) :
    get width bit (words ++ [w]) i
      = if i / width = words.length then bit w (i % width) else get width bit words i := by
  simp only [get]
  rcases Nat.lt_trichotomy (i / width) words.length with hword | hword | hword
  · rw [List.getElem?_append_left hword, if_neg (Nat.ne_of_lt hword)]
  · simp [hword]
  · rw [if_neg (Nat.ne_of_gt hword), List.getElem?_eq_none (by simp; omega),
      List.getElem?_eq_none (by omega)]

/-- **As many words with the same bits are the same words.** -/
theorem eq_of_get_eq (hword : ∀ u w : α, (∀ k, k < width → bit u k = bit w k) → u = w)
    (hsame : words.length = others.length)
    (h : ∀ i, i < width * words.length → get width bit words i = get width bit others i) :
    words = others := by
  refine List.ext_getElem hsame fun n hn hn' => hword _ _ fun k hk => ?_
  have hdiv : (width * n + k) / width = n := by
    rw [Nat.mul_add_div (by omega), Nat.div_eq_of_lt hk, Nat.add_zero]
  have hmod : (width * n + k) % width = k := by rw [Nat.mul_add_mod, Nat.mod_eq_of_lt hk]
  have hbit : width * n + k < width * words.length := by
    calc width * n + k < width * (n + 1) := by rw [Nat.mul_add]; omega
      _ ≤ width * words.length := Nat.mul_le_mul_left _ hn
  have hget := h _ hbit
  simpa [get, hdiv, hmod, hn, hn'] using hget

end Packed

/-! ## Single words -/

/-- Setting or clearing one bit leaves the others. -/
theorem getLsbD_setBit {width k m : Nat} (x : BitVec width) (v : Bool) (hm : m < width) :
    (if v then x ||| BitVec.ofNat width 1 <<< k else x &&& ~~~(BitVec.ofNat width 1 <<< k)).getLsbD m
      = if k = m then v else x.getLsbD m := by
  rcases Nat.lt_trichotomy k m with h | rfl | h
  · have hk : ¬ m - k = 0 := by omega
    cases v <;> simp [hm, Nat.ne_of_lt h, hk]
  · cases v <;> simp [hm]
  · cases v <;> simp [hm, Nat.ne_of_gt h, h]

end PacketStream
