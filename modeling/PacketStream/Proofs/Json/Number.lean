import Mathlib
import PacketStream.Json.Number
import PacketStream.Json.Printer

/-!
# Numbers as they are spelled

A whole number has one spelling: no zeros stand in front, and there is no sign but the minus. So it is
printed just as it was spelled (`Number.chars_of_ofChars?`). Only a number that is read as floating
point can be printed in another way, be it longer or shorter than its spelling.
-/

namespace PacketStream.Json

/-! ## Digits -/

section

variable {c : Char} {digits : List Char} {value : Nat}

theorem isDigit_iff : isDigit c = true ↔ 48 ≤ c.toNat ∧ c.toNat ≤ 57 := by
  rw [isDigit, Bool.and_eq_true, decide_eq_true_eq, decide_eq_true_eq]
  exact Iff.rfl

theorem digitValue_lt (h : isDigit c = true) : digitValue c < 10 := by
  have hc := isDigit_iff.1 h
  have hzero : '0'.toNat = 48 := rfl
  rw [digitValue]
  omega

theorem digitChar_digitValue (h : isDigit c = true) : Nat.digitChar (digitValue c) = c := by
  have hc := isDigit_iff.1 h
  have hzero : '0'.toNat = 48 := rfl
  rw [← Char.toNat_inj, Nat.toNat_digitChar_of_lt_ten (digitValue_lt h), digitValue]
  omega

/-- Digits that follow a number that is not zero follow its digits. -/
theorem toDigits_foldl (hdigits : ∀ c ∈ digits, isDigit c = true) (hvalue : 0 < value) :
    Nat.toDigits 10 (digits.foldl (fun n c => 10 * n + digitValue c) value)
      = Nat.toDigits 10 value ++ digits := by
  induction digits generalizing value with
  | nil => rw [List.foldl_nil, List.append_nil]
  | cons c rest ih =>
    obtain ⟨hc, hrest⟩ := List.forall_mem_cons.1 hdigits
    have hlt := digitValue_lt hc
    rw [List.foldl_cons, ih hrest (by omega), ← Nat.toDigits_append_toDigits (by decide) hvalue hlt,
      Nat.toDigits_of_lt_base hlt, digitChar_digitValue hc, List.append_assoc, List.singleton_append]

/-- **A whole number has one spelling.** -/
theorem toDigits_of_isWhole (hwhole : NumberText.isWhole digits = true)
    (hdigits : ∀ c ∈ digits, isDigit c = true) :
    Nat.toDigits 10 (digits.foldl (fun n c => 10 * n + digitValue c) 0) = digits := by
  rcases digits with _ | ⟨c, rest⟩
  · cases hwhole
  obtain ⟨hc, hrest⟩ := List.forall_mem_cons.1 hdigits
  have hlt := digitValue_lt hc
  rw [List.foldl_cons, Nat.mul_zero, Nat.zero_add]
  by_cases hzero : c = '0'
  · subst hzero
    rw [NumberText.isWhole, List.isEmpty_iff] at hwhole
    subst hwhole
    rfl
  · have hpos : 0 < digitValue c := by
      refine Nat.pos_of_ne_zero fun h => hzero ?_
      rw [← digitChar_digitValue hc, h]
      rfl
    rw [toDigits_foldl hrest hpos, Nat.toDigits_of_lt_base hlt, digitChar_digitValue hc,
      List.singleton_append]

/-- Digits that are all gathered give their number, which fits 64 bits. -/
theorem gather_of_all (hvalue : value < UInt64.size) (h : (gather value digits).2 = 0) :
    (gather value digits).1 = digits.foldl (fun n c => 10 * n + digitValue c) value ∧
      (gather value digits).1 < UInt64.size := by
  induction digits generalizing value with
  | nil => exact ⟨rfl, hvalue⟩
  | cons c rest ih =>
    rw [gather] at h ⊢
    split at h
    · rename_i hnext
      rw [if_pos hnext]
      exact ih hnext h
    · cases h

end

/-! ## Whole numbers -/

section

variable {chars : List Char} {t : NumberText} {n : Number}

/-- What follows a guard follows it only where it holds. -/
theorem of_guard {α : Type} {p : Prop} [Decidable p] {x : Option α} {y : α}
    (h : (guard p >>= fun _ => x) = some y) : p ∧ x = some y := by
  by_cases hp : p
  · exact ⟨hp, by rwa [guard, if_pos hp] at h⟩
  · rw [guard, if_neg hp] at h
    cases h

/-- The parts of a number have the form that they need. Without fraction and exponent the text is a sign
and an integer part, and nothing else. -/
theorem NumberText.of_ofChars? (h : NumberText.ofChars? chars = some t) :
    isWhole t.integer = true ∧ (∀ c ∈ t.integer, isDigit c = true) ∧
      (t.fraction = none → t.exponent = none →
        chars = if t.negative then '-' :: t.integer else t.integer) := by
  unfold NumberText.ofChars? at h
  split at h
  rename_i negative unsigned hsign
  have hchars : chars = if negative then '-' :: unsigned else unsigned := by
    split at hsign <;> cases hsign <;> rfl
  obtain ⟨hwhole, h⟩ := of_guard h
  extract_lets text at h
  have htext : text = unsigned.dropWhile isDigit := rfl
  clear_value text
  split at h
  rename_i fraction rest hfraction
  obtain ⟨-, h⟩ := of_guard h
  split at h
  · cases h
    refine ⟨hwhole, fun c => List.mem_takeWhile_imp, fun hnone _ => ?_⟩
    have hnothing : unsigned.dropWhile isDigit = [] := by
      dsimp only at hnone
      subst hnone
      split at hfraction
      · cases hfraction
      · rw [← htext]
        exact congrArg Prod.snd hfraction
    have hunsigned : unsigned.takeWhile isDigit = unsigned := by
      conv_rhs => rw [← List.takeWhile_append_dropWhile (p := isDigit) (l := unsigned), hnothing,
        List.append_nil]
    dsimp only
    rw [hunsigned]
    exact hchars
  · split at h
    obtain ⟨-, h⟩ := of_guard h
    obtain ⟨-, h⟩ := of_guard h
    cases h
    exact ⟨hwhole, fun c => List.mem_takeWhile_imp, nofun⟩

/-- An integer of 64 bits is printed by its digits; negative zero and what is below the least one are
floating point. -/
theorem chars_ofWhole (negative : Bool) {digits : Nat} (hdigits : digits < UInt64.size) :
    (ofWhole negative digits).chars
        = (if negative then '-' :: Nat.toDigits 10 digits else Nat.toDigits 10 digits) ∨
      ∃ bits, ofWhole negative digits = .float bits := by
  rw [ofWhole]
  cases negative with
  | false =>
    refine .inl ?_
    rw [if_pos (by decide), Number.chars, if_neg (by decide), UInt64.toNat_ofNat_of_lt' hdigits]
  | true =>
    rw [if_neg (by decide)]
    split
    · rename_i hrange
      have hmin : Int64.minValue.toInt = -2 ^ 63 := rfl
      have hint : (Int64.ofInt (-digits)).toInt = -digits :=
        Int64.toInt_ofInt_of_le (by omega) (by omega)
      refine .inl ?_
      rw [if_pos rfl, Number.chars, hint, Int.natAbs_neg, Int.natAbs_natCast]
    · exact .inr ⟨_, rfl⟩

/-- **A number is printed as it was spelled**, if it is not read as floating point. -/
theorem Number.chars_of_ofChars? (h : Number.ofChars? chars = some n) :
    n.chars = chars ∨ ∃ bits, n = .float bits := by
  obtain ⟨t, ht, hvalue⟩ := Option.bind_eq_some_iff.1 h
  obtain ⟨hwhole, hdigits, hchars⟩ := NumberText.of_ofChars? ht
  have hfloat {negative : Bool} {magnitude? : Option Nat}
      (h : (magnitude?.bind fun m => some (ofMagnitude negative m)) = some n) :
      ∃ bits, n = .float bits := by
    obtain ⟨m, -, hn⟩ := Option.bind_eq_some_iff.1 h
    cases hn
    exact ⟨_, rfl⟩
  rw [NumberText.value?] at hvalue
  split at hvalue
  rename_i digits dropped hgather
  split at hvalue
  · rename_i hfraction hexponent
    split at hvalue
    · rename_i hdropped
      have hall : (gather 0 t.integer).2 = 0 := by rw [hgather, hdropped]
      obtain ⟨hfold, hlt⟩ := gather_of_all (by decide) hall
      rw [hgather] at hfold hlt
      cases hvalue
      rcases chars_ofWhole t.negative hlt with hn | hn
      · refine .inl ?_
        rw [hn, hfold, toDigits_of_isWhole hwhole hdigits]
        exact (hchars hfraction hexponent).symm
      · exact .inr hn
    · exact .inr (hfloat hvalue)
  · refine .inr ?_
    dsimp only at hvalue
    split at hvalue
    · split at hvalue
      · cases hvalue
      · cases hvalue
        exact ⟨_, rfl⟩
    · exact hfloat hvalue

end

/-! ## Characters of a printed number -/

/-- Characters that take one byte each. -/
def IsAscii (chars : List Char) : Prop := ∀ c ∈ chars, c.toNat < 0x80

instance (chars : List Char) : Decidable (IsAscii chars) :=
  List.decidableBAll (fun c : Char => c.toNat < 0x80) chars

section

variable {chars rest : List Char} {c : Char}

theorem IsAscii.cons (hc : c.toNat < 0x80) (hchars : IsAscii chars) : IsAscii (c :: chars) :=
  List.forall_mem_cons.2 ⟨hc, hchars⟩

theorem IsAscii.append (hchars : IsAscii chars) (hrest : IsAscii rest) : IsAscii (chars ++ rest) :=
  List.forall_mem_append.2 ⟨hchars, hrest⟩

theorem IsAscii.take (hchars : IsAscii chars) (n : Nat) : IsAscii (chars.take n) :=
  fun c hc => hchars c (List.mem_of_mem_take hc)

theorem IsAscii.drop (hchars : IsAscii chars) (n : Nat) : IsAscii (chars.drop n) :=
  fun c hc => hchars c (List.mem_of_mem_drop hc)

theorem isAscii_zeros (n : Nat) : IsAscii (List.replicate n '0') := by
  intro c hc
  rw [List.eq_of_mem_replicate hc]
  decide

theorem isAscii_toDigits (n : Nat) : IsAscii (Nat.toDigits 10 n) := by
  intro c hc
  have hdigit := Char.isDigit_iff_toNat.1 (Nat.isDigit_of_mem_toDigits (by decide) (by decide) hc)
  have hnine : '9'.toNat = 57 := rfl
  omega

theorem isAscii_floatChars (magnitude : Nat) : IsAscii (floatChars magnitude) := by
  rw [floatChars]
  split
  · decide
  extract_lets s digits point fraction sign
  have hdigits : IsAscii digits := isAscii_toDigits _
  split
  · split
    · exact (hdigits.append (isAscii_zeros _)).append (by decide)
    split
    · exact (hdigits.take _).append ((hdigits.drop _).cons (by decide))
    · exact (IsAscii.append (by decide) (isAscii_zeros _)).append hdigits
  · have hfraction : IsAscii fraction := by
      dsimp only [fraction]
      split
      · exact nofun
      · exact (hdigits.drop _).cons (by decide)
    have hsign : sign.toNat < 0x80 := by
      dsimp only [sign]
      split <;> decide
    exact ((hdigits.take _).append hfraction).append
      (((isAscii_toDigits _).cons hsign).cons (by decide))

theorem Number.isAscii_chars (n : Number) : IsAscii n.chars := by
  cases n with
  | natural n => exact isAscii_toDigits _
  | negative n => exact (isAscii_toDigits _).cons (by decide)
  | float bits =>
    rw [Number.chars]
    split
    · exact isAscii_floatChars _
    · exact (isAscii_floatChars _).cons (by decide)

end

end PacketStream.Json
