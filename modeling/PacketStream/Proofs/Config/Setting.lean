import Mathlib
import PacketStream.Config.Options

/-!
# Lines, numbers and settings

What a line assigns, which number a value denotes and what a setting takes of it, each said without the
functions that find it out: `Assigns`, `Denotes` and `Setting.Takes` are relations on characters.
`assignment?_eq_some_iff`, `number?_eq_some_iff` and `Setting.takes_iff` say that those functions find
what the relations say and nothing else.

The four limits of a configuration are one family. `Setting` names its members, and `Setting.of_assign`
is the equation of an assignment for all of them.
-/

namespace PacketStream.Config

variable {c d : Config} {n : Nat}

/-! ## Lines -/

section

variable {line key value before rest : List Char} {bound : Nat}

/-- What a line assigns, if it is no comment: without the blanks at its ends it has a sign of equality,
and the key is what stands in front of the first one. -/
def Assigns (line key value : List Char) : Prop :=
  ∃ before rest, Text.trim line = before ++ '=' :: rest ∧ '=' ∉ before ∧
    (Text.trim line).head? ≠ some '#' ∧ key = Text.trim before ∧ value = Text.trim rest

theorem split_at_sign (rest : List Char) (h : '=' ∉ before) :
    (before ++ '=' :: rest).takeWhile (· != '=') = before ∧
      (before ++ '=' :: rest).dropWhile (· != '=') = '=' :: rest := by
  have hbefore : ∀ c ∈ before, (c != '=') = true := by
    intro c hc
    rw [bne_iff_ne]
    rintro rfl
    exact h hc
  rw [List.takeWhile_append_of_pos hbefore, List.dropWhile_append_of_pos hbefore]
  simp

theorem assignment?_eq_some_iff : assignment? line = some (key, value) ↔ Assigns line key value := by
  simp only [assignment?]
  constructor
  · intro h
    split at h
    · cases h
    rename_i hline
    rw [not_or, not_not] at hline
    obtain ⟨before, rest, hsplit, hbefore⟩ := List.eq_append_cons_of_mem hline.2
    obtain ⟨htake, hdrop⟩ := split_at_sign rest hbefore
    rw [hsplit, htake, hdrop] at h
    cases h
    exact ⟨before, rest, hsplit, hbefore, hline.1, rfl, rfl⟩
  · rintro ⟨before, rest, hsplit, hbefore, hcomment, rfl, rfl⟩
    obtain ⟨htake, hdrop⟩ := split_at_sign rest hbefore
    rw [if_neg (not_or.2 ⟨hcomment, by simp [hsplit]⟩), hsplit, htake, hdrop]
    rfl

/-- A line assigns one thing at most. -/
theorem Assigns.unique {key' value' : List Char} (h : Assigns line key value)
    (h' : Assigns line key' value') : key = key' ∧ value = value' := by
  rw [← assignment?_eq_some_iff] at h h'
  rw [h] at h'
  cases h'
  exact ⟨rfl, rfl⟩

/-! ## Numbers -/

/-- The numbers that are written in decimal digits, which a plus may precede. -/
def Denotes (value : List Char) (n : Nat) : Prop :=
  ∃ digits : List Nat, digits ≠ [] ∧ (∀ d ∈ digits, d < 10) ∧
    (value = digits.map Nat.digitChar ∨ value = '+' :: digits.map Nat.digitChar) ∧
    n = Nat.ofDigits 10 digits.reverse

theorem isDigit_digitChar {d : Nat} (h : d < 10) :
    (Nat.digitChar d).isDigit = true ∧ Nat.digitChar d ≠ '+' := by
  interval_cases d <;> decide

theorem exists_digitChar {c : Char} (h : c.isDigit = true) : ∃ d, d < 10 ∧ c = Nat.digitChar d := by
  have hrange : 48 ≤ c.toNat ∧ c.toNat ≤ 57 := Char.isDigit_iff_toNat.1 h
  refine ⟨c.toNat - 48, by omega, Char.toNat_inj.1 ?_⟩
  rw [Nat.toNat_digitChar_of_lt_ten (by omega)]
  omega

theorem exists_digits {chars : List Char} (h : ∀ c ∈ chars, c.isDigit = true) :
    ∃ digits : List Nat, (∀ d ∈ digits, d < 10) ∧ chars = digits.map Nat.digitChar := by
  induction chars with
  | nil => exact ⟨[], nofun, rfl⟩
  | cons c chars ih =>
    obtain ⟨d, hd, rfl⟩ := exists_digitChar (h c List.mem_cons_self)
    obtain ⟨digits, hdigits, rfl⟩ := ih fun c hc => h c (List.mem_cons_of_mem _ hc)
    exact ⟨d :: digits, List.forall_mem_cons.2 ⟨hd, hdigits⟩, rfl⟩

/-- Digits are gathered as their number. -/
theorem foldl_digitChar {digits : List Nat} (h : ∀ d ∈ digits, d < 10) :
    (digits.map Nat.digitChar).foldl (fun n c => 10 * n + (c.toNat - '0'.toNat)) 0
      = Nat.ofDigits 10 digits.reverse := by
  rw [List.foldl_map, Nat.ofDigits_eq_foldr, List.foldr_reverse]
  refine List.foldl_ext _ _ _ fun n d hd => ?_
  have hvalue := Nat.toNat_digitChar_of_lt_ten (h d hd)
  have hzero : '0'.toNat = 48 := rfl
  rw [hvalue, hzero, Nat.cast_id]
  omega

/-- What is read of the characters behind a plus, where there was one. -/
theorem number?_of_digits {chars : List Char}
    (h : chars = (if value.head? = some '+' then value.drop 1 else value)) :
    number? bound value = some n ↔ chars ≠ [] ∧ (∀ c ∈ chars, c.isDigit = true) ∧ n < bound ∧
      n = chars.foldl (fun n c => 10 * n + (c.toNat - '0'.toNat)) 0 := by
  rw [number?, ← h]
  by_cases hdigits : chars ≠ [] ∧ ∀ c ∈ chars, c.isDigit = true
  · rw [if_neg (by simpa using hdigits), ← and_assoc, and_iff_right hdigits]
    dsimp only
    split
    · rename_i hlt
      rw [Option.some_inj]
      exact ⟨fun hn => ⟨hn ▸ hlt, hn.symm⟩, fun hn => hn.2.symm⟩
    · rename_i hle
      refine iff_of_false nofun ?_
      rintro ⟨hlt, rfl⟩
      exact hle hlt
  · rw [if_pos (by simpa [imp_iff_not_or, not_and_or] using hdigits), ← and_assoc]
    exact iff_of_false nofun fun hn => hdigits hn.1

/-- **A value is read as the number that it denotes**, if it denotes one below the bound. -/
theorem number?_eq_some_iff : number? bound value = some n ↔ Denotes value n ∧ n < bound := by
  rw [number?_of_digits rfl]
  constructor
  · rintro ⟨hne, hall, hlt, hn⟩
    obtain ⟨digits, hdigits, hchars⟩ := exists_digits hall
    rw [hchars, foldl_digitChar hdigits] at hn
    refine ⟨⟨digits, ?_, hdigits, ?_, hn⟩, hlt⟩
    · rintro rfl
      exact hne hchars
    · split at hchars
      · rename_i hplus
        obtain ⟨rest, rfl⟩ : ∃ rest, value = '+' :: rest := List.head?_eq_some_iff.1 hplus
        exact .inr (congrArg (List.cons '+') hchars)
      · exact .inl hchars
  · rintro ⟨⟨digits, hne, hdigits, hvalue, hn⟩, hlt⟩
    have hchars : (if value.head? = some '+' then value.drop 1 else value)
        = digits.map Nat.digitChar := by
      rcases hvalue with rfl | rfl
      · refine if_neg fun hplus => ?_
        obtain ⟨d, hd, hchar⟩ := List.mem_map.1 (List.mem_of_head? hplus)
        exact (isDigit_digitChar (hdigits d hd)).2 hchar
      · exact if_pos rfl
    rw [hchars, foldl_digitChar hdigits]
    refine ⟨by simpa using hne, ?_, hlt, hn⟩
    intro c hc
    obtain ⟨d, hd, rfl⟩ := List.mem_map.1 hc
    exact (isDigit_digitChar (hdigits d hd)).1

end

/-! ## Settings -/

/-- The limits that options can set. -/
inductive Setting where
  | textLength
  | frameLength
  | uncompressedLength
  | level
deriving DecidableEq, Repr

namespace Setting

/-- The key that stands for the setting. -/
def key : Setting → List Char
  | textLength => "max_string_length".toList
  | frameLength => "max_frame_length".toList
  | uncompressedLength => "max_uncompressed_length".toList
  | level => "compression_level".toList

/-- The numbers that a value of the setting can be are below this one. -/
def bound : Setting → Nat
  | textLength | frameLength | uncompressedLength => UInt64.size
  | level => UInt32.size

/-- What the setting is when nothing is configured. -/
def default : Setting → Nat
  | textLength => Limits.textLength
  | frameLength => Limits.frameLength
  | uncompressedLength => Limits.uncompressedLength
  | level => Limits.compressionLevel

/-- What a configuration has for the setting. -/
def of : Setting → Config → Nat
  | textLength, c => c.textLength
  | frameLength, c => c.frameLength
  | uncompressedLength, c => c.uncompressedLength
  | level, c => c.level

variable {s : Setting}

theorem of_default (s : Setting) : s.of Config.default = s.default := by
  cases s <;> rfl

/-- Configurations are told apart by their settings. -/
theorem eq_of_of_eq (h : ∀ s : Setting, s.of c = s.of d) : c = d := by
  obtain ⟨textLength, frameLength, uncompressedLength, level⟩ := c
  obtain rfl : textLength = d.textLength := h .textLength
  obtain rfl : frameLength = d.frameLength := h .frameLength
  obtain rfl : uncompressedLength = d.uncompressedLength := h .uncompressedLength
  obtain rfl : level = d.level := h .level
  rfl

/-- **An assignment sets what its key stands for, and nothing else.** -/
theorem of_assign (s : Setting) (c : Config) (key value : List Char) :
    s.of (c.assign key value).value =
      if key = s.key then (number? s.bound value).getD s.default else s.of c := by
  have hkey (text : String) : String.ofList key = text ↔ key = text.toList := by
    rw [← String.toList_inj, String.toList_ofList]
  simp only [assign]
  split
  case h_1 h =>
    obtain rfl := (hkey _).1 h
    cases s <;> rfl
  case h_2 h =>
    obtain rfl := (hkey _).1 h
    cases s <;> rfl
  case h_3 h =>
    obtain rfl := (hkey _).1 h
    cases s <;> rfl
  case h_4 h =>
    obtain rfl := (hkey _).1 h
    cases s <;> rfl
  case h_5 htext hframe huncompressed hlevel =>
    refine (if_neg ?_).symm
    rintro rfl
    cases s
    · exact htext ((hkey _).2 rfl)
    · exact hframe ((hkey _).2 rfl)
    · exact huncompressed ((hkey _).2 rfl)
    · exact hlevel ((hkey _).2 rfl)

/-- What a value makes of the setting: the number that it denotes, or the default where it denotes none
that the setting can be. -/
def Takes (s : Setting) (value : List Char) (n : Nat) : Prop :=
  (Denotes value n ∧ n < s.bound) ∨ ((∀ m, Denotes value m → s.bound ≤ m) ∧ n = s.default)

theorem takes_iff {value : List Char} :
    s.Takes value n ↔ n = (number? s.bound value).getD s.default := by
  rcases hnumber : number? s.bound value with _ | m
  · have hnone : ∀ m, Denotes value m → s.bound ≤ m := by
      intro m hm
      refine Nat.le_of_not_lt fun hlt => ?_
      rw [number?_eq_some_iff.2 ⟨hm, hlt⟩] at hnumber
      cases hnumber
    constructor
    · rintro (⟨hn, hlt⟩ | ⟨-, hn⟩)
      · exact absurd hlt (Nat.not_lt.2 (hnone n hn))
      · exact hn
    · exact fun hn => .inr ⟨hnone, hn⟩
  · obtain ⟨hm, hlt⟩ := number?_eq_some_iff.1 hnumber
    constructor
    · rintro (hn | ⟨hnone, -⟩)
      · rw [number?_eq_some_iff.2 hn] at hnumber
        exact Option.some.inj hnumber
      · exact absurd hlt (Nat.not_lt.2 (hnone m hm))
    · rintro rfl
      exact .inl ⟨hm, hlt⟩

end Setting

end PacketStream.Config
