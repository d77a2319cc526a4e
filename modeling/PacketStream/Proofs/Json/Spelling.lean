import Mathlib
import PacketStream.Proofs.Json.Room

/-!
# Spelling and printing

A text can spell a token in several ways: with escapes, and for floating-point numbers with other
digits. The compact text of the tokens has one way for each. `size_of_tokens?` compares the two: the
compact text takes no more room than the text, but for the numbers that are spelled shorter than they
are printed. The lexer carries the proof: what it has taken pays for the tokens that it has made and
for the part of a token that it is in.
-/

namespace PacketStream.Json

/-! ## Numbers of a text -/

namespace Lexer

/-- The number that ends in front of what comes next, as it is spelled. -/
def numeral? (x : Lexer) (next : Option Char) : Option (List Char) :=
  match x.mode with
  | .number chars => if next.any isNumeric then none else some chars.reverse
  | _ => none

/-- The numbers that end in a text, as they are spelled. -/
def numerals (x : Lexer) : List Char → List (List Char)
  | [] => (x.numeral? none).toList
  | c :: rest =>
    (x.numeral? c).toList ++
      match x.step? c with
      | none => []
      | some y => y.numerals rest

variable {x y last : Lexer} {chars text : List Char}

theorem numeral?_eq_some_iff {next : Option Char} : x.numeral? next = some chars ↔
    x.mode = .number chars.reverse ∧ next.any isNumeric = false := by
  unfold numeral?
  constructor
  · intro h
    split at h
    · rename_i hmode
      split at h
      · cases h
      · rename_i hends
        cases h
        rw [hmode, List.reverse_reverse]
        exact ⟨rfl, Bool.eq_false_iff.2 hends⟩
    · cases h
  · rintro ⟨hmode, hends⟩
    rw [hmode, hends]
    exact congrArg some (List.reverse_reverse chars)

theorem exists_of_finish? (hmode : x.mode = .number chars.reverse) (h : x.finish? = some y) :
    ∃ n, Number.ofChars? chars = some n := by
  rw [finish?, hmode] at h
  dsimp only at h
  rw [List.reverse_reverse] at h
  obtain ⟨n, hn, -⟩ := Option.map_eq_some_iff.1 h
  exact ⟨n, hn⟩

/-- **What is spelled is a number** wherever the lexer goes through the text. -/
theorem exists_of_mem_numerals (h : text.foldlM step? x = some last) (hlast : last.finish? = some y)
    (hmem : chars ∈ x.numerals text) : ∃ n, Number.ofChars? chars = some n := by
  induction text generalizing x with
  | nil =>
    cases h
    obtain ⟨hmode, -⟩ := numeral?_eq_some_iff.1 (Option.mem_toList.1 hmem)
    exact exists_of_finish? hmode hlast
  | cons c text ih =>
    rw [List.foldlM_cons] at h
    obtain ⟨z, hz, hrest⟩ := Option.bind_eq_some_iff.1 h
    rw [numerals, hz] at hmem
    rcases List.mem_append.1 hmem with hends | hlater
    · obtain ⟨hmode, hother⟩ := numeral?_eq_some_iff.1 (Option.mem_toList.1 hends)
      have hnot : ¬ isNumeric c = true := Bool.eq_false_iff.1 hother
      rw [step?, hmode] at hz
      dsimp only at hz
      rw [if_neg hnot] at hz
      obtain ⟨y, hfinish, -⟩ := Option.bind_eq_some_iff.1 hz
      exact exists_of_finish? hmode hfinish
    · exact ih hrest hlater

end Lexer

/-- The numbers of a document's text, as they are spelled. -/
def numerals (text : List Char) : List (List Char) := Lexer.numerals {} text

/-- How many characters numbers take as they are spelled. -/
def spelled (numerals : List (List Char)) : Nat := (numerals.map List.length).sum

/-- How many characters the same numbers take where they are printed. -/
def printed (numerals : List (List Char)) : Nat :=
  (numerals.map fun chars => (Number.ofChars? chars).elim 0 (·.chars.length)).sum

@[simp] theorem spelled_nil : spelled [] = 0 := rfl

@[simp] theorem printed_nil : printed [] = 0 := rfl

@[simp] theorem spelled_append (front back : List (List Char)) :
    spelled (front ++ back) = spelled front + spelled back := by
  rw [spelled, List.map_append, List.sum_append, spelled, spelled]

@[simp] theorem printed_append (front back : List (List Char)) :
    printed (front ++ back) = printed front + printed back := by
  rw [printed, List.map_append, List.sum_append, printed, printed]

/-- Only a number that is read as floating point can be printed with more characters than it is spelled
with. -/
theorem printed_le_spelled {ns : List (List Char)}
    (h : ∀ chars ∈ ns, ∀ bits, Number.ofChars? chars = some (.float bits) →
      (Number.float bits).chars.length ≤ chars.length) :
    printed ns ≤ spelled ns := by
  refine List.sum_le_sum fun chars hmem => ?_
  rcases hnumber : Number.ofChars? chars with _ | n
  · exact Nat.zero_le _
  · rcases Number.chars_of_ofChars? hnumber with hsame | ⟨bits, rfl⟩
    · exact Nat.le_of_eq (congrArg List.length hsame)
    · exact h chars hmem bits hnumber

namespace Room

variable (r : Room)

/-! ## What the lexer has taken -/

/-- The room that was taken by the part of a token that has been read, where the characters of a string
count as they will be printed. -/
def mode : Mode → Nat
  | .between => 0
  | .word chars => chars.length
  | .number chars => chars.length
  | .string chars => r.escaped chars + 1
  | .escape chars => r.escaped chars + 2
  -- an escape counts as it is spelled until its last digit: then it has six characters, or twelve with
  -- the first half of a pair, and pays for any one
  | .hex chars high left _ => r.escaped chars + (if high.isSome then 6 else 0) + 3 + (3 - left)
  | .pair chars _ => r.escaped chars + 7
  | .pairEscape chars _ => r.escaped chars + 8

/-- The room that the lexer's tokens and the one it is in take. -/
def lexer (x : Lexer) : Nat := r.tokens x.tokens + r.mode x.mode

@[simp] theorem lexer_push (x : Lexer) (t : Token) :
    r.lexer (x.push t) = r.size t.chars + r.tokens x.tokens := rfl

@[simp] theorem lexer_enter (x : Lexer) (mode : Mode) :
    r.lexer (x.enter mode) = r.tokens x.tokens + r.mode mode := rfl

theorem lexer_of_mode {x : Lexer} {mode : Mode} (h : x.mode = mode) :
    r.lexer x = r.tokens x.tokens + r.mode mode := by
  rw [lexer, h]

variable {x y : Lexer} {c : Char} {chars : List Char}

theorem of_isNumeric (h : isNumeric c = true) : r.of c = 1 := by
  refine r.ascii c ?_
  simp only [isNumeric, Bool.or_eq_true, beq_iff_eq] at h
  rcases h with ((((hdigit | rfl) | rfl) | rfl) | rfl) | rfl
  · have hc := isDigit_iff.1 hdigit
    omega
  all_goals decide

theorem of_lower (h : 'a' ≤ c ∧ c ≤ 'z') : r.of c = 1 := by
  have hc : 97 ≤ c.toNat ∧ c.toNat ≤ 122 := h
  exact r.ascii c (by omega)

theorem of_hexValue? {d : Nat} (h : hexValue? c = some d) : r.of c = 1 := by
  refine r.ascii c ?_
  rw [hexValue?] at h
  split at h
  · rename_i hdigit
    have hc := isDigit_iff.1 hdigit
    omega
  split at h
  · rename_i hlower
    have hc : 97 ≤ c.toNat ∧ c.toNat ≤ 102 := hlower
    omega
  split at h
  · rename_i hupper
    have hc : 65 ≤ c.toNat ∧ c.toNat ≤ 70 := hupper
    omega
  · cases h

/-- A character between tokens pays for the token of one character that it is, or for the first
character of a longer one. -/
theorem lexer_start? (h : x.start? c = some y) : r.lexer y ≤ r.tokens x.tokens + r.of c := by
  have hblank {c : Char} : r.lexer (x.enter .between) ≤ r.tokens x.tokens + r.of c :=
    Nat.le_add_right _ _
  have hsingle {t : Token} {c : Char} (ht : t.chars = [c]) :
      r.lexer (x.push t) ≤ r.tokens x.tokens + r.of c := by
    rw [lexer_push, ht, size_cons, size_nil]
    omega
  have hfirst {mode : Mode} {c : Char} (hmode : r.mode mode = 1) (hc : r.of c = 1) :
      r.lexer (x.enter mode) ≤ r.tokens x.tokens + r.of c := by
    rw [lexer_enter, hmode, hc]
  unfold Lexer.start? at h
  split at h
  iterate 4
    cases h
    exact hblank
  iterate 6
    cases h
    exact hsingle rfl
  · cases h
    exact hfirst rfl (r.ascii _ (by decide))
  split at h
  · rename_i hnumber
    cases h
    have hnumeric : isNumeric c = true := by
      simp only [Bool.or_eq_true, isNumeric] at hnumber ⊢
      tauto
    exact hfirst rfl (r.of_isNumeric hnumeric)
  split at h
  · rename_i hlower
    cases h
    exact hfirst rfl (r.of_lower hlower)
  · cases h

/-- The end of a word or number costs nothing, but for what the number is printed longer. -/
theorem lexer_finish? (h : x.finish? = some y) :
    r.tokens y.tokens + spelled (x.numeral? none).toList
      ≤ r.lexer x + printed (x.numeral? none).toList := by
  unfold Lexer.finish? at h
  rw [lexer, Lexer.numeral?]
  split at h
  · rename_i hmode
    cases h
    rw [hmode]
    exact Nat.le_refl _
  · rename_i chars hmode
    obtain ⟨t, hword, rfl⟩ := Option.map_eq_some_iff.1 h
    obtain ⟨hchars, hascii⟩ := Token.chars_of_ofWord? hword
    have hsize : r.tokens (x.push t).tokens = chars.length + r.tokens x.tokens := by
      rw [Lexer.push, tokens_cons, r.size_of_isAscii hascii, hchars, String.toList_ofList,
        List.length_reverse]
    rw [hmode, hsize, mode, Option.toList_none, spelled_nil, printed_nil]
    omega
  · rename_i chars hmode
    obtain ⟨n, hnumber, rfl⟩ := Option.map_eq_some_iff.1 h
    have hsize : r.tokens (x.push (.number n)).tokens = n.chars.length + r.tokens x.tokens := by
      rw [Lexer.push, tokens_cons, Token.chars, r.size_of_isAscii n.isAscii_chars]
    have hspelled : spelled [chars.reverse] = chars.length := by simp [spelled]
    have hprinted : printed [chars.reverse] = n.chars.length := by simp [printed, hnumber]
    rw [hmode, hsize, mode]
    dsimp only [Option.any, Option.toList]
    rw [if_neg (by decide)]
    dsimp only
    rw [hspelled, hprinted]
    omega
  · cases h

/-- The last digit of an escape pays for its character, whatever that is. -/
theorem lexer_unit? {high : Option Nat} {code : Nat} (h : x.unit? chars high code = some y) :
    r.lexer y ≤ r.tokens x.tokens + r.mode (.hex chars high 0 code) + 1 := by
  have hstring (c : Char) : r.mode (.string (c :: chars)) ≤ r.escaped chars + 7 := by
    have hc := r.size_escapeChar_le c
    rw [mode, escaped_cons]
    omega
  rw [mode]
  unfold Lexer.unit? at h
  dsimp only at h
  split at h
  · split at h
    · cases h
      rw [lexer_enter, mode]
      omega
    split at h
    · cases h
    · cases h
      have hc := hstring (Char.ofNat code)
      rw [lexer_enter]
      omega
  · split at h
    · cases h
      rw [lexer_enter]
      refine Nat.le_trans (Nat.add_le_add_left (hstring _) _) ?_
      omega
    · cases h

/-- A character of a string pays for itself, and a quote for the end. -/
theorem lexer_string (hmode : x.mode = .string chars) (h : x.step? c = some y) :
    r.lexer y ≤ r.lexer x + r.of c := by
  rw [Lexer.step?, hmode] at h
  rw [r.lexer_of_mode hmode, mode]
  dsimp only at h
  split at h
  · rename_i hquote
    cases h
    rw [lexer_push, Token.chars, size_quote, String.toList_ofList, escaped_reverse, hquote,
      r.ascii '"' (by decide)]
    omega
  rename_i hquote
  split at h
  · rename_i hslash
    cases h
    rw [lexer_enter, mode, hslash, r.ascii '\\' (by decide)]
    omega
  rename_i hslash
  split at h
  · cases h
  · rename_i hprintable
    cases h
    rw [lexer_enter, mode, escaped_cons, r.size_escapeChar_of_raw hquote hslash hprintable]
    omega

/-- A letter behind a backslash pays for an escape of one letter. -/
theorem lexer_escape (hmode : x.mode = .escape chars) (h : x.step? c = some y) :
    r.lexer y ≤ r.lexer x + r.of c := by
  rw [Lexer.step?, hmode] at h
  rw [r.lexer_of_mode hmode, mode]
  dsimp only at h
  split at h
  · rename_i hu
    cases h
    rw [lexer_enter, mode, hu, r.ascii 'u' (by decide), if_neg (by decide)]
    omega
  · obtain ⟨d, hd, rfl⟩ := Option.map_eq_some_iff.1 h
    obtain ⟨hletter, hsize⟩ := r.size_escapeChar_of_escaped? hd
    rw [lexer_enter, mode, escaped_cons, r.ascii c hletter]
    omega

/-- Each hexadecimal digit pays for one character of the longest escape. -/
theorem lexer_hex {high : Option Nat} {left code : Nat} (hmode : x.mode = .hex chars high left code)
    (h : x.step? c = some y) : r.lexer y ≤ r.lexer x + r.of c := by
  rw [Lexer.step?, hmode] at h
  rw [r.lexer_of_mode hmode]
  dsimp only at h
  split at h
  · cases h
  · rename_i hvalue
    have hunit := r.lexer_unit? h
    rw [r.of_hexValue? hvalue]
    exact hunit
  · rename_i hvalue
    cases h
    rw [lexer_enter, mode, mode, r.of_hexValue? hvalue]
    omega

/-- The only character that can follow pays for itself. -/
theorem lexer_only {only : Char} {mode : Mode} (honly : only.toNat < 0x80)
    (hmode : r.mode mode = r.mode x.mode + 1)
    (h : (if c = only then some (x.enter mode) else none) = some y) :
    r.lexer y ≤ r.lexer x + r.of c := by
  split at h
  · rename_i hc
    cases h
    rw [lexer_enter, lexer, hmode, hc, r.ascii only honly, Nat.add_assoc]
  · cases h

/-- What ends in front of a character is paid for, and the character pays for what it begins. -/
theorem lexer_finish?_start? {z : Lexer} (hz : x.finish? = some z) (hy : z.start? c = some y) :
    r.lexer y + spelled (x.numeral? none).toList
      ≤ r.lexer x + r.of c + printed (x.numeral? none).toList := by
  have hfinish := r.lexer_finish? hz
  have hstart := r.lexer_start? hy
  omega

/-- **A character pays for what it adds**, but for what the number that ends in front of it is printed
longer. -/
theorem lexer_step? (h : x.step? c = some y) :
    r.lexer y + spelled (x.numeral? c).toList
      ≤ r.lexer x + r.of c + printed (x.numeral? c).toList := by
  -- only in front of a character that cannot belong to it does a number end
  have hinside (hnone : x.numeral? c = none) (hle : r.lexer y ≤ r.lexer x + r.of c) :
      r.lexer y + spelled (x.numeral? c).toList
        ≤ r.lexer x + r.of c + printed (x.numeral? c).toList := by
    rwa [hnone]
  rcases hmode : x.mode with _ | chars | chars | chars | chars | ⟨chars, high, left, code⟩ |
    ⟨chars, high⟩ | ⟨chars, high⟩
  case between =>
    refine hinside (by rw [Lexer.numeral?, hmode]) ?_
    rw [Lexer.step?, hmode] at h
    rw [r.lexer_of_mode hmode, mode]
    exact r.lexer_start? h
  case word =>
    have hnone (next : Option Char) : x.numeral? next = none := by rw [Lexer.numeral?, hmode]
    rw [Lexer.step?, hmode] at h
    dsimp only at h
    split at h
    · rename_i hlower
      cases h
      refine hinside (hnone _) ?_
      rw [lexer_enter, r.lexer_of_mode hmode, mode, mode, r.of_lower hlower, List.length_cons]
      omega
    · obtain ⟨z, hz, hy⟩ := Option.bind_eq_some_iff.1 h
      have hends := r.lexer_finish?_start? hz hy
      rwa [hnone] at hends ⊢
  case number =>
    rw [Lexer.step?, hmode] at h
    dsimp only at h
    split at h
    · rename_i hnumeric
      cases h
      refine hinside (by simp [Lexer.numeral?, hmode, hnumeric]) ?_
      rw [lexer_enter, r.lexer_of_mode hmode, mode, mode, r.of_isNumeric hnumeric, List.length_cons]
      omega
    · rename_i hother
      obtain ⟨z, hz, hy⟩ := Option.bind_eq_some_iff.1 h
      have hsame : x.numeral? c = x.numeral? none := by simp [Lexer.numeral?, hmode, hother]
      rw [hsame]
      exact r.lexer_finish?_start? hz hy
  case string => exact hinside (by rw [Lexer.numeral?, hmode]) (r.lexer_string hmode h)
  case escape => exact hinside (by rw [Lexer.numeral?, hmode]) (r.lexer_escape hmode h)
  case hex => exact hinside (by rw [Lexer.numeral?, hmode]) (r.lexer_hex hmode h)
  case pair =>
    rw [Lexer.step?, hmode] at h
    exact hinside (by rw [Lexer.numeral?, hmode]) (r.lexer_only (by decide) (by rw [hmode]; rfl) h)
  case pairEscape =>
    rw [Lexer.step?, hmode] at h
    exact hinside (by rw [Lexer.numeral?, hmode]) (r.lexer_only (by decide) (by rw [hmode]; rfl) h)

/-- A text pays for its tokens, but for what its numbers are printed longer. -/
theorem lexer_foldlM {text : List Char} {last : Lexer} (h : text.foldlM Lexer.step? x = some last)
    (hlast : last.finish? = some y) :
    r.tokens y.tokens + spelled (x.numerals text)
      ≤ r.lexer x + r.size text + printed (x.numerals text) := by
  induction text generalizing x with
  | nil =>
    cases h
    exact r.lexer_finish? hlast
  | cons c text ih =>
    rw [List.foldlM_cons] at h
    obtain ⟨z, hz, hrest⟩ := Option.bind_eq_some_iff.1 h
    have hstep := r.lexer_step? hz
    have htext := ih hrest
    rw [Lexer.numerals, hz, size_cons, spelled_append, printed_append]
    dsimp only
    omega

/-- **The compact text of tokens** takes no more room than the text that they were read from, but for
what the numbers are printed longer than they are spelled. -/
theorem size_of_tokens? {text : List Char} {ts : List Token} (h : tokens? text = some ts) :
    r.tokens ts + spelled (numerals text) ≤ r.size text + printed (numerals text) := by
  obtain ⟨last, hfold, h⟩ := Option.bind_eq_some_iff.1 h
  obtain ⟨y, hlast, hts⟩ := Option.bind_eq_some_iff.1 h
  cases hts
  have hreverse : r.tokens y.tokens.reverse = r.tokens y.tokens := by
    rw [tokens, List.map_reverse, List.sum_reverse, tokens]
  have htext := r.lexer_foldlM hfold hlast
  have hstart : r.lexer {} = 0 := rfl
  rw [hreverse, numerals]
  omega

end Room

end PacketStream.Json
