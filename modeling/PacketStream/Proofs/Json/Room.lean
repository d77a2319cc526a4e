import Mathlib
import PacketStream.Json.Token
import PacketStream.Proofs.Json.Number

/-!
# The room that characters take

How long a text is can be counted in characters or in bytes. `Room` leaves it open what room a character
takes: one for each of ASCII, and for none more than for an escape of four hexadecimal digits. With it
comes the room that strings take with their escapes, and that the compact texts of tokens take.
-/

namespace PacketStream.Json

/-- The room that each character takes: one for each of ASCII, and for none more than for an escape of
four hexadecimal digits. -/
structure Room where
  of : Char → Nat
  ascii : ∀ c : Char, c.toNat < 0x80 → of c = 1
  le_escape : ∀ c : Char, of c ≤ 6

namespace Room

variable (r : Room)

/-- The room that characters take together. -/
def size (chars : List Char) : Nat := (chars.map r.of).sum

@[simp] theorem size_nil : r.size [] = 0 := rfl

@[simp] theorem size_cons (c : Char) (chars : List Char) :
    r.size (c :: chars) = r.of c + r.size chars := rfl

@[simp] theorem size_append (chars rest : List Char) :
    r.size (chars ++ rest) = r.size chars + r.size rest := by
  rw [size, List.map_append, List.sum_append, size, size]

@[simp] theorem size_reverse (chars : List Char) : r.size chars.reverse = r.size chars := by
  rw [size, List.map_reverse, List.sum_reverse, size]

theorem size_of_isAscii {chars : List Char} (h : IsAscii chars) : r.size chars = chars.length := by
  induction chars with
  | nil => rfl
  | cons c chars ih =>
    obtain ⟨hc, hchars⟩ := List.forall_mem_cons.1 h
    rw [size_cons, r.ascii c hc, ih hchars, List.length_cons, Nat.add_comm]

/-! ## Escapes -/

/-- The room that characters take inside a string. -/
def escaped (chars : List Char) : Nat := (chars.map fun c => r.size (escapeChar c)).sum

@[simp] theorem escaped_nil : r.escaped [] = 0 := rfl

@[simp] theorem escaped_cons (c : Char) (chars : List Char) :
    r.escaped (c :: chars) = r.size (escapeChar c) + r.escaped chars := rfl

@[simp] theorem escaped_reverse (chars : List Char) : r.escaped chars.reverse = r.escaped chars := by
  rw [escaped, List.map_reverse, List.sum_reverse, escaped]

theorem size_flatMap_escapeChar (chars : List Char) :
    r.size (chars.flatMap escapeChar) = r.escaped chars := by
  induction chars with
  | nil => rfl
  | cons c chars ih => rw [List.flatMap_cons, size_append, ih, escaped_cons]

theorem size_quote (s : String) : r.size (quote s) = r.escaped s.toList + 2 := by
  have hquote := r.ascii '"' (by decide)
  rw [quote, List.cons_append, size_cons, size_append, size_cons, size_nil, hquote,
    size_flatMap_escapeChar]
  omega

/-- A character that may stand in a string as it is stands there as it is. -/
theorem size_escapeChar_of_raw {c : Char} (hquote : c ≠ '"') (hslash : c ≠ '\\')
    (hprintable : ¬ c.toNat < 0x20) : r.size (escapeChar c) = r.of c := by
  have hraw : escapeChar c = [c] := by
    unfold escapeChar
    split
    · exact absurd rfl hquote
    · exact absurd rfl hslash
    iterate 5 exact absurd (by decide) hprintable
    exact if_neg hprintable
  rw [hraw, size_cons, size_nil, Nat.add_zero]

theorem size_escapeChar_le (c : Char) : r.size (escapeChar c) ≤ 6 := by
  have hletter {letter : Char} (h : IsAscii ['\\', letter]) : r.size ['\\', letter] ≤ 6 := by
    rw [r.size_of_isAscii h]
    exact (by decide : 2 ≤ 6)
  have hhex : ∀ n < 0x20,
      IsAscii ['\\', 'u', '0', '0', Nat.digitChar (n / 16), Nat.digitChar (n % 16)] := by decide
  unfold escapeChar
  split
  iterate 7 exact hletter (by decide)
  dsimp only
  split
  · rename_i hcontrol
    rw [r.size_of_isAscii (hhex _ hcontrol)]
    exact Nat.le_refl 6
  · exact r.le_escape c

/-- A character with an escape of one letter has no longer one. -/
theorem size_escapeChar_of_escaped? {letter c : Char} (h : escaped? letter = some c) :
    letter.toNat < 0x80 ∧ r.size (escapeChar c) ≤ 2 := by
  have hboth : letter.toNat < 0x80 ∧ IsAscii (escapeChar c) ∧ (escapeChar c).length ≤ 2 := by
    unfold escaped? at h
    split at h <;> cases h <;> decide
  obtain ⟨hletter, hascii, hlength⟩ := hboth
  rw [r.size_of_isAscii hascii]
  exact ⟨hletter, hlength⟩

end Room

/-! ## Tokens -/

/-- The compact text of a token. -/
def Token.chars : Token → List Char
  | openArray => ['[']
  | closeArray => [']']
  | openObject => ['{']
  | closeObject => ['}']
  | colon => [':']
  | comma => [',']
  | null => "null".toList
  | bool true => "true".toList
  | bool false => "false".toList
  | number n => n.chars
  | string s => quote s

/-- A word is printed as it was spelled. -/
theorem Token.chars_of_ofWord? {word : String} {t : Token} (h : ofWord? word = some t) :
    t.chars = word.toList ∧ IsAscii t.chars := by
  unfold ofWord? at h
  split at h
  · rename_i hword
    cases h
    exact ⟨hword ▸ rfl, by decide⟩
  split at h
  · rename_i hword
    cases h
    exact ⟨hword ▸ rfl, by decide⟩
  split at h
  · rename_i hword
    cases h
    exact ⟨hword ▸ rfl, by decide⟩
  · cases h

namespace Room

variable (r : Room)

/-- The room that the compact text of tokens takes. -/
def tokens (tokens : List Token) : Nat := (tokens.map fun t => r.size t.chars).sum

@[simp] theorem tokens_cons (t : Token) (rest : List Token) :
    r.tokens (t :: rest) = r.size t.chars + r.tokens rest := rfl

end Room

end PacketStream.Json
