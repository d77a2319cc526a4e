import PacketStream.Proofs.Text.Utf8

/-!
# A string has one form in UTF-8

The converse of reading back: `encode_of_decode` says that the bytes which decode to a string are
those that the string is encoded in. So a decoded string is no longer, written again, than it was.

`exists_tails` goes through the bytes behind the first one of a character, by the number still owed:
what is known of the character is the quotient that its first bytes make up, and the range of the
next byte. From the first byte on, that is a character whose bytes are those that were read
(`exists_char`): the ranges leave out all numbers that would be encoded in another way.
-/

namespace PacketStream.Utf8

variable {index n : Nat} {done chars : List Char} {b : UInt8} {p : Partial}
  {input rest bytes : List UInt8}

/-! ## Inside a character -/

/-- A byte in the range of those that continue a character is determined by its low six bits. -/
theorem continuation (hlow : 0x80 ≤ b.toNat) (hhigh : b.toNat ≤ 0xBF) :
    (0x80 + b.toNat % 64).toUInt8 = b := by
  rw [show 0x80 + b.toNat % 64 = b.toNat by omega, Nat.toUInt8, UInt8.ofNat_toNat]

/-- The bytes that complete a character are the last bytes of its number. -/
theorem exists_tails {owed : Nat} (howed : p.owed = owed) (hlow : 0x80 ≤ p.low)
    (hhigh : p.high ≤ 0xBF) (h : decodeFrom index done (some p) input = .ok chars) :
    ∃ n rest next, input = tails (owed + 1) n ++ rest ∧ n / 64 ^ (owed + 1) = p.code ∧
      p.low ≤ 0x80 + n / 64 ^ owed % 64 ∧ 0x80 + n / 64 ^ owed % 64 ≤ p.high ∧
      decodeFrom next (Char.ofNat n :: done) none rest = .ok chars := by
  induction owed generalizing p input with
  | zero =>
    cases input with
    | nil => cases h
    | cons b rest =>
      simp only [decodeFrom] at h
      split at h
      · rename_i hrange
        rw [howed] at h
        refine ⟨64 * p.code + b.toNat % 64, rest, _, ?_, ?_, ?_, ?_, h⟩
        · have hbyte : (64 * p.code + b.toNat % 64) / 64 ^ 0 % 64 = b.toNat % 64 := by omega
          rw [tails, hbyte, continuation (by omega) (by omega)]
          rfl
        all_goals omega
      · cases h
  | succ owed ih =>
    cases input with
    | nil => cases h
    | cons b rest =>
      simp only [decodeFrom] at h
      split at h
      · rename_i hrange
        rw [howed] at h
        obtain ⟨n, rest', next, rfl, hcode, -, -, hnext⟩ := ih rfl (by dsimp only; omega)
          (by dsimp only; omega) h
        dsimp only at hcode
        have hbyte : n / 64 ^ (owed + 1) % 64 = b.toNat % 64 := by
          rw [hcode]
          omega
        refine ⟨n, rest', next, ?_, ?_, ?_, ?_, hnext⟩
        · show _ = (0x80 + n / 64 ^ (owed + 1) % 64).toUInt8 :: tails (owed + 1) n ++ rest'
          rw [hbyte, continuation (by omega) (by omega)]
          rfl
        · rw [Nat.pow_succ, ← Nat.div_div_eq_div_mul, hcode]
          omega
        all_goals omega
      · cases h

/-! ## From the first byte on -/

/-- What a first byte starts, by the number of the bytes that follow it. The narrower ranges of the
second byte keep out what has fewer bytes, surrogates, and what is past the last character. -/
inductive Leads (first : Nat) (p : Partial) : Prop
  | two (owed : p.owed = 0) (least : 0xC2 ≤ first) (most : first < 0xE0)
      (code : p.code = first - 0xC0)
  | three (owed : p.owed = 1) (least : 0xE0 ≤ first) (most : first < 0xF0)
      (code : p.code = first - 0xE0) (overlong : first = 0xE0 → 0xA0 ≤ p.low)
      (surrogate : first = 0xED → p.high ≤ 0x9F)
  | four (owed : p.owed = 2) (least : 0xF0 ≤ first) (most : first ≤ 0xF4)
      (code : p.code = first - 0xF0) (overlong : first = 0xF0 → 0x90 ≤ p.low)
      (pastLast : first = 0xF4 → p.high ≤ 0x8F)

theorem leads_of_lead? (h : lead? n = some p) : 0x80 ≤ p.low ∧ p.high ≤ 0xBF ∧ Leads n p := by
  rw [lead?] at h
  split at h
  · cases h
  split at h
  · cases h
    exact ⟨Nat.le_refl _, Nat.le_refl _, .two rfl (by omega) (by omega) rfl⟩
  split at h
  · cases h
    exact ⟨by decide, by decide,
      .three rfl (by omega) (by omega) (by dsimp only; omega) (fun _ => by decide) (by omega)⟩
  split at h
  · cases h
    exact ⟨by decide, by decide,
      .three rfl (by omega) (by omega) (by dsimp only; omega) (by omega) (fun _ => by decide)⟩
  split at h
  · cases h
    exact ⟨Nat.le_refl _, Nat.le_refl _, .three rfl (by omega) (by omega) rfl (by omega) (by omega)⟩
  split at h
  · cases h
    exact ⟨by decide, by decide,
      .four rfl (by omega) (by omega) (by dsimp only; omega) (fun _ => by decide) (by omega)⟩
  split at h
  · cases h
    exact ⟨Nat.le_refl _, Nat.le_refl _, .four rfl (by omega) (by omega) rfl (by omega) (by omega)⟩
  split at h
  · cases h
    exact ⟨by decide, by decide,
      .four rfl (by omega) (by omega) (by dsimp only; omega) (by omega) (fun _ => by decide)⟩
  · cases h

/-- The first byte and the bytes that complete the character are those of the character. -/
theorem encodeChar_of_leads {owed : Nat} (hleads : Leads b.toNat p) (howed : p.owed = owed)
    (hcode : n / 64 ^ (owed + 1) = p.code) (hlow : p.low ≤ 0x80 + n / 64 ^ owed % 64)
    (hhigh : 0x80 + n / 64 ^ owed % 64 ≤ p.high) :
    encodeChar (Char.ofNat n) = b :: tails (owed + 1) n := by
  have hfirst {first : Nat} (h : first = b.toNat) : first.toUInt8 = b := by
    rw [h, Nat.toUInt8, UInt8.ofNat_toNat]
  cases hleads with
  | two hzero least most code =>
    obtain rfl : owed = 0 := by omega
    rw [encodeChar_two (by omega) (by omega), hfirst (by omega)]
  | three hone least most code overlong surrogate =>
    obtain rfl : owed = 1 := by omega
    rw [encodeChar_three (by omega) (by omega) (by omega), hfirst (by omega)]
  | four htwo least most code overlong pastLast =>
    obtain rfl : owed = 2 := by omega
    rw [encodeChar_four (by omega) (by omega), hfirst (by omega)]

/-- **The bytes of a character that is read are those of the character.** -/
theorem exists_char (h : decodeFrom index done none (b :: input) = .ok chars) :
    ∃ c rest next, b :: input = encodeChar c ++ rest ∧
      decodeFrom next (c :: done) none rest = .ok chars := by
  rw [decodeFrom] at h
  split at h
  · rename_i hone
    refine ⟨Char.ofNat b.toNat, input, index + 1, ?_, h⟩
    rw [encodeChar_one hone, Nat.toUInt8, UInt8.ofNat_toNat]
    rfl
  · split at h
    · rename_i p hlead
      obtain ⟨hlow, hhigh, hleads⟩ := leads_of_lead? hlead
      obtain ⟨n, rest, next, rfl, hcode, hleast, hmost, hnext⟩ := exists_tails rfl hlow hhigh h
      refine ⟨Char.ofNat n, rest, next, ?_, hnext⟩
      rw [encodeChar_of_leads hleads rfl hcode hleast hmost]
      rfl
    · cases h

theorem encodeChar_ne_nil (c : Char) : encodeChar c ≠ [] := by
  rw [encodeChar]
  split
  · exact List.cons_ne_nil _ _
  split
  · exact List.cons_ne_nil _ _
  split
  · exact List.cons_ne_nil _ _
  · exact List.cons_ne_nil _ _

/-- Bytes that are read to their end are those of the characters that are read. -/
theorem exists_chars (h : decodeFrom index done none bytes = .ok chars) :
    ∃ read, chars = done.reverse ++ read ∧ bytes = read.flatMap encodeChar := by
  induction hlength : bytes.length using Nat.strongRecOn generalizing index done bytes with
  | ind length ih =>
    cases bytes with
    | nil =>
      cases h
      exact ⟨[], (List.append_nil _).symm, rfl⟩
    | cons b input =>
      obtain ⟨c, rest, next, hsplit, hnext⟩ := exists_char h
      have hshorter : rest.length < length := by
        have hpos := List.length_pos_iff.2 (encodeChar_ne_nil c)
        rw [← hlength, hsplit, List.length_append]
        omega
      obtain ⟨read, rfl, rfl⟩ := ih rest.length hshorter hnext rfl
      refine ⟨c :: read, ?_, ?_⟩
      · rw [List.reverse_cons, List.append_assoc]
        rfl
      · rw [hsplit, List.flatMap_cons]

/-- **A string has one form.** The bytes that decode to it are those it is encoded in. -/
theorem encode_of_decode {s : String} (h : decode bytes = .ok s) : encode s = bytes := by
  rw [decode] at h
  rcases hdecode : decodeFrom 0 [] none bytes with refusal | chars
  · rw [hdecode] at h
    cases h
  · rw [hdecode] at h
    obtain rfl : String.ofList chars = s := Except.ok.inj h
    obtain ⟨read, rfl, rfl⟩ := exists_chars hdecode
    rw [encode, String.toList_ofList]

end PacketStream.Utf8
