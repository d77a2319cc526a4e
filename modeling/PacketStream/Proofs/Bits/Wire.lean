import Mathlib
import PacketStream.Bits.BitSet
import PacketStream.Proofs.Buffer.Fields

/-!
# Bit sets on the wire

A set is written as the number of its words and the bytes of the words, and its reader takes just
this: a number that is not negative, in any form, and as many words behind it. `get_read` is the
equation of the reader on all buffers, with each of the ways in which it can fail; `wire_format` says
both directions and the faults.

The words and their bytes determine each other (`wordsOfBytes_bytesOfWords`, `bytesOfWords_wordsOfBytes`),
so what a set that was read is written as differs from what it was read from in the form of the number
only.
-/

namespace PacketStream.BitSet

variable {s : BitSet} {b : Buffer} {limit count size : Nat} {bytes : List UInt8}

/-! ## Words and bytes -/

/-- The bytes of words, one behind the other. -/
def bytesOfWords (words : List UInt64) : List UInt8 :=
  words.flatMap fun w => BigEndian.encode 8 w.toNat

@[simp] theorem length_bytesOfWords (words : List UInt64) :
    (bytesOfWords words).length = 8 * words.length := by
  induction words with
  | nil => rfl
  | cons w words ih =>
    rw [bytesOfWords, List.flatMap_cons, List.length_append, BigEndian.length_encode,
      ← bytesOfWords, ih, List.length_cons]
    omega

/-- Eight bytes at the front are the first word. -/
theorem wordsOfBytes_append {eight : List UInt8} (h : eight.length = 8) (rest : List UInt8) :
    wordsOfBytes (eight ++ rest) = (BigEndian.decode eight).toUInt64 :: wordsOfBytes rest := by
  match eight, h with
  | [_, _, _, _, _, _, _, _], _ => rfl

theorem wordsOfBytes_bytesOfWords (words : List UInt64) :
    wordsOfBytes (bytesOfWords words) = words := by
  induction words with
  | nil => rfl
  | cons w words ih =>
    have hword : (BigEndian.decode (BigEndian.encode 8 w.toNat)).toUInt64 = w := by
      rw [BigEndian.decode_encode, Nat.mod_eq_of_lt w.toNat_lt, Nat.toUInt64, UInt64.ofNat_toNat]
    rw [bytesOfWords, List.flatMap_cons, wordsOfBytes_append (BigEndian.length_encode ..), hword,
      ← bytesOfWords, ih]

/-- Whole words of bytes are the bytes of as many words. -/
theorem bytesOfWords_wordsOfBytes (h : bytes.length = 8 * count) :
    bytesOfWords (wordsOfBytes bytes) = bytes ∧ (wordsOfBytes bytes).length = count := by
  induction count generalizing bytes with
  | zero =>
    obtain rfl := List.eq_nil_of_length_eq_zero h
    exact ⟨rfl, rfl⟩
  | succ count ih =>
    have hfront : (bytes.take 8).length = 8 := by
      rw [List.length_take]
      omega
    obtain ⟨hbytes, hlength⟩ := @ih (bytes.drop 8) (by rw [List.length_drop]; omega)
    have hword : BigEndian.encode 8 (BigEndian.decode (bytes.take 8)).toUInt64.toNat
        = bytes.take 8 := by
      have hlt := BigEndian.decode_lt (bytes.take 8)
      have hencode := BigEndian.encode_decode (bytes.take 8)
      rw [hfront] at hlt hencode
      have hnat : (BigEndian.decode (bytes.take 8)).toUInt64.toNat
          = BigEndian.decode (bytes.take 8) := UInt64.toNat_ofNat_of_lt hlt
      rw [hnat, hencode]
    have hsplit : wordsOfBytes bytes = (BigEndian.decode (bytes.take 8)).toUInt64
        :: wordsOfBytes (bytes.drop 8) := by
      rw [← wordsOfBytes_append hfront, List.take_append_drop]
    rw [hsplit]
    refine ⟨?_, by rw [List.length_cons, hlength]⟩
    rw [bytesOfWords, List.flatMap_cons, hword, ← bytesOfWords, hbytes, List.take_append_drop]

/-! ## Writing -/

/-- A set can be written where the number of its words can be told. -/
theorem run_put : s.put.run limit = .ok bytes ↔ s.words.length ≤ Limits.prefixedLength ∧
    bytes = Varint.encode s.words.length ++ bytesOfWords s.words := by
  rw [put, validate]
  by_cases hlong : Limits.prefixedLength < s.words.length
  · rw [if_pos hlong]
    constructor
    · intro h
      cases h
    · intro h
      omega
  · rw [if_neg hlong, and_iff_right (by omega)]
    exact Put.run_raw

/-! ## Reading -/

/-- A count of words is negative from the first number that a signed one cannot tell. -/
theorem toInt_count (h : count < UInt32.size) : count.toUInt64.toUInt32.toInt32.toInt
    = if count ≤ Limits.prefixedLength then (count : Int) else count - UInt32.size := by
  rw [Varint.toInt_signed, Varint.toNat_signed h, Limits.prefixedLength, UInt32.size]
  split <;> split <;> omega

/-- **The reader of a set, on all buffers.** Where the number can be read it is behind it that the
reader looks for the words, and from there that it asks for all their bytes at once. -/
theorem get_read (b : Buffer) : b.get read =
    match Varint.decode 32 b.unread with
    | .error refusal => (.error (.malformed (.varint 32 refusal)), b)
    | .ok none => (.error (.insufficientData b.position (b.remaining + 1) b.remaining), b)
    | .ok (some (count, size)) =>
      let behind := b.advance size
      if Limits.prefixedLength < count then
        (.error (.malformed (.negativeWordCount (count - UInt32.size) b.position)), behind)
      else if behind.remaining < 8 * count then
        (.error (.insufficientData behind.position (8 * count) behind.remaining), behind)
      else
        (.ok { words := wordsOfBytes (behind.unread.take (8 * count)) },
          behind.advance (8 * count)) := by
  rw [read, Buffer.get_bind_of_ok (Buffer.get_position b), Buffer.get_bind, Buffer.get_varint]
  rcases hdecode : Varint.decode 32 b.unread with refusal | (_ | ⟨count, size⟩)
  · rfl
  · rfl
  dsimp only
  have hlt : count < UInt32.size := (Varint.decode_bounds (by decide) hdecode).2.2
  have hint := toInt_count hlt
  by_cases hlong : Limits.prefixedLength < count
  · rw [if_neg (Nat.not_le.2 hlong)] at hint
    rw [hint, if_pos hlong, if_pos (by omega)]
    rfl
  · rw [if_pos (Nat.not_lt.1 hlong)] at hint
    rw [hint, if_neg hlong, if_neg (by omega), Int.toNat_natCast, Buffer.get_bind,
      Buffer.get_take]
    by_cases hshort : (b.advance size).remaining < 8 * count
    · rw [if_pos hshort, if_pos hshort]
    · rw [if_neg hshort, if_neg hshort]
      rfl

/-- **A set is read** where enough words stand behind a number that is not negative: those words, from
just their bytes. -/
theorem exists_get_read (hdecode : Varint.decode 32 b.unread = .ok (some (count, size)))
    (hcount : count ≤ Limits.prefixedLength) (hwords : size + 8 * count ≤ b.remaining) :
    ∃ u : BitSet, b.get read = (.ok u, b.advance (size + 8 * count)) ∧ u.words.length = count ∧
      b.unread.take (size + 8 * count) = b.unread.take size ++ bytesOfWords u.words := by
  have hbehind := Buffer.remaining_advance (b := b) size
  have hread : b.get read = (.ok { words := wordsOfBytes ((b.unread.drop size).take (8 * count)) },
      b.advance (size + 8 * count)) := by
    rw [get_read, hdecode]
    dsimp only
    rw [if_neg (by omega), if_neg (by omega), Buffer.advance_advance]
    rfl
  have hlength : ((b.unread.drop size).take (8 * count)).length = 8 * count := by
    rw [Buffer.remaining] at hwords
    rw [List.length_take, List.length_drop]
    omega
  obtain ⟨hbytes, hsame⟩ := bytesOfWords_wordsOfBytes hlength
  refine ⟨_, hread, hsame, ?_⟩
  rw [hbytes, List.take_add]

/-- And nowhere else. -/
theorem get_read_ok {u : BitSet} {after : Buffer} (h : b.get read = (.ok u, after)) :
    ∃ count size, Varint.decode 32 b.unread = .ok (some (count, size)) ∧
      count ≤ Limits.prefixedLength ∧ size + 8 * count ≤ b.remaining := by
  rw [get_read] at h
  rcases hdecode : Varint.decode 32 b.unread with refusal | (_ | ⟨count, size⟩) <;>
    rw [hdecode] at h
  · cases h
  · cases h
  dsimp only at h
  split at h
  · cases h
  split at h
  · cases h
  rename_i hcount hwords
  have hsize : size ≤ b.remaining := (Varint.decode_bounds (by decide) hdecode).2.1
  rw [Buffer.remaining_advance] at hwords
  exact ⟨count, size, rfl, by omega, by omega⟩

/-- What was written is read, whatever comes behind it. -/
theorem readsBack_put (s : BitSet) : s.put.ReadsBack read s false := by
  intro limit bytes h consumed tail _
  obtain ⟨hcount, rfl⟩ := run_put.1 h
  have hdecode : Varint.decode 32 (Varint.encode s.words.length ++ (bytesOfWords s.words ++ tail))
      = .ok (some (s.words.length, (Varint.encode s.words.length).length)) := by
    rw [Varint.length_encode]
    refine Varint.decode_encode_append _ (by decide) ?_
    rw [Limits.prefixedLength] at hcount
    show s.words.length < UInt32.size
    rw [UInt32.size]
    omega
  rw [get_read, List.append_assoc, hdecode]
  dsimp only
  rw [if_neg (Nat.not_lt.2 hcount), if_neg (by simp [Buffer.remaining, Buffer.advance])]
  simp [Buffer.advance, ← length_bytesOfWords, wordsOfBytes_bytesOfWords]

/-! ## Both directions -/

/-- **The wire format of bit sets.** A set with no more words than a signed number of 32 bits can count
is written as the number of its words in its shortest form and their bytes, eight each, most significant
first; and it is read from these, whatever stands in front and behind. A reader succeeds if and only if
the bytes begin with a varint of 32 bits that is not negative as a signed number, and as many words are
there behind it. It takes just the varint and the words, and the set has these words in their order.
Such a set can be written again, and is written as it was read if and only if the number was in its
minimal form. A negative number is malformed, and where bytes are wanting those of all words are asked
for; in both cases the number has been taken, and no word. -/
theorem wire_format (s : BitSet) (b : Buffer) :
    let written := Varint.encode s.words.length ++ bytesOfWords s.words
    (s.words.length ≤ Limits.prefixedLength →
      b.put (Wire.put s) = (.ok (), b.append written) ∧
      ∀ consumed tail limit,
        Buffer.get { consumed, unread := written ++ tail, textLimit := limit } Wire.get
          = (.ok s, { consumed := consumed ++ written, unread := tail, textLimit := limit })) ∧
    ((∃ (u : BitSet) (after : Buffer), b.get Wire.get = (.ok u, after)) ↔
      ∃ count size, Varint.decode 32 b.unread = .ok (some (count, size)) ∧
        count ≤ Limits.prefixedLength ∧ size + 8 * count ≤ b.remaining) ∧
    ∀ count size, Varint.decode 32 b.unread = .ok (some (count, size)) →
      (Limits.prefixedLength < count → b.get (Wire.get : Get BitSet)
        = (.error (.malformed (.negativeWordCount (count - UInt32.size) b.position)),
          b.advance size)) ∧
      (count ≤ Limits.prefixedLength → b.remaining < size + 8 * count →
        b.get (Wire.get : Get BitSet)
          = (.error (.insufficientData (b.position + size) (8 * count) (b.remaining - size)),
            b.advance size)) ∧
      (count ≤ Limits.prefixedLength → size + 8 * count ≤ b.remaining → ∃ u : BitSet,
        b.get Wire.get = (.ok u, b.advance (size + 8 * count)) ∧ u.words.length = count ∧
        b.unread.take (size + 8 * count) = b.unread.take size ++ bytesOfWords u.words ∧
        ∀ limit, ∃ again, (Wire.put u).run limit = .ok again ∧
          (again = b.unread.take (size + 8 * count)
            ↔ Varint.IsMinimal (b.unread.take size))) := by
  intro written
  have hget : (Wire.get : Get BitSet) = read := rfl
  rw [hget]
  refine ⟨?_, ⟨?_, ?_⟩, ?_⟩
  · intro hcount
    have hrun (limit : Nat) : s.put.run limit = .ok written := run_put.2 ⟨hcount, rfl⟩
    refine ⟨Put.put_of_run (hrun _), fun consumed tail limit => ?_⟩
    exact readsBack_put s (hrun limit) consumed tail nofun
  · rintro ⟨u, after, h⟩
    exact get_read_ok h
  · rintro ⟨count, size, hdecode, hcount, hwords⟩
    obtain ⟨u, hu, -⟩ := exists_get_read hdecode hcount hwords
    exact ⟨u, _, hu⟩
  · intro count size hdecode
    have hsize : size ≤ b.remaining := (Varint.decode_bounds (by decide) hdecode).2.1
    refine ⟨?_, ?_, ?_⟩
    · intro hlong
      rw [get_read, hdecode]
      dsimp only
      rw [if_pos hlong]
    · intro hcount hshort
      have hbehind := Buffer.remaining_advance (b := b) size
      rw [get_read, hdecode]
      dsimp only
      rw [if_neg (by omega), if_pos (by omega), Buffer.position_advance hsize, hbehind]
    · intro hcount hwords
      obtain ⟨u, hu, hlength, hbytes⟩ := exists_get_read hdecode hcount hwords
      refine ⟨u, hu, hlength, hbytes, fun limit => ⟨_, run_put.2 ⟨by omega, rfl⟩, ?_⟩⟩
      rw [hbytes, hlength, List.append_left_inj, (Varint.denotes_take hdecode).isMinimal_iff,
        eq_comm]

/-- One word behind a number in two bytes, of which one would do. Of two words only one is there: the
bytes of both are asked for, from behind the number. And a number may be negative. -/
theorem wire_format_padded :
    let word : List UInt8 := [0, 0, 0, 0, 0, 0, 1, 2]
    let b : Buffer := { consumed := [9], unread := [0x81, 0] ++ word ++ [7] }
    let short : Buffer := { b with unread := 2 :: word }
    let negative : Buffer := { b with unread := [0xFF, 0xFF, 0xFF, 0xFF, 0x0F] ++ word }
    (∃ u : BitSet, b.get Wire.get = (.ok u, b.advance 10) ∧ u.words.length = 1 ∧
      [0x81, 0] ++ word = [0x81, 0] ++ bytesOfWords u.words) ∧ ¬ Varint.IsMinimal [0x81, 0] ∧
    short.get (Wire.get : Get BitSet)
      = (.error (.insufficientData 2 16 8), { short with consumed := [9, 2], unread := word }) ∧
    negative.get (Wire.get : Get BitSet)
      = (.error (.malformed (.negativeWordCount (-1) 1)), negative.advance 5) ∧
    Buffer.get { unread := [1] ++ word ++ [7] } Wire.get
      = (.ok { words := [258] : BitSet }, { consumed := [1] ++ word, unread := [7] }) := by
  intro word b short negative
  obtain ⟨-, -, hb⟩ := wire_format {} b
  obtain ⟨-, -, hshort⟩ := wire_format {} short
  obtain ⟨-, -, hnegative⟩ := wire_format {} negative
  obtain ⟨hwritten, -, -⟩ := wire_format { words := [258] } b
  obtain ⟨u, hu, hlength, htaken, -⟩ := (hb 1 2 (by cbv)).2.2 (by decide) (by decide)
  have hone : Varint.encode 1 = [1] := by cbv
  have hword : bytesOfWords [258] = word := by cbv
  have hread := (hwritten (by decide)).2 [] [7] Limits.textLength
  dsimp only [List.length_singleton] at hread
  rw [hone, hword] at hread
  refine ⟨⟨u, hu, hlength, htaken⟩, ?_, (hshort 2 1 (by cbv)).2.1 (by decide) (by decide),
    (hnegative 4294967295 5 (by cbv)).1 (by decide), hread⟩
  have hdenotes : Varint.Denotes [0x81, 0] 1 := by cbv
  rw [hdenotes.isMinimal_iff, hone]
  decide

end PacketStream.BitSet
