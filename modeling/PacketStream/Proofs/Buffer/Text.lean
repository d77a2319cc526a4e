import Mathlib
import PacketStream.Proofs.Buffer.Reading
import PacketStream.Proofs.Buffer.RoundTrip
import PacketStream.Proofs.Text.Canonical

/-!
# Limits for strings

The writer of a string counts its characters, and the reader first its bytes and then its
characters. `text_limits` says that the two agree: of the strings that are written, a reader under
another limit takes just those that keep to its own limit, so a string within the limit is never
refused for its bytes; and what a reader takes, from whatever bytes, can be written again under the
same limit.

The last needs that a string read is no longer in bytes than what it was read from: there are no two
forms of it.
-/

namespace PacketStream.Buffer

variable {b after : Buffer} {s : String} {limit : Nat}

/-! ## Writing -/

/-- A string can be written where it keeps to the limit and its bytes can be counted. -/
theorem put_text_of_fits (hchars : s.length ≤ b.textLimit)
    (hlength : (Utf8.encode s).length ≤ Limits.prefixedLength) :
    b.put (Put.text s)
      = (.ok (), b.append (Varint.encode (Utf8.encode s).length ++ Utf8.encode s)) :=
  Put.put_of_run (Put.run_text.2 ⟨hchars, hlength, rfl⟩)

theorem put_text_of_manyCharacters (h : b.textLimit < s.length) :
    b.put (Put.text s)
      = (.error (.validation (.tooLong "string" s.length b.textLimit)), b) := by
  refine Put.put_of_fail ?_
  rw [Put.text, if_pos h]

/-- A length that cannot be told stops the writer in front of the length. -/
theorem put_text_of_manyBytes (hchars : s.length ≤ b.textLimit)
    (hlength : Limits.prefixedLength < (Utf8.encode s).length) :
    b.put (Put.text s) = (.error (.validation
      (.tooLong "string" (Utf8.encode s).length Limits.prefixedLength)), b) := by
  refine Put.put_of_fail ?_
  rw [Put.text, if_neg (Nat.not_lt.2 hchars)]
  dsimp only
  rw [Put.append_def, Put.lengthOf, if_pos hlength]
  rfl

/-! ## Reading -/

/-- **A string with too many characters is malformed**, be it for its bytes or for its characters,
and is left where it is. -/
theorem get_text_of_longer (hlength : (Utf8.encode s).length ≤ Limits.prefixedLength)
    (hlong : limit < s.length) (consumed tail : List UInt8) :
    let bytes := Varint.encode (Utf8.encode s).length ++ Utf8.encode s
    let b : Buffer := { consumed, unread := bytes ++ tail, textLimit := limit }
    ∃ cause, b.get Get.text = (.error (.malformed cause), b) := by
  intro bytes b
  rw [Put.get_text_counted hlength, Utf8.decode_encode]
  by_cases hbudget : 4 * limit < (Utf8.encode s).length
  · rw [if_pos hbudget]
    exact ⟨_, rfl⟩
  · rw [if_neg hbudget]
    dsimp only
    rw [if_pos hlong]
    exact ⟨_, rfl⟩

theorem length_of_get_take {n : Nat} {taken : List UInt8}
    (h : b.get (Get.take n) = (.ok taken, after)) : taken.length = n := by
  rw [get_take] at h
  split at h
  · cases h
  · rename_i hlong
    cases h
    rw [remaining] at hlong
    rw [List.length_take]
    omega

/-- What is known of a string that was read: its bytes were counted, and are UTF-8 for no more
characters than the limit. -/
theorem get_text_ok (h : b.get Get.text = (.ok s, after)) :
    ∃ number counted taken, b.get Get.varint = (.ok number, counted) ∧ ¬ number.toInt < 0 ∧
      counted.get (Get.take number.toInt.toNat) = (.ok taken, after) ∧
      Utf8.decode taken = .ok s ∧ s.length ≤ b.textLimit := by
  obtain ⟨offset, _, hoffset, hget⟩ := get_bind_ok (get_of_restoring h)
  obtain ⟨number, counted, hnumber, hget⟩ := get_bind_ok hget
  obtain ⟨limit, _, hlimit, hget⟩ := get_bind_ok hget
  cases hoffset
  cases hlimit
  obtain ⟨size, -, hsize, -⟩ := Get.robust_varint.follows hnumber
  split at hget
  · cases hget
  rename_i hnonneg
  split at hget
  · cases hget
  obtain ⟨taken, last, htake, hget⟩ := get_bind_ok hget
  split at hget
  · cases hget
  rename_i hdecode
  split at hget
  · cases hget
  rename_i hchars
  cases hget
  rw [hsize] at hchars
  exact ⟨number, counted, taken, hnumber, hnonneg, htake, hdecode, Nat.not_lt.1 hchars⟩

/-- What a signed number of 32 bits counts can be counted by one again. -/
theorem length_le_of_get_take {number : Int32} {taken : List UInt8}
    (h : b.get (Get.take number.toInt.toNat) = (.ok taken, after)) :
    taken.length ≤ Limits.prefixedLength := by
  have hnumber := number.toInt_lt
  rw [length_of_get_take h, Limits.prefixedLength]
  omega

/-- **A string that was read can be written**: it keeps to the limit, and its bytes are just those
that were counted. -/
theorem fits_of_get_text (h : b.get Get.text = (.ok s, after)) :
    s.length ≤ b.textLimit ∧ (Utf8.encode s).length ≤ Limits.prefixedLength := by
  obtain ⟨number, counted, taken, -, -, htake, hdecode, hchars⟩ := get_text_ok h
  refine ⟨hchars, ?_⟩
  rw [Utf8.encode_of_decode hdecode]
  exact length_le_of_get_take htake

/-! ## Both -/

/-- **Limits for strings agree.** A string is written if and only if it has no more characters than
the limit and its bytes can be counted by a signed number of 32 bits; otherwise it is refused as too
long, and the buffer stays as it was. Where it is written, a reader under any limit gives the string
if it has no more characters than that limit, and stops behind it; otherwise the bytes are malformed
for the reader, and the cursor stays where it was. And a string that is read from any bytes has no
more characters than the limit, and can be written under the same limit. -/
theorem text_limits (s : String) (b : Buffer) (limit : Nat) (consumed tail : List UInt8) :
    let bytes := Varint.encode (Utf8.encode s).length ++ Utf8.encode s
    let reader : Buffer := { consumed, unread := bytes ++ tail, textLimit := limit }
    let fits := s.length ≤ b.textLimit ∧ (Utf8.encode s).length ≤ Limits.prefixedLength
    (fits → b.put (Put.text s) = (.ok (), b.append bytes)) ∧
    (¬ fits → ∃ length max,
      b.put (Put.text s) = (.error (.validation (.tooLong "string" length max)), b)) ∧
    (fits → s.length ≤ limit →
      reader.get Get.text = (.ok s, reader.advance bytes.length)) ∧
    (fits → limit < s.length →
      ∃ cause, reader.get Get.text = (.error (.malformed cause), reader)) ∧
    ∀ t after, b.get Get.text = (.ok t, after) → t.length ≤ b.textLimit ∧
      ∀ writer : Buffer, writer.textLimit = b.textLimit →
        (writer.put (Put.text t)).1 = .ok () := by
  intro bytes reader fits
  refine ⟨fun h => put_text_of_fits h.1 h.2, ?_, ?_, ?_, ?_⟩
  · intro hnot
    by_cases hchars : s.length ≤ b.textLimit
    · have hlength : ¬ (Utf8.encode s).length ≤ Limits.prefixedLength :=
        fun hlength => hnot ⟨hchars, hlength⟩
      exact ⟨_, _, put_text_of_manyBytes hchars (Nat.not_le.1 hlength)⟩
    · exact ⟨_, _, put_text_of_manyCharacters (Nat.not_le.1 hchars)⟩
  · intro hfits hchars
    have hreads := Put.readsBack_text s (Put.run_text.2 ⟨hchars, hfits.2, rfl⟩) consumed tail
      (by simp)
    rw [hreads, advance, List.take_left, List.drop_left]
  · intro hfits hlong
    exact get_text_of_longer hfits.2 hlong consumed tail
  · intro t after h
    obtain ⟨hchars, hlength⟩ := fits_of_get_text h
    refine ⟨hchars, ?_⟩
    intro writer hlimit
    rw [put_text_of_fits (hlimit ▸ hchars) hlength]

/-- Two characters of four bytes each: refused by a writer under a limit of one, taken by a reader
under a limit of two although they take up all the bytes that it allows, refused by one under a limit
of one. -/
theorem text_limits_fourBytes :
    let s := "😀😀"
    let bytes : List UInt8 := [8, 0xF0, 0x9F, 0x98, 0x80, 0xF0, 0x9F, 0x98, 0x80]
    let b (limit : Nat) : Buffer := { textLimit := limit }
    let reader (limit : Nat) : Buffer :=
      { consumed := [1], unread := bytes ++ [9], textLimit := limit }
    (b 2).put (Put.text s) = (.ok (), (b 2).append bytes) ∧
      (∃ length max, (b 1).put (Put.text s)
        = (.error (.validation (.tooLong "string" length max)), b 1)) ∧
      (reader 2).get Get.text = (.ok s, (reader 2).advance 9) ∧
      (∃ cause, (reader 1).get Get.text = (.error (.malformed cause), reader 1)) ∧
      ∀ writer : Buffer, writer.textLimit = 2 → (writer.put (Put.text s)).1 = .ok () := by
  intro s bytes b reader
  have hbytes : Varint.encode (Utf8.encode s).length ++ Utf8.encode s = bytes := by cbv
  have hlength : s.length = 2 := by cbv
  have hcounted : (Utf8.encode s).length ≤ Limits.prefixedLength := by cbv
  obtain ⟨hput, -, hread, -⟩ := text_limits s (b 2) 2 [1] [9]
  obtain ⟨-, -, -, hlong, -⟩ := text_limits s (b 2) 1 [1] [9]
  obtain ⟨-, hrefused, -⟩ := text_limits s (b 1) 1 [1] [9]
  obtain ⟨-, -, -, -, hagain⟩ := text_limits s (reader 2) 2 [] []
  rw [hbytes] at hput hread hlong
  have hfits : s.length ≤ (b 2).textLimit ∧ (Utf8.encode s).length ≤ Limits.prefixedLength :=
    ⟨Nat.le_of_eq hlength, hcounted⟩
  have hreads := hread hfits (Nat.le_of_eq hlength)
  refine ⟨hput hfits, hrefused ?_, hreads, hlong hfits (by omega), (hagain s _ hreads).2⟩
  intro hshort
  have hone : s.length ≤ 1 := hshort.1
  omega

end PacketStream.Buffer
