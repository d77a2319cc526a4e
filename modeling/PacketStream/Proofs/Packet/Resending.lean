import Mathlib
import PacketStream.Packet.Login
import PacketStream.Packet.Status
import PacketStream.Proofs.Buffer.Text
import PacketStream.Proofs.Json.Compact

/-!
# Documents that are sent on

A document is received as the text that the peer has written, and sent on as its compact text. The limit
for strings holds for either. So whether a document that was received under a limit can be sent on under
the same limit is a question of which text is longer: `resends_iff_fits` says that blanks, escapes,
keys that come twice and whole numbers never make the compact text the longer one, and that
floating-point numbers can.
-/

namespace PacketStream

/-! ## Characters and bytes -/

namespace Json.Room

/-- Each character takes one. -/
def characters : Room where
  of _ := 1
  ascii _ _ := rfl
  le_escape _ := by decide

/-- Each character takes its bytes. -/
def bytes : Room where
  of c := (Utf8.encodeChar c).length
  ascii c hc := by rw [Utf8.encodeChar, if_pos hc]; rfl
  le_escape c := Nat.le_trans (Utf8.length_encodeChar_le c) (by decide)

theorem size_characters (s : String) : characters.size s.toList = s.length := by
  rw [size, characters, List.map_const', List.sum_replicate, smul_eq_mul, Nat.mul_one,
    String.length_toList]

theorem size_bytes (s : String) : bytes.size s.toList = (Utf8.encode s).length := by
  rw [size, bytes, Utf8.encode, List.length_flatMap]

end Json.Room

/-! ## Packets that hold a document -/

namespace Packet

variable {b after writer : Buffer} {v : Json} {put : Put}

/-- A document that has been read from a buffer in a packet, and what writes that packet. -/
inductive Received (b : Buffer) : Json → Put → Prop
  | statusResponse {p : StatusResponse} {after : Buffer} (h : b.get Wire.get = (.ok p, after)) :
      Received b p.data (Wire.put p)
  | loginDisconnect {p : LoginDisconnect} {after : Buffer} (h : b.get Wire.get = (.ok p, after)) :
      Received b p.reason (Wire.put p)

/-- A document that is read is that of a string that is read. -/
theorem exists_text_of_getJson (h : b.get getJson = (.ok v, after)) :
    ∃ s, b.get Get.text = (.ok s, after) ∧ Json.ofText? s = some v := by
  obtain ⟨s, mid, htext, hparse⟩ := Buffer.get_bind_ok h
  split at hparse
  · rename_i hparsed
    cases hparse
    exact ⟨s, htext, hparsed⟩
  · cases hparse

theorem Received.exists_text (h : Received b v put) :
    put = putJson v ∧ ∃ s after, b.get Get.text = (.ok s, after) ∧ Json.ofText? s = some v := by
  cases h with
  | statusResponse h =>
    obtain ⟨v, mid, hjson, hp⟩ := Buffer.get_bind_ok h
    obtain ⟨s, htext, hparsed⟩ := exists_text_of_getJson hjson
    cases hp
    exact ⟨rfl, s, _, htext, hparsed⟩
  | loginDisconnect h =>
    obtain ⟨v, mid, hjson, hp⟩ := Buffer.get_bind_ok h
    obtain ⟨s, htext, hparsed⟩ := exists_text_of_getJson hjson
    cases hp
    exact ⟨rfl, s, _, htext, hparsed⟩

/-- **A document can be sent on under the limit under which it was received if and only if its compact
text fits**, which is longer than the text that was received only for numbers. The writer takes the
compact text if it keeps to the limit and its bytes can be counted, and otherwise refuses it as too long
and leaves the buffer as it was. In characters as in bytes, the compact text is longer than the text
that was received by no more than what the numbers of that text are printed longer than they are
spelled. Each number is printed as it is spelled, if it is not one that is read as floating point. So
the document fits where the numbers together are not printed longer than they are spelled, as where none
is that is read as floating point. -/
theorem resends_iff_fits (h : Received b v put) (hlimit : writer.textLimit = b.textLimit) :
    let bytes := Utf8.encode v.text
    let fits := v.text.length ≤ b.textLimit ∧ bytes.length ≤ Limits.prefixedLength
    (fits → writer.put put = (.ok (), writer.append (Varint.encode bytes.length ++ bytes))) ∧
    (b.textLimit < v.text.length → writer.put put
      = (.error (.validation (.tooLong "string" v.text.length b.textLimit)), writer)) ∧
    (v.text.length ≤ b.textLimit → Limits.prefixedLength < bytes.length → writer.put put
      = (.error (.validation (.tooLong "string" bytes.length Limits.prefixedLength)), writer)) ∧
    ∃ s after, b.get Get.text = (.ok s, after) ∧ Json.ofText? s = some v ∧
      let numerals := Json.numerals s.toList
      v.text.length + Json.spelled numerals ≤ s.length + Json.printed numerals ∧
      bytes.length + Json.spelled numerals ≤ (Utf8.encode s).length + Json.printed numerals ∧
      (∀ chars ∈ numerals, ∃ n, Json.Number.ofChars? chars = some n ∧
        (n.chars = chars ∨ ∃ bits, n = .float bits)) ∧
      (Json.printed numerals ≤ Json.spelled numerals → fits) ∧
      ((∀ chars ∈ numerals, ∀ bits, Json.Number.ofChars? chars = some (.float bits) →
        (Json.Number.float bits).chars.length ≤ chars.length) → fits) := by
  intro bytes fits
  obtain ⟨rfl, s, after, htext, hparsed⟩ := h.exists_text
  refine ⟨?_, ?_, ?_, s, after, htext, hparsed, ?_⟩
  · intro hfits
    exact Buffer.put_text_of_fits (hlimit ▸ hfits.1) hfits.2
  · intro hlong
    rw [← hlimit] at hlong ⊢
    exact Buffer.put_text_of_manyCharacters hlong
  · intro hchars hlong
    exact Buffer.put_text_of_manyBytes (hlimit ▸ hchars) hlong
  intro numerals
  obtain ⟨hchars, hcounted⟩ := Buffer.fits_of_get_text htext
  have hcharacters := Json.Room.characters.size_text_of_ofText? hparsed
  have hbytes := Json.Room.bytes.size_text_of_ofText? hparsed
  rw [Json.Room.size_characters, Json.Room.size_characters] at hcharacters
  rw [Json.Room.size_bytes, Json.Room.size_bytes] at hbytes
  have hfits (hprinted : Json.printed numerals ≤ Json.spelled numerals) : fits := by
    dsimp only [numerals, fits, bytes] at hprinted ⊢
    omega
  refine ⟨hcharacters, hbytes, ?_, hfits, fun hfloats => hfits (Json.printed_le_spelled hfloats)⟩
  intro chars hmem
  obtain ⟨n, hn⟩ := Json.exists_of_mem_numerals hparsed hmem
  exact ⟨n, hn, Json.Number.chars_of_ofChars? hn⟩

/-- Blanks and an escape make room for the number, which is printed with two characters more than it is
spelled with. -/
theorem resends_iff_fits_roomy :
    let v : Json := .array [.string "A", .number (.float 0x8000000000000000)]
    let b : Buffer := { textLimit := 17, unread := [17, 0x5B, 0x20, 0x22, 0x5C, 0x75, 0x30, 0x30, 0x34,
      0x31, 0x22, 0x20, 0x2C, 0x20, 0x2D, 0x30, 0x20, 0x5D, 7] }
    let writer : Buffer := { consumed := [9], textLimit := 17 }
    Received b v (putJson v) ∧
      writer.put (putJson v) = (.ok (), writer.append
        [10, 0x5B, 0x22, 0x41, 0x22, 0x2C, 0x2D, 0x30, 0x2E, 0x30, 0x5D]) := by
  intro v b writer
  have hread : (b.get (Wire.get : Get StatusResponse)).1 = .ok { data := v } := by cbv
  have hreceived : Received b v (putJson v) := .statusResponse (Prod.ext hread rfl)
  have hlimit : writer.textLimit = b.textLimit := rfl
  obtain ⟨hwritten, -⟩ := resends_iff_fits hreceived hlimit
  have hbytes : Varint.encode (Utf8.encode v.text).length ++ Utf8.encode v.text
      = [10, 0x5B, 0x22, 0x41, 0x22, 0x2C, 0x2D, 0x30, 0x2E, 0x30, 0x5D] := by cbv
  have hlength : v.text.length = 10 := by cbv
  have hcounted : (Utf8.encode v.text).length = 10 := by cbv
  rw [hbytes] at hwritten
  refine ⟨hreceived, hwritten ⟨?_, ?_⟩⟩
  · rw [hlength]
    exact (by decide : 10 ≤ 17)
  · rw [hcounted]
    exact (by decide : 10 ≤ Limits.prefixedLength)

/-- Negative zero fits as it is spelled and does not fit as it is printed. -/
theorem negativeZero_not_resent :
    let p : StatusResponse := { data := .number (.float 0x8000000000000000) }
    let b : Buffer := { unread := [2, 0x2D, 0x30], textLimit := 2 }
    let writer : Buffer := { textLimit := 2 }
    b.get Wire.get = (.ok p, b.advance 3) ∧
      writer.put (Wire.put p) = (.error (.validation (.tooLong "string" 4 2)), writer) := by
  intro p b writer
  exact ⟨Prod.ext (by cbv) (by cbv), Prod.ext (by cbv) (by cbv)⟩

end Packet

end PacketStream
