import PacketStream.Frame.Decode
import PacketStream.Proofs.Outcome

/-!
# Reading the contents of a frame

`get_getField` computes a field of a frame from the varint at the cursor, so that no later proof
opens its reader. `isOfContents_of_decode` names the kinds of fault that the contents of a frame can
have. None of them asks for more bytes, since a frame is read only when it is there as a whole.
-/

namespace PacketStream

/-- Whether the fault is of a kind that the contents of a frame can have. -/
def Fault.isOfContents : Fault → Bool
  | malformed _ | decompression _ | sizeLimit .. => true
  | _ => false

namespace Framing

variable {f : Framing} {contents body : List UInt8} {e : Fault}

/-! ## Fields -/

theorem get_getField (field : String) (b : Buffer) :
    b.get (getField field) =
      match Varint.decode 32 b.unread with
      | .error refusal => (.error (.malformed (.varint 32 refusal)), b)
      | .ok none =>
        (.error (.malformed (.frameEndsInside field b.length b.position b.remaining)), b)
      | .ok (some (value, size)) => (.ok value.toUInt64.toUInt32.toInt32, b.advance size) := by
  have hvarint := Buffer.get_varint b
  simp only [Buffer.get, ExceptT.run, getField] at hvarint ⊢
  rw [hvarint]
  rcases Varint.decode 32 b.unread with refusal | (_ | ⟨value, size⟩) <;> rfl

/-! ## Faults -/

theorem isOfContents_of_getField {field : String} {b after : Buffer}
    (h : b.get (getField field) = (.error e, after)) : e.isOfContents = true := by
  rw [get_getField] at h
  split at h <;> cases h <;> rfl

theorem isOfContents_of_decompress {limit : Nat}
    (h : (Compression.decompress limit contents).outcome = .error e) : e.isOfContents = true := by
  rw [Compression.decompress] at h
  split at h
  · cases h
    rfl
  · split at h
    · rw [Checked.outcome_report_bind] at h
      cases h
      rfl
    · cases h

theorem isOfContents_of_inflateBody {announced : Nat}
    (h : (f.inflateBody announced contents).outcome = .error e) : e.isOfContents = true := by
  rw [inflateBody] at h
  split at h
  · rw [Checked.outcome_report_bind] at h
    cases h
    rfl
  · obtain h | ⟨body, -, h⟩ := Checked.outcome_bind_error h
    · exact isOfContents_of_decompress h
    · split at h
      · cases h
        rfl
      · rw [Checked.outcome_report_bind] at h
        cases h

theorem isOfContents_of_bodyOf (h : (f.bodyOf contents).outcome = .error e) :
    e.isOfContents = true := by
  rw [bodyOf] at h
  split at h
  · cases h
  split at h
  · rename_i hfield
    cases h
    exact isOfContents_of_getField hfield
  · split at h
    · cases h
      rfl
    split at h
    · cases h
    · exact isOfContents_of_inflateBody h

/-- **A frame that is there as a whole never asks for more**: it is malformed, too large, or a
broken compressed stream. -/
theorem isOfContents_of_decode (h : (f.decode contents).outcome = .error e) :
    e.isOfContents = true := by
  rw [decode] at h
  obtain h | ⟨body, -, h⟩ := Checked.outcome_bind_error h
  · exact isOfContents_of_bodyOf h
  split at h
  · rename_i hfield
    cases h
    exact isOfContents_of_getField hfield
  · split at h
    · cases h
      rfl
    · rw [Checked.outcome_report_bind] at h
      cases h

end Framing

end PacketStream
