import Mathlib
import PacketStream.Proofs.Connection.Receiving

/-!
# Where a fault leaves the stream

A fault that is not fatal concerns one packet, so the next read should start at the next frame.
`frameGone_iff_announces` says exactly when it does: if and only if the length in front of the
frame is one that the limits allow. A fault inside a frame is found when the frame has been read as
a whole. A length that is refused is all that has been taken by then, although its fault is not
fatal either; the next read takes the contents of that frame for a length
(`long_length_leaves_contents`).
-/

namespace PacketStream

namespace Framing

variable {f : Framing} {pre taken bytes rest : List UInt8}

/-- The bytes began with a frame, its length and as many bytes as that declares, and `rest` is
what was behind it. -/
def FrameGone (bytes rest : List UInt8) : Prop :=
  ∃ pre contents, bytes = pre ++ contents ++ rest ∧ Declares pre contents.length

/-- The bytes are no length, or one that the limits do not allow. -/
def Refuses (f : Framing) (taken : List UInt8) : Prop :=
  (∃ refusal, Varint.decode varintBits taken = .error refusal) ∨
    ∃ declared, Declares taken declared ∧ (declared < 0 ∨ f.config.frameLength < declared)

theorem refuses_of_rejects {value : Nat} {e : Fault}
    (length : Varint.decode varintBits taken = .ok (some (value, taken.length)))
    (rejects : (f.checkLength value.toUInt32.toInt32).outcome = .error e) : f.Refuses taken := by
  refine .inr ⟨_, ⟨value, length, rfl⟩, ?_⟩
  rw [outcome_checkLength] at rejects
  by_cases hneg : value.toUInt32.toInt32 < 0
  · rw [Int32.lt_iff_toInt_lt, Int32.toInt_zero] at hneg
    exact .inl hneg
  rw [if_neg hneg] at rejects
  by_cases hlimit : f.config.frameLength < value.toUInt32.toInt32.toInt.toNat
  · exact .inr (by omega)
  · rw [if_neg hlimit] at rejects
    cases rejects

/-- No frame is announced where the length is refused. -/
theorem Refuses.not_announces {n : Nat} (h : f.Refuses taken) (hpre : pre <+: taken ++ rest) :
    ¬ f.Announces pre n := by
  intro hannounces
  obtain ⟨behind, hbehind⟩ := hpre
  obtain ⟨hdeclares, hlimit⟩ := announces_iff.1 hannounces
  rcases h with ⟨refusal, hrefusal⟩ | ⟨declared, hdeclared, hrange⟩
  · obtain ⟨value, hvalue, -⟩ := hdeclares
    have hleft := Varint.decode_append_of_some varintBits_pos hvalue behind
    rw [hbehind, Varint.decode_append_of_error varintBits_pos hrefusal] at hleft
    cases hleft
  · obtain ⟨rfl, rfl⟩ := hdeclares.unique hdeclared hbehind
    omega

/-- A refused length alone is not the frame in front of which it stands. -/
theorem Refuses.not_frameGone (h : f.Refuses taken) : ¬ FrameGone (taken ++ rest) rest := by
  intro hgone
  obtain ⟨pre, contents, hsplit, hdeclares⟩ := hgone
  have htaken : taken = pre ++ contents := List.append_cancel_right hsplit
  rcases h with ⟨refusal, hrefusal⟩ | ⟨declared, hdeclared, hrange⟩
  · obtain ⟨value, hvalue, -⟩ := hdeclares
    rw [htaken, Varint.decode_append_of_some varintBits_pos hvalue] at hrefusal
    cases hrefusal
  · rw [List.append_assoc] at hsplit
    obtain ⟨rfl, rfl⟩ := hdeclared.unique hdeclares hsplit
    have hnil : contents = [] := List.self_eq_append_right.1 htaken
    rw [hnil, List.length_nil] at hrange
    omega

end Framing

namespace Connection

open Framing

/-- **A fault that is not fatal keeps the stream on a frame boundary if and only if the length of
the frame is allowed.** Where it is not, just the bytes of the length are gone. -/
theorem frameGone_iff_announces (c after : Connection) (e : Fault)
    (h : c.receive.value = (.error e, after)) (he : e.isFatal = false) :
    (FrameGone c.link.incoming after.link.incoming ↔
      ∃ pre n, pre <+: c.link.incoming ∧ c.framing.Announces pre n) ∧
    (¬ FrameGone c.link.incoming after.link.incoming →
      ∃ taken, c.link.incoming = taken ++ after.link.incoming ∧ c.framing.Refuses taken) := by
  obtain ⟨taken, hreads, hreceived, -⟩ := receive_received h
  have hsplit := hreads.incoming
  -- either the length is refused, or the frame has been taken as a whole
  have hcases : c.framing.Refuses taken ∨
      ∃ pre contents, taken = pre ++ contents ∧ c.framing.Announces pre contents.length := by
    generalize hresult : Except.error e = result at hreceived
    cases hreceived with
    | refused refuses => exact .inl (.inl ⟨_, refuses⟩)
    | unacceptable length rejects => exact .inl (refuses_of_rejects length rejects)
    | whole announces => exact .inr ⟨_, _, rfl, announces⟩
    | cutLength _ fatal _ =>
      cases hresult
      rw [he] at fatal
      cases fatal
    | cutContents _ _ fatal _ =>
      cases hresult
      rw [he] at fatal
      cases fatal
  rcases hcases with hrefuses | ⟨pre, contents, rfl, hannounces⟩
  · rw [hsplit]
    refine ⟨⟨?_, ?_⟩, ?_⟩
    · intro hgone
      exact absurd hgone hrefuses.not_frameGone
    · intro hfront
      obtain ⟨pre, n, hpre, hannounces⟩ := hfront
      exact absurd hannounces (hrefuses.not_announces hpre)
    · intro _
      exact ⟨taken, rfl, hrefuses⟩
  · have hgone : FrameGone c.link.incoming after.link.incoming :=
      ⟨pre, contents, hsplit, (announces_iff.1 hannounces).1⟩
    have hpre : pre <+: c.link.incoming := by
      rw [hsplit, List.append_assoc]
      exact List.prefix_append _ _
    refine ⟨⟨?_, ?_⟩, ?_⟩
    · intro _
      exact ⟨pre, _, hpre, hannounces⟩
    · intro _
      exact hgone
    · intro hnot
      exact absurd hgone hnot

/-- A frame whose contents end inside the packet id, with another frame behind it, over a link that
brings one byte at a time. -/
theorem frameGone_iff_announces_short_id :
    let c : Connection := {
      link := { incoming := [2, 0x80, 0x80, 1, 5], reads := [.move 1, .interrupted, .move 1] } }
    let after : Connection := { c with link := { c.link with incoming := [1, 5], reads := [] } }
    let e : Fault := .malformed (.frameEndsInside "packet id" 2 0 2)
    (c.receive.value = (.error e, after) ∧ e.isFatal = false) ∧
    (FrameGone c.link.incoming after.link.incoming ↔
      ∃ pre n, pre <+: c.link.incoming ∧ c.framing.Announces pre n) ∧
    (¬ FrameGone c.link.incoming after.link.incoming →
      ∃ taken, c.link.incoming = taken ++ after.link.incoming ∧ c.framing.Refuses taken) :=
  ⟨⟨by cbv, rfl⟩, frameGone_iff_announces _ _ _ (by cbv) rfl⟩

/-- A frame of two bytes where one is allowed: the fault is not fatal, and only the length of the
frame is gone. -/
theorem long_length_leaves_contents :
    let c : Connection := {
      link := { incoming := [2, 0, 0, 1, 5] }, framing := { config := { frameLength := 1 } } }
    let after : Connection := { c with link := { c.link with incoming := [0, 0, 1, 5] } }
    let e : Fault := .malformed (.frameTooLong 2 1)
    c.receive.value = (.error e, after) ∧ e.isFatal = false ∧
      ¬ FrameGone c.link.incoming after.link.incoming := by
  refine ⟨by cbv, rfl, ?_⟩
  have hrefuses : Refuses { config := { frameLength := 1 } } [2] :=
    .inr ⟨2, ⟨2, by cbv, by decide⟩, .inr (by decide)⟩
  exact hrefuses.not_frameGone

end Connection

end PacketStream
