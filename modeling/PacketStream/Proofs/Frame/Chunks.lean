import Mathlib.Data.List.Forall2
import PacketStream.Proofs.Frame.Front

/-!
# Chunks of a stream

A streaming decoder is fed chunks as they come, and takes frames off what it has gathered:
`Framing.feed` is its run over chunks, and `Framing.drain` what it does after each of them, up to
the first fault.

`drain_append` is the step between two chunks: what has been drained is drained for good, and
draining goes on with what was left. By it, `feed_eq_drain` removes the cuts. `drain_split` says
that nothing is lost on the way: the bytes are one frame for each message, and what is left.
-/

namespace PacketStream

namespace Framing

variable {f : Framing} {m : Message} {e : Fault} {frame arrived rest : List UInt8}

/-! ## One look -/

/-- A look finds too few bytes, a fault in front of all contents, or a frame. -/
theorem next_cases (f : Framing) (arrived : List UInt8) :
    (f.next arrived).value = (.ok none, arrived) ∨
      (∃ e, ∀ more, (f.next (arrived ++ more)).value = (.error e, arrived ++ more)) ∨
      ∃ pre contents rest, arrived = pre ++ contents ++ rest ∧
        f.Announces pre contents.length := by
  cases f.front arrived with
  | openLength isOpen => exact .inl (next_of_open isOpen)
  | openContents announces short => exact .inl (next_of_openContents announces short)
  | @refused _ refusal refuses =>
    refine .inr (.inl ⟨.malformed (.varint varintBits refusal), ?_⟩)
    intro more
    exact next_of_refused (Varint.decode_append_of_error varintBits_pos refuses more)
  | @unacceptable _ _ _ e length rejects =>
    refine .inr (.inl ⟨e, ?_⟩)
    intro more
    rw [List.append_assoc]
    exact next_of_unacceptable length rejects _
  | whole announces => exact .inr (.inr ⟨_, _, _, rfl, announces⟩)

/-- A message comes from the frame that has been taken off the front. -/
theorem carries_of_next (h : (f.next arrived).value = (.ok (some m), rest)) :
    ∃ frame, arrived = frame ++ rest ∧ f.Carries frame m := by
  obtain hnone | ⟨e, herror⟩ | ⟨pre, contents, behind, rfl, hannounces⟩ := f.next_cases arrived
  · rw [hnone] at h
    cases h
  · have hfront := herror []
    rw [List.append_nil, h] at hfront
    cases hfront
  · rw [next_of_whole hannounces, Prod.mk.injEq] at h
    obtain ⟨hm, rfl⟩ := h
    refine ⟨pre ++ contents, rfl, pre, contents, rfl, hannounces, ?_⟩
    rcases hdecode : (f.decode contents).outcome with e | m' <;> rw [hdecode] at hm <;> cases hm
    rfl

/-- A fault at the front stays there when more bytes come. -/
theorem next_error_append (h : (f.next arrived).value = (.error e, rest))
    (more : List UInt8) : (f.next (arrived ++ more)).value = (.error e, rest ++ more) := by
  obtain hnone | ⟨e', herror⟩ | ⟨pre, contents, behind, rfl, hannounces⟩ := f.next_cases arrived
  · rw [hnone] at h
    cases h
  · have hfront := herror []
    rw [List.append_nil, h] at hfront
    cases hfront
    exact herror more
  · rw [next_of_whole hannounces, Prod.mk.injEq] at h
    obtain ⟨he, rfl⟩ := h
    rw [List.append_assoc _ _ more, next_of_whole hannounces, he]

/-- Where there is no message yet, nothing is taken, and no frame stands at the front. -/
theorem no_frame_of_next (h : (f.next arrived).value = (.ok none, rest)) :
    rest = arrived ∧ ∀ frame, f.IsFrame frame → ¬ frame <+: arrived := by
  have hnot : ∀ frame, f.IsFrame frame → ¬ frame <+: arrived := by
    intro frame hframe hfront
    obtain ⟨pre, contents, rfl, hannounces⟩ := hframe
    obtain ⟨behind, rfl⟩ := hfront
    rw [next_of_whole hannounces] at h
    rcases hdecode : (f.decode contents).outcome with e | m <;> rw [hdecode] at h <;> cases h
  refine ⟨?_, hnot⟩
  obtain hnone | ⟨e, herror⟩ | ⟨pre, contents, behind, rfl, hannounces⟩ := f.next_cases arrived
  · rw [hnone] at h
    cases h
    rfl
  · have hfront := herror []
    rw [List.append_nil, h] at hfront
    cases hfront
  · exact absurd (List.prefix_append _ _) (hnot _ ⟨pre, contents, rfl, hannounces⟩)

theorem Carries.pos_length (h : f.Carries frame m) : 0 < frame.length := by
  obtain ⟨pre, contents, rfl, hannounces, -⟩ := h
  have := hannounces.pos_length
  rw [List.length_append]
  omega

theorem length_lt_of_next (h : (f.next arrived).value = (.ok (some m), rest)) :
    rest.length < arrived.length := by
  obtain ⟨frame, rfl, hcarries⟩ := carries_of_next h
  have := hcarries.pos_length
  rw [List.length_append]
  omega

/-! ## Looks until there is no more -/

/-- What looks at arrived bytes gave, up to the first fault. -/
structure Drained where
  messages : List Message
  /-- The fault that ended the looks, unless they ended for want of bytes. -/
  fault : Option Fault
  /-- The bytes that are left. -/
  rest : List UInt8

namespace Drained

/-- The same with messages in front. -/
def prepend (ms : List Message) (d : Drained) : Drained := { d with messages := ms ++ d.messages }

@[simp] theorem messages_prepend (ms : List Message) (d : Drained) :
    (d.prepend ms).messages = ms ++ d.messages := rfl

@[simp] theorem fault_prepend (ms : List Message) (d : Drained) :
    (d.prepend ms).fault = d.fault := rfl

@[simp] theorem rest_prepend (ms : List Message) (d : Drained) :
    (d.prepend ms).rest = d.rest := rfl

theorem prepend_prepend (ms ms' : List Message) (d : Drained) :
    (d.prepend ms').prepend ms = d.prepend (ms ++ ms') := by
  simp [prepend]

end Drained

/-- Takes messages off the bytes that have arrived, until there is no more or one is a fault. -/
def drain (f : Framing) (arrived : List UInt8) : Drained :=
  match h : (f.next arrived).value with
  | (.ok (some m), rest) =>
    have : rest.length < arrived.length := length_lt_of_next h
    (drain f rest).prepend [m]
  | (.ok none, rest) => { messages := [], fault := none, rest }
  | (.error e, rest) => { messages := [], fault := some e, rest }
termination_by arrived.length

theorem drain_of_message (h : (f.next arrived).value = (.ok (some m), rest)) :
    f.drain arrived = (f.drain rest).prepend [m] := by
  rw [drain]
  split <;> rename_i h' <;> rw [h] at h' <;> cases h'
  rfl

theorem drain_of_none (h : (f.next arrived).value = (.ok none, rest)) :
    f.drain arrived = { messages := [], fault := none, rest } := by
  rw [drain]
  split <;> rename_i h' <;> rw [h] at h' <;> cases h'
  rfl

theorem drain_of_error (h : (f.next arrived).value = (.error e, rest)) :
    f.drain arrived = { messages := [], fault := some e, rest } := by
  rw [drain]
  split <;> rename_i h' <;> rw [h] at h' <;> cases h'
  rfl

/-- Induction over the looks of `drain`: a message and what follows it, or the end. -/
theorem drain_induction {motive : List UInt8 → Prop}
    (message : ∀ arrived m rest, (f.next arrived).value = (.ok (some m), rest) → motive rest →
      motive arrived)
    (none : ∀ arrived rest, (f.next arrived).value = (.ok none, rest) → motive arrived)
    (error : ∀ arrived e rest, (f.next arrived).value = (.error e, rest) → motive arrived)
    (arrived : List UInt8) : motive arrived := by
  induction hn : arrived.length using Nat.strongRecOn generalizing arrived with
  | _ n ih =>
    rcases h : (f.next arrived).value with ⟨e | _ | m, rest⟩
    · exact error arrived e rest h
    · exact none arrived rest h
    · exact message arrived m rest h (ih _ (hn ▸ length_lt_of_next h) rest rfl)

/-- **Draining goes on where it stopped.** More bytes add to what the first bytes gave, unless these
gave a fault; then it stands, and the bytes only wait behind it. -/
theorem drain_append (f : Framing) (arrived more : List UInt8) :
    f.drain (arrived ++ more) =
      let d := f.drain arrived
      match d.fault with
      | some _ => { d with rest := d.rest ++ more }
      | none => (f.drain (d.rest ++ more)).prepend d.messages := by
  induction arrived using drain_induction (f := f) with
  | message arrived m rest h ih =>
    obtain ⟨frame, rfl, hcarries⟩ := carries_of_next h
    have hmore := next_of_carries hcarries (rest ++ more)
    rw [← List.append_assoc] at hmore
    rw [drain_of_message hmore, drain_of_message h, ih]
    rcases hfault : (f.drain rest).fault with _ | e <;>
      simp only [Drained.fault_prepend, hfault, Drained.rest_prepend, Drained.messages_prepend]
    · rw [Drained.prepend_prepend]
    · rfl
  | none arrived rest h =>
    obtain ⟨rfl, -⟩ := no_frame_of_next h
    rw [drain_of_none h]
    rfl
  | error arrived e rest h =>
    rw [drain_of_error h, drain_of_error (next_error_append h more)]

/-- What has been drained without a fault holds no message any more. -/
theorem next_rest_drain (h : (f.drain arrived).fault = none) :
    (f.next (f.drain arrived).rest).value = (.ok none, (f.drain arrived).rest) := by
  induction arrived using drain_induction (f := f) with
  | message arrived m rest hnext ih =>
    rw [drain_of_message hnext] at h ⊢
    exact ih h
  | none arrived rest hnext =>
    obtain ⟨rfl, -⟩ := no_frame_of_next hnext
    rwa [drain_of_none hnext]
  | error arrived e rest hnext =>
    rw [drain_of_error hnext] at h
    cases h

/-- **What is drained and what is left are what arrived**: one frame for each message, and then
bytes at whose front no frame stands. -/
theorem drain_split (h : (f.drain arrived).fault = none) :
    ∃ frames, arrived = frames.flatten ++ (f.drain arrived).rest ∧
      List.Forall₂ f.Carries frames (f.drain arrived).messages ∧
      ∀ frame, f.IsFrame frame → ¬ frame <+: (f.drain arrived).rest := by
  induction arrived using drain_induction (f := f) with
  | message arrived m rest hnext ih =>
    rw [drain_of_message hnext] at h ⊢
    obtain ⟨frames, hsplit, hcarries, hrest⟩ := ih h
    obtain ⟨frame, rfl, hframe⟩ := carries_of_next hnext
    refine ⟨frame :: frames, ?_, .cons hframe hcarries, hrest⟩
    rw [List.flatten_cons, List.append_assoc]
    exact congrArg (frame ++ ·) hsplit
  | none arrived rest hnext =>
    obtain ⟨rfl, hrest⟩ := no_frame_of_next hnext
    rw [drain_of_none hnext]
    exact ⟨[], rfl, .nil, hrest⟩
  | error arrived e rest hnext =>
    rw [drain_of_error hnext] at h
    cases h

/-! ## Chunks -/

/-- Adds chunks one by one to the bytes that are there, and drains them after each, up to the first
fault. -/
def feed (f : Framing) (waiting : List UInt8) : (chunks : List (List UInt8)) → Drained
  | [] => { messages := [], fault := none, rest := waiting }
  | chunk :: chunks =>
    let d := f.drain (waiting ++ chunk)
    match d.fault with
    | some _ => d
    | none => (f.feed d.rest chunks).prepend d.messages

/-- **Where the cuts are does not matter.** Chunks give the messages and the fault of all their
bytes at once, and leave the same bytes where there is no fault. -/
theorem feed_eq_drain {waiting : List UInt8} (chunks : List (List UInt8))
    (hwaiting : (f.next waiting).value = (.ok none, waiting)) :
    let fed := f.feed waiting chunks
    let drained := f.drain (waiting ++ chunks.flatten)
    fed.messages = drained.messages ∧ fed.fault = drained.fault ∧
      (fed.fault = none → fed.rest = drained.rest) := by
  induction chunks generalizing waiting with
  | nil =>
    rw [List.flatten_nil, List.append_nil, drain_of_none hwaiting]
    exact ⟨rfl, rfl, fun _ => rfl⟩
  | cons chunk chunks ih =>
    rw [List.flatten_cons, ← List.append_assoc, drain_append]
    simp only [feed]
    rcases hfault : (f.drain (waiting ++ chunk)).fault with _ | e
    · obtain ⟨hmessages, hsame, hrest⟩ := ih (next_rest_drain hfault)
      exact ⟨congrArg (_ ++ ·) hmessages, hsame, hrest⟩
    · simp [hfault]

end Framing

end PacketStream
