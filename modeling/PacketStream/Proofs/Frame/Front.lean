import PacketStream.Frame.Streaming
import PacketStream.Proofs.Frame.Reading

/-!
# The front of a byte string

What stands at the front of the bytes that have arrived: `Front` has one constructor for each
possibility, and `front` says that there is no other. Bytes behind the front do not change it where
it is a frame or a fault (`Announces.unique`, the lemmas `next_of_…` with a rest), so both the
streaming decoder and a reader of a link come to the same result about it.
-/

namespace PacketStream.Framing

variable {f : Framing} {n m : Nat} {pre pre' contents part rest rest' taken arrived : List UInt8}

/-! ## Lengths at the front -/

/-- `pre` is a length in front of a frame; `declared` is the number in it, be it allowed or not. -/
def Declares (pre : List UInt8) (declared : Int) : Prop :=
  ∃ value, Varint.decode varintBits pre = .ok (some (value, pre.length)) ∧
    value.toUInt32.toInt32.toInt = declared

theorem Declares.unique {d d' : Int} (h : Declares pre d) (h' : Declares pre' d')
    (heq : pre ++ rest = pre' ++ rest') : pre = pre' ∧ d = d' := by
  obtain ⟨value, hvalue, rfl⟩ := h
  obtain ⟨value', hvalue', rfl⟩ := h'
  obtain ⟨rfl, rfl, -⟩ := Varint.Denotes.append_inj hvalue hvalue' heq
  exact ⟨rfl, rfl⟩

/-- A length is announced where the number declared is one that the limits allow. -/
theorem announces_iff :
    f.Announces pre n ↔ Declares pre n ∧ n ≤ f.config.frameLength := by
  simp only [Announces, Declares, outcome_checkLength]
  constructor
  · intro h
    obtain ⟨value, hvalue, hcheck⟩ := h
    by_cases hneg : value.toUInt32.toInt32 < 0
    · rw [if_pos hneg] at hcheck
      cases hcheck
    rw [if_neg hneg] at hcheck
    by_cases hlimit : f.config.frameLength < value.toUInt32.toInt32.toInt.toNat
    · rw [if_pos hlimit] at hcheck
      cases hcheck
    · rw [if_neg hlimit] at hcheck
      cases hcheck
      rw [Int32.lt_iff_toInt_lt, Int32.toInt_zero] at hneg
      exact ⟨⟨value, hvalue, by omega⟩, by omega⟩
  · intro h
    obtain ⟨⟨value, hvalue, hdeclared⟩, hlimit⟩ := h
    refine ⟨value, hvalue, ?_⟩
    rw [if_neg (by rw [Int32.lt_iff_toInt_lt, Int32.toInt_zero]; omega), hdeclared,
      if_neg (by simpa using hlimit)]
    rfl

theorem Announces.unique (h : f.Announces pre n) (h' : f.Announces pre' m)
    (heq : pre ++ rest = pre' ++ rest') : pre = pre' ∧ n = m := by
  obtain ⟨rfl, hn⟩ := (announces_iff.1 h).1.unique (announces_iff.1 h').1 heq
  exact ⟨rfl, by omega⟩

theorem Announces.pos_length (h : f.Announces pre n) : 0 < pre.length := by
  obtain ⟨value, hvalue, -⟩ := h
  exact (Varint.decode_bounds varintBits_pos hvalue).1

/-! ## Looks at the front -/

/-- What stands at the front of the bytes that have arrived. -/
inductive Front (f : Framing) : List UInt8 → Prop
  /-- The bytes end inside a length. -/
  | openLength {arrived : List UInt8} (isOpen : Varint.decode varintBits arrived = .ok none) :
      Front f arrived
  /-- The bytes begin with no length. -/
  | refused {arrived : List UInt8} {refusal : Varint.Refusal}
      (refuses : Varint.decode varintBits arrived = .error refusal) : Front f arrived
  /-- The bytes begin with a length which the limits do not allow. -/
  | unacceptable {pre rest : List UInt8} {value : Nat} {e : Fault}
      (length : Varint.decode varintBits pre = .ok (some (value, pre.length)))
      (rejects : (f.checkLength value.toUInt32.toInt32).outcome = .error e) : Front f (pre ++ rest)
  /-- The bytes end inside the contents of a frame. -/
  | openContents {pre part : List UInt8} {n : Nat} (announces : f.Announces pre n)
      (short : part.length < n) : Front f (pre ++ part)
  /-- The bytes begin with a frame. -/
  | whole {pre contents rest : List UInt8} (announces : f.Announces pre contents.length) :
      Front f (pre ++ contents ++ rest)

theorem front (f : Framing) (arrived : List UInt8) : f.Front arrived := by
  rcases hdecode : Varint.decode varintBits arrived with refusal | (_ | ⟨value, size⟩)
  · exact .refused hdecode
  · exact .openLength hdecode
  · have hsize := (Varint.decode_bounds varintBits_pos hdecode).2.1
    have hpre := Varint.decode_take_size varintBits_pos hdecode
    have hlength : (arrived.take size).length = size := by rw [List.length_take]; omega
    rw [← List.take_append_drop size arrived]
    generalize arrived.take size = pre at hpre hlength
    generalize arrived.drop size = behind
    rw [← hlength] at hpre
    rcases hcheck : (f.checkLength value.toUInt32.toInt32).outcome with e | n
    · exact .unacceptable hpre hcheck
    have hannounces : f.Announces pre n := ⟨value, hpre, hcheck⟩
    by_cases hshort : behind.length < n
    · exact .openContents hannounces hshort
    · have hcontents : (behind.take n).length = n := by rw [List.length_take]; omega
      rw [← List.take_append_drop n behind, ← List.append_assoc]
      exact .whole (by rwa [hcontents])

theorem next_of_open (h : Varint.decode varintBits arrived = .ok none) :
    (f.next arrived).value = (.ok none, arrived) := by
  rw [next, h]
  rfl

theorem next_of_refused {refusal : Varint.Refusal}
    (h : Varint.decode varintBits arrived = .error refusal) :
    (f.next arrived).value = (.error (.malformed (.varint varintBits refusal)), arrived) := by
  rw [next, h]
  rfl

theorem next_of_unacceptable {value : Nat} {e : Fault}
    (h : Varint.decode varintBits pre = .ok (some (value, pre.length)))
    (he : (f.checkLength value.toUInt32.toInt32).outcome = .error e) (rest : List UInt8) :
    (f.next (pre ++ rest)).value = (.error e, pre ++ rest) := by
  rw [Checked.outcome] at he
  rw [next, Varint.decode_append_of_some varintBits_pos h]
  simp only [Traced.value_bind, he]
  rfl

theorem next_of_announces (h : f.Announces pre n) (behind : List UInt8) :
    (f.next (pre ++ behind)).value =
      if behind.length < n then (.ok none, pre ++ behind)
      else ((f.decode (behind.take n)).outcome.map some, behind.drop n) := by
  obtain ⟨value, hvalue, hcheck⟩ := h
  rw [Checked.outcome] at hcheck
  rw [next, Varint.decode_append_of_some varintBits_pos hvalue]
  simp only [Traced.value_bind, hcheck, List.drop_left]
  split <;> rfl

theorem next_of_openContents (h : f.Announces pre n) (hshort : part.length < n) :
    (f.next (pre ++ part)).value = (.ok none, pre ++ part) := by
  rw [next_of_announces h, if_pos hshort]

theorem next_of_whole (h : f.Announces pre contents.length) (rest : List UInt8) :
    (f.next (pre ++ contents ++ rest)).value
      = ((f.decode contents).outcome.map some, rest) := by
  rw [List.append_assoc, next_of_announces h, if_neg (by rw [List.length_append]; omega),
    List.take_left, List.drop_left]

/-! ## Whole frames -/

section Whole

variable {frame : List UInt8} {message : Message}

/-- `frame` is a whole frame: a length that is announced, and so many bytes. -/
def IsFrame (f : Framing) (frame : List UInt8) : Prop :=
  ∃ pre contents, frame = pre ++ contents ∧ f.Announces pre contents.length

/-- `frame` is a whole frame, and its contents are those of the message. -/
def Carries (f : Framing) (frame : List UInt8) (message : Message) : Prop :=
  ∃ pre contents, frame = pre ++ contents ∧ f.Announces pre contents.length ∧
    (f.decode contents).outcome = .ok message

theorem next_of_carries (h : f.Carries frame message) (rest : List UInt8) :
    (f.next (frame ++ rest)).value = (.ok (some message), rest) := by
  obtain ⟨pre, contents, rfl, hannounces, hdecode⟩ := h
  rw [next_of_whole hannounces, hdecode]
  rfl

end Whole

end PacketStream.Framing
