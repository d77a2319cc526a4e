import Mathlib
import PacketStream.Proofs.Buffer.RoundTrip
import PacketStream.Proofs.Compression
import PacketStream.Proofs.Frame.Contents
import PacketStream.Proofs.Frame.Grammar

/-!
# Frames that are written can be read

The writer of a frame keeps the limit for frames. It does not look at the limit for bodies, which
is there against what a peer sends: a body that compresses well can be sent although its length is
above it. `Framing.Admits` says which bodies a reader under the same limits takes back, and
`decode_of_encode` that those are all: such a packet comes back with its id and payload, and every
other is refused.

`carries_encode` puts the same in terms of the bytes of the whole frame.
-/

namespace PacketStream.Framing

variable {f : Framing} {n : Nat} {body rest frame : List UInt8} {id : Int32} {payload : Payload}

/-- Whether a reader with the same limits takes the body back. Only a compressed body can be too
long for it: above the limit for bodies, or for the number in front of it. -/
def Admits (f : Framing) (body : List UInt8) : Prop :=
  (f.contents body).isCompressed = true →
    body.length ≤ min f.config.uncompressedLength Limits.prefixedLength

instance (f : Framing) (body : List UInt8) : Decidable (f.Admits body) :=
  inferInstanceAs (Decidable (_ → _))

/-! ## Parts of a frame -/

theorem frameLength_le_of_validate (h : f.config.validate = .ok ()) :
    f.config.frameLength ≤ Limits.prefixedLength := by
  rw [Config.validate] at h
  split at h
  · cases h
  rename_i hrules
  rw [Config.broken?] at hrules
  split at hrules
  · cases hrules
  split at hrules
  · cases hrules
  split at hrules
  · cases hrules
  · omega

/-- The form that is written declares the number, as far as 32 bits hold it. -/
theorem declares_encode (h : n < 2 ^ varintBits) :
    Declares (Varint.encode n) n.toUInt32.toInt32.toInt := by
  have hdecode : Varint.decode varintBits (Varint.encode n ++ []) = _ :=
    Varint.decode_encode_append [] varintBits_pos h
  rw [List.append_nil, ← Varint.length_encode] at hdecode
  exact ⟨n, hdecode, rfl⟩

/-- The length in front of a frame that is written is one that a reader with the same limits
accepts. -/
theorem announces_encode (hconfig : f.config.validate = .ok ()) (h : n ≤ f.config.frameLength) :
    f.Announces (Varint.encode n) n := by
  have hprefixed : n ≤ Limits.prefixedLength := Nat.le_trans h (frameLength_le_of_validate hconfig)
  have hdeclares := declares_encode (Nat.lt_of_le_of_lt hprefixed (by decide))
  rw [Limits.toInt_of_le_prefixedLength hprefixed] at hdeclares
  exact announces_iff.2 ⟨hdeclares, h⟩

theorem get_getField_encode (field : String) (h : n < 2 ^ varintBits) (consumed rest : List UInt8)
    (textLimit : Nat) :
    Buffer.get { consumed, unread := Varint.encode n ++ rest, textLimit } (getField field)
      = (.ok n.toUInt32.toInt32,
          { consumed := consumed ++ Varint.encode n, unread := rest, textLimit }) :=
  get_getField_of_declares field (declares_encode h) consumed rest textLimit

/-! ## The writer -/

theorem body_eq (f : Framing) (id : Int32) (payload : Payload) :
    f.body id payload =
      if id < 0 then
        .error (.validation (.outOfRange "packet_id" id.toInt 0 Int32.maxValue.toInt))
      else
        match payload.validity with
        | .error cause => .error (.validation cause)
        | .ok () =>
          (payload.put.run f.config.textLength).map (Varint.encode id.toUInt32.toNat ++ ·) := by
  have hrun : (Put.varint id ++ payload.put).run f.config.textLength =
      (payload.put.run f.config.textLength).map (Varint.encode id.toUInt32.toNat ++ ·) := by
    simp only [Put.run, Put.append_def, Put.andThen, Put.varint, Put.varnat, Put.raw]
    rcases payload.put f.config.textLength with ⟨bytes, _ | e⟩ <;> rfl
  rw [Framing.body, hrun, checkId]
  by_cases hid : id < 0
  · rw [if_pos hid, if_pos hid]
    rfl
  · rw [if_neg hid, if_neg hid]
    rcases payload.validity with cause | ⟨⟩ <;> rfl

/-- A packet is written where its id is not negative, its payload is valid, and its fields can be
written. -/
theorem body_eq_ok : f.body id payload = .ok body ↔
    0 ≤ id ∧ payload.validity = .ok () ∧
      ∃ bytes, payload.put.run f.config.textLength = .ok bytes ∧
        body = Varint.encode id.toUInt32.toNat ++ bytes := by
  rw [body_eq, ← Int32.not_lt]
  by_cases hid : id < 0
  · simp [hid]
  · rw [if_neg hid]
    rcases payload.validity with cause | ⟨⟩
    · simp
    · rcases payload.put.run f.config.textLength with e | bytes
      · simp [Except.map]
      · simp [Except.map, hid, eq_comm]

theorem outcome_wrap (f : Framing) (body : List UInt8) :
    (f.wrap body).outcome =
      let c := f.contents body
      if c.length ≤ f.config.frameLength then .ok (Varint.encode c.length ++ c.bytes)
      else .error (.sizeLimit f.config.frameLength c.length) := by
  rw [wrap]
  by_cases hlong : f.config.frameLength < (f.contents body).length
  · rw [if_pos hlong, Checked.outcome_report_bind, Checked.outcome_throw]
    exact (if_neg (Nat.not_le.2 hlong)).symm
  · rw [if_neg hlong, Checked.outcome_report_bind, Checked.outcome_pure]
    exact (if_pos (Nat.not_lt.1 hlong)).symm

/-- A body is wrapped where its contents are not too long, and nothing else is looked at. -/
theorem outcome_wrap_eq_ok : (f.wrap body).outcome = .ok frame ↔
    (f.contents body).length ≤ f.config.frameLength ∧
      frame = Varint.encode (f.contents body).length ++ (f.contents body).bytes := by
  rw [outcome_wrap]
  by_cases hfits : (f.contents body).length ≤ f.config.frameLength
  · simp [hfits, eq_comm]
  · simp [hfits]

/-! ## The reader -/

theorem outcome_inflateBody_compress (f : Framing) (level : Nat) (body : List UInt8) :
    (f.inflateBody body.length (Compression.compress level body)).outcome =
      if f.config.uncompressedLength < body.length then
        .error (.sizeLimit f.config.uncompressedLength body.length)
      else .ok body := by
  rw [inflateBody]
  split
  · rw [Checked.outcome_report_bind, Checked.outcome_throw]
  · rw [Checked.outcome_bind_of_ok (Compression.decompress_compress level body),
      if_neg (by simp), Checked.outcome_report_bind, Checked.outcome_pure]

theorem outcome_bodyOf_of_threshold {threshold : UInt32} (hthreshold : f.threshold = some threshold)
    (h : n < 2 ^ varintBits) (data : List UInt8) :
    (f.bodyOf (Varint.encode n ++ data)).outcome =
      if n.toUInt32.toInt32 < 0 then
        .error (.malformed (.negativeDataLength n.toUInt32.toInt32.toInt))
      else if n.toUInt32.toInt32 = 0 then .ok data
      else (f.inflateBody n.toUInt32.toInt32.toInt.toNat data).outcome := by
  have hon : f.threshold.isSome = true := by
    rw [hthreshold]
    rfl
  rw [bodyOf_of_declares hon (declares_encode h)]
  split
  · rfl
  split <;> rfl

/-- A compressed body is read back, if the limit for bodies allows its length. -/
theorem outcome_bodyOf_compressed {threshold : UInt32} (hthreshold : f.threshold = some threshold)
    (hpos : 0 < body.length) (h : body.length ≤ Limits.prefixedLength) (level : Nat) :
    (f.bodyOf (Varint.encode body.length ++ Compression.compress level body)).outcome =
      if f.config.uncompressedLength < body.length then
        .error (.sizeLimit f.config.uncompressedLength body.length)
      else .ok body := by
  have hint : body.length.toUInt32.toInt32.toInt = body.length :=
    Limits.toInt_of_le_prefixedLength h
  have hnonneg : ¬ body.length.toUInt32.toInt32 < 0 := by
    rw [Int32.lt_iff_toInt_lt, hint, Int32.toInt_zero]
    omega
  have hne : body.length.toUInt32.toInt32 ≠ 0 := by
    intro hzero
    rw [hzero, Int32.toInt_zero] at hint
    omega
  have hwidth : body.length < 2 ^ varintBits := Nat.lt_of_le_of_lt h (by decide)
  rw [outcome_bodyOf_of_threshold hthreshold hwidth, if_neg hnonneg, if_neg hne, hint,
    Int.toNat_natCast, outcome_inflateBody_compress]

/-- A length that no signed number of 32 bits holds is refused, whatever stands behind it. -/
theorem outcome_bodyOf_of_prefixedLength_lt {threshold : UInt32}
    (hthreshold : f.threshold = some threshold) (h : Limits.prefixedLength < n)
    (data : List UInt8) : ∃ e, (f.bodyOf (Varint.encode n ++ data)).outcome = .error e := by
  by_cases hwidth : n < 2 ^ varintBits
  · have hneg : n.toUInt32.toInt32 < 0 := by
      rw [Limits.prefixedLength] at h
      rw [Int32.lt_iff_toInt_lt, Int32.toInt_zero, Nat.toUInt32_eq, UInt32.toInt32_ofNat',
        Int32.toInt_ofNat']
      rw [varintBits] at hwidth
      simp only [Int.bmod, Int32.size]
      omega
    exact ⟨_, by rw [outcome_bodyOf_of_threshold hthreshold hwidth, if_pos hneg]⟩
  · rw [bodyOf, hthreshold]
    simp only [Buffer.ofBytes, get_getField]
    rcases hdecode : Varint.decode 32 (Varint.encode n ++ data) with refusal | (_ | ⟨value, size⟩)
    · exact ⟨_, rfl⟩
    · exact ⟨_, rfl⟩
    · have hvalue := (Varint.decode_bounds (by decide) hdecode).2.2
      rw [(Varint.eq_of_decode_encode (by decide) hdecode).1] at hvalue
      exact absurd hvalue hwidth

theorem outcome_bodyOf_contents (hbody : body ≠ []) (h : f.Admits body) :
    (f.bodyOf (f.contents body).bytes).outcome = .ok body := by
  rcases hthreshold : f.threshold with _ | threshold
  · rw [contents, bodyOf, hthreshold]
    rfl
  rw [Admits, contents, hthreshold] at h
  rw [contents, hthreshold]
  dsimp only at h ⊢
  by_cases hbelow : body.length < threshold.toNat
  · rw [if_pos hbelow, Contents.bytes, outcome_bodyOf_of_threshold hthreshold (by decide)]
    rfl
  · rw [if_neg hbelow] at h ⊢
    have hpos := List.length_pos_iff.2 hbody
    have hle := h (by simpa [Contents.isCompressed] using hpos)
    rw [Contents.bytes, outcome_bodyOf_compressed hthreshold hpos (by omega), if_neg (by omega)]

theorem outcome_bodyOf_contents_error (h : ¬ f.Admits body) :
    ∃ e, (f.bodyOf (f.contents body).bytes).outcome = .error e ∧
      (body.length ≤ Limits.prefixedLength →
        e = .sizeLimit f.config.uncompressedLength body.length) := by
  rw [Admits, Classical.not_imp, contents] at h
  rw [contents]
  rcases hthreshold : f.threshold with _ | threshold
  · rw [hthreshold] at h
    cases h.1
  rw [hthreshold] at h
  dsimp only at h ⊢
  by_cases hbelow : body.length < threshold.toNat
  · rw [if_pos hbelow] at h
    cases h.1
  · rw [if_neg hbelow] at h ⊢
    obtain ⟨hcompressed, hlong⟩ := h
    have hpos : 0 < body.length := by simpa [Contents.isCompressed] using hcompressed
    rw [Contents.bytes]
    by_cases hprefixed : body.length ≤ Limits.prefixedLength
    · rw [outcome_bodyOf_compressed hthreshold hpos hprefixed, if_pos (by omega)]
      exact ⟨_, rfl, fun _ => rfl⟩
    · obtain ⟨e, he⟩ := outcome_bodyOf_of_prefixedLength_lt hthreshold (n := body.length)
        (by omega) (Compression.compress f.config.level body)
      exact ⟨e, he, fun h => absurd h hprefixed⟩

/-! ## There and back -/

/-- The message that a reader finds in the frame of a packet. -/
def messageOf (f : Framing) (id : Int32) (bytes : List UInt8) : Message :=
  { id
    payload :=
      { consumed := Varint.encode id.toUInt32.toNat, unread := bytes
        textLimit := f.config.textLength } }

theorem outcome_decode_of_bodyOf {contents bytes : List UInt8} (hid : 0 ≤ id)
    (h : (f.bodyOf contents).outcome = .ok (Varint.encode id.toUInt32.toNat ++ bytes)) :
    (f.decode contents).outcome = .ok (f.messageOf id bytes) := by
  rw [decode, Checked.outcome_bind_of_ok h]
  simp only [Buffer.ofBytes, Buffer.withTextLimit, get_getField_encode _ id.toUInt32.toNat_lt]
  simp [Int32.not_lt.2 hid, messageOf]

theorem ne_nil_of_encode_append (n : Nat) (bytes : List UInt8) : Varint.encode n ++ bytes ≠ [] := by
  intro h
  have := congrArg List.length h
  rw [List.length_append, Varint.length_encode, Varint.length] at this
  simp at this

/-- A frame that is written holds the contents for a body of the packet's id and fields. -/
theorem outcome_encode_ok (h : (f.encode id payload).outcome = .ok frame) :
    ∃ bytes, 0 ≤ id ∧ payload.put.run f.config.textLength = .ok bytes ∧
      let c := f.contents (Varint.encode id.toUInt32.toNat ++ bytes)
      c.length ≤ f.config.frameLength ∧ frame = Varint.encode c.length ++ c.bytes := by
  obtain ⟨body, hbody, hwrap⟩ := Checked.outcome_bind_ok h
  obtain ⟨hid, -, bytes, hput, rfl⟩ := body_eq_ok.1 hbody
  exact ⟨bytes, hid, hput, outcome_wrap_eq_ok.1 hwrap⟩

/-- **A frame that is written carries its packet**, if its body is one that readers admit. -/
theorem carries_of_encode {bytes : List UInt8} (hconfig : f.config.validate = .ok ())
    (h : (f.encode id payload).outcome = .ok frame)
    (hput : payload.put.run f.config.textLength = .ok bytes)
    (hadmits : f.Admits (Varint.encode id.toUInt32.toNat ++ bytes)) :
    f.Carries frame (f.messageOf id bytes) := by
  obtain ⟨bytes', hid, hput', hlength, rfl⟩ := outcome_encode_ok h
  rw [hput] at hput'
  cases hput'
  refine ⟨_, _, rfl, ?_, ?_⟩
  · rw [Contents.length_bytes]
    exact announces_encode hconfig hlength
  · exact outcome_decode_of_bodyOf hid
      (outcome_bodyOf_contents (ne_nil_of_encode_append _ _) hadmits)

/-- **What is written is read back where the reader admits its body, and is refused elsewhere.**
The length in front of the frame is accepted in either case, and what stands behind it is given to
the reader. -/
theorem decode_of_encode (hconfig : f.config.validate = .ok ())
    (h : (f.encode id payload).outcome = .ok frame) :
    ∃ contents bytes, frame = Varint.encode contents.length ++ contents ∧
      f.Announces (Varint.encode contents.length) contents.length ∧
      payload.put.run f.config.textLength = .ok bytes ∧
      let body := Varint.encode id.toUInt32.toNat ++ bytes
      (f.Admits body → (f.decode contents).outcome = .ok (f.messageOf id bytes)) ∧
      (¬ f.Admits body → ∃ e, (f.decode contents).outcome = .error e ∧
        (body.length ≤ Limits.prefixedLength →
          e = .sizeLimit f.config.uncompressedLength body.length)) := by
  obtain ⟨bytes, hid, hput, hlength, rfl⟩ := outcome_encode_ok h
  refine ⟨_, bytes, by rw [Contents.length_bytes], ?_, hput, ?_, ?_⟩
  · rw [Contents.length_bytes]
    exact announces_encode hconfig hlength
  · intro hadmits
    exact outcome_decode_of_bodyOf hid
      (outcome_bodyOf_contents (ne_nil_of_encode_append _ _) hadmits)
  · intro hrefused
    obtain ⟨e, he, hsize⟩ := outcome_bodyOf_contents_error hrefused
    exact ⟨e, by rw [decode, Checked.outcome_bind, he], hsize⟩

/-- A body of nine bytes, which is compressed, and stored so at level 0. -/
theorem decode_of_encode_stored :
    let f : Framing := { config := { uncompressedLength := 9, level := 0 }, threshold := some 9 }
    ∃ contents,
      (f.encode 5 (.ofBytes (List.replicate 8 7))).outcome
        = .ok (Varint.encode contents.length ++ contents) ∧
      (f.decode contents).outcome = .ok (f.messageOf 5 (List.replicate 8 7)) := by
  intro f
  have hencode : (f.encode 5 (.ofBytes (List.replicate 8 7))).outcome = .ok
      [21, 9, 0x78, 0x01, 1, 9, 0, 246, 255, 5, 7, 7, 7, 7, 7, 7, 7, 7, 1, 50, 0, 62] := by cbv
  obtain ⟨contents, bytes, hframe, -, hput, hadmitted, -⟩ := decode_of_encode rfl hencode
  cases hput
  exact ⟨contents, by rw [hencode, hframe], hadmitted fun _ => by cbv⟩

/-- The limit for bodies is for readers alone: a writer with the same limits sends a longer one. -/
theorem decode_of_encode_longBody :
    let f : Framing := { config := { uncompressedLength := 8, level := 0 }, threshold := some 0 }
    f.config.validate = .ok () ∧
      ∃ contents,
        (f.encode 0 (.ofBytes (List.replicate 20 0))).outcome
          = .ok (Varint.encode contents.length ++ contents) ∧
        (f.decode contents).outcome = .error (.sizeLimit 8 21) := by
  refine ⟨rfl, [21, 0x78, 0x01, 1, 21, 0, 234, 255] ++ List.replicate 21 0 ++ [0, 21, 0, 1], ?_, ?_⟩
  · cbv
  · cbv

end PacketStream.Framing
