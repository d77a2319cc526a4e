import Mathlib
import PacketStream.Proofs.Frame.Contents
import PacketStream.Proofs.Frame.Front

/-!
# The grammar of a frame's contents

Which contents are accepted, said without the reader. `Encloses` is the rule for the body: the
contents themselves where compression is off, otherwise what stands behind a data length of zero, or
what the stream behind another data length inflates to. `Holds` is the rule for the packet in a
body: an id that is not negative, and all that follows it.

A number may be written in any form that is accepted as a varint, not only in the shortest. The two
rules are tied to the reader by `outcome_bodyOf_eq_ok` and `outcome_decode_eq_ok`, which rest on
what the reader of a number does (`get_getField_eq_ok`); `decode_grammar` puts them together with
what becomes of all other contents.
-/

namespace PacketStream.Framing

variable {f : Framing} {contents body pre rest data : List UInt8} {m : Message} {n : Nat}

/-! ## The rules -/

/-- `Encloses contents body`: a frame with the contents encloses the body. -/
inductive Encloses (f : Framing) : List UInt8 → List UInt8 → Prop
  /-- Compression is off. -/
  | bare {body : List UInt8} (off : f.threshold.isSome = false) : Encloses f body body
  /-- A data length of zero, and the body as it is. -/
  | plain {pre body : List UInt8} (on : f.threshold.isSome = true) (declares : Declares pre 0) :
      Encloses f (pre ++ body) body
  /-- A data length that the limits allow, and a stream that inflates to so many bytes. -/
  | compressed {pre data body : List UInt8} {n : Nat} (on : f.threshold.isSome = true)
      (declares : Declares pre n) (pos : 0 < n) (fits : n ≤ f.config.uncompressedLength)
      (inflates : (Compression.decompress n data).outcome = .ok body) (exact : body.length = n) :
      Encloses f (pre ++ data) body

/-- `Holds body m`: the body holds the message. The cursor stands behind the id. -/
inductive Holds (f : Framing) : List UInt8 → Message → Prop
  | intro {pre rest : List UInt8} {id : Int32} (declares : Declares pre id.toInt)
      (nonneg : 0 ≤ id) :
      Holds f (pre ++ rest)
        { id, payload := { consumed := pre, unread := rest, textLimit := f.config.textLength } }

/-! ## Numbers -/

/-- A number is read where one is declared, and the cursor is left behind it. -/
theorem get_getField_eq_ok {field : String} {b after : Buffer} {number : Int32} :
    b.get (getField field) = (.ok number, after) ↔
      ∃ pre rest, b.unread = pre ++ rest ∧ Declares pre number.toInt ∧
        after = { b with consumed := b.consumed ++ pre, unread := rest } := by
  rw [get_getField]
  constructor
  · intro h
    rcases hdecode : Varint.decode 32 b.unread with refusal | (_ | ⟨value, size⟩) <;>
      rw [hdecode] at h
    · cases h
    · cases h
    · cases h
      -- the bytes taken are just those that the number was decoded from
      have hsize := (Varint.decode_bounds (by decide) hdecode).2.1
      have htaken : (b.unread.take size).length = size := by
        rw [List.length_take]
        omega
      refine ⟨b.unread.take size, b.unread.drop size, (List.take_append_drop _ _).symm,
        ⟨value, ?_, ?_⟩, rfl⟩
      · rw [htaken]
        exact Varint.decode_take_size (by decide) hdecode
      · simp
  · intro h
    obtain ⟨pre, rest, hunread, ⟨value, hvalue, hnumber⟩, rfl⟩ := h
    obtain rfl : value.toUInt32.toInt32 = number := Int32.toInt_inj.1 hnumber
    have hwhole : Varint.decode 32 (pre ++ rest) = .ok (some (value, pre.length)) :=
      Varint.decode_append_of_some varintBits_pos hvalue rest
    rw [hunread, hwhole]
    simp [Buffer.advance, hunread]

theorem get_getField_of_declares (field : String) {number : Int32}
    (h : Declares pre number.toInt) (consumed rest : List UInt8) (textLimit : Nat) :
    Buffer.get { consumed, unread := pre ++ rest, textLimit } (getField field)
      = (.ok number, { consumed := consumed ++ pre, unread := rest, textLimit }) :=
  get_getField_eq_ok.2 ⟨pre, rest, rfl, h, rfl⟩

/-- What is declared is a number of 32 bits. -/
theorem Declares.exists_number {declared : Int} (h : Declares pre declared) :
    ∃ number : Int32, number.toInt = declared := by
  obtain ⟨value, -, hdeclared⟩ := h
  exact ⟨_, hdeclared⟩

/-! ## Bodies -/

theorem outcome_inflateBody_eq_ok : (f.inflateBody n data).outcome = .ok body ↔
    n ≤ f.config.uncompressedLength ∧ (Compression.decompress n data).outcome = .ok body ∧
      body.length = n := by
  rw [inflateBody]
  by_cases hlong : f.config.uncompressedLength < n
  · rw [if_pos hlong, Checked.outcome_report_bind, Checked.outcome_throw]
    constructor
    · intro h
      cases h
    · intro h
      exact absurd h.1 (Nat.not_le.2 hlong)
  rw [if_neg hlong, Checked.outcome_bind]
  rcases (Compression.decompress n data).outcome with e | inflated
  · constructor
    · intro h
      cases h
    · intro h
      cases h.2.1
  dsimp only
  by_cases hlength : inflated.length = n
  · rw [if_neg (not_not_intro hlength), Checked.outcome_report_bind, Checked.outcome_pure]
    constructor
    · intro h
      cases h
      exact ⟨Nat.not_lt.1 hlong, rfl, hlength⟩
    · intro h
      exact h.2.1
  · rw [if_pos hlength, Checked.outcome_throw]
    constructor
    · intro h
      cases h
    · intro h
      obtain ⟨-, hsame, hexact⟩ := h
      cases hsame
      exact absurd hexact hlength

/-- The body of contents that begin with a data length. -/
theorem bodyOf_of_declares (hon : f.threshold.isSome = true) {number : Int32}
    (h : Declares pre number.toInt) (data : List UInt8) :
    f.bodyOf (pre ++ data) =
      if number < 0 then throw (.malformed (.negativeDataLength number.toInt))
      else if number = 0 then return data
      else f.inflateBody number.toInt.toNat data := by
  obtain ⟨threshold, hthreshold⟩ := Option.isSome_iff_exists.1 hon
  rw [bodyOf, hthreshold]
  simp only [Buffer.ofBytes, get_getField_of_declares _ h]

/-- **The rule for bodies is what the reader accepts.** -/
theorem outcome_bodyOf_eq_ok :
    (f.bodyOf contents).outcome = .ok body ↔ f.Encloses contents body := by
  constructor
  · intro h
    rcases hthreshold : f.threshold with _ | threshold
    · rw [bodyOf, hthreshold] at h
      cases h
      exact .bare (by rw [hthreshold]; rfl)
    have hon : f.threshold.isSome = true := by rw [hthreshold]; rfl
    rcases hfield : (Buffer.ofBytes contents).get (getField "data length") with ⟨e | number, after⟩
    · rw [bodyOf, hthreshold] at h
      simp only [hfield] at h
      cases h
    obtain ⟨pre, data, hcontents, hdeclares, -⟩ := get_getField_eq_ok.1 hfield
    obtain rfl : contents = pre ++ data := hcontents
    rw [bodyOf_of_declares hon hdeclares] at h
    split at h
    · cases h
    split at h
    · rename_i hzero
      cases h
      rw [hzero] at hdeclares
      exact .plain hon hdeclares
    · rename_i hneg hzero
      obtain ⟨hfits, hinflates, hexact⟩ := outcome_inflateBody_eq_ok.1 h
      rw [Int32.lt_iff_toInt_lt, Int32.toInt_zero] at hneg
      rw [← Int32.toInt_inj, Int32.toInt_zero] at hzero
      -- a number that is neither negative nor zero is the size that the inflater is asked for
      have hnumber : (number.toInt.toNat : Int) = number.toInt := by omega
      exact .compressed hon (hnumber ▸ hdeclares) (by omega) hfits hinflates hexact
  · intro h
    cases h with
    | bare off =>
      rw [Option.isSome_eq_false_iff, Option.isNone_iff_eq_none] at off
      rw [bodyOf, off]
      rfl
    | plain on declares =>
      rw [← Int32.toInt_zero] at declares
      rw [bodyOf_of_declares on declares]
      rfl
    | @compressed pre data body n on declares pos fits inflates exact =>
      obtain ⟨number, hnumber⟩ := declares.exists_number
      have hneg : ¬ number < 0 := by
        rw [Int32.lt_iff_toInt_lt, Int32.toInt_zero]
        omega
      have hzero : ¬ number = 0 := by
        rw [← Int32.toInt_inj, Int32.toInt_zero]
        omega
      rw [bodyOf_of_declares on (hnumber ▸ declares), if_neg hneg, if_neg hzero, hnumber,
        Int.toNat_natCast]
      exact outcome_inflateBody_eq_ok.2 ⟨fits, inflates, exact⟩

/-- Contents enclose one body at most. -/
theorem Encloses.unique {body' : List UInt8} (h : f.Encloses contents body)
    (h' : f.Encloses contents body') : body = body' := by
  have hbody := outcome_bodyOf_eq_ok.2 h
  rw [outcome_bodyOf_eq_ok.2 h'] at hbody
  exact (Except.ok.inj hbody).symm

theorem Encloses.length_le (h : f.Encloses contents body) :
    body.length ≤ max contents.length f.config.uncompressedLength := by
  cases h with
  | bare => exact Nat.le_max_left _ _
  | plain =>
    rw [List.length_append]
    omega
  | compressed _ _ _ fits _ exact => exact Nat.le_trans (exact ▸ fits) (Nat.le_max_right _ _)

/-! ## Packets -/

/-- **The two rules are what the reader of contents accepts.** -/
theorem outcome_decode_eq_ok : (f.decode contents).outcome = .ok m ↔
    ∃ body, f.Encloses contents body ∧ f.Holds body m := by
  constructor
  · intro h
    obtain ⟨body, hbody, hpacket⟩ := Checked.outcome_bind_ok h
    refine ⟨body, outcome_bodyOf_eq_ok.1 hbody, ?_⟩
    split at hpacket
    · cases hpacket
    · rename_i id payload hfield
      obtain ⟨pre, rest, hunread, hdeclares, rfl⟩ := get_getField_eq_ok.1 hfield
      obtain rfl : body = pre ++ rest := hunread
      split at hpacket
      · cases hpacket
      · rename_i hnonneg
        rw [Checked.outcome_report_bind] at hpacket
        cases hpacket
        exact .intro hdeclares (Int32.not_lt.1 hnonneg)
  · intro h
    obtain ⟨body, hencloses, hholds⟩ := h
    cases hholds with
    | intro declares nonneg =>
      rw [decode, Checked.outcome_bind_of_ok (outcome_bodyOf_eq_ok.2 hencloses)]
      simp only [Buffer.ofBytes, Buffer.withTextLimit, get_getField_of_declares _ declares]
      rw [if_neg (Int32.not_lt.2 nonneg)]
      rfl

theorem Holds.bytes_eq (h : f.Holds body m) : m.payload.bytes = body := by
  cases h
  rfl

/-- A data length above the limit is refused for what it is, and the data behind it do not count. -/
theorem decode_of_tooLong (hon : f.threshold.isSome = true) (h : Declares pre n)
    (hlong : f.config.uncompressedLength < n) (data : List UInt8) :
    (f.decode (pre ++ data)).run = {
      value := .error (.sizeLimit f.config.uncompressedLength n)
      events := [.declaredTooLong n f.config.uncompressedLength] } := by
  obtain ⟨number, hnumber⟩ := h.exists_number
  have hneg : ¬ number < 0 := by
    rw [Int32.lt_iff_toInt_lt, Int32.toInt_zero]
    omega
  have hzero : ¬ number = 0 := by
    rw [← Int32.toInt_inj, Int32.toInt_zero]
    omega
  rw [decode, bodyOf_of_declares hon (hnumber ▸ h), if_neg hneg, if_neg hzero, hnumber,
    Int.toNat_natCast, inflateBody, if_pos hlong]
  rfl

/-- Of the threshold only counts whether there is one. -/
theorem decode_congr {g : Framing} (hconfig : g.config = f.config)
    (hon : g.threshold.isSome = f.threshold.isSome) (contents : List UInt8) :
    g.decode contents = f.decode contents := by
  obtain ⟨config, threshold⟩ := g
  obtain rfl : config = f.config := hconfig
  -- the threshold is looked at in one place, and there only for being set
  have hbody : bodyOf { config := f.config, threshold } contents = f.bodyOf contents := by
    rw [bodyOf, bodyOf]
    rcases hthreshold : f.threshold with _ | t <;> rw [hthreshold] at hon <;>
      rcases threshold with _ | t'
    · rfl
    · cases hon
    · cases hon
    · rfl
  rw [decode, decode, hbody]

/-! ## All contents -/

/-- **What is accepted as the contents of a frame.** Contents enclose one body at most, and are
accepted just where they enclose one that holds a packet; the buffer then holds the body, with the
cursor behind the id and the limit for strings of the configuration. All others are malformed, above
a limit for their size, or a broken compressed stream, and none of them asks for more bytes. Above
the limit a data length is refused at once, whatever stands behind it. No body is longer than the
contents or the limit for bodies, whichever is more; and of the threshold only counts whether there
is one. -/
theorem decode_grammar (f : Framing) (contents : List UInt8) :
    (∀ body body', f.Encloses contents body → f.Encloses contents body' → body = body') ∧
    (∀ m, (f.decode contents).outcome = .ok m ↔ ∃ body, f.Encloses contents body ∧ f.Holds body m) ∧
    (∀ e, (f.decode contents).outcome = .error e → e.isOfContents = true) ∧
    (∀ pre data n, contents = pre ++ data → f.threshold.isSome = true → Declares pre (n : Nat) →
      f.config.uncompressedLength < n →
      (f.decode contents).run = {
        value := .error (.sizeLimit f.config.uncompressedLength n)
        events := [.declaredTooLong n f.config.uncompressedLength] }) ∧
    (∀ m, (f.decode contents).outcome = .ok m →
      m.payload.bytes.length ≤ max contents.length f.config.uncompressedLength) ∧
    ∀ g : Framing, g.config = f.config → g.threshold.isSome = f.threshold.isSome →
      g.decode contents = f.decode contents := by
  refine ⟨fun _ _ => Encloses.unique, fun m => outcome_decode_eq_ok,
    fun e => isOfContents_of_decode, ?_, ?_, ?_⟩
  · intro pre data n hcontents hon hdeclares hlong
    rw [hcontents]
    exact decode_of_tooLong hon hdeclares hlong data
  · intro m hm
    obtain ⟨body, hencloses, hholds⟩ := outcome_decode_eq_ok.1 hm
    rw [hholds.bytes_eq]
    exact hencloses.length_le
  · intro g hconfig hon
    exact decode_congr hconfig hon contents

/-- A compressed body of nine bytes, whose length and whose id are not written in the shortest form;
and a data length above the limit, in front of bytes that are no stream. -/
theorem decode_grammar_padded :
    let f : Framing := { config := { uncompressedLength := 9 }, threshold := some 64 }
    let g : Framing := { f with threshold := some 0 }
    let contents : List UInt8 :=
      [0x89, 0x80, 0, 0x78, 0x01, 1, 9, 0, 246, 255, 0x85, 0, 7, 7, 7, 7, 7, 7, 7, 5, 122, 0, 183]
    let m : Message := {
      id := 5, payload := { consumed := [0x85, 0], unread := List.replicate 7 7 } }
    (∃ body, f.Encloses contents body ∧ f.Holds body m) ∧ m.payload.bytes.length ≤ 23 ∧
      (g.decode contents).outcome = .ok m ∧
      (f.decode [10, 1, 2]).run
        = { value := .error (.sizeLimit 9 10), events := [.declaredTooLong 10 9] } := by
  intro f g contents m
  have hdecode : (f.decode contents).outcome = .ok m := by cbv
  obtain ⟨-, haccepts, -, -, hlength, hthreshold⟩ := decode_grammar f contents
  obtain ⟨-, -, -, hlong, -, -⟩ := decode_grammar f [10, 1, 2]
  refine ⟨(haccepts m).1 hdecode, hlength m hdecode, ?_, ?_⟩
  · rw [hthreshold g rfl rfl]
    exact hdecode
  · exact hlong [10] [1, 2] 10 rfl rfl ⟨10, rfl, rfl⟩ (by decide)

end PacketStream.Framing
