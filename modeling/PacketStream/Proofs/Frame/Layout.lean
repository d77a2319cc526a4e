import PacketStream.Proofs.Frame.Recovery

/-!
# The layout of a frame

`Framing.layout` gives the contents of the frame for a body as they stand on the wire: without a
threshold the body, below the threshold a zero byte and the body, from the threshold on the length
of the body and the body compressed. In front of the contents stands their length.

`encodes` lists once what the writer of a frame can come to, with the reasons in the order in which
they are looked for. `outcome_encode_eq` is the writer on a packet whose body can be made: it
succeeds where the limit for frames allows, and the length in front is the shortest of its number. A
body is never empty, so a zero byte in front of one cannot be taken for the length of a compressed
one.
-/

namespace PacketStream.Framing

variable {f : Framing} {n : Nat} {body bytes : List UInt8} {id : Int32} {payload : Payload}
  {threshold : UInt32}

/-! ## Contents -/

/-- The contents of the frame for a body, byte by byte. -/
def layout (f : Framing) (body : List UInt8) : List UInt8 :=
  match f.threshold with
  | none => body
  | some threshold =>
    if body.length < threshold.toNat then 0 :: body
    else Varint.encode body.length ++ Compression.compress f.config.level body

theorem bytes_contents (f : Framing) (body : List UInt8) :
    (f.contents body).bytes = f.layout body := by
  have hzero : Varint.encode 0 = [0] := by
    rw [Varint.encode]
    rfl
  rw [contents, layout]
  rcases f.threshold with _ | threshold
  · rfl
  · dsimp only
    split
    · show Varint.encode 0 ++ body = 0 :: body
      rw [hzero, List.singleton_append]
    · rfl

theorem length_contents (f : Framing) (body : List UInt8) :
    (f.contents body).length = (f.layout body).length := by
  rw [← Contents.length_bytes, bytes_contents]

/-- With a threshold the first byte says whether the body is as it was. -/
theorem head?_layout (hthreshold : f.threshold = some threshold) (hbody : body ≠ []) :
    (f.layout body).head? = some 0 ↔ body.length < threshold.toNat := by
  rw [layout, hthreshold]
  dsimp only
  by_cases hbelow : body.length < threshold.toNat
  · rw [if_pos hbelow]
    exact iff_of_true rfl hbelow
  · have hnonempty : Varint.encode body.length ≠ [] := by
      intro hnil
      have hlength := Varint.length_encode body.length
      rw [hnil, Varint.length] at hlength
      cases hlength
    rw [if_neg hbelow, List.head?_append_of_ne_nil _ hnonempty, Varint.head?_encode,
      List.length_eq_zero_iff]
    exact iff_of_false hbody hbelow

/-! ## The writer -/

/-- The frame that holds the contents. -/
def enclose (contents : List UInt8) : List UInt8 := Varint.encode contents.length ++ contents

/-- `Encodes id payload result` lists what the writer of a frame can come to for a packet. -/
inductive Encodes (f : Framing) (id : Int32) (payload : Payload) :
    Except Fault (List UInt8) → Prop
  | negativeId (negative : id < 0) : Encodes f id payload
      (.error (.validation (.outOfRange "packet_id" id.toInt 0 Int32.maxValue.toInt)))
  | invalid {cause : ValidationFault} (nonneg : 0 ≤ id) (rejects : payload.validity = .error cause) :
      Encodes f id payload (.error (.validation cause))
  /-- Some field of the packet cannot be written. -/
  | unwritable {e : Fault} (nonneg : 0 ≤ id) (valid : payload.validity = .ok ())
      (fails : payload.put.run f.config.textLength = .error e) : Encodes f id payload (.error e)
  | tooLong {bytes contents : List UInt8} (nonneg : 0 ≤ id) (valid : payload.validity = .ok ())
      (puts : payload.put.run f.config.textLength = .ok bytes)
      (lays : f.layout (Varint.encode id.toUInt32.toNat ++ bytes) = contents)
      (long : f.config.frameLength < contents.length) :
      Encodes f id payload (.error (.sizeLimit f.config.frameLength contents.length))
  | framed {bytes contents : List UInt8} (nonneg : 0 ≤ id) (valid : payload.validity = .ok ())
      (puts : payload.put.run f.config.textLength = .ok bytes)
      (lays : f.layout (Varint.encode id.toUInt32.toNat ++ bytes) = contents)
      (fits : contents.length ≤ f.config.frameLength) :
      Encodes f id payload (.ok (enclose contents))

theorem outcome_wrap_layout (f : Framing) (body : List UInt8) :
    (f.wrap body).outcome =
      if (f.layout body).length ≤ f.config.frameLength then .ok (enclose (f.layout body))
      else .error (.sizeLimit f.config.frameLength (f.layout body).length) := by
  simp only [outcome_wrap, length_contents, bytes_contents]
  rfl

/-- Where a packet has a body, only the limit for frames is left to look at. -/
theorem outcome_encode_of_put (hid : 0 ≤ id) (hvalid : payload.validity = .ok ())
    (hput : payload.put.run f.config.textLength = .ok bytes) :
    let contents := f.layout (Varint.encode id.toUInt32.toNat ++ bytes)
    (f.encode id payload).outcome =
      if contents.length ≤ f.config.frameLength then .ok (enclose contents)
      else .error (.sizeLimit f.config.frameLength contents.length) := by
  have hbody : f.body id payload = .ok (Varint.encode id.toUInt32.toNat ++ bytes) :=
    body_eq_ok.2 ⟨hid, hvalid, bytes, hput, rfl⟩
  rw [encode, Checked.outcome_bind, Checked.outcome_ofExcept, hbody]
  exact outcome_wrap_layout f _

/-- **Every end of writing a frame.** -/
theorem encodes (f : Framing) (id : Int32) (payload : Payload) :
    f.Encodes id payload (f.encode id payload).outcome := by
  rw [encode, Checked.outcome_bind, Checked.outcome_ofExcept, body_eq]
  by_cases hid : id < 0
  · rw [if_pos hid]
    exact .negativeId hid
  rw [if_neg hid]
  have hnonneg : 0 ≤ id := Int32.not_lt.1 hid
  rcases hvalid : payload.validity with cause | ⟨⟩
  · exact .invalid hnonneg hvalid
  rcases hput : payload.put.run f.config.textLength with e | bytes
  · exact .unwritable hnonneg hvalid hput
  show f.Encodes id payload (f.wrap (Varint.encode id.toUInt32.toNat ++ bytes)).outcome
  rw [outcome_wrap_layout]
  split
  · exact .framed hnonneg hvalid hput rfl ‹_›
  · exact .tooLong hnonneg hvalid hput rfl (Nat.not_le.1 ‹_›)

/-! ## Shortest forms -/

/-- Numbers of 32 bits are told apart by their two's complements. -/
theorem eq_of_toInt_eq {m : Nat} (hn : n < 2 ^ varintBits) (hm : m < 2 ^ varintBits)
    (h : n.toUInt32.toInt32.toInt = m.toUInt32.toInt32.toInt) : n = m := by
  have h32 := congrArg Int32.toUInt32 (Int32.toInt_inj.1 h)
  have hnat := congrArg UInt32.toNat h32
  rw [varintBits] at hn hm
  simp only [UInt32.toUInt32_toInt32, Nat.toUInt32_eq, UInt32.toNat_ofNat'] at hnat
  omega

/-- The bytes declare the number, and no fewer bytes do. -/
def DeclaresShortly (pre : List UInt8) (declared : Int) : Prop :=
  Declares pre declared ∧ ∀ other, Declares other declared → pre.length ≤ other.length

/-- What is written for a number of 32 bits is the shortest form of it. -/
theorem declaresShortly_encode (h : n < 2 ^ varintBits) :
    DeclaresShortly (Varint.encode n) n.toUInt32.toInt32.toInt := by
  refine ⟨declares_encode h, ?_⟩
  intro other hother
  -- another form decodes to the same number, and has at least as many bytes as its groups need
  obtain ⟨value, hvalue, heq⟩ := hother
  have hbound : value < 2 ^ varintBits := (Varint.decode_bounds varintBits_pos hvalue).2.2
  rw [Varint.length_encode, ← eq_of_toInt_eq hbound h heq]
  exact Varint.length_le_of_decode varintBits_pos hvalue

theorem length_encode_le (h : n < 2 ^ varintBits) : (Varint.encode n).length ≤ 5 := by
  rw [Varint.length_encode]
  exact Varint.length_le_maxBytes h varintBits_pos

/-- A reader that finds a number in front of the body finds zero just where the body is as it was. -/
theorem declares_zero_layout {field rest : List UInt8} {declared : Int}
    (hthreshold : f.threshold = some threshold) (hbody : body ≠ [])
    (hsplit : f.layout body = field ++ rest) (hfield : Declares field declared) :
    declared = 0 ↔ body.length < threshold.toNat := by
  rw [layout, hthreshold] at hsplit
  dsimp only at hsplit
  by_cases hbelow : body.length < threshold.toNat
  · rw [if_pos hbelow, ← List.singleton_append] at hsplit
    have hzero : Declares [0] 0 := ⟨0, rfl, rfl⟩
    exact iff_of_true (hzero.unique hfield hsplit).2.symm hbelow
  · -- a reader decodes the length that was written, and the body has one byte at least
    rw [if_neg hbelow] at hsplit
    obtain ⟨value, hvalue, rfl⟩ := hfield
    have hbound : value < 2 ^ varintBits := (Varint.decode_bounds varintBits_pos hvalue).2.2
    have hwhole := Varint.decode_append_of_some varintBits_pos hvalue rest
    rw [← hsplit] at hwhole
    obtain ⟨rfl, -⟩ := Varint.eq_of_decode_encode varintBits_pos hwhole
    refine iff_of_false ?_ hbelow
    intro hzero
    exact hbody (List.length_eq_zero_iff.1 (eq_of_toInt_eq hbound (by decide) hzero))

/-! ## The frame of a packet -/

/-- **The frame of a packet, byte by byte.** Let the limits be ones that can be used, the packet
valid, and its fields written as `bytes`. Its body is the shortest varint of its id, and these
bytes. The packet has a frame where the contents for this body are not longer than the limit, and
the fault tells both lengths where they are. In front of the contents stands their length as the
shortest varint, of five bytes at most, which no reader takes for a negative number. If there is a
threshold, the contents begin with a zero byte if and only if the body is shorter than it, and so
does the number that a reader finds there: it is never zero in front of a compressed body, be the
threshold itself zero or not. -/
theorem outcome_encode_eq (hconfig : f.config.validate = .ok ()) (hid : 0 ≤ id)
    (hvalid : payload.validity = .ok ())
    (hput : payload.put.run f.config.textLength = .ok bytes) :
    let start := Varint.encode id.toUInt32.toNat
    let body := start ++ bytes
    let contents := f.layout body
    let pre := Varint.encode contents.length
    DeclaresShortly start id.toInt ∧
      (f.encode id payload).outcome =
        (if contents.length ≤ f.config.frameLength then .ok (pre ++ contents)
        else .error (.sizeLimit f.config.frameLength contents.length)) ∧
      (contents.length ≤ f.config.frameLength →
        DeclaresShortly pre contents.length ∧ pre.length ≤ 5) ∧
      ∀ threshold, f.threshold = some threshold →
        (contents.head? = some 0 ↔ body.length < threshold.toNat) ∧
        ∀ field rest declared, contents = field ++ rest → Declares field declared →
          (declared = 0 ↔ body.length < threshold.toNat) := by
  intro start body contents pre
  have hbody : body ≠ [] := ne_nil_of_encode_append _ _
  refine ⟨?_, ?_, ?_, ?_⟩
  · have hstart := declaresShortly_encode id.toUInt32.toNat_lt
    simpa using hstart
  · exact outcome_encode_of_put hid hvalid hput
  · intro hfits
    have hprefixed : contents.length ≤ Limits.prefixedLength :=
      Nat.le_trans hfits (frameLength_le_of_validate hconfig)
    have hwidth : contents.length < 2 ^ varintBits := Nat.lt_of_le_of_lt hprefixed (by decide)
    have hshort := declaresShortly_encode hwidth
    rw [Limits.toInt_of_le_prefixedLength hprefixed] at hshort
    exact ⟨hshort, length_encode_le hwidth⟩
  · intro threshold hthreshold
    refine ⟨head?_layout hthreshold hbody, ?_⟩
    intro field rest declared hsplit hfield
    exact declares_zero_layout hthreshold hbody hsplit hfield

/-- A threshold of zero: a body of one byte is compressed, and stored so at level 0. Its contents of
thirteen bytes are framed under a limit of thirteen, and refused under one of twelve. -/
theorem outcome_encode_eq_oneByte :
    let f (limit : Nat) : Framing :=
      { config := { frameLength := limit, level := 0 }, threshold := some 0 }
    let contents : List UInt8 := [1, 0x78, 0x01, 1, 1, 0, 254, 255, 0, 0, 1, 0, 1]
    ((f 13).encode 0 (.ofBytes [])).outcome = .ok (13 :: contents) ∧
      ((f 12).encode 0 (.ofBytes [])).outcome = .error (.sizeLimit 12 13) ∧
      contents.head? ≠ some 0 := by
  intro f contents
  have hlayout (limit : Nat) : (f limit).layout (Varint.encode 0 ++ []) = contents := by cbv
  have hlength : Varint.encode contents.length = [13] := by cbv
  obtain ⟨-, hfits, -, hmarked⟩ := @outcome_encode_eq (f 13) [] 0 (.ofBytes []) rfl
    (by decide) rfl rfl
  obtain ⟨-, hlong, -, -⟩ := @outcome_encode_eq (f 12) [] 0 (.ofBytes []) rfl
    (by decide) rfl rfl
  have hmarked0 := (hmarked 0 rfl).1
  rw [show (0 : Int32).toUInt32.toNat = 0 from rfl, hlayout] at hfits hlong hmarked0
  rw [hlength, if_pos (by decide)] at hfits
  rw [if_neg (by decide)] at hlong
  exact ⟨hfits, hlong, fun hhead => absurd (hmarked0.1 hhead) (by decide)⟩

end PacketStream.Framing
