import PacketStream.Frame.Exchange
import PacketStream.Proofs.Link.Reading
import PacketStream.Proofs.Outcome
import PacketStream.Proofs.Varint.Prefix

/-!
# What reading a frame takes

`receive_received` says once, for every link and every script of turns, what `Framing.receive` can
come to and which bytes it has taken by then: `Received` has one constructor for each place where
the read can end. Later proofs take it apart and never open `receive`.

Its parts are the two loops. `receiveVarint_received` does the same for the length in front of a frame,
read one byte at a time: it is the varint that all bytes read so far decode to. The contents are then
one read of known size.
-/

namespace PacketStream

/-! ## The length, byte by byte -/

namespace Exchange

theorem receiveByte_ok {l after : Link} {b : UInt8}
    (h : receiveByte.outcome l = (.ok b, after)) : l.Reads [b] after := by
  obtain ⟨bytes, last, hread, hb⟩ := outcome_bind_ok h
  obtain ⟨hreads, hlength⟩ := Link.receive_ok hread
  obtain ⟨c, rfl⟩ := List.length_eq_one_iff.1 hlength
  cases hb
  have : (BigEndian.decode [c]).toUInt8 = c := by simp [BigEndian.decode, BigEndian.decodeFrom]
  rwa [this]

theorem receiveByte_error {l after : Link} {e : Fault}
    (h : receiveByte.outcome l = (.error e, after)) :
    l.Reads [] after ∧ e.isFatal = true ∧
      (l.Delivers → e = .connectionClosed 0 1 ∧ after.incoming = []) := by
  rw [receiveByte, outcome_bind] at h
  split at h
  · cases h
  · rename_i hread
    cases h
    obtain ⟨bytes, hreads, hlength, hfatal, hclosed⟩ := Link.receive_error hread
    obtain rfl : bytes = [] := List.length_eq_zero_iff.1 (by omega)
    exact ⟨hreads, hfatal, hclosed⟩

end Exchange

namespace Framing

variable {bits value : Nat} {hbits : 0 < bits} {got : List UInt8} {l after : Link} {e : Fault}

theorem outcome_receiveVarint (bits : Nat) (hbits : 0 < bits) (got : List UInt8) (l : Link) :
    (receiveVarint bits hbits got).outcome l =
      match Exchange.receiveByte.outcome l with
      | (.error e, after) => (.error e, after)
      | (.ok b, after) =>
        match Varint.decode bits (got ++ [b]) with
        | .error refusal => (.error (.malformed (.varint bits refusal)), after)
        | .ok none => (receiveVarint bits hbits (got ++ [b])).outcome after
        | .ok (some (value, _)) => (.ok value, after) := by
  rw [receiveVarint, Exchange.outcome_bind]
  rcases Exchange.receiveByte.outcome l with ⟨e | b, after⟩
  · rfl
  · dsimp only
    split <;> rename_i hdecode <;> rw [hdecode] <;> rfl

/-- A varint does not stay open forever. What holds of the bytes that have come, if it holds of one
byte more that leaves the varint open, holds of all bytes. -/
theorem open_induction {P : List UInt8 → Prop} (hbits : 0 < bits)
    (step : ∀ got, (∀ b, Varint.decode bits (got ++ [b]) = .ok none → P (got ++ [b])) → P got)
    (got : List UInt8) : P got := by
  induction hn : Varint.maxBytes bits - got.length using Nat.strongRecOn generalizing got with
  | _ n ih =>
    apply step
    intro b hopen
    have hlt := Varint.length_lt_of_decode_eq_none hbits hopen
    have hlength : (got ++ [b]).length = got.length + 1 := by simp
    exact ih _ (by omega) _ rfl

/-- What every way to build an exchange keeps holds of reading a varint. -/
theorem receiveVarint_of_bind {P : Exchange Nat → Prop}
    (bind : ∀ next, (∀ b, P (next b)) → P (Exchange.receiveByte >>= next))
    (refuse : ∀ refusal, P (throw (.malformed (.varint bits refusal))))
    (give : ∀ value, P (pure value)) (got : List UInt8) : P (receiveVarint bits hbits got) := by
  induction got using open_induction hbits with
  | step got ih =>
    rw [receiveVarint]
    apply bind
    intro b
    split
    · exact refuse _
    · exact ih b ‹_›
    · exact give _

/-- `ReceivedVarint bits l after bytes result` lists how reading a varint from `l`, which leaves the link
`after`, can end: all its bytes that have come, and what it comes to. -/
inductive ReceivedVarint (bits : Nat) (l after : Link) (bytes : List UInt8) :
    Except Fault Nat → Prop
  /-- The bytes are a varint. -/
  | whole {value : Nat} (decodes : Varint.decode bits bytes = .ok (some (value, bytes.length))) :
      ReceivedVarint bits l after bytes (.ok value)
  /-- No varint begins with the bytes. -/
  | refused {refusal : Varint.Refusal} (refuses : Varint.decode bits bytes = .error refusal) :
      ReceivedVarint bits l after bytes (.error (.malformed (.varint bits refusal)))
  /-- The link came to its end, or failed, inside the varint. -/
  | cut {e : Fault} (isOpen : Varint.decode bits bytes = .ok none) (fatal : e.isFatal = true)
      (closed : l.Delivers → e = .connectionClosed 0 1 ∧ after.incoming = []) :
      ReceivedVarint bits l after bytes (.error e)

/-- What is read before makes no difference. -/
theorem ReceivedVarint.behind {next : Link} {taken bytes : List UInt8} {result : Except Fault Nat}
    (hreads : l.Reads taken next) (h : ReceivedVarint bits next after bytes result) :
    ReceivedVarint bits l after bytes result := by
  cases h with
  | whole decodes => exact .whole decodes
  | refused refuses => exact .refused refuses
  | cut isOpen fatal closed =>
    refine .cut isOpen fatal ?_
    intro hl
    exact closed (hreads.delivers hl)

/-- A varint that is open in front of a byte, and in front of each byte behind it, is open in front of
them all. -/
theorem open_before_cons {b : UInt8} (later : List UInt8)
    (hopen : Varint.decode bits got = .ok none)
    (hlater : ∀ k, k < later.length → Varint.decode bits (got ++ [b] ++ later.take k) = .ok none) :
    ∀ k, k < ([b] ++ later).length →
      Varint.decode bits (got ++ ([b] ++ later).take k) = .ok none := by
  intro k hk
  cases k with
  | zero => rwa [List.take_zero, List.append_nil]
  | succ k =>
    have hk' : k < later.length := by simpa using hk
    simpa using hlater k hk'

/-- **Every end of the loop.** Whatever the link does, the bytes taken and the result are related as
`ReceivedVarint` says, and no byte is taken when those before it have settled the varint. -/
theorem receiveVarint_received {result : Except Fault Nat} (hopen : Varint.decode bits got = .ok none)
    (h : (receiveVarint bits hbits got).outcome l = (result, after)) :
    ∃ taken, l.Reads taken after ∧ ReceivedVarint bits l after (got ++ taken) result ∧
      ∀ k, k < taken.length → Varint.decode bits (got ++ taken.take k) = .ok none := by
  induction got using open_induction hbits generalizing l with
  | step got ih =>
    rw [outcome_receiveVarint] at h
    rcases hbyte : Exchange.receiveByte.outcome l with ⟨e | b, next⟩ <;> rw [hbyte] at h
    · cases h
      obtain ⟨hreads, hfatal, hclosed⟩ := Exchange.receiveByte_error hbyte
      refine ⟨[], hreads, ?_, nofun⟩
      rw [List.append_nil]
      exact .cut hopen hfatal hclosed
    have hreads := Exchange.receiveByte_ok hbyte
    dsimp only at h
    rcases hdecode : Varint.decode bits (got ++ [b]) with refusal | (_ | ⟨value, size⟩) <;>
      rw [hdecode] at h
    · cases h
      exact ⟨[b], hreads, .refused hdecode, open_before_cons [] hopen nofun⟩
    · obtain ⟨later, hrest, hreceived, hlater⟩ := ih b hdecode hdecode h
      rw [List.append_assoc] at hreceived
      exact ⟨[b] ++ later, hreads.trans hrest, hreceived.behind hreads,
        open_before_cons later hopen hlater⟩
    · cases h
      rw [Varint.decode_concat_size hbits hopen hdecode] at hdecode
      exact ⟨[b], hreads, .whole hdecode, open_before_cons [] hopen nofun⟩

/-! ## A whole frame -/

theorem varintBits_pos : 0 < varintBits := by decide

theorem outcome_checkLength (f : Framing) (length : Int32) :
    (f.checkLength length).outcome =
      if length < 0 then .error (.malformed (.negativeFrameLength length.toInt))
      else if f.config.frameLength < length.toInt.toNat then
        .error (.malformed (.frameTooLong length.toInt.toNat f.config.frameLength))
      else .ok length.toInt.toNat := by
  simp only [checkLength]
  split
  · rfl
  · split <;> rfl

/-- `pre` is the length in front of a frame of `n` bytes, which the limits allow. -/
def Announces (f : Framing) (pre : List UInt8) (n : Nat) : Prop :=
  ∃ value, Varint.decode varintBits pre = .ok (some (value, pre.length)) ∧
    (f.checkLength value.toUInt32.toInt32).outcome = .ok n

/-- `Received l after taken result` lists how a read from `l`, which leaves the link `after`, can end:
the bytes it has taken, and what it comes to. -/
inductive Received (f : Framing) (l after : Link) : List UInt8 → Except Fault Message → Prop
  /-- The bytes taken are no length. -/
  | refused {taken : List UInt8} {refusal : Varint.Refusal}
      (refuses : Varint.decode varintBits taken = .error refusal) :
      Received f l after taken (.error (.malformed (.varint varintBits refusal)))
  /-- The bytes taken are a length which the limits do not allow. -/
  | unacceptable {taken : List UInt8} {value : Nat} {e : Fault}
      (length : Varint.decode varintBits taken = .ok (some (value, taken.length)))
      (rejects : (f.checkLength value.toUInt32.toInt32).outcome = .error e) :
      Received f l after taken (.error e)
  /-- The bytes taken are a frame. -/
  | whole {pre contents : List UInt8} (announces : f.Announces pre contents.length) :
      Received f l after (pre ++ contents) (f.decode contents).outcome
  /-- The link came to its end, or failed, inside the length. -/
  | cutLength {taken : List UInt8} {e : Fault}
      (isOpen : Varint.decode varintBits taken = .ok none) (fatal : e.isFatal = true)
      (closed : l.Delivers → e = .connectionClosed 0 1 ∧ after.incoming = []) :
      Received f l after taken (.error e)
  /-- The link came to its end, or failed, inside the contents. -/
  | cutContents {pre part : List UInt8} {n : Nat} {e : Fault} (announces : f.Announces pre n)
      (short : part.length < n) (fatal : e.isFatal = true)
      (closed : l.Delivers → e = .connectionClosed part.length n ∧ after.incoming = []) :
      Received f l after (pre ++ part) (.error e)

variable {f : Framing} {n : Nat} {result : Except Fault Message}

theorem receiveLength_ok (h : f.receiveLength.outcome l = (.ok n, after)) :
    ∃ pre, l.Reads pre after ∧ f.Announces pre n := by
  obtain ⟨value, next, hvarint, hcheck⟩ := Exchange.outcome_bind_ok h
  rw [Exchange.outcome_ofChecked, Prod.mk.injEq] at hcheck
  obtain ⟨hcheck, rfl⟩ := hcheck
  obtain ⟨pre, hreads, hreceived, -⟩ := receiveVarint_received Varint.decode_nil hvarint
  cases hreceived with
  | whole decodes => exact ⟨pre, hreads, value, decodes, hcheck⟩

theorem receiveLength_error (h : f.receiveLength.outcome l = (.error e, after)) :
    ∃ taken, l.Reads taken after ∧ f.Received l after taken (.error e) := by
  rw [receiveLength, Exchange.outcome_bind] at h
  rcases hvarint : (receiveVarint varintBits varintBits_pos []).outcome l with ⟨e' | value, next⟩ <;>
    rw [hvarint] at h
  · cases h
    obtain ⟨taken, hreads, hreceived, -⟩ := receiveVarint_received Varint.decode_nil hvarint
    cases hreceived with
    | refused refuses => exact ⟨taken, hreads, .refused refuses⟩
    | cut isOpen fatal closed => exact ⟨taken, hreads, .cutLength isOpen fatal closed⟩
  · dsimp only at h
    rw [Exchange.outcome_ofChecked, Prod.mk.injEq] at h
    obtain ⟨hcheck, rfl⟩ := h
    obtain ⟨taken, hreads, hreceived, -⟩ := receiveVarint_received Varint.decode_nil hvarint
    cases hreceived with
    | whole decodes => exact ⟨taken, hreads, .unacceptable decodes hcheck⟩

/-- **Every end of a read.** Whatever the link does, the bytes that are gone from it and the result
are related as `Received` says. -/
theorem receive_received (h : f.receive.outcome l = (result, after)) :
    ∃ taken, l.Reads taken after ∧ f.Received l after taken result := by
  rw [receive, Exchange.outcome_bind] at h
  rcases hlength : f.receiveLength.outcome l with ⟨e | n, next⟩ <;> rw [hlength] at h
  · cases h
    exact receiveLength_error hlength
  obtain ⟨pre, hpre, hannounces⟩ := receiveLength_ok hlength
  dsimp only at h
  rw [Exchange.outcome_bind] at h
  rcases hcontents : (Exchange.receive n).outcome next with ⟨e | contents, last⟩ <;>
    rw [hcontents] at h
  · cases h
    obtain ⟨part, hreads, hshort, hfatal, hclosed⟩ := Link.receive_error hcontents
    refine ⟨pre ++ part, hpre.trans hreads, .cutContents hannounces hshort hfatal ?_⟩
    intro hl
    exact hclosed (hpre.delivers hl)
  · obtain ⟨hreads, rfl⟩ := Link.receive_ok hcontents
    cases h
    exact ⟨pre ++ contents, hpre.trans hreads, .whole hannounces⟩

end Framing

end PacketStream
