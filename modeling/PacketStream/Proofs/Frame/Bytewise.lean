import PacketStream.Proofs.Frame.Reading

/-!
# Lengths read byte by byte

The reader of a length takes one byte, decodes all that have come, and goes on while they are no whole
varint. It keeps no count. `Exchange.ByteReads` says of an exchange that it is made of reads of one byte,
so many at most on each path, and `byteReads_receiveVarint` that reading a varint is: the decoder never
asks for more when it has as many bytes as the width allows.

`receiveVarint_oneShot` compares the loop with the decoder at work on all bytes that are to come. The two
agree because what a few bytes settle stays settled (`Varint.decode_append`), and the loop has not gone
on behind that place (`receiveVarint_received`).
-/

namespace PacketStream

/-! ## Exchanges made of reads of one byte -/

namespace Exchange

variable {α : Type} {reads : Nat} {x : Exchange α} {l after : Link} {result : Except Fault α}

/-- The exchange reads nothing but single bytes, at most so many whatever they are, and what it does
next hangs on these bytes alone. -/
inductive ByteReads : (reads : Nat) → Exchange α → Prop
  | give {reads : Nat} (a : α) : ByteReads reads (pure a)
  | refuse {reads : Nat} (e : Fault) : ByteReads reads (throw e)
  | read {reads : Nat} {next : UInt8 → Exchange α} (later : ∀ b, ByteReads reads (next b)) :
      ByteReads (reads + 1) (receiveByte >>= next)

/-- No more bytes are gone than reads were made, on any link. -/
theorem ByteReads.length_le (h : x.ByteReads reads) (hx : x.outcome l = (result, after)) :
    ∃ taken, l.Reads taken after ∧ taken.length ≤ reads := by
  induction h generalizing l with
  | give a =>
    cases hx
    exact ⟨[], .refl _, Nat.zero_le _⟩
  | refuse e =>
    cases hx
    exact ⟨[], .refl _, Nat.zero_le _⟩
  | @read reads next _ ih =>
    rw [outcome_bind] at hx
    rcases hbyte : receiveByte.outcome l with ⟨e | b, mid⟩ <;> rw [hbyte] at hx
    · cases hx
      exact ⟨[], (receiveByte_error hbyte).1, Nat.zero_le _⟩
    · obtain ⟨taken, hreads, hlength⟩ := ih b hx
      refine ⟨[b] ++ taken, (receiveByte_ok hbyte).trans hreads, ?_⟩
      rw [List.length_append, List.length_singleton]
      omega

end Exchange

namespace Framing

variable {bits : Nat} {hbits : 0 < bits} {got taken : List UInt8} {l after : Link}
  {result : Except Fault Nat}

/-! ## The loop -/

/-- **The loop ends within the bytes that the width allows**, less those that have come. -/
theorem byteReads_receiveVarint (hopen : Varint.decode bits got = .ok none) :
    (receiveVarint bits hbits got).ByteReads (Varint.maxBytes bits - got.length) := by
  induction got using open_induction hbits with
  | step got ih =>
    have hmore := Varint.length_lt_of_decode_eq_none hbits hopen
    have hreads : Varint.maxBytes bits - got.length
        = Varint.maxBytes bits - (got.length + 1) + 1 := by omega
    rw [receiveVarint, hreads]
    refine .read fun b => ?_
    split
    · exact .refuse _
    · rename_i hstill
      have hlater := ih b hstill hstill
      rwa [List.length_append, List.length_singleton] at hlater
    · exact .give _

/-! ## The loop and the decoder -/

/-- Where no call fails, the decoder's answer about the whole stream says how the loop ends, and how much
it has taken by then. -/
theorem ReceivedVarint.agrees (hbits : 0 < bits) (hl : l.Delivers) (hreads : l.Reads taken after)
    (h : ReceivedVarint bits l after taken result) :
    match Varint.decode bits l.incoming with
    | .ok (some (value, size)) => result = .ok value ∧ taken.length = size
    | .error refusal =>
      result = .error (.malformed (.varint bits refusal)) ∧ Varint.decode bits taken = .error refusal
    | .ok none => result = .error (.connectionClosed 0 1) ∧ taken = l.incoming := by
  cases h with
  | whole decodes =>
    rw [hreads.incoming, Varint.decode_append_of_some hbits decodes]
    exact ⟨rfl, rfl⟩
  | refused refuses =>
    rw [hreads.incoming, Varint.decode_append_of_error hbits refuses]
    exact ⟨rfl, refuses⟩
  | cut isOpen fatal closed =>
    -- the stream is at its end, so the bytes taken are all of it
    obtain ⟨rfl, hend⟩ := closed hl
    have hall := hreads.incoming
    rw [hend, List.append_nil] at hall
    rw [hall, isOpen]
    exact ⟨rfl, rfl⟩

/-- **Reading a length byte by byte comes to what decoding the whole stream does**, within five reads.
Whatever the link does, in either mode, reading a length is made of at most five reads of one byte. Let
no call on the link fail, whatever the pieces in which its bytes come. Then the bytes that are gone are
those up to the one that settles the length, and no fewer would have settled it. If decoding all bytes
that were to come gives a number and its size, the loop gives the number and has taken so many bytes; if
it refuses them, the loop fails with this refusal, at the byte that made it; and if it asks for more, the
loop has taken them all, and says that a byte is wanting. -/
theorem receiveVarint_oneShot (l : Link) (hl : l.Delivers) :
    let loop := receiveVarint varintBits varintBits_pos []
    loop.ByteReads 5 ∧
    ∃ taken result after, loop.outcome l = (result, after) ∧ l.Reads taken after ∧ taken.length ≤ 5 ∧
      (∀ k, k < taken.length → Varint.decode varintBits (taken.take k) = .ok none) ∧
      match Varint.decode varintBits l.incoming with
      | .ok (some (value, size)) => result = .ok value ∧ taken.length = size
      | .error refusal =>
        result = .error (.malformed (.varint varintBits refusal)) ∧
          Varint.decode varintBits taken = .error refusal
      | .ok none => result = .error (.connectionClosed 0 1) ∧ taken = l.incoming := by
  intro loop
  have hbound : loop.ByteReads 5 := @byteReads_receiveVarint varintBits _ [] Varint.decode_nil
  rcases houtcome : loop.outcome l with ⟨result, after⟩
  obtain ⟨taken, hreads, hreceived, hopen⟩ := receiveVarint_received Varint.decode_nil houtcome
  obtain ⟨few, hfew, hlength⟩ := hbound.length_le houtcome
  obtain rfl := hfew.unique hreads
  exact ⟨hbound, few, result, after, rfl, hreads, hlength, hopen,
    hreceived.agrees varintBits_pos hl hreads⟩

/-- A length of five bytes takes five reads, and four would not do. The last byte of a length that is
out of range is taken too, and a stream that ends inside a length is taken as a whole. -/
theorem receiveVarint_oneShot_padded :
    let loop := receiveVarint varintBits varintBits_pos []
    let padded : Link := {
      mode := .cooperative, incoming := [0x85, 0x80, 0x80, 0x80, 0, 7]
      reads := [.waiting, .move 3, .interrupted] }
    let hostile : Link := { incoming := [0xFF, 0xFF, 0xFF, 0xFF, 0x10, 7] }
    let cut : Link := { incoming := [0x85, 0x80] }
    (padded.Delivers ∧ ∃ taken after, loop.outcome padded = (.ok 5, after) ∧
      padded.Reads taken after ∧ taken.length = 5) ∧
    (∃ taken after,
      loop.outcome hostile = (.error (.malformed (.varint varintBits .outOfRange)), after) ∧
      hostile.Reads taken after ∧ Varint.decode varintBits taken = .error .outOfRange) ∧
    (∃ after, loop.outcome cut = (.error (.connectionClosed 0 1), after) ∧
      cut.Reads [0x85, 0x80] after) ∧
    ¬ loop.ByteReads 4 := by
  intro loop padded hostile cut
  have hpadded : Varint.decode varintBits padded.incoming = .ok (some (5, 5)) := by cbv
  have hhostile : Varint.decode varintBits hostile.incoming = .error .outOfRange := by cbv
  have hcut : Varint.decode varintBits cut.incoming = .ok none := by cbv
  obtain ⟨-, five, _, after, hfive, hreads, -, -, hends⟩ := receiveVarint_oneShot padded (by decide)
  obtain ⟨-, taken, _, last, hrefused, htaken, -, -, hrefusal⟩ :=
    receiveVarint_oneShot hostile (by decide)
  obtain ⟨-, all, _, rest, hclosed, hall, -, -, hend⟩ := receiveVarint_oneShot cut (by decide)
  rw [hpadded] at hends
  rw [hhostile] at hrefusal
  rw [hcut] at hend
  obtain ⟨rfl, hlength⟩ := hends
  obtain ⟨rfl, hbyte⟩ := hrefusal
  obtain ⟨rfl, rfl⟩ := hend
  refine ⟨⟨by decide, five, after, hfive, hreads, hlength⟩, ⟨taken, last, hrefused, htaken, hbyte⟩,
    ⟨rest, hclosed, hall⟩, fun hfew => ?_⟩
  obtain ⟨few, hfour, hshort⟩ := hfew.length_le hfive
  rw [hfour.unique hreads] at hshort
  omega

end Framing

end PacketStream
