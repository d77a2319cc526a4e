import Mathlib
import PacketStream.Proofs.Buffer.Shape
import PacketStream.Proofs.Varint.Language

/-!
# Varints in buffers

The writer of a varint checks the width of the field, and appends the shortest form of what fits.
`put_varuint_shortest` says when it refuses, how many bytes it appends otherwise, and that no other
bytes that a reader takes for the number are as few.

A signed number is written as its two's complement. `Shape.Inverts` is the law for those: every value
is written, and comes back.
-/

namespace PacketStream

/-- Every value can be written to a buffer in which all has been read, and is read back from just
the bytes that were written, whatever comes behind them. -/
def Shape.Inverts (s : Shape) : Prop :=
  ∀ (v : s.Value) (b : Buffer) (tail : List UInt8), b.unread = [] →
    ∃ bytes, b.put (s.put v) = (.ok (), b.append bytes) ∧
      ((b.append bytes).append tail).get s.get
        = (.ok v, ((b.append bytes).advance bytes.length).append tail)

/-- A shape reads back, so it is enough that every value can be written. -/
theorem Shape.inverts_of_run {s : Shape} (hreadable : s.IsReadable)
    (hruns : ∀ v limit, ∃ bytes, (s.put v).run limit = .ok bytes) : s.Inverts := by
  intro v b tail hb
  obtain ⟨bytes, hrun⟩ := hruns v b.textLimit
  have hreads := s.readsBack hreadable v hrun b.consumed tail (by simp)
  refine ⟨bytes, Put.put_of_run hrun, ?_⟩
  simpa [Buffer.append, Buffer.advance, hb] using hreads

namespace Buffer

variable {bits : Nat} {v : UInt64} {b : Buffer}

theorem put_varuint_of_le (h : 2 ^ bits ≤ v.toNat) :
    b.put (Put.varuint bits v)
      = (.error (.validation (.outOfRange "varuint" v.toNat 0 (2 ^ bits - 1))), b) := by
  have hbits : bits < 64 :=
    (Nat.pow_lt_pow_iff_right (by decide)).1 (Nat.lt_of_le_of_lt h v.toNat_lt)
  refine Put.put_of_fail ?_
  rw [Put.varuint, if_pos ⟨hbits, h⟩]

theorem put_varuint_of_lt (h : v.toNat < 2 ^ bits) :
    b.put (Put.varuint bits v) = (.ok (), b.append (Varint.encode v.toNat)) := by
  refine Put.put_of_run ?_
  rw [Put.varuint, if_neg fun hrange => Nat.not_lt.2 hrange.2 h, Put.varnat, Put.run_raw]

/-- **Varints in buffers.** Under a width of 1 to 64 bits, a number that does not fit is refused as
out of range, and the buffer stays as it was. All others are appended in their shortest form, which
has as many bytes as foretold and no more than the width allows, and which a reader takes for the
number, whatever comes behind it. Of all bytes that a reader of any width takes for the number, these
are the fewest, and no others are as few. A signed number of 16, 32 or 64 bits, negative or not, can
always be written, and comes back. -/
theorem put_varuint_shortest (hbits : 1 ≤ bits) (hwidth : bits ≤ 64) (v : UInt64) (b : Buffer)
    (tail : List UInt8) :
    let bytes := Varint.encode v.toNat
    let size := Varint.length v.toNat
    (2 ^ bits ≤ v.toNat → b.put (Put.varuint bits v)
      = (.error (.validation (.outOfRange "varuint" v.toNat 0 (2 ^ bits - 1))), b)) ∧
    (v.toNat < 2 ^ bits →
      b.put (Put.varuint bits v) = (.ok (), b.append bytes) ∧
        bytes.length = size ∧ size ≤ Varint.maxBytes bits ∧
        Varint.decode bits (bytes ++ tail) = .ok (some (v.toNat, size))) ∧
    (∀ width input taken, 1 ≤ width → width ≤ 64 →
      Varint.decode width input = .ok (some (v.toNat, taken)) →
        size ≤ taken ∧ (taken = size → input.take taken = bytes)) ∧
    Shape.varshort.Inverts ∧ Shape.varint.Inverts ∧ Shape.varlong.Inverts := by
  intro bytes size
  refine ⟨put_varuint_of_le, ?_, ?_, ?_, ?_, ?_⟩
  · intro hfits
    have hcapped : v.toNat < 2 ^ min bits 64 := by rwa [Nat.min_eq_left hwidth]
    exact ⟨put_varuint_of_lt hfits, Varint.length_encode _,
      Varint.length_le_maxBytes hfits hbits, Varint.decode_encode_append tail hbits hcapped⟩
  · intro width input taken hpos hwide hread
    refine ⟨Varint.length_le_of_decode hpos hread, ?_⟩
    intro hsame
    subst hsame
    exact Varint.take_eq_encode hpos hwide hread
  · exact Shape.inverts_of_run trivial fun v limit => ⟨_, Put.run_raw.2 rfl⟩
  · exact Shape.inverts_of_run trivial fun v limit => ⟨_, Put.run_raw.2 rfl⟩
  · exact Shape.inverts_of_run trivial fun v limit => ⟨_, Put.run_raw.2 rfl⟩

/-- Under a width of ten bits 1024 is refused, and 1023 is written in two bytes, although the width
would allow a third. The number 1 comes back from 32 bits of ones, as -1. -/
theorem put_varuint_shortest_tenBits :
    let b : Buffer := { consumed := [9] }
    b.put (Put.varuint 10 1024)
        = (.error (.validation (.outOfRange "varuint" 1024 0 1023)), b) ∧
      b.put (Put.varuint 10 1023) = (.ok (), { consumed := [9], unread := [0xFF, 7] }) ∧
      Varint.decode 10 [0xFF, 7, 1, 2] = .ok (some (1023, 2)) ∧
      (∀ input, Varint.decode 15 input ≠ .ok (some (1023, 1))) ∧
      ∃ bytes, b.put (Put.varint (-1)) = (.ok (), b.append bytes) ∧
        ((b.append bytes).append [3]).get Get.varint
          = (.ok (-1), ((b.append bytes).advance bytes.length).append [3]) := by
  intro b
  obtain ⟨hrefused, -, -, -, hinverts, -⟩ :=
    @put_varuint_shortest 10 (by decide) (by decide) 1024 b []
  obtain ⟨-, hwritten, hfewest, -⟩ :=
    @put_varuint_shortest 10 (by decide) (by decide) 1023 b [1, 2]
  have hbytes : Varint.encode (1023 : UInt64).toNat = [0xFF, 7] := by cbv
  have hsize : Varint.length (1023 : UInt64).toNat = 2 := by
    rw [← Varint.length_encode, hbytes]
    rfl
  rw [hbytes, hsize] at hwritten
  obtain ⟨hput, -, -, hdecode⟩ := hwritten (by decide)
  refine ⟨hrefused (by decide), hput, hdecode, ?_, hinverts (-1) b [3] rfl⟩
  intro input hone
  have hleast := (hfewest 15 input 1 (by decide) (by decide) hone).1
  rw [hsize] at hleast
  exact absurd hleast (by decide)

end Buffer

end PacketStream
