import Mathlib
import PacketStream.Frame.Basic
import PacketStream.Proofs.Outcome
import PacketStream.Proofs.Zlib.Supply

/-!
# Decompressing under a limit

`Inflater.toCome_storedBlocks` follows the inflater through stored blocks, block by block and within
a block byte by byte: their data are all that is to come, if the checksum behind them is theirs. A
coded stream is written only where it gives back its data, so `supply_deflate` follows for every
level, with no assumption on how the data are coded.

The limit of `Compression.decompress` decides how many bytes are read of a stream and nothing else.
`Compression.outcome_decompress` computes the outcome from what the stream has to give, which is the
same under every limit, and `Compression.decompress_exact` compares the limits by it.
-/

namespace PacketStream

namespace Zlib

variable {α β : Type}

/-! ## Parts of a stream -/

theorem foldl_adlerStep_lt (bytes : List UInt8) (sums : Nat × Nat)
    (h : sums.1 < adlerModulus ∧ sums.2 < adlerModulus) :
    (bytes.foldl adlerStep sums).1 < adlerModulus ∧
      (bytes.foldl adlerStep sums).2 < adlerModulus := by
  induction bytes generalizing sums with
  | nil => exact h
  | cons b bytes ih => exact ih _ ⟨Nat.mod_lt _ (by decide), Nat.mod_lt _ (by decide)⟩

theorem adler32_lt (bytes : List UInt8) : adler32 bytes < 256 ^ (4 : Nat) := by
  have h := foldl_adlerStep_lt bytes (1, 0) (by decide)
  simp only [adlerModulus] at h
  simp only [adler32]
  omega

namespace BitReader

variable {s t : BitSource} {current : List Bool} {later rest : List UInt8} {n : Nat}

@[simp] theorem run_pure (a : α) (s : BitSource) :
    (pure a : BitReader α).run s = .ok (a, s) := rfl

theorem run_bind_of_ok {r : BitReader α} {g : α → BitReader β} {a : α}
    (h : r.run s = .ok (a, t)) : (r >>= g).run s = (g a).run t := by
  show (andThen r g).run s = (g a).run t
  simp only [andThen, h]

theorem run_byte (b : UInt8) :
    byte.run { current, later := b :: later } = .ok (b, { current, later }) := rfl

theorem run_repeated_byte (current : List Bool) (bytes rest : List UInt8) :
    (repeated byte bytes.length).run { current, later := bytes ++ rest }
      = .ok (bytes, { current, later := rest }) := by
  induction bytes with
  | nil => rfl
  | cons b bytes ih =>
    rw [List.length_cons, repeated, List.cons_append, run_bind_of_ok (run_byte b),
      run_bind_of_ok ih]
    rfl

theorem run_header (level : Nat) (rest : List UInt8) :
    header.run { later := headerBytes level ++ rest } = .ok ((), { later := rest }) := by
  simp only [headerBytes, effortByte]
  split
  · rfl
  split
  · rfl
  split <;> rfl

/-- The checksum is there where the blocks end, at whatever bit that is. -/
theorem run_checksum (hn : n < 256 ^ (4 : Nat)) :
    checksum.run { current, later := BigEndian.encode 4 n ++ rest }
      = .ok (n, { later := rest }) := by
  have hbytes := run_repeated_byte [] (BigEndian.encode 4 n) rest
  rw [BigEndian.length_encode] at hbytes
  have halign : align.run { current, later := BigEndian.encode 4 n ++ rest }
      = .ok ((), { later := BigEndian.encode 4 n ++ rest }) := rfl
  rw [checksum, run_bind_of_ok halign, run_bind_of_ok hbytes, run_pure, BigEndian.decode_encode,
    Nat.mod_eq_of_lt hn]

theorem run_storedLength (hn : n < 65536) :
    storedLength.run
        { current, later := littleEndian16 n ++ littleEndian16 (65535 - n) ++ rest }
      = .ok (n, { later := rest }) := by
  have hlow : n.toUInt8.toNat = n % 256 := by simp [Nat.toUInt8]
  have hhigh : (n / 256).toUInt8.toNat = n / 256 := by simp [Nat.toUInt8]; omega
  have hinverseLow : (65535 - n).toUInt8.toNat = 255 - n % 256 := by simp [Nat.toUInt8]; omega
  have hinverseHigh : ((65535 - n) / 256).toUInt8.toNat = 255 - n / 256 := by
    simp [Nat.toUInt8]; omega
  have halign (later : List UInt8) :
      align.run { current, later } = .ok ((), { later }) := rfl
  simp only [littleEndian16, List.cons_append, List.nil_append]
  rw [storedLength, run_bind_of_ok (halign _), run_bind_of_ok (run_byte _),
    run_bind_of_ok (run_byte _), run_bind_of_ok (run_byte _), run_bind_of_ok (run_byte _), hlow,
    hhigh, hinverseLow, hinverseHigh]
  have hok : (n % 256 + (255 - n % 256) == 255 && n / 256 + (255 - n / 256) == 255) = true := by
    simp only [Bool.and_eq_true, beq_iff_eq]
    omega
  have hdemand : (demand (n % 256 + (255 - n % 256) == 255 && n / 256 + (255 - n / 256) == 255)).run
      { later := rest } = .ok ((), { later := rest }) := by
    rw [hok]
    rfl
  rw [run_bind_of_ok hdemand, run_pure, show 256 * (n / 256) + n % 256 = n by omega]

/-- The first byte of a stored block tells its kind, and whether it is the last one. -/
theorem run_storedBlock (final : Bool) {data : List UInt8} (rest : List UInt8)
    (h : data.length < 65536) :
    ∃ afterBit,
      bit.run { later := storedBlock final data ++ rest } = .ok (final, afterBit) ∧
      blockStart.run afterBit = .ok (.stored data.length, { later := data ++ rest }) := by
  have hblock : storedBlock final data ++ rest = (if final then 1 else 0) ::
      (littleEndian16 data.length ++ littleEndian16 (65535 - data.length) ++ (data ++ rest)) := by
    simp [storedBlock]
  rw [hblock]
  generalize data ++ rest = later
  refine ⟨{ current := List.replicate 7 false
            later := littleEndian16 data.length ++ littleEndian16 (65535 - data.length)
              ++ later }, ?_, ?_⟩
  · cases final <;> rfl
  · have hkind : (number 2).run
        { current := List.replicate 7 false
          later := littleEndian16 data.length ++ littleEndian16 (65535 - data.length) ++ later }
        = .ok (0, { current := List.replicate 5 false
                    later := littleEndian16 data.length ++ littleEndian16 (65535 - data.length)
                      ++ later }) := rfl
    rw [blockStart, run_bind_of_ok hkind]
    show (storedLength >>= fun n => pure (Phase.stored n)).run _ = _
    rw [run_bind_of_ok (run_storedLength h), run_pure]

end BitReader

/-! ## Stored blocks -/

namespace Inflater

variable {s : Inflater} {data rest tail : List UInt8} {k : Nat}

theorem next_of_blockStart {source afterBit later : BitSource} {output : Array UInt8}
    {was final : Bool} {phase : Phase} (hbit : BitReader.bit.run source = .ok (final, afterBit))
    (hstart : BitReader.blockStart.run afterBit = .ok (phase, later)) :
    next { source, output, final := was, phase := .between }
      = next { source := later, output, final, phase } := by
  rw [next.eq_def]
  dsimp only
  split <;> rename_i hbit' <;> rw [hbit] at hbit' <;> cases hbit'
  split <;> rename_i hstart' <;> rw [hstart] at hstart' <;> cases hstart'
  rfl

theorem next_of_storedEnd {source : BitSource} {output : Array UInt8} :
    next { source, output, final := false, phase := .stored 0 }
      = next { source, output, final := false, phase := .between } := by
  rw [next]
  rfl

theorem next_of_lastStoredEnd {source : BitSource} {output : Array UInt8} :
    next { source, output, final := true, phase := .stored 0 }
      = finish { source, output, final := true, phase := .stored 0 } source := by
  rw [next]
  rfl

theorem next_of_stored {b : UInt8} {left : Nat} {output : Array UInt8} {final : Bool} :
    next { source := { later := b :: rest }, output, final, phase := .stored (left + 1) }
      = .more b { source := { later := rest }, output := output.push b, final
                  phase := .stored left } := by
  rw [next]
  rfl

/-- Within a stored block each byte is given as it is. -/
theorem toCome_stored {output : Array UInt8} {final : Bool} :
    toCome { source := { later := data ++ rest }, output, final, phase := .stored data.length }
      = (toCome { source := { later := rest }, output := output ++ data.toArray, final
                  phase := .stored 0 }).behind data := by
  induction data generalizing output with
  | nil => simp
  | cons b data ih =>
    rw [List.length_cons, List.cons_append, toCome_of_more next_of_stored, ih]
    simp

theorem toCome_storedBlock {output : Array UInt8} {final was : Bool} (h : data.length < 65536) :
    toCome { source := { later := storedBlock final data ++ rest }, output, final := was
             phase := .between }
      = (toCome { source := { later := rest }, output := output ++ data.toArray, final
                  phase := .stored 0 }).behind data := by
  obtain ⟨afterBit, hbit, hstart⟩ := BitReader.run_storedBlock final rest h
  rw [toCome_of_next (next_of_blockStart hbit hstart), toCome_stored]

/-- **Stored blocks give their data** and nothing else. -/
theorem toCome_storedBlocks (data tail : List UInt8) (output : Array UInt8) (was : Bool) :
    toCome
        { source :=
            { later := storedBlocks data
                ++ (BigEndian.encode 4 (adler32 (output.toList ++ data)) ++ tail) }
          output, final := was, phase := .between }
      = { bytes := data } := by
  fun_induction storedBlocks data generalizing output was with
  | case1 data hshort =>
    rw [storedLength] at hshort
    rw [toCome_storedBlock (by omega), toCome_of_complete]
    · simp [Supply.behind]
    · rw [next_of_lastStoredEnd, finish, BitReader.run_checksum (adler32_lt _)]
      simp
  | case2 data hlong ih =>
    have hfull : (data.take storedLength).length = storedLength := by
      rw [List.length_take]
      omega
    have hdata : output.toList ++ data
        = (output ++ (data.take storedLength).toArray).toList ++ data.drop storedLength := by
      simp
    rw [List.append_assoc, toCome_storedBlock (by rw [hfull]; decide),
      toCome_of_next next_of_storedEnd, hdata, ih]
    simp [Supply.behind]

end Inflater

/-! ## Whole streams -/

/-- What compressed data have to give. -/
def supply (data : List UInt8) : Supply := (Reader.ofBytes data).supply

theorem ofBytes_stored (level : Nat) (data tail : List UInt8) :
    Inflater.ofBytes (stored level data ++ tail)
      = .ok { source :=
                { later := storedBlocks data ++ (BigEndian.encode 4 (adler32 data) ++ tail) } } := by
  rw [Inflater.ofBytes, stored, stream, List.append_assoc, List.append_assoc,
    BitReader.run_header]

/-- **A stored stream gives its data**, with anything behind it. -/
theorem supply_stored (level : Nat) (data tail : List UInt8) :
    supply (stored level data ++ tail) = { bytes := data } := by
  have htoCome := Inflater.toCome_storedBlocks data tail #[] false
  rw [List.nil_append] at htoCome
  rw [supply, Reader.ofBytes, ofBytes_stored]
  show (Inflater.toCome _).handedOver.behind [] = _
  rw [htoCome, Supply.behind_nil, Supply.handedOver_of_ne (by simp)]

/-- **Deflated data give what they were**, at every level. -/
theorem supply_deflate (level : Nat) (data : List UInt8) :
    supply (deflate level data) = { bytes := data } := by
  have hstored : supply (stored level data) = { bytes := data } := by
    simpa using supply_stored level data []
  rw [deflate]
  split
  · exact hstored
  · dsimp only
    split
    · rename_i hread
      obtain ⟨hnone, hbytes⟩ := hread
      have hwhole := ((Reader.ofBytes (coded level data)).collects (data.length + 1)).whole
        (Option.isNone_iff_eq_none.1 hnone)
      rw [hbytes] at hwhole
      exact hwhole (Nat.lt_succ_self _)
    · exact hstored

end Zlib

namespace Compression

open Zlib

variable {limit : Nat} {data bytes : List UInt8}

/-- How decompressing ends by what the stream has to give. -/
def ofSupply (limit : Nat) (s : Supply) : Except Fault (List UInt8) :=
  if limit < s.bytes.length then .error (.sizeLimit limit (limit + 1))
  else
    match s.stop? with
    | none => .ok s.bytes
    | some why => .error (.decompression (cause why))

theorem collects_inflated (limit : Nat) (data : List UInt8) :
    (Reader.ofBytes data).Collects (limit + 1) (inflated limit data) :=
  (Reader.ofBytes data).collects (limit + 1)

/-- **What is read under a limit** are the first bytes that the stream has to give, one more than the
limit at most. A stop behind them is met just if they are all and keep the limit. -/
theorem inflated_eq (limit : Nat) (data : List UInt8) :
    (inflated limit data).bytes = (supply data).bytes.take (limit + 1) ∧
      (inflated limit data).stop? =
        if limit < (supply data).bytes.length then none else (supply data).stop? := by
  obtain ⟨hbytes, hstop⟩ := (collects_inflated limit data).eq
  refine ⟨hbytes, hstop.trans ?_⟩
  simp only [Nat.lt_succ_iff, ← Nat.not_lt, ite_not]
  rfl

/-- The outcome is told by what the stream has to give, which no limit changes. -/
theorem outcome_decompress (limit : Nat) (data : List UInt8) :
    (decompress limit data).outcome = ofSupply limit (supply data) := by
  obtain ⟨hbytes, hstop⟩ := inflated_eq limit data
  rw [decompress, ofSupply]
  simp only [hbytes, hstop]
  by_cases h : limit < (supply data).bytes.length
  · have hlength : ((supply data).bytes.take (limit + 1)).length = limit + 1 :=
      List.length_take_of_le h
    simp only [if_pos h, hlength, if_pos (Nat.lt_succ_self limit)]
    rw [Checked.outcome_report_bind]
    rfl
  · have htake : (supply data).bytes.take (limit + 1) = (supply data).bytes :=
      List.take_of_length_le (Nat.le_succ_of_le (Nat.not_lt.1 h))
    simp only [if_neg h, htake]
    rcases (supply data).stop? with _ | why
    · exact Checked.outcome_pure _
    · rfl

/-- What decompresses is all that the data have to give, to their end. -/
theorem supply_of_decompress (h : (decompress limit data).outcome = .ok bytes) :
    supply data = { bytes } ∧ bytes.length ≤ limit := by
  rw [outcome_decompress, ofSupply] at h
  split at h
  · cases h
  · rename_i hlong
    split at h
    · rename_i hstop
      cases h
      exact ⟨by rw [← hstop], Nat.not_lt.1 hlong⟩
    · cases h

/-- Data that give bytes and end decompress to them just under the limits that these keep. -/
theorem decompress_of_supply (h : supply data = { bytes }) (limit : Nat) :
    (decompress limit data).outcome =
      if bytes.length ≤ limit then .ok bytes else .error (.sizeLimit limit (limit + 1)) := by
  rw [outcome_decompress, ofSupply, h]
  simp only [← Nat.not_le, ite_not]

theorem lt_of_sizeLimit {bound actual : Nat}
    (h : (decompress limit data).outcome = .error (.sizeLimit bound actual)) :
    limit < (supply data).bytes.length := by
  rw [outcome_decompress, ofSupply] at h
  split at h
  · assumption
  · split at h <;> cases h

/-- **What was compressed decompresses to itself**, with its own length as the limit. -/
theorem decompress_compress (level : Nat) (data : List UInt8) :
    (decompress data.length (compress level data)).outcome = .ok data := by
  rw [compress, decompress_of_supply (supply_deflate _ data), if_pos (Nat.le_refl _)]

/-- **The limit is exact, and only a limit.** Data have bytes to give, and a stop behind them if it
is not their end. Whatever the limit, one byte more than it allows is read at most; what is read are
the first bytes of those that the data have to give, and the others are still to be read afterwards,
with no more than a window of them inflated. Only the outcome depends on the limit.

So data that decompress under one limit do so, to the same bytes, under every limit that these keep,
and are too long under every other. Data that are too long for one limit are too long for all below
it. What was compressed, at whatever level, decompresses just where it keeps the limit. -/
theorem decompress_exact (data : List UInt8) :
    (∀ limit, (inflated limit data).bytes.length ≤ limit + 1 ∧
      supply data = (inflated limit data).after.supply.behind (inflated limit data).bytes ∧
      (inflated limit data).after.ahead.length ≤ windowLength ∧
      (decompress limit data).outcome = ofSupply limit (supply data)) ∧
    (∀ limit bytes, (decompress limit data).outcome = .ok bytes →
      bytes.length ≤ limit ∧
      ∀ other, (decompress other data).outcome =
        if bytes.length ≤ other then .ok bytes else .error (.sizeLimit other (other + 1))) ∧
    (∀ limit bound actual, (decompress limit data).outcome = .error (.sizeLimit bound actual) →
      ∀ other, other ≤ limit →
        (decompress other data).outcome = .error (.sizeLimit other (other + 1))) ∧
    ∀ limit level, (decompress limit (compress level data)).outcome = .ok data
      ↔ data.length ≤ limit := by
  refine ⟨?_, ?_, ?_, ?_⟩
  · intro limit
    obtain ⟨hsupply, hmost, hahead, -, -⟩ := collects_inflated limit data
    have hnone : (Reader.ofBytes data).ahead.length = 0 := by
      rw [Reader.ofBytes]
      split <;> rfl
    rw [hnone, Nat.zero_max] at hahead
    exact ⟨hmost, hsupply, hahead, outcome_decompress limit data⟩
  · intro limit bytes h
    obtain ⟨hsupply, hle⟩ := supply_of_decompress h
    exact ⟨hle, decompress_of_supply hsupply⟩
  · intro limit bound actual h other hother
    rw [outcome_decompress, ofSupply, if_pos (Nat.lt_of_le_of_lt hother (lt_of_sizeLimit h))]
  · intro limit level
    rw [compress, decompress_of_supply (supply_deflate _ data)]
    split
    · exact ⟨fun _ => ‹_›, fun _ => rfl⟩
    · exact ⟨nofun, fun h => absurd h ‹_›⟩

/-- Two bytes in a stored block, under the limits from three down to none. -/
theorem decompress_exact_two :
    let data : List UInt8 := [0x78, 1, 1, 2, 0, 0xfd, 0xff, 7, 7, 0, 0x17, 0, 0x0f, 9]
    (decompress 3 data).outcome = .ok [7, 7] ∧
      (decompress 2 data).outcome = .ok [7, 7] ∧
      (decompress 1 data).outcome = .error (.sizeLimit 1 2) ∧
      (decompress 0 data).outcome = .error (.sizeLimit 0 1) := by
  intro data
  have hthree : (decompress 3 data).outcome = .ok [7, 7] := by cbv
  obtain ⟨-, hsame, hbelow, -⟩ := decompress_exact data
  obtain ⟨-, hother⟩ := hsame 3 _ hthree
  exact ⟨hthree, hother 2, hother 1, hbelow 1 1 2 (hother 1) 0 (by decide)⟩

end Compression

end PacketStream
