import PacketStream.Zlib.Inflate

/-!
# What a compressed stream has to give

A compressed stream gives a fixed sequence of bytes and then ends, in one way or another.
`Inflater.toCome` is all that an inflater will give, with no bound on it. It is found by taking one
byte after the other, which ends because a byte leaves less to do (`Inflater.isCloser_next`).

A reader works ahead by up to a window, and the bytes of the window in which the stream is found to be
corrupt are never handed over; this is why `Supply.handedOver` knows of windows. `Reader.supply` is
what a reader has to hand over. Reading takes it from the front and loses nothing of it
(`Reader.reads`), so what is collected up to a bound is a prefix (`Reader.collects`, `Collects.eq`).
-/

namespace PacketStream.Zlib

theorem BitReader.size_lt_of_byte {s t : BitSource} {b : UInt8}
    (h : BitReader.byte.run s = .ok (b, t)) : t.size < s.size := by
  simp only [BitReader.byte] at h
  split at h
  · cases h
  · rename_i hlater
    cases h
    simp only [BitSource.size, hlater, List.length_cons]
    omega

/-- What a stream has to give: its bytes, and what stops them where that is not its end. -/
structure Supply where
  bytes : List UInt8 := []
  stop? : Option Stop := none

namespace Supply

/-- The supply with bytes in front. -/
def behind (s : Supply) (front : List UInt8) : Supply := { s with bytes := front ++ s.bytes }

@[simp] theorem bytes_behind (s : Supply) (front : List UInt8) :
    (s.behind front).bytes = front ++ s.bytes := rfl

@[simp] theorem stop?_behind (s : Supply) (front : List UInt8) :
    (s.behind front).stop? = s.stop? := rfl

@[simp] theorem behind_nil (s : Supply) : s.behind [] = s := rfl

@[simp] theorem behind_behind (s : Supply) (front middle : List UInt8) :
    (s.behind middle).behind front = s.behind (front ++ middle) := by
  simp [behind]

/-- What is handed over of a supply. A corruption takes the window with it in which it is found. -/
def handedOver (s : Supply) : Supply :=
  if s.stop? = some .corrupt then
    { s with bytes := s.bytes.take (windowLength * ((s.bytes.length - 1) / windowLength)) }
  else s

theorem handedOver_of_ne {s : Supply} (h : s.stop? ≠ some .corrupt) : s.handedOver = s := if_neg h

/-- Of a single window that is corrupt nothing is handed over. -/
theorem handedOver_of_corrupt {s : Supply} (h : s.stop? = some .corrupt)
    (hshort : s.bytes.length ≤ windowLength) : s.handedOver = { stop? := some .corrupt } := by
  have hnone : (s.bytes.length - 1) / windowLength = 0 := by
    simp only [windowLength] at hshort ⊢
    omega
  rw [handedOver, if_pos h, hnone, h]
  rfl

/-- A whole window is handed over, if the supply goes on behind it. -/
theorem handedOver_behind (s : Supply) {front : List UInt8} (hfront : front.length = windowLength)
    (hmore : 0 < s.bytes.length) : (s.behind front).handedOver = s.handedOver.behind front := by
  by_cases h : s.stop? = some .corrupt
  · have hwindows : windowLength * ((front.length + s.bytes.length - 1) / windowLength)
        = front.length + windowLength * ((s.bytes.length - 1) / windowLength) := by
      simp only [hfront, windowLength]
      omega
    simp only [handedOver, stop?_behind, if_pos h, bytes_behind, List.length_append, hwindows,
      List.take_length_add_append]
    rfl
  · rw [handedOver_of_ne h, handedOver_of_ne (by exact h)]

end Supply

namespace Inflater

variable {s t after : Inflater}

/-! ## One byte -/

/-- The number of bytes that a copy is known to give. -/
def pending (s : Inflater) : Nat :=
  match s.phase with
  | .copying _ left _ => left + 1
  | _ => 0

/-- Whether less is left to do, in the source or else in a copy. -/
def Closer (t s : Inflater) : Prop :=
  t.source.size < s.source.size ∨ t.source.size = s.source.size ∧ t.pending < s.pending

/-- Behind a byte that comes next, less is left to do. -/
def IsCloser (s : Inflater) : Progress → Prop
  | .more _ after => after.Closer s
  | _ => True

/-- Where an inflater reads on without a byte, what it goes to is what comes next of it. -/
theorem IsCloser.of_readOn {p : Progress} (h : t.IsCloser p)
    (hsource : t.source.size < s.source.size ∨
      t.source.size = s.source.size ∧ t.pending ≤ s.pending) : s.IsCloser p := by
  cases p with
  | more b after =>
    simp only [IsCloser, Closer] at h ⊢
    omega
  | complete => trivial
  | stopped why => trivial

theorem isCloser_finish (s : Inflater) (source : BitSource) : s.IsCloser (s.finish source) := by
  rw [finish]
  split
  · trivial
  · split
    · trivial
    · trivial

theorem isCloser_emit {b : UInt8} {source : BitSource} {phase : Phase}
    (h : source.size < s.source.size) : s.IsCloser (s.emit b source phase) := .inl h

/-- **Each byte leaves less to do.** -/
theorem isCloser_next (s : Inflater) : s.IsCloser s.next := by
  fun_induction next s with
  | case1 | case2 | case6 | case8 => trivial
  | case3 s hphase final afterBit hbit phase source hstart hlt ih => exact ih.of_readOn (.inl hlt)
  | case4 | case11 => exact isCloser_finish _ _
  | case5 s hphase hfinal ih => exact ih.of_readOn (.inr ⟨rfl, Nat.zero_le _⟩)
  | case7 s left hphase b source hbyte => exact isCloser_emit (BitReader.size_lt_of_byte hbyte)
  | case9 s codes hphase b source hcommand =>
    exact isCloser_emit (BitReader.size_lt_of_command hcommand)
  | case10 s codes hphase length distance source hcommand =>
    exact isCloser_emit (BitReader.size_lt_of_command hcommand)
  | case12 s codes hphase source hcommand hfinal hlt ih => exact ih.of_readOn (.inl hlt)
  | case13 s codes left distance hphase =>
    refine .inr ⟨rfl, ?_⟩
    -- a copy is left with its last byte
    by_cases hlast : left - 1 = 0
    · simp [pending, hphase, hlast]
    · simp only [pending, hphase, if_neg hlast]
      omega

theorem closer_of_more {b : UInt8} (h : s.next = .more b after) : after.Closer s := by
  have hcloser := s.isCloser_next
  rwa [h] at hcloser

/-! ## All bytes -/

/-- All that is to come of a stream. -/
def toCome (s : Inflater) : Supply :=
  match hnext : s.next with
  | .complete => {}
  | .stopped why => { stop? := some why }
  | .more b after =>
    have := closer_of_more hnext
    after.toCome.behind [b]
termination_by (s.source.size, s.pending)
decreasing_by exact Prod.lex_def.2 this

theorem toCome_of_complete (h : s.next = .complete) : s.toCome = {} := by
  rw [toCome]
  split <;> simp_all

theorem toCome_of_stopped {why : Stop} (h : s.next = .stopped why) :
    s.toCome = { stop? := some why } := by
  rw [toCome]
  split <;> simp_all

theorem toCome_of_more {b : UInt8} (h : s.next = .more b after) :
    s.toCome = after.toCome.behind [b] := by
  rw [toCome]
  split <;> simp_all

/-- What is to come hangs on what comes next. -/
theorem toCome_of_next (h : s.next = t.next) : s.toCome = t.toCome := by
  rcases hnext : t.next with ⟨b, after⟩ | _ | why
  · rw [toCome_of_more (h.trans hnext), toCome_of_more hnext]
  · rw [toCome_of_complete (h.trans hnext), toCome_of_complete hnext]
  · rw [toCome_of_stopped (h.trans hnext), toCome_of_stopped hnext]

end Inflater

/-! ## Windows -/

/-- What is to come behind the bytes that have been inflated. -/
def Behind.supply : Behind → Supply
  | more s => s.toCome
  | nothing => {}
  | stopped why => { stop? := some why }

/-- Whether a stream goes on. -/
def Behind.goesOn : Behind → Bool
  | more _ => true
  | _ => false

namespace Inflater

/-- **A window** is the next part of a stream, either all that is left of it or as many bytes as the
window may have, with more behind them. -/
theorem window_cases (s : Inflater) (done : List UInt8) (more : Nat) :
    ∃ bytes behind, s.window done more = { ahead := done.reverse ++ bytes, behind } ∧
      s.toCome = behind.supply.behind bytes ∧ bytes.length ≤ more ∧
      (behind.goesOn = true → bytes.length = more ∧ 0 < behind.supply.bytes.length) := by
  induction more generalizing s done with
  | zero =>
    rcases hnext : s.next with ⟨b, after⟩ | _ | why
    · refine ⟨[], .more s, by simp [window, hnext], rfl, Nat.le_refl _, fun _ => ⟨rfl, ?_⟩⟩
      simp [Behind.supply, toCome_of_more hnext]
    · exact ⟨[], .nothing, by simp [window, hnext], toCome_of_complete hnext, Nat.le_refl _, nofun⟩
    · exact ⟨[], .stopped why, by simp [window, hnext], toCome_of_stopped hnext, Nat.le_refl _,
        nofun⟩
  | succ more ih =>
    rcases hnext : s.next with ⟨b, after⟩ | _ | why
    · obtain ⟨bytes, behind, hwindow, htoCome, hlength, hgoesOn⟩ := ih after (b :: done)
      refine ⟨b :: bytes, behind, ?_, ?_, Nat.succ_le_succ hlength, fun h => ?_⟩
      · simp [window, hnext, hwindow]
      · rw [toCome_of_more hnext, htoCome]
        rfl
      · exact ⟨congrArg (· + 1) (hgoesOn h).1, (hgoesOn h).2⟩
    · exact ⟨[], .nothing, by simp [window, hnext], toCome_of_complete hnext, Nat.zero_le _, nofun⟩
    · exact ⟨[], .stopped why, by simp [window, hnext], toCome_of_stopped hnext, Nat.zero_le _,
        nofun⟩

end Inflater

/-! ## Reading -/

namespace Reader

/-- What a reader has to hand over. -/
def supply (r : Reader) : Supply := r.behind.supply.handedOver.behind r.ahead

theorem supply_stopped (why : Stop) : ({ behind := .stopped why } : Reader).supply
    = { stop? := some why } := by
  by_cases h : why = .corrupt
  · subst h
    rfl
  · exact Supply.handedOver_of_ne (by simpa [Behind.supply] using h)

theorem fill_of_ahead {r : Reader} (h : r.ahead ≠ [] ∨ r.behind.goesOn = false) : r.fill = r := by
  obtain ⟨ahead, behind⟩ := r
  rcases behind with s | _ | why
  · rcases ahead with _ | ⟨b, ahead⟩
    · simp [Behind.goesOn] at h
    · rfl
  · rw [fill]
    nofun
  · rw [fill]
    nofun

/-- Filling a reader inflates the next window, and drops it where it is found to be corrupt. -/
theorem fill_of_more (s : Inflater) :
    ∃ bytes behind, s.toCome = behind.supply.behind bytes ∧ bytes.length ≤ windowLength ∧
      (behind.goesOn = true → bytes.length = windowLength ∧ 0 < behind.supply.bytes.length) ∧
      (behind = .stopped .corrupt ∧
          fill { behind := .more s } = { behind := .stopped .corrupt } ∨
        behind ≠ .stopped .corrupt ∧ fill { behind := .more s } = { ahead := bytes, behind }) := by
  obtain ⟨bytes, behind, hwindow, htoCome, hlength, hgoesOn⟩ := s.window_cases [] windowLength
  refine ⟨bytes, behind, htoCome, hlength, hgoesOn, ?_⟩
  simp only [List.reverse_nil, List.nil_append] at hwindow
  simp only [fill, hwindow]
  split
  · exact .inl ⟨by simp_all, rfl⟩
  · exact .inr ⟨by simp_all, rfl⟩

/-- **Inflating ahead** changes nothing of what is handed over. It inflates a window at most, and
gives bytes unless the stream ends. -/
theorem fill_supply (r : Reader) :
    r.fill.supply = r.supply ∧ (r.fill.ahead = [] → r.fill.behind.goesOn = false) ∧
      r.fill.ahead.length ≤ max r.ahead.length windowLength := by
  by_cases h : r.ahead ≠ [] ∨ r.behind.goesOn = false
  · rw [fill_of_ahead h]
    exact ⟨rfl, fun hempty => h.resolve_left (not_not_intro hempty), Nat.le_max_left _ _⟩
  obtain ⟨ahead, behind⟩ := r
  obtain ⟨rfl, s, rfl⟩ : ahead = [] ∧ ∃ s, behind = .more s := by
    cases behind <;> simp_all [Behind.goesOn]
  obtain ⟨bytes, behind, htoCome, hlength, hgoesOn, ⟨rfl, hfill⟩ | ⟨hne, hfill⟩⟩ := fill_of_more s
  · rw [hfill, supply_stopped, supply, Behind.supply, htoCome,
      Supply.handedOver_of_corrupt rfl (by simpa [Behind.supply] using hlength)]
    exact ⟨rfl, fun _ => rfl, Nat.zero_le _⟩
  · rw [hfill]
    refine ⟨?_, ?_, Nat.le_trans hlength (Nat.le_max_right _ _)⟩
    · show behind.supply.handedOver.behind bytes = s.toCome.handedOver
      rw [htoCome]
      cases hwhat : behind.goesOn with
      | true => rw [Supply.handedOver_behind _ (hgoesOn hwhat).1 (hgoesOn hwhat).2]
      | false =>
        have hcorrupt : behind.supply.stop? ≠ some .corrupt := by
          rcases behind with _ | _ | why
          · cases hwhat
          · nofun
          · simpa [Behind.supply] using hne
        rw [Supply.handedOver_of_ne hcorrupt, Supply.handedOver_of_ne (by exact hcorrupt)]
    · rintro rfl
      cases hwhat : behind.goesOn with
      | true => cases (hgoesOn hwhat).1
      | false => rfl

/-- Where a stream ends with nothing inflated, the end is all that is left. -/
theorem supply_of_end {behind : Behind} (h : behind.goesOn = false) :
    ({ behind } : Reader).supply = behind.supply := by
  rcases behind with s | _ | why
  · cases h
  · rfl
  · exact supply_stopped why

/-- How a call ends that asks for at most `most` bytes: it gives the bytes that come next, which are
none only at the end of the stream, or it finds the stream stopped. -/
inductive Reads (r : Reader) (most : Nat) : Except Stop (List UInt8) × Reader → Prop
  | bytes {chunk : List UInt8} {after : Reader} (supply : r.supply = after.supply.behind chunk)
      (le_most : chunk.length ≤ most)
      (ahead_le : after.ahead.length ≤ max r.ahead.length windowLength)
      (of_nil : chunk = [] → 0 < most → after.supply = {}) : Reads r most (.ok chunk, after)
  | stopped {why : Stop} (supply : r.supply = { stop? := some why }) :
      Reads r most (.error why, { behind := .stopped why })

/-- **A call loses nothing**: what it does not give is still to be handed over. -/
theorem reads (r : Reader) (most : Nat) : r.Reads most (r.read most) := by
  obtain ⟨hsupply, hend, hahead⟩ := r.fill_supply
  rw [read]
  generalize r.fill = filled at hsupply hend hahead
  split
  · rename_i why
    exact .stopped (hsupply ▸ supply_stopped why)
  · rename_i ahead behind hopen
    refine .bytes ?_ (List.length_take_le _ _) ?_ fun hnil hmost => ?_
    · rw [← hsupply, supply, supply, Supply.behind_behind, List.take_append_drop]
    · exact Nat.le_trans (List.drop_sublist _ _).length_le hahead
    · obtain rfl : ahead = [] := by
        cases ahead with
        | nil => rfl
        | cons b ahead => simp [Nat.pos_iff_ne_zero.1 hmost] at hnil
      have hstop := hend rfl
      rw [List.drop_nil, supply_of_end hstop]
      rcases behind with s | _ | why
      · cases hstop
      · rfl
      · exact (hopen why rfl rfl).elim

/-- What comes of reading a stream up to a bound. -/
structure Collects (r : Reader) (most : Nat) (c : Collected) : Prop where
  supply : r.supply = c.after.supply.behind c.bytes
  le_most : c.bytes.length ≤ most
  ahead_le : c.after.ahead.length ≤ max r.ahead.length windowLength
  of_stop : ∀ why, c.stop? = some why →
    c.bytes.length < most ∧ c.after.supply = { stop? := some why }
  of_none : c.stop? = none → c.bytes.length = most ∨ c.after.supply = {}

/-- Bytes of one call, and what is collected after it. -/
theorem Collects.behind {r after : Reader} {most : Nat} {chunk : List UInt8} {c : Collected}
    (hsupply : r.supply = after.supply.behind chunk) (hmost : chunk.length ≤ most)
    (hahead : after.ahead.length ≤ max r.ahead.length windowLength)
    (h : after.Collects (most - chunk.length) c) :
    r.Collects most { c with bytes := chunk ++ c.bytes } where
  supply := by rw [hsupply, h.supply, Supply.behind_behind]
  le_most := by
    have := h.le_most
    rw [List.length_append]
    omega
  ahead_le := by
    have := h.ahead_le
    show c.after.ahead.length ≤ _
    omega
  of_stop why hstop := by
    obtain ⟨hlt, hafter⟩ := h.of_stop why hstop
    refine ⟨?_, hafter⟩
    rw [List.length_append]
    omega
  of_none hnone := by
    refine (h.of_none hnone).imp_left fun hlength => ?_
    rw [List.length_append]
    omega

/-- **Reading up to a bound** takes so many bytes from the front of the supply, or all of them, and
leaves the rest. -/
theorem collects (r : Reader) (most : Nat) : r.Collects most (r.collect most) := by
  fun_induction collect most r with
  | case1 r => exact ⟨rfl, Nat.le_refl _, Nat.le_max_left _ _, nofun, fun _ => .inl rfl⟩
  | case2 most r hmost why after hread =>
    cases hread ▸ r.reads most with
    | stopped supply =>
      refine ⟨?_, Nat.zero_le _, Nat.zero_le _, fun other hother => ?_, nofun⟩
      · rw [supply, supply_stopped, Supply.behind_nil]
      · cases hother
        exact ⟨Nat.pos_of_ne_zero hmost, supply_stopped why⟩
  | case3 most r hmost chunk after hread hnil =>
    cases hread ▸ r.reads most with
    | bytes supply le_most ahead_le of_nil =>
      obtain rfl := List.isEmpty_iff.1 hnil
      exact ⟨supply, Nat.zero_le _, ahead_le, nofun,
        fun _ => .inr (of_nil rfl (Nat.pos_of_ne_zero hmost))⟩
  | case4 most r hmost chunk after hread hsome later ih =>
    cases hread ▸ r.reads most with
    | bytes supply le_most ahead_le of_nil => exact ih.behind supply le_most ahead_le

/-- The bytes of a collection are the first ones of the supply. It is stopped only where the supply
is, short of the bound. -/
theorem Collects.eq {r : Reader} {most : Nat} {c : Collected} (h : r.Collects most c) :
    c.bytes = r.supply.bytes.take most ∧
      c.stop? = if r.supply.bytes.length < most then r.supply.stop? else none := by
  have hle := h.le_most
  rw [h.supply]
  rcases hstop : c.stop? with _ | why
  · obtain hlength | hafter := h.of_none hstop
    · subst hlength
      simp [Nat.not_lt.2 (Nat.le_add_right _ _)]
    · simp [hafter, List.take_of_length_le hle]
  · obtain ⟨hlt, hafter⟩ := h.of_stop why hstop
    simp [hafter, hlt, List.take_of_length_le hle]

/-- What is collected short of the bound, with no stop, is all that the stream has to give. -/
theorem Collects.whole {r : Reader} {most : Nat} {c : Collected} (h : r.Collects most c)
    (hnone : c.stop? = none) (hshort : c.bytes.length < most) : r.supply = { bytes := c.bytes } := by
  have hafter := (h.of_none hnone).resolve_left (Nat.ne_of_lt hshort)
  rw [h.supply, hafter, Supply.behind, List.append_nil]

end Reader

end PacketStream.Zlib
