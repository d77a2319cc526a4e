import Mathlib
import PacketStream.Buffer.Shape
import PacketStream.Proofs.Outcome
import PacketStream.Proofs.Varint.Prefix

/-!
# What a read may look at and what it may move

Three laws of the reads of single values. A read that fails leaves the buffer as it was. A read
that succeeds takes some bytes off the front, and its value hangs on these bytes and the limit for
strings alone (`Get.Follows`). And more bytes behind the buffer can only make up for bytes that were
wanting: every other outcome stays (`Get.Settled`).

The last two laws hold of whatever is made of reads that obey them, so they are proved for the parts
and lifted through `bind`. The first is not of this kind, since the second of two reads may fail when
the first has moved the cursor: it holds because a read of more than one part puts the cursor back.
`Get.Robust` has the three laws together, and `robust_get` says that they hold of every read of so
many bytes and of every shape but the optional one.
-/

namespace PacketStream

variable {α β : Type}

namespace Get

/-! ## The laws -/

/-- Where `g` succeeds, it takes bytes off the front, and `g'` gives the same value and takes the
same bytes wherever these stand in front under the same limit for strings. -/
def Follows (g g' : Get α) : Prop :=
  ∀ ⦃b after : Buffer⦄ ⦃a : α⦄, b.get g = (.ok a, after) →
    ∃ n, n ≤ b.remaining ∧ after = b.advance n ∧
      ∀ other : Buffer, other.textLimit = b.textLimit → n ≤ other.remaining →
        other.unread.take n = b.unread.take n → other.get g' = (.ok a, other.advance n)

/-- What a read of the buffer has come to, and that more bytes would not change it: a value, a
fault of the bytes that are there, or the want of bytes, of which nothing is said. -/
inductive Settled (g : Get α) (b : Buffer) : Except Fault α × Buffer → Prop
  | value {a : α} {after : Buffer}
      (keeps : ∀ more, (b.append more).get g = (.ok a, after.append more)) :
      Settled g b (.ok a, after)
  | malformed {cause : Malformation} {after : Buffer}
      (keeps : ∀ more, (b.append more).get g = (.error (.malformed cause), after.append more)) :
      Settled g b (.error (.malformed cause), after)
  | wanting {offset requested available : Nat} {after : Buffer} :
      Settled g b (.error (.insufficientData offset requested available), after)

/-- The two laws that hold of whatever is made of reads that obey them. -/
structure Lawful (g g' : Get α) : Prop where
  /-- A value hangs on the bytes that it was read from. -/
  follows : g.Follows g'
  /-- More bytes make up for bytes that were wanting, and change nothing else. -/
  settled : ∀ b : Buffer, g.Settled b (b.get g)

/-- The laws of a read of a single value. -/
structure Robust (g : Get α) : Prop extends Lawful g g where
  /-- A read that fails moves nothing. -/
  restores : ∀ ⦃b after : Buffer⦄ ⦃e : Fault⦄, b.get g = (.error e, after) → after = b

/-! ## Values hang on the bytes that are taken -/

theorem Follows.pure (a : α) : Follows (Pure.pure a) (Pure.pure a) := by
  intro b after a' h
  cases h
  refine ⟨0, Nat.zero_le _, Buffer.advance_zero.symm, ?_⟩
  intro other _ _ _
  simp

/-- **What is made of two reads hangs on the bytes that the two take.** -/
theorem Follows.bind {x x' : Get α} {f f' : α → Get β} (hx : x.Follows x')
    (hf : ∀ a, (f a).Follows (f' a)) : (x >>= f).Follows (x' >>= f') := by
  intro b last c h
  obtain ⟨a, mid, hfirst, hsecond⟩ := Buffer.get_bind_ok h
  obtain ⟨m, hm, rfl, hmsame⟩ := hx hfirst
  obtain ⟨n, hn, rfl, hnsame⟩ := hf a hsecond
  rw [Buffer.remaining_advance] at hn
  refine ⟨m + n, by omega, Buffer.advance_advance m n, ?_⟩
  intro other hlimit hlong hbytes
  have hfront : other.unread.take m = b.unread.take m := by
    have := congrArg (List.take m) hbytes
    simpa [List.take_take] using this
  have hback : (other.advance m).unread.take n = (b.advance m).unread.take n := by
    have := congrArg (List.drop m) hbytes
    simpa [List.drop_take, Buffer.advance] using this
  rw [Buffer.get_bind_of_ok (hmsame other hlimit (by omega) hfront),
    hnsame (other.advance m) hlimit (by rw [Buffer.remaining_advance]; omega) hback,
    Buffer.advance_advance]

/-- Where a read stands makes no difference, if what it does there follows what it does
elsewhere. -/
theorem Follows.position {f f' : Nat → Get α} (hf : ∀ o o', (f o).Follows (f' o')) :
    (position >>= f).Follows (position >>= f') := by
  intro b after a h
  rw [Buffer.get_bind_of_ok (Buffer.get_position b)] at h
  obtain ⟨n, hn, hafter, hsame⟩ := hf b.position 0 h
  refine ⟨n, hn, hafter, ?_⟩
  intro other hlimit hlong hbytes
  obtain ⟨m, hm, hmafter, hmsame⟩ := hf b.position other.position h
  rw [Buffer.get_bind_of_ok (Buffer.get_position other)]
  obtain rfl : n = m := by
    have hlength := congrArg Buffer.position (hafter.symm.trans hmafter)
    rw [Buffer.position_advance hn, Buffer.position_advance hm] at hlength
    omega
  exact hmsame other hlimit hlong hbytes

theorem Follows.textLimit : Follows textLimit textLimit := by
  intro b after a h
  cases h
  refine ⟨0, Nat.zero_le _, Buffer.advance_zero.symm, ?_⟩
  intro other hlimit _ _
  rw [Buffer.get_textLimit, hlimit, Buffer.advance_zero]

theorem Follows.restoring {g g' : Get α} (h : g.Follows g') : g.restoring.Follows g'.restoring := by
  intro b after a hok
  obtain ⟨n, hn, hafter, hsame⟩ := h (Buffer.get_of_restoring hok)
  refine ⟨n, hn, hafter, ?_⟩
  intro other hlimit hlong hbytes
  exact Buffer.get_restoring_of_ok (hsame other hlimit hlong hbytes)

theorem follows_take (n : Nat) : (take n).Follows (take n) := by
  intro b after a h
  rw [Buffer.get_take] at h
  split at h
  · cases h
  · rename_i hlong
    cases h
    refine ⟨n, Nat.not_lt.1 hlong, rfl, ?_⟩
    intro other _ hother hbytes
    rw [Buffer.get_take, if_neg (Nat.not_lt.2 hother), hbytes]

theorem follows_varuint (bits : Nat) : (varuint bits).Follows (varuint bits) := by
  intro b after a h
  rw [Buffer.get_varuint] at h
  rcases hdecode : Varint.decode bits b.unread with refusal | (_ | ⟨value, size⟩) <;>
    rw [hdecode] at h
  · cases h
  · cases h
  · cases h
    have hbits : 0 < bits := Varint.pos_of_decode (by rw [hdecode]; simp)
    refine ⟨size, (Varint.decode_bounds hbits hdecode).2.1, rfl, ?_⟩
    intro other _ _ hbytes
    -- the bytes of the varint stand in front, and they alone are decoded
    have htaken := Varint.decode_take_size hbits hdecode
    have hother := Varint.decode_append_of_some hbits htaken (other.unread.drop size)
    rw [← hbytes, List.take_append_drop] at hother
    rw [Buffer.get_varuint, hother]

theorem follows_ascii : ascii.Follows ascii := by
  intro b after s h
  rcases Buffer.split_at_zero b.unread with hnone | ⟨chars, rest, hnonzero, hunread⟩
  · rw [Buffer.get_ascii_of_nonzero hnone] at h
    cases h
  · rw [Buffer.get_ascii_of_zero hnonzero hunread] at h
    split at h
    · rename_i hall
      cases h
      refine ⟨chars.length + 1, by simp [Buffer.remaining, hunread], rfl, ?_⟩
      intro other _ hother hbytes
      have hfront : other.unread.take (chars.length + 1) = chars ++ [0] := by
        rw [hbytes, hunread, List.append_cons]
        exact List.take_left' (by simp)
      have hsplit : other.unread = chars ++ 0 :: other.unread.drop (chars.length + 1) := by
        rw [← List.singleton_append, ← List.append_assoc, ← hfront, List.take_append_drop]
      rw [Buffer.get_ascii_of_zero hnonzero hsplit, if_pos hall]
    · cases h

/-! ## More bytes -/

/-- **What is made of two reads is settled where both are.** -/
theorem Settled.bind {x : Get α} {f : α → Get β} {b : Buffer} (hx : x.Settled b (b.get x))
    (hf : ∀ a after, (f a).Settled after (after.get (f a))) :
    (x >>= f).Settled b (b.get (x >>= f)) := by
  rw [Buffer.get_bind]
  cases hfirst : b.get x with
  | mk result after =>
    rw [hfirst] at hx
    cases hx with
    | @value a _ keeps =>
      dsimp only
      have hnext := hf a after
      cases hsecond : after.get (f a) with
      | mk last final =>
        rw [hsecond] at hnext
        cases hnext with
        | value keeps' =>
          refine .value fun more => ?_
          rw [Buffer.get_bind_of_ok (keeps more), keeps']
        | malformed keeps' =>
          refine .malformed fun more => ?_
          rw [Buffer.get_bind_of_ok (keeps more), keeps']
        | wanting => exact .wanting
    | malformed keeps =>
      refine .malformed fun more => ?_
      rw [Buffer.get_bind, keeps]
    | wanting => exact .wanting

theorem Settled.restoring {g : Get α} {b : Buffer} (h : g.Settled b (b.get g)) :
    g.restoring.Settled b (b.get g.restoring) := by
  rw [Buffer.get_restoring]
  cases hget : b.get g with
  | mk result after =>
    rw [hget] at h
    cases h with
    | value keeps =>
      refine .value fun more => ?_
      rw [Buffer.get_restoring, keeps]
    | malformed keeps =>
      refine .malformed fun more => ?_
      rw [Buffer.get_restoring, keeps]
    | wanting => exact .wanting

theorem settled_take (n : Nat) (b : Buffer) : (take n).Settled b (b.get (take n)) := by
  rw [Buffer.get_take]
  split
  · exact .wanting
  · rename_i hlong
    have hn : n ≤ b.remaining := Nat.not_lt.1 hlong
    refine .value fun more => ?_
    rw [Buffer.get_take, Buffer.advance_append hn]
    simp only [Buffer.remaining] at hn ⊢
    simp only [Buffer.append, List.length_append, List.take_append_of_le_length hn]
    rw [if_neg (by omega)]

theorem settled_varuint (bits : Nat) (b : Buffer) :
    (varuint bits).Settled b (b.get (varuint bits)) := by
  rw [Buffer.get_varuint]
  rcases hdecode : Varint.decode bits b.unread with refusal | (_ | ⟨value, size⟩)
  · have hbits : 0 < bits := Varint.pos_of_decode (by rw [hdecode]; simp)
    refine .malformed fun more => ?_
    have hmore := Varint.decode_append_of_error hbits hdecode more
    rw [Buffer.get_varuint]
    simp only [Buffer.append, hmore]
  · exact .wanting
  · have hbits : 0 < bits := Varint.pos_of_decode (by rw [hdecode]; simp)
    have hsize : size ≤ b.remaining := (Varint.decode_bounds hbits hdecode).2.1
    refine .value fun more => ?_
    have hmore := Varint.decode_append_of_some hbits hdecode more
    rw [Buffer.get_varuint, ← Buffer.advance_append hsize]
    simp only [Buffer.append, hmore]

theorem settled_ascii (b : Buffer) : ascii.Settled b (b.get ascii) := by
  rcases Buffer.split_at_zero b.unread with hnone | ⟨chars, rest, hnonzero, hunread⟩
  · rw [Buffer.get_ascii_of_nonzero hnone]
    exact .wanting
  · have hmore (more : List UInt8) : (b.append more).unread = chars ++ 0 :: (rest ++ more) := by
      simp [Buffer.append, hunread]
    rw [Buffer.get_ascii_of_zero hnonzero hunread]
    split
    · rename_i hall
      have hlong : chars.length + 1 ≤ b.remaining := by simp [Buffer.remaining, hunread]
      refine .value fun more => ?_
      rw [Buffer.get_ascii_of_zero hnonzero (hmore more), if_pos hall, Buffer.advance_append hlong]
    · rename_i hall
      refine .malformed fun more => ?_
      rw [Buffer.get_ascii_of_zero hnonzero (hmore more), if_neg hall]
      rfl

/-! ## Both laws -/

theorem lawful_pure (a : α) : Lawful (Pure.pure a) (Pure.pure a) where
  follows := Follows.pure a
  settled _ := .value fun _ => rfl

theorem lawful_malformed (cause cause' : Malformation) :
    Lawful (malformed cause : Get α) (malformed cause') where
  follows := by
    intro b after a h
    cases h
  settled _ := .malformed fun _ => rfl

theorem lawful_textLimit : Lawful textLimit textLimit where
  follows := Follows.textLimit
  settled _ := .value fun _ => rfl

theorem lawful_take (n : Nat) : (take n).Lawful (take n) where
  follows := follows_take n
  settled := settled_take n

theorem Lawful.bind {x x' : Get α} {f f' : α → Get β} (hx : x.Lawful x')
    (hf : ∀ a, (f a).Lawful (f' a)) : (x >>= f).Lawful (x' >>= f') where
  follows := hx.follows.bind fun a => (hf a).follows
  settled b := (hx.settled b).bind fun a => (hf a).settled

/-- A read may look where it stands, if it makes no difference to what it reads. -/
theorem Lawful.position {f f' : Nat → Get α} (hf : ∀ o o', (f o).Lawful (f' o')) :
    (position >>= f).Lawful (position >>= f') where
  follows := Follows.position fun o o' => (hf o o').follows
  settled _ := Settled.bind (.value fun _ => rfl) fun o => (hf o o).settled

/-! ## The reads of single values -/

theorem robust_take (n : Nat) : (take n).Robust where
  toLawful := lawful_take n
  restores := by
    intro b after e h
    rw [Buffer.get_take] at h
    split at h
    · cases h
      rfl
    · cases h

theorem robust_varuint (bits : Nat) : (varuint bits).Robust where
  follows := follows_varuint bits
  settled := settled_varuint bits
  restores := by
    intro b after e h
    rw [Buffer.get_varuint] at h
    rcases hdecode : Varint.decode bits b.unread with refusal | (_ | ⟨value, size⟩) <;>
      rw [hdecode] at h <;> cases h <;> rfl

theorem robust_ascii : ascii.Robust where
  follows := follows_ascii
  settled := settled_ascii
  restores := by
    intro b after e h
    rcases Buffer.split_at_zero b.unread with hnone | ⟨chars, rest, hnonzero, hunread⟩
    · rw [Buffer.get_ascii_of_nonzero hnone] at h
      cases h
      rfl
    · rw [Buffer.get_ascii_of_zero hnonzero hunread] at h
      split at h
      · cases h
      · cases h
        rfl

/-- What is done with the value afterwards neither moves anything nor fails. -/
theorem Robust.andPure {g : Get α} (h : g.Robust) (f : α → β) :
    (g >>= fun a => Pure.pure (f a)).Robust where
  toLawful := h.bind fun a => lawful_pure (f a)
  restores := by
    intro b after e herror
    rw [Buffer.get_bind] at herror
    split at herror
    · cases herror
    · rename_i hget
      cases herror
      exact h.restores hget

/-- A read that puts the cursor back moves nothing when it fails. -/
theorem robust_restoring {g : Get α} (h : g.Lawful g) : g.restoring.Robust where
  follows := h.follows.restoring
  settled b := (h.settled b).restoring
  restores := by
    intro b after e herror
    rw [Buffer.get_restoring] at herror
    split at herror
    · cases herror
    · cases herror
      rfl

theorem robust_bigEndian (width : Nat) : (bigEndian width).Robust :=
  (robust_take width).andPure BigEndian.decode

theorem robust_byte : byte.Robust := (robust_bigEndian 1).andPure Nat.toUInt8

theorem robust_varint : varint.Robust :=
  (robust_varuint 32).andPure fun n => n.toUInt32.toInt32

theorem robust_bool : bool.Robust := by
  refine robust_restoring (Lawful.position fun o o' => robust_byte.bind fun _ => ?_)
  split
  · exact lawful_pure false
  split
  · exact lawful_pure true
  · exact lawful_malformed _ _

theorem robust_byteArray : byteArray.Robust := by
  refine robust_restoring (Lawful.position fun o o' => robust_varint.bind fun n => ?_)
  dsimp only
  split
  · exact lawful_malformed _ _
  · exact lawful_take _

/-- **Reading a string is robust**, at each of the places where it can fail. -/
theorem robust_text : text.Robust := by
  refine robust_restoring (Lawful.position fun o o' => robust_varint.bind fun n =>
    lawful_textLimit.bind fun limit => ?_)
  split
  · exact lawful_malformed _ _
  split
  · exact lawful_malformed _ _
  refine (lawful_take _).bind fun bytes => ?_
  split
  · exact lawful_malformed _ _
  split
  · exact lawful_malformed _ _
  · exact lawful_pure _

end Get

/-- The shapes of single values: all but the optional ones, which have a value inside. -/
def Shape.IsSingle : Shape → Prop
  | optional _ => False
  | _ => True

/-- Every shape of a single value is read robustly. -/
theorem Shape.robust_get {s : Shape} (h : s.IsSingle) : s.get.Robust := by
  cases s with
  | bool => exact Get.robust_bool
  | u8 => exact Get.robust_byte
  | i8 => exact Get.robust_byte.andPure UInt8.toInt8
  | u16 => exact (Get.robust_bigEndian 2).andPure Nat.toUInt16
  | i16 => exact (Get.robust_bigEndian 2).andPure fun n => n.toUInt16.toInt16
  | u32 => exact (Get.robust_bigEndian 4).andPure Nat.toUInt32
  | i32 => exact (Get.robust_bigEndian 4).andPure fun n => n.toUInt32.toInt32
  | u64 => exact (Get.robust_bigEndian 8).andPure Nat.toUInt64
  | i64 => exact (Get.robust_bigEndian 8).andPure fun n => n.toUInt64.toInt64
  | single => exact (Get.robust_bigEndian 4).andPure fun n => Single.mk n.toUInt32
  | double => exact (Get.robust_bigEndian 8).andPure fun n => Double.mk n.toUInt64
  | varshort => exact (Get.robust_varuint 16).andPure fun n => n.toUInt16.toInt16
  | varint => exact Get.robust_varint
  | varlong => exact (Get.robust_varuint 64).andPure UInt64.toInt64
  | varuint bits => exact Get.robust_varuint bits
  | text => exact Get.robust_text
  | ascii => exact Get.robust_ascii
  | byteArray => exact Get.robust_byteArray
  | optional => exact absurd h not_false

/-- The reads of single values: so many bytes, or a value of a shape. -/
inductive Get.IsSingle : {α : Type} → Get α → Prop
  | take (n : Nat) : IsSingle (Get.take n)
  | shape {s : Shape} (single : s.IsSingle) : IsSingle s.get

theorem Get.IsSingle.robust {g : Get α} (h : g.IsSingle) : g.Robust := by
  cases h with
  | take n => exact robust_take n
  | shape single => exact Shape.robust_get single

namespace Buffer

/-- **Reads are atomic, local and stable.** A read of a single value that fails leaves the buffer as
it was, and fails for want of bytes or because the bytes are malformed. One that succeeds moves the
cursor past some of the unread bytes, and gives the same value in every buffer where these bytes are
the next under the same limit for strings, whatever stands in front of them or behind. And if it does
not fail for want of bytes, it comes to the same, value or fault, when any bytes are added to the
buffer first. -/
theorem get_single {g : Get α} (hg : g.IsSingle) (b : Buffer) :
    (∀ e after, b.get g = (.error e, after) → after = b ∧
      ((∃ offset requested available, e = .insufficientData offset requested available) ∨
        ∃ cause, e = .malformed cause)) ∧
    (∀ a after, b.get g = (.ok a, after) →
      ∃ n, n ≤ b.remaining ∧ after = b.advance n ∧
        ∀ other : Buffer, other.textLimit = b.textLimit → n ≤ other.remaining →
          other.unread.take n = b.unread.take n → other.get g = (.ok a, other.advance n)) ∧
    ∀ result after, b.get g = (result, after) →
      (∀ offset requested available,
        result ≠ .error (.insufficientData offset requested available)) →
      ∀ more, (b.append more).get g = (result, after.append more) := by
  have hrobust := hg.robust
  have hsettled := hrobust.settled b
  refine ⟨?_, fun a after h => hrobust.follows h, ?_⟩
  · intro e after h
    refine ⟨hrobust.restores h, ?_⟩
    rw [h] at hsettled
    cases hsettled with
    | malformed => exact .inr ⟨_, rfl⟩
    | wanting => exact .inl ⟨_, _, _, rfl⟩
  · intro result after h hnot more
    rw [h] at hsettled
    cases hsettled with
    | value keeps => exact keeps more
    | malformed keeps => exact keeps more
    | wanting => exact absurd rfl (hnot _ _ _)

/-- A string of three bytes: read whole, cut short, and with a byte that continues nothing, which no
more bytes mend. -/
theorem get_single_text :
    let b : Buffer := { consumed := [7], unread := [3, 0xC3, 0xA9, 0x21, 9], textLimit := 2 }
    let short : Buffer := { b with unread := [3, 0xC3, 0xA9] }
    let broken : Buffer := { b with unread := [3, 0xC3, 0x28, 0x21] }
    let fault : Fault := .malformed (.utf8 1 (.invalid 1 0))
    b.get Get.text = (.ok "é!", b.advance 4) ∧
      (∀ other : Buffer, other.textLimit = 2 → 4 ≤ other.remaining →
        other.unread.take 4 = [3, 0xC3, 0xA9, 0x21] →
          other.get Get.text = (.ok "é!", other.advance 4)) ∧
      short.get Get.text = (.error (.insufficientData 2 3 2), short) ∧
      ∀ more, (broken.append more).get Get.text = (.error fault, broken.append more) := by
  intro b short broken fault
  have hsingle : (Shape.text.get).IsSingle := .shape trivial
  have hwhole : b.get Get.text = (.ok "é!", b.advance 4) := by cbv
  have hshort : (short.get Get.text).1 = .error (.insufficientData 2 3 2) := by cbv
  have hbroken : broken.get Get.text = (.error fault, broken) := by cbv
  obtain ⟨-, hlocal, -⟩ := get_single hsingle b
  obtain ⟨hatomic, -, -⟩ := get_single hsingle short
  obtain ⟨-, -, hstable⟩ := get_single hsingle broken
  refine ⟨hwhole, ?_, ?_, ?_⟩
  · obtain ⟨n, hn, hafter, hsame⟩ := hlocal _ _ hwhole
    have hposition := congrArg Buffer.position hafter
    rw [position_advance (by decide), position_advance hn] at hposition
    obtain rfl : n = 4 := by omega
    exact hsame
  · have hback := (hatomic _ _ (Prod.ext hshort rfl : short.get Get.text = (_, _))).1
    exact Prod.ext hshort hback
  · exact hstable _ _ hbroken (by simp [fault])

end Buffer

end PacketStream
