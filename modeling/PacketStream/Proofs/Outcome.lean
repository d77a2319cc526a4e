import PacketStream.Buffer.Get
import PacketStream.Link.Basic

/-!
# Outcomes

What a computation comes to, without the events on the way: `Checked.outcome`, and
`Exchange.outcome` for one that uses a link. One equation for each way to build a computation
computes its outcome, and `Buffer.get_bind` does so for reads of a buffer, so that no later proof
opens the monads.
-/

namespace PacketStream

variable {α β : Type}

/-! ## Computations that may fail -/

namespace Checked

@[simp] theorem outcome_pure (a : α) : (pure a : Checked α).outcome = .ok a := rfl

@[simp] theorem outcome_throw (e : Fault) : (throw e : Checked α).outcome = .error e := rfl

@[simp] theorem outcome_report (e : Event) : (report e).outcome = .ok () := rfl

@[simp] theorem outcome_ofExcept (x : Except Fault α) : (ofExcept x).outcome = x := rfl

theorem outcome_bind (x : Checked α) (f : α → Checked β) :
    (x >>= f).outcome =
      match x.outcome with
      | .ok a => (f a).outcome
      | .error e => .error e := by
  show (ExceptT.bindCont f x.run.value).value = _
  rcases hx : x.outcome with e | a <;>
    · simp only [outcome] at hx
      rw [hx]
      rfl

/-- What follows a computation that succeeds has the outcome of the whole. -/
theorem outcome_bind_of_ok {x : Checked α} {f : α → Checked β} {a : α} (h : x.outcome = .ok a) :
    (x >>= f).outcome = (f a).outcome := by
  rw [outcome_bind, h]

/-- A computation that succeeds has come through its first part. -/
theorem outcome_bind_ok {x : Checked α} {f : α → Checked β} {b : β}
    (h : (x >>= f).outcome = .ok b) : ∃ a, x.outcome = .ok a ∧ (f a).outcome = .ok b := by
  rw [outcome_bind] at h
  split at h
  · exact ⟨_, ‹_›, h⟩
  · cases h

/-- A computation fails in its first part or after it. -/
theorem outcome_bind_error {x : Checked α} {f : α → Checked β} {e : Fault}
    (h : (x >>= f).outcome = .error e) :
    x.outcome = .error e ∨ ∃ a, x.outcome = .ok a ∧ (f a).outcome = .error e := by
  rw [outcome_bind] at h
  split at h
  · exact .inr ⟨_, ‹_›, h⟩
  · cases h
    exact .inl ‹_›

@[simp] theorem outcome_report_bind (e : Event) (f : Unit → Checked β) :
    (report e >>= f).outcome = (f ()).outcome := outcome_bind_of_ok rfl

end Checked

/-! ## Exchanges -/

namespace Exchange

/-- What an exchange comes to on a link: its value or fault, and the link afterwards. -/
def outcome (x : Exchange α) (l : Link) : Except Fault α × Link := (x.run.run l).value

@[simp] theorem outcome_ofLink (f : Link → Except Fault α × Link) (l : Link) :
    (ofLink f).outcome l = f l := rfl

@[simp] theorem outcome_ofChecked (x : Checked α) (l : Link) :
    (ofChecked x).outcome l = (x.outcome, l) := rfl

theorem outcome_bind (x : Exchange α) (f : α → Exchange β) (l : Link) :
    (x >>= f).outcome l =
      match x.outcome l with
      | (.ok a, after) => (f a).outcome after
      | (.error e, after) => (.error e, after) := by
  show ((ExceptT.bindCont f (x.run.run l).value.1) (x.run.run l).value.2).value = _
  rcases hx : x.outcome l with ⟨e | a, after⟩ <;>
    · simp only [outcome] at hx
      rw [hx]
      rfl

/-- An exchange that succeeds has come through its first part. -/
theorem outcome_bind_ok {x : Exchange α} {f : α → Exchange β} {l last : Link} {b : β}
    (h : (x >>= f).outcome l = (.ok b, last)) :
    ∃ a after, x.outcome l = (.ok a, after) ∧ (f a).outcome after = (.ok b, last) := by
  rw [outcome_bind] at h
  split at h
  · exact ⟨_, _, ‹_›, h⟩
  · cases h

end Exchange

/-! ## Reads of a buffer -/

namespace Buffer

@[simp] theorem get_pure (a : α) (b : Buffer) : b.get (pure a) = (.ok a, b) := rfl

theorem get_bind (x : Get α) (f : α → Get β) (b : Buffer) :
    b.get (x >>= f) =
      match b.get x with
      | (.ok a, after) => after.get (f a)
      | (.error e, after) => (.error e, after) := by
  show (ExceptT.bindCont f (x.run b).1) (x.run b).2 = _
  rcases hx : b.get x with ⟨a | a, after⟩ <;>
    · simp only [get] at hx
      rw [hx]
      rfl

theorem get_bind_of_ok {x : Get α} {f : α → Get β} {b after : Buffer} {a : α}
    (h : b.get x = (.ok a, after)) : b.get (x >>= f) = after.get (f a) := by
  rw [get_bind, h]

/-- A read that succeeds has come through its first part. -/
theorem get_bind_ok {x : Get α} {f : α → Get β} {b last : Buffer} {c : β}
    (h : b.get (x >>= f) = (.ok c, last)) :
    ∃ a after, b.get x = (.ok a, after) ∧ after.get (f a) = (.ok c, last) := by
  rw [get_bind] at h
  split at h
  · exact ⟨_, _, ‹_›, h⟩
  · cases h

theorem get_restoring_of_ok {g : Get α} {b after : Buffer} {a : α} (h : b.get g = (.ok a, after)) :
    b.get g.restoring = (.ok a, after) := by
  simp only [get, ExceptT.run, Get.restoring] at h ⊢
  rw [h]

theorem get_restoring (g : Get α) (b : Buffer) :
    b.get g.restoring =
      match b.get g with
      | (.ok a, after) => (.ok a, after)
      | (.error e, _) => (.error e, b) := rfl

/-- A read that succeeds has not been taken back. -/
theorem get_of_restoring {g : Get α} {b after : Buffer} {a : α}
    (h : b.get g.restoring = (.ok a, after)) : b.get g = (.ok a, after) := by
  rw [get_restoring] at h
  split at h
  · cases h
    assumption
  · cases h

@[simp] theorem get_malformed (cause : Malformation) (b : Buffer) :
    b.get (Get.malformed cause : Get α) = (.error (.malformed cause), b) := rfl

theorem get_position (b : Buffer) : b.get Get.position = (.ok b.position, b) := rfl

theorem get_textLimit (b : Buffer) : b.get Get.textLimit = (.ok b.textLimit, b) := rfl

theorem get_take (n : Nat) (b : Buffer) :
    b.get (Get.take n) =
      if b.remaining < n then (.error (.insufficientData b.position n b.remaining), b)
      else (.ok (b.unread.take n), b.advance n) := rfl

theorem get_varuint (bits : Nat) (b : Buffer) :
    b.get (Get.varuint bits) =
      match Varint.decode bits b.unread with
      | .error refusal => (.error (.malformed (.varint bits refusal)), b)
      | .ok none => (.error (.insufficientData b.position (b.remaining + 1) b.remaining), b)
      | .ok (some (value, size)) => (.ok value.toUInt64, b.advance size) := rfl

theorem get_varint (b : Buffer) :
    b.get Get.varint =
      match Varint.decode 32 b.unread with
      | .error refusal => (.error (.malformed (.varint 32 refusal)), b)
      | .ok none => (.error (.insufficientData b.position (b.remaining + 1) b.remaining), b)
      | .ok (some (value, size)) => (.ok value.toUInt64.toUInt32.toInt32, b.advance size) := by
  rw [Get.varint, get_bind, get_varuint]
  rcases Varint.decode 32 b.unread with refusal | (_ | ⟨value, size⟩) <;> rfl

/-! ### Strings that end with a zero byte -/

/-- Either no byte is zero, or there is a first zero. -/
theorem split_at_zero (bytes : List UInt8) :
    (∀ b ∈ bytes, (b != 0) = true) ∨
      ∃ chars rest, (∀ c ∈ chars, (c != 0) = true) ∧ bytes = chars ++ 0 :: rest := by
  induction bytes with
  | nil => exact .inl (by simp)
  | cons b bytes ih =>
    by_cases hb : b = 0
    · exact .inr ⟨[], bytes, by simp, by rw [hb, List.nil_append]⟩
    rcases ih with hnone | ⟨chars, rest, hchars, rfl⟩
    · exact .inl (by simpa [hb] using hnone)
    · exact .inr ⟨b :: chars, rest, by simpa [hb] using hchars, rfl⟩

/-- The string in front of the first zero byte, if it is one of ASCII. -/
theorem get_ascii_of_zero {b : Buffer} {chars rest : List UInt8}
    (hnonzero : ∀ c ∈ chars, (c != 0) = true) (hunread : b.unread = chars ++ 0 :: rest) :
    b.get Get.ascii =
      if chars.all (· < 128) then
        (.ok (String.ofList (chars.map fun c => Char.ofNat c.toNat)), b.advance (chars.length + 1))
      else (.error (.malformed (.notAscii b.position)), b) := by
  have htake : b.unread.takeWhile (· != 0) = chars := by
    rw [hunread, List.takeWhile_append_of_pos hnonzero]
    simp
  have hshort : ¬ chars.length = b.remaining := by
    rw [remaining, hunread]
    simp
  show (if _ then _ else _ : Except Fault String × Buffer) = _
  rw [htake, if_neg hshort]

/-- Without a zero byte the end of the string is wanting. -/
theorem get_ascii_of_nonzero {b : Buffer} (h : ∀ c ∈ b.unread, (c != 0) = true) :
    b.get Get.ascii = (.error (.insufficientData b.position (b.remaining + 1) b.remaining), b) := by
  have htake : b.unread.takeWhile (· != 0) = b.unread := by
    have happend : (b.unread ++ []).takeWhile (· != 0) = b.unread ++ [].takeWhile (· != 0) :=
      List.takeWhile_append_of_pos h
    simpa using happend
  show (if _ then _ else _ : Except Fault String × Buffer) = _
  rw [htake]
  exact if_pos rfl

end Buffer

end PacketStream
