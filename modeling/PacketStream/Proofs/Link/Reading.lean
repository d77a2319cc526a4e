import PacketStream.Link.Basic

/-!
# What reading does to a link

`Link.Reads l bytes after` says that `after` is the link `l` once `bytes` have been read from it:
they are gone from the front of what is to come, and nothing else of the stream has changed but the
turns that are left. It composes (`Reads.trans`), so that a reader made of parts takes just what
its parts take.

`receive_ok` and `receive_error` are all that later proofs use of `Link.receive`. They hold under
every script of turns. A link that *delivers* has no turn that fails or pretends the end of the
stream; there, a read fails only at the real end, having taken all that was left. A link that
*flows* has no interruptions either, so that even one call brings bytes (`receiveSome_of_flows`).
-/

namespace PacketStream

/-! ## Scripts that bring all bytes -/

/-- Whether a stream goes on after the turn: it may be slow, but neither fails nor ends. -/
def Turn.delivers : Turn → Bool
  | move 0 | failed _ => false
  | _ => true

/-- No call on the link fails, and none ends the stream before its bytes have come. -/
def Link.Delivers (l : Link) : Prop := ∀ t ∈ l.reads, t.delivers = true

instance (l : Link) : Decidable l.Delivers := inferInstanceAs (Decidable (∀ t ∈ l.reads, _))

/-- Whether a call on the turn moves bytes, if only after a while. -/
def Turn.flows : Turn → Bool
  | move 0 | interrupted | failed _ => false
  | _ => true

/-- Each call that reads from the link brings bytes as long as there are any. -/
def Link.Flows (l : Link) : Prop := ∀ t ∈ l.reads, t.flows = true

instance (l : Link) : Decidable l.Flows := inferInstanceAs (Decidable (∀ t ∈ l.reads, _))

theorem Turn.delivers_of_flows {t : Turn} (h : t.flows = true) : t.delivers = true := by
  rcases t with (_ | n) | _ | reason | _
  · cases h
  · rfl
  · cases h
  · cases h
  · rfl

theorem Link.Flows.delivers {l : Link} (h : l.Flows) : l.Delivers :=
  fun t ht => Turn.delivers_of_flows (h t ht)

/-! ## One run of calls -/

section Collect

variable {expected missing : Nat} {incoming : List UInt8} {turns : List Turn}

theorem turns_collect_subset (expected missing : Nat) (incoming : List UInt8)
    (turns : List Turn) : (collect expected missing incoming turns).turns ⊆ turns := by
  fun_induction collect expected missing incoming turns with
  | case1 => exact List.Subset.refl _
  | case2 => exact List.Subset.refl _
  | case3 _ _ turns _ ih => exact List.subset_cons_of_subset _ ih
  | case4 _ _ turns _ ih => exact List.subset_cons_of_subset _ ih
  | case5 => exact List.subset_cons_self _ _
  | case6 => exact List.subset_cons_self _ _
  | case7 =>
    rename_i ih
    exact List.subset_cons_of_subset _ ih

theorem length_collect (h : (collect expected missing incoming turns).fault = none) :
    (collect expected missing incoming turns).bytes.length = missing := by
  fun_induction collect expected missing incoming turns with
  | case1 missing incoming bytes short =>
    by_cases hshort : short = 0
    · have hbytes : bytes.length ≤ missing := List.length_take_le _ _
      show bytes.length = missing
      omega
    · rw [if_neg hshort] at h
      cases h
  | case2 => rfl
  | case3 _ _ _ _ ih => exact ih h
  | case4 _ _ _ _ ih => exact ih h
  | case5 => cases h
  | case6 => cases h
  | case7 missing incoming turns _ most n chunk _ later ih =>
    have hchunk : chunk.length ≤ n := List.length_take_le _ _
    show (chunk ++ later.bytes).length = missing
    rw [List.length_append, ih h]
    omega

theorem collect_fault {e : Fault}
    (h : (collect expected missing incoming turns).fault = some e) :
    e.isFatal = true ∧ (collect expected missing incoming turns).bytes.length < missing := by
  fun_induction collect expected missing incoming turns with
  | case1 missing incoming bytes short =>
    by_cases hshort : short = 0
    · rw [if_pos hshort] at h
      cases h
    · rw [if_neg hshort] at h
      cases h
      show _ ∧ bytes.length < missing
      exact ⟨rfl, by omega⟩
  | case2 => cases h
  | case3 _ _ _ _ ih => exact ih h
  | case4 _ _ _ _ ih => exact ih h
  | case5 _ _ _ hmissing =>
    cases h
    exact ⟨rfl, Nat.pos_of_ne_zero hmissing⟩
  | case6 _ _ _ hmissing =>
    cases h
    exact ⟨rfl, Nat.pos_of_ne_zero hmissing⟩
  | case7 missing incoming turns hmissing most n chunk _ later ih =>
    obtain ⟨hfatal, hlength⟩ := ih h
    have hlater : later.bytes.length < missing - chunk.length := hlength
    refine ⟨hfatal, ?_⟩
    show (chunk ++ later.bytes).length < missing
    rw [List.length_append]
    omega

/-- A run of calls that all deliver falls short only at the end of the stream. -/
theorem collect_fault_of_delivers {e : Fault} (hexpected : missing ≤ expected)
    (hdelivers : ∀ t ∈ turns, t.delivers = true)
    (h : (collect expected missing incoming turns).fault = some e) :
    let c := collect expected missing incoming turns
    e = .connectionClosed (expected - missing + c.bytes.length) expected ∧ c.incoming = [] := by
  fun_induction collect expected missing incoming turns with
  | case1 missing incoming bytes short =>
    by_cases hshort : short = 0
    · rw [if_pos hshort] at h
      cases h
    · rw [if_neg hshort] at h
      cases h
      have hbytes : bytes.length = min missing incoming.length := List.length_take
      have hclosed : expected - short = expected - missing + bytes.length := by omega
      exact ⟨by rw [hclosed], List.drop_eq_nil_of_le (by omega)⟩
  | case2 => cases h
  | case3 _ _ _ _ ih =>
    exact ih hexpected (fun t ht => hdelivers t (List.mem_cons_of_mem _ ht)) h
  | case4 _ _ _ _ ih =>
    exact ih hexpected (fun t ht => hdelivers t (List.mem_cons_of_mem _ ht)) h
  | case5 _ _ _ _ reason =>
    have hturn := hdelivers (.failed reason) List.mem_cons_self
    cases hturn
  | case6 missing incoming turns hmissing most n chunk hempty =>
    cases h
    have hturn := hdelivers (.move most) List.mem_cons_self
    have hmost : most ≠ 0 := by
      intro hzero
      subst hzero
      cases hturn
    -- a call that may move bytes moves none: there are none
    have hnil : incoming = [] :=
      (List.take_eq_nil_iff.1 (List.isEmpty_iff.1 hempty)).resolve_left (by omega)
    exact ⟨rfl, hnil⟩
  | case7 missing incoming turns hmissing most n chunk _ later ih =>
    have hchunk : chunk.length ≤ n := List.length_take_le _ _
    obtain ⟨he, hnil⟩ :=
      ih (by omega) (fun t ht => hdelivers t (List.mem_cons_of_mem _ ht)) h
    have hall : expected - (missing - chunk.length) + later.bytes.length
        = expected - missing + (chunk ++ later.bytes).length := by
      rw [List.length_append]
      omega
    refine ⟨?_, hnil⟩
    show e = .connectionClosed (expected - missing + (chunk ++ later.bytes).length) expected
    rw [← hall]
    exact he

end Collect

/-! ## One read -/

namespace Link

/-- `after` is the link `l` once `bytes` have been read from it. -/
structure Reads (l : Link) (bytes : List UInt8) (after : Link) : Prop where
  incoming : l.incoming = bytes ++ after.incoming
  turns : after.reads ⊆ l.reads
  frame : after = { l with incoming := after.incoming, reads := after.reads }

variable {l after last : Link} {bytes more : List UInt8} {n : Nat} {e : Fault}

theorem Reads.refl (l : Link) : l.Reads [] l :=
  { incoming := rfl, turns := fun _ h => h, frame := rfl }

theorem Reads.trans (h : l.Reads bytes after) (h' : after.Reads more last) :
    l.Reads (bytes ++ more) last where
  incoming := by rw [h.incoming, h'.incoming, List.append_assoc]
  turns := fun _ ht => h.turns (h'.turns ht)
  frame := by rw [h'.frame, h.frame]

/-- The link that is left says which bytes are gone. -/
theorem Reads.unique (h : l.Reads bytes after) (h' : l.Reads more after) : bytes = more :=
  List.append_cancel_right (h.incoming.symm.trans h'.incoming)

theorem Reads.delivers (h : l.Reads bytes after) (hl : l.Delivers) : after.Delivers :=
  fun t ht => hl t (h.turns ht)

theorem Reads.flows (h : l.Reads bytes after) (hl : l.Flows) : after.Flows :=
  fun t ht => hl t (h.turns ht)

theorem reads_receive (n : Nat) (l : Link) :
    l.Reads (collect n n l.incoming l.reads).bytes (l.receive n).2 where
  incoming := (collect_split ..).symm
  turns := turns_collect_subset ..
  frame := rfl

/-- **A read that succeeds takes just the bytes asked for.** -/
theorem receive_ok (h : l.receive n = (.ok bytes, after)) :
    l.Reads bytes after ∧ bytes.length = n := by
  have hreads := reads_receive n l
  rw [h] at hreads
  simp only [receive, outcome, Prod.mk.injEq] at h
  obtain ⟨hbytes, -⟩ := h
  split at hbytes
  · rename_i hfault
    cases hbytes
    exact ⟨hreads, length_collect hfault⟩
  · cases hbytes

/-- **A read that fails has taken too few bytes, and its fault is fatal.** On a link that delivers
these bytes were all that was left, and the fault says how many they are. -/
theorem receive_error (h : l.receive n = (.error e, after)) :
    ∃ bytes, l.Reads bytes after ∧ bytes.length < n ∧ e.isFatal = true ∧
      (l.Delivers → e = .connectionClosed bytes.length n ∧ after.incoming = []) := by
  have hreads := reads_receive n l
  rw [h] at hreads
  simp only [receive, outcome, Prod.mk.injEq] at h
  obtain ⟨hfault, rfl⟩ := h
  split at hfault
  · cases hfault
  · rename_i hcollect
    cases hfault
    obtain ⟨hfatal, hlength⟩ := collect_fault hcollect
    refine ⟨_, hreads, hlength, hfatal, ?_⟩
    intro hl
    simpa using collect_fault_of_delivers (Nat.le_refl n) hl hcollect

/-! ## One call -/

theorem reads_take (n : Nat) {turns : List Turn} (h : turns ⊆ l.reads) :
    l.Reads (l.incoming.take n) (receiveSome.take l n turns).2 where
  incoming := (List.take_append_drop n l.incoming).symm
  turns := h
  frame := rfl

/-- Whatever one call does, it takes bytes from the front, if any. -/
theorem reads_receiveSome (most : Nat) (l : Link) :
    ∃ taken, l.Reads taken (l.receiveSome most).2 := by
  suffices hgo : ∀ turns ⊆ l.reads, ∃ taken, l.Reads taken (receiveSome.go most l turns).2 from
    hgo l.reads (List.Subset.refl _)
  intro turns hturns
  induction turns with
  | nil => exact ⟨_, reads_take most hturns⟩
  | cons turn turns ih =>
    have hleft : turns ⊆ l.reads := List.Subset.trans (List.subset_cons_self _ _) hturns
    cases turn with
    | waiting => exact ih hleft
    | interrupted => exact ⟨[], rfl, hleft, rfl⟩
    | failed reason => exact ⟨[], rfl, hleft, rfl⟩
    | move n => exact ⟨_, reads_take (min n most) hleft⟩

/-- A call that brings bytes brings some, unless none are left. -/
theorem receiveSome_of_flows {most : Nat} (hl : l.Flows) (hmost : 0 < most) :
    ∃ n after, 0 < n ∧ l.receiveSome most = (.ok (l.incoming.take n), after) ∧
      l.Reads (l.incoming.take n) after := by
  suffices hgo : ∀ turns ⊆ l.reads, ∃ n after, 0 < n ∧
      receiveSome.go most l turns = (.ok (l.incoming.take n), after) ∧
      l.Reads (l.incoming.take n) after from hgo l.reads (List.Subset.refl _)
  intro turns hturns
  induction turns with
  | nil => exact ⟨most, _, hmost, rfl, reads_take most hturns⟩
  | cons turn turns ih =>
    have hleft : turns ⊆ l.reads := List.Subset.trans (List.subset_cons_self _ _) hturns
    have hflows : turn.flows = true := hl turn (hturns List.mem_cons_self)
    cases turn with
    | waiting => exact ih hleft
    | interrupted => cases hflows
    | failed reason => cases hflows
    | move n =>
      have hn : n ≠ 0 := by
        rintro rfl
        cases hflows
      exact ⟨min n most, _, by omega, rfl, reads_take (min n most) hleft⟩

end Link

end PacketStream
