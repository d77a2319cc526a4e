import PacketStream.Proofs.Link.Reading
import PacketStream.Proofs.Outcome

/-!
# How bytes come makes no difference

A stream brings its bytes in pieces, with calls between them that bring nothing. `Link.ofBytes` is
the plain stream to compare with: the same bytes, all of them there from the start.

`Exchange.Steady` says that an exchange does not notice the difference. It comes to what it comes to
on the plain stream and takes the same bytes, unless a turn stops it: a turn that fails, or one that
pretends the end of the stream. It also counts the bytes that the turns can have brought
(`Passes`), so that an exchange which needs more bytes than come before a failure is known to run
into it.

What is made of steady parts is steady (`Steady.bind`), and the one part that makes calls is
`Exchange.receive`: `steady_receive`, from a run of calls in `collect_cases`.
-/

namespace PacketStream

/-! ## Turns -/

/-- The most bytes that a call can bring on the turn. -/
def Turn.most : Turn → Nat
  | move n => n
  | _ => 0

/-- The most bytes that calls can bring on the turns. -/
def brings : (turns : List Turn) → Nat
  | [] => 0
  | t :: turns => t.most + brings turns

theorem brings_append (turns more : List Turn) :
    brings (turns ++ more) = brings turns + brings more := by
  induction turns with
  | nil => simp [brings]
  | cons t turns ih => simp [brings, ih, Nat.add_assoc]

/-- A call on the turn ends a read with the fault: the turn fails, or pretends the end. -/
def Turn.Stops : Turn → Fault → Prop
  | failed reason, e => e = .transfer (.other reason)
  | move 0, e => ∃ received expected, e = .connectionClosed received expected
  | _, _ => False

theorem Turn.Stops.not_delivers {t : Turn} {e : Fault} (h : t.Stops e) : t.delivers = false := by
  rcases t with (_ | n) | _ | reason | _
  · rfl
  · cases h
  · cases h
  · rfl
  · cases h

section Scripts

variable {turns between left : List Turn} {t : Turn} {n m : Nat} {e : Fault}

/-- Calls have gone through turns that deliver, as far as those that are left. Unless none are left,
`n` bytes at most can have come to them. -/
def Passes (turns left : List Turn) (n : Nat) : Prop :=
  ∃ used, turns = used ++ left ∧ (∀ t ∈ used, t.delivers = true) ∧ (left = [] ∨ n ≤ brings used)

/-- Behind turns that deliver there is one that stops the calls with the fault. -/
def StopsAt (turns : List Turn) (e : Fault) : Prop :=
  ∃ used t left, turns = used ++ t :: left ∧ (∀ t ∈ used, t.delivers = true) ∧ t.Stops e

theorem Passes.refl (turns : List Turn) : Passes turns turns 0 :=
  ⟨[], rfl, by simp, .inr (Nat.le_refl 0)⟩

theorem Passes.cons (ht : t.delivers = true) (h : Passes turns left n) (hm : m ≤ t.most + n) :
    Passes (t :: turns) left m := by
  obtain ⟨used, rfl, hdelivers, henough⟩ := h
  refine ⟨t :: used, rfl, ?_, henough.imp_right ?_⟩
  · intro t' ht'
    rcases List.mem_cons.1 ht' with rfl | ht'
    · exact ht
    · exact hdelivers t' ht'
  · intro hn
    rw [brings]
    omega

theorem Passes.trans (h : Passes turns between n) (h' : Passes between left m) :
    Passes turns left (n + m) := by
  obtain ⟨used, rfl, hdelivers, henough⟩ := h
  obtain ⟨used', rfl, hdelivers', henough'⟩ := h'
  refine ⟨used ++ used', (List.append_assoc ..).symm, ?_, ?_⟩
  · intro t ht
    rcases List.mem_append.1 ht with ht | ht
    · exact hdelivers t ht
    · exact hdelivers' t ht
  · rcases henough' with hleft | hm
    · exact .inl hleft
    · rcases henough with hbetween | hn
      · exact .inl (List.append_eq_nil_iff.1 hbetween).2
      · right
        rw [brings_append]
        omega

theorem Passes.mono (h : Passes turns left n) (hm : m ≤ n) : Passes turns left m := by
  obtain ⟨used, hused, hdelivers, henough⟩ := h
  exact ⟨used, hused, hdelivers, henough.imp_right (Nat.le_trans hm)⟩

theorem StopsAt.cons (ht : t.delivers = true) (h : StopsAt turns e) : StopsAt (t :: turns) e := by
  obtain ⟨used, t', left, rfl, hdelivers, hstops⟩ := h
  refine ⟨t :: used, t', left, rfl, ?_, hstops⟩
  intro t'' ht''
  rcases List.mem_cons.1 ht'' with rfl | ht''
  · exact ht
  · exact hdelivers t'' ht''

theorem Passes.stopsAt (h : Passes turns between n) (hstops : StopsAt between e) :
    StopsAt turns e := by
  obtain ⟨used, rfl, hdelivers, -⟩ := h
  induction used with
  | nil => exact hstops
  | cons t used ih =>
    have hlater := ih fun t' ht' => hdelivers t' (List.mem_cons_of_mem _ ht')
    exact hlater.cons (hdelivers t List.mem_cons_self)

theorem StopsAt.not_delivers (h : StopsAt turns e) : ¬ ∀ t ∈ turns, t.delivers = true := by
  obtain ⟨used, t, left, rfl, -, hstops⟩ := h
  intro hall
  have ht := hall t (List.mem_append_right _ List.mem_cons_self)
  rw [hstops.not_delivers] at ht
  cases ht

/-- Turns that deliver come to an end in front of one that does not. -/
theorem prefix_of_delivers {used before later : List Turn} (h : used ++ left = before ++ t :: later)
    (hused : ∀ t ∈ used, t.delivers = true) (ht : t.delivers = false) : used <+: before := by
  rcases List.append_eq_append_iff.1 h with ⟨more, hbefore, -⟩ | ⟨more, hmore, hlater⟩
  · exact ⟨more, hbefore.symm⟩
  · cases more with
    | nil => exact ⟨[], by rw [hmore]; simp⟩
    | cons t' more =>
      obtain ⟨rfl, -⟩ := List.cons.inj hlater
      have hdelivers := hused t (by rw [hmore]; simp)
      rw [ht] at hdelivers
      cases hdelivers

theorem Passes.le_brings {before later : List Turn} (h : Passes (before ++ t :: later) left n)
    (ht : t.delivers = false) : n ≤ brings before := by
  obtain ⟨used, hused, hdelivers, henough⟩ := h
  rcases henough with hleft | hn
  · -- all turns would deliver, and this one does not
    rw [hleft, List.append_nil] at hused
    have hdelivers := hdelivers t (by rw [← hused]; simp)
    rw [ht] at hdelivers
    cases hdelivers
  · obtain ⟨more, rfl⟩ := prefix_of_delivers hused.symm hdelivers ht
    rw [brings_append]
    omega

/-- The first turn that does not deliver is the one that stops the calls. -/
theorem StopsAt.stops_of_delivers {before later : List Turn} (h : StopsAt (before ++ t :: later) e)
    (hbefore : ∀ t ∈ before, t.delivers = true) (ht : t.delivers = false) : t.Stops e := by
  obtain ⟨used, t', left, hused, hdelivers, hstops⟩ := h
  obtain ⟨more, rfl⟩ := prefix_of_delivers hused.symm hdelivers ht
  obtain ⟨more', hmore'⟩ := prefix_of_delivers hused hbefore hstops.not_delivers
  rw [List.append_assoc, List.append_right_eq_self, List.append_eq_nil_iff] at hmore'
  obtain ⟨rfl, -⟩ := hmore'
  rw [List.append_nil, List.append_cancel_left_eq] at hused
  obtain ⟨rfl, -⟩ := List.cons.inj hused
  exact hstops

end Scripts

/-- The bytes that a fault has waited for in vain: one, where it is the end of the stream. -/
def Fault.awaited : Fault → Nat
  | connectionClosed .. => 1
  | _ => 0

/-- The bytes that have been waited for in vain. -/
def awaited {α : Type} : Except Fault α → Nat
  | .ok _ => 0
  | .error e => e.awaited

/-! ## One run of calls -/

section Collect

variable {expected missing : Nat} {incoming : List UInt8} {turns : List Turn}

/-- What comes in one piece may as well come in two. -/
theorem collect_nil_split {n : Nat} (hn : n ≤ missing) :
    collect expected missing incoming [] =
      let chunk := incoming.take n
      let later := collect expected (missing - chunk.length) (incoming.drop n) []
      { later with bytes := chunk ++ later.bytes } := by
  have hchunk : (incoming.take n).length = min n incoming.length := List.length_take
  by_cases hlong : n ≤ incoming.length
  · have hlength : (incoming.take n).length = n := by omega
    have hbytes : incoming.take missing
        = incoming.take n ++ (incoming.drop n).take (missing - n) := by
      rw [← List.take_add, Nat.add_sub_cancel' hn]
    have hrest : (incoming.drop n).drop (missing - n) = incoming.drop missing := by
      rw [List.drop_drop, Nat.add_sub_cancel' hn]
    have hshort : missing - (incoming.take missing).length
        = missing - n - ((incoming.drop n).take (missing - n)).length := by
      rw [hbytes, List.length_append]
      omega
    simp only [collect, hlength, hrest, hshort, ← hbytes]
  · have hall : incoming.take n = incoming := List.take_of_length_le (by omega)
    have hnone : incoming.drop n = [] := List.drop_eq_nil_of_le (by omega)
    have hbytes : incoming.take missing = incoming := List.take_of_length_le (by omega)
    have hrest : incoming.drop missing = [] := List.drop_eq_nil_of_le (by omega)
    simp [collect, hall, hnone, hbytes, hrest]

/-- **A run of calls comes to what it comes to in one piece**, or one of its turns stops it. -/
theorem collect_cases (incoming : List UInt8) (turns : List Turn) (hexpected : missing ≤ expected) :
    let c := collect expected missing incoming turns
    let plain := collect expected missing incoming []
    (∃ left, c = { plain with turns := left } ∧
        Passes turns left (plain.bytes.length + awaited (Link.outcome () plain.fault))) ∨
      ∃ e, c.fault = some e ∧ StopsAt turns e := by
  fun_induction collect expected missing incoming turns with
  | case1 missing incoming => exact .inl ⟨[], rfl, [], rfl, by simp, .inl rfl⟩
  | case2 incoming turn turns => exact .inl ⟨turn :: turns, rfl, Passes.refl _⟩
  | case3 missing incoming turns _ ih =>
    rcases ih hexpected with ⟨left, hc, hpasses⟩ | ⟨e, hfault, hstops⟩
    · exact .inl ⟨left, hc, hpasses.cons rfl (Nat.le_add_left _ _)⟩
    · exact .inr ⟨e, hfault, hstops.cons rfl⟩
  | case4 missing incoming turns _ ih =>
    rcases ih hexpected with ⟨left, hc, hpasses⟩ | ⟨e, hfault, hstops⟩
    · exact .inl ⟨left, hc, hpasses.cons rfl (Nat.le_add_left _ _)⟩
    · exact .inr ⟨e, hfault, hstops.cons rfl⟩
  | case5 missing incoming turns hmissing reason =>
    exact .inr ⟨_, rfl, [], .failed reason, turns, rfl, by simp, rfl⟩
  | case6 missing incoming turns hmissing most n chunk hempty =>
    by_cases hmost : most = 0
    · subst hmost
      exact .inr ⟨_, rfl, [], .move 0, turns, rfl, by simp, _, _, rfl⟩
    · -- a call that may move bytes moves none: there are none
      obtain rfl : incoming = [] :=
        (List.take_eq_nil_iff.1 (List.isEmpty_iff.1 hempty)).resolve_left (by omega)
      have hdelivers : (Turn.move most).delivers = true := by
        cases most with
        | zero => exact absurd rfl hmost
        | succ most => rfl
      refine .inl ⟨turns, ?_, (Passes.refl turns).cons hdelivers ?_⟩
      · simp [collect, hmissing]
      · simp only [collect, Turn.most, List.take_nil, List.length_nil, Nat.sub_zero,
          if_neg hmissing]
        show 0 + 1 ≤ most + 0
        omega
  | case7 missing incoming turns hmissing most n chunk hempty later ih =>
    have hchunk : chunk.length ≤ n := List.length_take_le _ _
    have hdelivers : (Turn.move most).delivers = true := by
      cases most with
      | zero => exact absurd (by simp [chunk, n]) hempty
      | succ most => rfl
    let whole := collect expected (missing - chunk.length) (incoming.drop n) []
    have hsplit : collect expected missing incoming []
        = { whole with bytes := chunk ++ whole.bytes } :=
      collect_nil_split (Nat.min_le_right most missing)
    rw [hsplit]
    rcases ih (by omega) with ⟨left, hlater, hpasses⟩ | ⟨e, hfault, hstops⟩
    · have hwhole : later = { whole with turns := left } := hlater
      refine .inl ⟨left, ?_, hpasses.cons hdelivers ?_⟩
      · dsimp only
        rw [hwhole]
      · show (chunk ++ whole.bytes).length + awaited (Link.outcome () whole.fault)
          ≤ most + (whole.bytes.length + awaited (Link.outcome () whole.fault))
        rw [List.length_append]
        omega
    · exact .inr ⟨e, hfault, hstops.cons hdelivers⟩

end Collect

/-! ## Exchanges -/

/-- A stream that holds the bytes and brings all that is asked for in one call. -/
def Link.ofBytes (bytes : List UInt8) : Link := { incoming := bytes }

namespace Exchange

variable {α β : Type}

/-- On every link, the exchange comes to what it comes to on the plain stream and takes the same
bytes from it, unless a turn stops it. -/
def Steady (x : Exchange α) : Prop :=
  ∀ l : Link,
    (∃ result taken rest left, l.incoming = taken ++ rest ∧
        x.outcome l = (result, { l with incoming := rest, reads := left }) ∧
        x.outcome (.ofBytes l.incoming) = (result, .ofBytes rest) ∧
        Passes l.reads left (taken.length + awaited result)) ∨
      ∃ e after, x.outcome l = (.error e, after) ∧ StopsAt l.reads e

theorem steady_of_outcome {x : Exchange α} (result : Except Fault α)
    (hx : ∀ l, x.outcome l = (result, l)) (hresult : awaited result = 0) : x.Steady := by
  intro l
  refine .inl ⟨result, [], l.incoming, l.reads, rfl, hx l, hx _, ?_⟩
  rw [hresult]
  exact Passes.refl l.reads

theorem steady_pure (a : α) : (pure a : Exchange α).Steady :=
  steady_of_outcome (.ok a) (fun _ => rfl) rfl

/-- A fault of the bytes that have come is found on every link. -/
theorem steady_throw {e : Fault} (h : awaited (.error e : Except Fault α) = 0) :
    (throw e : Exchange α).Steady :=
  steady_of_outcome (.error e) (fun _ => rfl) h

theorem steady_ofChecked {x : Checked α} (h : awaited x.outcome = 0) : (ofChecked x).Steady :=
  steady_of_outcome x.outcome (outcome_ofChecked x) h

/-- **A read of so many bytes is steady.** -/
theorem steady_receive (n : Nat) : (receive n).Steady := by
  intro l
  let plain := collect n n l.incoming []
  have hsplit : plain.bytes ++ plain.incoming = l.incoming := collect_split n n l.incoming []
  rcases collect_cases l.incoming l.reads (Nat.le_refl n) with
    ⟨left, hc, hpasses⟩ | ⟨e, hfault, hstops⟩
  · refine .inl ⟨Link.outcome plain.bytes plain.fault, plain.bytes, plain.incoming, left,
      hsplit.symm, ?_, rfl, ?_⟩
    · show Link.receive n l = _
      rw [Link.receive, hc]
    · rcases hplain : plain.fault with _ | e <;>
      · rw [hplain] at hpasses
        exact hpasses
  · refine .inr ⟨e, (Link.receive n l).2, ?_, hstops⟩
    show Link.receive n l = (.error e, (Link.receive n l).2)
    rw [Link.receive, hfault]
    rfl

/-- **What is made of steady parts is steady.** -/
theorem Steady.bind {x : Exchange α} {f : α → Exchange β} (hx : x.Steady)
    (hf : ∀ a, (f a).Steady) : (x >>= f).Steady := by
  intro l
  rcases hx l with ⟨result, taken, rest, left, hsplit, hl, hplain, hpasses⟩ | ⟨e, after, hl, hstops⟩
  · cases result with
    | error e =>
      refine .inl ⟨.error e, taken, rest, left, hsplit, ?_, ?_, hpasses⟩
      · rw [outcome_bind, hl]
      · rw [outcome_bind, hplain]
    | ok a =>
      rcases hf a { l with incoming := rest, reads := left } with
        ⟨result, taken', rest', left', hsplit', hl', hplain', hpasses'⟩ | ⟨e, after, hl', hstops'⟩
      · refine .inl ⟨result, taken ++ taken', rest', left', ?_, ?_, ?_, ?_⟩
        · rw [hsplit, List.append_assoc]
          exact congrArg (taken ++ ·) hsplit'
        · rw [outcome_bind, hl]
          exact hl'
        · rw [outcome_bind, hplain]
          exact hplain'
        · rw [List.length_append, Nat.add_assoc]
          exact hpasses.trans hpasses'
      · refine .inr ⟨e, after, ?_, hpasses.stopsAt hstops'⟩
        rw [outcome_bind, hl]
        exact hl'
  · refine .inr ⟨e, after, ?_, hstops⟩
    rw [outcome_bind, hl]

end Exchange

end PacketStream
