import PacketStream.Proofs.Link.Reading

/-!
# What writing does to a link

`Link.Writes l bytes after` says that `after` is the link `l` once `bytes` have been written to it:
they stand behind what was written before, and nothing else of the stream has changed but the turns
that are left.

`pushed_send` is all that later proofs use of `Link.send`: the data are written and flushed, or they
are written and the flush fails, or a call fails when only some of them have been written, and there
is no flush. It holds under every script of turns. A link that *takes* what it is given has no turn
that fails or pretends that there is no room; there, nothing fails (`send_cases`).
-/

namespace PacketStream

/-! ## One run of calls -/

section Deliver

variable {rule : WriteRule} {data : List UInt8} {turns : List Turn}

theorem pending_deliver (h : (deliver rule data turns).fault = none) :
    (deliver rule data turns).pending = [] := by
  fun_induction deliver rule data turns with
  | case1 => rfl
  | case2 => rfl
  | case3 _ _ _ ih => exact ih h
  | case4 _ _ _ _ ih => exact ih h
  | case5 => cases h
  | case6 => cases h
  | case7 => cases h
  | case8 _ _ _ _ _ _ ih => exact ih h

/-- A call that fails has bytes left to write. -/
theorem pending_deliver_ne_nil {e : Fault} (h : (deliver rule data turns).fault = some e) :
    (deliver rule data turns).pending ≠ [] := by
  fun_induction deliver rule data turns with
  | case1 => cases h
  | case2 => cases h
  | case3 _ _ _ ih => exact ih h
  | case4 _ _ _ _ ih => exact ih h
  | case5 _ _ hdata => exact mt List.isEmpty_iff.2 hdata
  | case6 _ _ hdata => exact mt List.isEmpty_iff.2 hdata
  | case7 _ _ hdata => exact mt List.isEmpty_iff.2 hdata
  | case8 _ _ _ _ _ _ ih => exact ih h

/-- Where no call fails, all bytes are written. -/
theorem bytes_deliver (h : (deliver rule data turns).fault = none) :
    (deliver rule data turns).bytes = data := by
  have hsplit : (deliver rule data turns).bytes ++ (deliver rule data turns).pending = data :=
    deliver_split rule data turns
  rwa [pending_deliver h, List.append_nil] at hsplit

theorem turns_deliver_subset (rule : WriteRule) (data : List UInt8) (turns : List Turn) :
    (deliver rule data turns).turns ⊆ turns := by
  fun_induction deliver rule data turns with
  | case1 => exact List.Subset.refl _
  | case2 => exact List.Subset.refl _
  | case3 _ _ _ ih => exact List.subset_cons_of_subset _ ih
  | case4 _ _ _ _ ih => exact List.subset_cons_of_subset _ ih
  | case5 => exact List.subset_cons_self _ _
  | case6 => exact List.subset_cons_self _ _
  | case7 => exact List.subset_cons_self _ _
  | case8 =>
    rename_i ih
    exact List.subset_cons_of_subset _ ih

/-- Only the link makes a write fail. -/
theorem fault_deliver {e : Fault} (h : (deliver rule data turns).fault = some e) :
    ∃ cause, e = .transfer cause := by
  fun_induction deliver rule data turns with
  | case1 => cases h
  | case2 => cases h
  | case3 _ _ _ ih => exact ih h
  | case4 _ _ _ _ ih => exact ih h
  | case5 => exact ⟨.interrupted, (Option.some.inj h).symm⟩
  | case6 _ _ _ reason => exact ⟨.other reason, (Option.some.inj h).symm⟩
  | case7 => exact ⟨rule.onZero, (Option.some.inj h).symm⟩
  | case8 _ _ _ _ _ _ ih => exact ih h

theorem fault_deliver_of_flows (hturns : ∀ t ∈ turns, t.flows = true) :
    (deliver rule data turns).fault = none := by
  fun_induction deliver rule data turns with
  | case1 => rfl
  | case2 => rfl
  | case3 _ _ _ ih => exact ih fun t ht => hturns t (List.mem_cons_of_mem _ ht)
  | case4 => cases hturns _ List.mem_cons_self
  | case5 => cases hturns _ List.mem_cons_self
  | case6 => cases hturns _ List.mem_cons_self
  | case7 => cases hturns _ List.mem_cons_self
  | case8 _ _ _ _ _ _ ih => exact ih fun t ht => hturns t (List.mem_cons_of_mem _ ht)

end Deliver

section Settle

variable {turns : List Turn}

theorem turns_settle_subset (turns : List Turn) : (settle turns).2 ⊆ turns := by
  fun_induction settle turns with
  | case1 => exact List.Subset.refl _
  | case2 _ ih => exact List.subset_cons_of_subset _ ih
  | case3 => exact List.subset_cons_self _ _
  | case4 => exact List.subset_cons_self _ _
  | case5 => exact List.subset_cons_self _ _

theorem fault_settle {e : Fault} (h : (settle turns).1 = some e) :
    ∃ cause, e = .transfer cause := by
  fun_induction settle turns with
  | case1 => cases h
  | case2 _ ih => exact ih h
  | case3 => exact ⟨.interrupted, (Option.some.inj h).symm⟩
  | case4 reason => exact ⟨.other reason, (Option.some.inj h).symm⟩
  | case5 => cases h

theorem fault_settle_of_flows (hturns : ∀ t ∈ turns, t.flows = true) : (settle turns).1 = none := by
  fun_induction settle turns with
  | case1 => rfl
  | case2 _ ih => exact ih fun t ht => hturns t (List.mem_cons_of_mem _ ht)
  | case3 => cases hturns _ List.mem_cons_self
  | case4 => cases hturns _ List.mem_cons_self
  | case5 => rfl

end Settle

/-! ## One write -/

namespace Link

/-- `after` is the link `l` once `bytes` have been written to it. -/
structure Writes (l : Link) (bytes : List UInt8) (after : Link) : Prop where
  outgoing : after.outgoing = l.outgoing ++ bytes
  writes : after.writes ⊆ l.writes
  flushes : after.flushes ⊆ l.flushes
  frame : after = { l with outgoing := after.outgoing, writes := after.writes
                           flushes := after.flushes }

/-- No call fails that writes to the link or flushes it. -/
def Takes (l : Link) : Prop :=
  (∀ t ∈ l.writes, t.flows = true) ∧ ∀ t ∈ l.flushes, t.flows = true

instance (l : Link) : Decidable l.Takes := inferInstanceAs (Decidable (_ ∧ _))

variable {l after last : Link} {bytes more : List UInt8}

theorem Writes.refl (l : Link) : l.Writes [] l where
  outgoing := (List.append_nil _).symm
  writes := List.Subset.refl _
  flushes := List.Subset.refl _
  frame := rfl

theorem Writes.trans (h : l.Writes bytes after) (h' : after.Writes more last) :
    l.Writes (bytes ++ more) last where
  outgoing := by rw [h'.outgoing, h.outgoing, List.append_assoc]
  writes := List.Subset.trans h'.writes h.writes
  flushes := List.Subset.trans h'.flushes h.flushes
  frame := by rw [h'.frame, h.frame]

theorem Writes.takes (h : l.Writes bytes after) (hl : l.Takes) : after.Takes :=
  ⟨fun t ht => hl.1 t (h.writes ht), fun t ht => hl.2 t (h.flushes ht)⟩

/-- What one run of calls does to a link. -/
theorem writes_deliver (rule : WriteRule) (data : List UInt8) (l : Link) :
    let d := deliver rule data l.writes
    l.Writes d.bytes { l with outgoing := l.outgoing ++ d.bytes, writes := d.turns } where
  outgoing := rfl
  writes := turns_deliver_subset ..
  flushes := List.Subset.refl _
  frame := rfl

theorem writes_flush (l : Link) : l.Writes [] l.flush.2 where
  outgoing := (List.append_nil _).symm
  writes := List.Subset.refl _
  flushes := turns_settle_subset _
  frame := rfl

/-- A flush behind a write leaves the bytes as they are, whatever it comes to. -/
theorem Writes.flush {result : Except Fault Unit} (h : l.Writes bytes after)
    (hflush : after.flush = (result, last)) : l.Writes bytes last := by
  have hboth := h.trans (writes_flush after)
  rwa [hflush, List.append_nil] at hboth

theorem fst_flush (l : Link) : l.flush.1 = outcome () (settle l.flushes).1 := rfl

theorem flush_error {e : Fault} (h : l.flush.1 = .error e) : ∃ cause, e = .transfer cause := by
  rw [fst_flush] at h
  rcases hsettle : (settle l.flushes).1 with _ | e' <;> rw [hsettle] at h <;> cases h
  exact fault_settle hsettle

theorem flush_of_takes (hl : l.Takes) : l.flush.1 = .ok () := by
  rw [fst_flush, fault_settle_of_flows hl.2]
  rfl

/-- `l.Pushed data result after` lists how writing the data to the link `l` and flushing can end: the
result, and the link afterwards. -/
inductive Pushed (l : Link) (data : List UInt8) : Except Fault Unit → Link → Prop
  /-- All of the data are written, and a flush follows them. -/
  | flushed {between after : Link} (writes : l.Writes data between)
      (unused : between.flushes = l.flushes) (flushes : between.flush = (.ok (), after)) :
      Pushed l data (.ok ()) after
  /-- All of the data are written, and the flush behind them fails. -/
  | unflushed {between after : Link} {cause : TransferFault} (writes : l.Writes data between)
      (unused : between.flushes = l.flushes)
      (fails : between.flush = (.error (.transfer cause), after)) :
      Pushed l data (.error (.transfer cause)) after
  /-- A call fails with the first of the data written and others not, and there is no flush. -/
  | cut {written pending : List UInt8} {after : Link} {cause : TransferFault}
      (split : data = written ++ pending) (short : pending ≠ []) (writes : l.Writes written after)
      (unused : after.flushes = l.flushes) (fails : ¬ ∀ t ∈ l.writes, t.flows = true) :
      Pushed l data (.error (.transfer cause)) after

/-- **Every end of writing and flushing**, whatever the link does. -/
theorem pushed_send (data : List UInt8) (l : Link) :
    l.Pushed data (l.send data).1 (l.send data).2 := by
  let d := deliver (writeRule l.mode) data l.writes
  let between : Link := { l with outgoing := l.outgoing ++ d.bytes, writes := d.turns }
  have hwrites : l.Writes d.bytes between := writes_deliver (writeRule l.mode) data l
  rcases hfault : d.fault with _ | e
  · have hsend : l.send data = between.flush := by
      rw [send, hfault]
    have hall : d.bytes = data := bytes_deliver hfault
    rw [hall] at hwrites
    rw [hsend]
    rcases hflush : between.flush with ⟨e | ⟨⟩, after⟩
    · obtain ⟨cause, rfl⟩ := flush_error (congrArg Prod.fst hflush)
      exact .unflushed hwrites rfl hflush
    · exact .flushed hwrites rfl hflush
  · -- a call has failed, so the flush is not tried
    have hsend : l.send data = (.error e, between) := by
      rw [send, hfault]
    obtain ⟨cause, rfl⟩ := fault_deliver hfault
    have hsplit : d.bytes ++ d.pending = data := deliver_split (writeRule l.mode) data l.writes
    rw [hsend]
    refine .cut hsplit.symm (pending_deliver_ne_nil hfault) hwrites rfl ?_
    intro hflows
    rw [fault_deliver_of_flows hflows] at hfault
    cases hfault

/-- All of the data are written, or the link fails when some of them, from the front, have been. -/
theorem send_cases (data : List UInt8) (l : Link) :
    (∃ after, l.send data = (.ok (), after) ∧ l.Writes data after) ∨
      ∃ cause written after, l.send data = (.error (.transfer cause), after) ∧
        written <+: data ∧ l.Writes written after ∧ ¬ l.Takes := by
  have hpushed := l.pushed_send data
  generalize l.send data = sent at hpushed
  obtain ⟨result, after⟩ := sent
  cases hpushed with
  | flushed writes _ flushes =>
    exact .inl ⟨after, rfl, writes.flush flushes⟩
  | @unflushed between _ cause writes _ fails =>
    refine .inr ⟨cause, data, after, rfl, List.prefix_refl data, writes.flush fails, ?_⟩
    intro htakes
    have hflush := flush_of_takes (writes.takes htakes)
    rw [fails] at hflush
    cases hflush
  | @cut written pending _ cause split _ writes _ fails =>
    refine .inr ⟨cause, written, after, rfl, ⟨pending, split.symm⟩, writes, ?_⟩
    intro htakes
    exact fails htakes.1

end Link

end PacketStream
