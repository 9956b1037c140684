import Mcon.Accepts
import Mcon.Indices
import Mcon.Refusals
import Mcon.Submission
import Mathlib.Algebra.BigOperators.Group.Finset.Piecewise
import Mathlib.Algebra.BigOperators.Ring.Finset
import Mathlib.Algebra.Order.BigOperators.Group.Finset

/-!
# How large the io_queue has to be

A slot has at most two operations outstanding, a free one none, and there are no more accepts than free slots.  So an
io_queue with room for two entries a session is never full: the session calls are then refused for no other reason
than the life of their slot, and `mcon_submit` enqueues all the accepts it wants.
-/

namespace Mcon

open Transition (Run AllOk history finalState)

variable {C : Ctools} {m m' : Instance C} {A : Nat → Slot} {i : Input} {s : Nat} {e : SlotEvent}

/-! ### The operations of a slot -/

namespace Slot

/-- The number of operations that wait for their answer. -/
def load : Slot → Nat
  | .free => 0
  | .busy r w => r.isSome.toNat + w.toNat
  | .closing => 1

theorem load_eq (x : Slot) : x.load = (x.pending (.reading .read)).toNat + (x.pending (.reading .drain)).toNat +
    (x.pending .write).toNat + (x.pending .close).toNat := by
  rcases x with _ | ⟨_ | _ | _, _ | _⟩ | _ <;> rfl

theorem load_le_two (x : Slot) : x.load ≤ 2 := by
  rcases x with _ | ⟨_ | kind, _ | _⟩ | _ <;> simp [load]

theorem load_of_next_called {x y : Slot} {op : SlotOp} (h : x.next (.called op) = some y) : y.load = x.load + 1 := by
  rcases x with _ | ⟨_ | kind, _ | _⟩ | _ <;> rcases op with _ | _ | _ <;> simp [next] at h <;> subst h <;> rfl

end Slot

/-- The number of entries of the session `s`. -/
def entriesOf (l : List IoUringEntry) (s : Nat) : Nat :=
  l.count (SlotOp.entry (.reading .read) s) + l.count (SlotOp.entry (.reading .drain) s) +
    l.count (SlotOp.entry .write s) + l.count (SlotOp.entry .close s)

theorem entriesOf_cons (op : SlotOp) (s t : Nat) (l : List IoUringEntry) :
    entriesOf (op.entry s :: l) t = entriesOf l t + if t = s then 1 else 0 := by
  unfold entriesOf
  simp only [count_cons_entry]
  by_cases hts : t = s
  · rcases op with (_ | _) | _ | _ <;> simp [hts] <;> omega
  · simp [hts]

/-- Every entry is that of an accept or of a session. -/
theorem length_eq_of_validEntries {n : Nat} {l : List IoUringEntry} (hl : ∀ e ∈ l, ValidEntry n e) :
    l.length = l.countP isAccept + ∑ s ∈ Finset.range n, entriesOf l s := by
  induction l with
  | nil => simp [entriesOf]
  | cons e l ih =>
    have ih := ih fun e' he' => hl e' (List.mem_cons_of_mem _ he')
    cases hl e List.mem_cons_self with
    | accept =>
      have hsum : ∀ s, entriesOf (⟨.accept, mconNoSession⟩ :: l) s = entriesOf l s := by
        intro s
        simp [entriesOf, count_cons_accept]
      simp only [hsum]
      rw [List.length_cons, List.countP_cons_of_pos rfl, ih]
      omega
    | session op hs =>
      have hone : ∑ t ∈ Finset.range n, (if t = _ then 1 else 0) = 1 :=
        (Finset.sum_ite_eq' _ _ _).trans (if_pos (Finset.mem_range.2 hs))
      simp only [entriesOf_cons]
      rw [List.length_cons, List.countP_cons_of_neg (by simp [SlotOp.isAccept_entry]), Finset.sum_add_distrib, hone, ih]
      omega

/-- What is outstanding: the accepts, and the operations of the slots. -/
theorem Represents.outstanding_length (hrep : Represents m A) (hv : ValidIndices m) :
    m.outstanding.length = m.outstanding.countP isAccept +
      ∑ s ∈ Finset.range m.configuration.sessionCount.toNat, (A s).load := by
  rw [length_eq_of_validEntries hv.outstanding]
  congr 1
  refine Finset.sum_congr rfl fun s _ => ?_
  rw [entriesOf, hrep.count, hrep.count, hrep.count, hrep.count, Slot.load_eq]

/-! ### The bound -/

/-- The free stack holds the free slots. -/
theorem Represents.size_freeStack (hrep : Represents m A) :
    C.idxStack.size m.sessionFreeStack =
      ∑ s ∈ Finset.range m.configuration.sessionCount.toNat, if A s = .free then 1 else 0 := by
  have hset : (C.idxStack.contents m.sessionFreeStack).toFinset =
      (Finset.range m.configuration.sessionCount.toNat).filter fun s => A s = .free := by
    ext s
    rw [List.mem_toFinset, hrep.mem_stack, Finset.mem_filter, Finset.mem_range]
  rw [C.idxStack.size_eq, ← List.toFinset_card_of_nodup hrep.nodup, hset, Finset.card_filter]

/-- The operations and the free slots share the room of two entries a session. -/
theorem Represents.load_le (hrep : Represents m A) :
    ∑ s ∈ Finset.range m.configuration.sessionCount.toNat, (A s).load + 2 * C.idxStack.size m.sessionFreeStack ≤
      2 * m.configuration.sessionCount.toNat := by
  rw [hrep.size_freeStack, Finset.mul_sum, ← Finset.sum_add_distrib]
  refine (Finset.sum_le_sum (g := fun _ => 2) fun s _ => ?_).trans (by simp [Nat.mul_comm])
  have := (A s).load_le_two
  by_cases hfree : A s = .free
  · simp [hfree, Slot.load]
  · simpa [hfree] using this

/-- There is room for one operation more when a slot allows it. -/
theorem Represents.load_lt (hrep : Represents m A) {op : SlotOp} (hallowed : ((A s).next (.called op)).isSome) :
    ∑ s ∈ Finset.range m.configuration.sessionCount.toNat, (A s).load + 2 * C.idxStack.size m.sessionFreeStack <
      2 * m.configuration.sessionCount.toNat := by
  obtain ⟨y, hy⟩ := Option.isSome_iff_exists.1 hallowed
  have hbusy : A s ≠ .free := ((Slot.next_called_isSome_iff _ op).1 hallowed).1
  have hload := Slot.load_of_next_called hy
  have htwo := y.load_le_two
  have hs := hrep.lt_of_ne_free hbusy
  rw [hrep.size_freeStack, Finset.mul_sum, ← Finset.sum_add_distrib]
  have hlt : ∑ t ∈ Finset.range m.configuration.sessionCount.toNat, ((A t).load + 2 * if A t = .free then 1 else 0) <
      ∑ t ∈ Finset.range m.configuration.sessionCount.toNat, 2 := by
    refine Finset.sum_lt_sum (fun t _ => ?_) ⟨s, Finset.mem_range.2 hs, ?_⟩
    · have := (A t).load_le_two
      by_cases hfree : A t = .free
      · simp [hfree, Slot.load]
      · simpa [hfree] using this
    · simp only [hbusy, ↓reduceIte]
      omega
  simpa [Nat.mul_comm] using hlt

/-- What is queued is outstanding. -/
theorem queued_le_outstanding (m : Instance C) : C.kqueue.size m.ioQueue ≤ m.outstanding.length := by
  rw [C.kqueue.size_eq_length, Instance.outstanding, List.length_append, List.length_map]
  omega

/-! ### Session calls -/

/-- The io_queue has room for two entries a session. -/
def RoomForAll (config : Config) : Prop := 2 * config.sessionCount.toNat ≤ config.ioQueueSize.toNat

instance (config : Config) : Decidable (RoomForAll config) := inferInstanceAs (Decidable (_ ≤ _))

theorem Represents.not_full (hrep : Represents m A) (hm : WellFormed m) (hv : ValidIndices m)
    (hc : AcceptsCounted m) (hroom : RoomForAll m.configuration) {op : SlotOp}
    (hallowed : ((A s).next (.called op)).isSome) : C.kqueue.size m.ioQueue < C.kqueue.capacity m.ioQueue := by
  have hlength := hrep.outstanding_length hv
  have hload := hrep.load_lt hallowed
  have haccepts := hc.le_free
  have hqueued := queued_le_outstanding m
  unfold RoomForAll at hroom
  rw [hc.count] at haccepts
  rw [hm.queue_capacity]
  omega

/-- The answer of a session call on an instance whose io_queue has the room. -/
theorem Represents.call_rc_iff (hrep : Represents m A) (hm : WellFormed m) (hv : ValidIndices m)
    (hc : AcceptsCounted m) (hroom : RoomForAll m.configuration) (hi : i.slotEvent? = some (s, e)) :
    (step m i).2.rc = 0 ↔ ((A s).next e).isSome ∧ ∀ err, i ≠ .detach s (some err) := by
  have hrefused : ∀ {err : Option Int} {acts : List Act}, step m i = (m, .ret (-1) err acts) →
      ¬ (step m i).2.rc = 0 := by
    intro err acts hstep hrc
    rw [hstep] at hrc
    cases hrc
  cases hrep.callOutcome hm hi with
  | outside hs hstep =>
    refine iff_of_false (hrefused hstep) fun h => ?_
    have hfree := hrep.outside s hs
    rw [hfree] at h
    cases i <;> cases hi <;> cases h.1
  | refused _ hnone hstep => exact iff_of_false (hrefused hstep) fun h => by rw [hnone] at h; cases h.1
  | queueFull hallowed hfull hstep =>
    exfalso
    have hnot : ∀ op, ((A s).next (.called op)).isSome → False := by
      intro op hop
      exact absurd (hrep.not_full hm hv hc hroom hop) (Nat.not_lt.2 hfull)
    cases i with
    | detach => cases hi; exact hnot .close (by rwa [← Slot.next_detached_isSome])
    | _ => cases hi <;> exact hnot _ hallowed
  | delFailed err _ hdetach hrc _ => exact iff_of_false (by rw [hrc]; decide) fun h => h.2 err hdetach
  | done hallowed hrc _ =>
    refine iff_of_true hrc ⟨hallowed, fun err hdetach => ?_⟩
    subst hdetach
    have hstep : (mconSessionDetach m s (some err)).2.rc = 0 := hrc
    cases mconSessionDetach_outcome m s (some err) with
    | refused _ _ hcall => rw [hcall] at hstep; cases hstep
    | noRoom _ _ hcall => rw [hcall] at hstep; cases hstep
    | done _ _ _ hdel => cases hdel
    | undone _ _ _ _ _ _ _ _ hcall => rw [hcall] at hstep; cases hstep
    | halfDone _ _ _ _ hcall => rw [hcall] at hstep; cases hstep

/-- With room for two entries a session in the io_queue, in every run without a half-done detach, a read, a write, a
drain or a close returns `0` exactly when the life of its slot so far allows it, and a detach exactly when in addition
its `EPOLL_CTL_DEL` succeeds. -/
theorem sized_queue_serves_every_legal_call {h : History} (he : Execution DetachesWhole h m)
    (hroom : RoomForAll m.configuration) (hi : i.slotEvent? = some (s, e)) :
    ∃ x, Slot.run .free (slotLog h s) = some x ∧
      ((step m i).2.rc = 0 ↔ (x.next e).isSome ∧ ∀ err, i ≠ .detach s (some err)) := by
  obtain ⟨A, hm, hrep, hrun, -⟩ := he.represents_whole
  exact ⟨A s, hrun s, hrep.call_rc_iff hm he.validIndices he.acceptsCounted hroom hi⟩

/-- A session of two is written to while it is read. -/
theorem sized_queue_serves_every_legal_call_reading :
    let inputs := startInput :: serverInput :: connectInputs 20 ++ [.read 0 1000 16]
    let m₀ := freshInstance (smallConfig 2 4 1)
    ∃ x, Slot.run .free (slotLog (history step m₀ inputs) 0) = some x ∧
      ((step (finalState step m₀ inputs) (.write 0 1000 16)).2.rc = 0 ↔
        (x.next (.called .write)).isSome ∧ ∀ err, Input.write 0 1000 16 ≠ .detach 0 (some err)) := by
  have hrun : Execution DetachesWhole _ _ := Execution.of_inputs (smallConfig 2 4 1) (by decide)
    (startInput :: serverInput :: connectInputs 20 ++ [.read 0 1000 16])
    (.of_forall (fun i hi m => NoEnoent.detachesWhole (by
      revert i
      simp [NoEnoent, startInput, serverInput, connectInputs, completeInputs, ringInput])) _)
  exact sized_queue_serves_every_legal_call hrun (by decide) rfl

/-! ### Accepts -/

/-- The accept loop ends with as many accepts as are allowed and have a free slot, or at a full queue. -/
theorem acceptLoop_fills {fuel : Nat} {acts : List Act} (hm : WellFormed m) (hc : AcceptsCounted m)
    (h : acceptLoop fuel m = some (m', acts)) :
    m'.state.acceptsLive.toNat =
        min m.configuration.maxLiveAcceptSqes.toNat (C.idxStack.size m.sessionFreeStack) ∨
      m'.state.acceptsLive.toNat < C.idxStack.size m'.sessionFreeStack ∧
        C.kqueue.capacity m'.ioQueue ≤ C.kqueue.size m'.ioQueue := by
  induction fuel generalizing m acts with
  | zero => cases h
  | succ fuel ih =>
    have hmax := hc.le_max
    have hfree := hc.le_free
    unfold acceptLoop at h
    split at h
    · rename_i hlive
      split at h
      · rename_i err herr
        cases h
        by_cases hsome : C.idxStack.size m'.sessionFreeStack ≤ m'.state.acceptsLive.toNat
        · left
          omega
        · refine .inr ⟨Nat.lt_of_not_le hsome, ?_⟩
          cases hpush : C.kqueue.push m'.ioQueue acceptGroup (acceptSqe m') with
          | none => exact C.kqueue.push_eq_none _ _ _ (by rw [hm.queue_groups]; decide) hpush
          | some ioq =>
            rw [enqueueAccept_of_push (Nat.lt_of_not_le hsome) hpush] at herr
            cases herr
      · rename_i m₁ hm₁
        obtain ⟨hsome, ioq, hpush, rfl⟩ := enqueueAccept_ok hm₁
        have hs : SmallStep m .acceptEnqueued [.act (.ioQueuePush (acceptSqe m))]
            (acceptEnqueued { m with ioQueue := ioq }) := .acceptEnqueued hlive hsome hpush
        split at h
        · cases h
        · rename_i m₂ acts₂ hrest
          cases h
          exact ih (m := acceptEnqueued { m with ioQueue := ioq }) (hm.smallStep hs) (hc.acceptStep hm hs).counted hrest
    · cases h
      left
      omega

theorem mconSubmit_acceptsLive (m : Instance C) (res : Int) :
    (mconSubmit m res).1.state.acceptsLive = (submitAccepts m).1.state.acceptsLive := by
  have hring : ∀ x : Instance C, (submitRing x res).1.state.acceptsLive = x.state.acceptsLive := by
    intro x
    unfold submitRing
    dsimp only
    split <;> rfl
  unfold mconSubmit
  dsimp only
  split
  · rw [hring]
    rfl
  · rfl

/-- There are at most two operations outstanding for each session. -/
theorem Represents.outstanding_le (hrep : Represents m A) (hv : ValidIndices m) (hc : AcceptsCounted m) :
    m.outstanding.length + C.idxStack.size m.sessionFreeStack ≤
      2 * m.configuration.sessionCount.toNat + m.state.acceptsLive.toNat := by
  have hlength := hrep.outstanding_length hv
  have hload := hrep.load_le
  have hfree := hc.le_free
  have hcount := hc.count
  omega

/-- The accepts that are queued at the start of `mcon_submit` keep the slots. -/
theorem Represents.submitAccepts (hrep : Represents m A) (hm : WellFormed m) :
    ∃ A', Represents (submitAccepts m).1 A' := by
  obtain ⟨obs, hpath, -⟩ := submitAccepts_calls m
  obtain ⟨A', hrep', -⟩ := hrep.path (fun k hk => by rw [← hk]; decide) hm hpath
  exact ⟨A', hrep'⟩

/-- The bound holds for the accepts that are queued at the start of `mcon_submit`, too. -/
theorem Represents.outstanding_submitAccepts_le (hrep : Represents m A) (hm : WellFormed m) (hv : ValidIndices m)
    (hc : AcceptsCounted m) :
    (Mcon.submitAccepts m).1.outstanding.length + C.idxStack.size (Mcon.submitAccepts m).1.sessionFreeStack ≤
      2 * m.configuration.sessionCount.toNat + (Mcon.submitAccepts m).1.state.acceptsLive.toNat := by
  have hcalls := submitAccepts_calls m
  have hv' : ValidIndices (Mcon.submitAccepts m).1 :=
    hcalls.invariant ValidIndices (fun _ _ _ _ _ hs hv => hv.smallStep hs) hv
  obtain ⟨A', hrep'⟩ := hrep.submitAccepts hm
  have hle := hrep'.outstanding_le hv' (hcalls.accepts hm hc).1
  rwa [hcalls.frame.configuration] at hle

/-- With room for two entries a session in the io_queue the accept loop is not stopped by a full queue. -/
theorem Represents.submitAccepts_fills (hrep : Represents m A) (hm : WellFormed m) (hv : ValidIndices m)
    (hc : AcceptsCounted m) (hroom : RoomForAll m.configuration) (hrequested : m.state.acceptsRequested = true) :
    (Mcon.submitAccepts m).1.state.acceptsLive.toNat =
      min m.configuration.maxLiveAcceptSqes.toNat (C.idxStack.size m.sessionFreeStack) := by
  have hloop : acceptLoop (C.kqueue.capacity m.ioQueue + 1) m =
      some ((Mcon.submitAccepts m).1, (Mcon.submitAccepts m).2) := by
    rw [Mcon.submitAccepts, if_pos hrequested, Prod.mk.eta, Option.some_get]
  rcases acceptLoop_fills hm hc hloop with hfills | ⟨hlive, hfull⟩
  · exact hfills
  exfalso
  -- the queue is not full while there is a free slot without an accept
  have hle := hrep.outstanding_submitAccepts_le hm hv hc
  have hqueued := queued_le_outstanding (Mcon.submitAccepts m).1
  unfold RoomForAll at hroom
  rw [((submitAccepts_calls m).wellFormed hm).queue_capacity, (submitAccepts_calls m).frame.configuration] at hfull
  omega

/-- With room for two entries a session in the io_queue, in every run without a half-done detach, `mcon_submit` brings
the accepts in flight to the number of free slots, or to the configured maximum if that is less, when an accept is
requested; otherwise it leaves their number as it is. -/
theorem sized_queue_takes_every_accept {h : History} (he : Execution DetachesWhole h m)
    (hroom : RoomForAll m.configuration) (res : Int) :
    (mconSubmit m res).1.state.acceptsLive.toNat =
      if m.state.acceptsRequested then
        min m.configuration.maxLiveAcceptSqes.toNat (C.idxStack.size m.sessionFreeStack)
      else m.state.acceptsLive.toNat := by
  obtain ⟨A, hm, hrep, -⟩ := he.represents_whole
  rw [mconSubmit_acceptsLive]
  split
  · rename_i hrequested
    exact hrep.submitAccepts_fills hm he.validIndices he.acceptsCounted hroom hrequested
  · rename_i hrequested
    rw [submitAccepts, if_neg hrequested]

/-- Two of three slots get an accept. -/
theorem sized_queue_takes_every_accept_two :
    (mconSubmit (finalState step (freshInstance (smallConfig 3 4 2)) [startInput, serverInput]) 2).1.state.acceptsLive =
      2 := by
  have hrun : Execution DetachesWhole _ _ := Execution.of_inputs (smallConfig 3 4 2) (by decide)
    [startInput, serverInput]
    (.of_forall (fun i hi m => NoEnoent.detachesWhole (by
      revert i
      simp [NoEnoent, startInput, serverInput])) _)
  have hlive := sized_queue_takes_every_accept hrun (by decide) 2
  exact UInt16.toNat_inj.1 (hlive.trans (by decide))

end Mcon
