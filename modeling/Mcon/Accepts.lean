import Mcon.WellFormed

/-!
# The accepts in flight

`accepts_live` is the number of accept operations outstanding, and never exceeds the number of free slots.
-/

namespace Mcon

open Transition (Run Path history finalState)

variable {C : Ctools} {m m' : Instance C} {k : StepKind} {obs : List Obs}

def isAccept (e : IoUringEntry) : Bool := e.operation == .accept

/-- An accept is put into the io_queue. -/
def Act.isAcceptPush : Act → Bool
  | ioQueuePush sqe => isAccept sqe.userData
  | _ => false

structure AcceptsCounted (m : Instance C) : Prop where
  count : m.state.acceptsLive.toNat = m.outstanding.countP isAccept
  le_max : m.state.acceptsLive.toNat ≤ m.configuration.maxLiveAcceptSqes.toNat
  le_free : m.state.acceptsLive.toNat ≤ C.idxStack.size m.sessionFreeStack

theorem newInstance_acceptsCounted (instanceId : UInt16) (eventfd : Int) (config : Config) :
    AcceptsCounted (newInstance C instanceId eventfd config) := by
  constructor
  · rw [newInstance_outstanding]
    rfl
  · simp [newInstance]
  · simp [newInstance]

/-! ### One small step -/

/-- The kinds of small steps of `mcon_submit`. -/
def submitKinds : List StepKind := [.acceptEnqueued, .pop, .submitted, .submitFailed]

/-- What a small step does to the accepts: the counter moves by what was enqueued and what was consumed, without
wrapping. -/
structure AcceptStep (m : Instance C) (k : StepKind) (obs : List Obs) (m' : Instance C) : Prop where
  counted : AcceptsCounted m'
  no_failed_pop : Obs.act (.stackPop none) ∉ obs
  ledger : ∃ consumed, m'.state.acceptsLive.toNat + consumed =
    m.state.acceptsLive.toNat + (obs.filterMap Obs.act?).countP Act.isAcceptPush ∧ (k ∈ submitKinds → consumed = 0)

namespace AcceptsCounted

variable (hc : AcceptsCounted m)

include hc

/-- A step that leaves the accepts alone and takes no slot. -/
theorem same (hconfig : m'.configuration = m.configuration)
    (hlive : m'.state.acceptsLive = m.state.acceptsLive)
    (hout : m'.outstanding.countP isAccept = m.outstanding.countP isAccept)
    (hsize : C.idxStack.size m.sessionFreeStack ≤ C.idxStack.size m'.sessionFreeStack)
    (hpop : Obs.act (.stackPop none) ∉ obs) (hpush : (obs.filterMap Obs.act?).countP Act.isAcceptPush = 0) :
    AcceptStep m k obs m' := by
  refine ⟨⟨?_, ?_, ?_⟩, hpop, 0, ?_, fun _ => rfl⟩
  · rw [hlive, hout]; exact hc.count
  · rw [hlive, hconfig]; exact hc.le_max
  · rw [hlive]; exact Nat.le_trans hc.le_free hsize
  · rw [hlive, hpush]

/-- While the completion of an accept is in the CQ ring, the counter is positive. -/
theorem pos_of_cq {cqe : Cqe} {rest : List Cqe} (hcq : m.ring.cq = cqe :: rest)
    (hop : cqe.userData.operation = .accept) :
    m.state.acceptsLive.toNat = m.cqeSeen.outstanding.countP isAccept + 1 := by
  have haccept : isAccept cqe.userData = true := by simp [isAccept, hop]
  rw [hc.count, (outstanding_cqeSeen m hcq).countP_eq, List.countP_cons_of_pos haccept]

/-- A step that consumes the completion of an accept and takes at most one slot. -/
theorem consumed {cqe : Cqe} {rest : List Cqe} (hcq : m.ring.cq = cqe :: rest)
    (hop : cqe.userData.operation = .accept) (hconfig : m'.configuration = m.configuration)
    (hlive : m'.state.acceptsLive = m.state.acceptsLive - 1)
    (hout : m'.outstanding = m.cqeSeen.outstanding)
    (hsize : C.idxStack.size m.sessionFreeStack ≤ C.idxStack.size m'.sessionFreeStack + 1)
    (hpop : Obs.act (.stackPop none) ∉ obs) (hpush : (obs.filterMap Obs.act?).countP Act.isAcceptPush = 0)
    (hk : k ∉ submitKinds) : AcceptStep m k obs m' := by
  have hpos := hc.pos_of_cq hcq hop
  have hle : (1 : UInt16) ≤ m.state.acceptsLive := by
    rw [UInt16.le_iff_toNat_le, UInt16.toNat_one]
    omega
  have hnat : m'.state.acceptsLive.toNat + 1 = m.state.acceptsLive.toNat := by
    rw [hlive, UInt16.toNat_sub_of_le _ _ hle, UInt16.toNat_one]
    omega
  have hmax := hc.le_max
  have hfree := hc.le_free
  refine ⟨⟨?_, ?_, ?_⟩, hpop, 1, ?_, fun h => absurd h hk⟩
  · rw [hout]; omega
  · rw [hconfig]; omega
  · omega
  · omega

/-- There is a free slot for the connection. -/
theorem pop_ne_none {cqe : Cqe} {rest : List Cqe} (hcq : m.ring.cq = cqe :: rest)
    (hop : cqe.userData.operation = .accept) : C.idxStack.pop m.sessionFreeStack ≠ none := by
  intro hnone
  have hpos := hc.pos_of_cq hcq hop
  have hfree := hc.le_free
  rw [C.idxStack.size_eq, (C.idxStack.pop_eq_none _).1 hnone, List.length_nil] at hfree
  omega

end AcceptsCounted

theorem SlotOp.isAccept_entry (op : SlotOp) (s : Nat) : isAccept (op.entry s) = false := by
  simp [isAccept, entry, op.operation_ne_accept]

/-- Consuming the completion of another operation leaves the accepts alone. -/
private theorem countP_cqeSeen {cqe : Cqe} {rest : List Cqe} {op : SlotOp} {s : Nat}
    (hcq : m.ring.cq = cqe :: rest) (hdata : cqe.userData = op.entry s) :
    m.cqeSeen.outstanding.countP isAccept = m.outstanding.countP isAccept := by
  rw [(outstanding_cqeSeen m hcq).countP_eq, hdata, List.countP_cons_of_neg (by simp [op.isAccept_entry])]

private theorem acceptStep_acceptEnqueued (hm : WellFormed m) (hc : AcceptsCounted m) {ioq : C.kqueue.Carrier}
    (hlive : m.state.acceptsLive.toNat < m.configuration.maxLiveAcceptSqes.toNat)
    (hfree : m.state.acceptsLive.toNat < C.idxStack.size m.sessionFreeStack)
    (hpush : C.kqueue.push m.ioQueue acceptGroup (acceptSqe m) = some ioq) :
    AcceptStep m .acceptEnqueued [.act (.ioQueuePush (acceptSqe m))] (acceptEnqueued { m with ioQueue := ioq }) := by
  have hq := (mconConfigValidate_spec hm.valid).maxLiveAcceptSqes_le
  have h16 := m.configuration.ioUringQueueSize.toNat_lt
  have hnat : (m.state.acceptsLive + 1).toNat = m.state.acceptsLive.toNat + 1 := by
    rw [UInt16.toNat_add, UInt16.toNat_one, Nat.mod_eq_of_lt (by omega)]
  have hout : (acceptEnqueued { m with ioQueue := ioq }).outstanding.countP isAccept =
      m.outstanding.countP isAccept + 1 := by
    refine ((outstanding_push m hpush).countP_eq _).trans ?_
    rw [List.countP_cons_of_pos rfl]
  refine ⟨⟨?_, ?_, ?_⟩, by simp, 0, ?_, fun _ => rfl⟩
  · rw [hout, ← hc.count]; exact hnat
  · exact hnat.trans_le hlive
  · exact hnat.trans_le hfree
  · exact hnat

theorem AcceptsCounted.acceptStep (hm : WellFormed m) (hc : AcceptsCounted m) (h : SmallStep m k obs m') :
    AcceptStep m k obs m' := by
  cases h with
  | kernel hstep =>
    refine hc.same rfl rfl ((outstanding_kernel m hstep).countP_eq _) (Nat.le_refl _) ?_ ?_
    · intro hmem
      cases hstep <;> simp at hmem
    · cases hstep <;> rfl
  | request _ hdata _ _ hpush =>
    refine hc.same rfl rfl ?_ (Nat.le_refl _) (by simp) ?_
    · refine ((outstanding_push m hpush).countP_eq _).trans ?_
      rw [hdata, List.countP_cons_of_neg (by simp [SlotOp.isAccept_entry])]
    · simp [Act.isAcceptPush, hdata, SlotOp.isAccept_entry]
  | acceptEnqueued hlive hfree hpush => exact acceptStep_acceptEnqueued hm hc hlive hfree hpush
  | pop hpop => exact hc.same rfl rfl ((outstanding_pop m hpop).countP_eq _) (Nat.le_refl _) (by simp) rfl
  | submitted _ => exact hc.same rfl rfl ((outstanding_ringTaken m _).countP_eq _) (Nat.le_refl _) (by simp) rfl
  | acceptAgain hcq hop _ =>
    exact hc.consumed hcq hop rfl rfl rfl (Nat.le_succ _) (by simp) rfl (by simp [submitKinds])
  | acceptFailed hcq hop _ =>
    exact hc.consumed hcq hop rfl rfl rfl (Nat.le_succ _) (by simp) rfl (by simp [submitKinds])
  | acceptNoSlot hcq hop _ hpop =>
    -- a live accept has its slot
    have hpos := hc.pos_of_cq hcq hop
    have hfree := hc.le_free
    rw [C.idxStack.size_eq, (C.idxStack.pop_eq_none _).1 hpop, List.length_nil] at hfree
    omega
  | acceptRollback hcq hop _ hpop hpush =>
    refine hc.consumed hcq hop rfl rfl rfl ?_ (by simp) rfl (by simp [submitKinds])
    have hpushed := C.idxStack.size_push hpush
    have hpopped := C.idxStack.size_pop hpop
    dsimp only
    omega
  | accepted hcq hop _ hpop =>
    exact hc.consumed hcq hop rfl rfl rfl (C.idxStack.size_pop hpop).le (by simp) rfl (by simp [submitKinds])
  | transferred hcq hdata _ =>
    exact hc.same rfl rfl (countP_cqeSeen hcq hdata) (Nat.le_refl _) (by simp) rfl
  | closed hcq hdata hpush =>
    refine hc.same (closeDone_configuration _ _ _) (closeDone_acceptsLive _ _ _) ?_ ?_ (by simp) rfl
    · refine Eq.trans ?_ (countP_cqeSeen hcq hdata)
      exact congrArg (List.countP isAccept) (closeDone_outstanding _ _ _)
    · have hsize := C.idxStack.size_push hpush
      simp only [countDown, closeDone_freeStack]
      omega
  | detached _ hpush =>
    refine hc.same (detachDone_configuration _ _ _) (detachDone_acceptsLive _ _ _) ?_ ?_ (by simp) rfl
    · rw [detachDone_outstanding]
    · have hsize := C.idxStack.size_push hpush
      rw [detachDone_freeStack]
      omega
  | detachUndone _ hpush hpop =>
    refine hc.same rfl rfl rfl ?_ (by simp) rfl
    have hpushed := C.idxStack.size_push hpush
    have hpopped := C.idxStack.size_pop hpop
    dsimp only
    omega
  | detachEnoent _ hpush =>
    exact hc.same rfl rfl rfl ((Nat.le_succ _).trans_eq (C.idxStack.size_push hpush).symm) (by simp) rfl
  | eventfd hact =>
    rcases hact with rfl | rfl <;> exact hc.same rfl rfl rfl (Nat.le_refl _) (by simp) rfl
  | look _ hact =>
    rcases hact with rfl | ⟨err, rfl⟩ <;> exact hc.same rfl rfl rfl (Nat.le_refl _) (by simp) rfl
  | _ => exact hc.same rfl rfl rfl (Nat.le_refl _) (by simp) rfl

/-! ### Calls and executions -/

/-- The small steps of a call together. -/
theorem AcceptsCounted.path {P : StepKind → Prop} (hm : WellFormed m) (hc : AcceptsCounted m)
    (h : Path SmallStep P m obs m') :
    AcceptsCounted m' ∧ Obs.act (.stackPop none) ∉ obs ∧
      ∃ consumed, m'.state.acceptsLive.toNat + consumed =
        m.state.acceptsLive.toNat + (obs.filterMap Obs.act?).countP Act.isAcceptPush ∧
        ((∀ k, P k → k ∈ submitKinds) → consumed = 0) := by
  induction h with
  | nil => exact ⟨hc, by simp, 0, rfl, fun _ => rfl⟩
  | cons hstep hk _ ih =>
    obtain ⟨hc₁, hpop₁, consumed₁, hledger₁, hzero₁⟩ := hc.acceptStep hm hstep
    obtain ⟨hc₂, hpop₂, consumed₂, hledger₂, hzero₂⟩ := ih (hm.smallStep hstep) hc₁
    refine ⟨hc₂, ?_, consumed₁ + consumed₂, ?_, fun hP => ?_⟩
    · rw [List.mem_append]
      exact fun hmem => hmem.elim hpop₁ hpop₂
    · rw [List.filterMap_append, List.countP_append]
      omega
    · rw [hzero₁ (hP _ hk), hzero₂ hP]

theorem Calls.accepts {P : StepKind → Prop} {acts : List Act} {log : List (Nat × SlotEvent)} (hm : WellFormed m)
    (hc : AcceptsCounted m) (h : Calls P m acts log m') :
    AcceptsCounted m' ∧ Act.stackPop none ∉ acts ∧
      ∃ consumed, m'.state.acceptsLive.toNat + consumed =
        m.state.acceptsLive.toNat + acts.countP Act.isAcceptPush ∧
        ((∀ k, P k → k ∈ submitKinds) → consumed = 0) := by
  obtain ⟨obs, hpath, rfl, -⟩ := h
  obtain ⟨hc', hpop, hledger⟩ := hc.path hm hpath
  exact ⟨hc', fun hmem => hpop ((Obs.mem_acts_iff rfl).1 hmem), hledger⟩

theorem Execution.acceptsCounted {ok : Instance C → Input → Prop} {h : History} (he : Execution ok h m) :
    AcceptsCounted m := by
  obtain ⟨config, instanceId, eventfd, hvalid, -, -, hcalls⟩ :=
    he.calls (P := fun _ => True) fun _ _ _ _ _ => trivial
  exact (hcalls.accepts (newInstance_wellFormed hvalid instanceId eventfd)
    (newInstance_acceptsCounted instanceId eventfd config)).1

/-- In every reachable state `accepts_live` is the number of accepts outstanding, at most the configured maximum
and at most the number of free slots; no pop of the free stack has failed.  Submitting raises the counter by
exactly the accepts it enqueues and no other call raises it, and the accept loop ends. -/
theorem accepts_live_counts_accepts {h : History} (he : Execution anyInput h m) :
    m.state.acceptsLive.toNat = m.outstanding.countP isAccept ∧
      m.state.acceptsLive.toNat ≤ m.configuration.maxLiveAcceptSqes.toNat ∧
      m.state.acceptsLive.toNat ≤ C.idxStack.size m.sessionFreeStack ∧
      Act.stackPop none ∉ actsOf h ∧
      (∀ res, (mconSubmit m res).1.state.acceptsLive.toNat =
        m.state.acceptsLive.toNat + (mconSubmit m res).2.acts.countP Act.isAcceptPush) ∧
      (∀ i, (step m i).1.state.acceptsLive.toNat ≤
        m.state.acceptsLive.toNat + (step m i).2.acts.countP Act.isAcceptPush) ∧
      (acceptLoop (C.kqueue.capacity m.ioQueue + 1) m).isSome := by
  obtain ⟨config, instanceId, eventfd, hvalid, -, hm, hcalls⟩ :=
    he.calls (P := fun _ => True) (fun _ _ _ _ _ => trivial)
  obtain ⟨hc, hpop, -⟩ := hcalls.accepts (newInstance_wellFormed hvalid _ _) (newInstance_acceptsCounted _ _ config)
  refine ⟨hc.count, hc.le_max, hc.le_free, hpop, fun res => ?_, fun i => ?_, acceptLoop_isSome _ m (by omega)⟩
  · obtain ⟨-, -, consumed, hledger, hzero⟩ := (calls_step m hm.cq_entries (.submit res)).accepts hm hc
    rw [hzero fun k hk => by simpa [submitKinds, Input.allows] using hk] at hledger
    exact hledger
  · obtain ⟨-, -, consumed, hledger, -⟩ := (calls_step m hm.cq_entries i).accepts hm hc
    omega

/-- Two accepts are wanted and there are three slots. -/
theorem accepts_live_counts_accepts_two :
    (finalState step (freshInstance (smallConfig 3 4 2)) [startInput, serverInput, .submit 1]).outstanding.countP
      isAccept = 2 := by
  have hrun : Execution anyInput _ _ := Execution.of_inputs (smallConfig 3 4 2) (by decide)
    [startInput, serverInput, .submit 1] (.of_forall (fun _ _ _ => trivial) _)
  rw [← (accepts_live_counts_accepts hrun).1]
  decide

end Mcon
