import Mcon.WellFormed

/-!
# One call of `mcon_submit`

How many entries the call moves into the SQ ring, how many the kernel takes, and when `io_uring_submit` is called
at all.
-/

namespace Mcon

open Transition (Run Path AllOk history finalState)

variable {C : Ctools} {m : Instance C}

/-- The number of submissions an action hands to the kernel. -/
def Act.submitted : Act → Nat
  | ioUringSubmit res => res.toNat
  | _ => 0

/-! ### The parts of the call -/

/-- Nothing was taken from the queue, and the ring and the in-flight counter are the same. -/
structure QueuesOnly (m m' : Instance C) : Prop where
  ring : m'.ring = m.ring
  configuration : m'.configuration = m.configuration
  sqeInFlight : m'.state.sqeInFlight = m.state.sqeInFlight
  groups : C.kqueue.groups m'.ioQueue = C.kqueue.groups m.ioQueue
  size_le : C.kqueue.size m.ioQueue ≤ C.kqueue.size m'.ioQueue

theorem Calls.queuesOnly {m' : Instance C} {acts : List Act} {log : List (Nat × SlotEvent)}
    (h : Calls (Eq StepKind.acceptEnqueued) m acts log m') : QueuesOnly m m' := by
  obtain ⟨obs, hpath, -⟩ := h
  refine hpath.invariant (QueuesOnly m) ?_ ⟨rfl, rfl, rfl, rfl, Nat.le_refl _⟩
  rintro m₁ k obs m₂ rfl hstep hqueues
  cases hstep with
  | acceptEnqueued _ _ hpush =>
    have hsize := C.kqueue.size_push hpush
    refine ⟨hqueues.ring, hqueues.configuration, hqueues.sqeInFlight, ?_, ?_⟩
    · exact (C.kqueue.groups_push _ _ _ _ hpush).trans hqueues.groups
    · exact Nat.le_trans hqueues.size_le ((Nat.le_succ _).trans_eq hsize.symm)

theorem submitAccepts_calls (m : Instance C) :
    Calls (Eq StepKind.acceptEnqueued) m (submitAccepts m).2 [] (submitAccepts m).1 :=
  calls_submitAccepts rfl m

theorem submitAccepts_acts (m : Instance C) : ∀ a ∈ (submitAccepts m).2, ∃ sqe, a = .ioQueuePush sqe := by
  obtain ⟨obs, hpath, hacts, -⟩ := submitAccepts_calls m
  have hall := hpath.forall_mem (fun _ => True) (fun o => ∃ sqe, o = .act (.ioQueuePush sqe)) (by
    rintro m₁ k obs m₂ rfl hstep -
    cases hstep
    simp) trivial
  intro a ha
  obtain ⟨sqe, hsqe⟩ := hall _ ((Obs.mem_acts_iff hacts).1 ha)
  cases hsqe
  exact ⟨sqe, rfl⟩

theorem submitPop_spec (hgroups : C.kqueue.groups m.ioQueue = ioQueuePriorityGroupCount) :
    (submitPop m).1 = popLimit m.ioQueue m.ring (sqeLimit m).toNat ∧
      ∃ ioq moved, moved.length = (submitPop m).1 ∧
        (submitPop m).2 = { m with ioQueue := ioq, ring := { m.ring with sq := m.ring.sq ++ moved } } := by
  obtain ⟨hcount, hpops⟩ := ioQueuePopIntoRing_spec m.ioQueue m.ring (sqeLimit m).toNat hgroups
  obtain ⟨moved, hlen, hring⟩ := hpops.ring_eq
  refine ⟨hcount, (submitPop m).2.ioQueue, moved, hlen.trans hcount.symm, ?_⟩
  have hpop : (submitPop m).2 = { m with
      ioQueue := (submitPop m).2.ioQueue
      ring := (ioQueuePopIntoRing m.ioQueue m.ring (sqeLimit m).toNat).2.2 } := rfl
  rw [hpop, hring]

theorem submitRing_spec (m : Instance C) (res : Int) :
    ∃ n, n ≤ res.toNat ∧ n ≤ m.ring.sq.length ∧ (submitRing m res).1 = ringTaken m n ∧
      ∃ k, (submitRing m res).2.acts = [.ioUringSubmit k] ∧ k.toNat = n := by
  unfold submitRing Ring.ioUringSubmit
  by_cases hres : res < 0
  · refine ⟨0, Nat.zero_le _, Nat.zero_le _, ?_⟩
    simp only [hres, ↓reduceIte]
    refine ⟨?_, res, rfl, by omega⟩
    simp [ringTaken]
  · have hn : ¬ ((min res.toNat m.ring.sq.length : Nat) : Int) < 0 := by omega
    simp only [hres, ↓reduceIte, hn, Int.toNat_natCast]
    exact ⟨_, Nat.min_le_left _ _, Nat.min_le_right _ _, rfl, _, rfl, by omega⟩

theorem unconsumed_ringTaken {n : Nat} (hn : n ≤ m.ring.sq.length) :
    (ringTaken m n).ring.unconsumed = m.ring.unconsumed + n := by
  simp only [ringTaken, Ring.unconsumed, List.length_append, List.length_take]
  omega

/-! ### The call -/

/-- The number of entries the call moves into the SQ ring. -/
def submitPopped (m : Instance C) : Nat :=
  popLimit (submitAccepts m).1.ioQueue m.ring (sqeLimit m).toNat

/-- A call that leads from `m` to `m'` handed `n` entries to the kernel. -/
structure Submits (m : Instance C) (res : Int) (m' : Instance C) (acts : List Act) (n : Nat) : Prop where
  le_res : n ≤ res.toNat
  le_ring : n ≤ m.ring.sq.length + submitPopped m
  sqeInFlight : m'.state.sqeInFlight = m.state.sqeInFlight + UInt16.ofNat n
  unconsumed : m'.ring.unconsumed = m.ring.unconsumed + n
  configuration : m'.configuration = m.configuration
  submitted : (acts.map Act.submitted).sum = n
  calls_iff : (∃ k, Act.ioUringSubmit k ∈ acts) ↔ submitPopped m ≠ 0

theorem mconSubmit_spec (hm : WellFormed m) (res : Int) :
    ∃ n, Submits m res (mconSubmit m res).1 (mconSubmit m res).2.acts n := by
  obtain ⟨hring, hconfig, hflight, hgroups, -⟩ := (submitAccepts_calls m).queuesOnly
  have hacts := submitAccepts_acts m
  have hlimit : sqeLimit (submitAccepts m).1 = sqeLimit m := by rw [sqeLimit, hconfig, hflight]; rfl
  obtain ⟨hcount, ioq, moved, hlen, hpop⟩ := submitPop_spec (hgroups.trans hm.queue_groups)
  rw [hlimit, hring] at hcount
  rw [hring] at hpop
  have hpopped : (submitPop (submitAccepts m).1).1 = submitPopped m := hcount
  have hsum : ((submitAccepts m).2.map Act.submitted).sum = 0 := by
    rw [List.sum_eq_zero]
    intro x hx
    obtain ⟨a, ha, rfl⟩ := List.mem_map.1 hx
    obtain ⟨sqe, rfl⟩ := hacts a ha
    rfl
  have hnone : ∀ k, Act.ioUringSubmit k ∉ (submitAccepts m).2 := by
    intro k hk
    obtain ⟨sqe, hsqe⟩ := hacts _ hk
    cases hsqe
  unfold mconSubmit
  dsimp only
  by_cases hzero : submitPopped m = 0
  · rw [if_neg (by rw [hpopped]; simpa using hzero)]
    refine ⟨0, ⟨Nat.zero_le _, Nat.zero_le _, ?_, ?_, ?_, ?_, ?_⟩⟩
    · show (submitPop (submitAccepts m).1).2.state.sqeInFlight = _
      rw [hpop, hflight]
      exact (UInt16.add_zero _).symm
    · show (submitPop (submitAccepts m).1).2.ring.unconsumed = _
      rw [hpop]
      rfl
    · show (submitPop (submitAccepts m).1).2.configuration = _
      rw [hpop, hconfig]
    · exact hsum
    · exact iff_of_false (fun h => h.elim hnone) (not_not.2 hzero)
  · rw [if_pos (by rw [hpopped]; exact hzero)]
    obtain ⟨n, hres, hn, hstate, k, hk, hkn⟩ := submitRing_spec (submitPop (submitAccepts m).1).2 res
    have hunconsumed := unconsumed_ringTaken hn
    refine ⟨n, ⟨hres, ?_, ?_, ?_, ?_, ?_, ?_⟩⟩
    · rw [hpop] at hn
      rw [← hpopped, ← hlen, ← List.length_append]
      exact hn
    · rw [hstate, ringTaken, hpop]
      show (submitAccepts m).1.state.sqeInFlight + UInt16.ofNat n = _
      rw [hflight]
    · rw [hstate, hunconsumed, hpop]
      rfl
    · rw [hstate, ringTaken, hpop]
      exact hconfig
    · simp [hk, hsum, Act.submitted, hkn]
    · rw [hk]
      exact iff_of_true ⟨k, by simp⟩ hzero

/-! ### When `io_uring_submit` is called -/

/-- The accept loop of `mcon_submit` tries to enqueue an accept. -/
def AcceptWanted (m : Instance C) : Prop :=
  m.state.acceptsRequested = true ∧ m.state.acceptsLive.toNat < m.configuration.maxLiveAcceptSqes.toNat ∧
    m.state.acceptsLive.toNat < C.idxStack.size m.sessionFreeStack

/-- Without a wanted accept, or with a queue that refuses it, the loop does nothing. -/
theorem submitAccepts_eq_self
    (h : ¬ (AcceptWanted m ∧ (C.kqueue.push m.ioQueue acceptGroup (acceptSqe m)).isSome)) :
    submitAccepts m = (m, []) := by
  by_cases hrequested : m.state.acceptsRequested = true
  · have hloop : acceptLoop (C.kqueue.capacity m.ioQueue + 1) m = some (m, []) := by
      unfold acceptLoop
      split
      · rename_i hlive
        split
        · rfl
        · rename_i m' hqueued
          obtain ⟨hfree, ioq, hpush, -⟩ := enqueueAccept_ok hqueued
          exact absurd ⟨⟨hrequested, hlive, hfree⟩, by rw [hpush]; rfl⟩ h
      · rfl
    simp only [submitAccepts, if_pos hrequested, hloop, Option.get_some]
  · rw [submitAccepts, if_neg hrequested]

theorem enqueueAccept_of_push (hfree : m.state.acceptsLive.toNat < C.idxStack.size m.sessionFreeStack)
    {ioq : C.kqueue.Carrier} (hpush : C.kqueue.push m.ioQueue acceptGroup (acceptSqe m) = some ioq) :
    enqueueAccept m = .ok { m with ioQueue := ioq } := by
  have hqueued : ioQueuePush m.ioQueue (acceptSqe m) = .ok ioq := by
    have hgroup : ioQueuePriority (acceptSqe m).userData.operation = some acceptGroup := rfl
    simp only [ioQueuePush, hgroup, hpush]
  rw [enqueueAccept, if_neg (Nat.not_le_of_lt hfree), hqueued]

/-- A wanted accept is the first thing the loop pushes, if the queue takes it. -/
theorem submitAccepts_of_wanted (h : AcceptWanted m) {ioq : C.kqueue.Carrier}
    (hpush : C.kqueue.push m.ioQueue acceptGroup (acceptSqe m) = some ioq) :
    ∃ acts, (submitAccepts m).2 = .ioQueuePush (acceptSqe m) :: acts ∧
      C.kqueue.size ioq ≤ C.kqueue.size (submitAccepts m).1.ioQueue := by
  obtain ⟨hrequested, hlive, hfree⟩ := h
  have hqueued := enqueueAccept_of_push hfree hpush
  obtain ⟨⟨m', acts⟩, hloop⟩ := Option.isSome_iff_exists.1
    (acceptLoop_isSome (C.kqueue.capacity m.ioQueue + 1) m (by omega))
  have hout : submitAccepts m = (m', acts) := by
    simp only [submitAccepts, if_pos hrequested, hloop, Option.get_some]
  unfold acceptLoop at hloop
  rw [if_pos hlive, hqueued] at hloop
  dsimp only at hloop
  split at hloop
  · cases hloop
  · rename_i m'' acts' hrest
    cases hloop
    have hcalls : Calls (Eq StepKind.acceptEnqueued) _ _ _ _ := calls_acceptLoop rfl hrest
    rw [hout]
    exact ⟨acts', rfl, hcalls.queuesOnly.size_le⟩

theorem submitAccepts_size_ne_zero (hm : WellFormed m) :
    C.kqueue.size (submitAccepts m).1.ioQueue ≠ 0 ↔ C.kqueue.size m.ioQueue ≠ 0 ∨ AcceptWanted m := by
  constructor
  · intro hsize
    by_cases hwanted : AcceptWanted m
    · exact .inr hwanted
    · rw [submitAccepts_eq_self fun h => hwanted h.1] at hsize
      exact .inl hsize
  · have hle := (submitAccepts_calls m).queuesOnly.size_le
    rintro (hsize | hwanted)
    · omega
    · cases hpush : C.kqueue.push m.ioQueue acceptGroup (acceptSqe m) with
      | none =>
        -- the queue refuses an entry only when it is full
        have hgroup : acceptGroup < C.kqueue.groups m.ioQueue := by
          rw [hm.queue_groups]; decide
        have hfull := C.kqueue.push_eq_none _ _ _ hgroup hpush
        rw [hm.queue_capacity] at hfull
        have hpos := (mconConfigValidate_spec hm.valid).ioQueueSize_pos
        omega
      | some ioq =>
        obtain ⟨-, -, hgrow⟩ := submitAccepts_of_wanted hwanted hpush
        have hone := C.kqueue.size_push hpush
        omega

theorem sqeLimit_eq_zero_iff (m : Instance C) :
    (sqeLimit m).toNat = 0 ↔ m.state.sqeInFlight = m.configuration.ioUringQueueSize := by
  have hq := m.configuration.ioUringQueueSize.toNat_lt
  have hf := m.state.sqeInFlight.toNat_lt
  rw [← UInt16.toNat_inj, sqeLimit, UInt32.toNat_sub, UInt16.toNat_toUInt32, UInt16.toNat_toUInt32]
  omega

theorem submitPopped_ne_zero_iff (hm : WellFormed m) :
    submitPopped m ≠ 0 ↔ m.ring.sq.length < m.ring.sqEntries ∧
      m.state.sqeInFlight ≠ m.configuration.ioUringQueueSize ∧
      (C.kqueue.size m.ioQueue ≠ 0 ∨ AcceptWanted m) := by
  rw [← submitAccepts_size_ne_zero hm, Ne, Ne, ← sqeLimit_eq_zero_iff, submitPopped, popLimit,
    Ring.ioUringSqSpaceLeft]
  omega

/-- In every reachable state `mcon_submit` calls `io_uring_submit` exactly when it can move something into the SQ
ring; entries which are already there make no difference. -/
theorem submit_reaches_kernel_iff {h : History} (he : Execution anyInput h m) (res : Int) :
    (∃ k, Act.ioUringSubmit k ∈ (mconSubmit m res).2.acts) ↔
      m.ring.sq.length < m.ring.sqEntries ∧ m.state.sqeInFlight ≠ m.configuration.ioUringQueueSize ∧
        (C.kqueue.size m.ioQueue ≠ 0 ∨ AcceptWanted m) := by
  obtain ⟨n, hsubmits⟩ := mconSubmit_spec he.wellFormed res
  rw [hsubmits.calls_iff, submitPopped_ne_zero_iff he.wellFormed]

/-- A failed submission has left an accept in the SQ ring, and a read waits in the io_queue. -/
theorem submit_reaches_kernel_iff_left :
    let m := finalState step (freshInstance (smallConfig 2 4 1))
      (startInput :: serverInput :: connectInputs 20 ++ [.submit (-Errno.eagain), .read 0 1000 8])
    (m.ring.sq.map fun sqe => sqe.userData.operation) = [.accept] ∧
      ∃ k, Act.ioUringSubmit k ∈ (mconSubmit m 2).2.acts := by
  intro m
  have hrun : Execution anyInput _ m := Execution.of_inputs (smallConfig 2 4 1) (by decide) _
    (.of_forall (fun _ _ _ => trivial) _)
  exact ⟨by decide, (submit_reaches_kernel_iff hrun 2).2 ⟨by decide, by decide, .inl (by decide)⟩⟩

/-- A failed submission leaves the accept in the SQ ring; with nothing queued the next call does not try again. -/
theorem failed_submission_is_stranded :
    let inputs := [startInput, serverInput, .submit (-Errno.eagain)]
    let m := finalState step (freshInstance (smallConfig 2 4 1)) inputs
    Execution anyInput (history step (freshInstance (smallConfig 2 4 1)) inputs) m ∧
      m.ring.sq.length = 1 ∧ (mconSubmit m 1).2.acts = [] ∧ (mconSubmit m 1).1.ring.sq = m.ring.sq :=
  ⟨Execution.of_inputs _ (by decide) _ (.of_forall (fun _ _ _ => trivial) _), by decide, by decide, by decide⟩

end Mcon
