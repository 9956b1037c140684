import Mcon.Accepts
import Mcon.SlotTable
import Mcon.Submission

/-!
# Shutdown

A shutdown is completed by the close completion or the detach that returns the last session; it is not completed
when there is none to return.  Until then accepts which were requested or under way are still carried out.
-/

namespace Mcon

open Transition (Run Path AllOk history finalState)

variable {C : Ctools} {m m' : Instance C} {k : StepKind} {obs : List Obs}

/-! ### What a small step does to the descriptors -/

/-- How the descriptor of a session can change: it is given one by an accept, or loses it as its slot is pushed on
the free stack. -/
theorem SmallStep.socketFd (h : SmallStep m k obs m') (t : Nat) :
    (m'.session t).socketFd = (m.session t).socketFd ∨
      (m'.session t).socketFd = -1 ∧ t ∈ C.idxStack.contents m'.sessionFreeStack ∨
      k = .accepted ∧ ∃ cqe rest, m.ring.cq = cqe :: rest ∧ isAccept cqe.userData = true ∧ 0 ≤ cqe.res ∧
        (m'.session t).socketFd = cqe.res := by
  cases h with
  | request => exact .inl (setStateBits_socketFd _ _ _ _)
  | @accepted cqe rest s stack hcq hop hres hpop =>
    rcases sessionPrepForNewClient_socketFd { acceptDone m with sessionFreeStack := stack } s t cqe.res with
      h | ⟨-, h⟩
    · exact .inl h
    · exact .inr (.inr ⟨rfl, cqe, rest, hcq, by simp [isAccept, hop], hres, h⟩)
  | transferred => exact .inl (clearStateBits_socketFd _ _ _ _)
  | @closed _ _ s stack _ _ hpush =>
    have hfd : ((countDown (closeDone m s stack)).session t).socketFd =
        ((sessionResetAfterClose { m with sessionFreeStack := stack } s).session t).socketFd := by
      refine (congrArg Session.socketFd (completeShutdownIfDone_session _ t)).trans ?_
      exact clearStateBits_socketFd _ _ _ _
    have hstack : (countDown (closeDone m s stack)).sessionFreeStack = stack := closeDone_freeStack _ _ _
    rw [hfd, hstack, C.idxStack.contents_push _ _ _ hpush]
    rcases sessionResetAfterClose_socketFd { m with sessionFreeStack := stack } s t with h | ⟨rfl, h⟩
    · exact .inl h
    · exact .inr (.inl ⟨h, List.mem_cons_self⟩)
  | @detached s stack _ hpush =>
    rw [detachDone_freeStack, C.idxStack.contents_push _ _ _ hpush, detachDone, completeShutdownIfDone_session]
    rcases sessionResetAfterClose_socketFd { m with sessionFreeStack := stack } s t with h | ⟨rfl, h⟩
    · exact .inl h
    · exact .inr (.inl ⟨h, List.mem_cons_self⟩)
  | rdhup => exact .inl (setStateBits_socketFd _ _ _ _)
  | _ => exact .inl rfl

/-- How the free stack and the shutdown can change: nothing is pushed or popped; a slot is pushed, and then either
the shutdown is looked after or the step is the failing detach; or an accept takes a slot. -/
inductive StackStep (m : Instance C) (k : StepKind) (m' : Instance C) : Prop
  | same : C.idxStack.contents m'.sessionFreeStack = C.idxStack.contents m.sessionFreeStack →
      (k = .shutdown ∨ m'.state.isShuttingDown = m.state.isShuttingDown) → StackStep m k m'
  | pushed (s : Nat) : C.idxStack.contents m'.sessionFreeStack = s :: C.idxStack.contents m.sessionFreeStack →
      (k = .detachEnoent ∨ (m'.state.isShuttingDown = true → mconActiveSessionCount m' ≠ 0)) → StackStep m k m'
  | taken (s : Nat) : C.idxStack.contents m.sessionFreeStack = s :: C.idxStack.contents m'.sessionFreeStack →
      m'.state.isShuttingDown = m.state.isShuttingDown →
      (s < m.sessions.length → (m'.session s).socketFd ≠ -1) → StackStep m k m'

/-- The test at the end of a close completion and of a detach. -/
private theorem completeShutdownIfDone_done (x : Instance C)
    (h : (completeShutdownIfDone x).state.isShuttingDown = true) :
    mconActiveSessionCount (completeShutdownIfDone x) ≠ 0 := by
  unfold completeShutdownIfDone at h ⊢
  split at h
  · cases h
  · rename_i hnot
    rw [if_neg hnot]
    simp only [Bool.and_eq_true, beq_iff_eq, not_and] at hnot
    exact hnot h

theorem SmallStep.stack (h : SmallStep m k obs m') : StackStep m k m' := by
  cases h with
  | acceptRollback _ _ _ hpop hpush =>
    exact .same ((C.idxStack.contents_push _ _ _ hpush).trans (C.idxStack.contents_pop _ _ _ hpop).symm) (.inr rfl)
  | @accepted cqe rest s stack _ _ hres hpop =>
    refine .taken s (C.idxStack.contents_pop _ _ _ hpop) rfl fun hlt => ?_
    have hfd : ((countDown (sessionPrepForNewClient { acceptDone m with sessionFreeStack := stack } s
        cqe.res)).session s).socketFd = cqe.res :=
      congrArg Session.socketFd (Instance.session_modify_self hlt _)
    omega
  | @closed _ _ s stack _ _ hpush =>
    refine .pushed s ?_ (.inr fun h => completeShutdownIfDone_done _ h)
    exact (congrArg C.idxStack.contents (closeDone_freeStack _ _ _)).trans (C.idxStack.contents_push _ _ _ hpush)
  | @detached s stack _ hpush =>
    refine .pushed s ?_ (.inr fun h => completeShutdownIfDone_done _ h)
    rw [detachDone_freeStack]
    exact C.idxStack.contents_push _ _ _ hpush
  | detachUndone _ hpush hpop =>
    have hcontents := C.idxStack.contents_pop _ _ _ hpop
    rw [C.idxStack.contents_push _ _ _ hpush, List.cons.injEq] at hcontents
    exact .same hcontents.2.symm (.inr rfl)
  | @detachEnoent s stack _ hpush => exact .pushed s (C.idxStack.contents_push _ _ _ hpush) (.inl rfl)
  | shutdown => exact .same rfl (.inl rfl)
  | _ => exact .same rfl (.inr rfl)

/-! ### Inactive sessions -/

/-- A session without a socket is on the free stack.  A detach that fails with `ENOENT` does not break this. -/
def InactiveFree (m : Instance C) : Prop :=
  ∀ s < m.sessions.length, (m.session s).socketFd = -1 → s ∈ C.idxStack.contents m.sessionFreeStack

theorem InactiveFree.smallStep (hi : InactiveFree m) (h : SmallStep m k obs m') : InactiveFree m' := by
  intro t ht hfd
  rw [h.frame.sessions_length] at ht
  rcases h.socketFd t with hsame | ⟨-, hmem⟩ | ⟨-, cqe, rest, -, -, hres, hnew⟩
  · have hold := hi t ht (hsame ▸ hfd)
    cases h.stack with
    | same hcontents _ => rw [hcontents]; exact hold
    | pushed s hcontents _ => rw [hcontents]; exact List.mem_cons_of_mem _ hold
    | taken s hcontents _ hactive =>
      rw [hcontents] at hold
      rcases List.mem_cons.1 hold with rfl | hmem
      · exact absurd hfd (hactive ht)
      · exact hmem
  · exact hmem
  · omega

theorem newInstance_inactiveFree (instanceId : UInt16) (eventfd : Int) (config : Config) :
    InactiveFree (newInstance C instanceId eventfd config) := by
  intro s hs _
  rw [newInstance_contents]
  simpa [newInstance] using hs

/-- If fewer slots are free than there are, some session is active. -/
theorem InactiveFree.exists_active (hi : InactiveFree m) (hm : WellFormed m) (hcount : mconActiveSessionCount m ≠ 0) :
    ∃ s < m.configuration.sessionCount.toNat, (m.session s).socketFd ≠ -1 := by
  by_contra hnone
  have hsub : Finset.range m.configuration.sessionCount.toNat ⊆
      (C.idxStack.contents m.sessionFreeStack).toFinset := by
    intro s hs
    rw [Finset.mem_range] at hs
    rw [List.mem_toFinset]
    refine hi s (hm.sessions_length ▸ hs) ?_
    by_contra hfd
    exact hnone ⟨s, hs, hfd⟩
  have hcard := Finset.card_le_card hsub
  rw [Finset.card_range] at hcard
  have hlen := (C.idxStack.contents m.sessionFreeStack).toFinset_card_le
  have hlt := hm.activeSessionCount_ne_zero_iff.1 hcount
  rw [C.idxStack.size_eq] at hlt
  omega

/-! ### The shutdown is completed -/

/-- A shutdown that succeeds finds an active session, and no detach that returns the last session during a shutdown
fails with `ENOENT`. -/
def CompletesShutdown (m : Instance C) : Input → Prop
  | .shutdown delErr => delErr = none → m.state.isShuttingDown = false → m.serverSocketFd ≠ -1 →
      mconActiveSessionCount m ≠ 0
  | .detach s delErr => delErr = some Errno.enoent → m.state.isShuttingDown = true →
      mconActiveSessionCount m = 1 → validateArgs m s (stateReading ||| stateWriting ||| stateClosing) ≠ none
  | _ => True

/-- While the shutdown goes on some session is counted as active. -/
def Finishing (m : Instance C) : Prop := m.state.isShuttingDown = true → mconActiveSessionCount m ≠ 0

theorem Finishing.smallStep (hf : Finishing m) (hm : WellFormed m) (h : SmallStep m k obs m')
    (hk : k ≠ .shutdown ∧ k ≠ .detachEnoent) : Finishing m' := by
  intro hdown
  have hm' := hm.smallStep h
  rw [hm'.activeSessionCount_ne_zero_iff, h.frame.configuration]
  cases h.stack with
  | same hcontents hstate =>
    have hold := hm.activeSessionCount_ne_zero_iff.1 (hf (by rw [← hstate.resolve_left hk.1]; exact hdown))
    rw [C.idxStack.size_eq] at hold ⊢
    rw [hcontents]
    exact hold
  | pushed s _ hdone =>
    have := hm'.activeSessionCount_ne_zero_iff.1 (hdone.resolve_left hk.2 hdown)
    rw [h.frame.configuration] at this
    exact this
  | taken s hcontents hstate _ =>
    have hold := hm.activeSessionCount_ne_zero_iff.1 (hf (by rw [← hstate]; exact hdown))
    rw [C.idxStack.size_eq] at hold ⊢
    rw [hcontents, List.length_cons] at hold
    omega

/-- The two calls that can leave a shutdown without a session to complete it. -/
private theorem finishing_shutdown (hf : Finishing m) {delErr : Option Int}
    (hok : CompletesShutdown m (.shutdown delErr)) : Finishing (mconShutdown m delErr).1 := by
  unfold mconShutdown
  split
  · exact hf
  · rename_i hdown
    split
    · exact hf
    · rename_i hfd
      cases delErr with
      | some err => exact hf
      | none => exact fun _ => hok rfl (by simpa using hdown) hfd

private theorem finishing_detach (hf : Finishing m) (hm : WellFormed m) {s : Nat}
    (hok : CompletesShutdown m (.detach s (some Errno.enoent))) :
    Finishing (mconSessionDetach m s (some Errno.enoent)).1 := by
  cases mconSessionDetach_outcome m s (some Errno.enoent) with
  | refused err hvalid hcall =>
    rw [hcall]
    exact hf
  | noRoom hvalid hpush hcall =>
    rw [hcall]
    exact hf
  | done stack hvalid hpush hdel => cases hdel
  | undone stack stack' err hvalid hpush hpop hdel herr => exact absurd (Option.some.inj hdel).symm herr
  | halfDone stack hvalid hpush hdel hcall =>
    rw [hcall]
    intro hdown
    have hpushed := C.idxStack.size_push hpush
    have hcap := C.idxStack.capacity_push _ _ _ hpush
    have hle := C.idxStack.length_le stack
    have hcount := hm.activeSessionCount_ne_zero_iff.1 (hf hdown)
    have hone : mconActiveSessionCount m ≠ 1 := fun hone => hok rfl hdown hone hvalid
    rw [Ne, ← UInt32.toNat_inj, hm.activeSessionCount.2, UInt32.toNat_one] at hone
    have hm' : WellFormed { m with sessionFreeStack := stack } :=
      { hm with stack_capacity := hcap.trans hm.stack_capacity }
    refine hm'.activeSessionCount_ne_zero_iff.2 ?_
    show C.idxStack.size stack < m.configuration.sessionCount.toNat
    omega

/-- One call. -/
private theorem finishing_step (hf : Finishing m) (hm : WellFormed m) {i : Input} (hok : CompletesShutdown m i) :
    Finishing (step m i).1 := by
  by_cases hshutdown : ∃ delErr, i = .shutdown delErr
  · obtain ⟨delErr, rfl⟩ := hshutdown
    exact finishing_shutdown hf hok
  by_cases henoent : ∃ s, i = .detach s (some Errno.enoent)
  · obtain ⟨s, rfl⟩ := henoent
    exact finishing_detach hf hm hok
  have hkinds : ∀ k, i.allows k → k ≠ .shutdown ∧ k ≠ .detachEnoent := by
    intro k hk
    refine ⟨?_, NoEnoent.kind (m := m) (fun s hs => henoent ⟨s, hs⟩) hk⟩
    rintro rfl
    cases i with
    | shutdown delErr => exact hshutdown ⟨delErr, rfl⟩
    | _ => simp [Input.allows, processKinds] at hk
  obtain ⟨obs, hpath, -⟩ := calls_step m hm.cq_entries i
  exact (hpath.invariant (fun m => WellFormed m ∧ Finishing m)
    (fun _ k _ _ hk hs hI => ⟨hI.1.smallStep hs, hI.2.smallStep hI.1 hs (hkinds k hk)⟩) ⟨hm, hf⟩).2

/-- In every run whose steps all meet `CompletesShutdown`, an instance that is shutting down has an active
session. -/
theorem shutdown_completes_with_last_session {h : History} (he : Execution CompletesShutdown h m)
    (hdown : mconIsShuttingDown m = true) :
    mconActiveSessionCount m ≠ 0 ∧
      ∃ s < m.configuration.sessionCount.toNat, (m.session s).socketFd ≠ -1 := by
  obtain ⟨-, hi⟩ := he.invariant (P := fun _ => True) (fun _ _ _ _ _ => trivial) InactiveFree
    (fun _ _ _ _ => newInstance_inactiveFree _ _ _) (fun _ _ _ _ _ hs _ hi => hi.smallStep hs)
  obtain ⟨hm, hf⟩ := he.invariant_of_inputs Finishing (fun _ _ _ _ h => by cases h)
    (fun _ _ hok hm hf => finishing_step hf hm hok)
  exact ⟨hf hdown, hi.exists_active hm (hf hdown)⟩

/-- A shutdown with one connection. -/
theorem shutdown_completes_with_last_session_one :
    mconActiveSessionCount (finalState step (freshInstance (smallConfig 2 4 1))
      (startInput :: serverInput :: connectInputs 20 ++ [.shutdown none])) ≠ 0 := by
  have hrun : Execution CompletesShutdown _ _ := Execution.of_inputs (smallConfig 2 4 1) (by decide)
    (startInput :: serverInput :: connectInputs 20 ++ [Input.shutdown none])
    ⟨trivial, trivial, trivial, trivial, trivial, trivial, fun _ _ _ => by decide, trivial⟩
  exact (shutdown_completes_with_last_session hrun (by decide)).1

/-- With no session the shutdown is never completed, and cannot be requested again. -/
theorem shutdown_without_sessions_is_not_completed :
    let m := finalState step (freshInstance (smallConfig 2 4 1)) [startInput, .shutdown none]
    Execution anyInput (history step (freshInstance (smallConfig 2 4 1)) [startInput, .shutdown none]) m ∧
      mconIsShuttingDown m = true ∧ mconActiveSessionCount m = 0 ∧ (mconShutdown m none).2.rc = -1 :=
  ⟨Execution.of_inputs _ (by decide) _ (.of_forall (fun _ _ _ => trivial) _), by decide, by decide, by decide⟩

end Mcon
