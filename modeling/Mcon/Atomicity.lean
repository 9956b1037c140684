import Mcon.System

/-!
# Session calls are all or nothing, but for one

A session call that returns `-1` leaves the instance as it was; one that returns `0` changes the named session, the
container it works on and, for a detach, the state of a shutdown that it completes.  The exception is a detach whose
`EPOLL_CTL_DEL` fails with `ENOENT`: it returns `-1` with the session pushed on the free stack.
-/

namespace Mcon

open Transition (Run AllOk history finalState)

variable {C : Ctools} {m m' : Instance C} {s : Nat}

/-! ### All or nothing -/

/-- The session an input is about. -/
def Input.session? : Input → Option Nat
  | .read session _ _ => some session
  | .write session _ _ => some session
  | .drain session _ => some session
  | .close session => some session
  | .detach session _ => some session
  | _ => none

/-- The same instance, up to the representation of the free stack. -/
structure Unchanged (m m' : Instance C) : Prop where
  stack : C.idxStack.contents m'.sessionFreeStack = C.idxStack.contents m.sessionFreeStack
  stack_capacity : C.idxStack.capacity m'.sessionFreeStack = C.idxStack.capacity m.sessionFreeStack
  rest : m' = { m with sessionFreeStack := m'.sessionFreeStack }

/-- The shutdown goes on as before, or it is complete: the call returned the last session. -/
def ShutdownKept (m m' : Instance C) : Prop :=
  m'.state.isShuttingDown = m.state.isShuttingDown ∧ m'.serverSocketFd = m.serverSocketFd ∧
      m'.epollFd = m.epollFd ∨
    m.state.isShuttingDown = true ∧ mconActiveSessionCount m' = 0 ∧ m'.state.isShuttingDown = false ∧
      m'.serverSocketFd = -1 ∧ m'.epollFd = -1

/-- Of the session table only the record of `s` has changed, and neither the ring nor a counter has. -/
structure OnlySession (m : Instance C) (s : Nat) (m' : Instance C) : Prop where
  sessions : ∀ t ≠ s, m'.session t = m.session t
  sessions_length : m'.sessions.length = m.sessions.length
  ring : m'.ring = m.ring
  counters : m'.state = { m.state with isShuttingDown := m'.state.isShuttingDown }
  fixed : m'.configuration = m.configuration ∧ m'.instanceId = m.instanceId ∧
    m'.ioUringEventfd = m.ioUringEventfd

/-- What a successful read, write, drain or close changes: the record of the session and the io_queue. -/
structure Requested (m : Instance C) (s : Nat) (m' : Instance C) : Prop extends OnlySession m s m' where
  stack : m'.sessionFreeStack = m.sessionFreeStack
  queue : ∃ sqe, (C.kqueue.contents m'.ioQueue).Perm (sqe :: C.kqueue.contents m.ioQueue)
  shutdown : m'.state = m.state ∧ m'.serverSocketFd = m.serverSocketFd ∧ m'.epollFd = m.epollFd

/-- What a successful detach changes: the record of the session, the free stack and the shutdown. -/
structure Detached (m : Instance C) (s : Nat) (m' : Instance C) : Prop extends OnlySession m s m' where
  stack : C.idxStack.contents m'.sessionFreeStack = s :: C.idxStack.contents m.sessionFreeStack
  queue : m'.ioQueue = m.ioQueue
  shutdown : ShutdownKept m m'

/-- Only what a successful call may change has changed. -/
def Confined (m : Instance C) (s : Nat) (m' : Instance C) : Input → Prop
  | .detach .. => Detached m s m'
  | _ => Requested m s m'

/-- The call fails without a trace or succeeds within its bounds. -/
def AllOrNothing (m : Instance C) (i : Input) (s : Nat) : Prop :=
  (step m i).2.rc = -1 ∧ Unchanged m (step m i).1 ∨ (step m i).2.rc = 0 ∧ Confined m s (step m i).1 i

/-- A detach that is let through, finds room on the free stack, and whose `EPOLL_CTL_DEL` fails with `ENOENT`. -/
def HalfDetached (m : Instance C) (i : Input) (s : Nat) : Prop :=
  i = .detach s (some Errno.enoent) ∧
    validateArgs m s (stateReading ||| stateWriting ||| stateClosing) = none ∧
    C.idxStack.size m.sessionFreeStack < C.idxStack.capacity m.sessionFreeStack

/-- The input is no half-done detach. -/
def DetachesWhole (m : Instance C) (i : Input) : Prop := ∀ s, ¬ HalfDetached m i s

theorem NoEnoent.detachesWhole {i : Input} (h : NoEnoent m i) : DetachesWhole m i := fun s hs => h s hs.1

theorem Unchanged.refl (m : Instance C) : Unchanged m m := ⟨rfl, rfl, rfl⟩

/-! ### Requests -/

private theorem sessionRequest_cases (m : Instance C) (s : Nat) (incompatibleStates : UInt8) (sqe : Sqe)
    (bits : UInt8) :
    (sessionRequest m s incompatibleStates sqe bits).2.rc = -1 ∧
        (sessionRequest m s incompatibleStates sqe bits).1 = m ∨
      (sessionRequest m s incompatibleStates sqe bits).2.rc = 0 ∧
        ∃ ioq, (C.kqueue.contents ioq).Perm (sqe :: C.kqueue.contents m.ioQueue) ∧
          (sessionRequest m s incompatibleStates sqe bits).1 = setStateBits { m with ioQueue := ioq } s bits := by
  unfold sessionRequest
  split
  · exact .inl ⟨rfl, rfl⟩
  · split
    · exact .inl ⟨rfl, rfl⟩
    · rename_i ioq hpush
      obtain ⟨priority, -, hqueued⟩ := ioQueuePush_ok hpush
      exact .inr ⟨rfl, ioq, C.kqueue.contents_push hqueued, rfl⟩

/-- The four calls that push a submission. -/
private theorem request_allOrNothing {i : Input} {incompatibleStates : UInt8} {sqe : Sqe} {bits : UInt8}
    (hstep : step m i = sessionRequest m s incompatibleStates sqe bits)
    (hi : ∀ m', Requested m s m' → Confined m s m' i) : AllOrNothing m i s := by
  unfold AllOrNothing
  rw [hstep]
  rcases sessionRequest_cases m s incompatibleStates sqe bits with ⟨hrc, hm⟩ | ⟨hrc, ioq, hperm, hm⟩
  · rw [hm]
    exact .inl ⟨hrc, .refl m⟩
  · refine .inr ⟨hrc, hi _ ?_⟩
    rw [hm]
    exact
      { sessions := fun t ht => Instance.session_modify_ne _ _ ht
        sessions_length := by simp [setStateBits]
        ring := rfl
        counters := rfl
        fixed := ⟨rfl, rfl, rfl⟩
        stack := rfl
        queue := ⟨sqe, hperm⟩
        shutdown := ⟨rfl, rfl, rfl⟩ }

/-! ### The detach -/

/-- The instance after a successful detach. -/
private theorem completeShutdownIfDone_kept (x : Instance C) : ShutdownKept x (completeShutdownIfDone x) := by
  unfold completeShutdownIfDone
  split
  · rename_i hdone
    simp only [Bool.and_eq_true, beq_iff_eq] at hdone
    exact .inr ⟨hdone.1, hdone.2, rfl, rfl, rfl⟩
  · exact .inl ⟨rfl, rfl, rfl⟩

private theorem detached_of_push {stack : C.idxStack.Carrier}
    (hpush : C.idxStack.push m.sessionFreeStack s = some stack) :
    Detached m s (completeShutdownIfDone (sessionResetAfterClose { m with sessionFreeStack := stack } s)) where
  sessions t ht := by
    rw [completeShutdownIfDone_session]
    exact Instance.session_modify_ne _ _ ht
  sessions_length := by simp [sessionResetAfterClose]
  ring := by rw [completeShutdownIfDone_ring]; rfl
  counters := by unfold completeShutdownIfDone; split <;> rfl
  fixed := by unfold completeShutdownIfDone; split <;> exact ⟨rfl, rfl, rfl⟩
  stack := by
    rw [completeShutdownIfDone_freeStack]
    exact C.idxStack.contents_push _ _ _ hpush
  queue := by rw [completeShutdownIfDone_ioQueue]; rfl
  shutdown := completeShutdownIfDone_kept _

private theorem detach_allOrNothing_iff (m : Instance C) (s : Nat) (delErr : Option Int) :
    AllOrNothing m (.detach s delErr) s ↔ ¬ HalfDetached m (.detach s delErr) s := by
  have hstep : step m (.detach s delErr) = mconSessionDetach m s delErr := rfl
  unfold AllOrNothing HalfDetached
  rw [hstep]
  cases mconSessionDetach_outcome m s delErr with
  | refused err hvalid hcall =>
    rw [hcall]
    refine iff_of_true (.inl ⟨rfl, .refl m⟩) fun h => ?_
    rw [hvalid] at h
    cases h.2.1
  | noRoom hvalid hpush hcall =>
    rw [hcall]
    refine iff_of_true (.inl ⟨rfl, .refl m⟩) fun h => ?_
    have hfull := (C.idxStack.push_eq_none _ _).1 hpush
    rw [C.idxStack.size_eq] at h
    omega
  | done stack hvalid hpush hdel hcall =>
    rw [hcall]
    exact iff_of_true (.inr ⟨rfl, detached_of_push hpush⟩) fun h => by simp [hdel] at h
  | undone stack stack' err hvalid hpush hpop hdel herr hcall =>
    rw [hcall]
    have hcontents : C.idxStack.contents stack' = C.idxStack.contents m.sessionFreeStack := by
      have hpopped := C.idxStack.contents_pop _ _ _ hpop
      rw [C.idxStack.contents_push _ _ _ hpush, List.cons.injEq] at hpopped
      exact hpopped.2.symm
    have hcap := (C.idxStack.capacity_pop _ _ _ hpop).trans (C.idxStack.capacity_push _ _ _ hpush)
    exact iff_of_true (.inl ⟨rfl, hcontents, hcap, rfl⟩) fun h => by simp [hdel, herr] at h
  | halfDone stack hvalid hpush hdel hcall =>
    -- the push is not undone
    rw [hcall]
    subst hdel
    refine iff_of_false ?_ (not_not.2 ⟨rfl, hvalid, ?_⟩)
    · rintro (⟨-, hsame, -⟩ | ⟨hrc, -⟩)
      · have hlen := congrArg List.length hsame
        rw [C.idxStack.contents_push _ _ _ hpush, List.length_cons] at hlen
        omega
      · simp [Output.ret] at hrc
    · have hroom := (C.idxStack.push_isSome_iff).1 (Option.isSome_iff_exists.2 ⟨stack, hpush⟩)
      rwa [C.idxStack.size_eq]

/-- A session call on any session of any instance is all or nothing exactly when it is not a detach that fails
half-way. -/
theorem session_call_all_or_nothing_iff (m : Instance C) {i : Input} (hi : i.session? = some s) :
    AllOrNothing m i s ↔ ¬ HalfDetached m i s := by
  have hrequest : AllOrNothing m i s → (∀ t delErr, i ≠ .detach t delErr) →
      (AllOrNothing m i s ↔ ¬ HalfDetached m i s) :=
    fun hall hne => iff_of_true hall fun h => hne _ _ h.1
  cases i with
  | read session buf count => cases hi; exact hrequest (request_allOrNothing rfl fun _ h => h) (by simp)
  | write session buf count => cases hi; exact hrequest (request_allOrNothing rfl fun _ h => h) (by simp)
  | drain session count => cases hi; exact hrequest (request_allOrNothing rfl fun _ h => h) (by simp)
  | close session => cases hi; exact hrequest (request_allOrNothing rfl fun _ h => h) (by simp)
  | detach session delErr => cases hi; exact detach_allOrNothing_iff m s delErr
  | _ => cases hi

/-- The detach of a connected session: undone when `EPOLL_CTL_DEL` fails for want of memory, and done otherwise. -/
theorem session_call_all_or_nothing_iff_connected :
    let m := finalState step (freshInstance (smallConfig 2 4 1)) (startInput :: serverInput :: connectInputs 20)
    (m.session 0).socketFd = 20 ∧ (step m (.detach 0 (some Errno.enomem))).2.rc = -1 ∧
      AllOrNothing m (.detach 0 (some Errno.enomem)) 0 ∧ (step m (.detach 0 none)).2.rc = 0 ∧
      AllOrNothing m (.detach 0 none) 0 := by
  intro m
  refine ⟨by decide, by decide, ?_, by decide, ?_⟩
  · exact (session_call_all_or_nothing_iff m rfl).2 fun h => absurd h.1 (by simp [Errno.enomem, Errno.enoent])
  · exact (session_call_all_or_nothing_iff m rfl).2 fun h => absurd h.1 (by simp)

/-- The detach of a connected session whose socket has left the interest list: the call returns `-1` and the slot
is both free and in use. -/
theorem enoent_detach_is_half_done :
    let inputs := startInput :: serverInput :: connectInputs 20
    let m := finalState step (freshInstance (smallConfig 2 4 1)) inputs
    let call := step m (.detach 0 (some Errno.enoent))
    Execution anyInput (history step (freshInstance (smallConfig 2 4 1)) inputs) m ∧ call.2.rc = -1 ∧
      (call.1.session 0).socketFd = 20 ∧ listCtools.idxStack.contents m.sessionFreeStack = [1] ∧
      listCtools.idxStack.contents call.1.sessionFreeStack = [0, 1] :=
  ⟨Execution.of_inputs _ (by decide) _ (.of_forall (fun _ _ _ => trivial) _), by decide, by decide, by decide,
    by decide⟩

end Mcon
