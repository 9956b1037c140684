import Mcon.Instance

/-!
# Session operations (`session.c`)

The calls an application makes on a session.  The result of the one system call made here, the `EPOLL_CTL_DEL` of
`mcon_session_detach`, is an argument: the errno of the failure, or `none`.
-/

namespace Mcon

variable {C : Ctools}

/-- `VALIDATE_ARGS`: the errno with which the call is refused. -/
def validateArgs (m : Instance C) (session : Nat) (incompatibleStates : UInt8) : Option Int :=
  if m.configuration.sessionCount.toNat ≤ session then some Errno.einval
  else if !mconSessionIsActive m session || (m.session session).state &&& incompatibleStates != 0 then
    some Errno.ebusy
  else none

/-- What a session call that is let through by `VALIDATE_ARGS` knows. -/
theorem validateArgs_none {m : Instance C} {session : Nat} {bits : UInt8}
    (h : validateArgs m session bits = none) :
    session < m.configuration.sessionCount.toNat ∧ (m.session session).socketFd ≠ -1 ∧
      (m.session session).state &&& bits = 0 := by
  unfold validateArgs at h
  split at h
  · cases h
  · rename_i hlt
    split at h
    · cases h
    · rename_i hok
      have hactive : mconSessionIsActive m session = ((m.session session).socketFd != -1) := by
        rw [mconSessionIsActive, if_neg hlt]
      rw [hactive] at hok
      simp only [Bool.or_eq_true, Bool.not_eq_true', bne_eq_false_iff_eq, bne_iff_ne, not_or, ne_eq,
        not_not] at hok
      exact ⟨Nat.lt_of_not_le hlt, hok.1, hok.2⟩

/-- The accesses to the session table made by `VALIDATE_ARGS`. -/
def validateActs (m : Instance C) (session : Nat) : List Act :=
  if m.configuration.sessionCount.toNat ≤ session then [] else [.sessionsAt session]

theorem validateActs_of_none {m : Instance C} {s : Nat} {bits : UInt8} (h : validateArgs m s bits = none) :
    validateActs m s = [.sessionsAt s] := by
  rw [validateActs, if_neg (Nat.not_le_of_lt (validateArgs_none h).1)]

/-- The common body of read, write, drain and close: validate, push the submission, mark the session. -/
def sessionRequest (m : Instance C) (session : Nat) (incompatibleStates : UInt8) (sqe : Sqe) (bits : UInt8) :
    Instance C × Output :=
  match validateArgs m session incompatibleStates with
  | some err => (m, .ret (-1) (some err) (validateActs m session))
  | none =>
    match ioQueuePush m.ioQueue sqe with
    | .error err => (m, .ret (-1) err (validateActs m session))
    | .ok ioq =>
      (setStateBits { m with ioQueue := ioq } session bits,
        .ret 0 none (validateActs m session ++ [.ioQueuePush sqe]))

def mconSessionRead (m : Instance C) (session : Nat) (buf : Nat) (count : Nat) : Instance C × Output :=
  sessionRequest m session (stateReading ||| stateClosing)
    (ioUringPrepRead (m.session session).socketFd (.user buf) count 0 ⟨.read, session⟩) stateReading

def mconSessionWrite (m : Instance C) (session : Nat) (buf : Nat) (count : Nat) : Instance C × Output :=
  sessionRequest m session (stateWriting ||| stateClosing)
    (ioUringPrepWrite (m.session session).socketFd (.user buf) count 0 ⟨.write, session⟩) stateWriting

def mconSessionDrain (m : Instance C) (session : Nat) (count : Nat) : Instance C × Output :=
  sessionRequest m session (stateReading ||| stateClosing)
    (ioUringPrepRecv (m.session session).socketFd (.session session) count msgTrunc ⟨.drain, session⟩)
    stateReading

def mconSessionClose (m : Instance C) (session : Nat) : Instance C × Output :=
  sessionRequest m session (stateReading ||| stateWriting ||| stateClosing)
    (ioUringPrepClose (m.session session).socketFd ⟨.close, session⟩) stateClosing

/-- `if (is_shutting_down && mcon_active_session_count(mcon) == 0) mcon_complete_shutdown(mcon)`. -/
def completeShutdownIfDone (m : Instance C) : Instance C :=
  if m.state.isShuttingDown && mconActiveSessionCount m == 0 then mconCompleteShutdown m else m

section CompleteShutdown

variable (m : Instance C)

@[simp] theorem completeShutdownIfDone_configuration :
    (completeShutdownIfDone m).configuration = m.configuration := by
  unfold completeShutdownIfDone
  split <;> rfl

@[simp] theorem completeShutdownIfDone_sessions : (completeShutdownIfDone m).sessions = m.sessions := by
  unfold completeShutdownIfDone
  split <;> rfl

@[simp] theorem completeShutdownIfDone_freeStack :
    (completeShutdownIfDone m).sessionFreeStack = m.sessionFreeStack := by
  unfold completeShutdownIfDone
  split <;> rfl

@[simp] theorem completeShutdownIfDone_ring : (completeShutdownIfDone m).ring = m.ring := by
  unfold completeShutdownIfDone
  split <;> rfl

@[simp] theorem completeShutdownIfDone_eventfd :
    (completeShutdownIfDone m).ioUringEventfd = m.ioUringEventfd := by
  unfold completeShutdownIfDone
  split <;> rfl

@[simp] theorem completeShutdownIfDone_ioQueue : (completeShutdownIfDone m).ioQueue = m.ioQueue := by
  unfold completeShutdownIfDone
  split <;> rfl

@[simp] theorem completeShutdownIfDone_session (s : Nat) :
    (completeShutdownIfDone m).session s = m.session s := by
  simp [Instance.session]

@[simp] theorem completeShutdownIfDone_sqeInFlight :
    (completeShutdownIfDone m).state.sqeInFlight = m.state.sqeInFlight := by
  unfold completeShutdownIfDone
  split <;> rfl

@[simp] theorem completeShutdownIfDone_acceptsLive :
    (completeShutdownIfDone m).state.acceptsLive = m.state.acceptsLive := by
  unfold completeShutdownIfDone
  split <;> rfl

@[simp] theorem completeShutdownIfDone_acceptsRequested :
    (completeShutdownIfDone m).state.acceptsRequested = m.state.acceptsRequested := by
  unfold completeShutdownIfDone
  split <;> rfl

theorem completeShutdownIfDone_serverSocketFd :
    (completeShutdownIfDone m).serverSocketFd = m.serverSocketFd ∨
      (completeShutdownIfDone m).serverSocketFd = -1 := by
  unfold completeShutdownIfDone
  split
  · exact .inr rfl
  · exact .inl rfl

end CompleteShutdown

def mconSessionDetach (m : Instance C) (session : Nat) (delErr : Option Int) : Instance C × Output :=
  match validateArgs m session (stateReading ||| stateWriting ||| stateClosing) with
  | some err => (m, .ret (-1) (some err) (validateActs m session))
  | none =>
    -- Return the session to the free stack
    match C.idxStack.push m.sessionFreeStack session with
    | none => (m, .ret (-1) none (validateActs m session ++ [.stackPush session false]))
    | some stack =>
      let acts := validateActs m session ++
        [.stackPush session true, .epollDel m.epollFd (m.session session).socketFd delErr]
      match delErr with
      | some err =>
        if err ≠ Errno.enoent then
          -- Pop the session again if the epoll operation failed to execute
          match C.idxStack.pop stack with
          | none => ({ m with sessionFreeStack := stack }, .ret (-1) (some err) (acts ++ [.stackPop none]))
          | some (popped, stack') =>
            ({ m with sessionFreeStack := stack' }, .ret (-1) (some err) (acts ++ [.stackPop (some popped)]))
        else ({ m with sessionFreeStack := stack }, .ret (-1) (some err) acts)
      | none =>
        (completeShutdownIfDone (sessionResetAfterClose { m with sessionFreeStack := stack } session),
          .ret 0 none acts)

/-- How a detach ends: it is refused, finds no room on the free stack, is done, is undone as the registration cannot
be removed, or is left half done as there is no registration. -/
inductive DetachOutcome (m : Instance C) (s : Nat) (delErr : Option Int) : Prop
  | refused (err : Int) : validateArgs m s (stateReading ||| stateWriting ||| stateClosing) = some err →
      mconSessionDetach m s delErr = (m, .ret (-1) (some err) (validateActs m s)) → DetachOutcome m s delErr
  | noRoom : validateArgs m s (stateReading ||| stateWriting ||| stateClosing) = none →
      C.idxStack.push m.sessionFreeStack s = none →
      mconSessionDetach m s delErr = (m, .ret (-1) none [.sessionsAt s, .stackPush s false]) →
      DetachOutcome m s delErr
  | done (stack : C.idxStack.Carrier) : validateArgs m s (stateReading ||| stateWriting ||| stateClosing) = none →
      C.idxStack.push m.sessionFreeStack s = some stack → delErr = none →
      mconSessionDetach m s delErr =
        (completeShutdownIfDone (sessionResetAfterClose { m with sessionFreeStack := stack } s),
          .ret 0 none [.sessionsAt s, .stackPush s true, .epollDel m.epollFd (m.session s).socketFd none]) →
      DetachOutcome m s delErr
  | undone (stack stack' : C.idxStack.Carrier) (err : Int) :
      validateArgs m s (stateReading ||| stateWriting ||| stateClosing) = none →
      C.idxStack.push m.sessionFreeStack s = some stack → C.idxStack.pop stack = some (s, stack') →
      delErr = some err → err ≠ Errno.enoent →
      mconSessionDetach m s delErr =
        ({ m with sessionFreeStack := stack' },
          .ret (-1) (some err)
            [.sessionsAt s, .stackPush s true, .epollDel m.epollFd (m.session s).socketFd (some err),
              .stackPop (some s)]) →
      DetachOutcome m s delErr
  | halfDone (stack : C.idxStack.Carrier) :
      validateArgs m s (stateReading ||| stateWriting ||| stateClosing) = none →
      C.idxStack.push m.sessionFreeStack s = some stack → delErr = some Errno.enoent →
      mconSessionDetach m s delErr =
        ({ m with sessionFreeStack := stack },
          .ret (-1) (some Errno.enoent)
            [.sessionsAt s, .stackPush s true, .epollDel m.epollFd (m.session s).socketFd (some Errno.enoent)]) →
      DetachOutcome m s delErr

theorem mconSessionDetach_outcome (m : Instance C) (s : Nat) (delErr : Option Int) : DetachOutcome m s delErr := by
  cases hvalid : validateArgs m s (stateReading ||| stateWriting ||| stateClosing) with
  | some err => exact .refused err hvalid (by unfold mconSessionDetach; rw [hvalid])
  | none =>
    have hacts := validateActs_of_none hvalid
    cases hpush : C.idxStack.push m.sessionFreeStack s with
    | none => exact .noRoom hvalid hpush (by unfold mconSessionDetach; simp [hvalid, hpush, hacts])
    | some stack =>
      cases delErr with
      | none => exact .done stack hvalid hpush rfl (by unfold mconSessionDetach; simp [hvalid, hpush, hacts])
      | some err =>
        by_cases herr : err = Errno.enoent
        · subst herr
          exact .halfDone stack hvalid hpush rfl (by unfold mconSessionDetach; simp [hvalid, hpush, hacts])
        · obtain ⟨stack', hpop, -⟩ := C.idxStack.pop_of_push hpush
          exact .undone stack stack' err hvalid hpush hpop rfl herr
            (by unfold mconSessionDetach; simp [hvalid, hpush, hacts, hpop, herr])

/-- `mcon_session_get_socket`. -/
def mconSessionGetSocket (m : Instance C) (session : Nat) : Int :=
  match validateArgs m session 0 with
  | some _ => -1
  | none => (m.session session).socketFd

end Mcon
