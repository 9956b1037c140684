import Mcon.EventBounds

/-!
# The descriptors the application knows

The descriptor of a session follows from what the application sees: it is the result of the `NEW_CONNECTION` event that
was reported last for the session, until a `CLOSE_COMPLETE` event is reported or a detach succeeds.
-/

namespace Mcon

open Transition (Run AllOk history finalState)

variable {C : Ctools} {m m' : Instance C} {k : StepKind} {obs : List Obs}

/-- The descriptors of the sessions after an event, in the eyes of the application. -/
def Event.note (fds : Nat → Int) (e : Event) : Nat → Int :=
  match e.type with
  | .newConnection => if e.result < 0 then fds else Function.update fds e.session e.result
  | .closeComplete => Function.update fds e.session (-1)
  | _ => fds

/-- The descriptors after a call. -/
def noteCall (fds : Nat → Int) (p : Input × Output) : Nat → Int :=
  match p.1 with
  | .processEvent .. => p.2.reported.foldl Event.note fds
  | .detach session _ => if p.2.rc = 0 then Function.update fds session (-1) else fds
  | _ => fds

/-- The descriptor of every session, `-1` for none, after a run. -/
def knownFds (h : History) : Nat → Int := h.foldl noteCall fun _ => -1

/-- The descriptors in the session table. -/
def socketFds (m : Instance C) : Nat → Int := fun s => (m.session s).socketFd

/-! ### Updates of the table -/

theorem socketFds_eq_of_sessions (h : m'.sessions = m.sessions) : socketFds m' = socketFds m := by
  unfold socketFds Instance.session
  rw [h]

@[simp] theorem socketFds_setStateBits (m : Instance C) (s : Nat) (bits : UInt8) :
    socketFds (setStateBits m s bits) = socketFds m :=
  funext fun t => setStateBits_socketFd m s t bits

@[simp] theorem socketFds_clearStateBits (m : Instance C) (s : Nat) (bits : UInt8) :
    socketFds (clearStateBits m s bits) = socketFds m :=
  funext fun t => clearStateBits_socketFd m s t bits

@[simp] theorem socketFds_completeShutdownIfDone (m : Instance C) :
    socketFds (completeShutdownIfDone m) = socketFds m :=
  socketFds_eq_of_sessions (completeShutdownIfDone_sessions m)

/-- Outside the table nothing is written, and the descriptor there counts as `-1`. -/
theorem socketFds_sessionResetAfterClose (m : Instance C) (s : Nat) :
    socketFds (sessionResetAfterClose m s) = Function.update (socketFds m) s (-1) := by
  funext t
  by_cases hts : t = s
  · subst hts
    rw [Function.update_self]
    by_cases hlt : t < m.sessions.length
    · simp [socketFds, sessionResetAfterClose, Instance.session_modify_self hlt]
    · simp [socketFds, sessionResetAfterClose, Instance.session, Instance.modifySession, List.getD_eq_getElem?_getD,
        hlt, sessionInit]
  · rw [Function.update_of_ne hts]
    simp [socketFds, sessionResetAfterClose, Instance.session_modify_ne _ _ hts]

theorem socketFds_sessionPrepForNewClient {s : Nat} (hs : s < m.sessions.length) (fd : Int) :
    socketFds (sessionPrepForNewClient m s fd) = Function.update (socketFds m) s fd := by
  funext t
  by_cases hts : t = s
  · subst hts
    simp [socketFds, sessionPrepForNewClient, Instance.session_modify_self hs]
  · simp [socketFds, sessionPrepForNewClient, Instance.session_modify_ne _ _ hts, Function.update_of_ne hts]

/-! ### Completions -/

variable {cqe : Cqe} {maxEvents : Nat} {addErr : Option Int}

/-- A handler that does not fail changes the descriptors as its events say, one that fails changes none. -/
def Notes (m : Instance C) (out : HandlerOut C) : Prop :=
  socketFds out.mcon = if out.err < 0 then socketFds m else out.events.foldl Event.note (socketFds m)

theorem Notes.of_ok {out : HandlerOut C} (herr : ¬ out.err < 0)
    (h : socketFds out.mcon = out.events.foldl Event.note (socketFds m)) : Notes m out := by
  rw [Notes, if_neg herr, h]

theorem Notes.of_failed {out : HandlerOut C} (herr : out.err < 0) (h : socketFds out.mcon = socketFds m) :
    Notes m out := by
  rw [Notes, if_pos herr, h]

private theorem notes_accept (hm : WellFormed m) (hv : ValidIndices m) :
    Notes m (processAccept m cqe maxEvents addErr) := by
  have hdone : ∀ stack, socketFds { acceptDone m with sessionFreeStack := stack } = socketFds m :=
    fun stack => socketFds_eq_of_sessions rfl
  unfold processAccept
  split
  · exact .of_ok (Int.lt_irrefl 0) rfl
  · split
    · exact .of_ok (Int.lt_irrefl 0) rfl
    · dsimp only
      split
      · rename_i hres
        refine .of_ok (by simp) ?_
        simp only [List.foldl_cons, List.foldl_nil, Event.note, if_pos hres]
        exact hdone _
      · rename_i hres
        split
        · exact .of_failed (by simp) (hdone _)
        · rename_i s stack hpop
          have hs : s < m.sessions.length := by
            rw [hm.sessions_length]
            exact hv.lt_of_pop hpop
          split
          · split
            · exact .of_failed (by simp) (hdone _)
            · exact .of_failed (by simp) (hdone _)
          · refine .of_ok (by simp) ?_
            have hprep := socketFds_sessionPrepForNewClient
              (m := { acceptDone m with sessionFreeStack := stack }) (s := s) hs cqe.res
            rw [hdone] at hprep
            simp only [List.foldl_cons, List.foldl_nil, Event.note, if_neg hres]
            exact hprep

private theorem notes_transfer {type : EventType} (htype : type ≠ .newConnection ∧ type ≠ .closeComplete)
    (bits : UInt8) (ioEntry : IoUringEntry) : Notes m (processTransfer type bits m cqe ioEntry maxEvents) := by
  unfold processTransfer
  split
  · exact .of_ok (Int.lt_irrefl 0) rfl
  · refine .of_ok (by simp) ?_
    have hseen : socketFds m.cqeSeen = socketFds m := socketFds_eq_of_sessions rfl
    rw [socketFds_clearStateBits, hseen]
    cases type <;> simp_all [Event.note]

private theorem notes_close (ioEntry : IoUringEntry) : Notes m (processClose m cqe ioEntry maxEvents) := by
  unfold processClose
  split
  · exact .of_failed (by simp) rfl
  · dsimp only
    split
    · exact .of_failed (by simp) rfl
    · rename_i stack hpush
      refine .of_ok (by simp) ?_
      rw [socketFds_completeShutdownIfDone, socketFds_clearStateBits]
      exact socketFds_sessionResetAfterClose { m with sessionFreeStack := stack } ioEntry.session

theorem notes_processCqe (hm : WellFormed m) (hv : ValidIndices m) : Notes m (processCqe m cqe maxEvents addErr) := by
  unfold processCqe
  split
  · exact notes_accept hm hv
  · exact notes_transfer (by decide) _ _
  · exact notes_transfer (by decide) _ _
  · exact notes_transfer (by decide) _ _
  · exact notes_close _
  · exact .of_failed (by simp) rfl

/-- The loop changes the descriptors as the events say that are counted. -/
theorem socketFds_cqeLoopResult {n : Nat} (hm : Sound False n m) (maxEvents : Nat) (env : UringEnv) :
    let st := cqeLoopResult m maxEvents env
    socketFds st.mcon = (st.events.take st.eventCount).foldl Event.note (socketFds m) := by
  have hmoves : ∀ (x : Instance C) moves, socketFds (moveRing x moves) = socketFds x :=
    fun x moves => socketFds_eq_of_sessions rfl
  have hnotes : ∀ (st : LoopState C) (ienv : IterEnv) cqe out, Sound False n st.mcon →
      Iteration maxEvents ienv st cqe out → socketFds out.mcon =
        if out.err < 0 then socketFds st.mcon else out.events.foldl Event.note (socketFds st.mcon) := by
    rintro st ienv cqe out h ⟨hroom, -, rfl⟩
    have hsound := h.moveRing ienv.beforePeek
    have hnotes : Notes (moveRing st.mcon ienv.beforePeek)
        (processCqe (moveRing st.mcon ienv.beforePeek) cqe (maxEvents - st.eventCount) ienv.addErr) :=
      notes_processCqe hsound.wellFormed hsound.indices
    rwa [Notes, hmoves] at hnotes
  refine cqeLoopResult_rule
    (fun st => Sound False n st.mcon ∧ st.eventCount = st.events.length ∧
      socketFds st.mcon = st.events.foldl Event.note (socketFds m))
    (fun st => socketFds st.mcon = (st.events.take st.eventCount).foldl Event.note (socketFds m)) m
    (fun _ hst => hst.1.wellFormed.cq_entries) ?_ ?_ ?_ ⟨hm, rfl, rfl⟩
  · rintro st ⟨-, hcount, hfds⟩
    rw [LoopState.stopped, LoopState.peeked, hmoves, hfds, hcount, List.take_length]
  · rintro st cqe out ⟨hsound, hcount, hfds⟩ hit herr
    obtain ⟨-, hnum, -⟩ := hit.handled.resolve_left fun h => herr h.1
    refine ⟨hsound.next hit herr, by simp [LoopState.next, hcount, hnum], ?_⟩
    have hout := hnotes st _ cqe out hsound hit
    rw [if_neg herr, hfds, ← List.foldl_append] at hout
    exact hout
  · rintro st cqe out ⟨hsound, hcount, hfds⟩ hit herr
    have hout := hnotes st _ cqe out hsound hit
    rw [if_pos herr, hfds] at hout
    rw [LoopState.failed, hout]
    simp [hcount]

/-! ### Calls -/

/-- The events of a client socket say nothing about descriptors. -/
theorem foldl_note_sessionEvents (epollEvents : UInt32) (s : Nat) (rdhup : Bool) (sockopt : SockoptResult) (n : Nat)
    (fds : Nat → Int) : ((sessionEvents epollEvents s rdhup sockopt).take n).foldl Event.note fds = fds := by
  have hnote : ∀ e ∈ sessionEvents epollEvents s rdhup sockopt, ∀ fds, Event.note fds e = fds := by
    intro e he fds
    unfold sessionEvents at he
    simp only [List.mem_append] at he
    rcases he with ((he | he) | he) | he
    all_goals
      repeat' split at he
      all_goals simp at he
      try (subst he; rfl)
  have hfold : ∀ l : List Event, (∀ e ∈ l, ∀ fds, Event.note fds e = fds) → l.foldl Event.note fds = fds := by
    intro l hl
    induction l with
    | nil => rfl
    | cons e l ih =>
      rw [List.foldl_cons, hl e List.mem_cons_self]
      exact ih fun e' he' => hl e' (List.mem_cons_of_mem _ he')
  exact hfold _ fun e he => hnote e (List.mem_of_mem_take he)

private theorem socketFds_processSessionEvent (m : Instance C) (epollEvents : UInt32) (epollData : EpollEntry)
    (maxEvents : Nat) (sockopt : SockoptResult) :
    let p := mconProcessSessionEvent m epollEvents epollData maxEvents sockopt
    socketFds p.1 = p.2.reported.foldl Event.note (socketFds m) := by
  have hlatched : ∀ (c : Bool) s, socketFds (if c then setStateBits m s stateRdhup else m) = socketFds m := by
    intro c s
    split <;> simp
  unfold mconProcessSessionEvent
  dsimp only
  split
  · rfl
  · split
    · rfl
    · split
      · rfl
      · split
        · split
          · rw [hlatched]
            exact (foldl_note_sessionEvents _ _ _ _ _ _).symm
          · rw [hlatched]
            exact (foldl_note_sessionEvents _ _ _ _ _ _).symm
        · rw [hlatched]
          exact (foldl_note_sessionEvents _ _ _ _ _ _).symm

theorem socketFds_processEvent {n : Nat} (hm : Sound False n m) (data : UInt64) (epollEvents : UInt32)
    (eventCapacity : Nat) (env : ProcessEnv) :
    let p := mconProcessEvent m data epollEvents eventCapacity env
    socketFds p.1 = p.2.reported.foldl Event.note (socketFds m) := by
  dsimp only
  cases dispatched m data epollEvents eventCapacity env with
  | refused errno _ hcall => rw [hcall]; rfl
  | serverSocket _ _ hcall =>
    rw [hcall]
    dsimp only
    split <;> rfl
  | ioUring _ _ hcall =>
    rw [hcall]
    have hclear : ∀ x : Instance C, socketFds (clearEventfd x env.uring).1 = socketFds x := by
      intro x
      unfold clearEventfd
      dsimp only
      split <;> rfl
    have hloop := socketFds_cqeLoopResult hm eventCapacity env.uring
    have hfds : socketFds (mconProcessIoUringEvent m eventCapacity env.uring).1 =
        socketFds (cqeLoopResult m eventCapacity env.uring).mcon := by
      unfold mconProcessIoUringEvent
      dsimp only
      split
      · exact hclear _
      · rfl
    rw [hfds, hloop, Output.reported, processIoUringEvent_events, processIoUringEvent_rc]
    rfl
  | session _ _ hcall =>
    rw [hcall]
    exact socketFds_processSessionEvent m epollEvents (mconDecodeEpollEntry data) eventCapacity env.sockopt

/-- The kinds of small steps that leave the session table alone. -/
def tableKinds : List StepKind :=
  [.kernel, .acceptEnqueued, .pop, .submitted, .submitFailed, .started, .startFailed, .startUndone, .shutdown,
    .shutdownFailed]

theorem SmallStep.sessions_eq (h : SmallStep m k obs m') (hk : k ∈ tableKinds) : m'.sessions = m.sessions := by
  cases h <;> first | rfl | simp [tableKinds] at hk

theorem socketFds_sessionRequest (m : Instance C) (s : Nat) (incompatibleStates : UInt8) (sqe : Sqe) (bits : UInt8) :
    socketFds (sessionRequest m s incompatibleStates sqe bits).1 = socketFds m := by
  unfold sessionRequest
  split
  · rfl
  · split
    · rfl
    · rw [socketFds_setStateBits]
      rfl

theorem socketFds_detach (m : Instance C) (s : Nat) (delErr : Option Int) :
    let p := mconSessionDetach m s delErr
    socketFds p.1 = if p.2.rc = 0 then Function.update (socketFds m) s (-1) else socketFds m := by
  dsimp only
  cases mconSessionDetach_outcome m s delErr with
  | refused err _ hcall => rw [hcall]; rfl
  | noRoom _ _ hcall => rw [hcall]; rfl
  | done stack _ _ _ hcall =>
    rw [hcall]
    dsimp only
    rw [socketFds_completeShutdownIfDone, socketFds_sessionResetAfterClose]
    rfl
  | undone stack stack' err _ _ _ _ _ hcall => rw [hcall]; rfl
  | halfDone stack _ _ _ hcall => rw [hcall]; rfl

/-- A call changes the descriptors as the application can tell. -/
theorem socketFds_step {n : Nat} (hm : Sound False n m) (i : Input) :
    socketFds (step m i).1 = noteCall (socketFds m) (i, (step m i).2) := by
  have htable : (∀ k, i.allows k → k ∈ tableKinds) → socketFds (step m i).1 = socketFds m := by
    intro hkinds
    apply socketFds_eq_of_sessions
    refine (calls_step m hm.wellFormed.cq_entries i).invariant (fun x => x.sessions = m.sessions) ?_ rfl
    exact fun _ _ _ _ hk hs hx => (hs.sessions_eq (hkinds _ hk)).trans hx
  cases i with
  | start =>
    exact htable fun k hk => (by decide : [StepKind.started, .startFailed, .startUndone] ⊆ tableKinds) hk
  | shutdown => exact htable fun k hk => (by decide : [StepKind.shutdown, .shutdownFailed] ⊆ tableKinds) hk
  | processEvent data epollEvents eventCapacity env =>
    exact socketFds_processEvent hm data epollEvents eventCapacity env
  | submit =>
    exact htable fun k hk => (by decide : [StepKind.acceptEnqueued, .pop, .submitted, .submitFailed] ⊆ tableKinds) hk
  | read => exact socketFds_sessionRequest _ _ _ _ _
  | write => exact socketFds_sessionRequest _ _ _ _ _
  | drain => exact socketFds_sessionRequest _ _ _ _ _
  | close => exact socketFds_sessionRequest _ _ _ _ _
  | detach s delErr => exact socketFds_detach m s delErr
  | kernel => exact htable fun k hk => by rw [hk]; decide

/-! ### Runs -/

theorem Execution.sound {ok : Instance C → Input → Prop} {h : History} (he : Execution ok h m) :
    Sound False m.configuration.sessionCount.toNat m :=
  ⟨he.wellFormed, he.validIndices, rfl, False.elim⟩

/-- The table holds the descriptors that the application knows. -/
theorem Execution.socketFds_eq {ok : Instance C → Input → Prop} {h : History} (he : Execution ok h m) :
    socketFds m = knownFds h := by
  obtain ⟨config, m₀, hcreated, hr⟩ := he
  induction hr with
  | nil =>
    obtain ⟨-, instanceId, eventfd, -, rfl⟩ := created_eq hcreated
    funext s
    exact congrArg Session.socketFd (newInstance_session instanceId eventfd config s)
  | @snoc h x i hr hi ih =>
    have hx : Execution ok h x := ⟨config, m₀, hcreated, hr⟩
    rw [socketFds_step hx.sound i, ih, knownFds, knownFds, List.foldl_append]
    rfl

/-- In every run, whatever fails, `mcon_session_get_socket` returns the descriptor that the last `NEW_CONNECTION` event
of the session reported, or `-1` when the session has been closed or detached since, was never opened or does not
exist. -/
theorem get_socket_returns_reported_descriptor {h : History} (he : Execution anyInput h m) (s : Nat) :
    mconSessionGetSocket m s = if s < m.configuration.sessionCount.toNat then knownFds h s else -1 := by
  have hfd : (m.session s).socketFd = knownFds h s := congrFun he.socketFds_eq s
  unfold mconSessionGetSocket validateArgs
  by_cases hs : s < m.configuration.sessionCount.toNat
  · rw [if_pos hs, if_neg (Nat.not_le.2 hs), mconSessionIsActive, if_neg (Nat.not_le.2 hs), hfd]
    by_cases hfree : knownFds h s = -1 <;> simp [hfree]
  · rw [if_neg hs, if_pos (Nat.not_lt.1 hs)]

/-- Two sessions, of which one has the connection on descriptor 20. -/
theorem get_socket_returns_reported_descriptor_connected :
    mconSessionGetSocket
      (finalState step (freshInstance (smallConfig 2 4 1)) (startInput :: serverInput :: connectInputs 20)) 0 = 20 := by
  have hrun : Execution anyInput _ _ := Execution.of_inputs (smallConfig 2 4 1) (by decide)
    (startInput :: serverInput :: connectInputs 20) (.of_forall (fun _ _ _ => trivial) _)
  exact (get_socket_returns_reported_descriptor hrun 0).trans (by decide)

end Mcon
