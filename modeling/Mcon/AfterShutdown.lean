import Mcon.HandlerCalls
import Mcon.Shutdown

/-!
# Accepts after a shutdown

A shutdown takes the listening socket out of the interest list and no more.  Accepts that were asked for before it, or
are asked for after it, are still served; which steps of a run serve one is said in terms of the inputs, the request
that stands at the shutdown, and the state before each step.
-/

namespace Mcon

open Transition (AllOk history finalState)

variable {C : Ctools} {m m' : Instance C} {k : StepKind} {obs : List Obs}

/-! ### What a run is asked not to do, and when it does -/

/-- The step establishes no connection: no accept is enqueued, no new connection is reported, and a session that is
inactive stays so. -/
def EstablishesNone (m : Instance C) (i : Input) : Prop :=
  (∀ a ∈ (step m i).2.acts, a.isAcceptPush = false) ∧
    (∀ e ∈ (step m i).2.reported, e.type = .newConnection → e.result < 0) ∧
    ∀ s, (m.session s).socketFd = -1 → ((step m i).1.session s).socketFd = -1

/-- The event brings `EPOLLIN` of the listening socket, or hands over an accept that did not end with `-EAGAIN`. -/
def AsksForAccepts (m : Instance C) : Input → Prop
  | .processEvent data epollEvents eventCapacity env =>
    mconOwnsEvent m data = true ∧
      ((mconDecodeEpollEntry data).source = epollSourceServerSocket ∧ epollEvents &&& epollin ≠ 0 ∨
        (mconDecodeEpollEntry data).source = epollSourceIoUring ∧
          ∃ x ∈ handedOver m eventCapacity env.uring, x.AsksAgain)
  | _ => False

/-- Fewer accepts are live than allowed and than there are free slots, and the io_queue takes one more. -/
def RoomForAccept (m : Instance C) : Prop :=
  m.state.acceptsLive.toNat < m.configuration.maxLiveAcceptSqes.toNat ∧ m.state.acceptsLive.toNat < freeSlots m ∧
    (C.kqueue.push m.ioQueue acceptGroup (acceptSqe m)).isSome

/-- The step serves an accept: a submission that finds room for one that was asked for, or an event that hands over
one whose connection gets a slot and is registered. -/
def ServesAccept (asked : Prop) (m : Instance C) : Input → Prop
  | .submit _ => asked ∧ RoomForAccept m
  | .processEvent data _ eventCapacity env =>
    mconOwnsEvent m data = true ∧ (mconDecodeEpollEntry data).source = epollSourceIoUring ∧
      ∃ x ∈ handedOver m eventCapacity env.uring, x.Connects
  | _ => False

/-- No step of a run serves an accept; `asked` says whether one is asked for at its start. -/
def NoAcceptServed (asked : Prop) (m : Instance C) : List Input → Prop
  | [] => True
  | i :: is => ¬ ServesAccept asked m i ∧ NoAcceptServed (asked ∨ AsksForAccepts m i) (step m i).1 is

section Decidable

variable (m : Instance C) (asked : Prop) [Decidable asked]

instance : ∀ i, Decidable (AsksForAccepts m i)
  | .processEvent _ _ _ _ => inferInstanceAs (Decidable (_ ∧ _))
  | .start .. | .shutdown _ | .submit _ | .read .. | .write .. | .drain .. | .close _ | .detach .. | .kernel _ =>
    isFalse id

instance : Decidable (RoomForAccept m) := inferInstanceAs (Decidable (_ ∧ _))

instance : ∀ i, Decidable (ServesAccept asked m i)
  | .processEvent _ _ _ _ => inferInstanceAs (Decidable (_ ∧ _))
  | .submit _ => inferInstanceAs (Decidable (_ ∧ _))
  | .start .. | .shutdown _ | .read .. | .write .. | .drain .. | .close _ | .detach .. | .kernel _ => isFalse id

instance NoAcceptServed.decidable : ∀ (asked : Prop) [Decidable asked] (m : Instance C) (is : List Input),
    Decidable (NoAcceptServed asked m is)
  | _, _, _, [] => isTrue trivial
  | asked, _, m, i :: is =>
    @instDecidableAnd _ _ inferInstance (NoAcceptServed.decidable (asked ∨ AsksForAccepts m i) (step m i).1 is)

end Decidable

/-! ### Steps that leave the accepts alone -/

/-- The kinds of small steps that enqueue an accept, consume the completion of one, or ask for some. -/
def acceptKinds : List StepKind :=
  [.acceptEnqueued, .acceptFailed, .acceptNoSlot, .acceptRollback, .accepted, .acceptsRequested]

theorem SmallStep.isAcceptPush (h : SmallStep m k obs m') (hk : k ≠ .acceptEnqueued) :
    ∀ o ∈ obs, ∀ a, o = .act a → a.isAcceptPush = false := by
  cases h with
  | kernel hstep => cases hstep <;> simp [Act.isAcceptPush]
  | request _ hdata => simp [Act.isAcceptPush, hdata, SlotOp.isAccept_entry]
  | acceptEnqueued => exact absurd rfl hk
  | eventfd hact => rcases hact with rfl | rfl <;> simp [Act.isAcceptPush]
  | look _ hact => rcases hact with rfl | ⟨err, rfl⟩ <;> simp [Act.isAcceptPush]
  | _ => simp [Act.isAcceptPush]

theorem SmallStep.acceptsRequested_eq (h : SmallStep m k obs m') (hk : k ∉ acceptKinds) :
    m'.state.acceptsRequested = m.state.acceptsRequested := by
  cases h with
  | closed => exact completeShutdownIfDone_acceptsRequested _
  | detached => exact completeShutdownIfDone_acceptsRequested _
  | acceptEnqueued => exact absurd (by decide) hk
  | acceptFailed => exact absurd (by decide) hk
  | acceptNoSlot => exact absurd (by decide) hk
  | acceptRollback => exact absurd (by decide) hk
  | accepted => exact absurd (by decide) hk
  | acceptsRequested => exact absurd (by decide) hk
  | _ => rfl

variable {P : StepKind → Prop} {acts : List Act} {log : List (Nat × SlotEvent)}

/-- Calls without the step that enqueues an accept. -/
theorem Calls.isAcceptPush (h : Calls P m acts log m') (hP : ∀ k, P k → k ≠ .acceptEnqueued) :
    ∀ a ∈ acts, a.isAcceptPush = false := by
  obtain ⟨obs, hpath, hacts, -⟩ := h
  have hquiet := hpath.forall_mem (fun _ => True) (fun o => ∀ a, o = .act a → a.isAcceptPush = false)
    (fun _ k _ _ hk hs _ => ⟨trivial, hs.isAcceptPush (hP k hk)⟩) trivial
  exact fun a ha => hquiet _ ((Obs.mem_acts_iff hacts).1 ha) a rfl

/-- Calls that leave the accepts alone. -/
theorem Calls.sameAccepts (h : Calls P m acts log m') (hP : ∀ k, P k → k ∉ acceptKinds) :
    m'.state.acceptsRequested = m.state.acceptsRequested ∧
      ∀ s, (m.session s).socketFd = -1 → (m'.session s).socketFd = -1 := by
  refine h.invariant (fun x => x.state.acceptsRequested = m.state.acceptsRequested ∧
    ∀ s, (m.session s).socketFd = -1 → (x.session s).socketFd = -1) ?_ ⟨rfl, fun _ hs => hs⟩
  rintro x k os x' hk hstep ⟨hflag, hfd⟩
  refine ⟨(hstep.acceptsRequested_eq (hP k hk)).trans hflag, fun s hs => ?_⟩
  rcases hstep.socketFd s with hsame | ⟨hnone, -⟩ | ⟨rfl, -⟩
  · rw [hsame]
    exact hfd s hs
  · exact hnone
  · exact absurd (by decide) (hP _ hk)

/-! ### One step -/

/-- The outcome of a step, as far as accepts go. -/
structure StepAccepts (m : Instance C) (i : Input) : Prop where
  establishes : EstablishesNone m i ↔ ¬ ServesAccept (m.state.acceptsRequested = true) m i
  requested : EstablishesNone m i → ((step m i).1.state.acceptsRequested = true ↔
    m.state.acceptsRequested = true ∨ AsksForAccepts m i)

/-- A step that cannot serve an accept and does not ask for any. -/
theorem StepAccepts.of_same {i : Input} (hserves : ¬ ServesAccept (m.state.acceptsRequested = true) m i)
    (hasks : ¬ AsksForAccepts m i) (hacts : ∀ a ∈ (step m i).2.acts, a.isAcceptPush = false)
    (hreported : ∀ e ∈ (step m i).2.reported, e.type = .newConnection → e.result < 0)
    (hsame : (step m i).1.state.acceptsRequested = m.state.acceptsRequested ∧
      ∀ s, (m.session s).socketFd = -1 → ((step m i).1.session s).socketFd = -1) : StepAccepts m i where
  establishes := iff_of_true ⟨hacts, hreported, hsame.2⟩ hserves
  requested _ := by rw [hsame.1, or_iff_left hasks]

/-- Without events nothing is reported. -/
theorem reported_of_events_nil {o : Output} (h : o.events = []) :
    ∀ e ∈ o.reported, e.type = .newConnection → e.result < 0 := by
  intro e he
  rw [Output.reported, h, List.take_nil] at he
  cases he

/-- Nor does a step whose small steps leave the accepts alone. -/
theorem StepAccepts.of_kinds {i : Input} (hentries : 2 ≤ m.ring.cqEntries)
    (hserves : ¬ ServesAccept (m.state.acceptsRequested = true) m i) (hasks : ¬ AsksForAccepts m i)
    (hevents : (step m i).2.events = []) (hkinds : ∀ k, i.allows k → k ∉ acceptKinds) : StepAccepts m i := by
  have hcalls := calls_step m hentries i
  refine .of_same hserves hasks (hcalls.isAcceptPush ?_) (reported_of_events_nil hevents) (hcalls.sameAccepts hkinds)
  rintro k hk rfl
  exact hkinds _ hk (by decide)

/-- A submission. -/
theorem stepAccepts_submit (m : Instance C) (res : Int) : StepAccepts m (.submit res) := by
  have hevents : (step m (.submit res)).2.events = [] := step_events_nil m (by simp)
  by_cases hserves : ServesAccept (m.state.acceptsRequested = true) m (.submit res)
  · obtain ⟨hrequested, hlive, hfree, hroom⟩ := id hserves
    obtain ⟨ioq, hpush⟩ := Option.isSome_iff_exists.1 hroom
    obtain ⟨acts, hacts, -⟩ := submitAccepts_of_wanted ⟨hrequested, hlive, hfree⟩ hpush
    have hmem : Act.ioQueuePush (acceptSqe m) ∈ (mconSubmit m res).2.acts := by
      unfold mconSubmit
      dsimp only
      split
      · exact List.mem_append_left _ (hacts ▸ List.mem_cons_self)
      · exact hacts ▸ List.mem_cons_self
    have hnot : ¬ EstablishesNone m (.submit res) := fun h => by cases h.1 _ hmem
    exact ⟨iff_of_false hnot (not_not.2 hserves), fun h => absurd h hnot⟩
  · have hself : submitAccepts m = (m, []) := by
      refine submitAccepts_eq_self ?_
      rintro ⟨⟨hrequested, hlive, hfree⟩, hroom⟩
      exact hserves ⟨hrequested, hlive, hfree, hroom⟩
    have hcalls : Calls (· ∈ [StepKind.pop, .submitted, .submitFailed]) m (mconSubmit m res).2.acts []
        (mconSubmit m res).1 := by
      refine calls_submit m ?_ (by simp) (by simp) (by simp) res
      rw [hself]
      exact .nil m
    have hkinds : ∀ k ∈ [StepKind.pop, .submitted, .submitFailed], k ≠ .acceptEnqueued ∧ k ∉ acceptKinds := by
      decide
    exact .of_same hserves id (hcalls.isAcceptPush fun k hk => (hkinds k hk).1) (reported_of_events_nil hevents)
      (hcalls.sameAccepts fun k hk => (hkinds k hk).2)

/-- An event of the io_uring instance. -/
theorem stepAccepts_ioUring (hentries : 2 ≤ m.ring.cqEntries) {data : UInt64} (howns : mconOwnsEvent m data = true)
    (hsource : (mconDecodeEpollEntry data).source = epollSourceIoUring) (epollEvents : UInt32) (eventCapacity : Nat)
    (env : ProcessEnv) (hacts : ∀ a ∈ (step m (.processEvent data epollEvents eventCapacity env)).2.acts,
      a.isAcceptPush = false) :
    StepAccepts m (.processEvent data epollEvents eventCapacity env) := by
  have hcall : step m (.processEvent data epollEvents eventCapacity env) =
      mconProcessIoUringEvent m eventCapacity env.uring := mconProcessEvent_ioUring howns hsource _ _ _
  have hloop := loopAccepts_cqeLoopResult m hentries eventCapacity env.uring
  generalize hst : cqeLoopResult m eventCapacity env.uring = st at hloop
  have hframe : (mconProcessIoUringEvent m eventCapacity env.uring).1.sessions = st.mcon.sessions ∧
      (mconProcessIoUringEvent m eventCapacity env.uring).1.state = st.mcon.state := by
    unfold mconProcessIoUringEvent clearEventfd
    rw [hst]
    dsimp only
    split
    · split <;> exact ⟨rfl, rfl⟩
    · exact ⟨rfl, rfl⟩
  have hsession : ∀ s, (mconProcessIoUringEvent m eventCapacity env.uring).1.session s = st.mcon.session s := by
    intro s
    rw [Instance.session, hframe.1]
    rfl
  have hreported : (mconProcessIoUringEvent m eventCapacity env.uring).2.reported = st.events.take st.eventCount := by
    rw [Output.reported, processIoUringEvent_events, processIoUringEvent_rc, hst, Int.toNat_natCast]
  have hserves : ServesAccept (m.state.acceptsRequested = true) m (.processEvent data epollEvents eventCapacity env) ↔
      ∃ x ∈ handedOver m eventCapacity env.uring, x.Connects := by
    simp [ServesAccept, howns, hsource]
  have hasks : AsksForAccepts m (.processEvent data epollEvents eventCapacity env) ↔
      ∃ x ∈ handedOver m eventCapacity env.uring, x.AsksAgain := by
    have hne : epollSourceIoUring ≠ epollSourceServerSocket := by decide
    simp [AsksForAccepts, howns, hsource, hne]
  have hconnected := hloop.connected
  have hrequested := hloop.requested
  simp only [List.not_mem_nil, false_and, exists_false, or_false] at hconnected hrequested
  rw [hcall] at hacts
  constructor
  · rw [hserves, EstablishesNone, hcall, hreported]
    constructor
    · rintro ⟨-, hnone, -⟩ hconnects
      obtain ⟨e, he, htype, hres⟩ := hconnected.1 hconnects
      have := hnone e he htype
      omega
    · intro hnot
      refine ⟨hacts, fun e he htype => ?_, fun s hs => ?_⟩
      · by_contra hres
        exact hnot (hconnected.2 ⟨e, he, htype, by omega⟩)
      · rw [hsession]
        exact hloop.inactive hnot s hs
  · intro
    rw [hcall, hframe.2, hasks]
    exact hrequested.symm

/-- An event of the listening socket. -/
theorem stepAccepts_serverSocket {data : UInt64} {epollEvents : UInt32} {eventCapacity : Nat} {env : ProcessEnv}
    (howns : mconOwnsEvent m data = true) (hsource : (mconDecodeEpollEntry data).source = epollSourceServerSocket)
    (hcall : step m (.processEvent data epollEvents eventCapacity env) =
      (if epollEvents &&& epollin != 0 then requestAccepts m else m, .ret 0 none [])) :
    StepAccepts m (.processEvent data epollEvents eventCapacity env) := by
  have hne : epollSourceServerSocket ≠ epollSourceIoUring := by decide
  have hnone : EstablishesNone m (.processEvent data epollEvents eventCapacity env) := by
    rw [EstablishesNone, hcall]
    refine ⟨by simp [Output.ret], reported_of_events_nil rfl, fun s hs => ?_⟩
    dsimp only
    split <;> exact hs
  refine ⟨iff_of_true hnone fun h => hne (hsource ▸ h.2.1), fun _ => ?_⟩
  rw [hcall, AsksForAccepts, howns, hsource]
  by_cases hin : epollEvents &&& epollin = 0
  · simp [hin, hne]
  · simp [hin, requestAccepts]

/-- An event of a client socket. -/
theorem stepAccepts_session {data : UInt64} {epollEvents : UInt32} {eventCapacity : Nat} {env : ProcessEnv}
    (hsource : (mconDecodeEpollEntry data).source = epollSourceSession)
    (hcall : step m (.processEvent data epollEvents eventCapacity env) =
      mconProcessSessionEvent m epollEvents (mconDecodeEpollEntry data) eventCapacity env.sockopt)
    (hacts : ∀ a ∈ (step m (.processEvent data epollEvents eventCapacity env)).2.acts, a.isAcceptPush = false) :
    StepAccepts m (.processEvent data epollEvents eventCapacity env) := by
  have hne : epollSourceSession ≠ epollSourceIoUring ∧ epollSourceSession ≠ epollSourceServerSocket := by decide
  refine .of_same (fun h => hne.1 (hsource ▸ h.2.1)) (by simp [AsksForAccepts, hsource, hne]) hacts ?_ ?_
  · rw [hcall]
    intro e he htype
    by_contra hres
    have hmem := List.mem_of_mem_take he
    have hopened : e.slotEvent = some (e.session, .opened) := by simp [Event.slotEvent, htype, hres]
    by_cases hthrough : LetThrough m epollEvents (mconDecodeEpollEntry data) eventCapacity
    · rw [(processSessionEvent_of_letThrough hthrough env.sockopt).2.1] at hmem
      have hnil := List.filterMap_eq_nil_iff.1 (slotEvent_sessionEvents epollEvents _ _ env.sockopt) e hmem
      rw [hnil] at hopened
      cases hopened
    · rw [(processSessionEvent_of_not_letThrough hthrough env.sockopt).2.1] at hmem
      cases hmem
  · rw [hcall]
    rcases processSessionEvent_instance m epollEvents (mconDecodeEpollEntry data) eventCapacity env.sockopt with h | h
    · rw [h]
      exact ⟨rfl, fun _ hs => hs⟩
    · rw [h]
      exact ⟨rfl, fun s hs => by rw [setStateBits_socketFd]; exact hs⟩

/-- An event. -/
theorem stepAccepts_processEvent (hentries : 2 ≤ m.ring.cqEntries) (data : UInt64) (epollEvents : UInt32)
    (eventCapacity : Nat) (env : ProcessEnv) :
    StepAccepts m (.processEvent data epollEvents eventCapacity env) := by
  have hacts : ∀ a ∈ (step m (.processEvent data epollEvents eventCapacity env)).2.acts,
      a.isAcceptPush = false := by
    refine (calls_step m hentries (.processEvent data epollEvents eventCapacity env)).isAcceptPush ?_
    rintro k hk rfl
    rcases hk with hk | ⟨hk, -⟩
    · simp [processKinds] at hk
    · cases hk
  cases dispatched m data epollEvents eventCapacity env with
  | refused errno hother hcall =>
    have hserver : mconOwnsEvent m data = true → (mconDecodeEpollEntry data).source ≠ epollSourceServerSocket := by
      intro howns hsource
      have hrc : (mconProcessEvent m data epollEvents eventCapacity env).2.rc = 0 := by
        unfold mconProcessEvent mconProcessServerSocketEvent
        simp only [howns, hsource, Bool.not_true, Bool.false_eq_true, if_false, if_true]
        split <;> rfl
      rw [hcall] at hrc
      cases hrc
    have hasks : ¬ AsksForAccepts m (.processEvent data epollEvents eventCapacity env) := by
      rintro ⟨howns, h | h⟩
      · exact hserver howns h.1
      · exact (hother howns).1 h.1
    refine .of_same (fun h => (hother h.1).1 h.2.1) hasks hacts ?_ ?_
    · exact reported_of_events_nil (congrArg (fun p => p.2.events) hcall)
    · show (mconProcessEvent m data epollEvents eventCapacity env).1.state.acceptsRequested = _ ∧ _
      rw [step, hcall]
      exact ⟨rfl, fun _ hs => hs⟩
  | serverSocket howns hsource hcall => exact stepAccepts_serverSocket howns hsource hcall
  | ioUring howns hsource => exact stepAccepts_ioUring hentries howns hsource epollEvents eventCapacity env hacts
  | session howns hsource hcall => exact stepAccepts_session hsource hcall hacts

/-- Every step. -/
theorem stepAccepts (hentries : 2 ≤ m.ring.cqEntries) (i : Input) : StepAccepts m i := by
  cases i with
  | submit res => exact stepAccepts_submit m res
  | processEvent data epollEvents eventCapacity env =>
    exact stepAccepts_processEvent hentries data epollEvents eventCapacity env
  | _ =>
    refine .of_kinds hentries id id (step_events_nil m (by simp)) fun k hk hmem => ?_
    simp only [acceptKinds, List.mem_cons, List.not_mem_nil, or_false] at hmem
    rcases hmem with rfl | rfl | rfl | rfl | rfl | rfl <;> simp [Input.allows] at hk

/-! ### Runs -/

/-- No step of a run establishes a connection exactly if none serves an accept. -/
theorem establishesNone_iff_noAcceptServed (hm : WellFormed m) (is : List Input) :
    AllOk step EstablishesNone m is ↔ NoAcceptServed (m.state.acceptsRequested = true) m is := by
  induction is generalizing m with
  | nil => exact Iff.rfl
  | cons i is ih =>
    have hi := stepAccepts hm.cq_entries i
    have hnext : WellFormed (step m i).1 := (calls_step m hm.cq_entries i).wellFormed hm
    rw [AllOk, NoAcceptServed, hi.establishes]
    refine and_congr_right fun hserves => ?_
    rw [ih hnext, hi.requested (hi.establishes.2 hserves)]

/-- From a call of `mcon_shutdown` on, successful or not, no connection is established exactly if no step serves an
accept.  The shutdown itself takes back no request for accepts, and neither does anything else before the next accept
is enqueued. -/
theorem no_connection_after_shutdown {m₁ : Instance C} {h₁ : History} (he : Execution anyInput h₁ m₁)
    (delErr : Option Int) (is : List Input) :
    AllOk step EstablishesNone (mconShutdown m₁ delErr).1 is ↔
      NoAcceptServed (m₁.state.acceptsRequested = true) (mconShutdown m₁ delErr).1 is := by
  have hm : WellFormed (mconShutdown m₁ delErr).1 :=
    (calls_step m₁ he.wellFormed.cq_entries (.shutdown delErr)).wellFormed he.wellFormed
  have hsame : (mconShutdown m₁ delErr).1.state.acceptsRequested = m₁.state.acceptsRequested := by
    unfold mconShutdown
    split
    · rfl
    split
    · rfl
    cases delErr <;> rfl
  rw [establishesNone_iff_noAcceptServed hm, hsame]

/-- A session is connected and the next accept is in the kernel when the shutdown succeeds; the accept ends with
`-EAGAIN`, and the session is closed. -/
theorem no_connection_after_shutdown_again :
    let m₁ := finalState step (freshInstance (smallConfig 2 4 1))
      (startInput :: serverInput :: connectInputs 20 ++ [.submit 1])
    (mconShutdown m₁ none).2.rc = 0 ∧ (m₁.ring.inKernel.countP fun sqe => isAccept sqe.userData) = 1 ∧
      AllOk step EstablishesNone (mconShutdown m₁ none).1
        (completeInputs (-Errno.eagain) ++ [ringInput, .submit 0, .close 0, .submit 1] ++ completeInputs 0 ++
          [ringInput, .submit 0]) := by
  intro m₁
  have hrun : Execution anyInput _ m₁ := Execution.of_inputs (smallConfig 2 4 1) (by decide) _
    (.of_forall (fun _ _ _ => trivial) _)
  exact ⟨by decide, by decide, (no_connection_after_shutdown hrun none _).2 (by decide)⟩

/-- An accept is in the kernel when the shutdown is requested: its connection is established and reported, and the
next submission enqueues another accept. -/
theorem accept_in_kernel_survives_shutdown :
    let inputs := [startInput, serverInput, .submit 1]
    let m₁ := finalState step (freshInstance (smallConfig 2 4 1)) inputs
    let m₂ := (mconShutdown m₁ none).1
    let h := history step m₂ (completeInputs 20 ++ [ringInput, .submit 1])
    Execution anyInput (history step (freshInstance (smallConfig 2 4 1)) inputs) m₁ ∧
      (mconShutdown m₁ none).2.rc = 0 ∧ (m₂.session 0).socketFd = -1 ∧
      ((finalState step m₂ (completeInputs 20 ++ [ringInput, .submit 1])).session 0).socketFd = 20 ∧
      h.flatMap (fun p => p.2.reported) = [⟨20, 0, .newConnection⟩] ∧
      (actsOf h).countP Act.isAcceptPush = 1 :=
  ⟨Execution.of_inputs _ (by decide) _ (.of_forall (fun _ _ _ => trivial) _), by decide, by decide, by decide,
    by decide, by decide⟩

end Mcon
