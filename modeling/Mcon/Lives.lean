import Mcon.HandedOut
import Mcon.Rounds
import Mcon.Sizing

/-!
# What an application can see

The slots and the order of the free stack say what an application cannot see.  They are not too generous: with room in
the rings for two operations a session, whatever they allow is seen in some run.
-/

namespace Mcon

open Transition (Run history finalState)

variable {C : Ctools} {m m' x : Instance C} {h h' : History} {k : StepKind} {obs : List Obs} {cqe : Cqe}
  {log : List (Nat × SlotEvent)} {n s : Nat} {e : SlotEvent}

/-! ### What is possible -/

/-- The events of one slot in a log. -/
def lifeOf (log : List (Nat × SlotEvent)) (s : Nat) : List SlotEvent :=
  log.filterMap fun p => if p.1 = s then some p.2 else none

/-- Every slot lives as `Slot.run` says, and every connection takes the first of the free sessions. -/
structure Possible (n : Nat) (log : List (Nat × SlotEvent)) : Prop where
  lives : ∀ s, ∃ y, Slot.run .free (lifeOf log s) = some y
  handedOut : ∃ free, handOutAll (List.range n) log = some free

theorem lifeOf_append (log log' : List (Nat × SlotEvent)) (s : Nat) :
    lifeOf (log ++ log') s = lifeOf log s ++ lifeOf log' s := List.filterMap_append

theorem Possible.of_snoc (hp : Possible n (log ++ [(s, e)])) :
    Possible n log ∧ (∃ y, Slot.run .free (lifeOf log s) = some y ∧ (y.next e).isSome) ∧
      (e = .opened → ∃ free, handOutAll (List.range n) log = some (s :: free)) := by
  obtain ⟨free', hfree'⟩ := hp.handedOut
  rw [handOutAll_append] at hfree'
  obtain ⟨free, hfree, hlast⟩ := Option.bind_eq_some_iff.1 hfree'
  refine ⟨⟨fun t => ?_, free, hfree⟩, ?_, fun he => ?_⟩
  · obtain ⟨y, hy⟩ := hp.lives t
    rw [lifeOf_append, Slot.run_append] at hy
    obtain ⟨z, hz, -⟩ := Option.bind_eq_some_iff.1 hy
    exact ⟨z, hz⟩
  · obtain ⟨y, hy⟩ := hp.lives s
    rw [lifeOf_append, Slot.run_append] at hy
    obtain ⟨z, hz, hnext⟩ := Option.bind_eq_some_iff.1 hy
    refine ⟨z, hz, ?_⟩
    simp only [lifeOf, List.filterMap_cons, if_true, List.filterMap_nil, Slot.run_singleton] at hnext
    rw [hnext]
    rfl
  · subst he
    obtain ⟨free₁, hone, -⟩ := Option.bind_eq_some_iff.1
      (show (handOut free (s, .opened)).bind (handOutAll · []) = some free' from hlast)
    exact ⟨free₁, (handOut_opened hone) ▸ hfree⟩

theorem Execution.possible (he : Execution DetachesWhole h m) :
    Possible m.configuration.sessionCount.toNat (h.flatMap slotEventsOf) := by
  obtain ⟨A, -, -, hrun, -⟩ := he.represents_whole
  exact ⟨fun s => ⟨A s, hrun s⟩, _, he.handOutAll⟩

/-! ### The descriptors of the accepts -/

/-- The descriptors of the instance and of its sessions. -/
def heldFds (m : Instance C) : List Int :=
  m.serverSocketFd :: m.epollFd :: m.ioUringEventfd :: m.sessions.map (·.socketFd)

/-- An accept is given a descriptor that is not held, and the kernel is at rest during the calls. -/
def FreshAccepts (m : Instance C) : Input → Prop
  | .kernel (.exec index res) =>
    ∀ sqe, m.ring.inKernel[index]? = some sqe → isAccept sqe.userData = true → res ∉ heldFds m
  | .processEvent _ _ _ env => env.uring = .quiet
  | _ => True

def HealthyFresh (m : Instance C) (i : Input) : Prop := Healthy m i ∧ FreshAccepts m i

theorem exists_fresh (m : Instance C) : ∃ fd : Int, 0 ≤ fd ∧ fd ∉ heldFds m := by
  obtain ⟨fd, hfd⟩ := Infinite.exists_notMem_finset ((heldFds m).map Int.toNat).toFinset
  refine ⟨fd, Int.natCast_nonneg fd, fun hmem => hfd ?_⟩
  rw [List.mem_toFinset, List.mem_map]
  exact ⟨fd, hmem, Int.toNat_natCast fd⟩

/-! ### Waiting for the kernel -/

/-- The operations outstanding are in the kernel, but for the completions in the CQ ring. -/
structure Settled (m : Instance C) (cqes : List Cqe) : Prop where
  queued : C.kqueue.contents m.ioQueue = []
  sq : m.ring.sq = []
  executed : m.ring.executed = []
  cq : m.ring.cq = cqes

theorem Settled.outstanding (hm : Settled m []) : m.outstanding = m.ring.inKernel.map (·.userData) := by
  simp [Instance.outstanding, Ring.entries, hm.queued, hm.sq, hm.executed, hm.cq]

theorem Settled.queue_size (hm : Settled m []) : C.kqueue.size m.ioQueue = 0 := by
  rw [C.kqueue.size_eq_length, hm.queued, List.length_nil]

/-- What is outstanding can be found in the kernel. -/
theorem Settled.exists_inKernel (hm : Settled m []) {p : IoUringEntry → Prop} (h : ∃ e ∈ m.outstanding, p e) :
    ∃ (i : Nat) (sqe : Sqe), m.ring.inKernel[i]? = some sqe ∧ p sqe.userData := by
  obtain ⟨e, he, hp⟩ := h
  rw [hm.outstanding, List.mem_map] at he
  obtain ⟨sqe, hsqe, rfl⟩ := he
  obtain ⟨i, hget⟩ := List.mem_iff_getElem?.1 hsqe
  exact ⟨i, sqe, hget, hp⟩

/-! ### Submitting all -/

theorem SmallStep.answers_eq (hk : k ∈ submitKinds) (h : SmallStep m k obs m') :
    m'.ring.executed = m.ring.executed ∧ m'.ring.cq = m.ring.cq := by
  cases h with
  | pop hpop =>
    cases hpop
    exact ⟨rfl, rfl⟩
  | acceptEnqueued => exact ⟨rfl, rfl⟩
  | submitted => exact ⟨rfl, rfl⟩
  | submitFailed => exact ⟨rfl, rfl⟩
  | _ => simp [submitKinds] at hk

/-- The rings have room for two operations a session. -/
def RingForAll (config : Config) : Prop := 2 * config.sessionCount.toNat ≤ config.ioUringQueueSize.toNat

instance (config : Config) : Decidable (RingForAll config) := inferInstanceAs (Decidable (_ ≤ _))

/-- One submission may hand over all that is queued. -/
theorem settled_submit (he : Execution Healthy h m) (hroom : RingForAll m.configuration) (hsq : m.ring.sq = [])
    (hexecuted : m.ring.executed = []) (hcq : m.ring.cq = []) :
    Healthy m (.submit (flightRoom m)) ∧ Settled (step m (.submit (flightRoom m))).1 [] := by
  obtain ⟨A, hm, hrep, -⟩ := (he.mono fun _ _ => And.left).represents_whole
  have hc := he.acceptsCounted
  have hflight := he.sqeInFlight_toNat
  unfold RingForAll at hroom
  have hle : m.state.sqeInFlight.toNat ≤ m.configuration.ioUringQueueSize.toNat := by
    have hout := hrep.outstanding_le he.validIndices hc
    have hfree := hc.le_free
    have hunconsumed : m.ring.unconsumed ≤ m.outstanding.length := by
      simp only [Instance.outstanding, Ring.entries, Ring.unconsumed, List.length_append, List.length_map]
      omega
    omega
  have hcalls := calls_step m hm.cq_entries (.submit (flightRoom m))
  have hsame := hcalls.invariant
    (fun y => y.ring.executed = m.ring.executed ∧ y.ring.cq = m.ring.cq)
    (fun _ _ _ _ hk hs hy => ⟨(hs.answers_eq hk).1.trans hy.1, (hs.answers_eq hk).2.trans hy.2⟩) ⟨rfl, rfl⟩
  refine ⟨healthy_submit hflight hle, ?_, sq_submit hm hsq hle, hsame.1.trans hexecuted, hsame.2.trans hcq⟩
  -- the room in the rings is that of all the operations that the slots allow
  obtain ⟨hpopped, moved, hlength, -, hcontents⟩ := submit_moves hm hsq hle
  show C.kqueue.contents (mconSubmit m _).1.ioQueue = []
  rw [mconSubmit_ioQueue, ← List.length_eq_zero_iff]
  have hout := hrep.outstanding_submitAccepts_le hm he.validIndices hc
  have hfree := ((submitAccepts_calls m).accepts hm hc).1.le_free
  have hsize := C.kqueue.size_eq_length (submitAccepts m).1.ioQueue
  have hring := (submitAccepts_calls m).queuesOnly.ring
  have hqueued : C.kqueue.size (submitAccepts m).1.ioQueue + m.ring.unconsumed =
      (submitAccepts m).1.outstanding.length := by
    simp only [Instance.outstanding, Ring.entries, Ring.unconsumed, List.length_append, List.length_map, hring, hsq,
      hsize, List.length_nil]
    omega
  rw [hcontents, List.length_append] at hsize
  omega

/-! ### One answer -/

/-- A call with room for one event, on a ring with one completion whose handler does not fail. -/
theorem mconProcessIoUringEvent_one (hcq : m.ring.cq = [cqe]) (herr : (processCqe m cqe 1 none).err = 1) :
    let call := mconProcessIoUringEvent m 1 .quiet
    call.1.ring = m.ring.ioUringCqeSeen ∧ call.2.events = (processCqe m cqe 1 none).events ∧ call.2.rc = 1 := by
  have hring := processCqe_ring m cqe (Nat.one_pos) none (by rw [herr]; decide)
  obtain ⟨fuel, hfuel⟩ : ∃ fuel, m.ring.unconsumed = fuel + 1 :=
    ⟨m.ring.inKernel.length + m.ring.executed.length, by rw [Ring.unconsumed, hcq, List.length_singleton]⟩
  have hempty : (processCqe m cqe 1 none).mcon.ring.cq = [] := by
    rw [hring, Ring.ioUringCqeSeen, hcq]
    rfl
  obtain ⟨st, hloop, hst⟩ : ∃ st, cqeLoop 1 .quiet (m.ring.unconsumed + 1) (loopStart m) = some st ∧
      st.mcon.ring = (processCqe m cqe 1 none).mcon.ring ∧ st.eventCount = 1 ∧ st.iterationCount = 1 ∧
        st.events = (processCqe m cqe 1 none).events := by
    rw [hfuel]
    simp [cqeLoop, cqeIteration, loopStart, UringEnv.quiet, moveRing, Ring.applyAll, hcq, herr, hempty]
  have hresult : cqeLoopResult m 1 .quiet = st := by
    simp only [cqeLoopResult, hloop, Option.get_some]
  obtain ⟨hmcon, hcount, hiterations, hevents⟩ := hst
  unfold mconProcessIoUringEvent
  simp [hresult, hiterations, hcount, hevents, hmcon, hring]

/-- The call takes the one completion and reports its event. -/
theorem settled_ringCall (hw : WellFormed x) (hx : Settled x [cqe]) (herr : (processCqe x cqe 1 none).err = 1)
    {event : Event} (hevents : (processCqe x cqe 1 none).events = [event]) :
    Settled (step x (ringCall x 1)).1 [] ∧
      slotEventsOf (ringCall x 1, (step x (ringCall x 1)).2) = [event].filterMap Event.slotEvent := by
  obtain ⟨hring, hstored, hrc⟩ := mconProcessIoUringEvent_one hx.cq herr
  rw [← step_ringCall] at hring hstored hrc
  have hqueue : (step x (ringCall x 1)).1.ioQueue = x.ioQueue := by
    have hanswers : (ringCall x 1).Answers := trivial
    exact (calls_step x hw.cq_entries (ringCall x 1)).invariant (fun y => y.ioQueue = x.ioQueue)
      (fun _ _ _ _ hk hs hy => (hs.ioQueue_eq (hanswers.eventKinds _ hk)).trans hy) rfl
  refine ⟨⟨by rw [hqueue]; exact hx.queued, ?_, ?_, ?_⟩, ?_⟩
  · rw [hring]
    exact hx.sq
  · rw [hring]
    exact hx.executed
  · rw [hring, Ring.ioUringCqeSeen, hx.cq]
    rfl
  · show (step x (ringCall x 1)).2.reported.filterMap Event.slotEvent = _
    rw [Output.reported, hstored, hevents, hrc]
    rfl

/-- The kernel executes a submission and posts its completion. -/
theorem exists_posted (hm : Settled m []) {i : Nat} {sqe : Sqe} (hget : m.ring.inKernel[i]? = some sqe) {res : Int}
    (hres : isAccept sqe.userData = true → res ∉ heldFds m) :
    ∃ h' x, Run step HealthyFresh m h' x ∧ Settled x [⟨sqe.userData, res⟩] ∧ h'.flatMap slotEventsOf = [] := by
  let y := (step m (.kernel (.exec i res))).1
  have hexec : HealthyFresh m (.kernel (.exec i res)) := by
    refine ⟨healthy_kernel m _, fun sqe' hget' haccept => ?_⟩
    obtain rfl : sqe = sqe' := Option.some.inj (hget.symm.trans hget')
    exact hres haccept
  have hr : Run step HealthyFresh m _ (step y (.kernel (.post 0))).1 :=
    .snoc _ (.snoc _ .nil hexec) ⟨healthy_kernel y _, trivial⟩
  refine ⟨_, _, hr, ⟨hm.queued, ?_, ?_, ?_⟩, rfl⟩
  all_goals simp [y, step, moveRing, Ring.applyAll, Ring.apply, hget, hm.sq, hm.executed, hm.cq]

theorem processCqe_answered {op : SlotOp} {rest : List Cqe} (hm : Sound True n m) (hcq : m.ring.cq = cqe :: rest)
    (hdata : cqe.userData = op.entry s) :
    (processCqe m cqe 1 none).err = 1 ∧ ∃ event, (processCqe m cqe 1 none).events = [event] ∧
      event.slotEvent = some (s, .answered op) := by
  rcases op with (_ | _) | _ | _
  · exact ⟨by simp [processCqe, hdata, SlotOp.entry, SlotOp.operation, processRead, processTransfer],
      ⟨cqe.res, s, .readComplete⟩, by
        simp [processCqe, hdata, SlotOp.entry, SlotOp.operation, processRead, processTransfer], rfl⟩
  · exact ⟨by simp [processCqe, hdata, SlotOp.entry, SlotOp.operation, processDrain, processTransfer],
      ⟨cqe.res, s, .drainComplete⟩, by
        simp [processCqe, hdata, SlotOp.entry, SlotOp.operation, processDrain, processTransfer], rfl⟩
  · exact ⟨by simp [processCqe, hdata, SlotOp.entry, SlotOp.operation, processWrite, processTransfer],
      ⟨cqe.res, s, .writeComplete⟩, by
        simp [processCqe, hdata, SlotOp.entry, SlotOp.operation, processWrite, processTransfer], rfl⟩
  · have hop : cqe.userData.operation = .close := by rw [hdata]; rfl
    obtain ⟨stack, hpush⟩ := Option.isSome_iff_exists.1 (hm.push_isSome hcq hop)
    have hsession : cqe.userData.session = s := by rw [hdata]; rfl
    rw [hsession] at hpush
    have hclose : processCqe m cqe 1 none = processClose m cqe cqe.userData 1 := by rw [processCqe, hop]
    rw [hclose, processClose, if_neg (by decide)]
    simp only [hsession, hpush]
    exact ⟨trivial, _, rfl, rfl⟩

theorem processCqe_opened {rest : List Cqe} (hc : AcceptsCounted m) (hcq : m.ring.cq = cqe :: rest)
    (hop : cqe.userData.operation = .accept) (hres : 0 ≤ cqe.res) :
    (processCqe m cqe 1 none).err = 1 ∧ ∃ event t, (processCqe m cqe 1 none).events = [event] ∧
      event.slotEvent = some (t, .opened) := by
  obtain ⟨⟨t, stack⟩, hpop⟩ := Option.ne_none_iff_exists'.1 (hc.pop_ne_none hcq hop)
  have haccept : processCqe m cqe 1 none = processAccept m cqe 1 none := by rw [processCqe, hop]
  have hnot : ¬ cqe.res < 0 := by omega
  have hagain : ¬ cqe.res = -Errno.eagain := fun h => hnot (h ▸ by decide)
  rw [haccept, processAccept, if_neg hagain, if_neg (by decide)]
  have hpop' : C.idxStack.pop (requestAccepts (acceptSeen m)).sessionFreeStack = some (t, stack) := hpop
  simp only [hnot, if_false, hpop']
  exact ⟨trivial, _, t, rfl, by simp [Event.slotEvent, hnot]⟩

/-! ### One event more -/

/-- The instance can go on from `m` to one that waits for the kernel again, and meanwhile `log` is seen. -/
def CanSee (m : Instance C) (log : List (Nat × SlotEvent)) (m' : Instance C) : Prop :=
  ∃ h', Run step HealthyFresh m h' m' ∧ Settled m' [] ∧ h'.flatMap slotEventsOf = log

/-- An operation in the kernel may be answered next. -/
theorem canSee_answered (he : Execution HealthyFresh h m) (hm : Settled m []) {op : SlotOp}
    (hout : op.entry s ∈ m.outstanding) : ∃ m', CanSee m [(s, .answered op)] m' := by
  obtain ⟨i, sqe, hget, hdata⟩ := hm.exists_inKernel (p := (· = op.entry s)) ⟨_, hout, rfl⟩
  have hne : isAccept sqe.userData = true → (0 : Int) ∉ heldFds m := by
    rw [hdata, op.isAccept_entry]
    exact fun h => by cases h
  obtain ⟨h₁, x, hr, hx, hlog⟩ := exists_posted hm hget hne
  have hex := he.trans hr
  have hsound := (hex.mono fun _ _ hi => hi.1.1).sound_whole
  obtain ⟨herr, event, hevents, hslot⟩ := processCqe_answered hsound hx.cq hdata
  obtain ⟨hsettled, hseen⟩ := settled_ringCall hex.wellFormed hx herr hevents
  refine ⟨_, _, hr.snoc _ ⟨healthy_ringCall x 1, rfl⟩, hsettled, ?_⟩
  simp [hlog, hseen, hslot]

/-- An accept in the kernel may bring a connection. -/
theorem canSee_opened (he : Execution HealthyFresh h m) (hm : Settled m [])
    (hlive : 0 < m.state.acceptsLive.toNat) : ∃ t m', CanSee m [(t, .opened)] m' := by
  rw [he.acceptsCounted.count, List.countP_pos_iff] at hlive
  obtain ⟨i, sqe, hget, haccept⟩ := hm.exists_inKernel hlive
  obtain ⟨fd, hpos, hfd⟩ := exists_fresh m
  obtain ⟨h₁, x, hr, hx, hlog⟩ := exists_posted hm hget fun _ => hfd
  have hex := he.trans hr
  have hop : sqe.userData.operation = .accept := by simpa [isAccept] using haccept
  obtain ⟨herr, event, t, hevents, hslot⟩ := processCqe_opened hex.acceptsCounted hx.cq hop hpos
  obtain ⟨hsettled, hseen⟩ := settled_ringCall hex.wellFormed hx herr hevents
  refine ⟨t, _, _, hr.snoc _ ⟨healthy_ringCall x 1, rfl⟩, hsettled, ?_⟩
  simp [hlog, hseen, hslot]

/-- A call of `mcon_process_event` for the listening socket. -/
def serverCall (m : Instance C) : Input :=
  .processEvent (instancePayload m epollSourceServerSocket) epollin 0 ⟨.quiet, ⟨none, 0⟩⟩

theorem step_serverCall (m : Instance C) : step m (serverCall m) = (requestAccepts m, .ret 0 none []) := by
  have howns : mconOwnsEvent m (instancePayload m epollSourceServerSocket) = true :=
    owns_instancePayload m (by decide) (by decide)
  show mconProcessEvent m _ _ _ _ = _
  unfold mconProcessEvent
  simp only [howns, source_instancePayload m (by decide : epollSourceServerSocket.toNat < 2 ^ 4)]
  rfl

/-- A wanted accept is in the io_queue after the start of `mcon_submit`, if the queue is empty before. -/
theorem acceptsLive_submitAccepts (hm : WellFormed m) (hc : AcceptsCounted m) (hqueue : C.kqueue.size m.ioQueue = 0)
    (hwanted : AcceptWanted m) : 0 < (submitAccepts m).1.state.acceptsLive.toNat := by
  have hpos := (mconConfigValidate_spec hm.valid).ioQueueSize_pos
  cases hpush : C.kqueue.push m.ioQueue acceptGroup (acceptSqe m) with
  | none =>
    have hfull := C.kqueue.push_eq_none _ _ _ (by rw [hm.queue_groups]; decide) hpush
    rw [hm.queue_capacity] at hfull
    omega
  | some ioq =>
    obtain ⟨acts, hacts, -⟩ := submitAccepts_of_wanted hwanted hpush
    obtain ⟨-, -, consumed, hledger, hnone⟩ := (submitAccepts_calls m).accepts hm hc
    have hzero : consumed = 0 := hnone fun k hk => by rw [← hk]; decide
    have hone : 0 < (submitAccepts m).2.countP Act.isAcceptPush := by
      rw [hacts, List.countP_cons_of_pos rfl]
      omega
    omega

/-- With a free session the program can have an accept in the kernel. -/
theorem canSee_nil (he : Execution HealthyFresh h m) (hm : Settled m []) (hroom : RingForAll m.configuration)
    (hfree : 0 < C.idxStack.size m.sessionFreeStack) : ∃ m', CanSee m [] m' ∧ 0 < m'.state.acceptsLive.toNat := by
  by_cases hlive : 0 < m.state.acceptsLive.toNat
  · exact ⟨m, ⟨[], .nil, hm, rfl⟩, hlive⟩
  have hserver : HealthyFresh m (serverCall m) :=
    ⟨⟨NoEnoent.detachesWhole fun _ hdetach => (by cases hdetach), fun _ => rfl⟩, rfl⟩
  have hr : Run step HealthyFresh m _ (step m (serverCall m)).1 := .snoc _ .nil hserver
  rw [step_serverCall] at hr
  have hex := he.trans hr
  have hwanted : AcceptWanted (requestAccepts m) := by
    have hmax := (mconConfigValidate_spec he.wellFormed.valid).maxLiveAcceptSqes_pos
    have hzero : (requestAccepts m).state.acceptsLive.toNat = 0 := Nat.eq_zero_of_not_pos hlive
    exact ⟨rfl, by rw [hzero]; exact hmax, by rw [hzero]; exact hfree⟩
  obtain ⟨hsubmit, hsettled⟩ := settled_submit (hex.mono fun _ _ => And.left) hroom hm.sq hm.executed hm.cq
  refine ⟨_, ⟨_, hr.snoc _ ⟨hsubmit, trivial⟩, hsettled, rfl⟩, ?_⟩
  show 0 < (mconSubmit (requestAccepts m) _).1.state.acceptsLive.toNat
  rw [mconSubmit_acceptsLive]
  exact acceptsLive_submitAccepts hex.wellFormed hex.acceptsCounted hm.queue_size hwanted

/-- The kinds of small steps of a session call. -/
def callKinds : List StepKind := [.request, .look, .detached, .detachUndone, .detachNoRoom, .detachEnoent]

theorem Input.mem_callKinds {i : Input} (hi : i.slotEvent? = some (s, e)) (hk : i.allows k) : k ∈ callKinds := by
  cases i <;> cases hi
  all_goals
    simp only [allows, callKinds, List.mem_cons, List.not_mem_nil, or_false] at hk ⊢
    tauto

theorem SmallStep.ring_eq (hk : k ∈ callKinds) (h : SmallStep m k obs m') : m'.ring = m.ring := by
  cases h with
  | request => exact Instance.modifySession_ring _ _ _
  | detached => exact detachDone_ring _ _ _
  | detachUndone => rfl
  | detachEnoent => rfl
  | detachNoRoom => rfl
  | look => rfl
  | _ => simp [callKinds] at hk

/-- A session call that its slot allows is carried out. -/
theorem canSee_call (he : Execution HealthyFresh h m) (hm : Settled m []) (hroom : RingForAll m.configuration)
    {i : Input} (hi : i.slotEvent? = some (s, e)) (hdel : ∀ t err, i ≠ .detach t (some err)) {y : Slot}
    (hy : Slot.run .free (slotLog h s) = some y) (hallowed : (y.next e).isSome) : ∃ m', CanSee m [(s, e)] m' := by
  have hpos := (mconConfigValidate_spec he.wellFormed.valid).ioQueueSize_pos
  have hrc : (step m i).2.rc = 0 := by
    obtain ⟨A, hw, hrep, hrun, -⟩ := (he.mono fun _ _ hi => hi.1.1).represents_whole
    obtain rfl : A s = y := Option.some.inj ((hrun s).symm.trans hy)
    cases hrep.callOutcome hw hi with
    | outside hs =>
      rw [hrep.outside s hs] at hallowed
      cases i <;> cases hi <;> cases hallowed
    | refused _ hnone => rw [hnone] at hallowed; cases hallowed
    | queueFull _ hfull =>
      rw [hm.queue_size, hw.queue_capacity] at hfull
      omega
    | delFailed err _ hdetach => exact absurd hdetach (hdel s err)
    | done _ hrc => exact hrc
  have hlog : slotEventsOf (i, (step m i).2) = [(s, e)] := by
    cases i <;> cases hi <;> exact if_pos hrc
  have hfresh : HealthyFresh m i := by
    refine ⟨⟨NoEnoent.detachesWhole fun t => hdel t _, ?_⟩, ?_⟩ <;> cases i <;> cases hi <;> exact trivial
  have hcalls := calls_step m he.wellFormed.cq_entries i
  have hring : (step m i).1.ring = m.ring :=
    hcalls.invariant (fun y => y.ring = m.ring)
      (fun _ _ _ _ hk hs hx => (hs.ring_eq (Input.mem_callKinds hi hk)).trans hx) rfl
  have hr : Run step HealthyFresh m _ (step m i).1 := .snoc i .nil hfresh
  have hex := (he.trans hr).mono fun _ _ => And.left
  obtain ⟨hsubmit, hsettled⟩ := settled_submit hex (by rw [hcalls.frame.configuration]; exact hroom)
    (by rw [hring]; exact hm.sq) (by rw [hring]; exact hm.executed) (by rw [hring]; exact hm.cq)
  refine ⟨_, _, hr.snoc _ ⟨hsubmit, trivial⟩, hsettled, ?_⟩
  simp only [List.nil_append, List.flatMap_append, List.flatMap_singleton, hlog]
  rfl

/-! ### Every possible log -/

/-- After a run that waits for the kernel, any event that is possible next may come next. -/
theorem canSee_next (he : Execution HealthyFresh h m) (hm : Settled m []) (hroom : RingForAll m.configuration)
    (hp : Possible m.configuration.sessionCount.toNat (h.flatMap slotEventsOf ++ [(s, e)])) :
    ∃ m', CanSee m [(s, e)] m' := by
  have hwhole : Execution DetachesWhole h m := he.mono fun _ _ hi => hi.1.1
  obtain ⟨-, ⟨y, hy, hallowed⟩, hfirst⟩ := hp.of_snoc
  cases e with
  | opened =>
    obtain ⟨free, hfree⟩ := hfirst rfl
    have hcontents := Option.some.inj (hwhole.handOutAll.symm.trans hfree)
    have hsize : 0 < C.idxStack.size m.sessionFreeStack := by
      rw [C.idxStack.size_eq, hcontents]
      exact Nat.succ_pos _
    obtain ⟨x, ⟨h₁, hr₁, hx, hlog₁⟩, hlive⟩ := canSee_nil he hm hroom hsize
    obtain ⟨t, m', h₂, hr₂, hm', hlog₂⟩ := canSee_opened (he.trans hr₁) hx hlive
    -- the free stack tells which session it is
    have hr := hr₁.trans hr₂
    have hall := ((he.trans hr).mono fun _ _ hi => hi.1.1).handOutAll
    rw [(Run.frame he.wellFormed hr).configuration, List.flatMap_append, handOutAll_append, hfree,
      List.flatMap_append, hlog₁, hlog₂] at hall
    obtain ⟨free', hone, -⟩ := Option.bind_eq_some_iff.1
      (show (handOut (s :: free) (t, .opened)).bind (handOutAll · []) = _ from hall)
    obtain ⟨rfl, -⟩ := List.cons.inj (handOut_opened hone)
    exact ⟨m', _, hr, hm', by simp [hlog₁, hlog₂]⟩
  | called op =>
    obtain ⟨i, hi, hdel⟩ : ∃ i : Input, i.slotEvent? = some (s, .called op) ∧ ∀ t err, i ≠ .detach t (some err) := by
      rcases op with (_ | _) | _ | _
      · exact ⟨.read s 0 0, rfl, by simp⟩
      · exact ⟨.drain s 0, rfl, by simp⟩
      · exact ⟨.write s 0 0, rfl, by simp⟩
      · exact ⟨.close s, rfl, by simp⟩
    exact canSee_call he hm hroom hi hdel hy hallowed
  | detached => exact canSee_call he hm hroom (i := .detach s none) rfl (by simp) hy hallowed
  | answered op =>
    obtain ⟨A, -, hrep, hrun, -⟩ := hwhole.represents_whole
    obtain rfl : A s = y := Option.some.inj ((hrun s).symm.trans hy)
    obtain ⟨z, hz⟩ := Option.isSome_iff_exists.1 hallowed
    have hcount := hrep.count op s
    rw [Slot.pending_of_answered hz, Bool.toNat_true] at hcount
    exact canSee_answered he hm (List.count_pos_iff.1 (by omega))

/-- A new instance that is started waits for the kernel. -/
theorem exists_started {config : Config} (hvalid : mconConfigValidate config = true) :
    ∃ h, ∃ m : Instance C, Execution HealthyFresh h m ∧ m.configuration = config ∧ Settled m [] ∧
      h.flatMap slotEventsOf = [] := by
  have hcreated : Created config (newInstance C 1 9 config) :=
    ⟨1, ⟨0, 9, true, true, true, true⟩, by simp [mconCreate, hvalid]; rfl⟩
  have hr : Run step HealthyFresh (newInstance C 1 9 config) _ (step (newInstance C 1 9 config) startInput).1 :=
    .snoc startInput .nil ⟨⟨NoEnoent.detachesWhole fun _ hdetach => (by cases hdetach), trivial⟩, trivial⟩
  exact ⟨_, _, ⟨config, _, hcreated, hr⟩, rfl, ⟨newInstance_queue 1 9 config, rfl, rfl, rfl⟩, rfl⟩

/-- Whatever is possible is seen in a run in which no accept is given a descriptor that is held. -/
theorem exists_run_of_possible {config : Config} (hvalid : mconConfigValidate config = true)
    (hroom : RingForAll config) (hp : Possible config.sessionCount.toNat log) :
    ∃ h, ∃ m : Instance C, Execution HealthyFresh h m ∧ m.configuration = config ∧ Settled m [] ∧
      h.flatMap slotEventsOf = log := by
  induction log using List.reverseRecOn with
  | nil => exact exists_started hvalid
  | append_singleton log p ih =>
    obtain ⟨s, e⟩ := p
    obtain ⟨h, m, he, hconfig, hm, hlog⟩ := ih hp.of_snoc.1
    obtain ⟨m', h', hr, hm', hlog'⟩ := canSee_next he hm (by rwa [hconfig]) (by rwa [hconfig, hlog])
    refine ⟨_, m', he.trans hr, (Run.frame he.wellFormed hr).configuration.trans hconfig, hm', ?_⟩
    rw [List.flatMap_append, hlog, hlog']

/-- Let the SQ ring have room for two operations a session.  Then what an application can see of the sessions of an
instance, over all runs without a half-done detach, is exactly this: every session lives as `Slot.run` says, and every
new connection gets the session that came free last, or the first one not used so far. -/
theorem seen_iff_possible {config : Config} (hvalid : mconConfigValidate config = true) (hroom : RingForAll config)
    (log : List (Nat × SlotEvent)) :
    (∃ h, ∃ m : Instance C, Execution DetachesWhole h m ∧ m.configuration = config ∧ h.flatMap slotEventsOf = log) ↔
      Possible config.sessionCount.toNat log := by
  constructor
  · rintro ⟨h, m, he, rfl, rfl⟩
    exact he.possible
  · intro hp
    obtain ⟨h, m, he, hconfig, -, hlog⟩ := exists_run_of_possible (C := C) hvalid hroom hp
    exact ⟨h, m, he.mono fun _ _ hi => hi.1.1, hconfig, hlog⟩

/-- A write is answered before the read that was called first, and another connection comes meanwhile. -/
theorem seen_iff_possible_overtaken :
    ∃ h, ∃ m : Instance listCtools, Execution DetachesWhole h m ∧ m.configuration = smallConfig 2 4 1 ∧
      h.flatMap slotEventsOf = [(0, .opened), (0, .called (.reading .read)), (0, .called .write), (1, .opened),
        (0, .answered .write)] := by
  refine (seen_iff_possible (by decide) (by decide) _).2 ⟨fun s => ?_, _, rfl⟩
  by_cases h0 : 0 = s
  · subst h0
    exact ⟨_, rfl⟩
  · by_cases h1 : 1 = s
    · subst h1
      exact ⟨_, rfl⟩
    · simp [lifeOf, h0, h1, Slot.run]

end Mcon
