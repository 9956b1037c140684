import Mcon.Generations
import Mcon.InFlight
import Mcon.Priorities
import Mcon.Progress

/-!
# Every operation is answered

A program that submits, lets the kernel answer what it took, and processes the answers goes on in rounds.  A round takes
the first `io_uring_queue_size` operations in the order of submission, so that a number of operations is answered in as
many rounds as their number asks for; the accepts come last and hold up no session.
-/

namespace Mcon

open Transition (Run AllOk history finalState)

variable {C : Ctools} {m m' m'' : Instance C} {h h' : History} {k : StepKind} {obs : List Obs} {n p : Nat}

/-! ### The groups of the io_queue -/

/-- The place of an operation in the order of submission. -/
def IoUringEntry.priority (e : IoUringEntry) : Nat := submissionOrder.idxOf e.operation

def outstandingUpTo (m : Instance C) (p : Nat) : Nat := m.outstanding.countP fun e => e.priority ≤ p

def queuedUpTo (m : Instance C) (p : Nat) : Nat := (C.kqueue.contents m.ioQueue).countP fun sqe => sqe.priority ≤ p

/-- Every queued entry is in the group of its priority. -/
def InGroups (m : Instance C) : Prop := ∀ g, ∀ sqe ∈ C.kqueue.group m.ioQueue g, sqe.priority = g

theorem InGroups.congr (hm : InGroups m) (hqueue : m'.ioQueue = m.ioQueue) : InGroups m' := by
  intro g sqe hsqe
  rw [hqueue] at hsqe
  exact hm g sqe hsqe

theorem InGroups.push (hm : InGroups m) {g : Nat} {sqe : Sqe} (hpriority : sqe.priority = g)
    (hpush : C.kqueue.push m.ioQueue g sqe = some m'.ioQueue) : InGroups m' := by
  intro g' sqe' hsqe'
  rw [C.kqueue.group_push _ _ _ _ hpush] at hsqe'
  by_cases hg : g' = g
  · subst hg
    rw [Function.update_self, List.mem_append, List.mem_singleton] at hsqe'
    rcases hsqe' with hold | rfl
    · exact hm g' sqe' hold
    · exact hpriority
  · rw [Function.update_of_ne hg] at hsqe'
    exact hm g' sqe' hsqe'

theorem InGroups.pop (hm : InGroups m) {r : Ring} (h : PopOne (m.ioQueue, m.ring) (m'.ioQueue, r)) : InGroups m' := by
  cases h with
  | @intro _ _ _ group _ hpop =>
    intro g sqe hsqe
    refine hm g sqe ?_
    by_cases hg : g = group
    · subst hg
      rw [C.kqueue.group_pop _ _ _ _ hpop]
      exact List.mem_cons_of_mem _ hsqe
    · rw [← C.kqueue.group_pop_ne _ _ _ _ hpop g hg]
      exact hsqe

theorem newInstance_inGroups (instanceId : UInt16) (eventfd : Int) (config : Config) :
    InGroups (newInstance C instanceId eventfd config) := by
  intro g sqe hsqe
  have hnil : C.kqueue.group (newInstance C instanceId eventfd config).ioQueue g = [] := C.kqueue.group_create _ _ g
  rw [hnil] at hsqe
  cases hsqe

/-- A small step that is no session call queues accepts only. -/
theorem InGroups.smallStep (hm : InGroups m) (hk : k ≠ .request) (h : SmallStep m k obs m') : InGroups m' := by
  cases h with
  | request => exact absurd rfl hk
  | acceptEnqueued _ _ hpush => exact hm.push (g := acceptGroup) rfl hpush
  | pop hpop => exact hm.pop hpop
  | closed => exact hm.congr (by simp [countDown])
  | detached => exact hm.congr (by simp)
  | _ => exact hm.congr rfl

theorem InGroups.sessionRequest (hm : InGroups m) (s : Nat) (incompatibleStates : UInt8) (sqe : Sqe) (bits : UInt8) :
    InGroups (sessionRequest m s incompatibleStates sqe bits).1 := by
  unfold Mcon.sessionRequest
  split
  · exact hm
  · split
    · exact hm
    next ioq hpush =>
      obtain ⟨priority, hpriority, hpushed⟩ := ioQueuePush_ok hpush
      exact hm.push (priority_eq hpriority) hpushed

theorem InGroups.step (hw : WellFormed m) (hm : InGroups m) (i : Input) : InGroups (step m i).1 := by
  have hother : (∀ k, i.allows k → k ≠ .request) → InGroups (Mcon.step m i).1 := fun hkinds =>
    (calls_step m hw.cq_entries i).invariant InGroups (fun _ _ _ _ hk hs hx => hx.smallStep (hkinds _ hk) hs) hm
  cases i with
  | read => exact hm.sessionRequest _ _ _ _
  | write => exact hm.sessionRequest _ _ _ _
  | drain => exact hm.sessionRequest _ _ _ _
  | close => exact hm.sessionRequest _ _ _ _
  | start => exact hother fun k hk hreq => by subst hreq; simp [Input.allows] at hk
  | shutdown => exact hother fun k hk hreq => by subst hreq; simp [Input.allows] at hk
  | processEvent => exact hother fun k hk hreq => by subst hreq; simp [Input.allows, processKinds] at hk
  | submit => exact hother fun k hk hreq => by subst hreq; simp [Input.allows] at hk
  | detach => exact hother fun k hk hreq => by subst hreq; simp [Input.allows] at hk
  | kernel => exact hother fun k hk hreq => by subst hreq; cases hk

theorem Execution.inGroups {ok : Instance C → Input → Prop} (he : Execution ok h m) : InGroups m :=
  (he.invariant_of_inputs InGroups (fun _ _ _ _ => newInstance_inGroups _ _ _)
    fun _ i _ hw hm => hm.step hw i).2

/-- The contents of the queue stand in the order of submission. -/
theorem InGroups.pairwise (hm : InGroups m) :
    (C.kqueue.contents m.ioQueue).Pairwise fun x y => x.priority ≤ y.priority :=
  Containers.pairwise_flatMap_range hm _

/-! ### One submission -/

theorem SmallStep.queuedUpTo_eq (hk : k = .acceptEnqueued) (hp : p < 4) (h : SmallStep m k obs m') :
    queuedUpTo m' p = queuedUpTo m p := by
  subst hk
  cases h with
  | acceptEnqueued _ _ hpush =>
    have hlate : ¬ (acceptSqe m).priority ≤ p := by
      have hlast : (acceptSqe m).priority = 4 := rfl
      omega
    refine ((C.kqueue.contents_push hpush).countP_eq _).trans ?_
    simp [hlate, queuedUpTo]

/-- The entries moved are the first in the order of submission. -/
theorem submitPop_inOrder (hgroups : C.kqueue.groups m.ioQueue = ioQueuePriorityGroupCount) :
    ∃ moved, moved.length = (submitPop m).1 ∧ (submitPop m).2.ring = { m.ring with sq := m.ring.sq ++ moved } ∧
      C.kqueue.contents m.ioQueue = moved ++ C.kqueue.contents (submitPop m).2.ioQueue := by
  obtain ⟨-, ioq, moved, hlength, hpop⟩ := submitPop_spec hgroups
  obtain ⟨moved', hsq, hcontents⟩ := ioQueuePopIntoRing_inOrder m.ioQueue m.ring (sqeLimit m).toNat
  have hring : (submitPop m).2.ring = { m.ring with sq := m.ring.sq ++ moved } := by rw [hpop]
  have hmoved : m.ring.sq ++ moved' = m.ring.sq ++ moved := hsq.symm.trans (congrArg Ring.sq hring)
  rw [List.append_cancel_left hmoved] at hcontents
  exact ⟨moved, hlength, hring, hcontents⟩

theorem mconSubmit_ioQueue (m : Instance C) (res : Int) :
    (mconSubmit m res).1.ioQueue = (submitPop (submitAccepts m).1).2.ioQueue := by
  unfold mconSubmit
  dsimp only
  split
  · obtain ⟨n, -, -, htaken, -⟩ := submitRing_spec (submitPop (submitAccepts m).1).2 res
    rw [htaken]
    rfl
  · rfl

/-- What `mcon_submit` moves into an empty SQ ring. -/
theorem submit_moves (hw : WellFormed m) (hsq : m.ring.sq = [])
    (hflight : m.state.sqeInFlight.toNat ≤ m.configuration.ioUringQueueSize.toNat) :
    let popped := submitPop (submitAccepts m).1
    popped.1 = min (m.configuration.ioUringQueueSize.toNat - m.state.sqeInFlight.toNat)
        (C.kqueue.size (submitAccepts m).1.ioQueue) ∧
      ∃ moved, moved.length = popped.1 ∧ popped.2.ring = { m.ring with sq := moved } ∧
        C.kqueue.contents (submitAccepts m).1.ioQueue = moved ++ C.kqueue.contents popped.2.ioQueue := by
  intro popped
  have hqueues := (submitAccepts_calls m).queuesOnly
  have hgroups := hqueues.groups.trans hw.queue_groups
  have hlimit : (sqeLimit (submitAccepts m).1).toNat =
      m.configuration.ioUringQueueSize.toNat - m.state.sqeInFlight.toNat := by
    have hq := m.configuration.ioUringQueueSize.toNat_lt
    rw [sqeLimit, hqueues.configuration, hqueues.sqeInFlight, UInt32.toNat_sub, UInt16.toNat_toUInt32,
      UInt16.toNat_toUInt32]
    omega
  obtain ⟨moved, hlength, hring, hcontents⟩ := submitPop_inOrder hgroups
  refine ⟨?_, moved, hlength, ?_, hcontents⟩
  · have hentries := hw.sq_entries
    rw [(submitPop_spec hgroups).1, popLimit, hlimit, Ring.ioUringSqSpaceLeft, hqueues.ring, hsq, List.length_nil]
    omega
  · rw [hring, hqueues.ring, hsq, List.nil_append]

/-- With nothing on the way, a submission takes as many entries from the front of the queue as the configuration
allows. -/
theorem queuedUpTo_submit (hw : WellFormed m) (hm : InGroups m) (hsq : m.ring.sq = [])
    (hflight : m.state.sqeInFlight = 0)
    (hp : p < 4) (res : Int) :
    queuedUpTo (mconSubmit m res).1 p = queuedUpTo m p - m.configuration.ioUringQueueSize.toNat := by
  have hcalls := submitAccepts_calls m
  have hsame : queuedUpTo (submitAccepts m).1 p = queuedUpTo m p :=
    hcalls.invariant (fun x => queuedUpTo x p = queuedUpTo m p)
      (fun _ _ _ _ hk hs hx => (hs.queuedUpTo_eq hk.symm hp).trans hx) rfl
  have hgroups : InGroups (submitAccepts m).1 :=
    hcalls.invariant InGroups (fun _ _ _ _ hk hs hx => hx.smallStep (by rw [← hk]; decide) hs) hm
  obtain ⟨hpopped, moved, hlength, -, hcontents⟩ := submit_moves hw hsq (by rw [hflight]; exact Nat.zero_le _)
  rw [hflight, UInt16.toNat_zero, Nat.sub_zero] at hpopped
  have hleft : C.kqueue.contents (mconSubmit m res).1.ioQueue =
      (C.kqueue.contents (submitAccepts m).1.ioQueue).drop moved.length := by
    rw [mconSubmit_ioQueue, hcontents, List.drop_left]
  have hsize := C.kqueue.size_eq_length (submitAccepts m).1.ioQueue
  have hle : queuedUpTo (submitAccepts m).1 p ≤ C.kqueue.size (submitAccepts m).1.ioQueue := by
    rw [hsize]
    exact List.countP_le_length
  have hdrop : queuedUpTo (mconSubmit m res).1 p = queuedUpTo (submitAccepts m).1 p - moved.length := by
    unfold queuedUpTo
    rw [hleft]
    exact Containers.countP_drop_of_pairwise hgroups.pairwise _ _
  omega

/-! ### Answering -/

/-- What answers a submission: the steps of the kernel, and the events which the program processes. -/
def Input.Answers : Input → Prop
  | kernel _ => True
  | processEvent .. => True
  | _ => False

theorem SmallStep.ioQueue_eq (hk : eventKinds k) (h : SmallStep m k obs m') : m'.ioQueue = m.ioQueue := by
  cases h with
  | request => simp [eventKinds, processKinds] at hk
  | acceptEnqueued => simp [eventKinds, processKinds] at hk
  | pop => simp [eventKinds, processKinds] at hk
  | detached => simp [eventKinds, processKinds] at hk
  | closed => simp [countDown]
  | _ => rfl

theorem Input.Answers.eventKinds {i : Input} (hi : i.Answers) : ∀ k, i.allows k → eventKinds k := by
  intro k hk
  cases i with
  | kernel =>
    rw [show k = .kernel from hk]
    exact .inl (by decide)
  | processEvent => exact hk.imp id And.left
  | _ => exact False.elim hi

theorem Run.ioQueue_eq {ok : Instance C → Input → Prop} (hw : WellFormed m)
    (hr : Run step (fun x i => ok x i ∧ i.Answers) m h m') : m'.ioQueue = m.ioQueue :=
  (hr.invariant (fun x => WellFormed x ∧ x.ioQueue = m.ioQueue) ⟨hw, rfl⟩ fun x i hi hx => by
    have hcalls := calls_step x hx.1.cq_entries i
    refine ⟨hcalls.wellFormed hx.1, ?_⟩
    exact hcalls.invariant (fun y => y.ioQueue = m.ioQueue)
      (fun _ _ _ _ hk hs hy => (hs.ioQueue_eq (hi.2.eventKinds _ hk)).trans hy) hx.2).2

/-! ### Rounds -/

/-- No detach is half done, no registration fails, and what is in flight stays countable. -/
def Healthy (m : Instance C) (i : Input) : Prop := DetachesWhole m i ∧ KeepsCount m i

/-- The program submits, and the submission is answered until nothing is in the rings and in the kernel. -/
inductive Round : Instance C → History → Instance C → Prop
  | intro {m m' : Instance C} {h : History} {res : Int} : Healthy m (.submit res) →
      Run step (fun x i => Healthy x i ∧ i.Answers) (step m (.submit res)).1 h m' → m'.ring.entries = [] →
      Round m ([(.submit res, (step m (.submit res)).2)] ++ h) m'

/-- `n` rounds. -/
inductive Rounds : Nat → Instance C → History → Instance C → Prop
  | zero (m : Instance C) : Rounds 0 m [] m
  | succ {n : Nat} {m m' m'' : Instance C} {h h' : History} : Rounds n m h m' → Round m' h' m'' →
      Rounds (n + 1) m (h ++ h') m''

theorem Round.run (h : Round m h' m') : Run step Healthy m h' m' := by
  cases h with
  | intro hok hr => exact (Run.snoc _ .nil hok).trans (hr.mono fun _ _ => And.left)

theorem Rounds.run (hn : Rounds n m h m') : Run step Healthy m h m' := by
  induction hn with
  | zero => exact .nil
  | succ _ hround ih => exact ih.trans hround.run

theorem Execution.trans {ok : Instance C → Input → Prop} (he : Execution ok h m) (hr : Run step ok m h' m') :
    Execution ok (h ++ h') m' := by
  obtain ⟨config, m₀, hcreated, hr₀⟩ := he
  exact ⟨config, m₀, hcreated, hr₀.trans hr⟩

theorem Ring.entries_eq_nil_iff {r : Ring} :
    r.entries = [] ↔ r.sq = [] ∧ r.inKernel = [] ∧ r.executed = [] ∧ r.cq = [] := by
  simp only [Ring.entries, List.append_eq_nil_iff, List.map_eq_nil_iff, and_assoc]

/-- The counter is the number of operations that are submitted and not consumed. -/
theorem Execution.sqeInFlight_toNat (he : Execution Healthy h m) :
    m.state.sqeInFlight.toNat = m.ring.unconsumed := by
  obtain ⟨-, -, hflight⟩ := he.invariant_of_inputs
    (fun m => AcceptsCounted m ∧ m.state.sqeInFlight.toNat = m.ring.unconsumed)
    (fun _ _ _ _ => ⟨newInstance_acceptsCounted _ _ _, rfl⟩) (fun m i hok hm hx =>
      ⟨((calls_step m hm.cq_entries i).accepts hm hx.1).1, counted_step hm hx.1 hx.2 hok.2⟩)
  exact hflight

/-- With nothing on the way, nothing is in flight. -/
theorem Execution.sqeInFlight_eq_zero (he : Execution Healthy h m) (hrest : m.ring.entries = []) :
    m.state.sqeInFlight = 0 := by
  obtain ⟨-, hkernel, hexecuted, hcq⟩ := Ring.entries_eq_nil_iff.1 hrest
  rw [← UInt16.toNat_inj, he.sqeInFlight_toNat, Ring.unconsumed, hkernel, hexecuted, hcq]
  rfl

/-- At rest, what is outstanding is queued. -/
theorem outstandingUpTo_eq (hrest : m.ring.entries = []) (p : Nat) : outstandingUpTo m p = queuedUpTo m p := by
  rw [outstandingUpTo, Instance.outstanding, hrest, List.append_nil, List.countP_map]
  rfl

/-- A round answers the first operations in the order of submission. -/
theorem Round.outstandingUpTo_eq (he : Execution Healthy h m) (hrest : m.ring.entries = []) (hround : Round m h' m')
    (hp : p < 4) :
    m'.ring.entries = [] ∧ m'.configuration = m.configuration ∧
      outstandingUpTo m' p = outstandingUpTo m p - m.configuration.ioUringQueueSize.toNat := by
  have hconfig : m'.configuration = m.configuration := (Run.frame he.wellFormed hround.run).configuration
  have hsq : m.ring.sq = [] := (Ring.entries_eq_nil_iff.1 hrest).1
  cases hround with
  | intro hok hr hrest' =>
    refine ⟨hrest', hconfig, ?_⟩
    rw [Mcon.outstandingUpTo_eq hrest', Mcon.outstandingUpTo_eq hrest, queuedUpTo,
      Run.ioQueue_eq (he.trans (.snoc _ .nil hok)).wellFormed hr]
    exact queuedUpTo_submit he.wellFormed he.inGroups hsq (he.sqeInFlight_eq_zero hrest) hp _

theorem Rounds.outstandingUpTo_eq (he : Execution Healthy h m) (hrest : m.ring.entries = []) (hn : Rounds n m h' m')
    (hp : p < 4) :
    m'.ring.entries = [] ∧ m'.configuration = m.configuration ∧
      outstandingUpTo m' p = outstandingUpTo m p - n * m.configuration.ioUringQueueSize.toNat := by
  induction hn with
  | zero => exact ⟨hrest, rfl, by simp⟩
  | @succ n _ _ _ _ _ hrounds hround ih =>
    obtain ⟨hrest', hconfig, hout⟩ := ih he hrest
    obtain ⟨hrest'', hconfig', hout'⟩ := hround.outstandingUpTo_eq (he.trans hrounds.run) hrest' hp
    refine ⟨hrest'', hconfig'.trans hconfig, ?_⟩
    rw [hout', hout, hconfig, Nat.succ_mul, Nat.sub_sub]

/-! ### There is always a next round -/

/-- Nothing is in the SQ ring, in the kernel, or on the way from there to the CQ ring. -/
structure Ring.Answered (r : Ring) : Prop where
  sq : r.sq = []
  inKernel : r.inKernel = []
  executed : r.executed = []

theorem SmallStep.answered (hk : eventKinds k) (h : SmallStep m k obs m') (hm : m.ring.Answered) :
    m'.ring.Answered := by
  cases h with
  | kernel h =>
    cases h with
    | idle => exact hm
    | exec _ hget => simp [hm.inKernel] at hget
    | post hget => simp [hm.executed] at hget
    | signal => exact ⟨hm.sq, hm.inKernel, hm.executed⟩
  | submitted => simp [eventKinds, processKinds] at hk
  | pop => simp [eventKinds, processKinds] at hk
  | closed => exact (closeDone_ring _ _ _).symm ▸ ⟨hm.sq, hm.inKernel, hm.executed⟩
  | detached => exact (detachDone_ring _ _ _).symm ▸ hm
  | _ => exact ⟨hm.sq, hm.inKernel, hm.executed⟩

theorem healthy_kernel (m : Instance C) (move : RingMove) : Healthy m (.kernel move) :=
  ⟨NoEnoent.detachesWhole fun _ hdetach => (by cases hdetach), trivial⟩

/-- The number of operations that the configuration still allows in flight. -/
def flightRoom (m : Instance C) : Nat := m.configuration.ioUringQueueSize.toNat - m.state.sqeInFlight.toNat

/-- The kernel may take all that is in the SQ ring. -/
theorem sq_submit (hw : WellFormed m) (hsq : m.ring.sq = [])
    (hflight : m.state.sqeInFlight.toNat ≤ m.configuration.ioUringQueueSize.toNat) :
    (mconSubmit m (flightRoom m)).1.ring.sq = [] := by
  obtain ⟨hpopped, moved, hlength, hring, -⟩ := submit_moves hw hsq hflight
  have htaken : ∀ x : Instance C, x.ring.sq.length ≤ flightRoom m →
      (submitRing x (flightRoom m)).1.ring.sq = [] := by
    intro x hx
    have hres : ¬ (flightRoom m : Int) < 0 := by omega
    unfold submitRing Ring.ioUringSubmit
    rw [if_neg hres]
    dsimp only
    split
    all_goals
      rw [List.drop_eq_nil_iff, Int.toNat_natCast]
      omega
  have hmoved : (submitPop (submitAccepts m).1).2.ring.sq = moved := congrArg Ring.sq hring
  unfold mconSubmit
  dsimp only
  split
  · apply htaken
    rw [hmoved, flightRoom]
    omega
  next hzero =>
    rw [hmoved]
    exact List.eq_nil_of_length_eq_zero (by omega)

theorem healthy_submit (hflight : m.state.sqeInFlight.toNat = m.ring.unconsumed)
    (hle : m.state.sqeInFlight.toNat ≤ m.configuration.ioUringQueueSize.toNat) :
    Healthy m (.submit (flightRoom m)) := by
  have hq := m.configuration.ioUringQueueSize.toNat_lt
  refine ⟨NoEnoent.detachesWhole fun _ hdetach => (by cases hdetach), ?_⟩
  rw [KeepsCount, Int.toNat_natCast, flightRoom]
  omega

theorem owns_instancePayload (m : Instance C) {source : EpollSource} (hrange : source.toNat < 2 ^ 4)
    (hvalid : mconIsValidSource source = true) : mconOwnsEvent m (instancePayload m source) = true := by
  have hentry : EpollEntry.InRange ⟨m.instanceId, 0, source, UInt32.ofNat mconNoSession, 0⟩ :=
    ⟨hrange, (by decide : (UInt32.ofNat mconNoSession).toNat < 2 ^ 20)⟩
  exact (mconOwnsEvent_encode hentry m).2 ⟨rfl, hvalid⟩

/-- A call of `mcon_process_event` for the io_uring instance, during which the kernel is at rest. -/
def ringCall (m : Instance C) (eventCapacity : Nat) : Input :=
  .processEvent (instancePayload m epollSourceIoUring) epollin eventCapacity ⟨.quiet, ⟨none, 0⟩⟩

theorem step_ringCall (m : Instance C) (eventCapacity : Nat) :
    step m (ringCall m eventCapacity) = mconProcessIoUringEvent m eventCapacity .quiet :=
  mconProcessEvent_ioUring (owns_instancePayload m (by decide) (by decide)) (source_instancePayload m (by decide)) _ _ _

theorem healthy_ringCall (m : Instance C) (eventCapacity : Nat) : Healthy m (ringCall m eventCapacity) :=
  ⟨NoEnoent.detachesWhole fun _ hdetach => (by cases hdetach), fun _ => rfl⟩

end Mcon
