import Mcon.Accepts
import Mcon.Batches
import Mcon.Capacities
import Mcon.Requests

/-!
# What the kernel answers

The result of every operation that the kernel executes is reported once, in the order in which the completions are
posted, with the value the kernel gave.  Two kinds of results of an accept are not reported: `-EAGAIN`, and a
connection whose registration fails, the descriptor of which is closed at once.
-/

namespace Mcon

open Transition (Run Path Ledger AllOk history finalState)

variable {C : Ctools} {m m' m'' : Instance C} {k : StepKind} {obs : List Obs}

/-! ### Executed and posted -/

/-- The completion of a submission that is executed. -/
def Act.result? : Act → Option Cqe
  | exec sqe res => some ⟨sqe.userData, res⟩
  | _ => none

def Act.posted? : Act → Option Cqe
  | post cqe => some cqe
  | _ => none

def Act.closed? : Act → Option Int
  | close fd => some fd
  | _ => none

/-- The ring holds the completions that are not yet posted. -/
def deliveries (C : Ctools) : Ledger (Instance C) Act Cqe := ⟨fun m => m.ring.executed, Act.result?, Act.posted?⟩

theorem SmallStep.balances_deliveries (h : SmallStep m k obs m') :
    (deliveries C).Balances m (obs.filterMap Obs.act?) m' := by
  have hkeep : ∀ {m' : Instance C} {obs : List Obs}, m'.ring.executed = m.ring.executed →
      (obs.filterMap Obs.act?).filterMap Act.result? = [] →
      (obs.filterMap Obs.act?).filterMap Act.posted? = [] →
      (deliveries C).Balances m (obs.filterMap Obs.act?) m' := by
    intro m' obs hexecuted hput htaken
    exact .idle (List.Perm.of_eq hexecuted) hput htaken
  cases h with
  | kernel h =>
    rename_i acts r
    have hacts : (acts.map Obs.act).filterMap Obs.act? = acts := by
      simp [List.filterMap_map, Function.comp_def, Obs.act?]
    rw [hacts]
    cases h with
    | idle => exact .nil m
    | exec res _ => exact .put_one (List.perm_append_singleton _ _) rfl rfl
    | post h =>
      obtain ⟨hlt, rfl⟩ := List.getElem?_eq_some_iff.1 h
      exact .take_one (List.getElem_cons_eraseIdx_perm hlt).symm rfl rfl
    | signal => exact .idle (.refl _) rfl rfl
  | pop h =>
    obtain ⟨-, -⟩ := h
    exact hkeep rfl rfl rfl
  | closed => exact hkeep (by simp [countDown, Ring.ioUringCqeSeen]) rfl rfl
  | detached => exact hkeep (by simp) rfl rfl
  | eventfd ha =>
    refine hkeep rfl ?_ ?_
    all_goals rcases ha with rfl | rfl <;> rfl
  | look _ ha =>
    refine hkeep rfl ?_ ?_
    all_goals rcases ha with rfl | ⟨err, rfl⟩ <;> rfl
  | _ => exact hkeep rfl rfl rfl

/-- What the kernel has executed in a run is what it has posted and what it has not posted yet. -/
theorem Execution.results_perm {ok : Instance C → Input → Prop} {h : History} (he : Execution ok h m) :
    ((actsOf h).filterMap Act.result?).Perm ((actsOf h).filterMap Act.posted? ++ m.ring.executed) := by
  obtain ⟨config, instanceId, eventfd, -, -, -, obs, hpath, hacts, -⟩ :=
    he.calls (P := fun _ => True) fun _ _ _ _ _ => trivial
  have hbalance : (deliveries C).Balances (newInstance C instanceId eventfd config) (obs.filterMap Obs.act?) m :=
    .of_path (fun _ => True) (fun _ _ _ _ _ _ _ => trivial) (fun _ _ _ _ _ hs _ => hs.balances_deliveries) hpath trivial
  rw [hacts] at hbalance
  exact hbalance.of_empty rfl

/-! ### Posted and reported -/

/-- The event is the one of a completion. -/
def Event.isCompletion (e : Event) : Bool :=
  e.type ∈ [EventType.newConnection, .readComplete, .writeComplete, .drainComplete, .closeComplete]

/-- Between `m` and `m'` completions are consumed in the order in which they were posted, and their events reported in
this order; some accepts are dropped, and their descriptors closed. -/
def Delivers (m : Instance C) (acts : List Act) (events : List Event) (m' : Instance C) : Prop :=
  ∃ consumed answered dropped : List Cqe,
    m.ring.cq ++ acts.filterMap Act.posted? = consumed ++ m'.ring.cq ∧ answered.Sublist consumed ∧
      consumed.Perm (answered ++ dropped) ∧ ReportedInOrder answered (events.filter Event.isCompletion) ∧
      (∀ cqe ∈ dropped, cqe.Opens) ∧ dropped.map (·.res) = acts.filterMap Act.closed?

namespace Delivers

variable {acts acts' : List Act} {events events' : List Event}

theorem trans (h : Delivers m acts events m') (h' : Delivers m' acts' events' m'') :
    Delivers m (acts ++ acts') (events ++ events') m'' := by
  obtain ⟨consumed, answered, dropped, hcq, hsub, hperm, hreported, hopens, hclosed⟩ := h
  obtain ⟨consumed', answered', dropped', hcq', hsub', hperm', hreported', hopens', hclosed'⟩ := h'
  refine ⟨consumed ++ consumed', answered ++ answered', dropped ++ dropped', ?_, hsub.append hsub', ?_, ?_, ?_, ?_⟩
  · rw [List.filterMap_append, ← List.append_assoc, hcq, List.append_assoc, hcq', List.append_assoc]
  · refine (hperm.append hperm').trans ?_
    simp only [List.append_assoc]
    exact List.Perm.append_left _ (List.perm_append_comm_assoc _ _ _)
  · rw [List.filter_append]
    exact hreported.append hreported'
  · exact fun cqe hcqe => (List.mem_append.1 hcqe).elim (hopens cqe) (hopens' cqe)
  · rw [List.map_append, hclosed, hclosed', List.filterMap_append]

/-- Nothing is consumed, but completions may arrive. -/
theorem waiting (hcq : m'.ring.cq = m.ring.cq ++ acts.filterMap Act.posted?)
    (hevents : events.filter Event.isCompletion = []) (hclosed : acts.filterMap Act.closed? = []) :
    Delivers m acts events m' := by
  refine ⟨[], [], [], ?_, .slnil, .nil, ?_, by simp, ?_⟩
  · rw [hcq, List.nil_append]
  · rw [hevents]
    exact .nil
  · rw [hclosed]
    rfl

end Delivers

/-! ### Moves of the kernel -/

theorem kernelStep_posted {r r' : Ring} {acts : List Act} (h : Ring.KernelStep r acts r') :
    r'.cq = r.cq ++ acts.filterMap Act.posted? ∧ acts.filterMap Act.closed? = [] := by
  cases h <;> simp [Act.posted?, Act.closed?]

theorem delivers_moveRing (m : Instance C) (moves : List RingMove) :
    Delivers m (moveActs m moves) [] (moveRing m moves) := by
  have hmoves : ∀ r : Ring, (r.applyAll moves).1.cq = r.cq ++ (r.applyAll moves).2.filterMap Act.posted? ∧
      (r.applyAll moves).2.filterMap Act.closed? = [] := by
    induction moves with
    | nil => exact fun r => ⟨by simp [Ring.applyAll], rfl⟩
    | cons move moves ih =>
      intro r
      obtain ⟨hposted, hclosed⟩ := kernelStep_posted (r.kernelStep_apply move)
      obtain ⟨hposted', hclosed'⟩ := ih (r.apply move).1
      constructor
      · rw [Ring.applyAll, List.filterMap_append, hposted', hposted, List.append_assoc]
      · rw [Ring.applyAll, List.filterMap_append, hclosed, hclosed']
        rfl
  exact .waiting (hmoves m.ring).1 rfl (hmoves m.ring).2

/-! ### One completion -/

variable {cqe : Cqe} {rest : List Cqe} {maxEvents : Nat} {addErr : Option Int}

/-- What a handler leaves undone: one that fails has either left the completion in the ring, or dropped the connection
that it brought. -/
structure HandlerActs (m : Instance C) (cqe : Cqe) (out : HandlerOut C) : Prop where
  posted : out.acts.filterMap Act.posted? = []
  completion : ∀ e ∈ out.events, e.isCompletion = true
  closed : ¬ out.err < 0 → out.acts.filterMap Act.closed? = []
  failed : out.err < 0 → out.mcon.ring = m.ring ∧ out.acts.filterMap Act.closed? = [] ∨
    out.mcon.ring = m.ring.ioUringCqeSeen ∧ cqe.Opens ∧ out.acts.filterMap Act.closed? = [cqe.res]

private theorem handlerActs_accept (hop : cqe.userData.operation = .accept)
    (hpop : C.idxStack.pop m.sessionFreeStack ≠ none) :
    HandlerActs m cqe (processAccept m cqe maxEvents addErr) := by
  unfold processAccept
  split
  · exact ⟨rfl, by simp, fun _ => rfl, fun h => absurd h (by simp)⟩
  · split
    · exact ⟨rfl, by simp, fun _ => rfl, fun h => absurd h (by simp)⟩
    · dsimp only
      split
      · exact ⟨rfl, by simp [Event.isCompletion], fun _ => rfl, fun h => absurd h (by simp)⟩
      · rename_i hres
        have hopens : cqe.Opens := ⟨hop, Int.not_lt.1 hres⟩
        split
        · rename_i hnone
          exact absurd hnone hpop
        · split
          · split
            · exact ⟨rfl, by simp, fun h => absurd h (by simp), fun _ => .inr ⟨rfl, hopens, rfl⟩⟩
            · exact ⟨rfl, by simp, fun h => absurd h (by simp), fun _ => .inr ⟨rfl, hopens, rfl⟩⟩
          · exact ⟨rfl, by simp [Event.isCompletion], fun _ => rfl, fun h => absurd h (by simp)⟩

private theorem handlerActs_transfer (type : EventType)
    (htype : type = .readComplete ∨ type = .writeComplete ∨ type = .drainComplete) (bits : UInt8)
    (ioEntry : IoUringEntry) : HandlerActs m cqe (processTransfer type bits m cqe ioEntry maxEvents) := by
  unfold processTransfer
  split
  · exact ⟨rfl, by simp, fun _ => rfl, fun h => absurd h (by simp)⟩
  · refine ⟨rfl, ?_, fun _ => rfl, fun h => absurd h (by simp)⟩
    rcases htype with rfl | rfl | rfl <;> simp [Event.isCompletion]

private theorem handlerActs_close (ioEntry : IoUringEntry) :
    HandlerActs m cqe (processClose m cqe ioEntry maxEvents) := by
  unfold processClose
  split
  · exact ⟨rfl, by simp, fun _ => rfl, fun _ => .inl ⟨rfl, rfl⟩⟩
  · dsimp only
    split
    · exact ⟨rfl, by simp [Event.isCompletion], fun _ => rfl, fun _ => .inl ⟨rfl, rfl⟩⟩
    · exact ⟨rfl, by simp [Event.isCompletion], fun _ => rfl, fun h => absurd h (by simp)⟩

theorem handlerActs_processCqe (hpop : cqe.userData.operation = .accept → C.idxStack.pop m.sessionFreeStack ≠ none) :
    HandlerActs m cqe (processCqe m cqe maxEvents addErr) := by
  unfold processCqe
  split
  · rename_i hop
    exact handlerActs_accept hop (hpop hop)
  · exact handlerActs_transfer _ (.inl rfl) _ _
  · exact handlerActs_transfer _ (.inr (.inl rfl)) _ _
  · exact handlerActs_transfer _ (.inr (.inr rfl)) _ _
  · exact handlerActs_close _
  · exact ⟨rfl, by simp, fun _ => rfl, fun _ => .inl ⟨rfl, rfl⟩⟩

/-- The handler of one completion; the event of one that fails is not counted. -/
theorem delivers_processCqe (hc : AcceptsCounted m) (hcq : m.ring.cq = cqe :: rest) (hroom : 0 < maxEvents) :
    let out := processCqe m cqe maxEvents addErr
    Delivers m out.acts (if out.err < 0 then [] else out.events) out.mcon := by
  intro out
  have hacts : HandlerActs m cqe out := handlerActs_processCqe (hc.pop_ne_none hcq)
  have hseen : m.ring.cq = [cqe] ++ m.ring.ioUringCqeSeen.cq := by rw [Ring.ioUringCqeSeen, hcq]; rfl
  by_cases herr : out.err < 0
  · rw [if_pos herr]
    rcases hacts.failed herr with ⟨hring, hclosed⟩ | ⟨hring, hopens, hclosed⟩
    · exact .waiting (by rw [hring, hacts.posted, List.append_nil]) rfl hclosed
    · refine ⟨[cqe], [], [cqe], ?_, List.nil_sublist _, .refl _, .nil, ?_, ?_⟩
      · rw [hring, hacts.posted, List.append_nil, hseen]
      · intro x hx
        rw [List.mem_singleton] at hx
        exact hx ▸ hopens
      · rw [hclosed]
        rfl
  · rw [if_neg herr]
    have hring : out.mcon.ring = m.ring.ioUringCqeSeen := processCqe_ring m cqe hroom addErr herr
    refine ⟨[cqe], [cqe], [], ?_, .refl _, .refl _, ?_, by simp, ?_⟩
    · rw [hring, hacts.posted, List.append_nil, hseen]
    · rw [List.filter_eq_self.2 hacts.completion]
      exact (reported_processCqe hroom herr).2
    · rw [hacts.closed herr]
      rfl

/-! ### The loop -/

/-- An instance during a call, with its accepts counted. -/
structure Counted (m : Instance C) : Prop where
  wellFormed : WellFormed m
  accepts : AcceptsCounted m

theorem Counted.calls {P : StepKind → Prop} {acts : List Act} {log : List (Nat × SlotEvent)} (hm : Counted m)
    (h : Calls P m acts log m') : Counted m' :=
  ⟨h.wellFormed hm.wellFormed, (h.accepts hm.wellFormed hm.accepts).1⟩

theorem Counted.moveRing (hm : Counted m) (moves : List RingMove) : Counted (moveRing m moves) :=
  hm.calls (calls_moveRing (P := fun _ => True) trivial m moves)

theorem Counted.next {ienv : IterEnv} {st : LoopState C} {out : HandlerOut C} (hm : Counted st.mcon)
    (hit : Iteration maxEvents ienv st cqe out) (herr : ¬ out.err < 0) : Counted (st.next ienv out).mcon := by
  obtain ⟨-, -, hcalls⟩ := hit.handled.resolve_left fun h => herr h.1
  exact ((hm.moveRing ienv.beforePeek).calls hcalls).moveRing ienv.beforeNextPeek

/-- Counting a consumed completion down changes no ring. -/
private theorem delivers_next (m : Instance C) (moves : List RingMove) :
    Delivers m (moveActs m moves) [] (moveRing (countDown m) moves) := delivers_moveRing m moves

theorem delivers_cqeLoopResult (hm : Counted m) (maxEvents : Nat) (env : UringEnv) :
    let st := cqeLoopResult m maxEvents env
    Delivers m st.acts (st.events.take st.eventCount) st.mcon := by
  have hhandler : ∀ (st : LoopState C) (ienv : IterEnv) cqe out, Counted st.mcon →
      Iteration maxEvents ienv st cqe out → Delivers st.mcon (moveActs st.mcon ienv.beforePeek ++ out.acts)
        (if out.err < 0 then [] else out.events) out.mcon := by
    rintro st ienv cqe out h ⟨hroom, ⟨rest, hcq⟩, rfl⟩
    exact (delivers_moveRing st.mcon ienv.beforePeek).trans
      (delivers_processCqe (h.moveRing ienv.beforePeek).accepts hcq (Nat.sub_pos_of_lt hroom))
  refine cqeLoopResult_rule
    (fun st => Counted st.mcon ∧ st.eventCount = st.events.length ∧ Delivers m st.acts st.events st.mcon)
    (fun st => Delivers m st.acts (st.events.take st.eventCount) st.mcon) m
    (fun _ hst => hst.1.wellFormed.cq_entries) ?_ ?_ ?_ ⟨hm, rfl, .waiting (by simp [loopStart]) rfl rfl⟩
  · rintro st ⟨-, hcount, hdelivers⟩
    have := hdelivers.trans (delivers_moveRing st.mcon (env.iter st.iterationCount).beforePeek)
    rw [List.append_nil] at this
    rw [LoopState.stopped, hcount, List.take_length]
    exact this
  · rintro st cqe out ⟨hcounted, hcount, hdelivers⟩ hit herr
    obtain ⟨-, hnum, -⟩ := hit.handled.resolve_left fun h => herr h.1
    refine ⟨hcounted.next hit herr, by simp [LoopState.next, hcount, hnum], ?_⟩
    have hout := hhandler st _ cqe out hcounted hit
    rw [if_neg herr] at hout
    have := (hdelivers.trans hout).trans (delivers_next out.mcon (env.iter st.iterationCount).beforeNextPeek)
    rw [List.append_nil, ← List.append_assoc] at this
    exact this
  · rintro st cqe out ⟨hcounted, hcount, hdelivers⟩ hit herr
    have hout := hhandler st _ cqe out hcounted hit
    rw [if_pos herr] at hout
    have := hdelivers.trans hout
    rw [List.append_nil, ← List.append_assoc] at this
    simpa only [LoopState.failed, hcount, List.take_left'] using this

/-! ### Calls -/

private theorem delivers_clearEventfd (m : Instance C) (env : UringEnv) :
    Delivers m (clearEventfd m env).2 [] (clearEventfd m env).1 := by
  have hmoves := fun (x : Instance C) moves => delivers_moveRing x moves
  have hread : ∀ x : Instance C, Delivers x [.eventfdRead] [] { x with ring := { x.ring with eventfd := 0 } } :=
    fun x => .waiting (by simp [Act.posted?]) rfl rfl
  have hwrite : ∀ (x : Instance C) n,
      Delivers x [.eventfdWrite] [] { x with ring := { x.ring with eventfd := n } } :=
    fun x n => .waiting (by simp [Act.posted?]) rfl rfl
  have hcleared := ((hmoves m env.beforeRead).trans (hread _)).trans (hmoves _ env.beforeReady)
  unfold clearEventfd
  dsimp only
  split
  · exact (hcleared.trans (hmoves _ env.beforeWrite)).trans (hwrite _ _)
  · exact hcleared

theorem delivers_processIoUringEvent (hm : Counted m) (maxEvents : Nat) (env : UringEnv) :
    let p := mconProcessIoUringEvent m maxEvents env
    Delivers m p.2.acts p.2.reported p.1 := by
  have hloop := delivers_cqeLoopResult hm maxEvents env
  dsimp only at hloop ⊢
  unfold mconProcessIoUringEvent
  dsimp only
  split
  · have := hloop.trans (delivers_clearEventfd (cqeLoopResult m maxEvents env).mcon env)
    rw [List.append_nil] at this
    exact this
  · exact hloop

private theorem delivers_processSessionEvent (m : Instance C) (epollEvents : UInt32) (epollData : EpollEntry)
    (maxEvents : Nat) (sockopt : SockoptResult) :
    let p := mconProcessSessionEvent m epollEvents epollData maxEvents sockopt
    Delivers m p.2.acts p.2.reported p.1 := by
  have hevents : ∀ rdhup (n : Nat), ((sessionEvents epollEvents epollData.session.toNat rdhup sockopt).take n).filter
      Event.isCompletion = [] := by
    intro rdhup n
    rw [List.filter_eq_nil_iff]
    intro e he
    have he := List.mem_of_mem_take he
    unfold sessionEvents at he
    simp only [List.mem_append] at he
    rcases he with ((he | he) | he) | he
    all_goals
      repeat' split at he
      all_goals simp at he
      try (subst he; simp [Event.isCompletion])
  have hlatched : ∀ c : Bool, (if c then setStateBits m epollData.session.toNat stateRdhup else m).ring.cq =
      m.ring.cq ++ [] := by
    intro c
    rw [List.append_nil]
    split <;> rfl
  unfold mconProcessSessionEvent
  dsimp only
  split
  · exact .waiting (List.append_nil _).symm rfl rfl
  · split
    · exact .waiting (List.append_nil _).symm rfl rfl
    · split
      · exact .waiting (List.append_nil _).symm rfl rfl
      · split
        · split
          · exact .waiting (hlatched _) (hevents _ _) rfl
          · exact .waiting (hlatched _) (hevents _ _) rfl
        · exact .waiting (hlatched _) (hevents _ _) rfl

theorem delivers_processEvent (hm : Counted m) (data : UInt64) (epollEvents : UInt32) (eventCapacity : Nat)
    (env : ProcessEnv) :
    let p := mconProcessEvent m data epollEvents eventCapacity env
    Delivers m p.2.acts p.2.reported p.1 := by
  dsimp only
  cases dispatched m data epollEvents eventCapacity env with
  | refused errno _ hcall =>
    rw [hcall]
    exact .waiting (List.append_nil _).symm rfl rfl
  | serverSocket _ _ hcall =>
    rw [hcall]
    refine .waiting ?_ rfl rfl
    dsimp only
    split <;> exact (List.append_nil _).symm
  | ioUring _ _ hcall =>
    rw [hcall]
    exact delivers_processIoUringEvent hm eventCapacity env.uring
  | session _ _ hcall =>
    rw [hcall]
    exact delivers_processSessionEvent m epollEvents (mconDecodeEpollEntry data) eventCapacity env.sockopt

/-- The kinds of small steps that consume a completion. -/
def consumingKinds : List StepKind :=
  [.acceptAgain, .acceptFailed, .acceptNoSlot, .acceptRollback, .accepted, .transferred, .closed]

theorem SmallStep.delivers (h : SmallStep m k obs m') (hk : k ∉ consumingKinds) :
    Delivers m (obs.filterMap Obs.act?) [] m' := by
  have hwaits : ∀ {m' : Instance C} {obs : List Obs}, m'.ring.cq = m.ring.cq →
      (obs.filterMap Obs.act?).filterMap Act.posted? = [] → (obs.filterMap Obs.act?).filterMap Act.closed? = [] →
      Delivers m (obs.filterMap Obs.act?) [] m' := by
    intro m' obs hcq hposted hclosed
    exact .waiting (by rw [hposted, List.append_nil, hcq]) rfl hclosed
  cases h with
  | kernel h =>
    rename_i acts r
    have hacts : (acts.map Obs.act).filterMap Obs.act? = acts := by
      simp [List.filterMap_map, Function.comp_def, Obs.act?]
    rw [hacts]
    exact .waiting (kernelStep_posted h).1 rfl (kernelStep_posted h).2
  | pop h =>
    obtain ⟨-, -⟩ := h
    exact hwaits rfl rfl rfl
  | detached => exact hwaits (by simp) rfl rfl
  | eventfd ha =>
    refine hwaits rfl ?_ ?_
    all_goals rcases ha with rfl | rfl <;> rfl
  | look _ ha =>
    refine hwaits rfl ?_ ?_
    all_goals rcases ha with rfl | ⟨err, rfl⟩ <;> rfl
  | _ => first | exact hwaits rfl rfl rfl | simp [consumingKinds] at hk

theorem Calls.delivers {P : StepKind → Prop} {acts : List Act} {log : List (Nat × SlotEvent)}
    (hP : ∀ k, P k → k ∉ consumingKinds) (h : Calls P m acts log m') : Delivers m acts [] m' := by
  obtain ⟨obs, hpath, rfl, -⟩ := h
  induction hpath with
  | nil => exact .waiting (List.append_nil _).symm rfl rfl
  | cons hs hk _ ih =>
    rw [List.filterMap_append]
    exact (hs.delivers (hP _ hk)).trans ih

theorem delivers_step (hm : Counted m) (i : Input) :
    Delivers m (step m i).2.acts (step m i).2.reported (step m i).1 := by
  by_cases hevent : ∃ data epollEvents eventCapacity env, i = .processEvent data epollEvents eventCapacity env
  · obtain ⟨data, epollEvents, eventCapacity, env, rfl⟩ := hevent
    exact delivers_processEvent hm data epollEvents eventCapacity env
  · have hnil : (step m i).2.reported = [] := by
      rw [Output.reported, step_events_nil m fun data epollEvents eventCapacity env h =>
        hevent ⟨data, epollEvents, eventCapacity, env, h⟩, List.take_nil]
    have hkinds : ∀ k, i.allows k → k ∉ consumingKinds := by
      intro k hk hmem
      cases i <;> simp only [Input.allows] at hk
      case processEvent => exact hevent ⟨_, _, _, _, rfl⟩
      all_goals revert hk; revert k; simp [consumingKinds]
    rw [hnil]
    exact (calls_step m hm.wellFormed.cq_entries i).delivers hkinds

/-! ### Runs -/

theorem Execution.counted {ok : Instance C → Input → Prop} {h : History} (he : Execution ok h m) : Counted m :=
  ⟨he.wellFormed, he.acceptsCounted⟩

/-- The events of completions that a run reported, in order. -/
def completionEvents (h : History) : List Event := (h.flatMap fun p => p.2.reported).filter Event.isCompletion

/-- In every run the results of the operations executed are, each as often, the completions that were posted and those
on the way.  Of the posted ones the program has consumed the first and the CQ ring holds the others, in order; the
consumed ones are reported in this order, each by one event with the result the kernel gave, but for accepts which
found no connection, and accepted connections whose registration failed and whose descriptors were closed. -/
theorem every_result_is_reported_once {h : History} (he : Execution anyInput h m) :
    ((actsOf h).filterMap Act.result?).Perm ((actsOf h).filterMap Act.posted? ++ m.ring.executed) ∧
      ∃ consumed answered dropped : List Cqe,
        (actsOf h).filterMap Act.posted? = consumed ++ m.ring.cq ∧ answered.Sublist consumed ∧
          consumed.Perm (answered ++ dropped) ∧ ReportedInOrder answered (completionEvents h) ∧
          (∀ cqe ∈ dropped, cqe.Opens) ∧ dropped.map (·.res) = (actsOf h).filterMap Act.closed? := by
  refine ⟨he.results_perm, ?_⟩
  obtain ⟨config, m₀, hcreated, hr⟩ := he
  have hdelivers : Delivers m₀ (actsOf h) (h.flatMap fun p => p.2.reported) m := by
    induction hr with
    | nil => exact .waiting (List.append_nil _).symm rfl rfl
    | @snoc h x i hr hi ih =>
      have hx : Execution anyInput h x := ⟨config, m₀, hcreated, hr⟩
      have hall := ih.trans (delivers_step hx.counted i)
      simpa [actsOf] using hall
  obtain ⟨-, instanceId, eventfd, -, rfl⟩ := created_eq hcreated
  obtain ⟨consumed, answered, dropped, hcq, hrest⟩ := hdelivers
  exact ⟨consumed, answered, dropped, hcq, hrest⟩

/-- A write and a read are reported after an accept that found no connection, and the connection before them. -/
theorem every_result_is_reported_once_transfers :
    let h := history step (freshInstance (smallConfig 2 4 1)) (transferInputs ++ [ringInput])
    ∃ answered : List Cqe, answered.Sublist ((actsOf h).filterMap Act.posted?) ∧
      ReportedInOrder answered (completionEvents h) ∧ (completionEvents h).length = 3 := by
  intro h
  have hrun : Execution anyInput h _ :=
    Execution.of_inputs (smallConfig 2 4 1) (by decide) (transferInputs ++ [ringInput])
    (.of_forall (fun _ _ _ => trivial) _)
  obtain ⟨-, consumed, answered, dropped, hposted, hsub, -, hreported, -⟩ := every_result_is_reported_once hrun
  refine ⟨answered, ?_, hreported, by decide⟩
  rw [hposted]
  exact hsub.trans (List.sublist_append_left _ _)

end Mcon
