import Mcon.Connections
import Mcon.Indices
import Mcon.SessionEvents
import Mathlib.Data.Nat.Bitwise

/-!
# What `mcon_process_event` returns and writes

Whatever the payload and the mask, the session table is indexed and the array of events is written within bounds,
and every event names a session of the table.  The return value is the number of events stored, unless a close
completion finds no room on the free stack; only a half-done detach can bring that about.
-/

namespace Mcon

open Transition (Run AllOk history finalState)

variable {C : Ctools} {m m' : Instance C} {k : StepKind} {obs : List Obs}

/-- The session an event names when there are `n`. -/
def Event.Names (n : Nat) (e : Event) : Prop :=
  if e.type = .newConnection ∧ e.result < 0 then e.session = mconNoSession else e.session < n

/-! ### Events of a client socket -/

/-- Testing a single bit of a mask. -/
theorem and_bit_ne_zero (n : UInt32) {mask : UInt32} {i : Nat} (hmask : mask.toNat = 2 ^ i) :
    (n &&& mask != 0) = n.toNat.testBit i := by
  have hnat : (n &&& mask).toNat = (n.toNat.testBit i).toNat * 2 ^ i := by
    rw [UInt32.toNat_and, hmask, Nat.and_two_pow]
  have hpos := Nat.two_pow_pos i
  rw [Bool.eq_iff_iff, bne_iff_ne, Ne, ← UInt32.toNat_inj, hnat, UInt32.toNat_zero]
  cases n.toNat.testBit i <;> simp

/-- The capacity check by the number of bits is enough. -/
theorem length_sessionEvents_le (epollEvents : UInt32) (s : Nat) (rdhup : Bool) (sockopt : SockoptResult) :
    (sessionEvents epollEvents s rdhup sockopt).length ≤ stdcCountOnes epollEvents := by
  have hin := and_bit_ne_zero epollEvents (show epollin.toNat = 2 ^ 0 by rfl)
  have herr := and_bit_ne_zero epollEvents (show epollerr.toNat = 2 ^ 3 by rfl)
  have hhup := and_bit_ne_zero epollEvents (show epollhup.toNat = 2 ^ 4 by rfl)
  have hrdhup := and_bit_ne_zero epollEvents (show epollrdhup.toNat = 2 ^ 13 by rfl)
  have hsub : [0, 3, 4, 13].Sublist (List.range 32) := by decide
  refine Nat.le_trans ?_ (hsub.countP_le (p := epollEvents.toNat.testBit))
  simp only [sessionEvents, hin, herr, hhup, hrdhup, List.length_append, List.countP_cons, List.countP_nil]
  generalize epollEvents.toNat.testBit 0 = b0
  generalize epollEvents.toNat.testBit 3 = b3
  generalize epollEvents.toNat.testBit 4 = b4
  generalize epollEvents.toNat.testBit 13 = b13
  cases b0 <;> cases b3 <;> cases b4 <;> cases b13 <;> cases rdhup <;> simp

theorem names_sessionEvents {n s : Nat} (hs : s < n) (epollEvents : UInt32) (rdhup : Bool) (sockopt : SockoptResult) :
    ∀ e ∈ sessionEvents epollEvents s rdhup sockopt, e.Names n := by
  intro e he
  simp only [sessionEvents, List.mem_append] at he
  rcases he with ((he | he) | he) | he <;> (repeat' split at he) <;> simp at he <;> subst he <;> simpa [Event.Names]

/-! ### Completions -/

/-- What a handler stores: one event at most, which names a session, and none when it fails, unless the free stack
refused the session. -/
structure StoresOne (n : Nat) (out : HandlerOut C) : Prop where
  length_le : out.events.length ≤ 1
  names : ∀ e ∈ out.events, e.Names n
  failed : out.err < 0 → out.events = [] ∨ ∃ s, Act.stackPush s false ∈ out.acts

theorem StoresOne.nothing {n : Nat} {out : HandlerOut C} (h : out.events = []) : StoresOne n out := by
  constructor
  · simp [h]
  · simp [h]
  · exact fun _ => .inl h

theorem StoresOne.event {n : Nat} {out : HandlerOut C} {e : Event} (h : out.events = [e]) (he : e.Names n)
    (herr : ¬ out.err < 0) : StoresOne n out := by
  constructor
  · simp [h]
  · simpa [h] using he
  · exact fun hneg => absurd hneg herr

private theorem storesOne_accept (hv : ValidIndices m) (cqe : Cqe) (maxEvents : Nat) (addErr : Option Int) :
    StoresOne m.configuration.sessionCount.toNat (processAccept m cqe maxEvents addErr) := by
  unfold processAccept
  split
  · exact .nothing rfl
  split
  · exact .nothing rfl
  dsimp only
  split
  · rename_i hres
    refine .event rfl ?_ (by simp)
    rw [Event.Names, if_pos ⟨rfl, hres⟩]
  · rename_i hres
    split
    · exact .nothing rfl
    · rename_i s stack hpop
      cases addErr with
      | none =>
        refine .event rfl ?_ (by simp)
        rw [Event.Names, if_neg fun h => hres h.2]
        exact hv.lt_of_pop hpop
      | some err =>
        dsimp only
        split <;> exact .nothing rfl

private theorem storesOne_transfer {n s : Nat} (hs : s < n) {type : EventType} (htype : type ≠ .newConnection)
    (bits : UInt8) (m : Instance C) (cqe : Cqe) (op : IoUringOperation) (maxEvents : Nat) :
    StoresOne n (processTransfer type bits m cqe ⟨op, s⟩ maxEvents) := by
  unfold processTransfer
  split
  · exact .nothing rfl
  · refine .event rfl ?_ (by simp)
    rw [Event.Names, if_neg fun h => htype h.1]
    exact hs

private theorem storesOne_close {n s : Nat} (hs : s < n) (m : Instance C) (cqe : Cqe) (op : IoUringOperation)
    (maxEvents : Nat) : StoresOne n (processClose m cqe ⟨op, s⟩ maxEvents) := by
  have hnames : Event.Names n ⟨cqe.res, s, .closeComplete⟩ := by simpa [Event.Names]
  unfold processClose
  split
  · exact .nothing rfl
  dsimp only
  split
  · -- the event is stored before the session is pushed
    exact ⟨by simp, by simpa using hnames, fun _ => .inr ⟨s, by simp⟩⟩
  · exact .event rfl hnames (by simp)

theorem storesOne_processCqe (hv : ValidIndices m) {cqe : Cqe} {rest : List Cqe} (hcq : m.ring.cq = cqe :: rest)
    (maxEvents : Nat) (addErr : Option Int) :
    StoresOne m.configuration.sessionCount.toNat (processCqe m cqe maxEvents addErr) := by
  have hentry := hv.of_cq hcq
  unfold processCqe processRead processWrite processDrain
  generalize cqe.userData = entry at hentry
  cases hentry with
  | accept => exact storesOne_accept hv cqe maxEvents addErr
  | session op hs =>
    rcases op with (_ | _) | _ | _
    · exact storesOne_transfer hs (by simp) _ m cqe _ maxEvents
    · exact storesOne_transfer hs (by simp) _ m cqe _ maxEvents
    · exact storesOne_transfer hs (by simp) _ m cqe _ maxEvents
    · exact storesOne_close hs m cqe _ maxEvents

/-! ### The loop -/

/-- An instance during a call; `whole` says that no detach was half done. -/
structure Sound (whole : Prop) (n : Nat) (m : Instance C) : Prop where
  wellFormed : WellFormed m
  indices : ValidIndices m
  sessionCount : m.configuration.sessionCount.toNat = n
  slots : whole → ∃ A, Represents m A

/-- The kinds of small steps of `mcon_process_event`. -/
def eventKinds (k : StepKind) : Prop := k ∈ processKinds ∨ k = .acceptRollback

theorem eventKinds_ne_detachEnoent (hk : eventKinds k) : k ≠ .detachEnoent := by
  rintro rfl
  rcases hk with hk | hk
  · simp [processKinds] at hk
  · cases hk

theorem Sound.smallStep {whole : Prop} {n : Nat} (hk : eventKinds k) (hm : Sound whole n m)
    (h : SmallStep m k obs m') : Sound whole n m' where
  wellFormed := hm.wellFormed.smallStep h
  indices := hm.indices.smallStep h
  sessionCount := by rw [h.frame.configuration]; exact hm.sessionCount
  slots hwhole := by
    obtain ⟨A, hrep⟩ := hm.slots hwhole
    obtain ⟨A', hrep', -⟩ := hrep.slotStep hm.wellFormed (eventKinds_ne_detachEnoent hk) h
    exact ⟨A', hrep'⟩

theorem Sound.calls {whole : Prop} {n : Nat} {acts : List Act} {log : List (Nat × SlotEvent)} (hm : Sound whole n m)
    (h : Calls eventKinds m acts log m') :
    Sound whole n m' ∧ (whole → ∀ s, Act.stackPush s false ∉ acts) := by
  refine ⟨h.invariant (Sound whole n) (fun _ _ _ _ hk hs hx => hx.smallStep hk hs) hm, fun hwhole s hmem => ?_⟩
  obtain ⟨A, hrep⟩ := hm.slots hwhole
  obtain ⟨obs, hpath, hacts, -⟩ := h
  obtain ⟨-, -, -, hpush⟩ := hrep.path (fun _ hk => eventKinds_ne_detachEnoent hk) hm.wellFormed hpath
  exact hpush s ((Obs.mem_acts_iff hacts).1 hmem)

/-- The kernel does no harm. -/
theorem Sound.moveRing {whole : Prop} {n : Nat} (hm : Sound whole n m) (moves : List RingMove) :
    Sound whole n (moveRing m moves) :=
  (hm.calls (calls_moveRing (.inl (by decide)) m moves)).1

theorem Iteration.handled {maxEvents : Nat} {ienv : IterEnv} {st : LoopState C} {cqe : Cqe} {out : HandlerOut C}
    (hit : Iteration maxEvents ienv st cqe out) : Handled eventKinds (st.peeked ienv) out := by
  obtain ⟨hroom, ⟨rest, hcq⟩, rfl⟩ := hit
  exact handled_processCqe (fun k hk => .inl (handlerKinds_subset hk)) (fun _ _ => .inr rfl) hcq
    (Nat.sub_pos_of_lt hroom)

/-- The instance after an iteration. -/
theorem Sound.next {whole : Prop} {n maxEvents : Nat} {ienv : IterEnv} {st : LoopState C} {cqe : Cqe}
    {out : HandlerOut C} (hm : Sound whole n st.mcon) (hit : Iteration maxEvents ienv st cqe out)
    (herr : ¬ out.err < 0) : Sound whole n (st.next ienv out).mcon := by
  obtain ⟨-, -, hcalls⟩ := hit.handled.resolve_left fun h => herr h.1
  exact ((hm.moveRing ienv.beforePeek).calls hcalls).1.moveRing ienv.beforeNextPeek

/-- The loop ends with its events stored within the bounds. -/
structure Stored (whole : Prop) (n maxEvents : Nat) (st : LoopState C) : Prop where
  length_le : st.events.length ≤ maxEvents
  names : ∀ e ∈ st.events, e.Names n
  count : whole → st.eventCount = st.events.length

theorem stored_cqeLoopResult {whole : Prop} {n : Nat} (hm : Sound whole n m) (maxEvents : Nat) (env : UringEnv) :
    Stored whole n maxEvents (cqeLoopResult m maxEvents env) := by
  have hstores : ∀ (st : LoopState C) (ienv : IterEnv) cqe out, Sound whole n st.mcon →
      Iteration maxEvents ienv st cqe out → StoresOne n out := by
    rintro st ienv cqe out h ⟨hroom, ⟨rest, hcq⟩, rfl⟩
    have hsound := h.moveRing ienv.beforePeek
    have := storesOne_processCqe hsound.indices hcq (maxEvents - st.eventCount) ienv.addErr
    rwa [hsound.sessionCount] at this
  refine cqeLoopResult_rule
    (fun st => Sound whole n st.mcon ∧ st.eventCount = st.events.length ∧ st.events.length ≤ maxEvents ∧
      ∀ e ∈ st.events, e.Names n)
    (Stored whole n maxEvents) m (fun _ hst => hst.1.wellFormed.cq_entries) ?_ ?_ ?_
    ⟨hm, rfl, Nat.zero_le _, by simp [loopStart]⟩
  · rintro st ⟨-, hcount, hle, hnames⟩
    exact ⟨hle, hnames, fun _ => hcount⟩
  · rintro st cqe out ⟨hsound, hcount, hle, hnames⟩ hit herr
    obtain ⟨hone, hnames', -⟩ := hstores st _ cqe out hsound hit
    obtain ⟨-, hnum, -⟩ := hit.handled.resolve_left fun h => herr h.1
    have hroom := hit.room
    refine ⟨hsound.next hit herr, ?_, ?_, ?_⟩
    · simp only [LoopState.next, List.length_append]
      omega
    · simp only [LoopState.next, List.length_append]
      omega
    · simp only [LoopState.next, List.mem_append]
      exact fun e he => he.elim (hnames e) (hnames' e)
  · rintro st cqe out ⟨hsound, hcount, hle, hnames⟩ hit herr
    obtain ⟨hone, hnames', hfailed⟩ := hstores st _ cqe out hsound hit
    obtain ⟨-, hcalls⟩ := hit.handled.resolve_right fun h => h.1 herr
    have hroom := hit.room
    refine ⟨?_, ?_, fun hwhole => ?_⟩
    · simp only [LoopState.failed, List.length_append]
      omega
    · simp only [LoopState.failed, List.mem_append]
      exact fun e he => he.elim (hnames e) (hnames' e)
    · -- no push fails, so nothing was stored
      have hpush := ((hsound.moveRing _).calls hcalls).2 hwhole
      have hnil := (hfailed herr).resolve_right fun h => h.elim hpush
      simp [LoopState.failed, hnil, hcount]

/-! ### The call -/

/-- What holds of one call of `mcon_process_event` besides its return value. -/
structure WithinBounds (m : Instance C) (eventCapacity : Nat) (out : Output) : Prop where
  indexed : ∀ s, Act.sessionsAt s ∈ out.acts → s < m.configuration.sessionCount.toNat
  written : out.events.length ≤ eventCapacity
  names : ∀ e ∈ out.reported, e.Names m.configuration.sessionCount.toNat
  /-- The completions the call can come upon are in the CQ ring or posted during the call. -/
  known : ∀ cqe, cqe ∈ m.ring.cq ∨ Act.post cqe ∈ out.acts → cqe.userData.operation ≠ .unknown

/-- The return value is `-1` or the number of events written. -/
def CountsEvents (out : Output) : Prop := out.rc = -1 ∨ out.rc = out.events.length

private theorem processSessionEvent_events (m : Instance C) (epollEvents : UInt32) (epollData : EpollEntry)
    (maxEvents : Nat) (sockopt : SockoptResult) :
    let out := (mconProcessSessionEvent m epollEvents epollData maxEvents sockopt).2
    out.events.length ≤ maxEvents ∧ (∀ e ∈ out.events, e.Names m.configuration.sessionCount.toNat) ∧
      CountsEvents out := by
  dsimp only
  by_cases hthrough : LetThrough m epollEvents epollData maxEvents
  · obtain ⟨-, hevents, hfails, hcounts⟩ := processSessionEvent_of_letThrough hthrough sockopt
    have hle := length_sessionEvents_le epollEvents epollData.session.toNat
      (hangupLatched m epollData.session.toNat) sockopt
    refine ⟨?_, ?_, ?_⟩
    · rw [hevents]
      exact hle.trans hthrough.room
    · rw [hevents]
      exact names_sessionEvents hthrough.session_lt epollEvents _ sockopt
    · by_cases hquery : QueryFails epollEvents sockopt
      · exact .inl (hfails hquery)
      · exact .inr (hcounts hquery)
  · have hnil : ∀ rc errno acts, rc = -1 ∨ rc = 0 → (Output.ret rc errno acts).events.length ≤ maxEvents ∧
        (∀ e ∈ (Output.ret rc errno acts).events, e.Names m.configuration.sessionCount.toNat) ∧
          CountsEvents (Output.ret rc errno acts) := by
      intro rc errno acts hrc
      exact ⟨Nat.zero_le _, by simp [Output.ret], hrc⟩
    rcases processSessionEvent_refused_or_skipped hthrough sockopt with ⟨err, hcall⟩ | ⟨-, hcall⟩
    · rw [hcall]
      exact hnil _ _ _ (.inl rfl)
    · rw [hcall]
      exact hnil _ _ _ (.inr rfl)

private theorem processEvent_events {whole : Prop} (hm : Sound whole m.configuration.sessionCount.toNat m)
    (data : UInt64) (epollEvents : UInt32) (eventCapacity : Nat) (env : ProcessEnv) :
    let out := (mconProcessEvent m data epollEvents eventCapacity env).2
    out.events.length ≤ eventCapacity ∧ (∀ e ∈ out.events, e.Names m.configuration.sessionCount.toNat) ∧
      (whole → CountsEvents out) := by
  have hnil : ∀ rc errno, rc = -1 ∨ rc = 0 → (Output.ret rc errno []).events.length ≤ eventCapacity ∧
      (∀ e ∈ (Output.ret rc errno []).events, e.Names m.configuration.sessionCount.toNat) ∧
        (whole → CountsEvents (Output.ret rc errno [])) := by
    intro rc errno hrc
    exact ⟨Nat.zero_le _, by simp [Output.ret], fun _ => hrc⟩
  cases dispatched m data epollEvents eventCapacity env with
  | refused errno _ hcall =>
    rw [hcall]
    exact hnil _ _ (.inl rfl)
  | serverSocket _ _ hcall =>
    rw [hcall]
    exact hnil _ _ (.inr rfl)
  | ioUring _ _ hcall =>
    obtain ⟨hle, hnames, hcount⟩ := stored_cqeLoopResult hm eventCapacity env.uring
    have hevents := processIoUringEvent_events m eventCapacity env.uring
    have hrc := processIoUringEvent_rc m eventCapacity env.uring
    rw [hcall]
    refine ⟨hevents ▸ hle, hevents ▸ hnames, fun hwhole => .inr ?_⟩
    rw [hevents, hrc, hcount hwhole]
  | session _ _ hcall =>
    obtain ⟨hle, hnames, hcount⟩ := processSessionEvent_events m epollEvents (mconDecodeEpollEntry data)
      eventCapacity env.sockopt
    rw [hcall]
    exact ⟨hle, hnames, fun _ => hcount⟩

/-- One call on an instance that a run has reached. -/
theorem Sound.withinBounds {whole : Prop} (hm : Sound whole m.configuration.sessionCount.toNat m)
    (data : UInt64) (epollEvents : UInt32) (eventCapacity : Nat) (env : ProcessEnv) :
    WithinBounds m eventCapacity (mconProcessEvent m data epollEvents eventCapacity env).2 ∧
      (whole → CountsEvents (mconProcessEvent m data epollEvents eventCapacity env).2) := by
  have hcalls := calls_step m hm.wellFormed.cq_entries (.processEvent data epollEvents eventCapacity env)
  obtain ⟨hindexed, hposted⟩ := hm.indices.calls hcalls
  obtain ⟨hwritten, hnames, hcount⟩ := processEvent_events hm data epollEvents eventCapacity env
  refine ⟨⟨hindexed, hwritten, fun e he => hnames e (List.mem_of_mem_take he), ?_⟩, hcount⟩
  rintro cqe (hcqe | hcqe)
  · have hmem : cqe.userData ∈ m.outstanding := by
      simp only [Instance.outstanding, Ring.entries, List.mem_append]
      exact .inr (.inr (List.mem_map_of_mem hcqe))
    exact (hm.indices.outstanding _ hmem).operation_ne_unknown
  · exact (hposted cqe hcqe).operation_ne_unknown

/-- In every run whose steps include no half-done detach, every call of `mcon_process_event`, whatever its payload,
mask and capacity, stays within its bounds and returns `-1` or the number of events it wrote. -/
theorem process_event_within_bounds {h : History} (he : Execution DetachesWhole h m) (data : UInt64)
    (epollEvents : UInt32) (eventCapacity : Nat) (env : ProcessEnv) :
    WithinBounds m eventCapacity (mconProcessEvent m data epollEvents eventCapacity env).2 ∧
      CountsEvents (mconProcessEvent m data epollEvents eventCapacity env).2 := by
  obtain ⟨A, hm, hrep, -⟩ := he.represents_whole
  obtain ⟨hbounds, hcount⟩ := Sound.withinBounds ⟨hm, he.validIndices, rfl, fun _ => ⟨A, hrep⟩⟩ data epollEvents
    eventCapacity env
  exact ⟨hbounds, hcount trivial⟩

/-- A connection is accepted with room for one event. -/
theorem process_event_within_bounds_accept :
    CountsEvents (mconProcessEvent (finalState step (freshInstance (smallConfig 2 4 1))
      ([startInput, serverInput, .submit 1] ++ completeInputs 20))
      (instancePayload (freshInstance mconConfigDefault) epollSourceIoUring) epollin 1
      ⟨.quiet, ⟨none, 0⟩⟩).2 := by
  have hrun : Execution DetachesWhole _ _ := Execution.of_inputs (smallConfig 2 4 1) (by decide)
    ([startInput, serverInput, .submit 1] ++ completeInputs 20)
    (.of_forall (fun i hi s => NoEnoent.detachesWhole (by
      simp [completeInputs] at hi
      rcases hi with rfl | rfl | rfl | rfl | rfl <;> simp [NoEnoent, startInput, serverInput])) _)
  exact (process_event_within_bounds hrun _ _ _ _).2

/-- A single session whose detach was half done is closed: its close completion finds the free stack full after its
event is stored, and the call returns `0`. -/
theorem half_done_detach_miscounts_events :
    let inputs := startInput :: serverInput :: connectInputs 20 ++
      [.detach 0 (some Errno.enoent), .close 0, .submit 1] ++ completeInputs 0
    let m := finalState step (freshInstance (smallConfig 1 4 1)) inputs
    let out := (step m ringInput).2
    Execution anyInput (history step (freshInstance (smallConfig 1 4 1)) inputs) m ∧ out.rc = 0 ∧
      out.events = [⟨0, 0, .closeComplete⟩] ∧ ¬ CountsEvents out :=
  ⟨Execution.of_inputs _ (by decide) _ (.of_forall (fun _ _ _ => trivial) _), by decide, by decide,
    by unfold CountsEvents; decide⟩

end Mcon
