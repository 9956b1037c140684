import Mcon.WellFormed
import Mathlib.Logic.Relation

/-!
# The capacity of the event array

A call of `mcon_process_io_uring_event` with room for `a + b` events does what a call with room for `a` and a call
with room for `b` do one after the other, as long as no completion arrives and no handler fails.  The proof runs the
loop of the one call in lockstep with the loops of the two.
-/

namespace Mcon

open Relation (ReflTransGen)
open Transition (history finalState)

variable {C : Ctools} {m m' : Instance C}

/-! ### What the program can see -/

/-- The rings without what the kernel holds, the counter of the eventfd and the signals owed to it. -/
def Ring.visible (r : Ring) : Ring := { r with inKernel := [], executed := [], eventfd := 0, owedSignals := 0 }

def Instance.visible (m : Instance C) : Instance C := { m with ring := m.ring.visible }

def PostsNothing (moves : List RingMove) : Prop := ∀ index, RingMove.post index ∉ moves

/-- No completion arrives during the call. -/
structure UringEnv.PostsNothing (env : UringEnv) : Prop where
  beforePeek : ∀ j, Mcon.PostsNothing (env.iter j).beforePeek
  beforeNextPeek : ∀ j, Mcon.PostsNothing (env.iter j).beforeNextPeek
  beforeRead : Mcon.PostsNothing env.beforeRead
  beforeReady : Mcon.PostsNothing env.beforeReady
  beforeWrite : Mcon.PostsNothing env.beforeWrite

theorem visible_applyAll {moves : List RingMove} (h : PostsNothing moves) (r : Ring) :
    (r.applyAll moves).1.visible = r.visible := by
  induction moves generalizing r with
  | nil => rfl
  | cons move moves ih =>
    have hrest : PostsNothing moves := fun index hmem => h index (List.mem_cons_of_mem _ hmem)
    have hmove : (r.apply move).1.visible = r.visible := by
      cases move with
      | exec index res =>
        simp only [Ring.apply]
        split <;> rfl
      | post index => exact absurd List.mem_cons_self (h index)
      | signal =>
        simp only [Ring.apply]
        split <;> rfl
    rw [Ring.applyAll, ih hrest, hmove]

theorem visible_moveRing {moves : List RingMove} (h : PostsNothing moves) (m : Instance C) :
    (moveRing m moves).visible = m.visible := by
  simp only [Instance.visible, moveRing, visible_applyAll h]

theorem cq_eq_of_visible (h : m.visible = m'.visible) : m.ring.cq = m'.ring.cq :=
  show m.visible.ring.cq = m'.visible.ring.cq by rw [h]

theorem visible_clearEventfd {env : UringEnv} (h : env.PostsNothing) (m : Instance C) :
    (clearEventfd m env).1.visible = m.visible := by
  have hset : ∀ (x : Instance C) n,
      ({ x with ring := { x.ring with eventfd := n } } : Instance C).visible = x.visible := fun _ _ => rfl
  unfold clearEventfd
  dsimp only
  split
  · rw [hset, visible_moveRing h.beforeWrite, visible_moveRing h.beforeReady, hset, visible_moveRing h.beforeRead]
  · rw [visible_moveRing h.beforeReady, hset, visible_moveRing h.beforeRead]

theorem visible_processIoUringEvent {env : UringEnv} (h : env.PostsNothing) (m : Instance C) (maxEvents : Nat) :
    (mconProcessIoUringEvent m maxEvents env).1.visible = (cqeLoopResult m maxEvents env).mcon.visible := by
  unfold mconProcessIoUringEvent
  dsimp only
  split
  · exact visible_clearEventfd h _
  · rfl

/-! ### One completion -/

theorem completeShutdownIfDone_visible (m : Instance C) :
    completeShutdownIfDone m.visible = (completeShutdownIfDone m).visible := by
  have hcond : (m.visible.state.isShuttingDown && mconActiveSessionCount m.visible == 0) =
      (m.state.isShuttingDown && mconActiveSessionCount m == 0) := rfl
  unfold completeShutdownIfDone
  rw [hcond]
  split <;> rfl

private theorem processAccept_visible (m : Instance C) (cqe : Cqe) (maxEvents : Nat) (addErr : Option Int) :
    processAccept m.visible cqe maxEvents addErr =
      { processAccept m cqe maxEvents addErr with mcon := (processAccept m cqe maxEvents addErr).mcon.visible } := by
  have hstack : (requestAccepts (acceptSeen m.visible)).sessionFreeStack = m.sessionFreeStack := rfl
  have hstack' : (requestAccepts (acceptSeen m)).sessionFreeStack = m.sessionFreeStack := rfl
  unfold processAccept
  dsimp only
  rw [hstack, hstack']
  split
  · rfl
  split
  · rfl
  split
  · rfl
  cases C.idxStack.pop m.sessionFreeStack with
  | none => rfl
  | some p =>
    obtain ⟨newSession, stack⟩ := p
    cases addErr with
    | none => rfl
    | some err =>
      dsimp only
      cases C.idxStack.push stack newSession <;> rfl

private theorem processClose_visible (m : Instance C) (cqe : Cqe) (ioEntry : IoUringEntry) (maxEvents : Nat) :
    processClose m.visible cqe ioEntry maxEvents =
      { processClose m cqe ioEntry maxEvents with mcon := (processClose m cqe ioEntry maxEvents).mcon.visible } := by
  have hstack : m.visible.sessionFreeStack = m.sessionFreeStack := rfl
  unfold processClose
  rw [hstack]
  split
  · rfl
  cases C.idxStack.push m.sessionFreeStack ioEntry.session with
  | none => rfl
  | some stack =>
    dsimp only
    rw [← completeShutdownIfDone_visible]
    rfl

/-- A handler sees nothing else of the rings. -/
theorem processCqe_visible (m : Instance C) (cqe : Cqe) (maxEvents : Nat) (addErr : Option Int) :
    processCqe m.visible cqe maxEvents addErr =
      { processCqe m cqe maxEvents addErr with mcon := (processCqe m cqe maxEvents addErr).mcon.visible } := by
  unfold processCqe
  split
  · exact processAccept_visible m cqe maxEvents addErr
  · unfold processRead processTransfer
    split <;> rfl
  · unfold processWrite processTransfer
    split <;> rfl
  · unfold processDrain processTransfer
    split <;> rfl
  · exact processClose_visible m cqe cqe.userData maxEvents
  · rfl

/-- All rooms for an event are the same to a handler. -/
theorem processCqe_room {maxEvents maxEvents' : Nat} (h : 0 < maxEvents) (h' : 0 < maxEvents') (m : Instance C)
    (cqe : Cqe) (addErr : Option Int) : processCqe m cqe maxEvents addErr = processCqe m cqe maxEvents' addErr := by
  have hroom : ¬ maxEvents < 1 := by omega
  have hroom' : ¬ maxEvents' < 1 := by omega
  simp only [processCqe, processAccept, processRead, processWrite, processDrain, processTransfer, processClose,
    if_neg hroom, if_neg hroom']

/-- The completion of an accept that found no pending connection. -/
def Cqe.Again (cqe : Cqe) : Prop := cqe.userData.operation = .accept ∧ cqe.res = -Errno.eagain

instance (cqe : Cqe) : Decidable cqe.Again := inferInstanceAs (Decidable (_ ∧ _))

/-- The type of the event of a completion. -/
def completionType : IoUringOperation → EventType
  | .accept => .newConnection
  | .read => .readComplete
  | .write => .writeComplete
  | .drain => .drainComplete
  | .close => .closeComplete
  | .unknown => .none

/-- The event is the one of the completion. -/
structure Cqe.Reports (cqe : Cqe) (e : Event) : Prop where
  result_eq : e.result = cqe.res
  type_eq : e.type = completionType cqe.userData.operation
  session_eq : cqe.userData.operation ≠ .accept → e.session = cqe.userData.session

/-- The completions, in order, with one event each, but for the accepts that found no connection. -/
def ReportedInOrder (cqes : List Cqe) (events : List Event) : Prop :=
  List.Forall₂ Cqe.Reports (cqes.filter fun cqe => ¬ cqe.Again) events

theorem ReportedInOrder.append {cqes cqes' : List Cqe} {events events' : List Event} (h : ReportedInOrder cqes events)
    (h' : ReportedInOrder cqes' events') : ReportedInOrder (cqes ++ cqes') (events ++ events') := by
  unfold ReportedInOrder
  rw [List.filter_append]
  exact List.rel_append h h'

theorem reported_again {cqe : Cqe} (h : cqe.Again) : ReportedInOrder [cqe] [] := by
  simp [ReportedInOrder, h]

theorem reported_one {cqe : Cqe} {e : Event} (hagain : ¬ cqe.Again) (h : cqe.Reports e) :
    ReportedInOrder [cqe] [e] := by
  simp [ReportedInOrder, hagain, h]

section Handlers

variable {cqe : Cqe} {maxEvents : Nat} {addErr : Option Int}

private theorem reported_accept (hop : cqe.userData.operation = .accept) (hroom : ¬ maxEvents < 1)
    (herr : ¬ (processAccept m cqe maxEvents addErr).err < 0) :
    (processAccept m cqe maxEvents addErr).err = (processAccept m cqe maxEvents addErr).events.length ∧
      ReportedInOrder [cqe] (processAccept m cqe maxEvents addErr).events := by
  have hreports : ∀ s, cqe.Reports ⟨cqe.res, s, .newConnection⟩ := fun s =>
    ⟨rfl, by rw [hop]; rfl, fun h => absurd hop h⟩
  unfold processAccept at herr ⊢
  by_cases hagain : cqe.res = -Errno.eagain
  · rw [if_pos hagain]
    exact ⟨rfl, reported_again ⟨hop, hagain⟩⟩
  have hone : ∀ s, ReportedInOrder [cqe] [⟨cqe.res, s, .newConnection⟩] := fun s =>
    reported_one (fun h => hagain h.2) (hreports s)
  rw [if_neg hagain, if_neg hroom] at herr ⊢
  dsimp only at herr ⊢
  by_cases hres : cqe.res < 0
  · rw [if_pos hres]
    exact ⟨rfl, hone mconNoSession⟩
  rw [if_neg hres] at herr ⊢
  cases hpop : C.idxStack.pop (requestAccepts (acceptSeen m)).sessionFreeStack with
  | none => simp [hpop] at herr
  | some p =>
    obtain ⟨newSession, stack⟩ := p
    rw [hpop] at herr
    cases addErr with
    | none => exact ⟨rfl, hone newSession⟩
    | some err => cases hpush : C.idxStack.push stack newSession <;> simp [hpush] at herr

private theorem reported_transfer {type : EventType} (hop : cqe.userData.operation ≠ .accept)
    (htype : type = completionType cqe.userData.operation) (hroom : ¬ maxEvents < 1) (bits : UInt8) :
    (processTransfer type bits m cqe cqe.userData maxEvents).err =
        (processTransfer type bits m cqe cqe.userData maxEvents).events.length ∧
      ReportedInOrder [cqe] (processTransfer type bits m cqe cqe.userData maxEvents).events := by
  unfold processTransfer
  rw [if_neg hroom]
  exact ⟨rfl, reported_one (fun h => hop h.1) ⟨rfl, htype, fun _ => rfl⟩⟩

private theorem reported_close (hop : cqe.userData.operation = .close) (hroom : ¬ maxEvents < 1)
    (herr : ¬ (processClose m cqe cqe.userData maxEvents).err < 0) :
    (processClose m cqe cqe.userData maxEvents).err = (processClose m cqe cqe.userData maxEvents).events.length ∧
      ReportedInOrder [cqe] (processClose m cqe cqe.userData maxEvents).events := by
  have hnot : ¬ cqe.Again := fun h => absurd (hop.symm.trans h.1) (by decide)
  unfold processClose at herr ⊢
  rw [if_neg hroom] at herr ⊢
  cases hpush : C.idxStack.push m.sessionFreeStack cqe.userData.session with
  | none => simp [hpush] at herr
  | some stack => exact ⟨rfl, reported_one hnot ⟨rfl, by rw [hop]; rfl, fun _ => rfl⟩⟩

/-- With room for an event, a handler that does not fail stores the event of its completion, or none if an accept
found no connection. -/
theorem reported_processCqe (hroom : 0 < maxEvents) (herr : ¬ (processCqe m cqe maxEvents addErr).err < 0) :
    (processCqe m cqe maxEvents addErr).err = (processCqe m cqe maxEvents addErr).events.length ∧
      ReportedInOrder [cqe] (processCqe m cqe maxEvents addErr).events := by
  have hroom' : ¬ maxEvents < 1 := by omega
  unfold processCqe at herr ⊢
  cases hop : cqe.userData.operation with
  | unknown => simp [hop] at herr
  | accept =>
    rw [hop] at herr
    exact reported_accept hop hroom' herr
  | read => exact reported_transfer (by rw [hop]; decide) (by rw [hop]; rfl) hroom' _
  | write => exact reported_transfer (by rw [hop]; decide) (by rw [hop]; rfl) hroom' _
  | drain => exact reported_transfer (by rw [hop]; decide) (by rw [hop]; rfl) hroom' _
  | close =>
    rw [hop] at herr
    exact reported_close hop hroom' herr

end Handlers

/-! ### The loop -/

/-- One iteration whose handler reports no error. -/
def Pass (maxEvents : Nat) (env : UringEnv) (st st' : LoopState C) : Prop :=
  ∃ cqe out, Iteration maxEvents (env.iter st.iterationCount) st cqe out ∧ ¬ out.err < 0 ∧
    st' = st.next (env.iter st.iterationCount) out

/-- No handler that the loop comes to from the state reports an error. -/
def NoHandlerFailsFrom (maxEvents : Nat) (env : UringEnv) (st₀ : LoopState C) : Prop :=
  ∀ st cqe out, ReflTransGen (Pass maxEvents env) st₀ st →
    Iteration maxEvents (env.iter st.iterationCount) st cqe out → ¬ out.err < 0

/-- No handler of the call reports an error. -/
def NoHandlerFails (maxEvents : Nat) (env : UringEnv) (m : Instance C) : Prop :=
  NoHandlerFailsFrom maxEvents env (loopStart m)

/-- The loop ends for want of a completion or of room. -/
def Ended (maxEvents : Nat) (env : UringEnv) (st : LoopState C) : Prop :=
  (st.peeked (env.iter st.iterationCount)).ring.cq = [] ∨ maxEvents ≤ st.eventCount

section Loop

variable {maxEvents : Nat} {env : UringEnv} {st st' : LoopState C}

theorem Iteration.unique {ienv : IterEnv} {cqe cqe' : Cqe} {out out' : HandlerOut C}
    (h : Iteration maxEvents ienv st cqe out) (h' : Iteration maxEvents ienv st cqe' out') : out = out' := by
  obtain ⟨rest, hcq⟩ := h.cq
  obtain ⟨rest', hcq'⟩ := h'.cq
  rw [hcq] at hcq'
  cases hcq'
  rw [h.out_eq, h'.out_eq]

theorem pass_rightUnique : Relator.RightUnique (Pass maxEvents env : LoopState C → LoopState C → Prop) := by
  rintro st x y ⟨cqe, out, hit, -, rfl⟩ ⟨cqe', out', hit', -, rfl⟩
  rw [hit.unique hit']

theorem Ended.not_iteration (h : Ended maxEvents env st) {cqe : Cqe} {out : HandlerOut C} :
    ¬ Iteration maxEvents (env.iter st.iterationCount) st cqe out := by
  intro hit
  obtain ⟨rest, hcq⟩ := hit.cq
  rcases h with hnil | hfull
  · rw [hnil] at hcq
    cases hcq
  · exact Nat.not_le_of_lt hit.room hfull

theorem Ended.not_pass (h : Ended maxEvents env st) : ¬ Pass maxEvents env st st' := by
  rintro ⟨cqe, out, hit, -, -⟩
  exact h.not_iteration hit

theorem Ended.eq_of_passes (h : Ended maxEvents env st) (hr : ReflTransGen (Pass maxEvents env) st st') : st' = st := by
  rcases hr.cases_head with heq | ⟨x, hpass, -⟩
  · exact heq.symm
  · exact absurd hpass h.not_pass

/-- A loop ends in one state only. -/
theorem Ended.unique {st₀ : LoopState C} (hr : ReflTransGen (Pass maxEvents env) st₀ st) (h : Ended maxEvents env st)
    (hr' : ReflTransGen (Pass maxEvents env) st₀ st') (h' : Ended maxEvents env st') : st = st' := by
  rcases ReflTransGen.total_of_right_unique pass_rightUnique hr hr' with hrest | hrest
  · exact (h.eq_of_passes hrest).symm
  · exact h'.eq_of_passes hrest

theorem NoHandlerFailsFrom.of_ended (h : Ended maxEvents env st) : NoHandlerFailsFrom maxEvents env st := by
  intro st' cqe out hr hit
  obtain rfl := h.eq_of_passes hr
  exact absurd hit h.not_iteration

theorem NoHandlerFailsFrom.of_iteration (cqe : Cqe) {out : HandlerOut C}
    (hit : Iteration maxEvents (env.iter st.iterationCount) st cqe out) (herr : ¬ out.err < 0)
    (hrest : NoHandlerFailsFrom maxEvents env (st.next (env.iter st.iterationCount) out)) :
    NoHandlerFailsFrom maxEvents env st := by
  intro st' cqe' out' hr hit'
  rcases hr.cases_head with rfl | ⟨x, hpass, hr'⟩
  · rw [hit'.unique hit]
    exact herr
  · obtain rfl := pass_rightUnique hpass ⟨cqe, out, hit, herr, rfl⟩
    exact hrest st' cqe' out' hr' hit'

/-- Without a failing handler the call is a sequence of passes to an end of the loop. -/
theorem NoHandlerFails.passes (hok : NoHandlerFails maxEvents env m) (hentries : 2 ≤ m.ring.cqEntries) :
    ∃ st, ReflTransGen (Pass maxEvents env) (loopStart m) st ∧ Ended maxEvents env st ∧
      2 ≤ st.mcon.ring.cqEntries ∧ cqeLoopResult m maxEvents env = st.stopped (env.iter st.iterationCount) := by
  refine cqeLoop_rule_fuel
    (fun _ st => 2 ≤ st.mcon.ring.cqEntries ∧ ReflTransGen (Pass maxEvents env) (loopStart m) st)
    (fun st' => ∃ st, ReflTransGen (Pass maxEvents env) (loopStart m) st ∧ Ended maxEvents env st ∧
      2 ≤ st.mcon.ring.cqEntries ∧ st' = st.stopped (env.iter st.iterationCount))
    (fun _ _ hst => hst.1) ?_ ?_ ?_ (Option.some_get _).symm ⟨hentries, .refl⟩
  · rintro fuel st ⟨hentries, hr⟩ hend
    exact ⟨st, hr, hend, hentries, rfl⟩
  · rintro fuel st cqe out ⟨hentries, hr⟩ hit herr
    exact ⟨hit.next_cqEntries hentries herr, hr.tail ⟨cqe, out, hit, herr, rfl⟩⟩
  · rintro fuel st cqe out ⟨-, hr⟩ hit herr
    exact absurd herr (hok st cqe out hr hit)

theorem peeked_cq (hpost : env.PostsNothing) (st : LoopState C) :
    (st.peeked (env.iter st.iterationCount)).ring.cq = st.mcon.ring.cq :=
  cq_eq_of_visible (visible_moveRing (hpost.beforePeek _) _)

/-- One pass consumes the oldest completion. -/
theorem Pass.consumes (hpost : env.PostsNothing) (h : Pass maxEvents env st st') :
    ∃ cqe events, st.mcon.ring.cq = cqe :: st'.mcon.ring.cq ∧ st'.events = st.events ++ events ∧
      ReportedInOrder [cqe] events ∧ st'.eventCount = st.eventCount + events.length ∧ st'.eventCount ≤ maxEvents := by
  obtain ⟨cqe, out, ⟨hroom, ⟨rest, hcq⟩, rfl⟩, herr, rfl⟩ := h
  have hring := processCqe_ring _ cqe (Nat.sub_pos_of_lt hroom) _ herr
  obtain ⟨hcount, hreported⟩ := reported_processCqe (Nat.sub_pos_of_lt hroom) herr
  have hpeeked := peeked_cq hpost st
  have hlen := hreported.length_eq
  have hle := List.length_filter_le (fun cqe => decide ¬ cqe.Again) [cqe]
  generalize processCqe (st.peeked (env.iter st.iterationCount)) cqe (maxEvents - st.eventCount)
    (env.iter st.iterationCount).addErr = out at *
  have hnext : (st.next (env.iter st.iterationCount) out).mcon.ring.cq = rest := by
    rw [LoopState.next, cq_eq_of_visible (visible_moveRing (hpost.beforeNextPeek _) _)]
    show out.mcon.ring.cq = rest
    rw [hring, Ring.ioUringCqeSeen, hcq, List.tail_cons]
  have htoNat : out.err.toNat = out.events.length := by omega
  refine ⟨cqe, out.events, ?_, rfl, hreported, ?_, ?_⟩
  · rw [hnext, ← hpeeked, hcq]
  · rw [LoopState.next, htoNat]
  · simp only [LoopState.next, htoNat]
    rw [List.length_singleton] at hle
    omega

/-- Passes consume the oldest completions in order. -/
theorem passes_consume (hpost : env.PostsNothing) (hle : st.eventCount ≤ maxEvents)
    (hr : ReflTransGen (Pass maxEvents env) st st') :
    ∃ consumed events, st.mcon.ring.cq = consumed ++ st'.mcon.ring.cq ∧ st'.events = st.events ++ events ∧
      ReportedInOrder consumed events ∧ st'.eventCount = st.eventCount + events.length ∧
      st'.eventCount ≤ maxEvents := by
  induction hr with
  | refl => exact ⟨[], [], rfl, (List.append_nil _).symm, .nil, rfl, hle⟩
  | tail _ hpass ih =>
    obtain ⟨consumed, events, hcq, hevents, hreported, hcount, -⟩ := ih
    obtain ⟨cqe, events', hcq', hevents', hreported', hcount', hle'⟩ := hpass.consumes hpost
    refine ⟨consumed ++ [cqe], events ++ events', ?_, ?_, hreported.append hreported', ?_, hle'⟩
    · rw [hcq, hcq', List.append_assoc, List.singleton_append]
    · rw [hevents', hevents, List.append_assoc]
    · rw [hcount', hcount, List.length_append, Nat.add_assoc]

end Loop

/-! ### Two loops in lockstep -/

/-- The loop in the state `x` has done what the one in the state `z` has done, after some events and iterations. -/
structure Lockstep (events : List Event) (iterations : Nat) (x z : LoopState C) : Prop where
  mcon : x.mcon.visible = z.mcon.visible
  eventCount : x.eventCount = events.length + z.eventCount
  iterationCount : x.iterationCount = iterations + z.iterationCount
  events_eq : x.events = events ++ z.events

section Lockstep

variable {events : List Event} {iterations c d : Nat} {env env' : UringEnv} {x z : LoopState C}

/-- An iteration of the one is an iteration of the other. -/
theorem Lockstep.iteration (hl : Lockstep events iterations x z) (hpost : env.PostsNothing) (hpost' : env'.PostsNothing)
    (hanswers : ∀ j, (env'.iter j).addErr = (env.iter (iterations + j)).addErr) (hroom : events.length + d ≤ c)
    {cqe : Cqe} {out' : HandlerOut C} (hit : Iteration d (env'.iter z.iterationCount) z cqe out') :
    ∃ out, Iteration c (env.iter x.iterationCount) x cqe out ∧ out.err = out'.err ∧
      Lockstep events iterations (x.next (env.iter x.iterationCount) out)
        (z.next (env'.iter z.iterationCount) out') := by
  obtain ⟨hroom', ⟨rest, hcq⟩, rfl⟩ := hit
  have hpeeked : (x.peeked (env.iter x.iterationCount)).visible = (z.peeked (env'.iter z.iterationCount)).visible := by
    rw [LoopState.peeked, LoopState.peeked, visible_moveRing (hpost.beforePeek _),
      visible_moveRing (hpost'.beforePeek _), hl.mcon]
  have hxroom : x.eventCount < c := by
    have := hl.eventCount
    omega
  -- the handlers are given the same, but for the room, which is enough in both
  have hout : ∀ n, processCqe (x.peeked (env.iter x.iterationCount)).visible cqe n
      (env.iter x.iterationCount).addErr =
        processCqe (z.peeked (env'.iter z.iterationCount)).visible cqe n (env'.iter z.iterationCount).addErr := by
    intro n
    rw [hpeeked, hanswers, ← hl.iterationCount]
  have hsame := hout (c - x.eventCount)
  rw [processCqe_room (Nat.sub_pos_of_lt hxroom) (Nat.sub_pos_of_lt hroom') (z.peeked _).visible,
    processCqe_visible, processCqe_visible, HandlerOut.mk.injEq] at hsame
  obtain ⟨herr, hmcon, hevents, -⟩ := hsame
  refine ⟨_, ⟨hxroom, ⟨rest, ?_⟩, rfl⟩, herr, ?_, ?_, ?_, ?_⟩
  · rw [cq_eq_of_visible hpeeked, hcq]
  · have hcounted : ∀ m m' : Instance C, m.visible = m'.visible → (countDown m).visible = (countDown m').visible :=
      fun m m' h => by
        show countDown m.visible = countDown m'.visible
        rw [h]
    simp only [LoopState.next]
    rw [visible_moveRing (hpost.beforeNextPeek _), visible_moveRing (hpost'.beforeNextPeek _)]
    exact hcounted _ _ hmcon
  · simp only [LoopState.next]
    rw [herr, hl.eventCount, Nat.add_assoc]
  · simp only [LoopState.next]
    rw [hl.iterationCount, Nat.add_assoc]
  · simp only [LoopState.next]
    rw [hevents, hl.events_eq, List.append_assoc]

/-- The passes of the one are passes of the other. -/
theorem Lockstep.passes {z₀ : LoopState C} {x₀ : LoopState C} (hl : Lockstep events iterations x₀ z₀)
    (hpost : env.PostsNothing) (hpost' : env'.PostsNothing)
    (hanswers : ∀ j, (env'.iter j).addErr = (env.iter (iterations + j)).addErr) (hroom : events.length + d ≤ c)
    (hr : ReflTransGen (Pass d env') z₀ z) :
    ∃ x, ReflTransGen (Pass c env) x₀ x ∧ Lockstep events iterations x z := by
  induction hr with
  | refl => exact ⟨x₀, .refl, hl⟩
  | tail _ hpass ih =>
    obtain ⟨x, hx, hl⟩ := ih
    obtain ⟨cqe, out', hit, herr, rfl⟩ := hpass
    obtain ⟨out, hit', heq, hl'⟩ := hl.iteration hpost hpost' hanswers hroom hit
    exact ⟨_, hx.tail ⟨cqe, out, hit', heq ▸ herr, rfl⟩, hl'⟩

end Lockstep

/-! ### Two calls -/

/-- The completions consumed are the oldest ones, and the events are theirs, in order. -/
def ConsumesOldest (m m' : Instance C) (events : List Event) : Prop :=
  ∃ consumed, m.ring.cq = consumed ++ m'.ring.cq ∧ ReportedInOrder consumed events

/-- What a call without a failing handler does, in terms of the state its loop ends in. -/
structure EndsIn (maxEvents : Nat) (env : UringEnv) (m : Instance C) (st : LoopState C) : Prop where
  passes : ReflTransGen (Pass maxEvents env) (loopStart m) st
  ended : Ended maxEvents env st
  cqEntries : 2 ≤ st.mcon.ring.cqEntries
  eventCount : st.eventCount = st.events.length
  room : st.eventCount ≤ maxEvents
  iterationCount : (cqeLoopResult m maxEvents env).iterationCount = st.iterationCount
  visible : (mconProcessIoUringEvent m maxEvents env).1.visible = st.mcon.visible
  rc : (mconProcessIoUringEvent m maxEvents env).2.rc = st.events.length
  reported : (mconProcessIoUringEvent m maxEvents env).2.reported = st.events
  consumes : ConsumesOldest m (mconProcessIoUringEvent m maxEvents env).1 st.events

theorem NoHandlerFails.endsIn {maxEvents : Nat} {env : UringEnv} (hok : NoHandlerFails maxEvents env m)
    (hpost : env.PostsNothing) (hentries : 2 ≤ m.ring.cqEntries) : ∃ st, EndsIn maxEvents env m st := by
  obtain ⟨st, hr, hend, hentries', hloop⟩ := hok.passes hentries
  obtain ⟨consumed, events, hcq, hevents, hreported, hcount, hle⟩ := passes_consume hpost (Nat.zero_le _) hr
  rw [loopStart, List.nil_append] at hevents
  rw [loopStart, Nat.zero_add, ← hevents] at hcount
  have hvisible : (mconProcessIoUringEvent m maxEvents env).1.visible = st.mcon.visible := by
    rw [visible_processIoUringEvent hpost, hloop]
    exact visible_moveRing (hpost.beforePeek _) _
  have hrc : (mconProcessIoUringEvent m maxEvents env).2.rc = st.events.length := by
    rw [processIoUringEvent_rc, hloop, ← hcount]
    rfl
  refine ⟨st, hr, hend, hentries', hcount, hle, by rw [hloop]; rfl, hvisible, hrc, ?_, consumed, ?_,
    hevents ▸ hreported⟩
  · rw [Output.reported, hrc, processIoUringEvent_events, hloop, Int.toNat_natCast]
    exact List.take_length
  · rw [cq_eq_of_visible hvisible]
    exact hcq

/-- A call whose loop starts in lockstep with one in which no handler fails stays in lockstep to its end. -/
theorem Lockstep.follows {events : List Event} {iterations c d : Nat} {env env' : UringEnv} {x₀ : LoopState C}
    (hl : Lockstep events iterations x₀ (loopStart m')) (hok : NoHandlerFails c env m)
    (hr : ReflTransGen (Pass c env) (loopStart m) x₀) (hpost : env.PostsNothing) (hpost' : env'.PostsNothing)
    (hanswers : ∀ j, (env'.iter j).addErr = (env.iter (iterations + j)).addErr) (hroom : events.length + d ≤ c)
    (hentries : 2 ≤ m'.ring.cqEntries) :
    ∃ x z, EndsIn d env' m' z ∧ ReflTransGen (Pass c env) (loopStart m) x ∧ Lockstep events iterations x z := by
  have hok' : NoHandlerFails d env' m' := by
    intro z cqe out' hz hit
    obtain ⟨x, hx, hl'⟩ := hl.passes hpost hpost' hanswers hroom hz
    obtain ⟨out, hit', heq, -⟩ := hl'.iteration hpost hpost' hanswers hroom hit
    rw [← heq]
    exact hok x cqe out (hr.trans hx) hit'
  obtain ⟨z, hz⟩ := hok'.endsIn hpost' hentries
  obtain ⟨x, hx, hl'⟩ := hl.passes hpost hpost' hanswers hroom hz.passes
  exact ⟨x, z, hz, hr.trans hx, hl'⟩

theorem EndsIn.cqEntries_after {maxEvents : Nat} {env : UringEnv} {st : LoopState C} (h : EndsIn maxEvents env m st) :
    2 ≤ (mconProcessIoUringEvent m maxEvents env).1.ring.cqEntries := by
  have heq : (mconProcessIoUringEvent m maxEvents env).1.visible.ring.cqEntries = st.mcon.visible.ring.cqEntries := by
    rw [h.visible]
  exact heq ▸ h.cqEntries

/-- A loop that has gone along with that of a first call is in lockstep with the start of a second one. -/
theorem Lockstep.restart {maxEvents : Nat} {env : UringEnv} {x z : LoopState C} (hl : Lockstep [] 0 x z)
    (hz : EndsIn maxEvents env m z) :
    Lockstep z.events z.iterationCount x (loopStart (mconProcessIoUringEvent m maxEvents env).1) := by
  refine ⟨hl.mcon.trans hz.visible.symm, ?_, ?_, ?_⟩
  · rw [hl.eventCount, hz.eventCount, List.length_nil, Nat.zero_add]
    rfl
  · rw [hl.iterationCount, Nat.zero_add]
    rfl
  · rw [hl.events_eq]
    exact (List.append_nil _).symm

/-- Where both calls have ended, so has the one with the room of both. -/
theorem Lockstep.ended {a b iterations : Nat} {env env₁ env₂ : UringEnv} {x z z' : LoopState C}
    (hpost : env.PostsNothing) (hpost₁ : env₁.PostsNothing) (hpost₂ : env₂.PostsNothing) (hz : EndsIn a env₁ m z)
    (hz' : EndsIn b env₂ (mconProcessIoUringEvent m a env₁).1 z') (hl : Lockstep z.events iterations x z') :
    Ended (a + b) env x := by
  rw [Ended, peeked_cq hpost, cq_eq_of_visible hl.mcon, hl.eventCount]
  have hend := hz.ended
  have hend' := hz'.ended
  rw [Ended, peeked_cq hpost₁, ← cq_eq_of_visible hz.visible, hz.eventCount] at hend
  rw [Ended, peeked_cq hpost₂] at hend'
  rcases hend' with hnil | hfull'
  · exact .inl hnil
  rcases hend with hnil | hfull
  · -- the first call has left nothing to the second
    obtain ⟨consumed, hcq, -⟩ := hz'.consumes
    rw [hnil] at hcq
    left
    rw [← cq_eq_of_visible hz'.visible]
    exact (List.append_eq_nil_iff.1 hcq.symm).2
  · right
    omega

/-- A call with room for `a + b` events does what a call with room for `a` and one with room for `b` do one after the
other, if no completion arrives, no handler of the one call fails, and the kernel answers the registrations of the two
calls as it does those of the one.  All of them consume the oldest completions in order. -/
theorem completions_do_not_depend_on_capacity {h : History} (he : Execution anyInput h m) {a b : Nat}
    {env env₁ env₂ : UringEnv} (hpost : env.PostsNothing) (hpost₁ : env₁.PostsNothing) (hpost₂ : env₂.PostsNothing)
    (hanswers₁ : ∀ j, (env₁.iter j).addErr = (env.iter j).addErr)
    (hanswers₂ : ∀ j, (env₂.iter j).addErr = (env.iter ((cqeLoopResult m a env₁).iterationCount + j)).addErr)
    (hok : NoHandlerFails (a + b) env m) :
    let one := mconProcessIoUringEvent m (a + b) env
    let first := mconProcessIoUringEvent m a env₁
    let second := mconProcessIoUringEvent first.1 b env₂
    one.2.reported = first.2.reported ++ second.2.reported ∧ one.2.rc = first.2.rc + second.2.rc ∧
      one.1.visible = second.1.visible ∧ ConsumesOldest m one.1 one.2.reported ∧
      ConsumesOldest m first.1 first.2.reported ∧ ConsumesOldest first.1 second.1 second.2.reported := by
  intro one first second
  have hentries := he.wellFormed.cq_entries
  obtain ⟨w, hw⟩ := hok.endsIn hpost hentries
  -- the first call goes along with the beginning of the one
  have hl₁ : Lockstep [] 0 (loopStart m) (loopStart m) := ⟨rfl, (Nat.zero_add _).symm, (Nat.zero_add _).symm, rfl⟩
  obtain ⟨x, z, hz, hx, hlx⟩ := hl₁.follows hok .refl hpost hpost₁ (fun j => by rw [hanswers₁, Nat.zero_add])
    (show ([] : List Event).length + a ≤ a + b by simp) hentries
  -- and the second with the rest
  have hroom₂ : z.events.length + b ≤ a + b := by
    have := hz.room
    have := hz.eventCount
    omega
  rw [hz.iterationCount] at hanswers₂
  obtain ⟨x', z', hz', hx', hlx'⟩ := (hlx.restart hz).follows hok hx hpost hpost₂ hanswers₂ hroom₂
    hz.cqEntries_after
  obtain rfl : w = x' := hw.ended.unique hw.passes hx' (hlx'.ended hpost hpost₁ hpost₂ hz hz')
  have hevents : w.events = z.events ++ z'.events := hlx'.events_eq
  have hreported : one.2.reported = first.2.reported ++ second.2.reported := by
    rw [hw.reported, hz.reported, hz'.reported, hevents]
  refine ⟨hreported, ?_, ?_, ?_, ?_, ?_⟩
  · rw [hw.rc, hz.rc, hz'.rc, hevents, List.length_append]
    omega
  · rw [hw.visible, hz'.visible]
    exact hlx'.mcon
  · exact hw.reported ▸ hw.consumes
  · exact hz.reported ▸ hz.consumes
  · exact hz'.reported ▸ hz'.consumes

/-- The inputs after which the completions of an accept that found no connection, of a write and of a read wait in the
CQ ring. -/
def transferInputs : List Input :=
  startInput :: serverInput :: connectInputs 20 ++
    [.read 0 0 16, .write 0 0 16, .submit 3, .kernel (.exec 2 (-Errno.eagain)), .kernel (.exec 0 16),
      .kernel (.exec 0 8), .kernel (.post 0), .kernel (.post 0), .kernel (.post 0)]

/-- Two events at once, or one after the other. -/
theorem completions_do_not_depend_on_capacity_transfers :
    let m := finalState step (freshInstance (smallConfig 2 4 1)) transferInputs
    let first := mconProcessIoUringEvent m 1 .quiet
    (mconProcessIoUringEvent m 2 .quiet).2.reported =
      first.2.reported ++ (mconProcessIoUringEvent first.1 1 .quiet).2.reported := by
  intro m first
  have hrun : Execution anyInput _ _ := Execution.of_inputs (smallConfig 2 4 1) (by decide) transferInputs
    (.of_forall (fun _ _ _ => trivial) _)
  have hquiet : UringEnv.quiet.PostsNothing := by
    constructor <;> simp [PostsNothing, UringEnv.quiet]
  have hok : NoHandlerFails (1 + 1) .quiet m := by
    refine .of_iteration ⟨⟨.accept, mconNoSession⟩, -11⟩ ⟨by decide, ⟨_, rfl⟩, rfl⟩ (by decide) ?_
    refine .of_iteration ⟨⟨.write, 0⟩, 16⟩ ⟨by decide, ⟨_, rfl⟩, rfl⟩ (by decide) ?_
    refine .of_iteration ⟨⟨.read, 0⟩, 8⟩ ⟨by decide, ⟨_, rfl⟩, rfl⟩ (by decide) ?_
    exact .of_ended (.inl (by decide))
  exact (completions_do_not_depend_on_capacity hrun hquiet hquiet hquiet (fun _ => rfl) (fun _ => rfl) hok).1

end Mcon
