import Mcon.EventBounds
import Mcon.SessionEvents
import Mcon.SessionRecords

/-!
# The events of one call

A call applies all its completions before the application sees the first event, and the free stack gives out the slot
that came back last.  So a slot that is closed in a call is given out again by the next connection accepted in the same
call, and its close is reported while the slot is in use.
-/

namespace Mcon

open Transition (Run AllOk history finalState)

variable {C : Ctools} {m m' : Instance C}

/-! ### The completions of a call -/

/-- The completion of an accept that brings a connection. -/
def Cqe.Opens (cqe : Cqe) : Prop := cqe.userData.operation = .accept ∧ 0 ≤ cqe.res

/-- What is left of the room of an array and of the free slots after a completion: the number of events stored and of
free slots, or `none` if the completion cannot be handled. -/
def Cqe.outcome (cqe : Cqe) (free : Nat) (addErr : Option Int) : Option (Nat × Nat) :=
  match cqe.userData.operation with
  | .accept =>
    if cqe.res = -Errno.eagain then some (0, free)
    else if cqe.res < 0 then some (1, free)
    else if free = 0 ∨ addErr ≠ none then none
    else some (1, free - 1)
  | .read | .write | .drain => some (1, free)
  | .close => some (1, free + 1)
  | .unknown => none

/-- The completions a call handles, in order, from the ring, the room of the array and the number of free slots. -/
def batch (env : UringEnv) : Nat → Nat → Nat → Nat → Ring → List Cqe
  | 0, _, _, _, _ => []
  | fuel + 1, j, room, free, r =>
    let peeked := (r.applyAll (env.iter j).beforePeek).1
    match peeked.cq with
    | [] => []
    | cqe :: _ =>
      if room = 0 then []
      else
        match cqe.outcome free (env.iter j).addErr with
        | none => []
        | some (stored, free') =>
          cqe :: batch env fuel (j + 1) (room - stored) free'
            (peeked.ioUringCqeSeen.applyAll (env.iter j).beforeNextPeek).1

/-- No connection is opened after a close. -/
def OpensBeforeCloses (cqes : List Cqe) : Prop :=
  cqes.Pairwise fun cqe cqe' => cqe.userData.operation = .close → ¬ cqe'.Opens

instance (cqe : Cqe) : Decidable cqe.Opens := inferInstanceAs (Decidable (_ ∧ _))

instance (cqes : List Cqe) : Decidable (OpensBeforeCloses cqes) := inferInstanceAs (Decidable (List.Pairwise _ cqes))

/-- The event of a connection that was opened. -/
def Event.Opens (e : Event) : Prop := e.type = .newConnection ∧ 0 ≤ e.result

/-- The number of free slots. -/
def freeSlots (m : Instance C) : Nat := C.idxStack.size m.sessionFreeStack

/-- What a handler does with a completion: it fails and stores nothing, leaves the free stack alone, takes the slot on
the top of it, or puts one there. -/
inductive Handles (m : Instance C) (cqe : Cqe) (addErr : Option Int) (out : HandlerOut C) : Prop
  | failed : out.err < 0 → out.events = [] → cqe.outcome (freeSlots m) addErr = none → Handles m cqe addErr out
  | kept : ¬ out.err < 0 → cqe.outcome (freeSlots m) addErr = some (out.err.toNat, freeSlots out.mcon) →
      cqe.userData.operation ≠ .close → ¬ cqe.Opens →
      (∀ e ∈ out.events, e.type ≠ .closeComplete ∧ ¬ e.Opens) →
      out.mcon.sessionFreeStack = m.sessionFreeStack → Handles m cqe addErr out
  | opened (s : Nat) : ¬ out.err < 0 → cqe.outcome (freeSlots m) addErr = some (out.err.toNat, freeSlots out.mcon) →
      cqe.Opens → out.events = [⟨cqe.res, s, .newConnection⟩] →
      C.idxStack.contents m.sessionFreeStack = s :: C.idxStack.contents out.mcon.sessionFreeStack →
      Handles m cqe addErr out
  | closed (s : Nat) : ¬ out.err < 0 → cqe.outcome (freeSlots m) addErr = some (out.err.toNat, freeSlots out.mcon) →
      cqe.userData.operation = .close → out.events = [⟨cqe.res, s, .closeComplete⟩] →
      C.idxStack.contents out.mcon.sessionFreeStack = s :: C.idxStack.contents m.sessionFreeStack →
      Handles m cqe addErr out

variable {cqe : Cqe} {maxEvents : Nat}

private theorem handles_accept (hop : cqe.userData.operation = .accept) (hroom : ¬ maxEvents < 1)
    (addErr : Option Int) : Handles m cqe addErr (processAccept m cqe maxEvents addErr) := by
  have hclose : cqe.userData.operation ≠ .close := by rw [hop]; simp
  unfold processAccept
  by_cases hagain : cqe.res = -Errno.eagain
  · have hnot : ¬ cqe.Opens := fun h => by
      have := h.2
      rw [hagain] at this
      exact absurd this (by decide)
    rw [if_pos hagain]
    refine .kept (by simp) ?_ hclose hnot (by simp) rfl
    simp [Cqe.outcome, hop, hagain, freeSlots, acceptSeen, Instance.cqeSeen]
  rw [if_neg hagain, if_neg hroom]
  dsimp only
  by_cases hres : cqe.res < 0
  · have hnot : ¬ cqe.Opens := fun h => by
      have := h.2
      omega
    rw [if_pos hres]
    refine .kept (by simp) ?_ hclose hnot ?_ rfl
    · simp [Cqe.outcome, hop, hagain, hres, freeSlots, acceptSeen, Instance.cqeSeen, requestAccepts]
    · simp [Event.Opens, hres]
  rw [if_neg hres]
  have hopens : cqe.Opens := ⟨hop, by omega⟩
  have hsize : ∀ stack : C.idxStack.Carrier, C.idxStack.size stack = (C.idxStack.contents stack).length :=
    C.idxStack.size_eq
  split
  · rename_i hpop
    have hempty : freeSlots m = 0 := by
      rw [freeSlots, hsize, List.length_eq_zero_iff]
      exact (C.idxStack.pop_eq_none _).1 hpop
    exact .failed (by simp) rfl (by simp [Cqe.outcome, hop, hagain, hres, hempty])
  · rename_i s stack hpop
    have hcontents : C.idxStack.contents m.sessionFreeStack = s :: C.idxStack.contents stack :=
      C.idxStack.contents_pop _ _ _ hpop
    have hfree : C.idxStack.size m.sessionFreeStack = C.idxStack.size stack + 1 := by
      rw [hsize, hsize, hcontents, List.length_cons]
    cases addErr with
    | none =>
      refine .opened s (by simp) ?_ hopens rfl hcontents
      simp [Cqe.outcome, hop, hagain, hres, hfree, freeSlots, sessionPrepForNewClient]
    | some err =>
      dsimp only
      split
      · exact .failed (by simp) rfl (by simp [Cqe.outcome, hop, hagain, hres])
      · exact .failed (by simp) rfl (by simp [Cqe.outcome, hop, hagain, hres])

private theorem handles_transfer (type : EventType) (bits : UInt8) (hroom : ¬ maxEvents < 1) (addErr : Option Int)
    (hoperation : cqe.userData.operation = .read ∨ cqe.userData.operation = .write ∨ cqe.userData.operation = .drain)
    (htype : type ≠ .closeComplete ∧ type ≠ .newConnection) :
    Handles m cqe addErr (processTransfer type bits m cqe cqe.userData maxEvents) := by
  have houtcome : cqe.outcome (freeSlots m) addErr = some (1, freeSlots m) := by
    rcases hoperation with h | h | h <;> simp [Cqe.outcome, h]
  have hclose : cqe.userData.operation ≠ .close ∧ cqe.userData.operation ≠ .accept := by
    rcases hoperation with h | h | h <;> simp [h]
  unfold processTransfer
  rw [if_neg hroom]
  refine .kept (by simp) houtcome hclose.1 (fun h => hclose.2 h.1) ?_ rfl
  simp [Event.Opens, htype]

private theorem handles_close (hop : cqe.userData.operation = .close) (hroom : ¬ maxEvents < 1) (addErr : Option Int)
    (hpush : (C.idxStack.push m.sessionFreeStack cqe.userData.session).isSome) :
    Handles m cqe addErr (processClose m cqe cqe.userData maxEvents) := by
  obtain ⟨stack, hpush⟩ := Option.isSome_iff_exists.1 hpush
  have hcontents := C.idxStack.contents_push _ _ _ hpush
  have hfree : C.idxStack.size stack = C.idxStack.size m.sessionFreeStack + 1 := by
    rw [C.idxStack.size_eq, C.idxStack.size_eq, hcontents, List.length_cons]
  unfold processClose
  rw [if_neg hroom]
  dsimp only
  rw [hpush]
  have hstack : (closeDone m cqe.userData.session stack).sessionFreeStack = stack := closeDone_freeStack _ _ _
  refine .closed cqe.userData.session (by simp) ?_ hop rfl ?_
  · show cqe.outcome (freeSlots m) addErr = some (1, freeSlots (closeDone m cqe.userData.session stack))
    simp [Cqe.outcome, hop, freeSlots, hfree]
  · show C.idxStack.contents (closeDone m cqe.userData.session stack).sessionFreeStack = _
    rw [hstack, hcontents]

theorem handles_processCqe (hroom : 0 < maxEvents) (addErr : Option Int)
    (hpush : cqe.userData.operation = .close → (C.idxStack.push m.sessionFreeStack cqe.userData.session).isSome) :
    Handles m cqe addErr (processCqe m cqe maxEvents addErr) := by
  have hroom' : ¬ maxEvents < 1 := by omega
  unfold processCqe
  split <;> rename_i hop
  · exact handles_accept hop hroom' addErr
  · exact handles_transfer _ _ hroom' addErr (.inl hop) (by simp)
  · exact handles_transfer _ _ hroom' addErr (.inr (.inl hop)) (by simp)
  · exact handles_transfer _ _ hroom' addErr (.inr (.inr hop)) (by simp)
  · exact handles_close hop hroom' addErr (hpush hop)
  · exact .failed (by simp) rfl (by simp [Cqe.outcome, hop])

/-! ### The events of a batch -/

/-- No slot that is reported closed is opened later in the list. -/
def ClosedStay (events : List Event) : Prop :=
  events.Pairwise fun e e' => e.type = .closeComplete → e'.Opens → e'.session ≠ e.session

def ReportsClose (events : List Event) : Prop := ∃ e ∈ events, e.type = .closeComplete

/-- The slot on the top of the free stack is one that was reported closed. -/
def TopClosed (m : Instance C) (events : List Event) : Prop :=
  ∃ e ∈ events, e.type = .closeComplete ∧ (C.idxStack.contents m.sessionFreeStack).head? = some e.session

/-- What is left of the condition on a batch after the events stored so far. -/
def Remains (events : List Event) (cqes : List Cqe) : Prop :=
  ClosedStay events ∧ (ReportsClose events → ∀ cqe ∈ cqes, ¬ cqe.Opens) ∧ OpensBeforeCloses cqes

theorem closedStay_snoc {events : List Event} {e : Event} :
    ClosedStay (events ++ [e]) ↔
      ClosedStay events ∧ ∀ e' ∈ events, e'.type = .closeComplete → e.Opens → e.session ≠ e'.session := by
  simp [ClosedStay, List.pairwise_append]

theorem reportsClose_append {events events' : List Event} :
    ReportsClose (events ++ events') ↔ ReportsClose events ∨ ReportsClose events' := by
  simp [ReportsClose, List.mem_append, or_and_right, exists_or]

/-- Events that neither close nor open a slot change nothing. -/
theorem closedStay_append_of_kept (events : List Event) {events' : List Event}
    (h : ∀ e ∈ events', e.type ≠ .closeComplete ∧ ¬ e.Opens) :
    (ClosedStay (events ++ events') ↔ ClosedStay events) ∧
      (ReportsClose (events ++ events') ↔ ReportsClose events) := by
  constructor
  · rw [ClosedStay, List.pairwise_append]
    refine ⟨fun hall => hall.1, fun hstay => ⟨hstay, ?_, fun e _ e' he' _ hopens => absurd hopens (h e' he').2⟩⟩
    exact List.pairwise_of_forall_mem_list fun e he _ _ hclose => absurd hclose (h e he).1
  · rw [reportsClose_append]
    refine ⟨fun hclose => hclose.resolve_right ?_, .inl⟩
    rintro ⟨e, he, hclose⟩
    exact (h e he).1 hclose

/-- One completion. -/
theorem Handles.remains {addErr : Option Int} {out : HandlerOut C} {events : List Event} {cqes : List Cqe}
    (h : Handles m cqe addErr out) (herr : ¬ out.err < 0)
    (htop : ReportsClose events → ClosedStay events → TopClosed m events) :
    (Remains (events ++ out.events) cqes ↔ Remains events (cqe :: cqes)) ∧
      (ReportsClose (events ++ out.events) → ClosedStay (events ++ out.events) →
        TopClosed out.mcon (events ++ out.events)) := by
  have hcons : OpensBeforeCloses (cqe :: cqes) ↔
      (cqe.userData.operation = .close → ∀ cqe' ∈ cqes, ¬ cqe'.Opens) ∧ OpensBeforeCloses cqes := by
    rw [OpensBeforeCloses, List.pairwise_cons, OpensBeforeCloses]
    exact and_congr_left' ⟨fun hall hclose cqe' hmem => hall cqe' hmem hclose,
      fun hall cqe' hmem hclose => hall hclose cqe' hmem⟩
  unfold Remains
  rw [hcons, List.forall_mem_cons]
  cases h with
  | failed hneg => exact absurd hneg herr
  | kept _ _ hclose hopens hevents hstack =>
    obtain ⟨hstay, hreports⟩ := closedStay_append_of_kept events hevents
    rw [hstay, hreports]
    refine ⟨?_, fun hc hs => ?_⟩
    · simp [hclose, hopens]
    · obtain ⟨e, he, htype, hhead⟩ := htop hc hs
      exact ⟨e, List.mem_append_left _ he, htype, by rw [hstack, hhead]⟩
  | opened s _ _ hopens hevents hcontents =>
    have hnew : Event.Opens ⟨cqe.res, s, .newConnection⟩ := ⟨rfl, hopens.2⟩
    have hclose : cqe.userData.operation ≠ .close := by rw [hopens.1]; simp
    have hreports : ReportsClose (events ++ [⟨cqe.res, s, .newConnection⟩]) ↔ ReportsClose events := by
      simp [ReportsClose]
    rw [hevents, hreports, closedStay_snoc]
    by_cases hc : ReportsClose events
    · -- the slot on the top was reported closed
      have hreused : ClosedStay events → ¬ ∀ e' ∈ events, e'.type = .closeComplete →
          Event.Opens ⟨cqe.res, s, .newConnection⟩ → s ≠ e'.session := by
        intro hs hall
        obtain ⟨e, he, htype, hhead⟩ := htop hc hs
        rw [hcontents, List.head?_cons, Option.some.injEq] at hhead
        exact hall e he htype hnew hhead
      exact ⟨iff_of_false (fun h => hreused h.1.1 h.1.2) fun h => (h.2.1 hc).1 hopens,
        fun _ h => absurd h.2 (hreused h.1)⟩
    · have hnone : ∀ e' ∈ events, e'.type ≠ .closeComplete := fun e' he' htype => hc ⟨e', he', htype⟩
      refine ⟨?_, fun h => absurd h hc⟩
      simp only [hc, hclose, false_implies, true_and]
      exact and_congr_left' (and_iff_left fun e' he' htype => absurd htype (hnone e' he'))
  | closed s _ _ hclose hevents hcontents =>
    have hopens : ¬ cqe.Opens := fun h => by
      have := h.1
      rw [hclose] at this
      cases this
    have hnew : ¬ Event.Opens ⟨cqe.res, s, .closeComplete⟩ := fun h => by cases h.1
    have hreports : ReportsClose (events ++ [⟨cqe.res, s, .closeComplete⟩]) := by
      simp [ReportsClose]
    rw [hevents, closedStay_snoc]
    constructor
    · simp only [hreports, hnew, hopens, hclose, not_false_eq_true, true_and, forall_const, false_implies,
        implies_true, and_true]
      exact and_congr_right fun _ => ⟨fun h => ⟨fun _ => h.1, h⟩, fun h => h.2⟩
    · intro _ _
      refine ⟨⟨cqe.res, s, .closeComplete⟩, List.mem_append_right _ List.mem_cons_self, rfl, ?_⟩
      rw [hcontents, List.head?_cons]

/-! ### The loop -/

/-- An iteration whose handler does not fail takes the first completion of the batch. -/
theorem batch_of_iteration {env : UringEnv} {st : LoopState C} {out : HandlerOut C} (fuel : Nat)
    (hit : Iteration maxEvents (env.iter st.iterationCount) st cqe out) (herr : ¬ out.err < 0)
    (houtcome : cqe.outcome (freeSlots st.mcon) (env.iter st.iterationCount).addErr =
      some (out.err.toNat, freeSlots out.mcon)) :
    batch env (fuel + 1) st.iterationCount (maxEvents - st.eventCount) (freeSlots st.mcon) st.mcon.ring =
      cqe :: batch env fuel (st.iterationCount + 1) (maxEvents - (st.eventCount + out.err.toNat))
        (freeSlots out.mcon) (st.next (env.iter st.iterationCount) out).mcon.ring := by
  obtain ⟨hroom, ⟨rest, hcq⟩, hout⟩ := hit
  have hring : out.mcon.ring = (st.peeked (env.iter st.iterationCount)).ring.ioUringCqeSeen := by
    rw [hout] at herr ⊢
    exact processCqe_ring _ cqe (Nat.sub_pos_of_lt hroom) _ herr
  have hpeeked : (st.mcon.ring.applyAll (env.iter st.iterationCount).beforePeek).1.cq = cqe :: rest := hcq
  have hne : maxEvents - st.eventCount ≠ 0 := by omega
  have hnext : (st.next (env.iter st.iterationCount) out).mcon.ring =
      (out.mcon.ring.applyAll (env.iter st.iterationCount).beforeNextPeek).1 := rfl
  rw [batch, hnext, hring, ← Nat.sub_sub, hpeeked]
  dsimp only
  rw [if_neg hne, houtcome]
  rfl

theorem batch_of_failed {env : UringEnv} {st : LoopState C} {out : HandlerOut C} (fuel : Nat)
    (hit : Iteration maxEvents (env.iter st.iterationCount) st cqe out)
    (houtcome : cqe.outcome (freeSlots st.mcon) (env.iter st.iterationCount).addErr = none) :
    batch env (fuel + 1) st.iterationCount (maxEvents - st.eventCount) (freeSlots st.mcon) st.mcon.ring = [] := by
  obtain ⟨hroom, ⟨rest, hcq⟩, -⟩ := hit
  have hpeeked : (st.mcon.ring.applyAll (env.iter st.iterationCount).beforePeek).1.cq = cqe :: rest := hcq
  have hne : maxEvents - st.eventCount ≠ 0 := by omega
  rw [batch, hpeeked]
  dsimp only
  rw [if_neg hne, houtcome]

theorem batch_of_stopped {env : UringEnv} {st : LoopState C} (fuel : Nat)
    (h : (st.peeked (env.iter st.iterationCount)).ring.cq = [] ∨ maxEvents ≤ st.eventCount) :
    batch env (fuel + 1) st.iterationCount (maxEvents - st.eventCount) (freeSlots st.mcon) st.mcon.ring = [] := by
  rw [batch]
  split
  · rfl
  · rename_i cqe rest hcq
    have hfull : maxEvents ≤ st.eventCount := h.resolve_left fun hempty => by
      have hpeeked : (st.mcon.ring.applyAll (env.iter st.iterationCount).beforePeek).1.cq = [] := hempty
      rw [hcq] at hpeeked
      cases hpeeked
    rw [if_pos (Nat.sub_eq_zero_of_le hfull)]

/-- The close of a slot finds room on the free stack. -/
theorem Sound.push_isSome {n : Nat} (hm : Sound True n m) {rest : List Cqe} (hcq : m.ring.cq = cqe :: rest)
    (hop : cqe.userData.operation = .close) :
    (C.idxStack.push m.sessionFreeStack cqe.userData.session).isSome := by
  obtain ⟨A, hrep⟩ := hm.slots trivial
  have hdata : cqe.userData = SlotOp.close.entry cqe.userData.session := by
    rw [SlotOp.entry, SlotOp.operation, ← hop]
  have hmem : SlotOp.close.entry cqe.userData.session ∈ m.outstanding := by
    rw [(outstanding_cqeSeen m hcq).mem_iff, ← hdata]
    exact List.mem_cons_self
  have hclosing := Slot.eq_closing_of_pending (hrep.pending_of_mem hmem)
  obtain ⟨stack, hsome⟩ := hrep.push_isSome hm.wellFormed (by rw [hclosing]; simp)
  rw [hsome]
  rfl

theorem Handles.outcome_eq {addErr : Option Int} {out : HandlerOut C} (h : Handles m cqe addErr out)
    (herr : ¬ out.err < 0) : cqe.outcome (freeSlots m) addErr = some (out.err.toNat, freeSlots out.mcon) := by
  cases h with
  | failed hneg => exact absurd hneg herr
  | kept _ houtcome => exact houtcome
  | opened _ _ houtcome => exact houtcome
  | closed _ _ houtcome => exact houtcome

/-- A call gives out a slot it has closed exactly if its batch opens a connection after a close. -/
theorem closedStay_cqeLoopResult {n : Nat} (hm : Sound True n m) (maxEvents : Nat) (env : UringEnv) :
    ClosedStay (cqeLoopResult m maxEvents env).events ↔
      OpensBeforeCloses (batch env (m.ring.unconsumed + 1) 0 maxEvents (freeSlots m) m.ring) := by
  generalize htarget : OpensBeforeCloses (batch env (m.ring.unconsumed + 1) 0 maxEvents (freeSlots m) m.ring) = target
  have hhandles : ∀ (st : LoopState C) (ienv : IterEnv) cqe out, Sound True n st.mcon →
      Iteration maxEvents ienv st cqe out → Handles (st.peeked ienv) cqe ienv.addErr out := by
    rintro st ienv cqe out h ⟨hroom, ⟨rest, hcq⟩, rfl⟩
    exact handles_processCqe (Nat.sub_pos_of_lt hroom) _ fun hop => (h.moveRing ienv.beforePeek).push_isSome hcq hop
  refine cqeLoop_rule_fuel
    (fun fuel st => Sound True n st.mcon ∧
      (ReportsClose st.events → ClosedStay st.events → TopClosed st.mcon st.events) ∧
      (Remains st.events (batch env fuel st.iterationCount (maxEvents - st.eventCount) (freeSlots st.mcon)
        st.mcon.ring) ↔ target))
    (fun st => ClosedStay st.events ↔ target)
    (fun _ st hst => hst.1.wellFormed.cq_entries) ?_ ?_ ?_ (Option.some_get _).symm ⟨hm, ?_, ?_⟩
  · rintro fuel st ⟨-, -, hiff⟩ hstop
    rw [batch_of_stopped fuel hstop] at hiff
    show ClosedStay st.events ↔ target
    simpa [Remains, OpensBeforeCloses] using hiff
  · rintro fuel st cqe out ⟨hsound, htop, hiff⟩ hit herr
    have hhandle := hhandles st _ cqe out hsound hit
    rw [batch_of_iteration fuel hit herr (hhandle.outcome_eq herr)] at hiff
    obtain ⟨hremains, htop'⟩ := hhandle.remains herr htop
    exact ⟨hsound.next hit herr, htop', hremains.trans hiff⟩
  · rintro fuel st cqe out ⟨hsound, htop, hiff⟩ hit herr
    cases hhandles st _ cqe out hsound hit with
    | failed _ hevents houtcome =>
      rw [batch_of_failed fuel hit houtcome] at hiff
      show ClosedStay (st.events ++ out.events) ↔ target
      rw [hevents, List.append_nil]
      simpa [Remains, OpensBeforeCloses] using hiff
    | kept hnot => exact absurd herr hnot
    | opened _ hnot => exact absurd herr hnot
    | closed _ hnot => exact absurd herr hnot
  · simp [loopStart, ReportsClose]
  · simp [loopStart, Remains, ReportsClose, ClosedStay, htarget]

/-! ### What the application sees afterwards -/

/-- The event agrees with what `mcon_session_is_active` says of its session. -/
def Event.Agrees (m : Instance C) (e : Event) : Prop :=
  match e.type with
  | .closeComplete => mconSessionIsActive m e.session = false
  | .readComplete | .writeComplete | .drainComplete | .readRdy | .remoteHangup =>
    mconSessionIsActive m e.session = true
  | .newConnection => 0 ≤ e.result → mconSessionIsActive m e.session = true
  | .none | .newConnectionFailed | .readShutdown | .clientError => True

/-- What a list of events says of the slot `s`. -/
def eventLog (events : List Event) (s : Nat) : List SlotEvent :=
  (events.filterMap Event.slotEvent).filterMap fun p => if p.1 = s then some p.2 else none

theorem eventLog_append (events events' : List Event) (s : Nat) :
    eventLog (events ++ events') s = eventLog events s ++ eventLog events' s := by
  simp [eventLog]

theorem mem_eventLog {events : List Event} {s : Nat} {x : SlotEvent} :
    x ∈ eventLog events s ↔ ∃ e ∈ events, e.slotEvent = some (s, x) := by
  simp only [eventLog, List.mem_filterMap]
  constructor
  · rintro ⟨p, ⟨e, he, hp⟩, hx⟩
    split at hx
    · rename_i hs
      cases hx
      exact ⟨e, he, by rw [hp, ← hs]⟩
    · cases hx
  · rintro ⟨e, he, hx⟩
    exact ⟨_, ⟨e, he, hx⟩, by simp⟩

/-- The events of a call open slots and answer operations. -/
theorem Event.slotEvent_cases {e : Event} {s : Nat} {x : SlotEvent} (h : e.slotEvent = some (s, x)) :
    s = e.session ∧ (x = .opened ∧ e.Opens ∨ ∃ op, x = .answered op ∧ (op = .close ↔ e.type = .closeComplete)) := by
  unfold Event.slotEvent at h
  unfold Event.Opens
  cases htype : e.type <;> rw [htype] at h <;> simp at h
  · exact ⟨h.2.1.symm, .inl ⟨h.2.2.symm, by simp, by omega⟩⟩
  all_goals
    obtain ⟨rfl, rfl⟩ := h
    exact ⟨rfl, .inr ⟨_, rfl, by simp⟩⟩

namespace Slot

/-- The slot carries a connection that is not being closed. -/
def InUse (x : Slot) : Prop := x ≠ .free ∧ x ≠ .closing

theorem inUse_of_next {x y : Slot} {e : SlotEvent} (h : x.next e = some y) (he : Reported e)
    (hx : e = .answered .close → x.InUse) : y.InUse := by
  rcases he with rfl | ⟨op, rfl⟩
  · rw [(free_of_next_opened h).2]
    simp [InUse, idle]
  · unfold next at h
    split at h <;> (try split at h) <;> simp_all [InUse] <;> subst h <;> simp

/-- Reports leave a slot in use. -/
theorem inUse_of_run {x y : Slot} {es : List SlotEvent} (h : x.run es = some y) (hes : ∀ e ∈ es, Reported e)
    (hx : x.InUse) : y.InUse := by
  induction es generalizing x with
  | nil =>
    rw [run, Option.some.injEq] at h
    exact h ▸ hx
  | cons e es ih =>
    obtain ⟨z, hn, hr⟩ := run_cons h
    exact ih hr (fun e' he' => hes e' (List.mem_cons_of_mem _ he'))
      (inUse_of_next hn (hes e List.mem_cons_self) fun _ => hx)

/-- A slot of which something other than a close is reported is in use at the end. -/
theorem ne_free_of_reported {x y : Slot} {es : List SlotEvent} {e : SlotEvent} (h : x.run es = some y)
    (hes : ∀ e ∈ es, Reported e) (he : e ∈ es) (hclose : e ≠ .answered .close) : y ≠ .free := by
  obtain ⟨es₁, es₂, rfl⟩ := List.append_of_mem he
  obtain ⟨z, z', -, hn, hr⟩ := run_split h
  have hz' := inUse_of_next hn (hes e he) fun heq => absurd heq hclose
  exact (inUse_of_run hr (fun e' he' => hes e' (by simp [he'])) hz').1

/-- A slot whose close is reported is free at the end unless it is opened again. -/
theorem free_iff_of_closed {x y : Slot} {es es' : List SlotEvent}
    (h : x.run (es ++ .answered .close :: es') = some y) (hes : ∀ e ∈ es', Reported e) :
    y = .free ↔ .opened ∉ es' := by
  obtain ⟨z, z', -, hn, hr⟩ := run_split h
  have hz' := free_of_next_release hn (.inl rfl)
  subst hz'
  constructor
  · rintro rfl hopened
    exact ne_free_of_reported hr hes hopened (by simp) rfl
  · intro hopened
    by_contra hy
    exact hopened (opened_of_run hr hy)

end Slot

theorem reported_of_mem_eventLog {events : List Event} {s : Nat} {x : SlotEvent} (h : x ∈ eventLog events s) :
    Slot.Reported x := by
  obtain ⟨e, -, hx⟩ := mem_eventLog.1 h
  rcases (Event.slotEvent_cases hx).2 with ⟨rfl, -⟩ | ⟨op, rfl, -⟩
  · exact .inl rfl
  · exact .inr ⟨op, rfl⟩

theorem opened_mem_eventLog {events : List Event} {s : Nat} :
    .opened ∈ eventLog events s ↔ ∃ e ∈ events, e.Opens ∧ e.session = s := by
  rw [mem_eventLog]
  refine exists_congr fun e => and_congr_right fun _ => ⟨fun h => ?_, ?_⟩
  · obtain ⟨rfl, ⟨-, hopens⟩ | ⟨op, hop, -⟩⟩ := Event.slotEvent_cases h
    · exact ⟨hopens, rfl⟩
    · cases hop
  · rintro ⟨⟨htype, hres⟩, rfl⟩
    have hnot : ¬ e.result < 0 := by omega
    simp [Event.slotEvent, htype, hnot]

variable {A A' : Nat → Slot} {events : List Event}

/-- A slot that something other than a close was reported of is in use. -/
theorem Represents.active_of_reported (hrep : Represents m A')
    (hrun : ∀ s, (A s).run (eventLog events s) = some (A' s)) {e : Event} (he : e ∈ events) {x : SlotEvent}
    (hx : e.slotEvent = some (e.session, x)) (hclose : x ≠ .answered .close) :
    mconSessionIsActive m e.session = true := by
  have hne := Slot.ne_free_of_reported (hrun e.session) (fun _ => reported_of_mem_eventLog)
    (mem_eventLog.2 ⟨e, he, hx⟩) hclose
  exact (hrep.isActive_iff (hrep.lt_of_ne_free hne)).2 hne

/-- A slot that was reported closed is inactive unless it was opened again. -/
theorem Represents.inactive_iff_of_closed (hrep : Represents m A')
    (hrun : ∀ s, (A s).run (eventLog events s) = some (A' s)) {e : Event} {before after : List Event}
    (hevents : events = before ++ e :: after) (hclose : e.type = .closeComplete)
    (hlt : e.session < m.configuration.sessionCount.toNat) :
    mconSessionIsActive m e.session = false ↔ ∀ e' ∈ after, e'.Opens → e'.session ≠ e.session := by
  have hlog : eventLog events e.session =
      eventLog before e.session ++ .answered .close :: eventLog after e.session := by
    have hone : eventLog [e] e.session = [.answered .close] := by simp [eventLog, Event.slotEvent, hclose]
    rw [hevents, eventLog_append, ← List.singleton_append, eventLog_append, hone, List.singleton_append]
  have hfree : A' e.session = .free ↔ .opened ∉ eventLog after e.session :=
    Slot.free_iff_of_closed (hlog ▸ hrun e.session) fun _ => reported_of_mem_eventLog
  rw [← Bool.not_eq_true, hrep.isActive_iff hlt, not_not, hfree, opened_mem_eventLog]
  simp

/-- The events of a list of completions agree with the slots exactly if no slot reported closed is opened again. -/
theorem Represents.agrees_iff_closedStay (hrep : Represents m A')
    (hrun : ∀ s, (A s).run (eventLog events s) = some (A' s))
    (hnames : ∀ e ∈ events, e.Names m.configuration.sessionCount.toNat) (htypes : ∀ e ∈ events, e.OfCompletion) :
    (∀ e ∈ events, e.Agrees m) ↔ ClosedStay events := by
  have hlt : ∀ e ∈ events, e.type = .closeComplete → e.session < m.configuration.sessionCount.toNat := by
    intro e he hclose
    simpa [Event.Names, hclose] using hnames e he
  constructor
  · intro hagrees
    refine List.pairwise_iff_forall_sublist.2 fun {e e'} hsub hclose hopens => ?_
    obtain ⟨before, after, rfl, he, hafter⟩ := List.cons_sublist_iff.1 hsub
    obtain ⟨before₁, before₂, rfl⟩ := List.append_of_mem he
    have hmem : e ∈ before₁ ++ e :: before₂ ++ after := by simp
    have hagrees := hagrees e hmem
    rw [Event.Agrees, hclose] at hagrees
    have hsplit : before₁ ++ e :: before₂ ++ after = before₁ ++ e :: (before₂ ++ after) := by simp
    exact (hrep.inactive_iff_of_closed hrun hsplit hclose (hlt e hmem hclose)).1 hagrees e'
      (List.mem_append_right _ (List.singleton_sublist.1 hafter)) hopens
  · intro hstay e he
    have hactive := fun x hx => hrep.active_of_reported hrun he (x := x) hx
    unfold Event.Agrees
    cases htype : e.type with
    | closeComplete =>
      obtain ⟨before, after, hevents⟩ := List.append_of_mem he
      refine (hrep.inactive_iff_of_closed hrun hevents htype (hlt e he htype)).2 fun e' he' hopens => ?_
      rw [hevents, ClosedStay, List.pairwise_append, List.pairwise_cons] at hstay
      exact hstay.2.1.1 e' he' htype hopens
    | newConnection =>
      intro hres
      have hnot : ¬ e.result < 0 := by omega
      exact hactive .opened (by simp [Event.slotEvent, htype, hnot]) (by simp)
    | readComplete => exact hactive (.answered (.reading .read)) (by simp [Event.slotEvent, htype]) (by simp)
    | writeComplete => exact hactive (.answered .write) (by simp [Event.slotEvent, htype]) (by simp)
    | drainComplete => exact hactive (.answered (.reading .drain)) (by simp [Event.slotEvent, htype]) (by simp)
    | readRdy => exact absurd htype (htypes e he).1
    | remoteHangup => exact absurd htype (htypes e he).2
    | _ => trivial

/-! ### The call -/

/-- When the call returns no error, every event it stored agrees with the state the application then sees. -/
def BatchAgrees (m : Instance C) (data : UInt64) (epollEvents : UInt32) (eventCapacity : Nat) (env : ProcessEnv) :
    Prop :=
  0 ≤ (mconProcessEvent m data epollEvents eventCapacity env).2.rc →
    ∀ e ∈ (mconProcessEvent m data epollEvents eventCapacity env).2.reported,
      e.Agrees (mconProcessEvent m data epollEvents eventCapacity env).1

/-- The event leads to the CQ ring, and the completions handled open a connection after a close. -/
def GivesSlotAgain (m : Instance C) (data : UInt64) (eventCapacity : Nat) (env : UringEnv) : Prop :=
  mconOwnsEvent m data = true ∧ (mconDecodeEpollEntry data).source = epollSourceIoUring ∧
    ¬ OpensBeforeCloses (batch env (m.ring.unconsumed + 1) 0 eventCapacity (freeSlots m) m.ring)

/-- The event is let through for a session without a connection, and brings data or its first hangup. -/
structure ReportsInactive (m : Instance C) (data : UInt64) (epollEvents : UInt32) (eventCapacity : Nat)
    (sockopt : SockoptResult) : Prop where
  owns : mconOwnsEvent m data = true
  source : (mconDecodeEpollEntry data).source = epollSourceSession
  letThrough : LetThrough m epollEvents (mconDecodeEpollEntry data) eventCapacity
  inactive : mconSessionIsActive m (mconDecodeEpollEntry data).session.toNat = false
  reports : epollEvents &&& epollin ≠ 0 ∨
    epollEvents &&& epollrdhup ≠ 0 ∧ hangupLatched m (mconDecodeEpollEntry data).session.toNat = false
  queried : ¬ QueryFails epollEvents sockopt

/-- The events of the io_uring instance. -/
theorem Sound.batchAgrees (hm : Sound True m.configuration.sessionCount.toNat m) {data : UInt64}
    (howns : mconOwnsEvent m data = true) (hsource : (mconDecodeEpollEntry data).source = epollSourceIoUring)
    (epollEvents : UInt32) (eventCapacity : Nat) (env : ProcessEnv) :
    BatchAgrees m data epollEvents eventCapacity env ↔
      OpensBeforeCloses (batch env.uring (m.ring.unconsumed + 1) 0 eventCapacity (freeSlots m) m.ring) := by
  have hcall := mconProcessEvent_ioUring howns hsource epollEvents eventCapacity env
  obtain ⟨-, hnames, hcount⟩ := stored_cqeLoopResult hm eventCapacity env.uring
  have htypes := cqeLoopResult_ofCompletion hm.wellFormed.cq_entries eventCapacity env.uring
  have hstay := closedStay_cqeLoopResult hm eventCapacity env.uring
  obtain ⟨A, hrep⟩ := hm.slots trivial
  have hkernel : eventKinds .kernel := .inl (by decide)
  have heventfd : eventKinds .eventfd := .inl (by decide)
  have hcalls : Calls eventKinds m (mconProcessIoUringEvent m eventCapacity env.uring).2.acts
      ((mconProcessIoUringEvent m eventCapacity env.uring).2.reported.filterMap Event.slotEvent)
      (mconProcessIoUringEvent m eventCapacity env.uring).1 :=
    calls_processIoUringEvent hkernel heventfd (fun _ k hk => .inl (handlerKinds_subset hk)) (fun _ _ _ => .inr rfl) m
      hm.wellFormed.cq_entries
  have hreported : 0 ≤ (mconProcessIoUringEvent m eventCapacity env.uring).2.rc ∧
      (mconProcessIoUringEvent m eventCapacity env.uring).2.reported =
        (cqeLoopResult m eventCapacity env.uring).events := by
    rw [Output.reported, processIoUringEvent_events, processIoUringEvent_rc, hcount trivial]
    simp
  obtain ⟨hrc, hreported⟩ := hreported
  rw [hreported] at hcalls
  obtain ⟨obs, hpath, -, hlog⟩ := hcalls
  obtain ⟨A', hrep', hrun, -⟩ := hrep.path (fun _ hk => eventKinds_ne_detachEnoent hk) hm.wellFormed hpath
  have hconfig : (mconProcessIoUringEvent m eventCapacity env.uring).1.configuration = m.configuration :=
    hpath.invariant (fun x => x.configuration = m.configuration)
      (fun _ _ _ _ _ hs hx => hs.frame.configuration.trans hx) rfl
  rw [← hconfig] at hnames
  have hslots : ∀ s, (A s).run (eventLog (cqeLoopResult m eventCapacity env.uring).events s) = some (A' s) := by
    intro s
    rw [eventLog, ← hlog]
    exact hrun s
  rw [BatchAgrees, hcall, hreported, ← hstay, ← hrep'.agrees_iff_closedStay hslots hnames htypes]
  exact ⟨fun h => h hrc, fun h _ => h⟩

theorem isActive_latchHangup (epollEvents : UInt32) (s t : Nat) :
    mconSessionIsActive (latchHangup m epollEvents s) t = mconSessionIsActive m t := by
  unfold latchHangup mconSessionIsActive
  split
  · rw [setStateBits_socketFd]
    rfl
  · rfl

/-- What the events of a mask say of the session. -/
theorem agrees_sessionEvents {epollEvents : UInt32} {s : Nat} {rdhup : Bool} {sockopt : SockoptResult} :
    (∀ e ∈ sessionEvents epollEvents s rdhup sockopt, e.Agrees m) ↔
      (epollEvents &&& epollin ≠ 0 ∨ epollEvents &&& epollrdhup ≠ 0 ∧ rdhup = false →
        mconSessionIsActive m s = true) := by
  have hagrees : ∀ (c : Bool) (e : Event), (∀ e' ∈ if c then [e] else [], e'.Agrees m) ↔ (c = true → e.Agrees m) := by
    intro c e
    cases c <;> simp
  have hrdhup : (∀ e ∈ if epollEvents &&& epollrdhup != 0 then if rdhup then [] else [⟨0, s, .remoteHangup⟩] else [],
      Event.Agrees m e) ↔ (epollEvents &&& epollrdhup ≠ 0 ∧ rdhup = false → mconSessionIsActive m s = true) := by
    cases rdhup
    · rw [if_neg Bool.false_ne_true, hagrees]
      simp [Event.Agrees]
    · simp
  simp only [sessionEvents, List.mem_append, or_imp, forall_and, hagrees, hrdhup]
  simp [Event.Agrees]

theorem batchAgrees_of_nil {data : UInt64} {epollEvents : UInt32} {eventCapacity : Nat} {env : ProcessEnv}
    (h : (mconProcessEvent m data epollEvents eventCapacity env).2.events = []) :
    BatchAgrees m data epollEvents eventCapacity env := by
  intro _ e he
  rw [Output.reported, h, List.take_nil] at he
  cases he

/-- The events of a client socket. -/
theorem batchAgrees_sessionEvent {data : UInt64} (howns : mconOwnsEvent m data = true)
    (hsource : (mconDecodeEpollEntry data).source = epollSourceSession) (epollEvents : UInt32) (eventCapacity : Nat)
    (env : ProcessEnv) :
    BatchAgrees m data epollEvents eventCapacity env ↔
      ¬ ReportsInactive m data epollEvents eventCapacity env.sockopt := by
  have hcall := mconProcessEvent_session howns hsource epollEvents eventCapacity env
  by_cases hthrough : LetThrough m epollEvents (mconDecodeEpollEntry data) eventCapacity
  · rw [BatchAgrees, hcall]
    obtain ⟨hm, -, hfails, hcounts⟩ := processSessionEvent_of_letThrough hthrough env.sockopt
    by_cases hquery : QueryFails epollEvents env.sockopt
    · refine iff_of_true (fun hrc => ?_) fun hreports => hreports.queried hquery
      rw [hfails hquery] at hrc
      exact absurd hrc (by decide)
    · rw [(processSessionEvent_reported hthrough hquery).1, hm, agrees_sessionEvents, isActive_latchHangup]
      constructor
      · intro hagrees hreports
        have hactive := hagrees (by rw [hcounts hquery]; exact Int.natCast_nonneg _) hreports.reports
        rw [hreports.inactive] at hactive
        cases hactive
      · intro hnot _ hreports
        by_contra hinactive
        exact hnot ⟨howns, hsource, hthrough, by simpa using hinactive, hreports, hquery⟩
  · refine iff_of_true (batchAgrees_of_nil ?_) fun hreports => hthrough hreports.letThrough
    rw [hcall, (processSessionEvent_of_not_letThrough hthrough env.sockopt).2.1]

/-- The events of a call agree with the state after it, in every state that is reached without a half-done detach,
exactly if the call neither gives a slot out again that it closed, nor lets an event of an unused session through. -/
theorem reported_events_agree_iff {h : History} (he : Execution DetachesWhole h m) (data : UInt64)
    (epollEvents : UInt32) (eventCapacity : Nat) (env : ProcessEnv) :
    BatchAgrees m data epollEvents eventCapacity env ↔
      ¬ GivesSlotAgain m data eventCapacity env.uring ∧
        ¬ ReportsInactive m data epollEvents eventCapacity env.sockopt := by
  obtain ⟨A, hm, hrep, -⟩ := he.represents_whole
  have hsound : Sound True m.configuration.sessionCount.toNat m :=
    ⟨hm, he.validIndices, rfl, fun _ => ⟨A, hrep⟩⟩
  have hsources : ∀ source, (mconDecodeEpollEntry data).source = source →
      (source ≠ epollSourceIoUring → ¬ GivesSlotAgain m data eventCapacity env.uring) ∧
        (source ≠ epollSourceSession → ¬ ReportsInactive m data epollEvents eventCapacity env.sockopt) := by
    rintro source rfl
    exact ⟨fun hne h => hne h.2.1, fun hne h => hne h.source⟩
  cases dispatched m data epollEvents eventCapacity env with
  | refused errno hother hcall =>
    refine iff_of_true (batchAgrees_of_nil (by rw [hcall]; rfl)) ⟨fun h => ?_, fun h => ?_⟩
    · exact (hother h.1).1 h.2.1
    · exact (hother h.owns).2 h.source
  | serverSocket _ hsource hcall =>
    refine iff_of_true (batchAgrees_of_nil (by rw [hcall]; rfl)) ⟨?_, ?_⟩
    · exact (hsources _ hsource).1 (by decide)
    · exact (hsources _ hsource).2 (by decide)
  | ioUring howns hsource =>
    have hsession := (hsources _ hsource).2 (by decide)
    rw [hsound.batchAgrees howns hsource]
    simp [GivesSlotAgain, howns, hsource, hsession]
  | session howns hsource =>
    have hgives := (hsources _ hsource).1 (by decide)
    rw [batchAgrees_sessionEvent howns hsource]
    simp [hgives]

/-- The inputs after which the completions of a close and of an accept wait in the CQ ring: the close of session 0 was
executed first, and its completion is posted as the one at `index`. -/
def turnoverInputs (index : Nat) : List Input :=
  startInput :: serverInput :: connectInputs 20 ++
    [.close 0, .submit 2, .kernel (.exec 0 0), .kernel (.exec 0 21), .kernel (.post index), .kernel (.post 0)]

theorem turnover_execution (index : Nat) :
    Execution DetachesWhole (history step (freshInstance (smallConfig 2 4 1)) (turnoverInputs index))
      (finalState step (freshInstance (smallConfig 2 4 1)) (turnoverInputs index)) := by
  refine Execution.of_inputs _ (by decide) _ (.of_forall (fun i hi m => ?_) _)
  rintro s ⟨rfl, -⟩
  simp [turnoverInputs, connectInputs, completeInputs, startInput, serverInput, ringInput] at hi

/-- The completion of the accept comes before that of the close. -/
theorem reported_events_agree_iff_in_order :
    BatchAgrees (finalState step (freshInstance (smallConfig 2 4 1)) (turnoverInputs 1))
      (instancePayload (freshInstance mconConfigDefault) epollSourceIoUring) epollin 8 ⟨.quiet, ⟨none, 0⟩⟩ :=
  (reported_events_agree_iff (turnover_execution 1) _ _ _ _).2
    ⟨fun h => h.2.2 (by decide), fun h => absurd h.source (by decide)⟩

/-- The completion of the close comes first: both events name session 0, which is active when the application sees
that it was closed. -/
theorem close_is_reported_of_active_session :
    let m := finalState step (freshInstance (smallConfig 2 4 1)) (turnoverInputs 0)
    let data := instancePayload (freshInstance mconConfigDefault) epollSourceIoUring
    let out := mconProcessEvent m data epollin 8 ⟨.quiet, ⟨none, 0⟩⟩
    Execution DetachesWhole (history step (freshInstance (smallConfig 2 4 1)) (turnoverInputs 0)) m ∧ out.2.rc = 2 ∧
      out.2.events = [⟨0, 0, .closeComplete⟩, ⟨21, 0, .newConnection⟩] ∧ mconSessionIsActive out.1 0 = true ∧
      ¬ BatchAgrees m data epollin 8 ⟨.quiet, ⟨none, 0⟩⟩ := by
  intro m data out
  have hrc : out.2.rc = 2 := by decide
  have hevents : out.2.events = [⟨0, 0, .closeComplete⟩, ⟨21, 0, .newConnection⟩] := by decide
  have hactive : mconSessionIsActive out.1 0 = true := by decide
  refine ⟨turnover_execution 0, hrc, hevents, hactive, fun hagrees => ?_⟩
  have hmem : (⟨0, 0, .closeComplete⟩ : Event) ∈ out.2.reported := by
    rw [Output.reported, hrc, hevents]
    exact List.mem_cons_self
  have hinactive : mconSessionIsActive out.1 0 = false := hagrees (hrc ▸ by decide) _ hmem
  rw [hactive] at hinactive
  cases hinactive

end Mcon
