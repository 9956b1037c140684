import Mcon.Batches

/-!
# The completions handed to the handlers

Which completions a call of `mcon_process_io_uring_event` hands to a handler depends on the ring, the room of the
array, the number of free slots and the answers of the kernel.  An accept among them brings a connection if a slot is
free and the descriptor is registered, and has the program ask for accepts again unless it ended with `-EAGAIN`.
-/

namespace Mcon

variable {C : Ctools} {m : Instance C} {cqe : Cqe} {maxEvents : Nat} {addErr : Option Int}

/-- A completion that is given to its handler, the number of free slots then, and the answer to an `EPOLL_CTL_ADD`. -/
structure HandlerCall where
  cqe : Cqe
  free : Nat
  addErr : Option Int

namespace HandlerCall

/-- An accept whose connection gets a slot and is registered. -/
def Connects (x : HandlerCall) : Prop := x.cqe.Opens ∧ x.free ≠ 0 ∧ x.addErr = none

/-- An accept after which the program asks for accepts again. -/
def AsksAgain (x : HandlerCall) : Prop := x.cqe.userData.operation = .accept ∧ x.cqe.res ≠ -Errno.eagain

instance (x : HandlerCall) : Decidable x.Connects := inferInstanceAs (Decidable (_ ∧ _))

instance (x : HandlerCall) : Decidable x.AsksAgain := inferInstanceAs (Decidable (_ ∧ _))

end HandlerCall

/-- The outcome of a completion when there are `slots` slots: a close cannot be handled if all of them are free. -/
def Cqe.outcomeWithin (cqe : Cqe) (slots free : Nat) (addErr : Option Int) : Option (Nat × Nat) :=
  (cqe.outcome free addErr).filter fun left => left.2 ≤ slots

/-- The completions that a call hands to a handler, in order; the last one may be one that cannot be handled. -/
def handlerCalls (env : UringEnv) (slots : Nat) : Nat → Nat → Nat → Nat → Ring → List HandlerCall
  | 0, _, _, _, _ => []
  | fuel + 1, j, room, free, r =>
    let peeked := (r.applyAll (env.iter j).beforePeek).1
    match peeked.cq with
    | [] => []
    | cqe :: _ =>
      if room = 0 then []
      else
        ⟨cqe, free, (env.iter j).addErr⟩ ::
          match cqe.outcomeWithin slots free (env.iter j).addErr with
          | none => []
          | some (stored, free') =>
            handlerCalls env slots fuel (j + 1) (room - stored) free'
              (peeked.ioUringCqeSeen.applyAll (env.iter j).beforeNextPeek).1

/-- The number of slots the free stack has room for. -/
def slotRoom (m : Instance C) : Nat := C.idxStack.capacity m.sessionFreeStack

/-- The completions a call on `m` hands to a handler. -/
def handedOver (m : Instance C) (maxEvents : Nat) (env : UringEnv) : List HandlerCall :=
  handlerCalls env (slotRoom m) (m.ring.unconsumed + 1) 0 maxEvents (freeSlots m) m.ring

/-! ### One completion -/

/-- What a handler does as far as accepts are concerned. -/
structure HandlerDone (m : Instance C) (cqe : Cqe) (addErr : Option Int) (out : HandlerOut C) : Prop where
  failed : out.err < 0 → cqe.outcomeWithin (slotRoom m) (freeSlots m) addErr = none ∧
    ¬ HandlerCall.Connects ⟨cqe, freeSlots m, addErr⟩
  handled : ¬ out.err < 0 → cqe.outcomeWithin (slotRoom m) (freeSlots m) addErr =
    some (out.err.toNat, freeSlots out.mcon) ∧ slotRoom out.mcon = slotRoom m ∧ out.err.toNat = out.events.length
  connects : (∃ e ∈ out.events, e.Opens) ↔ HandlerCall.Connects ⟨cqe, freeSlots m, addErr⟩
  requested : out.mcon.state.acceptsRequested = true ↔
    m.state.acceptsRequested = true ∨ HandlerCall.AsksAgain ⟨cqe, freeSlots m, addErr⟩
  inactive : ¬ HandlerCall.Connects ⟨cqe, freeSlots m, addErr⟩ →
    ∀ s, (m.session s).socketFd = -1 → (out.mcon.session s).socketFd = -1

theorem freeSlots_le (m : Instance C) : freeSlots m ≤ slotRoom m := by
  rw [freeSlots, C.idxStack.size_eq]
  exact C.idxStack.length_le _

theorem Cqe.outcomeWithin_eq_some {slots free stored free' : Nat} (h : cqe.outcome free addErr = some (stored, free'))
    (hle : free' ≤ slots) : cqe.outcomeWithin slots free addErr = some (stored, free') := by
  rw [Cqe.outcomeWithin, h, Option.filter_some, if_pos (by simpa using hle)]

theorem Cqe.outcomeWithin_eq_none {slots free : Nat} (h : cqe.outcome free addErr = none) :
    cqe.outcomeWithin slots free addErr = none := by
  rw [Cqe.outcomeWithin, h]
  rfl

/-- A handler that is not that of an accept opens nothing and asks for nothing. -/
private theorem handlerDone_of_ne_accept (hop : cqe.userData.operation ≠ .accept) {out : HandlerOut C}
    (hoption : if out.err < 0 then cqe.outcomeWithin (slotRoom m) (freeSlots m) addErr = none else
      cqe.outcomeWithin (slotRoom m) (freeSlots m) addErr = some (out.err.toNat, freeSlots out.mcon) ∧
        slotRoom out.mcon = slotRoom m ∧ out.err.toNat = out.events.length)
    (hevents : ∀ e ∈ out.events, e.type ≠ .newConnection)
    (hrequested : out.mcon.state.acceptsRequested = m.state.acceptsRequested)
    (hinactive : ∀ s, (m.session s).socketFd = -1 → (out.mcon.session s).socketFd = -1) :
    HandlerDone m cqe addErr out := by
  have hnot : ¬ HandlerCall.Connects ⟨cqe, freeSlots m, addErr⟩ := fun h => hop h.1.1
  refine ⟨fun herr => ?_, fun herr => ?_, ?_, ?_, fun _ => hinactive⟩
  · rw [if_pos herr] at hoption
    exact ⟨hoption, hnot⟩
  · rw [if_neg herr] at hoption
    exact hoption
  · exact iff_of_false (fun ⟨e, he, hopens⟩ => hevents e he hopens.1) hnot
  · rw [hrequested]
    exact (or_iff_left fun h => hop h.1).symm

private theorem handlerDone_transfer (type : EventType) (bits : UInt8) (hroom : ¬ maxEvents < 1)
    (addErr : Option Int) (htype : type ≠ .newConnection)
    (hop : cqe.userData.operation = .read ∨ cqe.userData.operation = .write ∨ cqe.userData.operation = .drain) :
    HandlerDone m cqe addErr (processTransfer type bits m cqe cqe.userData maxEvents) := by
  have hne : cqe.userData.operation ≠ .accept := by
    rcases hop with h | h | h <;> rw [h] <;> decide
  have houtcome : cqe.outcome (freeSlots m) addErr = some (1, freeSlots m) := by
    rcases hop with h | h | h <;> simp [Cqe.outcome, h]
  rw [processTransfer, if_neg hroom]
  refine handlerDone_of_ne_accept hne ?_ (by simpa using htype) rfl fun s hs => ?_
  · exact ⟨Cqe.outcomeWithin_eq_some houtcome (freeSlots_le m), rfl, rfl⟩
  · rw [clearStateBits_socketFd]
    exact hs

private theorem handlerDone_close (hroom : ¬ maxEvents < 1) (addErr : Option Int)
    (hop : cqe.userData.operation = .close) :
    HandlerDone m cqe addErr (processClose m cqe cqe.userData maxEvents) := by
  have hne : cqe.userData.operation ≠ .accept := by rw [hop]; decide
  have houtcome : cqe.outcome (freeSlots m) addErr = some (1, freeSlots m + 1) := by simp [Cqe.outcome, hop]
  have hsize := C.idxStack.size_eq m.sessionFreeStack
  unfold processClose
  rw [if_neg hroom]
  dsimp only
  split
  · rename_i hpush
    have hfull : freeSlots m = slotRoom m := hsize.trans ((C.idxStack.push_eq_none _ _).1 hpush)
    refine handlerDone_of_ne_accept hne ?_ (by simp) rfl fun _ hs => hs
    rw [if_pos (by simp), Cqe.outcomeWithin, houtcome, Option.filter_some, if_neg (by simp [hfull])]
  · rename_i stack hpush
    have hgrow : C.idxStack.size stack = freeSlots m + 1 := C.idxStack.size_push hpush
    have hcap : C.idxStack.capacity stack = slotRoom m := C.idxStack.capacity_push _ _ _ hpush
    have hstack : (closeDone m cqe.userData.session stack).sessionFreeStack = stack := closeDone_freeStack _ _ _
    have hfree : freeSlots (closeDone m cqe.userData.session stack) = freeSlots m + 1 := by
      rw [freeSlots, hstack, hgrow]
    have hslots : slotRoom (closeDone m cqe.userData.session stack) = slotRoom m := by
      rw [slotRoom, hstack, hcap]
    show HandlerDone m cqe addErr ⟨1, closeDone m cqe.userData.session stack, _, _⟩
    refine handlerDone_of_ne_accept hne ?_ (by simp) ?_ fun s hs => ?_
    · refine ⟨?_, hslots, rfl⟩
      show cqe.outcomeWithin _ _ _ = some (1, freeSlots (closeDone m cqe.userData.session stack))
      rw [hfree]
      exact Cqe.outcomeWithin_eq_some houtcome (by rw [← hfree, ← hslots]; exact freeSlots_le _)
    · exact completeShutdownIfDone_acceptsRequested _
    · show ((closeDone m cqe.userData.session stack).session s).socketFd = -1
      rw [closeDone, completeShutdownIfDone_session, clearStateBits_socketFd]
      have hreset := sessionResetAfterClose_socketFd { m with sessionFreeStack := stack } cqe.userData.session s
      rcases hreset with h | ⟨-, h⟩
      · exact h.trans hs
      · exact h

/-- An accept that ended with an error. -/
private theorem handlerDone_acceptError (hroom : ¬ maxEvents < 1) (addErr : Option Int)
    (hop : cqe.userData.operation = .accept) (hres : cqe.res < 0) :
    HandlerDone m cqe addErr (processAccept m cqe maxEvents addErr) := by
  have hle := freeSlots_le m
  have hnot : ¬ HandlerCall.Connects ⟨cqe, freeSlots m, addErr⟩ := fun h => by
    have hres' : 0 ≤ cqe.res := h.1.2
    omega
  have herr : ∀ n : Nat, ¬ (n : Int) < 0 := by omega
  unfold processAccept
  by_cases hagain : cqe.res = -Errno.eagain
  · have houtcome : cqe.outcome (freeSlots m) addErr = some (0, freeSlots m) := by simp [Cqe.outcome, hop, hagain]
    rw [if_pos hagain]
    refine ⟨fun h => absurd h (herr 0), fun _ => ⟨Cqe.outcomeWithin_eq_some houtcome hle, rfl, rfl⟩, ?_, ?_,
      fun _ _ hs => hs⟩
    · exact iff_of_false (by simp) hnot
    · exact (or_iff_left fun h => h.2 hagain).symm
  · have houtcome : cqe.outcome (freeSlots m) addErr = some (1, freeSlots m) := by
      simp [Cqe.outcome, hop, hagain, hres]
    rw [if_neg hagain, if_neg hroom]
    dsimp only
    rw [if_pos hres]
    refine ⟨fun h => absurd h (herr 1), fun _ => ⟨Cqe.outcomeWithin_eq_some houtcome hle, rfl, rfl⟩, ?_, ?_,
      fun _ _ hs => hs⟩
    · exact iff_of_false (by simp [Event.Opens, hres]) hnot
    · exact iff_of_true rfl (.inr ⟨hop, hagain⟩)

/-- An accept that brings a descriptor. -/
private theorem handlerDone_acceptOpens (hroom : ¬ maxEvents < 1) (addErr : Option Int) (hopens : cqe.Opens) :
    HandlerDone m cqe addErr (processAccept m cqe maxEvents addErr) := by
  obtain ⟨hop, hpos⟩ := hopens
  have hres : ¬ cqe.res < 0 := by omega
  have hagain : cqe.res ≠ -Errno.eagain := fun h => hres (h ▸ by decide)
  have hasks : HandlerCall.AsksAgain ⟨cqe, freeSlots m, addErr⟩ := ⟨hop, hagain⟩
  have hsize := C.idxStack.size_eq m.sessionFreeStack
  have hle := freeSlots_le m
  unfold processAccept
  rw [if_neg hagain, if_neg hroom]
  dsimp only
  rw [if_neg hres]
  split
  · rename_i hpop
    have hempty : freeSlots m = 0 := by
      rw [freeSlots, hsize, List.length_eq_zero_iff]
      exact (C.idxStack.pop_eq_none _).1 hpop
    have hnot : ¬ HandlerCall.Connects ⟨cqe, freeSlots m, addErr⟩ := fun h => h.2.1 hempty
    have houtcome : cqe.outcome (freeSlots m) addErr = none := by simp [Cqe.outcome, hop, hagain, hres, hempty]
    refine ⟨fun _ => ⟨Cqe.outcomeWithin_eq_none houtcome, hnot⟩, fun h => absurd (by simp) h, ?_, ?_,
      fun _ _ hs => hs⟩
    · exact iff_of_false (by simp) hnot
    · exact iff_of_true rfl (.inr hasks)
  · rename_i s stack hpop
    have hfree : freeSlots m = C.idxStack.size stack + 1 := C.idxStack.size_pop hpop
    have hcap : C.idxStack.capacity stack = slotRoom m := C.idxStack.capacity_pop _ _ _ hpop
    cases addErr with
    | none =>
      have hconnects : HandlerCall.Connects ⟨cqe, freeSlots m, none⟩ := ⟨⟨hop, hpos⟩, by simp [hfree], rfl⟩
      have houtcome : cqe.outcome (freeSlots m) none = some (1, freeSlots m - 1) := by
        simp [Cqe.outcome, hop, hagain, hres, hfree]
      refine ⟨fun h => absurd h (by simp), fun _ => ⟨?_, hcap, rfl⟩, ?_, ?_, fun h => absurd hconnects h⟩
      · have hleft : freeSlots m - 1 = C.idxStack.size stack := by omega
        rw [Cqe.outcomeWithin_eq_some houtcome (by omega), hleft]
        rfl
      · exact iff_of_true ⟨_, List.mem_singleton_self _, rfl, hpos⟩ hconnects
      · exact iff_of_true rfl (.inr hasks)
    | some err =>
      -- the slot which was just popped fits back
      obtain ⟨stack', hpush, -⟩ := C.idxStack.push_of_pop hpop
      have hnot : ¬ HandlerCall.Connects ⟨cqe, freeSlots m, some err⟩ := fun h => by cases h.2.2
      have houtcome : cqe.outcome (freeSlots m) (some err) = none := by simp [Cqe.outcome, hop, hagain, hres]
      simp only [hpush]
      refine ⟨fun _ => ⟨Cqe.outcomeWithin_eq_none houtcome, hnot⟩, fun h => absurd (by simp) h, ?_, ?_,
        fun _ _ hs => hs⟩
      · exact iff_of_false (by simp) hnot
      · exact iff_of_true rfl (.inr hasks)

theorem handlerDone_processCqe (hroom : 0 < maxEvents) (addErr : Option Int) :
    HandlerDone m cqe addErr (processCqe m cqe maxEvents addErr) := by
  have hroom' : ¬ maxEvents < 1 := by omega
  unfold processCqe
  split <;> rename_i hop
  · rcases lt_or_ge cqe.res 0 with hres | hres
    · exact handlerDone_acceptError hroom' addErr hop hres
    · exact handlerDone_acceptOpens hroom' addErr ⟨hop, hres⟩
  · exact handlerDone_transfer _ _ hroom' addErr (by simp) (.inl hop)
  · exact handlerDone_transfer _ _ hroom' addErr (by simp) (.inr (.inl hop))
  · exact handlerDone_transfer _ _ hroom' addErr (by simp) (.inr (.inr hop))
  · exact handlerDone_close hroom' addErr hop
  · refine handlerDone_of_ne_accept (by rw [hop]; decide) ?_ (by simp) rfl fun _ hs => hs
    rw [if_pos (by simp)]
    exact Cqe.outcomeWithin_eq_none (by simp [Cqe.outcome, hop])

/-! ### The loop -/

/-- An iteration hands over the first completion of the list; the rest follows if the handler does not fail. -/
theorem handlerCalls_of_iteration {env : UringEnv} {st : LoopState C} {out : HandlerOut C} (fuel : Nat)
    (hit : Iteration maxEvents (env.iter st.iterationCount) st cqe out) :
    handlerCalls env (slotRoom st.mcon) (fuel + 1) st.iterationCount (maxEvents - st.eventCount) (freeSlots st.mcon)
        st.mcon.ring =
      ⟨cqe, freeSlots st.mcon, (env.iter st.iterationCount).addErr⟩ ::
        if out.err < 0 then []
        else handlerCalls env (slotRoom (st.next (env.iter st.iterationCount) out).mcon) fuel (st.iterationCount + 1)
          (maxEvents - (st.eventCount + out.err.toNat)) (freeSlots out.mcon)
          (st.next (env.iter st.iterationCount) out).mcon.ring := by
  obtain ⟨hroom, ⟨rest, hcq⟩, hout⟩ := hit
  have hdone : HandlerDone (st.peeked (env.iter st.iterationCount)) cqe (env.iter st.iterationCount).addErr out := by
    rw [hout]
    exact handlerDone_processCqe (Nat.sub_pos_of_lt hroom) _
  have hpeeked : (st.mcon.ring.applyAll (env.iter st.iterationCount).beforePeek).1.cq = cqe :: rest := hcq
  have hne : maxEvents - st.eventCount ≠ 0 := by omega
  rw [handlerCalls, hpeeked]
  dsimp only
  rw [if_neg hne]
  by_cases herr : out.err < 0
  · have hnone : cqe.outcomeWithin (slotRoom st.mcon) (freeSlots st.mcon) (env.iter st.iterationCount).addErr = none :=
      (hdone.failed herr).1
    rw [if_pos herr, hnone]
  · obtain ⟨hsome, hslots, -⟩ := hdone.handled herr
    have hring : out.mcon.ring = (st.peeked (env.iter st.iterationCount)).ring.ioUringCqeSeen := by
      rw [hout] at herr ⊢
      exact processCqe_ring _ cqe (Nat.sub_pos_of_lt hroom) _ herr
    have hsome' : cqe.outcomeWithin (slotRoom st.mcon) (freeSlots st.mcon) (env.iter st.iterationCount).addErr =
      some (out.err.toNat, freeSlots out.mcon) := hsome
    have hnext : (st.next (env.iter st.iterationCount) out).mcon.ring =
      (out.mcon.ring.applyAll (env.iter st.iterationCount).beforeNextPeek).1 := rfl
    have hroom' : slotRoom (st.next (env.iter st.iterationCount) out).mcon = slotRoom st.mcon := hslots
    rw [if_neg herr, hsome', hnext, hring, hroom', ← Nat.sub_sub]
    rfl

theorem handlerCalls_of_stopped {env : UringEnv} {st : LoopState C} (fuel slots : Nat)
    (h : (st.peeked (env.iter st.iterationCount)).ring.cq = [] ∨ maxEvents ≤ st.eventCount) :
    handlerCalls env slots (fuel + 1) st.iterationCount (maxEvents - st.eventCount) (freeSlots st.mcon) st.mcon.ring =
      [] := by
  rw [handlerCalls]
  split
  · rfl
  · rename_i cqe rest hcq
    have hfull : maxEvents ≤ st.eventCount := h.resolve_left fun hempty => by
      have hpeeked : (st.mcon.ring.applyAll (env.iter st.iterationCount).beforePeek).1.cq = [] := hempty
      rw [hcq] at hpeeked
      cases hpeeked
    rw [if_pos (Nat.sub_eq_zero_of_le hfull)]

/-- What a call has done between two states of its loop, if the whole call has `asks` and `connects`. -/
structure LoopAccepts (asks connects : Prop) (m : Instance C) (st : LoopState C) (calls : List HandlerCall) : Prop where
  requested : asks ↔ st.mcon.state.acceptsRequested = true ∨ ∃ x ∈ calls, x.AsksAgain
  connected : connects ↔ (∃ e ∈ st.events.take st.eventCount, e.Opens) ∨ ∃ x ∈ calls, x.Connects
  inactive : ¬ connects → ∀ s, (m.session s).socketFd = -1 → (st.mcon.session s).socketFd = -1

theorem LoopAccepts.iteration {asks connects : Prop} {env : IterEnv} {st : LoopState C} {out : HandlerOut C}
    {calls : List HandlerCall} (hit : Iteration maxEvents env st cqe out) (hcount : st.eventCount = st.events.length)
    (h : LoopAccepts asks connects m st (⟨cqe, freeSlots st.mcon, env.addErr⟩ :: calls)) :
    (¬ out.err < 0 → LoopAccepts asks connects m (st.next env out) calls) ∧
      (out.err < 0 → calls = [] → LoopAccepts asks connects m (st.failed env out) []) := by
  have hdone : HandlerDone (st.peeked env) cqe env.addErr out := by
    rw [hit.out_eq]
    exact handlerDone_processCqe (Nat.sub_pos_of_lt hit.room) _
  have hfree : freeSlots (st.peeked env) = freeSlots st.mcon := rfl
  have hrequested := hdone.requested
  have hconnects := hdone.connects
  have hinactive := hdone.inactive
  rw [hfree] at hrequested hconnects hinactive
  have hkeep : ¬ connects → ∀ s, (m.session s).socketFd = -1 → (out.mcon.session s).socketFd = -1 := by
    intro hnot s hs
    refine hinactive (fun hx => hnot ?_) s (h.inactive hnot s hs)
    exact h.connected.2 (.inr ⟨_, List.mem_cons_self, hx⟩)
  have hasks : asks ↔ out.mcon.state.acceptsRequested = true ∨ ∃ x ∈ calls, x.AsksAgain := by
    have hsame : (st.peeked env).state = st.mcon.state := rfl
    rw [h.requested, hrequested, hsame]
    simp only [List.mem_cons, exists_eq_or_imp, or_assoc]
  have hconnected : connects ↔ (∃ e ∈ st.events ++ out.events, e.Opens) ∨ ∃ x ∈ calls, x.Connects := by
    rw [h.connected, hcount, List.take_length]
    simp only [List.mem_append, or_and_right, exists_or, hconnects, List.mem_cons, exists_eq_left, or_assoc]
  refine ⟨fun herr => ⟨hasks, ?_, hkeep⟩, fun herr hnil => ?_⟩
  · have hall : (st.next env out).events.take (st.next env out).eventCount = st.events ++ out.events := by
      rw [List.take_of_length_le]
      · rfl
      · simp only [LoopState.next, List.length_append, hcount, (hdone.handled herr).2.2, le_refl]
    rw [hall]
    exact hconnected
  · subst hnil
    refine ⟨hasks, ?_, hkeep⟩
    have hnone : ¬ ∃ e ∈ out.events, e.Opens := fun hx => (hdone.failed herr).2 (hconnects.1 hx)
    have hstored : (st.failed env out).events.take (st.failed env out).eventCount = st.events := by
      simp only [LoopState.failed, hcount, List.take_left]
    rw [hstored, hconnected]
    simp only [List.mem_append, or_and_right, exists_or, hnone, or_false]

/-- The accepts of a whole call, from what it hands to the handlers. -/
theorem loopAccepts_cqeLoopResult (m : Instance C) (hentries : 2 ≤ m.ring.cqEntries) (maxEvents : Nat)
    (env : UringEnv) :
    LoopAccepts (m.state.acceptsRequested = true ∨ ∃ x ∈ handedOver m maxEvents env, x.AsksAgain)
      (∃ x ∈ handedOver m maxEvents env, x.Connects) m (cqeLoopResult m maxEvents env) [] := by
  generalize hasks : (m.state.acceptsRequested = true ∨ ∃ x ∈ handedOver m maxEvents env, x.AsksAgain) = asks
  generalize hconnects : (∃ x ∈ handedOver m maxEvents env, x.Connects) = connects
  refine cqeLoop_rule_fuel
    (fun fuel st => 2 ≤ st.mcon.ring.cqEntries ∧ st.eventCount = st.events.length ∧
      LoopAccepts asks connects m st (handlerCalls env (slotRoom st.mcon) fuel st.iterationCount
        (maxEvents - st.eventCount) (freeSlots st.mcon) st.mcon.ring))
    (fun st => LoopAccepts asks connects m st [])
    (fun _ _ hst => hst.1) ?_ ?_ ?_ (Option.some_get _).symm ⟨hentries, rfl, ?_⟩
  · rintro fuel st ⟨-, -, hst⟩ hstop
    rw [handlerCalls_of_stopped fuel _ hstop] at hst
    exact ⟨hst.requested, hst.connected, hst.inactive⟩
  · rintro fuel st cqe out ⟨hst, hcount, haccepts⟩ hit herr
    rw [handlerCalls_of_iteration fuel hit, if_neg herr] at haccepts
    refine ⟨hit.next_cqEntries hst herr, ?_, (haccepts.iteration hit hcount).1 herr⟩
    have hdone : HandlerDone (st.peeked (env.iter st.iterationCount)) cqe (env.iter st.iterationCount).addErr out := by
      rw [hit.out_eq]
      exact handlerDone_processCqe (Nat.sub_pos_of_lt hit.room) _
    simp only [LoopState.next, List.length_append, hcount, (hdone.handled herr).2.2]
  · rintro fuel st cqe out ⟨-, hcount, haccepts⟩ hit herr
    rw [handlerCalls_of_iteration fuel hit, if_pos herr] at haccepts
    exact (haccepts.iteration hit hcount).2 herr rfl
  · refine ⟨?_, ?_, fun _ _ hs => hs⟩
    · rw [← hasks]
      rfl
    · rw [← hconnects]
      simp [loopStart, handedOver]

end Mcon
