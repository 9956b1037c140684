import Mcon.CallPaths

/-!
# Event processing is a sequence of small steps

The completion loop taken apart: the handler of one completion, one iteration, the loop and the call.  With it
`calls_step` is complete: every input takes the instance through small steps of the kinds in `Input.allows`.
-/

namespace Mcon

open Transition (Path)

variable {C : Ctools} {P : StepKind → Prop}

/-- The kinds of small steps of the completion loop, but for the rollback of an accept. -/
def handlerKinds : List StepKind :=
  [.kernel, .acceptAgain, .acceptFailed, .acceptNoSlot, .accepted, .transferred, .closed, .closeNoRoom]

/-- The kinds of small steps of `mcon_process_event`, but for the rollback of an accept. -/
def processKinds : List StepKind :=
  [.kernel, .acceptAgain, .acceptFailed, .acceptNoSlot, .accepted, .transferred, .closed, .closeNoRoom,
    .eventfd, .rdhup, .acceptsRequested, .look]

theorem handlerKinds_subset : handlerKinds ⊆ processKinds := by
  decide

/-- The kinds of small steps an input can take. -/
def Input.allows : Input → StepKind → Prop
  | .start .., k => k ∈ [.started, .startFailed, .startUndone]
  | .shutdown _, k => k ∈ [.shutdown, .shutdownFailed]
  | .processEvent _ _ _ env, k =>
    k ∈ processKinds ∨ k = .acceptRollback ∧ ∃ j err, (env.uring.iter j).addErr = some err
  | .submit _, k => k ∈ [.acceptEnqueued, .pop, .submitted, .submitFailed]
  | .read .., k => k ∈ [.request, .look]
  | .write .., k => k ∈ [.request, .look]
  | .drain .., k => k ∈ [.request, .look]
  | .close _, k => k ∈ [.request, .look]
  | .detach _ delErr, k =>
    k ∈ [.detached, .detachUndone, .detachNoRoom, .look] ∨
      k = .detachEnoent ∧ delErr = some Errno.enoent
  | .kernel _, k => k = .kernel

/-! ### One completion -/

/-- What a handler does to the completion at the head of the CQ ring: it reports an error, or it consumes the
completion and returns the number of events it stored. -/
def Handled (P : StepKind → Prop) (m : Instance C) (out : HandlerOut C) : Prop :=
  out.err < 0 ∧ Calls P m out.acts [] out.mcon ∨
    ¬ out.err < 0 ∧ out.err.toNat = out.events.length ∧
      Calls P m out.acts (out.events.filterMap Event.slotEvent) (countDown out.mcon)

variable {m : Instance C} {cqe : Cqe} {rest : List Cqe} {maxEvents : Nat} {addErr : Option Int}

private theorem handled_accept (hP : ∀ k ∈ handlerKinds, P k) (hroll : ∀ err, addErr = some err → P .acceptRollback)
    (hcq : m.ring.cq = cqe :: rest) (hop : cqe.userData.operation = .accept) (hroom : ¬ maxEvents < 1) :
    Handled P m (processAccept m cqe maxEvents addErr) := by
  unfold processAccept
  by_cases hagain : cqe.res = -Errno.eagain
  · rw [if_pos hagain]
    exact .inr ⟨by simp, rfl, .single (.acceptAgain hcq hop hagain) (hP _ (by decide))⟩
  rw [if_neg hagain, if_neg hroom]
  dsimp only
  by_cases hres : cqe.res < 0
  · rw [if_pos hres]
    have hlog : [Event.mk cqe.res mconNoSession .newConnection].filterMap Event.slotEvent = [] := by
      simp [Event.slotEvent, hres]
    exact .inr ⟨by simp, rfl, hlog ▸ .single (.acceptFailed hcq hop hres) (hP _ (by decide))⟩
  rw [if_neg hres]
  have hres' : 0 ≤ cqe.res := by omega
  split
  · rename_i hpop
    exact .inl ⟨by simp, .single (.acceptNoSlot hcq hop hres' hpop) (hP _ (by decide))⟩
  · rename_i s stack hpop
    cases addErr with
    | none =>
      have hlog : [Event.mk cqe.res s .newConnection].filterMap Event.slotEvent = [(s, .opened)] := by
        simp [Event.slotEvent, hres]
      exact .inr ⟨by simp, rfl, hlog ▸ .single (.accepted hcq hop hres' hpop) (hP _ (by decide))⟩
    | some err =>
      -- the slot which was just popped fits back
      obtain ⟨stack', hpush, -⟩ := C.idxStack.push_of_pop hpop
      simp only [hpush]
      exact .inl ⟨by simp, .single (.acceptRollback hcq hop hres' hpop hpush) (hroll err rfl)⟩

private theorem handled_transfer (hP : ∀ k ∈ handlerKinds, P k) (hcq : m.ring.cq = cqe :: rest) (op : SlotOp)
    (hclose : op ≠ .close) (hop : cqe.userData.operation = op.operation) (hroom : ¬ maxEvents < 1)
    (type : EventType)
    (htype : ∀ res s, Event.slotEvent ⟨res, s, type⟩ = some (s, .answered op)) :
    Handled P m (processTransfer type op.bits m cqe cqe.userData maxEvents) := by
  have hdata : cqe.userData = op.entry cqe.userData.session := by
    rw [SlotOp.entry, ← hop]
  refine .inr ?_
  rw [processTransfer, if_neg hroom]
  refine ⟨by simp, rfl, ?_⟩
  have := Calls.single (.transferred hcq hdata hclose) (hP _ (by decide))
  simpa [htype] using this

private theorem handled_close (hP : ∀ k ∈ handlerKinds, P k) (hcq : m.ring.cq = cqe :: rest)
    (hop : cqe.userData.operation = .close) (hroom : ¬ maxEvents < 1) :
    Handled P m (processClose m cqe cqe.userData maxEvents) := by
  have hdata : cqe.userData = SlotOp.close.entry cqe.userData.session := by
    rw [SlotOp.entry, SlotOp.operation, ← hop]
  unfold processClose
  rw [if_neg hroom]
  dsimp only
  split
  · rename_i hpush
    exact .inl ⟨by simp, .single (.closeNoRoom hcq hdata hpush) (hP _ (by decide))⟩
  · rename_i stack hpush
    exact .inr ⟨by simp, rfl, .single (.closed hcq hdata hpush) (hP _ (by decide))⟩

theorem handled_processCqe (hP : ∀ k ∈ handlerKinds, P k)
    (hroll : ∀ err, addErr = some err → P .acceptRollback) (hcq : m.ring.cq = cqe :: rest)
    (hroom : 0 < maxEvents) : Handled P m (processCqe m cqe maxEvents addErr) := by
  have hroom' : ¬ maxEvents < 1 := by omega
  unfold processCqe
  split <;> rename_i hop
  · exact handled_accept hP hroll hcq hop hroom'
  · exact handled_transfer hP hcq (.reading .read) (by simp) hop hroom' _ fun _ _ => rfl
  · exact handled_transfer hP hcq .write (by simp) hop hroom' _ fun _ _ => rfl
  · exact handled_transfer hP hcq (.reading .drain) (by simp) hop hroom' _ fun _ _ => rfl
  · exact handled_close hP hcq hop hroom'
  · exact .inl ⟨by simp, .nil m⟩

/-! ### The loop -/

/-- A consumed completion moves the peeked pointer: the CQ ring has at least two entries. -/
theorem peek_ne_of_seen (r : Ring) (hcq : r.cq = cqe :: rest) (hentries : 2 ≤ r.cqEntries)
    (moves : List RingMove) : r.ioUringPeekCqe ≠ (r.ioUringCqeSeen.applyAll moves).1.ioUringPeekCqe := by
  obtain ⟨hlen, hhead, -⟩ := Ring.frame_applyAll r.ioUringCqeSeen moves
  unfold Ring.ioUringPeekCqe
  rw [hlen, hhead, if_neg (by rw [hcq]; simp)]
  split
  · simp
  · simp only [Ring.ioUringCqeSeen, ne_eq, Option.some.injEq]
    intro h
    have hdvd := (Nat.modEq_iff_dvd' (Nat.le_succ r.cqHead)).1 h
    rw [Nat.succ_sub (Nat.le_refl _), Nat.sub_self] at hdvd
    have := Nat.le_of_dvd Nat.one_pos hdvd
    omega

theorem moveActs_countDown (m : Instance C) (moves : List RingMove) :
    moveActs (countDown m) moves = moveActs m moves := rfl

namespace LoopState

variable (st : LoopState C) (env : IterEnv) (out : HandlerOut C)

/-- The instance at the moment the loop peeks at the CQ ring. -/
def peeked : Instance C := moveRing st.mcon env.beforePeek

/-- The state in which the loop ends for want of a completion or of room. -/
def stopped : LoopState C :=
  { st with mcon := st.peeked env, acts := st.acts ++ moveActs st.mcon env.beforePeek }

/-- The state in which the loop ends because the handler failed. -/
def failed : LoopState C :=
  { st with
    mcon := out.mcon
    events := st.events ++ out.events
    acts := st.acts ++ moveActs st.mcon env.beforePeek ++ out.acts }

/-- The state after an iteration whose handler consumed the completion. -/
def next : LoopState C where
  mcon := moveRing (countDown out.mcon) env.beforeNextPeek
  eventCount := st.eventCount + out.err.toNat
  iterationCount := st.iterationCount + 1
  events := st.events ++ out.events
  acts := st.acts ++ moveActs st.mcon env.beforePeek ++ out.acts ++ moveActs out.mcon env.beforeNextPeek

end LoopState

/-- The handler of one iteration: what it is given, and that there is room for its event. -/
structure Iteration (maxEvents : Nat) (env : IterEnv) (st : LoopState C) (cqe : Cqe) (out : HandlerOut C) : Prop where
  room : st.eventCount < maxEvents
  cq : ∃ rest, (st.peeked env).ring.cq = cqe :: rest
  out_eq : out = processCqe (st.peeked env) cqe (maxEvents - st.eventCount) env.addErr

/-- The size of the CQ ring is the same after an iteration. -/
theorem Iteration.next_cqEntries {env : IterEnv} {st : LoopState C} {cqe : Cqe} {out : HandlerOut C}
    (hit : Iteration maxEvents env st cqe out) (hentries : 2 ≤ st.mcon.ring.cqEntries) (herr : ¬ out.err < 0) :
    2 ≤ (st.next env out).mcon.ring.cqEntries := by
  obtain ⟨hroom, -, rfl⟩ := hit
  have hring := processCqe_ring (st.peeked env) cqe (Nat.sub_pos_of_lt hroom) env.addErr herr
  have hseen : (countDown (processCqe (st.peeked env) cqe (maxEvents - st.eventCount) env.addErr).mcon).ring =
      (st.peeked env).ring.ioUringCqeSeen := hring
  simp only [LoopState.next, moveRing, (Ring.frame_applyAll _ _).1, hseen, Ring.ioUringCqeSeen]
  rw [LoopState.peeked, moveRing, (Ring.frame_applyAll _ _).1]
  exact hentries

/-- An iteration in terms of the handler; the consumed completion is counted, since the peeked pointer moved. -/
private theorem cqeIteration_eq {env : IterEnv} {st : LoopState C} {cqe : Cqe} {out : HandlerOut C}
    (hentries : 2 ≤ st.mcon.ring.cqEntries) (hit : Iteration maxEvents env st cqe out) :
    cqeIteration maxEvents env st (st.peeked env) (st.acts ++ moveActs st.mcon env.beforePeek) cqe =
      if out.err < 0 then (false, st.failed env out) else (true, st.next env out) := by
  obtain ⟨hroom, ⟨rest, hcq⟩, rfl⟩ := hit
  have hring := processCqe_ring (st.peeked env) cqe (Nat.sub_pos_of_lt hroom) env.addErr
  have hentries' : 2 ≤ (st.peeked env).ring.cqEntries := by
    rw [LoopState.peeked, moveRing, (Ring.frame_applyAll _ _).1]
    exact hentries
  unfold cqeIteration
  generalize processCqe (st.peeked env) cqe (maxEvents - st.eventCount) env.addErr = out at hring ⊢
  dsimp only
  split
  · rfl
  · rename_i herr
    have hpeek := peek_ne_of_seen (st.peeked env).ring hcq hentries' env.beforeNextPeek
    rw [← hring herr] at hpeek
    have hcount : countConsumed (moveRing out.mcon env.beforeNextPeek) (st.peeked env).ring.ioUringPeekCqe
        (moveRing out.mcon env.beforeNextPeek).ring.ioUringPeekCqe =
        moveRing (countDown out.mcon) env.beforeNextPeek := if_pos hpeek
    rw [hcount]
    rfl

/-- The rule of the loop: `J` holds at the start of every iteration, with the fuel that is left, and `K` when the loop
ends. -/
theorem cqeLoop_rule_fuel {env : UringEnv} (J : Nat → LoopState C → Prop) (K : LoopState C → Prop)
    (hentries : ∀ fuel st, J fuel st → 2 ≤ st.mcon.ring.cqEntries)
    (hstop : ∀ fuel st, J (fuel + 1) st →
      (st.peeked (env.iter st.iterationCount)).ring.cq = [] ∨ maxEvents ≤ st.eventCount →
        K (st.stopped (env.iter st.iterationCount)))
    (hnext : ∀ fuel st cqe out, J (fuel + 1) st → Iteration maxEvents (env.iter st.iterationCount) st cqe out →
      ¬ out.err < 0 → J fuel (st.next (env.iter st.iterationCount) out))
    (hfail : ∀ fuel st cqe out, J (fuel + 1) st → Iteration maxEvents (env.iter st.iterationCount) st cqe out →
      out.err < 0 → K (st.failed (env.iter st.iterationCount) out))
    {fuel : Nat} {st st' : LoopState C} (h : cqeLoop maxEvents env fuel st = some st') (hst : J fuel st) : K st' := by
  induction fuel generalizing st with
  | zero => cases h
  | succ fuel ih =>
    unfold cqeLoop at h
    dsimp only at h
    split at h
    · rename_i hcq
      cases h
      exact hstop fuel st hst (.inl hcq)
    · rename_i cqe rest hcq
      split at h
      · rename_i hroom
        obtain ⟨out, hout⟩ : ∃ out, out = processCqe (st.peeked (env.iter st.iterationCount)) cqe
          (maxEvents - st.eventCount) (env.iter st.iterationCount).addErr := ⟨_, rfl⟩
        have hit : Iteration maxEvents (env.iter st.iterationCount) st cqe out := ⟨hroom, ⟨rest, hcq⟩, hout⟩
        have heq := cqeIteration_eq (hentries _ st hst) hit
        rw [LoopState.peeked] at heq
        rw [heq] at h
        by_cases herr : out.err < 0
        · rw [if_pos herr] at h
          cases h
          exact hfail fuel st cqe _ hst hit herr
        · rw [if_neg herr] at h
          exact ih h (hnext fuel st cqe _ hst hit herr)
      · rename_i hroom
        cases h
        exact hstop fuel st hst (.inr (Nat.le_of_not_lt hroom))

/-- The rule for an invariant that does not depend on the fuel. -/
theorem cqeLoop_rule {env : UringEnv} (J K : LoopState C → Prop)
    (hentries : ∀ st, J st → 2 ≤ st.mcon.ring.cqEntries)
    (hstop : ∀ st, J st → K (st.stopped (env.iter st.iterationCount)))
    (hnext : ∀ st cqe out, J st → Iteration maxEvents (env.iter st.iterationCount) st cqe out → ¬ out.err < 0 →
      J (st.next (env.iter st.iterationCount) out))
    (hfail : ∀ st cqe out, J st → Iteration maxEvents (env.iter st.iterationCount) st cqe out → out.err < 0 →
      K (st.failed (env.iter st.iterationCount) out))
    {fuel : Nat} {st st' : LoopState C} (h : cqeLoop maxEvents env fuel st = some st') (hst : J st) : K st' :=
  cqeLoop_rule_fuel (fun _ => J) K (fun _ => hentries) (fun _ st hst _ => hstop st hst) (fun _ => hnext)
    (fun _ => hfail) h hst

/-- What the loop has done between two of its states. -/
structure LoopCalls (P : StepKind → Prop) (st st' : LoopState C) : Prop where
  exists_calls : ∃ acts log, Calls P st.mcon acts log st'.mcon ∧ st'.acts = st.acts ++ acts ∧
    (st'.events.take st'.eventCount).filterMap Event.slotEvent = st.events.filterMap Event.slotEvent ++ log

/-- Peeking at the CQ ring goes on from a state that a path leads to. -/
private theorem LoopCalls.stopped {st x : LoopState C} {env : IterEnv} (hkernel : P .kernel)
    (hx : LoopCalls P st x) : LoopCalls P st (x.stopped env) := by
  obtain ⟨acts, log, hcalls, hacts, hlog⟩ := hx.exists_calls
  refine ⟨_, _, hcalls.trans (calls_moveRing hkernel x.mcon env.beforePeek), ?_, ?_⟩
  · simp only [LoopState.stopped, hacts, List.append_assoc]
  · simp only [LoopState.stopped, hlog, List.append_nil]

/-- So does an iteration. -/
private theorem LoopCalls.iteration {st x : LoopState C} {env : IterEnv} {out : HandlerOut C} (hkernel : P .kernel)
    (hcount : x.eventCount = x.events.length) (hx : LoopCalls P st x) (hhandled : Handled P (x.peeked env) out) :
    (¬ out.err < 0 → (x.next env out).eventCount = (x.next env out).events.length ∧ LoopCalls P st (x.next env out)) ∧
      (out.err < 0 → LoopCalls P st (x.failed env out)) := by
  obtain ⟨acts, log, hcalls, hacts, hlog⟩ :=
    (LoopCalls.stopped hkernel hx : LoopCalls P st (x.stopped env)).exists_calls
  simp only [LoopState.stopped] at hcalls hacts hlog
  constructor
  · intro herr
    obtain ⟨-, hnum, hout⟩ := hhandled.resolve_left fun h => herr h.1
    have hlen : (x.next env out).eventCount = (x.next env out).events.length := by
      simp only [LoopState.next, List.length_append, hcount, hnum]
    refine ⟨hlen, _, _, (hcalls.trans hout).trans (calls_moveRing hkernel _ env.beforeNextPeek), ?_, ?_⟩
    · simp only [LoopState.next, moveActs_countDown, hacts, List.append_assoc]
    · rw [hlen, List.take_length]
      rw [hcount, List.take_length] at hlog
      simp only [LoopState.next, List.filterMap_append, hlog, List.append_assoc, List.append_nil]
  · intro herr
    obtain ⟨-, hout⟩ := hhandled.resolve_right fun h => h.1 herr
    refine ⟨_, _, hcalls.trans hout, ?_, ?_⟩
    · simp only [LoopState.failed, hacts, List.append_assoc]
    · rw [hcount, List.take_length] at hlog
      simp only [LoopState.failed, hcount, List.take_left, hlog, List.append_nil]

theorem calls_cqeLoop {env : UringEnv} (hkernel : P .kernel) (hP : 0 < maxEvents → ∀ k ∈ handlerKinds, P k)
    (hroll : ∀ j err, (env.iter j).addErr = some err → P .acceptRollback) {fuel : Nat} {st st' : LoopState C}
    (h : cqeLoop maxEvents env fuel st = some st') (hentries : 2 ≤ st.mcon.ring.cqEntries)
    (hcount : st.eventCount = st.events.length) : LoopCalls P st st' := by
  have hhandled : ∀ (x : LoopState C) cqe out, Iteration maxEvents (env.iter x.iterationCount) x cqe out →
      Handled P (x.peeked (env.iter x.iterationCount)) out := by
    rintro x cqe out ⟨hroom, ⟨rest, hcq⟩, rfl⟩
    exact handled_processCqe (hP (Nat.zero_lt_of_lt hroom)) (hroll _) hcq (Nat.sub_pos_of_lt hroom)
  refine cqeLoop_rule
    (fun x => 2 ≤ x.mcon.ring.cqEntries ∧ x.eventCount = x.events.length ∧ LoopCalls P st x) (LoopCalls P st)
    (fun _ hx => hx.1) ?_ ?_ ?_ h
    ⟨hentries, hcount, [], [], .nil _, by simp, by rw [hcount, List.take_length, List.append_nil]⟩
  · rintro x ⟨-, -, hx⟩
    exact hx.stopped hkernel
  · rintro x cqe out ⟨hentries, hlen, hx⟩ hit herr
    obtain ⟨hlen', hx'⟩ := (hx.iteration hkernel hlen (hhandled x cqe out hit)).1 herr
    exact ⟨hit.next_cqEntries hentries herr, hlen', hx'⟩
  · rintro x cqe out ⟨-, hlen, hx⟩ hit herr
    exact (hx.iteration hkernel hlen (hhandled x cqe out hit)).2 herr

/-- The rule for the loop of a whole call. -/
theorem cqeLoopResult_rule {env : UringEnv} (J K : LoopState C → Prop) (m : Instance C)
    (hentries : ∀ st, J st → 2 ≤ st.mcon.ring.cqEntries)
    (hstop : ∀ st, J st → K (st.stopped (env.iter st.iterationCount)))
    (hnext : ∀ st cqe out, J st → Iteration maxEvents (env.iter st.iterationCount) st cqe out → ¬ out.err < 0 →
      J (st.next (env.iter st.iterationCount) out))
    (hfail : ∀ st cqe out, J st → Iteration maxEvents (env.iter st.iterationCount) st cqe out → out.err < 0 →
      K (st.failed (env.iter st.iterationCount) out))
    (hstart : J (loopStart m)) : K (cqeLoopResult m maxEvents env) :=
  cqeLoop_rule J K hentries hstop hnext hfail (Option.some_get _).symm hstart

/-- The event is none of a client socket. -/
def Event.OfCompletion (e : Event) : Prop := e.type ≠ .readRdy ∧ e.type ≠ .remoteHangup

theorem processCqe_ofCompletion (m : Instance C) (cqe : Cqe) (maxEvents : Nat) (addErr : Option Int) :
    ∀ e ∈ (processCqe m cqe maxEvents addErr).events, e.OfCompletion := by
  intro e he
  unfold processCqe processRead processWrite processDrain processTransfer processClose processAccept at he
  dsimp only at he
  repeat' split at he
  all_goals simp at he
  all_goals subst he
  all_goals simp [Event.OfCompletion]

/-- What the handlers store is all that the loop stores. -/
theorem cqeLoopResult_forall_events {m : Instance C} (Q : Event → Prop)
    (hQ : ∀ m cqe maxEvents addErr, ∀ e ∈ (processCqe (C := C) m cqe maxEvents addErr).events, Q e)
    (hentries : 2 ≤ m.ring.cqEntries) (maxEvents : Nat) (env : UringEnv) :
    ∀ e ∈ (cqeLoopResult m maxEvents env).events, Q e := by
  refine cqeLoopResult_rule (fun st => 2 ≤ st.mcon.ring.cqEntries ∧ ∀ e ∈ st.events, Q e)
    (fun st => ∀ e ∈ st.events, Q e) m (fun _ hst => hst.1) (fun _ hst => hst.2) ?_ ?_
    ⟨hentries, by simp [loopStart]⟩
  · rintro st cqe out ⟨hentries, hst⟩ hit herr
    refine ⟨hit.next_cqEntries hentries herr, fun e he => ?_⟩
    rcases List.mem_append.1 he with he | he
    · exact hst e he
    · exact hQ _ _ _ _ e (hit.out_eq ▸ he)
  · rintro st cqe out ⟨-, hst⟩ hit - e he
    rcases List.mem_append.1 he with he | he
    · exact hst e he
    · exact hQ _ _ _ _ e (hit.out_eq ▸ he)

/-- The loop reports completions only. -/
theorem cqeLoopResult_ofCompletion {m : Instance C} (hentries : 2 ≤ m.ring.cqEntries) (maxEvents : Nat)
    (env : UringEnv) : ∀ e ∈ (cqeLoopResult m maxEvents env).events, e.OfCompletion :=
  cqeLoopResult_forall_events Event.OfCompletion processCqe_ofCompletion hentries maxEvents env

/-- The events and the value of a call are those of its loop. -/
theorem processIoUringEvent_events (m : Instance C) (maxEvents : Nat) (env : UringEnv) :
    (mconProcessIoUringEvent m maxEvents env).2.events = (cqeLoopResult m maxEvents env).events := by
  unfold mconProcessIoUringEvent
  dsimp only
  split <;> rfl

theorem processIoUringEvent_rc (m : Instance C) (maxEvents : Nat) (env : UringEnv) :
    (mconProcessIoUringEvent m maxEvents env).2.rc = (cqeLoopResult m maxEvents env).eventCount := by
  unfold mconProcessIoUringEvent
  dsimp only
  split <;> rfl

private theorem calls_eventfd (hk : P .eventfd) (m : Instance C) (n : Nat) {a : Act}
    (ha : a = .eventfdRead ∨ a = .eventfdWrite) :
    Calls P m [a] [] { m with ring := { m.ring with eventfd := n } } :=
  .single (.eventfd ha) hk

theorem calls_clearEventfd (hkernel : P .kernel) (heventfd : P .eventfd) (m : Instance C) (env : UringEnv) :
    Calls P m (clearEventfd m env).2 [] (clearEventfd m env).1 := by
  have hread := (calls_moveRing hkernel m env.beforeRead).trans (calls_eventfd heventfd _ 0 (.inl rfl))
  have hready := hread.trans (calls_moveRing hkernel _ env.beforeReady)
  unfold clearEventfd
  dsimp only
  split
  · exact (hready.trans (calls_moveRing hkernel _ env.beforeWrite)).trans
      (calls_eventfd heventfd _ _ (.inr rfl))
  · exact hready

theorem calls_processIoUringEvent {env : UringEnv} (hkernel : P .kernel) (heventfd : P .eventfd)
    (hP : 0 < maxEvents → ∀ k ∈ handlerKinds, P k)
    (hroll : ∀ j err, (env.iter j).addErr = some err → P .acceptRollback) (m : Instance C)
    (hentries : 2 ≤ m.ring.cqEntries) :
    Calls P m (mconProcessIoUringEvent m maxEvents env).2.acts
      ((mconProcessIoUringEvent m maxEvents env).2.reported.filterMap Event.slotEvent)
      (mconProcessIoUringEvent m maxEvents env).1 := by
  have hloop : cqeLoop maxEvents env (m.ring.unconsumed + 1) (loopStart m) =
      some (cqeLoopResult m maxEvents env) := (Option.some_get _).symm
  obtain ⟨acts, log, hcalls, hacts, hlog⟩ :=
    (calls_cqeLoop hkernel hP hroll hloop hentries rfl).exists_calls
  simp only [loopStart, List.nil_append, List.filterMap_nil] at hacts hlog hcalls
  unfold mconProcessIoUringEvent
  dsimp only
  split
  · simp only [Output.reported, Int.toNat_natCast, hlog, hacts]
    simpa using hcalls.trans (calls_clearEventfd hkernel heventfd _ env)
  · simp only [Output.reported, Int.toNat_natCast, hlog, hacts]
    exact hcalls

/-! ### Events of client sockets -/

/-- The events of a client socket say nothing about the life of its slot. -/
theorem slotEvent_sessionEvents (epollEvents : UInt32) (s : Nat) (rdhup : Bool)
    (sockopt : SockoptResult) : (sessionEvents epollEvents s rdhup sockopt).filterMap Event.slotEvent = [] := by
  rw [List.filterMap_eq_nil_iff]
  intro e he
  simp only [sessionEvents, List.mem_append] at he
  rcases he with ((he | he) | he) | he <;> (repeat' split at he) <;> simp at he <;> subst he <;> rfl

private theorem calls_processSessionEvent (hlookKind : P .look) (hrdhup : P .rdhup) (m : Instance C)
    (epollEvents : UInt32) (epollData : EpollEntry) (maxEvents : Nat) (sockopt : SockoptResult) :
    Calls P m (mconProcessSessionEvent m epollEvents epollData maxEvents sockopt).2.acts
      ((mconProcessSessionEvent m epollEvents epollData maxEvents sockopt).2.reported.filterMap
        Event.slotEvent)
      (mconProcessSessionEvent m epollEvents epollData maxEvents sockopt).1 := by
  unfold mconProcessSessionEvent
  dsimp only
  split
  · exact .nil m
  rename_i hvalid
  split
  · exact .nil m
  have hlt : epollData.session.toNat < m.configuration.sessionCount.toNat := by
    simp only [Bool.or_eq_true, Bool.not_eq_true', decide_eq_false_iff_not, not_or, not_not] at hvalid
    exact UInt32.lt_iff_toNat_lt.1 hvalid.2
  have hlook : Calls P m [.sessionsAt epollData.session.toNat] [] m :=
    .single (.look hlt (.inl rfl)) hlookKind
  split
  · exact hlook
  -- the latch is set after the record was read, before the socket is queried
  have hset : Calls P m [] []
      (if epollEvents &&& epollrdhup != 0 then setStateBits m epollData.session.toNat stateRdhup else m) := by
    split
    · exact .single (.rdhup hlt) hrdhup
    · exact .nil m
  split
  · have hsock := Calls.single (.look hlt (.inr ⟨sockopt.errno, rfl⟩)) hlookKind
    have hall := (hlook.trans hsock).trans hset
    cases hres : sockopt.errno with
    | none =>
      rw [hres] at hall
      simp only [Output.reported, Int.toNat_natCast, List.take_length, slotEvent_sessionEvents]
      exact hall
    | some err =>
      rw [hres] at hall
      exact hall
  · simp only [Output.reported, Int.toNat_natCast, List.take_length, slotEvent_sessionEvents]
    exact hlook.trans hset

/-! ### The dispatch -/

/-- The call with a payload of the instance that names the io_uring instance. -/
theorem mconProcessEvent_ioUring {m : Instance C} {data : UInt64} (howns : mconOwnsEvent m data = true)
    (hsource : (mconDecodeEpollEntry data).source = epollSourceIoUring) (epollEvents : UInt32) (eventCapacity : Nat)
    (env : ProcessEnv) :
    mconProcessEvent m data epollEvents eventCapacity env = mconProcessIoUringEvent m eventCapacity env.uring := by
  unfold mconProcessEvent
  simp only [howns, hsource]
  rfl

/-- The call with a payload of the instance that names a session. -/
theorem mconProcessEvent_session {m : Instance C} {data : UInt64} (howns : mconOwnsEvent m data = true)
    (hsource : (mconDecodeEpollEntry data).source = epollSourceSession) (epollEvents : UInt32) (eventCapacity : Nat)
    (env : ProcessEnv) :
    mconProcessEvent m data epollEvents eventCapacity env =
      mconProcessSessionEvent m epollEvents (mconDecodeEpollEntry data) eventCapacity env.sockopt := by
  unfold mconProcessEvent
  simp only [howns, hsource]
  rfl

/-- Where `mcon_process_event` goes with an event. -/
inductive Dispatched (m : Instance C) (data : UInt64) (epollEvents : UInt32) (eventCapacity : Nat) (env : ProcessEnv) :
    Prop
  | refused (errno : Option Int) :
      (mconOwnsEvent m data = true → (mconDecodeEpollEntry data).source ≠ epollSourceIoUring ∧
        (mconDecodeEpollEntry data).source ≠ epollSourceSession) →
      mconProcessEvent m data epollEvents eventCapacity env = (m, .ret (-1) errno []) →
      Dispatched m data epollEvents eventCapacity env
  | serverSocket : mconOwnsEvent m data = true → (mconDecodeEpollEntry data).source = epollSourceServerSocket →
      mconProcessEvent m data epollEvents eventCapacity env =
        (if epollEvents &&& epollin != 0 then requestAccepts m else m, .ret 0 none []) →
      Dispatched m data epollEvents eventCapacity env
  | ioUring : mconOwnsEvent m data = true → (mconDecodeEpollEntry data).source = epollSourceIoUring →
      mconProcessEvent m data epollEvents eventCapacity env = mconProcessIoUringEvent m eventCapacity env.uring →
      Dispatched m data epollEvents eventCapacity env
  | session : mconOwnsEvent m data = true → (mconDecodeEpollEntry data).source = epollSourceSession →
      mconProcessEvent m data epollEvents eventCapacity env =
        mconProcessSessionEvent m epollEvents (mconDecodeEpollEntry data) eventCapacity env.sockopt →
      Dispatched m data epollEvents eventCapacity env

theorem dispatched (m : Instance C) (data : UInt64) (epollEvents : UInt32) (eventCapacity : Nat) (env : ProcessEnv) :
    Dispatched m data epollEvents eventCapacity env := by
  by_cases howns : mconOwnsEvent m data = true
  · by_cases hserver : (mconDecodeEpollEntry data).source = epollSourceServerSocket
    · refine .serverSocket howns hserver ?_
      unfold mconProcessEvent mconProcessServerSocketEvent
      simp only [howns, hserver]
      by_cases hin : (epollEvents &&& epollin != 0) = true <;> simp [hin, requestAccepts]
    by_cases hring : (mconDecodeEpollEntry data).source = epollSourceIoUring
    · exact .ioUring howns hring (mconProcessEvent_ioUring howns hring epollEvents eventCapacity env)
    by_cases hsession : (mconDecodeEpollEntry data).source = epollSourceSession
    · exact .session howns hsession (mconProcessEvent_session howns hsession epollEvents eventCapacity env)
    · refine .refused none (fun _ => ⟨hring, hsession⟩) ?_
      unfold mconProcessEvent
      simp [howns, hserver, hring, hsession]
  · refine .refused (some Errno.einval) (fun h => absurd h howns) ?_
    unfold mconProcessEvent
    simp [howns]

/-- The event makes `mcon_process_event` go through the CQ ring. -/
def HandlesCompletions (m : Instance C) (data : UInt64) (eventCapacity : Nat) : Prop :=
  mconOwnsEvent m data = true ∧ (mconDecodeEpollEntry data).source = epollSourceIoUring ∧ 0 < eventCapacity

/-- The kinds of small steps of an event that does not lead to the CQ ring. -/
def otherEventKinds : List StepKind := [.kernel, .eventfd, .look, .rdhup, .acceptsRequested]

theorem otherEventKinds_subset : otherEventKinds ⊆ processKinds := by
  decide

theorem calls_processEvent {env : ProcessEnv} (m : Instance C) (data : UInt64) (epollEvents : UInt32)
    (eventCapacity : Nat) (hother : ∀ k ∈ otherEventKinds, P k)
    (hP : HandlesCompletions m data eventCapacity → ∀ k ∈ processKinds, P k)
    (hroll : ∀ j err, (env.uring.iter j).addErr = some err → P .acceptRollback)
    (hentries : 2 ≤ m.ring.cqEntries) :
    Calls P m (mconProcessEvent m data epollEvents eventCapacity env).2.acts
      ((mconProcessEvent m data epollEvents eventCapacity env).2.reported.filterMap Event.slotEvent)
      (mconProcessEvent m data epollEvents eventCapacity env).1 := by
  cases dispatched m data epollEvents eventCapacity env with
  | refused errno _ hcall =>
    rw [hcall]
    exact .nil m
  | serverSocket _ _ hcall =>
    rw [hcall]
    split
    · exact .single .acceptsRequested (hother _ (by decide))
    · exact .nil m
  | ioUring howns hsource hcall =>
    rw [hcall]
    exact calls_processIoUringEvent (hother _ (by decide)) (hother _ (by decide))
      (fun hroom k hk => hP ⟨howns, hsource, hroom⟩ k (handlerKinds_subset hk)) hroll m hentries
  | session _ _ hcall =>
    rw [hcall]
    exact calls_processSessionEvent (hother _ (by decide)) (hother _ (by decide)) m epollEvents _ eventCapacity
      env.sockopt

/-! ### Every input -/

/-- Every input is a sequence of small steps of its kinds, which emit the actions of the call and what the
application sees of the slots. -/
theorem calls_step (m : Instance C) (hentries : 2 ≤ m.ring.cqEntries) (i : Input) :
    Calls i.allows m (step m i).2.acts (slotEventsOf (i, (step m i).2)) (step m i).1 := by
  cases i with
  | start probe l e env =>
    exact calls_start m probe l e env (by simp [Input.allows]) (by simp [Input.allows]) (by simp [Input.allows])
  | shutdown delErr => exact calls_shutdown m delErr (by simp [Input.allows]) (by simp [Input.allows])
  | processEvent data epollEvents eventCapacity env =>
    exact calls_processEvent m data epollEvents eventCapacity (fun k hk => .inl (otherEventKinds_subset hk))
      (fun _ k hk => .inl hk) (fun j err h => .inr ⟨rfl, j, err, h⟩) hentries
  | submit res =>
    exact calls_submit m (calls_submitAccepts (by simp [Input.allows]) m) (by simp [Input.allows])
      (by simp [Input.allows]) (by simp [Input.allows]) res
  | read session buf count =>
    exact calls_sessionRequest (by simp [Input.allows]) (by simp [Input.allows]) m session
      (.reading .read) rfl rfl rfl
  | write session buf count =>
    exact calls_sessionRequest (by simp [Input.allows]) (by simp [Input.allows]) m session .write rfl rfl
      rfl
  | drain session count =>
    exact calls_sessionRequest (by simp [Input.allows]) (by simp [Input.allows]) m session
      (.reading .drain) rfl rfl rfl
  | close session =>
    exact calls_sessionRequest (by simp [Input.allows]) (by simp [Input.allows]) m session .close rfl rfl
      rfl
  | detach session delErr =>
    exact calls_detach (by simp [Input.allows]) (by simp [Input.allows]) (by simp [Input.allows])
      (by simp [Input.allows]) m session delErr (fun h _ _ => by simp [Input.allows, h])
  | kernel move => exact calls_moveRing (by simp [Input.allows]) m [move]

/-! ### What is reported -/

theorem sessionRequest_events (m : Instance C) (s : Nat) (incompatibleStates : UInt8) (sqe : Sqe) (bits : UInt8) :
    (sessionRequest m s incompatibleStates sqe bits).2.events = [] := by
  unfold sessionRequest
  split
  · rfl
  split <;> rfl

/-- Only `mcon_process_event` stores events. -/
theorem step_events_nil (m : Instance C) {i : Input}
    (hi : ∀ data epollEvents eventCapacity env, i ≠ .processEvent data epollEvents eventCapacity env) :
    (step m i).2.events = [] := by
  cases i with
  | start probe l e env =>
    show (mconStart m probe l e env).2.events = []
    unfold mconStart
    dsimp only
    repeat' split
    all_goals rfl
  | shutdown delErr =>
    show (mconShutdown m delErr).2.events = []
    unfold mconShutdown
    repeat' split
    all_goals rfl
  | processEvent data epollEvents eventCapacity env => exact absurd rfl (hi data epollEvents eventCapacity env)
  | submit res =>
    show (mconSubmit m res).2.events = []
    unfold mconSubmit submitRing
    dsimp only
    repeat' split
    all_goals rfl
  | detach session delErr =>
    show (mconSessionDetach m session delErr).2.events = []
    cases mconSessionDetach_outcome m session delErr with
    | refused _ _ hcall | noRoom _ _ hcall | done _ _ _ _ hcall | undone _ _ _ _ _ _ _ _ hcall
    | halfDone _ _ _ _ hcall =>
      rw [hcall]
      rfl
  | kernel move => rfl
  | _ => exact sessionRequest_events m _ _ _ _

/-- A new connection that is reported opens a slot. -/
theorem opened_of_reported (m : Instance C) (i : Input) {e : Event} (he : e ∈ (step m i).2.reported)
    (htype : e.type = .newConnection) (hres : ¬ e.result < 0) :
    (e.session, .opened) ∈ slotEventsOf (i, (step m i).2) := by
  by_cases hi : ∃ data epollEvents eventCapacity env, i = .processEvent data epollEvents eventCapacity env
  · obtain ⟨data, epollEvents, eventCapacity, env, rfl⟩ := hi
    refine List.mem_filterMap.2 ⟨e, he, ?_⟩
    simp [Event.slotEvent, htype, hres]
  · have hnil := step_events_nil m (i := i) fun data epollEvents eventCapacity env h =>
      hi ⟨data, epollEvents, eventCapacity, env, h⟩
    rw [Output.reported, hnil, List.take_nil] at he
    cases he

end Mcon
