import Mcon.EventProcessing

/-!
# The completion loop (`mcon_process_io_uring_event`)

The loop that drains the CQ ring.  The kernel may take steps before every access the loop makes to the ring, and
each completion of an accept brings the result of one `EPOLL_CTL_ADD`; both are given by a `UringEnv`.  The loop
is written with fuel, and `cqeLoop_isSome` shows that the number of operations in flight is always enough.  A handler
is one step: between `io_uring_cqe_seen` and its last read of the completion the kernel does not reuse the entry, which
it could only do with a full CQ ring.
-/

namespace Mcon

variable {C : Ctools}

/-- What the environment does during one iteration. -/
structure IterEnv where
  beforePeek : List RingMove
  addErr : Option Int
  beforeNextPeek : List RingMove

/-- What the environment does during one call. -/
structure UringEnv where
  iter : Nat → IterEnv
  beforeRead : List RingMove
  beforeReady : List RingMove
  beforeWrite : List RingMove

/-- An environment in which the kernel is at rest and every `EPOLL_CTL_ADD` succeeds. -/
def UringEnv.quiet : UringEnv := ⟨fun _ => ⟨[], none, []⟩, [], [], []⟩

def moveRing (m : Instance C) (moves : List RingMove) : Instance C :=
  { m with ring := (m.ring.applyAll moves).1 }

def moveActs (m : Instance C) (moves : List RingMove) : List Act := (m.ring.applyAll moves).2

/-- The local variables of the loop, the instance, and what was stored and done so far. -/
structure LoopState (C : Ctools) where
  mcon : Instance C
  eventCount : Nat
  iterationCount : Nat
  events : List Event
  acts : List Act

/-- `state.sqe_in_flight -= cqe != next_cqe`, with the pointers from before and after the handler. -/
def countConsumed (m : Instance C) (cqe nextCqe : Option Nat) : Instance C :=
  if cqe ≠ nextCqe then { m with state := { m.state with sqeInFlight := m.state.sqeInFlight - 1 } } else m

/-- One iteration on the completion `cqe` at the head of the CQ ring of `m`: the state after it, and whether the
loop goes on. -/
def cqeIteration (maxEvents : Nat) (env : IterEnv) (st : LoopState C) (m : Instance C) (acts : List Act)
    (cqe : Cqe) : Bool × LoopState C :=
  let out := processCqe m cqe (maxEvents - st.eventCount) env.addErr
  if out.err < 0 then
    (false, ⟨out.mcon, st.eventCount, st.iterationCount, st.events ++ out.events, acts ++ out.acts⟩)
  else
    let m' := moveRing out.mcon env.beforeNextPeek
    (true,
      ⟨countConsumed m' m.ring.ioUringPeekCqe m'.ring.ioUringPeekCqe, st.eventCount + out.err.toNat,
        st.iterationCount + 1, st.events ++ out.events,
        acts ++ out.acts ++ moveActs out.mcon env.beforeNextPeek⟩)

/-- The `for` loop; `none` means that the fuel ran out. -/
def cqeLoop (maxEvents : Nat) (env : UringEnv) : Nat → LoopState C → Option (LoopState C)
  | 0, _ => none
  | fuel + 1, st =>
    let ienv := env.iter st.iterationCount
    let m := moveRing st.mcon ienv.beforePeek
    let acts := st.acts ++ moveActs st.mcon ienv.beforePeek
    match m.ring.cq with
    | [] => some { st with mcon := m, acts := acts }
    | cqe :: _ =>
      if st.eventCount < maxEvents then
        match cqeIteration maxEvents ienv st m acts cqe with
        | (true, st') => cqeLoop maxEvents env fuel st'
        | (false, st') => some st'
      else some { st with mcon := m, acts := acts }

/-! ### The loop ends -/

/-- With room for an event, a handler that reports no error has consumed exactly the completion it was given. -/
theorem processCqe_ring (m : Instance C) (cqe : Cqe) {maxEvents : Nat} (hroom : 0 < maxEvents)
    (addErr : Option Int) (herr : ¬ (processCqe m cqe maxEvents addErr).err < 0) :
    (processCqe m cqe maxEvents addErr).mcon.ring = m.ring.ioUringCqeSeen := by
  have hroom' : ¬ maxEvents < 1 := by omega
  unfold processCqe at herr ⊢
  cases hop : cqe.userData.operation with
  | unknown => simp [hop] at herr
  | accept =>
    simp only [hop, processAccept, if_neg hroom'] at herr ⊢
    split
    · rfl
    · rename_i hagain
      rw [if_neg hagain] at herr
      split
      · rfl
      · rename_i hres
        rw [if_neg hres] at herr
        split
        · rename_i hpop
          simp [hpop] at herr
        · rename_i newSession stack hpop
          simp only [hpop] at herr
          cases addErr with
          | none => rfl
          | some e =>
            cases hpush : C.idxStack.push stack newSession <;> simp [hpush] at herr
  | read => simp only [processRead, processTransfer, if_neg hroom']; rfl
  | write => simp only [processWrite, processTransfer, if_neg hroom']; rfl
  | drain => simp only [processDrain, processTransfer, if_neg hroom']; rfl
  | close =>
    simp only [hop, processClose, if_neg hroom'] at herr ⊢
    split
    · rename_i hpush
      simp [hpush] at herr
    · simp [clearStateBits, Instance.cqeSeen, sessionResetAfterClose]

@[simp] theorem countConsumed_ring (m : Instance C) (p q : Option Nat) : (countConsumed m p q).ring = m.ring := by
  unfold countConsumed
  split <;> rfl

theorem unconsumed_moveRing (m : Instance C) (moves : List RingMove) :
    (moveRing m moves).ring.unconsumed = m.ring.unconsumed := m.ring.unconsumed_applyAll moves

/-- An iteration after which the loop goes on has consumed one operation. -/
theorem unconsumed_cqeIteration {maxEvents : Nat} {env : IterEnv} {st st' : LoopState C} {m : Instance C}
    {acts : List Act} {cqe : Cqe} {rest : List Cqe} (hcq : m.ring.cq = cqe :: rest)
    (hroom : st.eventCount < maxEvents) (h : cqeIteration maxEvents env st m acts cqe = (true, st')) :
    st'.mcon.ring.unconsumed + 1 = m.ring.unconsumed := by
  unfold cqeIteration at h
  dsimp only at h
  split at h
  · cases h
  · rename_i herr
    cases h
    have hring := processCqe_ring m cqe (Nat.sub_pos_of_lt hroom) env.addErr herr
    dsimp only
    rw [countConsumed_ring, unconsumed_moveRing, hring]
    simp only [Ring.unconsumed, Ring.ioUringCqeSeen, hcq, List.tail_cons, List.length_cons]
    omega

/-- Fuel above the number of operations in the kernel and in the CQ ring is enough. -/
theorem cqeLoop_isSome (maxEvents : Nat) (env : UringEnv) (fuel : Nat) (st : LoopState C)
    (hfuel : st.mcon.ring.unconsumed < fuel) : (cqeLoop maxEvents env fuel st).isSome := by
  induction fuel generalizing st with
  | zero => omega
  | succ fuel ih =>
    unfold cqeLoop
    dsimp only
    split
    · rfl
    · rename_i cqe rest hcq
      split
      · rename_i hroom
        split
        · rename_i st' hit
          apply ih
          have hless := unconsumed_cqeIteration hcq hroom hit
          rw [unconsumed_moveRing] at hless
          omega
        · rfl
      · rfl

def loopStart (m : Instance C) : LoopState C := ⟨m, 0, 0, [], []⟩

/-- The state after the loop. -/
def cqeLoopResult (m : Instance C) (maxEvents : Nat) (env : UringEnv) : LoopState C :=
  (cqeLoop maxEvents env (m.ring.unconsumed + 1) (loopStart m)).get
    (cqeLoop_isSome maxEvents env _ _ (Nat.lt_succ_self _))

/-- Reading the eventfd, and writing to it again if a completion showed up meanwhile. -/
def clearEventfd (m : Instance C) (env : UringEnv) : Instance C × List Act :=
  let m₁ := moveRing m env.beforeRead
  let m₂ := { m₁ with ring := { m₁.ring with eventfd := 0 } }
  let m₃ := moveRing m₂ env.beforeReady
  let acts := moveActs m env.beforeRead ++ [.eventfdRead] ++ moveActs m₂ env.beforeReady
  if m₃.ring.ioUringCqReady ≠ 0 then
    let m₄ := moveRing m₃ env.beforeWrite
    ({ m₄ with ring := { m₄.ring with eventfd := m₄.ring.eventfd + 1 } },
      acts ++ moveActs m₃ env.beforeWrite ++ [.eventfdWrite])
  else (m₃, acts)

def mconProcessIoUringEvent (m : Instance C) (maxEvents : Nat) (env : UringEnv) : Instance C × Output :=
  let st := cqeLoopResult m maxEvents env
  if st.iterationCount = 0 then
    let cleared := clearEventfd st.mcon env
    (cleared.1, ⟨st.eventCount, none, st.events, st.acts ++ cleared.2⟩)
  else (st.mcon, ⟨st.eventCount, none, st.events, st.acts⟩)

end Mcon
