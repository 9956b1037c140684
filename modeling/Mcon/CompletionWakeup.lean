import Mcon.Payloads
import Mcon.Registrations
import Mcon.SessionEvents

/-!
# The wakeup for completions

The eventfd is registered level-triggered, so what has to hold between two calls is that a completion in the CQ ring
keeps it readable or has its signal still to come.  Only the end of a call that came to no handler's success reads
the eventfd, and it looks at the CQ ring once more afterwards.
-/

namespace Mcon

open Transition (Run Path AllOk history finalState)

variable {C : Ctools} {m m' : Instance C} {k : StepKind} {obs : List Obs}

/-- A completion that waits in the CQ ring shows on the eventfd, or its signal is on the way. -/
def Signalled (m : Instance C) : Prop := m.ring.cq ≠ [] → 0 < m.ring.eventfd ∨ 0 < m.ring.owedSignals

/-- A step that posts nothing and leaves the eventfd alone. -/
theorem Signalled.of_cq (hs : Signalled m) (hcq : m'.ring.cq ≠ [] → m.ring.cq ≠ [])
    (heventfd : m'.ring.eventfd = m.ring.eventfd) (howed : m'.ring.owedSignals = m.ring.owedSignals) :
    Signalled m' := by
  intro hne
  rw [heventfd, howed]
  exact hs (hcq hne)

theorem Signalled.seen (hs : Signalled m) (hring : m'.ring = m.ring.ioUringCqeSeen) : Signalled m' := by
  refine hs.of_cq (fun hne hnil => hne ?_) (by rw [hring]; rfl) (by rw [hring]; rfl)
  rw [hring, Ring.ioUringCqeSeen, hnil]
  rfl

/-- Every step but the accesses of the program to the eventfd. -/
theorem Signalled.smallStep (hs : Signalled m) (hk : k ≠ .eventfd) (h : SmallStep m k obs m') : Signalled m' := by
  cases h with
  | kernel hstep =>
    cases hstep with
    | idle => exact hs
    | exec => exact hs.of_cq (fun hne => hne) rfl rfl
    | post => exact fun _ => .inr (Nat.succ_pos _)
    | signal => exact fun _ => .inl (Nat.succ_pos _)
  | pop hpop =>
    obtain @⟨_, _, _, _, sqe, -, -⟩ := hpop
    exact hs.of_cq (fun hne => hne) rfl rfl
  | acceptAgain => exact hs.seen rfl
  | acceptFailed => exact hs.seen rfl
  | acceptNoSlot => exact hs.seen rfl
  | acceptRollback => exact hs.seen rfl
  | accepted => exact hs.seen rfl
  | transferred => exact hs.seen rfl
  | closed => exact hs.seen (closeDone_ring _ _ _)
  | @detached s stack _ _ =>
    have hring : (detachDone m s stack).ring = m.ring := detachDone_ring _ _ _
    exact hs.of_cq (fun hne => hring ▸ hne) (by rw [hring]) (by rw [hring])
  | eventfd => exact absurd rfl hk
  | _ => exact hs.of_cq (fun hne => hne) rfl rfl

/-- Reading the eventfd is made good by the look at the CQ ring after it. -/
theorem signalled_clearEventfd (m : Instance C) (env : UringEnv) : Signalled (clearEventfd m env).1 := by
  unfold clearEventfd
  dsimp only
  split
  · exact fun _ => .inl (Nat.succ_pos _)
  · rename_i hready
    intro hne
    exact absurd (fun h0 => hne (List.length_eq_zero_iff.1 h0)) hready

theorem Signalled.processIoUringEvent (hs : Signalled m) (hm : WellFormed m) (maxEvents : Nat) (env : UringEnv) :
    Signalled (mconProcessIoUringEvent m maxEvents env).1 := by
  unfold mconProcessIoUringEvent
  dsimp only
  split
  · exact signalled_clearEventfd _ env
  · have hloop : cqeLoop maxEvents env (m.ring.unconsumed + 1) (loopStart m) =
        some (cqeLoopResult m maxEvents env) := (Option.some_get _).symm
    have hkinds : ∀ k ∈ handlerKinds, k ≠ .eventfd := by
      rintro k hk rfl
      simp [handlerKinds] at hk
    obtain ⟨acts, log, hcalls, -⟩ := (calls_cqeLoop (P := fun k => k ≠ .eventfd) (by simp) (fun _ => hkinds)
      (fun _ _ _ => by simp) hloop hm.cq_entries rfl).exists_calls
    exact hcalls.invariant Signalled (fun _ _ _ _ hk hstep hx => hx.smallStep hk hstep) hs

/-- One call. -/
theorem Signalled.step (hs : Signalled m) (hm : WellFormed m) (i : Input) : Signalled (step m i).1 := by
  by_cases hevent : ∃ data epollEvents eventCapacity env, i = .processEvent data epollEvents eventCapacity env
  · obtain ⟨data, epollEvents, eventCapacity, env, rfl⟩ := hevent
    show Signalled (mconProcessEvent m data epollEvents eventCapacity env).1
    cases dispatched m data epollEvents eventCapacity env with
    | refused errno _ hcall =>
      rw [hcall]
      exact hs
    | serverSocket _ _ hcall =>
      rw [hcall]
      split
      · exact hs.of_cq (fun hne => hne) rfl rfl
      · exact hs
    | ioUring _ _ hcall =>
      rw [hcall]
      exact hs.processIoUringEvent hm eventCapacity env.uring
    | session _ _ hcall =>
      rw [hcall]
      rcases processSessionEvent_instance m epollEvents (mconDecodeEpollEntry data) eventCapacity env.sockopt with
        h | h
      · rw [h]
        exact hs
      · rw [h]
        exact hs.of_cq (fun hne => hne) rfl rfl
  · refine (calls_step m hm.cq_entries i).invariant Signalled (fun _ k _ _ hk hstep hx => hx.smallStep ?_ hstep) hs
    rintro rfl
    cases i with
    | processEvent data epollEvents eventCapacity env => exact hevent ⟨data, epollEvents, eventCapacity, env, rfl⟩
    | _ => simp [Input.allows] at hk

/-- After every run, with a completion in the CQ ring the eventfd is readable or the kernel owes a signal; and every
start that succeeded has registered the eventfd for input, level-triggered. -/
theorem completion_wakeup_not_lost {h : History} (he : Execution anyInput h m) :
    (m.ring.cq ≠ [] → 0 < m.ring.eventfd ∨ 0 < m.ring.owedSignals) ∧
      ∀ probe l e env out, (.start probe l e env, out) ∈ h → out.rc = 0 →
        ∃ events, Act.epollAdd e m.ioUringEventfd (instancePayload m epollSourceIoUring) events none ∈ actsOf h ∧
          events &&& epollin ≠ 0 ∧ events &&& epollet = 0 := by
  constructor
  · exact (he.invariant_of_inputs Signalled (fun _ _ _ _ hne => absurd rfl hne)
      (fun _ i _ hm hs => hs.step hm i)).2
  · intro probe l e env out hstart hrc
    obtain ⟨config, m₀, hcreated, hr⟩ := he
    obtain ⟨hvalid, instanceId, eventfd, -, rfl⟩ := created_eq hcreated
    have hm := newInstance_wellFormed (C := C) hvalid instanceId eventfd
    obtain ⟨h₁, m₁, hr₁, -, hout⟩ := hr.step_of_mem hstart
    dsimp only at hout
    subst hout
    have hadd := mconStart_epollAdd hrc
    have hpayload : instancePayload m₁ epollSourceIoUring = instancePayload m epollSourceIoUring := by
      rw [instancePayload, instancePayload, (Run.frame hm hr₁).instanceId, (Run.frame hm hr).instanceId]
    rw [(Run.frame hm hr₁).eventfd, ← (Run.frame hm hr).eventfd, hpayload] at hadd
    exact ⟨_, List.mem_flatMap.2 ⟨_, hstart, hadd⟩, by decide, by decide⟩

/-- A completion is posted between the failed peek of a call and its read of the eventfd. -/
def racingInput : Input :=
  .processEvent (instancePayload (freshInstance mconConfigDefault) epollSourceIoUring) epollin 8
    ⟨{ UringEnv.quiet with beforeRead := [.exec 0 20, .post 0, .signal] }, ⟨none, 0⟩⟩

theorem completion_wakeup_not_lost_racing :
    let m := finalState step (freshInstance (smallConfig 2 4 1)) [startInput, serverInput, .submit 1, racingInput]
    m.ring.cq ≠ [] ∧ (0 < m.ring.eventfd ∨ 0 < m.ring.owedSignals) := by
  have hrun : Execution anyInput _ _ := Execution.of_inputs (smallConfig 2 4 1) (by decide)
    [startInput, serverInput, .submit 1, racingInput] (.of_forall (fun _ _ _ => trivial) _)
  exact ⟨by decide, (completion_wakeup_not_lost hrun).1 (by decide)⟩

end Mcon
