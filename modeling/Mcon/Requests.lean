import Mcon.Library.Ledger
import Mcon.Operations
import Mcon.SessionSockets

/-!
# What the kernel is asked to do

Every session call that returns `0` leads to one submission, with the arguments of the call and the descriptor that the
application knows for the session; besides these there are only the accepts.  A submission is executed at most once,
and until then it is held by the instance.
-/

namespace Mcon

open Transition (Run Path Ledger AllOk history finalState)

variable {C : Ctools} {m m' : Instance C} {k : StepKind} {obs : List Obs}

/-! ### The ledger of submissions -/

def Act.pushed? : Act → Option Sqe
  | ioQueuePush sqe => some sqe
  | _ => none

def Act.executed? : Act → Option Sqe
  | exec sqe _ => some sqe
  | _ => none

/-- An instance holds its submissions, `io_queue_push` puts them in and the kernel takes them out. -/
def submissions (C : Ctools) : Ledger (Instance C) Act Sqe := ⟨Instance.sqes, Act.pushed?, Act.executed?⟩

theorem SmallStep.balances_submissions (h : SmallStep m k obs m') :
    (submissions C).Balances m (obs.filterMap Obs.act?) m' := by
  have hkeep : ∀ {m' : Instance C} {obs : List Obs}, m'.sqes = m.sqes →
      (obs.filterMap Obs.act?).filterMap Act.pushed? = [] →
      (obs.filterMap Obs.act?).filterMap Act.executed? = [] →
      (submissions C).Balances m (obs.filterMap Obs.act?) m' := by
    intro m' obs hsqes hpush hexec
    exact .idle (List.Perm.of_eq hsqes) hpush hexec
  cases h with
  | kernel h =>
    rename_i acts r
    have hacts : (acts.map Obs.act).filterMap Obs.act? = acts := by
      simp [List.filterMap_map, Function.comp_def, Obs.act?]
    rw [hacts]
    have hpush : acts.filterMap Act.pushed? = [] := by cases h <;> rfl
    rcases operations_kernel h with ⟨sqe, res, rfl, hsqes, -⟩ | ⟨hexec, hsqes, -⟩
    · exact .take_one hsqes hpush rfl
    · refine .idle (List.Perm.of_eq hsqes) hpush ?_
      rw [List.filterMap_eq_nil_iff]
      intro a ha
      cases a <;> first | rfl | exact absurd ha (hexec _ _)
  | request _ _ _ _ hpush => exact .put_one (sqes_push hpush rfl rfl) rfl rfl
  | acceptEnqueued _ _ hpush => exact .put_one (sqes_push hpush rfl rfl) rfl rfl
  | pop h => exact .idle (sqes_pop h) rfl rfl
  | submitted => exact .idle (sqes_ringTaken m _) rfl rfl
  | closed => exact hkeep (by simp [Instance.sqes, countDown, Ring.ioUringCqeSeen]) rfl rfl
  | detached => exact hkeep (by simp [Instance.sqes]) rfl rfl
  | eventfd ha =>
    refine hkeep rfl ?_ ?_
    all_goals rcases ha with rfl | rfl <;> rfl
  | look _ ha =>
    refine hkeep rfl ?_ ?_
    all_goals rcases ha with rfl | ⟨err, rfl⟩ <;> rfl
  | _ => exact hkeep rfl rfl rfl

theorem Calls.balances_submissions {P : StepKind → Prop} {acts : List Act} {log : List (Nat × SlotEvent)}
    (h : Calls P m acts log m') : (submissions C).Balances m acts m' := by
  obtain ⟨obs, hpath, rfl, -⟩ := h
  exact Ledger.Balances.of_path (fun _ => True) (fun _ _ _ _ _ _ _ => trivial)
    (fun _ _ _ _ _ hs _ => hs.balances_submissions) hpath trivial

/-- What was queued in a run is what was executed and what is still held. -/
theorem Execution.pushed_perm {ok : Instance C → Input → Prop} {h : History} (he : Execution ok h m) :
    ((actsOf h).filterMap Act.pushed?).Perm ((actsOf h).filterMap Act.executed? ++ m.sqes) := by
  obtain ⟨config, instanceId, eventfd, -, -, -, hcalls⟩ := he.calls (P := fun _ => True) fun _ _ _ _ _ => trivial
  exact hcalls.balances_submissions.of_empty (newInstance_sqes instanceId eventfd config)

/-! ### What the calls ask for -/

/-- The submission of a session call, with the descriptor that the application knows. -/
def Input.asks (fds : Nat → Int) : Input → Option Sqe
  | read session buf count => some (ioUringPrepRead (fds session) (.user buf) count 0 ⟨.read, session⟩)
  | write session buf count => some (ioUringPrepWrite (fds session) (.user buf) count 0 ⟨.write, session⟩)
  | drain session count => some (ioUringPrepRecv (fds session) (.session session) count msgTrunc ⟨.drain, session⟩)
  | close session => some (ioUringPrepClose (fds session) ⟨.close, session⟩)
  | _ => none

/-- The submissions of the calls that returned `0`, in order. -/
def askedFor : (Nat → Int) → History → List Sqe
  | _, [] => []
  | fds, p :: h => (if p.2.rc = 0 then (p.1.asks fds).toList else []) ++ askedFor (noteCall fds p) h

theorem askedFor_append (fds : Nat → Int) (h h' : History) :
    askedFor fds (h ++ h') = askedFor fds h ++ askedFor (h.foldl noteCall fds) h' := by
  induction h generalizing fds with
  | nil => rfl
  | cons p h ih => rw [List.cons_append, askedFor, askedFor, ih, List.foldl_cons, List.append_assoc]

/-- An accept that does not wait for a connection, on some descriptor. -/
def Sqe.NonBlockingAccept (sqe : Sqe) : Prop :=
  ∃ fd, sqe = { ioUringPrepAccept fd 0 ⟨.accept, mconNoSession⟩ with ioprio := ioringAcceptDontwait }

/-! ### One call -/

/-- Without a session call only accepts are queued. -/
theorem Calls.pushed_accepts {P : StepKind → Prop} {acts : List Act} {log : List (Nat × SlotEvent)}
    (hP : ∀ k, P k → k ≠ .request) (h : Calls P m acts log m') :
    ∀ sqe ∈ acts.filterMap Act.pushed?, sqe.NonBlockingAccept := by
  obtain ⟨obs, hpath, hacts, -⟩ := h
  have hgood := hpath.forall_mem (fun _ => True) (fun o => ∀ sqe, o = .act (.ioQueuePush sqe) → sqe.NonBlockingAccept)
    (fun x k os x' hk hs _ => by
      refine ⟨trivial, fun o ho sqe heq => ?_⟩
      subst heq
      cases hs with
      | kernel hkernel =>
        obtain ⟨a, ha, hb⟩ := List.mem_map.1 ho
        cases hkernel <;> simp at ha <;> subst ha <;> cases hb
      | request => exact absurd rfl (hP _ hk)
      | acceptEnqueued =>
        obtain rfl : sqe = acceptSqe x := by simpa using ho
        exact ⟨x.serverSocketFd, rfl⟩
      | eventfd ha => rcases ha with rfl | rfl <;> simp at ho
      | look _ ha => rcases ha with rfl | ⟨err, rfl⟩ <;> simp at ho
      | _ => simp at ho) trivial
  intro sqe hsqe
  obtain ⟨a, ha, hpushed⟩ := List.mem_filterMap.1 hsqe
  cases a with
  | ioQueuePush => cases hpushed; exact hgood _ ((Obs.mem_acts_iff hacts).1 ha) _ rfl
  | _ => cases hpushed

theorem pushed_sessionRequest (m : Instance C) (s : Nat) (incompatibleStates : UInt8) (sqe : Sqe) (bits : UInt8) :
    let out := (sessionRequest m s incompatibleStates sqe bits).2
    out.acts.filterMap Act.pushed? = if out.rc = 0 then [sqe] else [] := by
  have hvalidate : (validateActs m s).filterMap Act.pushed? = [] := by
    unfold validateActs
    split <;> rfl
  unfold sessionRequest
  dsimp only
  split
  · simpa [Output.ret] using hvalidate
  · split
    · simpa [Output.ret] using hvalidate
    · simpa [Output.ret, Act.pushed?] using hvalidate

/-- A call queues what it asks for, if it returns `0`, or accepts. -/
theorem pushed_step (hm : WellFormed m) (i : Input) :
    ∃ accepts, (∀ sqe ∈ accepts, sqe.NonBlockingAccept) ∧
      (step m i).2.acts.filterMap Act.pushed? =
        (if (step m i).2.rc = 0 then (i.asks (socketFds m)).toList else []) ++ accepts := by
  have hother : i.asks (socketFds m) = none → (∀ k, i.allows k → k ≠ .request) →
      ∃ accepts, (∀ sqe ∈ accepts, sqe.NonBlockingAccept) ∧
        (step m i).2.acts.filterMap Act.pushed? =
          (if (step m i).2.rc = 0 then (i.asks (socketFds m)).toList else []) ++ accepts := by
    intro hasks hkinds
    refine ⟨_, (calls_step m hm.cq_entries i).pushed_accepts hkinds, ?_⟩
    rw [hasks]
    split <;> rfl
  cases i with
  | read => exact ⟨[], by simp, by rw [List.append_nil]; exact pushed_sessionRequest _ _ _ _ _⟩
  | write => exact ⟨[], by simp, by rw [List.append_nil]; exact pushed_sessionRequest _ _ _ _ _⟩
  | drain => exact ⟨[], by simp, by rw [List.append_nil]; exact pushed_sessionRequest _ _ _ _ _⟩
  | close => exact ⟨[], by simp, by rw [List.append_nil]; exact pushed_sessionRequest _ _ _ _ _⟩
  | start => exact hother rfl fun k hk hreq => by subst hreq; simp [Input.allows] at hk
  | shutdown => exact hother rfl fun k hk hreq => by subst hreq; simp [Input.allows] at hk
  | processEvent => exact hother rfl fun k hk hreq => by subst hreq; simp [Input.allows, processKinds] at hk
  | submit => exact hother rfl fun k hk hreq => by subst hreq; simp [Input.allows] at hk
  | detach => exact hother rfl fun k hk hreq => by subst hreq; simp [Input.allows] at hk
  | kernel => exact hother rfl fun k hk hreq => by subst hreq; cases hk

/-! ### Runs -/

theorem Execution.pushed_eq {ok : Instance C → Input → Prop} {h : History} (he : Execution ok h m) :
    ∃ accepts, (∀ sqe ∈ accepts, sqe.NonBlockingAccept) ∧
      ((actsOf h).filterMap Act.pushed?).Perm (askedFor (fun _ => -1) h ++ accepts) := by
  obtain ⟨config, m₀, hcreated, hr⟩ := he
  induction hr with
  | nil => exact ⟨[], by simp, .refl _⟩
  | @snoc h x i hr hi ih =>
    obtain ⟨accepts, haccepts, hperm⟩ := ih
    have hx : Execution ok h x := ⟨config, m₀, hcreated, hr⟩
    obtain ⟨accepts', haccepts', hpushed⟩ := pushed_step hx.wellFormed i
    refine ⟨accepts ++ accepts', fun sqe hsqe => (List.mem_append.1 hsqe).elim (haccepts sqe) (haccepts' sqe), ?_⟩
    have hasked : askedFor (fun _ => -1) (h ++ [(i, (step x i).2)]) = askedFor (fun _ => -1) h ++
        if (step x i).2.rc = 0 then (i.asks (socketFds x)).toList else [] := by
      rw [askedFor_append, hx.socketFds_eq, askedFor, askedFor, List.append_nil]
      rfl
    have hacts : actsOf (h ++ [(i, (step x i).2)]) = actsOf h ++ (step x i).2.acts := by simp [actsOf]
    rw [hacts, List.filterMap_append, hpushed, hasked]
    refine (hperm.append_right _).trans ?_
    simp only [List.append_assoc]
    refine List.Perm.append_left _ ?_
    exact List.perm_append_comm_assoc _ _ _

/-- In every run, the submissions which the kernel has executed and those which the instance still holds are, each as
often, those of the session calls that returned `0`, with the arguments of the call and the descriptor known for the
session, and accepts that do not wait. -/
theorem operations_are_those_asked_for {h : History} (he : Execution anyInput h m) :
    ∃ accepts, (∀ sqe ∈ accepts, sqe.NonBlockingAccept) ∧
      ((actsOf h).filterMap Act.executed? ++ m.sqes).Perm (askedFor (fun _ => -1) h ++ accepts) := by
  obtain ⟨accepts, haccepts, hperm⟩ := he.pushed_eq
  exact ⟨accepts, haccepts, he.pushed_perm.symm.trans hperm⟩

/-- A write that the kernel has executed and a read that the ring holds, on the connection 20. -/
theorem operations_are_those_asked_for_pending :
    let is := startInput :: serverInput :: connectInputs 20 ++
      [.write 0 7 16, .read 0 8 32, .submit 2, .kernel (.exec 1 16)]
    let h := history step (freshInstance (smallConfig 2 4 1)) is
    ∃ accepts : List Sqe, (∀ sqe ∈ accepts, sqe.NonBlockingAccept) ∧
      ((actsOf h).filterMap Act.executed? ++ (finalState step (freshInstance (smallConfig 2 4 1)) is).sqes).Perm
        ([ioUringPrepWrite 20 (.user 7) 16 0 ⟨.write, 0⟩, ioUringPrepRead 20 (.user 8) 32 0 ⟨.read, 0⟩] ++
          accepts) := by
  intro is h
  have hrun : Execution anyInput h _ := Execution.of_inputs (smallConfig 2 4 1) (by decide) is
    (.of_forall (fun _ _ _ => trivial) _)
  exact operations_are_those_asked_for hrun

end Mcon
