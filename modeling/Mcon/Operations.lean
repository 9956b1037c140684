import Mcon.WellFormed

/-!
# Submissions and completions

Where the operations of an instance are: the submissions that the kernel has not executed, in the io_queue, the SQ
ring or the kernel, and the completions that the program has not consumed.
-/

namespace Mcon

variable {C : Ctools} {m m' : Instance C}

/-- The submissions of an instance, wherever they are. -/
def Instance.sqes (m : Instance C) : List Sqe := C.kqueue.contents m.ioQueue ++ m.ring.sq ++ m.ring.inKernel

/-- The completions of the operations executed, in the CQ ring or on the way to it. -/
def Instance.completions (m : Instance C) : List Cqe := m.ring.executed ++ m.ring.cq

theorem newInstance_sqes (instanceId : UInt16) (eventfd : Int) (config : Config) :
    (newInstance C instanceId eventfd config).sqes = [] := by
  rw [Instance.sqes, newInstance_queue]
  rfl

theorem newInstance_completions (instanceId : UInt16) (eventfd : Int) (config : Config) :
    (newInstance C instanceId eventfd config).completions = [] := rfl

theorem outstanding_eq (m : Instance C) :
    m.outstanding = m.sqes.map (·.userData) ++ m.completions.map (·.userData) := by
  simp only [Instance.outstanding, Ring.entries, Instance.sqes, Instance.completions, List.map_append,
    List.append_assoc]

/-! ### What the updates of the small steps do -/

theorem sqes_push {priority : Nat} {sqe : Sqe} {ioq : C.kqueue.Carrier}
    (h : C.kqueue.push m.ioQueue priority sqe = some ioq) (hioq : m'.ioQueue = ioq) (hring : m'.ring = m.ring) :
    m'.sqes.Perm (sqe :: m.sqes) := by
  rw [Instance.sqes, Instance.sqes, hioq, hring, List.append_assoc, List.append_assoc]
  exact (C.kqueue.contents_push h).append_right _

theorem sqes_pop {ioq : C.kqueue.Carrier} {r : Ring} (h : PopOne (m.ioQueue, m.ring) (ioq, r)) :
    Instance.sqes { m with ioQueue := ioq, ring := r } |>.Perm m.sqes := by
  obtain @⟨_, _, _, _, sqe, hp, -⟩ := h
  simp only [Instance.sqes, List.append_assoc, List.singleton_append]
  refine List.Perm.trans ?_ ((C.kqueue.contents_pop hp).append_right _).symm
  rw [List.cons_append]
  exact (List.Perm.append_left _ List.perm_middle).trans List.perm_middle

theorem completions_pop {ioq : C.kqueue.Carrier} {r : Ring} (h : PopOne (m.ioQueue, m.ring) (ioq, r)) :
    Instance.completions { m with ioQueue := ioq, ring := r } = m.completions := by
  obtain ⟨-, -⟩ := h
  rfl

theorem sqes_ringTaken (m : Instance C) (n : Nat) : (ringTaken m n).sqes.Perm m.sqes := by
  simp only [Instance.sqes, ringTaken, List.append_assoc]
  apply List.Perm.append_left
  have hsplit : (m.ring.sq.drop n ++ m.ring.sq.take n).Perm m.ring.sq :=
    List.perm_append_comm.trans (List.Perm.of_eq (List.take_append_drop n _))
  have hmove : (m.ring.sq.drop n ++ (m.ring.inKernel ++ m.ring.sq.take n)).Perm
      (m.ring.sq.drop n ++ m.ring.sq.take n ++ m.ring.inKernel) := by
    rw [List.append_assoc]
    exact List.Perm.append_left _ List.perm_append_comm
  exact hmove.trans (hsplit.append_right _)

theorem completions_cqeSeen {cqe : Cqe} {rest : List Cqe} (h : m.ring.cq = cqe :: rest) :
    m.completions.Perm (cqe :: m.cqeSeen.completions) := by
  simp only [Instance.completions, Instance.cqeSeen, Ring.ioUringCqeSeen, h, List.tail_cons]
  exact List.perm_middle

/-- The kernel executes a submission, or moves nothing but completions. -/
theorem operations_kernel {acts : List Act} {r : Ring} (h : Ring.KernelStep m.ring acts r) :
    (∃ sqe res, acts = [.exec sqe res] ∧ m.sqes.Perm (sqe :: Instance.sqes { m with ring := r }) ∧
      (Instance.completions { m with ring := r }).Perm (⟨sqe.userData, res⟩ :: m.completions)) ∨
    (∀ sqe res, Act.exec sqe res ∉ acts) ∧ Instance.sqes { m with ring := r } = m.sqes ∧
      (Instance.completions { m with ring := r }).Perm m.completions := by
  cases h with
  | idle => exact .inr ⟨by simp, rfl, .refl _⟩
  | @exec index sqe res hget =>
    obtain ⟨hlt, rfl⟩ := List.getElem?_eq_some_iff.1 hget
    refine .inl ⟨m.ring.inKernel[index], res, rfl, ?_, ?_⟩
    · simp only [Instance.sqes, List.append_assoc]
      refine List.Perm.trans ?_ (List.Perm.append_left _ List.perm_middle |>.trans List.perm_middle)
      exact List.Perm.append_left _ (List.Perm.append_left _ (List.getElem_cons_eraseIdx_perm hlt).symm)
    · simp only [Instance.completions, List.append_assoc, List.singleton_append]
      exact List.perm_middle
  | @post index cqe hget =>
    obtain ⟨hlt, rfl⟩ := List.getElem?_eq_some_iff.1 hget
    refine .inr ⟨by simp, rfl, ?_⟩
    simp only [Instance.completions]
    refine List.Perm.trans ?_ ((List.getElem_cons_eraseIdx_perm hlt).append_right _)
    rw [List.cons_append, ← List.append_assoc]
    exact List.perm_append_singleton _ _
  | signal => exact .inr ⟨by simp, rfl, .refl _⟩

/-- Only the kernel executes submissions. -/
theorem SmallStep.not_exec {k : StepKind} {obs : List Obs} (h : SmallStep m k obs m') (hk : k ≠ .kernel) (sqe : Sqe)
    (res : Int) : .act (.exec sqe res) ∉ obs := by
  cases h with
  | kernel => exact absurd rfl hk
  | eventfd hact => rcases hact with rfl | rfl <;> simp
  | look _ hact => rcases hact with rfl | ⟨err, rfl⟩ <;> simp
  | _ => simp

/-- Only the kernel executes operations; the program consumes one completion at a time, that of a close by the step
which answers it. -/
theorem SmallStep.completions_eq {k : StepKind} {obs : List Obs} (h : SmallStep m k obs m') (hk : k ≠ .kernel) :
    m'.completions = m.completions ∨ ∃ cqe, m.completions.Perm (cqe :: m'.completions) ∧
      ∀ s, cqe.userData = SlotOp.close.entry s → obs.filterMap Obs.slot? = [(s, .answered .close)] := by
  -- the handlers of accepts
  have hseen : ∀ {cqe : Cqe} {rest : List Cqe}, m.ring.cq = cqe :: rest → cqe.userData.operation = .accept →
      m'.completions = m.cqeSeen.completions → ∃ cqe, m.completions.Perm (cqe :: m'.completions) ∧
        ∀ s, cqe.userData = SlotOp.close.entry s → obs.filterMap Obs.slot? = [(s, .answered .close)] := by
    intro cqe rest hcq haccept hsame
    refine ⟨cqe, hsame ▸ completions_cqeSeen hcq, fun s hdata => ?_⟩
    rw [hdata] at haccept
    exact absurd haccept SlotOp.close.operation_ne_accept
  cases h with
  | kernel => exact absurd rfl hk
  | pop hpop => exact .inl (completions_pop hpop)
  | acceptAgain hcq hop => exact .inr (hseen hcq hop rfl)
  | acceptFailed hcq hop => exact .inr (hseen hcq hop rfl)
  | acceptNoSlot hcq hop => exact .inr (hseen hcq hop rfl)
  | acceptRollback hcq hop => exact .inr (hseen hcq hop rfl)
  | accepted hcq hop => exact .inr (hseen hcq hop rfl)
  | @transferred cqe rest s op hcq hdata hclose =>
    refine .inr ⟨cqe, completions_cqeSeen hcq, fun t hdata' => ?_⟩
    exact absurd (SlotOp.entry_inj (hdata.symm.trans hdata')).1 hclose
  | @closed cqe rest s stack hcq hdata =>
    have hcompletions : (countDown (closeDone m s stack)).completions = m.cqeSeen.completions := by
      simp [Instance.completions, countDown, Instance.cqeSeen]
    refine .inr ⟨cqe, hcompletions ▸ completions_cqeSeen hcq, fun t hdata' => ?_⟩
    obtain ⟨-, rfl⟩ := SlotOp.entry_inj (hdata.symm.trans hdata')
    rfl
  | detached => exact .inl (by simp [Instance.completions])
  | _ => exact .inl rfl

/-- A completion is an old one, or that of a submission which the kernel just executed. -/
theorem SmallStep.mem_completions {k : StepKind} {obs : List Obs} (h : SmallStep m k obs m') :
    ∀ cqe ∈ m'.completions, cqe ∈ m.completions ∨
      ∃ sqe res, .act (.exec sqe res) ∈ obs ∧ sqe ∈ m.sqes ∧ cqe = ⟨sqe.userData, res⟩ := by
  intro cqe hcqe
  by_cases hk : k = .kernel
  · subst hk
    cases h with
    | kernel hkernel =>
      rcases operations_kernel hkernel with ⟨sqe, res, rfl, hsqes, hcompletions⟩ | ⟨-, -, hcompletions⟩
      · rcases List.mem_cons.1 (hcompletions.mem_iff.1 hcqe) with rfl | hold
        · exact .inr ⟨sqe, res, by simp, hsqes.mem_iff.2 List.mem_cons_self, rfl⟩
        · exact .inl hold
      · exact .inl (hcompletions.mem_iff.1 hcqe)
  · rcases h.completions_eq hk with hsame | ⟨seen, hperm, -⟩
    · exact .inl (hsame ▸ hcqe)
    · exact .inl (hperm.mem_iff.2 (List.mem_cons_of_mem _ hcqe))

/-! ### What the program submits -/

/-- A submission the program makes: an accept, or an operation of a session. -/
inductive Sqe.Made (sqe : Sqe) : Prop
  | accept : sqe.opcode = .accept → sqe.userData.operation = .accept → Made sqe
  | session (op : SlotOp) (s : Nat) : sqe.userData = op.entry s → sqe.opcode = op.opcode → Made sqe

theorem Sqe.Made.isAccept {sqe : Sqe} (h : sqe.Made) (hop : sqe.opcode = .accept) :
    sqe.userData.operation = .accept := by
  cases h with
  | accept _ hdata => exact hdata
  | session op s _ hcode => exact absurd (hcode.symm.trans hop) op.opcode_ne_accept

/-- A submission is an old one, an accept, or an operation of a session, which has the descriptor of its session. -/
theorem SmallStep.mem_sqes {k : StepKind} {obs : List Obs} (h : SmallStep m k obs m') :
    ∀ sqe ∈ m'.sqes, sqe ∈ m.sqes ∨ sqe.opcode = .accept ∧ sqe.userData.operation = .accept ∨
      ∃ (op : SlotOp) (s : Nat), sqe.userData = op.entry s ∧ sqe.opcode = op.opcode ∧
        sqe.fd = (m'.session s).socketFd := by
  intro sqe hsqe
  have hperm : m'.sqes.Perm m.sqes → sqe ∈ m.sqes := fun hp => hp.mem_iff.1 hsqe
  cases h with
  | kernel hkernel =>
    rcases operations_kernel hkernel with ⟨x, res, -, hp, -⟩ | ⟨-, hsame, -⟩
    · exact .inl (hp.mem_iff.2 (List.mem_cons_of_mem _ hsqe))
    · exact .inl (hperm (.of_eq hsame))
  | @request s op _ ioq _ _ hdata hfd hcode hpush =>
    have hp : (setStateBits { m with ioQueue := ioq } s op.bits).sqes.Perm _ := sqes_push hpush rfl rfl
    rcases List.mem_cons.1 (hp.mem_iff.1 hsqe) with rfl | hsqe
    · exact .inr (.inr ⟨op, s, hdata, hcode, hfd.trans (setStateBits_socketFd _ _ _ _).symm⟩)
    · exact .inl hsqe
  | @acceptEnqueued ioq _ _ hpush =>
    have hp : (Mcon.acceptEnqueued { m with ioQueue := ioq }).sqes.Perm _ := sqes_push hpush rfl rfl
    rcases List.mem_cons.1 (hp.mem_iff.1 hsqe) with rfl | hsqe
    · exact .inr (.inl ⟨rfl, rfl⟩)
    · exact .inl hsqe
  | pop hpop => exact .inl (hperm (sqes_pop hpop))
  | submitted => exact .inl (hperm (sqes_ringTaken m _))
  | closed => exact .inl (hperm (.of_eq (by simp [Instance.sqes, countDown, Ring.ioUringCqeSeen])))
  | detached => exact .inl (hperm (.of_eq (by simp [Instance.sqes])))
  | _ => exact .inl hsqe

theorem SmallStep.made {k : StepKind} {obs : List Obs} (h : SmallStep m k obs m') (hmade : ∀ sqe ∈ m.sqes, sqe.Made) :
    ∀ sqe ∈ m'.sqes, sqe.Made := by
  intro sqe hsqe
  rcases h.mem_sqes sqe hsqe with hold | ⟨hcode, hdata⟩ | ⟨op, s, hdata, hcode, -⟩
  · exact hmade sqe hold
  · exact .accept hcode hdata
  · exact .session op s hdata hcode

theorem Execution.made {ok : Instance C → Input → Prop} {h : History} (he : Execution ok h m) :
    ∀ sqe ∈ m.sqes, sqe.Made :=
  (he.invariant (P := fun _ => True) (fun _ _ _ _ _ => trivial) (fun m => ∀ sqe ∈ m.sqes, sqe.Made)
    (fun _ _ _ _ => by simp [newInstance_sqes]) fun _ _ _ _ _ hs _ hmade => hs.made hmade).2

end Mcon
