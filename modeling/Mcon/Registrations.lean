import Mcon.Operations
import Mcon.Shutdown

/-!
# The interest list

Which descriptors an instance leaves registered in an epoll instance.  The registration of its eventfd, made by
`mcon_start`, is never removed; the kernel refuses to make it again.
-/

namespace Mcon

open Transition (Run Path AllOk history finalState)

variable {C : Ctools} {m m' : Instance C} {k : StepKind} {obs : List Obs} {eventfd : Int}

/-! ### The list -/

/-- An action changes the interest list of the epoll instance `epfd`: by `epoll_ctl`, or as the kernel drops a
descriptor that is closed. -/
def interestStep (epfd : Int) (fds : List Int) : Act → List Int
  | .epollAdd epfd' fd _ _ none => if epfd' = epfd then fd :: fds else fds
  | .epollDel epfd' fd none => if epfd' = epfd then fds.filter (· ≠ fd) else fds
  | .close fd => fds.filter (· ≠ fd)
  | .exec sqe _ => if sqe.opcode = .close then fds.filter (· ≠ sqe.fd) else fds
  | _ => fds

/-- The descriptors registered by a list of actions, in a list that was empty. -/
def interestList (epfd : Int) (acts : List Act) : List Int := acts.foldl (interestStep epfd) []

/-- The action can take the descriptor out of an interest list. -/
def Act.Removes (fd : Int) : Act → Prop
  | epollDel _ fd' none => fd' = fd
  | close fd' => fd' = fd
  | exec sqe _ => sqe.opcode = .close ∧ sqe.fd = fd
  | _ => False

theorem mem_interestStep {epfd fd : Int} {fds : List Int} {a : Act} (hmem : fd ∈ fds) (ha : ¬ a.Removes fd) :
    fd ∈ interestStep epfd fds a := by
  have hfilter : ∀ {fd' : Int}, fd' ≠ fd → fd ∈ fds.filter (· ≠ fd') := fun {fd'} hne =>
    List.mem_filter.2 ⟨hmem, by simpa using fun h => hne h.symm⟩
  unfold interestStep
  split
  · split
    · exact List.mem_cons_of_mem _ hmem
    · exact hmem
  · split
    · exact hfilter ha
    · exact hmem
  · exact hfilter ha
  · rename_i sqe res
    split
    · rename_i hop
      exact hfilter fun h => ha ⟨hop, h⟩
    · exact hmem
  · exact hmem

theorem mem_foldl_interestStep {epfd fd : Int} {fds : List Int} {acts : List Act} (hmem : fd ∈ fds)
    (hacts : ∀ a ∈ acts, ¬ a.Removes fd) : fd ∈ acts.foldl (interestStep epfd) fds := by
  induction acts generalizing fds with
  | nil => exact hmem
  | cons a acts ih =>
    exact ih (mem_interestStep hmem (hacts a List.mem_cons_self))
      fun b hb => hacts b (List.mem_cons_of_mem a hb)

/-- A descriptor that was added and never taken out is in the list. -/
theorem mem_interestList {epfd fd : Int} {data : UInt64} {events : UInt32} {acts : List Act}
    (hadd : Act.epollAdd epfd fd data events none ∈ acts) (hacts : ∀ a ∈ acts, ¬ a.Removes fd) :
    fd ∈ interestList epfd acts := by
  obtain ⟨before, after, rfl⟩ := List.append_of_mem hadd
  rw [interestList, List.foldl_append, List.foldl_cons]
  refine mem_foldl_interestStep ?_ fun a ha => hacts a (by simp [ha])
  simp [interestStep]

/-! ### The eventfd -/

/-- An answer of the kernel that respects an open eventfd: it is not a socket that listens, and no accept returns
its descriptor. -/
def Act.Respects (eventfd : Int) : Act → Prop
  | socketProbe fd probe => fd = eventfd → mconListeningSocketValid probe ≠ .ok
  | exec sqe res => isAccept sqe.userData = true → res ≠ eventfd
  | _ => True

instance (eventfd : Int) : (a : Act) → Decidable (a.Respects eventfd)
  | .socketProbe fd probe => inferInstanceAs (Decidable (fd = eventfd → mconListeningSocketValid probe ≠ .ok))
  | .exec sqe res => inferInstanceAs (Decidable (isAccept sqe.userData = true → res ≠ eventfd))
  | .epollAdd .. | .epollDel .. | .close _ | .getsockopt .. | .ioUringSubmit _ | .eventfdRead | .eventfdWrite
  | .ioQueuePush _ | .stackPush .. | .stackPop _ | .sessionsAt _ | .post _ | .signal => isTrue trivial

/-- The eventfd of the instance is no other descriptor it works with. -/
structure Apart (eventfd : Int) (m : Instance C) : Prop where
  eventfd_eq : m.ioUringEventfd = eventfd
  ne_neg : eventfd ≠ -1
  server : m.serverSocketFd ≠ eventfd
  sessions : ∀ s, (m.session s).socketFd ≠ eventfd
  sqes : ∀ sqe ∈ m.sqes, sqe.opcode = .close → sqe.fd ≠ eventfd
  completions : ∀ cqe ∈ m.ring.executed ++ m.ring.cq, isAccept cqe.userData = true → cqe.res ≠ eventfd

theorem newInstance_apart (instanceId : UInt16) {eventfd : Int} (hfd : eventfd ≠ -1) (config : Config) :
    Apart eventfd (newInstance C instanceId eventfd config) := by
  constructor
  · rfl
  · exact hfd
  · exact hfd.symm
  · intro s
    rw [newInstance_session]
    exact hfd.symm
  · intro sqe hmem
    simp [newInstance_sqes] at hmem
  · intro cqe hmem
    simp [newInstance, ioUringQueueInit] at hmem

/-- The listening socket is the one of a start, or was given up by a completed shutdown. -/
theorem SmallStep.server (h : SmallStep m k obs m') :
    m'.serverSocketFd = m.serverSocketFd ∨ m'.serverSocketFd = -1 ∨
      ∃ probe, .act (.socketProbe m'.serverSocketFd probe) ∈ obs ∧ mconListeningSocketValid probe = .ok := by
  cases h with
  | closed => exact (completeShutdownIfDone_serverSocketFd _).imp_right .inl
  | detached => exact (completeShutdownIfDone_serverSocketFd _).imp_right .inl
  | @started probe l e hvalid => exact .inr (.inr ⟨probe, List.mem_cons_self, hvalid⟩)
  | _ => exact .inl rfl

/-- The descriptors that a step takes out of an interest list: the one of a close that is executed, of a session, of
the listening socket, of a connection that could not be registered, and of a listening socket in a start that fails. -/
theorem SmallStep.removes (h : SmallStep m k obs m') :
    ∀ a, .act a ∈ obs → ∀ fd, a.Removes fd →
      (∃ sqe ∈ m.sqes, sqe.opcode = .close ∧ sqe.fd = fd) ∨ (∃ s, (m.session s).socketFd = fd) ∨
      m.serverSocketFd = fd ∨ (∃ cqe ∈ m.completions, isAccept cqe.userData = true ∧ cqe.res = fd) ∨
      ∃ probe, .act (.socketProbe fd probe) ∈ obs ∧ mconListeningSocketValid probe = .ok := by
  cases h with
  | kernel hkernel =>
    intro a hmem fd hremoves
    cases hkernel with
    | @exec index sqe res hget =>
      obtain rfl : a = .exec sqe res := by simpa using hmem
      refine .inl ⟨sqe, ?_, hremoves⟩
      exact List.mem_append_right _ (List.mem_of_getElem? hget)
    | _ => simp at hmem <;> subst hmem <;> exact hremoves.elim
  | @acceptRollback cqe rest s _ _ _ hcq hop =>
    have hmem : cqe ∈ m.completions := List.mem_append_right _ (hcq ▸ List.mem_cons_self)
    simp only [List.mem_cons, Obs.act.injEq, List.not_mem_nil, or_false, forall_eq_or_imp, forall_eq, Act.Removes,
      false_imp_iff, implies_true, true_and]
    exact fun fd hfd => .inr (.inr (.inr (.inl ⟨cqe, hmem, by simp [isAccept, hop], hfd⟩)))
  | detached | shutdown => simp +contextual [Act.Removes]
  | @startUndone probe l e err del hvalid =>
    intro a hmem fd hremoves
    simp only [List.mem_cons, Obs.act.injEq, List.not_mem_nil, or_false] at hmem
    rcases hmem with rfl | rfl | rfl | rfl
    · exact hremoves.elim
    · exact hremoves.elim
    · exact hremoves.elim
    · cases del with
      | none =>
        obtain rfl : l = fd := hremoves
        exact .inr (.inr (.inr (.inr ⟨probe, List.mem_cons_self, hvalid⟩)))
      | some err => exact hremoves.elim
  | eventfd hact =>
    refine fun a hmem fd => Not.elim ?_
    revert a
    rcases hact with rfl | rfl <;> simp [Act.Removes]
  | look _ hact =>
    refine fun a hmem fd => Not.elim ?_
    revert a
    rcases hact with rfl | ⟨err, rfl⟩ <;> simp [Act.Removes]
  | _ =>
    -- nothing is taken out
    refine fun a hmem fd => Not.elim ?_
    revert a
    simp [Act.Removes]

/-- The instance stays apart from its eventfd, and no step removes the registration of the eventfd. -/
theorem Apart.smallStep (ha : Apart eventfd m) (h : SmallStep m k obs m')
    (hgiven : ∀ a, .act a ∈ obs → a.Respects eventfd) :
    Apart eventfd m' ∧ ∀ a, .act a ∈ obs → ¬ a.Removes eventfd := by
  have hsessions : ∀ s, (m'.session s).socketFd ≠ eventfd := by
    intro s
    rcases h.socketFd s with hsame | ⟨hclosed, -⟩ | ⟨-, cqe, rest, hcq, haccept, -, hnew⟩
    · rw [hsame]
      exact ha.sessions s
    · rw [hclosed]
      exact ha.ne_neg.symm
    · rw [hnew]
      exact ha.completions cqe (by simp [hcq]) haccept
  refine ⟨⟨h.frame.eventfd.trans ha.eventfd_eq, ha.ne_neg, ?_, hsessions, ?_, ?_⟩, ?_⟩
  · rcases h.server with hsame | hclosed | ⟨probe, hprobe, hvalid⟩
    · exact hsame ▸ ha.server
    · exact hclosed ▸ ha.ne_neg.symm
    · exact fun hfd => hgiven _ hprobe hfd hvalid
  · intro sqe hsqe hop
    rcases h.mem_sqes sqe hsqe with hold | ⟨haccept, -⟩ | ⟨op, s, -, -, hfd⟩
    · exact ha.sqes sqe hold hop
    · exact absurd (haccept.symm.trans hop) (by simp)
    · rw [hfd]
      exact hsessions s
  · intro cqe hcqe haccept
    rcases h.mem_completions cqe hcqe with hold | ⟨sqe, res, hexec, -, rfl⟩
    · exact ha.completions cqe hold haccept
    · exact hgiven _ hexec haccept
  · intro a hmem hremoves
    rcases h.removes a hmem eventfd hremoves with ⟨sqe, hsqe, hop, hfd⟩ | ⟨s, hfd⟩ | hfd | ⟨cqe, hcqe, haccept, hfd⟩ |
      ⟨probe, hprobe, hvalid⟩
    · exact ha.sqes sqe hsqe hop hfd
    · exact ha.sessions s hfd
    · exact ha.server hfd
    · exact ha.completions cqe hcqe haccept hfd
    · exact hgiven _ hprobe rfl hvalid

/-! ### Runs -/

/-- No action of a run removes the registration of the eventfd. -/
theorem Execution.keeps_eventfd {ok : Instance C → Input → Prop} {h : History} (he : Execution ok h m)
    (hkernel : ∀ a ∈ actsOf h, a.Respects m.ioUringEventfd) :
    ∀ a ∈ actsOf h, ¬ a.Removes m.ioUringEventfd := by
  obtain ⟨config, m₀, hcreated, hr⟩ := he
  obtain ⟨hvalid, instanceId, eventfd, hfd, rfl⟩ := created_eq hcreated
  have hm := newInstance_wellFormed (C := C) hvalid instanceId eventfd
  rw [show m.ioUringEventfd = eventfd from (Run.frame hm hr).eventfd] at hkernel ⊢
  obtain ⟨-, obs, hpath, hacts, -⟩ := Run.calls (P := fun _ => True) (fun _ _ _ _ _ => trivial) hm hr
  -- the slot events of a path say nothing about descriptors
  have hgiven : ∀ o ∈ obs, ∀ a, o = .act a → a.Respects eventfd := by
    rintro o ho a rfl
    exact hkernel a ((Obs.mem_acts_iff hacts).2 ho)
  have hgood := (hpath.invariant_of_given (Apart eventfd) (fun o => ∀ a, o = .act a → a.Respects eventfd)
    (fun o => ∀ a, o = .act a → ¬ a.Removes eventfd) (fun x _ os x' _ hs hos hx => ?_) hgiven
    (newInstance_apart instanceId hfd config)).2
  · exact fun a ha => hgood _ ((Obs.mem_acts_iff hacts).1 ha) a rfl
  · obtain ⟨hx', hremoves⟩ := hx.smallStep hs fun a ha => hos _ ha a rfl
    exact ⟨hx', by rintro o ho a rfl; exact hremoves a ho⟩

/-- A start that succeeds registers the eventfd. -/
theorem mconStart_epollAdd {probe : SocketProbe} {l e : Int} {env : StartEnv}
    (hrc : (mconStart m probe l e env).2.rc = 0) :
    Act.epollAdd e m.ioUringEventfd (instancePayload m epollSourceIoUring) (epollin ||| epollerr) none ∈
      (mconStart m probe l e env).2.acts := by
  rw [(mconStart_ok hrc).2]
  exact List.mem_cons_of_mem _ (List.mem_cons_of_mem _ List.mem_cons_self)

/-- None of the descriptors which the actions registered is left in the interest list. -/
def AllRemoved (epfd : Int) (acts : List Act) : Prop :=
  ∀ fd data events, Act.epollAdd epfd fd data events none ∈ acts → fd ∉ interestList epfd acts

/-- The kernel refuses to register the eventfd again. -/
def StartEnv.Refuses (env : StartEnv) (eventfd : Int) (fds : List Int) : Prop :=
  eventfd ∈ fds → env.addEventfd = some Errno.eexist

/-- In every run with a successful start, completed shutdown or not, the eventfd is left in the interest list, and
the next start on the same epoll instance fails; with a valid listening socket it fails with `EEXIST`. -/
theorem eventfd_stays_registered {h : History} (he : Execution anyInput h m)
    (hkernel : ∀ a ∈ actsOf h, a.Respects m.ioUringEventfd) {probe : SocketProbe} {l e : Int} {env : StartEnv}
    {out : Output} (hstart : (.start probe l e env, out) ∈ h) (hrc : out.rc = 0) :
    m.ioUringEventfd ∈ interestList e (actsOf h) ∧ ¬ AllRemoved e (actsOf h) ∧
      ∀ probe' l' env', env'.Refuses m.ioUringEventfd (interestList e (actsOf h)) →
        (mconStart m probe' l' e env').2.rc = -1 ∧
          (mconListeningSocketValid probe' = .ok → env'.addListening = none → env'.delListening = none →
            (mconStart m probe' l' e env').2.errno = some Errno.eexist) := by
  have hadd : ∃ data events, Act.epollAdd e m.ioUringEventfd data events none ∈ actsOf h := by
    obtain ⟨config, m₀, hcreated, hr⟩ := he
    obtain ⟨hvalid, instanceId, eventfd, -, rfl⟩ := created_eq hcreated
    have hm := newInstance_wellFormed (C := C) hvalid instanceId eventfd
    obtain ⟨h₁, m₁, hr₁, -, hout⟩ := hr.step_of_mem hstart
    dsimp only at hout
    subst hout
    rw [(Run.frame hm hr).eventfd, ← (Run.frame hm hr₁).eventfd]
    exact ⟨_, _, List.mem_flatMap.2 ⟨_, hstart, mconStart_epollAdd hrc⟩⟩
  obtain ⟨data, events, hadd⟩ := hadd
  have hmem := mem_interestList hadd (he.keeps_eventfd hkernel)
  refine ⟨hmem, fun hall => hall _ data events hadd hmem, fun probe' l' env' henv => ?_⟩
  have herr := henv hmem
  unfold mconStart
  dsimp only
  split
  · rename_i hvalid
    exact ⟨rfl, fun h => absurd h hvalid⟩
  · cases haddListening : env'.addListening with
    | some err => exact ⟨rfl, fun _ h => by cases h⟩
    | none =>
      rw [herr]
      exact ⟨rfl, fun _ _ hdel => by rw [hdel]; rfl⟩

/-- A start and a shutdown, with one connection that is closed during the shutdown. -/
def restartInputs : List Input :=
  startInput :: serverInput :: connectInputs 20 ++ [.shutdown none, .close 0, .submit 2] ++ completeInputs 0 ++
    [ringInput]

theorem eventfd_stays_registered_closed :
    9 ∈ interestList 6 (actsOf (history step (freshInstance (smallConfig 2 4 1)) restartInputs)) := by
  have hrun : Execution anyInput _ _ := Execution.of_inputs (smallConfig 2 4 1) (by decide) restartInputs
    (.of_forall (fun _ _ _ => trivial) _)
  exact (eventfd_stays_registered hrun (by decide) List.mem_cons_self rfl).1

/-- The shutdown is completed, and the eventfd is what is left of the registrations. -/
theorem restart_after_shutdown_fails :
    let m := finalState step (freshInstance (smallConfig 2 4 1)) restartInputs
    let acts := actsOf (history step (freshInstance (smallConfig 2 4 1)) restartInputs)
    Execution anyInput (history step (freshInstance (smallConfig 2 4 1)) restartInputs) m ∧
      mconIsShuttingDown m = false ∧ mconGetServerSocket m = -1 ∧ mconActiveSessionCount m = 0 ∧
      m.ioUringEventfd = 9 ∧ interestList 6 acts = [9] ∧
      (mconStart m listeningProbe 5 6 ⟨none, some Errno.eexist, none⟩).2.rc = -1 :=
  ⟨Execution.of_inputs _ (by decide) _ (.of_forall (fun _ _ _ => trivial) _), by decide, by decide, by decide,
    by decide, by decide, by decide⟩

end Mcon
