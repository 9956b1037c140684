import Mcon.Library.Environment
import Mcon.Operations
import Mcon.Payloads

/-!
# The wakeups of the listening socket

The listening socket is registered edge-triggered: a connection that arrives raises one edge, and it is up to the
program to remember it until an accept has been tried.  The world of this module is the listening socket with its
backlog, the edge not yet delivered and the events delivered and not yet passed to `mcon_process_event`.  As long as a
client waits, something is left that will bring about another accept.
-/

namespace Mcon

open Transition (Path Watch AllOk history finalState)

variable {C : Ctools} {m m' : Instance C} {k : StepKind} {obs : List Obs} {l : Int}

/-! ### The listening socket -/

structure ListenWorld where
  /-- The connections that wait to be accepted. -/
  backlog : Nat
  /-- An edge was raised and not delivered. -/
  edge : Bool
  /-- The events delivered to the application which it has not passed on. -/
  delivered : Nat

/-- What the world does by itself: a client arrives, `epoll_wait` delivers the edge, or finds nothing to deliver. -/
inductive ListenWorld.Moves : ListenWorld → ListenWorld → Prop
  | arrive (w : ListenWorld) : Moves w { w with backlog := w.backlog + 1, edge := true }
  | deliver {w : ListenWorld} : w.edge = true → Moves w { w with edge := false, delivered := w.delivered + 1 }
  | drop {w : ListenWorld} : w.edge = true → w.backlog = 0 → Moves w { w with edge := false }

/-- What the kernel answers to an accept: it takes a connection, fails, or gives `-EAGAIN`, which it does only when
no connection waits, and not at all on no socket. -/
def ListenWorld.Sees (l : Int) (w : ListenWorld) (a : Act) (w' : ListenWorld) : Prop :=
  match a with
  | .exec sqe res =>
    if sqe.opcode = .accept ∧ sqe.fd = l then
      if 0 ≤ res then w.backlog ≠ 0 ∧ w' = { w with backlog := w.backlog - 1 }
      else (res = -Errno.eagain → w.backlog = 0) ∧ w' = w
    else (sqe.opcode = .accept → sqe.fd = -1 → res ≠ -Errno.eagain) ∧ w' = w
  | _ => w' = w

/-- The call starts no instance and is no shutdown, or fails. -/
def BetweenStartAndShutdown (m : Instance C) (i : Input) : Prop :=
  match i with
  | .start .. | .shutdown _ => (step m i).2.rc ≠ 0
  | _ => True

/-- The states of an instance and of the listening socket `l` after a successful `mcon_start`, from the registration
of the socket on: any calls, and at any time moves of the world; the events delivered are passed on. -/
inductive Listening (l : Int) : ListenWorld → Instance C → Prop
  | started {h : History} {m : Instance C} {probe : SocketProbe} {epollFd : Int} {env : StartEnv} {before : List Act}
      {data : UInt64} {events : UInt32} {backlog : Nat} {seen : List (ListenWorld × Act)} {w : ListenWorld} :
      Execution anyInput h m → (mconStart m probe l epollFd env).2.rc = 0 →
      (mconStart m probe l epollFd env).2.acts =
        before ++ .epollAdd epollFd l data events none :: seen.map Prod.snd →
      Watch ListenWorld.Moves (ListenWorld.Sees l) ⟨backlog, decide (backlog ≠ 0), 0⟩ seen w →
      Listening l w (mconStart m probe l epollFd env).1
  | call {m : Instance C} {w w' : ListenWorld} {i : Input} {seen : List (ListenWorld × Act)} :
      Listening l w m → BetweenStartAndShutdown m i →
      Watch ListenWorld.Moves (ListenWorld.Sees l) w seen w' → seen.map Prod.snd = (step m i).2.acts →
      Listening l w' (step m i).1
  | passed {m : Instance C} {w w' : ListenWorld} {delivered : Nat} {epollEvents : UInt32} {eventCapacity : Nat}
      {env : ProcessEnv} {seen : List (ListenWorld × Act)} :
      Listening l w m → w.delivered = delivered + 1 → epollEvents &&& epollin ≠ 0 →
      Watch ListenWorld.Moves (ListenWorld.Sees l) { w with delivered := delivered } seen w' →
      seen.map Prod.snd = (mconProcessEvent m (instancePayload m epollSourceServerSocket) epollEvents eventCapacity
        env).2.acts →
      Listening l w' (mconProcessEvent m (instancePayload m epollSourceServerSocket) epollEvents eventCapacity env).1

/-! ### What is left to bring about an accept -/

/-- An edge, an event or a request that was not followed yet, an accept that was not executed yet, or one whose
completion will make the program request another. -/
def WakesUp (l : Int) (w : ListenWorld) (m : Instance C) : Prop :=
  w.edge = true ∨ w.delivered ≠ 0 ∨ m.state.acceptsRequested = true ∨
    (∃ sqe ∈ m.sqes, sqe.opcode = .accept ∧ (sqe.fd = l ∨ sqe.fd = -1)) ∨
    ∃ cqe ∈ m.completions, cqe.userData.operation = .accept ∧ cqe.res ≠ -Errno.eagain

/-- The invariant: the accepts are on the listening socket, or on none after a shutdown was completed, and no wakeup
is lost. -/
structure Awake (l : Int) (w : ListenWorld) (m : Instance C) : Prop where
  server : m.serverSocketFd = l ∨ m.serverSocketFd = -1
  wakesUp : w.backlog ≠ 0 → WakesUp l w m

variable {w w' : ListenWorld}

theorem WakesUp.mono (h : WakesUp l w m)
    (hrequested : m.state.acceptsRequested = true → m'.state.acceptsRequested = true)
    (hsqes : ∀ sqe ∈ m.sqes, sqe ∈ m'.sqes)
    (hcompletions : ∀ cqe ∈ m.completions, cqe.userData.operation = .accept → cqe.res ≠ -Errno.eagain →
      cqe ∈ m'.completions) : WakesUp l w m' := by
  rcases h with hedge | hdelivered | hflag | ⟨sqe, hsqe, haccept⟩ | ⟨cqe, hcqe, haccept, hres⟩
  · exact .inl hedge
  · exact .inr (.inl hdelivered)
  · exact .inr (.inr (.inl (hrequested hflag)))
  · exact .inr (.inr (.inr (.inl ⟨sqe, hsqes sqe hsqe, haccept⟩)))
  · exact .inr (.inr (.inr (.inr ⟨cqe, hcompletions cqe hcqe haccept hres, haccept, hres⟩)))

namespace Awake

variable (ha : Awake l w m)

include ha

/-- A step that loses no accept and no request. -/
theorem of_perm (hserver : m'.serverSocketFd = m.serverSocketFd ∨ m'.serverSocketFd = -1)
    (hrequested : m.state.acceptsRequested = true → m'.state.acceptsRequested = true)
    (hsqes : m'.sqes.Perm m.sqes)
    (hcompletions : ∀ cqe ∈ m.completions, cqe.userData.operation = .accept → cqe.res ≠ -Errno.eagain →
      cqe ∈ m'.completions) : Awake l w m' where
  server := by
    rcases hserver with h | h
    · rw [h]; exact ha.server
    · exact .inr h
  wakesUp hbacklog := (ha.wakesUp hbacklog).mono hrequested (fun sqe hsqe => hsqes.mem_iff.2 hsqe) hcompletions

/-- A step that touches neither the accepts nor the request. -/
theorem same (hserver : m'.serverSocketFd = m.serverSocketFd ∨ m'.serverSocketFd = -1)
    (hrequested : m'.state.acceptsRequested = m.state.acceptsRequested) (hsqes : m'.sqes = m.sqes)
    (hcompletions : m'.completions = m.completions) : Awake l w m' :=
  ha.of_perm hserver (fun h => hrequested.trans h) (.of_eq hsqes) fun _ hcqe _ _ => hcompletions ▸ hcqe

/-- A step after which accepts are requested. -/
theorem requested (hserver : m'.serverSocketFd = m.serverSocketFd) (hrequested : m'.state.acceptsRequested = true) :
    Awake l w m' where
  server := hserver ▸ ha.server
  wakesUp _ := .inr (.inr (.inl hrequested))

/-- A step that consumes the completion of another operation, or of an accept that found no connection. -/
theorem consumed {cqe : Cqe} {rest : List Cqe} (hcq : m.ring.cq = cqe :: rest)
    (hcqe : cqe.userData.operation ≠ .accept ∨ cqe.res = -Errno.eagain)
    (hserver : m'.serverSocketFd = m.serverSocketFd ∨ m'.serverSocketFd = -1)
    (hrequested : m'.state.acceptsRequested = m.state.acceptsRequested) (hsqes : m'.sqes = m.sqes)
    (hcompletions : m'.completions = m.cqeSeen.completions) : Awake l w m' := by
  refine ha.of_perm hserver (fun h => hrequested.trans h) (.of_eq hsqes) fun x hx haccept hres => ?_
  rw [hcompletions]
  rcases List.mem_cons.1 ((completions_cqeSeen hcq).mem_iff.1 hx) with rfl | hx
  · exact absurd haccept (hcqe.resolve_right hres)
  · exact hx

/-- The moves of the world lose no wakeup. -/
theorem moves (h : w.Moves w') : Awake l w' m := by
  refine ⟨ha.server, fun hbacklog => ?_⟩
  cases h with
  | arrive => exact .inl rfl
  | deliver => exact .inr (.inl (Nat.succ_ne_zero _))
  | drop _ hnone => exact absurd hnone hbacklog

/-- The steps of the program lose no wakeup. -/
theorem smallStep (hk : k ≠ .started ∧ k ≠ .kernel) (h : SmallStep m k obs m') : Awake l w m' := by
  cases h with
  | kernel => exact absurd rfl hk.2
  | started => exact absurd rfl hk.1
  | @request s op sqe ioq _ _ _ _ _ hpush =>
    have hsqes : (setStateBits { m with ioQueue := ioq } s op.bits).sqes.Perm _ := sqes_push hpush rfl rfl
    refine ⟨ha.server, fun hbacklog => (ha.wakesUp hbacklog).mono id (fun x hx => ?_) fun _ hcqe _ _ => hcqe⟩
    exact hsqes.mem_iff.2 (List.mem_cons_of_mem _ hx)
  | @acceptEnqueued ioq _ _ hpush =>
    -- the request is taken back, and the accept that was enqueued is on the socket
    have hsqes : (acceptEnqueued { m with ioQueue := ioq }).sqes.Perm _ := sqes_push hpush rfl rfl
    refine ⟨ha.server, fun _ => .inr (.inr (.inr (.inl ⟨acceptSqe m, ?_, rfl, ha.server⟩)))⟩
    exact hsqes.mem_iff.2 List.mem_cons_self
  | pop hpop =>
    exact ha.of_perm (.inl rfl) id (sqes_pop hpop) fun _ hcqe _ _ => completions_pop hpop ▸ hcqe
  | submitted => exact ha.of_perm (.inl rfl) id (sqes_ringTaken m _) fun _ hcqe _ _ => hcqe
  | acceptAgain hcq _ hagain => exact ha.consumed hcq (.inr hagain) (.inl rfl) rfl rfl rfl
  | acceptFailed => exact ha.requested rfl rfl
  | acceptNoSlot => exact ha.requested rfl rfl
  | acceptRollback => exact ha.requested rfl rfl
  | accepted => exact ha.requested rfl rfl
  | @transferred cqe _ s op hcq hdata =>
    have hne : cqe.userData.operation ≠ .accept := hdata ▸ op.operation_ne_accept
    exact ha.consumed hcq (.inl hne) (.inl rfl) rfl rfl rfl
  | @closed cqe _ s stack hcq hdata =>
    have hne : cqe.userData.operation ≠ .accept := hdata ▸ SlotOp.close.operation_ne_accept
    refine ha.consumed hcq (.inl hne) (completeShutdownIfDone_serverSocketFd _) ?_ ?_ ?_
    · exact completeShutdownIfDone_acceptsRequested _
    · simp [Instance.sqes, countDown, Ring.ioUringCqeSeen]
    · simp [Instance.completions, countDown, Instance.cqeSeen]
  | @detached s stack =>
    refine ha.same (completeShutdownIfDone_serverSocketFd _) (completeShutdownIfDone_acceptsRequested _) ?_ ?_
    · simp [Instance.sqes]
    · simp [Instance.completions]
  | acceptsRequested => exact ha.requested rfl rfl
  | _ => exact ha.same (.inl rfl) rfl rfl rfl

/-- An action other than the execution of a submission does not concern the world. -/
theorem sees {a : Act} (hexec : ∀ sqe res, a ≠ .exec sqe res) (h : w.Sees l a w') : Awake l w' m := by
  cases a with
  | exec sqe res => exact absurd rfl (hexec sqe res)
  | _ =>
    cases h
    exact ha

/-- The execution of an accept loses no wakeup: only one that finds no connection is not followed by another. -/
theorem exec {sqe : Sqe} {res : Int} (hmade : sqe.Made) (hsqes : m.sqes.Perm (sqe :: m'.sqes))
    (hcompletions : m'.completions.Perm (⟨sqe.userData, res⟩ :: m.completions))
    (hserver : m'.serverSocketFd = m.serverSocketFd)
    (hrequested : m'.state.acceptsRequested = m.state.acceptsRequested) (h : w.Sees l (.exec sqe res) w') :
    Awake l w' m' := by
  refine ⟨hserver ▸ ha.server, fun hbacklog => ?_⟩
  have hdone : sqe.opcode = .accept → res ≠ -Errno.eagain → WakesUp l w' m' := by
    intro haccept hres
    exact .inr (.inr (.inr (.inr ⟨⟨sqe.userData, res⟩, hcompletions.mem_iff.2 List.mem_cons_self,
      hmade.isAccept haccept, hres⟩)))
  have hother : w'.edge = w.edge → w'.delivered = w.delivered → w.backlog ≠ 0 →
      ¬ (sqe.opcode = .accept ∧ (sqe.fd = l ∨ sqe.fd = -1)) → WakesUp l w' m' := by
    intro hedge hdelivered hb hsqe
    rcases ha.wakesUp hb with h | h | h | ⟨x, hx, haccept⟩ | ⟨cqe, hcqe, haccept⟩
    · exact .inl (hedge.trans h)
    · exact .inr (.inl (hdelivered ▸ h))
    · exact .inr (.inr (.inl (hrequested.trans h)))
    · rcases List.mem_cons.1 (hsqes.mem_iff.1 hx) with rfl | hx
      · exact absurd haccept hsqe
      · exact .inr (.inr (.inr (.inl ⟨x, hx, haccept⟩)))
    · exact .inr (.inr (.inr (.inr ⟨cqe, hcompletions.mem_iff.2 (List.mem_cons_of_mem _ hcqe), haccept⟩)))
  unfold ListenWorld.Sees at h
  dsimp only at h
  split at h
  · rename_i hsqe
    split at h
    · rename_i hres
      exact hdone hsqe.1 (by unfold Errno.eagain; omega)
    · obtain ⟨hagain, rfl⟩ := h
      exact hdone hsqe.1 fun hres => hbacklog (hagain hres)
  · rename_i hsqe
    obtain ⟨hnone, rfl⟩ := h
    by_cases hclosed : sqe.opcode = .accept ∧ sqe.fd = -1
    · exact hdone hclosed.1 (hnone hclosed.1 hclosed.2)
    · refine hother rfl rfl hbacklog fun hboth => ?_
      exact hboth.2.elim (fun hfd => hsqe ⟨hboth.1, hfd⟩) fun hfd => hclosed ⟨hboth.1, hfd⟩

end Awake

/-! ### Calls -/

/-- What the world sees and does while nothing is executed. -/
theorem Awake.watch {seen : List (ListenWorld × Act)} (ha : Awake l w m)
    (hwatch : Watch ListenWorld.Moves (ListenWorld.Sees l) w seen w')
    (hexec : ∀ sqe res, Act.exec sqe res ∉ seen.map Prod.snd) : Awake l w' m := by
  refine (hwatch.keeps (fun x => Awake l x m) (fun _ _ h ha => ha.moves h) ?_ ha).1
  intro x a x' hmem hsees ha
  exact ha.sees (fun sqe res h => hexec sqe res (h ▸ hmem)) hsees

/-- The kernel loses no wakeup. -/
theorem Awake.kernel {acts : List Act} {r : Ring} {seen : List (ListenWorld × Act)} (ha : Awake l w m)
    (hmade : ∀ sqe ∈ m.sqes, sqe.Made)
    (h : Ring.KernelStep m.ring acts r) (hwatch : Watch ListenWorld.Moves (ListenWorld.Sees l) w seen w')
    (hseen : seen.map Prod.snd = acts) : Awake l w' { m with ring := r } := by
  rcases operations_kernel h with ⟨sqe, res, rfl, hsqes, hcompletions⟩ | ⟨hnone, hsqes, hcompletions⟩
  · obtain ⟨p, rfl, hp⟩ := List.map_eq_singleton_iff.1 hseen
    obtain ⟨w₁, hbefore, hsees, hafter⟩ := hwatch.cons_inv
    rw [hp] at hsees
    have hsqe := hmade sqe (hsqes.mem_iff.2 List.mem_cons_self)
    have hexecuted : Awake l w₁ { m with ring := r } :=
      (ha.watch hbefore (by simp)).exec hsqe hsqes hcompletions rfl rfl hsees
    exact hexecuted.watch hafter (by simp)
  · have hmoved : Awake l w { m with ring := r } :=
      ha.of_perm (.inl rfl) id (.of_eq hsqes) fun _ hcqe _ _ => hcompletions.mem_iff.2 hcqe
    exact hmoved.watch hwatch fun sqe res => hseen ▸ hnone sqe res

/-- No call loses a wakeup, whatever the world does meanwhile. -/
theorem Awake.calls {P : StepKind → Prop} {acts : List Act} {log : List (Nat × SlotEvent)}
    {seen : List (ListenWorld × Act)} (hP : ∀ k, P k → k ≠ .started) (hcalls : Calls P m acts log m')
    (hwatch : Watch ListenWorld.Moves (ListenWorld.Sees l) w seen w') (hseen : seen.map Prod.snd = acts)
    (hmade : ∀ sqe ∈ m.sqes, sqe.Made) (ha : Awake l w m) : Awake l w' m' := by
  obtain ⟨obs, hpath, hacts, -⟩ := hcalls
  refine (hpath.watched (fun w x => Awake l w x ∧ ∀ sqe ∈ x.sqes, sqe.Made) (fun _ _ => True)
    (fun _ _ _ h ha => ⟨ha.1.moves h, ha.2⟩) ?_ hwatch (hseen.trans hacts.symm) ⟨ha, hmade⟩).1.1
  rintro x k os x' w seen w' hk hstep hwatch hseen ⟨ha, hmade⟩
  refine ⟨⟨?_, hstep.made hmade⟩, fun _ _ => trivial⟩
  by_cases hkernel : k = .kernel
  · subst hkernel
    cases hstep with
    | kernel hkernel =>
      refine ha.kernel hmade hkernel hwatch (hseen.trans ?_)
      simp [List.filterMap_map, Function.comp_def, Obs.act?]
  · refine (ha.smallStep ⟨hP k hk, hkernel⟩ hstep).watch hwatch fun sqe res hmem => ?_
    rw [hseen] at hmem
    exact hstep.not_exec hkernel sqe res ((Obs.mem_acts_iff rfl).1 hmem)

/-- A call that starts no instance takes no step of that kind. -/
theorem calls_between (hm : WellFormed m) {i : Input} (hi : BetweenStartAndShutdown m i) :
    Calls (fun k => k ≠ .started) m (step m i).2.acts (slotEventsOf (i, (step m i).2)) (step m i).1 := by
  cases i with
  | start probe epollFd e env =>
    exact calls_start m probe epollFd e env (fun hrc => absurd hrc hi) (by simp) (by simp)
  | processEvent data epollEvents eventCapacity env =>
    refine (calls_step m hm.cq_entries (.processEvent data epollEvents eventCapacity env)).mono ?_
    rintro k (hk | ⟨rfl, -⟩)
    · rintro rfl
      simp [processKinds] at hk
    · simp
  | detach session delErr =>
    refine (calls_step m hm.cq_entries (.detach session delErr)).mono ?_
    rintro k (hk | ⟨rfl, -⟩)
    · rintro rfl
      simp at hk
    · simp
  | _ =>
    refine (calls_step m hm.cq_entries _).mono fun k hk => ?_
    rintro rfl
    simp [Input.allows] at hk

/-! ### After the start -/

/-- An event of the listening socket requests accepts. -/
theorem Awake.passed (hserver : m.serverSocketFd = l ∨ m.serverSocketFd = -1) {epollEvents : UInt32}
    (hin : epollEvents &&& epollin ≠ 0) (eventCapacity : Nat) (env : ProcessEnv) (w : ListenWorld) :
    Awake l w (mconProcessEvent m (instancePayload m epollSourceServerSocket) epollEvents eventCapacity env).1 ∧
      (mconProcessEvent m (instancePayload m epollSourceServerSocket) epollEvents eventCapacity env).2.acts = [] := by
  have hrange : EpollEntry.InRange ⟨m.instanceId, 0, epollSourceServerSocket, UInt32.ofNat mconNoSession, 0⟩ :=
    ⟨(by decide : epollSourceServerSocket.toNat < 2 ^ 4), (by decide : (UInt32.ofNat mconNoSession).toNat < 2 ^ 20)⟩
  have hdecode := mconDecodeEpollEntry_encode hrange
  have howns : mconOwnsEvent m (instancePayload m epollSourceServerSocket) = true :=
    (mconOwnsEvent_encode hrange m).2 ⟨rfl, (by decide : mconIsValidSource epollSourceServerSocket = true)⟩
  have hcall : mconProcessEvent m (instancePayload m epollSourceServerSocket) epollEvents eventCapacity env =
      (requestAccepts m, .ret 0 none []) := by
    unfold mconProcessEvent mconProcessServerSocketEvent
    rw [howns, instancePayload, hdecode]
    simp [hin, requestAccepts]
  rw [hcall]
  exact ⟨⟨hserver, fun _ => .inr (.inr (.inl rfl))⟩, rfl⟩

/-- The listening socket as long as it is registered. -/
theorem Listening.awake (h : Listening l w m) : WellFormed m ∧ (∀ sqe ∈ m.sqes, sqe.Made) ∧ Awake l w m := by
  induction h with
  | @started h m probe e env before data events backlog seen w he hrc hacts hwatch =>
    obtain ⟨hm', hall⟩ := mconStart_ok hrc
    rw [hm']
    refine ⟨he.wellFormed.frame {}, he.made, ?_⟩
    have hstart : Awake l ⟨backlog, decide (backlog ≠ 0), 0⟩ { m with serverSocketFd := l, epollFd := e } :=
      ⟨.inl rfl, fun hbacklog => .inl (by simpa using hbacklog)⟩
    refine hstart.watch hwatch fun sqe res hmem => ?_
    have hsome : Act.exec sqe res ∈ (mconStart m probe l e env).2.acts := by
      rw [hacts]
      exact List.mem_append_right _ (List.mem_cons_of_mem _ hmem)
    simp [hall] at hsome
  | @call m w w' i seen _ hi hwatch hseen ih =>
    obtain ⟨hm, hmade, ha⟩ := ih
    have hcalls := calls_between hm hi
    refine ⟨hcalls.wellFormed hm, ?_, ha.calls (fun _ hk => hk) hcalls hwatch hseen hmade⟩
    exact hcalls.invariant (fun x => ∀ sqe ∈ x.sqes, sqe.Made) (fun _ _ _ _ _ hs hx => hs.made hx) hmade
  | @passed m w w' delivered epollEvents eventCapacity env seen _ _ hin hwatch hseen ih =>
    obtain ⟨hm, hmade, ha⟩ := ih
    have hcalls := calls_step m hm.cq_entries
      (.processEvent (instancePayload m epollSourceServerSocket) epollEvents eventCapacity env)
    obtain ⟨hawake, hacts⟩ := Awake.passed ha.server hin eventCapacity env { w with delivered := delivered }
    refine ⟨hcalls.wellFormed hm, ?_, hawake.watch hwatch (by simp [hseen, hacts])⟩
    exact hcalls.invariant (fun x => ∀ sqe ∈ x.sqes, sqe.Made) (fun _ _ _ _ _ hs hx => hs.made hx) hmade

/-- No wakeup of the listening socket is lost: between a successful start and the shutdown, whatever is called and
whatever the world does, something will bring about an accept as long as a client waits. -/
theorem listen_wakeup_not_lost (h : Listening l w m) (hbacklog : w.backlog ≠ 0) : WakesUp l w m :=
  h.awake.2.2.wakesUp hbacklog

/-- A client waits when the socket is registered, and the edge is delivered and passed on. -/
theorem listen_wakeup_not_lost_passed :
    WakesUp 5 ⟨1, false, 0⟩ (finalState step (freshInstance (smallConfig 2 4 1)) [startInput, serverInput]) := by
  have hstart : Listening 5 ⟨1, false, 1⟩ (finalState step (freshInstance (smallConfig 2 4 1)) [startInput]) := by
    have hrun : Execution anyInput [] (freshInstance (smallConfig 2 4 1)) :=
      Execution.of_inputs (smallConfig 2 4 1) (by decide) [] trivial
    have hwatch : Watch ListenWorld.Moves (ListenWorld.Sees 5) ⟨1, decide (1 ≠ 0), 0⟩
        [(⟨1, false, 1⟩, .epollAdd 6 9 (instancePayload (freshInstance (smallConfig 2 4 1)) epollSourceIoUring)
          (epollin ||| epollerr) none)] ⟨1, false, 1⟩ := .move (.deliver rfl) (.see rfl (.nil _))
    have hacts := (mconStart_ok (l := 5) (e := 6)
      (by decide : (mconStart (freshInstance (smallConfig 2 4 1)) listeningProbe 5 6 ⟨none, none, none⟩).2.rc = 0)).2
    exact .started hrun (by decide) (hacts.trans (List.singleton_append (l := _)).symm) hwatch
  have hacts : (mconProcessEvent (finalState step (freshInstance (smallConfig 2 4 1)) [startInput])
      (instancePayload (finalState step (freshInstance (smallConfig 2 4 1)) [startInput]) epollSourceServerSocket)
      epollin 8 ⟨.quiet, ⟨none, 0⟩⟩).2.acts = [] := by decide
  have hpassed := hstart.passed rfl (by decide : epollin &&& epollin ≠ 0) (.nil _) hacts.symm
  exact listen_wakeup_not_lost hpassed (by decide)

end Mcon
