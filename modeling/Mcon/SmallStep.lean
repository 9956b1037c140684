import Mcon.System

/-!
# Small steps

Every call is a sequence of small steps: one access to the rings or one completion handler at a time.  `SmallStep`
says for each kind of small step when it is taken, what it emits and what the instance is afterwards; the
invariants of the instance are proved for each kind and never look into the calls again.  That the calls consist
of small steps is proved in `CallPaths`.
-/

namespace Mcon

variable {C : Ctools}

/-! ### Operations of a slot -/

namespace SlotOp

def operation : SlotOp → IoUringOperation
  | reading .read => .read
  | reading .drain => .drain
  | write => .write
  | close => .close

/-- The code of the submission. -/
def opcode : SlotOp → Opcode
  | reading .read => .read
  | reading .drain => .recv
  | write => .write
  | close => .close

/-- The state bit that marks a pending operation. -/
def bits : SlotOp → UInt8
  | reading _ => stateReading
  | write => stateWriting
  | close => stateClosing

/-- The states in which the operation is refused. -/
def incompatible : SlotOp → UInt8
  | reading _ => stateReading ||| stateClosing
  | write => stateWriting ||| stateClosing
  | close => stateReading ||| stateWriting ||| stateClosing

def entry (op : SlotOp) (s : Nat) : IoUringEntry := ⟨op.operation, s⟩

theorem operation_ne_accept (op : SlotOp) : op.operation ≠ .accept := by
  rcases op with (_ | _) | _ | _ <;> simp [operation]

theorem opcode_ne_accept (op : SlotOp) : op.opcode ≠ .accept := by
  rcases op with (_ | _) | _ | _ <;> simp [opcode]

theorem operation_inj {op op' : SlotOp} (h : op.operation = op'.operation) : op = op' := by
  rcases op with (_ | _) | _ | _ <;> rcases op' with (_ | _) | _ | _ <;> simp_all [operation]

theorem entry_inj {op op' : SlotOp} {s s' : Nat} (h : op.entry s = op'.entry s') : op = op' ∧ s = s' := by
  simp only [entry, IoUringEntry.mk.injEq] at h
  exact ⟨operation_inj h.1, h.2⟩

end SlotOp

/-! ### The steps -/

/-- What a small step shows: an action, or an event in the life of a slot. -/
inductive Obs
  | act (a : Act)
  | slot (s : Nat) (e : SlotEvent)
  deriving DecidableEq

namespace Obs

def act? : Obs → Option Act
  | act a => some a
  | slot _ _ => none

def slot? : Obs → Option (Nat × SlotEvent)
  | act _ => none
  | slot s e => some (s, e)

variable (a : Act) (s : Nat) (e : SlotEvent) (obs : List Obs)

@[simp] theorem acts_act : (act a :: obs).filterMap act? = a :: obs.filterMap act? := rfl
@[simp] theorem acts_slot : (slot s e :: obs).filterMap act? = obs.filterMap act? := rfl
@[simp] theorem slots_act : (act a :: obs).filterMap slot? = obs.filterMap slot? := rfl
@[simp] theorem slots_slot : (slot s e :: obs).filterMap slot? = (s, e) :: obs.filterMap slot? := rfl

theorem mem_acts_iff {obs : List Obs} {acts : List Act} (hacts : obs.filterMap act? = acts) {a : Act} :
    a ∈ acts ↔ act a ∈ obs := by
  rw [← hacts, List.mem_filterMap]
  constructor
  · rintro ⟨o, ho, hoa⟩
    cases o with
    | act b => cases hoa; exact ho
    | slot => cases hoa
  · exact fun h => ⟨_, h, rfl⟩

end Obs

inductive StepKind
  | kernel
  | request
  | acceptEnqueued
  | pop
  | submitted
  | submitFailed
  | acceptAgain
  | acceptFailed
  | acceptNoSlot
  | acceptRollback
  | accepted
  | transferred
  | closed
  | closeNoRoom
  | eventfd
  | detached
  | detachUndone
  | detachEnoent
  | detachNoRoom
  | rdhup
  | acceptsRequested
  | started
  | startFailed
  | startUndone
  | shutdown
  | shutdownFailed
  | look
  deriving DecidableEq, Repr

/-- `sqe_in_flight -= 1`. -/
def countDown (m : Instance C) : Instance C :=
  { m with state := { m.state with sqeInFlight := m.state.sqeInFlight - 1 } }

/-- `sqe_in_flight += n` after the kernel took the first `n` entries of the SQ ring. -/
def ringTaken (m : Instance C) (n : Nat) : Instance C :=
  { m with
    ring :=
      { m.ring with
        sq := m.ring.sq.drop n
        inKernel := m.ring.inKernel ++ m.ring.sq.take n
        sqHead := m.ring.sqHead + n }
    state := { m.state with sqeInFlight := m.state.sqeInFlight + UInt16.ofNat n } }

/-- The instance after the completion of an accept that is not `-EAGAIN`, before a slot is looked for. -/
def acceptDone (m : Instance C) : Instance C := requestAccepts (acceptSeen m)

/-- The instance after a close completion whose slot was pushed on the free stack. -/
def closeDone (m : Instance C) (s : Nat) (stack : C.idxStack.Carrier) : Instance C :=
  completeShutdownIfDone
    (clearStateBits (sessionResetAfterClose { m with sessionFreeStack := stack } s).cqeSeen s stateClosing)

/-- The instance after a successful detach. -/
def detachDone (m : Instance C) (s : Nat) (stack : C.idxStack.Carrier) : Instance C :=
  completeShutdownIfDone (sessionResetAfterClose { m with sessionFreeStack := stack } s)

section Done

variable (m : Instance C) (s : Nat) (stack : C.idxStack.Carrier)

@[simp] theorem closeDone_configuration : (closeDone m s stack).configuration = m.configuration :=
  completeShutdownIfDone_configuration _

@[simp] theorem closeDone_freeStack : (closeDone m s stack).sessionFreeStack = stack :=
  completeShutdownIfDone_freeStack _

@[simp] theorem closeDone_ring : (closeDone m s stack).ring = m.ring.ioUringCqeSeen :=
  completeShutdownIfDone_ring _

@[simp] theorem closeDone_ioQueue : (closeDone m s stack).ioQueue = m.ioQueue := completeShutdownIfDone_ioQueue _

@[simp] theorem closeDone_sqeInFlight : (closeDone m s stack).state.sqeInFlight = m.state.sqeInFlight :=
  completeShutdownIfDone_sqeInFlight _

@[simp] theorem closeDone_acceptsLive : (closeDone m s stack).state.acceptsLive = m.state.acceptsLive :=
  completeShutdownIfDone_acceptsLive _

@[simp] theorem closeDone_outstanding : (closeDone m s stack).outstanding = m.cqeSeen.outstanding := by
  simp [Instance.outstanding, Instance.cqeSeen]

@[simp] theorem detachDone_configuration : (detachDone m s stack).configuration = m.configuration :=
  completeShutdownIfDone_configuration _

@[simp] theorem detachDone_freeStack : (detachDone m s stack).sessionFreeStack = stack :=
  completeShutdownIfDone_freeStack _

@[simp] theorem detachDone_ring : (detachDone m s stack).ring = m.ring := completeShutdownIfDone_ring _

@[simp] theorem detachDone_ioQueue : (detachDone m s stack).ioQueue = m.ioQueue := completeShutdownIfDone_ioQueue _

@[simp] theorem detachDone_sqeInFlight : (detachDone m s stack).state.sqeInFlight = m.state.sqeInFlight :=
  completeShutdownIfDone_sqeInFlight _

@[simp] theorem detachDone_acceptsLive : (detachDone m s stack).state.acceptsLive = m.state.acceptsLive :=
  completeShutdownIfDone_acceptsLive _

@[simp] theorem detachDone_outstanding : (detachDone m s stack).outstanding = m.outstanding := by
  simp [Instance.outstanding]

end Done

inductive SmallStep : Instance C → StepKind → List Obs → Instance C → Prop
  | kernel {m : Instance C} {acts : List Act} {r : Ring} : Ring.KernelStep m.ring acts r →
      SmallStep m .kernel (acts.map .act) { m with ring := r }
  | request {m : Instance C} {s : Nat} {op : SlotOp} {sqe : Sqe} {ioq : C.kqueue.Carrier} {priority : Nat} :
      validateArgs m s op.incompatible = none → sqe.userData = op.entry s →
      sqe.fd = (m.session s).socketFd → sqe.opcode = op.opcode →
      C.kqueue.push m.ioQueue priority sqe = some ioq →
      SmallStep m .request [.act (.sessionsAt s), .act (.ioQueuePush sqe), .slot s (.called op)]
        (setStateBits { m with ioQueue := ioq } s op.bits)
  | acceptEnqueued {m : Instance C} {ioq : C.kqueue.Carrier} :
      m.state.acceptsLive.toNat < m.configuration.maxLiveAcceptSqes.toNat →
      m.state.acceptsLive.toNat < C.idxStack.size m.sessionFreeStack →
      C.kqueue.push m.ioQueue acceptGroup (acceptSqe m) = some ioq →
      SmallStep m .acceptEnqueued [.act (.ioQueuePush (acceptSqe m))] (acceptEnqueued { m with ioQueue := ioq })
  | pop {m : Instance C} {ioq : C.kqueue.Carrier} {r : Ring} : PopOne (m.ioQueue, m.ring) (ioq, r) →
      SmallStep m .pop [] { m with ioQueue := ioq, ring := r }
  | submitted {m : Instance C} {n : Nat} : n ≤ m.ring.sq.length →
      SmallStep m .submitted [.act (.ioUringSubmit n)] (ringTaken m n)
  | submitFailed {m : Instance C} {res : Int} : res < 0 →
      SmallStep m .submitFailed [.act (.ioUringSubmit res)] m
  | acceptAgain {m : Instance C} {cqe : Cqe} {rest : List Cqe} : m.ring.cq = cqe :: rest →
      cqe.userData.operation = .accept → cqe.res = -Errno.eagain →
      SmallStep m .acceptAgain [] (countDown (acceptSeen m))
  | acceptFailed {m : Instance C} {cqe : Cqe} {rest : List Cqe} : m.ring.cq = cqe :: rest →
      cqe.userData.operation = .accept → cqe.res < 0 →
      SmallStep m .acceptFailed [] (countDown (acceptDone m))
  | acceptNoSlot {m : Instance C} {cqe : Cqe} {rest : List Cqe} : m.ring.cq = cqe :: rest →
      cqe.userData.operation = .accept → 0 ≤ cqe.res → C.idxStack.pop m.sessionFreeStack = none →
      SmallStep m .acceptNoSlot [.act (.stackPop none)] (acceptDone m)
  | acceptRollback {m : Instance C} {cqe : Cqe} {rest : List Cqe} {s : Nat}
      {stack stack' : C.idxStack.Carrier} {err : Int} :
      m.ring.cq = cqe :: rest → cqe.userData.operation = .accept → 0 ≤ cqe.res →
      C.idxStack.pop m.sessionFreeStack = some (s, stack) → C.idxStack.push stack s = some stack' →
      SmallStep m .acceptRollback
        [.act (.stackPop (some s)), .act (.sessionsAt s),
          .act (.epollAdd m.epollFd cqe.res (clientPayload m s) (clientEvents m) (some err)),
          .act (.stackPush s true),
          .act (.close cqe.res)]
        { acceptDone m with sessionFreeStack := stack' }
  | accepted {m : Instance C} {cqe : Cqe} {rest : List Cqe} {s : Nat} {stack : C.idxStack.Carrier} :
      m.ring.cq = cqe :: rest → cqe.userData.operation = .accept → 0 ≤ cqe.res →
      C.idxStack.pop m.sessionFreeStack = some (s, stack) →
      SmallStep m .accepted
        [.act (.stackPop (some s)), .act (.sessionsAt s),
          .act (.epollAdd m.epollFd cqe.res (clientPayload m s) (clientEvents m) none), .act (.sessionsAt s),
          .slot s .opened]
        (countDown (sessionPrepForNewClient { acceptDone m with sessionFreeStack := stack } s cqe.res))
  | transferred {m : Instance C} {cqe : Cqe} {rest : List Cqe} {s : Nat} {op : SlotOp} :
      m.ring.cq = cqe :: rest → cqe.userData = op.entry s → op ≠ .close →
      SmallStep m .transferred [.act (.sessionsAt s), .slot s (.answered op)]
        (countDown (clearStateBits m.cqeSeen s op.bits))
  | closed {m : Instance C} {cqe : Cqe} {rest : List Cqe} {s : Nat} {stack : C.idxStack.Carrier} :
      m.ring.cq = cqe :: rest → cqe.userData = SlotOp.close.entry s →
      C.idxStack.push m.sessionFreeStack s = some stack →
      SmallStep m .closed
        [.act (.stackPush s true), .act (.sessionsAt s), .slot s (.answered .close)]
        (countDown (closeDone m s stack))
  | closeNoRoom {m : Instance C} {cqe : Cqe} {rest : List Cqe} {s : Nat} : m.ring.cq = cqe :: rest →
      cqe.userData = SlotOp.close.entry s → C.idxStack.push m.sessionFreeStack s = none →
      SmallStep m .closeNoRoom [.act (.stackPush s false)] m
  | eventfd {m : Instance C} {n : Nat} {a : Act} : a = .eventfdRead ∨ a = .eventfdWrite →
      SmallStep m .eventfd [.act a] { m with ring := { m.ring with eventfd := n } }
  | detached {m : Instance C} {s : Nat} {stack : C.idxStack.Carrier} :
      validateArgs m s SlotOp.close.incompatible = none → C.idxStack.push m.sessionFreeStack s = some stack →
      SmallStep m .detached
        [.act (.sessionsAt s), .act (.stackPush s true),
          .act (.epollDel m.epollFd (m.session s).socketFd none), .slot s .detached]
        (detachDone m s stack)
  | detachUndone {m : Instance C} {s popped : Nat} {stack stack' : C.idxStack.Carrier} {err : Int} :
      validateArgs m s SlotOp.close.incompatible = none → C.idxStack.push m.sessionFreeStack s = some stack →
      C.idxStack.pop stack = some (popped, stack') →
      SmallStep m .detachUndone
        [.act (.sessionsAt s), .act (.stackPush s true),
          .act (.epollDel m.epollFd (m.session s).socketFd (some err)), .act (.stackPop (some popped))]
        { m with sessionFreeStack := stack' }
  | detachEnoent {m : Instance C} {s : Nat} {stack : C.idxStack.Carrier} :
      validateArgs m s SlotOp.close.incompatible = none → C.idxStack.push m.sessionFreeStack s = some stack →
      SmallStep m .detachEnoent
        [.act (.sessionsAt s), .act (.stackPush s true),
          .act (.epollDel m.epollFd (m.session s).socketFd (some Errno.enoent))]
        { m with sessionFreeStack := stack }
  | detachNoRoom {m : Instance C} {s : Nat} : validateArgs m s SlotOp.close.incompatible = none →
      C.idxStack.push m.sessionFreeStack s = none →
      SmallStep m .detachNoRoom [.act (.sessionsAt s), .act (.stackPush s false)] m
  | rdhup {m : Instance C} {s : Nat} : s < m.configuration.sessionCount.toNat →
      SmallStep m .rdhup [] (setStateBits m s stateRdhup)
  | acceptsRequested {m : Instance C} : SmallStep m .acceptsRequested [] (requestAccepts m)
  | started {m : Instance C} {probe : SocketProbe} {l e : Int} : mconListeningSocketValid probe = .ok →
      SmallStep m .started
        [.act (.socketProbe l probe),
          .act (.epollAdd e l (instancePayload m epollSourceServerSocket) (epollin ||| epollerr ||| epollet) none),
          .act (.epollAdd e m.ioUringEventfd (instancePayload m epollSourceIoUring) (epollin ||| epollerr) none)]
        { m with serverSocketFd := l, epollFd := e }
  | startFailed {m : Instance C} {probe : SocketProbe} {l e : Int} {err : Int} :
      SmallStep m .startFailed
        [.act (.socketProbe l probe),
          .act (.epollAdd e l (instancePayload m epollSourceServerSocket) (epollin ||| epollerr ||| epollet)
            (some err))] m
  | startUndone {m : Instance C} {probe : SocketProbe} {l e : Int} {err : Int} {del : Option Int} :
      mconListeningSocketValid probe = .ok →
      SmallStep m .startUndone
        [.act (.socketProbe l probe),
          .act (.epollAdd e l (instancePayload m epollSourceServerSocket) (epollin ||| epollerr ||| epollet) none),
          .act (.epollAdd e m.ioUringEventfd (instancePayload m epollSourceIoUring) (epollin ||| epollerr)
            (some err)),
          .act (.epollDel e l del)] m
  | shutdown {m : Instance C} : m.state.isShuttingDown = false → m.serverSocketFd ≠ -1 →
      SmallStep m .shutdown [.act (.epollDel m.epollFd m.serverSocketFd none)]
        { m with state := { m.state with isShuttingDown := true } }
  | shutdownFailed {m : Instance C} {err : Int} :
      SmallStep m .shutdownFailed [.act (.epollDel m.epollFd m.serverSocketFd (some err))] m
  /-- A read of a session record or a query of its socket. -/
  | look {m : Instance C} {s : Nat} {a : Act} : s < m.configuration.sessionCount.toNat →
      a = .sessionsAt s ∨ (∃ err, a = .getsockopt (m.session s).socketFd err) →
      SmallStep m .look [.act a] m
  /-- A refused start. -/
  | probed {m : Instance C} {probe : SocketProbe} {l : Int} :
      SmallStep m .startFailed [.act (.socketProbe l probe)] m

end Mcon
