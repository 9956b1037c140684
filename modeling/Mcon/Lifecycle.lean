import Mcon.CompletionLoop

/-!
# The life of an instance (`mcon.c`, `socket.c`, `io_uring_actions.c`)

Creation, start and shutdown, the dispatch of epoll events and the submission of queued operations.
-/

namespace Mcon

variable {C : Ctools}

/-! ### The listening socket (`mcon_listening_socket_valid`) -/

/-- `enum mcon_socket_validation_error`. -/
inductive SocketValidationError
  | error
  | ok
  | notAFileDescriptor
  | notASocket
  | notNonblocking
  | notStreaming
  | notListening
  deriving DecidableEq, Repr

def mconListeningSocketValid (probe : SocketProbe) : SocketValidationError :=
  match probe.acceptconn with
  | .error err =>
    if err = Errno.ebadf then .notAFileDescriptor
    else if err = Errno.enotsock then .notASocket
    else .error
  | .ok listening =>
    match probe.type, probe.flags with
    | .error _, _ => .error
    | .ok _, none => .error
    | .ok type, some flags =>
      if type ≠ sockStream then .notStreaming
      else if listening = 0 then .notListening
      else if flags &&& oNonblock = 0 then .notNonblocking
      else .ok

/-! ### Creation (`mcon_create`) -/

/-- What the system and the allocator answer during `mcon_create`. -/
structure CreateEnv where
  ringInit : Int
  eventfd : Int
  ioQueueOk : Bool
  sessionsOk : Bool
  freeStackOk : Bool
  mconOk : Bool
  deriving DecidableEq, Repr

/-- Drawing an instance id from the counter: the id and the counter afterwards. -/
def drawInstanceId (counter : UInt16) : UInt16 × UInt16 :=
  if counter = 0 then (counter + 1, counter + 1 + 1) else (counter, counter + 1)

/-- The free stack after `idx_stack_push(&session_free_stack, (session_count - 1) - i)` for `i < n`. -/
def fillFreeStack (sessionCount : Nat) : Nat → C.idxStack.Carrier
  | 0 => C.idxStack.create sessionCount
  | i + 1 =>
    let stack := fillFreeStack sessionCount i
    (C.idxStack.push stack (sessionCount - 1 - i)).getD stack

/-- The instance `mcon_create` builds. -/
def newInstance (C : Ctools) (instanceId : UInt16) (eventfd : Int) (config : Config) : Instance C where
  instanceId := instanceId
  epollFd := -1
  serverSocketFd := -1
  ioUringEventfd := eventfd
  ring := ioUringQueueInit config.ioUringQueueSize.toNat
  configuration := config
  sessions := List.replicate config.sessionCount.toNat sessionInit
  sessionFreeStack := fillFreeStack config.sessionCount.toNat config.sessionCount.toNat
  ioQueue := ioQueueCreate C config.ioQueueSize.toNat
  state := { sqeInFlight := 0, isShuttingDown := false, acceptsLive := 0, acceptsRequested := false }

/-- `mcon_create` with the value of its static counter; the result is the instance or the errno the function sets
itself, and the counter afterwards. -/
def mconCreate (C : Ctools) (counter : UInt16) (config : Config) (env : CreateEnv) :
    Except (Option Int) (Instance C) × UInt16 :=
  if !mconConfigValidate config then (.error (some Errno.einval), counter)
  else if env.ringInit ≠ 0 then (.error (some env.ringInit), counter)
  else if env.eventfd = -1 then (.error none, counter)
  else if !env.ioQueueOk then (.error none, counter)
  else if !env.sessionsOk then (.error none, counter)
  else if !env.freeStackOk then (.error none, counter)
  else if !env.mconOk then (.error none, counter)
  else (.ok (newInstance C (drawInstanceId counter).1 env.eventfd config), (drawInstanceId counter).2)

/-! ### Start and shutdown -/

/-- The payload of the two registrations of `mcon_start`. -/
def instancePayload (m : Instance C) (source : EpollSource) : UInt64 :=
  mconEncodeEpollEntry
    { instanceId := m.instanceId
      generation := 0
      source := source
      session := UInt32.ofNat mconNoSession
      reserved := 0 }

/-- The results of the `epoll_ctl` calls of `mcon_start`. -/
structure StartEnv where
  addListening : Option Int
  addEventfd : Option Int
  delListening : Option Int
  deriving DecidableEq, Repr

def mconStart (m : Instance C) (probe : SocketProbe) (listeningSocketFd epollFd : Int) (env : StartEnv) :
    Instance C × Output :=
  let check := .socketProbe listeningSocketFd probe
  if mconListeningSocketValid probe ≠ .ok then (m, .ret (-1) (some Errno.einval) [check])
  else
    let add := .epollAdd epollFd listeningSocketFd (instancePayload m epollSourceServerSocket)
      (epollin ||| epollerr ||| epollet) env.addListening
    match env.addListening with
    | some err => (m, .ret (-1) (some err) [check, add])
    | none =>
      let add' := .epollAdd epollFd m.ioUringEventfd (instancePayload m epollSourceIoUring)
        (epollin ||| epollerr) env.addEventfd
      match env.addEventfd with
      | some err =>
        (m, .ret (-1) (some (env.delListening.getD err))
          [check, add, add', .epollDel epollFd listeningSocketFd env.delListening])
      | none => ({ m with serverSocketFd := listeningSocketFd, epollFd := epollFd },
          .ret 0 none [check, add, add'])

def mconShutdown (m : Instance C) (delErr : Option Int) : Instance C × Output :=
  if m.state.isShuttingDown then (m, .ret (-1) (some Errno.ebusy) [])
  else if m.serverSocketFd = -1 then (m, .ret (-1) (some Errno.einval) [])
  else
    match delErr with
    | some err => (m, .ret (-1) (some err) [.epollDel m.epollFd m.serverSocketFd delErr])
    | none =>
      ({ m with state := { m.state with isShuttingDown := true } },
        .ret 0 none [.epollDel m.epollFd m.serverSocketFd delErr])

/-! ### Dispatch (`mcon_process_event`) -/

/-- What the environment does during `mcon_process_event`. -/
structure ProcessEnv where
  uring : UringEnv
  sockopt : SockoptResult

def mconProcessEvent (m : Instance C) (data : UInt64) (epollEvents : UInt32) (eventCapacity : Nat)
    (env : ProcessEnv) : Instance C × Output :=
  if !mconOwnsEvent m data then (m, .ret (-1) (some Errno.einval) [])
  else
    let eventData := mconDecodeEpollEntry data
    if eventData.source = epollSourceServerSocket then mconProcessServerSocketEvent m epollEvents
    else if eventData.source = epollSourceIoUring then mconProcessIoUringEvent m eventCapacity env.uring
    else if eventData.source = epollSourceSession then
      mconProcessSessionEvent m epollEvents eventData eventCapacity env.sockopt
    else (m, .ret (-1) none [])

/-! ### Submission (`enqueue_accept`, `mcon_submit`) -/

def acceptSqe (m : Instance C) : Sqe :=
  { ioUringPrepAccept m.serverSocketFd 0 ⟨.accept, mconNoSession⟩ with ioprio := ioringAcceptDontwait }

/-- `enqueue_accept`; the error is the errno it sets. -/
def enqueueAccept (m : Instance C) : Except (Option Int) (Instance C) :=
  if C.idxStack.size m.sessionFreeStack ≤ m.state.acceptsLive.toNat then .error (some Errno.enobufs)
  else
    match ioQueuePush m.ioQueue (acceptSqe m) with
    | .error err => .error err
    | .ok ioq => .ok { m with ioQueue := ioq }

/-- The two assignments in the body of the accept loop. -/
def acceptEnqueued (m : Instance C) : Instance C :=
  { m with state := { m.state with acceptsLive := m.state.acceptsLive + 1, acceptsRequested := false } }

/-- The accept loop of `mcon_submit`; `none` means that the fuel ran out. -/
def acceptLoop : Nat → Instance C → Option (Instance C × List Act)
  | 0, _ => none
  | fuel + 1, m =>
    if m.state.acceptsLive.toNat < m.configuration.maxLiveAcceptSqes.toNat then
      match enqueueAccept m with
      | .error _ => some (m, [])
      | .ok m' =>
        match acceptLoop fuel (acceptEnqueued m') with
        | none => none
        | some (m'', acts) => some (m'', .ioQueuePush (acceptSqe m) :: acts)
    else some (m, [])

/-- The priority group of the accepts. -/
def acceptGroup : Nat := 4

theorem enqueueAccept_ok {m m' : Instance C} (h : enqueueAccept m = .ok m') :
    m.state.acceptsLive.toNat < C.idxStack.size m.sessionFreeStack ∧
      ∃ ioq, C.kqueue.push m.ioQueue acceptGroup (acceptSqe m) = some ioq ∧ m' = { m with ioQueue := ioq } := by
  unfold enqueueAccept at h
  split at h
  · cases h
  · rename_i hlt
    split at h
    · cases h
    · rename_i ioq hqueued
      obtain ⟨priority, hpriority, hpush⟩ := ioQueuePush_ok hqueued
      cases hpriority
      cases h
      exact ⟨Nat.lt_of_not_le hlt, ioq, hpush, rfl⟩

/-- Every iteration puts an entry into the group of the accepts, whose length is bounded; the loop ends whatever
the configuration. -/
theorem acceptLoop_isSome (fuel : Nat) (m : Instance C)
    (hfuel : C.kqueue.capacity m.ioQueue < fuel + (C.kqueue.group m.ioQueue acceptGroup).length) :
    (acceptLoop fuel m).isSome := by
  induction fuel generalizing m with
  | zero =>
    have := C.kqueue.length_le m.ioQueue acceptGroup
    omega
  | succ fuel ih =>
    unfold acceptLoop
    split
    · split
      · rfl
      · rename_i m' hm'
        obtain ⟨-, ioq, hpush, rfl⟩ := enqueueAccept_ok hm'
        have hgroup := C.kqueue.group_push _ _ _ _ hpush
        have hcap := C.kqueue.capacity_push _ _ _ _ hpush
        have hrec := ih (acceptEnqueued { m with ioQueue := ioq }) (by
          simp only [acceptEnqueued, hgroup, hcap, Function.update_self, List.length_append,
            List.length_singleton]
          omega)
        cases hloop : acceptLoop fuel (acceptEnqueued { m with ioQueue := ioq }) with
        | none => rw [hloop] at hrec; cases hrec
        | some p => rfl
    · rfl

/-- Queueing the accepts at the start of `mcon_submit`. -/
def submitAccepts (m : Instance C) : Instance C × List Act :=
  if m.state.acceptsRequested then
    (acceptLoop (C.kqueue.capacity m.ioQueue + 1) m).get (acceptLoop_isSome _ m (by omega))
  else (m, [])

/-- `sqe_limit`: the difference of the two 16-bit values, as an `unsigned int`. -/
def sqeLimit (m : Instance C) : UInt32 :=
  m.configuration.ioUringQueueSize.toUInt32 - m.state.sqeInFlight.toUInt32

/-- The instance right before the call of `io_uring_submit`, and the number of entries popped. -/
def submitPop (m : Instance C) : Nat × Instance C :=
  let popped := ioQueuePopIntoRing m.ioQueue m.ring (sqeLimit m).toNat
  (popped.1, { m with ioQueue := popped.2.1, ring := popped.2.2 })

/-- The call of `io_uring_submit` and what follows; `res` is the kernel's answer. -/
def submitRing (m : Instance C) (res : Int) : Instance C × Output :=
  let submitted := m.ring.ioUringSubmit res
  let m' := { m with ring := submitted.2 }
  if submitted.1 < 0 then
    (m', .ret (-1) (some (-submitted.1)) [.ioUringSubmit submitted.1])
  else
    ({ m' with
        state := { m'.state with sqeInFlight := m'.state.sqeInFlight + UInt16.ofNat submitted.1.toNat } },
      .ret submitted.1 none [.ioUringSubmit submitted.1])

def mconSubmit (m : Instance C) (res : Int) : Instance C × Output :=
  let accepts := submitAccepts m
  let popped := submitPop accepts.1
  if popped.1 ≠ 0 then
    let submitted := submitRing popped.2 res
    (submitted.1, { submitted.2 with acts := accepts.2 ++ submitted.2.acts })
  else (popped.2, .ret 0 none accepts.2)

end Mcon
