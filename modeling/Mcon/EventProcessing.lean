import Mcon.Session

/-!
# Event processing (`event_processing*.c`)

The handlers of the three event sources.  What the kernel answers or does during a call is an argument: the
results of the system calls, and the steps of the ring between the accesses the program makes to it.
-/

namespace Mcon

variable {C : Ctools}

/-! ### The listening socket -/

def mconProcessServerSocketEvent (m : Instance C) (epollEvents : UInt32) : Instance C × Output :=
  if epollEvents &&& epollin != 0 then
    ({ m with state := { m.state with acceptsRequested := true } }, .ret 0 none [])
  else (m, .ret 0 none [])

/-! ### Client sockets -/

/-- `stdc_count_ones`. -/
def stdcCountOnes (n : UInt32) : Nat := (List.range 32).countP n.toNat.testBit

/-- What `getsockopt(SO_ERROR)` yields: its errno on failure, and the value then in `err`. -/
structure SockoptResult where
  errno : Option Int
  err : Int
  deriving DecidableEq, Repr

/-- The events stored for a mask, given whether the hangup was reported before. -/
def sessionEvents (epollEvents : UInt32) (session : Nat) (rdhup : Bool) (sockopt : SockoptResult) : List Event :=
  (if epollEvents &&& epollin != 0 then [⟨0, session, .readRdy⟩] else []) ++
    (if epollEvents &&& epollhup != 0 then [⟨0, session, .readShutdown⟩] else []) ++
    (if epollEvents &&& epollrdhup != 0 then if rdhup then [] else [⟨0, session, .remoteHangup⟩] else []) ++
    (if epollEvents &&& epollerr != 0 then [⟨sockopt.err, session, .clientError⟩] else [])

def mconProcessSessionEvent (m : Instance C) (epollEvents : UInt32) (epollData : EpollEntry) (maxEvents : Nat)
    (sockopt : SockoptResult) : Instance C × Output :=
  let session := epollData.session.toNat
  if epollEvents &&& ~~~mconClientSocketSubscribedEvents != 0 ||
      !decide (epollData.session < m.configuration.sessionCount) then
    (m, .ret (-1) (some Errno.einval) [])
  else if maxEvents < stdcCountOnes epollEvents then (m, .ret (-1) (some Errno.enobufs) [])
  else if epollData.generation != (m.session session).generation then
    -- A stale event is consumed and skipped
    (m, .ret 0 none [.sessionsAt session])
  else
    let rdhup := (m.session session).state &&& stateRdhup != 0
    let events := sessionEvents epollEvents session rdhup sockopt
    let m' := if epollEvents &&& epollrdhup != 0 then setStateBits m session stateRdhup else m
    if epollEvents &&& epollerr != 0 then
      let acts := [.sessionsAt session, .getsockopt (m.session session).socketFd sockopt.errno]
      match sockopt.errno with
      | some err => (m', ⟨-1, some err, events, acts⟩)
      | none => (m', ⟨events.length, none, events, acts⟩)
    else (m', ⟨events.length, none, events, [.sessionsAt session]⟩)

/-! ### Completions -/

/-- The result of a completion handler: its return value, the instance, what it stored at `*events`, its
actions. -/
structure HandlerOut (C : Ctools) where
  err : Int
  mcon : Instance C
  events : List Event
  acts : List Act

/-- The payload with which `_process_accept` registers a client socket. -/
def clientPayload (m : Instance C) (newSession : Nat) : UInt64 :=
  mconEncodeEpollEntry
    { instanceId := m.instanceId
      generation := (m.session newSession).generation
      source := epollSourceSession
      session := UInt32.ofNat newSession
      reserved := 0 }

def clientEvents (m : Instance C) : UInt32 :=
  mconClientSocketSubscribedEvents ||| if m.configuration.edgeTriggeredClientEvents then epollet else 0

/-- `accepts_live--` after consuming the completion of an accept. -/
def acceptSeen (m : Instance C) : Instance C :=
  { m.cqeSeen with state := { m.state with acceptsLive := m.state.acceptsLive - 1 } }

/-- `accepts_requested = true`. -/
def requestAccepts (m : Instance C) : Instance C :=
  { m with state := { m.state with acceptsRequested := true } }

/-- `_process_accept`; `addErr` is the errno of a failing `EPOLL_CTL_ADD`.  The source reads `cqe->res` after
`io_uring_cqe_seen` too; the kernel is taken not to reuse the entry in between. -/
def processAccept (m : Instance C) (cqe : Cqe) (maxEvents : Nat) (addErr : Option Int) : HandlerOut C :=
  if cqe.res = -Errno.eagain then ⟨0, acceptSeen m, [], []⟩
  else if maxEvents < 1 then ⟨0, m, [], []⟩
  else
    let m := requestAccepts (acceptSeen m)
    if cqe.res < 0 then ⟨1, m, [⟨cqe.res, mconNoSession, .newConnection⟩], []⟩
    else
      match C.idxStack.pop m.sessionFreeStack with
      | none => ⟨-1, m, [], [.stackPop none]⟩
      | some (newSession, stack) =>
        let m := { m with sessionFreeStack := stack }
        let acts := [.stackPop (some newSession), .sessionsAt newSession,
          .epollAdd m.epollFd cqe.res (clientPayload m newSession) (clientEvents m) addErr]
        match addErr with
        | some _ =>
          -- Return the session and disconnect the client
          match C.idxStack.push stack newSession with
          | none => ⟨-1, m, [], acts ++ [.stackPush newSession false, .close cqe.res]⟩
          | some stack' =>
            ⟨-1, { m with sessionFreeStack := stack' }, [],
              acts ++ [.stackPush newSession true, .close cqe.res]⟩
        | none =>
          ⟨1, sessionPrepForNewClient m newSession cqe.res, [⟨cqe.res, newSession, .newConnection⟩],
            acts ++ [.sessionsAt newSession]⟩

/-- The common body of `_process_read`, `_process_write` and `_process_drain`. -/
def processTransfer (type : EventType) (bits : UInt8) (m : Instance C) (cqe : Cqe) (ioEntry : IoUringEntry)
    (maxEvents : Nat) : HandlerOut C :=
  if maxEvents < 1 then ⟨0, m, [], []⟩
  else
    ⟨1, clearStateBits m.cqeSeen ioEntry.session bits, [⟨cqe.res, ioEntry.session, type⟩],
      [.sessionsAt ioEntry.session]⟩

def processRead (m : Instance C) (cqe : Cqe) (ioEntry : IoUringEntry) (maxEvents : Nat) : HandlerOut C :=
  processTransfer .readComplete stateReading m cqe ioEntry maxEvents

def processWrite (m : Instance C) (cqe : Cqe) (ioEntry : IoUringEntry) (maxEvents : Nat) : HandlerOut C :=
  processTransfer .writeComplete stateWriting m cqe ioEntry maxEvents

def processDrain (m : Instance C) (cqe : Cqe) (ioEntry : IoUringEntry) (maxEvents : Nat) : HandlerOut C :=
  processTransfer .drainComplete stateReading m cqe ioEntry maxEvents

def processClose (m : Instance C) (cqe : Cqe) (ioEntry : IoUringEntry) (maxEvents : Nat) : HandlerOut C :=
  if maxEvents < 1 then ⟨-1, m, [], []⟩
  else
    let event : Event := ⟨cqe.res, ioEntry.session, .closeComplete⟩
    match C.idxStack.push m.sessionFreeStack ioEntry.session with
    | none => ⟨-1, m, [event], [.stackPush ioEntry.session false]⟩
    | some stack =>
      let m := (sessionResetAfterClose { m with sessionFreeStack := stack } ioEntry.session).cqeSeen
      ⟨1, completeShutdownIfDone (clearStateBits m ioEntry.session stateClosing), [event],
        [.stackPush ioEntry.session true, .sessionsAt ioEntry.session]⟩

/-- The `switch` of `mcon_process_io_uring_event`. -/
def processCqe (m : Instance C) (cqe : Cqe) (maxEvents : Nat) (addErr : Option Int) : HandlerOut C :=
  match cqe.userData.operation with
  | .accept => processAccept m cqe maxEvents addErr
  | .read => processRead m cqe cqe.userData maxEvents
  | .write => processWrite m cqe cqe.userData maxEvents
  | .drain => processDrain m cqe cqe.userData maxEvents
  | .close => processClose m cqe cqe.userData maxEvents
  | .unknown => ⟨-1, m, [], []⟩

end Mcon
