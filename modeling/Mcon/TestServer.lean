import Mcon.System

/-!
# The test server (`apps/million_connections/mcon_test_server.c`)

A program on top of the library: it accepts connections, and closes each one as soon as its hangup is reported.  Its
loop waits for epoll events, hands them to the instance one after another, answers what the instance reports, and
submits.  What the kernel does meanwhile is given round by round.
-/

namespace Mcon

variable {C : Ctools}

def Errno.eintr : Int := 4

/-- `max_concurrent_sessions`. -/
def serverSessions : UInt32 := 1000000

/-- `cfg`, for any number of sessions. -/
def serverConfig (maxConcurrentSessions : UInt32) : Config where
  edgeTriggeredClientEvents := true
  ioQueueSize := maxConcurrentSessions
  sessionCount := maxConcurrentSessions
  maxLiveAcceptSqes := 256
  ioUringQueueSize := 256

example : mconConfigValidate (serverConfig serverSessions) = true := by decide

def epollEventBatchSize : Nat := 256
def mconEventBatchSize : Nat := 512

/-- The places where `main` returns `-1`. -/
inductive ServerExit
  | mconCreate
  | listeningSocketInvalid
  | epollCreate1
  | mconStart
  | epollWait
  | mconProcessEvent
  | multipleClose
  | closingSession
  | mconSubmit
  deriving DecidableEq, Repr

/-- The running program: its instance, the calls it has made and the kernel has answered, what it has printed, and
where it has returned. -/
structure Server (C : Ctools) where
  mcon : Instance C
  history : History
  printed : List String
  exit : Option ServerExit

namespace Server

variable (x : Server C)

/-- One input of the instance. -/
def call (i : Input) : Server C :=
  { x with mcon := (step x.mcon i).1, history := x.history ++ [(i, (step x.mcon i).2)] }

/-- Steps of the kernel between two calls. -/
def kernel (moves : List RingMove) : Server C := moves.foldl (fun x move => x.call (.kernel move)) x

def print (text : String) : Server C := { x with printed := x.printed ++ [text] }

def leave (exit : ServerExit) : Server C := { x with exit := some exit }

/-- Nothing is done once the program has returned. -/
def unlessLeft (f : Server C → Server C) : Server C := if x.exit.isSome then x else f x

end Server

/-! ### Start -/

/-- What the system answers until the server runs. -/
structure ServerStartEnv where
  create : CreateEnv
  listeningSocket : Int
  probe : SocketProbe
  epollCreate1 : Int
  startProbe : SocketProbe
  start : StartEnv

/-- What is printed once the server runs. -/
def serverBanner (cfg : Config) : String :=
  "Server is now running and listening for incoming connections:\n" ++
    ("io_queue_size        = " ++ toString cfg.ioQueueSize.toNat ++ "\n" ++
      "session_count        = " ++ toString cfg.sessionCount.toNat ++ "\n" ++
      "max_live_accept_sqes = " ++ toString cfg.maxLiveAcceptSqes.toNat ++ "\n" ++
      "io_uring_queue_size  = " ++ toString cfg.ioUringQueueSize.toNat ++ "\n")

/-- `main` up to its loop. -/
def serverStart (C : Ctools) (counter : UInt16) (maxConcurrentSessions : UInt32) (env : ServerStartEnv) :
    Except ServerExit (Server C) :=
  match (mconCreate C counter (serverConfig maxConcurrentSessions) env.create).1 with
  | .error _ => .error .mconCreate
  | .ok mcon =>
    if mconListeningSocketValid env.probe ≠ .ok then .error .listeningSocketInvalid
    else if env.epollCreate1 < 0 then .error .epollCreate1
    else
      let start := .start env.startProbe env.listeningSocket env.epollCreate1 env.start
      let x := Server.call ⟨mcon, [], [], none⟩ start
      if (step mcon start).2.rc ≠ 0 then .error .mconStart
      else
        .ok (x.print (serverBanner (serverConfig maxConcurrentSessions)))

/-! ### The loop -/

/-- The `switch` on the type of an event. -/
def serverEvent (x : Server C) (evt : Event) : Server C :=
  match evt.type with
  | .readRdy => x
  | .readComplete => x
  | .remoteHangup =>
    if (step x.mcon (.close evt.session)).2.rc ≠ 0 then
      ((x.call (.close evt.session)).print "multiple close()").leave .multipleClose
    else x.call (.close evt.session)
  | .closeComplete => if evt.result ≠ 0 then x.leave .closingSession else x
  | .readShutdown => x.print "EPOLLHUP\n"
  | .clientError => x.print "MCON_EVENT_CLIENT_ERROR\n"
  | .newConnection => x
  | _ => x.print "unhandled event\n"

/-- The loop over the events of one call. -/
def serverEvents (x : Server C) (events : List Event) : Server C :=
  events.foldl (fun x evt => x.unlessLeft (serverEvent · evt)) x

/-- An epoll event, with the steps of the kernel before it is processed and what the environment does meanwhile. -/
structure Delivery where
  moves : List RingMove
  data : UInt64
  epollEvents : UInt32
  env : ProcessEnv

/-- The call that processes the epoll event. -/
def Delivery.input (d : Delivery) : Input := .processEvent d.data d.epollEvents mconEventBatchSize d.env

/-- The body of the loop over the epoll events. -/
def serverDelivery (x : Server C) (d : Delivery) : Server C :=
  let x := x.kernel d.moves
  let out := (step x.mcon d.input).2
  if out.rc < 0 then (x.call d.input).leave .mconProcessEvent else serverEvents (x.call d.input) out.reported

/-- The answer of `epoll_wait`: its errno, or the events that are ready. -/
inductive EpollWait
  | failed (errno : Int)
  | ready (events : List Delivery)

/-- The epoll events that are processed; `epoll_wait` returns no more of them than it is given room for. -/
def EpollWait.delivered : EpollWait → List Delivery
  | failed _ => []
  | ready events => events.take epollEventBatchSize

/-- What the environment does during one round of the loop. -/
structure ServerRound where
  beforeWait : List RingMove
  wait : EpollWait
  beforeSubmit : List RingMove
  submitRes : Int

/-- The loop over the epoll events. -/
def serverDeliveries (x : Server C) (ds : List Delivery) : Server C :=
  ds.foldl (fun x d => x.unlessLeft (serverDelivery · d)) x

/-- The call of `mcon_submit` at the end of a round. -/
def serverSubmit (x : Server C) (res : Int) : Server C :=
  if (step x.mcon (.submit res)).2.rc < 0 then (x.call (.submit res)).leave .mconSubmit else x.call (.submit res)

/-- The body of `while (true)`. -/
def serverRound (x : Server C) (r : ServerRound) : Server C :=
  let x := x.kernel r.beforeWait
  match r.wait with
  | .failed errno =>
    if errno ≠ Errno.eintr then x.leave .epollWait else serverSubmit (x.kernel r.beforeSubmit) r.submitRes
  | .ready _ =>
    (serverDeliveries x r.wait.delivered).unlessLeft fun x => serverSubmit (x.kernel r.beforeSubmit) r.submitRes

def serverLoop (x : Server C) (rounds : List ServerRound) : Server C :=
  rounds.foldl (fun x r => x.unlessLeft (serverRound · r)) x

end Mcon
