import Mathlib.Algebra.Group.Nat.Defs
import Mathlib.Data.List.Basic

/-!
# Configuration, events and constants

The plain data of `include/mcon` and of the private headers of `src/mcon`.  Fixed-width fields keep their width;
session indices, which take part in no arithmetic, are natural numbers.  Descriptors and result codes are
integers.
-/

namespace Mcon

/-! ### Errno -/

namespace Errno

def enoent : Int := 2
def ebadf : Int := 9
def eagain : Int := 11
def enomem : Int := 12
def ebusy : Int := 16
def eexist : Int := 17
def einval : Int := 22
def enotsock : Int := 88
def enobufs : Int := 105

end Errno

/-! ### Configuration (`types.h`, `limits.c`, `config.c`) -/

/-- `struct mcon_config`. -/
structure Config where
  sessionCount : UInt32
  ioQueueSize : UInt32
  ioUringQueueSize : UInt16
  edgeTriggeredClientEvents : Bool
  maxLiveAcceptSqes : UInt32
  deriving DecidableEq, Repr

def mconMaxSessionCount : UInt32 := ((1 : UInt32) <<< 20) - 1

def mconConfigDefault : Config where
  ioUringQueueSize := 256
  sessionCount := 128
  edgeTriggeredClientEvents := false
  ioQueueSize := 512
  maxLiveAcceptSqes := 8

def mconConfigValidate (config : Config) : Bool :=
  config.ioUringQueueSize > 0 && config.sessionCount > 0 && config.ioQueueSize > 0 &&
    config.maxLiveAcceptSqes > 0 &&
    config.sessionCount ≤ mconMaxSessionCount &&
    config.maxLiveAcceptSqes ≤ config.ioUringQueueSize.toUInt32

/-- What a valid configuration promises, in natural numbers. -/
structure Config.Valid (config : Config) : Prop where
  ioUringQueueSize_pos : 0 < config.ioUringQueueSize.toNat
  sessionCount_pos : 0 < config.sessionCount.toNat
  ioQueueSize_pos : 0 < config.ioQueueSize.toNat
  maxLiveAcceptSqes_pos : 0 < config.maxLiveAcceptSqes.toNat
  sessionCount_lt : config.sessionCount.toNat < 2 ^ 20
  maxLiveAcceptSqes_le : config.maxLiveAcceptSqes.toNat ≤ config.ioUringQueueSize.toNat

theorem mconConfigValidate_spec {config : Config} (h : mconConfigValidate config = true) : config.Valid := by
  simp only [mconConfigValidate, Bool.and_eq_true, decide_eq_true_eq, gt_iff_lt, UInt32.lt_iff_toNat_lt,
    UInt16.lt_iff_toNat_lt, UInt32.le_iff_toNat_le] at h
  obtain ⟨⟨⟨⟨⟨h1, h2⟩, h3⟩, h4⟩, h5⟩, h6⟩ := h
  have hmax : mconMaxSessionCount.toNat = 2 ^ 20 - 1 := by decide
  rw [hmax] at h5
  exact ⟨h1, h2, h3, h4, by omega, by simpa using h6⟩

example : mconConfigValidate mconConfigDefault = true := by decide

/-- `MCON_NO_SESSION`. -/
def mconNoSession : Nat := 2 ^ 20 - 1

/-! ### Events (`event.h`) -/

/-- `enum mcon_event_type`. -/
inductive EventType
  | none
  | newConnection
  | newConnectionFailed
  | readRdy
  | readComplete
  | writeComplete
  | drainComplete
  | closeComplete
  | readShutdown
  | remoteHangup
  | clientError
  deriving DecidableEq, Repr

/-- `struct mcon_event`. -/
structure Event where
  result : Int
  session : Nat
  type : EventType
  deriving DecidableEq, Repr

/-! ### epoll event masks -/

def epollin : UInt32 := 0x1
def epollerr : UInt32 := 0x8
def epollhup : UInt32 := 0x10
def epollrdhup : UInt32 := 0x2000
def epollet : UInt32 := 0x80000000

/-- `MCON_CLIENT_SOCKET_SUBSCRIBED_EVENTS`. -/
def mconClientSocketSubscribedEvents : UInt32 := epollin ||| epollhup ||| epollrdhup ||| epollerr

/-! ### The listening socket -/

/-- What the system answers about a descriptor: `getsockopt` of `SO_ACCEPTCONN` and of `SO_TYPE` (an errno or the
value), `fcntl(F_GETFL)` (`none` for a failure). -/
structure SocketProbe where
  acceptconn : Except Int Int
  type : Except Int Int
  flags : Option UInt32
  deriving DecidableEq

def sockStream : Int := 1
def oNonblock : UInt32 := 0x800

/-- The answers about a stream socket that listens and does not block. -/
def listeningProbe : SocketProbe := ⟨.ok 1, .ok sockStream, some oNonblock⟩

/-! ### Sessions (`session_type.h`) -/

/-- `struct mcon_session`. -/
structure Session where
  socketFd : Int
  generation : UInt8
  state : UInt8
  deriving DecidableEq, Repr

/-- `MCON_SESSION_STATE_NONE`. -/
def stateNone : UInt8 := 0
/-- `MCON_SESSION_STATE_READING`. -/
def stateReading : UInt8 := (1 : UInt8) <<< 0
/-- `MCON_SESSION_STATE_WRITING`. -/
def stateWriting : UInt8 := (1 : UInt8) <<< 1
/-- `MCON_SESSION_STATE_RDHUP`. -/
def stateRdhup : UInt8 := (1 : UInt8) <<< 2
/-- `MCON_SESSION_STATE_CLOSING`. -/
def stateClosing : UInt8 := (1 : UInt8) <<< 3

/-- `session_init`. -/
def sessionInit : Session where
  socketFd := -1
  generation := 0
  state := stateNone

/-! ### Operations (`io_uring_entry.h`) -/

/-- `enum mcon_io_uring_operation`. -/
inductive IoUringOperation
  | unknown
  | accept
  | read
  | write
  | drain
  | close
  deriving DecidableEq, Repr

/-- `struct mcon_io_uring_entry`, the `user_data` of every submission and completion. -/
structure IoUringEntry where
  operation : IoUringOperation
  session : Nat
  deriving DecidableEq, Repr

end Mcon
