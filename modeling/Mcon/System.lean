import Mcon.Lifecycle
import Mcon.Slot
import Mcon.Library.Transition

/-!
# The system

The inputs an instance can see, in any order: the calls of the application, each with the answers of the kernel
during it, and the steps of the kernel between two calls.  Every list of inputs is a run.
-/

namespace Mcon

open Transition (Run AllOk history finalState)

variable {C : Ctools}

inductive Input
  | start (probe : SocketProbe) (listeningSocketFd epollFd : Int) (env : StartEnv)
  | shutdown (delErr : Option Int)
  | processEvent (data : UInt64) (epollEvents : UInt32) (eventCapacity : Nat) (env : ProcessEnv)
  | submit (res : Int)
  | read (session buf count : Nat)
  | write (session buf count : Nat)
  | drain (session count : Nat)
  | close (session : Nat)
  | detach (session : Nat) (delErr : Option Int)
  /-- A step of the kernel between two calls. -/
  | kernel (move : RingMove)

def step (m : Instance C) : Input → Instance C × Output
  | .start probe listeningSocketFd epollFd env => mconStart m probe listeningSocketFd epollFd env
  | .shutdown delErr => mconShutdown m delErr
  | .processEvent data epollEvents eventCapacity env => mconProcessEvent m data epollEvents eventCapacity env
  | .submit res => mconSubmit m res
  | .read session buf count => mconSessionRead m session buf count
  | .write session buf count => mconSessionWrite m session buf count
  | .drain session count => mconSessionDrain m session count
  | .close session => mconSessionClose m session
  | .detach session delErr => mconSessionDetach m session delErr
  | .kernel move => (moveRing m [move], .ret 0 none (moveActs m [move]))

/-- The instances `mcon_create` can return for a configuration. -/
def Created (config : Config) (m : Instance C) : Prop :=
  ∃ counter env, (mconCreate C counter config env).1 = .ok m

/-- The history of a run: every input with what the call returned and did. -/
abbrev History := List (Input × Output)

/-- A run from a fresh instance, with any configuration that `mcon_create` accepts, whose inputs satisfy `ok`. -/
def Execution (ok : Instance C → Input → Prop) (h : History) (m : Instance C) : Prop :=
  ∃ config m₀, Created config m₀ ∧ Run step ok m₀ h m

theorem Execution.mono {ok ok' : Instance C → Input → Prop} (hmono : ∀ m i, ok m i → ok' m i) {h : History}
    {m : Instance C} (he : Execution ok h m) : Execution ok' h m := by
  obtain ⟨config, m₀, hcreated, hr⟩ := he
  exact ⟨config, m₀, hcreated, hr.mono hmono⟩

/-- No condition on the inputs. -/
def anyInput (_ : Instance C) (_ : Input) : Prop := True

/-- The `EPOLL_CTL_DEL` of `mcon_session_detach` does not fail with `ENOENT`. -/
def NoEnoent (_ : Instance C) (i : Input) : Prop := ∀ session, i ≠ .detach session (some Errno.enoent)

/-! ### What the application sees of a slot -/

/-- What an event says about its slot. -/
def Event.slotEvent (e : Event) : Option (Nat × SlotEvent) :=
  match e.type with
  | .newConnection => if e.result < 0 then none else some (e.session, .opened)
  | .readComplete => some (e.session, .answered (.reading .read))
  | .drainComplete => some (e.session, .answered (.reading .drain))
  | .writeComplete => some (e.session, .answered .write)
  | .closeComplete => some (e.session, .answered .close)
  | _ => none

/-- An operation is accepted when its call returns `0`; an event is seen when it is reported. -/
def slotEventsOf (p : Input × Output) : List (Nat × SlotEvent) :=
  match p.1 with
  | .read session _ _ => if p.2.rc = 0 then [(session, .called (.reading .read))] else []
  | .drain session _ => if p.2.rc = 0 then [(session, .called (.reading .drain))] else []
  | .write session _ _ => if p.2.rc = 0 then [(session, .called .write)] else []
  | .close session => if p.2.rc = 0 then [(session, .called .close)] else []
  | .detach session _ => if p.2.rc = 0 then [(session, .detached)] else []
  | .processEvent .. => p.2.reported.filterMap Event.slotEvent
  | _ => []

/-- The life of one slot as the application sees it. -/
def slotLog (h : History) (s : Nat) : List SlotEvent :=
  (h.flatMap slotEventsOf).filterMap fun p => if p.1 = s then some p.2 else none

/-- Every action of a run, in order. -/
def actsOf (h : History) : List Act := h.flatMap fun p => p.2.acts

/-! ### Runs to evaluate -/

/-- The configuration `sessionCount`, `ioUringQueueSize`, `maxLiveAcceptSqes`, with room for 8 queued operations. -/
def smallConfig (sessionCount : UInt32) (ioUringQueueSize : UInt16) (maxLiveAcceptSqes : UInt32) : Config where
  sessionCount := sessionCount
  ioQueueSize := 8
  ioUringQueueSize := ioUringQueueSize
  edgeTriggeredClientEvents := false
  maxLiveAcceptSqes := maxLiveAcceptSqes

/-- The first instance of a process, with the eventfd 9. -/
def freshInstance (config : Config) : Instance listCtools := newInstance listCtools 1 9 config

/-- `mcon_start` on the listening socket 5 and the epoll instance 6. -/
def startInput : Input := .start listeningProbe 5 6 ⟨none, none, none⟩

/-- An event on the listening socket. -/
def serverInput : Input :=
  .processEvent (instancePayload (freshInstance mconConfigDefault) epollSourceServerSocket) epollin 8
    ⟨.quiet, ⟨none, 0⟩⟩

/-- An event on the io_uring instance, with room for 8 events. -/
def ringInput : Input :=
  .processEvent (instancePayload (freshInstance mconConfigDefault) epollSourceIoUring) epollin 8
    ⟨.quiet, ⟨none, 0⟩⟩

/-- The kernel executes its oldest submission and posts the completion. -/
def completeInputs (res : Int) : List Input := [.kernel (.exec 0 res), .kernel (.post 0)]

/-- A connection on the descriptor `fd` is established. -/
def connectInputs (fd : Int) : List Input := [.submit 1] ++ completeInputs fd ++ [ringInput]

theorem freshInstance_created {config : Config} (hvalid : mconConfigValidate config = true) :
    Created config (freshInstance config) :=
  ⟨1, ⟨0, 9, true, true, true, true⟩, by simp [mconCreate, hvalid]; rfl⟩

/-- A list of inputs to a fresh instance gives an execution; the condition is decided input by input. -/
theorem Execution.of_inputs {ok : Instance listCtools → Input → Prop} (config : Config)
    (hvalid : mconConfigValidate config = true) (is : List Input)
    (hok : AllOk step ok (freshInstance config) is) :
    Execution ok (history step (freshInstance config) is) (finalState step (freshInstance config) is) :=
  ⟨config, _, freshInstance_created hvalid, Run.of_inputs is hok⟩

end Mcon
