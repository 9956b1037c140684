import Mcon.EpollEntry
import Mcon.IoQueue

/-!
# The mcon instance (`mcon_type.h`) and its helpers

The record that every call works on, the helpers of `session_helpers.c` and `mcon_helpers.c`, and the getters.
-/

namespace Mcon

/-- `struct mcon_state`. -/
structure McState where
  sqeInFlight : UInt16
  isShuttingDown : Bool
  acceptsLive : UInt16
  acceptsRequested : Bool
  deriving DecidableEq, Repr

/-- `struct mcon`. -/
structure Instance (C : Ctools) where
  instanceId : UInt16
  serverSocketFd : Int
  epollFd : Int
  configuration : Config
  sessions : List Session
  sessionFreeStack : C.idxStack.Carrier
  ring : Ring
  ioUringEventfd : Int
  ioQueue : C.kqueue.Carrier
  state : McState

variable {C : Ctools}

namespace Instance

variable (m : Instance C) (s t : Nat) (f : Session → Session)

/-- `mcon->sessions[s]`; outside the table, where the program must not read, the value is arbitrary. -/
def session : Session := m.sessions.getD s sessionInit

/-- An assignment to `mcon->sessions[s]`. -/
def modifySession : Instance C := { m with sessions := m.sessions.modify s f }

@[simp] theorem modifySession_instanceId : (m.modifySession s f).instanceId = m.instanceId := rfl
@[simp] theorem modifySession_serverSocketFd : (m.modifySession s f).serverSocketFd = m.serverSocketFd := rfl
@[simp] theorem modifySession_epollFd : (m.modifySession s f).epollFd = m.epollFd := rfl
@[simp] theorem modifySession_configuration : (m.modifySession s f).configuration = m.configuration := rfl
@[simp] theorem modifySession_freeStack : (m.modifySession s f).sessionFreeStack = m.sessionFreeStack := rfl
@[simp] theorem modifySession_ring : (m.modifySession s f).ring = m.ring := rfl
@[simp] theorem modifySession_eventfd : (m.modifySession s f).ioUringEventfd = m.ioUringEventfd := rfl
@[simp] theorem modifySession_ioQueue : (m.modifySession s f).ioQueue = m.ioQueue := rfl
@[simp] theorem modifySession_state : (m.modifySession s f).state = m.state := rfl

@[simp] theorem modifySession_length : (m.modifySession s f).sessions.length = m.sessions.length := by
  simp [modifySession]

theorem session_modify_self {m : Instance C} {s : Nat} (h : s < m.sessions.length) (f : Session → Session) :
    (m.modifySession s f).session s = f (m.session s) := by
  simp [session, modifySession, List.getD_eq_getElem?_getD, h]

theorem session_modify_ne {s t : Nat} (h : t ≠ s) : (m.modifySession s f).session t = m.session t := by
  have hst : ¬ s = t := fun hst => h hst.symm
  simp [session, modifySession, List.getD_eq_getElem?_getD, hst]

/-- An assignment changes the record it names or none. -/
theorem session_modify_cases : (m.modifySession s f).session t = m.session t ∨
    t = s ∧ (m.modifySession s f).session t = f (m.session t) := by
  by_cases hts : t = s
  · subst hts
    by_cases hlt : t < m.sessions.length
    · exact .inr ⟨rfl, session_modify_self hlt f⟩
    · left
      simp [session, modifySession, List.getD_eq_getElem?_getD, hlt]
  · exact .inl (session_modify_ne m f hts)

/-- Consuming the oldest completion. -/
def cqeSeen : Instance C := { m with ring := m.ring.ioUringCqeSeen }

/-- The `user_data` of every operation between its acceptance and the consumption of its completion: in the
io_queue, the SQ ring, the kernel or the CQ ring. -/
def outstanding : List IoUringEntry := (C.kqueue.contents m.ioQueue).map (·.userData) ++ m.ring.entries

end Instance

/-! ### `session_helpers.c` and `mcon_helpers.c` -/

/-- The branch-free increment with rollover in `session_reset_after_close`. -/
def nextGeneration (generation : UInt8) : UInt8 :=
  let rollover : UInt8 := if generation = 0xff then 1 else 0
  let notRollover : UInt8 := if rollover = 0 then 1 else 0
  (generation + notRollover) * notRollover

def sessionResetAfterClose (m : Instance C) (session : Nat) : Instance C :=
  m.modifySession session fun x => { x with socketFd := -1, generation := nextGeneration x.generation }

def sessionPrepForNewClient (m : Instance C) (session : Nat) (clientSocketFd : Int) : Instance C :=
  m.modifySession session fun x => { x with socketFd := clientSocketFd, state := stateNone }

def mconCompleteShutdown (m : Instance C) : Instance C :=
  { m with epollFd := -1, serverSocketFd := -1, state := { m.state with isShuttingDown := false } }

/-- `sessions[session].state |= bits`. -/
def setStateBits (m : Instance C) (session : Nat) (bits : UInt8) : Instance C :=
  m.modifySession session fun x => { x with state := x.state ||| bits }

/-- `sessions[session].state &= ~bits`. -/
def clearStateBits (m : Instance C) (session : Nat) (bits : UInt8) : Instance C :=
  m.modifySession session fun x => { x with state := x.state &&& ~~~bits }

section Descriptors

variable (m : Instance C) (s t : Nat) (bits : UInt8)

@[simp] theorem setStateBits_socketFd :
    ((setStateBits m s bits).session t).socketFd = (m.session t).socketFd := by
  rcases m.session_modify_cases s t fun x => { x with state := x.state ||| bits } with h | ⟨-, h⟩ <;>
    rw [setStateBits, h]

@[simp] theorem clearStateBits_socketFd :
    ((clearStateBits m s bits).session t).socketFd = (m.session t).socketFd := by
  rcases m.session_modify_cases s t fun x => { x with state := x.state &&& ~~~bits } with h | ⟨-, h⟩ <;>
    rw [clearStateBits, h]

/-- Resetting a session closes its descriptor or touches none. -/
theorem sessionResetAfterClose_socketFd :
    ((sessionResetAfterClose m s).session t).socketFd = (m.session t).socketFd ∨
      t = s ∧ ((sessionResetAfterClose m s).session t).socketFd = -1 := by
  rcases m.session_modify_cases s t fun x => { x with
    socketFd := -1, generation := nextGeneration x.generation } with h | ⟨hts, h⟩
  · exact .inl (by rw [sessionResetAfterClose, h])
  · exact .inr ⟨hts, by rw [sessionResetAfterClose, h]⟩

theorem sessionPrepForNewClient_socketFd (clientSocketFd : Int) :
    ((sessionPrepForNewClient m s clientSocketFd).session t).socketFd = (m.session t).socketFd ∨
      t = s ∧ ((sessionPrepForNewClient m s clientSocketFd).session t).socketFd = clientSocketFd := by
  rcases m.session_modify_cases s t fun x => { x with
    socketFd := clientSocketFd, state := stateNone } with h | ⟨hts, h⟩
  · exact .inl (by rw [sessionPrepForNewClient, h])
  · exact .inr ⟨hts, by rw [sessionPrepForNewClient, h]⟩

end Descriptors

/-! ### Getters -/

def mconGetServerSocket (m : Instance C) : Int := m.serverSocketFd

def mconIsShuttingDown (m : Instance C) : Bool := m.state.isShuttingDown

def mconActiveSessionCount (m : Instance C) : UInt32 :=
  m.configuration.sessionCount - UInt32.ofNat (C.idxStack.size m.sessionFreeStack)

/-- `mcon_session_is_active`.  Outside the table it returns `-1` as a `bool`, which is `true`. -/
def mconSessionIsActive (m : Instance C) (session : Nat) : Bool :=
  if m.configuration.sessionCount.toNat ≤ session then true
  else (m.session session).socketFd != -1

/-- `mcon_owns_event`. -/
def mconOwnsEvent (m : Instance C) (data : UInt64) : Bool :=
  (mconDecodeEpollEntry data).instanceId == m.instanceId && mconIsValidSource (mconDecodeEpollEntry data).source

/-! ### The result of a call -/

/-- What a call returns and does: the return value, the errno it sets on the path that returns `-1`, the events it
stores in the array of the caller, in order, and its actions. -/
structure Output where
  rc : Int
  errno : Option Int
  events : List Event
  acts : List Act
  deriving DecidableEq

namespace Output

/-- A call that stores no event. -/
def ret (rc : Int) (errno : Option Int) (acts : List Act) : Output := ⟨rc, errno, [], acts⟩

/-- The events the caller is told about: the first `rc` stored ones. -/
def reported (out : Output) : List Event := out.events.take out.rc.toNat

end Output

end Mcon
