import Mcon.Library.Holdings
import Mcon.Lifecycle

/-!
# Listening sockets (`mcon_create_listening_socket`)

A socket that listens is made from the addresses that the resolver returns: the wildcard addresses of IPv6 are tried
first, with dual stack, then the others, each list in order, until one works.  Every socket that was opened on the way
and did not come to listen is closed.
-/

namespace Mcon

open Holdings

variable {C : Ctools}

/-! ### Addresses -/

def afUnspec : Int := 0
def afInet6 : Int := 10
def ipprotoTcp : Int := 6
def aiPassive : Int := 1

/-- `struct addrinfo`, as an argument and, without its link, in the list returned; the address is a sequence of
bytes. -/
structure AddressInfo where
  aiFlags : Int
  aiFamily : Int
  aiSocktype : Int
  aiProtocol : Int
  aiAddr : List UInt8
  aiAddrlen : Nat
  deriving DecidableEq, Repr

/-- `hints`. -/
def listeningHints : AddressInfo where
  aiFlags := aiPassive
  aiFamily := afUnspec
  aiSocktype := sockStream
  aiProtocol := ipprotoTcp
  aiAddr := []
  aiAddrlen := 0

/-- `IN6_IS_ADDR_UNSPECIFIED` of the `sin6_addr` of a `struct sockaddr_in6`, its bytes 8 to 23. -/
def in6IsAddrUnspecified (address : List UInt8) : Bool := (address.drop 8).take 16 == List.replicate 16 0

/-- `_can_try_dual_stack`. -/
def canTryDualStack (addressInfo : AddressInfo) : Bool :=
  if addressInfo.aiFamily ≠ afInet6 then false else in6IsAddrUnspecified addressInfo.aiAddr

/-! ### One attempt -/

inductive SocketAct
  | getaddrinfo (err : Option Int)
  | socket (family type : Int) (flags : UInt32) (fd : Int)
  | setReusePort (fd : Int) (err : Option Int)
  | setV6Only (fd value : Int) (err : Option Int)
  | bind (fd : Int) (address : List UInt8) (addrlen : Nat) (err : Option Int)
  | listen (fd : Int) (err : Option Int)
  | close (fd : Int)
  | perror (text : String)
  | freeaddrinfo
  deriving DecidableEq

/-- What the kernel answers during one attempt: the descriptor of `socket`, and the errnos of the calls that fail. -/
structure PrepEnv where
  socket : Int
  reusePort : Option Int
  v6only : Option Int
  bind : Option Int
  listen : Option Int
  deriving DecidableEq, Repr

/-- `_prep_server_socket`. -/
def prepServerSocket (env : PrepEnv) (family : Int) (address : List UInt8) (addrlen : Nat) (tryDualStack : Bool) :
    Int × List SocketAct :=
  let open_ := .socket family sockStream oNonblock env.socket
  if env.socket < 0 then (-1, [open_, .perror "socket"])
  else
    let fd := env.socket
    let reuse := .setReusePort fd env.reusePort
    if env.reusePort.isSome then (-1, [open_, reuse, .perror "setsockopt", .close fd])
    else
      let dual := if tryDualStack then [.setV6Only fd 0 env.v6only] else []
      if tryDualStack && env.v6only.isSome then
        (-1, [open_, reuse] ++ dual ++ [.perror "setsockopt(IPV6_V6ONLY)", .close fd])
      else
        let bind := .bind fd address addrlen env.bind
        if env.bind.isSome then (-1, [open_, reuse] ++ dual ++ [bind, .perror "bind", .close fd])
        else
          let listen := .listen fd env.listen
          if env.listen.isSome then (-1, [open_, reuse] ++ dual ++ [bind, listen, .perror "listen", .close fd])
          else (fd, [open_, reuse] ++ dual ++ [bind, listen])

/-- The kernel answers each call of the attempt with success. -/
def PrepEnv.succeeds (env : PrepEnv) (tryDualStack : Bool) : Bool :=
  decide (0 ≤ env.socket) && env.reusePort.isNone && (!tryDualStack || env.v6only.isNone) && env.bind.isNone &&
    env.listen.isNone

/-! ### The two loops -/

/-- The variables of the loops: the descriptor, the number of attempts so far, and what was done. -/
structure ListenLoop where
  socketFd : Int
  attempts : Nat
  acts : List SocketAct
  deriving DecidableEq

/-- The loop over the addresses that can be tried with dual stack, and the loop over the others; `env` answers the
attempts in turn. -/
def listenLoop (env : Nat → PrepEnv) (tryDualStack : Bool) : List AddressInfo → ListenLoop → ListenLoop
  | [], st => st
  | rp :: rest, st =>
    if st.socketFd < 0 then
      if canTryDualStack rp ≠ tryDualStack then listenLoop env tryDualStack rest st
      else
        let prep := prepServerSocket (env st.attempts) rp.aiFamily rp.aiAddr rp.aiAddrlen tryDualStack
        listenLoop env tryDualStack rest ⟨prep.1, st.attempts + 1, st.acts ++ prep.2⟩
    else st

/-- `mcon_create_listening_socket`; the resolver is given the address, the port and the hints. -/
def mconCreateListeningSocket (getaddrinfo : Option String → String → AddressInfo → Except Int (List AddressInfo))
    (env : Nat → PrepEnv) (port : UInt16) (bindAddress : Option String) : Int × List SocketAct :=
  match getaddrinfo bindAddress (toString port.toNat) listeningHints with
  | .error err => (-1, [.getaddrinfo (some err)])
  | .ok result =>
    let dual := listenLoop env true result ⟨-1, 0, [.getaddrinfo none]⟩
    let last := listenLoop env false result dual
    (last.socketFd, last.acts ++ [.freeaddrinfo])

/-! ### What is held, and what the kernel knows -/

inductive ListenResource
  | addresses
  | descriptor (fd : Int)
  deriving DecidableEq, Repr

/-- What an action acquires or releases. -/
def SocketAct.move? : SocketAct → Option (Move ListenResource)
  | getaddrinfo none => some (.acquire .addresses)
  | socket _ _ _ fd => if 0 ≤ fd then some (.acquire (.descriptor fd)) else none
  | close fd => some (.release (.descriptor fd))
  | freeaddrinfo => some (.release .addresses)
  | _ => none

def socketMoves (acts : List SocketAct) : List (Move ListenResource) := acts.filterMap SocketAct.move?

/-- What the kernel knows of a socket. -/
structure SocketInfo where
  type : Int
  flags : UInt32
  listening : Bool
  deriving DecidableEq, Repr

/-- What the kernel knows of the socket `fd` after an action; `none` when no socket has this descriptor. -/
def SocketAct.info (fd : Int) (info : Option SocketInfo) : SocketAct → Option SocketInfo
  | socket _ type flags fd' => if fd' = fd then some ⟨type, flags, false⟩ else info
  | listen fd' none => if fd' = fd then info.map fun x => { x with listening := true } else info
  | close fd' => if fd' = fd then none else info
  | _ => info

def oRdwr : UInt32 := 2

/-- The answers of the kernel about a descriptor after some actions. -/
def probeAfter (acts : List SocketAct) (fd : Int) : SocketProbe :=
  match acts.foldl (SocketAct.info fd) none with
  | none => ⟨.error Errno.ebadf, .error Errno.ebadf, none⟩
  | some info => ⟨.ok (if info.listening then 1 else 0), .ok info.type, some (info.flags ||| oRdwr)⟩

/-! ### One attempt -/

/-- The actions release exactly what they acquire. -/
def Neutral (acts : List SocketAct) : Prop := after 0 (socketMoves acts) = some 0

theorem Neutral.append {acts acts' : List SocketAct} (h : Neutral acts) (h' : Neutral acts') :
    Neutral (acts ++ acts') := by
  rw [Neutral, socketMoves, List.filterMap_append]
  exact after_trans h h'

/-- The actions of an attempt that succeeds. -/
def successActs (env : PrepEnv) (rp : AddressInfo) (tryDualStack : Bool) : List SocketAct :=
  [.socket rp.aiFamily sockStream oNonblock env.socket, .setReusePort env.socket none] ++
    (if tryDualStack then [.setV6Only env.socket 0 none] else []) ++
    [.bind env.socket rp.aiAddr rp.aiAddrlen none, .listen env.socket none]

/-- An attempt succeeds when each of its calls does; otherwise the socket, if there was one, is closed. -/
theorem prepServerSocket_spec (env : PrepEnv) (rp : AddressInfo) (tryDualStack : Bool) :
    let prep := prepServerSocket env rp.aiFamily rp.aiAddr rp.aiAddrlen tryDualStack
    if env.succeeds tryDualStack then 0 ≤ env.socket ∧ prep = (env.socket, successActs env rp tryDualStack)
    else prep.1 = -1 ∧ Neutral prep.2 := by
  obtain ⟨fd, reusePort, v6only, bind, listen⟩ := env
  simp only [PrepEnv.succeeds, prepServerSocket]
  by_cases hfd : fd < 0
  · have hneg : ¬ 0 ≤ fd := by omega
    have hneutral : Neutral [.socket rp.aiFamily sockStream oNonblock fd, .perror "socket"] := by
      simp [Neutral, socketMoves, List.filterMap_cons, SocketAct.move?, hneg]
    simpa [hfd, hneg] using hneutral
  · have hpos : 0 ≤ fd := by omega
    have hclosed : ∀ acts : List SocketAct, (∀ a ∈ acts, a.move? = none) →
        Neutral (.socket rp.aiFamily sockStream oNonblock fd :: acts ++ [.close fd]) := by
      intro acts hacts
      have hnil : acts.filterMap SocketAct.move? = [] := List.filterMap_eq_nil_iff.2 hacts
      simp [Neutral, socketMoves, SocketAct.move?, hpos, hnil]
    -- which call fails
    cases reusePort with
    | some err => simpa [hfd, SocketAct.move?] using hclosed [.setReusePort fd (some err), .perror "setsockopt"]
    | none =>
      cases tryDualStack with
      | true =>
        cases v6only with
        | some err =>
          simpa [hfd, SocketAct.move?] using hclosed
            [.setReusePort fd none, .setV6Only fd 0 (some err), .perror "setsockopt(IPV6_V6ONLY)"]
        | none =>
          cases bind with
          | some err =>
            simpa [hfd, SocketAct.move?] using hclosed
              [.setReusePort fd none, .setV6Only fd 0 none, .bind fd rp.aiAddr rp.aiAddrlen (some err), .perror "bind"]
          | none =>
            cases listen with
            | some err =>
              simpa [hfd, SocketAct.move?] using hclosed
                [.setReusePort fd none, .setV6Only fd 0 none, .bind fd rp.aiAddr rp.aiAddrlen none,
                  .listen fd (some err), .perror "listen"]
            | none => simp [hfd, hpos, successActs]
      | false =>
        cases bind with
        | some err =>
          simpa [hfd, SocketAct.move?] using hclosed
            [.setReusePort fd none, .bind fd rp.aiAddr rp.aiAddrlen (some err), .perror "bind"]
        | none =>
          cases listen with
          | some err =>
            simpa [hfd, SocketAct.move?] using hclosed
              [.setReusePort fd none, .bind fd rp.aiAddr rp.aiAddrlen none, .listen fd (some err), .perror "listen"]
          | none => simp [hfd, hpos, successActs]

/-- The socket of a successful attempt is held, and the kernel knows it as one that listens and does not block. -/
theorem successActs_spec {env : PrepEnv} (hfd : 0 ≤ env.socket) (rp : AddressInfo) (tryDualStack : Bool) :
    after 0 (socketMoves (successActs env rp tryDualStack)) = some {.descriptor env.socket} ∧
        ∀ info, (successActs env rp tryDualStack).foldl (SocketAct.info env.socket) info =
          some ⟨sockStream, oNonblock, true⟩ := by
  cases tryDualStack <;>
    simp [successActs, socketMoves, List.filterMap_cons, SocketAct.move?, SocketAct.info, hfd]

/-! ### The loops -/

/-- The addresses in the order in which they are tried. -/
def candidates (result : List AddressInfo) : List AddressInfo :=
  result.filter canTryDualStack ++ result.filter fun rp => !canTryDualStack rp

/-- Trying addresses one after another, each as what it is. -/
def attemptAll (env : Nat → PrepEnv) : List AddressInfo → ListenLoop → ListenLoop
  | [], st => st
  | rp :: rest, st =>
    if st.socketFd < 0 then
      let prep := prepServerSocket (env st.attempts) rp.aiFamily rp.aiAddr rp.aiAddrlen (canTryDualStack rp)
      attemptAll env rest ⟨prep.1, st.attempts + 1, st.acts ++ prep.2⟩
    else st

theorem attemptAll_of_done {env : Nat → PrepEnv} {st : ListenLoop} (hst : ¬ st.socketFd < 0)
    (rps : List AddressInfo) : attemptAll env rps st = st := by
  cases rps with
  | nil => rfl
  | cons rp rps => rw [attemptAll, if_neg hst]

theorem attemptAll_append (env : Nat → PrepEnv) (rps rps' : List AddressInfo) (st : ListenLoop) :
    attemptAll env (rps ++ rps') st = attemptAll env rps' (attemptAll env rps st) := by
  induction rps generalizing st with
  | nil => rfl
  | cons rp rps ih =>
    rw [List.cons_append, attemptAll, attemptAll]
    split
    · exact ih _
    · rename_i hst
      exact (attemptAll_of_done hst _).symm

/-- Each loop tries the addresses of its kind. -/
theorem listenLoop_eq (env : Nat → PrepEnv) (tryDualStack : Bool) (result : List AddressInfo) (st : ListenLoop) :
    listenLoop env tryDualStack result st =
      attemptAll env (result.filter fun rp => canTryDualStack rp == tryDualStack) st := by
  induction result generalizing st with
  | nil => rfl
  | cons rp rest ih =>
    rw [listenLoop]
    split
    · rename_i hst
      by_cases hkind : canTryDualStack rp = tryDualStack
      · rw [if_neg (by simpa using hkind), List.filter_cons_of_pos (by simpa using hkind), attemptAll, if_pos hst,
          hkind]
        exact ih _
      · rw [if_pos hkind, List.filter_cons_of_neg (by simpa using hkind)]
        exact ih _
    · rename_i hst
      exact (attemptAll_of_done hst _).symm

/-- The attempt on the candidate at place `k` succeeds, and none before it does. -/
def FirstSuccess (env : Nat → PrepEnv) (rps : List AddressInfo) (k : Nat) (rp : AddressInfo) : Prop :=
  rps[k]? = some rp ∧ (env k).succeeds (canTryDualStack rp) = true ∧
    ∀ j < k, ∀ rp', rps[j]? = some rp' → (env j).succeeds (canTryDualStack rp') = false

/-- The addresses are tried up to the first success. -/
theorem attemptAll_spec (env : Nat → PrepEnv) (rps : List AddressInfo) (st : ListenLoop) (hst : st.socketFd = -1) :
    (∃ k rp failed, FirstSuccess (fun j => env (st.attempts + j)) rps k rp ∧ Neutral failed ∧
      0 ≤ (env (st.attempts + k)).socket ∧ attemptAll env rps st =
        ⟨(env (st.attempts + k)).socket, st.attempts + k + 1,
          st.acts ++ failed ++ successActs (env (st.attempts + k)) rp (canTryDualStack rp)⟩) ∨
      (∀ k rp, rps[k]? = some rp → (env (st.attempts + k)).succeeds (canTryDualStack rp) = false) ∧
        ∃ failed, Neutral failed ∧ attemptAll env rps st = ⟨-1, st.attempts + rps.length, st.acts ++ failed⟩ := by
  induction rps generalizing st with
  | nil =>
    refine .inr ⟨by simp, [], rfl, ?_⟩
    obtain ⟨socketFd, attempts, acts⟩ := st
    subst hst
    simp [attemptAll]
  | cons rp rps ih =>
    have hprep := prepServerSocket_spec (env st.attempts) rp (canTryDualStack rp)
    rw [attemptAll, if_pos (by omega)]
    dsimp only at hprep ⊢
    split at hprep
    · rename_i hsucceeds
      obtain ⟨hfd, hprep⟩ := hprep
      rw [hprep, attemptAll_of_done (by simpa using hfd)]
      refine .inl ⟨0, rp, [], ⟨rfl, hsucceeds, by simp⟩, rfl, hfd, ?_⟩
      simp
    · rename_i hfails
      obtain ⟨hfd, hneutral⟩ := hprep
      generalize prepServerSocket (env st.attempts) rp.aiFamily rp.aiAddr rp.aiAddrlen (canTryDualStack rp) = prep
        at hfd hneutral ⊢
      have hshift : ∀ k, st.attempts + 1 + k = st.attempts + (k + 1) := by
        intro k
        omega
      have hfails' : (env st.attempts).succeeds (canTryDualStack rp) = false := by simpa using hfails
      have hrest := ih ⟨prep.1, st.attempts + 1, st.acts ++ prep.2⟩ hfd
      simp only [hshift] at hrest
      rcases hrest with ⟨k, rp', failed, ⟨hget, hsucceeds, hbefore⟩, hfailed, hpos, hall⟩ |
        ⟨hnone, failed, hfailed, hall⟩
      · refine .inl ⟨k + 1, rp', prep.2 ++ failed, ⟨hget, hsucceeds, ?_⟩, hneutral.append hfailed, hpos, ?_⟩
        · intro j hj rp'' hget'
          cases j with
          | zero =>
            cases hget'
            exact hfails'
          | succ j => exact hbefore j (by omega) rp'' hget'
        · rw [hall]
          simp only [List.append_assoc]
      · refine .inr ⟨?_, prep.2 ++ failed, hneutral.append hfailed, ?_⟩
        · intro k rp' hget'
          cases k with
          | zero =>
            cases hget'
            exact hfails'
          | succ k => exact hnone k rp' hget'
        · rw [hall, List.append_assoc]
          rfl

/-! ### The descriptor that is returned -/

/-- The list of the resolver is held during the attempts only. -/
theorem after_resolver {acts : List SocketAct} {held : Multiset ListenResource}
    (h : after 0 (socketMoves acts) = some held) :
    after 0 (socketMoves ([.getaddrinfo none] ++ acts ++ [.freeaddrinfo])) = some held := by
  have hframe := after_frame h {.addresses}
  rw [Multiset.zero_add] at hframe
  simp only [socketMoves, List.filterMap_append] at hframe ⊢
  refine after_trans (after_trans rfl hframe) ?_
  rw [Multiset.add_comm]
  exact after_release held .addresses []

/-- The descriptor returned is that of the first candidate for which every call succeeds, bound to its address; no
other descriptor stays open, and `mcon_start` finds nothing wrong with it.  Without such a candidate nothing stays
open. -/
theorem create_listening_socket_takes_first_candidate
    (getaddrinfo : Option String → String → AddressInfo → Except Int (List AddressInfo)) (env : Nat → PrepEnv)
    (port : UInt16) (bindAddress : Option String) :
    let fd := (mconCreateListeningSocket getaddrinfo env port bindAddress).1
    let acts := (mconCreateListeningSocket getaddrinfo env port bindAddress).2
    match getaddrinfo bindAddress (toString port.toNat) listeningHints with
    | .error _ => fd = -1 ∧ after 0 (socketMoves acts) = some 0
    | .ok result =>
      (∃ k rp, FirstSuccess env (candidates result) k rp ∧ fd = (env k).socket ∧ 0 ≤ fd ∧
        after 0 (socketMoves acts) = some {.descriptor fd} ∧ .bind fd rp.aiAddr rp.aiAddrlen none ∈ acts ∧
          (canTryDualStack rp → .setV6Only fd 0 none ∈ acts) ∧ mconListeningSocketValid (probeAfter acts fd) = .ok) ∨
        (∀ k rp, (candidates result)[k]? = some rp → (env k).succeeds (canTryDualStack rp) = false) ∧ fd = -1 ∧
          after 0 (socketMoves acts) = some 0 := by
  dsimp only
  rw [mconCreateListeningSocket]
  split
  · exact ⟨rfl, rfl⟩
  · rename_i result _
    have hloops : listenLoop env false result (listenLoop env true result ⟨-1, 0, [.getaddrinfo none]⟩) =
        attemptAll env (candidates result) ⟨-1, 0, [.getaddrinfo none]⟩ := by
      rw [listenLoop_eq, listenLoop_eq, candidates, attemptAll_append]
      simp only [beq_true, beq_false]
    have hspec := attemptAll_spec env (candidates result) ⟨-1, 0, [.getaddrinfo none]⟩ rfl
    simp only [Nat.zero_add] at hspec
    dsimp only
    rw [hloops]
    rcases hspec with ⟨k, rp, failed, hfirst, hfailed, hpos, hall⟩ | ⟨hnone, failed, hfailed, hall⟩
    · rw [hall]
      obtain ⟨hheld, hinfo⟩ := successActs_spec hpos rp (canTryDualStack rp)
      refine .inl ⟨k, rp, hfirst, rfl, hpos, ?_, ?_, ?_, ?_⟩
      · have hsockets : after 0 (socketMoves (failed ++ successActs (env k) rp (canTryDualStack rp))) =
            some {.descriptor (env k).socket} := by
          rw [socketMoves, List.filterMap_append]
          exact after_trans hfailed hheld
        rw [List.append_assoc [_] failed]
        exact after_resolver hsockets
      · simp [successActs]
      · intro hdual
        simp [successActs, hdual]
      · simp only [probeAfter, List.foldl_append, hinfo]
        rfl
    · rw [hall]
      exact .inr ⟨hnone, rfl, after_resolver hfailed⟩

end Mcon
