import Mcon.Types
import Mathlib.Data.List.Perm.Basic
import Mathlib.Data.List.InsertIdx

/-!
# The io_uring instance

The rings as liburing shows them to the program, together with what the kernel holds in between: a submission is
taken from the SQ ring (`inKernel`), executed (`executed`) and answered by a completion in the CQ ring (`cq`).
The kernel executes and posts in any order and with any result; after posting a completion it owes one signal to
the eventfd.  `sqHead` and `cqHead` are the free-running heads of the two rings: the number of submissions the
kernel has taken and of completions the program has consumed.

Two things are assumed of the kernel.  A `recv` with `MSG_TRUNC` discards its data and writes nothing to its buffer,
which for a drain is the record of the session: this is so of TCP, and not of `AF_UNIX`.  And `cq` may hold more than
`cqEntries` completions, where the kernel would keep back the rest until there is room.
-/

namespace Mcon

/-! ### Submissions and completions -/

/-- The `IORING_OP_*` codes in use. -/
inductive Opcode
  | accept
  | close
  | read
  | recv
  | write
  deriving DecidableEq, Repr

/-- What the `addr` field of a submission points to. -/
inductive Buffer
  | null
  /-- Memory of the application. -/
  | user (addr : Nat)
  /-- The record of a session; nothing is written to it. -/
  | session (index : Nat)
  deriving DecidableEq, Repr

/-- `struct io_uring_sqe`, as far as the program fills it in. -/
structure Sqe where
  opcode : Opcode
  fd : Int
  addr : Buffer
  len : Nat
  off : Nat
  opFlags : UInt32
  ioprio : UInt16
  userData : IoUringEntry
  deriving DecidableEq, Repr

/-- `struct io_uring_cqe`. -/
structure Cqe where
  userData : IoUringEntry
  res : Int
  deriving DecidableEq, Repr

def msgTrunc : UInt32 := 0x20
def ioringAcceptDontwait : UInt16 := 2

/-- `io_uring_initialize_sqe` followed by one of the `io_uring_prep_*` functions and `io_uring_sqe_set_data64`. -/
def ioUringPrepRead (fd : Int) (buf : Buffer) (nbytes offset : Nat) (data : IoUringEntry) : Sqe :=
  ⟨.read, fd, buf, nbytes, offset, 0, 0, data⟩

def ioUringPrepWrite (fd : Int) (buf : Buffer) (nbytes offset : Nat) (data : IoUringEntry) : Sqe :=
  ⟨.write, fd, buf, nbytes, offset, 0, 0, data⟩

def ioUringPrepRecv (fd : Int) (buf : Buffer) (len : Nat) (flags : UInt32) (data : IoUringEntry) : Sqe :=
  ⟨.recv, fd, buf, len, 0, flags, 0, data⟩

def ioUringPrepClose (fd : Int) (data : IoUringEntry) : Sqe :=
  ⟨.close, fd, .null, 0, 0, 0, 0, data⟩

def ioUringPrepAccept (fd : Int) (flags : UInt32) (data : IoUringEntry) : Sqe :=
  ⟨.accept, fd, .null, 0, 0, flags, 0, data⟩

/-! ### Observable actions -/

/-- What a call does besides changing the mcon instance: system calls with their results, the accesses to the
session table, the operations on the free stack and on the io_queue, and the steps of the kernel. -/
inductive Act
  /-- The system calls of `mcon_listening_socket_valid(fd)`. -/
  | socketProbe (fd : Int) (probe : SocketProbe)
  /-- `epoll_ctl(epfd, EPOLL_CTL_ADD, fd, {events, data})`; `err` is the errno of a failure. -/
  | epollAdd (epfd fd : Int) (data : UInt64) (events : UInt32) (err : Option Int)
  /-- `epoll_ctl(epfd, EPOLL_CTL_DEL, fd, NULL)`. -/
  | epollDel (epfd fd : Int) (err : Option Int)
  /-- `close(fd)`. -/
  | close (fd : Int)
  /-- `getsockopt(fd, SOL_SOCKET, SO_ERROR, ..)`. -/
  | getsockopt (fd : Int) (err : Option Int)
  /-- `io_uring_submit` with the value it returned. -/
  | ioUringSubmit (res : Int)
  | eventfdRead
  | eventfdWrite
  /-- A successful `io_queue_push`. -/
  | ioQueuePush (sqe : Sqe)
  /-- `idx_stack_push` and whether it succeeded. -/
  | stackPush (session : Nat) (ok : Bool)
  /-- `idx_stack_pop` and what it returned. -/
  | stackPop (session : Option Nat)
  /-- `mcon->sessions[index]`. -/
  | sessionsAt (index : Nat)
  /-- The kernel executes a submission. -/
  | exec (sqe : Sqe) (res : Int)
  /-- The kernel posts a completion. -/
  | post (cqe : Cqe)
  /-- The kernel adds to the eventfd. -/
  | signal
  deriving DecidableEq

/-! ### The rings -/

structure Ring where
  sqEntries : Nat
  /-- Filled submission entries which the kernel has not taken. -/
  sq : List Sqe
  sqHead : Nat
  inKernel : List Sqe
  executed : List Cqe
  cqEntries : Nat
  cq : List Cqe
  cqHead : Nat
  eventfd : Nat
  owedSignals : Nat
  deriving DecidableEq, Repr

def roundupPowerOfTwo (n : Nat) : Nat := if n ≤ 1 then 1 else 2 ^ ((n - 1).log2 + 1)

theorem le_roundupPowerOfTwo (n : Nat) : n ≤ roundupPowerOfTwo n := by
  unfold roundupPowerOfTwo
  split
  · assumption
  · have := Nat.lt_log2_self (n := n - 1)
    omega

theorem roundupPowerOfTwo_pos (n : Nat) : 0 < roundupPowerOfTwo n := by
  unfold roundupPowerOfTwo
  split
  · exact Nat.one_pos
  · exact Nat.two_pow_pos _

/-- `io_uring_queue_init` with a registered eventfd: the SQ ring is rounded up to a power of two, the CQ ring is
twice as large. -/
def ioUringQueueInit (entries : Nat) : Ring where
  sqEntries := roundupPowerOfTwo entries
  sq := []
  sqHead := 0
  inKernel := []
  executed := []
  cqEntries := 2 * roundupPowerOfTwo entries
  cq := []
  cqHead := 0
  eventfd := 0
  owedSignals := 0

/-- A step of the kernel: execute the submission at an index with a result, post the completion at an index, or
signal the eventfd for a posted completion. -/
inductive RingMove
  | exec (index : Nat) (res : Int)
  | post (index : Nat)
  | signal
  deriving DecidableEq, Repr

namespace Ring

variable (r : Ring)

def ioUringSqSpaceLeft : Nat := r.sqEntries - r.sq.length

/-- `io_uring_get_sqe`, filled with `sqe`; `none` is the `NULL` of a full ring. -/
def ioUringGetSqe (sqe : Sqe) : Option Ring :=
  if r.sq.length < r.sqEntries then some { r with sq := r.sq ++ [sqe] } else none

/-- `io_uring_submit`: `res` is the kernel's answer, a negative error or the number of entries it is ready to
take. -/
def ioUringSubmit (res : Int) : Int × Ring :=
  if res < 0 then (res, r)
  else
    let n := min res.toNat r.sq.length
    (n, { r with sq := r.sq.drop n, inKernel := r.inKernel ++ r.sq.take n, sqHead := r.sqHead + n })

/-- The pointer `io_uring_peek_cqe` yields: a slot of the CQ ring, or `NULL`. -/
def ioUringPeekCqe : Option Nat := if r.cq = [] then none else some (r.cqHead % r.cqEntries)

def ioUringCqeSeen : Ring := { r with cq := r.cq.tail, cqHead := r.cqHead + 1 }

def ioUringCqReady : Nat := r.cq.length

def apply : RingMove → Ring × List Act
  | .exec index res =>
    match r.inKernel[index]? with
    | none => (r, [])
    | some sqe =>
      ({ r with inKernel := r.inKernel.eraseIdx index, executed := r.executed ++ [⟨sqe.userData, res⟩] },
        [.exec sqe res])
  | .post index =>
    match r.executed[index]? with
    | none => (r, [])
    | some cqe =>
      ({ r with
          executed := r.executed.eraseIdx index
          cq := r.cq ++ [cqe]
          owedSignals := r.owedSignals + 1 },
        [.post cqe])
  | .signal =>
    if r.owedSignals = 0 then (r, [])
    else ({ r with eventfd := r.eventfd + 1, owedSignals := r.owedSignals - 1 }, [.signal])

def applyAll : Ring → List RingMove → Ring × List Act
  | r, [] => (r, [])
  | r, move :: moves =>
    let rest := applyAll (r.apply move).1 moves
    (rest.1, (r.apply move).2 ++ rest.2)

/-- The `user_data` of everything between the SQ ring and the consumption of its completion. -/
def entries : List IoUringEntry :=
  r.sq.map (·.userData) ++ r.inKernel.map (·.userData) ++ r.executed.map (·.userData) ++
    r.cq.map (·.userData)

/-- The number of operations submitted and not yet consumed. -/
def unconsumed : Nat := r.inKernel.length + r.executed.length + r.cq.length

/-! ### What the steps of the kernel preserve -/

/-- What one step of the kernel can do. -/
inductive KernelStep : Ring → List Act → Ring → Prop
  | idle (r : Ring) : KernelStep r [] r
  | exec {r : Ring} {index : Nat} {sqe : Sqe} (res : Int) : r.inKernel[index]? = some sqe →
      KernelStep r [.exec sqe res]
        { r with inKernel := r.inKernel.eraseIdx index, executed := r.executed ++ [⟨sqe.userData, res⟩] }
  | post {r : Ring} {index : Nat} {cqe : Cqe} : r.executed[index]? = some cqe →
      KernelStep r [.post cqe]
        { r with
          executed := r.executed.eraseIdx index
          cq := r.cq ++ [cqe]
          owedSignals := r.owedSignals + 1 }
  | signal {r : Ring} : 0 < r.owedSignals →
      KernelStep r [.signal] { r with eventfd := r.eventfd + 1, owedSignals := r.owedSignals - 1 }

theorem kernelStep_apply (move : RingMove) : KernelStep r (r.apply move).2 (r.apply move).1 := by
  cases move with
  | exec index res =>
    simp only [apply]
    split
    · exact .idle r
    · rename_i sqe h
      exact .exec res h
  | post index =>
    simp only [apply]
    split
    · exact .idle r
    · rename_i cqe h
      exact .post h
  | signal =>
    simp only [apply]
    split
    · exact .idle r
    · rename_i h
      exact .signal (by omega)

variable {r} {r' : Ring} {acts : List Act}

/-- The kernel neither loses nor invents operations. -/
theorem KernelStep.entries_perm (h : KernelStep r acts r') : r'.entries.Perm r.entries := by
  cases h with
  | idle => exact List.Perm.refl _
  | @exec index sqe res h =>
    obtain ⟨hlt, rfl⟩ := List.getElem?_eq_some_iff.1 h
    have hp := (List.getElem_cons_eraseIdx_perm hlt).map (·.userData)
    simp only [entries, List.map_append, List.map_cons, List.map_nil, List.append_assoc] at hp ⊢
    apply List.Perm.append_left
    refine List.Perm.trans ?_ (hp.append_right _)
    rw [List.cons_append]
    refine List.Perm.trans (List.Perm.append_left _ List.perm_middle) ?_
    exact List.perm_middle
  | @post index cqe h =>
    obtain ⟨hlt, rfl⟩ := List.getElem?_eq_some_iff.1 h
    have hp := (List.getElem_cons_eraseIdx_perm hlt).map (·.userData)
    simp only [entries, List.map_append, List.map_cons, List.map_nil, List.append_assoc] at hp ⊢
    apply List.Perm.append_left
    apply List.Perm.append_left
    refine List.Perm.trans ?_ (hp.append_right _)
    rw [List.cons_append, ← List.append_assoc]
    exact List.perm_append_singleton _ _
  | signal => exact List.Perm.refl _

theorem KernelStep.unconsumed_eq (h : KernelStep r acts r') : r'.unconsumed = r.unconsumed := by
  cases h with
  | idle => rfl
  | @exec index sqe res h =>
    obtain ⟨hlt, -⟩ := List.getElem?_eq_some_iff.1 h
    simp only [unconsumed, List.length_eraseIdx_of_lt hlt, List.length_append, List.length_singleton]
    omega
  | @post index cqe h =>
    obtain ⟨hlt, -⟩ := List.getElem?_eq_some_iff.1 h
    simp only [unconsumed, List.length_eraseIdx_of_lt hlt, List.length_append, List.length_singleton]
    omega
  | signal => rfl

/-- The kernel only appends to the CQ ring. -/
theorem KernelStep.cq_eq (h : KernelStep r acts r') : ∃ posted, r'.cq = r.cq ++ posted := by
  cases h with
  | idle => exact ⟨[], by simp⟩
  | exec => exact ⟨[], by simp⟩
  | @post index cqe h => exact ⟨[cqe], rfl⟩
  | signal => exact ⟨[], by simp⟩

/-- The fields which the kernel does not write between two submissions. -/
theorem KernelStep.frame (h : KernelStep r acts r') :
    r'.sq = r.sq ∧ r'.sqEntries = r.sqEntries ∧ r'.cqEntries = r.cqEntries ∧ r'.sqHead = r.sqHead ∧
      r'.cqHead = r.cqHead := by
  cases h <;> exact ⟨rfl, rfl, rfl, rfl, rfl⟩

theorem unconsumed_applyAll (r : Ring) (moves : List RingMove) :
    (r.applyAll moves).1.unconsumed = r.unconsumed := by
  induction moves generalizing r with
  | nil => rfl
  | cons move moves ih => rw [applyAll, ih, (r.kernelStep_apply move).unconsumed_eq]

theorem frame_applyAll (r : Ring) (moves : List RingMove) :
    (r.applyAll moves).1.cqEntries = r.cqEntries ∧ (r.applyAll moves).1.cqHead = r.cqHead ∧
      ∃ posted, (r.applyAll moves).1.cq = r.cq ++ posted := by
  induction moves generalizing r with
  | nil => exact ⟨rfl, rfl, [], by simp [applyAll]⟩
  | cons move moves ih =>
    obtain ⟨-, -, hentries, -, hhead⟩ := (r.kernelStep_apply move).frame
    obtain ⟨posted, hcq⟩ := (r.kernelStep_apply move).cq_eq
    obtain ⟨hentries', hhead', posted', hcq'⟩ := ih (r.apply move).1
    exact ⟨hentries'.trans hentries, hhead'.trans hhead, posted ++ posted', by
      rw [applyAll, hcq', hcq, List.append_assoc]⟩

end Ring

end Mcon
