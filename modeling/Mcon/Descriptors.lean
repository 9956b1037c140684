import Mcon.Generations
import Mcon.Library.Environment
import Mcon.Operations

/-!
# The descriptors of sessions

The kernel gives the number of a closed descriptor to the next file, so a program must not use a descriptor after it
is closed.  The world of this module are the descriptors of the process: which file is behind each, which of them the
program owns, and which connection each session was given.  An operation on the socket of a session acts on the
connection the session was given, in every run without a half-done detach and without a query of a socket that the
kernel has closed already; `mcon_process_session_event` does not see to the latter.
-/

namespace Mcon

open Transition (Run Path Watch AllOk history finalState)

variable {C : Ctools} {m m' : Instance C} {A A' : Nat → Slot} {k : StepKind} {obs : List Obs} {i : Input} {s t : Nat}

/-! ### The descriptors of the process -/

structure Files where
  /-- The file behind an open descriptor; files are numbered in the order in which they are opened. -/
  file : Int → Option Nat
  opened : Nat
  /-- The descriptors of accepted connections which were neither closed nor handed over by a detach. -/
  owned : Int → Bool
  /-- The connection a session was given when it was opened last. -/
  given : Nat → Option Nat

/-- A process without files. -/
def Files.none : Files := ⟨fun _ => .none, 0, fun _ => false, fun _ => .none⟩

namespace Files

variable (w : Files)

def openFile (fd : Int) : Files :=
  { w with file := Function.update w.file fd (some w.opened), opened := w.opened + 1 }

/-- A new connection, which the program owns. -/
def acceptFile (fd : Int) : Files := { w.openFile fd with owned := Function.update w.owned fd true }

def closeFile (fd : Int) : Files :=
  { w with file := Function.update w.file fd .none, owned := Function.update w.owned fd false }

/-- What the rest of the process does: it opens files and closes descriptors, but none that the program owns. -/
inductive Moves : Files → Files → Prop
  | opens {w : Files} {fd : Int} : 0 ≤ fd → w.file fd = .none → Moves w (w.openFile fd)
  | closes {w : Files} {fd : Int} : w.owned fd = false → Moves w (w.closeFile fd)

/-- An accept returns a descriptor that is not open. -/
def Allows : Act → Prop
  | .exec sqe res => sqe.opcode = .accept → 0 ≤ res → w.file res = .none
  | _ => True

/-- The descriptors after an action of the call `i`.  A close frees its descriptor whatever its result; a detach
hands its descriptor over; the registration of a connection gives it to its session. -/
def after (i : Input) : Act → Files
  | .exec sqe res =>
    match sqe.opcode with
    | .accept => if 0 ≤ res then w.acceptFile res else w
    | .close => w.closeFile sqe.fd
    | _ => w
  | .close fd => w.closeFile fd
  | .epollAdd _ fd data _ .none =>
    if (mconDecodeEpollEntry data).source = epollSourceSession then
      { w with given := Function.update w.given (mconDecodeEpollEntry data).session.toNat (w.file fd) }
    else w
  | .epollDel _ fd .none =>
    match i with
    | .detach .. => { w with owned := Function.update w.owned fd false }
    | _ => w
  | _ => w

def Sees (i : Input) (w : Files) (a : Act) (w' : Files) : Prop := w.Allows a ∧ w' = w.after i a

/-- The descriptor is the one of the connection that the session was given. -/
def OnGiven (s : Nat) (fd : Int) : Prop := ∃ connection, w.file fd = some connection ∧ w.given s = some connection

end Files

/-- The operations on sockets of sessions: the session and the descriptor which an action of the call `i` uses. -/
def operation (i : Input) : Act → Option (Nat × Int)
  | .exec sqe _ => if sqe.opcode = .accept then none else some (sqe.userData.session, sqe.fd)
  | .epollDel _ fd _ =>
    match i with
    | .detach session _ => some (session, fd)
    | _ => none
  | .getsockopt fd _ =>
    match i with
    | .processEvent data .. => some ((mconDecodeEpollEntry data).session.toNat, fd)
    | _ => none
  | _ => none

/-- An operation acts on the connection its session was given. -/
def ActsOnGiven (i : Input) (w : Files) (a : Act) : Prop := ∀ s fd, operation i a = some (s, fd) → w.OnGiven s fd

/-- Every operation of a run acts on the connection its session was given. -/
def OperationsActOnGiven (h : List (Input × List (Files × Act))) : Prop :=
  ∀ call ∈ h, ∀ p ∈ call.2, ActsOnGiven call.1 p.1 p.2

/-- The runs of a new instance in a process, every call recorded with what the process sees of it; the rest of the
process moves at any time. -/
inductive Observed (ok : Instance C → Input → Prop) : List (Input × List (Files × Act)) → Files → Instance C → Prop
  | created {config : Config} {m : Instance C} : Created config m → Observed ok [] Files.none m
  | call {h : List (Input × List (Files × Act))} {w w' : Files} {m : Instance C} {i : Input}
      {seen : List (Files × Act)} : Observed ok h w m → ok m i → Watch Files.Moves (Files.Sees i) w seen w' →
      seen.map Prod.snd = (step m i).2.acts → Observed ok (h ++ [(i, seen)]) w' (step m i).1

/-- The close of the session has been executed, and its completion is not yet consumed. -/
def CloseExecuted (m : Instance C) (s : Nat) : Prop :=
  SlotOp.close.entry s ∈ m.completions.map (·.userData)

/-- An event with `EPOLLERR` is let through for a session without a connection, or whose close was executed. -/
def QueriesReleased (m : Instance C) (i : Input) : Prop :=
  ∃ data epollEvents eventCapacity env, i = .processEvent data epollEvents eventCapacity env ∧
    mconOwnsEvent m data = true ∧ (mconDecodeEpollEntry data).source = epollSourceSession ∧
    LetThrough m epollEvents (mconDecodeEpollEntry data) eventCapacity ∧ epollEvents &&& epollerr ≠ 0 ∧
    (mconSessionIsActive m (mconDecodeEpollEntry data).session.toNat = true →
      CloseExecuted m (mconDecodeEpollEntry data).session.toNat)

/-- No detach is half done, and no socket is queried that was closed. -/
def KeepsToConnections (m : Instance C) (i : Input) : Prop := DetachesWhole m i ∧ ¬ QueriesReleased m i

/-! ### What an instance holds -/

/-- The session has a connection whose close was not executed. -/
def Held (m : Instance C) (A : Nat → Slot) (s : Nat) : Prop := A s ≠ .free ∧ ¬ CloseExecuted m s

/-- The descriptor that a completion of an accept brings. -/
def Cqe.brought (cqe : Cqe) : Option Int :=
  if cqe.userData.operation = .accept ∧ 0 ≤ cqe.res then some cqe.res else none

/-- The descriptors of the accepts whose completions are not yet consumed. -/
def arrived (m : Instance C) : List Int := m.completions.filterMap Cqe.brought

/-- An instance with the slots `A`, the operations of which carry the descriptors of their sessions. -/
structure Consistent (m : Instance C) (A : Nat → Slot) : Prop where
  wellFormed : WellFormed m
  indices : ValidIndices m
  represents : Represents m A
  made : ∀ sqe ∈ m.sqes, sqe.Made
  sqe_fd : ∀ sqe ∈ m.sqes, ∀ (op : SlotOp) s, sqe.userData = op.entry s → sqe.fd = (m.session s).socketFd

/-- The descriptors that the instance holds are owned and open, and no two of them are the same. -/
structure Tracked (w : Files) (m : Instance C) (A : Nat → Slot) : Prop where
  held : ∀ s, Held m A s → w.owned (m.session s).socketFd = true ∧ w.OnGiven s (m.session s).socketFd
  apart : ∀ s t, Held m A s → Held m A t → (m.session s).socketFd = (m.session t).socketFd → s = t
  arrived_open : ∀ fd ∈ arrived m, w.owned fd = true ∧ (w.file fd).isSome
  arrived_nodup : (arrived m).Nodup
  arrived_apart : ∀ fd ∈ arrived m, ∀ s, Held m A s → fd ≠ (m.session s).socketFd

/-! ### The instance -/

/-- A slot that is in use before and after a step keeps its descriptor. -/
theorem RecordStep.socketFd_eq_of_run {x x' : Session} {log : List SlotEvent} {y y' : Slot} (h : RecordStep k x log x')
    (hrun : y.run log = some y') (hy : y ≠ .free) (hy' : y' ≠ .free) : x'.socketFd = x.socketFd := by
  cases h with
  | opened =>
    rw [Slot.run_singleton] at hrun
    exact absurd (Slot.free_of_next_opened hrun).1 hy
  | closed =>
    rw [Slot.run_singleton] at hrun
    exact absurd (Slot.free_of_next_release hrun (.inl rfl)) hy'
  | detached =>
    rw [Slot.run_singleton] at hrun
    exact absurd (Slot.free_of_next_release hrun (.inr rfl)) hy'
  | _ => rfl

/-- The session of an outstanding operation is in use. -/
theorem Represents.ne_free_of_sqe (hrep : Represents m A) {sqe : Sqe} (hsqe : sqe ∈ m.sqes) {op : SlotOp}
    (hdata : sqe.userData = op.entry s) : (A s).pending op = true ∧ A s ≠ .free := by
  have hmem : op.entry s ∈ m.outstanding := by
    rw [outstanding_eq, ← hdata]
    exact List.mem_append_left _ (List.mem_map_of_mem hsqe)
  have hpending := hrep.pending_of_mem hmem
  refine ⟨hpending, fun hfree => ?_⟩
  rw [hfree] at hpending
  cases op <;> cases hpending

theorem Consistent.smallStep (hc : Consistent m A) (hk : k ≠ .detachEnoent) (h : SmallStep m k obs m') :
    ∃ A', Consistent m' A' ∧ ∀ s, (A s).run (logOf obs s) = some (A' s) := by
  obtain ⟨hm, hind, hrep, hmade, hfd⟩ := hc
  obtain ⟨A', hrep', hrun, -⟩ := hrep.slotStep hm hk h
  refine ⟨A', ⟨hm.smallStep h, hind.smallStep h, hrep', h.made hmade, fun sqe hsqe op s hdata => ?_⟩, hrun⟩
  rcases h.mem_sqes sqe hsqe with hold | ⟨-, haccept⟩ | ⟨op', s', hdata', -, hfd'⟩
  · have hused := (hrep.ne_free_of_sqe hold hdata).2
    have hused' := (hrep'.ne_free_of_sqe hsqe hdata).2
    exact (hfd sqe hold op s hdata).trans
      ((h.recordStep hm hind s).socketFd_eq_of_run (hrun s) hused hused').symm
  · rw [hdata] at haccept
    exact absurd haccept op.operation_ne_accept
  · obtain ⟨-, rfl⟩ := SlotOp.entry_inj (hdata'.symm.trans hdata)
    exact hfd'

/-- A step that does not open the slot `s`: a connection it holds afterwards was held before. -/
theorem Held.of_step (hm : WellFormed m) (hind : ValidIndices m) (h : SmallStep m k obs m') (hk : k ≠ .kernel)
    (hrun : (A s).run (logOf obs s) = some (A' s)) (hopened : .opened ∉ logOf obs s) (hs : Held m' A' s) :
    Held m A s ∧ (m'.session s).socketFd = (m.session s).socketFd := by
  obtain ⟨hused', hclose'⟩ := hs
  have hused : A s ≠ .free := fun hfree => hopened (Slot.opened_of_run (hfree ▸ hrun) hused')
  refine ⟨⟨hused, fun hclose => hclose' ?_⟩, (h.recordStep hm hind s).socketFd_eq_of_run hrun hused hused'⟩
  unfold CloseExecuted at hclose ⊢
  rcases h.completions_eq hk with hsame | ⟨cqe, hperm, hanswer⟩
  · rw [hsame]
    exact hclose
  · rw [(hperm.map _).mem_iff, List.map_cons, List.mem_cons] at hclose
    rcases hclose with hdata | hclose
    · -- consuming the close frees the slot
      have hlog : logOf obs s = [.answered .close] := by simp [logOf, hanswer s hdata.symm]
      rw [hlog, Slot.run_singleton] at hrun
      exact absurd (Slot.free_of_next_release hrun (.inl rfl)) hused'
    · exact hclose

theorem arrived_of_step (h : SmallStep m k obs m') (hk : k ≠ .kernel) :
    ∃ gone, (arrived m).Perm (gone ++ arrived m') := by
  rcases h.completions_eq hk with hsame | ⟨cqe, hperm, -⟩
  · exact ⟨[], by rw [arrived, arrived, hsame]; exact .refl _⟩
  · refine ⟨cqe.brought.toList, (hperm.filterMap _).trans (.of_eq ?_)⟩
    rw [List.filterMap_cons, arrived]
    cases cqe.brought <;> rfl

/-! ### The descriptors it holds -/

/-- The descriptor is one that the instance holds. -/
def Holds (m : Instance C) (A : Nat → Slot) (fd : Int) : Prop :=
  fd ∈ arrived m ∨ ∃ s, Held m A s ∧ fd = (m.session s).socketFd

variable {w w' : Files}

theorem Tracked.of_holds (ht : Tracked w m A) {fd : Int} (h : Holds m A fd) :
    w.owned fd = true ∧ (w.file fd).isSome := by
  rcases h with hfd | ⟨s, hs, rfl⟩
  · exact ht.arrived_open fd hfd
  · obtain ⟨howned, connection, hfile, -⟩ := ht.held s hs
    exact ⟨howned, by rw [hfile]; rfl⟩

/-- An instance that holds no new descriptor, with the same files behind the ones it holds. -/
theorem Tracked.keep (ht : Tracked w m A)
    (hheld : ∀ s, Held m' A' s → Held m A s ∧ (m'.session s).socketFd = (m.session s).socketFd)
    (harrived : ∃ gone, (arrived m).Perm (gone ++ arrived m'))
    (hfiles : ∀ fd, Holds m' A' fd → w'.file fd = w.file fd ∧ w'.owned fd = w.owned fd)
    (hgiven : w'.given = w.given) : Tracked w' m' A' := by
  obtain ⟨gone, hperm⟩ := harrived
  have hold : ∀ fd ∈ arrived m', fd ∈ arrived m := fun fd hfd => hperm.mem_iff.2 (List.mem_append_right _ hfd)
  constructor
  · intro s hs
    obtain ⟨hfile, howned⟩ := hfiles _ (.inr ⟨s, hs, rfl⟩)
    rw [Files.OnGiven, hfile, howned, hgiven, (hheld s hs).2]
    exact ht.held s (hheld s hs).1
  · intro s t hs hs' hfd
    rw [(hheld s hs).2, (hheld t hs').2] at hfd
    exact ht.apart s t (hheld s hs).1 (hheld t hs').1 hfd
  · intro fd hfd
    rw [(hfiles fd (.inl hfd)).1, (hfiles fd (.inl hfd)).2]
    exact ht.arrived_open fd (hold fd hfd)
  · exact (hperm.nodup_iff.1 ht.arrived_nodup).of_append_right
  · intro fd hfd s hs
    rw [(hheld s hs).2]
    exact ht.arrived_apart fd (hold fd hfd) s (hheld s hs).1

/-- The same instance. -/
theorem Tracked.files (ht : Tracked w m A)
    (hfiles : ∀ fd, Holds m A fd → w'.file fd = w.file fd ∧ w'.owned fd = w.owned fd) (hgiven : w'.given = w.given) :
    Tracked w' m A :=
  ht.keep (fun _ hs => ⟨hs, rfl⟩) ⟨[], .refl _⟩ hfiles hgiven

theorem Files.openFile_of_ne {fd fd' : Int} (h : fd' ≠ fd) :
    (w.openFile fd).file fd' = w.file fd' ∧ (w.openFile fd).owned fd' = w.owned fd' :=
  ⟨Function.update_of_ne h _ _, rfl⟩

theorem Files.acceptFile_of_ne {fd fd' : Int} (h : fd' ≠ fd) :
    (w.acceptFile fd).file fd' = w.file fd' ∧ (w.acceptFile fd).owned fd' = w.owned fd' :=
  ⟨Function.update_of_ne h _ _, Function.update_of_ne h _ _⟩

theorem Files.acceptFile_self (fd : Int) :
    (w.acceptFile fd).file fd = some w.opened ∧ (w.acceptFile fd).owned fd = true :=
  ⟨Function.update_self _ _ _, Function.update_self _ _ _⟩

theorem Files.closeFile_of_ne {fd fd' : Int} (h : fd' ≠ fd) :
    (w.closeFile fd).file fd' = w.file fd' ∧ (w.closeFile fd).owned fd' = w.owned fd' :=
  ⟨Function.update_of_ne h _ _, Function.update_of_ne h _ _⟩

/-- The rest of the process leaves the descriptors of the instance alone. -/
theorem Tracked.moves (ht : Tracked w m A) (h : w.Moves w') : Tracked w' m A := by
  cases h with
  | @opens fd _ hclosed =>
    refine ht.files (fun fd' hfd' => Files.openFile_of_ne ?_) rfl
    rintro rfl
    have hopen := (ht.of_holds hfd').2
    rw [hclosed] at hopen
    cases hopen
  | @closes fd howned =>
    refine ht.files (fun fd' hfd' => Files.closeFile_of_ne ?_) rfl
    rintro rfl
    rw [(ht.of_holds hfd').1] at howned
    cases howned

/-- An action that is no operation on a socket and changes no descriptor. -/
def Unseen (i : Input) (a : Act) : Prop := operation i a = none ∧ ∀ w : Files, w.after i a = w

section Unseen

variable (i : Input)

@[simp] theorem unseen_socketProbe (fd : Int) (probe : SocketProbe) : Unseen i (.socketProbe fd probe) :=
  ⟨rfl, fun _ => rfl⟩

@[simp] theorem unseen_ioUringSubmit (res : Int) : Unseen i (.ioUringSubmit res) := ⟨rfl, fun _ => rfl⟩
@[simp] theorem unseen_eventfdRead : Unseen i .eventfdRead := ⟨rfl, fun _ => rfl⟩
@[simp] theorem unseen_eventfdWrite : Unseen i .eventfdWrite := ⟨rfl, fun _ => rfl⟩
@[simp] theorem unseen_ioQueuePush (sqe : Sqe) : Unseen i (.ioQueuePush sqe) := ⟨rfl, fun _ => rfl⟩
@[simp] theorem unseen_stackPush (s : Nat) (ok : Bool) : Unseen i (.stackPush s ok) := ⟨rfl, fun _ => rfl⟩
@[simp] theorem unseen_stackPop (s : Option Nat) : Unseen i (.stackPop s) := ⟨rfl, fun _ => rfl⟩
@[simp] theorem unseen_sessionsAt (s : Nat) : Unseen i (.sessionsAt s) := ⟨rfl, fun _ => rfl⟩
@[simp] theorem unseen_post (cqe : Cqe) : Unseen i (.post cqe) := ⟨rfl, fun _ => rfl⟩
@[simp] theorem unseen_signal : Unseen i .signal := ⟨rfl, fun _ => rfl⟩

@[simp] theorem unseen_epollAdd_some (epfd fd : Int) (data : UInt64) (events : UInt32) (err : Int) :
    Unseen i (.epollAdd epfd fd data events (some err)) := ⟨rfl, fun _ => rfl⟩

end Unseen

theorem Unseen.actsOnGiven {a : Act} (h : Unseen i a) : ActsOnGiven i w a := by
  intro s fd hop
  rw [h.1] at hop
  cases hop

theorem Tracked.watch {seen : List (Files × Act)} (ht : Tracked w m A)
    (hwatch : Watch Files.Moves (Files.Sees i) w seen w') (hseen : ∀ a ∈ seen.map Prod.snd, Unseen i a) :
    Tracked w' m A ∧ ∀ p ∈ seen, ActsOnGiven i p.1 p.2 := by
  refine ⟨(hwatch.keeps (fun x => Tracked x m A) (fun _ _ h ht => ht.moves h) ?_ ht).1, fun p hp => ?_⟩
  · rintro x a x' hmem ⟨-, rfl⟩ ht
    rw [(hseen a hmem).2]
    exact ht
  · exact (hseen _ (List.mem_map_of_mem hp)).actsOnGiven

/-- One action among others. -/
theorem Tracked.watch_one {seen : List (Files × Act)} (before after : List Act) {a : Act} (ht : Tracked w m A)
    (hwatch : Watch Files.Moves (Files.Sees i) w seen w') (hseen : seen.map Prod.snd = before ++ a :: after)
    (hothers : ∀ b ∈ before ++ after, Unseen i b)
    (hone : ∀ w, Tracked w m A → w.Allows a → ActsOnGiven i w a ∧ Tracked (w.after i a) m' A') :
    Tracked w' m' A' ∧ ∀ p ∈ seen, ActsOnGiven i p.1 p.2 := by
  obtain ⟨seen₁, seen₂, rfl, rfl, hseen₂⟩ := List.map_eq_append_iff.1 hseen
  obtain ⟨p, seen₃, rfl, rfl, rfl⟩ := List.map_eq_cons_iff.1 hseen₂
  obtain ⟨w₁, hwatch₁, hwatch₂⟩ := hwatch.append_inv
  obtain ⟨w₂, hmoves, ⟨hallows, rfl⟩, hwatch₃⟩ := hwatch₂.cons_inv
  obtain ⟨ht₁, hgood₁⟩ := ht.watch hwatch₁ fun b hb => hothers b (List.mem_append_left _ hb)
  obtain ⟨ht₂, -⟩ := ht₁.watch hmoves (by simp)
  obtain ⟨hgood₂, ht₂⟩ := hone _ ht₂ hallows
  obtain ⟨ht₃, hgood₃⟩ := ht₂.watch hwatch₃ fun b hb => hothers b (List.mem_append_right _ hb)
  refine ⟨ht₃, fun q hq => ?_⟩
  rcases List.mem_append.1 hq with hq | hq
  · exact hgood₁ q hq
  · rcases List.mem_cons.1 hq with rfl | hq
    · exact hgood₂
    · exact hgood₃ q hq

/-! ### Small steps -/

/-- The session of an operation that was not executed holds its connection. -/
theorem Consistent.held_of_sqe (hc : Consistent m A) {sqe : Sqe} (hsqe : sqe ∈ m.sqes) {op : SlotOp}
    (hdata : sqe.userData = op.entry s) : Held m A s := by
  obtain ⟨hpending, hused⟩ := hc.represents.ne_free_of_sqe hsqe hdata
  refine ⟨hused, fun hclose => ?_⟩
  have hsubmitted : op.entry s ∈ m.sqes.map (·.userData) := List.mem_map.2 ⟨sqe, hsqe, hdata⟩
  have hcount := hc.represents.count .close s
  have hboth : ((A s).pending .close).toNat =
      (m.sqes.map (·.userData)).count (SlotOp.close.entry s) +
        (m.completions.map (·.userData)).count (SlotOp.close.entry s) := by
    rw [← hcount, outstanding_eq, List.count_append]
  have hexecuted := List.count_pos_iff.2 hclose
  -- the close of the session is outstanding once, and beside it nothing else
  have hclosing : A s = .closing := by
    apply Slot.eq_closing_of_pending
    cases hp : (A s).pending .close with
    | true => rfl
    | false => rw [hp, Bool.toNat_false] at hboth; omega
  have hop : op = .close := by
    rw [hclosing] at hpending
    cases op <;> first | rfl | cases hpending
  rw [hop] at hsubmitted
  have hwaits := List.count_pos_iff.2 hsubmitted
  rw [hclosing] at hboth
  have hone : (Slot.closing.pending .close).toNat = 1 := rfl
  omega

/-- A descriptor is given to an accept. -/
theorem Tracked.arrive (ht : Tracked w m A) {fd : Int} (hclosed : w.file fd = none)
    (hheld : ∀ s, Held m' A s → Held m A s ∧ (m'.session s).socketFd = (m.session s).socketFd)
    (harrived : (arrived m').Perm (fd :: arrived m)) :
    Tracked (w.acceptFile fd) m' A := by
  have hne : ∀ fd', Holds m A fd' → fd' ≠ fd := by
    rintro fd' hfd' rfl
    have hopen := (ht.of_holds hfd').2
    rw [hclosed] at hopen
    cases hopen
  constructor
  · intro s hs
    obtain ⟨hs, hfd⟩ := hheld s hs
    have hother := hne _ (.inr ⟨s, hs, rfl⟩)
    obtain ⟨hfile, howned⟩ := Files.acceptFile_of_ne (w := w) hother
    rw [hfd, Files.OnGiven, hfile, howned]
    exact ht.held s hs
  · intro s t hs hs' hfd
    rw [(hheld s hs).2, (hheld t hs').2] at hfd
    exact ht.apart s t (hheld s hs).1 (hheld t hs').1 hfd
  · intro fd' hfd'
    rcases List.mem_cons.1 (harrived.mem_iff.1 hfd') with rfl | hold
    · obtain ⟨hfile, howned⟩ := Files.acceptFile_self (w := w) fd'
      exact ⟨howned, by rw [hfile]; rfl⟩
    · obtain ⟨hfile, howned⟩ := Files.acceptFile_of_ne (w := w) (hne _ (.inl hold))
      rw [hfile, howned]
      exact ht.arrived_open fd' hold
  · rw [harrived.nodup_iff, List.nodup_cons]
    exact ⟨fun hold => hne _ (.inl hold) rfl, ht.arrived_nodup⟩
  · intro fd' hfd' s hs
    rw [(hheld s hs).2]
    rcases List.mem_cons.1 (harrived.mem_iff.1 hfd') with rfl | hold
    · exact (hne _ (.inr ⟨s, (hheld s hs).1, rfl⟩)).symm
    · exact ht.arrived_apart fd' hold s (hheld s hs).1

/-- A submission is executed: an accept brings a descriptor, a close gives one back, and every operation acts on the
connection of its session. -/
theorem Tracked.exec (hc : Consistent m A) (ht : Tracked w m A) {sqe : Sqe} {res : Int} (hsqe : sqe ∈ m.sqes)
    (hsessions : m'.sessions = m.sessions) (hcompletions : m'.completions.Perm (⟨sqe.userData, res⟩ :: m.completions))
    (hallows : w.Allows (.exec sqe res)) :
    ActsOnGiven i w (.exec sqe res) ∧ Tracked (w.after i (.exec sqe res)) m' A := by
  have hheld : ∀ s, Held m' A s → Held m A s ∧ (m'.session s).socketFd = (m.session s).socketFd := by
    refine fun s hs => ⟨⟨hs.1, fun hclose => hs.2 ?_⟩, by rw [Instance.session, hsessions]; rfl⟩
    unfold CloseExecuted at hclose ⊢
    rw [(hcompletions.map _).mem_iff]
    exact List.mem_cons_of_mem _ hclose
  have harrived : (arrived m').Perm ((Cqe.mk sqe.userData res).brought.toList ++ arrived m) := by
    refine (hcompletions.filterMap _).trans (.of_eq ?_)
    rw [List.filterMap_cons, arrived]
    cases (Cqe.mk sqe.userData res).brought <;> rfl
  cases hc.made sqe hsqe with
  | accept hcode hdata =>
    refine ⟨fun s fd hop => by simp [operation, hcode] at hop, ?_⟩
    simp only [Files.after, hcode]
    split
    · rename_i hres
      rw [Cqe.brought, if_pos ⟨hdata, hres⟩] at harrived
      exact ht.arrive (hallows hcode hres) hheld harrived
    · rename_i hres
      rw [Cqe.brought, if_neg fun h => hres h.2] at harrived
      exact ht.keep hheld ⟨[], harrived.symm⟩ (fun _ _ => ⟨rfl, rfl⟩) rfl
  | session op s hdata hcode =>
    have hs := hc.held_of_sqe hsqe hdata
    have hfd := hc.sqe_fd sqe hsqe op s hdata
    rw [Cqe.brought, if_neg fun h => op.operation_ne_accept (by rw [← h.1, hdata]; rfl)] at harrived
    refine ⟨fun t fd hop => ?_, ?_⟩
    · simp only [operation, hcode, op.opcode_ne_accept, ↓reduceIte, hdata, SlotOp.entry, Option.some.injEq,
        Prod.mk.injEq] at hop
      obtain ⟨rfl, rfl⟩ := hop
      rw [hfd]
      exact (ht.held s hs).2
    · by_cases hclose : op = .close
      · subst hclose
        have hafter : w.after i (.exec sqe res) = w.closeFile sqe.fd := by simp [Files.after, hcode, SlotOp.opcode]
        have hexecuted : CloseExecuted m' s := by
          unfold CloseExecuted
          rw [(hcompletions.map _).mem_iff, ← hdata]
          exact List.mem_cons_self
        rw [hafter]
        refine ht.keep hheld ⟨[], harrived.symm⟩ (fun fd' hfd' => Files.closeFile_of_ne ?_) rfl
        rw [hfd]
        rcases hfd' with hfd' | ⟨t, ht', rfl⟩
        · exact ht.arrived_apart fd' (harrived.mem_iff.1 hfd') s hs
        · rw [(hheld t ht').2]
          intro hsame
          exact ht'.2 (ht.apart t s (hheld t ht').1 hs hsame ▸ hexecuted)
      · have hafter : w.after i (.exec sqe res) = w := by
          rcases op with (_ | _) | _ | _ <;> simp_all [Files.after, SlotOp.opcode]
        rw [hafter]
        exact ht.keep hheld ⟨[], harrived.symm⟩ (fun _ _ => ⟨rfl, rfl⟩) rfl

/-- A step of the kernel. -/
theorem Tracked.kernel (hc : Consistent m A) (ht : Tracked w m A) {acts : List Act} {r : Ring}
    {seen : List (Files × Act)} (h : Ring.KernelStep m.ring acts r)
    (hwatch : Watch Files.Moves (Files.Sees i) w seen w') (hseen : seen.map Prod.snd = acts) :
    Tracked w' { m with ring := r } A ∧ ∀ p ∈ seen, ActsOnGiven i p.1 p.2 := by
  rcases operations_kernel h with ⟨sqe, res, rfl, hsqes, hcompletions⟩ | ⟨hnone, -, hcompletions⟩
  · have hsqe : sqe ∈ m.sqes := hsqes.mem_iff.2 List.mem_cons_self
    exact ht.watch_one [] [] hwatch hseen (by simp)
      fun w ht hallows => ht.exec hc hsqe rfl hcompletions hallows
  · have hunseen : ∀ a ∈ acts, Unseen i a := by
      cases h with
      | exec => exact absurd List.mem_cons_self (hnone _ _)
      | _ => simp
    obtain ⟨ht', hgood⟩ := ht.watch hwatch (hseen ▸ hunseen)
    refine ⟨ht'.keep (fun s hs => ⟨⟨hs.1, fun hclose => hs.2 ?_⟩, rfl⟩) ⟨[], (hcompletions.filterMap _).symm⟩
      (fun _ _ => ⟨rfl, rfl⟩) rfl, hgood⟩
    unfold CloseExecuted at hclose ⊢
    exact (hcompletions.map _).mem_iff.2 hclose

/-- Only the step of a successful accept opens a slot. -/
theorem SmallStep.not_opened (h : SmallStep m k obs m') (hk : k ≠ .accepted) (s : Nat) : .opened ∉ logOf obs s := by
  intro hmem
  obtain ⟨p, hp, hopened⟩ := List.mem_filterMap.1 hmem
  split at hopened
  · rw [Option.some.injEq] at hopened
    cases h with
    | kernel => simp [List.filterMap_map, Function.comp_def, Obs.slot?] at hp
    | accepted => exact hk rfl
    | _ =>
      simp at hp
      try rw [hp] at hopened; cases hopened
  · cases hopened

/-- A step of the program other than the handling of an accept: with the same files behind the descriptors that it
holds afterwards. -/
theorem Tracked.step (hc : Consistent m A) (ht : Tracked w m A) (hk : k ≠ .kernel ∧ k ≠ .accepted)
    (h : SmallStep m k obs m') (hrun : ∀ s, (A s).run (logOf obs s) = some (A' s))
    (hfiles : ∀ fd, Holds m' A' fd → w'.file fd = w.file fd ∧ w'.owned fd = w.owned fd) (hgiven : w'.given = w.given) :
    Tracked w' m' A' :=
  ht.keep (fun s hs => hs.of_step hc.wellFormed hc.indices h hk.1 (hrun s) (h.not_opened hk.2 s))
    (arrived_of_step h hk.1) hfiles hgiven

/-- The other steps of calls that are no detach and no event of a session. -/
theorem SmallStep.unseen (h : SmallStep m k obs m') (hk : k ≠ .kernel ∧ k ≠ .accepted ∧ k ≠ .acceptRollback)
    (hdetach : ∀ session delErr, i ≠ .detach session delErr)
    (hlook : k = .look → ¬ i.IsEvent) :
    ∀ a ∈ obs.filterMap Obs.act?, Unseen i a := by
  have hdel : ∀ epfd fd err, Unseen i (.epollDel epfd fd err) := by
    intro epfd fd err
    cases i with
    | detach session delErr => exact absurd rfl (hdetach session delErr)
    | _ => cases err <;> exact ⟨rfl, fun _ => rfl⟩
  have hadd : ∀ source : EpollSource, source.toNat < 2 ^ 4 → source ≠ epollSourceSession → ∀ epfd fd events err,
      Unseen i (.epollAdd epfd fd (instancePayload m source) events err) := by
    intro source hlt hne epfd fd events err
    refine ⟨rfl, fun w => ?_⟩
    cases err with
    | some err => rfl
    | none => exact if_neg fun hsource => hne ((source_instancePayload m hlt).symm.trans hsource)
  have hserver := hadd epollSourceServerSocket (by decide) (by decide)
  have hring := hadd epollSourceIoUring (by decide) (by decide)
  cases h with
  | kernel => exact absurd rfl hk.1
  | accepted => exact absurd rfl hk.2.1
  | acceptRollback => exact absurd rfl hk.2.2
  | started => simp [hserver, hring]
  | startUndone => simp [hserver, hring, hdel]
  | eventfd hact => rcases hact with rfl | rfl <;> simp
  | @look s _ _ hact =>
    rcases hact with rfl | ⟨err, rfl⟩
    · simp
    · suffices hsock : Unseen i (.getsockopt (m.session s).socketFd err) by simpa using hsock
      cases i with
      | processEvent data epollEvents eventCapacity env => exact absurd ⟨_, _, _, _, rfl⟩ (hlook rfl)
      | _ => exact ⟨rfl, fun _ => rfl⟩
  | _ => simp [hdel]

/-- The handler of an accept takes the descriptor that the accept brought. -/
theorem arrived_accept {cqe : Cqe} {rest : List Cqe} (hcq : m.ring.cq = cqe :: rest)
    (hop : cqe.userData.operation = .accept) (hres : 0 ≤ cqe.res)
    (hcompletions : m'.completions = m.cqeSeen.completions) :
    (arrived m).Perm (cqe.res :: arrived m') := by
  refine ((completions_cqeSeen hcq).filterMap _).trans (.of_eq ?_)
  rw [List.filterMap_cons, Cqe.brought, if_pos ⟨hop, hres⟩, arrived, hcompletions]

/-- A connection is given to a session: its descriptor is now the one of the session. -/
theorem Tracked.given (hc : Consistent m A) (ht : Tracked w m A) {cqe : Cqe} {rest : List Cqe}
    {epfd : Int} {events : UInt32} (hcq : m.ring.cq = cqe :: rest)
    (hop : cqe.userData.operation = .accept) (hres : 0 ≤ cqe.res) (hs : s < m.configuration.sessionCount.toNat)
    (hkept : ∀ t ≠ s, Held m' A' t → Held m A t ∧ (m'.session t).socketFd = (m.session t).socketFd)
    (hnew : (m'.session s).socketFd = cqe.res) (hcompletions : m'.completions = m.cqeSeen.completions) :
    Tracked (w.after i (.epollAdd epfd cqe.res (clientPayload m s) events none)) m' A' := by
  have harrived := arrived_accept hcq hop hres hcompletions
  have hbrought : cqe.res ∈ arrived m := harrived.mem_iff.2 List.mem_cons_self
  have hold : ∀ fd ∈ arrived m', fd ∈ arrived m := fun fd hfd => harrived.mem_iff.2 (List.mem_cons_of_mem _ hfd)
  have hafter : w.after i (.epollAdd epfd cqe.res (clientPayload m s) events none) =
      { w with given := Function.update w.given s (w.file cqe.res) } := by
    obtain ⟨hdecode, hsession⟩ := decode_clientPayload m
      (Nat.lt_trans hs (mconConfigValidate_spec hc.wellFormed.valid).sessionCount_lt)
    simp only [Files.after, hsession]
    rw [if_pos (by rw [hdecode])]
  have hnodup := harrived.nodup_iff.1 ht.arrived_nodup
  rw [List.nodup_cons] at hnodup
  rw [hafter]
  constructor
  · intro t htheld
    by_cases hts : t = s
    · subst hts
      obtain ⟨howned, hfile⟩ := ht.arrived_open _ hbrought
      obtain ⟨connection, hconnection⟩ := Option.isSome_iff_exists.1 hfile
      rw [hnew]
      exact ⟨howned, connection, hconnection, (Function.update_self _ _ _).trans hconnection⟩
    · obtain ⟨hheld, hfd⟩ := hkept t hts htheld
      obtain ⟨howned, connection, hfile, hgiven⟩ := ht.held t hheld
      rw [hfd]
      exact ⟨howned, connection, hfile, (Function.update_of_ne hts _ _).trans hgiven⟩
  · intro t u htheld huheld hfd
    by_cases hts : t = s <;> by_cases hus : u = s
    · rw [hts, hus]
    · rw [hts, hnew, (hkept u hus huheld).2] at hfd
      exact absurd hfd (ht.arrived_apart _ hbrought u (hkept u hus huheld).1)
    · rw [hus, hnew, (hkept t hts htheld).2] at hfd
      exact absurd hfd.symm (ht.arrived_apart _ hbrought t (hkept t hts htheld).1)
    · rw [(hkept t hts htheld).2, (hkept u hus huheld).2] at hfd
      exact ht.apart t u (hkept t hts htheld).1 (hkept u hus huheld).1 hfd
  · exact fun fd hfd => ht.arrived_open fd (hold fd hfd)
  · exact hnodup.2
  · intro fd hfd t htheld
    by_cases hts : t = s
    · rw [hts, hnew]
      rintro rfl
      exact hnodup.1 hfd
    · rw [(hkept t hts htheld).2]
      exact ht.arrived_apart fd (hold fd hfd) t (hkept t hts htheld).1

/-- A step of the program, of a call that is no detach and no event of a session, and what the process sees of it. -/
theorem Tracked.smallStep (hc : Consistent m A) (ht : Tracked w m A) {seen : List (Files × Act)}
    (hdetach : ∀ session delErr, i ≠ .detach session delErr) (hk : k ≠ .detachEnoent)
    (hlook : k = .look → ¬ i.IsEvent)
    (h : SmallStep m k obs m') (hwatch : Watch Files.Moves (Files.Sees i) w seen w')
    (hseen : seen.map Prod.snd = obs.filterMap Obs.act?) :
    ∃ A', Consistent m' A' ∧ Tracked w' m' A' ∧ ∀ p ∈ seen, ActsOnGiven i p.1 p.2 := by
  obtain ⟨A', hc', hrun⟩ := hc.smallStep hk h
  refine ⟨A', hc', ?_⟩
  by_cases hk' : k ≠ .kernel ∧ k ≠ .accepted ∧ k ≠ .acceptRollback
  · obtain ⟨ht', hgood⟩ := ht.watch hwatch (hseen ▸ h.unseen hk' hdetach hlook)
    exact ⟨ht'.step hc ⟨hk'.1, hk'.2.1⟩ h hrun (fun _ _ => ⟨rfl, rfl⟩) rfl, hgood⟩
  have hstep := h
  cases h with
  | @kernel acts r hkernel =>
    have hsame : A' = A := by
      funext s
      have hrun := hrun s
      rw [logOf_acts, Slot.run, Option.some.injEq] at hrun
      exact hrun.symm
    rw [hsame]
    refine ht.kernel hc hkernel hwatch (hseen.trans ?_)
    simp [List.filterMap_map, Function.comp_def, Obs.act?]
  | @accepted cqe rest s stack hcq hop hres hpop =>
    refine ht.watch_one [.stackPop (some s), .sessionsAt s] [.sessionsAt s] hwatch hseen (by simp)
      fun w ht _ => ⟨fun _ _ hop => (by cases hop), ?_⟩
    have hs := hc.indices.lt_of_pop hpop
    refine ht.given hc hcq hop hres hs (fun t hts hheld => ?_) ?_ rfl
    · refine hheld.of_step hc.wellFormed hc.indices hstep (by simp) (hrun t) ?_
      simp [logOf, Ne.symm hts]
    · exact congrArg Session.socketFd (Instance.session_modify_self
        (m := { acceptDone m with sessionFreeStack := stack }) (hc.wellFormed.sessions_length ▸ hs) _)
  | @acceptRollback cqe rest s stack stack' err hcq hop hres hpop hpush =>
    refine ht.watch_one [.stackPop (some s), .sessionsAt s,
      .epollAdd m.epollFd cqe.res (clientPayload m s) (clientEvents m) (some err), .stackPush s true] []
      hwatch hseen (by simp) fun w ht _ => ⟨fun _ _ hop => (by cases hop), ?_⟩
    -- the descriptor is closed again
    have harrived : (arrived m).Perm (cqe.res :: arrived { acceptDone m with sessionFreeStack := stack' }) :=
      arrived_accept hcq hop hres rfl
    have hnodup := harrived.nodup_iff.1 ht.arrived_nodup
    rw [List.nodup_cons] at hnodup
    refine ht.step hc (by simp) hstep hrun (fun fd hfd => Files.closeFile_of_ne ?_) rfl
    rintro rfl
    rcases hfd with hfd | ⟨t, hheld, hfd⟩
    · exact hnodup.1 hfd
    · obtain ⟨hheld, hsame⟩ := hheld.of_step hc.wellFormed hc.indices hstep (by simp) (hrun t)
        (hstep.not_opened (by simp) t)
      exact ht.arrived_apart _ (harrived.mem_iff.2 List.mem_cons_self) t hheld (hfd.trans hsame)
  | _ => exact absurd (by simp) hk'

/-! ### Calls -/

/-- What an instance and its process agree on between two calls. -/
def Agrees (w : Files) (m : Instance C) : Prop := ∃ A, Consistent m A ∧ Tracked w m A

theorem Agrees.calls {seen : List (Files × Act)} (ha : Agrees w m) (hok : DetachesWhole m i)
    (hi : ¬ i.SessionEvent m) (hdetach : ∀ session delErr, i ≠ .detach session delErr)
    (hwatch : Watch Files.Moves (Files.Sees i) w seen w') (hseen : seen.map Prod.snd = (step m i).2.acts) :
    Agrees w' (step m i).1 ∧ ∀ p ∈ seen, ActsOnGiven i p.1 p.2 := by
  obtain ⟨A, hc, -⟩ := id ha
  obtain ⟨obs, hpath, hacts, -⟩ := calls_step_of_not_sessionEvent hc.wellFormed hok hi
  refine hpath.watched Agrees (ActsOnGiven i) ?_ ?_ hwatch (hseen.trans hacts.symm) ha
  · rintro w w' x hmoves ⟨A, hc, ht⟩
    exact ⟨A, hc, ht.moves hmoves⟩
  · rintro x k os x' w seen w' ⟨-, hk, -, hlook⟩ hstep hwatch hseen ⟨A, hc, ht⟩
    obtain ⟨A', hc', ht', hgood⟩ := ht.smallStep hc hdetach hk hlook hstep hwatch hseen
    exact ⟨⟨A', hc', ht'⟩, hgood⟩

/-- An event of a session queries the socket of a connection that was not closed. -/
theorem Agrees.sessionEvent {seen : List (Files × Act)} (ha : Agrees w m) (hok : ¬ QueriesReleased m i)
    (hi : i.SessionEvent m) (hwatch : Watch Files.Moves (Files.Sees i) w seen w')
    (hseen : seen.map Prod.snd = (step m i).2.acts) :
    Agrees w' (step m i).1 ∧ ∀ p ∈ seen, ActsOnGiven i p.1 p.2 := by
  obtain ⟨A, hc, ht⟩ := ha
  obtain ⟨data, epollEvents, eventCapacity, env, rfl, howns, hsource⟩ := hi
  have hcall : step m (.processEvent data epollEvents eventCapacity env) = _ :=
    mconProcessEvent_session howns hsource epollEvents eventCapacity env
  rw [hcall] at hseen ⊢
  by_cases hthrough : LetThrough m epollEvents (mconDecodeEpollEntry data) eventCapacity
  · have hlatched : ∃ A', Consistent (latchHangup m epollEvents (mconDecodeEpollEntry data).session.toNat) A' ∧
        ∀ w, Tracked w m A → Tracked w (latchHangup m epollEvents (mconDecodeEpollEntry data).session.toNat) A' := by
      unfold latchHangup
      split
      · have hstep := SmallStep.rdhup (m := m) hthrough.session_lt
        obtain ⟨A', hc', hrun⟩ := hc.smallStep (by simp) hstep
        exact ⟨A', hc', fun w ht => ht.step hc (by simp) hstep hrun (fun _ _ => ⟨rfl, rfl⟩) rfl⟩
      · exact ⟨A, hc, fun _ ht => ht⟩
    obtain ⟨A', hc', hkeep⟩ := hlatched
    rw [(processSessionEvent_of_letThrough hthrough env.sockopt).1]
    rw [processSessionEvent_acts hthrough] at hseen
    by_cases herr : epollEvents &&& epollerr = 0
    · rw [if_neg (not_not.2 herr)] at hseen
      obtain ⟨ht', hgood⟩ := ht.watch hwatch (by rw [hseen]; simp)
      exact ⟨⟨A', hc', hkeep _ ht'⟩, hgood⟩
    · rw [if_pos herr] at hseen
      have hnot : ¬ (mconSessionIsActive m (mconDecodeEpollEntry data).session.toNat = true →
          CloseExecuted m (mconDecodeEpollEntry data).session.toNat) := by
        intro hreleased
        exact hok ⟨data, epollEvents, eventCapacity, env, rfl, howns, hsource, hthrough, herr, hreleased⟩
      obtain ⟨hactive, hclose⟩ := Classical.not_imp.1 hnot
      have hheld : Held m A (mconDecodeEpollEntry data).session.toNat :=
        ⟨(hc.represents.isActive_iff hthrough.session_lt).1 hactive, hclose⟩
      have hone : ∀ w, Tracked w m A → ActsOnGiven (.processEvent data epollEvents eventCapacity env) w
          (.getsockopt (m.session (mconDecodeEpollEntry data).session.toNat).socketFd env.sockopt.errno) := by
        intro w ht s fd hop
        rw [operation, Option.some.injEq, Prod.mk.injEq] at hop
        obtain ⟨rfl, rfl⟩ := hop
        exact (ht.held _ hheld).2
      obtain ⟨ht', hgood⟩ := ht.watch_one [.sessionsAt (mconDecodeEpollEntry data).session.toNat] []
        hwatch hseen (by simp) fun w ht _ => ⟨hone w ht, ht⟩
      exact ⟨⟨A', hc', hkeep _ ht'⟩, hgood⟩
  · rw [(processSessionEvent_of_not_letThrough hthrough env.sockopt).1]
    have hunseen : ∀ a ∈ seen.map Prod.snd, Unseen (.processEvent data epollEvents eventCapacity env) a := by
      intro a ha
      rw [hseen] at ha
      rw [processSessionEvent_acts_of_not_letThrough hthrough env.sockopt a ha]
      exact unseen_sessionsAt _ _
    obtain ⟨ht', hgood⟩ := ht.watch hwatch hunseen
    exact ⟨⟨A, hc, ht'⟩, hgood⟩

/-- The session of a call that `VALIDATE_ARGS` lets through as it lets a close holds its connection. -/
theorem Consistent.held_of_validateArgs (hc : Consistent m A)
    (hvalid : validateArgs m s SlotOp.close.incompatible = none) : Held m A s := by
  obtain ⟨-, hused, hblock⟩ := hc.represents.of_validateArgs hvalid
  refine ⟨hused, fun hclose => ?_⟩
  have hmem : SlotOp.close.entry s ∈ m.outstanding := by
    rw [outstanding_eq]
    exact List.mem_append_right _ hclose
  have hclosing := Slot.eq_closing_of_pending (hc.represents.pending_of_mem hmem)
  have hfree := hblock .closing (by decide)
  rw [hclosing] at hfree
  cases hfree

/-- A detach acts on the connection of its session, and hands it over. -/
theorem Agrees.detach {seen : List (Files × Act)} {delErr : Option Int} (ha : Agrees w m)
    (hok : DetachesWhole m (.detach s delErr))
    (hwatch : Watch Files.Moves (Files.Sees (.detach s delErr)) w seen w')
    (hseen : seen.map Prod.snd = (step m (.detach s delErr)).2.acts) :
    Agrees w' (step m (.detach s delErr)).1 ∧ ∀ p ∈ seen, ActsOnGiven (.detach s delErr) p.1 p.2 := by
  obtain ⟨A, hc, ht⟩ := ha
  change seen.map Prod.snd = (mconSessionDetach m s delErr).2.acts at hseen
  show Agrees w' (mconSessionDetach m s delErr).1 ∧ _
  have hgood : ∀ w, Tracked w m A → validateArgs m s SlotOp.close.incompatible = none → ∀ err,
      ActsOnGiven (.detach s delErr) w (.epollDel m.epollFd (m.session s).socketFd err) := by
    intro w ht hvalid err t fd hop
    rw [operation, Option.some.injEq, Prod.mk.injEq] at hop
    obtain ⟨rfl, rfl⟩ := hop
    exact (ht.held _ (hc.held_of_validateArgs hvalid)).2
  cases mconSessionDetach_outcome m s delErr with
  | refused err _ hcall =>
    rw [hcall] at hseen ⊢
    have hunseen : ∀ a ∈ validateActs m s, Unseen (.detach s delErr) a := by
      unfold validateActs
      split <;> simp
    obtain ⟨ht', hgood⟩ := ht.watch hwatch (hseen ▸ hunseen)
    exact ⟨⟨A, hc, ht'⟩, hgood⟩
  | noRoom hvalid hpush =>
    obtain ⟨stack, hpush'⟩ := hc.represents.push_isSome hc.wellFormed (hc.held_of_validateArgs hvalid).1
    exact absurd (hpush.symm.trans hpush') (by simp)
  | done stack hvalid hpush hdel hcall =>
    subst hdel
    rw [hcall] at hseen ⊢
    have hheld := hc.held_of_validateArgs hvalid
    have hstep := SmallStep.detached hvalid hpush
    obtain ⟨A', hc', hrun⟩ := hc.smallStep (by simp) hstep
    have hfree : A' s = .free := by
      have hnext : (A s).next .detached = some (A' s) := by simpa [logOf] using hrun s
      exact Slot.free_of_next_release hnext (.inr rfl)
    -- the descriptor that is handed over was the session's alone
    have hother : ∀ w, Tracked w m A → ∀ fd, Holds (detachDone m s stack) A' fd → fd ≠ (m.session s).socketFd := by
      rintro w ht fd (hfd | ⟨t, htheld, rfl⟩)
      · have hsame : arrived (detachDone m s stack) = arrived m := by
          simp [arrived, Instance.completions]
        rw [hsame] at hfd
        exact ht.arrived_apart fd hfd s hheld
      · obtain ⟨htheld', hfd⟩ := htheld.of_step hc.wellFormed hc.indices hstep (by simp) (hrun t)
          (hstep.not_opened (by simp) t)
        rw [hfd]
        intro hsame
        exact htheld.1 (ht.apart t s htheld' hheld hsame ▸ hfree)
    obtain ⟨ht', hall⟩ := ht.watch_one [.sessionsAt s, .stackPush s true] [] hwatch hseen
      (by simp) fun w ht _ => ⟨hgood w ht hvalid none, ht.step hc (by simp) hstep hrun
        (fun fd hfd => ⟨rfl, Function.update_of_ne (hother w ht fd hfd) _ _⟩) rfl⟩
    exact ⟨⟨A', hc', ht'⟩, hall⟩
  | undone stack stack' err hvalid hpush hpop hdel herr hcall =>
    rw [hcall] at hseen ⊢
    have hstep := @SmallStep.detachUndone C m s s stack stack' err hvalid hpush hpop
    obtain ⟨A', hc', hrun⟩ := hc.smallStep (by simp) hstep
    obtain ⟨ht', hall⟩ := ht.watch_one [.sessionsAt s, .stackPush s true] [.stackPop (some s)]
      hwatch hseen (by simp) fun w ht _ => ⟨hgood w ht hvalid (some err), ht.step hc (by simp) hstep hrun
        (fun _ _ => ⟨rfl, rfl⟩) rfl⟩
    exact ⟨⟨A', hc', ht'⟩, hall⟩
  | halfDone stack hvalid hpush hdel =>
    refine absurd ⟨congrArg (Input.detach s) hdel, hvalid, ?_⟩ (hok s)
    rw [C.idxStack.size_eq]
    exact C.idxStack.push_isSome_iff.1 (by rw [hpush]; rfl)

/-! ### Runs -/

theorem newInstance_agrees {config : Config} (hvalid : mconConfigValidate config = true) (instanceId : UInt16)
    (eventfd : Int) : Agrees Files.none (newInstance C instanceId eventfd config) := by
  refine ⟨fun _ => .free, ⟨newInstance_wellFormed hvalid _ _, newInstance_validIndices _ _ _,
    newInstance_represents _ _ _, by simp [newInstance_sqes], by simp [newInstance_sqes]⟩, ?_⟩
  constructor
  · exact fun s hs => absurd rfl hs.1
  · exact fun s t hs => absurd rfl hs.1
  · simp [arrived, newInstance_completions]
  · simp [arrived, newInstance_completions]
  · simp [arrived, newInstance_completions]

/-- Every operation on a socket of a session acts on the connection the session was given, in every run without a
half-done detach and without a query of a socket that was closed. -/
theorem operations_act_on_given_connection {h : List (Input × List (Files × Act))}
    (hr : Observed KeepsToConnections h w m) : OperationsActOnGiven h := by
  suffices hall : Agrees w m ∧ ∀ call ∈ h, ∀ p ∈ call.2, ActsOnGiven call.1 p.1 p.2 from hall.2
  induction hr with
  | created hcreated =>
    obtain ⟨hvalid, instanceId, eventfd, -, rfl⟩ := created_eq hcreated
    exact ⟨newInstance_agrees hvalid instanceId eventfd, by simp⟩
  | @call h w w' m i seen _ hok hwatch hseen ih =>
    obtain ⟨ha, hall⟩ := ih
    have hcall : Agrees w' (step m i).1 ∧ ∀ p ∈ seen, ActsOnGiven i p.1 p.2 := by
      by_cases hi : i.SessionEvent m
      · exact ha.sessionEvent hok.2 hi hwatch hseen
      · by_cases hdetach : ∃ session delErr, i = .detach session delErr
        · obtain ⟨session, delErr, rfl⟩ := hdetach
          exact ha.detach hok.1 hwatch hseen
        · exact ha.calls hok.1 hi (fun session delErr h => hdetach ⟨session, delErr, h⟩) hwatch hseen
    refine ⟨hcall.1, fun call hmem => ?_⟩
    rcases List.mem_append.1 hmem with hmem | hmem
    · exact hall call hmem
    · rw [List.mem_singleton.1 hmem]
      exact hcall.2

/-! ### Runs to evaluate -/

/-- What the process sees of a list of actions when it does nothing itself. -/
def Files.watched (i : Input) : Files → List Act → List (Files × Act)
  | _, [] => []
  | w, a :: acts => (w, a) :: watched i (w.after i a) acts

/-- The descriptors after a list of actions. -/
def Files.afterAll (w : Files) (i : Input) (acts : List Act) : Files := acts.foldl (fun w a => w.after i a) w

/-- What it sees of a list of inputs. -/
def observed (w : Files) (m : Instance C) : List Input → List (Input × List (Files × Act))
  | [] => []
  | i :: is => (i, w.watched i (step m i).2.acts) :: observed (w.afterAll i (step m i).2.acts) (step m i).1 is

/-- The descriptors after a list of inputs. -/
def finalFiles (w : Files) (m : Instance C) : List Input → Files
  | [] => w
  | i :: is => finalFiles (w.afterAll i (step m i).2.acts) (step m i).1 is

instance (w : Files) : DecidablePred w.Allows
  | .exec sqe res => inferInstanceAs (Decidable (sqe.opcode = .accept → 0 ≤ res → w.file res = none))
  | .epollAdd .. | .epollDel .. | .close _ | .getsockopt .. | .ioUringSubmit _ | .eventfdRead | .eventfdWrite
  | .ioQueuePush _ | .stackPush .. | .stackPop _ | .sessionsAt _ | .post _ | .signal | .socketProbe .. => isTrue trivial

theorem watch_watched (i : Input) (w : Files) (acts : List Act)
    (hallows : ∀ p ∈ w.watched i acts, p.1.Allows p.2) :
    Watch Files.Moves (Files.Sees i) w (w.watched i acts) (w.afterAll i acts) ∧
      (w.watched i acts).map Prod.snd = acts := by
  induction acts generalizing w with
  | nil => exact ⟨.nil w, rfl⟩
  | cons a acts ih =>
    rw [Files.watched, List.forall_mem_cons] at hallows
    obtain ⟨hwatch, hacts⟩ := ih _ hallows.2
    exact ⟨.see ⟨hallows.1, rfl⟩ hwatch, congrArg (a :: ·) hacts⟩

/-- A list of inputs gives a run; what the process allows is decided action by action. -/
theorem Observed.of_inputs {ok : Instance C → Input → Prop} {h : List (Input × List (Files × Act))}
    (hr : Observed ok h w m) (is : List Input) (hok : AllOk step ok m is)
    (hallows : ∀ call ∈ observed w m is, ∀ p ∈ call.2, p.1.Allows p.2) :
    Observed ok (h ++ observed w m is) (finalFiles w m is) (finalState step m is) := by
  induction is generalizing h w m with
  | nil =>
    rw [observed, List.append_nil]
    exact hr
  | cons i is ih =>
    rw [observed, List.forall_mem_cons] at hallows
    obtain ⟨hwatch, hacts⟩ := watch_watched i w _ hallows.1
    have hrest := ih (hr.call hok.1 hwatch hacts) hok.2 hallows.2
    rw [List.append_assoc] at hrest
    exact hrest

/-- The inputs with which a connection on the descriptor 20 is closed, and the descriptor is given to the next
connection while the completion of the close is on its way. -/
def releasedInputs : List Input :=
  startInput :: serverInput :: connectInputs 20 ++
    [.close 0, .submit 2, .kernel (.exec 0 0), .kernel (.exec 0 20)]

/-- The descriptor of a closed connection is given out again before the program knows of the close. -/
theorem operations_act_on_given_connection_released :
    OperationsActOnGiven (observed Files.none (freshInstance (smallConfig 2 4 1)) releasedInputs) := by
  have hcreated : Observed KeepsToConnections [] Files.none (freshInstance (smallConfig 2 4 1)) :=
    .created (freshInstance_created (by decide))
  have hok : ∀ i ∈ releasedInputs, ∀ m : Instance listCtools, KeepsToConnections m i := by
    intro i hi m
    refine ⟨fun s hs => ?_, fun hqueries => ?_⟩
    · obtain ⟨rfl, -⟩ := hs
      simp [releasedInputs, connectInputs, completeInputs, startInput, serverInput, ringInput] at hi
    · obtain ⟨data, epollEvents, eventCapacity, env, rfl, -, hsource, -⟩ := hqueries
      simp [releasedInputs, connectInputs, completeInputs, startInput, serverInput, ringInput] at hi
      rcases hi with ⟨rfl, -⟩ | ⟨rfl, -⟩ <;> exact absurd hsource (by decide)
  have hrun := hcreated.of_inputs releasedInputs (.of_forall hok _) (by decide)
  rw [List.nil_append] at hrun
  exact operations_act_on_given_connection hrun

/-- An event of the closed connection that comes late, without a half-done detach: the socket which is queried is the
one of the next connection. -/
theorem released_descriptor_is_queried :
    let inputs := releasedInputs ++ [.processEvent clientData epollerr 8 ⟨.quiet, ⟨none, 0⟩⟩]
    let calls := observed Files.none (freshInstance (smallConfig 2 4 1)) inputs
    Observed DetachesWhole calls (finalFiles Files.none (freshInstance (smallConfig 2 4 1)) inputs)
        (finalState step (freshInstance (smallConfig 2 4 1)) inputs) ∧
      (∃ call ∈ calls, ∃ p ∈ call.2, p.2 = .getsockopt 20 none ∧ operation call.1 p.2 = some (0, 20) ∧
        p.1.given 0 = some 0 ∧ p.1.file 20 = some 1) ∧
      ¬ OperationsActOnGiven calls := by
  intro inputs calls
  have hcreated : Observed DetachesWhole [] Files.none (freshInstance (smallConfig 2 4 1)) :=
    .created (freshInstance_created (by decide))
  have hok : ∀ i ∈ inputs, ∀ m : Instance listCtools, DetachesWhole m i := by
    rintro i hi m s ⟨rfl, -⟩
    simp [inputs, releasedInputs, connectInputs, completeInputs, startInput, serverInput, ringInput] at hi
  have hrun := hcreated.of_inputs inputs (.of_forall hok _) (by decide)
  rw [List.nil_append] at hrun
  have hqueried : ∃ call ∈ calls, ∃ p ∈ call.2, p.2 = .getsockopt 20 none ∧ operation call.1 p.2 = some (0, 20) ∧
      p.1.given 0 = some 0 ∧ p.1.file 20 = some 1 := by decide
  refine ⟨hrun, hqueried, fun hall => ?_⟩
  obtain ⟨call, hcall, p, hp, -, hop, hgiven, hfile⟩ := hqueried
  obtain ⟨connection, hconnection, hsame⟩ := hall call hcall p hp 0 20 hop
  rw [hfile, Option.some.injEq] at hconnection
  rw [hgiven, ← hconnection] at hsame
  cases hsame

end Mcon
