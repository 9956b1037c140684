import Mcon.Library.Holdings
import Mcon.Payloads

/-!
# What an instance holds of the system (`mcon_create`, `mcon_destroy`)

The resources that `mcon_create` acquires one after another and gives back when one cannot be had, and those that
`mcon_destroy` gives back.  A process creates, uses and destroys any number of instances; it never gives back what it
does not hold, and what is left of an instance that was destroyed is the memory of its `struct mcon`.
-/

namespace Mcon

open Holdings
open Transition (Run history finalState)

variable {C : Ctools}

/-! ### Creation and destruction -/

inductive Resource
  | ring (address : Nat)
  | eventfd (fd : Int)
  | ioQueue (address : Nat)
  | sessions (address : Nat)
  | freeStack (address : Nat)
  | mcon (address : Nat)
  deriving DecidableEq, Repr

/-- The memory that one creation is given. -/
structure Addresses where
  ring : Nat
  ioQueue : Nat
  sessions : Nat
  freeStack : Nat
  mcon : Nat
  deriving DecidableEq, Repr

section Labels

variable (env : CreateEnv) (a : Addresses)

/-- The label `error_io_uring`, from which on nothing is left to give back. -/
def errorIoUring : List (Move Resource) := []

/-- The label `error_io_uring_event_fd`; each label falls through to the one before. -/
def errorIoUringEventFd : List (Move Resource) := .release (.ring a.ring) :: errorIoUring

/-- The label `allocate_io_queue`. -/
def allocateIoQueue : List (Move Resource) := .release (.eventfd env.eventfd) :: errorIoUringEventFd a

/-- The label `allocate_sessions`. -/
def allocateSessions : List (Move Resource) := .release (.ioQueue a.ioQueue) :: allocateIoQueue env a

/-- The label `allocate_session_free_stack`. -/
def allocateSessionFreeStack : List (Move Resource) := .release (.sessions a.sessions) :: allocateSessions env a

/-- The label `allocate_mcon_instance`. -/
def allocateMconInstance : List (Move Resource) :=
  .release (.freeStack a.freeStack) :: allocateSessionFreeStack env a

end Labels

/-- What `mcon_create` acquires and gives back. -/
def createMoves (config : Config) (env : CreateEnv) (a : Addresses) : List (Move Resource) :=
  if !mconConfigValidate config then []
  else if env.ringInit ≠ 0 then errorIoUring
  else .acquire (.ring a.ring) ::
    if env.eventfd = -1 then errorIoUringEventFd a
    else .acquire (.eventfd env.eventfd) ::
      if !env.ioQueueOk then allocateIoQueue env a
      else .acquire (.ioQueue a.ioQueue) ::
        if !env.sessionsOk then allocateSessions env a
        else .acquire (.sessions a.sessions) ::
          if !env.freeStackOk then allocateSessionFreeStack env a
          else .acquire (.freeStack a.freeStack) ::
            if !env.mconOk then allocateMconInstance env a else [.acquire (.mcon a.mcon)]

/-- What `mcon_destroy` gives back. -/
def mconDestroy (m : Instance C) (a : Addresses) : List (Move Resource) :=
  [.release (.freeStack a.freeStack), .release (.sessions a.sessions), .release (.ioQueue a.ioQueue),
    .release (.eventfd m.ioUringEventfd), .release (.ring a.ring)]

/-- What `mcon_destroy` is there for, in the order in which it was acquired. -/
def parts (eventfd : Int) (a : Addresses) : List Resource :=
  [.ring a.ring, .eventfd eventfd, .ioQueue a.ioQueue, .sessions a.sessions, .freeStack a.freeStack]

/-- All that belongs to an instance. -/
def instanceResources (p : Instance C × Addresses) : List Resource :=
  parts p.1.ioUringEventfd p.2 ++ [.mcon p.2.mcon]

theorem mconDestroy_eq (m : Instance C) (a : Addresses) :
    mconDestroy m a = (parts m.ioUringEventfd a).reverse.map .release := rfl

/-- A creation that fails unwinds what it had acquired; one that succeeds has acquired all that belongs to the
instance. -/
theorem createMoves_spec (counter : UInt16) (config : Config) (env : CreateEnv) (a : Addresses) :
    (∃ err, ∃ rs : List Resource, mconCreate C counter config env = (.error err, counter) ∧
      createMoves config env a = rs.map .acquire ++ rs.reverse.map .release) ∨
      ∃ m counter', mconCreate C counter config env = (.ok m, counter') ∧
        createMoves config env a = (instanceResources (m, a)).map .acquire := by
  unfold mconCreate createMoves
  by_cases hvalid : (!mconConfigValidate config) = true
  · exact .inl ⟨_, [], if_pos hvalid, if_pos hvalid⟩
  rw [if_neg hvalid, if_neg hvalid]
  by_cases hring : env.ringInit ≠ 0
  · exact .inl ⟨_, [], if_pos hring, if_pos hring⟩
  rw [if_neg hring, if_neg hring]
  by_cases hfd : env.eventfd = -1
  · rw [if_pos hfd, if_pos hfd]
    exact .inl ⟨_, [.ring a.ring], rfl, rfl⟩
  rw [if_neg hfd, if_neg hfd]
  by_cases hqueue : (!env.ioQueueOk) = true
  · rw [if_pos hqueue, if_pos hqueue]
    exact .inl ⟨_, [.ring a.ring, .eventfd env.eventfd], rfl, rfl⟩
  rw [if_neg hqueue, if_neg hqueue]
  by_cases hsessions : (!env.sessionsOk) = true
  · rw [if_pos hsessions, if_pos hsessions]
    exact .inl ⟨_, [.ring a.ring, .eventfd env.eventfd, .ioQueue a.ioQueue], rfl, rfl⟩
  rw [if_neg hsessions, if_neg hsessions]
  by_cases hstack : (!env.freeStackOk) = true
  · rw [if_pos hstack, if_pos hstack]
    exact .inl ⟨_, [.ring a.ring, .eventfd env.eventfd, .ioQueue a.ioQueue, .sessions a.sessions], rfl, rfl⟩
  rw [if_neg hstack, if_neg hstack]
  by_cases hmcon : (!env.mconOk) = true
  · rw [if_pos hmcon, if_pos hmcon]
    exact .inl ⟨_, parts env.eventfd a, rfl, rfl⟩
  rw [if_neg hmcon, if_neg hmcon]
  exact .inr ⟨_, _, rfl, rfl⟩

/-! ### A process -/

/-- The static counter, and the instances that were created and not destroyed. -/
structure Process (C : Ctools) where
  counter : UInt16
  live : List (Instance C × Addresses)

inductive ProcessInput
  | create (config : Config) (env : CreateEnv) (a : Addresses)
  /-- A call or a step of the kernel on the instance at this place. -/
  | use (j : Nat) (i : Input)
  | destroy (j : Nat)

def processStep (p : Process C) : ProcessInput → Process C × List (Move Resource)
  | .create config env a =>
    match mconCreate C p.counter config env with
    | (.error _, counter) => ({ p with counter := counter }, createMoves config env a)
    | (.ok m, counter) => (⟨counter, p.live ++ [(m, a)]⟩, createMoves config env a)
  | .use j i => ({ p with live := p.live.modify j fun x => ((step x.1 i).1, x.2) }, [])
  | .destroy j =>
    match p.live[j]? with
    | none => (p, [])
    | some x => ({ p with live := p.live.eraseIdx j }, mconDestroy x.1 x.2)

/-- The number of instances that were destroyed. -/
def destroyedIn (h : List (ProcessInput × List (Move Resource))) : Nat :=
  h.countP fun
    | (.destroy _, _ :: _) => true
    | _ => false

/-- The resources of the instances of a process. -/
def Process.resources (p : Process C) : Multiset Resource := (p.live.flatMap instanceResources : List Resource)

/-- Only the memory of the `struct mcon` is left over. -/
def OnlyStructs (left : Multiset Resource) : Prop := ∀ r ∈ left, ∃ address, r = .mcon address

/-- The instances of a process are well formed, and it holds what belongs to them and the structs of the instances that
were destroyed. -/
structure Process.Holds (p : Process C) (held left : Multiset Resource) : Prop where
  wellFormed : ∀ x ∈ p.live, WellFormed x.1
  held_eq : held = p.resources + left
  left_structs : OnlyStructs left

namespace Process.Holds

variable {p : Process C} {held left : Multiset Resource}

/-- A creation that fails changes nothing. -/
theorem created (hp : p.Holds held left) (config : Config) (env : CreateEnv) (a : Addresses) :
    ∃ held', after held (processStep p (.create config env a)).2 = some held' ∧
      (processStep p (.create config env a)).1.Holds held' left := by
  rcases createMoves_spec (C := C) p.counter config env a with ⟨err, rs, hfail, hmoves⟩ | ⟨m, counter', hok, hmoves⟩
  · rw [processStep, hfail]
    dsimp only
    rw [hmoves]
    exact ⟨held, after_unwind held rs, hp⟩
  · have hcreated : Created config m := ⟨p.counter, env, by rw [hok]⟩
    obtain ⟨hvalid, instanceId, eventfd, -, hm⟩ := created_eq hcreated
    rw [processStep, hok]
    dsimp only
    rw [hmoves]
    refine ⟨_, after_acquires held _, fun x hx => ?_, ?_, hp.left_structs⟩
    · rcases List.mem_append.1 hx with hx | hx
      · exact hp.wellFormed x hx
      · obtain rfl := List.mem_singleton.1 hx
        exact hm ▸ newInstance_wellFormed hvalid instanceId eventfd
    · rw [hp.held_eq, Process.resources, Process.resources, List.flatMap_append, List.flatMap_singleton,
        ← Multiset.coe_add, ← Multiset.add_assoc, Multiset.add_comm (instanceResources (m, a) : Multiset Resource)]

/-- An instance keeps its resources while it is used. -/
theorem used (hp : p.Holds held left) (j : Nat) (i : Input) : (processStep p (.use j i)).1.Holds held left := by
  have hkept : ∀ (l : List (Instance C × Addresses)) (j : Nat), (∀ x ∈ l, WellFormed x.1) →
      (∀ x ∈ l.modify j fun x => ((step x.1 i).1, x.2), WellFormed x.1) ∧
        (l.modify j fun x => ((step x.1 i).1, x.2)).flatMap instanceResources = l.flatMap instanceResources := by
    intro l j hl
    induction l generalizing j with
    | nil => simp
    | cons x l ih =>
      have hx := hl x List.mem_cons_self
      have hrest : ∀ y ∈ l, WellFormed y.1 := fun y hy => hl y (List.mem_cons_of_mem _ hy)
      cases j with
      | zero =>
        have hcalls := calls_step x.1 hx.cq_entries i
        refine ⟨fun y hy => ?_, ?_⟩
        · rcases List.mem_cons.1 hy with rfl | hy
          · exact hcalls.wellFormed hx
          · exact hrest y hy
        · show parts (step x.1 i).1.ioUringEventfd x.2 ++ _ ++ _ = parts x.1.ioUringEventfd x.2 ++ _ ++ _
          rw [hcalls.frame.eventfd]
      | succ j =>
        obtain ⟨hwell, hsame⟩ := ih j hrest
        refine ⟨fun y hy => ?_, ?_⟩
        · rcases List.mem_cons.1 hy with rfl | hy
          · exact hx
          · exact hwell y hy
        · rw [List.modify_succ_cons, List.flatMap_cons, List.flatMap_cons, hsame]
  obtain ⟨hwell, hsame⟩ := hkept p.live j hp.wellFormed
  exact ⟨hwell, hp.held_eq.trans (by rw [Process.resources, Process.resources, processStep, hsame]), hp.left_structs⟩

/-- An instance that is destroyed gives back all but its struct. -/
theorem destroyed (hp : p.Holds held left) {j : Nat} {x : Instance C × Addresses} (hx : p.live[j]? = some x) :
    ∃ held', after held (mconDestroy x.1 x.2) = some held' ∧
      Process.Holds ⟨p.counter, p.live.eraseIdx j⟩ held' (.mcon x.2.mcon ::ₘ left) := by
  obtain ⟨hj, rfl⟩ := List.getElem?_eq_some_iff.1 hx
  have hperm := (List.getElem_cons_eraseIdx_perm hj).flatMap_right instanceResources
  generalize p.live[j] = x at hx hperm ⊢
  rw [List.flatMap_cons, instanceResources, List.append_assoc] at hperm
  have hheld : held = (parts x.1.ioUringEventfd x.2 : List Resource) +
      (((p.live.eraseIdx j).flatMap instanceResources : List Resource) + .mcon x.2.mcon ::ₘ left) := by
    rw [hp.held_eq, Process.resources, ← Multiset.coe_eq_coe.2 hperm, ← Multiset.coe_add, List.singleton_append,
      ← Multiset.cons_coe, Multiset.add_assoc, Multiset.cons_add, Multiset.add_cons, Multiset.add_cons,
      Multiset.add_cons]
  refine ⟨((p.live.eraseIdx j).flatMap instanceResources : List Resource) + .mcon x.2.mcon ::ₘ left, ?_, ?_, rfl, ?_⟩
  · rw [hheld, mconDestroy_eq, ← Multiset.coe_reverse]
    exact after_releases _ _
  · exact fun y hy => hp.wellFormed y (List.mem_of_mem_eraseIdx hy)
  · intro r hr
    rcases Multiset.mem_cons.1 hr with rfl | hr
    · exact ⟨_, rfl⟩
    · exact hp.left_structs r hr

/-- One step of the process, with what it leaves over. -/
theorem step (hp : p.Holds held left) (i : ProcessInput) :
    ∃ held' left', after held (processStep p i).2 = some held' ∧ (processStep p i).1.Holds held' left' ∧
      left'.card = left.card + destroyedIn [(i, (processStep p i).2)] := by
  cases i with
  | create config env a =>
    obtain ⟨held', hafter, hp'⟩ := hp.created config env a
    exact ⟨held', left, hafter, hp', rfl⟩
  | use j i => exact ⟨held, left, rfl, hp.used j i, rfl⟩
  | destroy j =>
    cases hx : p.live[j]? with
    | none =>
      rw [processStep, hx]
      exact ⟨held, left, rfl, hp, rfl⟩
    | some x =>
      obtain ⟨held', hafter, hp'⟩ := hp.destroyed hx
      rw [processStep, hx]
      exact ⟨held', _, hafter, hp', Multiset.card_cons _ _⟩

end Process.Holds

end Mcon
