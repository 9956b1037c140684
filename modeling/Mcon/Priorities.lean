import Mcon.IoQueue
import Mcon.Library.Priorities

/-!
# The order of submission

`io_queue_pop_into_ring` moves the queued entries in the order of their operations, and entries of one operation in
the order in which they were pushed: what it appends to the SQ ring is the beginning of the queued entries sorted
stably by priority.
-/

namespace Mcon

variable {C : Ctools}

/-- The operations in the order in which they are submitted. -/
def submissionOrder : List IoUringOperation := [.close, .drain, .write, .read, .accept]

def Sqe.priority (sqe : Sqe) : Nat := submissionOrder.idxOf sqe.userData.operation

/-- The queued entries in the order in which they are submitted. -/
def sortByPriority (entries : List Sqe) : List Sqe := Containers.sortByKey Sqe.priority entries

/-- `Queued ioq entries`: after calls of `io_queue_push` and `io_queue_pop_into_ring` on a new queue, `entries` are
those pushed and not moved to a ring, in the order in which they were pushed. -/
inductive Queued : C.kqueue.Carrier → List Sqe → Prop
  | created (maxIoOperationsInFlight : Nat) : Queued (ioQueueCreate C maxIoOperationsInFlight) []
  | pushed {ioq ioq' : C.kqueue.Carrier} {entries : List Sqe} {entry : Sqe} : Queued ioq entries →
      ioQueuePush ioq entry = .ok ioq' → Queued ioq' (entries ++ [entry])
  | popped {ioq : C.kqueue.Carrier} {entries moved : List Sqe} {ring : Ring} {count : Nat} : Queued ioq entries →
      (ioQueuePopIntoRing ioq ring count).2.2.sq = ring.sq ++ moved →
      Queued (ioQueuePopIntoRing ioq ring count).2.1 (entries.diff moved)

theorem priority_eq {entry : Sqe} {priority : Nat} (h : ioQueuePriority entry.userData.operation = some priority) :
    entry.priority = priority := by
  unfold Sqe.priority
  cases hop : entry.userData.operation <;> rw [hop] at h <;> cases h <;> rfl

/-! ### The queue as five groups -/

/-- Moving entries takes each from its group. -/
theorem PopsN.holds {n : Nat} {x y : C.kqueue.Carrier × Ring} (h : PopsN n x y) {entries : List Sqe}
    (hx : C.kqueue.Holds Sqe.priority x.1 entries) :
    ∃ moved, y.2 = { x.2 with sq := x.2.sq ++ moved } ∧ C.kqueue.Holds Sqe.priority y.1 (entries.diff moved) := by
  induction h generalizing entries with
  | zero => exact ⟨[], by simp, hx⟩
  | succ h1 _ ih =>
    obtain @⟨_, _, _, _, sqe, hpop, -⟩ := h1
    obtain ⟨moved, hring, hy⟩ := ih (hx.pop hpop)
    exact ⟨sqe :: moved, by simp [hring], by rwa [List.diff_cons]⟩

theorem Queued.holds {ioq : C.kqueue.Carrier} {entries : List Sqe} (h : Queued ioq entries) :
    C.kqueue.Holds Sqe.priority ioq entries ∧ C.kqueue.groups ioq = ioQueuePriorityGroupCount := by
  induction h with
  | created n => exact ⟨Containers.GroupQueue.holds_create _ _, C.kqueue.groups_create _ _⟩
  | pushed _ hpush ih =>
    obtain ⟨hholds, hgroups⟩ := ih
    obtain ⟨priority, hpriority, hpush⟩ := ioQueuePush_ok hpush
    obtain rfl := priority_eq hpriority
    exact ⟨hholds.push hpush, (C.kqueue.groups_push _ _ _ _ hpush).trans hgroups⟩
  | @popped ioq entries moved ring count _ hmoved ih =>
    obtain ⟨hholds, hgroups⟩ := ih
    obtain ⟨-, hpops⟩ := ioQueuePopIntoRing_spec ioq ring count hgroups
    obtain ⟨moved', hring, hholds'⟩ := hpops.holds hholds
    have heq : moved' = moved := by
      rw [hring] at hmoved
      exact List.append_cancel_left hmoved
    exact ⟨heq ▸ hholds', hpops.groups_eq.trans hgroups⟩

/-! ### The order in which the loops move the entries -/

/-- The loop over one group, when the groups before it are empty, moves the first entries. -/
theorem popGroup_inOrder {group left left' : Nat} {ioq ioq' : C.kqueue.Carrier} {ring ring' : Ring}
    (hlow : ∀ g < group, C.kqueue.group ioq g = [])
    (h : popGroup group left ioq ring = some (left', ioq', ring')) :
    ∃ moved, ring'.sq = ring.sq ++ moved ∧ C.kqueue.contents ioq = moved ++ C.kqueue.contents ioq' ∧
      (left' = 0 ∨ ∀ g < group + 1, C.kqueue.group ioq' g = []) := by
  induction left generalizing ioq ring with
  | zero =>
    cases h
    exact ⟨[], by simp, rfl, .inl rfl⟩
  | succ left ih =>
    rw [popGroup] at h
    cases hpop : C.kqueue.pop ioq group with
    | none =>
      have hnil := (C.kqueue.pop_eq_none ioq group).1 hpop
      rw [hpop] at h
      cases h
      refine ⟨[], by simp, rfl, .inr fun g hg => ?_⟩
      rcases Nat.lt_succ_iff_lt_or_eq.1 hg with hlt | rfl
      · exact hlow g hlt
      · exact hnil
    | some p =>
      obtain ⟨sqe, ioq₁⟩ := p
      have hlow₁ : ∀ g < group, C.kqueue.group ioq₁ g = [] := by
        intro g hg
        rw [C.kqueue.group_pop_ne _ _ _ _ hpop g (Nat.ne_of_lt hg), hlow g hg]
      simp only [hpop, Ring.ioUringGetSqe] at h
      by_cases hroom : ring.sq.length < ring.sqEntries
      · rw [if_pos hroom] at h
        obtain ⟨moved, hsq, hcontents, hend⟩ := ih hlow₁ h
        refine ⟨sqe :: moved, ?_, ?_, hend⟩
        · rw [hsq, List.append_assoc, List.singleton_append]
        · rw [Containers.GroupQueue.contents_pop_first hlow hpop, hcontents, List.cons_append]
      · rw [if_neg hroom] at h
        cases h

theorem popGroups_zero (groups : List Nat) (ioq : C.kqueue.Carrier) (ring : Ring) :
    popGroups groups 0 ioq ring = some (0, ioq, ring) := by
  induction groups with
  | nil => rfl
  | cons group groups ih =>
    rw [popGroups, popGroup]
    exact ih

/-- The loop over the groups moves the first entries. -/
theorem popGroups_inOrder {start n left left' : Nat} {ioq ioq' : C.kqueue.Carrier} {ring ring' : Ring}
    (hlow : ∀ g < start, C.kqueue.group ioq g = [])
    (h : popGroups (List.range' start n) left ioq ring = some (left', ioq', ring')) :
    ∃ moved, ring'.sq = ring.sq ++ moved ∧ C.kqueue.contents ioq = moved ++ C.kqueue.contents ioq' := by
  induction n generalizing start left ioq ring with
  | zero =>
    cases h
    exact ⟨[], by simp, rfl⟩
  | succ n ih =>
    rw [List.range'_succ, popGroups] at h
    cases hgroup : popGroup start left ioq ring with
    | none =>
      rw [hgroup] at h
      cases h
    | some p =>
      obtain ⟨left₁, ioq₁, ring₁⟩ := p
      rw [hgroup] at h
      obtain ⟨moved, hsq, hcontents, hend⟩ := popGroup_inOrder hlow hgroup
      rcases hend with rfl | hlow₁
      · dsimp only at h
        rw [popGroups_zero] at h
        cases h
        exact ⟨moved, hsq, hcontents⟩
      · obtain ⟨moved', hsq', hcontents'⟩ := ih hlow₁ h
        exact ⟨moved ++ moved', by rw [hsq', hsq, List.append_assoc], by rw [hcontents, hcontents', List.append_assoc]⟩

/-! ### The call -/

/-- What is moved stands before what is left, in the order of submission. -/
theorem ioQueuePopIntoRing_inOrder (ioq : C.kqueue.Carrier) (ring : Ring) (count : Nat) :
    ∃ moved, (ioQueuePopIntoRing ioq ring count).2.2.sq = ring.sq ++ moved ∧
      C.kqueue.contents ioq = moved ++ C.kqueue.contents (ioQueuePopIntoRing ioq ring count).2.1 := by
  obtain ⟨⟨left', ioq', ring'⟩, heq⟩ := Option.isSome_iff_exists.1 (popGroups_isSome ioq ring count)
  have hout : ioQueuePopIntoRing ioq ring count = (popLimit ioq ring count - left', ioq', ring') := by
    simp only [ioQueuePopIntoRing, heq, Option.get_some]
  rw [hout]
  rw [List.range_eq_range'] at heq
  exact popGroups_inOrder (by simp) heq

/-- In every queue that calls of `io_queue_push` and `io_queue_pop_into_ring` lead to, `io_queue_pop_into_ring` never
finds the SQ ring full; it moves the first entries in the order of submission, as many as the count, the room in the
ring and the queue allow, and leaves the others in their order. -/
theorem pop_into_ring_moves_by_priority {ioq : C.kqueue.Carrier} {entries : List Sqe} (h : Queued ioq entries)
    (ring : Ring) (count : Nat) :
    let n := min count (min ring.ioUringSqSpaceLeft (C.kqueue.size ioq))
    let moved := (sortByPriority entries).take n
    let out := ioQueuePopIntoRing ioq ring count
    (popGroups (List.range ioQueuePriorityGroupCount) (popLimit ioq ring count) ioq ring).isSome ∧
      C.kqueue.size ioq = entries.length ∧ out.1 = n ∧ moved.length = n ∧
      out.2.2 = { ring with sq := ring.sq ++ moved } ∧
      C.kqueue.Holds Sqe.priority out.2.1 (entries.diff moved) ∧ (entries.diff moved).Sublist entries ∧
      (moved ++ entries.diff moved).Perm entries := by
  intro n moved out
  obtain ⟨hholds, hgroups⟩ := h.holds
  obtain ⟨hcount, hpops⟩ := ioQueuePopIntoRing_spec ioq ring count hgroups
  obtain ⟨moved₁, hlen, hring₁⟩ := hpops.ring_eq
  obtain ⟨moved₂, hring₂, hholds₂⟩ := hpops.holds hholds
  obtain ⟨moved₃, hsq₃, hcontents⟩ := ioQueuePopIntoRing_inOrder ioq ring count
  obtain rfl : moved₁ = moved₃ := by
    rw [hring₁] at hsq₃
    exact List.append_cancel_left hsq₃
  obtain rfl : moved₁ = moved₂ := by
    rw [hring₂] at hsq₃
    exact (List.append_cancel_left hsq₃).symm
  have hsorted : sortByPriority entries = moved₁ ++ C.kqueue.contents out.2.1 := hholds.contents_eq.symm.trans hcontents
  have hmoved : moved = moved₁ := by
    show (sortByPriority entries).take n = moved₁
    rw [hsorted]
    exact List.take_left' hlen
  rw [hmoved]
  refine ⟨popGroups_isSome ioq ring count, hholds.size_eq, hcount, hlen, hring₁, hholds₂, List.diff_sublist _ _, ?_⟩
  have hrest : (entries.diff moved₁).Perm (C.kqueue.contents out.2.1) := by
    rw [hholds₂.contents_eq]
    exact (Containers.sortByKey_perm _ _).symm
  refine (hrest.append_left moved₁).trans ?_
  rw [← hsorted]
  exact Containers.sortByKey_perm _ _

def acceptEntry : Sqe := ioUringPrepAccept 5 0 ⟨.accept, mconNoSession⟩

def readEntry (session : Nat) : Sqe := ioUringPrepRead 20 (.user 0) 16 0 ⟨.read, session⟩

def closeEntry (session : Nat) : Sqe := ioUringPrepClose 21 ⟨.close, session⟩

/-- A queue with room for 8 entries after the entries were pushed. -/
def queueOf (entries : List Sqe) : listCtools.kqueue.Carrier :=
  entries.foldl (fun ioq entry => match ioQueuePush ioq entry with | .ok ioq' => ioq' | .error _ => ioq)
    (ioQueueCreate listCtools 8)

/-- Two of four entries are moved: the close, which was pushed last but one, and the first of the reads. -/
theorem pop_into_ring_moves_by_priority_two :
    (sortByPriority [acceptEntry, readEntry 0, closeEntry 1, readEntry 2]).take 2 = [closeEntry 1, readEntry 0] ∧
      (ioQueuePopIntoRing (queueOf [acceptEntry, readEntry 0, closeEntry 1, readEntry 2])
          (ioUringQueueInit 4) 2).2.2.sq =
        [closeEntry 1, readEntry 0] := by
  have h0 : Queued (queueOf []) [] := .created 8
  have h1 : Queued (queueOf [acceptEntry]) [acceptEntry] := h0.pushed rfl
  have h2 : Queued (queueOf [acceptEntry, readEntry 0]) [acceptEntry, readEntry 0] := h1.pushed rfl
  have h3 : Queued (queueOf [acceptEntry, readEntry 0, closeEntry 1]) [acceptEntry, readEntry 0, closeEntry 1] :=
    h2.pushed rfl
  have h4 : Queued (queueOf [acceptEntry, readEntry 0, closeEntry 1, readEntry 2])
      [acceptEntry, readEntry 0, closeEntry 1, readEntry 2] := h3.pushed rfl
  have hmoved := (pop_into_ring_moves_by_priority h4 (ioUringQueueInit 4) 2).2.2.2.2.1
  have hsq : (ioQueuePopIntoRing (queueOf [acceptEntry, readEntry 0, closeEntry 1, readEntry 2])
      (ioUringQueueInit 4) 2).2.2.sq = [closeEntry 1, readEntry 0] := by decide
  refine ⟨?_, hsq⟩
  rw [hmoved] at hsq
  exact hsq

end Mcon
