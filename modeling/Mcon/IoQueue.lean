import Mcon.IoUring
import Mcon.Library.Containers

/-!
# The io_queue (`io_queue.c`)

A prioritized queue of submissions above the SQ ring.  The two containers of the ctools library which mcon builds
on, the index stack and the grouped queue, are not part of the repository; `Ctools` is an arbitrary pair of them,
of which only the laws of a bounded LIFO stack and of a bounded queue of FIFO groups are known.
-/

namespace Mcon

open Containers (BoundedStack GroupQueue)

/-- The containers `idx_stack` and `kqueue`. -/
structure Ctools where
  idxStack : BoundedStack Nat
  kqueue : GroupQueue Sqe

/-- Lists in place of the containers. -/
def listCtools : Ctools := ⟨Containers.listStack Nat, Containers.listQueue Sqe⟩

/-- `BLACKHOLE_IO_QUEUE_PRIORITY_GROUP_COUNT`. -/
def ioQueuePriorityGroupCount : Nat := 5

variable {C : Ctools}

def ioQueueCreate (C : Ctools) (maxIoOperationsInFlight : Nat) : C.kqueue.Carrier :=
  C.kqueue.create maxIoOperationsInFlight ioQueuePriorityGroupCount

/-- The `switch` of `io_queue_push`. -/
def ioQueuePriority : IoUringOperation → Option Nat
  | .close => some 0
  | .drain => some 1
  | .write => some 2
  | .read => some 3
  | .accept => some 4
  | .unknown => none

/-- `io_queue_push`; the error is the errno it sets, if it sets one itself. -/
def ioQueuePush (ioq : C.kqueue.Carrier) (entry : Sqe) : Except (Option Int) C.kqueue.Carrier :=
  match ioQueuePriority entry.userData.operation with
  | none => .error (some Errno.einval)
  | some priority =>
    match C.kqueue.push ioq priority entry with
    | none => .error none
    | some ioq' => .ok ioq'

/-- A successful `io_queue_push` is a push into the group of the operation. -/
theorem ioQueuePush_ok {ioq ioq' : C.kqueue.Carrier} {entry : Sqe} (h : ioQueuePush ioq entry = .ok ioq') :
    ∃ priority, ioQueuePriority entry.userData.operation = some priority ∧
      C.kqueue.push ioq priority entry = some ioq' := by
  unfold ioQueuePush at h
  split at h
  · cases h
  · rename_i priority hpriority
    split at h
    · cases h
    · rename_i hpush
      cases h
      exact ⟨priority, hpriority, hpush⟩

/-! ### Moving entries into the SQ ring -/

/-- The inner `while` loop for one priority group, with `left = limit - enqueued` entries to go; it returns what
is left to go when it ends.  The result `none` is a failed `assert(sqe_dst != NULL)`. -/
def popGroup (priorityGroup : Nat) :
    Nat → C.kqueue.Carrier → Ring → Option (Nat × C.kqueue.Carrier × Ring)
  | 0, ioq, ring => some (0, ioq, ring)
  | left + 1, ioq, ring =>
    match C.kqueue.pop ioq priorityGroup with
    | none => some (left + 1, ioq, ring)
    | some (sqe, ioq') =>
      match ring.ioUringGetSqe sqe with
      | none => none
      | some ring' => popGroup priorityGroup left ioq' ring'

/-- The outer `for` loop. -/
def popGroups : List Nat → Nat → C.kqueue.Carrier → Ring → Option (Nat × C.kqueue.Carrier × Ring)
  | [], left, ioq, ring => some (left, ioq, ring)
  | group :: groups, left, ioq, ring =>
    match popGroup group left ioq ring with
    | none => none
    | some (left', ioq', ring') => popGroups groups left' ioq' ring'

/-- `limit` in `io_queue_pop_into_ring`. -/
def popLimit (ioq : C.kqueue.Carrier) (ring : Ring) (count : Nat) : Nat :=
  min count (min ring.ioUringSqSpaceLeft (C.kqueue.size ioq))

/-- One entry moves from a group of the queue to the end of the SQ ring. -/
inductive PopOne : C.kqueue.Carrier × Ring → C.kqueue.Carrier × Ring → Prop
  | intro {ioq ioq' : C.kqueue.Carrier} {ring : Ring} {group : Nat} {sqe : Sqe} :
      C.kqueue.pop ioq group = some (sqe, ioq') → ring.sq.length < ring.sqEntries →
      PopOne (ioq, ring) (ioq', { ring with sq := ring.sq ++ [sqe] })

/-- `PopsN n x y`: `n` entries move. -/
inductive PopsN : Nat → C.kqueue.Carrier × Ring → C.kqueue.Carrier × Ring → Prop
  | zero (x : C.kqueue.Carrier × Ring) : PopsN 0 x x
  | succ {n : Nat} {x y z : C.kqueue.Carrier × Ring} : PopOne x y → PopsN n y z → PopsN (n + 1) x z

theorem PopsN.trans {n k : Nat} {x y z : C.kqueue.Carrier × Ring} (h : PopsN n x y) (h' : PopsN k y z) :
    PopsN (n + k) x z := by
  induction h with
  | zero => simpa using h'
  | @succ n x y w h1 _ ih =>
    rw [show n + 1 + k = n + k + 1 by omega]
    exact .succ h1 (ih h')

theorem PopOne.size_eq {x y : C.kqueue.Carrier × Ring} (h : PopOne x y) :
    C.kqueue.size x.1 = C.kqueue.size y.1 + 1 := by
  obtain ⟨hp, -⟩ := h
  exact C.kqueue.size_pop hp

theorem PopsN.size_eq {n : Nat} {x y : C.kqueue.Carrier × Ring} (h : PopsN n x y) :
    C.kqueue.size x.1 = C.kqueue.size y.1 + n := by
  induction h with
  | zero => rfl
  | succ h1 _ ih => rw [h1.size_eq, ih]; omega

theorem PopOne.groups_eq {x y : C.kqueue.Carrier × Ring} (h : PopOne x y) :
    C.kqueue.groups y.1 = C.kqueue.groups x.1 := by
  obtain ⟨hp, -⟩ := h
  exact C.kqueue.groups_pop _ _ _ _ hp

theorem PopsN.groups_eq {n : Nat} {x y : C.kqueue.Carrier × Ring} (h : PopsN n x y) :
    C.kqueue.groups y.1 = C.kqueue.groups x.1 := by
  induction h with
  | zero => rfl
  | succ h1 _ ih => rw [ih, h1.groups_eq]

/-- The entries moved stand behind those already in the ring, of which nothing else changes. -/
theorem PopsN.ring_eq {n : Nat} {x y : C.kqueue.Carrier × Ring} (h : PopsN n x y) :
    ∃ moved, moved.length = n ∧ y.2 = { x.2 with sq := x.2.sq ++ moved } := by
  induction h with
  | zero => exact ⟨[], rfl, by simp⟩
  | succ h1 _ ih =>
    obtain @⟨_, _, _, _, sqe, -, -⟩ := h1
    obtain ⟨moved, hlen, hring⟩ := ih
    exact ⟨sqe :: moved, by rw [List.length_cons, hlen], by simp [hring]⟩

/-- An empty group stays empty. -/
theorem PopsN.group_nil {n : Nat} {x y : C.kqueue.Carrier × Ring} (h : PopsN n x y) {group : Nat}
    (hnil : C.kqueue.group x.1 group = []) : C.kqueue.group y.1 group = [] := by
  induction h with
  | zero => exact hnil
  | succ h1 _ ih =>
    obtain @⟨ioq, ioq', ring, group', sqe, hp, -⟩ := h1
    apply ih
    by_cases hg : group = group'
    · subst hg
      have := C.kqueue.group_pop _ _ _ _ hp
      rw [hnil] at this
      cases this
    · exact (C.kqueue.group_pop_ne _ _ _ _ hp group hg).trans hnil

/-- As long as the ring has room for what is left to go, the loop over one group ends without a failed assertion;
it moves what it counts and stops early only at an empty group. -/
theorem popGroup_spec (group left : Nat) (ioq : C.kqueue.Carrier) (ring : Ring)
    (hroom : left ≤ ring.ioUringSqSpaceLeft) :
    ∃ left' ioq' ring', popGroup group left ioq ring = some (left', ioq', ring') ∧ left' ≤ left ∧
      PopsN (left - left') (ioq, ring) (ioq', ring') ∧ left' ≤ ring'.ioUringSqSpaceLeft ∧
      (left' = 0 ∨ C.kqueue.group ioq' group = []) := by
  induction left generalizing ioq ring with
  | zero => exact ⟨0, ioq, ring, rfl, Nat.le_refl 0, .zero _, Nat.zero_le _, .inl rfl⟩
  | succ left ih =>
    cases hp : C.kqueue.pop ioq group with
    | none =>
      refine ⟨left + 1, ioq, ring, by simp [popGroup, hp], Nat.le_refl _, ?_, hroom,
        .inr ((C.kqueue.pop_eq_none ioq group).1 hp)⟩
      rw [Nat.sub_self]
      exact .zero _
    | some p =>
      obtain ⟨sqe, ioq₁⟩ := p
      have hlt : ring.sq.length < ring.sqEntries := by unfold Ring.ioUringSqSpaceLeft at hroom; omega
      have hspace : left ≤ ({ ring with sq := ring.sq ++ [sqe] } : Ring).ioUringSqSpaceLeft := by
        simp only [Ring.ioUringSqSpaceLeft, List.length_append, List.length_singleton] at hroom ⊢
        omega
      obtain ⟨left', ioq', ring', heq, hle, hpops, hleft, hend⟩ := ih ioq₁ _ hspace
      refine ⟨left', ioq', ring', ?_, Nat.le_succ_of_le hle, ?_, hleft, hend⟩
      · simp only [popGroup, hp, Ring.ioUringGetSqe, hlt, ↓reduceIte]
        exact heq
      · rw [show left + 1 - left' = left - left' + 1 by omega]
        exact .succ (.intro hp hlt) hpops

theorem popGroups_spec (groups : List Nat) (left : Nat) (ioq : C.kqueue.Carrier) (ring : Ring)
    (hroom : left ≤ ring.ioUringSqSpaceLeft) :
    ∃ left' ioq' ring', popGroups groups left ioq ring = some (left', ioq', ring') ∧ left' ≤ left ∧
      PopsN (left - left') (ioq, ring) (ioq', ring') ∧
      (left' = 0 ∨ ∀ group ∈ groups, C.kqueue.group ioq' group = []) := by
  induction groups generalizing left ioq ring with
  | nil =>
    refine ⟨left, ioq, ring, rfl, Nat.le_refl _, ?_, .inr (by simp)⟩
    rw [Nat.sub_self]
    exact .zero _
  | cons group groups ih =>
    obtain ⟨left₁, ioq₁, ring₁, heq₁, hle₁, hpops₁, hleft₁, hend₁⟩ :=
      popGroup_spec group left ioq ring hroom
    obtain ⟨left', ioq', ring', heq, hle, hpops, hend⟩ := ih left₁ ioq₁ ring₁ hleft₁
    refine ⟨left', ioq', ring', ?_, Nat.le_trans hle hle₁, ?_, ?_⟩
    · simp only [popGroups, heq₁]
      exact heq
    · rw [show left - left' = left - left₁ + (left₁ - left') by omega]
      exact hpops₁.trans hpops
    · rcases hend with hend | hend
      · exact .inl hend
      · rcases hend₁ with hzero | hnil
        · exact .inl (by omega)
        · exact .inr (List.forall_mem_cons.2 ⟨hpops.group_nil hnil, hend⟩)

/-- The assertion in `io_queue_pop_into_ring` never fires. -/
theorem popGroups_isSome (ioq : C.kqueue.Carrier) (ring : Ring) (count : Nat) :
    (popGroups (List.range ioQueuePriorityGroupCount) (popLimit ioq ring count) ioq ring).isSome := by
  have hroom : popLimit ioq ring count ≤ ring.ioUringSqSpaceLeft := by unfold popLimit; omega
  obtain ⟨left', ioq', ring', heq, -⟩ := popGroups_spec (List.range ioQueuePriorityGroupCount)
    (popLimit ioq ring count) ioq ring hroom
  rw [heq]
  rfl

/-- `io_queue_pop_into_ring`: the number of entries moved, the queue and the ring. -/
def ioQueuePopIntoRing (ioq : C.kqueue.Carrier) (ring : Ring) (count : Nat) :
    Nat × C.kqueue.Carrier × Ring :=
  let out := (popGroups (List.range ioQueuePriorityGroupCount) (popLimit ioq ring count) ioq ring).get
    (popGroups_isSome ioq ring count)
  (popLimit ioq ring count - out.1, out.2)

/-- `io_queue_pop_into_ring` moves exactly `limit` entries. -/
theorem ioQueuePopIntoRing_spec (ioq : C.kqueue.Carrier) (ring : Ring) (count : Nat)
    (hgroups : C.kqueue.groups ioq = ioQueuePriorityGroupCount) :
    (ioQueuePopIntoRing ioq ring count).1 = popLimit ioq ring count ∧
      PopsN (popLimit ioq ring count) (ioq, ring) (ioQueuePopIntoRing ioq ring count).2 := by
  have hroom : popLimit ioq ring count ≤ ring.ioUringSqSpaceLeft := by unfold popLimit; omega
  obtain ⟨left', ioq', ring', heq, hle, hpops, hend⟩ := popGroups_spec (List.range ioQueuePriorityGroupCount)
    (popLimit ioq ring count) ioq ring hroom
  have hout : ioQueuePopIntoRing ioq ring count = (popLimit ioq ring count - left', ioq', ring') := by
    simp only [ioQueuePopIntoRing, heq, Option.get_some]
  -- entries left to go at the end would mean that the whole queue was moved, which is at least the limit
  have hleft : left' = 0 := by
    rcases hend with hend | hend
    · exact hend
    · have hsize : C.kqueue.size ioq' = 0 := by
        rw [C.kqueue.size_eq_zero_iff, hpops.groups_eq, hgroups]
        exact fun g hg => hend g (List.mem_range.2 hg)
      have := hpops.size_eq
      have : popLimit ioq ring count ≤ C.kqueue.size ioq := by unfold popLimit; omega
      dsimp only at *
      omega
  subst hleft
  rw [hout]
  exact ⟨rfl, hpops⟩

end Mcon
