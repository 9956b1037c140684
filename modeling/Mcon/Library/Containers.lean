import Mathlib.Algebra.Order.BigOperators.Group.List
import Mathlib.Algebra.Order.Group.Nat
import Mathlib.Data.List.Perm.Basic
import Mathlib.Logic.Function.Basic

/-!
# Bounded containers

Two abstract containers, given by their operations, an observation of their contents and the laws that tie the
two together: a LIFO stack of bounded capacity and a bounded queue of several FIFO groups.  A client is written
over an arbitrary container of each kind, so that it depends on the laws only.  `listStack` and `listQueue` are
the list implementations, which show that the laws can be met and let a client be evaluated.
-/

namespace Containers

variable {α : Type}

/-- A LIFO stack of bounded capacity: `push` fails exactly when it is full, `pop` exactly when it is empty. -/
structure BoundedStack (α : Type) where
  Carrier : Type
  create : Nat → Carrier
  push : Carrier → α → Option Carrier
  pop : Carrier → Option (α × Carrier)
  size : Carrier → Nat
  capacity : Carrier → Nat
  /-- The elements, top first. -/
  contents : Carrier → List α
  contents_create : ∀ n, contents (create n) = []
  capacity_create : ∀ n, capacity (create n) = n
  size_eq : ∀ s, size s = (contents s).length
  length_le : ∀ s, (contents s).length ≤ capacity s
  push_eq_none : ∀ s a, push s a = none ↔ (contents s).length = capacity s
  contents_push : ∀ s a s', push s a = some s' → contents s' = a :: contents s
  capacity_push : ∀ s a s', push s a = some s' → capacity s' = capacity s
  pop_eq_none : ∀ s, pop s = none ↔ contents s = []
  contents_pop : ∀ s a s', pop s = some (a, s') → contents s = a :: contents s'
  capacity_pop : ∀ s a s', pop s = some (a, s') → capacity s' = capacity s

/-- A bounded queue of several FIFO groups.  Whether the bound is shared by the groups or meant for each of them
is left open: `push` into a group fails only when at least `capacity` elements are queued, and no group ever
holds more than `capacity`. -/
structure GroupQueue (α : Type) where
  Carrier : Type
  create : Nat → Nat → Carrier
  push : Carrier → Nat → α → Option Carrier
  pop : Carrier → Nat → Option (α × Carrier)
  size : Carrier → Nat
  capacity : Carrier → Nat
  groups : Carrier → Nat
  /-- The elements of one group, oldest first. -/
  group : Carrier → Nat → List α
  group_create : ∀ c n g, group (create c n) g = []
  capacity_create : ∀ c n, capacity (create c n) = c
  groups_create : ∀ c n, groups (create c n) = n
  size_eq : ∀ q, size q = ((List.range (groups q)).flatMap (group q)).length
  group_outside : ∀ q g, groups q ≤ g → group q g = []
  length_le : ∀ q g, (group q g).length ≤ capacity q
  push_eq_none : ∀ q g a, g < groups q → push q g a = none → capacity q ≤ size q
  lt_of_push : ∀ q g a q', push q g a = some q' → g < groups q
  group_push : ∀ q g a q', push q g a = some q' →
    group q' = Function.update (group q) g (group q g ++ [a])
  capacity_push : ∀ q g a q', push q g a = some q' → capacity q' = capacity q
  groups_push : ∀ q g a q', push q g a = some q' → groups q' = groups q
  pop_eq_none : ∀ q g, pop q g = none ↔ group q g = []
  group_pop : ∀ q g a q', pop q g = some (a, q') → group q g = a :: group q' g
  group_pop_ne : ∀ q g a q', pop q g = some (a, q') → ∀ g' ≠ g, group q' g' = group q g'
  capacity_pop : ∀ q g a q', pop q g = some (a, q') → capacity q' = capacity q
  groups_pop : ∀ q g a q', pop q g = some (a, q') → groups q' = groups q

/-! ### The stack -/

namespace BoundedStack

variable (S : BoundedStack α) {s s' : S.Carrier} {a : α}

theorem push_isSome_iff : (S.push s a).isSome ↔ (S.contents s).length < S.capacity s := by
  have hle := S.length_le s
  rw [← Option.ne_none_iff_isSome, Ne, S.push_eq_none]
  omega

theorem size_push (h : S.push s a = some s') : S.size s' = S.size s + 1 := by
  rw [S.size_eq, S.size_eq, S.contents_push _ _ _ h, List.length_cons]

theorem size_pop (h : S.pop s = some (a, s')) : S.size s = S.size s' + 1 := by
  rw [S.size_eq, S.size_eq, S.contents_pop _ _ _ h, List.length_cons]

/-- Popping right after a push gives the pushed element back and restores the contents. -/
theorem pop_of_push (h : S.push s a = some s') :
    ∃ s'', S.pop s' = some (a, s'') ∧ S.contents s'' = S.contents s ∧ S.capacity s'' = S.capacity s := by
  have hc := S.contents_push s a s' h
  cases hp : S.pop s' with
  | none => rw [S.pop_eq_none, hc] at hp; cases hp
  | some p =>
    obtain ⟨b, s''⟩ := p
    have hb := S.contents_pop s' b s'' hp
    rw [hc, List.cons.injEq] at hb
    obtain ⟨rfl, hs⟩ := hb
    exact ⟨s'', rfl, hs.symm, (S.capacity_pop s' a s'' hp).trans (S.capacity_push s a s' h)⟩

/-- Pushing back what was just popped succeeds and restores the contents. -/
theorem push_of_pop (h : S.pop s = some (a, s')) :
    ∃ s'', S.push s' a = some s'' ∧ S.contents s'' = S.contents s ∧ S.capacity s'' = S.capacity s := by
  have hc := S.contents_pop s a s' h
  have hcap := S.capacity_pop s a s' h
  have hle := S.length_le s
  cases hp : S.push s' a with
  | none =>
    rw [S.push_eq_none] at hp
    rw [hc, List.length_cons] at hle
    omega
  | some s'' =>
    exact ⟨s'', rfl, (S.contents_push s' a s'' hp).trans hc.symm,
      (S.capacity_push s' a s'' hp).trans hcap⟩

end BoundedStack

/-! ### The grouped queue -/

/-- One element more in one of the lists of a `flatMap` is one element more in the result. -/
theorem flatMap_perm_cons {ι : Type} {l : List ι} (hnd : l.Nodup) {f f' : ι → List α} {i : ι} {a : α}
    (hi : i ∈ l) (hcons : (f i).Perm (a :: f' i)) (hne : ∀ j ≠ i, f j = f' j) :
    (l.flatMap f).Perm (a :: l.flatMap f') := by
  induction l with
  | nil => cases hi
  | cons j l ih =>
    rw [List.nodup_cons] at hnd
    simp only [List.flatMap_cons]
    by_cases hj : j = i
    · subst hj
      have hrest : l.flatMap f = l.flatMap f' := by
        apply List.flatMap_congr
        intro k hk
        exact hne k fun h => hnd.1 (h ▸ hk)
      rw [hrest]
      exact hcons.append_right _
    · have hmem : i ∈ l := by
        rcases List.mem_cons.1 hi with h | h
        · exact absurd h.symm hj
        · exact h
      rw [hne j hj]
      exact ((ih hnd.2 hmem).append_left _).trans List.perm_middle

namespace GroupQueue

variable (Q : GroupQueue α) {q q' : Q.Carrier} {g : Nat} {a : α}

/-- All elements, group by group. -/
def contents (q : Q.Carrier) : List α := (List.range (Q.groups q)).flatMap (Q.group q)

theorem size_eq_length (q : Q.Carrier) : Q.size q = (Q.contents q).length := Q.size_eq q

theorem contents_create (c n : Nat) : Q.contents (Q.create c n) = [] := by
  simp [contents, Q.group_create]

theorem contents_push (h : Q.push q g a = some q') : (Q.contents q').Perm (a :: Q.contents q) := by
  unfold contents
  rw [Q.groups_push q g a q' h]
  apply flatMap_perm_cons List.nodup_range (List.mem_range.2 (Q.lt_of_push q g a q' h))
  · rw [Q.group_push q g a q' h, Function.update_self]
    exact List.perm_append_singleton a _
  · intro j hj
    rw [Q.group_push q g a q' h, Function.update_of_ne hj]

theorem lt_of_pop (h : Q.pop q g = some (a, q')) : g < Q.groups q := by
  by_contra hge
  have hnil := Q.group_outside q g (Nat.le_of_not_lt hge)
  rw [Q.group_pop q g a q' h] at hnil
  cases hnil

theorem contents_pop (h : Q.pop q g = some (a, q')) : (Q.contents q).Perm (a :: Q.contents q') := by
  unfold contents
  rw [Q.groups_pop q g a q' h]
  apply flatMap_perm_cons List.nodup_range (List.mem_range.2 (Q.lt_of_pop h))
  · rw [Q.group_pop q g a q' h]
  · intro j hj
    exact (Q.group_pop_ne q g a q' h j hj).symm

theorem size_push (h : Q.push q g a = some q') : Q.size q' = Q.size q + 1 := by
  rw [Q.size_eq_length, Q.size_eq_length, (Q.contents_push h).length_eq, List.length_cons]

theorem size_pop (h : Q.pop q g = some (a, q')) : Q.size q = Q.size q' + 1 := by
  rw [Q.size_eq_length, Q.size_eq_length, (Q.contents_pop h).length_eq, List.length_cons]

/-- A queue with no element in any of its groups has size `0`. -/
theorem size_eq_zero_iff (q : Q.Carrier) : Q.size q = 0 ↔ ∀ g < Q.groups q, Q.group q g = [] := by
  rw [Q.size_eq, List.length_eq_zero_iff, List.flatMap_eq_nil_iff]
  simp

end GroupQueue

/-! ### List implementations -/

/-- A list of at most `capacity` elements. -/
structure ListStack (α : Type) where
  capacity : Nat
  elems : List α
  fits : elems.length ≤ capacity

def listStack (α : Type) : BoundedStack α where
  Carrier := ListStack α
  create n := ⟨n, [], Nat.zero_le n⟩
  push s a := if h : s.elems.length < s.capacity then some ⟨s.capacity, a :: s.elems, h⟩ else none
  pop s :=
    match s with
    | ⟨_, [], _⟩ => none
    | ⟨c, a :: l, h⟩ => some (a, ⟨c, l, Nat.le_of_succ_le h⟩)
  size s := s.elems.length
  capacity s := s.capacity
  contents s := s.elems
  contents_create _ := rfl
  capacity_create _ := rfl
  size_eq _ := rfl
  length_le s := s.fits
  push_eq_none s a := by
    have := s.fits
    simp only [dite_eq_right_iff, reduceCtorEq, imp_false]
    omega
  contents_push s a s' h := by
    split at h
    · cases h; rfl
    · cases h
  capacity_push s a s' h := by
    split at h
    · cases h; rfl
    · cases h
  pop_eq_none s := by rcases s with ⟨c, _ | ⟨a, l⟩, h⟩ <;> simp
  contents_pop s a s' h := by rcases s with ⟨c, _ | ⟨b, l⟩, hl⟩ <;> simp at h; obtain ⟨rfl, rfl⟩ := h; rfl
  capacity_pop s a s' h := by rcases s with ⟨c, _ | ⟨b, l⟩, hl⟩ <;> simp at h; obtain ⟨rfl, rfl⟩ := h; rfl

/-- Lists indexed by their group number, together at most `capacity` elements long. -/
structure ListQueue (α : Type) where
  capacity : Nat
  groups : Nat
  group : Nat → List α
  outside : ∀ g, groups ≤ g → group g = []
  fits : ((List.range groups).flatMap group).length ≤ capacity

namespace ListQueue

variable (q : ListQueue α) (g : Nat) (a : α)

def push : Option (ListQueue α) :=
  if h : g < q.groups ∧ ((List.range q.groups).flatMap q.group).length < q.capacity then
    some
      { q with
        group := Function.update q.group g (q.group g ++ [a])
        outside := fun j hj => by
          have hjg : j ≠ g := by have := h.1; omega
          rw [Function.update_of_ne hjg, q.outside j hj]
        fits := by
          have hp : ((List.range q.groups).flatMap (Function.update q.group g (q.group g ++ [a]))).Perm
              (a :: (List.range q.groups).flatMap q.group) := by
            apply flatMap_perm_cons List.nodup_range (List.mem_range.2 h.1)
            · rw [Function.update_self]; exact List.perm_append_singleton a _
            · intro j hj; rw [Function.update_of_ne hj]
          rw [hp.length_eq]
          exact h.2 }
  else none

def pop : Option (α × ListQueue α) :=
  match h : q.group g with
  | [] => none
  | b :: rest =>
    some (b,
      { q with
        group := Function.update q.group g rest
        outside := fun j hj => by
          have hjg : j ≠ g := by rintro rfl; rw [q.outside j hj] at h; cases h
          rw [Function.update_of_ne hjg, q.outside j hj]
        fits := by
          have hg : g < q.groups := by
            by_contra hge; rw [q.outside g (Nat.le_of_not_lt hge)] at h; cases h
          have hp : ((List.range q.groups).flatMap q.group).Perm
              (b :: (List.range q.groups).flatMap (Function.update q.group g rest)) := by
            apply flatMap_perm_cons List.nodup_range (List.mem_range.2 hg)
            · rw [Function.update_self, h]
            · intro j hj; rw [Function.update_of_ne hj]
          have hlen := hp.length_eq
          have := q.fits
          rw [List.length_cons] at hlen
          omega })

theorem push_some {q q' : ListQueue α} {g : Nat} {a : α} (h : q.push g a = some q') :
    g < q.groups ∧ q'.group = Function.update q.group g (q.group g ++ [a]) ∧
      q'.capacity = q.capacity ∧ q'.groups = q.groups := by
  unfold push at h
  split at h
  · rename_i hg
    cases h
    exact ⟨hg.1, rfl, rfl, rfl⟩
  · cases h

theorem pop_some {q q' : ListQueue α} {g : Nat} {a : α} (h : q.pop g = some (a, q')) :
    q.group g = a :: q'.group g ∧ (∀ j ≠ g, q'.group j = q.group j) ∧
      q'.capacity = q.capacity ∧ q'.groups = q.groups := by
  unfold pop at h
  split at h
  · cases h
  · rename_i b rest hg
    cases h
    refine ⟨hg.trans ?_, fun j hj => Function.update_of_ne hj _ _, rfl, rfl⟩
    show a :: rest = a :: Function.update q.group g rest g
    rw [Function.update_self]

theorem pop_none {q : ListQueue α} {g : Nat} : q.pop g = none ↔ q.group g = [] := by
  unfold pop
  split <;> rename_i h <;> simp [h]

end ListQueue

def listQueue (α : Type) : GroupQueue α where
  Carrier := ListQueue α
  create c n := ⟨c, n, fun _ => [], fun _ _ => rfl, by simp⟩
  push := ListQueue.push
  pop := ListQueue.pop
  size q := ((List.range q.groups).flatMap q.group).length
  capacity q := q.capacity
  groups q := q.groups
  group q := q.group
  group_create _ _ _ := rfl
  capacity_create _ _ := rfl
  groups_create _ _ := rfl
  size_eq _ := rfl
  group_outside q := q.outside
  length_le q g := by
    by_cases hg : g < q.groups
    · refine Nat.le_trans ?_ q.fits
      rw [List.length_flatMap]
      exact List.le_sum_of_mem (List.mem_map_of_mem (List.mem_range.2 hg))
    · rw [q.outside g (Nat.le_of_not_lt hg)]; exact Nat.zero_le _
  push_eq_none q g a hg h := by
    unfold ListQueue.push at h
    split at h
    · cases h
    · rename_i hn; omega
  lt_of_push _ _ _ _ h := (ListQueue.push_some h).1
  group_push _ _ _ _ h := (ListQueue.push_some h).2.1
  capacity_push _ _ _ _ h := (ListQueue.push_some h).2.2.1
  groups_push _ _ _ _ h := (ListQueue.push_some h).2.2.2
  pop_eq_none _ _ := ListQueue.pop_none
  group_pop _ _ _ _ h := (ListQueue.pop_some h).1
  group_pop_ne _ _ _ _ h := (ListQueue.pop_some h).2.1
  capacity_pop _ _ _ _ h := (ListQueue.pop_some h).2.2.1
  groups_pop _ _ _ _ h := (ListQueue.pop_some h).2.2.2

end Containers
