import Mcon.Library.Containers
import Mathlib.Data.List.Sort

/-!
# Queues with priorities

A queue of several groups whose elements have a key is a queue with priorities: its contents, group by group, are the
queued elements sorted by the key, and elements of one key stand in the order in which they were pushed.  Taking from
the first group that is not empty takes the first element of the sorted list.
-/

namespace Containers

variable {α : Type} {key : α → Nat}

/-! ### Stable sorting by a key -/

/-- The list sorted by a key; elements of one key keep their order. -/
def sortByKey (key : α → Nat) (l : List α) : List α := l.mergeSort fun x y => decide (key x ≤ key y)

private theorem le_trans_key (x y z : α) (hxy : decide (key x ≤ key y) = true) (hyz : decide (key y ≤ key z) = true) :
    decide (key x ≤ key z) = true := by
  rw [decide_eq_true_eq] at *
  exact hxy.trans hyz

private theorem le_total_key (x y : α) : (decide (key x ≤ key y) || decide (key y ≤ key x)) = true := by
  simp only [Bool.or_eq_true, decide_eq_true_eq]
  exact Nat.le_total _ _

theorem sortByKey_perm (key : α → Nat) (l : List α) : (sortByKey key l).Perm l := List.mergeSort_perm _ _

theorem pairwise_sortByKey (key : α → Nat) (l : List α) : (sortByKey key l).Pairwise fun x y => key x ≤ key y :=
  (List.pairwise_mergeSort le_trans_key le_total_key l).imp of_decide_eq_true

/-- The elements of one key keep their order. -/
theorem filter_sortByKey (key : α → Nat) (l : List α) (k : Nat) :
    (sortByKey key l).filter (key · == k) = l.filter (key · == k) := by
  have hsame : (l.filter (key · == k)).Pairwise fun x y => decide (key x ≤ key y) = true := by
    apply List.pairwise_of_forall_mem_list
    intro x hx y hy
    rw [List.mem_filter, beq_iff_eq] at hx hy
    rw [hx.2, hy.2, decide_eq_true_eq]
  have hsub := (List.sublist_mergeSort le_trans_key le_total_key hsame List.filter_sublist).filter (key · == k)
  rw [List.filter_filter, List.filter_congr (q := (key · == k)) (by simp)] at hsub
  exact (hsub.eq_of_length ((sortByKey_perm key l).filter _).length_eq.symm).symm

/-- A sorted list is determined by its elements of each key. -/
theorem eq_of_filter_eq {l l' : List α} (h : l.Pairwise fun x y => key x ≤ key y)
    (h' : l'.Pairwise fun x y => key x ≤ key y) (hfilter : ∀ k, l.filter (key · == k) = l'.filter (key · == k)) :
    l = l' := by
  induction l generalizing l' with
  | nil =>
    cases l' with
    | nil => rfl
    | cons b l' =>
      have hb := hfilter (key b)
      simp at hb
  | cons a l ih =>
    have hmem : ∀ x, x ∈ a :: l ↔ x ∈ l' := by
      intro x
      have hx : x ∈ (a :: l).filter (key · == key x) ↔ x ∈ l'.filter (key · == key x) := by rw [hfilter]
      simpa only [List.mem_filter, beq_self_eq_true, and_true] using hx
    cases l' with
    | nil => exact absurd ((hmem a).1 List.mem_cons_self) List.not_mem_nil
    | cons b l' =>
      rw [List.pairwise_cons] at h h'
      have hba : key b ≤ key a := by
        rcases List.mem_cons.1 ((hmem a).1 List.mem_cons_self) with heq | hin
        · rw [heq]
        · exact h'.1 a hin
      have hab : key a ≤ key b := by
        rcases List.mem_cons.1 ((hmem b).2 List.mem_cons_self) with heq | hin
        · rw [heq]
        · exact h.1 b hin
      have hkey : key b = key a := Nat.le_antisymm hba hab
      have hhead := hfilter (key a)
      rw [List.filter_cons_of_pos (by simp), List.filter_cons_of_pos (by simp [hkey]), List.cons.injEq] at hhead
      obtain ⟨rfl, htail⟩ := hhead
      congr 1
      refine ih h.2 h'.2 fun k => ?_
      by_cases hk : key a = k
      · rw [← hk]
        exact htail
      · have hall := hfilter k
        rwa [List.filter_cons_of_neg (by simpa using hk), List.filter_cons_of_neg (by simpa using hk)] at hall

/-- The elements up to a key stand at the front of a sorted list. -/
theorem countP_take_of_pairwise {l : List α} (h : l.Pairwise fun x y => key x ≤ key y) (n k : Nat) :
    (l.take n).countP (fun x => key x ≤ k) = min n (l.countP fun x => key x ≤ k) := by
  induction l generalizing n with
  | nil => simp
  | cons a l ih =>
    rw [List.pairwise_cons] at h
    cases n with
    | zero => simp
    | succ n =>
      rw [List.take_succ_cons, List.countP_cons, List.countP_cons, ih h.2]
      by_cases ha : key a ≤ k
      · simp only [ha, decide_true, if_true]
        omega
      · have hlater : l.countP (fun x => key x ≤ k) = 0 := by
          rw [List.countP_eq_zero]
          intro x hx
          rw [decide_eq_true_eq]
          have := h.1 x hx
          omega
        simp [ha, hlater]

/-- What is left of them when the first elements are taken. -/
theorem countP_drop_of_pairwise {l : List α} (h : l.Pairwise fun x y => key x ≤ key y) (n k : Nat) :
    (l.drop n).countP (fun x => key x ≤ k) = (l.countP fun x => key x ≤ k) - n := by
  have hall : (l.take n).countP (fun x => key x ≤ k) + (l.drop n).countP (fun x => key x ≤ k) =
      l.countP fun x => key x ≤ k := by
    rw [← List.countP_append, List.take_append_drop]
  rw [countP_take_of_pairwise h] at hall
  omega

/-- The elements of one key in a list of groups by their key. -/
theorem filter_flatMap_range {f : Nat → List α} (hf : ∀ g, ∀ x ∈ f g, key x = g) (n k : Nat) :
    ((List.range n).flatMap f).filter (key · == k) = if k < n then f k else [] := by
  induction n with
  | zero => rfl
  | succ n ih =>
    rw [List.range_succ, List.flatMap_append, List.filter_append, ih, List.flatMap_singleton]
    by_cases hk : k = n
    · subst hk
      rw [if_neg (Nat.lt_irrefl k), if_pos (Nat.lt_succ_self k), List.nil_append, List.filter_eq_self]
      intro x hx
      rw [hf k x hx, beq_self_eq_true]
    · have hnil : (f n).filter (key · == k) = [] := by
        rw [List.filter_eq_nil_iff]
        intro x hx
        rw [hf n x hx, beq_iff_eq]
        exact fun h => hk h.symm
      rw [hnil, List.append_nil]
      by_cases hlt : k < n
      · rw [if_pos hlt, if_pos (Nat.lt_succ_of_lt hlt)]
      · rw [if_neg hlt, if_neg (by omega)]

theorem pairwise_flatMap_range {f : Nat → List α} (hf : ∀ g, ∀ x ∈ f g, key x = g) (n : Nat) :
    ((List.range n).flatMap f).Pairwise fun x y => key x ≤ key y := by
  rw [List.pairwise_flatMap]
  constructor
  · intro g _
    apply List.pairwise_of_forall_mem_list
    intro x hx y hy
    rw [hf g x hx, hf g y hy]
  · refine List.pairwise_lt_range.imp fun {g g'} hlt x hx y hy => ?_
    rw [hf g x hx, hf g' y hy]
    exact Nat.le_of_lt hlt

/-- Only the first group that is not empty loses its first element. -/
theorem flatMap_range_cons {f f' : Nat → List α} {i n : Nat} {a : α} (hi : i < n) (hlow : ∀ j < i, f j = [])
    (hcons : f i = a :: f' i) (hne : ∀ j ≠ i, f' j = f j) :
    (List.range n).flatMap f = a :: (List.range n).flatMap f' := by
  induction n with
  | zero => omega
  | succ n ih =>
    rw [List.range_succ, List.flatMap_append, List.flatMap_append, List.flatMap_singleton, List.flatMap_singleton]
    by_cases hin : i = n
    · subst hin
      have hnil : (List.range i).flatMap f = [] := by
        rw [List.flatMap_eq_nil_iff]
        exact fun j hj => hlow j (List.mem_range.1 hj)
      have hnil' : (List.range i).flatMap f' = [] := by
        rw [List.flatMap_eq_nil_iff]
        intro j hj
        rw [hne j (Nat.ne_of_lt (List.mem_range.1 hj)), hlow j (List.mem_range.1 hj)]
      rw [hnil, hnil', hcons]
      rfl
    · rw [ih (by omega), hne n fun h => hin h.symm]
      rfl

/-! ### The grouped queue -/

namespace GroupQueue

variable (Q : GroupQueue α)

/-- The queue holds the elements of the list, pushed in its order, each in the group of its key. -/
def Holds (key : α → Nat) (q : Q.Carrier) (l : List α) : Prop := ∀ g, Q.group q g = l.filter (key · == g)

variable {Q} {q q' : Q.Carrier} {l : List α} {g : Nat} {a : α}

theorem holds_create (c n : Nat) : Q.Holds key (Q.create c n) [] := fun g => Q.group_create c n g

theorem Holds.push (h : Q.Holds key q l) (hpush : Q.push q (key a) a = some q') : Q.Holds key q' (l ++ [a]) := by
  intro g
  rw [Q.group_push _ _ _ _ hpush, List.filter_append, List.filter_singleton]
  by_cases hg : g = key a
  · rw [hg, Function.update_self, h, beq_self_eq_true]
    rfl
  · have hne : (key a == g) = false := beq_false_of_ne fun heq => hg heq.symm
    rw [Function.update_of_ne hg, h, hne]
    simp

/-- The element taken is the first of its key. -/
theorem Holds.pop [DecidableEq α] (h : Q.Holds key q l) (hpop : Q.pop q g = some (a, q')) :
    Q.Holds key q' (l.erase a) := by
  have hgroup := Q.group_pop _ _ _ _ hpop
  have hkey : key a = g := by
    have hmem : a ∈ l.filter (key · == g) := by
      rw [← h g, hgroup]
      exact List.mem_cons_self
    rw [List.mem_filter, beq_iff_eq] at hmem
    exact hmem.2
  intro g'
  rw [← List.erase_filter, ← h g']
  by_cases hg : g' = g
  · rw [hg, hgroup, List.erase_cons_head]
  · rw [Q.group_pop_ne _ _ _ _ hpop g' hg, List.erase_of_not_mem]
    rw [h g', List.mem_filter, beq_iff_eq]
    exact fun hmem => hg (hmem.2.symm.trans hkey)

theorem Holds.key_eq (h : Q.Holds key q l) (g : Nat) (x : α) (hx : x ∈ Q.group q g) : key x = g := by
  rw [h g, List.mem_filter, beq_iff_eq] at hx
  exact hx.2

/-- The contents, group by group, are the elements sorted by their key. -/
theorem Holds.contents_eq (h : Q.Holds key q l) : Q.contents q = sortByKey key l := by
  refine eq_of_filter_eq (pairwise_flatMap_range h.key_eq _) (pairwise_sortByKey key l) fun k => ?_
  rw [contents, filter_flatMap_range h.key_eq, filter_sortByKey, ← h k]
  split
  · rfl
  · rename_i hk
    exact (Q.group_outside q k (Nat.le_of_not_lt hk)).symm

theorem Holds.size_eq (h : Q.Holds key q l) : Q.size q = l.length := by
  rw [Q.size_eq_length, h.contents_eq, (sortByKey_perm key l).length_eq]

/-- Taking from the first group that is not empty takes the first element. -/
theorem contents_pop_first (hlow : ∀ g' < g, Q.group q g' = []) (hpop : Q.pop q g = some (a, q')) :
    Q.contents q = a :: Q.contents q' := by
  unfold contents
  rw [Q.groups_pop _ _ _ _ hpop]
  exact flatMap_range_cons (Q.lt_of_pop hpop) hlow (Q.group_pop _ _ _ _ hpop) (Q.group_pop_ne _ _ _ _ hpop)

end GroupQueue

end Containers
