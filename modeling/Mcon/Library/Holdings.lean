import Mathlib.Data.Multiset.AddSub

/-!
# Holdings

A program acquires resources and releases them.  To release what is not held is a fault, so a list of moves that has no
fault releases nothing twice; what is held at its end was acquired and not released.  Moves that have no fault have none
when more is held, and leave it alone.
-/

namespace Holdings

variable {ρ : Type}

inductive Move (ρ : Type)
  | acquire (r : ρ)
  | release (r : ρ)
  deriving DecidableEq, Repr

variable [DecidableEq ρ]

/-- What is held after the moves; `none` for a fault. -/
def after (held : Multiset ρ) : List (Move ρ) → Option (Multiset ρ)
  | [] => some held
  | .acquire r :: ms => after (r ::ₘ held) ms
  | .release r :: ms => if r ∈ held then after (held.erase r) ms else none

variable {held held' held'' : Multiset ρ} {ms ms' : List (Move ρ)} {r : ρ} {rs : List ρ}

@[simp] theorem after_nil (held : Multiset ρ) : after held ([] : List (Move ρ)) = some held := rfl

@[simp] theorem after_acquire (held : Multiset ρ) (r : ρ) (ms : List (Move ρ)) :
    after held (.acquire r :: ms) = after (r ::ₘ held) ms := rfl

@[simp] theorem after_release (held : Multiset ρ) (r : ρ) (ms : List (Move ρ)) :
    after (r ::ₘ held) (.release r :: ms) = after held ms := by
  simp [after]

@[simp] theorem after_release_singleton (r : ρ) (ms : List (Move ρ)) :
    after {r} (.release r :: ms) = after 0 ms := after_release 0 r ms

theorem after_append (held : Multiset ρ) (ms ms' : List (Move ρ)) :
    after held (ms ++ ms') = (after held ms).bind (after · ms') := by
  induction ms generalizing held with
  | nil => rfl
  | cons m ms ih =>
    cases m with
    | acquire r => exact ih _
    | release r =>
      simp only [List.cons_append, after]
      split
      · exact ih _
      · rfl

theorem after_trans (h : after held ms = some held') (h' : after held' ms' = some held'') :
    after held (ms ++ ms') = some held'' := by
  rw [after_append, h]
  exact h'

/-- The frame rule. -/
theorem after_frame (h : after held ms = some held') (frame : Multiset ρ) :
    after (held + frame) ms = some (held' + frame) := by
  induction ms generalizing held with
  | nil =>
    cases h
    rfl
  | cons m ms ih =>
    cases m with
    | acquire r =>
      rw [after_acquire, ← Multiset.cons_add]
      exact ih h
    | release r =>
      simp only [after] at h ⊢
      split at h
      · rename_i hr
        rw [if_pos (Multiset.mem_add.2 (.inl hr)), Multiset.erase_add_left_pos _ hr]
        exact ih h
      · cases h

/-! ### Fresh resources -/

/-- Each resource is acquired when it is not held. -/
def Fresh (held : Multiset ρ) : List (Move ρ) → Prop
  | [] => True
  | .acquire r :: ms => r ∉ held ∧ Fresh (r ::ₘ held) ms
  | .release r :: ms => Fresh (held.erase r) ms

theorem fresh_append (h : after held ms = some held') :
    Fresh held (ms ++ ms') ↔ Fresh held ms ∧ Fresh held' ms' := by
  induction ms generalizing held with
  | nil =>
    cases h
    simp [Fresh]
  | cons m ms ih =>
    cases m with
    | acquire r =>
      simp only [List.cons_append, Fresh, ih h, and_assoc]
    | release r =>
      simp only [after] at h
      split at h
      · exact ih h
      · cases h

theorem nodup_after (hnodup : held.Nodup) (hfresh : Fresh held ms) (h : after held ms = some held') :
    held'.Nodup := by
  induction ms generalizing held with
  | nil =>
    cases h
    exact hnodup
  | cons m ms ih =>
    cases m with
    | acquire r => exact ih (Multiset.nodup_cons.2 ⟨hfresh.1, hnodup⟩) hfresh.2 h
    | release r =>
      simp only [after] at h
      split at h
      · exact ih (hnodup.erase r) hfresh h
      · cases h

/-- Moves that have no fault by themselves leave alone what is held besides. -/
theorem release_notMem (h : after held ms = some held') {frame : Multiset ρ} (hfresh : Fresh (held + frame) ms)
    (hr : r ∈ frame) (hheld : r ∉ held) : .release r ∉ ms := by
  induction ms generalizing held with
  | nil => simp
  | cons m ms ih =>
    cases m with
    | acquire r' =>
      rw [Fresh, Multiset.mem_add, not_or, ← Multiset.cons_add] at hfresh
      have hne : r ≠ r' := by
        rintro rfl
        exact hfresh.1.2 hr
      have hrest := ih h hfresh.2 (by simp [hne, hheld])
      simpa using hrest
    | release r' =>
      simp only [after] at h
      split at h
      · rename_i hr'
        have hne : r ≠ r' := by
          rintro rfl
          exact hheld hr'
        rw [Fresh, Multiset.erase_add_left_pos _ hr'] at hfresh
        have hrest := ih h hfresh fun hmem => hheld (Multiset.mem_of_mem_erase hmem)
        simpa [hne] using hrest
      · cases h

/-! ### Unwinding -/

theorem after_acquires (held : Multiset ρ) (rs : List ρ) :
    after held (rs.map .acquire) = some ((rs : Multiset ρ) + held) := by
  induction rs generalizing held with
  | nil => simp
  | cons r rs ih =>
    rw [List.map_cons, after_acquire, ih, Multiset.add_cons, ← Multiset.cons_coe, Multiset.cons_add]

theorem after_releases (held : Multiset ρ) (rs : List ρ) :
    after ((rs : Multiset ρ) + held) (rs.map .release) = some held := by
  induction rs with
  | nil => simp
  | cons r rs ih =>
    rw [List.map_cons, ← Multiset.cons_coe, Multiset.cons_add, after_release]
    exact ih

/-- Releasing in the opposite order what was acquired one after another leaves what was held before. -/
theorem after_unwind (held : Multiset ρ) (rs : List ρ) :
    after held (rs.map .acquire ++ rs.reverse.map .release) = some held := by
  refine after_trans (after_acquires held rs) ?_
  rw [← Multiset.coe_reverse]
  exact after_releases held rs.reverse

end Holdings
