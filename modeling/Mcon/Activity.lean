import Mcon.Connections

/-!
# Active sessions

The number of active sessions is computed from the size of the free stack, the activity of one session from its
descriptor.  On the sessions of the table the two agree in every reachable state.  Outside the table
`mcon_session_is_active` returns `-1` as a `bool`, so it calls every index active that is no session.
-/

namespace Mcon

open Transition (AllOk history finalState)

variable {C : Ctools} {m : Instance C} {h : History}

/-- `mcon_session_is_active` answers for a 32-bit index whether it is a session that is not on the free stack. -/
def ActivityAgrees (m : Instance C) (s : UInt32) : Prop :=
  mconSessionIsActive m s.toNat = true ↔
    s < m.configuration.sessionCount ∧ s.toNat ∉ C.idxStack.contents m.sessionFreeStack

/-- `mcon_active_session_count` counts the indices below `n` for which `mcon_session_is_active` is true. -/
def ActiveCountAgrees (m : Instance C) (n : Nat) : Prop :=
  (mconActiveSessionCount m).toNat = (List.range n).countP (mconSessionIsActive m)

theorem mconSessionIsActive_of_lt {s : Nat} (hs : s < m.configuration.sessionCount.toNat) :
    mconSessionIsActive m s = ((m.session s).socketFd != -1) := by
  rw [mconSessionIsActive, if_neg (Nat.not_le_of_lt hs)]

theorem mconSessionIsActive_of_le {s : Nat} (hs : m.configuration.sessionCount.toNat ≤ s) :
    mconSessionIsActive m s = true := by
  rw [mconSessionIsActive, if_pos hs]

/-- Every index from the end of the table on is counted. -/
theorem countP_isActive (m : Instance C) (k : Nat) :
    (List.range (m.configuration.sessionCount.toNat + k)).countP (mconSessionIsActive m) =
      (List.range m.configuration.sessionCount.toNat).countP (mconSessionIsActive m) + k := by
  induction k with
  | zero => rfl
  | succ k ih =>
    rw [← Nat.add_assoc, List.range_succ, List.countP_append, ih, List.countP_singleton,
      mconSessionIsActive_of_le (Nat.le_add_right _ k), if_pos rfl]
    omega

/-- In every reachable state `mcon_session_is_active` answers rightly for the indices of the table and for no others;
`mcon_active_session_count` is the number of active sessions of the table, but not of the 32-bit indices that are
called active. -/
theorem activity_agrees_iff (he : Execution NoEnoent h m) :
    (∀ s : UInt32, ActivityAgrees m s ↔ s < m.configuration.sessionCount) ∧
      ActiveCountAgrees m m.configuration.sessionCount.toNat ∧ ¬ ActiveCountAgrees m (2 ^ 32) := by
  obtain ⟨A, hm, hrep, -⟩ := he.represents
  have htable : ActiveCountAgrees m m.configuration.sessionCount.toNat := by
    rw [ActiveCountAgrees, hrep.activeSessionCount hm]
    apply List.countP_congr
    intro s hs
    rw [mconSessionIsActive_of_lt (List.mem_range.1 hs)]
  refine ⟨fun s => ⟨fun hagrees => ?_, fun hs => ?_⟩, htable, fun hall => ?_⟩
  · by_contra hs
    exact hs (hagrees.1 (mconSessionIsActive_of_le (UInt32.le_iff_toNat_le.1 (UInt32.not_lt.1 hs)))).1
  · have hlt := UInt32.lt_iff_toNat_lt.1 hs
    rw [ActivityAgrees, mconSessionIsActive_of_lt hlt, hrep.mem_stack, ← hrep.free_iff _ hlt]
    simp [hs, hlt]
  · have hcount := (mconConfigValidate_spec hm.valid).sessionCount_lt
    obtain ⟨k, hk⟩ : ∃ k, 2 ^ 32 = m.configuration.sessionCount.toNat + (k + 1) :=
      ⟨2 ^ 32 - m.configuration.sessionCount.toNat - 1, by omega⟩
    rw [ActiveCountAgrees, hk, countP_isActive, htable] at hall
    omega

/-- One connection, in a table of two sessions. -/
theorem activity_agrees_iff_connected :
    ActiveCountAgrees
      (finalState step (freshInstance (smallConfig 2 4 1)) (startInput :: serverInput :: connectInputs 20)) 2 := by
  have hrun : Execution NoEnoent _ _ := Execution.of_inputs (smallConfig 2 4 1) (by decide)
    (startInput :: serverInput :: connectInputs 20)
    (.of_forall (by simp [NoEnoent, startInput, serverInput, connectInputs, completeInputs, ringInput]) _)
  exact (activity_agrees_iff hrun).2.1

/-- An accept fails; the session named by its event is called active, while no session is. -/
theorem no_session_is_active :
    let m := finalState step (freshInstance (smallConfig 2 4 1)) (startInput :: serverInput :: connectInputs (-103))
    (step (finalState step (freshInstance (smallConfig 2 4 1))
      ([startInput, serverInput, .submit 1] ++ completeInputs (-103))) ringInput).2.reported =
        [⟨-103, mconNoSession, .newConnection⟩] ∧
      mconSessionIsActive m mconNoSession = true ∧ mconActiveSessionCount m = 0 ∧
      ¬ ActivityAgrees m (UInt32.ofNat mconNoSession) := by
  intro m
  have hactive : mconSessionIsActive m mconNoSession = true := by decide
  refine ⟨by decide, hactive, by decide, fun hagrees => ?_⟩
  exact absurd (hagrees.1 hactive).1 (by decide)

end Mcon
