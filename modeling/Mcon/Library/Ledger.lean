import Mcon.Library.Transition
import Mathlib.Data.List.Perm.Basic

/-!
# Ledgers

A state holds things, and what is observed of the steps puts some in and takes some out.  The ledger balances over a
step when what was taken and what is held afterwards are, with repetitions, what was held before and what was put in.
It then balances over every path, so that nothing is lost, invented or taken twice.
-/

namespace Transition

/-- What a state holds, and what an observation puts in and takes out. -/
structure Ledger (σ α γ : Type) where
  held : σ → List γ
  put : α → Option γ
  taken : α → Option γ

namespace Ledger

variable {σ κ α β γ : Type} {L : Ledger σ α γ} {s s' s'' : σ} {as as' : List α} {x : γ}

def Balances (L : Ledger σ α γ) (s : σ) (as : List α) (s' : σ) : Prop :=
  (as.filterMap L.taken ++ L.held s').Perm (L.held s ++ as.filterMap L.put)

theorem Balances.nil (s : σ) : L.Balances s [] s := by
  simp [Balances]

theorem Balances.trans (h : L.Balances s as s') (h' : L.Balances s' as' s'') : L.Balances s (as ++ as') s'' := by
  unfold Balances at h h' ⊢
  rw [List.filterMap_append, List.filterMap_append, List.append_assoc, ← List.append_assoc (L.held s)]
  exact (h'.append_left _).trans (by rw [← List.append_assoc]; exact h.append_right _)

/-! ### One step -/

/-- Nothing is put in or taken out. -/
theorem Balances.idle (hheld : (L.held s').Perm (L.held s)) (hput : as.filterMap L.put = [])
    (htaken : as.filterMap L.taken = []) : L.Balances s as s' := by
  unfold Balances
  rw [hput, htaken, List.append_nil, List.nil_append]
  exact hheld

theorem Balances.put_one (hheld : (L.held s').Perm (x :: L.held s)) (hput : as.filterMap L.put = [x])
    (htaken : as.filterMap L.taken = []) : L.Balances s as s' := by
  unfold Balances
  rw [hput, htaken, List.nil_append]
  exact hheld.trans (List.perm_append_singleton x _).symm

theorem Balances.take_one (hheld : (L.held s).Perm (x :: L.held s')) (hput : as.filterMap L.put = [])
    (htaken : as.filterMap L.taken = [x]) : L.Balances s as s' := by
  unfold Balances
  rw [hput, htaken, List.append_nil]
  exact hheld.symm

/-! ### Paths -/

/-- A ledger that balances over every step of a path, as far as a view of the observations shows it, balances over the
path. -/
theorem Balances.of_path {R : σ → κ → List β → σ → Prop} {P : κ → Prop} {view : β → Option α} (I : σ → Prop)
    (hI : ∀ s k os s', P k → R s k os s' → I s → I s')
    (hstep : ∀ s k os s', P k → R s k os s' → I s → L.Balances s (os.filterMap view) s')
    {os : List β} (h : Path R P s os s') (hs : I s) : L.Balances s (os.filterMap view) s' := by
  induction h with
  | nil => exact .nil _
  | cons hr hk _ ih =>
    rw [List.filterMap_append]
    exact (hstep _ _ _ _ hk hr hs).trans (ih (hI _ _ _ _ hk hr hs))

/-- From a state that holds nothing, what was put in is what was taken out and what is still held. -/
theorem Balances.of_empty (h : L.Balances s as s') (hs : L.held s = []) :
    (as.filterMap L.put).Perm (as.filterMap L.taken ++ L.held s') := by
  unfold Balances at h
  rw [hs, List.nil_append] at h
  exact h.symm

end Ledger

end Transition
