import Mathlib.Data.List.Basic

/-!
# Runs and paths

`Run` is the set of finite runs of a deterministic step function: the inputs carry all nondeterminism, `ok` says
which inputs are considered in which state, and the history records every input with its output.

`Path` is the labelled closure of a step relation whose steps have a kind and emit observations.  A call of a
program is a path of small steps; an invariant is proved once for each kind of small step and then holds after
every path, hence after every run.
-/

namespace Transition

/-! ### Runs of a step function -/

section Runs

variable {σ ι ο : Type}

/-- The runs of `step` from `s₀` whose inputs satisfy `ok` in the state in which they are given. -/
inductive Run (step : σ → ι → σ × ο) (ok : σ → ι → Prop) (s₀ : σ) : List (ι × ο) → σ → Prop
  | nil : Run step ok s₀ [] s₀
  | snoc {h : List (ι × ο)} {s : σ} (i : ι) : Run step ok s₀ h s → ok s i →
      Run step ok s₀ (h ++ [(i, (step s i).2)]) (step s i).1

variable {step : σ → ι → σ × ο} {ok ok' : σ → ι → Prop} {s₀ s s' : σ} {h h' : List (ι × ο)}

theorem Run.mono (hmono : ∀ s i, ok s i → ok' s i) (hr : Run step ok s₀ h s) : Run step ok' s₀ h s := by
  induction hr with
  | nil => exact .nil
  | snoc i _ hok ih => exact .snoc i ih (hmono _ i hok)

/-- An invariant of the state and the history, established at the start and kept by every step. -/
theorem Run.invariant_history (I : List (ι × ο) → σ → Prop) (h0 : I [] s₀)
    (hstep : ∀ h s i, ok s i → I h s → I (h ++ [(i, (step s i).2)]) (step s i).1)
    (hr : Run step ok s₀ h s) : I h s := by
  induction hr with
  | nil => exact h0
  | snoc i _ hok ih => exact hstep _ _ i hok ih

/-- An invariant of the state, established at the start and kept by every step. -/
theorem Run.invariant (I : σ → Prop) (h0 : I s₀) (hstep : ∀ s i, ok s i → I s → I (step s i).1)
    (hr : Run step ok s₀ h s) : I s :=
  Run.invariant_history (fun _ => I) h0 (fun _ s i => hstep s i) hr

theorem Run.trans (hr : Run step ok s₀ h s) (hr' : Run step ok s h' s') : Run step ok s₀ (h ++ h') s' := by
  induction hr' with
  | nil => rwa [List.append_nil]
  | snoc i _ hi ih =>
    rw [← List.append_assoc]
    exact .snoc i ih hi

/-- Every step of a run starts in a state which a prefix of the run reaches. -/
theorem Run.step_of_mem (hr : Run step ok s₀ h s) {p : ι × ο} (hp : p ∈ h) :
    ∃ h₁ s₁, Run step ok s₀ h₁ s₁ ∧ ok s₁ p.1 ∧ p.2 = (step s₁ p.1).2 := by
  induction hr with
  | nil => cases hp
  | @snoc h₁ s₁ i hr₁ hok ih =>
    rcases List.mem_append.1 hp with hp | hp
    · exact ih hp
    · rw [List.mem_singleton] at hp
      subst hp
      exact ⟨h₁, s₁, hr₁, hok, rfl⟩

/-- The final state after a list of inputs. -/
def finalState (step : σ → ι → σ × ο) (s : σ) : List ι → σ
  | [] => s
  | i :: is => finalState step (step s i).1 is

/-- The history of a list of inputs. -/
def history (step : σ → ι → σ × ο) (s : σ) : List ι → List (ι × ο)
  | [] => []
  | i :: is => (i, (step s i).2) :: history step (step s i).1 is

/-- `ok` holds of every input of the list in the state in which it is given. -/
def AllOk (step : σ → ι → σ × ο) (ok : σ → ι → Prop) (s : σ) : List ι → Prop
  | [] => True
  | i :: is => ok s i ∧ AllOk step ok (step s i).1 is

/-- A condition that does not depend on the state need only be checked on the inputs. -/
theorem AllOk.of_forall {is : List ι} (h : ∀ i ∈ is, ∀ s, ok s i) (s : σ) : AllOk step ok s is := by
  induction is generalizing s with
  | nil => trivial
  | cons i is ih => exact ⟨h i List.mem_cons_self s, ih (fun j hj => h j (List.mem_cons_of_mem i hj)) _⟩

theorem AllOk.and {is : List ι} (h : AllOk step ok s is) (h' : AllOk step ok' s is) :
    AllOk step (fun s i => ok s i ∧ ok' s i) s is := by
  induction is generalizing s with
  | nil => trivial
  | cons i is ih => exact ⟨⟨h.1, h'.1⟩, ih h.2 h'.2⟩

/-- A condition that can be decided of every input can be decided of a list of inputs. -/
instance AllOk.decidable [∀ s i, Decidable (ok s i)] : ∀ (is : List ι) (s : σ), Decidable (AllOk step ok s is)
  | [], _ => isTrue trivial
  | i :: is, s => @instDecidableAnd _ _ _ (AllOk.decidable is (step s i).1)

theorem Run.extend {is : List ι} (hr : Run step ok s₀ h s) (hok : AllOk step ok s is) :
    Run step ok s₀ (h ++ history step s is) (finalState step s is) := by
  induction is generalizing h s with
  | nil => simpa [history, finalState] using hr
  | cons i is ih =>
    have := ih (.snoc i hr hok.1) hok.2
    simpa [history, finalState] using this

/-- A concrete list of inputs gives a run. -/
theorem Run.of_inputs (is : List ι) (hok : AllOk step ok s is) :
    Run step ok s (history step s is) (finalState step s is) := by
  simpa using Run.extend Run.nil hok

end Runs

/-! ### Paths of a labelled step relation -/

section Paths

variable {σ κ β : Type}

/-- Finitely many `R`-steps of kinds allowed by `P`; the label is what they emit, in order. -/
inductive Path (R : σ → κ → List β → σ → Prop) (P : κ → Prop) : σ → List β → σ → Prop
  | nil (s : σ) : Path R P s [] s
  | cons {s s' s'' : σ} {k : κ} {os os' : List β} : R s k os s' → P k → Path R P s' os' s'' →
      Path R P s (os ++ os') s''

variable {R : σ → κ → List β → σ → Prop} {P P' : κ → Prop} {s s' s'' : σ} {k : κ} {os os' : List β}

theorem Path.single (h : R s k os s') (hk : P k) : Path R P s os s' := by
  simpa using Path.cons h hk (.nil s')

theorem Path.trans (h : Path R P s os s') (h' : Path R P s' os' s'') : Path R P s (os ++ os') s'' := by
  induction h with
  | nil => exact h'
  | cons hs hk _ ih => rw [List.append_assoc]; exact .cons hs hk (ih h')

theorem Path.mono (hmono : ∀ k, P k → P' k) (h : Path R P s os s') : Path R P' s os s' := by
  induction h with
  | nil => exact .nil _
  | cons hs hk _ ih => exact .cons hs (hmono _ hk) ih

/-- A path that shows an observation consists of a path to the step that shows it, this step, and a path onwards. -/
theorem Path.split_of_mem {o : β} (h : Path R P s os s') (ho : o ∈ os) :
    ∃ s₁ k osₖ s₂ os₁ os₂, Path R P s os₁ s₁ ∧ R s₁ k osₖ s₂ ∧ P k ∧ o ∈ osₖ ∧ Path R P s₂ os₂ s' ∧
      os = os₁ ++ osₖ ++ os₂ := by
  induction h with
  | nil => cases ho
  | @cons s t s' k osₖ os' hs hk hrest ih =>
    rcases List.mem_append.1 ho with ho | ho
    · exact ⟨s, k, osₖ, t, [], os', .nil s, hs, hk, ho, hrest, by simp⟩
    · obtain ⟨s₁, k₁, os₁, s₂, os₂, os₃, hp, hs₁, hk₁, ho₁, hp', rfl⟩ := ih ho
      exact ⟨s₁, k₁, os₁, s₂, osₖ ++ os₂, os₃, .cons hs hk hp, hs₁, hk₁, ho₁, hp', by simp⟩

/-- An invariant kept by every allowed step is kept by every path. -/
theorem Path.invariant (I : σ → Prop) (hstep : ∀ s k os s', P k → R s k os s' → I s → I s')
    (h : Path R P s os s') (hs : I s) : I s' := by
  induction h with
  | nil => exact hs
  | cons hr hk _ ih => exact ih (hstep _ _ _ _ hk hr hs)

/-- An invariant that the steps of a path keep as long as their observations are as given, and under which every
observation of an allowed step is good. -/
theorem Path.invariant_of_given (I : σ → Prop) (given good : β → Prop)
    (hstep : ∀ s k os s', P k → R s k os s' → (∀ o ∈ os, given o) → I s → I s' ∧ ∀ o ∈ os, good o)
    (h : Path R P s os s') (hgiven : ∀ o ∈ os, given o) (hs : I s) : I s' ∧ ∀ o ∈ os, good o := by
  induction h with
  | nil => exact ⟨hs, by simp⟩
  | cons hr hk _ ih =>
    obtain ⟨hs', hgood⟩ := hstep _ _ _ _ hk hr (fun o ho => hgiven o (List.mem_append_left _ ho)) hs
    obtain ⟨hs'', hgood'⟩ := ih (fun o ho => hgiven o (List.mem_append_right _ ho)) hs'
    exact ⟨hs'', fun o ho => (List.mem_append.1 ho).elim (hgood o) (hgood' o)⟩

/-- An invariant under which every observation of an allowed step is good makes every observation of a path
good. -/
theorem Path.forall_mem (I : σ → Prop) (good : β → Prop)
    (hstep : ∀ s k os s', P k → R s k os s' → I s → I s' ∧ ∀ o ∈ os, good o)
    (h : Path R P s os s') (hs : I s) : ∀ o ∈ os, good o :=
  (h.invariant_of_given I (fun _ => True) good (fun s k os s' hk hr _ => hstep s k os s' hk hr)
    (fun _ _ => trivial) hs).2

end Paths

end Transition
