import Mcon.Library.Transition

/-!
# An environment beside a run

A program and a world that it does not see: the world makes moves of its own at any time, and takes notice of what
the program does, one observation after the other, with `sees` saying what an observation is possible in and what it
changes.  An invariant that relates the world to the program is proved for one step of the program at a time.
-/

namespace Transition

section Environments

variable {ω β σ κ γ : Type}

/-- The world sees a list of observations and makes moves of its own before, between and after them; every
observation is recorded with the world that sees it. -/
inductive Watch (moves : ω → ω → Prop) (sees : ω → β → ω → Prop) : ω → List (ω × β) → ω → Prop
  | nil (w : ω) : Watch moves sees w [] w
  | move {w w₁ w' : ω} {seen : List (ω × β)} : moves w w₁ → Watch moves sees w₁ seen w' → Watch moves sees w seen w'
  | see {w w₁ w' : ω} {b : β} {seen : List (ω × β)} : sees w b w₁ → Watch moves sees w₁ seen w' →
      Watch moves sees w ((w, b) :: seen) w'

variable {moves : ω → ω → Prop} {sees : ω → β → ω → Prop} {w w' : ω} {seen seen' : List (ω × β)}

theorem Watch.append_inv (h : Watch moves sees w (seen ++ seen') w') :
    ∃ w₁, Watch moves sees w seen w₁ ∧ Watch moves sees w₁ seen' w' := by
  generalize hall : seen ++ seen' = all at h
  induction h generalizing seen with
  | nil w =>
    obtain ⟨rfl, rfl⟩ := List.append_eq_nil_iff.1 hall
    exact ⟨w, .nil w, .nil w⟩
  | move hmove _ ih =>
    obtain ⟨w₂, hfirst, hrest⟩ := ih hall
    exact ⟨w₂, .move hmove hfirst, hrest⟩
  | @see w w₁ w' b rest hsees h ih =>
    cases seen with
    | nil =>
      rw [List.nil_append] at hall
      exact ⟨w, .nil w, hall ▸ .see hsees h⟩
    | cons p seen =>
      rw [List.cons_append, List.cons.injEq] at hall
      obtain ⟨rfl, hall⟩ := hall
      obtain ⟨w₂, hfirst, hrest⟩ := ih hall
      exact ⟨w₂, .see hsees hfirst, hrest⟩

/-- Up to an observation the world makes moves of its own only. -/
theorem Watch.cons_inv {p : ω × β} (h : Watch moves sees w (p :: seen) w') :
    ∃ w₁, Watch moves sees w [] p.1 ∧ sees p.1 p.2 w₁ ∧ Watch moves sees w₁ seen w' := by
  generalize hall : p :: seen = all at h
  induction h with
  | nil => cases hall
  | move hmove _ ih =>
    obtain ⟨w₁, hfirst, hsees, hrest⟩ := ih hall
    exact ⟨w₁, .move hmove hfirst, hsees, hrest⟩
  | see hsees h =>
    rw [List.cons.injEq] at hall
    obtain ⟨rfl, rfl⟩ := hall
    exact ⟨_, .nil _, hsees, h⟩

/-- A property of worlds that the moves keep, and that the observations made keep. -/
theorem Watch.keeps (K : ω → Prop) (hmoves : ∀ w w', moves w w' → K w → K w')
    (hsees : ∀ w b w', b ∈ seen.map Prod.snd → sees w b w' → K w → K w') (h : Watch moves sees w seen w')
    (hw : K w) : K w' ∧ ∀ p ∈ seen, K p.1 := by
  induction h with
  | nil => exact ⟨hw, by simp⟩
  | move hmove _ ih => exact ih hsees (hmoves _ _ hmove hw)
  | see hsee _ ih =>
    obtain ⟨hw', hall⟩ := ih (fun w b w' hb => hsees w b w' (List.mem_cons_of_mem _ hb))
      (hsees _ _ _ List.mem_cons_self hsee hw)
    exact ⟨hw', List.forall_mem_cons.2 ⟨hw, hall⟩⟩

/-- An invariant `J` of the world and the program, kept by the moves of the world and by every step of a path together
with what the world sees of it, is kept by the path; and what is seen of every step is good. -/
theorem Path.watched {R : σ → κ → List γ → σ → Prop} {P : κ → Prop} {f : γ → Option β} (J : ω → σ → Prop)
    (good : ω → β → Prop) (hmoves : ∀ w w' s, moves w w' → J w s → J w' s)
    (hstep : ∀ s k os s' w seen w', P k → R s k os s' → Watch moves sees w seen w' →
      seen.map Prod.snd = os.filterMap f → J w s → J w' s' ∧ ∀ p ∈ seen, good p.1 p.2)
    {s s' : σ} {os : List γ} (h : Path R P s os s') (hwatch : Watch moves sees w seen w')
    (hseen : seen.map Prod.snd = os.filterMap f) (hJ : J w s) : J w' s' ∧ ∀ p ∈ seen, good p.1 p.2 := by
  induction h generalizing w seen with
  | nil =>
    rw [List.filterMap_nil, List.map_eq_nil_iff] at hseen
    subst hseen
    exact ⟨(hwatch.keeps (fun x => J x _) (fun _ _ => hmoves _ _ _) (by simp) hJ).1, by simp⟩
  | cons hs hk _ ih =>
    rw [List.filterMap_append, List.map_eq_append_iff] at hseen
    obtain ⟨seen₁, seen₂, rfl, hseen₁, hseen₂⟩ := hseen
    obtain ⟨w₁, hwatch₁, hwatch₂⟩ := hwatch.append_inv
    obtain ⟨hJ₁, hgood₁⟩ := hstep _ _ _ _ _ _ _ hk hs hwatch₁ hseen₁ hJ
    obtain ⟨hJ', hgood₂⟩ := ih hwatch₂ hseen₂ hJ₁
    exact ⟨hJ', fun p hp => (List.mem_append.1 hp).elim (hgood₁ p) (hgood₂ p)⟩

end Environments

end Transition
