import Mcon.SlotTable

/-!
# The sessions handed out

Which session a new connection gets.  The free stack is a function of what the application has seen so far: it starts
as all sessions in order, an opening takes its first one, and a session comes back to the front when its close is
answered or it is detached.
-/

namespace Mcon

open Transition (Run Path AllOk history finalState)

variable {C : Ctools} {m m' : Instance C} {k : StepKind} {obs : List Obs}

/-- The free sessions after one event of a slot; `none` when an opening does not take the first one. -/
def handOut (free : List Nat) : Nat × SlotEvent → Option (List Nat)
  | (s, .opened) => if free.head? = some s then some free.tail else none
  | (s, e) => some (if Slot.Release e then s :: free else free)

theorem handOut_of_ne {e : SlotEvent} (he : e ≠ .opened) (free : List Nat) (s : Nat) :
    handOut free (s, e) = some (if Slot.Release e then s :: free else free) := by
  cases e with
  | opened => exact absurd rfl he
  | _ => rfl

theorem handOut_opened {free free' : List Nat} {s : Nat} (h : handOut free (s, .opened) = some free') :
    free = s :: free' := by
  rw [handOut] at h
  split at h
  · rename_i hhead
    cases h
    exact (List.cons_head?_tail hhead).symm
  · cases h

/-- The free sessions after a log. -/
def handOutAll (free : List Nat) (log : List (Nat × SlotEvent)) : Option (List Nat) := log.foldlM handOut free

theorem handOutAll_append (free : List Nat) (log log' : List (Nat × SlotEvent)) :
    handOutAll free (log ++ log') = (handOutAll free log).bind (handOutAll · log') := List.foldlM_append

/-- The free sessions of an instance follow each step. -/
theorem SmallStep.handOutAll (h : SmallStep m k obs m') (hk : k ≠ .detachEnoent) :
    handOutAll (C.idxStack.contents m.sessionFreeStack) (obs.filterMap Obs.slot?) =
      some (C.idxStack.contents m'.sessionFreeStack) := by
  cases h with
  | kernel => simp [List.filterMap_map, Function.comp_def, Obs.slot?, Mcon.handOutAll]
  | request => rfl
  | acceptRollback _ _ _ hpop hpush =>
    exact congrArg some ((C.idxStack.contents_pop _ _ _ hpop).trans (C.idxStack.contents_push _ _ _ hpush).symm)
  | @accepted cqe rest s stack _ _ _ hpop =>
    show (handOut (C.idxStack.contents m.sessionFreeStack) (s, .opened)).bind _ = some (C.idxStack.contents stack)
    rw [handOut, C.idxStack.contents_pop _ _ _ hpop]
    simp
  | @transferred cqe rest s op _ _ hclose =>
    have hnot : ¬ Slot.Release (.answered op) := by simp [Slot.Release, hclose]
    show (handOut _ (s, .answered op)).bind _ = some (C.idxStack.contents m.sessionFreeStack)
    rw [handOut_of_ne (by simp), if_neg hnot]
    rfl
  | @closed cqe rest s stack _ _ hpush =>
    show some (s :: C.idxStack.contents m.sessionFreeStack) =
      some (C.idxStack.contents (closeDone m s stack).sessionFreeStack)
    rw [closeDone_freeStack, C.idxStack.contents_push _ _ _ hpush]
  | @detached s stack _ hpush =>
    show some (s :: C.idxStack.contents m.sessionFreeStack) =
      some (C.idxStack.contents (detachDone m s stack).sessionFreeStack)
    rw [detachDone_freeStack, C.idxStack.contents_push _ _ _ hpush]
  | @detachUndone s popped stack stack' err _ hpush hpop =>
    have hcontents := C.idxStack.contents_pop _ _ _ hpop
    rw [C.idxStack.contents_push _ _ _ hpush, List.cons.injEq] at hcontents
    exact congrArg some hcontents.2
  | detachEnoent => exact absurd rfl hk
  | _ => rfl

theorem Calls.handOutAll {acts : List Act} {log : List (Nat × SlotEvent)}
    (h : Calls (fun k => k ≠ .detachEnoent) m acts log m') :
    handOutAll (C.idxStack.contents m.sessionFreeStack) log = some (C.idxStack.contents m'.sessionFreeStack) := by
  obtain ⟨obs, hpath, -, rfl⟩ := h
  induction hpath with
  | nil => rfl
  | cons hstep hk _ ih =>
    rw [List.filterMap_append, handOutAll_append, hstep.handOutAll hk]
    exact ih

theorem Execution.handOutAll {h : History} (he : Execution DetachesWhole h m) :
    handOutAll (List.range m.configuration.sessionCount.toNat) (h.flatMap slotEventsOf) =
      some (C.idxStack.contents m.sessionFreeStack) := by
  obtain ⟨config, instanceId, eventfd, -, -, -, hcalls⟩ :=
    he.calls_of (P := fun k => k ≠ .detachEnoent)
      fun _ _ hok hm => (calls_step_whole hm hok).mono fun _ hk => hk.2
  have hall := hcalls.handOutAll
  rw [newInstance_contents] at hall
  rw [hcalls.frame.configuration]
  exact hall

/-- Openings and ends of connections in a log account for the number of free sessions. -/
theorem length_of_handOutAll {free free' : List Nat} {log : List (Nat × SlotEvent)}
    (h : handOutAll free log = some free') :
    free'.length + log.countP (fun p => p.2 = .opened) =
      free.length + log.countP (fun p => Slot.Release p.2) := by
  induction log generalizing free with
  | nil =>
    cases h
    rfl
  | cons p log ih =>
    obtain ⟨s, e⟩ := p
    obtain ⟨free₁, hone, hrest⟩ := Option.bind_eq_some_iff.1 (show (handOut free (s, e)).bind _ = some free' from h)
    have hlog := ih hrest
    rw [List.countP_cons, List.countP_cons]
    by_cases he : e = .opened
    · subst he
      obtain rfl := handOut_opened hone
      have hnot : ¬ Slot.Release .opened := by decide
      simp only [List.length_cons, hnot, decide_true, decide_false, if_true, Bool.false_eq_true, if_false]
      omega
    · rw [handOut_of_ne he] at hone
      cases hone
      simp only [he, decide_false, Bool.false_eq_true, if_false]
      split at hlog
      · rename_i hrelease
        simp only [hrelease, decide_true, if_true]
        rw [List.length_cons] at hlog
        omega
      · rename_i hkept
        simp only [hkept, decide_false, Bool.false_eq_true, if_false]
        omega

/-! ### What the application can tell -/

/-- In every run without a half-done detach, a new connection gets the session that came free last, and if all that
came free are in use the first one that was never used. -/
theorem new_connection_gets_last_freed_session {h : History} (he : Execution DetachesWhole h m)
    {log log' : List (Nat × SlotEvent)} {s : Nat} (hlog : h.flatMap slotEventsOf = log ++ (s, .opened) :: log') :
    ∃ free, handOutAll (List.range m.configuration.sessionCount.toNat) log = some (s :: free) := by
  have hall := he.handOutAll
  rw [hlog, handOutAll_append] at hall
  obtain ⟨free, hfree, hrest⟩ := Option.bind_eq_some_iff.1 hall
  obtain ⟨free', hone, -⟩ := Option.bind_eq_some_iff.1
    (show (handOut free (s, .opened)).bind (handOutAll · log') = _ from hrest)
  exact ⟨free', (handOut_opened hone) ▸ hfree⟩

/-- Two of three sessions are opened, the first is closed, and another connection comes. -/
def reopenInputs : List Input :=
  startInput :: serverInput :: connectInputs 20 ++ connectInputs 21 ++ [.close 0, .submit 2] ++ completeInputs 0 ++
    [ringInput, .submit 1] ++ completeInputs 22 ++ [ringInput]

theorem reopenInputs_execution :
    Execution DetachesWhole (history step (freshInstance (smallConfig 3 4 1)) reopenInputs)
      (finalState step (freshInstance (smallConfig 3 4 1)) reopenInputs) :=
  .of_inputs (smallConfig 3 4 1) (by decide) reopenInputs (.of_forall (fun i hi m => NoEnoent.detachesWhole (by
    revert i
    simp [NoEnoent, reopenInputs, startInput, serverInput, connectInputs, completeInputs, ringInput])) _)

theorem reopenInputs_log :
    (history step (freshInstance (smallConfig 3 4 1)) reopenInputs).flatMap slotEventsOf =
      [(0, .opened), (1, .opened), (0, .called .close), (0, .answered .close), (0, .opened)] := by
  decide

/-- The other connection gets the session that was closed, not the third one. -/
theorem new_connection_gets_last_freed_session_reopened :
    let m := finalState step (freshInstance (smallConfig 3 4 1)) reopenInputs
    ∃ free, handOutAll (List.range m.configuration.sessionCount.toNat)
      [(0, .opened), (1, .opened), (0, .called .close), (0, .answered .close)] = some (0 :: free) := by
  have hlog : (history step (freshInstance (smallConfig 3 4 1)) reopenInputs).flatMap slotEventsOf =
      [(0, .opened), (1, .opened), (0, .called .close), (0, .answered .close)] ++ (0, .opened) :: [] :=
    reopenInputs_log
  exact new_connection_gets_last_freed_session reopenInputs_execution hlog

/-- In every run without a half-done detach, the number of active sessions is that of the connections reported so far
less that of the closes reported and the detaches. -/
theorem active_sessions_are_opened_less_ended {h : History} (he : Execution DetachesWhole h m) :
    (mconActiveSessionCount m).toNat + (h.flatMap slotEventsOf).countP (fun p => Slot.Release p.2) =
      (h.flatMap slotEventsOf).countP fun p => p.2 = .opened := by
  have hlength := length_of_handOutAll he.handOutAll
  obtain ⟨hle, hcount⟩ := he.wellFormed.activeSessionCount
  rw [List.length_range, ← C.idxStack.size_eq] at hlength
  omega

theorem active_sessions_are_opened_less_ended_reopened :
    (mconActiveSessionCount (finalState step (freshInstance (smallConfig 3 4 1)) reopenInputs)).toNat + 1 = 3 := by
  have h := active_sessions_are_opened_less_ended reopenInputs_execution
  rw [reopenInputs_log] at h
  simpa [Slot.Release] using h

end Mcon
