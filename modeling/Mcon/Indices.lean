import Mcon.WellFormed

/-!
# Session indices

Every session index an instance holds, on its free stack or in an operation under way, is one of its table; an
accept carries `MCON_NO_SESSION`.  A detach that fails half-way does not break this.
-/

namespace Mcon

open Transition (Run Path)

variable {C : Ctools} {m m' : Instance C} {k : StepKind} {obs : List Obs}

/-- The operations the program queues when there are `n` sessions. -/
inductive ValidEntry (n : Nat) : IoUringEntry → Prop
  | accept : ValidEntry n ⟨.accept, mconNoSession⟩
  | session (op : SlotOp) {s : Nat} : s < n → ValidEntry n (op.entry s)

theorem ValidEntry.lt {n s : Nat} {op : SlotOp} (h : ValidEntry n (op.entry s)) : s < n := by
  generalize he : op.entry s = e at h
  cases h with
  | accept => exact absurd (congrArg IoUringEntry.operation he) op.operation_ne_accept
  | session op' hlt =>
    obtain ⟨-, rfl⟩ := SlotOp.entry_inj he
    exact hlt

theorem ValidEntry.operation_ne_unknown {n : Nat} {e : IoUringEntry} (h : ValidEntry n e) : e.operation ≠ .unknown := by
  cases h with
  | accept => simp
  | session op _ => rcases op with (_ | _) | _ | _ <;> simp [SlotOp.entry, SlotOp.operation]

/-- An access to the session table is one to its first `n` records, a completion that is posted one of an operation
the program queues. -/
def Obs.Valid (n : Nat) : Obs → Prop
  | act (.sessionsAt s) => s < n
  | act (.post cqe) => ValidEntry n cqe.userData
  | _ => True

structure ValidIndices (m : Instance C) : Prop where
  stack : ∀ s ∈ C.idxStack.contents m.sessionFreeStack, s < m.configuration.sessionCount.toNat
  outstanding : ∀ e ∈ m.outstanding, ValidEntry m.configuration.sessionCount.toNat e

theorem newInstance_validIndices (instanceId : UInt16) (eventfd : Int) (config : Config) :
    ValidIndices (newInstance C instanceId eventfd config) := by
  constructor
  · intro s hs
    rw [newInstance_contents] at hs
    exact List.mem_range.1 hs
  · intro e he
    rw [newInstance_outstanding] at he
    cases he

namespace ValidIndices

variable (hv : ValidIndices m)

include hv

/-- A step that adds valid indices only. -/
theorem of_subset (hconfig : m'.configuration = m.configuration)
    (hstack : ∀ s ∈ C.idxStack.contents m'.sessionFreeStack,
      s ∈ C.idxStack.contents m.sessionFreeStack ∨ s < m.configuration.sessionCount.toNat)
    (hout : ∀ e ∈ m'.outstanding, e ∈ m.outstanding ∨ ValidEntry m.configuration.sessionCount.toNat e) :
    ValidIndices m' := by
  constructor
  · intro s hs
    rw [hconfig]
    exact (hstack s hs).elim (hv.stack s) id
  · intro e he
    rw [hconfig]
    exact (hout e he).elim (hv.outstanding e) id

/-- The operation of a completion that can be peeked at. -/
theorem of_cq {cqe : Cqe} {rest : List Cqe} (hcq : m.ring.cq = cqe :: rest) :
    ValidEntry m.configuration.sessionCount.toNat cqe.userData :=
  hv.outstanding _ ((outstanding_cqeSeen m hcq).mem_iff.2 List.mem_cons_self)

theorem lt_of_cq {cqe : Cqe} {rest : List Cqe} {op : SlotOp} {s : Nat} (hcq : m.ring.cq = cqe :: rest)
    (hdata : cqe.userData = op.entry s) : s < m.configuration.sessionCount.toNat :=
  ValidEntry.lt (hdata ▸ hv.of_cq hcq)

theorem lt_of_pop {s : Nat} {stack : C.idxStack.Carrier} (hpop : C.idxStack.pop m.sessionFreeStack = some (s, stack)) :
    s < m.configuration.sessionCount.toNat := by
  apply hv.stack
  rw [C.idxStack.contents_pop _ _ _ hpop]
  exact List.mem_cons_self

theorem smallStep (h : SmallStep m k obs m') : ValidIndices m' := by
  have hconfig := h.frame.configuration
  have hseen : ∀ {cqe rest}, m.ring.cq = cqe :: rest → ∀ e ∈ m.cqeSeen.outstanding, e ∈ m.outstanding :=
    fun hcq e he => (outstanding_cqeSeen m hcq).mem_iff.2 (List.mem_cons_of_mem _ he)
  have hpushed : ∀ {s stack}, C.idxStack.push m.sessionFreeStack s = some stack →
      s < m.configuration.sessionCount.toNat → ∀ t ∈ C.idxStack.contents stack,
        t ∈ C.idxStack.contents m.sessionFreeStack ∨ t < m.configuration.sessionCount.toNat := by
    intro s stack hpush hs t ht
    rw [C.idxStack.contents_push _ _ _ hpush] at ht
    rcases List.mem_cons.1 ht with rfl | ht
    · exact .inr hs
    · exact .inl ht
  cases h with
  | kernel hstep =>
    exact hv.of_subset hconfig (fun _ hs => .inl hs) fun e he => .inl ((outstanding_kernel m hstep).mem_iff.1 he)
  | request hvalid hdata _ _ hpush =>
    refine hv.of_subset hconfig (fun _ hs => .inl hs) fun e he => ?_
    have hmem := (outstanding_push m hpush).mem_iff.1 he
    rw [hdata] at hmem
    rcases List.mem_cons.1 hmem with rfl | hmem
    · exact .inr (.session _ (validateArgs_none hvalid).1)
    · exact .inl hmem
  | acceptEnqueued _ _ hpush =>
    refine hv.of_subset hconfig (fun _ hs => .inl hs) fun e he => ?_
    rcases List.mem_cons.1 ((outstanding_push m hpush).mem_iff.1 he) with rfl | hmem
    · exact .inr .accept
    · exact .inl hmem
  | pop hpop =>
    exact hv.of_subset hconfig (fun _ hs => .inl hs) fun e he => .inl ((outstanding_pop m hpop).mem_iff.1 he)
  | submitted =>
    exact hv.of_subset hconfig (fun _ hs => .inl hs) fun e he => .inl ((outstanding_ringTaken m _).mem_iff.1 he)
  | acceptAgain hcq => exact hv.of_subset hconfig (fun _ hs => .inl hs) fun e he => .inl (hseen hcq e he)
  | acceptFailed hcq => exact hv.of_subset hconfig (fun _ hs => .inl hs) fun e he => .inl (hseen hcq e he)
  | acceptNoSlot hcq => exact hv.of_subset hconfig (fun _ hs => .inl hs) fun e he => .inl (hseen hcq e he)
  | acceptRollback hcq _ _ hpop hpush =>
    refine hv.of_subset hconfig (fun t ht => .inl ?_) fun e he => .inl (hseen hcq e he)
    rw [C.idxStack.contents_push _ _ _ hpush] at ht
    rw [C.idxStack.contents_pop _ _ _ hpop]
    exact ht
  | accepted hcq _ _ hpop =>
    refine hv.of_subset hconfig (fun t ht => .inl ?_) fun e he => .inl (hseen hcq e he)
    rw [C.idxStack.contents_pop _ _ _ hpop]
    exact List.mem_cons_of_mem _ ht
  | transferred hcq => exact hv.of_subset hconfig (fun _ hs => .inl hs) fun e he => .inl (hseen hcq e he)
  | @closed _ _ s stack hcq hdata hpush =>
    have hstack : (countDown (closeDone m s stack)).sessionFreeStack = stack := closeDone_freeStack _ _ _
    have hout : (countDown (closeDone m s stack)).outstanding = m.cqeSeen.outstanding := closeDone_outstanding _ _ _
    refine hv.of_subset hconfig ?_ fun e he => .inl (hseen hcq e (hout ▸ he))
    rw [hstack]
    exact hpushed hpush (hv.lt_of_cq hcq hdata)
  | @detached s stack hvalid hpush =>
    refine hv.of_subset hconfig ?_ fun e he => .inl (by rwa [detachDone_outstanding] at he)
    rw [detachDone_freeStack]
    exact hpushed hpush (validateArgs_none hvalid).1
  | detachUndone _ hpush hpop =>
    refine hv.of_subset hconfig (fun t ht => .inl ?_) fun e he => .inl he
    have hcontents := C.idxStack.contents_pop _ _ _ hpop
    rw [C.idxStack.contents_push _ _ _ hpush, List.cons.injEq] at hcontents
    rw [hcontents.2]
    exact ht
  | detachEnoent hvalid hpush =>
    exact hv.of_subset hconfig (hpushed hpush (validateArgs_none hvalid).1) fun e he => .inl he
  | _ => exact hv.of_subset hconfig (fun _ hs => .inl hs) fun e he => .inl he

/-- The session table is indexed within its bounds, and every completion is one of a known operation. -/
theorem smallStep_obs (h : SmallStep m k obs m') : ∀ o ∈ obs, o.Valid m.configuration.sessionCount.toNat := by
  cases h with
  | kernel hstep =>
    cases hstep with
    | @post index cqe hget =>
      have hmem : cqe.userData ∈ m.outstanding := by
        simp only [Instance.outstanding, Ring.entries, List.mem_append]
        exact .inr (.inl (.inr (List.mem_map_of_mem (List.mem_of_getElem? hget))))
      simpa [Obs.Valid] using hv.outstanding _ hmem
    | _ => simp [Obs.Valid]
  | request hvalid => simp [Obs.Valid, (validateArgs_none hvalid).1]
  | acceptRollback _ _ _ hpop => simp [Obs.Valid, hv.lt_of_pop hpop]
  | accepted _ _ _ hpop => simp [Obs.Valid, hv.lt_of_pop hpop]
  | transferred hcq hdata => simp [Obs.Valid, hv.lt_of_cq hcq hdata]
  | closed hcq hdata => simp [Obs.Valid, hv.lt_of_cq hcq hdata]
  | detached hvalid => simp [Obs.Valid, (validateArgs_none hvalid).1]
  | detachUndone hvalid => simp [Obs.Valid, (validateArgs_none hvalid).1]
  | detachEnoent hvalid => simp [Obs.Valid, (validateArgs_none hvalid).1]
  | detachNoRoom hvalid => simp [Obs.Valid, (validateArgs_none hvalid).1]
  | look hlt hact => rcases hact with rfl | ⟨err, rfl⟩ <;> simp [Obs.Valid, hlt]
  | eventfd hact => rcases hact with rfl | rfl <;> simp [Obs.Valid]
  | _ => simp [Obs.Valid]

end ValidIndices

/-- The same for the actions of a call. -/
theorem ValidIndices.calls {P : StepKind → Prop} {acts : List Act} {log : List (Nat × SlotEvent)}
    (hv : ValidIndices m) (h : Calls P m acts log m') :
    (∀ s, Act.sessionsAt s ∈ acts → s < m.configuration.sessionCount.toNat) ∧
      ∀ cqe, Act.post cqe ∈ acts → ValidEntry m.configuration.sessionCount.toNat cqe.userData := by
  obtain ⟨obs, hpath, hacts, -⟩ := h
  have hall := hpath.forall_mem (fun x => ValidIndices x ∧ x.configuration = m.configuration)
    (Obs.Valid m.configuration.sessionCount.toNat) ?_ ⟨hv, rfl⟩
  · exact ⟨fun s hs => hall _ ((Obs.mem_acts_iff hacts).1 hs), fun cqe hs => hall _ ((Obs.mem_acts_iff hacts).1 hs)⟩
  · rintro x k obs x' - hs ⟨hx, hconfig⟩
    have hobs := hx.smallStep_obs hs
    rw [hconfig] at hobs
    exact ⟨⟨hx.smallStep hs, hs.frame.configuration.trans hconfig⟩, hobs⟩

theorem Execution.validIndices {ok : Instance C → Input → Prop} {h : History} (he : Execution ok h m) :
    ValidIndices m :=
  (he.invariant (P := fun _ => True) (fun _ _ _ _ _ => trivial) ValidIndices
    (fun _ _ _ _ => newInstance_validIndices _ _ _) (fun _ _ _ _ _ hs _ hv => hv.smallStep hs)).2

end Mcon
