import Mcon.SlotTable

/-!
# Connections

What the slots say about whole runs: the free stack and the open sessions partition the slots, and every
completion an application sees answers one earlier call on the same connection.
-/

namespace Mcon

open Transition (Run AllOk history finalState)

variable {C : Ctools} {m : Instance C} {A : Nat → Slot} {h : History}

/-! ### The partition -/

namespace Represents

/-- The free stack is a list of the slots without a socket. -/
theorem contents_perm (hrep : Represents m A) :
    (C.idxStack.contents m.sessionFreeStack).Perm
      ((List.range m.configuration.sessionCount.toNat).filter fun s => (m.session s).socketFd == -1) := by
  rw [List.perm_ext_iff_of_nodup hrep.nodup (List.nodup_range.filter _)]
  intro s
  rw [hrep.mem_stack, List.mem_filter, List.mem_range, beq_iff_eq]
  exact and_congr_right fun hs => (hrep.free_iff s hs).symm

theorem activeSessionCount (hrep : Represents m A) (hm : WellFormed m) :
    (mconActiveSessionCount m).toNat =
      (List.range m.configuration.sessionCount.toNat).countP fun s => (m.session s).socketFd != -1 := by
  have hsize : C.idxStack.size m.sessionFreeStack =
      (List.range m.configuration.sessionCount.toNat).countP fun s => (m.session s).socketFd == -1 := by
    rw [C.idxStack.size_eq, hrep.contents_perm.length_eq, List.countP_eq_length_filter]
  have hsplit := List.length_eq_countP_add_countP (fun s => (m.session s).socketFd == -1)
    (l := List.range m.configuration.sessionCount.toNat)
  have hneg : (fun s => decide ¬((m.session s).socketFd == -1) = true) = fun s => (m.session s).socketFd != -1 := by
    funext s
    cases h : (m.session s).socketFd == -1 <;> simp [bne, h]
  rw [List.length_range, ← hsize, hneg] at hsplit
  rw [hm.activeSessionCount.2]
  omega

end Represents

/-- In every reachable state the free stack and the sessions with an open socket partition the slots; no push on
the free stack has failed, and between two openings of a slot its first connection ended. -/
theorem free_stack_partitions_slots (he : Execution NoEnoent h m) :
    (C.idxStack.contents m.sessionFreeStack).Nodup ∧
      (∀ s, s ∈ C.idxStack.contents m.sessionFreeStack ↔
        s < m.configuration.sessionCount.toNat ∧ (m.session s).socketFd = -1) ∧
      (∀ s, Act.stackPush s false ∉ actsOf h) ∧
      (∀ s l₁ l₂ l₃, slotLog h s = l₁ ++ .opened :: (l₂ ++ .opened :: l₃) → ∃ e ∈ l₂, Slot.Release e) ∧
      (mconActiveSessionCount m).toNat =
        (List.range m.configuration.sessionCount.toNat).countP fun s => (m.session s).socketFd != -1 := by
  obtain ⟨A, hm, hrep, hrun, hpush⟩ := he.represents
  refine ⟨hrep.nodup, fun s => ?_, hpush, ?_, hrep.activeSessionCount hm⟩
  · rw [hrep.mem_stack]
    exact and_congr_right fun hs => (hrep.free_iff s hs).symm
  · intro s l₁ l₂ l₃ hlog
    have := hrun s
    rw [hlog] at this
    exact Slot.release_between this

/-- Two slots, one connection. -/
theorem free_stack_partitions_slots_connected :
    (mconActiveSessionCount
      (finalState step (freshInstance (smallConfig 2 4 1)) (startInput :: serverInput :: connectInputs 20))).toNat =
      1 := by
  have hrun : Execution NoEnoent _ _ := Execution.of_inputs (smallConfig 2 4 1) (by decide)
    (startInput :: serverInput :: connectInputs 20)
    (.of_forall (by simp [NoEnoent, startInput, serverInput, connectInputs, completeInputs, ringInput]) _)
  rw [(free_stack_partitions_slots hrun).2.2.2.2]
  decide

/-! ### Completions -/

/-- The number of operations of a slot that are outstanding. -/
def outstandingCount (m : Instance C) (op : SlotOp) (s : Nat) : Nat := m.outstanding.count (op.entry s)

/-- In every reachable state the bits of a session count its outstanding operations, and every answer the
application has seen of a slot belongs to one earlier call on the same connection. -/
theorem state_bits_count_operations (he : Execution NoEnoent h m) :
    (∀ s < m.configuration.sessionCount.toNat,
      outstandingCount m (.reading .read) s + outstandingCount m (.reading .drain) s =
        (if (m.session s).state &&& stateReading = 0 then 0 else 1) ∧
      outstandingCount m .write s = (if (m.session s).state &&& stateWriting = 0 then 0 else 1) ∧
      outstandingCount m .close s = (if (m.session s).state &&& stateClosing = 0 then 0 else 1) ∧
      ((m.session s).state &&& stateClosing ≠ 0 → ∀ op, op ≠ .close → outstandingCount m op s = 0) ∧
      ((m.session s).socketFd = -1 → ∀ op, outstandingCount m op s = 0)) ∧
      (∀ s, m.configuration.sessionCount.toNat ≤ s → ∀ op, outstandingCount m op s = 0) ∧
      ∀ s op l₁ l₂, slotLog h s = l₁ ++ .answered op :: l₂ →
        ∃ l₃ l₄, l₁ = l₃ ++ .called op :: l₄ ∧ ∀ e ∈ l₄, Slot.Unrelated op e := by
  obtain ⟨A, hm, hrep, hrun, -⟩ := he.represents
  refine ⟨fun s hs => ?_, fun s hs op => ?_, fun s op l₁ l₂ hlog => ?_⟩
  · have hreading := hrep.bits_iff s hs .reading
    have hwriting := hrep.bits_iff s hs .writing
    have hclosing := hrep.bits_iff s hs .closing
    simp only [Side.bits] at hreading hwriting hclosing
    simp only [outstandingCount, hrep.count, hrep.free_iff s hs, hreading, hwriting, hclosing, ne_eq]
    rcases A s with _ | ⟨_ | _ | _, _ | _⟩ | _
    all_goals simp [Slot.pending, Slot.occupied]
    all_goals rintro (_ | _ | _) <;> simp
  · rw [outstandingCount, hrep.count, hrep.outside s hs]
    cases op <;> rfl
  · have := hrun s
    rw [hlog] at this
    exact Slot.called_of_answered this

/-- A connection, a read and its answer: the answer is seen once, after its call. -/
theorem state_bits_count_operations_read :
    ∃ l₃ l₄, [SlotEvent.opened, .called (.reading .read)] = l₃ ++ .called (.reading .read) :: l₄ ∧
      ∀ e ∈ l₄, Slot.Unrelated (.reading .read) e := by
  have hrun : Execution NoEnoent _ _ := Execution.of_inputs (smallConfig 2 4 1) (by decide)
    (startInput :: serverInput :: connectInputs 20 ++ [.read 0 1000 8, .submit 2] ++ completeInputs 8 ++
      [ringInput])
    (.of_forall (by simp [NoEnoent, startInput, serverInput, connectInputs, completeInputs, ringInput]) _)
  exact (state_bits_count_operations hrun).2.2 0 (.reading .read) [.opened, .called (.reading .read)] []
    (by decide)

end Mcon
