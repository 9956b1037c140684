import Mcon.SlotTable

/-!
# When a session call is refused

The table of slots is exact in both directions: a session call is carried out when the life of its slot so far allows
it, and refused when it does not, with `EINVAL` outside the table and `EBUSY` inside it.  Beyond that only the io_queue
and the `EPOLL_CTL_DEL` of a detach can make it fail.
-/

namespace Mcon

open Transition (Run AllOk history finalState)

variable {C : Ctools} {m : Instance C} {A : Nat → Slot} {i : Input} {s : Nat} {e : SlotEvent}

/-! ### What a slot allows -/

namespace Slot

theorem next_called_isSome_iff (x : Slot) (op : SlotOp) :
    (x.next (.called op)).isSome ↔ x ≠ .free ∧ ∀ side ∈ op.blockers, x.occupied side = false := by
  constructor
  · intro h
    rcases x with _ | ⟨r, w⟩ | _
    · rcases op with _ | _ | _ <;> simp [next] at h
    · rcases op with _ | _ | _ <;> rcases r with _ | kind <;> rcases w with _ | _ <;> simp [next] at h <;>
        simp [SlotOp.blockers, occupied]
    · rcases op with _ | _ | _ <;> simp [next] at h
  · rintro ⟨hx, hfree⟩
    obtain ⟨y, hy⟩ := next_called_of_blockers hx hfree
    rw [hy]
    rfl

/-- A slot lets a connection go when it lets it be closed. -/
theorem next_detached_isSome (x : Slot) : (x.next .detached).isSome = (x.next (.called .close)).isSome := by
  rcases x with _ | ⟨_ | kind, _ | _⟩ | _ <;> rfl

end Slot

theorem SlotOp.and_incompatible_iff (x : UInt8) (op : SlotOp) :
    x &&& op.incompatible = 0 ↔ ∀ side ∈ op.blockers, x &&& side.bits = 0 := by
  refine ⟨SlotOp.and_incompatible, fun h => ?_⟩
  rcases op with _ | _ | _ <;>
    simpa [SlotOp.blockers, SlotOp.incompatible, and_or_eq_zero, Side.bits, and_assoc] using h

/-- The answer of `VALIDATE_ARGS` from the slot. -/
theorem Represents.validateArgs_eq (hrep : Represents m A) (op : SlotOp) (s : Nat) :
    validateArgs m s op.incompatible =
      if m.configuration.sessionCount.toNat ≤ s then some Errno.einval
      else if ((A s).next (.called op)).isSome then none else some Errno.ebusy := by
  unfold validateArgs
  by_cases hs : m.configuration.sessionCount.toNat ≤ s
  · rw [if_pos hs, if_pos hs]
  · rw [if_neg hs, if_neg hs]
    have hlt := Nat.lt_of_not_le hs
    have hbits : (m.session s).state &&& op.incompatible = 0 ↔ ∀ side ∈ op.blockers, (A s).occupied side = false := by
      rw [SlotOp.and_incompatible_iff]
      exact forall₂_congr fun side _ => hrep.bits_iff s hlt side
    have hallowed : ((A s).next (.called op)).isSome ↔
        mconSessionIsActive m s = true ∧ (m.session s).state &&& op.incompatible = 0 := by
      rw [Slot.next_called_isSome_iff, hrep.isActive_iff hlt, hbits]
    by_cases hok : ((A s).next (.called op)).isSome
    · obtain ⟨hactive, hstate⟩ := hallowed.1 hok
      simp [hok, hactive, hstate]
    · rw [if_neg hok, if_pos]
      rw [hallowed, not_and_or] at hok
      rcases hok with hactive | hstate
      · simp [hactive]
      · simp [hstate]

/-! ### The calls -/

/-- The session that a call is about, and what it means for the slot if it returns `0`. -/
def Input.slotEvent? : Input → Option (Nat × SlotEvent)
  | read session _ _ => some (session, .called (.reading .read))
  | write session _ _ => some (session, .called .write)
  | drain session _ => some (session, .called (.reading .drain))
  | close session => some (session, .called .close)
  | detach session _ => some (session, .detached)
  | _ => none

/-- How a session call ends, given the slot it is about.  A call that is refused or finds no room changes nothing. -/
inductive CallOutcome (m : Instance C) (i : Input) (s : Nat) (e : SlotEvent) (x : Slot) : Prop
  | outside : m.configuration.sessionCount.toNat ≤ s →
      step m i = (m, .ret (-1) (some Errno.einval) []) → CallOutcome m i s e x
  | refused : s < m.configuration.sessionCount.toNat → x.next e = none →
      step m i = (m, .ret (-1) (some Errno.ebusy) [.sessionsAt s]) → CallOutcome m i s e x
  | queueFull : (x.next e).isSome → C.kqueue.capacity m.ioQueue ≤ C.kqueue.size m.ioQueue →
      step m i = (m, .ret (-1) none [.sessionsAt s]) → CallOutcome m i s e x
  | delFailed (err : Int) : (x.next e).isSome → i = .detach s (some err) →
      (step m i).2.rc = -1 → (step m i).2.errno = some err → CallOutcome m i s e x
  | done : (x.next e).isSome → (step m i).2.rc = 0 → (step m i).2.errno = none → CallOutcome m i s e x

/-- The four calls that push a submission. -/
private theorem sessionRequest_outcome (hm : WellFormed m) (hrep : Represents m A) (op : SlotOp) (sqe : Sqe)
    (hsqe : sqe.userData = op.entry s) (hstep : step m i = sessionRequest m s op.incompatible sqe op.bits) :
    CallOutcome m i s (.called op) (A s) := by
  have hvalid := hrep.validateArgs_eq op s
  unfold sessionRequest validateActs at hstep
  by_cases hs : m.configuration.sessionCount.toNat ≤ s
  · rw [if_pos hs] at hvalid
    rw [hvalid, if_pos hs] at hstep
    exact .outside hs hstep
  · rw [if_neg hs] at hvalid hstep
    by_cases hok : ((A s).next (.called op)).isSome
    · rw [if_pos hok] at hvalid
      simp only [hvalid] at hstep
      obtain ⟨priority, hpriority⟩ : ∃ priority, ioQueuePriority sqe.userData.operation = some priority := by
        rw [hsqe]
        rcases op with (_ | _) | _ | _ <;> exact ⟨_, rfl⟩
      have hlt : priority < C.kqueue.groups m.ioQueue := by
        rw [hm.queue_groups]
        rw [hsqe] at hpriority
        rcases op with (_ | _) | _ | _ <;> cases hpriority <;> decide
      cases hpush : C.kqueue.push m.ioQueue priority sqe with
      | none =>
        refine .queueFull hok (C.kqueue.push_eq_none _ _ _ hlt hpush) ?_
        simpa only [ioQueuePush, hpriority, hpush] using hstep
      | some ioq =>
        simp only [ioQueuePush, hpriority, hpush] at hstep
        exact .done hok (by rw [hstep]; rfl) (by rw [hstep]; rfl)
    · rw [if_neg hok] at hvalid
      rw [hvalid] at hstep
      exact .refused (Nat.lt_of_not_le hs) (Option.not_isSome_iff_eq_none.1 hok) hstep

private theorem detach_outcome (hm : WellFormed m) (hrep : Represents m A) (delErr : Option Int) :
    CallOutcome m (.detach s delErr) s .detached (A s) := by
  have hvalid : validateArgs m s (stateReading ||| stateWriting ||| stateClosing) =
      if m.configuration.sessionCount.toNat ≤ s then some Errno.einval
      else if ((A s).next .detached).isSome then none else some Errno.ebusy := by
    rw [Slot.next_detached_isSome]
    exact hrep.validateArgs_eq .close s
  have hnone : validateArgs m s (stateReading ||| stateWriting ||| stateClosing) = none →
      ((A s).next .detached).isSome := by
    intro h
    rw [hvalid] at h
    by_contra hno
    rw [if_neg hno] at h
    split at h <;> cases h
  cases mconSessionDetach_outcome m s delErr with
  | refused err hrefused hcall =>
    have hstep : step m (.detach s delErr) = (m, .ret (-1) (some err) (validateActs m s)) := hcall
    unfold validateActs at hstep
    rw [hrefused] at hvalid
    by_cases hs : m.configuration.sessionCount.toNat ≤ s
    · rw [if_pos hs] at hvalid hstep
      cases hvalid
      exact .outside hs hstep
    · rw [if_neg hs] at hvalid hstep
      split at hvalid
      · cases hvalid
      · rename_i hno
        cases hvalid
        exact .refused (Nat.lt_of_not_le hs) (Option.not_isSome_iff_eq_none.1 hno) hstep
  | noRoom hok hpush =>
    have hfree : A s ≠ .free := by
      have h := hnone hok
      intro hx
      rw [hx] at h
      cases h
    obtain ⟨stack, hstack⟩ := hrep.push_isSome hm hfree
    rw [hpush] at hstack
    cases hstack
  | done stack hok _ hdel hcall =>
    have hstep : step m (.detach s delErr) = _ := hcall
    exact .done (hnone hok) (by rw [hstep]; rfl) (by rw [hstep]; rfl)
  | undone stack stack' err hok _ _ hdel _ hcall =>
    have hstep : step m (.detach s delErr) = _ := hcall
    exact .delFailed err (hnone hok) (by rw [hdel]) (by rw [hstep]; rfl) (by rw [hstep]; rfl)
  | halfDone stack hok _ hdel hcall =>
    have hstep : step m (.detach s delErr) = _ := hcall
    exact .delFailed Errno.enoent (hnone hok) (by rw [hdel]) (by rw [hstep]; rfl) (by rw [hstep]; rfl)

/-- The outcome of a session call on an instance with slots. -/
theorem Represents.callOutcome (hm : WellFormed m) (hrep : Represents m A) (hi : i.slotEvent? = some (s, e)) :
    CallOutcome m i s e (A s) := by
  cases i with
  | read => cases hi; exact sessionRequest_outcome hm hrep (.reading .read) _ rfl rfl
  | write => cases hi; exact sessionRequest_outcome hm hrep .write _ rfl rfl
  | drain => cases hi; exact sessionRequest_outcome hm hrep (.reading .drain) _ rfl rfl
  | close => cases hi; exact sessionRequest_outcome hm hrep .close _ rfl rfl
  | detach => cases hi; exact detach_outcome hm hrep _
  | _ => cases hi

/-- After every run without a half-done detach the answer of a session call follows from the life of its slot so far:
`EINVAL` outside the table, `EBUSY` when the slot does not allow the call, and otherwise success, unless the io_queue
is full or the `EPOLL_CTL_DEL` of a detach fails. -/
theorem session_calls_follow_slot_life {h : History} (he : Execution DetachesWhole h m)
    (hi : i.slotEvent? = some (s, e)) :
    ∃ x, Slot.run .free (slotLog h s) = some x ∧ CallOutcome m i s e x := by
  obtain ⟨A, hm, hrep, hrun, -⟩ := he.represents_whole
  exact ⟨A s, hrun s, hrep.callOutcome hm hi⟩

/-- A session with a pending read refuses to be closed. -/
theorem session_calls_follow_slot_life_reading :
    let inputs := startInput :: serverInput :: connectInputs 20 ++ [.read 0 1000 16]
    let m₀ := freshInstance (smallConfig 2 4 1)
    ∃ x, Slot.run .free (slotLog (history step m₀ inputs) 0) = some x ∧
      CallOutcome (finalState step m₀ inputs) (.close 0) 0 (.called .close) x := by
  have hrun : Execution DetachesWhole _ _ := Execution.of_inputs (smallConfig 2 4 1) (by decide)
    (startInput :: serverInput :: connectInputs 20 ++ [.read 0 1000 16])
    (.of_forall (fun i hi m => NoEnoent.detachesWhole (by
      revert i
      simp [NoEnoent, startInput, serverInput, connectInputs, completeInputs, ringInput])) _)
  exact session_calls_follow_slot_life hrun rfl

end Mcon
