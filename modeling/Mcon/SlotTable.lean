import Mcon.Atomicity
import Mcon.WellFormed
import Mathlib.Data.Finset.Card
import Mathlib.Data.Finset.Range

/-!
# The session table is a table of slots

`Represents m A`: the records, the free stack and the outstanding operations of an instance are those of the
slots `A`.  Every small step, but for a detach that fails with `ENOENT`, takes a represented instance to a
represented instance, and what the application sees of each slot meanwhile is legal for it.
-/

namespace Mcon

open Transition (Run Path)

variable {C : Ctools} {m m' : Instance C} {A : Nat → Slot} {k : StepKind} {obs : List Obs}

/-! ### The state byte -/

namespace Side

/-- The bit of the state byte that marks a side as taken. -/
def bits : Side → UInt8
  | reading => stateReading
  | writing => stateWriting
  | closing => stateClosing

theorem bits_and_bits (side side' : Side) : side.bits &&& side'.bits = 0 ↔ side ≠ side' := by
  cases side <;> cases side' <;> decide

theorem rdhup_and_bits (side : Side) : stateRdhup &&& side.bits = 0 := by
  cases side <;> decide

end Side

theorem SlotOp.bits_eq (op : SlotOp) : op.bits = op.side.bits := by
  cases op <;> rfl

theorem and_or_eq_zero (x a b : UInt8) : x &&& (a ||| b) = 0 ↔ x &&& a = 0 ∧ x &&& b = 0 := by
  have hdistrib : x &&& (a ||| b) = x &&& a ||| x &&& b := UInt8.toBitVec_inj.1 BitVec.and_or_distrib_left
  rw [hdistrib, UInt8.or_eq_zero_iff]

theorem or_and_eq_zero (x a b : UInt8) : (x ||| a) &&& b = 0 ↔ x &&& b = 0 ∧ a &&& b = 0 := by
  rw [UInt8.and_comm, and_or_eq_zero, UInt8.and_comm b, UInt8.and_comm b]

/-- Clearing a side frees it and no other. -/
theorem and_not_bits_eq_zero (x : UInt8) (side side' : Side) :
    x &&& ~~~side.bits &&& side'.bits = 0 ↔ x &&& side'.bits = 0 ∨ side' = side := by
  by_cases h : side' = side
  · subst h
    rw [UInt8.and_assoc, UInt8.not_and_self, UInt8.and_zero]
    simp
  · have hkeep : ~~~side.bits &&& side'.bits = side'.bits := by
      cases side <;> cases side' <;> first | exact absurd rfl h | decide
    rw [UInt8.and_assoc, hkeep]
    simp [h]

theorem SlotOp.and_incompatible {x : UInt8} {op : SlotOp} (h : x &&& op.incompatible = 0) :
    ∀ side ∈ op.blockers, x &&& side.bits = 0 := by
  cases op <;> simp_all [incompatible, blockers, Side.bits, and_or_eq_zero]

/-! ### The relation -/

/-- The instance has the slots `A`. -/
structure Represents (m : Instance C) (A : Nat → Slot) : Prop where
  free_iff : ∀ s < m.configuration.sessionCount.toNat, (m.session s).socketFd = -1 ↔ A s = .free
  bits_iff : ∀ s < m.configuration.sessionCount.toNat, ∀ side : Side,
    (m.session s).state &&& side.bits = 0 ↔ (A s).occupied side = false
  outside : ∀ s, m.configuration.sessionCount.toNat ≤ s → A s = .free
  count : ∀ (op : SlotOp) s, m.outstanding.count (op.entry s) = ((A s).pending op).toNat
  nodup : (C.idxStack.contents m.sessionFreeStack).Nodup
  mem_stack : ∀ s, s ∈ C.idxStack.contents m.sessionFreeStack ↔
    s < m.configuration.sessionCount.toNat ∧ A s = .free

theorem newInstance_represents (instanceId : UInt16) (eventfd : Int) (config : Config) :
    Represents (newInstance C instanceId eventfd config) fun _ => .free := by
  constructor
  · simp [newInstance_session, sessionInit]
  · simp [newInstance_session, sessionInit, stateNone, Slot.occupied]
  · simp
  · simp [newInstance_outstanding, Slot.pending]
  · rw [newInstance_contents]
    exact List.nodup_range
  · intro s
    rw [newInstance_contents]
    simp [newInstance]

namespace Represents

/-- A step that changes no descriptor, no side, no outstanding operation and not the contents of the free
stack. -/
theorem congr_bits (hrep : Represents m A) (hconfig : m'.configuration = m.configuration)
    (hfd : ∀ s, (m'.session s).socketFd = (m.session s).socketFd)
    (hbits : ∀ s (side : Side), (m'.session s).state &&& side.bits = 0 ↔ (m.session s).state &&& side.bits = 0)
    (hstack : C.idxStack.contents m'.sessionFreeStack = C.idxStack.contents m.sessionFreeStack)
    (hout : ∀ (op : SlotOp) s, m'.outstanding.count (op.entry s) = m.outstanding.count (op.entry s)) :
    Represents m' A := by
  constructor
  · simpa [hconfig, hfd] using hrep.free_iff
  · simpa [hconfig, hbits] using hrep.bits_iff
  · simpa [hconfig] using hrep.outside
  · simpa [hout] using hrep.count
  · simpa [hstack] using hrep.nodup
  · simpa [hstack, hconfig] using hrep.mem_stack

/-- The same with no record changed at all. -/
theorem congr (hrep : Represents m A) (hconfig : m'.configuration = m.configuration)
    (hsessions : m'.sessions = m.sessions)
    (hstack : C.idxStack.contents m'.sessionFreeStack = C.idxStack.contents m.sessionFreeStack)
    (hout : ∀ (op : SlotOp) s, m'.outstanding.count (op.entry s) = m.outstanding.count (op.entry s)) :
    Represents m' A := by
  have hsession : ∀ s, m'.session s = m.session s := fun s => by rw [Instance.session, hsessions]; rfl
  exact hrep.congr_bits hconfig (fun s => by rw [hsession]) (fun s _ => by rw [hsession]) hstack hout

/-- A step that changes one slot. -/
theorem update (hrep : Represents m A) {s : Nat} (hs : s < m.configuration.sessionCount.toNat) (y : Slot)
    (hconfig : m'.configuration = m.configuration) (hother : ∀ t ≠ s, m'.session t = m.session t)
    (hfd : (m'.session s).socketFd = -1 ↔ y = .free)
    (hbits : ∀ side : Side, (m'.session s).state &&& side.bits = 0 ↔ y.occupied side = false)
    (hcount : ∀ op : SlotOp, m'.outstanding.count (op.entry s) = (y.pending op).toNat)
    (hcount' : ∀ (op : SlotOp), ∀ t ≠ s, m'.outstanding.count (op.entry t) = m.outstanding.count (op.entry t))
    (hnodup : (C.idxStack.contents m'.sessionFreeStack).Nodup)
    (hself : s ∈ C.idxStack.contents m'.sessionFreeStack ↔ y = .free)
    (hmem : ∀ t ≠ s, t ∈ C.idxStack.contents m'.sessionFreeStack ↔ t ∈ C.idxStack.contents m.sessionFreeStack) :
    Represents m' (Function.update A s y) := by
  constructor
  · intro t ht
    rw [hconfig] at ht
    by_cases hts : t = s
    · subst hts; rw [Function.update_self]; exact hfd
    · rw [Function.update_of_ne hts, hother t hts]; exact hrep.free_iff t ht
  · intro t ht side
    rw [hconfig] at ht
    by_cases hts : t = s
    · subst hts; rw [Function.update_self]; exact hbits side
    · rw [Function.update_of_ne hts, hother t hts]; exact hrep.bits_iff t ht side
  · intro t ht
    rw [hconfig] at ht
    have hts : t ≠ s := by omega
    rw [Function.update_of_ne hts]; exact hrep.outside t ht
  · intro op t
    by_cases hts : t = s
    · subst hts; rw [Function.update_self]; exact hcount op
    · rw [Function.update_of_ne hts, hcount' op t hts]; exact hrep.count op t
  · exact hnodup
  · intro t
    rw [hconfig]
    by_cases hts : t = s
    · subst hts; rw [Function.update_self, hself]; simp [hs]
    · rw [Function.update_of_ne hts, hmem t hts]; exact hrep.mem_stack t

theorem lt_of_ne_free (hrep : Represents m A) {s : Nat} (h : A s ≠ .free) :
    s < m.configuration.sessionCount.toNat := by
  by_contra hlt
  exact h (hrep.outside s (Nat.le_of_not_lt hlt))

/-- In the table, `mcon_session_is_active` tells the slots in use. -/
theorem isActive_iff (hrep : Represents m A) {s : Nat} (hs : s < m.configuration.sessionCount.toNat) :
    mconSessionIsActive m s = true ↔ A s ≠ .free := by
  rw [mconSessionIsActive, if_neg (Nat.not_le_of_lt hs), bne_iff_ne, ne_eq, hrep.free_iff s hs]

/-- A step that changes the state byte of one slot in use, in an instance `m₁` that has the table of `m`. -/
theorem updateState (m₁ : Instance C) (hrep : Represents m A) (hm : WellFormed m) {s : Nat} {y : Slot}
    (hx : A s ≠ .free) (hy : y ≠ .free) (f : UInt8 → UInt8) (hconfig : m₁.configuration = m.configuration)
    (hsessions : m₁.sessions = m.sessions) (hstack : m₁.sessionFreeStack = m.sessionFreeStack)
    (hbits : ∀ side : Side, f (m.session s).state &&& side.bits = 0 ↔ y.occupied side = false)
    (hcount : ∀ op : SlotOp, m₁.outstanding.count (op.entry s) = (y.pending op).toNat)
    (hcount' : ∀ (op : SlotOp), ∀ t ≠ s, m₁.outstanding.count (op.entry t) = m.outstanding.count (op.entry t)) :
    Represents (m₁.modifySession s fun x => { x with state := f x.state }) (Function.update A s y) := by
  have hs := hrep.lt_of_ne_free hx
  have hlen : s < m₁.sessions.length := by rw [hsessions, hm.sessions_length]; exact hs
  have hsession : ∀ t, m₁.session t = m.session t := fun t => by rw [Instance.session, hsessions]; rfl
  have hfd : (m.session s).socketFd ≠ -1 := fun h => hx ((hrep.free_iff s hs).1 h)
  have hmem : s ∉ C.idxStack.contents m.sessionFreeStack := fun h => hx ((hrep.mem_stack s).1 h).2
  refine hrep.update hs y hconfig ?_ ?_ ?_ hcount hcount' ?_ ?_ ?_
  · intro t ht
    rw [Instance.session_modify_ne _ _ ht, hsession]
  · rw [Instance.session_modify_self hlen, hsession]
    exact iff_of_false hfd hy
  · intro side
    rw [Instance.session_modify_self hlen, hsession]
    exact hbits side
  · simpa [hstack] using hrep.nodup
  · rw [Instance.modifySession_freeStack, hstack]
    exact iff_of_false hmem hy
  · simp [hstack]

/-- What `VALIDATE_ARGS` says about the slot. -/
theorem of_validateArgs (hrep : Represents m A) {s : Nat} {op : SlotOp}
    (h : validateArgs m s op.incompatible = none) :
    s < m.configuration.sessionCount.toNat ∧ A s ≠ .free ∧ ∀ side ∈ op.blockers, (A s).occupied side = false := by
  obtain ⟨hs, hfd, hbits⟩ := validateArgs_none h
  refine ⟨hs, fun hfree => hfd ((hrep.free_iff s hs).2 hfree), fun side hside => ?_⟩
  exact (hrep.bits_iff s hs side).1 (SlotOp.and_incompatible hbits side hside)

/-- An operation that is outstanding is pending in its slot. -/
theorem pending_of_mem (hrep : Represents m A) {op : SlotOp} {s : Nat} (h : op.entry s ∈ m.outstanding) :
    (A s).pending op = true := by
  have hcount := hrep.count op s
  have hpos := List.count_pos_iff.2 h
  cases hp : (A s).pending op with
  | true => rfl
  | false => rw [hp, Bool.toNat_false] at hcount; omega

/-- A slot that is not free fits on the free stack. -/
theorem push_isSome (hrep : Represents m A) (hm : WellFormed m) {s : Nat} (h : A s ≠ .free) :
    ∃ stack, C.idxStack.push m.sessionFreeStack s = some stack := by
  rw [← Option.isSome_iff_exists, C.idxStack.push_isSome_iff, hm.stack_capacity]
  have hsub : (C.idxStack.contents m.sessionFreeStack).toFinset ⊆
      (Finset.range m.configuration.sessionCount.toNat).erase s := by
    intro t ht
    rw [List.mem_toFinset, hrep.mem_stack] at ht
    rw [Finset.mem_erase, Finset.mem_range]
    exact ⟨fun hts => h (hts ▸ ht.2), ht.1⟩
  have hcard := Finset.card_le_card hsub
  have hs := hrep.lt_of_ne_free h
  rw [List.toFinset_card_of_nodup hrep.nodup, Finset.card_erase_of_mem (Finset.mem_range.2 hs),
    Finset.card_range] at hcard
  omega

/-- A step that returns a slot to the free stack. -/
theorem release (hrep : Represents m A) {s : Nat} {stack : C.idxStack.Carrier} (hx : A s ≠ .free)
    (hpush : C.idxStack.push m.sessionFreeStack s = some stack) (hconfig : m'.configuration = m.configuration)
    (hstack : m'.sessionFreeStack = stack) (hother : ∀ t ≠ s, m'.session t = m.session t)
    (hfd : (m'.session s).socketFd = -1) (hbits : ∀ side : Side, (m'.session s).state &&& side.bits = 0)
    (hcount : ∀ op : SlotOp, m'.outstanding.count (op.entry s) = 0)
    (hcount' : ∀ (op : SlotOp), ∀ t ≠ s, m'.outstanding.count (op.entry t) = m.outstanding.count (op.entry t)) :
    Represents m' (Function.update A s .free) := by
  have hcontents := C.idxStack.contents_push _ _ _ hpush
  have hmem : s ∉ C.idxStack.contents m.sessionFreeStack := fun h => hx ((hrep.mem_stack s).1 h).2
  rw [← hstack] at hcontents
  refine hrep.update (hrep.lt_of_ne_free hx) .free hconfig hother (iff_of_true hfd rfl) ?_ ?_ hcount' ?_ ?_ ?_
  · exact fun side => iff_of_true (hbits side) (by cases side <;> rfl)
  · intro op
    rw [hcount op]
    cases op <;> rfl
  · rw [hcontents, List.nodup_cons]
    exact ⟨hmem, hrep.nodup⟩
  · simp [hcontents]
  · intro t ht
    simp [hcontents, ht]

end Represents

/-- The events of one slot among the observations. -/
def logOf (obs : List Obs) (s : Nat) : List SlotEvent :=
  (obs.filterMap Obs.slot?).filterMap fun p => if p.1 = s then some p.2 else none

/-- What a small step does to the slots: it leads to slots `A'` by what is seen of each of them, and no push on the
free stack fails. -/
def SlotStep (A : Nat → Slot) (obs : List Obs) (m' : Instance C) : Prop :=
  ∃ A', Represents m' A' ∧ (∀ s, (A s).run (logOf obs s) = some (A' s)) ∧
    ∀ s, Obs.act (.stackPush s false) ∉ obs

theorem SlotStep.same (hrep : Represents m' A) (hlog : obs.filterMap Obs.slot? = [])
    (hpush : ∀ s, Obs.act (.stackPush s false) ∉ obs) : SlotStep A obs m' :=
  ⟨A, hrep, fun s => by rw [logOf, hlog]; rfl, hpush⟩

theorem SlotStep.one {s : Nat} {e : SlotEvent} {y : Slot} (hrep : Represents m' (Function.update A s y))
    (hlog : obs.filterMap Obs.slot? = [(s, e)]) (hnext : (A s).next e = some y)
    (hpush : ∀ s, Obs.act (.stackPush s false) ∉ obs) : SlotStep A obs m' := by
  refine ⟨_, hrep, fun t => ?_, hpush⟩
  by_cases hts : t = s
  · subst hts
    simp [logOf, hlog, hnext]
  · have hst : ¬ s = t := fun h => hts h.symm
    simp [logOf, hlog, Slot.run, Function.update_of_ne hts, hst]

/-! ### Step by step -/

theorem count_cons_entry (op op' : SlotOp) (s t : Nat) (l : List IoUringEntry) :
    (op.entry s :: l).count (op'.entry t) = l.count (op'.entry t) + (decide (op' = op ∧ t = s)).toNat := by
  rw [List.count_cons]
  by_cases h : op' = op ∧ t = s
  · obtain ⟨rfl, rfl⟩ := h
    simp
  · have hne : op.entry s ≠ op'.entry t := fun heq => h ⟨(SlotOp.entry_inj heq).1.symm, (SlotOp.entry_inj heq).2.symm⟩
    simp [h, hne]

theorem count_cons_accept {e : IoUringEntry} (he : e.operation = .accept) (op : SlotOp) (s : Nat)
    (l : List IoUringEntry) : (e :: l).count (op.entry s) = l.count (op.entry s) := by
  have hne : e ≠ op.entry s := fun heq => op.operation_ne_accept (by rw [heq] at he; exact he)
  exact List.count_cons_of_ne hne

private theorem slotStep_request (hm : WellFormed m) (hrep : Represents m A) {s : Nat} {op : SlotOp} {sqe : Sqe}
    {ioq : C.kqueue.Carrier} {priority : Nat} (hvalid : validateArgs m s op.incompatible = none)
    (hdata : sqe.userData = op.entry s) (hpush : C.kqueue.push m.ioQueue priority sqe = some ioq) :
    SlotStep A [.act (.sessionsAt s), .act (.ioQueuePush sqe), .slot s (.called op)]
      (setStateBits { m with ioQueue := ioq } s op.bits) := by
  obtain ⟨hs, hfree, hblock⟩ := hrep.of_validateArgs hvalid
  obtain ⟨y, hnext⟩ := Slot.next_called_of_blockers hfree hblock
  obtain ⟨hy, hnot, hpending, hoccupied⟩ := Slot.next_called_spec hnext
  have hout := outstanding_push m hpush
  rw [hdata] at hout
  refine .one (hrep.updateState { m with ioQueue := ioq } hm hfree hy (· ||| op.bits) rfl rfl rfl ?_ ?_ ?_)
    rfl hnext (by simp)
  · intro side
    rw [or_and_eq_zero, SlotOp.bits_eq, Side.bits_and_bits, hoccupied, Bool.or_eq_false_iff,
      decide_eq_false_iff_not, ne_comm]
    exact and_congr_left' (hrep.bits_iff s hs side)
  · intro op'
    rw [hout.count_eq, count_cons_entry, hrep.count, hpending]
    by_cases hop : op' = op
    · subst hop; simp [hnot]
    · simp [hop]
  · intro op' t hts
    rw [hout.count_eq, count_cons_entry]
    simp [hts]

private theorem slotStep_transferred (hm : WellFormed m) (hrep : Represents m A) {cqe : Cqe} {rest : List Cqe}
    {s : Nat} {op : SlotOp} (hcq : m.ring.cq = cqe :: rest) (hdata : cqe.userData = op.entry s)
    (hclose : op ≠ .close) :
    SlotStep A [.act (.sessionsAt s), .slot s (.answered op)] (countDown (clearStateBits m.cqeSeen s op.bits)) := by
  have hout := outstanding_cqeSeen m hcq
  rw [hdata] at hout
  have hp := hrep.pending_of_mem (hout.mem_iff.2 List.mem_cons_self)
  obtain ⟨y, hnext, hfree, hy, hpending, hoccupied⟩ := Slot.next_answered_spec hp hclose
  have hs := hrep.lt_of_ne_free hfree
  have hkept : ∀ op' t, m.cqeSeen.outstanding.count (op'.entry t) + (decide (op' = op ∧ t = s)).toNat =
      ((A t).pending op').toNat := by
    intro op' t
    rw [← count_cons_entry, ← hout.count_eq, hrep.count]
  have hrep' := hrep.updateState m.cqeSeen hm hfree hy (· &&& ~~~op.bits) rfl rfl rfl (by
    intro side
    rw [SlotOp.bits_eq, and_not_bits_eq_zero, hrep.bits_iff s hs, hoccupied]
    by_cases hside : side = op.side <;> simp [hside]) (by
    intro op'
    have := hkept op' s
    rw [hpending]
    by_cases hop : op' = op
    · subst hop
      simpa [hp] using this
    · simpa [hop] using this) (by
    intro op' t hts
    have := hkept op' t
    rw [hrep.count]
    simpa [hts] using this)
  exact .one (hrep'.congr rfl rfl rfl fun _ _ => rfl) rfl hnext (by simp)

private theorem count_acceptSeen {cqe : Cqe} {rest : List Cqe} (hcq : m.ring.cq = cqe :: rest)
    (hop : cqe.userData.operation = .accept) (op : SlotOp) (s : Nat) :
    m.cqeSeen.outstanding.count (op.entry s) = m.outstanding.count (op.entry s) := by
  rw [(outstanding_cqeSeen m hcq).count_eq, count_cons_accept hop]

private theorem slotStep_accepted (hm : WellFormed m) (hrep : Represents m A) {cqe : Cqe} {rest : List Cqe}
    {s : Nat} {stack : C.idxStack.Carrier} (hcq : m.ring.cq = cqe :: rest)
    (hop : cqe.userData.operation = .accept) (hres : 0 ≤ cqe.res)
    (hpop : C.idxStack.pop m.sessionFreeStack = some (s, stack)) :
    Represents (countDown (sessionPrepForNewClient { acceptDone m with sessionFreeStack := stack } s cqe.res))
        (Function.update A s .idle) ∧ A s = .free := by
  have hcontents := C.idxStack.contents_pop _ _ _ hpop
  obtain ⟨hs, hfree⟩ := (hrep.mem_stack s).1 (by rw [hcontents]; exact List.mem_cons_self)
  have hnodup := hrep.nodup
  rw [hcontents, List.nodup_cons] at hnodup
  have hlen : s < ({ acceptDone m with sessionFreeStack := stack } : Instance C).sessions.length := by
    rw [← hm.sessions_length] at hs
    exact hs
  have hconfig : (countDown (sessionPrepForNewClient { acceptDone m with sessionFreeStack := stack } s
      cqe.res)).configuration = m.configuration := by
    simp [countDown, sessionPrepForNewClient, acceptDone, requestAccepts, acceptSeen, Instance.cqeSeen]
  have hstack : (countDown (sessionPrepForNewClient { acceptDone m with sessionFreeStack := stack } s
      cqe.res)).sessionFreeStack = stack := by
    simp [countDown, sessionPrepForNewClient]
  have hnew : (countDown (sessionPrepForNewClient { acceptDone m with sessionFreeStack := stack } s
      cqe.res)).session s = { m.session s with socketFd := cqe.res, state := stateNone } :=
    Instance.session_modify_self hlen _
  have hother : ∀ t ≠ s, (countDown (sessionPrepForNewClient { acceptDone m with sessionFreeStack := stack } s
      cqe.res)).session t = m.session t := fun t ht => Instance.session_modify_ne _ _ ht
  have hout : ∀ (op : SlotOp) (t : Nat), (countDown (sessionPrepForNewClient { acceptDone m with
      sessionFreeStack := stack } s cqe.res)).outstanding.count (op.entry t) = m.outstanding.count (op.entry t) := by
    intro op t
    rw [← count_acceptSeen hcq hop op t]
    simp only [Instance.outstanding, countDown, sessionPrepForNewClient, Instance.modifySession_ioQueue,
      Instance.modifySession_ring, acceptDone, requestAccepts, acceptSeen]
  generalize countDown (sessionPrepForNewClient { acceptDone m with sessionFreeStack := stack } s cqe.res) = m' at *
  refine ⟨hrep.update hs .idle hconfig hother ?_ ?_ ?_ (fun op t _ => hout op t) (hstack ▸ hnodup.2) ?_ ?_, hfree⟩
  · rw [hnew]
    refine iff_of_false (fun h => ?_) (by simp [Slot.idle])
    dsimp only at h
    omega
  · rw [hnew]
    intro side
    show stateNone &&& side.bits = 0 ↔ _
    cases side <;> decide
  · intro op
    rw [hout, hrep.count, hfree]
    cases op <;> rfl
  · rw [hstack]
    exact iff_of_false hnodup.1 (by simp [Slot.idle])
  · intro t ht
    rw [hstack, hcontents, List.mem_cons]
    simp [ht]

/-- The records after a close completion. -/
theorem closeDone_session {s : Nat} (hs : s < m.sessions.length) (stack : C.idxStack.Carrier) :
    (closeDone m s stack).session s =
        ⟨-1, nextGeneration (m.session s).generation, (m.session s).state &&& ~~~stateClosing⟩ ∧
      ∀ t ≠ s, (closeDone m s stack).session t = m.session t := by
  have hlen : s < (sessionResetAfterClose { m with sessionFreeStack := stack } s).cqeSeen.sessions.length := by
    simpa [sessionResetAfterClose, Instance.cqeSeen] using hs
  have hs' : s < ({ m with sessionFreeStack := stack } : Instance C).sessions.length := hs
  constructor
  · refine (completeShutdownIfDone_session _ s).trans ((Instance.session_modify_self hlen _).trans ?_)
    exact congrArg (fun x : Session => { x with state := x.state &&& ~~~stateClosing })
      (Instance.session_modify_self hs' _)
  · intro t ht
    refine (completeShutdownIfDone_session _ t).trans ((Instance.session_modify_ne _ _ ht).trans ?_)
    exact Instance.session_modify_ne _ _ ht

private theorem slotStep_closed (hm : WellFormed m) (hrep : Represents m A) {cqe : Cqe} {rest : List Cqe}
    {s : Nat} {stack : C.idxStack.Carrier} (hcq : m.ring.cq = cqe :: rest)
    (hdata : cqe.userData = SlotOp.close.entry s)
    (hpush : C.idxStack.push m.sessionFreeStack s = some stack) :
    Represents (closeDone m s stack) (Function.update A s .free) ∧ A s = .closing := by
  have hout := outstanding_cqeSeen m hcq
  rw [hdata] at hout
  have hclosing := Slot.eq_closing_of_pending (hrep.pending_of_mem (hout.mem_iff.2 List.mem_cons_self))
  have hx : A s ≠ .free := by rw [hclosing]; simp
  have hs := hrep.lt_of_ne_free hx
  obtain ⟨hself, hother⟩ := closeDone_session (hm.sessions_length ▸ hs) stack
  have hkept : ∀ op t, (closeDone m s stack).outstanding.count (SlotOp.entry op t) +
      (decide (op = .close ∧ t = s)).toNat = ((A t).pending op).toNat := by
    intro op t
    rw [closeDone_outstanding, ← count_cons_entry, ← hout.count_eq, hrep.count]
  refine ⟨hrep.release hx hpush (closeDone_configuration _ _ _) (closeDone_freeStack _ _ _) hother ?_ ?_ ?_ ?_,
    hclosing⟩
  · rw [hself]
  · intro side
    rw [hself]
    refine (and_not_bits_eq_zero _ .closing side).2 ?_
    rw [hrep.bits_iff s hs, hclosing]
    cases side <;> simp [Slot.occupied]
  · intro op
    have := hkept op s
    rw [hclosing] at this
    cases op <;> simp_all [Slot.pending]
  · intro op t hts
    have := hkept op t
    rw [hrep.count]
    simpa [hts] using this

/-- The records after a successful detach. -/
theorem detachDone_session {s : Nat} (hs : s < m.sessions.length) (stack : C.idxStack.Carrier) :
    (detachDone m s stack).session s =
        { m.session s with socketFd := -1, generation := nextGeneration (m.session s).generation } ∧
      ∀ t ≠ s, (detachDone m s stack).session t = m.session t := by
  have hs' : s < ({ m with sessionFreeStack := stack } : Instance C).sessions.length := hs
  constructor
  · exact (completeShutdownIfDone_session _ s).trans (Instance.session_modify_self hs' _)
  · intro t ht
    exact (completeShutdownIfDone_session _ t).trans (Instance.session_modify_ne _ _ ht)

private theorem slotStep_detached (hm : WellFormed m) (hrep : Represents m A) {s : Nat}
    {stack : C.idxStack.Carrier} (hvalid : validateArgs m s SlotOp.close.incompatible = none)
    (hpush : C.idxStack.push m.sessionFreeStack s = some stack) :
    Represents (detachDone m s stack) (Function.update A s .free) ∧ A s = .idle := by
  obtain ⟨hs, hx, hblock⟩ := hrep.of_validateArgs hvalid
  have hidle := Slot.eq_idle_of_blockers hx hblock
  obtain ⟨hself, hother⟩ := detachDone_session (hm.sessions_length ▸ hs) stack
  refine ⟨hrep.release hx hpush (detachDone_configuration _ _ _) (detachDone_freeStack _ _ _) hother ?_ ?_ ?_
    fun op t _ => by rw [detachDone_outstanding], hidle⟩
  · rw [hself]
  · intro side
    rw [hself]
    refine (hrep.bits_iff s hs side).2 ?_
    rw [hidle]
    cases side <;> rfl
  · intro op
    rw [detachDone_outstanding, hrep.count, hidle]
    cases op <;> rfl

/-- One small step. -/
theorem Represents.slotStep (hm : WellFormed m) (hrep : Represents m A) (hk : k ≠ .detachEnoent)
    (h : SmallStep m k obs m') : SlotStep A obs m' := by
  cases h with
  | kernel hstep =>
    refine .same (hrep.congr rfl rfl rfl fun _ _ => (outstanding_kernel m hstep).count_eq _) ?_ ?_
    · simp [List.filterMap_map, Function.comp_def, Obs.slot?]
    · intro s hmem
      cases hstep <;> simp at hmem
  | request hvalid hdata _ _ hpush => exact slotStep_request hm hrep hvalid hdata hpush
  | acceptEnqueued _ _ hpush =>
    refine .same (hrep.congr rfl rfl rfl fun op s => ?_) rfl (by simp)
    refine ((outstanding_push m hpush).count_eq _).trans ?_
    exact count_cons_accept rfl op s _
  | pop hpop => exact .same (hrep.congr rfl rfl rfl fun _ _ => (outstanding_pop m hpop).count_eq _) rfl (by simp)
  | submitted _ =>
    exact .same (hrep.congr rfl rfl rfl fun _ _ => (outstanding_ringTaken m _).count_eq _) rfl (by simp)
  | acceptAgain hcq hop _ =>
    exact .same (hrep.congr rfl rfl rfl fun op s => count_acceptSeen hcq hop op s) rfl (by simp)
  | acceptFailed hcq hop _ =>
    exact .same (hrep.congr rfl rfl rfl fun op s => count_acceptSeen hcq hop op s) rfl (by simp)
  | acceptNoSlot hcq hop _ _ =>
    exact .same (hrep.congr rfl rfl rfl fun op s => count_acceptSeen hcq hop op s) rfl (by simp)
  | acceptRollback hcq hop _ hpop hpush =>
    refine .same (hrep.congr rfl rfl ?_ fun op s => count_acceptSeen hcq hop op s) rfl (by simp)
    exact (C.idxStack.contents_push _ _ _ hpush).trans (C.idxStack.contents_pop _ _ _ hpop).symm
  | accepted hcq hop hres hpop =>
    obtain ⟨hrep', hfree⟩ := slotStep_accepted hm hrep hcq hop hres hpop
    exact .one hrep' rfl (by rw [hfree]; rfl) (by simp)
  | transferred hcq hdata hclose => exact slotStep_transferred hm hrep hcq hdata hclose
  | closed hcq hdata hpush =>
    obtain ⟨hrep', hclosing⟩ := slotStep_closed hm hrep hcq hdata hpush
    exact .one (hrep'.congr rfl rfl rfl fun _ _ => rfl) rfl (by rw [hclosing]; rfl) (by simp)
  | closeNoRoom hcq hdata hpush =>
    -- the slot is in use, so there is room for it
    have hmem : SlotOp.close.entry _ ∈ m.outstanding :=
      (outstanding_cqeSeen m hcq).mem_iff.2 (by rw [hdata]; exact List.mem_cons_self)
    have hclosing := Slot.eq_closing_of_pending (hrep.pending_of_mem hmem)
    obtain ⟨stack, hsome⟩ := hrep.push_isSome hm (by rw [hclosing]; simp)
    rw [hpush] at hsome
    cases hsome
  | detached hvalid hpush =>
    obtain ⟨hrep', hidle⟩ := slotStep_detached hm hrep hvalid hpush
    exact .one hrep' rfl (by rw [hidle]; rfl) (by simp)
  | detachUndone _ hpush hpop =>
    refine .same (hrep.congr rfl rfl ?_ fun _ _ => rfl) rfl (by simp)
    have hcontents := C.idxStack.contents_pop _ _ _ hpop
    rw [C.idxStack.contents_push _ _ _ hpush, List.cons.injEq] at hcontents
    exact hcontents.2.symm
  | detachEnoent => exact absurd rfl hk
  | detachNoRoom hvalid hpush =>
    obtain ⟨-, hx, -⟩ := hrep.of_validateArgs hvalid
    obtain ⟨stack, hsome⟩ := hrep.push_isSome hm hx
    rw [hpush] at hsome
    cases hsome
  | eventfd hact =>
    refine .same (hrep.congr rfl rfl rfl fun _ _ => rfl) rfl ?_
    rcases hact with rfl | rfl <;> simp
  | @rdhup s hs =>
    have hlen : s < m.sessions.length := hm.sessions_length ▸ hs
    refine .same (hrep.congr_bits rfl ?_ ?_ rfl fun _ _ => rfl) rfl (by simp)
    · intro t
      by_cases ht : t = s
      · subst ht; rw [setStateBits, Instance.session_modify_self hlen]
      · rw [setStateBits, Instance.session_modify_ne _ _ ht]
    · intro t side
      by_cases ht : t = s
      · subst ht
        rw [setStateBits, Instance.session_modify_self hlen, or_and_eq_zero]
        exact and_iff_left (Side.rdhup_and_bits side)
      · rw [setStateBits, Instance.session_modify_ne _ _ ht]
  | look _ hact =>
    refine .same hrep rfl ?_
    rcases hact with rfl | ⟨err, rfl⟩ <;> simp
  | _ => exact .same (hrep.congr rfl rfl rfl fun _ _ => rfl) rfl (by simp)

/-! ### Paths and executions -/

theorem logOf_append (obs obs' : List Obs) (s : Nat) : logOf (obs ++ obs') s = logOf obs s ++ logOf obs' s := by
  simp [logOf]

/-- The steps of a path put together. -/
theorem Represents.path {P : StepKind → Prop} (hP : ∀ k, P k → k ≠ .detachEnoent) (hm : WellFormed m)
    (hrep : Represents m A) (h : Path SmallStep P m obs m') : SlotStep A obs m' := by
  induction h generalizing A with
  | nil => exact .same hrep rfl (by simp)
  | cons hstep hk _ ih =>
    obtain ⟨A₁, hrep₁, hrun₁, hpush₁⟩ := hrep.slotStep hm (hP _ hk) hstep
    obtain ⟨A₂, hrep₂, hrun₂, hpush₂⟩ := ih (hm.smallStep hstep) hrep₁
    refine ⟨A₂, hrep₂, fun s => ?_, fun s hmem => ?_⟩
    · rw [logOf_append, Slot.run_append, hrun₁ s]
      exact hrun₂ s
    · rcases List.mem_append.1 hmem with hmem | hmem
      · exact hpush₁ s hmem
      · exact hpush₂ s hmem

/-- Without the failing detach no input takes the step that breaks the table. -/
theorem NoEnoent.kind {i : Input} (hok : NoEnoent m i) (hk : i.allows k) : k ≠ .detachEnoent := by
  rintro rfl
  cases i with
  | detach s delErr =>
    rcases hk with hk | ⟨-, rfl⟩
    · simp at hk
    · exact hok s rfl
  | processEvent =>
    rcases hk with hk | ⟨hk, -⟩
    · simp [processKinds] at hk
    · cases hk
  | _ => simp [Input.allows] at hk

/-- A call that is no half-done detach does not take that step either. -/
theorem calls_step_whole (hm : WellFormed m) {i : Input} (hok : DetachesWhole m i) :
    Calls (fun k => i.allows k ∧ k ≠ .detachEnoent) m (step m i).2.acts (slotEventsOf (i, (step m i).2))
      (step m i).1 := by
  by_cases hdetach : ∃ s delErr, i = .detach s delErr
  · obtain ⟨s, delErr, rfl⟩ := hdetach
    refine calls_detach (by simp [Input.allows]) (by simp [Input.allows]) (by simp [Input.allows])
      (by simp [Input.allows]) m s delErr fun herr hvalid hpush => absurd ⟨by rw [herr], hvalid, ?_⟩ (hok s)
    rw [C.idxStack.size_eq]
    exact C.idxStack.push_isSome_iff.1 hpush
  · refine (calls_step m hm.cq_entries i).mono fun k hk => ⟨hk, NoEnoent.kind (m := m) (fun s hs => ?_) hk⟩
    exact hdetach ⟨s, _, hs⟩

/-- After every run without a half-done detach the instance has slots, and the life of each of them so far is a
legal one. -/
theorem Execution.represents_whole {h : History} (he : Execution DetachesWhole h m) :
    ∃ A, WellFormed m ∧ Represents m A ∧ (∀ s, Slot.run .free (slotLog h s) = some (A s)) ∧
      ∀ s, Act.stackPush s false ∉ actsOf h := by
  obtain ⟨config, instanceId, eventfd, hvalid, -, hm, obs, hpath, hacts, hlog⟩ :=
    he.calls_of (P := fun k => k ≠ .detachEnoent)
      fun _ _ hok hm => (calls_step_whole hm hok).mono fun _ hk => hk.2
  obtain ⟨A, hrep, hrun, hpush⟩ := (newInstance_represents instanceId eventfd config).path (fun _ hk => hk)
    (newInstance_wellFormed hvalid instanceId eventfd) hpath
  refine ⟨A, hm, hrep, fun s => ?_, fun s hmem => hpush s ((Obs.mem_acts_iff hacts).1 hmem)⟩
  rw [← hrun s, logOf, hlog]
  rfl

theorem Execution.represents {h : History} (he : Execution NoEnoent h m) :
    ∃ A, WellFormed m ∧ Represents m A ∧ (∀ s, Slot.run .free (slotLog h s) = some (A s)) ∧
      ∀ s, Act.stackPush s false ∉ actsOf h :=
  (he.mono fun _ _ hok => hok.detachesWhole).represents_whole

end Mcon
