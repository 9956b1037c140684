import Mcon.EventPaths

/-!
# Sizes and outstanding operations

What no small step ever changes (`SmallStep.frame`), the sizes of the tables and rings that follow from it
(`WellFormed`), and what the updates of the small steps do to the operations outstanding.
-/

namespace Mcon

open Transition (Run Path)

variable {C : Ctools} {m m' : Instance C} {k : StepKind} {obs : List Obs}

/-! ### What never changes -/

/-- The identity of the instance and the sizes of its tables and rings are the same. -/
structure Frame (m m' : Instance C) : Prop where
  configuration : m'.configuration = m.configuration := by rfl
  instanceId : m'.instanceId = m.instanceId := by rfl
  eventfd : m'.ioUringEventfd = m.ioUringEventfd := by rfl
  sessions_length : m'.sessions.length = m.sessions.length := by rfl
  stack_capacity : C.idxStack.capacity m'.sessionFreeStack = C.idxStack.capacity m.sessionFreeStack := by rfl
  queue_groups : C.kqueue.groups m'.ioQueue = C.kqueue.groups m.ioQueue := by rfl
  queue_capacity : C.kqueue.capacity m'.ioQueue = C.kqueue.capacity m.ioQueue := by rfl
  sq_entries : m'.ring.sqEntries = m.ring.sqEntries := by rfl
  cq_entries : m'.ring.cqEntries = m.ring.cqEntries := by rfl

theorem Frame.completeShutdownIfDone (x : Instance C) : Frame x (completeShutdownIfDone x) := by
  unfold Mcon.completeShutdownIfDone
  split <;> exact {}

theorem Frame.trans (h : Frame m m') {m'' : Instance C} (h' : Frame m' m'') : Frame m m'' where
  configuration := h'.configuration.trans h.configuration
  instanceId := h'.instanceId.trans h.instanceId
  eventfd := h'.eventfd.trans h.eventfd
  sessions_length := h'.sessions_length.trans h.sessions_length
  stack_capacity := h'.stack_capacity.trans h.stack_capacity
  queue_groups := h'.queue_groups.trans h.queue_groups
  queue_capacity := h'.queue_capacity.trans h.queue_capacity
  sq_entries := h'.sq_entries.trans h.sq_entries
  cq_entries := h'.cq_entries.trans h.cq_entries

theorem Frame.modifySession (x : Instance C) (s : Nat) (f : Session → Session) : Frame x (x.modifySession s f) :=
  { sessions_length := Instance.modifySession_length _ _ _ }

theorem SmallStep.frame (h : SmallStep m k obs m') : Frame m m' := by
  cases h with
  | kernel hk =>
    obtain ⟨-, hsq, hcq, -⟩ := hk.frame
    exact { sq_entries := hsq, cq_entries := hcq }
  | @request s op sqe ioq _ _ _ _ _ hpush =>
    have hqueued : Frame m { m with ioQueue := ioq } :=
      { queue_groups := C.kqueue.groups_push _ _ _ _ hpush
        queue_capacity := C.kqueue.capacity_push _ _ _ _ hpush }
    exact hqueued.trans (.modifySession _ _ _)
  | acceptEnqueued _ _ hpush =>
    exact
      { queue_groups := C.kqueue.groups_push _ _ _ _ hpush
        queue_capacity := C.kqueue.capacity_push _ _ _ _ hpush }
  | pop hpop =>
    obtain ⟨hp, -⟩ := hpop
    exact
      { queue_groups := C.kqueue.groups_pop _ _ _ _ hp
        queue_capacity := C.kqueue.capacity_pop _ _ _ _ hp }
  | acceptRollback _ _ _ hpop hpush =>
    have hpopped := C.idxStack.capacity_pop _ _ _ hpop
    exact { stack_capacity := (C.idxStack.capacity_push _ _ _ hpush).trans hpopped }
  | acceptFailed =>
    have hdone : Frame m (acceptDone m) := {}
    exact hdone.trans {}
  | @accepted cqe _ s stack _ _ _ hpop =>
    have hpopped : Frame m { acceptDone m with sessionFreeStack := stack } :=
      { stack_capacity := C.idxStack.capacity_pop _ _ _ hpop }
    have hgiven : Frame m (sessionPrepForNewClient { acceptDone m with sessionFreeStack := stack } s cqe.res) :=
      hpopped.trans (.modifySession _ _ _)
    exact hgiven.trans {}
  | @transferred _ _ s op =>
    have hseen : Frame m m.cqeSeen := {}
    have hcleared : Frame m (clearStateBits m.cqeSeen s op.bits) := hseen.trans (.modifySession _ _ _)
    exact hcleared.trans {}
  | @closed _ _ s stack _ _ hpush =>
    have hpushed : Frame m { m with sessionFreeStack := stack } :=
      { stack_capacity := C.idxStack.capacity_push _ _ _ hpush }
    have hreset : Frame m (sessionResetAfterClose { m with sessionFreeStack := stack } s) :=
      hpushed.trans (.modifySession _ _ _)
    have hseen : Frame m (sessionResetAfterClose { m with sessionFreeStack := stack } s).cqeSeen := hreset.trans {}
    have hcleared : Frame m (clearStateBits (sessionResetAfterClose { m with sessionFreeStack := stack } s).cqeSeen s
        stateClosing) := hseen.trans (.modifySession _ _ _)
    exact (hcleared.trans (.completeShutdownIfDone _)).trans {}
  | @detached s stack _ hpush =>
    have hpushed : Frame m { m with sessionFreeStack := stack } :=
      { stack_capacity := C.idxStack.capacity_push _ _ _ hpush }
    have hreset : Frame m (sessionResetAfterClose { m with sessionFreeStack := stack } s) :=
      hpushed.trans (.modifySession _ _ _)
    exact hreset.trans (.completeShutdownIfDone _)
  | detachUndone _ hpush hpop =>
    have hpushed := C.idxStack.capacity_push _ _ _ hpush
    exact { stack_capacity := (C.idxStack.capacity_pop _ _ _ hpop).trans hpushed }
  | detachEnoent _ hpush => exact { stack_capacity := C.idxStack.capacity_push _ _ _ hpush }
  | rdhup => exact .modifySession _ _ _
  | _ => exact {}

/-- The tables and rings have the sizes the configuration asks for. -/
structure WellFormed (m : Instance C) : Prop where
  valid : mconConfigValidate m.configuration = true
  sessions_length : m.sessions.length = m.configuration.sessionCount.toNat
  stack_capacity : C.idxStack.capacity m.sessionFreeStack = m.configuration.sessionCount.toNat
  queue_groups : C.kqueue.groups m.ioQueue = ioQueuePriorityGroupCount
  queue_capacity : C.kqueue.capacity m.ioQueue = m.configuration.ioQueueSize.toNat
  sq_entries : m.configuration.ioUringQueueSize.toNat ≤ m.ring.sqEntries
  cq_entries : 2 ≤ m.ring.cqEntries

theorem WellFormed.frame (hm : WellFormed m) (h : Frame m m') : WellFormed m' := by
  constructor
  · rw [h.configuration]; exact hm.valid
  · rw [h.sessions_length, h.configuration]; exact hm.sessions_length
  · rw [h.stack_capacity, h.configuration]; exact hm.stack_capacity
  · rw [h.queue_groups]; exact hm.queue_groups
  · rw [h.queue_capacity, h.configuration]; exact hm.queue_capacity
  · rw [h.sq_entries, h.configuration]; exact hm.sq_entries
  · rw [h.cq_entries]; exact hm.cq_entries

theorem WellFormed.smallStep (hm : WellFormed m) (h : SmallStep m k obs m') : WellFormed m' := hm.frame h.frame

/-- The difference in `mcon_active_session_count` does not wrap. -/
theorem WellFormed.activeSessionCount (hm : WellFormed m) :
    C.idxStack.size m.sessionFreeStack ≤ m.configuration.sessionCount.toNat ∧
      (mconActiveSessionCount m).toNat =
        m.configuration.sessionCount.toNat - C.idxStack.size m.sessionFreeStack := by
  have hsize := C.idxStack.length_le m.sessionFreeStack
  rw [← C.idxStack.size_eq, hm.stack_capacity] at hsize
  have hbound := (mconConfigValidate_spec hm.valid).sessionCount_lt
  have hnat : (UInt32.ofNat (C.idxStack.size m.sessionFreeStack)).toNat = C.idxStack.size m.sessionFreeStack :=
    UInt32.toNat_ofNat_of_lt' (by unfold UInt32.size; omega)
  have hle : UInt32.ofNat (C.idxStack.size m.sessionFreeStack) ≤ m.configuration.sessionCount := by
    rw [UInt32.le_iff_toNat_le, hnat]
    exact hsize
  refine ⟨hsize, ?_⟩
  rw [mconActiveSessionCount, UInt32.toNat_sub_of_le _ _ hle, hnat]

theorem WellFormed.activeSessionCount_ne_zero_iff (hm : WellFormed m) :
    mconActiveSessionCount m ≠ 0 ↔
      C.idxStack.size m.sessionFreeStack < m.configuration.sessionCount.toNat := by
  obtain ⟨hle, hcount⟩ := hm.activeSessionCount
  rw [Ne, ← UInt32.toNat_inj, hcount, UInt32.toNat_zero]
  omega

/-! ### The instance of `mcon_create` -/

theorem fillFreeStack_contents (n : Nat) {i : Nat} (hi : i ≤ n) :
    C.idxStack.contents (fillFreeStack (C := C) n i) = (List.range' (n - i) i) ∧
      C.idxStack.capacity (fillFreeStack (C := C) n i) = n := by
  induction i with
  | zero => exact ⟨C.idxStack.contents_create n, C.idxStack.capacity_create n⟩
  | succ i ih =>
    obtain ⟨hcontents, hcap⟩ := ih (by omega)
    have hpush : ∃ stack, C.idxStack.push (fillFreeStack (C := C) n i) (n - 1 - i) = some stack := by
      rw [← Option.isSome_iff_exists, C.idxStack.push_isSome_iff, hcontents, hcap, List.length_range']
      omega
    obtain ⟨stack, hpush⟩ := hpush
    have hstack : fillFreeStack (C := C) n (i + 1) = stack := by simp [fillFreeStack, hpush]
    rw [hstack]
    refine ⟨?_, (C.idxStack.capacity_push _ _ _ hpush).trans hcap⟩
    have htop : n - 1 - i = n - (i + 1) := by omega
    have hrest : n - i = n - (i + 1) + 1 := by omega
    rw [C.idxStack.contents_push _ _ _ hpush, hcontents, List.range'_succ, htop, hrest]

/-- The free stack of a new instance holds every slot, slot `0` on top. -/
theorem newInstance_contents (instanceId : UInt16) (eventfd : Int) (config : Config) :
    C.idxStack.contents (newInstance C instanceId eventfd config).sessionFreeStack =
      List.range config.sessionCount.toNat := by
  rw [newInstance, (fillFreeStack_contents _ (Nat.le_refl _)).1, Nat.sub_self, List.range_eq_range']

theorem newInstance_queue (instanceId : UInt16) (eventfd : Int) (config : Config) :
    C.kqueue.contents (newInstance C instanceId eventfd config).ioQueue = [] :=
  C.kqueue.contents_create _ _

theorem newInstance_session (instanceId : UInt16) (eventfd : Int) (config : Config) (s : Nat) :
    (newInstance C instanceId eventfd config).session s = sessionInit := by
  simp only [Instance.session, newInstance, List.getD_eq_getElem?_getD, List.getElem?_replicate]
  split <;> rfl

theorem newInstance_outstanding (instanceId : UInt16) (eventfd : Int) (config : Config) :
    (newInstance C instanceId eventfd config).outstanding = [] := by
  rw [Instance.outstanding, newInstance_queue]
  rfl

theorem created_eq {config : Config} (h : Created config m) :
    mconConfigValidate config = true ∧ ∃ instanceId eventfd, eventfd ≠ -1 ∧
      m = newInstance C instanceId eventfd config := by
  obtain ⟨counter, env, h⟩ := h
  unfold mconCreate at h
  repeat' (split at h; · cases h)
  rename_i hvalid _ hfd _ _ _ _
  cases h
  exact ⟨by simpa using hvalid, _, _, hfd, rfl⟩

theorem newInstance_wellFormed {config : Config} (hvalid : mconConfigValidate config = true)
    (instanceId : UInt16) (eventfd : Int) : WellFormed (newInstance C instanceId eventfd config) := by
  constructor
  · exact hvalid
  · simp [newInstance]
  · exact (fillFreeStack_contents _ (Nat.le_refl _)).2
  · exact C.kqueue.groups_create _ _
  · exact C.kqueue.capacity_create _ _
  · exact le_roundupPowerOfTwo _
  · have := roundupPowerOfTwo_pos config.ioUringQueueSize.toNat
    simp only [newInstance, ioUringQueueInit]
    omega

/-! ### Runs as paths -/

variable {P : StepKind → Prop} {acts : List Act} {log : List (Nat × SlotEvent)}

theorem Calls.wellFormed (h : Calls P m acts log m') (hm : WellFormed m) : WellFormed m' := by
  obtain ⟨obs, hpath, -⟩ := h
  exact hpath.invariant WellFormed (fun _ _ _ _ _ hs hm => hm.smallStep hs) hm

/-- A run from a well-formed instance is a path of small steps, of the kinds of its calls. -/
theorem Run.calls_of {ok : Instance C → Input → Prop}
    (hcalls : ∀ m i, ok m i → WellFormed m →
      Calls P m (step m i).2.acts (slotEventsOf (i, (step m i).2)) (step m i).1)
    (hm : WellFormed m) {h : History} (hr : Run step ok m h m') :
    WellFormed m' ∧ Calls P m (actsOf h) (h.flatMap slotEventsOf) m' := by
  induction hr with
  | nil => exact ⟨hm, .nil m⟩
  | @snoc h m₁ i _ hok ih =>
    obtain ⟨hm₁, hpath⟩ := ih
    have hstep := hcalls m₁ i hok hm₁
    refine ⟨hstep.wellFormed hm₁, ?_⟩
    simpa [actsOf] using hpath.trans hstep

/-- The same with the kinds its inputs allow. -/
theorem Run.calls {ok : Instance C → Input → Prop} (hP : ∀ m i k, ok m i → i.allows k → P k)
    (hm : WellFormed m) {h : History} (hr : Run step ok m h m') :
    WellFormed m' ∧ Calls P m (actsOf h) (h.flatMap slotEventsOf) m' :=
  Run.calls_of (fun m i hok hm => (calls_step m hm.cq_entries i).mono fun k => hP m i k hok) hm hr

theorem Calls.frame (h : Calls P m acts log m') : Frame m m' := by
  obtain ⟨obs, hpath, -⟩ := h
  exact hpath.invariant (Frame m) (fun _ _ _ _ _ hs hx => hx.trans hs.frame) {}

/-- What never changes does not change in a run. -/
theorem Run.frame {ok : Instance C → Input → Prop} (hm : WellFormed m) {h : History} (hr : Run step ok m h m') :
    Frame m m' :=
  (Run.calls (P := fun _ => True) (fun _ _ _ _ _ => trivial) hm hr).2.frame

/-- An execution starts from a well-formed new instance and is a path of small steps. -/
theorem Execution.calls_of {ok : Instance C → Input → Prop}
    (hcalls : ∀ m i, ok m i → WellFormed m →
      Calls P m (step m i).2.acts (slotEventsOf (i, (step m i).2)) (step m i).1)
    {h : History} (he : Execution ok h m) :
    ∃ config instanceId eventfd, mconConfigValidate config = true ∧ eventfd ≠ -1 ∧ WellFormed m ∧
      Calls P (newInstance C instanceId eventfd config) (actsOf h) (h.flatMap slotEventsOf) m := by
  obtain ⟨config, m₀, hcreated, hr⟩ := he
  obtain ⟨hvalid, instanceId, eventfd, hfd, rfl⟩ := created_eq hcreated
  obtain ⟨hm, hpath⟩ := Run.calls_of hcalls (newInstance_wellFormed hvalid instanceId eventfd) hr
  exact ⟨config, instanceId, eventfd, hvalid, hfd, hm, hpath⟩

theorem Execution.calls {ok : Instance C → Input → Prop} (hP : ∀ m i k, ok m i → i.allows k → P k) {h : History}
    (he : Execution ok h m) :
    ∃ config instanceId eventfd, mconConfigValidate config = true ∧ eventfd ≠ -1 ∧ WellFormed m ∧
      Calls P (newInstance C instanceId eventfd config) (actsOf h) (h.flatMap slotEventsOf) m :=
  he.calls_of fun m i hok hm => (calls_step m hm.cq_entries i).mono fun k => hP m i k hok

/-- An invariant of the new instance and of the small steps holds after every execution. -/
theorem Execution.invariant {ok : Instance C → Input → Prop} (hP : ∀ m i k, ok m i → i.allows k → P k)
    (I : Instance C → Prop)
    (h0 : ∀ instanceId eventfd config, mconConfigValidate config = true →
      I (newInstance C instanceId eventfd config))
    (hstep : ∀ m k obs m', P k → SmallStep m k obs m' → WellFormed m → I m → I m') {h : History}
    (he : Execution ok h m) : WellFormed m ∧ I m := by
  obtain ⟨config, instanceId, eventfd, hvalid, -, hm, obs, hpath, -⟩ := he.calls hP
  have hboth := hpath.invariant (fun m => WellFormed m ∧ I m)
    (fun m k obs m' hk hs hI => ⟨hI.1.smallStep hs, hstep m k obs m' hk hs hI.1 hI.2⟩)
    ⟨newInstance_wellFormed hvalid instanceId eventfd, h0 _ _ _ hvalid⟩
  exact hboth

theorem Execution.wellFormed {ok : Instance C → Input → Prop} {h : History} (he : Execution ok h m) :
    WellFormed m := by
  obtain ⟨-, -, -, -, -, hm, -⟩ := he.calls (P := fun _ => True) (fun _ _ _ _ _ => trivial)
  exact hm

/-- An invariant of the new instance and of the inputs that satisfy `ok` holds after every execution. -/
theorem Execution.invariant_of_inputs {ok : Instance C → Input → Prop} (I : Instance C → Prop)
    (h0 : ∀ instanceId eventfd config, mconConfigValidate config = true →
      I (newInstance C instanceId eventfd config))
    (hstep : ∀ m i, ok m i → WellFormed m → I m → I (step m i).1) {h : History} (he : Execution ok h m) :
    WellFormed m ∧ I m := by
  obtain ⟨config, m₀, hcreated, hr⟩ := he
  obtain ⟨hvalid, instanceId, eventfd, -, rfl⟩ := created_eq hcreated
  exact hr.invariant (fun m => WellFormed m ∧ I m)
    ⟨newInstance_wellFormed hvalid instanceId eventfd, h0 _ _ _ hvalid⟩
    fun m i hok hI => ⟨(calls_step m hI.1.cq_entries i).wellFormed hI.1, hstep m i hok hI.1 hI.2⟩

/-! ### Outstanding operations -/

section Outstanding

variable (m)

theorem outstanding_push {priority : Nat} {sqe : Sqe} {ioq : C.kqueue.Carrier}
    (h : C.kqueue.push m.ioQueue priority sqe = some ioq) :
    Instance.outstanding { m with ioQueue := ioq } |>.Perm (sqe.userData :: m.outstanding) := by
  have hp := (C.kqueue.contents_push h).map (·.userData)
  exact hp.append_right _

theorem outstanding_pop {ioq : C.kqueue.Carrier} {r : Ring} (h : PopOne (m.ioQueue, m.ring) (ioq, r)) :
    Instance.outstanding { m with ioQueue := ioq, ring := r } |>.Perm m.outstanding := by
  obtain @⟨_, _, _, _, sqe, hp, -⟩ := h
  have hq := (C.kqueue.contents_pop hp).map (·.userData)
  simp only [Instance.outstanding, Ring.entries, List.map_append, List.map_cons, List.map_nil]
  refine List.Perm.trans ?_ (hq.append_right _).symm
  simp only [List.map_cons, List.cons_append, List.append_assoc]
  exact (List.Perm.append_left _ List.perm_middle).trans List.perm_middle

theorem outstanding_cqeSeen {cqe : Cqe} {rest : List Cqe} (h : m.ring.cq = cqe :: rest) :
    m.outstanding.Perm (cqe.userData :: m.cqeSeen.outstanding) := by
  simp only [Instance.outstanding, Instance.cqeSeen, Ring.entries, Ring.ioUringCqeSeen, h, List.map_cons,
    List.tail_cons, ← List.append_assoc]
  exact List.perm_middle

theorem outstanding_ringTaken (n : Nat) : (ringTaken m n).outstanding.Perm m.outstanding := by
  simp only [Instance.outstanding, ringTaken, Ring.entries, List.map_append]
  apply List.Perm.append_left
  apply List.Perm.append_right
  apply List.Perm.append_right
  -- the entries taken from the front of the SQ ring go behind those in the kernel
  have hsplit : m.ring.sq.map (·.userData) =
      (m.ring.sq.take n).map (·.userData) ++ (m.ring.sq.drop n).map (·.userData) := by
    rw [← List.map_append, List.take_append_drop]
  rw [hsplit, ← List.append_assoc, List.append_assoc (List.map _ (List.take n _))]
  exact List.perm_append_comm

theorem outstanding_kernel {acts : List Act} {r : Ring} (h : Ring.KernelStep m.ring acts r) :
    Instance.outstanding { m with ring := r } |>.Perm m.outstanding :=
  h.entries_perm.append_left _

end Outstanding

end Mcon
