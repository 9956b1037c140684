import Mcon.Accepts
import Mcon.Submission

/-!
# The operations in flight

`sqe_in_flight` is meant to be the number of operations submitted and not yet consumed, and to stay within
`io_uring_queue_size`.  Each is kept by every step but one: a completion whose `EPOLL_CTL_ADD` fails is consumed
and not counted, and a submission may hand over entries that an earlier one left behind.
-/

namespace Mcon

open Transition (Run Path AllOk history finalState)

variable {C : Ctools} {m m' : Instance C} {k : StepKind} {obs : List Obs}

/-! ### One small step -/

/-- The kernel took `taken` submissions, the program consumed `consumed` completions and counted `counted`. -/
structure FlightStep (m : Instance C) (obs : List Obs) (m' : Instance C) (taken consumed counted : Nat) : Prop where
  flight : m'.state.sqeInFlight = m.state.sqeInFlight + UInt16.ofNat taken - UInt16.ofNat counted
  unconsumed : m'.ring.unconsumed + consumed = m.ring.unconsumed + taken
  sqHead : m'.ring.sqHead = m.ring.sqHead + taken
  cqHead : m'.ring.cqHead = m.ring.cqHead + consumed
  acts : ((obs.filterMap Obs.act?).map Act.submitted).sum = taken
  counted_le : counted ≤ consumed

theorem FlightStep.same (hflight : m'.state.sqeInFlight = m.state.sqeInFlight)
    (hring : m'.ring.unconsumed = m.ring.unconsumed) (hsq : m'.ring.sqHead = m.ring.sqHead)
    (hcq : m'.ring.cqHead = m.ring.cqHead)
    (hacts : ((obs.filterMap Obs.act?).map Act.submitted).sum = 0) : FlightStep m obs m' 0 0 0 :=
  ⟨by simp [hflight], hring, hsq, hcq, hacts, Nat.le_refl 0⟩

theorem FlightStep.seen {cqe : Cqe} {rest : List Cqe} {counted : Nat} (hcq : m.ring.cq = cqe :: rest)
    (hflight : m'.state.sqeInFlight = m.state.sqeInFlight - UInt16.ofNat counted)
    (hring : m'.ring = m.ring.ioUringCqeSeen) (hcounted : counted ≤ 1)
    (hacts : ((obs.filterMap Obs.act?).map Act.submitted).sum = 0) : FlightStep m obs m' 0 1 counted := by
  refine ⟨by simp [hflight], ?_, by rw [hring]; rfl, by rw [hring]; rfl, hacts, hcounted⟩
  rw [hring]
  simp only [Ring.unconsumed, Ring.ioUringCqeSeen, hcq, List.tail_cons, List.length_cons]
  omega

/-- Counting completions down does not wrap as long as they are counted. -/
theorem FlightStep.flight_toNat {consumed counted : Nat} (hs : FlightStep m obs m' 0 consumed counted)
    (hle : counted ≤ m.state.sqeInFlight.toNat) :
    m'.state.sqeInFlight.toNat + counted = m.state.sqeInFlight.toNat := by
  have hlt := m.state.sqeInFlight.toNat_lt
  have hnat : (UInt16.ofNat counted).toNat = counted :=
    UInt16.toNat_ofNat_of_lt' (by unfold UInt16.size; omega)
  have hle' : UInt16.ofNat counted ≤ m.state.sqeInFlight := by
    rw [UInt16.le_iff_toNat_le, hnat]
    exact hle
  have hzero : UInt16.ofNat 0 = 0 := rfl
  rw [hs.flight, hzero, UInt16.add_zero, UInt16.toNat_sub_of_le _ _ hle', hnat]
  omega

/-- The kinds of small steps that consume a completion without counting it. -/
def uncountedKinds : List StepKind := [.acceptRollback, .acceptNoSlot]

theorem SmallStep.flight (h : SmallStep m k obs m') :
    ∃ taken consumed counted, FlightStep m obs m' taken consumed counted ∧ (k ≠ .submitted → taken = 0) ∧
      (k ∉ uncountedKinds → counted = consumed) := by
  have hsame : FlightStep m obs m' 0 0 0 → ∃ taken consumed counted,
      FlightStep m obs m' taken consumed counted ∧ (k ≠ .submitted → taken = 0) ∧
        (k ∉ uncountedKinds → counted = consumed) :=
    fun hs => ⟨0, 0, 0, hs, fun _ => rfl, fun _ => rfl⟩
  have hseen : FlightStep m obs m' 0 1 1 → ∃ taken consumed counted,
      FlightStep m obs m' taken consumed counted ∧ (k ≠ .submitted → taken = 0) ∧
        (k ∉ uncountedKinds → counted = consumed) :=
    fun hs => ⟨0, 1, 1, hs, fun _ => rfl, fun _ => rfl⟩
  cases h with
  | kernel hstep =>
    obtain ⟨-, -, -, hsq, hcq⟩ := hstep.frame
    refine hsame (.same rfl hstep.unconsumed_eq hsq hcq ?_)
    cases hstep <;> rfl
  | pop hpop =>
    obtain @⟨_, _, _, _, sqe, -, -⟩ := hpop
    exact hsame (.same rfl rfl rfl rfl rfl)
  | @submitted n hn =>
    refine ⟨n, 0, 0, ⟨?_, unconsumed_ringTaken hn, rfl, rfl, by simp [Act.submitted], Nat.le_refl 0⟩,
      fun hk => absurd rfl hk, fun _ => rfl⟩
    simp [ringTaken]
  | submitFailed hres =>
    refine hsame (.same rfl rfl rfl rfl ?_)
    simp only [Obs.acts_act, List.filterMap_nil, List.map_cons, List.map_nil, Act.submitted, List.sum_cons,
      List.sum_nil]
    omega
  | acceptAgain hcq => exact hseen (.seen hcq rfl rfl (Nat.le_refl 1) rfl)
  | acceptFailed hcq => exact hseen (.seen hcq rfl rfl (Nat.le_refl 1) rfl)
  | acceptNoSlot hcq =>
    exact ⟨0, 1, 0, .seen hcq (by simp; rfl) rfl (Nat.zero_le 1) rfl, fun _ => rfl,
      fun hk => absurd (by simp [uncountedKinds]) hk⟩
  | acceptRollback hcq =>
    exact ⟨0, 1, 0, .seen hcq (by simp; rfl) rfl (Nat.zero_le 1) rfl, fun _ => rfl,
      fun hk => absurd (by simp [uncountedKinds]) hk⟩
  | accepted hcq => exact hseen (.seen hcq rfl rfl (Nat.le_refl 1) rfl)
  | transferred hcq => exact hseen (.seen hcq rfl rfl (Nat.le_refl 1) rfl)
  | closed hcq =>
    refine hseen (.seen hcq ?_ (closeDone_ring _ _ _) (Nat.le_refl 1) rfl)
    show (closeDone _ _ _).state.sqeInFlight - 1 = _
    rw [closeDone_sqeInFlight]
    rfl
  | eventfd hact =>
    rcases hact with rfl | rfl <;> exact hsame (.same rfl rfl rfl rfl rfl)
  | detached =>
    refine hsame (.same ?_ ?_ ?_ ?_ rfl) <;> simp
  | look _ hact =>
    rcases hact with rfl | ⟨err, rfl⟩ <;> exact hsame (.same rfl rfl rfl rfl rfl)
  | _ => exact hsame (.same rfl rfl rfl rfl rfl)

/-! ### Submitted and consumed -/

/-- Along every path the heads of the rings differ by what is in between, and the head of the SQ ring is the
number of submissions the kernel took. -/
theorem heads_of_path {P : StepKind → Prop} (h : Path SmallStep P m obs m')
    (hheads : m.ring.sqHead = m.ring.cqHead + m.ring.unconsumed) :
    m'.ring.sqHead = m'.ring.cqHead + m'.ring.unconsumed ∧
      m'.ring.sqHead = m.ring.sqHead + ((obs.filterMap Obs.act?).map Act.submitted).sum := by
  induction h with
  | nil => exact ⟨hheads, rfl⟩
  | cons hstep _ _ ih =>
    obtain ⟨taken, consumed, counted, ⟨-, hu, hsq, hcq, hacts, -⟩, -⟩ := hstep.flight
    obtain ⟨hheads', hsum⟩ := ih (by omega)
    refine ⟨hheads', ?_⟩
    rw [List.filterMap_append, List.map_append, List.sum_append]
    omega

theorem Execution.heads {ok : Instance C → Input → Prop} {h : History} (he : Execution ok h m) :
    m.ring.sqHead = m.ring.cqHead + m.ring.unconsumed ∧ m.ring.sqHead = ((actsOf h).map Act.submitted).sum := by
  obtain ⟨config, instanceId, eventfd, -, -, -, obs, hpath, hacts, -⟩ :=
    he.calls (P := fun _ => True) (fun _ _ _ _ _ => trivial)
  obtain ⟨hheads, hsum⟩ := heads_of_path hpath rfl
  refine ⟨hheads, ?_⟩
  rw [hsum, hacts]
  exact Nat.zero_add _

/-! ### The exact count -/

/-- No `EPOLL_CTL_ADD` of an accepted socket fails, and the operations in flight stay countable in 16 bits. -/
def KeepsCount (m : Instance C) : Input → Prop
  | .submit res => m.ring.unconsumed + res.toNat < 2 ^ 16
  | .processEvent _ _ _ env => ∀ j, (env.uring.iter j).addErr = none
  | _ => True

private theorem counted_path {P : StepKind → Prop} (hP : ∀ k, P k → k ≠ .submitted ∧ k ≠ .acceptRollback)
    (h : Path SmallStep P m obs m') (hm : WellFormed m) (hc : AcceptsCounted m)
    (hf : m.state.sqeInFlight.toNat = m.ring.unconsumed) :
    m'.state.sqeInFlight.toNat = m'.ring.unconsumed := by
  induction h with
  | nil => exact hf
  | @cons m m₁ m' k os os' hstep hk _ ih =>
    obtain ⟨hc₁, hpop, -⟩ := hc.acceptStep hm hstep
    obtain ⟨hsubmitted, hrollback⟩ := hP k hk
    obtain ⟨taken, consumed, counted, hflight, htaken, hcounted⟩ := hstep.flight
    -- an accept always finds its slot, so every completion consumed is counted
    have hslot : k ≠ .acceptNoSlot := by
      rintro rfl
      cases hstep
      simp at hpop
    rw [hcounted (by simp [uncountedKinds, hrollback, hslot]), htaken hsubmitted] at hflight
    have hu := hflight.unconsumed
    have hdown := hflight.flight_toNat (by omega)
    exact ih (hm.smallStep hstep) hc₁ (by omega)

/-- One call. -/
theorem counted_step (hm : WellFormed m) (hc : AcceptsCounted m)
    (hf : m.state.sqeInFlight.toNat = m.ring.unconsumed) {i : Input} (hok : KeepsCount m i) :
    (step m i).1.state.sqeInFlight.toNat = (step m i).1.ring.unconsumed := by
  by_cases hsubmit : ∃ res, i = .submit res
  · obtain ⟨res, rfl⟩ := hsubmit
    obtain ⟨n, hsubmits⟩ := mconSubmit_spec hm res
    have hres := hsubmits.le_res
    have hbound : m.ring.unconsumed + n < 2 ^ 16 := by
      have : m.ring.unconsumed + res.toNat < 2 ^ 16 := hok
      omega
    show (mconSubmit m res).1.state.sqeInFlight.toNat = (mconSubmit m res).1.ring.unconsumed
    rw [hsubmits.sqeInFlight, hsubmits.unconsumed, UInt16.toNat_add,
      UInt16.toNat_ofNat_of_lt' (by unfold UInt16.size; omega), hf, Nat.mod_eq_of_lt hbound]
  · obtain ⟨obs, hpath, -⟩ := calls_step m hm.cq_entries i
    refine counted_path (fun k hk => ?_) hpath hm hc hf
    cases i with
    | submit res => exact absurd ⟨res, rfl⟩ hsubmit
    | processEvent data epollEvents capacity env =>
      rcases hk with hk | ⟨rfl, j, err, herr⟩
      · constructor <;> rintro rfl <;> simp [processKinds] at hk
      · rw [hok j] at herr
        cases herr
    | detach s delErr =>
      rcases hk with hk | ⟨rfl, -⟩
      · constructor <;> rintro rfl <;> simp at hk
      · simp
    | _ => constructor <;> rintro rfl <;> simp [Input.allows] at hk

/-- In every run whose steps all meet `KeepsCount`, `sqe_in_flight` is the number of submissions `io_uring_submit`
reported minus the number of completions consumed; with nothing in the kernel and in the CQ ring it is 0. -/
theorem sqe_in_flight_counts_unconsumed {h : History} (he : Execution KeepsCount h m) :
    m.state.sqeInFlight.toNat + m.ring.cqHead = ((actsOf h).map Act.submitted).sum ∧
      (m.ring.unconsumed = 0 → m.state.sqeInFlight = 0) := by
  obtain ⟨hheads, hsum⟩ := he.heads
  obtain ⟨-, -, hf⟩ := he.invariant_of_inputs
    (fun m => AcceptsCounted m ∧ m.state.sqeInFlight.toNat = m.ring.unconsumed)
    (fun _ _ _ _ => ⟨newInstance_acceptsCounted _ _ _, rfl⟩) (fun m i hok hm ⟨hc, hf⟩ =>
      ⟨((calls_step m hm.cq_entries i).accepts hm hc).1, counted_step hm hc hf hok⟩)
  refine ⟨by omega, fun hzero => ?_⟩
  rw [← UInt16.toNat_inj, hf, hzero]
  rfl

/-- A connection is accepted; the counter is back at 0 and may be used in full. -/
theorem sqe_in_flight_counts_unconsumed_accepted :
    (finalState step (freshInstance (smallConfig 2 4 1))
      (startInput :: serverInput :: connectInputs 20)).state.sqeInFlight = 0 := by
  have hrun : Execution KeepsCount _ _ := Execution.of_inputs (smallConfig 2 4 1) (by decide)
    (startInput :: serverInput :: connectInputs 20)
    ⟨trivial, fun _ => rfl, by unfold KeepsCount; decide, trivial, trivial, fun _ => rfl, trivial⟩
  exact (sqe_in_flight_counts_unconsumed hrun).2 (by decide)

/-- An event on the io_uring instance during which no accepted socket can be registered. -/
def unregisteredInput : Input :=
  .processEvent (instancePayload (freshInstance mconConfigDefault) epollSourceIoUring) epollin 8
    ⟨{ UringEnv.quiet with iter := fun _ => ⟨[], some Errno.enomem, []⟩ }, ⟨none, 0⟩⟩

/-- The completion of an accept is consumed, its `EPOLL_CTL_ADD` fails, and the counter stays at 1 with nothing in
flight. -/
theorem failed_registration_is_not_counted :
    let inputs := [startInput, serverInput, .submit 1] ++ completeInputs 20 ++ [unregisteredInput]
    let h := history step (freshInstance (smallConfig 2 4 1)) inputs
    let m := finalState step (freshInstance (smallConfig 2 4 1)) inputs
    Execution anyInput h m ∧ m.ring.unconsumed = 0 ∧ m.state.sqeInFlight = 1 ∧ m.ring.cqHead = 1 ∧
      ((actsOf h).map Act.submitted).sum = 1 :=
  ⟨Execution.of_inputs _ (by decide) _ (.of_forall (fun _ _ _ => trivial) _), by decide, by decide, by decide,
    by decide⟩

/-! ### The limit -/

/-- The SQ ring holds nothing from an earlier submission, or the kernel takes no more than the room left. -/
def WithinLimit (m : Instance C) : Input → Prop
  | .submit res =>
    m.ring.sq = [] ∨ res ≤ (m.configuration.ioUringQueueSize.toNat : Int) - m.state.sqeInFlight.toNat
  | _ => True

/-- `sqe_in_flight` bounds the operations in flight and stays within the limit. -/
structure Limited (m : Instance C) : Prop where
  unconsumed_le : m.ring.unconsumed ≤ m.state.sqeInFlight.toNat
  flight_le : m.state.sqeInFlight.toNat ≤ m.configuration.ioUringQueueSize.toNat

/-- Under the limit the difference in `mcon_submit` is one of natural numbers. -/
theorem Limited.sqeLimit (hl : Limited m) :
    (sqeLimit m).toNat + m.state.sqeInFlight.toNat = m.configuration.ioUringQueueSize.toNat := by
  have hle := hl.flight_le
  have hq := m.configuration.ioUringQueueSize.toNat_lt
  rw [Mcon.sqeLimit, UInt32.toNat_sub, UInt16.toNat_toUInt32, UInt16.toNat_toUInt32]
  omega

private theorem limited_path {P : StepKind → Prop} (hP : ∀ k, P k → k ≠ .submitted)
    (h : Path SmallStep P m obs m') (hl : Limited m) :
    Limited m' ∧ m'.state.sqeInFlight.toNat ≤ m.state.sqeInFlight.toNat := by
  induction h with
  | nil => exact ⟨hl, Nat.le_refl _⟩
  | @cons m m₁ m' k os os' hstep hk _ ih =>
    obtain ⟨taken, consumed, counted, hflight, htaken, -⟩ := hstep.flight
    rw [htaken (hP k hk)] at hflight
    have hu := hflight.unconsumed
    have hcounted := hflight.counted_le
    have hle := hl.unconsumed_le
    have hdown := hflight.flight_toNat (by omega)
    have hlimit := hl.flight_le
    obtain ⟨hl', hless⟩ := ih ⟨by omega, by rw [hstep.frame.configuration]; omega⟩
    exact ⟨hl', by omega⟩

private theorem limited_submit (hm : WellFormed m) (hl : Limited m) {res : Int}
    (hok : WithinLimit m (.submit res)) :
    Limited (mconSubmit m res).1 ∧
      (mconSubmit m res).1.state.sqeInFlight.toNat =
        m.state.sqeInFlight.toNat + ((mconSubmit m res).2.acts.map Act.submitted).sum := by
  obtain ⟨n, hres, hn, hflight, hunconsumed, hconfig, hsum, -⟩ := mconSubmit_spec hm res
  have hlimit := hl.sqeLimit
  have hq := m.configuration.ioUringQueueSize.toNat_lt
  have hpopped : submitPopped m ≤ (sqeLimit m).toNat := by unfold submitPopped popLimit; omega
  have hroom : m.state.sqeInFlight.toNat + n ≤ m.configuration.ioUringQueueSize.toNat := by
    rcases hok with hsq | hok
    · rw [hsq, List.length_nil] at hn
      omega
    · omega
  have hnat : (mconSubmit m res).1.state.sqeInFlight.toNat = m.state.sqeInFlight.toNat + n := by
    rw [hflight, UInt16.toNat_add, UInt16.toNat_ofNat_of_lt' (by unfold UInt16.size; omega),
      Nat.mod_eq_of_lt (by omega)]
  have hle := hl.unconsumed_le
  refine ⟨⟨by omega, ?_⟩, by rw [hsum, hnat]⟩
  rw [hnat, hconfig]
  exact hroom

/-- One call: the limit is kept, and the counter rises by what was submitted at most. -/
private theorem limited_step (hm : WellFormed m) (hl : Limited m) {i : Input} (hok : WithinLimit m i) :
    Limited (step m i).1 ∧ (step m i).1.state.sqeInFlight.toNat ≤
      m.state.sqeInFlight.toNat + ((step m i).2.acts.map Act.submitted).sum := by
  by_cases hsubmit : ∃ res, i = .submit res
  · obtain ⟨res, rfl⟩ := hsubmit
    obtain ⟨hl', hnat⟩ := limited_submit hm hl hok
    exact ⟨hl', hnat.le⟩
  · obtain ⟨obs, hpath, -⟩ := calls_step m hm.cq_entries i
    have hkinds : ∀ k, i.allows k → k ≠ .submitted := by
      rintro k hk rfl
      cases i with
      | submit res => exact hsubmit ⟨res, rfl⟩
      | _ => simp [Input.allows, processKinds] at hk
    obtain ⟨hl', hle⟩ := limited_path hkinds hpath hl
    exact ⟨hl', Nat.le_trans hle (Nat.le_add_right _ _)⟩

/-- In every run whose steps all meet `WithinLimit`, the operations submitted and not consumed and `sqe_in_flight`
stay within `io_uring_queue_size`, the difference in `mcon_submit` does not go below zero, and the counter does
not wrap: a submission raises it by what the kernel took, and no other call raises it. -/
theorem in_flight_within_limit {h : History} (he : Execution WithinLimit h m) :
    m.ring.unconsumed ≤ m.configuration.ioUringQueueSize.toNat ∧
      m.state.sqeInFlight.toNat ≤ m.configuration.ioUringQueueSize.toNat ∧
      (sqeLimit m).toNat + m.state.sqeInFlight.toNat = m.configuration.ioUringQueueSize.toNat ∧
      (∀ res, WithinLimit m (.submit res) → (mconSubmit m res).1.state.sqeInFlight.toNat =
        m.state.sqeInFlight.toNat + ((mconSubmit m res).2.acts.map Act.submitted).sum) ∧
      ∀ i, WithinLimit m i → (step m i).1.state.sqeInFlight.toNat ≤
        m.state.sqeInFlight.toNat + ((step m i).2.acts.map Act.submitted).sum := by
  obtain ⟨hm, hl⟩ := he.invariant_of_inputs Limited (fun _ _ _ _ => ⟨Nat.le_refl 0, Nat.zero_le _⟩)
    (fun _ _ hok hm hl => (limited_step hm hl hok).1)
  exact ⟨Nat.le_trans hl.unconsumed_le hl.flight_le, hl.flight_le, hl.sqeLimit,
    fun res hok => (limited_submit hm hl hok).2, fun i hok => (limited_step hm hl hok).2⟩

/-- Four accepts are submitted at once. -/
theorem in_flight_within_limit_full :
    (finalState step (freshInstance (smallConfig 8 4 4)) [startInput, serverInput, .submit 4]).state.sqeInFlight.toNat ≤
      4 := by
  have hrun : Execution WithinLimit _ _ := Execution.of_inputs (smallConfig 8 4 4) (by decide)
    [startInput, serverInput, .submit 4] ⟨trivial, trivial, .inl rfl, trivial⟩
  exact (in_flight_within_limit hrun).2.1

/-- Two of four accepts stay behind in the SQ ring; the next submission tops the ring up by the room the limit
leaves and hands over all of it. -/
theorem partial_submission_exceeds_limit :
    let inputs := [startInput, serverInput, .submit 2] ++ completeInputs 20 ++
      [ringInput, .read 0 1000 8, .write 0 2000 8, .submit 4]
    let m := finalState step (freshInstance (smallConfig 8 4 4)) inputs
    Execution anyInput (history step (freshInstance (smallConfig 8 4 4)) inputs) m ∧
      m.configuration.ioUringQueueSize = 4 ∧ m.ring.unconsumed = 5 ∧ m.state.sqeInFlight = 5 ∧
      sqeLimit m = 4294967295 :=
  ⟨Execution.of_inputs _ (by decide) _ (.of_forall (fun _ _ _ => trivial) _), by decide, by decide, by decide,
    by decide⟩

end Mcon
