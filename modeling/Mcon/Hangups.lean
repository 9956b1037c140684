import Mcon.Generations

/-!
# Hangups

The latch of the hangup in the state byte of a session is clear when a connection is opened, and set from the first
event with `EPOLLRDHUP` on that is processed during the connection.  It stands for what was reported: the hangup of a
connection is reported with that event and with no other.
-/

namespace Mcon

open Transition (Run Path AllOk history finalState)

variable {C : Ctools} {m m' : Instance C} {i : Input} {s : Nat} {g : UInt8}

/-- The number of hangups of session `s` that a history reports. -/
def hangups (h : History) (s : Nat) : Nat :=
  (h.flatMap fun p => p.2.reported).countP fun e => e.type = .remoteHangup ∧ e.session = s

/-- The call processed an event with `EPOLLRDHUP` of session `s` in the generation `g` and did not return `-1`. -/
def bringsHangup (g : UInt8) (s : Nat) : Input × Output → Bool
  | (.processEvent data epollEvents _ _, out) =>
    decide ((mconDecodeEpollEntry data).source = epollSourceSession ∧ (mconDecodeEpollEntry data).session.toNat = s ∧
      (mconDecodeEpollEntry data).generation = g ∧ epollEvents &&& epollrdhup ≠ 0 ∧ out.rc ≠ -1)
  | _ => false

/-- The action is a `getsockopt` that fails. -/
def Act.queryFails : Act → Bool
  | .getsockopt _ (some _) => true
  | _ => false

/-- No `getsockopt` fails during the call. -/
def QueriesSucceed (m : Instance C) (i : Input) : Prop := ∀ a ∈ (step m i).2.acts, a.queryFails = false

instance : Decidable (QueriesSucceed m i) :=
  inferInstanceAs (Decidable (∀ a ∈ (step m i).2.acts, a.queryFails = false))

/-- Neither a `getsockopt` nor, with `ENOENT`, the `EPOLL_CTL_DEL` of a detach fails. -/
def Undisturbed (m : Instance C) (i : Input) : Prop := NoEnoent m i ∧ QueriesSucceed m i

theorem hangups_append (h h' : History) (s : Nat) : hangups (h ++ h') s = hangups h s + hangups h' s := by
  simp [hangups]

/-! ### Other calls -/

/-- A call that processes no event of a session reports no hangup. -/
theorem hangups_of_not_sessionEvent (hentries : 2 ≤ m.ring.cqEntries) (hi : ¬ i.SessionEvent m) (g : UInt8) (s : Nat) :
    hangups [(i, (step m i).2)] s = 0 ∧ bringsHangup g s (i, (step m i).2) = false := by
  have hcount : (∀ e ∈ (step m i).2.events, e.type ≠ .remoteHangup) → hangups [(i, (step m i).2)] s = 0 := by
    intro hevents
    simp only [hangups, List.flatMap_cons, List.flatMap_nil, List.append_nil, List.countP_eq_zero, decide_eq_true_eq]
    exact fun e he hand => hevents e (List.mem_of_mem_take he) hand.1
  by_cases hevent : i.IsEvent
  · obtain ⟨data, epollEvents, eventCapacity, env, rfl⟩ := hevent
    have hsource : mconOwnsEvent m data = true → (mconDecodeEpollEntry data).source ≠ epollSourceSession :=
      fun howns hsource => hi ⟨data, epollEvents, eventCapacity, env, rfl, howns, hsource⟩
    rw [show step m (.processEvent data epollEvents eventCapacity env) =
      mconProcessEvent m data epollEvents eventCapacity env from rfl] at hcount ⊢
    cases dispatched m data epollEvents eventCapacity env with
    | refused errno _ hcall =>
      rw [hcall]
      exact ⟨rfl, by simp [bringsHangup, Output.ret]⟩
    | serverSocket howns _ hcall =>
      rw [hcall]
      exact ⟨rfl, by simp [bringsHangup, hsource howns]⟩
    | ioUring howns _ hcall =>
      refine ⟨hcount ?_, by simp [bringsHangup, hsource howns]⟩
      rw [hcall, processIoUringEvent_events]
      exact fun e he => (cqeLoopResult_ofCompletion hentries eventCapacity env.uring e he).2
    | session howns hsession => exact absurd hsession (hsource howns)
  · refine ⟨hcount ?_, ?_⟩
    · rw [step_events_nil m fun data epollEvents eventCapacity env heq => hevent ⟨_, _, _, _, heq⟩]
      simp
    · cases i with
      | processEvent data epollEvents eventCapacity env => exact absurd ⟨_, _, _, _, rfl⟩ hevent
      | _ => rfl

/-! ### Events of the session -/

/-- The events of a mask contain its hangup once, unless it was reported before. -/
theorem countP_sessionEvents (epollEvents : UInt32) (t s : Nat) (rdhup : Bool) (sockopt : SockoptResult) :
    (sessionEvents epollEvents t rdhup sockopt).countP (fun e => e.type = .remoteHangup ∧ e.session = s) =
      if t = s ∧ epollEvents &&& epollrdhup ≠ 0 ∧ rdhup = false then 1 else 0 := by
  unfold sessionEvents
  simp only [List.countP_append, bne_iff_ne]
  have hother : ∀ (c : Prop) [Decidable c] (e : Event), e.type ≠ .remoteHangup →
      (if c then [e] else []).countP (fun e => decide (e.type = .remoteHangup ∧ e.session = s)) = 0 := by
    intro c _ e he
    split <;> simp [he]
  rw [hother _ _ (by simp), hother _ _ (by simp), hother _ _ (by simp)]
  by_cases hrdhup : epollEvents &&& epollrdhup = 0
  · simp [hrdhup]
  · cases rdhup <;> simp [hrdhup]

theorem hangupLatched_latchHangup {t : Nat} (ht : t < m.sessions.length) (epollEvents : UInt32) (s : Nat) :
    hangupLatched (latchHangup m epollEvents t) s =
      (hangupLatched m s || decide (t = s ∧ epollEvents &&& epollrdhup ≠ 0)) := by
  unfold latchHangup
  by_cases hrdhup : epollEvents &&& epollrdhup = 0
  · simp [hrdhup]
  · have hset : (epollEvents &&& epollrdhup != 0) = true := by simpa using hrdhup
    rw [if_pos hset]
    by_cases hts : t = s
    · subst hts
      have hbit : ((m.session t).state ||| stateRdhup) &&& stateRdhup ≠ 0 := by
        rw [Ne, or_and_eq_zero]
        exact fun h => absurd h.2 (by decide)
      rw [hangupLatched, setStateBits, Instance.session_modify_self ht]
      simp [hrdhup, hbit]
    · have hst : s ≠ t := fun h => hts h.symm
      rw [hangupLatched, setStateBits, Instance.session_modify_ne _ _ hst]
      simp [hangupLatched, hts]

/-- No query of the call fails. -/
theorem not_queryFails_of_acts {epollEvents : UInt32} {entry : EpollEntry} {maxEvents : Nat}
    {sockopt : SockoptResult} (hthrough : LetThrough m epollEvents entry maxEvents)
    (hq : ∀ a ∈ (mconProcessSessionEvent m epollEvents entry maxEvents sockopt).2.acts, a.queryFails = false) :
    ¬ QueryFails epollEvents sockopt := by
  rintro ⟨herr, herrno⟩
  obtain ⟨err, hsome⟩ := Option.ne_none_iff_exists'.1 herrno
  have hmem : Act.getsockopt (m.session entry.session.toNat).socketFd (some err) ∈
      (mconProcessSessionEvent m epollEvents entry maxEvents sockopt).2.acts := by
    rw [processSessionEvent_acts hthrough, if_pos herr, hsome]
    simp
  exact absurd (hq _ hmem) (by simp [Act.queryFails])

/-- An event of a session brings a hangup when it is let through with `EPOLLRDHUP`; the hangup is reported if it is
the first one, and latched. -/
theorem hangups_of_sessionEvent (hm : WellFormed m) (hq : QueriesSucceed m i) (hi : i.SessionEvent m) (s : Nat) :
    hangups [(i, (step m i).2)] s =
        (bringsHangup (m.session s).generation s (i, (step m i).2) && !hangupLatched m s).toNat ∧
      hangupLatched (step m i).1 s =
        (hangupLatched m s || bringsHangup (m.session s).generation s (i, (step m i).2)) ∧
      slotEventsOf (i, (step m i).2) = [] := by
  obtain ⟨data, epollEvents, eventCapacity, env, rfl, howns, hsource⟩ := hi
  have hcall : step m (.processEvent data epollEvents eventCapacity env) = _ :=
    mconProcessEvent_session howns hsource epollEvents eventCapacity env
  unfold QueriesSucceed at hq
  rw [hcall] at hq ⊢
  generalize ht : (mconDecodeEpollEntry data).session.toNat = t
  by_cases hthrough : LetThrough m epollEvents (mconDecodeEpollEntry data) eventCapacity
  · have hm' := (processSessionEvent_of_letThrough hthrough env.sockopt).1
    obtain ⟨hreported, hne⟩ := processSessionEvent_reported hthrough (not_queryFails_of_acts hthrough hq)
    rw [ht] at hreported
    have hbrings : bringsHangup (m.session s).generation s (.processEvent data epollEvents eventCapacity env,
        (mconProcessSessionEvent m epollEvents (mconDecodeEpollEntry data) eventCapacity env.sockopt).2) =
          decide (t = s ∧ epollEvents &&& epollrdhup ≠ 0) := by
      have hgeneration := hthrough.generation
      rw [ht] at hgeneration
      simp only [bringsHangup, hsource, ht, hgeneration, ne_eq, hne, not_false_eq_true, and_true, true_and,
        decide_eq_decide]
      constructor
      · exact fun h => ⟨h.1, h.2.2⟩
      · rintro ⟨rfl, h⟩
        exact ⟨rfl, rfl, h⟩
    rw [hbrings]
    refine ⟨?_, ?_, ?_⟩
    · rw [hangups, List.flatMap_singleton, hreported, countP_sessionEvents]
      by_cases hts : t = s
      · subst hts
        by_cases hrdhup : epollEvents &&& epollrdhup = 0
        · simp [hrdhup]
        · cases hangupLatched m t <;> simp [hrdhup]
      · simp [hts]
    · rw [hm', ht, hangupLatched_latchHangup (hm.sessions_length ▸ ht ▸ hthrough.session_lt)]
    · simp [slotEventsOf, hreported, slotEvent_sessionEvents]
  · obtain ⟨hm', hevents, hrc⟩ := processSessionEvent_of_not_letThrough hthrough env.sockopt
    have hreported : (mconProcessSessionEvent m epollEvents (mconDecodeEpollEntry data) eventCapacity
        env.sockopt).2.reported = [] := by rw [Output.reported, hevents, List.take_nil]
    have hbrings : bringsHangup (m.session s).generation s (.processEvent data epollEvents eventCapacity env,
        (mconProcessSessionEvent m epollEvents (mconDecodeEpollEntry data) eventCapacity env.sockopt).2) = false := by
      rw [bringsHangup, decide_eq_false_iff_not]
      rintro ⟨-, hs, hgeneration, -, hne⟩
      exact hne (hrc (by rw [hs, hgeneration]))
    rw [hbrings, hm']
    exact ⟨by simp [hangups, hreported], by simp, by simp [slotEventsOf, hreported]⟩

/-! ### A connection -/

/-- Slot `s` carries the connection whose generation is `g`. -/
structure Connected (m : Instance C) (s : Nat) (g : UInt8) : Prop where
  wellFormed : WellFormed m
  indices : ValidIndices m
  slots : ∃ A, Represents m A ∧ A s ≠ .free
  generation : (m.session s).generation = g

theorem slotLog_singleton (p : Input × Output) (s : Nat) :
    slotLog [p] s = (slotEventsOf p).filterMap fun q => if q.1 = s then some q.2 else none := by
  simp [slotLog]

theorem slotLog_append (h h' : History) (s : Nat) : slotLog (h ++ h') s = slotLog h s ++ slotLog h' s := by
  simp [slotLog]

/-- A call during which the connection does not end; only an event of the session touches the latch. -/
theorem Connected.step (hc : Connected m s g) (hok : NoEnoent m i)
    (hreleases : Slot.releases (slotLog [(i, (step m i).2)] s) = 0) :
    Connected (step m i).1 s g ∧ (¬ i.SessionEvent m → hangupLatched (step m i).1 s = hangupLatched m s) := by
  obtain ⟨hm, hind, ⟨A, hrep, hne⟩, hg⟩ := hc
  have hlog : ∀ obs : List Obs, obs.filterMap Obs.slot? = slotEventsOf (i, (Mcon.step m i).2) →
      slotLog [(i, (Mcon.step m i).2)] s = logOf obs s := by
    intro obs hobs
    rw [slotLog_singleton, logOf, hobs]
  constructor
  · obtain ⟨obs, hpath, -, hobs⟩ := calls_step m hm.cq_entries i
    rw [hlog obs hobs] at hreleases
    obtain ⟨A', hrep', -, hsame⟩ := hrep.sameConnection (fun _ hk => hok.kind hk) hpath hm hind hne hreleases
    exact
      { wellFormed := hpath.invariant WellFormed (fun _ _ _ _ _ hs hx => hx.smallStep hs) hm
        indices := hpath.invariant ValidIndices (fun _ _ _ _ _ hs hx => hx.smallStep hs) hind
        slots := ⟨A', hrep', hsame.ne_free⟩
        generation := hsame.generation.trans hg }
  · intro hi
    obtain ⟨obs, hpath, -, hobs⟩ := calls_step_of_not_sessionEvent hm hok.detachesWhole hi
    rw [hlog obs hobs] at hreleases
    obtain ⟨_, -, -, hsame⟩ := hrep.sameConnection (fun _ hk => hk.2.1) hpath hm hind hne hreleases
    rw [hangupLatched, hangupLatched, hsame.rdhup fun _ hk => hk.2.2.1]

/-- One call during the connection: the latch stands for the hangups reported. -/
theorem Connected.hangups_step (hc : Connected m s g) (hok : Undisturbed m i) :
    hangups [(i, (Mcon.step m i).2)] s =
        (bringsHangup g s (i, (Mcon.step m i).2) && !hangupLatched m s).toNat ∧
      (Slot.releases (slotLog [(i, (Mcon.step m i).2)] s) = 0 →
        hangupLatched (Mcon.step m i).1 s = (hangupLatched m s || bringsHangup g s (i, (Mcon.step m i).2))) := by
  by_cases hi : i.SessionEvent m
  · obtain ⟨hcount, hlatch, -⟩ := hangups_of_sessionEvent hc.wellFormed hok.2 hi s
    rw [hc.generation] at hcount hlatch
    exact ⟨hcount, fun _ => hlatch⟩
  · obtain ⟨hcount, hbrings⟩ := hangups_of_not_sessionEvent hc.wellFormed.cq_entries hi g s
    refine ⟨by rw [hcount, hbrings]; rfl, fun hreleases => ?_⟩
    rw [(hc.step hok.1 hreleases).2 hi, hbrings, Bool.or_false]

/-- The run of a connection as long as it has not ended. -/
theorem Connected.run (hc : Connected m s g) (hclear : hangupLatched m s = false) {h : History}
    (hr : Run Mcon.step Undisturbed m h m') (hreleases : Slot.releases (slotLog h s) = 0) :
    Connected m' s g ∧ hangupLatched m' s = h.any (bringsHangup g s) ∧
      hangups h s = (h.any (bringsHangup g s)).toNat := by
  induction hr with
  | nil => exact ⟨hc, hclear, rfl⟩
  | @snoc h m₁ i hr hok ih =>
    rw [slotLog_append, Slot.releases_append] at hreleases
    obtain ⟨hc₁, hlatch₁, hcount₁⟩ := ih (by omega)
    have hlast : Slot.releases (slotLog [(i, (Mcon.step m₁ i).2)] s) = 0 := by omega
    obtain ⟨hcount, hlatch⟩ := hc₁.hangups_step hok
    refine ⟨(hc₁.step hok.1 hlast).1, ?_, ?_⟩
    · rw [hlatch hlast, hlatch₁, List.any_append, List.any_cons, List.any_nil, Bool.or_false]
    · rw [hangups_append, hcount, hcount₁, hlatch₁, List.any_append, List.any_cons, List.any_nil, Bool.or_false]
      cases h.any (bringsHangup g s) <;> cases bringsHangup g s (i, (Mcon.step m₁ i).2) <;> rfl

/-! ### Every connection -/

/-- The step that shows the opening of a slot registers its socket. -/
theorem SmallStep.epollAdd_of_opened {k : StepKind} {obs : List Obs} (hind : ValidIndices m)
    (h : SmallStep m k obs m') (hs : .slot s .opened ∈ obs) :
    ∃ fd, .act (.epollAdd m.epollFd fd (clientPayload m s) (clientEvents m) none) ∈ obs ∧
      s < m.configuration.sessionCount.toNat := by
  cases h with
  | kernel => simp at hs
  | accepted _ _ _ hpop =>
    simp only [List.mem_cons, reduceCtorEq, Obs.slot.injEq, and_true, List.not_mem_nil, or_false, false_or] at hs
    subst hs
    exact ⟨_, List.mem_cons_of_mem _ (List.mem_cons_of_mem _ List.mem_cons_self), hind.lt_of_pop hpop⟩
  | _ => simp at hs

/-- A new connection is reported by the call that registers its socket. -/
theorem Execution.registered_of_opened {ok : Instance C → Input → Prop} {h : History} (he : Execution ok h m)
    (hopened : .opened ∈ slotLog [(i, (step m i).2)] s) :
    ∃ epfd fd data events, Act.epollAdd epfd fd data events none ∈ (step m i).2.acts ∧
      (mconDecodeEpollEntry data).source = epollSourceSession ∧ (mconDecodeEpollEntry data).session.toNat = s := by
  have hm := he.wellFormed
  have hcount := (mconConfigValidate_spec hm.valid).sessionCount_lt
  obtain ⟨obs, hpath, hacts, hlog⟩ := calls_step m hm.cq_entries i
  have hmem : .slot s .opened ∈ obs := by
    rw [slotLog_singleton, ← hlog] at hopened
    obtain ⟨q, hq, hqs⟩ := List.mem_filterMap.1 hopened
    obtain ⟨o, ho, hoq⟩ := List.mem_filterMap.1 hq
    cases o with
    | act => cases hoq
    | slot t e =>
      cases hoq
      split at hqs
      · rename_i hts
        cases hqs
        cases hts
        exact ho
      · cases hqs
  obtain ⟨m₁, k, obsₖ, m₂, obs₁, obs₂, hpath₁, hstep, -, hmemₖ, -, rfl⟩ := hpath.split_of_mem hmem
  obtain ⟨hind₁, hconfig₁⟩ := hpath₁.invariant
    (fun x => ValidIndices x ∧ x.configuration = m.configuration)
    (fun _ _ _ _ _ hs hx => ⟨hx.1.smallStep hs, hs.frame.configuration.trans hx.2⟩) ⟨he.validIndices, rfl⟩
  obtain ⟨fd, hadd, hlt⟩ := hstep.epollAdd_of_opened hind₁ hmemₖ
  have hdecode := decode_clientPayload m₁ (Nat.lt_trans hlt (hconfig₁ ▸ hcount))
  refine ⟨m₁.epollFd, fd, clientPayload m₁ s, clientEvents m₁, (Obs.mem_acts_iff hacts).2 ?_, ?_, hdecode.2⟩
  · exact List.mem_append_left _ (List.mem_append_right _ hadd)
  · rw [hdecode.1]

/-- A call that processes an event of a session reports no new connection. -/
theorem not_sessionEvent_of_newConnection {fd : Int} (hopen : ⟨fd, s, .newConnection⟩ ∈ (step m i).2.reported) :
    ¬ i.SessionEvent m := by
  rintro ⟨data, epollEvents, eventCapacity, env, rfl, howns, hsource⟩
  have hcall : step m (.processEvent data epollEvents eventCapacity env) = _ :=
    mconProcessEvent_session howns hsource epollEvents eventCapacity env
  rw [hcall] at hopen
  have hmem := List.mem_of_mem_take hopen
  by_cases hthrough : LetThrough m epollEvents (mconDecodeEpollEntry data) eventCapacity
  · rw [(processSessionEvent_of_letThrough hthrough env.sockopt).2.1] at hmem
    simp only [sessionEvents, List.mem_append] at hmem
    rcases hmem with ((hmem | hmem) | hmem) | hmem <;> (repeat' split at hmem) <;> simp at hmem
  · rw [(processSessionEvent_of_not_letThrough hthrough env.sockopt).2.1] at hmem
    cases hmem

theorem opened_of_newConnection {fd : Int} (hfd : 0 ≤ fd) (hopen : ⟨fd, s, .newConnection⟩ ∈ (step m i).2.reported) :
    .opened ∈ slotLog [(i, (step m i).2)] s := by
  have hmem := opened_of_reported m i hopen rfl (by simpa using hfd)
  rw [slotLog_singleton, List.mem_filterMap]
  exact ⟨_, hmem, by simp⟩

/-- The hangup of a connection is reported once if an event with `EPOLLRDHUP` and its generation is processed between
its opening and its end, and not at all otherwise. -/
theorem hangup_reported_once {h₁ h₂ : History} (he : Execution Undisturbed h₁ m) (hok : Undisturbed m i) {fd : Int}
    (hfd : 0 ≤ fd) (hopen : ⟨fd, s, .newConnection⟩ ∈ (step m i).2.reported)
    (hr : Run step Undisturbed (step m i).1 h₂ m') (hcurrent : Slot.releases (slotLog h₂.dropLast s) = 0) :
    hangups ((i, (step m i).2) :: h₂) s =
      if ((i, (step m i).2) :: h₂).any (bringsHangup ((step m i).1.session s).generation s) then 1 else 0 := by
  have hevent := not_sessionEvent_of_newConnection hopen
  obtain ⟨_, _, _, _, hadd, hsource, hs⟩ := he.registered_of_opened (opened_of_newConnection hfd hopen)
  obtain ⟨A', ho⟩ := (he.mono fun _ _ hok => hok.1).opens hok.1 hadd hsource
  rw [hs] at ho
  have hc : Connected (step m i).1 s ((step m i).1.session s).generation := by
    refine ⟨ho.wellFormed, ho.indices, ⟨A', ho.represents, ?_⟩, rfl⟩
    rw [ho.idle]
    simp [Slot.idle]
  have hclear : hangupLatched (step m i).1 s = false := by
    simpa [hangupLatched] using ho.rdhup
  generalize ((step m i).1.session s).generation = g at hc
  -- the call that opens the connection reports no hangup and brings none
  obtain ⟨hcount, hbrings⟩ := hangups_of_not_sessionEvent he.wellFormed.cq_entries hevent g s
  have hrest : hangups h₂ s = (h₂.any (bringsHangup g s)).toNat := by
    cases hr with
    | nil => rfl
    | @snoc h₃ m₃ j hr hokj =>
      rw [List.dropLast_concat] at hcurrent
      obtain ⟨hc₃, hlatch₃, hcount₃⟩ := hc.run hclear hr hcurrent
      obtain ⟨hcountj, -⟩ := hc₃.hangups_step hokj
      rw [hangups_append, hcountj, hcount₃, hlatch₃, List.any_append, List.any_cons, List.any_nil, Bool.or_false]
      cases h₃.any (bringsHangup g s) <;> cases bringsHangup g s (j, (step m₃ j).2) <;> rfl
  rw [List.any_cons, hbrings, Bool.false_or, ← List.singleton_append, hangups_append, hcount, hrest, Nat.zero_add]
  cases h₂.any (bringsHangup g s) <;> rfl

/-- The inputs of a connection whose hangup is presented twice before it is closed. -/
def hangupInputs : List Input :=
  [.processEvent clientData epollrdhup 8 ⟨.quiet, ⟨none, 0⟩⟩, .read 0 0 16,
    .processEvent clientData (epollin ||| epollrdhup) 8 ⟨.quiet, ⟨none, 0⟩⟩, .submit 1] ++
    completeInputs 0 ++ [ringInput, .close 0, .submit 1] ++ completeInputs 0 ++ [ringInput]

theorem hangup_reported_once_twice :
    hangups (history step (finalState step (freshInstance (smallConfig 1 4 1)) acceptedInputs)
      (ringInput :: hangupInputs)) 0 = 1 := by
  have hnone : ∀ is : List Input, is = acceptedInputs ∨ is = ringInput :: hangupInputs →
      ∀ m : Instance listCtools, AllOk step NoEnoent m is := by
    rintro is (rfl | rfl) <;>
      exact .of_forall (by simp [NoEnoent, acceptedInputs, hangupInputs, completeInputs, startInput, serverInput,
        ringInput])
  have hrun := Execution.of_inputs (smallConfig 1 4 1) (by decide) acceptedInputs
    ((hnone _ (.inl rfl) _).and (by decide : AllOk step QueriesSucceed _ _))
  have hok := (hnone _ (.inr rfl) (finalState step (freshInstance (smallConfig 1 4 1)) acceptedInputs)).and
    (by decide : AllOk step QueriesSucceed (finalState step (freshInstance (smallConfig 1 4 1)) acceptedInputs)
      (ringInput :: hangupInputs))
  exact hangup_reported_once hrun hok.1 (show (0 : Int) ≤ 20 by decide) (by decide) (Run.of_inputs hangupInputs hok.2)
    (by decide)

end Mcon
