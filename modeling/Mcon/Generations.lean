import Mcon.EventBounds
import Mcon.Payloads
import Mcon.SessionEvents
import Mcon.SessionRecords

/-!
# Payloads and generations

The payload of a connection carries the generation its session has while the connection lasts.  An event with this
payload is let through during the connection, and discarded after it until the generation has gone round.
-/

namespace Mcon

open Transition (Run Path AllOk history finalState)

variable {C : Ctools} {m m' : Instance C} {A : Nat → Slot} {k : StepKind} {obs : List Obs} {i : Input}

/-! ### Events of sessions and other calls -/

/-- The input is an event of a session. -/
def Input.SessionEvent (m : Instance C) (i : Input) : Prop :=
  ∃ data epollEvents eventCapacity env, i = .processEvent data epollEvents eventCapacity env ∧
    mconOwnsEvent m data = true ∧ (mconDecodeEpollEntry data).source = epollSourceSession

/-- The input is an event. -/
def Input.IsEvent (i : Input) : Prop :=
  ∃ data epollEvents eventCapacity env, i = .processEvent data epollEvents eventCapacity env

/-- No other event latches a hangup or looks at a socket. -/
theorem calls_step_of_not_sessionEvent (hm : WellFormed m) (hok : DetachesWhole m i) (hi : ¬ i.SessionEvent m) :
    Calls (fun k => i.allows k ∧ k ≠ .detachEnoent ∧ k ≠ .rdhup ∧ (k = .look → ¬ i.IsEvent)) m (step m i).2.acts
      (slotEventsOf (i, (step m i).2)) (step m i).1 := by
  by_cases hevent : i.IsEvent
  · obtain ⟨data, epollEvents, eventCapacity, env, rfl⟩ := hevent
    have hkinds : ∀ k ∈ handlerKinds, (Input.processEvent data epollEvents eventCapacity env).allows k ∧
        k ≠ .detachEnoent ∧ k ≠ .rdhup ∧
        (k = .look → ¬ (Input.processEvent data epollEvents eventCapacity env).IsEvent) := by
      intro k hk
      exact ⟨.inl (handlerKinds_subset hk), by rintro rfl; simp [handlerKinds] at hk,
        by rintro rfl; simp [handlerKinds] at hk, by rintro rfl; simp [handlerKinds] at hk⟩
    show Calls _ m (mconProcessEvent m data epollEvents eventCapacity env).2.acts
      ((mconProcessEvent m data epollEvents eventCapacity env).2.reported.filterMap Event.slotEvent)
      (mconProcessEvent m data epollEvents eventCapacity env).1
    cases dispatched m data epollEvents eventCapacity env with
    | refused errno _ hcall =>
      rw [hcall]
      exact .nil m
    | serverSocket _ _ hcall =>
      rw [hcall]
      split
      · exact .single .acceptsRequested ⟨.inl (by decide), by simp, by simp, by simp⟩
      · exact .nil m
    | ioUring _ _ hcall =>
      rw [hcall]
      exact calls_processIoUringEvent (hkinds _ (by decide)) ⟨.inl (by decide), by simp, by simp, by simp⟩
        (fun _ => hkinds) (fun j err herr => ⟨.inr ⟨rfl, j, err, herr⟩, by simp, by simp, by simp⟩) m hm.cq_entries
    | session howns hsource => exact absurd ⟨data, epollEvents, eventCapacity, env, rfl, howns, hsource⟩ hi
  · refine (calls_step_whole hm hok).mono fun k hk => ⟨hk.1, hk.2, ?_, fun _ => hevent⟩
    rintro rfl
    cases i with
    | processEvent data epollEvents eventCapacity env => exact hevent ⟨data, epollEvents, eventCapacity, env, rfl⟩
    | _ => simp [Input.allows] at hk

/-- An event of a session registers nothing. -/
theorem not_sessionEvent_of_epollAdd {epfd fd : Int} {data : UInt64} {events : UInt32} {err : Option Int}
    (hadd : Act.epollAdd epfd fd data events err ∈ (step m i).2.acts) : ¬ i.SessionEvent m := by
  rintro ⟨data', epollEvents, eventCapacity, env, rfl, howns, hsource⟩
  have hcall := mconProcessEvent_session howns hsource epollEvents eventCapacity env
  change _ ∈ (mconProcessEvent m data' epollEvents eventCapacity env).2.acts at hadd
  rw [hcall] at hadd
  by_cases hthrough : LetThrough m epollEvents (mconDecodeEpollEntry data') eventCapacity
  · rw [processSessionEvent_acts hthrough] at hadd
    split at hadd <;> simp at hadd
  · cases processSessionEvent_acts_of_not_letThrough hthrough env.sockopt _ hadd

/-! ### The opening of a connection -/

/-- The payload of `_process_accept` decoded. -/
theorem decode_clientPayload (m : Instance C) {s : Nat} (hs : s < 2 ^ 20) :
    mconDecodeEpollEntry (clientPayload m s) =
        ⟨m.instanceId, (m.session s).generation, epollSourceSession, UInt32.ofNat s, 0⟩ ∧
      (mconDecodeEpollEntry (clientPayload m s)).session.toNat = s := by
  have hnat : (UInt32.ofNat s).toNat = s := UInt32.toNat_ofNat_of_lt' (by unfold UInt32.size; omega)
  have hrange : EpollEntry.InRange
      ⟨m.instanceId, (m.session s).generation, epollSourceSession, UInt32.ofNat s, 0⟩ :=
    ⟨(by decide : epollSourceSession.toNat < 2 ^ 4), hnat.trans_lt hs⟩
  have hdecode := mconDecodeEpollEntry_encode hrange
  exact ⟨hdecode, (congrArg (fun e : EpollEntry => e.session.toNat) hdecode).trans hnat⟩

/-- The payloads of `mcon_start` are of other sources. -/
theorem source_instancePayload (m : Instance C) {source : EpollSource} (hsource : source.toNat < 2 ^ 4) :
    (mconDecodeEpollEntry (instancePayload m source)).source = source := by
  have hrange : EpollEntry.InRange ⟨m.instanceId, 0, source, UInt32.ofNat mconNoSession, 0⟩ :=
    ⟨hsource, (by decide : (UInt32.ofNat mconNoSession).toNat < 2 ^ 20)⟩
  exact congrArg EpollEntry.source (mconDecodeEpollEntry_encode hrange)

/-- The step that registers a payload of a session is the opening of its connection. -/
theorem SmallStep.accepted_of_epollAdd (hm : WellFormed m) (hind : ValidIndices m) (h : SmallStep m k obs m')
    {epfd fd : Int} {data : UInt64} {events : UInt32} {s : Nat}
    (hadd : .act (.epollAdd epfd fd data events none) ∈ obs)
    (hsource : (mconDecodeEpollEntry data).source = epollSourceSession)
    (hs : (mconDecodeEpollEntry data).session.toNat = s) :
    k = .accepted ∧ 0 ≤ fd ∧ s < m.configuration.sessionCount.toNat ∧
      mconDecodeEpollEntry data = ⟨m.instanceId, (m.session s).generation, epollSourceSession, UInt32.ofNat s, 0⟩ ∧
      m'.session s = { m.session s with socketFd := fd, state := stateNone } ∧ logOf obs s = [.opened] := by
  have hserver := source_instancePayload m (by decide : epollSourceServerSocket.toNat < 2 ^ 4)
  have hring := source_instancePayload m (by decide : epollSourceIoUring.toNat < 2 ^ 4)
  have hne : ∀ source : EpollSource, source = epollSourceServerSocket ∨ source = epollSourceIoUring →
      source ≠ epollSourceSession := by
    rintro source (rfl | rfl) <;> decide
  cases h with
  | kernel hstep => cases hstep <;> simp at hadd
  | @accepted cqe rest t stack hcq hop hres hpop =>
    have hlt := hind.lt_of_pop hpop
    have hlen : t < ({ acceptDone m with sessionFreeStack := stack } : Instance C).sessions.length :=
      hm.sessions_length ▸ hlt
    simp only [List.mem_cons, Obs.act.injEq, Act.epollAdd.injEq, reduceCtorEq, false_or, List.not_mem_nil,
      or_false] at hadd
    obtain ⟨-, rfl, rfl, -⟩ := hadd
    obtain ⟨hdecode, hsession⟩ := decode_clientPayload m
      (Nat.lt_trans hlt (mconConfigValidate_spec hm.valid).sessionCount_lt)
    obtain rfl : t = s := hsession.symm.trans hs
    exact ⟨rfl, hres, hlt, hdecode, Instance.session_modify_self hlen _, by simp [logOf]⟩
  | started =>
    simp only [List.mem_cons, Obs.act.injEq, Act.epollAdd.injEq, reduceCtorEq, false_or, List.not_mem_nil,
      or_false] at hadd
    rcases hadd with ⟨-, -, rfl, -⟩ | ⟨-, -, rfl, -⟩
    · exact absurd hsource (hne _ (.inl hserver))
    · exact absurd hsource (hne _ (.inr hring))
  | startUndone =>
    simp only [List.mem_cons, Obs.act.injEq, Act.epollAdd.injEq, reduceCtorEq, false_or, List.not_mem_nil,
      or_false, and_false] at hadd
    obtain ⟨-, -, rfl, -⟩ := hadd
    exact absurd hsource (hne _ (.inl hserver))
  | eventfd hact => rcases hact with rfl | rfl <;> simp at hadd
  | look _ hact => rcases hact with rfl | ⟨err, rfl⟩ <;> simp at hadd
  | _ => simp at hadd

/-- Processing completions shows openings and answers only. -/
theorem SmallStep.seen_of_eventKinds (hk : eventKinds k) (h : SmallStep m k obs m') :
    ∀ p ∈ obs.filterMap Obs.slot?, Slot.Reported p.2 := by
  cases h with
  | kernel hstep => simp [List.filterMap_map, Function.comp_def, Obs.slot?]
  | request => rcases hk with hk | hk <;> simp [processKinds] at hk
  | detached => rcases hk with hk | hk <;> simp [processKinds] at hk
  | _ => simp [Slot.Reported]

theorem eventKinds_of_accepted (hi : i.allows .accepted) {k : StepKind} (hk : i.allows k) : eventKinds k := by
  cases i with
  | processEvent data epollEvents eventCapacity env => exact hk.imp_right fun h => h.1
  | _ => simp [Input.allows] at hi

/-- Nothing is seen of a connection in the rest of the call that opens it. -/
theorem Represents.logOf_eq_nil {P : StepKind → Prop} (hP : ∀ k, P k → eventKinds k ∧ k ≠ .detachEnoent)
    (hm : WellFormed m) (hrep : Represents m A) (h : Path SmallStep P m obs m') {s : Nat} (hidle : A s = .idle) :
    logOf obs s = [] := by
  obtain ⟨A', -, hrun, -⟩ := hrep.path (fun k hk => (hP k hk).2) hm h
  have hall := h.forall_mem (fun _ => True)
    (fun o => ∀ p, o.slot? = some p → Slot.Reported p.2) (fun x k os x' hk hstep _ =>
      ⟨trivial, fun o ho p hop => hstep.seen_of_eventKinds (hP k hk).1 p (List.mem_filterMap.2 ⟨o, ho, hop⟩)⟩) trivial
  refine Slot.eq_nil_of_run_idle (hidle ▸ hrun s) fun e he => ?_
  obtain ⟨p, hp, hpe⟩ := List.mem_filterMap.1 he
  obtain ⟨o, ho, hop⟩ := List.mem_filterMap.1 hp
  split at hpe
  · cases hpe
    exact hall o ho p hop
  · cases hpe

/-- A call after which slot `s` is open on the descriptor `fd`, for a connection of this payload, of which nothing
else has been seen yet. -/
structure Opens (m : Instance C) (i : Input) (data : UInt64) (fd : Int) (s : Nat) (A' : Nat → Slot) : Prop where
  wellFormed : WellFormed (step m i).1
  indices : ValidIndices (step m i).1
  represents : Represents (step m i).1 A'
  idle : A' s = .idle
  lt : s < (step m i).1.configuration.sessionCount.toNat
  owns : mconOwnsEvent (step m i).1 data = true
  generation : ((step m i).1.session s).generation = (mconDecodeEpollEntry data).generation
  socketFd : ((step m i).1.session s).socketFd = fd
  fd_nonneg : 0 ≤ fd
  rdhup : ((step m i).1.session s).state &&& stateRdhup = 0
  log : ∃ l, slotLog [(i, (step m i).2)] s = l ++ [.opened]

theorem Execution.opens {h : History} (he : Execution NoEnoent h m) (hok : NoEnoent m i) {epfd fd : Int} {data : UInt64}
    {events : UInt32} (hadd : Act.epollAdd epfd fd data events none ∈ (step m i).2.acts)
    (hsource : (mconDecodeEpollEntry data).source = epollSourceSession) :
    ∃ A', Opens m i data fd (mconDecodeEpollEntry data).session.toNat A' := by
  obtain ⟨A, hm, hrep, -⟩ := he.represents
  have hcalls := calls_step_of_not_sessionEvent hm hok.detachesWhole (not_sessionEvent_of_epollAdd hadd)
  have hm' := hcalls.wellFormed hm
  have hconfig' := hcalls.invariant (fun x => x.configuration = m.configuration ∧ x.instanceId = m.instanceId)
    (fun _ _ _ _ _ hs hx => ⟨hs.frame.configuration.trans hx.1, hs.frame.instanceId.trans hx.2⟩) ⟨rfl, rfl⟩
  obtain ⟨obs, hpath, hacts, hlog⟩ := hcalls
  obtain ⟨m₁, k, obsₖ, m₂, obs₁, obs₂, hpath₁, hstep, hk, hmem, hpath₂, rfl⟩ :=
    hpath.split_of_mem ((Obs.mem_acts_iff hacts).1 hadd)
  generalize hs : (mconDecodeEpollEntry data).session.toNat = s
  -- the call up to the registration
  obtain ⟨hm₁, hind₁, hid₁, hconfig₁⟩ := hpath₁.invariant
    (fun x => WellFormed x ∧ ValidIndices x ∧ x.instanceId = m.instanceId ∧ x.configuration = m.configuration)
    (fun _ _ _ _ _ hs hx => ⟨hx.1.smallStep hs, hx.2.1.smallStep hs, hs.frame.instanceId.trans hx.2.2.1,
      hs.frame.configuration.trans hx.2.2.2⟩) ⟨hm, he.validIndices, rfl, rfl⟩
  obtain ⟨A₁, hrep₁, -, -⟩ := hrep.path (fun _ hk => hk.2.1) hm hpath₁
  -- the registration
  obtain ⟨rfl, hfd, hlt, hdecode, hsession₂, hlogₖ⟩ := hstep.accepted_of_epollAdd hm₁ hind₁ hmem hsource hs
  obtain ⟨A₂, hrep₂, hrun₂, -⟩ := hrep₁.slotStep hm₁ hk.2.1 hstep
  have hidle₂ : A₂ s = .idle := by
    have hrun := hrun₂ s
    rw [hlogₖ, Slot.run_singleton] at hrun
    exact (Slot.free_of_next_opened hrun).2
  -- the call from there on
  have hm₂ := hm₁.smallStep hstep
  have hind₂ := hind₁.smallStep hstep
  have hnil : logOf obs₂ s = [] :=
    hrep₂.logOf_eq_nil (fun _ hk' => ⟨eventKinds_of_accepted hk.1 hk'.1, hk'.2.1⟩) hm₂ hpath₂ hidle₂
  obtain ⟨A', hrep', hrun', hsame⟩ := hrep₂.sameConnection (fun _ hk => hk.2.1) hpath₂ hm₂ hind₂ (s := s)
    (by rw [hidle₂]; simp [Slot.idle]) (by rw [hnil]; rfl)
  have hind' := hpath₂.invariant ValidIndices (fun _ _ _ _ _ hs hx => hx.smallStep hs) hind₂
  refine ⟨A', hm', hind', hrep', ?_, ?_, ?_, ?_, ?_, hfd, ?_, logOf obs₁ s, ?_⟩
  · have hrun := hrun' s
    rw [hnil, hidle₂, Slot.run, Option.some.injEq] at hrun
    exact hrun.symm
  · rw [hconfig'.1, ← hconfig₁]
    exact hlt
  · rw [mconOwnsEvent, hdecode, hconfig'.2, hid₁, beq_self_eq_true, Bool.true_and]
    exact (by decide : mconIsValidSource epollSourceSession = true)
  · rw [hsame.generation, hsession₂, hdecode]
  · rw [hsame.socketFd, hsession₂]
  · rw [hsame.rdhup fun _ hk => hk.2.2.1, hsession₂]
    show stateNone &&& stateRdhup = 0
    decide
  · have hslot : slotLog [(i, (step m i).2)] s = logOf (obs₁ ++ obsₖ ++ obs₂) s := by
      rw [logOf, hlog]
      simp [slotLog]
    rw [hslot, logOf_append, logOf_append, hlogₖ, hnil, List.append_nil]

/-! ### Events after the opening -/

/-- After as many connections have ended the generation is another one, unless it has gone round. -/
theorem generation_ne {generation : UInt8} {k : Nat} (hk : k % 256 ≠ 0) : generation ≠ generation + UInt8.ofNat k := by
  intro heq
  have hnat := congrArg UInt8.toNat heq
  have hlt := generation.toNat_lt
  rw [UInt8.toNat_add, UInt8.toNat_ofNat'] at hnat
  omega

/-- The rest of a run from the opening of slot `s` on: the generation counts the connections that have ended, and
before the first one ends everything of the connection is as it was. -/
theorem Opens.run {data : UInt64} {fd : Int} {s : Nat} {A' : Nat → Slot} (ho : Opens m i data fd s A')
    {h : History} (hr : Run step NoEnoent (step m i).1 h m') :
    mconOwnsEvent m' data = true ∧ s < m'.configuration.sessionCount.toNat ∧
      (m'.session s).generation =
        (mconDecodeEpollEntry data).generation + UInt8.ofNat (Slot.releases (slotLog h s)) ∧
      (Slot.releases (slotLog h s) = 0 → mconSessionIsActive m' s = true ∧ (m'.session s).socketFd = fd) := by
  have hframe := Run.frame ho.wellFormed hr
  have hlt : s < m'.configuration.sessionCount.toNat := hframe.configuration ▸ ho.lt
  obtain ⟨hm', obs, hpath, -, hlog⟩ := Run.calls (P := fun k => k ≠ .detachEnoent)
    (fun _ _ _ hok hk => hok.kind hk) ho.wellFormed hr
  have hslot : slotLog h s = logOf obs s := by
    rw [logOf, hlog]
    rfl
  rw [hslot]
  refine ⟨?_, hlt, ?_, fun hreleases => ?_⟩
  · have howns := ho.owns
    rw [mconOwnsEvent] at howns ⊢
    rw [hframe.instanceId]
    exact howns
  · rw [generation_of_path hpath ho.wellFormed ho.indices s, ho.generation]
  · have hne : A' s ≠ .free := by rw [ho.idle]; simp [Slot.idle]
    obtain ⟨A'', hrep'', -, hsame⟩ := ho.represents.sameConnection (fun _ hk => hk) hpath ho.wellFormed ho.indices hne
      hreleases
    have hfd : (m'.session s).socketFd ≠ -1 := fun hfree => hsame.ne_free ((hrep''.free_iff s hlt).1 hfree)
    refine ⟨?_, hsame.socketFd.trans ho.socketFd⟩
    rw [mconSessionIsActive, if_neg (Nat.not_le_of_lt hlt)]
    simpa using hfd

/-- An event with the payload of a connection is discarded after the connection has ended, until the generation has
gone round, and is let through during it, while the session has the socket the payload was registered for. -/
theorem generations_tell_connections_apart {h₁ h₂ : History} (he : Execution NoEnoent h₁ m) (hok : NoEnoent m i)
    (hr : Run step NoEnoent (step m i).1 h₂ m') {epfd fd : Int} {data : UInt64} {events : UInt32}
    (hadd : Act.epollAdd epfd fd data events none ∈ (step m i).2.acts)
    (hsource : (mconDecodeEpollEntry data).source = epollSourceSession) :
    let s := (mconDecodeEpollEntry data).session.toNat
    let k := Slot.releases (slotLog h₂ s)
    (∃ l, slotLog [(i, (step m i).2)] s = l ++ [.opened]) ∧
      (k % 256 ≠ 0 → ∀ epollEvents eventCapacity env, epollEvents &&& ~~~mconClientSocketSubscribedEvents = 0 →
        stdcCountOnes epollEvents ≤ eventCapacity →
          (mconProcessEvent m' data epollEvents eventCapacity env).1 = m' ∧
            (mconProcessEvent m' data epollEvents eventCapacity env).2.rc = 0 ∧
            (mconProcessEvent m' data epollEvents eventCapacity env).2.events = []) ∧
      (k = 0 → mconSessionIsActive m' s = true ∧ (m'.session s).socketFd = fd ∧
        ∀ epollEvents eventCapacity env, epollEvents &&& ~~~mconClientSocketSubscribedEvents = 0 →
          stdcCountOnes epollEvents ≤ eventCapacity →
            LetThrough m' epollEvents (mconDecodeEpollEntry data) eventCapacity ∧
              (mconProcessEvent m' data epollEvents eventCapacity env).2.events =
                sessionEvents epollEvents s (hangupLatched m' s) env.sockopt ∧
              (¬ QueryFails epollEvents env.sockopt →
                (mconProcessEvent m' data epollEvents eventCapacity env).2.rc =
                  (mconProcessEvent m' data epollEvents eventCapacity env).2.events.length)) := by
  obtain ⟨A', hopens⟩ := he.opens hok hadd hsource
  obtain ⟨howns, hlt, hgeneration, hcurrent⟩ := hopens.run hr
  refine ⟨hopens.log, fun hk epollEvents eventCapacity env hsubscribed hroom => ?_, fun hk => ?_⟩
  · have hne : (mconDecodeEpollEntry data).generation ≠
        (m'.session (mconDecodeEpollEntry data).session.toNat).generation := by
      rw [hgeneration]
      exact generation_ne hk
    rw [mconProcessEvent_session howns hsource, processSessionEvent_of_stale hsubscribed hlt hroom hne]
    exact ⟨rfl, rfl, rfl⟩
  · obtain ⟨hactive, hfd⟩ := hcurrent hk
    refine ⟨hactive, hfd, fun epollEvents eventCapacity env hsubscribed hroom => ?_⟩
    have hsame : (mconDecodeEpollEntry data).generation =
        (m'.session (mconDecodeEpollEntry data).session.toNat).generation := by
      rw [hgeneration, hk]
      exact (UInt8.add_zero _).symm
    have hthrough : LetThrough m' epollEvents (mconDecodeEpollEntry data) eventCapacity :=
      ⟨hsubscribed, hlt, hroom, hsame⟩
    obtain ⟨-, hevents, -, hcounts⟩ := processSessionEvent_of_letThrough hthrough env.sockopt
    rw [mconProcessEvent_session howns hsource]
    exact ⟨hthrough, hevents, hcounts⟩

/-- The inputs up to the completion of the first accept. -/
def acceptedInputs : List Input := [startInput, serverInput, .submit 1] ++ completeInputs 20

/-- The inputs with which the first connection is closed and its slot given to another one. -/
def reuseInputs : List Input := [.close 0, .submit 1] ++ completeInputs 0 ++ [ringInput] ++ connectInputs 21

/-- A late event of a connection whose slot was given to another one is discarded. -/
theorem generations_tell_connections_apart_reused :
    let m := finalState step (freshInstance (smallConfig 1 4 1)) (acceptedInputs ++ ringInput :: reuseInputs)
    (mconProcessEvent m clientData epollin 8 ⟨.quiet, ⟨none, 0⟩⟩).1 = m ∧
      (mconProcessEvent m clientData epollin 8 ⟨.quiet, ⟨none, 0⟩⟩).2.rc = 0 ∧
      (mconProcessEvent m clientData epollin 8 ⟨.quiet, ⟨none, 0⟩⟩).2.events = [] := by
  have hnone : ∀ is : List Input, is = acceptedInputs ∨ is = reuseInputs →
      ∀ m : Instance listCtools, AllOk step NoEnoent m is := by
    rintro is (rfl | rfl) <;>
      exact .of_forall (by simp [NoEnoent, acceptedInputs, reuseInputs, connectInputs, completeInputs, startInput,
        serverInput, ringInput])
  have hrun := Execution.of_inputs (smallConfig 1 4 1) (by decide) acceptedInputs (hnone _ (.inl rfl) _)
  have hok : NoEnoent (finalState step (freshInstance (smallConfig 1 4 1)) acceptedInputs) ringInput := by
    simp [NoEnoent, ringInput]
  have hrest := Run.of_inputs reuseInputs (hnone _ (.inr rfl)
    (step (finalState step (freshInstance (smallConfig 1 4 1)) acceptedInputs) ringInput).1)
  have hadd : Act.epollAdd 6 20 clientData 0x2019 none ∈
      (step (finalState step (freshInstance (smallConfig 1 4 1)) acceptedInputs) ringInput).2.acts := by decide
  exact (generations_tell_connections_apart hrun hok hrest hadd (by decide)).2.1 (by decide) epollin 8 _ (by decide)
    (by decide)

end Mcon
