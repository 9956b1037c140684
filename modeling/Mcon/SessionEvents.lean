import Mcon.WellFormed

/-!
# Events of client sockets

An event is let through when its mask, its session, the room it needs and its generation are right; otherwise it
changes nothing.  One that is let through latches the hangup of its session before the socket is queried, so a
failing query loses the hangup.
-/

namespace Mcon

open Transition (Run AllOk history finalState)

variable {C : Ctools} {m : Instance C} {epollEvents : UInt32} {entry : EpollEntry} {maxEvents : Nat}

/-- `mcon_process_session_event` lets the event through. -/
structure LetThrough (m : Instance C) (epollEvents : UInt32) (entry : EpollEntry) (maxEvents : Nat) : Prop where
  subscribed : epollEvents &&& ~~~mconClientSocketSubscribedEvents = 0
  session_lt : entry.session.toNat < m.configuration.sessionCount.toNat
  room : stdcCountOnes epollEvents ≤ maxEvents
  generation : entry.generation = (m.session entry.session.toNat).generation

/-- The hangup of the session was reported before. -/
def hangupLatched (m : Instance C) (s : Nat) : Bool := (m.session s).state &&& stateRdhup != 0

/-- The instance after an event that was let through. -/
def latchHangup (m : Instance C) (epollEvents : UInt32) (s : Nat) : Instance C :=
  if epollEvents &&& epollrdhup != 0 then setStateBits m s stateRdhup else m

/-- Querying the socket is needed and fails. -/
def QueryFails (epollEvents : UInt32) (sockopt : SockoptResult) : Prop :=
  epollEvents &&& epollerr ≠ 0 ∧ sockopt.errno ≠ none

/-! ### The two outcomes -/

/-- The checks of a mask and a session that are in range let the event pass. -/
private theorem not_refused (hsubscribed : epollEvents &&& ~~~mconClientSocketSubscribedEvents = 0)
    (hlt : entry.session.toNat < m.configuration.sessionCount.toNat) :
    ¬ ((epollEvents &&& ~~~mconClientSocketSubscribedEvents != 0 ||
      !decide (entry.session < m.configuration.sessionCount)) = true) := by
  simpa [hsubscribed, UInt32.lt_iff_toNat_lt] using hlt

/-- An event that is not let through changes nothing: it is refused, or skipped after a look at its session. -/
theorem processSessionEvent_refused_or_skipped (h : ¬ LetThrough m epollEvents entry maxEvents)
    (sockopt : SockoptResult) :
    (∃ err, mconProcessSessionEvent m epollEvents entry maxEvents sockopt = (m, .ret (-1) (some err) [])) ∨
      entry.generation ≠ (m.session entry.session.toNat).generation ∧
        mconProcessSessionEvent m epollEvents entry maxEvents sockopt =
          (m, .ret 0 none [.sessionsAt entry.session.toNat]) := by
  unfold mconProcessSessionEvent
  dsimp only
  split
  · exact .inl ⟨_, rfl⟩
  rename_i hvalid
  split
  · exact .inl ⟨_, rfl⟩
  rename_i hroom
  split
  · rename_i hstale
    exact .inr ⟨by simpa using hstale, rfl⟩
  rename_i hgeneration
  simp only [Bool.or_eq_true, Bool.not_eq_true', decide_eq_false_iff_not, not_or, not_not, bne_iff_ne, ne_eq,
    UInt32.lt_iff_toNat_lt] at hvalid hgeneration
  exact absurd ⟨hvalid.1, hvalid.2, Nat.le_of_not_lt hroom, hgeneration⟩ h

/-- An event that is let through queries the socket when its mask asks for it, and counts its events unless the
query fails. -/
private theorem sessionEvent_of_letThrough (h : LetThrough m epollEvents entry maxEvents) (sockopt : SockoptResult) :
    mconProcessSessionEvent m epollEvents entry maxEvents sockopt =
      let events := sessionEvents epollEvents entry.session.toNat (hangupLatched m entry.session.toNat) sockopt
      let acts := .sessionsAt entry.session.toNat :: if epollEvents &&& epollerr ≠ 0 then
        [.getsockopt (m.session entry.session.toNat).socketFd sockopt.errno] else []
      (latchHangup m epollEvents entry.session.toNat,
        if epollEvents &&& epollerr ≠ 0 ∧ sockopt.errno ≠ none then ⟨-1, sockopt.errno, events, acts⟩
        else ⟨events.length, none, events, acts⟩) := by
  have hcurrent : ¬ ((entry.generation != (m.session entry.session.toNat).generation) = true) := by
    simpa using h.generation
  unfold mconProcessSessionEvent
  dsimp only
  rw [if_neg (not_refused h.subscribed h.session_lt), if_neg (Nat.not_lt_of_le h.room), if_neg hcurrent]
  by_cases herr : epollEvents &&& epollerr = 0
  · have hbool : ¬ ((epollEvents &&& epollerr != 0) = true) := by simpa using herr
    have hquery : ¬ (epollEvents &&& epollerr ≠ 0 ∧ sockopt.errno ≠ none) := fun hfails => hfails.1 herr
    rw [if_neg hbool, if_neg (not_not.2 herr), if_neg hquery]
    rfl
  · have hbool : (epollEvents &&& epollerr != 0) = true := by simpa using herr
    rw [if_pos hbool, if_pos herr]
    cases hres : sockopt.errno with
    | none =>
      have hquery : ¬ (epollEvents &&& epollerr ≠ 0 ∧ (none : Option Int) ≠ none) := fun hfails => hfails.2 rfl
      rw [if_neg hquery]
      rfl
    | some err =>
      have hquery : epollEvents &&& epollerr ≠ 0 ∧ some err ≠ none := ⟨herr, Option.some_ne_none err⟩
      rw [if_pos hquery]
      rfl

theorem processSessionEvent_of_not_letThrough (h : ¬ LetThrough m epollEvents entry maxEvents)
    (sockopt : SockoptResult) :
    (mconProcessSessionEvent m epollEvents entry maxEvents sockopt).1 = m ∧
      (mconProcessSessionEvent m epollEvents entry maxEvents sockopt).2.events = [] ∧
      (entry.generation = (m.session entry.session.toNat).generation →
        (mconProcessSessionEvent m epollEvents entry maxEvents sockopt).2.rc = -1) := by
  rcases processSessionEvent_refused_or_skipped h sockopt with ⟨err, heq⟩ | ⟨hstale, heq⟩
  · rw [heq]
    exact ⟨rfl, rfl, fun _ => rfl⟩
  · rw [heq]
    exact ⟨rfl, rfl, fun hsame => absurd hsame hstale⟩

/-- A stale event is consumed and skipped. -/
theorem processSessionEvent_of_stale (hsubscribed : epollEvents &&& ~~~mconClientSocketSubscribedEvents = 0)
    (hlt : entry.session.toNat < m.configuration.sessionCount.toNat) (hroom : stdcCountOnes epollEvents ≤ maxEvents)
    (hgeneration : entry.generation ≠ (m.session entry.session.toNat).generation) (sockopt : SockoptResult) :
    mconProcessSessionEvent m epollEvents entry maxEvents sockopt =
      (m, .ret 0 none [.sessionsAt entry.session.toNat]) := by
  have hstale : (entry.generation != (m.session entry.session.toNat).generation) = true := by
    simpa using hgeneration
  unfold mconProcessSessionEvent
  dsimp only
  rw [if_neg (not_refused hsubscribed hlt), if_neg (Nat.not_lt_of_le hroom), if_pos hstale]

theorem processSessionEvent_of_letThrough (h : LetThrough m epollEvents entry maxEvents) (sockopt : SockoptResult) :
    (mconProcessSessionEvent m epollEvents entry maxEvents sockopt).1 =
        latchHangup m epollEvents entry.session.toNat ∧
      (mconProcessSessionEvent m epollEvents entry maxEvents sockopt).2.events =
        sessionEvents epollEvents entry.session.toNat (hangupLatched m entry.session.toNat) sockopt ∧
      (QueryFails epollEvents sockopt → (mconProcessSessionEvent m epollEvents entry maxEvents sockopt).2.rc = -1) ∧
      (¬ QueryFails epollEvents sockopt →
        (mconProcessSessionEvent m epollEvents entry maxEvents sockopt).2.rc =
          (mconProcessSessionEvent m epollEvents entry maxEvents sockopt).2.events.length) := by
  rw [sessionEvent_of_letThrough h]
  unfold QueryFails
  dsimp only
  split
  · rename_i hfails
    exact ⟨rfl, rfl, fun _ => rfl, fun hnot => absurd hfails hnot⟩
  · rename_i hnot
    exact ⟨rfl, rfl, fun hfails => absurd hfails hnot, fun _ => rfl⟩

/-- Unless the query fails, all the events are reported. -/
theorem processSessionEvent_reported (h : LetThrough m epollEvents entry maxEvents) {sockopt : SockoptResult}
    (hquery : ¬ QueryFails epollEvents sockopt) :
    (mconProcessSessionEvent m epollEvents entry maxEvents sockopt).2.reported =
        sessionEvents epollEvents entry.session.toNat (hangupLatched m entry.session.toNat) sockopt ∧
      (mconProcessSessionEvent m epollEvents entry maxEvents sockopt).2.rc ≠ -1 := by
  obtain ⟨-, hevents, -, hcounts⟩ := processSessionEvent_of_letThrough h sockopt
  have hrc := hcounts hquery
  constructor
  · rw [Output.reported, hrc, Int.toNat_natCast, List.take_length, hevents]
  · omega

/-- The session is looked at, and its socket queried when the mask asks for it. -/
theorem processSessionEvent_acts (h : LetThrough m epollEvents entry maxEvents) (sockopt : SockoptResult) :
    (mconProcessSessionEvent m epollEvents entry maxEvents sockopt).2.acts =
      .sessionsAt entry.session.toNat :: if epollEvents &&& epollerr ≠ 0 then
        [.getsockopt (m.session entry.session.toNat).socketFd sockopt.errno] else [] := by
  rw [sessionEvent_of_letThrough h]
  dsimp only
  split <;> rfl

/-- An event that is not let through at most looks at its session. -/
theorem processSessionEvent_acts_of_not_letThrough (h : ¬ LetThrough m epollEvents entry maxEvents)
    (sockopt : SockoptResult) :
    ∀ a ∈ (mconProcessSessionEvent m epollEvents entry maxEvents sockopt).2.acts,
      a = .sessionsAt entry.session.toNat := by
  rcases processSessionEvent_refused_or_skipped h sockopt with ⟨err, heq⟩ | ⟨-, heq⟩
  · simp [heq, Output.ret]
  · simp [heq, Output.ret]

/-- Either way the instance is the same, or the hangup of the session is latched. -/
theorem processSessionEvent_instance (m : Instance C) (epollEvents : UInt32) (entry : EpollEntry) (maxEvents : Nat)
    (sockopt : SockoptResult) :
    (mconProcessSessionEvent m epollEvents entry maxEvents sockopt).1 = m ∨
      (mconProcessSessionEvent m epollEvents entry maxEvents sockopt).1 =
        setStateBits m entry.session.toNat stateRdhup := by
  by_cases hthrough : LetThrough m epollEvents entry maxEvents
  · rw [(processSessionEvent_of_letThrough hthrough sockopt).1, latchHangup]
    split
    · exact .inr rfl
    · exact .inl rfl
  · exact .inl (processSessionEvent_of_not_letThrough hthrough sockopt).1

/-! ### The latch -/

theorem or_stateRdhup_eq_self {x : UInt8} (h : x &&& stateRdhup ≠ 0) : x ||| stateRdhup = x := by
  have hbits : ∀ y : BitVec 8, y &&& 4 ≠ 0 → y ||| 4 = y := by decide
  apply UInt8.toBitVec_inj.1
  refine hbits x.toBitVec fun h0 => h ?_
  exact UInt8.toBitVec_inj.1 h0

theorem or_stateRdhup_ne_self {x : UInt8} (h : x &&& stateRdhup = 0) : x ||| stateRdhup ≠ x := by
  have hbits : ∀ y : BitVec 8, y &&& 4 = 0 → y ||| 4 ≠ y := by decide
  intro heq
  exact hbits x.toBitVec (UInt8.toBitVec_inj.2 h) (UInt8.toBitVec_inj.2 heq)

/-- Latching a hangup that is latched changes nothing. -/
theorem setStateBits_rdhup_of_latched {s : Nat} (h : (m.session s).state &&& stateRdhup ≠ 0) :
    setStateBits m s stateRdhup = m := by
  have hsessions : m.sessions.modify s (fun x => { x with state := x.state ||| stateRdhup }) = m.sessions := by
    apply List.ext_getElem?
    intro t
    rw [List.getElem?_modify]
    by_cases hts : s = t
    · subst hts
      cases hx : m.sessions[s]? with
      | none => rfl
      | some x =>
        have hsession : m.session s = x := by simp [Instance.session, List.getD_eq_getElem?_getD, hx]
        rw [hsession] at h
        simp [or_stateRdhup_eq_self h]
    · simp [hts]
  show { m with sessions := _ } = m
  rw [hsessions]

theorem setStateBits_rdhup_ne {s : Nat} (hs : s < m.sessions.length) (h : (m.session s).state &&& stateRdhup = 0) :
    setStateBits m s stateRdhup ≠ m := by
  intro heq
  have hstate := congrArg Session.state (Instance.session_modify_self hs fun x =>
    { x with state := x.state ||| stateRdhup })
  have hsame : ((setStateBits m s stateRdhup).session s).state = (m.session s).state := by rw [heq]
  exact or_stateRdhup_ne_self h (hstate.symm.trans hsame)

/-! ### Presenting an event again -/

/-- A call that returns `-1` leaves the instance as it was, so the same event can be presented again with the
outcome it would have had the first time. -/
def CanBeRetried (m : Instance C) (data : UInt64) (epollEvents : UInt32) (eventCapacity : Nat) (env : ProcessEnv) :
    Prop :=
  (mconProcessEvent m data epollEvents eventCapacity env).2.rc = -1 →
    (mconProcessEvent m data epollEvents eventCapacity env).1 = m ∧
      ∀ eventCapacity' env',
        mconProcessEvent (mconProcessEvent m data epollEvents eventCapacity env).1 data epollEvents eventCapacity'
            env' =
          mconProcessEvent m data epollEvents eventCapacity' env'

/-- The event is let through, is the first hangup of its session and reports an error as well, and the socket cannot
be queried. -/
structure LosesHangup (m : Instance C) (epollEvents : UInt32) (entry : EpollEntry) (maxEvents : Nat)
    (sockopt : SockoptResult) : Prop where
  letThrough : LetThrough m epollEvents entry maxEvents
  hangup : epollEvents &&& epollrdhup ≠ 0
  first : hangupLatched m entry.session.toNat = false
  queryFails : QueryFails epollEvents sockopt

/-- In every reachable state, a call with an event of a session that returns `-1` has changed nothing, exactly unless
it loses a hangup. -/
theorem failed_session_event_can_be_retried_iff {h : History} (he : Execution anyInput h m) {data : UInt64}
    (howns : mconOwnsEvent m data = true) (hsource : (mconDecodeEpollEntry data).source = epollSourceSession)
    (epollEvents : UInt32) (eventCapacity : Nat) (env : ProcessEnv) :
    CanBeRetried m data epollEvents eventCapacity env ↔
      ¬ LosesHangup m epollEvents (mconDecodeEpollEntry data) eventCapacity env.sockopt := by
  have hcall := mconProcessEvent_session howns hsource epollEvents eventCapacity env
  have hunchanged : (mconProcessEvent m data epollEvents eventCapacity env).1 = m →
      CanBeRetried m data epollEvents eventCapacity env := by
    intro hm _
    exact ⟨hm, fun _ _ => by rw [hm]⟩
  by_cases hthrough : LetThrough m epollEvents (mconDecodeEpollEntry data) eventCapacity
  · obtain ⟨hm, -, hfails, hcounts⟩ := processSessionEvent_of_letThrough hthrough env.sockopt
    rw [← hcall] at hm hfails hcounts
    by_cases hrdhup : epollEvents &&& epollrdhup = 0
    · refine iff_of_true (hunchanged ?_) fun hloses => hloses.hangup hrdhup
      rw [hm, latchHangup, if_neg (by simpa using hrdhup)]
    have hlatch : (mconProcessEvent m data epollEvents eventCapacity env).1 =
        setStateBits m (mconDecodeEpollEntry data).session.toNat stateRdhup := by
      rw [hm, latchHangup, if_pos (by simpa using hrdhup)]
    by_cases hlatched : (m.session (mconDecodeEpollEntry data).session.toNat).state &&& stateRdhup = 0
    · by_cases hquery : QueryFails epollEvents env.sockopt
      · -- the hangup is latched and not reported
        refine iff_of_false (fun hretry => ?_) (not_not.2 ⟨hthrough, hrdhup, by simp [hangupLatched, hlatched], hquery⟩)
        have hlt := hthrough.session_lt
        rw [← he.wellFormed.sessions_length] at hlt
        exact setStateBits_rdhup_ne hlt hlatched (hlatch.symm.trans (hretry (hfails hquery)).1)
      · refine iff_of_true (fun hrc => ?_) fun hloses => hquery hloses.queryFails
        rw [hcounts hquery] at hrc
        omega
    · refine iff_of_true (hunchanged ?_) fun hloses => ?_
      · rw [hlatch, setStateBits_rdhup_of_latched hlatched]
      · have := hloses.first
        simp [hangupLatched, hlatched] at this
  · refine iff_of_true (hunchanged ?_) fun hloses => hthrough hloses.letThrough
    rw [hcall, (processSessionEvent_of_not_letThrough hthrough env.sockopt).1]

/-- The payload of the first connection. -/
def clientData : UInt64 := clientPayload (freshInstance mconConfigDefault) 0

/-- A hangup is presented without room for its event. -/
theorem failed_session_event_can_be_retried_iff_no_room :
    CanBeRetried (finalState step (freshInstance (smallConfig 2 4 1)) (startInput :: serverInput :: connectInputs 20))
      clientData epollrdhup 0 ⟨.quiet, ⟨none, 0⟩⟩ := by
  have hrun : Execution anyInput _ _ := Execution.of_inputs (smallConfig 2 4 1) (by decide)
    (startInput :: serverInput :: connectInputs 20) (.of_forall (fun _ _ _ => trivial) _)
  refine (failed_session_event_can_be_retried_iff hrun (by decide) (by decide) epollrdhup 0 _).2 fun hloses => ?_
  exact absurd hloses.letThrough.room (by decide)

/-- A hangup together with an error, whose socket cannot be queried: the call returns `-1`, and presenting the event
again reports the error but no hangup. -/
theorem failed_query_loses_hangup :
    let inputs := startInput :: serverInput :: connectInputs 20
    let m := finalState step (freshInstance (smallConfig 2 4 1)) inputs
    let out := mconProcessEvent m clientData (epollrdhup ||| epollerr) 8 ⟨.quiet, ⟨some Errno.enobufs, 0⟩⟩
    Execution anyInput (history step (freshInstance (smallConfig 2 4 1)) inputs) m ∧ out.2.rc = -1 ∧
      (m.session 0).state = 0 ∧ (out.1.session 0).state = stateRdhup ∧
      (mconProcessEvent m clientData (epollrdhup ||| epollerr) 8 ⟨.quiet, ⟨none, 0⟩⟩).2.events =
        [⟨0, 0, .remoteHangup⟩, ⟨0, 0, .clientError⟩] ∧
      (mconProcessEvent out.1 clientData (epollrdhup ||| epollerr) 8 ⟨.quiet, ⟨none, 0⟩⟩).2.events =
        [⟨0, 0, .clientError⟩] :=
  ⟨Execution.of_inputs _ (by decide) _ (.of_forall (fun _ _ _ => trivial) _), by decide, by decide, by decide,
    by decide, by decide⟩

end Mcon
