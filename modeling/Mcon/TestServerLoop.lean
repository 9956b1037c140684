import Mcon.Results
import Mcon.TestServerSlots

/-!
# The loop of the test server

Every event of the instance is answered as its kind asks for, and no close is asked for twice: not even within a batch
of epoll events, some of which may be about connections that have ended meanwhile.
-/

namespace Mcon

open Transition (Run)

variable {C : Ctools} {m : Instance C} {A : Nat → Slot}

/-! ### What the server does with events -/

/-- The reason for which the server leaves is an answer of the kernel. -/
def ServerExit.Excused (h : History) : ServerExit → Prop
  | epollWait => True
  | mconProcessEvent => ∃ a ∈ actsOf h, a.queryFails = true
  | closingSession => ∃ p ∈ h, ∃ e ∈ p.2.reported, e.type = .closeComplete ∧ e.result ≠ 0
  | mconSubmit => ∃ res, res < 0 ∧ Act.ioUringSubmit res ∈ actsOf h
  | _ => False

/-- The server has handled every event, and has not left or has a reason for it. -/
structure Server.Clean (x : Server C) : Prop where
  handled : "unhandled event\n" ∉ x.printed
  excused : ∀ exit, x.exit = some exit → exit.Excused x.history

/-- The server is clean, and goes on if it has not left. -/
structure Safe (m₀ : Instance C) (A₀ : Nat → Slot) (due : Option Nat) (x : Server C) : Prop where
  clean : x.Clean
  serving : x.exit = none → ∃ A, Serving m₀ A₀ due x A

section Events

variable {m₀ : Instance C} {A₀ : Nat → Slot} {due : Option Nat} {x y : Server C}

/-- Only the instance and the history matter for what comes. -/
theorem Serving.congr (hx : Serving m₀ A₀ due x A) (hmcon : y.mcon = x.mcon) (hhistory : y.history = x.history) :
    Serving m₀ A₀ due y A := by
  obtain ⟨ymcon, yhistory, _, _⟩ := y
  obtain rfl : ymcon = x.mcon := hmcon
  obtain rfl : yhistory = x.history := hhistory
  exact { hx with }

/-- A step of a server that has not left. -/
theorem Safe.unlessLeft {due' : Option Nat} (hx : Safe m₀ A₀ due x) (f : Server C → Server C)
    (hf : x.exit = none → Safe m₀ A₀ due' (f x)) : Safe m₀ A₀ due' (x.unlessLeft f) := by
  unfold Server.unlessLeft
  split
  · rename_i hleft
    refine ⟨hx.clean, fun hnone => ?_⟩
    rw [hnone] at hleft
    cases hleft
  · rename_i hrunning
    exact hf (Option.not_isSome_iff_eq_none.1 hrunning)

theorem Safe.print (hx : Safe m₀ A₀ due x) {text : String} (htext : text ≠ "unhandled event\n") :
    Safe m₀ A₀ due (x.print text) where
  clean :=
    { handled := by simpa [Server.print] using ⟨hx.clean.handled, htext.symm⟩
      excused := hx.clean.excused }
  serving hnone := by
    obtain ⟨A, hA⟩ := hx.serving hnone
    exact ⟨A, hA.congr rfl rfl⟩

theorem Server.Clean.leave (hx : x.Clean) {exit : ServerExit} (hexit : exit.Excused x.history) :
    Safe m₀ A₀ due (x.leave exit) where
  clean :=
    { handled := hx.handled
      excused := by
        intro exit' h
        cases h
        exact hexit }
  serving hnone := by cases hnone

/-- The events that the server does not answer. -/
def Event.Unanswered (e : Event) : Prop :=
  e.type ∈ [EventType.readRdy, .readShutdown, .clientError, .newConnection, .closeComplete]

theorem Safe.unansweredEvent (hx : Safe m₀ A₀ due x) {e : Event} (he : e.Unanswered)
    (hreported : ∃ p ∈ x.history, e ∈ p.2.reported) :
    Safe m₀ A₀ due (serverEvent x e) ∧ (serverEvent x e).history = x.history := by
  unfold serverEvent
  simp only [Event.Unanswered, List.mem_cons, List.not_mem_nil, or_false] at he
  rcases he with h | h | h | h | h <;> rw [h]
  · exact ⟨hx, rfl⟩
  · exact ⟨hx.print (by decide), rfl⟩
  · exact ⟨hx.print (by decide), rfl⟩
  · exact ⟨hx, rfl⟩
  · dsimp only
    split
    · rename_i hres
      obtain ⟨p, hp, hep⟩ := hreported
      exact ⟨hx.clean.leave ⟨p, hp, e, hep, h, hres⟩, rfl⟩
    · exact ⟨hx, rfl⟩

theorem Safe.unansweredEvents (hx : Safe m₀ A₀ due x) {events : List Event} (hevents : ∀ e ∈ events, e.Unanswered)
    (hreported : ∃ p ∈ x.history, events ⊆ p.2.reported) :
    Safe m₀ A₀ due (serverEvents x events) ∧ (serverEvents x events).history = x.history := by
  induction events generalizing x with
  | nil => exact ⟨hx, rfl⟩
  | cons e events ih =>
    obtain ⟨p, hp, hsub⟩ := hreported
    obtain ⟨hsafe, hhistory⟩ := hx.unansweredEvent (hevents e List.mem_cons_self) ⟨p, hp, hsub List.mem_cons_self⟩
    have hstep := hx.unlessLeft (serverEvent · e) fun _ => hsafe
    have hhistory' : (x.unlessLeft (serverEvent · e)).history = x.history := by
      unfold Server.unlessLeft
      split
      · rfl
      · exact hhistory
    obtain ⟨hrest, hlast⟩ := ih hstep (fun e' he' => hevents e' (List.mem_cons_of_mem _ he'))
      ⟨p, hhistory' ▸ hp, fun e' he' => hsub (List.mem_cons_of_mem _ he')⟩
    exact ⟨hrest, hlast.trans hhistory'⟩

theorem Server.Clean.call (hx : x.Clean) (hrunning : x.exit = none) (i : Input) : (x.call i).Clean where
  handled := hx.handled
  excused := by
    intro exit hexit
    rw [show (x.call i).exit = x.exit from rfl, hrunning] at hexit
    cases hexit

/-- The hangup that is due is answered by a close. -/
theorem Safe.hangupEvent {s : Nat} (hx : Safe m₀ A₀ (some s) x) :
    Safe m₀ A₀ none (x.unlessLeft (serverEvent · ⟨0, s, .remoteHangup⟩)) ∧
      x.history ⊆ (x.unlessLeft (serverEvent · ⟨0, s, .remoteHangup⟩)).history := by
  refine ⟨hx.unlessLeft _ fun hrunning => ?_, ?_⟩
  · obtain ⟨A, hA⟩ := hx.serving hrunning
    obtain ⟨hrc, hA'⟩ := hA.close
    show Safe m₀ A₀ none (if _ then _ else _)
    rw [if_neg (by simpa using hrc)]
    exact ⟨hx.clean.call hrunning _, fun _ => hA'⟩
  · unfold Server.unlessLeft
    split
    · exact fun p hp => hp
    · intro p hp
      show p ∈ Server.history (if _ then _ else _)
      split
      · exact List.mem_append_left _ hp
      · exact List.mem_append_left _ hp

theorem serverEvents_append (x : Server C) (events events' : List Event) :
    serverEvents x (events ++ events') = serverEvents (serverEvents x events) events' := List.foldl_append

/-- One event of a mask. -/
theorem Safe.unansweredFlag (hx : Safe m₀ A₀ due x) {e : Event} (he : e.Unanswered) (c : Bool)
    (hreported : ∃ p ∈ x.history, (if c then [e] else []) ⊆ p.2.reported) :
    Safe m₀ A₀ due (serverEvents x (if c then [e] else [])) ∧
      (serverEvents x (if c then [e] else [])).history = x.history := by
  refine hx.unansweredEvents (fun e' he' => ?_) hreported
  split at he'
  · rw [List.mem_singleton.1 he']
    exact he
  · cases he'

/-- The events of a session are handled: the hangup that is due is answered, the others are not. -/
theorem Safe.sessionEvents {m : Instance C} {d : Delivery} {s : Nat} (hx : Safe m₀ A₀ (dueAfter m d s) x)
    (hreported : ∃ p ∈ x.history,
      p.2.reported = sessionEvents d.epollEvents s (hangupLatched m s) d.env.sockopt) :
    Safe m₀ A₀ none (serverEvents x (sessionEvents d.epollEvents s (hangupLatched m s) d.env.sockopt)) := by
  obtain ⟨p, hp, hevents⟩ := hreported
  rw [Mcon.sessionEvents] at hevents ⊢
  rw [serverEvents_append, serverEvents_append, serverEvents_append]
  -- what comes before the hangup
  obtain ⟨hx₁, hhistory₁⟩ := hx.unansweredFlag (e := ⟨0, s, .readRdy⟩) (by simp [Event.Unanswered])
    (d.epollEvents &&& epollin != 0) ⟨p, hp, fun e he => by
      rw [hevents]
      exact List.mem_append_left _ (List.mem_append_left _ (List.mem_append_left _ he))⟩
  obtain ⟨hx₂, hhistory₂⟩ := hx₁.unansweredFlag (e := ⟨0, s, .readShutdown⟩) (by simp [Event.Unanswered])
    (d.epollEvents &&& epollhup != 0) ⟨p, hhistory₁ ▸ hp, fun e he => by
      rw [hevents]
      exact List.mem_append_left _ (List.mem_append_left _ (List.mem_append_right _ he))⟩
  generalize serverEvents (serverEvents x _) _ = y at hx₂ hhistory₂ ⊢
  have hpy : p ∈ y.history := by rw [hhistory₂, hhistory₁]; exact hp
  -- the hangup
  have hx₃ : ∀ events, events = (if d.epollEvents &&& epollrdhup != 0 then
      if hangupLatched m s then [] else [(⟨0, s, .remoteHangup⟩ : Event)] else []) →
        Safe m₀ A₀ none (serverEvents y events) ∧ p ∈ (serverEvents y events).history := by
    rintro events rfl
    by_cases hrdhup : d.epollEvents &&& epollrdhup = 0
    · rw [dueAfter, if_neg fun h => h.1 hrdhup] at hx₂
      rw [if_neg (by simpa using hrdhup)]
      exact ⟨hx₂, hpy⟩
    · rw [if_pos (by simpa using hrdhup)]
      cases hlatched : hangupLatched m s with
      | true =>
        rw [dueAfter, if_neg fun h => by rw [hlatched] at h; cases h.2] at hx₂
        exact ⟨hx₂, hpy⟩
      | false =>
        rw [dueAfter, if_pos ⟨hrdhup, hlatched⟩] at hx₂
        obtain ⟨hsafe, hsub⟩ := hx₂.hangupEvent
        exact ⟨hsafe, hsub hpy⟩
  obtain ⟨hx₃, hp₃⟩ := hx₃ _ rfl
  -- what comes after it
  refine (hx₃.unansweredFlag (by simp [Event.Unanswered]) _ ⟨p, hp₃, ?_⟩).1
  rw [hevents]
  exact List.subset_append_right _ _

end Events

/-! ### One epoll event -/

/-- An event that `epoll_wait` can return: it carries the payload with which the listening socket, the eventfd or the
socket of a session was registered, and for a session only what was subscribed to. -/
def Registered (m : Instance C) (data : UInt64) (epollEvents : UInt32) : Prop :=
  data = instancePayload m epollSourceServerSocket ∨ data = instancePayload m epollSourceIoUring ∨
    ∃ s < m.configuration.sessionCount.toNat, (m.session s).socketFd ≠ -1 ∧ data = clientPayload m s ∧
      epollEvents &&& ~~~mconClientSocketSubscribedEvents = 0

instance (m : Instance C) (data : UInt64) (epollEvents : UInt32) : Decidable (Registered m data epollEvents) :=
  inferInstanceAs (Decidable (_ ∨ _ ∨ _))

/-- The instance takes the payloads of its own two registrations. -/
theorem Frame.owns_instancePayload {m₀ : Instance C} (h : Frame m₀ m) {source : EpollSource}
    (hsource : source = epollSourceServerSocket ∨ source = epollSourceIoUring) :
    mconOwnsEvent m (instancePayload m₀ source) = true := by
  have hlt : source.toNat < 2 ^ 4 := by rcases hsource with rfl | rfl <;> decide
  have hrange : EpollEntry.InRange ⟨m₀.instanceId, 0, source, UInt32.ofNat mconNoSession, 0⟩ :=
    ⟨hlt, (by decide : (UInt32.ofNat mconNoSession).toNat < 2 ^ 20)⟩
  refine (mconOwnsEvent_encode hrange m).2 ⟨h.instanceId.symm, ?_⟩
  show mconIsValidSource source = true
  rcases hsource with rfl | rfl <;> decide

theorem processCqe_isCompletion (m : Instance C) (cqe : Cqe) (maxEvents : Nat) (addErr : Option Int) :
    ∀ e ∈ (processCqe m cqe maxEvents addErr).events, e.isCompletion = true := by
  intro e he
  unfold processCqe processRead processWrite processDrain processTransfer processClose processAccept at he
  dsimp only at he
  repeat' split at he
  all_goals simp at he
  all_goals subst he
  all_goals simp [Event.isCompletion]

/-- A completion that opens or closes a slot, or neither, needs no answer. -/
theorem Event.unanswered_of_isCompletion {e : Event} (he : e.isCompletion = true)
    (hslot : ∀ p, e.slotEvent = some p → p.2 = .opened ∨ p.2 = .answered .close) : e.Unanswered := by
  simp only [Event.isCompletion, List.mem_cons, List.not_mem_nil, or_false, decide_eq_true_eq] at he
  rcases he with h | h | h | h | h
  · simp [Event.Unanswered, h]
  · simpa using hslot (e.session, .answered (.reading .read)) (by simp [Event.slotEvent, h])
  · simpa using hslot (e.session, .answered .write) (by simp [Event.slotEvent, h])
  · simpa using hslot (e.session, .answered (.reading .drain)) (by simp [Event.slotEvent, h])
  · simp [Event.Unanswered, h]

/-- An event of the listening socket or of the rings is processed, and what is reported needs no answer. -/
theorem Delivery.otherEvent_reported (hm : WellFormed m) {d : Delivery} (howns : mconOwnsEvent m d.data = true)
    (hsource : (mconDecodeEpollEntry d.data).source = epollSourceServerSocket ∨
      (mconDecodeEpollEntry d.data).source = epollSourceIoUring)
    (hslot : ∀ p ∈ slotEventsOf (d.input, (step m d.input).2), p.2 = .opened ∨ p.2 = .answered .close) :
    0 ≤ (step m d.input).2.rc ∧ ∀ e ∈ (step m d.input).2.reported, e.Unanswered := by
  have hstep : step m d.input = mconProcessEvent m d.data d.epollEvents mconEventBatchSize d.env := rfl
  cases dispatched m d.data d.epollEvents mconEventBatchSize d.env with
  | refused _ hnot _ =>
    obtain ⟨huring, -⟩ := hnot howns
    rw [mconProcessEvent, if_neg (by simp [howns]), if_pos (hsource.resolve_right huring)] at hstep
    rw [hstep, mconProcessServerSocketEvent]
    split <;> exact ⟨Int.le_refl 0, by simp [Output.ret, Output.reported]⟩
  | serverSocket _ _ hcall =>
    rw [hstep, hcall]
    exact ⟨Int.le_refl 0, by simp [Output.ret, Output.reported]⟩
  | ioUring _ _ hcall =>
    have hcompletion : ∀ e ∈ (step m d.input).2.events, e.isCompletion = true := by
      rw [hstep, hcall, processIoUringEvent_events]
      exact cqeLoopResult_forall_events _ processCqe_isCompletion hm.cq_entries _ _
    refine ⟨?_, fun e he => Event.unanswered_of_isCompletion (hcompletion e (List.mem_of_mem_take he)) fun p hp => ?_⟩
    · rw [hstep, hcall, processIoUringEvent_rc]
      omega
    · exact hslot p (List.mem_filterMap.2 ⟨e, he, hp⟩)
  | session _ hsession =>
    rw [hsession] at hsource
    rcases hsource with h | h <;> cases h

section Loop

variable {m₀ : Instance C} {A₀ : Nat → Slot} {x : Server C}

theorem Server.kernel_same (x : Server C) (moves : List RingMove) :
    (x.kernel moves).exit = x.exit ∧ (x.kernel moves).printed = x.printed := by
  induction moves generalizing x with
  | nil => exact ⟨rfl, rfl⟩
  | cons move moves ih => exact ih (x.call (.kernel move))

theorem Safe.kernel (hx : Safe m₀ A₀ none x) (hrunning : x.exit = none) (moves : List RingMove) :
    Safe m₀ A₀ none (x.kernel moves) ∧ (x.kernel moves).exit = none := by
  obtain ⟨A, hA⟩ := hx.serving hrunning
  obtain ⟨hexit, hprinted⟩ := x.kernel_same moves
  have hnone := hexit.trans hrunning
  refine ⟨⟨⟨hprinted ▸ hx.clean.handled, fun exit hleft => ?_⟩, fun _ => hA.kernel moves⟩, hnone⟩
  rw [hnone] at hleft
  cases hleft

/-- A call is the last entry of the history. -/
theorem Server.mem_history_call (x : Server C) (i : Input) : (i, (step x.mcon i).2) ∈ (x.call i).history :=
  List.mem_append_right _ List.mem_cons_self

theorem Server.mem_acts_call (x : Server C) {i : Input} {a : Act} (ha : a ∈ (step x.mcon i).2.acts) :
    a ∈ actsOf (x.call i).history :=
  List.mem_flatMap.2 ⟨_, x.mem_history_call i, ha⟩

/-- One epoll event of a batch that `epoll_wait` returned at `m₀`. -/
theorem Safe.delivery (hx : Safe m₀ A₀ none x) (hrep₀ : Represents m₀ A₀) {d : Delivery}
    (hd : Registered m₀ d.data d.epollEvents) (hrunning : x.exit = none) :
    Safe m₀ A₀ none (serverDelivery x d) := by
  unfold serverDelivery
  dsimp only
  obtain ⟨hy, hnone⟩ := hx.kernel hrunning d.moves
  generalize x.kernel d.moves = y at hy hnone ⊢
  obtain ⟨A, hA⟩ := hy.serving hnone
  have hclean := hy.clean.call hnone d.input
  have hother : ∀ source : EpollSource, source = epollSourceServerSocket ∨ source = epollSourceIoUring →
      d.data = instancePayload m₀ source → Safe m₀ A₀ none
        (if (step y.mcon d.input).2.rc < 0 then (y.call d.input).leave .mconProcessEvent
        else serverEvents (y.call d.input) (step y.mcon d.input).2.reported) := by
    intro source hsource hdata
    have howns : mconOwnsEvent y.mcon d.data = true := hdata ▸ hA.frame.owns_instancePayload hsource
    have hdecoded : (mconDecodeEpollEntry d.data).source = source := by
      rw [hdata]
      exact source_instancePayload m₀ (by rcases hsource with rfl | rfl <;> decide)
    obtain ⟨hA', hslot⟩ := hA.otherEvent d (by
      rintro ⟨data, epollEvents, eventCapacity, env, hinput, -, hsession⟩
      cases hinput
      rw [hdecoded] at hsession
      subst hsession
      rcases hsource with h | h <;> cases h)
    obtain ⟨hrc, hunanswered⟩ := Delivery.otherEvent_reported hA.wellFormed howns (hdecoded ▸ hsource) hslot
    rw [if_neg (Int.not_lt.2 hrc)]
    have hsafe : Safe m₀ A₀ none (y.call d.input) := ⟨hclean, fun _ => hA'⟩
    exact (hsafe.unansweredEvents hunanswered ⟨_, y.mem_history_call _, List.Subset.refl _⟩).1
  rcases hd with hdata | hdata | ⟨s, hs, hfd, hdata, hsubscribed⟩
  · exact hother _ (.inl rfl) hdata
  · exact hother _ (.inr rfl) hdata
  · have hbusy : A₀ s ≠ .free := fun hfree => hfd ((hrep₀.free_iff s hs).2 hfree)
    rcases hA.sessionEvent hs hbusy hdata hsubscribed with ⟨hrc, a, ha, hfails⟩ | ⟨hrc, hreported⟩
    · rw [if_pos hrc]
      exact hclean.leave ⟨a, y.mem_acts_call ha, hfails⟩
    · rw [if_neg (Int.not_lt.2 hrc)]
      rcases hreported with ⟨hnil, hA'⟩ | ⟨hevents, hA'⟩
      · rw [hnil]
        exact ⟨hclean, fun _ => ⟨A, hA'⟩⟩
      · rw [hevents]
        have hsafe : Safe m₀ A₀ _ (y.call _) := ⟨hclean, fun _ => ⟨A, hA'⟩⟩
        exact hsafe.sessionEvents ⟨_, y.mem_history_call _, hevents⟩

/-! ### Rounds -/

theorem Safe.deliveries (hx : Safe m₀ A₀ none x) (hrep₀ : Represents m₀ A₀) {ds : List Delivery}
    (hds : ∀ d ∈ ds, Registered m₀ d.data d.epollEvents) : Safe m₀ A₀ none (serverDeliveries x ds) := by
  induction ds generalizing x with
  | nil => exact hx
  | cons d ds ih =>
    refine ih (hx.unlessLeft (serverDelivery · d) fun hrunning => ?_) fun d' hd' => hds d' (List.mem_cons_of_mem _ hd')
    exact hx.delivery hrep₀ (hds d List.mem_cons_self) hrunning

/-- A submission that fails is one that the kernel refuses. -/
theorem mconSubmit_failed {res : Int} (hrc : (mconSubmit m res).2.rc < 0) :
    ∃ n, n < 0 ∧ Act.ioUringSubmit n ∈ (mconSubmit m res).2.acts := by
  unfold mconSubmit at hrc ⊢
  dsimp only at hrc ⊢
  split
  · rename_i hpopped
    rw [if_pos hpopped] at hrc
    unfold submitRing at hrc ⊢
    dsimp only at hrc ⊢
    split
    · rename_i hneg
      exact ⟨_, hneg, by simp [Output.ret]⟩
    · rename_i hnonneg
      rw [if_neg hnonneg] at hrc
      exact absurd hrc hnonneg
  · rename_i hpopped
    rw [if_neg hpopped] at hrc
    cases hrc

theorem Safe.submit (hx : Safe m₀ A₀ none x) (hrunning : x.exit = none) (res : Int) :
    Safe m₀ A₀ none (serverSubmit x res) := by
  obtain ⟨A, hA⟩ := hx.serving hrunning
  have hclean := hx.clean.call hrunning (.submit res)
  unfold serverSubmit
  split
  · rename_i hrc
    obtain ⟨n, hn, hact⟩ := mconSubmit_failed hrc
    exact hclean.leave ⟨n, hn, x.mem_acts_call hact⟩
  · exact ⟨hclean, fun _ => hA.submit res⟩

end Loop

/-- The events of a round are ones that `epoll_wait` can return when it is called. -/
def LegalRound (x : Server C) (r : ServerRound) : Prop :=
  ∀ d ∈ r.wait.delivered, Registered (x.kernel r.beforeWait).mcon d.data d.epollEvents

instance (x : Server C) (r : ServerRound) : Decidable (LegalRound x r) := inferInstanceAs (Decidable (∀ d ∈ _, _))

def LegalRounds : Server C → List ServerRound → Prop
  | _, [] => True
  | x, r :: rounds => LegalRound x r ∧ LegalRounds (x.unlessLeft (serverRound · r)) rounds

instance decidableLegalRounds : (x : Server C) → (rounds : List ServerRound) → Decidable (LegalRounds x rounds)
  | _, [] => .isTrue trivial
  | x, r :: rounds =>
    have := decidableLegalRounds (x.unlessLeft (serverRound · r)) rounds
    inferInstanceAs (Decidable (_ ∧ _))

/-- The server between two rounds. -/
def Server.Sound (x : Server C) : Prop := ∃ (m₀ : Instance C) (A₀ : Nat → Slot), Safe m₀ A₀ none x

variable {x : Server C}

theorem Server.Sound.round (hx : x.Sound) {r : ServerRound} (hr : LegalRound x r) (hrunning : x.exit = none) :
    (serverRound x r).Sound := by
  obtain ⟨m₀, A₀, hx⟩ := hx
  obtain ⟨hy, hnone⟩ := hx.kernel hrunning r.beforeWait
  unfold LegalRound at hr
  unfold serverRound
  dsimp only
  generalize x.kernel r.beforeWait = y at hy hnone hr ⊢
  cases hwait : r.wait with
  | failed errno =>
    dsimp only
    split
    · exact ⟨m₀, A₀, hy.clean.leave trivial⟩
    · obtain ⟨hz, hznone⟩ := hy.kernel hnone r.beforeSubmit
      exact ⟨m₀, A₀, hz.submit hznone r.submitRes⟩
  | ready events =>
    dsimp only
    obtain ⟨A, hA⟩ := hy.serving hnone
    have hfresh : Safe y.mcon A none y := ⟨hy.clean, fun _ => ⟨A, hA.fresh⟩⟩
    have hz := hfresh.deliveries hA.represents (hwait ▸ hr)
    refine ⟨y.mcon, A, hz.unlessLeft _ fun hznone => ?_⟩
    obtain ⟨hw, hwnone⟩ := hz.kernel hznone r.beforeSubmit
    exact hw.submit hwnone r.submitRes

theorem Server.Sound.loop (hx : x.Sound) {rounds : List ServerRound} (hr : LegalRounds x rounds) :
    (serverLoop x rounds).Sound := by
  induction rounds generalizing x with
  | nil => exact hx
  | cons r rounds ih =>
    refine ih ?_ hr.2
    obtain ⟨m₀, A₀, hsafe⟩ := hx
    unfold Server.unlessLeft
    dsimp only
    split
    · exact ⟨m₀, A₀, hsafe⟩
    · rename_i hrunning
      exact Server.Sound.round ⟨m₀, A₀, hsafe⟩ hr.1 (Option.not_isSome_iff_eq_none.1 hrunning)

/-- A new instance with the configuration of the server has no connections. -/
theorem serving_new {counter : UInt16} {env : CreateEnv} {maxConcurrentSessions : UInt32} {mcon : Instance C}
    (h : (mconCreate C counter (serverConfig maxConcurrentSessions) env).1 = .ok mcon) :
    Serving mcon (fun _ => .free) none ⟨mcon, [], [], none⟩ fun _ => .free := by
  have hcreated : Created (serverConfig maxConcurrentSessions) mcon := ⟨counter, env, h⟩
  obtain ⟨-, instanceId, eventfd, -, rfl⟩ := created_eq hcreated
  exact
    { execution := ⟨_, _, hcreated, .nil⟩
      frame := {}
      represents := newInstance_represents instanceId eventfd _
      runs := fun _ => rfl
      room := Nat.le_refl _
      kept := fun _ _ => trivial
      due_idle := by simp
      since := fun _ hs => absurd rfl hs }

/-- What begins like the banner is too long for the text of an event. -/
private theorem banner_ne (rest : String) :
    "Server is now running and listening for incoming connections:\n" ++ rest ≠ "unhandled event\n" := by
  intro h
  have hlength := congrArg String.length h
  have hfirst : "Server is now running and listening for incoming connections:\n".length = 62 := by decide
  have hlast : "unhandled event\n".length = 16 := by decide
  rw [String.length_append, hfirst, hlast] at hlength
  clear h hfirst hlast
  omega

theorem serverBanner_ne (cfg : Config) : serverBanner cfg ≠ "unhandled event\n" := banner_ne _

/-- A server that has started has a new instance without connections. -/
theorem serverStart_sound {counter : UInt16} {maxConcurrentSessions : UInt32} {env : ServerStartEnv}
    (hx : serverStart C counter maxConcurrentSessions env = .ok x) : x.Sound := by
  unfold serverStart at hx
  split at hx
  · cases hx
  · rename_i mcon hcreate
    have hnew := serving_new hcreate
    dsimp only at hx
    split at hx
    · cases hx
    · split at hx
      · cases hx
      · split at hx
        · cases hx
        · cases hx
          generalize hinput : Input.start env.startProbe env.listeningSocket env.epollCreate1 env.start = i
          have hcalls := calls_step mcon hnew.wellFormed.cq_entries i
          obtain ⟨hstarted, -⟩ := hnew.unasked (by simp [NoEnoent, ← hinput]) (hcalls.mono fun k hk => by
            subst hinput
            simp only [Input.allows, List.mem_cons, List.not_mem_nil, or_false] at hk
            rcases hk with rfl | rfl | rfl <;> simp [StepKind.Unasked])
          have hsafe : Safe mcon (fun _ => .free) none (Server.call ⟨mcon, [], [], none⟩ i) :=
            ⟨⟨by simp [Server.call], by simp [Server.call]⟩, fun _ => hstarted⟩
          exact ⟨mcon, _, hsafe.print (serverBanner_ne _)⟩

/-- The server handles every event and leaves its loop only for an answer of the kernel: it never closes a session
twice.  While it runs every slot is free, or carries a connection whose hangup was not reported, or is being closed
after its hangup was reported. -/
theorem server_closes_each_hangup_once {counter : UInt16} {maxConcurrentSessions : UInt32} {env : ServerStartEnv}
    (hstart : serverStart C counter maxConcurrentSessions env = .ok x) {rounds : List ServerRound}
    (hlegal : LegalRounds x rounds) :
    let y := serverLoop x rounds
    "unhandled event\n" ∉ y.printed ∧ (∀ exit, y.exit = some exit → exit.Excused y.history) ∧
      (y.exit = none → ∀ s, ∃ slot, Slot.run .free (slotLog y.history s) = some slot ∧
        slot.Kept (hangupLatched y.mcon s)) := by
  obtain ⟨m₀, A₀, hsafe⟩ := (serverStart_sound hstart).loop hlegal
  refine ⟨hsafe.clean.handled, hsafe.clean.excused, fun hrunning s => ?_⟩
  obtain ⟨A, hA⟩ := hsafe.serving hrunning
  exact ⟨A s, hA.runs s, hA.kept s (by simp)⟩

/-- The start of a server for one session. -/
def oneClientEnv : ServerStartEnv :=
  ⟨⟨0, 9, true, true, true, true⟩, 5, listeningProbe, 6, listeningProbe, ⟨none, none, none⟩⟩

/-- Two rounds in which a client connects, and one in which it hangs up and its connection is closed. -/
def oneClientRounds : List ServerRound :=
  let m := freshInstance (serverConfig 1)
  let env : ProcessEnv := ⟨.quiet, ⟨none, 0⟩⟩
  [⟨[], .ready [⟨[], instancePayload m epollSourceServerSocket, epollin, env⟩], [], 1⟩,
    ⟨[.exec 0 20, .post 0], .ready [⟨[], instancePayload m epollSourceIoUring, epollin, env⟩], [], 0⟩,
    ⟨[], .ready [⟨[], clientPayload m 0, epollin ||| epollrdhup, env⟩,
      ⟨[], clientPayload m 0, epollrdhup, env⟩], [], 1⟩]

def oneClientServer : Server listCtools :=
  (Server.call ⟨freshInstance (serverConfig 1), [], [], none⟩
    (.start listeningProbe 5 6 ⟨none, none, none⟩)).print (serverBanner (serverConfig 1))

theorem server_closes_each_hangup_once_client :
    let y := serverLoop oneClientServer oneClientRounds
    "unhandled event\n" ∉ y.printed ∧ (∀ exit, y.exit = some exit → exit.Excused y.history) ∧
      (y.exit = none → ∀ s, ∃ slot, Slot.run .free (slotLog y.history s) = some slot ∧
        slot.Kept (hangupLatched y.mcon s)) := by
  have hstart : serverStart listCtools 1 1 oneClientEnv = .ok oneClientServer := rfl
  exact server_closes_each_hangup_once hstart (by decide)

end Mcon
