import Mcon.Generations
import Mcon.Hangups
import Mcon.Sizing
import Mcon.TestServer

/-!
# The slots of the test server

The server asks for closes only, and for one as soon as a hangup is reported.  So a slot is closing exactly from the
report of its hangup on, and the io_queue with one entry a session is never full.
-/

namespace Mcon

open Transition (Run Path)

variable {C : Ctools} {m m' : Instance C} {A : Nat → Slot} {k : StepKind} {obs : List Obs} {s : Nat}

/-! ### What becomes of a slot -/

/-- The slot of a session whose hangup is latched or not: it carries no operation but a close, which it waits for
from the hangup on. -/
def Slot.Kept (latched : Bool) : Slot → Prop
  | .free => True
  | .busy r w => r = none ∧ w = false ∧ latched = false
  | .closing => latched = true

/-- A slot with the generation `g'` that had a connection of the generation `g`: it has it still, or this connection
was closed, and the next one is not being closed. -/
def Slot.Follows (g g' : UInt8) (x : Slot) : Prop := g' = g ∧ x ≠ .free ∨ g' = g + 1 ∧ x ≠ .closing

theorem Slot.Kept.eq_idle {latched : Bool} {x : Slot} (hx : x.Kept latched) (hne : x ≠ .free)
    (hlatched : latched = false) : x = .idle := by
  subst hlatched
  cases x with
  | free => exact absurd rfl hne
  | busy r w =>
    obtain ⟨rfl, rfl, -⟩ := hx
    rfl
  | closing => cases hx

/-- In a slot that carries nothing but a close only a connection is opened or the close answered; this keeps the slot,
and follows the connection it had. -/
theorem RecordStep.kept {x x' : Session} {log : List SlotEvent} {a a' : Slot} (h : RecordStep k x log x')
    (hk : k ≠ .rdhup) (hlog : ∀ e ∈ log, Slot.Reported e) (hrun : a.run log = some a')
    (ha : a.Kept (x.state &&& stateRdhup != 0)) :
    a'.Kept (x'.state &&& stateRdhup != 0) ∧ (∀ e ∈ log, e = .opened ∨ e = .answered .close) ∧
      ∀ g, a.Follows g x.generation → a'.Follows g x'.generation := by
  cases h with
  | same =>
    cases hrun
    exact ⟨ha, by simp, fun _ hg => hg⟩
  | hangup hrdhup => exact absurd hrdhup hk
  | called op =>
    rcases hlog _ List.mem_cons_self with h | ⟨_, h⟩ <;> cases h
  | @answered op hclose =>
    exfalso
    rw [Slot.run_singleton] at hrun
    cases a with
    | free => cases hrun
    | busy r w =>
      obtain ⟨rfl, rfl, -⟩ := ha
      cases op <;> cases hrun
    | closing =>
      cases op with
      | close => exact hclose rfl
      | _ => cases hrun
  | opened fd =>
    rw [Slot.run_singleton] at hrun
    obtain ⟨rfl, rfl⟩ := Slot.free_of_next_opened hrun
    have hclear : (stateNone &&& stateRdhup != 0) = false := by decide
    refine ⟨⟨rfl, rfl, hclear⟩, by simp, fun g hg => ?_⟩
    rcases hg with ⟨-, hne⟩ | ⟨hg, -⟩
    · exact absurd rfl hne
    · exact .inr ⟨hg, by simp [Slot.idle]⟩
  | closed =>
    rw [Slot.run_singleton] at hrun
    cases a with
    | closing =>
      cases hrun
      refine ⟨trivial, by simp, fun g hg => ?_⟩
      rcases hg with ⟨hg, -⟩ | ⟨-, hne⟩
      · exact .inr ⟨by rw [nextGeneration_eq, hg], by simp⟩
      · exact absurd rfl hne
    | free => cases hrun
    | busy r w =>
      obtain ⟨rfl, rfl, -⟩ := ha
      cases hrun
  | detached =>
    rcases hlog _ List.mem_cons_self with h | ⟨_, h⟩ <;> cases h

/-- The kinds of the small steps that neither come from a call about a session nor latch a hangup. -/
def StepKind.Unasked (k : StepKind) : Prop := k ≠ .request ∧ k ≠ .detached ∧ k ≠ .detachEnoent ∧ k ≠ .rdhup

theorem SmallStep.reported_of_unasked (h : SmallStep m k obs m') (hk : k.Unasked) (s : Nat) :
    ∀ e ∈ logOf obs s, Slot.Reported e := by
  have hall : ∀ p ∈ obs.filterMap Obs.slot?, Slot.Reported p.2 := by
    cases h with
    | kernel => simp [List.filterMap_map, Function.comp_def, Obs.slot?]
    | request => exact absurd rfl hk.1
    | detached => exact absurd rfl hk.2.1
    | _ => simp [Slot.Reported]
  intro e he
  obtain ⟨p, hp, hpe⟩ := List.mem_filterMap.1 he
  split at hpe
  · cases hpe
    exact hall p hp
  · cases hpe

/-- The slots of a server along a path without calls about sessions. -/
theorem Represents.kept {P : StepKind → Prop} (hP : ∀ k, P k → k.Unasked) (h : Path SmallStep P m obs m')
    (hm : WellFormed m) (hind : ValidIndices m) (hrep : Represents m A)
    (hkept : ∀ s, (A s).Kept (hangupLatched m s)) :
    ∃ A', Represents m' A' ∧ (∀ s, (A s).run (logOf obs s) = some (A' s)) ∧
      (∀ s, (A' s).Kept (hangupLatched m' s)) ∧ (∀ s, ∀ e ∈ logOf obs s, e = .opened ∨ e = .answered .close) ∧
        ∀ s g, (A s).Follows g (m.session s).generation → (A' s).Follows g (m'.session s).generation := by
  induction h generalizing A with
  | nil => exact ⟨A, hrep, fun _ => rfl, hkept, by simp [logOf], fun _ _ hg => hg⟩
  | @cons m m₁ m' k os os' hstep hk _ ih =>
    obtain ⟨A₁, hrep₁, hrun₁, -⟩ := hrep.slotStep hm (hP k hk).2.2.1 hstep
    have hone := fun s => (hstep.recordStep hm hind s).kept (hP k hk).2.2.2 (hstep.reported_of_unasked (hP k hk) s)
      (hrun₁ s) (hkept s)
    obtain ⟨A', hrep', hrun', hkept', hlog', hfollows'⟩ :=
      ih (hm.smallStep hstep) (hind.smallStep hstep) hrep₁ fun s => (hone s).1
    refine ⟨A', hrep', fun s => ?_, hkept', fun s e he => ?_, fun s g hg => hfollows' s g ((hone s).2.2 g hg)⟩
    · rw [logOf_append, Slot.run_append, hrun₁ s]
      exact hrun' s
    · rw [logOf_append] at he
      rcases List.mem_append.1 he with he | he
      · exact (hone s).2.1 e he
      · exact hlog' s e he

/-- What the application sees of a slot in one call. -/
theorem slotLog_eq_logOf {p : Input × Output} (hlog : obs.filterMap Obs.slot? = slotEventsOf p) (s : Nat) :
    slotLog [p] s = logOf obs s := by
  rw [logOf, hlog]
  simp [slotLog]

theorem slotEventsOf_close (hrc : (step m (.close s)).2.rc = 0) :
    slotEventsOf (.close s, (step m (.close s)).2) = [(s, .called .close)] := if_pos hrc

/-- A close that is accepted is called on its slot; no connection begins or ends, and no hangup is latched. -/
theorem Represents.closeCalled (hrep : Represents m A) (hm : WellFormed m) (hind : ValidIndices m) (hidle : A s = .idle)
    (hrc : (step m (.close s)).2.rc = 0) :
    Represents (step m (.close s)).1 (Function.update A s .closing) ∧
      (∀ t, ((step m (.close s)).1.session t).generation = (m.session t).generation) ∧
        ∀ t, A t ≠ .free → hangupLatched (step m (.close s)).1 t = hangupLatched m t := by
  obtain ⟨obs, hpath, -, hlog⟩ := calls_step m hm.cq_entries (.close s)
  have hkinds : ∀ k, (Input.close s).allows k → k ≠ .detachEnoent ∧ k ≠ .rdhup := by
    intro k hk
    simp only [Input.allows, List.mem_cons, List.not_mem_nil, or_false] at hk
    rcases hk with rfl | rfl <;> simp
  have hslot : ∀ t, logOf obs t = if s = t then [.called .close] else [] := by
    intro t
    rw [logOf, hlog, slotEventsOf_close hrc]
    by_cases hst : s = t <;> simp [hst]
  have hreleases : ∀ t, Slot.releases (logOf obs t) = 0 := by
    intro t
    rw [hslot]
    split <;> rfl
  obtain ⟨A', hrep', hrun', -⟩ := hrep.path (fun k hk => (hkinds k hk).1) hm hpath
  have hA' : A' = Function.update A s .closing := by
    funext t
    have hrun := hrun' t
    rw [hslot] at hrun
    by_cases hts : t = s
    · subst hts
      rw [if_pos rfl, Slot.run_singleton, hidle] at hrun
      rw [Function.update_self]
      exact (Option.some.inj hrun).symm
    · rw [if_neg fun h => hts h.symm] at hrun
      rw [Function.update_of_ne hts]
      exact (Option.some.inj hrun).symm
  refine ⟨hA' ▸ hrep', fun t => ?_, fun t ht => ?_⟩
  · rw [generation_of_path hpath hm hind t, hreleases]
    exact UInt8.add_zero _
  · obtain ⟨_, -, -, hsame⟩ := hrep.sameConnection (fun k hk => (hkinds k hk).1) hpath hm hind ht (hreleases t)
    exact congrArg (· != 0) (hsame.rdhup fun k hk => (hkinds k hk).2)

/-! ### Between two calls -/

/-- The state of a running server since a moment at which its instance was `m₀` with the slots `A₀`.  The session `due`
is the one whose hangup was reported and which is to be closed next. -/
structure Serving (m₀ : Instance C) (A₀ : Nat → Slot) (due : Option Nat) (x : Server C) (A : Nat → Slot) : Prop where
  execution : Execution NoEnoent x.history x.mcon
  frame : Frame m₀ x.mcon
  represents : Represents x.mcon A
  runs : ∀ s, Slot.run .free (slotLog x.history s) = some (A s)
  room : x.mcon.configuration.sessionCount.toNat ≤ x.mcon.configuration.ioQueueSize.toNat
  kept : ∀ s, due ≠ some s → (A s).Kept (hangupLatched x.mcon s)
  due_idle : ∀ s, due = some s → A s = .idle ∧ hangupLatched x.mcon s = true ∧
    (x.mcon.session s).generation = (m₀.session s).generation
  since : ∀ s, A₀ s ≠ .free → (A s).Follows (m₀.session s).generation (x.mcon.session s).generation

namespace Serving

variable {m₀ : Instance C} {A₀ : Nat → Slot} {due : Option Nat} {x : Server C} {i : Input}

/-- Every moment can be the one to count from. -/
theorem fresh (hx : Serving m₀ A₀ none x A) : Serving x.mcon A none x A :=
  { hx with frame := {}, due_idle := by simp, since := fun _ hs => .inl ⟨rfl, hs⟩ }

theorem wellFormed (hx : Serving m₀ A₀ due x A) : WellFormed x.mcon := hx.execution.wellFormed

/-- The execution goes on with a call; the slots after it are those that the calls lead to. -/
theorem call_execution (hx : Serving m₀ A₀ due x A) (hok : NoEnoent x.mcon i) :
    Execution NoEnoent (x.call i).history (x.call i).mcon ∧ Frame x.mcon (x.call i).mcon ∧
      ∀ s, slotLog (x.call i).history s = slotLog x.history s ++ slotLog [(i, (step x.mcon i).2)] s := by
  obtain ⟨config, m, hcreated, hr⟩ := hx.execution
  refine ⟨⟨config, m, hcreated, .snoc i hr hok⟩, ?_, fun s => slotLog_append _ _ s⟩
  exact (calls_step x.mcon hx.wellFormed.cq_entries i).frame

/-- A call that is not about a session keeps the server going; it shows openings and closes only. -/
theorem unasked (hx : Serving m₀ A₀ none x A) (hok : NoEnoent x.mcon i)
    (hcalls : Calls StepKind.Unasked x.mcon (step x.mcon i).2.acts (slotEventsOf (i, (step x.mcon i).2))
      (step x.mcon i).1) :
    (∃ A', Serving m₀ A₀ none (x.call i) A') ∧
      ∀ p ∈ slotEventsOf (i, (step x.mcon i).2), p.2 = .opened ∨ p.2 = .answered .close := by
  obtain ⟨hexec, hframe, hlogs⟩ := hx.call_execution hok
  obtain ⟨obs, hpath, -, hlog⟩ := hcalls
  have hslot := slotLog_eq_logOf hlog
  obtain ⟨A', hrep', hrun', hkept', hshown, hfollows⟩ := hx.represents.kept (fun _ hk => hk) hpath hx.wellFormed
    hx.execution.validIndices fun s => hx.kept s (by simp)
  refine ⟨⟨A', hexec, hx.frame.trans hframe, hrep', fun s => ?_, hframe.configuration ▸ hx.room, fun s _ => hkept' s,
    by simp, fun s hs => ?_⟩, ?_⟩
  · rw [hlogs, Slot.run_append, hx.runs s, hslot]
    exact hrun' s
  · exact hfollows s _ (hx.since s hs)
  · intro p hp
    refine hshown p.1 p.2 ?_
    rw [← hslot, slotLog, List.mem_filterMap]
    exact ⟨p, by simpa using hp, by simp⟩

/-- Steps of the kernel keep the server going. -/
theorem kernel (hx : Serving m₀ A₀ none x A) (moves : List RingMove) :
    ∃ A', Serving m₀ A₀ none (x.kernel moves) A' := by
  induction moves generalizing x A with
  | nil => exact ⟨A, hx⟩
  | cons move moves ih =>
    have hcalls := calls_step x.mcon hx.wellFormed.cq_entries (.kernel move)
    obtain ⟨⟨A', hx'⟩, -⟩ := hx.unasked (i := .kernel move) (by simp [NoEnoent]) (hcalls.mono fun k hk => by
      cases hk
      simp [StepKind.Unasked])
    exact ih hx'

/-- So does a submission. -/
theorem submit (hx : Serving m₀ A₀ none x A) (res : Int) : ∃ A', Serving m₀ A₀ none (x.call (.submit res)) A' := by
  have hcalls := calls_step x.mcon hx.wellFormed.cq_entries (.submit res)
  refine (hx.unasked (i := .submit res) (by simp [NoEnoent]) (hcalls.mono fun k hk => ?_)).1
  simp only [Input.allows, List.mem_cons, List.not_mem_nil, or_false] at hk
  rcases hk with rfl | rfl | rfl | rfl <;> simp [StepKind.Unasked]

/-- So does an event that is not one of a session. -/
theorem otherEvent (hx : Serving m₀ A₀ none x A) (d : Delivery) (hd : ¬ d.input.SessionEvent x.mcon) :
    (∃ A', Serving m₀ A₀ none (x.call d.input) A') ∧
      ∀ p ∈ slotEventsOf (d.input, (step x.mcon d.input).2), p.2 = .opened ∨ p.2 = .answered .close := by
  have hok : NoEnoent x.mcon d.input := by simp [NoEnoent, Delivery.input]
  refine hx.unasked hok ((calls_step_of_not_sessionEvent hx.wellFormed hok.detachesWhole hd).mono fun k hk => ?_)
  refine ⟨?_, ?_, hk.2.1, hk.2.2.1⟩
  · rintro rfl
    simp [Input.allows, Delivery.input, processKinds] at hk
  · rintro rfl
    simp [Input.allows, Delivery.input, processKinds] at hk

/-- One entry a session is room enough for the closes and the accepts. -/
theorem not_full (hx : Serving m₀ A₀ (some s) x A) :
    C.kqueue.size x.mcon.ioQueue < C.kqueue.capacity x.mcon.ioQueue := by
  have hc := hx.execution.acceptsCounted
  have hlength := hx.represents.outstanding_length hx.execution.validIndices
  have hqueued := queued_le_outstanding x.mcon
  have haccepts := hc.le_free
  have hroom := hx.room
  obtain ⟨hidle, -⟩ := hx.due_idle s rfl
  have hs := hx.represents.lt_of_ne_free (s := s) (by rw [hidle]; simp [Slot.idle])
  have hone : ∀ t, (A t).load + (if A t = .free then 1 else 0) ≤ 1 := by
    intro t
    by_cases hts : t = s
    · rw [hts, hidle]
      decide
    · have hkept := hx.kept t (by simpa using fun h => hts h.symm)
      cases hA : A t with
      | free => simp [Slot.load]
      | busy r w =>
        rw [hA] at hkept
        obtain ⟨rfl, rfl, -⟩ := hkept
        simp [Slot.load]
      | closing => simp [Slot.load]
  have hsum : ∑ t ∈ Finset.range x.mcon.configuration.sessionCount.toNat,
      ((A t).load + if A t = .free then 1 else 0) <
        ∑ t ∈ Finset.range x.mcon.configuration.sessionCount.toNat, 1 := by
    refine Finset.sum_lt_sum (fun t _ => hone t) ⟨s, Finset.mem_range.2 hs, ?_⟩
    rw [hidle]
    decide
  have hcount : ∑ t ∈ Finset.range x.mcon.configuration.sessionCount.toNat, 1 =
      x.mcon.configuration.sessionCount.toNat := by simp
  rw [Finset.sum_add_distrib, ← hx.represents.size_freeStack, hcount] at hsum
  rw [hc.count] at haccepts
  rw [hx.wellFormed.queue_capacity]
  omega

/-- The close that is due succeeds, and the server goes on. -/
theorem close (hx : Serving m₀ A₀ (some s) x A) :
    (step x.mcon (.close s)).2.rc = 0 ∧ ∃ A', Serving m₀ A₀ none (x.call (.close s)) A' := by
  obtain ⟨hidle, hlatched, hgeneration⟩ := hx.due_idle s rfl
  have hfree : A s ≠ .free := by rw [hidle]; simp [Slot.idle]
  have hrc : (step x.mcon (.close s)).2.rc = 0 := by
    cases hx.represents.callOutcome (i := .close s) hx.wellFormed rfl with
    | outside hs _ => exact absurd (hx.represents.outside s hs) hfree
    | refused _ hnone _ =>
      rw [hidle] at hnone
      cases hnone
    | queueFull _ hfull _ => exact absurd hx.not_full (Nat.not_lt.2 hfull)
    | delFailed err _ hdetach _ _ => cases hdetach
    | done _ hrc _ => exact hrc
  refine ⟨hrc, Function.update A s .closing, ?_⟩
  obtain ⟨hexec, hframe, hlogs⟩ := hx.call_execution (i := .close s) (by simp [NoEnoent])
  obtain ⟨hrep', hgen, hlatch⟩ := hx.represents.closeCalled hx.wellFormed hx.execution.validIndices hidle hrc
  refine ⟨hexec, hx.frame.trans hframe, hrep', fun t => ?_, hframe.configuration ▸ hx.room, fun t _ => ?_, by simp,
    fun t ht => ?_⟩
  · rw [hlogs, Slot.run_append, hx.runs t, slotLog_singleton, slotEventsOf_close hrc]
    by_cases hts : t = s
    · subst hts
      simp [hidle, Slot.next, Slot.idle]
    · have hst : ¬ s = t := fun h => hts h.symm
      simp [hst, Function.update_of_ne hts, Slot.run]
  · by_cases hts : t = s
    · subst hts
      rw [Function.update_self]
      exact (hlatch t hfree).trans hlatched
    · rw [Function.update_of_ne hts]
      by_cases ht : A t = .free
      · rw [ht]
        trivial
      · rw [show hangupLatched (x.call (.close s)).mcon t = _ from hlatch t ht]
        exact hx.kept t (by simpa using fun h => hts h.symm)
  · rw [show ((x.call (.close s)).mcon.session t).generation = _ from hgen t]
    by_cases hts : t = s
    · subst hts
      rw [Function.update_self]
      exact .inl ⟨hgeneration, by simp⟩
    · rw [Function.update_of_ne hts]
      exact hx.since t ht

end Serving

/-! ### Events of sessions -/

/-- Latching a hangup leaves the generations alone. -/
theorem latchHangup_generation (m : Instance C) (epollEvents : UInt32) (s t : Nat) :
    ((latchHangup m epollEvents s).session t).generation = (m.session t).generation := by
  unfold latchHangup
  split
  · rw [setStateBits]
    rcases Instance.session_modify_cases m s t (fun x => { x with state := x.state ||| stateRdhup }) with h | ⟨-, h⟩
    · rw [h]
    · rw [h]
  · rfl

/-- The outcomes of an event of session `s` that is in range: a query fails, the event is stale, or it is reported. -/
inductive SessionEventOutcome (m : Instance C) (d : Delivery) (s : Nat) : Prop
  | failed : (step m d.input).2.rc < 0 → (∃ a ∈ (step m d.input).2.acts, a.queryFails = true) →
      SessionEventOutcome m d s
  | stale (acts : List Act) : step m d.input = (m, .ret 0 none acts) → SessionEventOutcome m d s
  | reported : (mconDecodeEpollEntry d.data).generation = (m.session s).generation → 0 ≤ (step m d.input).2.rc →
      (step m d.input).1 = latchHangup m d.epollEvents s →
      (step m d.input).2.reported = sessionEvents d.epollEvents s (hangupLatched m s) d.env.sockopt →
      SessionEventOutcome m d s

/-- The session whose hangup is reported by an event, if it is. -/
def dueAfter (m : Instance C) (d : Delivery) (s : Nat) : Option Nat :=
  if d.epollEvents &&& epollrdhup ≠ 0 ∧ hangupLatched m s = false then some s else none

theorem Delivery.sessionEventOutcome (d : Delivery) (howns : mconOwnsEvent m d.data = true)
    (hsource : (mconDecodeEpollEntry d.data).source = epollSourceSession)
    (hsession : (mconDecodeEpollEntry d.data).session.toNat = s) (hs : s < m.configuration.sessionCount.toNat)
    (hsubscribed : d.epollEvents &&& ~~~mconClientSocketSubscribedEvents = 0) :
    SessionEventOutcome m d s := by
  subst hsession
  have hcall : step m d.input = mconProcessSessionEvent m d.epollEvents (mconDecodeEpollEntry d.data)
      mconEventBatchSize d.env.sockopt := mconProcessEvent_session howns hsource _ _ _
  have hroom : stdcCountOnes d.epollEvents ≤ mconEventBatchSize := by
    have hle : stdcCountOnes d.epollEvents ≤ (List.range 32).length := List.countP_le_length
    rw [List.length_range] at hle
    exact hle.trans (by decide)
  by_cases hgeneration : (mconDecodeEpollEntry d.data).generation =
      (m.session (mconDecodeEpollEntry d.data).session.toNat).generation
  · have hthrough : LetThrough m d.epollEvents (mconDecodeEpollEntry d.data) mconEventBatchSize :=
      ⟨hsubscribed, hs, hroom, hgeneration⟩
    obtain ⟨hfirst, -, hfails, hcounts⟩ := processSessionEvent_of_letThrough hthrough d.env.sockopt
    by_cases hquery : QueryFails d.epollEvents d.env.sockopt
    · refine .failed ?_ ?_
      · rw [hcall, hfails hquery]
        decide
      · obtain ⟨err, herr⟩ := Option.ne_none_iff_exists'.1 hquery.2
        rw [hcall, processSessionEvent_acts hthrough, if_pos hquery.1, herr]
        exact ⟨_, List.mem_cons_of_mem _ List.mem_cons_self, rfl⟩
    · obtain ⟨hreported, -⟩ := processSessionEvent_reported hthrough hquery
      refine .reported hgeneration ?_ (hcall ▸ hfirst) (hcall ▸ hreported)
      rw [hcall, hcounts hquery]
      omega
  · exact .stale _ (hcall.trans (processSessionEvent_of_stale hsubscribed hs hroom hgeneration d.env.sockopt))

namespace Serving

variable {m₀ : Instance C} {A₀ : Nat → Slot} {x : Server C} {i : Input}

/-- A call that shows nothing and leaves the generations alone changes at most what is due. -/
theorem unseen (hx : Serving m₀ A₀ none x A) (hok : NoEnoent x.mcon i)
    (hlog : slotEventsOf (i, (step x.mcon i).2) = [])
    (hgeneration : ∀ t, ((step x.mcon i).1.session t).generation = (x.mcon.session t).generation) {due : Option Nat}
    (hkept : ∀ t, due ≠ some t → (A t).Kept (hangupLatched (step x.mcon i).1 t))
    (hdue : ∀ t, due = some t → A t = .idle ∧ hangupLatched (step x.mcon i).1 t = true ∧
      (x.mcon.session t).generation = (m₀.session t).generation) :
    Serving m₀ A₀ due (x.call i) A := by
  obtain ⟨hexec, hframe, hlogs⟩ := hx.call_execution hok
  obtain ⟨A', -, hrep', hrun', -⟩ := hexec.represents
  have hsame : A' = A := by
    funext t
    have hrun := hrun' t
    rw [hlogs, Slot.run_append, hx.runs t, slotLog_singleton, hlog] at hrun
    exact (Option.some.inj hrun).symm
  subst hsame
  refine ⟨hexec, hx.frame.trans hframe, hrep', hrun', hframe.configuration ▸ hx.room, hkept, fun t ht => ?_,
    fun t ht => ?_⟩
  · obtain ⟨hidle, hlatched, hgen⟩ := hdue t ht
    exact ⟨hidle, hlatched, (hgeneration t).trans hgen⟩
  · show Slot.Follows _ ((step x.mcon i).1.session t).generation _
    rw [hgeneration]
    exact hx.since t ht

/-- Where no close becomes due, latching the hangup of an event changes nothing for the slots. -/
theorem kept_dueAfter (hx : Serving m₀ A₀ none x A) {d : Delivery} (hs : s < x.mcon.sessions.length) {t : Nat}
    (ht : dueAfter x.mcon d s ≠ some t) : (A t).Kept (hangupLatched (latchHangup x.mcon d.epollEvents s) t) := by
  have hkept := hx.kept t (by simp)
  rw [hangupLatched_latchHangup hs]
  by_cases hts : s = t
  · subst hts
    rw [dueAfter] at ht
    split at ht
    · exact absurd rfl ht
    · rename_i hnot
      cases hlatched : hangupLatched x.mcon s with
      | true =>
        rw [hlatched] at hkept
        exact hkept
      | false =>
        rw [decide_eq_false fun h => hnot ⟨h.2, hlatched⟩, Bool.false_or, ← hlatched]
        exact hkept
  · rw [decide_eq_false fun h => hts h.1, Bool.or_false]
    exact hkept

/-- A close becomes due on a connection without operations. -/
theorem due_dueAfter (hx : Serving m₀ A₀ none x A) {d : Delivery} (hs : s < x.mcon.sessions.length)
    (hbusy : A₀ s ≠ .free) (hgen : (x.mcon.session s).generation = (m₀.session s).generation) {t : Nat}
    (ht : dueAfter x.mcon d s = some t) :
    A t = .idle ∧ hangupLatched (latchHangup x.mcon d.epollEvents s) t = true ∧
      (x.mcon.session t).generation = (m₀.session t).generation := by
  rw [dueAfter] at ht
  split at ht
  · rename_i hrdhup
    obtain rfl : s = t := Option.some.inj ht
    have hne : A s ≠ .free := by
      rcases hx.since s hbusy with ⟨-, hne⟩ | ⟨hnext, -⟩
      · exact hne
      · exact absurd (hgen.symm.trans hnext) (generation_ne (k := 1) (by decide))
    refine ⟨(hx.kept s (by simp)).eq_idle hne hrdhup.2, ?_, hgen⟩
    rw [hangupLatched_latchHangup hs, decide_eq_true ⟨rfl, hrdhup.1⟩, Bool.or_true]
  · cases ht

/-- An event of a connection that was there at `m₀`. -/
theorem sessionEvent (hx : Serving m₀ A₀ none x A) {d : Delivery} (hs : s < m₀.configuration.sessionCount.toNat)
    (hbusy : A₀ s ≠ .free) (hdata : d.data = clientPayload m₀ s)
    (hsubscribed : d.epollEvents &&& ~~~mconClientSocketSubscribedEvents = 0) :
    (step x.mcon d.input).2.rc < 0 ∧ (∃ a ∈ (step x.mcon d.input).2.acts, a.queryFails = true) ∨
      0 ≤ (step x.mcon d.input).2.rc ∧
        ((step x.mcon d.input).2.reported = [] ∧ Serving m₀ A₀ none (x.call d.input) A ∨
          (step x.mcon d.input).2.reported =
              sessionEvents d.epollEvents s (hangupLatched x.mcon s) d.env.sockopt ∧
            Serving m₀ A₀ (dueAfter x.mcon d s) (x.call d.input) A) := by
  have hs' : s < x.mcon.configuration.sessionCount.toNat := hx.frame.configuration ▸ hs
  have hlt : s < x.mcon.sessions.length := hx.wellFormed.sessions_length ▸ hs'
  obtain ⟨hdecode, hsession⟩ := decode_clientPayload m₀
    (Nat.lt_trans hs' (mconConfigValidate_spec hx.wellFormed.valid).sessionCount_lt)
  rw [← hdata] at hdecode hsession
  have howns : mconOwnsEvent x.mcon d.data = true := by
    rw [mconOwnsEvent, hdecode, hx.frame.instanceId, beq_self_eq_true, Bool.true_and]
    exact (by decide : mconIsValidSource epollSourceSession = true)
  have hok : NoEnoent x.mcon d.input := by simp [NoEnoent, Delivery.input]
  cases d.sessionEventOutcome howns (by rw [hdecode]) hsession hs' hsubscribed with
  | failed hrc hquery => exact .inl ⟨hrc, hquery⟩
  | stale acts hstep =>
    refine .inr ⟨by rw [hstep]; exact Int.le_refl 0, .inl ⟨by rw [hstep]; rfl, hx.unseen hok ?_ ?_ ?_ (by simp)⟩⟩
    · rw [hstep]
      rfl
    · intro t
      rw [hstep]
    · rw [hstep]
      exact hx.kept
  | reported hgeneration hrc hfirst hreported =>
    have hgen : (x.mcon.session s).generation = (m₀.session s).generation := by
      rw [← hgeneration, hdecode]
    refine .inr ⟨hrc, .inr ⟨hreported, hx.unseen hok ?_ ?_ ?_ ?_⟩⟩
    · show (step x.mcon d.input).2.reported.filterMap Event.slotEvent = []
      rw [hreported, slotEvent_sessionEvents]
    · intro t
      rw [hfirst, latchHangup_generation]
    · intro t ht
      rw [hfirst]
      exact hx.kept_dueAfter hlt ht
    · intro t ht
      rw [hfirst]
      exact hx.due_dueAfter hlt hbusy hgen ht

end Serving

end Mcon
