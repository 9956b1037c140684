import Mcon.Payloads

/-!
# Ownership and dispatch

Whether an event belongs to an instance is decided twice: by `mcon_owns_event`, which accepts every source up to the
last one of the enumeration, and by the `switch` of `mcon_process_event`, which has a case for three of them.  The two
agree except on the source `MCON_EPOLL_SOURCE_UNKNOWN`, which no registration carries.
-/

namespace Mcon

open Transition (AllOk history finalState)

variable {C : Ctools} {m : Instance C} {data : UInt64}

/-- The sources that the `switch` of `mcon_process_event` has a case for. -/
def HandledSource (source : EpollSource) : Prop :=
  source = epollSourceServerSocket ∨ source = epollSourceIoUring ∨ source = epollSourceSession

/-- The call is the call of a handler. -/
inductive ReachesHandler (m : Instance C) (data : UInt64) (epollEvents : UInt32) (eventCapacity : Nat)
    (env : ProcessEnv) : Prop
  | serverSocket : (mconDecodeEpollEntry data).source = epollSourceServerSocket →
      mconProcessEvent m data epollEvents eventCapacity env = mconProcessServerSocketEvent m epollEvents →
      ReachesHandler m data epollEvents eventCapacity env
  | ioUring : (mconDecodeEpollEntry data).source = epollSourceIoUring →
      mconProcessEvent m data epollEvents eventCapacity env = mconProcessIoUringEvent m eventCapacity env.uring →
      ReachesHandler m data epollEvents eventCapacity env
  | session : (mconDecodeEpollEntry data).source = epollSourceSession →
      mconProcessEvent m data epollEvents eventCapacity env =
        mconProcessSessionEvent m epollEvents (mconDecodeEpollEntry data) eventCapacity env.sockopt →
      ReachesHandler m data epollEvents eventCapacity env

/-- The ownership test and the dispatch agree on a payload. -/
structure OwnershipAgrees (m : Instance C) (data : UInt64) : Prop where
  owns_iff : mconOwnsEvent m data = true ↔
    (mconDecodeEpollEntry data).instanceId = m.instanceId ∧ HandledSource (mconDecodeEpollEntry data).source
  owned : mconOwnsEvent m data = true → ∀ epollEvents eventCapacity env,
    ReachesHandler m data epollEvents eventCapacity env
  other : mconOwnsEvent m data = false → ∀ epollEvents eventCapacity env,
    mconProcessEvent m data epollEvents eventCapacity env = (m, .ret (-1) (some Errno.einval) [])

/-- The sources that pass the test of `mcon_is_valid_source`. -/
theorem mconIsValidSource_iff (source : EpollSource) :
    mconIsValidSource source = true ↔ source = epollSourceUnknown ∨ HandledSource source := by
  have h0 : epollSourceUnknown.toNat = 0 := rfl
  have h1 : epollSourceServerSocket.toNat = 1 := rfl
  have h2 : epollSourceIoUring.toNat = 2 := rfl
  have h3 : epollSourceSession.toNat = 3 := rfl
  simp only [mconIsValidSource, HandledSource, Bool.and_eq_true, decide_eq_true_eq, UInt32.le_iff_toNat_le,
    UInt32.toNat_zero, ← UInt32.toNat_inj, h0, h1, h2, h3]
  omega

theorem mconOwnsEvent_iff (m : Instance C) (data : UInt64) :
    mconOwnsEvent m data = true ↔ (mconDecodeEpollEntry data).instanceId = m.instanceId ∧
      ((mconDecodeEpollEntry data).source = epollSourceUnknown ∨
        HandledSource (mconDecodeEpollEntry data).source) := by
  rw [mconOwnsEvent, Bool.and_eq_true, beq_iff_eq, mconIsValidSource_iff]

theorem not_handledSource_unknown : ¬ HandledSource epollSourceUnknown := by
  unfold HandledSource
  decide

/-- An owned event of a source with a case in the `switch`. -/
theorem reachesHandler_of_handledSource (howns : mconOwnsEvent m data = true)
    (hsource : HandledSource (mconDecodeEpollEntry data).source) (epollEvents : UInt32) (eventCapacity : Nat)
    (env : ProcessEnv) : ReachesHandler m data epollEvents eventCapacity env := by
  rcases hsource with hserver | hring | hsession
  · refine .serverSocket hserver ?_
    unfold mconProcessEvent
    simp only [howns, hserver]
    rfl
  · exact .ioUring hring (mconProcessEvent_ioUring howns hring epollEvents eventCapacity env)
  · exact .session hsession (mconProcessEvent_session howns hsession epollEvents eventCapacity env)

/-- A payload of the instance with the source `MCON_EPOLL_SOURCE_UNKNOWN` falls through the `switch`. -/
theorem mconProcessEvent_unknown (howns : mconOwnsEvent m data = true)
    (hsource : (mconDecodeEpollEntry data).source = epollSourceUnknown) (epollEvents : UInt32) (eventCapacity : Nat)
    (env : ProcessEnv) : mconProcessEvent m data epollEvents eventCapacity env = (m, .ret (-1) none []) := by
  unfold mconProcessEvent
  simp only [howns, hsource]
  rfl

/-- Ownership and dispatch agree on a payload exactly unless it carries the identity of the instance and the source
`MCON_EPOLL_SOURCE_UNKNOWN`; no run registers such a payload. -/
theorem ownership_agrees_with_dispatch_iff (m : Instance C) :
    (∀ data, OwnershipAgrees m data ↔
      ¬ ((mconDecodeEpollEntry data).instanceId = m.instanceId ∧
        (mconDecodeEpollEntry data).source = epollSourceUnknown)) ∧
      ∀ h, Execution anyInput h m → ∀ epfd fd data events err, Act.epollAdd epfd fd data events err ∈ actsOf h →
        HandledSource (mconDecodeEpollEntry data).source := by
  constructor
  · intro data
    constructor
    · rintro hagrees ⟨hid, hsource⟩
      have howns := (mconOwnsEvent_iff m data).2 ⟨hid, .inl hsource⟩
      have hhandled := (hagrees.owns_iff.1 howns).2
      rw [hsource] at hhandled
      exact not_handledSource_unknown hhandled
    · intro hknown
      have howns : mconOwnsEvent m data = true ↔ (mconDecodeEpollEntry data).instanceId = m.instanceId ∧
          HandledSource (mconDecodeEpollEntry data).source := by
        rw [mconOwnsEvent_iff]
        exact and_congr_right fun hid => or_iff_right fun hsource => hknown ⟨hid, hsource⟩
      refine ⟨howns, fun h => reachesHandler_of_handledSource h (howns.1 h).2, fun h _ _ _ => ?_⟩
      unfold mconProcessEvent
      rw [h]
      rfl
  · intro h he epfd fd data events err hadd
    obtain ⟨entry, hbuilt, rfl⟩ := he.registers hadd
    rw [mconDecodeEpollEntry_encode (hbuilt.inRange (mconConfigValidate_spec he.wellFormed.valid).sessionCount_lt)]
    cases hbuilt with
    | serverSocket => exact .inl rfl
    | ioUring => exact .inr (.inl rfl)
    | session => exact .inr (.inr rfl)

/-- The payload of the first instance with the source `0`. -/
def unknownSourcePayload : UInt64 := instancePayload (freshInstance mconConfigDefault) epollSourceUnknown

/-- The instance claims the event, has no handler for it and fails without an errno. -/
theorem unknown_source_is_owned :
    let m := freshInstance mconConfigDefault
    mconOwnsEvent m unknownSourcePayload = true ∧
      mconProcessEvent m unknownSourcePayload epollin 8 ⟨.quiet, ⟨none, 0⟩⟩ = (m, .ret (-1) none []) ∧
      ¬ OwnershipAgrees m unknownSourcePayload := by
  intro m
  have howns : mconOwnsEvent m unknownSourcePayload = true := by decide
  have hsource : (mconDecodeEpollEntry unknownSourcePayload).source = epollSourceUnknown := by decide
  refine ⟨howns, mconProcessEvent_unknown howns hsource _ _ _, fun hagrees => ?_⟩
  have hhandled := (hagrees.owns_iff.1 howns).2
  rw [hsource] at hhandled
  exact not_handledSource_unknown hhandled

end Mcon
