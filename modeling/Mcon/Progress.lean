import Mcon.Batches
import Mcon.Results

/-!
# Completions are not held up

As long as every accepted socket can be registered no handler fails: there is a free slot for every connection that is
accepted, and room on the free stack for every slot that is closed.  So a call on the io_uring instance goes on until
there is no completion or no room for an event.
-/

namespace Mcon

open Relation (ReflTransGen)
open Transition (AllOk history finalState)

variable {C : Ctools} {m : Instance C} {maxEvents n : Nat} {env : UringEnv}

/-- With room for an event, the handler of a completion does not fail. -/
theorem processCqe_succeeds (hm : Sound True n m) (hc : AcceptsCounted m) {cqe : Cqe} {rest : List Cqe}
    (hcq : m.ring.cq = cqe :: rest) (hroom : 0 < maxEvents) : ¬ (processCqe m cqe maxEvents none).err < 0 := by
  have hfull : ¬ maxEvents < 1 := by omega
  have htransfer : ∀ type bits, ¬ (processTransfer type bits m cqe cqe.userData maxEvents).err < 0 := by
    intro type bits
    rw [processTransfer, if_neg hfull]
    show ¬ (1 : Int) < 0
    omega
  unfold processCqe
  split
  next hop =>
    unfold processAccept
    split
    · show ¬ (0 : Int) < 0
      omega
    · dsimp only
      split
      · show ¬ (1 : Int) < 0
        omega
      · split
        next hpop => exact absurd hpop (hc.pop_ne_none hcq hop)
        next =>
          show ¬ (1 : Int) < 0
          omega
  next => exact htransfer _ _
  next => exact htransfer _ _
  next => exact htransfer _ _
  next hop =>
    obtain ⟨stack, hpush⟩ := Option.isSome_iff_exists.1 (hm.push_isSome hcq hop)
    rw [processClose, if_neg hfull]
    dsimp only
    rw [hpush]
    show ¬ (1 : Int) < 0
    omega
  next hop => exact absurd hop (hm.indices.of_cq hcq).operation_ne_unknown

/-- In a run without a half-done detach, no handler of a call fails if its registrations succeed. -/
theorem Sound.noHandlerFails (hm : Sound True n m) (hc : Counted m) (hadd : ∀ j, (env.iter j).addErr = none) :
    NoHandlerFails maxEvents env m := by
  intro st cqe out hpasses hit
  have hst : Sound True n st.mcon ∧ Counted st.mcon := by
    clear hit
    induction hpasses with
    | refl => exact ⟨hm, hc⟩
    | tail _ hpass ih =>
      obtain ⟨cqe, out, hit, herr, rfl⟩ := hpass
      exact ⟨ih.1.next hit herr, ih.2.next hit herr⟩
  obtain ⟨hroom, ⟨rest, hcq⟩, rfl⟩ := hit
  rw [hadd]
  exact processCqe_succeeds (hst.1.moveRing _) (hst.2.moveRing _).accepts hcq (Nat.sub_pos_of_lt hroom)

theorem Execution.sound_whole {h : History} (he : Execution DetachesWhole h m) :
    Sound True m.configuration.sessionCount.toNat m := by
  obtain ⟨A, hm, hrep, -⟩ := he.represents_whole
  exact ⟨hm, he.validIndices, rfl, fun _ => ⟨A, hrep⟩⟩

/-! ### The end of a call -/

/-- The completions that have an event. -/
def withEvent (cqes : List Cqe) : List Cqe := cqes.filter fun cqe => ¬ cqe.Again

theorem ReportedInOrder.length_eq {cqes : List Cqe} {events : List Event} (h : ReportedInOrder cqes events) :
    events.length = (withEvent cqes).length := (List.Forall₂.length_eq h).symm

/-- One call. -/
theorem Sound.call_ends (hm : Sound True n m) (hc : Counted m) (hpost : env.PostsNothing)
    (hadd : ∀ j, (env.iter j).addErr = none) (maxEvents : Nat) :
    let out := mconProcessIoUringEvent m maxEvents env
    ConsumesOldest m out.1 out.2.reported ∧ out.2.rc = (min maxEvents (withEvent m.ring.cq).length : Nat) ∧
      (out.1.ring.cq ≠ [] → out.2.rc = maxEvents) := by
  intro out
  have hok : NoHandlerFails maxEvents env m := hm.noHandlerFails hc hadd
  obtain ⟨st, hst⟩ := hok.endsIn hpost hm.wellFormed.cq_entries
  have hconsumes : ConsumesOldest m out.1 out.2.reported := by rw [hst.reported]; exact hst.consumes
  have hrc : out.2.rc = st.events.length := hst.rc
  have hle : st.events.length ≤ maxEvents := hst.eventCount ▸ hst.room
  have hcq : out.1.ring.cq = st.mcon.ring.cq := cq_eq_of_visible hst.visible
  have hended : st.mcon.ring.cq = [] ∨ maxEvents ≤ st.events.length := by
    rw [← peeked_cq hpost st, ← hst.eventCount]
    exact hst.ended
  obtain ⟨consumed, hsplit, hreported⟩ := hconsumes
  have hlength := hreported.length_eq
  rw [hst.reported] at hlength
  have hall : (withEvent m.ring.cq).length = st.events.length + (withEvent out.1.ring.cq).length := by
    rw [hsplit, hlength, withEvent, List.filter_append, List.length_append]
    rfl
  refine ⟨⟨consumed, hsplit, hreported⟩, ?_, ?_⟩
  · rw [hrc]
    rcases hended with hnil | hfull
    · rw [hcq, hnil] at hall
      have : (withEvent []).length = 0 := rfl
      omega
    · omega
  · intro hne
    have hfull := hended.resolve_left fun hnil => hne (hcq.trans hnil)
    omega

/-- In every run without a half-done detach, a call on the io_uring instance during which nothing is posted and no
registration fails consumes the oldest completions and reports them in order; it returns the number of completions that
have an event, or the capacity if that is less, and leaves a completion in the ring only when the array is full. -/
theorem call_ends_with_empty_ring_or_full_array {h : History} (he : Execution DetachesWhole h m)
    (hpost : env.PostsNothing) (hadd : ∀ j, (env.iter j).addErr = none) (maxEvents : Nat) :
    let out := mconProcessIoUringEvent m maxEvents env
    ConsumesOldest m out.1 out.2.reported ∧ out.2.rc = (min maxEvents (withEvent m.ring.cq).length : Nat) ∧
      (out.1.ring.cq ≠ [] → out.2.rc = maxEvents) :=
  he.sound_whole.call_ends he.counted hpost hadd maxEvents

/-- Three completions, of which one is that of an accept that found no connection, are reported by two events. -/
theorem call_ends_with_empty_ring_or_full_array_transfers :
    let m := finalState step (freshInstance (smallConfig 2 4 1)) transferInputs
    (mconProcessIoUringEvent m 8 .quiet).2.rc = (min 8 2 : Nat) ∧
      (mconProcessIoUringEvent m 1 .quiet).2.rc = (min 1 2 : Nat) := by
  intro m
  have hrun : Execution DetachesWhole _ m := Execution.of_inputs (smallConfig 2 4 1) (by decide) transferInputs
    (.of_forall (fun i hi m => NoEnoent.detachesWhole (by
      revert i
      simp [NoEnoent, transferInputs, startInput, serverInput, connectInputs, completeInputs, ringInput])) _)
  have hquiet : UringEnv.quiet.PostsNothing := by
    constructor <;> simp [PostsNothing, UringEnv.quiet]
  exact ⟨(call_ends_with_empty_ring_or_full_array hrun hquiet (fun _ => rfl) 8).2.1,
    (call_ends_with_empty_ring_or_full_array hrun hquiet (fun _ => rfl) 1).2.1⟩

end Mcon
