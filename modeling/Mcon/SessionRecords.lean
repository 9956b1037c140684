import Mcon.Indices
import Mcon.SlotTable

/-!
# The record of a session

What a small step does to one record of the session table, in terms of what is seen of its slot.  The generation
counts the connections that have ended, modulo 256; the descriptor stays from the opening of a connection to its end;
the latch of the hangup is only cleared by the opening of the next.
-/

namespace Mcon

open Transition (Run Path)

variable {C : Ctools} {m m' : Instance C} {A A' : Nat → Slot} {k : StepKind} {obs : List Obs} {s : Nat}

/-- A record before and after a small step of kind `k` that shows these events of its slot. -/
inductive RecordStep (k : StepKind) (x : Session) : List SlotEvent → Session → Prop
  | same : RecordStep k x [] x
  | hangup : k = .rdhup → RecordStep k x [] { x with state := x.state ||| stateRdhup }
  | called (op : SlotOp) : RecordStep k x [.called op] { x with state := x.state ||| op.bits }
  | answered {op : SlotOp} : op ≠ .close →
      RecordStep k x [.answered op] { x with state := x.state &&& ~~~op.bits }
  | opened (fd : Int) : RecordStep k x [.opened] { x with socketFd := fd, state := stateNone }
  | closed : RecordStep k x [.answered .close]
      ⟨-1, nextGeneration x.generation, x.state &&& ~~~stateClosing⟩
  | detached : RecordStep k x [.detached]
      { x with socketFd := -1, generation := nextGeneration x.generation }

/-- The increment with rollover is the increment modulo 256. -/
theorem nextGeneration_eq (generation : UInt8) : nextGeneration generation = generation + 1 := by
  unfold nextGeneration
  by_cases h : generation = 0xff
  · subst h
    decide
  · simp [h]

theorem logOf_acts (acts : List Act) (s : Nat) : logOf (acts.map Obs.act) s = [] := by
  simp [logOf, List.filterMap_map, Function.comp_def, Obs.slot?]

/-- A step that shows one event of one slot is a step of the record of this slot, and leaves the others alone. -/
private theorem recordStep_one {t : Nat} {e : SlotEvent} {x' : Session} (hslots : obs.filterMap Obs.slot? = [(t, e)])
    (hself : m'.session t = x') (hother : ∀ s ≠ t, m'.session s = m.session s)
    (hstep : RecordStep k (m.session t) [e] x') : RecordStep k (m.session s) (logOf obs s) (m'.session s) := by
  by_cases hst : s = t
  · subst hst
    rw [logOf, hslots, hself]
    simpa using hstep
  · have hts : ¬ t = s := fun h => hst h.symm
    rw [logOf, hslots, hother s hst]
    simpa [hts] using RecordStep.same

theorem SmallStep.recordStep (hm : WellFormed m) (hind : ValidIndices m) (h : SmallStep m k obs m') (s : Nat) :
    RecordStep k (m.session s) (logOf obs s) (m'.session s) := by
  have hlength := hm.sessions_length
  cases h with
  | @kernel acts r hstep =>
    rw [logOf_acts]
    exact .same
  | @request t op sqe ioq priority hvalid =>
    have ht : t < m.sessions.length := hlength ▸ (validateArgs_none hvalid).1
    exact recordStep_one rfl (Instance.session_modify_self (m := { m with ioQueue := ioq }) ht _)
      (fun u hu => Instance.session_modify_ne _ _ hu) (.called op)
  | @accepted cqe rest t stack _ _ _ hpop =>
    have ht : t < m.sessions.length := hlength ▸ hind.lt_of_pop hpop
    exact recordStep_one rfl
      (Instance.session_modify_self (m := { acceptDone m with sessionFreeStack := stack }) ht _)
      (fun u hu => Instance.session_modify_ne _ _ hu) (.opened cqe.res)
  | @transferred cqe rest t op hcq hdata hclose =>
    have ht : t < m.sessions.length := hlength ▸ hind.lt_of_cq hcq hdata
    exact recordStep_one rfl (Instance.session_modify_self (m := m.cqeSeen) ht _)
      (fun u hu => Instance.session_modify_ne _ _ hu) (.answered hclose)
  | @closed cqe rest t stack hcq hdata _ =>
    have ht : t < m.sessions.length := hlength ▸ hind.lt_of_cq hcq hdata
    obtain ⟨hself, hother⟩ := closeDone_session ht stack
    exact recordStep_one rfl hself hother .closed
  | @detached t stack hvalid _ =>
    have ht : t < m.sessions.length := hlength ▸ (validateArgs_none hvalid).1
    obtain ⟨hself, hother⟩ := detachDone_session ht stack
    exact recordStep_one rfl hself hother .detached
  | @rdhup t ht =>
    by_cases hst : s = t
    · subst hst
      rw [setStateBits, Instance.session_modify_self (hlength ▸ ht)]
      exact .hangup rfl
    · rw [setStateBits, Instance.session_modify_ne _ _ hst]
      exact .same
  | _ => exact .same

namespace RecordStep

variable {x x' : Session} {log : List SlotEvent} (h : RecordStep k x log x')

include h

theorem generation_eq : x'.generation = x.generation + UInt8.ofNat (Slot.releases log) := by
  cases h with
  | called op =>
    have hnone : Slot.releases [.called op] = 0 := by simp [Slot.releases, Slot.Release]
    simp [hnone]
  | @answered op hclose =>
    have hnone : Slot.releases [.answered op] = 0 := by simp [Slot.releases, Slot.Release, hclose]
    simp [hnone]
  | closed =>
    have hone : Slot.releases [.answered .close] = 1 := by decide
    rw [hone]
    exact nextGeneration_eq _
  | detached =>
    have hone : Slot.releases [.detached] = 1 := by decide
    rw [hone]
    exact nextGeneration_eq _
  | _ =>
    simp [Slot.releases, Slot.Release]

/-- The descriptor stays during a connection. -/
theorem socketFd_eq (hopened : .opened ∉ log) (hreleases : Slot.releases log = 0) : x'.socketFd = x.socketFd := by
  cases h with
  | opened => simp at hopened
  | closed => cases hreleases
  | detached => cases hreleases
  | _ => rfl

/-- So does the latch of the hangup, until the next connection. -/
theorem rdhup_eq (hopened : .opened ∉ log) (hk : k ≠ .rdhup) :
    x'.state &&& stateRdhup = x.state &&& stateRdhup := by
  cases h with
  | opened => simp at hopened
  | hangup hrdhup => exact absurd hrdhup hk
  | called op =>
    have hdistrib : stateRdhup &&& (x.state ||| op.bits) = stateRdhup &&& x.state ||| stateRdhup &&& op.bits :=
      UInt8.toBitVec_inj.1 BitVec.and_or_distrib_left
    have hnone : stateRdhup &&& op.bits = 0 := by rw [SlotOp.bits_eq, Side.rdhup_and_bits]
    rw [UInt8.and_comm, hdistrib, hnone, UInt8.or_zero, UInt8.and_comm]
  | @answered op _ =>
    have hkeep : ~~~op.bits &&& stateRdhup = stateRdhup := by
      rw [SlotOp.bits_eq]
      cases op.side <;> decide
    rw [UInt8.and_assoc, hkeep]
  | closed =>
    have hkeep : ~~~stateClosing &&& stateRdhup = stateRdhup := by decide
    rw [UInt8.and_assoc, hkeep]
  | _ => rfl

end RecordStep

/-! ### Along a path -/

/-- The generation counts the connections that end along a path. -/
theorem generation_of_path {P : StepKind → Prop} (h : Path SmallStep P m obs m') (hm : WellFormed m)
    (hind : ValidIndices m) (s : Nat) :
    (m'.session s).generation = (m.session s).generation + UInt8.ofNat (Slot.releases (logOf obs s)) := by
  induction h with
  | nil => simp [logOf, Slot.releases]
  | cons hs _ _ ih =>
    rw [ih (hm.smallStep hs) (hind.smallStep hs), (hs.recordStep hm hind s).generation_eq, logOf_append,
      Slot.releases_append, UInt8.ofNat_add, UInt8.add_assoc]

/-- What stays along a path on which the connection in slot `s` does not end: it is in use, and has its descriptor and
its generation; and the latch of its hangup, if no event of it is let through. -/
structure SameConnection (P : StepKind → Prop) (s : Nat) (m m' : Instance C) (A' : Nat → Slot) : Prop where
  ne_free : A' s ≠ .free
  socketFd : (m'.session s).socketFd = (m.session s).socketFd
  generation : (m'.session s).generation = (m.session s).generation
  rdhup : (∀ k, P k → k ≠ .rdhup) → (m'.session s).state &&& stateRdhup = (m.session s).state &&& stateRdhup

theorem Represents.sameConnection {P : StepKind → Prop} (hP : ∀ k, P k → k ≠ .detachEnoent)
    (h : Path SmallStep P m obs m') (hm : WellFormed m) (hind : ValidIndices m) (hrep : Represents m A)
    (hs : A s ≠ .free) (hreleases : Slot.releases (logOf obs s) = 0) :
    ∃ A', Represents m' A' ∧ (∀ t, (A t).run (logOf obs t) = some (A' t)) ∧ SameConnection P s m m' A' := by
  have hgeneration := generation_of_path h hm hind s
  rw [hreleases] at hgeneration
  induction h generalizing A with
  | nil => exact ⟨A, hrep, fun _ => rfl, hs, rfl, rfl, fun _ => rfl⟩
  | @cons m m₁ m' k os os' hstep hk hrest ih =>
    rw [logOf_append, Slot.releases_append] at hreleases
    have hm₁ := hm.smallStep hstep
    have hind₁ := hind.smallStep hstep
    have hrecord := hstep.recordStep hm hind s
    obtain ⟨A₁, hrep₁, hrun₁, -⟩ := hrep.slotStep hm (hP k hk) hstep
    have hreleases₁ : Slot.releases (logOf os s) = 0 := by omega
    have hreleases₂ : Slot.releases (logOf os' s) = 0 := by omega
    have hopened := Slot.not_mem_opened (hrun₁ s) hs hreleases₁
    have hs₁ := Slot.ne_free_of_run (hrun₁ s) hs (Slot.releases_eq_zero_iff.1 hreleases₁)
    have hgeneration₂ := generation_of_path hrest hm₁ hind₁ s
    rw [hreleases₂] at hgeneration₂
    obtain ⟨A', hrep', hrun', hsame⟩ := ih hm₁ hind₁ hrep₁ hs₁ hreleases₂ hgeneration₂
    refine ⟨A', hrep', fun t => ?_, hsame.ne_free, ?_, ?_, fun hrdhup => ?_⟩
    · rw [logOf_append, Slot.run_append, hrun₁ t]
      exact hrun' t
    · exact hsame.socketFd.trans (hrecord.socketFd_eq hopened hreleases₁)
    · rw [hgeneration]
      exact UInt8.add_zero _
    · exact (hsame.rdhup hrdhup).trans (hrecord.rdhup_eq hopened (hrdhup k hk))

end Mcon
