import Mcon.SmallStep
import Mathlib.Data.Nat.ModEq

/-!
# Calls are sequences of small steps

`calls_step`: every input of the system takes the instance through small steps of the kinds that `Input.allows`
lists for it; together they emit exactly the actions of the call and what the application sees of the slots.
-/

namespace Mcon

open Transition (Path)

variable {C : Ctools}

/-- Small steps of kinds `P` lead from `m` to `m'`, with these actions and slot events in all. -/
def Calls (P : StepKind → Prop) (m : Instance C) (acts : List Act) (log : List (Nat × SlotEvent))
    (m' : Instance C) : Prop :=
  ∃ obs, Path SmallStep P m obs m' ∧ obs.filterMap Obs.act? = acts ∧ obs.filterMap Obs.slot? = log

variable {P : StepKind → Prop} {m m' m'' : Instance C} {acts acts' : List Act}
  {log log' : List (Nat × SlotEvent)}

namespace Calls

theorem nil (m : Instance C) : Calls P m [] [] m := ⟨[], .nil m, rfl, rfl⟩

theorem single {k : StepKind} {obs : List Obs} (h : SmallStep m k obs m') (hk : P k) :
    Calls P m (obs.filterMap Obs.act?) (obs.filterMap Obs.slot?) m' :=
  ⟨obs, .single h hk, rfl, rfl⟩

theorem trans (h : Calls P m acts log m') (h' : Calls P m' acts' log' m'') :
    Calls P m (acts ++ acts') (log ++ log') m'' := by
  obtain ⟨obs, hp, rfl, rfl⟩ := h
  obtain ⟨obs', hp', rfl, rfl⟩ := h'
  exact ⟨obs ++ obs', hp.trans hp', by simp, by simp⟩

theorem mono {P' : StepKind → Prop} (hmono : ∀ k, P k → P' k) (h : Calls P m acts log m') :
    Calls P' m acts log m' := by
  obtain ⟨obs, hp, hacts, hlog⟩ := h
  exact ⟨obs, hp.mono hmono, hacts, hlog⟩

/-- An invariant kept by the small steps of a call is kept by the call. -/
theorem invariant (I : Instance C → Prop) (hI : ∀ m k obs m', P k → SmallStep m k obs m' → I m → I m')
    (h : Calls P m acts log m') (hm : I m) : I m' := by
  obtain ⟨obs, hp, -⟩ := h
  exact hp.invariant I hI hm

end Calls

/-! ### The kernel -/

theorem calls_moveRing (hk : P .kernel) (m : Instance C) (moves : List RingMove) :
    Calls P m (moveActs m moves) [] (moveRing m moves) := by
  induction moves generalizing m with
  | nil => exact .nil m
  | cons move moves ih =>
    have hfirst : Calls P m (m.ring.apply move).2 [] { m with ring := (m.ring.apply move).1 } := by
      have := Calls.single (.kernel (m.ring.kernelStep_apply move)) hk
      simpa [List.filterMap_map, Function.comp_def, Obs.act?, Obs.slot?] using this
    exact hfirst.trans (ih { m with ring := (m.ring.apply move).1 })

/-! ### Session operations -/

/-- A refused session call looks at the record of the session at most. -/
private theorem calls_validateActs (hk : P .look) (m : Instance C) (s : Nat) :
    Calls P m (validateActs m s) [] m := by
  unfold validateActs
  split
  · exact .nil m
  · rename_i hlt
    exact .single (.look (Nat.lt_of_not_le hlt) (.inl rfl)) hk

theorem calls_sessionRequest (hreq : P .request) (hlook : P .look) (m : Instance C) (s : Nat) (op : SlotOp)
    {sqe : Sqe} (hdata : sqe.userData = op.entry s) (hfd : sqe.fd = (m.session s).socketFd)
    (hop : sqe.opcode = op.opcode) :
    Calls P m (sessionRequest m s op.incompatible sqe op.bits).2.acts
      (if (sessionRequest m s op.incompatible sqe op.bits).2.rc = 0 then [(s, .called op)] else [])
      (sessionRequest m s op.incompatible sqe op.bits).1 := by
  unfold sessionRequest
  split
  · simpa [Output.ret] using calls_validateActs hlook m s
  · rename_i hvalid
    split
    · simpa [Output.ret] using calls_validateActs hlook m s
    · rename_i ioq hpush
      obtain ⟨priority, -, hqueued⟩ := ioQueuePush_ok hpush
      have := Calls.single (.request hvalid hdata hfd hop hqueued) hreq
      simpa [Output.ret, validateActs_of_none hvalid] using this

theorem calls_detach (hdet : P .detached) (hundone : P .detachUndone) (hroom : P .detachNoRoom)
    (hlook : P .look) (m : Instance C) (s : Nat) (delErr : Option Int)
    (henoent : delErr = some Errno.enoent → validateArgs m s SlotOp.close.incompatible = none →
      (C.idxStack.push m.sessionFreeStack s).isSome → P .detachEnoent) :
    Calls P m (mconSessionDetach m s delErr).2.acts
      (if (mconSessionDetach m s delErr).2.rc = 0 then [(s, .detached)] else [])
      (mconSessionDetach m s delErr).1 := by
  cases mconSessionDetach_outcome m s delErr with
  | refused err hvalid hcall =>
    rw [hcall]
    simpa [Output.ret] using calls_validateActs hlook m s
  | noRoom hvalid hpush hcall =>
    rw [hcall]
    simpa [Output.ret] using Calls.single (.detachNoRoom hvalid hpush) hroom
  | done stack hvalid hpush hdel hcall =>
    rw [hcall]
    simpa [Output.ret, detachDone] using Calls.single (.detached hvalid hpush) hdet
  | undone stack stack' err hvalid hpush hpop hdel herr hcall =>
    rw [hcall]
    simpa [Output.ret] using Calls.single (@SmallStep.detachUndone C m s s stack stack' err hvalid hpush hpop) hundone
  | halfDone stack hvalid hpush hdel hcall =>
    rw [hcall]
    simpa [Output.ret] using Calls.single (.detachEnoent hvalid hpush) (henoent hdel hvalid (by rw [hpush]; rfl))

/-! ### Start and shutdown -/

theorem calls_start (m : Instance C) (probe : SocketProbe) (l e : Int) (env : StartEnv)
    (hstart : (mconStart m probe l e env).2.rc = 0 → P .started) (hfail : P .startFailed) (hundone : P .startUndone) :
    Calls P m (mconStart m probe l e env).2.acts [] (mconStart m probe l e env).1 := by
  unfold mconStart at hstart ⊢
  dsimp only at hstart ⊢
  split
  · exact .single (@SmallStep.probed C m probe l) hfail
  · rename_i hvalid
    rw [if_neg hvalid] at hstart
    simp only [ne_eq, not_not] at hvalid
    cases haddListening : env.addListening with
    | some err => exact .single (@SmallStep.startFailed C m probe l e err) hfail
    | none =>
      cases haddEventfd : env.addEventfd with
      | some err => exact .single (@SmallStep.startUndone C m probe l e err env.delListening hvalid) hundone
      | none =>
        rw [haddListening, haddEventfd] at hstart
        exact .single (.started hvalid) (hstart rfl)

/-- A start that succeeds makes its two registrations and remembers the descriptors. -/
theorem mconStart_ok {probe : SocketProbe} {l e : Int} {env : StartEnv}
    (hrc : (mconStart m probe l e env).2.rc = 0) :
    (mconStart m probe l e env).1 = { m with serverSocketFd := l, epollFd := e } ∧
      (mconStart m probe l e env).2.acts = [.socketProbe l probe,
        .epollAdd e l (instancePayload m epollSourceServerSocket) (epollin ||| epollerr ||| epollet) none,
        .epollAdd e m.ioUringEventfd (instancePayload m epollSourceIoUring) (epollin ||| epollerr) none] := by
  unfold mconStart at hrc ⊢
  dsimp only at hrc ⊢
  split at hrc
  · cases hrc
  · rename_i hvalid
    rw [if_neg hvalid]
    cases haddListening : env.addListening with
    | some err => rw [haddListening] at hrc; cases hrc
    | none =>
      cases haddEventfd : env.addEventfd with
      | some err => rw [haddListening, haddEventfd] at hrc; cases hrc
      | none => exact ⟨rfl, rfl⟩

theorem calls_shutdown (m : Instance C) (delErr : Option Int) (hshut : (mconShutdown m delErr).2.rc = 0 → P .shutdown)
    (hfail : P .shutdownFailed) : Calls P m (mconShutdown m delErr).2.acts [] (mconShutdown m delErr).1 := by
  unfold mconShutdown at hshut ⊢
  split
  · exact .nil m
  · rename_i hdown
    rw [if_neg hdown] at hshut
    split
    · exact .nil m
    · rename_i hfd
      rw [if_neg hfd] at hshut
      cases delErr with
      | some err => exact .single .shutdownFailed hfail
      | none => exact .single (.shutdown (by simpa using hdown) hfd) (hshut rfl)

/-! ### Submission -/

theorem calls_acceptLoop (hk : P .acceptEnqueued) {fuel : Nat} {m m' : Instance C} {acts : List Act}
    (h : acceptLoop fuel m = some (m', acts)) : Calls P m acts [] m' := by
  induction fuel generalizing m m' acts with
  | zero => cases h
  | succ fuel ih =>
    unfold acceptLoop at h
    split at h
    · rename_i hlive
      split at h
      · cases h
        exact .nil _
      · rename_i m₁ hm₁
        obtain ⟨hsize, ioq, hpush, rfl⟩ := enqueueAccept_ok hm₁
        split at h
        · cases h
        · rename_i hloop
          cases h
          exact (Calls.single (.acceptEnqueued hlive hsize hpush) hk).trans (ih hloop)
    · cases h
      exact .nil _

theorem calls_submitAccepts (hk : P .acceptEnqueued) (m : Instance C) :
    Calls P m (submitAccepts m).2 [] (submitAccepts m).1 := by
  unfold submitAccepts
  split
  · exact calls_acceptLoop hk (Option.some_get _).symm
  · exact .nil m

private theorem calls_pops (hk : P .pop) {n : Nat} {x y : C.kqueue.Carrier × Ring} (h : PopsN n x y)
    (m : Instance C) :
    Calls P { m with ioQueue := x.1, ring := x.2 } [] [] { m with ioQueue := y.1, ring := y.2 } := by
  induction h with
  | zero => exact .nil _
  | succ hone _ ih => exact (Calls.single (.pop hone) hk).trans ih

/-- Popping needs no bound on the number of groups to be a sequence of small steps. -/
theorem calls_submitPop (hk : P .pop) (m : Instance C) : Calls P m [] [] (submitPop m).2 := by
  have hroom : popLimit m.ioQueue m.ring (sqeLimit m).toNat ≤ m.ring.ioUringSqSpaceLeft := by
    unfold popLimit
    omega
  obtain ⟨left, ioq, ring, heq, -, hpops, -⟩ := popGroups_spec (List.range ioQueuePriorityGroupCount)
    (popLimit m.ioQueue m.ring (sqeLimit m).toNat) m.ioQueue m.ring hroom
  have hout : (submitPop m).2 = { m with ioQueue := ioq, ring := ring } := by
    simp only [submitPop, ioQueuePopIntoRing, heq, Option.get_some]
  rw [hout]
  exact calls_pops hk hpops m

theorem calls_submitRing (hsub : P .submitted) (hfail : P .submitFailed) (m : Instance C) (res : Int) :
    Calls P m (submitRing m res).2.acts [] (submitRing m res).1 := by
  unfold submitRing Ring.ioUringSubmit
  by_cases hres : res < 0
  · simp only [hres, ↓reduceIte]
    exact .single (.submitFailed hres) hfail
  · have hn : ¬ ((min res.toNat m.ring.sq.length : Nat) : Int) < 0 := by omega
    simp only [hres, ↓reduceIte, hn, Int.toNat_natCast]
    exact .single (.submitted (Nat.min_le_right _ _)) hsub

theorem calls_submit (m : Instance C) (haccepts : Calls P m (submitAccepts m).2 [] (submitAccepts m).1)
    (hpop : P .pop) (hsub : P .submitted) (hfail : P .submitFailed) (res : Int) :
    Calls P m (mconSubmit m res).2.acts [] (mconSubmit m res).1 := by
  have hprefix := haccepts.trans (calls_submitPop hpop (submitAccepts m).1)
  unfold mconSubmit
  dsimp only
  split
  · simpa using hprefix.trans (calls_submitRing hsub hfail _ res)
  · simpa [Output.ret] using hprefix

end Mcon
