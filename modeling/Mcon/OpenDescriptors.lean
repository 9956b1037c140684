import Mcon.Accepts
import Mcon.Connections
import Mcon.Descriptors
import Mcon.Library.Ledger

/-!
# Every accepted descriptor is given back once

The descriptors that accepts return are closed by the kernel when it executes a close, closed by the program when the
registration fails, or handed over by a detach, each once.  Until then the instance holds them: in a completion that it
has not consumed, or in the record of a session whose close has not been executed.
-/

namespace Mcon

open Transition (Run Path Ledger AllOk history finalState)

variable {C : Ctools} {m m' : Instance C} {A A' : Nat → Slot} {k : StepKind} {obs : List Obs} {i : Input} {s : Nat}

/-! ### The ledger of descriptors -/

/-- The descriptor that an accept returns. -/
def Act.accepted? : Act → Option Int
  | exec sqe res => if sqe.opcode = .accept ∧ 0 ≤ res then some res else none
  | _ => none

/-- The descriptor that an action of the call `i` closes or hands over.  A close frees its descriptor whatever its
result. -/
def Act.released? (i : Input) : Act → Option Int
  | exec sqe _ => if sqe.opcode = .close then some sqe.fd else none
  | close fd => some fd
  | epollDel _ fd none =>
    match i with
    | .detach .. => some fd
    | _ => none
  | _ => none

/-- The descriptor of a session whose close has not been executed. -/
def connectionOf (m : Instance C) (s : Nat) : List Int :=
  if (m.session s).socketFd = -1 ∨ SlotOp.close.entry s ∈ m.completions.map (·.userData) then []
  else [(m.session s).socketFd]

/-- The descriptors of accepted connections that the instance holds. -/
def descriptors (m : Instance C) : List Int :=
  arrived m ++ (List.range m.configuration.sessionCount.toNat).flatMap (connectionOf m)

def descriptorLedger (C : Ctools) (i : Input) : Ledger (Instance C) Act Int :=
  ⟨descriptors, Act.accepted?, Act.released? i⟩

/-! ### Where the descriptors are -/

theorem connectionOf_eq (hfd : (m'.session s).socketFd = (m.session s).socketFd)
    (hclose : SlotOp.close.entry s ∈ m'.completions.map (·.userData) ↔
      SlotOp.close.entry s ∈ m.completions.map (·.userData)) :
    connectionOf m' s = connectionOf m s := by
  simp only [connectionOf, hfd, hclose]

theorem descriptors_perm (hconfig : m'.configuration = m.configuration) (harrived : (arrived m').Perm (arrived m))
    (hconnections : ∀ s, connectionOf m' s = connectionOf m s) : (descriptors m').Perm (descriptors m) := by
  rw [descriptors, descriptors, hconfig, funext hconnections]
  exact harrived.append_right _

/-- One session gives up its descriptor. -/
theorem descriptors_perm_cons (hconfig : m'.configuration = m.configuration) (harrived : (arrived m').Perm (arrived m))
    (hs : s < m.configuration.sessionCount.toNat) {fd : Int} (hself : connectionOf m s = fd :: connectionOf m' s)
    (hother : ∀ t ≠ s, connectionOf m t = connectionOf m' t) : (descriptors m).Perm (fd :: descriptors m') := by
  rw [descriptors, descriptors, hconfig]
  have hconnections : ((List.range m.configuration.sessionCount.toNat).flatMap (connectionOf m)).Perm
      (fd :: (List.range m.configuration.sessionCount.toNat).flatMap (connectionOf m')) :=
    Containers.flatMap_perm_cons List.nodup_range (List.mem_range.2 hs) (.of_eq hself) hother
  exact (harrived.symm.append hconnections).trans List.perm_middle

/-- The program consumes a completion that brings no descriptor and is not that of a close. -/
theorem descriptors_seen {cqe : Cqe} (hperm : m.completions.Perm (cqe :: m'.completions))
    (hbrought : cqe.brought = none) (hop : cqe.userData.operation ≠ .close)
    (hconfig : m'.configuration = m.configuration)
    (hfd : ∀ s, (m'.session s).socketFd = (m.session s).socketFd) : (descriptors m').Perm (descriptors m) := by
  refine descriptors_perm hconfig ?_ fun s => connectionOf_eq (hfd s) ?_
  · refine (List.Perm.trans (hperm.filterMap _) (.of_eq ?_)).symm
    rw [List.filterMap_cons, hbrought]
    rfl
  · rw [(hperm.map _).mem_iff, List.map_cons, List.mem_cons]
    refine ⟨.inr, fun hmem => hmem.resolve_left fun heq => hop ?_⟩
    rw [← heq]
    rfl

/-- The program leaves the completions and the descriptors of the sessions alone. -/
theorem descriptors_same (hcompletions : m'.completions = m.completions) (hconfig : m'.configuration = m.configuration)
    (hfd : ∀ s, (m'.session s).socketFd = (m.session s).socketFd) : (descriptors m').Perm (descriptors m) := by
  refine descriptors_perm hconfig (by rw [arrived, arrived, hcompletions]) fun s => connectionOf_eq (hfd s) ?_
  rw [hcompletions]

/-! ### Small steps -/

/-- A session of an operation that was not executed has its descriptor. -/
theorem Consistent.connectionOf_sqe (hc : Consistent m A) {sqe : Sqe} (hsqe : sqe ∈ m.sqes) {op : SlotOp}
    (hdata : sqe.userData = op.entry s) :
    s < m.configuration.sessionCount.toNat ∧ connectionOf m s = [sqe.fd] := by
  obtain ⟨hused, hclose⟩ := hc.held_of_sqe hsqe hdata
  have hs := hc.represents.lt_of_ne_free hused
  refine ⟨hs, ?_⟩
  have hfd : ¬ (m.session s).socketFd = -1 := fun h => hused ((hc.represents.free_iff s hs).1 h)
  have hopen : ¬ SlotOp.close.entry s ∈ m.completions.map (·.userData) := hclose
  rw [connectionOf, if_neg (not_or.2 ⟨hfd, hopen⟩), hc.sqe_fd sqe hsqe op s hdata]

/-- A submission is executed. -/
theorem Consistent.balances_exec (hc : Consistent m A) {sqe : Sqe} {res : Int} (hsqe : sqe ∈ m.sqes)
    (hconfig : m'.configuration = m.configuration) (hsessions : m'.sessions = m.sessions)
    (hcompletions : m'.completions.Perm (⟨sqe.userData, res⟩ :: m.completions)) :
    (descriptorLedger C i).Balances m [.exec sqe res] m' := by
  have hfd : ∀ t, (m'.session t).socketFd = (m.session t).socketFd := fun t => by rw [Instance.session, hsessions]; rfl
  have harrived : (arrived m').Perm ((Cqe.brought ⟨sqe.userData, res⟩).toList ++ arrived m) := by
    refine (hcompletions.filterMap _).trans (.of_eq ?_)
    rw [List.filterMap_cons, arrived]
    cases Cqe.brought ⟨sqe.userData, res⟩ <;> rfl
  have hclose : ∀ t, sqe.userData ≠ SlotOp.close.entry t → connectionOf m' t = connectionOf m t := by
    intro t hne
    refine connectionOf_eq (hfd t) ?_
    rw [(hcompletions.map _).mem_iff, List.map_cons, List.mem_cons]
    exact ⟨fun hmem => hmem.resolve_left fun heq => hne heq.symm, .inr⟩
  cases hc.made sqe hsqe with
  | accept hcode hop =>
    have hconnections : ∀ t, connectionOf m' t = connectionOf m t := by
      refine fun t => hclose t fun hdata => ?_
      rw [hdata] at hop
      cases hop
    by_cases hres : 0 ≤ res
    · rw [Cqe.brought, if_pos ⟨hop, hres⟩] at harrived
      refine .put_one (x := res) ?_ (by simp [descriptorLedger, Act.accepted?, hcode, hres])
        (by simp [descriptorLedger, Act.released?, hcode])
      show (descriptors m').Perm (res :: descriptors m)
      rw [descriptors, descriptors, hconfig, funext hconnections]
      exact harrived.append_right _
    · rw [Cqe.brought, if_neg fun h => hres h.2] at harrived
      exact .idle (descriptors_perm hconfig harrived hconnections)
        (by simp [descriptorLedger, Act.accepted?, hres]) (by simp [descriptorLedger, Act.released?, hcode])
  | session op t hdata hcode =>
    rw [Cqe.brought, if_neg fun h => op.operation_ne_accept (by rw [← h.1, hdata]; rfl)] at harrived
    have hput : [Act.exec sqe res].filterMap Act.accepted? = [] := by
      simp [Act.accepted?, hcode, op.opcode_ne_accept]
    by_cases hop : op = .close
    · subst hop
      obtain ⟨ht, hself⟩ := hc.connectionOf_sqe hsqe hdata
      have hexecuted : SlotOp.close.entry t ∈ m'.completions.map (·.userData) := by
        rw [(hcompletions.map _).mem_iff, ← hdata]
        exact List.mem_cons_self
      have hgone : connectionOf m' t = [] := by rw [connectionOf, if_pos (.inr hexecuted)]
      refine .take_one (x := sqe.fd) ?_ hput (by simp [descriptorLedger, Act.released?, hcode, SlotOp.opcode])
      refine descriptors_perm_cons hconfig harrived ht (by rw [hself, hgone]) fun u hu => ?_
      refine (hclose u fun heq => hu ?_).symm
      exact ((SlotOp.entry_inj (heq.symm.trans hdata)).2)
    · have hrelease : [Act.exec sqe res].filterMap (Act.released? i) = [] := by
        rcases op with (_ | _) | _ | _ <;> simp_all [Act.released?, SlotOp.opcode]
      refine .idle (descriptors_perm hconfig harrived fun u => hclose u fun heq => hop ?_) hput hrelease
      exact (SlotOp.entry_inj (hdata.symm.trans heq)).1

theorem Consistent.balances_kernel (hc : Consistent m A) {acts : List Act} {r : Ring}
    (h : Ring.KernelStep m.ring acts r) : (descriptorLedger C i).Balances m acts { m with ring := r } := by
  rcases operations_kernel h with ⟨sqe, res, rfl, hsqes, hcompletions⟩ | ⟨hnone, -, hcompletions⟩
  · exact hc.balances_exec (hsqes.mem_iff.2 List.mem_cons_self) rfl rfl hcompletions
  · refine .idle (descriptors_perm rfl (hcompletions.filterMap _) fun s => connectionOf_eq rfl ?_) ?_ ?_
    · exact (hcompletions.map _).mem_iff
    all_goals
      cases h with
      | exec => exact absurd List.mem_cons_self (hnone _ _)
      | _ => rfl

/-- Consuming the completion of an accept changes no session. -/
theorem connectionOf_acceptSeen {cqe : Cqe} {rest : List Cqe} (hcq : m.ring.cq = cqe :: rest)
    (hop : cqe.userData.operation = .accept) (hcompletions : m'.completions = m.cqeSeen.completions)
    (hfd : (m'.session s).socketFd = (m.session s).socketFd) : connectionOf m' s = connectionOf m s := by
  refine connectionOf_eq hfd ?_
  rw [hcompletions, ((completions_cqeSeen hcq).map _).mem_iff, List.map_cons, List.mem_cons]
  refine ⟨.inr, fun hmem => hmem.resolve_left fun heq => ?_⟩
  rw [← heq] at hop
  cases hop

/-- A connection that is registered becomes the one of its session. -/
theorem Consistent.descriptors_accepted (hc : Consistent m A) {cqe : Cqe} {rest : List Cqe}
    {stack : C.idxStack.Carrier} (hcq : m.ring.cq = cqe :: rest) (hop : cqe.userData.operation = .accept)
    (hres : 0 ≤ cqe.res) (hpop : C.idxStack.pop m.sessionFreeStack = some (s, stack)) :
    let m' := countDown (sessionPrepForNewClient { acceptDone m with sessionFreeStack := stack } s cqe.res)
    (descriptors m').Perm (descriptors m) := by
  intro m'
  obtain ⟨hs, hfree⟩ := (hc.represents.mem_stack s).1 (by
    rw [C.idxStack.contents_pop _ _ _ hpop]
    exact List.mem_cons_self)
  have harrived : (arrived m).Perm (cqe.res :: arrived m') := arrived_accept hcq hop hres rfl
  have hlen : s < ({ acceptDone m with sessionFreeStack := stack } : Instance C).sessions.length :=
    hc.wellFormed.sessions_length ▸ hs
  have hself : (m'.session s).socketFd = cqe.res :=
    congrArg Session.socketFd
      (Instance.session_modify_self (m := { acceptDone m with sessionFreeStack := stack }) hlen _)
  have hother : ∀ t ≠ s, (m'.session t).socketFd = (m.session t).socketFd := fun t ht =>
    congrArg Session.socketFd (Instance.session_modify_ne { acceptDone m with sessionFreeStack := stack } _ ht)
  have hnone : SlotOp.close.entry s ∉ m'.completions.map (·.userData) := by
    intro hmem
    have hcount := hc.represents.count .close s
    rw [hfree] at hcount
    refine List.count_eq_zero.1 hcount ?_
    rw [outstanding_eq, List.mem_append, ((completions_cqeSeen hcq).map _).mem_iff]
    exact .inr (List.mem_cons_of_mem _ hmem)
  have hbefore : connectionOf m s = [] := by
    rw [connectionOf, if_pos (.inl ((hc.represents.free_iff s hs).2 hfree))]
  have hafter : connectionOf m' s = [cqe.res] := by
    rw [connectionOf, hself, if_neg (not_or.2 ⟨by omega, hnone⟩)]
  have hconnections : ((List.range m.configuration.sessionCount.toNat).flatMap (connectionOf m')).Perm
      (cqe.res :: (List.range m.configuration.sessionCount.toNat).flatMap (connectionOf m)) :=
    Containers.flatMap_perm_cons List.nodup_range (List.mem_range.2 hs) (.of_eq (by rw [hbefore, hafter]))
      fun t ht => connectionOf_acceptSeen hcq hop rfl (hother t ht)
  show (arrived m' ++ (List.range m.configuration.sessionCount.toNat).flatMap (connectionOf m')).Perm (descriptors m)
  exact ((hconnections.append_left _).trans List.perm_middle).trans (harrived.symm.append_right _)

/-- The answer to a close frees a session whose descriptor is closed already. -/
theorem Consistent.descriptors_closed (hc : Consistent m A) {cqe : Cqe} {rest : List Cqe}
    {stack : C.idxStack.Carrier} (hcq : m.ring.cq = cqe :: rest) (hdata : cqe.userData = SlotOp.close.entry s) :
    (descriptors (countDown (closeDone m s stack))).Perm (descriptors m) := by
  have hseen := completions_cqeSeen hcq
  have hcompletions : (countDown (closeDone m s stack)).completions = m.cqeSeen.completions := by
    show (closeDone m s stack).completions = _
    simp [Instance.completions, Instance.cqeSeen]
  have hs : s < m.configuration.sessionCount.toNat := hc.indices.lt_of_cq hcq hdata
  obtain ⟨hself, hother⟩ := closeDone_session (hc.wellFormed.sessions_length ▸ hs) stack
  have harrived : (arrived m).Perm (arrived (countDown (closeDone m s stack))) := by
    refine (hseen.filterMap _).trans (.of_eq ?_)
    have hbrought : cqe.brought = none := if_neg fun h => by
      rw [hdata] at h
      cases h.1
    rw [List.filterMap_cons, hbrought, arrived, hcompletions]
  refine descriptors_perm (closeDone_configuration m s stack) harrived.symm fun t => ?_
  by_cases ht : t = s
  · subst ht
    have hfd : ((countDown (closeDone m t stack)).session t).socketFd = -1 := congrArg Session.socketFd hself
    have hexecuted : SlotOp.close.entry t ∈ m.completions.map (·.userData) := by
      rw [(hseen.map _).mem_iff, ← hdata]
      exact List.mem_cons_self
    rw [connectionOf, connectionOf, if_pos (.inl hfd), if_pos (.inr hexecuted)]
  · refine connectionOf_eq (congrArg Session.socketFd (hother t ht)) ?_
    rw [hcompletions, (hseen.map _).mem_iff, List.map_cons, List.mem_cons]
    exact ⟨.inr, fun hmem => hmem.resolve_left fun heq => ht (SlotOp.entry_inj (heq.trans hdata)).2⟩

/-- A detach hands over the descriptor of its session. -/
theorem Consistent.descriptors_detached (hc : Consistent m A) {stack : C.idxStack.Carrier}
    (hvalid : validateArgs m s SlotOp.close.incompatible = none) :
    (descriptors m).Perm ((m.session s).socketFd :: descriptors (detachDone m s stack)) := by
  obtain ⟨hused, hclose⟩ := hc.held_of_validateArgs hvalid
  have hs := hc.represents.lt_of_ne_free hused
  obtain ⟨hself, hother⟩ := detachDone_session (hc.wellFormed.sessions_length ▸ hs) stack
  have hcompletions : (detachDone m s stack).completions = m.completions := by simp [Instance.completions]
  have hfd : ¬ (m.session s).socketFd = -1 := fun h => hused ((hc.represents.free_iff s hs).1 h)
  have hopen : ¬ SlotOp.close.entry s ∈ m.completions.map (·.userData) := hclose
  have hgone : connectionOf (detachDone m s stack) s = [] := by
    rw [connectionOf, if_pos (.inl (congrArg Session.socketFd hself))]
  refine descriptors_perm_cons (detachDone_configuration m s stack) (by rw [arrived, arrived, hcompletions]) hs ?_ ?_
  · rw [hgone, connectionOf, if_neg (not_or.2 ⟨hfd, hopen⟩)]
  · intro t ht
    exact (connectionOf_eq (congrArg Session.socketFd (hother t ht)) (by rw [hcompletions])).symm

theorem Act.released?_epollDel (hi : ∀ s delErr, i ≠ .detach s delErr) (epfd fd : Int) (err : Option Int) :
    Act.released? i (.epollDel epfd fd err) = none := by
  cases i with
  | detach s delErr => exact absurd rfl (hi s delErr)
  | _ => cases err <;> rfl

/-- A small step of the call `i`. -/
theorem Consistent.balances (hc : Consistent m A) (hcount : AcceptsCounted m) (hk : i.allows k)
    (hwhole : k ≠ .detachEnoent) (h : SmallStep m k obs m') :
    (descriptorLedger C i).Balances m (obs.filterMap Obs.act?) m' := by
  have hnone : ∀ {cqe : Cqe}, cqe.res < 0 → cqe.brought = none := fun hres => if_neg fun h => by omega
  have hsame : ∀ {m' : Instance C}, m'.completions = m.completions → m'.configuration = m.configuration →
      (∀ s, (m'.session s).socketFd = (m.session s).socketFd) → (descriptors m').Perm (descriptors m) :=
    fun h h' h'' => descriptors_same h h' h''
  cases h with
  | kernel h =>
    rename_i acts r
    have hacts : (acts.map Obs.act).filterMap Obs.act? = acts := by
      simp [List.filterMap_map, Function.comp_def, Obs.act?]
    rw [hacts]
    exact hc.balances_kernel h
  | request => exact .idle (hsame rfl rfl fun t => setStateBits_socketFd _ _ t _) rfl rfl
  | pop h => exact .idle (hsame (completions_pop h) rfl fun _ => rfl) rfl rfl
  | @acceptAgain cqe _ hcq hop hres =>
    exact .idle (descriptors_seen (completions_cqeSeen hcq) (hnone (by rw [hres]; decide)) (by rw [hop]; decide) rfl
      fun _ => rfl) rfl rfl
  | acceptFailed hcq hop hres =>
    exact .idle (descriptors_seen (completions_cqeSeen hcq) (hnone hres) (by rw [hop]; decide) rfl fun _ => rfl) rfl rfl
  | acceptNoSlot hcq hop _ hpop => exact absurd hpop (hcount.pop_ne_none hcq hop)
  | @acceptRollback cqe _ _ _ _ _ hcq hop hres =>
    refine .take_one (x := cqe.res) ?_ rfl rfl
    have harrived : (arrived m).Perm (cqe.res :: arrived (acceptDone m)) := arrived_accept hcq hop hres rfl
    have hconnections : connectionOf (acceptDone m) = connectionOf m :=
      funext fun _ => connectionOf_acceptSeen hcq hop rfl rfl
    refine (harrived.append_right _).trans (.of_eq ?_)
    rw [← hconnections]
    rfl
  | accepted hcq hop hres hpop => exact .idle (hc.descriptors_accepted hcq hop hres hpop) rfl rfl
  | @transferred cqe rest s op hcq hdata hclose =>
    refine .idle (descriptors_seen (completions_cqeSeen hcq) (if_neg fun h => op.operation_ne_accept ?_) ?_ rfl ?_)
      rfl rfl
    · rw [← h.1, hdata]
      rfl
    · rw [hdata]
      rcases op with (_ | _) | _ | _ <;> simp_all [SlotOp.entry, SlotOp.operation]
    · exact fun t => clearStateBits_socketFd m.cqeSeen s t op.bits
  | closed hcq hdata => exact .idle (hc.descriptors_closed hcq hdata) rfl rfl
  | eventfd ha => rcases ha with rfl | rfl <;> exact .idle (hsame rfl rfl fun _ => rfl) rfl rfl
  | detached hvalid hpush =>
    cases i with
    | detach => exact .take_one (hc.descriptors_detached hvalid) rfl rfl
    | _ => simp [Input.allows, processKinds] at hk
  | detachUndone =>
    cases i with
    | detach => exact .idle (hsame rfl rfl fun _ => rfl) rfl rfl
    | _ => simp [Input.allows, processKinds] at hk
  | detachEnoent => exact absurd rfl hwhole
  | rdhup => exact .idle (hsame rfl rfl (by simp)) rfl rfl
  | look _ ha => rcases ha with rfl | ⟨err, rfl⟩ <;> exact .idle (hsame rfl rfl fun _ => rfl) rfl rfl
  | startUndone =>
    have hi : ∀ s delErr, i ≠ .detach s delErr := by rintro s delErr rfl; simp [Input.allows] at hk
    refine .idle (hsame rfl rfl fun _ => rfl) rfl (List.filterMap_eq_nil_iff.2 fun a ha => ?_)
    simp only [Obs.acts_act, List.filterMap_nil, List.mem_cons, List.not_mem_nil, or_false] at ha
    rcases ha with rfl | rfl | rfl | rfl
    · rfl
    · rfl
    · rfl
    · exact Act.released?_epollDel hi _ _ _
  | shutdown =>
    have hi : ∀ s delErr, i ≠ .detach s delErr := by rintro s delErr rfl; simp [Input.allows] at hk
    exact .idle (hsame rfl rfl fun _ => rfl) rfl (by simp [descriptorLedger, Act.released?_epollDel hi])
  | shutdownFailed =>
    have hi : ∀ s delErr, i ≠ .detach s delErr := by rintro s delErr rfl; simp [Input.allows] at hk
    exact .idle (hsame rfl rfl fun _ => rfl) rfl (by simp [descriptorLedger, Act.released?_epollDel hi])
  | _ => exact .idle (hsame rfl rfl fun _ => rfl) rfl rfl

/-! ### Runs -/

/-- One call. -/
theorem Consistent.balances_step (hc : Consistent m A) (hcount : AcceptsCounted m) (hok : DetachesWhole m i) :
    (descriptorLedger C i).Balances m (step m i).2.acts (step m i).1 := by
  obtain ⟨obs, hpath, hacts, -⟩ := calls_step_whole hc.wellFormed hok
  rw [← hacts]
  refine Ledger.Balances.of_path (fun x => (∃ A, Consistent x A) ∧ AcceptsCounted x) ?_ ?_ hpath ⟨⟨A, hc⟩, hcount⟩
  · rintro x k os x' hk hs ⟨⟨A, hx⟩, hcount⟩
    obtain ⟨A', hx', -⟩ := hx.smallStep hk.2 hs
    exact ⟨⟨A', hx'⟩, (hcount.acceptStep hx.wellFormed hs).counted⟩
  · rintro x k os x' hk hs ⟨⟨A, hx⟩, hcount⟩
    exact hx.balances hcount hk.1 hk.2 hs

theorem Execution.consistent {h : History} (he : Execution DetachesWhole h m) : ∃ A, Consistent m A := by
  obtain ⟨config, instanceId, eventfd, hvalid, -, -, hcalls⟩ :=
    he.calls_of (P := fun k => k ≠ .detachEnoent)
      fun _ _ hok hm => (calls_step_whole hm hok).mono fun _ hk => hk.2
  refine hcalls.invariant (fun x => ∃ A, Consistent x A) ?_ ?_
  · rintro x k os x' hk hs ⟨A, hx⟩
    obtain ⟨A', hx', -⟩ := hx.smallStep hk hs
    exact ⟨A', hx'⟩
  · obtain ⟨A, hnew, -⟩ := newInstance_agrees hvalid instanceId eventfd
    exact ⟨A, hnew⟩

/-- The descriptors that the accepts of a run returned. -/
def acceptedIn (h : History) : List Int := h.flatMap fun p => p.2.acts.filterMap Act.accepted?

/-- The descriptors that were closed or handed over in a run. -/
def releasedIn (h : History) : List Int := h.flatMap fun p => p.2.acts.filterMap (Act.released? p.1)

/-- In every run without a half-done detach, the descriptors that accepts returned are, each as often, those which a
close that the kernel executed, the rollback of a failed registration or a detach has released, and those which the
instance holds, in the completions of accepts and in the records of sessions whose close was not executed.  When no
session is active and nothing is outstanding, all of them were released. -/
theorem accepted_descriptors_are_released_once {h : History} (he : Execution DetachesWhole h m) :
    (acceptedIn h).Perm (releasedIn h ++ descriptors m) ∧
      (mconActiveSessionCount m = 0 → m.outstanding = [] → (acceptedIn h).Perm (releasedIn h)) := by
  have hall : (acceptedIn h).Perm (releasedIn h ++ descriptors m) := by
    obtain ⟨config, m₀, hcreated, hr⟩ := he
    induction hr with
    | nil =>
      obtain ⟨hvalid, instanceId, eventfd, -, rfl⟩ := created_eq hcreated
      have hnone : descriptors (newInstance C instanceId eventfd config) = [] := by
        simp [descriptors, connectionOf, arrived, newInstance_completions, newInstance_session, sessionInit]
      rw [hnone]
      exact .refl _
    | @snoc h x i hr hi ih =>
      have hx : Execution DetachesWhole h x := ⟨config, m₀, hcreated, hr⟩
      obtain ⟨A, hc⟩ := hx.consistent
      have hbalance := hc.balances_step hx.acceptsCounted hi
      simp only [acceptedIn, releasedIn, List.flatMap_append, List.flatMap_singleton, List.append_assoc]
      exact (ih.append_right _).trans (by rw [List.append_assoc]; exact hbalance.symm.append_left _)
  refine ⟨hall, fun hidle hnothing => ?_⟩
  obtain ⟨A, hc⟩ := he.consistent
  have hactive := hc.represents.activeSessionCount hc.wellFormed
  rw [hidle, eq_comm] at hactive
  have hempty : m.completions = [] := by
    rw [outstanding_eq, List.append_eq_nil_iff] at hnothing
    exact List.map_eq_nil_iff.1 hnothing.2
  have hfree : ∀ s ∈ List.range m.configuration.sessionCount.toNat, connectionOf m s = [] := by
    intro s hs
    have hfd : (m.session s).socketFd = -1 := by simpa using List.countP_eq_zero.1 hactive s hs
    rw [connectionOf, if_pos (.inl hfd)]
  have hnone : descriptors m = [] := by
    rw [descriptors, List.flatMap_eq_nil_iff.2 hfree, arrived, hempty]
    rfl
  rwa [hnone, List.append_nil] at hall

/-- A connection is closed while an accept finds no other. -/
theorem accepted_descriptors_are_released_once_closed :
    let is := startInput :: serverInput :: connectInputs 20 ++
      [.close 0, .submit 2, .kernel (.exec 0 0), .kernel (.exec 0 (-Errno.eagain)), .kernel (.post 0),
        .kernel (.post 0), ringInput]
    let h := history step (freshInstance (smallConfig 2 4 1)) is
    acceptedIn h = [20] ∧ (acceptedIn h).Perm (releasedIn h) := by
  intro is h
  have hrun : Execution DetachesWhole h _ := Execution.of_inputs (smallConfig 2 4 1) (by decide) is
    (.of_forall (fun i hi m => NoEnoent.detachesWhole (by
      revert i
      simp [NoEnoent, is, startInput, serverInput, connectInputs, completeInputs, ringInput])) _)
  exact ⟨by decide, (accepted_descriptors_are_released_once hrun).2 (by decide) (by decide)⟩

end Mcon
