import Mcon.Indices

/-!
# The payloads of an instance

Every payload an instance registers is built of an entry whose fields fit their bits, and carries the identity of
the instance.  Identities come from a 16-bit counter that skips zero, so instances created close to each other do
not take each other's events.
-/

namespace Mcon

open Transition (Run Path AllOk history finalState)

variable {C : Ctools} {m m' : Instance C} {k : StepKind} {obs : List Obs}

/-! ### What is registered -/

/-- The entries of the payloads which an instance with `n` sessions builds: two in `mcon_start` and one for every
connection in `_process_accept`. -/
inductive BuiltEntry (instanceId : UInt16) (n : Nat) : EpollEntry → Prop
  | serverSocket : BuiltEntry instanceId n
      ⟨instanceId, 0, epollSourceServerSocket, UInt32.ofNat mconNoSession, 0⟩
  | ioUring : BuiltEntry instanceId n ⟨instanceId, 0, epollSourceIoUring, UInt32.ofNat mconNoSession, 0⟩
  | session (generation : UInt8) {s : Nat} : s < n →
      BuiltEntry instanceId n ⟨instanceId, generation, epollSourceSession, UInt32.ofNat s, 0⟩

namespace BuiltEntry

variable {instanceId : UInt16} {n : Nat} {entry : EpollEntry}

theorem instanceId_eq (h : BuiltEntry instanceId n entry) : entry.instanceId = instanceId := by
  cases h <;> rfl

theorem isValidSource (h : BuiltEntry instanceId n entry) : mconIsValidSource entry.source = true := by
  cases h with
  | serverSocket => exact (by decide : mconIsValidSource epollSourceServerSocket = true)
  | ioUring => exact (by decide : mconIsValidSource epollSourceIoUring = true)
  | session => exact (by decide : mconIsValidSource epollSourceSession = true)

theorem inRange (h : BuiltEntry instanceId n entry) (hn : n < 2 ^ 20) : entry.InRange := by
  have hnone : (UInt32.ofNat mconNoSession).toNat < 2 ^ 20 := by decide
  cases h with
  | serverSocket => exact ⟨(by decide : epollSourceServerSocket.toNat < 2 ^ 4), hnone⟩
  | ioUring => exact ⟨(by decide : epollSourceIoUring.toNat < 2 ^ 4), hnone⟩
  | @session generation s hs =>
    have hnat : (UInt32.ofNat s).toNat = s := UInt32.toNat_ofNat_of_lt' (by unfold UInt32.size; omega)
    have hlt : (UInt32.ofNat s).toNat < 2 ^ 20 := by omega
    exact ⟨(by decide : epollSourceSession.toNat < 2 ^ 4), hlt⟩

/-- The payload of a session names a session of the table, which `MCON_NO_SESSION` is not. -/
theorem session_lt (h : BuiltEntry instanceId n entry) (hn : n < 2 ^ 20) (hsource : entry.source = epollSourceSession) :
    entry.session.toNat < n ∧ entry.session.toNat ≠ mconNoSession := by
  cases h with
  | serverSocket => exact absurd hsource (by decide : epollSourceServerSocket ≠ epollSourceSession)
  | ioUring => exact absurd hsource (by decide : epollSourceIoUring ≠ epollSourceSession)
  | @session generation s hs =>
    have hnat : (UInt32.ofNat s).toNat = s := UInt32.toNat_ofNat_of_lt' (by unfold UInt32.size; omega)
    have hno : mconNoSession = 2 ^ 20 - 1 := rfl
    constructor
    · exact hnat.trans_lt hs
    · rw [hno]
      show (UInt32.ofNat s).toNat ≠ 2 ^ 20 - 1
      omega

end BuiltEntry

/-- A registration is one of a payload built of such an entry. -/
def Obs.Registers (instanceId : UInt16) (n : Nat) : Obs → Prop
  | act (.epollAdd _ _ data _ _) => ∃ entry, BuiltEntry instanceId n entry ∧ data = mconEncodeEpollEntry entry
  | _ => True

theorem ValidIndices.registers (hv : ValidIndices m) (h : SmallStep m k obs m') :
    ∀ o ∈ obs, o.Registers m.instanceId m.configuration.sessionCount.toNat := by
  have hserver : ∃ entry, BuiltEntry m.instanceId m.configuration.sessionCount.toNat entry ∧
      instancePayload m epollSourceServerSocket = mconEncodeEpollEntry entry := ⟨_, .serverSocket, rfl⟩
  have hring : ∃ entry, BuiltEntry m.instanceId m.configuration.sessionCount.toNat entry ∧
      instancePayload m epollSourceIoUring = mconEncodeEpollEntry entry := ⟨_, .ioUring, rfl⟩
  have hclient : ∀ s < m.configuration.sessionCount.toNat, ∃ entry,
      BuiltEntry m.instanceId m.configuration.sessionCount.toNat entry ∧
        clientPayload m s = mconEncodeEpollEntry entry := fun s hs => ⟨_, .session _ hs, rfl⟩
  cases h with
  | kernel hstep => cases hstep <;> simp [Obs.Registers]
  | acceptRollback _ _ _ hpop => simpa [Obs.Registers] using hclient _ (hv.lt_of_pop hpop)
  | accepted _ _ _ hpop => simpa [Obs.Registers] using hclient _ (hv.lt_of_pop hpop)
  | started => simpa [Obs.Registers] using ⟨hserver, hring⟩
  | startFailed => simpa [Obs.Registers] using hserver
  | startUndone => simpa [Obs.Registers] using ⟨hserver, hring⟩
  | look _ hact => rcases hact with rfl | ⟨err, rfl⟩ <;> simp [Obs.Registers]
  | eventfd hact => rcases hact with rfl | rfl <;> simp [Obs.Registers]
  | _ => simp [Obs.Registers]

/-- Every payload registered in a run of a new instance. -/
theorem Execution.registers {ok : Instance C → Input → Prop} {h : History} (he : Execution ok h m) {epfd fd : Int}
    {data : UInt64} {events : UInt32} {err : Option Int} (hadd : Act.epollAdd epfd fd data events err ∈ actsOf h) :
    ∃ entry, BuiltEntry m.instanceId m.configuration.sessionCount.toNat entry ∧ data = mconEncodeEpollEntry entry := by
  obtain ⟨config, instanceId, eventfd, hvalid, -, -, obs, hpath, hacts, -⟩ :=
    he.calls (P := fun _ => True) (fun _ _ _ _ _ => trivial)
  have hm : m.instanceId = instanceId ∧ m.configuration = config :=
    hpath.invariant (fun x => x.instanceId = instanceId ∧ x.configuration = config)
      (fun _ _ _ _ _ hs hx => ⟨hs.frame.instanceId.trans hx.1, hs.frame.configuration.trans hx.2⟩) ⟨rfl, rfl⟩
  have hall := hpath.forall_mem
    (fun x => ValidIndices x ∧ x.instanceId = instanceId ∧ x.configuration = config)
    (Obs.Registers instanceId config.sessionCount.toNat) ?_ ⟨newInstance_validIndices _ _ _, rfl, rfl⟩
  · rw [hm.1, hm.2]
    exact hall _ ((Obs.mem_acts_iff hacts).1 hadd)
  · rintro x k os x' - hs ⟨hv, hid, hconfig⟩
    have hregisters := hv.registers hs
    rw [hid, hconfig] at hregisters
    exact ⟨⟨hv.smallStep hs, hs.frame.instanceId.trans hid, hs.frame.configuration.trans hconfig⟩, hregisters⟩

/-- The payload format is a bijection on its range, and every payload built in any run is in that range; the payload
of a session does not carry `MCON_NO_SESSION`. -/
theorem epoll_payload_bijective {h : History} (he : Execution anyInput h m) :
    (∀ entry : EpollEntry, entry.InRange → mconDecodeEpollEntry (mconEncodeEpollEntry entry) = entry) ∧
      (∀ data, mconEncodeEpollEntry (mconDecodeEpollEntry data) = data) ∧
      ∀ epfd fd data events err, Act.epollAdd epfd fd data events err ∈ actsOf h →
        ∃ entry, BuiltEntry m.instanceId m.configuration.sessionCount.toNat entry ∧
          data = mconEncodeEpollEntry entry ∧ entry.InRange ∧
          (entry.source = epollSourceSession → entry.session.toNat < m.configuration.sessionCount.toNat ∧
            entry.session.toNat ≠ mconNoSession) := by
  have hn := (mconConfigValidate_spec he.wellFormed.valid).sessionCount_lt
  refine ⟨fun _ => mconDecodeEpollEntry_encode, mconEncodeEpollEntry_decode, ?_⟩
  intro epfd fd data events err hadd
  obtain ⟨entry, hbuilt, hdata⟩ := he.registers hadd
  exact ⟨entry, hbuilt, hdata, hbuilt.inRange hn, hbuilt.session_lt hn⟩

/-- The payload registered for the first connection. -/
theorem epoll_payload_bijective_connected :
    ∃ entry, BuiltEntry 1 2 entry ∧ 0x1003000000000 = mconEncodeEpollEntry entry ∧ entry.InRange ∧
      (entry.source = epollSourceSession → entry.session.toNat < 2 ∧ entry.session.toNat ≠ mconNoSession) := by
  have hrun : Execution anyInput _ _ := Execution.of_inputs (smallConfig 2 4 1) (by decide)
    (startInput :: serverInput :: connectInputs 20) (.of_forall (fun _ _ _ => trivial) _)
  exact (epoll_payload_bijective hrun).2.2 6 20 0x1003000000000 0x2019 none (by decide)

/-! ### Identities -/

/-- The initial value of `instance_id_counter`. -/
def instanceIdCounter : UInt16 := 1

/-- The instances created, in order, by calls of `mcon_create` one after another that share the counter. -/
def createdInstances (C : Ctools) : UInt16 → List (Config × CreateEnv) → List (Instance C)
  | _, [] => []
  | counter, (config, env) :: calls =>
    match mconCreate C counter config env with
    | (.error _, counter') => createdInstances C counter' calls
    | (.ok m, counter') => m :: createdInstances C counter' calls

/-- The counter after `n` creations: the next identity, or `0` when it has just wrapped around. -/
def CounterAt (n : Nat) (counter : UInt16) : Prop :=
  counter.toNat = n % 65535 + 1 ∨ counter = 0 ∧ n % 65535 = 0

theorem CounterAt.draw {n : Nat} {counter : UInt16} (h : CounterAt n counter) :
    (drawInstanceId counter).1.toNat = n % 65535 + 1 ∧ CounterAt (n + 1) (drawInstanceId counter).2 := by
  have hlt := counter.toNat_lt
  unfold drawInstanceId
  by_cases hzero : counter = 0
  · subst hzero
    have hn : n % 65535 = 0 := by
      rcases h with h | ⟨-, h⟩
      · rw [UInt16.toNat_zero] at h
        omega
      · exact h
    have hnext : (n + 1) % 65535 = 1 := by omega
    rw [if_pos rfl]
    exact ⟨by rw [hn]; rfl, .inl (by rw [hnext]; rfl)⟩
  · have hn : counter.toNat = n % 65535 + 1 := h.resolve_right fun h => hzero h.1
    rw [if_neg hzero]
    refine ⟨hn, ?_⟩
    unfold CounterAt
    rw [← UInt16.toNat_inj, UInt16.toNat_add, UInt16.toNat_one, UInt16.toNat_zero, hn]
    omega

/-- A creation that fails draws no identity. -/
theorem mconCreate_cases (counter : UInt16) (config : Config) (env : CreateEnv) :
    (∃ err, mconCreate C counter config env = (.error err, counter)) ∨
      mconCreate C counter config env =
        (.ok (newInstance C (drawInstanceId counter).1 env.eventfd config), (drawInstanceId counter).2) := by
  unfold mconCreate
  repeat' (split; · exact .inl ⟨_, rfl⟩)
  exact .inr rfl

/-- The identities of the instances in the order of their creation. -/
theorem createdInstances_id {n : Nat} {counter : UInt16} (hcounter : CounterAt n counter)
    (calls : List (Config × CreateEnv)) {j : Nat} {a : Instance C}
    (ha : (createdInstances C counter calls)[j]? = some a) :
    a.instanceId.toNat = (n + j) % 65535 + 1 ∧ ∃ config, Created config a := by
  induction calls generalizing n counter j with
  | nil => simp [createdInstances] at ha
  | cons call calls ih =>
    obtain ⟨config, env⟩ := call
    rcases mconCreate_cases (C := C) counter config env with ⟨err, hcreate⟩ | hcreate
    · have hrest : createdInstances C counter ((config, env) :: calls) = createdInstances C counter calls := by
        simp [createdInstances, hcreate]
      rw [hrest] at ha
      exact ih hcounter ha
    · obtain ⟨hid, hcounter'⟩ := hcounter.draw
      have hrest : createdInstances C counter ((config, env) :: calls) =
          newInstance C (drawInstanceId counter).1 env.eventfd config ::
            createdInstances C (drawInstanceId counter).2 calls := by
        simp [createdInstances, hcreate]
      rw [hrest] at ha
      cases j with
      | zero =>
        rw [List.getElem?_cons_zero, Option.some.injEq] at ha
        subst ha
        exact ⟨hid, config, counter, env, by rw [hcreate]⟩
      | succ j =>
        rw [List.getElem?_cons_succ] at ha
        have := ih hcounter' ha
        rw [show n + 1 + j = n + (j + 1) by omega] at this
        exact this

/-- The ownership test looks at the identity and the source of the entry. -/
theorem mconOwnsEvent_encode {entry : EpollEntry} (h : entry.InRange) (m : Instance C) :
    mconOwnsEvent m (mconEncodeEpollEntry entry) = true ↔
      entry.instanceId = m.instanceId ∧ mconIsValidSource entry.source = true := by
  rw [mconOwnsEvent, mconDecodeEpollEntry_encode h, Bool.and_eq_true, beq_iff_eq]

section Created

variable {calls : List (Config × CreateEnv)}

theorem instanceId_toNat {j : Nat} {a : Instance C} (ha : (createdInstances C instanceIdCounter calls)[j]? = some a) :
    a.instanceId.toNat = j % 65535 + 1 := by
  have hid := (createdInstances_id (n := 0) (.inl rfl) calls ha).1
  rwa [Nat.zero_add] at hid

/-- The counter comes back to an identity after 65535 creations. -/
theorem instanceId_ne {i j : Nat} {a b : Instance C} (ha : (createdInstances C instanceIdCounter calls)[i]? = some a)
    (hb : (createdInstances C instanceIdCounter calls)[j]? = some b) (hne : j ≠ i) (hj : j < i + 65535)
    (hi : i < j + 65535) : a.instanceId ≠ b.instanceId := by
  intro heq
  have hnat := congrArg UInt16.toNat heq
  rw [instanceId_toNat ha, instanceId_toNat hb] at hnat
  omega

theorem instanceId_ne_zero {a : Instance C} (ha : a ∈ createdInstances C instanceIdCounter calls) :
    a.instanceId ≠ 0 := by
  intro hzero
  obtain ⟨j, hj⟩ := List.mem_iff_getElem?.1 ha
  have hnat := instanceId_toNat hj
  rw [hzero, UInt16.toNat_zero] at hnat
  omega

/-- An instance keeps its identity along a run. -/
theorem run_of_created {j : Nat} {a m : Instance C} {h : History}
    (ha : (createdInstances C instanceIdCounter calls)[j]? = some a) (hr : Run step anyInput a h m) :
    Execution anyInput h m ∧ m.instanceId = a.instanceId := by
  obtain ⟨-, config, hcreated⟩ := createdInstances_id (n := 0) (.inl rfl) calls ha
  refine ⟨⟨config, a, hcreated, hr⟩, ?_⟩
  obtain ⟨hvalid, instanceId, eventfd, -, rfl⟩ := created_eq hcreated
  exact (Run.frame (newInstance_wellFormed hvalid instanceId eventfd) hr).instanceId

end Created

/-- Instances that share an epoll instance do not take each other's events: identities are not zero and differ
between instances created close to each other, and a registered payload is owned by the instance that registered it
and by none created close to it; without an identity a payload is owned by none. -/
theorem instances_own_their_events (calls : List (Config × CreateEnv)) :
    (∀ a ∈ createdInstances C instanceIdCounter calls, a.instanceId ≠ 0) ∧
      (∀ (i j : Nat) (a b : Instance C), (createdInstances C instanceIdCounter calls)[i]? = some a →
        (createdInstances C instanceIdCounter calls)[j]? = some b → i < j → j < i + 65535 →
          a.instanceId ≠ b.instanceId) ∧
      (∀ (i : Nat) (a : Instance C), (createdInstances C instanceIdCounter calls)[i]? = some a →
        ∀ h m, Run step anyInput a h m → ∀ epfd fd data events err, Act.epollAdd epfd fd data events err ∈ actsOf h →
          mconOwnsEvent m data = true ∧
            ∀ (j : Nat) (b : Instance C), (createdInstances C instanceIdCounter calls)[j]? = some b → j ≠ i →
              j < i + 65535 → i < j + 65535 → ∀ h' m', Run step anyInput b h' m' → mconOwnsEvent m' data = false) ∧
      ∀ data : UInt64, data >>> 48 = 0 → ∀ a ∈ createdInstances C instanceIdCounter calls,
        ∀ h m, Run step anyInput a h m → mconOwnsEvent m data = false := by
  refine ⟨fun a ha => instanceId_ne_zero ha, ?_, ?_, ?_⟩
  · intro i j a b ha hb hlt hj
    exact instanceId_ne ha hb (by omega) hj (by omega)
  · intro i a ha h m hr epfd fd data events err hadd
    obtain ⟨he, hm⟩ := run_of_created ha hr
    obtain ⟨entry, hbuilt, rfl⟩ := he.registers hadd
    have hrange := hbuilt.inRange (mconConfigValidate_spec he.wellFormed.valid).sessionCount_lt
    refine ⟨(mconOwnsEvent_encode hrange m).2 ⟨hbuilt.instanceId_eq, hbuilt.isValidSource⟩, ?_⟩
    intro j b hb hji hj hi h' m' hr'
    by_contra howns
    have hentry := ((mconOwnsEvent_encode hrange m').1 (by simpa using howns)).1
    rw [hbuilt.instanceId_eq, hm, (run_of_created hb hr').2] at hentry
    exact instanceId_ne ha hb hji hj hi hentry
  · intro data hdata a ha h m hr
    obtain ⟨j, hj⟩ := List.mem_iff_getElem?.1 ha
    by_contra howns
    simp only [Bool.not_eq_false, mconOwnsEvent, Bool.and_eq_true, beq_iff_eq] at howns
    have hentry : (mconDecodeEpollEntry data).instanceId = 0 := by
      rw [mconDecodeEpollEntry, hdata]
      rfl
    rw [hentry, (run_of_created hj hr).2] at howns
    exact instanceId_ne_zero ha howns.1.symm

end Mcon
