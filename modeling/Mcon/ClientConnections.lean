import Mcon.Client
import Mcon.Library.Holdings

/-!
# The connections of the example client

Over whole runs of the client the descriptors that are open are those in its array, up to the number of connections,
and those whose `connect` failed, which are never closed.  Each connection in the array goes from the source address of
its place.
-/

namespace Mcon

open Libc Holdings

variable {order : ByteOrder} {args : CliConfig} {acts acts' : List ClientAct} {fds fds' : List Nat}

/-! ### The descriptors -/

/-- What an action acquires or releases. -/
def ClientAct.move? : ClientAct → Option (Move Nat)
  | socket (some fd) => some (.acquire fd)
  | close fd => some (.release fd)
  | _ => none

def clientMoves (acts : List ClientAct) : List (Move Nat) := acts.filterMap ClientAct.move?

/-- The descriptors whose `connect` failed. -/
def failedConnects (acts : List ClientAct) : List Nat :=
  acts.filterMap fun
    | .connect fd _ _ false => some fd
    | _ => none

/-- The descriptor `fd` was opened, bound to the source address and connected, and was not closed since. -/
def ConnectedFrom (acts : List ClientAct) (fd : Nat) (source address : InAddr) (port : UInt16) : Prop :=
  ∃ before later, acts = before ++ [.socket (some fd), .bind fd source true, .connect fd address port true] ++ later ∧
    .close fd ∉ later

/-- The descriptors `fds` are those of the connections after some actions. -/
structure Owns (order : ByteOrder) (args : CliConfig) (acts : List ClientAct) (fds : List Nat) : Prop where
  held : after 0 (clientMoves acts) = some ((fds : Multiset Nat) + (failedConnects acts : List Nat))
  connected : Fresh 0 (clientMoves acts) → ∀ i fd, fds[i]? = some fd →
    ∃ source, getSourceAddress order (UInt32.ofNat i) args.sourceRange = .ok source ∧
      ConnectedFrom acts fd source args.host args.port

theorem clientMoves_append (acts acts' : List ClientAct) :
    clientMoves (acts ++ acts') = clientMoves acts ++ clientMoves acts' := List.filterMap_append ..

theorem failedConnects_append (acts acts' : List ClientAct) :
    failedConnects (acts ++ acts') = failedConnects acts ++ failedConnects acts' := List.filterMap_append ..

theorem release_mem_clientMoves {fd : Nat} (h : .close fd ∈ acts) : .release fd ∈ clientMoves acts :=
  List.mem_filterMap.2 ⟨.close fd, h, rfl⟩

theorem Owns.nil (order : ByteOrder) (args : CliConfig) : Owns order args [] [] where
  held := rfl
  connected _ i fd h := by simp at h

theorem ConnectedFrom.append {fd : Nat} {source address : InAddr} {port : UInt16}
    (h : ConnectedFrom acts fd source address port) (hopen : .close fd ∉ acts') :
    ConnectedFrom (acts ++ acts') fd source address port := by
  obtain ⟨before, later, rfl, hlater⟩ := h
  refine ⟨before, later ++ acts', by rw [List.append_assoc], ?_⟩
  rw [List.mem_append, not_or]
  exact ⟨hlater, hopen⟩

/-- Actions that by themselves leave only failed connections open change nothing about those there are. -/
theorem Owns.append (h : Owns order args acts fds)
    (hheld : after 0 (clientMoves acts') = some (failedConnects acts' : Multiset Nat)) :
    Owns order args (acts ++ acts') fds where
  held := by
    have hframe := after_frame hheld ((fds : Multiset Nat) + (failedConnects acts : List Nat))
    rw [Multiset.zero_add] at hframe
    rw [clientMoves_append, after_trans h.held hframe, failedConnects_append, ← Multiset.coe_add, Multiset.add_comm,
      Multiset.add_assoc]
  connected hfresh i fd hfd := by
    rw [clientMoves_append, fresh_append h.held] at hfresh
    obtain ⟨source, hsource, hconnected⟩ := h.connected hfresh.1 i fd hfd
    refine ⟨source, hsource, hconnected.append fun hclose => ?_⟩
    have hmem : fd ∈ (fds : Multiset Nat) + (failedConnects acts : List Nat) :=
      Multiset.mem_add.2 (.inl (List.mem_of_getElem? hfd))
    have hown := hfresh.2
    rw [← Multiset.zero_add (_ + _)] at hown
    exact release_notMem hheld hown hmem (Multiset.notMem_zero fd) (release_mem_clientMoves hclose)

/-! ### Opening and closing -/

/-- Of a connection that is not made only a failed `connect` can leave the descriptor open. -/
theorem connectToServer_none {env : ConnectEnv} {address : InAddr} {port : UInt16} {sourceAddress : Option InAddr}
    (h : (connectToServer env address port sourceAddress).1 = none) :
    let acts := (connectToServer env address port sourceAddress).2
    after 0 (clientMoves acts) = some (failedConnects acts : Multiset Nat) := by
  obtain ⟨socket, bind, connect⟩ := env
  cases socket with
  | none => rfl
  | some clientFd =>
    cases connect <;> cases sourceAddress <;> cases bind <;>
      simp_all [connectToServer, clientMoves, failedConnects, List.filterMap_cons, ClientAct.move?]

theorem connectToServer_some {env : ConnectEnv} {address : InAddr} {port : UInt16} {source : InAddr} {fd : Nat}
    (h : (connectToServer env address port (some source)).1 = some fd) :
    (connectToServer env address port (some source)).2 =
      [.socket (some fd), .bind fd source true, .connect fd address port true] := by
  obtain ⟨socket, bind, connect⟩ := env
  cases socket with
  | none => cases h
  | some clientFd =>
    cases connect <;> cases bind <;> simp_all [connectToServer]

/-- The server is pinged through a connection of its own. -/
theorem pingServer_held (env : ConnectEnv) (args : CliConfig) :
    after 0 (clientMoves (pingServer env args).2) = some (failedConnects (pingServer env args).2 : Multiset Nat) := by
  obtain ⟨socket, bind, connect⟩ := env
  cases socket with
  | none => rfl
  | some clientFd =>
    cases connect <;>
      simp [pingServer, connectToServer, clientMoves, failedConnects, List.filterMap_cons, ClientAct.move?]

theorem coe_concat (fds : List Nat) (fd : Nat) :
    ((fds ++ [fd] : List Nat) : Multiset Nat) = fd ::ₘ (fds : Multiset Nat) :=
  Multiset.coe_eq_coe.2 (List.perm_append_singleton fd fds)

/-- A new connection goes to the end of the array. -/
theorem Owns.connect (h : Owns order args acts fds) {source : InAddr} (fd : Nat)
    (hsource : getSourceAddress order (UInt32.ofNat fds.length) args.sourceRange = .ok source) :
    Owns order args
      (acts ++ [.socket (some fd), .bind fd source true, .connect fd args.host args.port true]) (fds ++ [fd]) where
  held := by
    have hfailed : failedConnects (acts ++ [.socket (some fd), .bind fd source true,
        .connect fd args.host args.port true]) = failedConnects acts := by
      simp [failedConnects]
    rw [clientMoves_append, hfailed, coe_concat, Multiset.cons_add]
    exact after_trans h.held (after_acquire _ fd [])
  connected hfresh i fd' hfd := by
    rw [clientMoves_append, fresh_append h.held] at hfresh
    rcases Nat.lt_trichotomy i fds.length with hlt | rfl | hgt
    · rw [List.getElem?_append_left hlt] at hfd
      obtain ⟨source', hsource', hconnected⟩ := h.connected hfresh.1 i fd' hfd
      exact ⟨source', hsource', hconnected.append (by simp)⟩
    · obtain rfl : fd = fd' := by simpa using hfd
      exact ⟨source, hsource, acts, [], (List.append_nil _).symm, List.not_mem_nil⟩
    · have hnone : (fds ++ [fd])[i]? = none := List.getElem?_eq_none (by simp; omega)
      cases hnone.symm.trans hfd

/-- The last connection is closed. -/
theorem Owns.close {fd : Nat} (h : Owns order args acts (fds ++ [fd])) :
    Owns order args (acts ++ [.shutdown fd, .close fd]) fds where
  held := by
    have hheld := h.held
    have hfailed : failedConnects (acts ++ [.shutdown fd, .close fd]) = failedConnects acts := by
      simp [failedConnects]
    rw [coe_concat, Multiset.cons_add] at hheld
    rw [clientMoves_append, hfailed]
    exact after_trans hheld (after_release _ fd [])
  connected hfresh i fd' hfd := by
    rw [clientMoves_append, fresh_append h.held] at hfresh
    have hlt : i < fds.length := (List.getElem?_eq_some_iff.1 hfd).1
    obtain ⟨source, hsource, hconnected⟩ :=
      h.connected hfresh.1 i fd' (by rw [List.getElem?_append_left hlt, hfd])
    refine ⟨source, hsource, hconnected.append ?_⟩
    -- the descriptors that are open differ from each other
    have hnodup := nodup_after Multiset.nodup_zero hfresh.1 h.held
    have hfds : (fds ++ [fd]).Nodup := (Multiset.nodup_add.1 hnodup).1
    have hne : fd' ≠ fd := by
      rintro rfl
      exact List.disjoint_of_nodup_append hfds (List.mem_of_getElem? hfd) (List.mem_singleton_self fd')
    simp [hne]

/-- Nothing is opened, nor closed. -/
theorem Owns.quiet (h : Owns order args acts fds) (hmoves : clientMoves acts' = [])
    (hfailed : failedConnects acts' = []) : Owns order args (acts ++ acts') fds :=
  h.append (by rw [hmoves, hfailed]; rfl)

/-! ### The array -/

/-- The descriptors are stored at the front of the array. -/
def Stores (connections : Connections) (fds : List Nat) : Prop := connections.take fds.length = fds.map some

variable {connections : Connections}

theorem Stores.length_le (h : Stores connections fds) : fds.length ≤ connections.length := by
  have hlen := congrArg List.length h
  rw [List.length_take, List.length_map] at hlen
  omega

theorem Stores.of_append (h : Stores connections (fds ++ fds')) : Stores connections fds := by
  have htake := congrArg (List.take fds.length) h
  rw [List.take_take, List.length_append, Nat.min_eq_left (Nat.le_add_right ..), List.map_append,
    List.take_left' (List.length_map _)] at htake
  exact htake

theorem Stores.getElem? (h : Stores connections fds) {i fd : Nat} (hfd : fds[i]? = some fd) :
    connections[i]? = some (some fd) := by
  have hlt : i < fds.length := (List.getElem?_eq_some_iff.1 hfd).1
  rw [← List.getElem?_take_of_lt hlt, h, List.getElem?_map, hfd]
  rfl

theorem Stores.read (h : Stores connections fds) {i fd : Nat} (hfd : fds[i]? = some fd) :
    readClientFd connections i = .ok fd := by
  rw [readClientFd, h.getElem? hfd]

theorem Stores.write (h : Stores connections fds) (hroom : fds.length < connections.length) (fd : Nat) :
    ∃ connections', writeClientFd connections fds.length fd = .ok connections' ∧
      connections'.length = connections.length ∧ Stores connections' (fds ++ [fd]) := by
  refine ⟨connections.set fds.length (some fd), if_pos hroom, List.length_set .., ?_⟩
  rw [Stores, List.length_append, List.length_singleton, List.take_add_one, List.getElem?_set_self hroom,
    List.take_set_of_le (Nat.le_refl _), h, List.map_append]
  rfl

theorem Stores.realloc (h : Stores connections fds) (n : Nat) :
    Stores (reallocConnections connections n) (fds.take n) := by
  have hle := h.length_le
  have hmin : (fds.take n).length ≤ (connections.take n).length := by
    simp only [List.length_take]
    omega
  rw [Stores, reallocConnections, List.take_append_of_le_length hmin, List.length_take, List.take_take, List.map_take,
    ← h, List.take_take]
  congr 1
  omega

theorem length_reallocConnections (connections : Connections) (n : Nat) :
    (reallocConnections connections n).length = n := by
  rw [reallocConnections, List.length_append, List.length_take, List.length_replicate]
  omega

/-! ### The loops -/

/-- The loop over the connections that are too many closes them, and no other. -/
theorem closeLoop_spec (target : Nat) (fds : List Nat) {acts : List ClientAct} (h : Owns order args acts fds)
    (hstores : Stores connections fds) :
    ∃ acts', closeLoop connections target fds.length = .ok acts' ∧
      Owns order args (acts ++ acts') (fds.take target) := by
  induction fds using List.reverseRecOn generalizing acts with
  | nil =>
    refine ⟨[], rfl, ?_⟩
    rw [List.append_nil, List.take_nil]
    exact h
  | append_singleton init fd ih =>
    rw [List.length_append, List.length_singleton, closeLoop]
    split
    · rename_i hlt
      refine ⟨[], rfl, ?_⟩
      rw [List.append_nil, List.take_of_length_le (by simp; omega)]
      exact h
    · rename_i hge
      have hread := hstores.read (show (init ++ [fd])[init.length]? = some fd by simp)
      obtain ⟨acts', hloop, howns⟩ := ih h.close hstores.of_append
      refine ⟨.shutdown fd :: .close fd :: acts', ?_, ?_⟩
      · rw [hread, hloop]
        rfl
      · rw [List.take_append_of_le_length (by omega)]
        rw [List.append_assoc] at howns
        exact howns

/-- An index below one that has an address has an address too. -/
theorem getSourceAddress_of_lt_target {range : Ipv4Range} {target i : Nat} {out : InAddr} (htarget : target ≤ 1000000)
    (h : getSourceAddress order (UInt32.ofNat (target - 1)) range = .ok out) (hi : i < target) :
    ∃ source, getSourceAddress order (UInt32.ofNat i) range = .ok source := by
  have hlast := (getSourceAddress_ok h).1
  rw [getSourceAddress_succeeds_iff]
  refine UInt32.lt_of_le_of_lt ?_ hlast
  rw [UInt32.le_iff_toNat_le, UInt32.toNat_ofNat_of_lt' (by simp [UInt32.size]; omega),
    UInt32.toNat_ofNat_of_lt' (by simp [UInt32.size]; omega)]
  omega

theorem connectToServer_succeeds {env : ConnectEnv} (h : env.succeeds = true) (address : InAddr) (port : UInt16)
    (source : InAddr) : (connectToServer env address port (some source)).1 ≠ none := by
  obtain ⟨socket, bind, connect⟩ := env
  cases socket <;> simp_all [ConnectEnv.succeeds, connectToServer]

/-- The loop that opens connections stores them one after another, up to the first that fails. -/
theorem connectLoop_spec (env : LineEnv) {connectionCount target : Nat}
    (hserved : ∀ i < target, ∃ source, getSourceAddress order (UInt32.ofNat i) args.sourceRange = .ok source)
    (remaining : Nat) (st : ConnectLoop) {fds : List Nat} (hremaining : fds.length + remaining = target)
    (hcount : connectionCount + st.connectionsEstablished = fds.length) (hlength : st.connections.length = target)
    (hstores : Stores st.connections fds) (h : Owns order args (acts ++ st.acts) fds) :
    ∃ st' fds', connectLoop order env args connectionCount target remaining st = .ok st' ∧
      connectionCount + st'.connectionsEstablished = fds'.length ∧ fds'.length ≤ target ∧
        Stores st'.connections fds' ∧ Owns order args (acts ++ st'.acts) fds' ∧
          ((∀ i < target, (env.attempt i).succeeds = true) → fds'.length = target) := by
  induction remaining generalizing st fds with
  | zero => exact ⟨st, fds, rfl, hcount, by omega, hstores, h, fun _ => by omega⟩
  | succ remaining ih =>
    have hindex : target - (remaining + 1) = fds.length := by omega
    obtain ⟨source, hsource⟩ := hserved fds.length (by omega)
    rw [connectLoop, hindex]
    simp only [hsource]
    cases hconnected : (connectToServer (env.attempt fds.length) args.host args.port (some source)).1 with
    | none =>
      refine ⟨_, fds, rfl, hcount, by omega, hstores, ?_, ?_⟩
      · have hfailed := h.append (connectToServer_none hconnected)
        simp only [← List.append_assoc]
        exact hfailed.quiet rfl rfl
      · intro hsucceeds
        exact absurd hconnected (connectToServer_succeeds (hsucceeds fds.length (by omega)) args.host args.port source)
    | some clientFd =>
      obtain ⟨connections', hwrite, hlength', hstores'⟩ := hstores.write (by omega) clientFd
      simp only [hwrite, connectToServer_some hconnected]
      refine ih _ (by simp; omega) (by simp; omega) (hlength'.trans hlength) hstores' ?_
      have hopened := h.connect clientFd hsource
      simp only [← List.append_assoc] at hopened ⊢
      refine hopened.quiet ?_ ?_
      · split <;> rfl
      · split <;> rfl

/-! ### The commands -/

/-- The array holds the connections, and no more than a million of them. -/
structure HoldsConnections (order : ByteOrder) (args : CliConfig) (state : ClientState) (acts : List ClientAct)
    (fds : List Nat) : Prop where
  count : state.connectionCount = fds.length
  bound : fds.length ≤ 1000000
  stores : Stores state.connections fds
  owns : Owns order args acts fds

/-- After the actions so far, the handler leaves an array that holds the connections. -/
def Keeps (order : ByteOrder) (args : CliConfig) (acts : List ClientAct) (handled : HandlerOutcome) : Prop :=
  ∃ rc state' acts' fds', handled = .ok (rc, state', acts') ∧ HoldsConnections order args state' (acts ++ acts') fds'

variable {state : ClientState} {env : LineEnv}

theorem HoldsConnections.quiet (h : HoldsConnections order args state acts fds) (hmoves : clientMoves acts' = [])
    (hfailed : failedConnects acts' = []) : HoldsConnections order args state (acts ++ acts') fds :=
  { h with owns := h.owns.quiet hmoves hfailed }

/-- Only something is printed. -/
theorem HoldsConnections.keeps (h : HoldsConnections order args state acts fds) (rc : Int)
    (hmoves : clientMoves acts' = []) (hfailed : failedConnects acts' = []) :
    Keeps order args acts (.ok (rc, state, acts')) :=
  ⟨rc, state, acts', fds, rfl, h.quiet hmoves hfailed⟩

theorem keeps_cliPingServer (h : HoldsConnections order args state acts fds) (argc : Nat) :
    Keeps order args acts (cliPingServer env argc args state) := by
  have hping := { h with owns := h.owns.append (pingServer_held (env.attempt 0) args) }
  rw [cliPingServer]
  split
  · exact h.keeps 0 rfl rfl
  · dsimp only
    split
    · refine ⟨0, state, _, fds, rfl, ?_⟩
      rw [← List.append_assoc]
      exact HoldsConnections.quiet hping rfl rfl
    · refine ⟨0, state, _, fds, rfl, ?_⟩
      rw [← List.append_assoc]
      exact HoldsConnections.quiet hping rfl rfl

theorem keeps_cliExit (h : HoldsConnections order args state acts fds) (argc : Nat) :
    Keeps order args acts (cliExit argc state) := by
  rw [cliExit]
  split
  · exact h.keeps 0 rfl rfl
  · exact h.keeps 1 rfl rfl

/-- The branch of `cli_connect` that opens connections: one for each attempt before the first that fails. -/
theorem growConnections_spec (env : LineEnv) (h : HoldsConnections order args state acts fds) (target : Nat)
    (hgrow : state.connectionCount < target) (htarget : target ≤ 1000000) :
    ∃ state' acts' fds', growConnections order env args state target = .ok (0, state', acts') ∧
      HoldsConnections order args state' (acts ++ acts') fds' ∧
        (env.growRealloc = true →
          (∃ last, getSourceAddress order (UInt32.ofNat (target - 1)) args.sourceRange = .ok last) →
          (∀ i < target, (env.attempt i).succeeds = true) → fds'.length = target) := by
  rw [growConnections]
  cases hlast : getSourceAddress order (UInt32.ofNat (target - 1)) args.sourceRange with
  | error err =>
    refine ⟨state, _, fds, rfl, h.quiet rfl rfl, ?_⟩
    rintro - ⟨last, hlast'⟩
    cases hlast'
  | ok last =>
    dsimp only
    split
    · rename_i hfailed
      refine ⟨state, _, fds, rfl, h.quiet rfl rfl, ?_⟩
      intro hrealloc
      simp [hrealloc] at hfailed
    · have hstores := h.stores.realloc target
      have hlen : fds.length ≤ target := by
        have hcount := h.count
        omega
      rw [List.take_of_length_le hlen] at hstores
      obtain ⟨st', fds', hloop, hcount', hbound', hstores', howns', hall⟩ := connectLoop_spec env
        (fun i hi => getSourceAddress_of_lt_target htarget hlast hi) (target - state.connectionCount)
        ⟨reallocConnections state.connections target, 0, last, env.start,
          [.realloc target true, say (progressText state.connectionCount target)]⟩
        (by rw [h.count]; omega) h.count (length_reallocConnections ..) hstores (h.owns.quiet rfl rfl)
      rw [hloop]
      refine ⟨_, _, fds', rfl, ⟨hcount', by omega, hstores', ?_⟩, fun _ _ => hall⟩
      rw [← List.append_assoc]
      exact howns'.quiet rfl rfl

/-- The branch of `cli_connect` that closes connections. -/
theorem shrinkConnections_spec (h : HoldsConnections order args state acts fds) (hrealloc : env.shrinkRealloc = true)
    (target : Nat) (hshrink : target < state.connectionCount) :
    ∃ state' acts' fds', shrinkConnections env state target = .ok (0, state', acts') ∧
      HoldsConnections order args state' (acts ++ acts') fds' ∧ fds'.length = target := by
  obtain ⟨acts', hloop, howns⟩ := closeLoop_spec target fds h.owns h.stores
  have hlen : (fds.take target).length = target := by
    have hcount := h.count
    rw [List.length_take]
    omega
  rw [shrinkConnections, h.count, hloop]
  simp only [hrealloc]
  refine ⟨_, _, fds.take target, rfl, ⟨hlen.symm, ?_, h.stores.realloc target, ?_⟩, hlen⟩
  · have hbound := h.bound
    rw [List.length_take]
    omega
  · rw [← List.append_assoc]
    exact howns.quiet rfl rfl

theorem keeps_cliConnect (h : HoldsConnections order args state acts fds) (hrealloc : env.shrinkRealloc = true)
    (argv : List (List UInt8)) : Keeps order args acts (cliConnect order env argv args state) := by
  rcases argv with _ | ⟨word, _ | ⟨arg, _ | ⟨_, _⟩⟩⟩
  · exact h.keeps 0 rfl rfl
  · exact h.keeps 0 rfl rfl
  · simp only [cliConnect]
    split_ifs with hneg hmany hsame hless
    · exact h.keeps 0 rfl rfl
    · exact h.keeps 0 rfl rfl
    · exact h.keeps 0 rfl rfl
    · obtain ⟨state', acts', fds', hrun, hholds, -⟩ :=
        growConnections_spec env h (strtol arg).value.toNat (by omega) (by omega)
      exact ⟨0, state', acts', fds', hrun, hholds⟩
    · obtain ⟨state', acts', fds', hrun, hholds, -⟩ :=
        shrinkConnections_spec h hrealloc (strtol arg).value.toNat (by omega)
      exact ⟨0, state', acts', fds', hrun, hholds⟩
  · exact h.keeps 0 rfl rfl

theorem keeps_run (h : HoldsConnections order args state acts fds) (hrealloc : env.shrinkRealloc = true)
    (argv : List (List UInt8)) (handler : Handler) :
    Keeps order args acts (handler.run order env argv args state) := by
  cases handler with
  | cliPingServer => exact keeps_cliPingServer h argv.length
  | cliConnect => exact keeps_cliConnect h hrealloc argv
  | cliExit => exact keeps_cliExit h argv.length

/-! ### Runs -/

/-- `realloc` does not fail where it makes the array smaller. -/
def ReallocShrinks (lines : List (Option Line)) : Prop := ∀ line, some line ∈ lines → line.env.shrinkRealloc = true

/-- The program has accessed the array as it may, and the array holds the connections. -/
def RunsWell (order : ByteOrder) (args : CliConfig) : Except ClientFault Client → Prop
  | .ok x => ∃ fds, HoldsConnections order args x.state x.acts fds
  | .error fault => ∀ f, fault ≠ .table f

theorem runsWell_clientLine {x : Client} (h : HoldsConnections order args x.state x.acts fds) {line : Option Line}
    (hrealloc : ∀ l, line = some l → l.env.shrinkRealloc = true) :
    RunsWell order args (clientLine order args x line) := by
  cases line with
  | none => exact ⟨fds, h.quiet rfl rfl⟩
  | some line =>
    rw [clientLine]
    split
    · intro f hf
      cases hf
    · split
      · exact ⟨fds, h.quiet rfl rfl⟩
      · split
        · intro f hf
          cases hf
        · rename_i word words _ _ _ _ _ handler _
          obtain ⟨rc, state', acts', fds', hrun, hholds⟩ := keeps_run h (hrealloc line rfl) (word :: words) handler
          rw [hrun]
          exact ⟨fds', hholds⟩

theorem runsWell_commandLineLoop (lines : List (Option Line)) (hrealloc : ReallocShrinks lines) {x : Client}
    (h : HoldsConnections order args x.state x.acts fds) :
    RunsWell order args (commandLineLoop order args lines x) := by
  induction lines generalizing x fds with
  | nil => exact ⟨fds, h⟩
  | cons line lines ih =>
    rw [commandLineLoop]
    split
    · have hline : RunsWell order args (clientLine order args x line) :=
        runsWell_clientLine h fun l hl => hrealloc l (by simp [hl])
      cases hnext : clientLine order args x line with
      | error fault =>
        rw [hnext] at hline
        exact hline
      | ok x' =>
        rw [hnext] at hline
        obtain ⟨fds', hholds⟩ := hline
        exact ih (fun l hl => hrealloc l (List.mem_cons_of_mem line hl)) hholds
    · exact ⟨fds, h⟩

/-- The client starts without connections. -/
theorem holdsConnections_start (order : ByteOrder) (args : CliConfig) (env : ConnectEnv)
    (hmoves : clientMoves acts' = []) (hfailed : failedConnects acts' = []) :
    HoldsConnections order args ⟨[], 0⟩ ((pingServer env args).2 ++ acts') [] :=
  ⟨rfl, Nat.zero_le _, rfl, ((Owns.nil order args).append (pingServer_held env args)).quiet hmoves hfailed⟩

theorem runsWell_clientMain (order : ByteOrder) (args : CliConfig) (env : ConnectEnv) (lines : List (Option Line))
    (hrealloc : ReallocShrinks lines) :
    RunsWell order args (clientMain order args env lines) := by
  rw [clientMain]
  split
  · exact runsWell_commandLineLoop lines hrealloc (holdsConnections_start order args env rfl rfl)
  · exact ⟨[], holdsConnections_start order args env rfl rfl⟩

/-- The address that the connection at place `i` comes from. -/
def connectionSource (order : ByteOrder) (range : Ipv4Range) (i : Nat) : InAddr :=
  ⟨htonl order (ntohl order range.first.sAddr + UInt32.ofNat i / connectionsPerSourceAddress)⟩

theorem eq_connectionSource {range : Ipv4Range} {i : Nat} {source : InAddr}
    (h : getSourceAddress order (UInt32.ofNat i) range = .ok source) : source = connectionSource order range i := by
  rw [getSourceAddress_of_lt (getSourceAddress_ok h).1] at h
  cases h
  rfl

/-- In every run in which `realloc` can make the array smaller, the client accesses its array only within it and
where it has stored something; and no descriptor is open but those of its connections, at most a million, and those
whose `connect` failed, and none is closed that is not open. -/
theorem client_owns_its_connections (order : ByteOrder) (args : CliConfig) (env : ConnectEnv)
    (lines : List (Option Line)) (hrealloc : ReallocShrinks lines) :
    (∀ fault, clientMain order args env lines ≠ .error (.table fault)) ∧
      ∀ x, clientMain order args env lines = .ok x → ∃ fds : List Nat,
        x.state.connectionCount = fds.length ∧ fds.length ≤ 1000000 ∧
          x.state.connections.take fds.length = fds.map some ∧
            after 0 (clientMoves x.acts) = some ((fds : Multiset Nat) + (failedConnects x.acts : List Nat)) := by
  have hruns := runsWell_clientMain order args env lines hrealloc
  constructor
  · intro fault hrun
    rw [hrun] at hruns
    exact hruns fault rfl
  · intro x hrun
    rw [hrun] at hruns
    obtain ⟨fds, h⟩ := hruns
    exact ⟨fds, h.count, h.bound, h.stores, h.owns.held⟩

/-- The kernel opens the descriptors from 3 on, and everything succeeds. -/
def allSucceed : LineEnv where
  attempt i := ⟨some (3 + i), true, true⟩
  start := ⟨0, 0⟩
  clock _ := ⟨0, 0⟩
  growRealloc := true
  shrinkRealloc := true

/-- Two connections are opened, and one of them is closed. -/
def twoThenOneLines : List (Option Line) :=
  [some ⟨bytesOf "connect 2\n", allSucceed⟩, some ⟨bytesOf "connect 1\n", allSucceed⟩]

theorem reallocShrinks_twoThenOneLines : ReallocShrinks twoThenOneLines := by
  simp [ReallocShrinks, twoThenOneLines, allSucceed]

def twoThenOne : Except ClientFault Client :=
  clientMain .little (cliConfigDefault .little) ⟨some 3, true, true⟩ twoThenOneLines

theorem client_owns_its_connections_twoThenOne :
    ∃ x, twoThenOne = .ok x ∧ x.state = ⟨[some 3], 1⟩ ∧ ∃ fds : List Nat,
      x.state.connectionCount = fds.length ∧ fds.length ≤ 1000000 ∧
        x.state.connections.take fds.length = fds.map some ∧
          after 0 (clientMoves x.acts) = some ((fds : Multiset Nat) + (failedConnects x.acts : List Nat)) :=
  ⟨_, rfl, rfl, (client_owns_its_connections .little (cliConfigDefault .little) ⟨some 3, true, true⟩
    twoThenOneLines reallocShrinks_twoThenOneLines).2 _ rfl⟩

/-- If also the kernel opens no descriptor that is open, then the connection at each place is still connected to the
server, from the address of its place, and no address is that of more than 25000 connections. -/
theorem client_connections_use_their_sources (order : ByteOrder) (args : CliConfig) (env : ConnectEnv)
    (lines : List (Option Line)) (hrealloc : ReallocShrinks lines) {x : Client}
    (hrun : clientMain order args env lines = .ok x) (hfresh : Fresh 0 (clientMoves x.acts)) :
    (∀ i < x.state.connectionCount, ∃ fd, x.state.connections[i]? = some (some fd) ∧
      ConnectedFrom x.acts fd (connectionSource order args.sourceRange i) args.host args.port) ∧
    ∀ source, ((Finset.range x.state.connectionCount).filter fun i =>
      connectionSource order args.sourceRange i = source).card ≤ 25000 := by
  have hruns := runsWell_clientMain order args env lines hrealloc
  rw [hrun] at hruns
  obtain ⟨fds, h⟩ := hruns
  have hplace : ∀ i < x.state.connectionCount, ∃ fd, fds[i]? = some fd := by
    intro i hi
    rw [h.count] at hi
    exact ⟨fds[i], List.getElem?_eq_getElem hi⟩
  constructor
  · intro i hi
    obtain ⟨fd, hfd⟩ := hplace i hi
    obtain ⟨source, hsource, hconnected⟩ := h.owns.connected hfresh i fd hfd
    obtain rfl := eq_connectionSource hsource
    exact ⟨fd, h.stores.getElem? hfd, hconnected⟩
  · intro source
    refine (Finset.card_le_card ?_).trans (card_servedIndices_le order args.sourceRange source)
    intro i hi
    obtain ⟨hrange, rfl⟩ := Finset.mem_filter.1 hi
    have hcount := Finset.mem_range.1 hrange
    obtain ⟨fd, hfd⟩ := hplace i hcount
    obtain ⟨source, hsource, -⟩ := h.owns.connected hfresh i fd hfd
    obtain rfl := eq_connectionSource hsource
    have hbound := h.bound
    rw [h.count] at hcount
    exact Finset.mem_filter.2 ⟨Finset.mem_range.2 (by omega), hsource⟩

theorem client_connections_use_their_sources_twoThenOne :
    ∃ x, twoThenOne = .ok x ∧ Fresh 0 (clientMoves x.acts) ∧
      ∀ i < x.state.connectionCount, ∃ fd, x.state.connections[i]? = some (some fd) ∧
        ConnectedFrom x.acts fd (connectionSource .little (cliConfigDefault .little).sourceRange i) ⟨0⟩ 8080 := by
  obtain ⟨x, hrun⟩ : ∃ x, twoThenOne = .ok x := ⟨_, rfl⟩
  have hmoves : twoThenOne.toOption.map (fun x => clientMoves x.acts) =
      some [.acquire 3, .release 3, .acquire 3, .acquire 4, .release 4] := by
    decide
  rw [hrun] at hmoves
  have hmoves' : clientMoves x.acts = _ := Option.some.inj hmoves
  have hfresh : Fresh 0 (clientMoves x.acts) := by
    rw [hmoves']
    simp [Fresh]
  exact ⟨x, hrun, hfresh, (client_connections_use_their_sources .little (cliConfigDefault .little) ⟨some 3, true, true⟩
    twoThenOneLines reallocShrinks_twoThenOneLines hrun hfresh).1⟩

end Mcon
