import Mcon.ClientConnections

/-!
# The commands of the example client

A line is split into its words, and its first word selects the command.  Where the kernel grants everything, `connect N`
leads to `N` connections from every state of a running client.
-/

namespace Mcon

open Libc Holdings

variable {order : ByteOrder} {args : CliConfig} {acts : List ClientAct} {fds : List Nat} {state : ClientState}
  {env : LineEnv}

/-! ### Words -/

/-- Words with a delimiter behind each of them. -/
def wordsText (words : List (List UInt8 × UInt8)) : List UInt8 := words.flatMap fun w => w.1 ++ [w.2]

/-- The words of a text are found again, as many as there is room for. -/
theorem tokens_wordsText {delimiters : List UInt8} (words : List (List UInt8 × UInt8))
    (hwords : ∀ w ∈ words, w.1 ≠ [] ∧ (∀ ch ∈ w.1, ch ∉ delimiters) ∧ w.2 ∈ delimiters) (room : Nat) :
    tokens delimiters room (wordsText words) = (words.map Prod.fst).take room := by
  induction words generalizing room with
  | nil => cases room <;> rfl
  | cons w words ih =>
    cases room with
    | zero => rfl
    | succ room =>
      obtain ⟨hne, hnot, hdelimiter⟩ := hwords w (List.mem_cons_self ..)
      have hrest := ih (fun w' hw' => hwords w' (List.mem_cons_of_mem w hw')) room
      have htext : wordsText (w :: words) = w.1 ++ w.2 :: wordsText words := by simp [wordsText]
      rw [htext, tokens, strtokR_word hne hnot hdelimiter]
      exact congrArg (w.1 :: ·) hrest

/-- `connect N`, as it is typed. -/
def connectText (n : Nat) : List UInt8 := wordsText [(bytesOf "connect", ' '.toUInt8), (decimalText n, '\n'.toUInt8)]

theorem isDigit_notMem_delimiters {ch : UInt8} (h : isDigit ch = true) : ch ∉ delimiters ∧ ch ≠ 0 := by
  rw [isDigit_iff] at h
  constructor
  · intro hmem
    simp only [delimiters, List.mem_cons, List.not_mem_nil, or_false] at hmem
    rcases hmem with rfl | rfl | rfl <;> exact absurd h.1 (by decide)
  · rintro rfl
    exact absurd h.1 (by decide)

theorem notMem_connect {ch : UInt8} (h : ch ∈ bytesOf "connect") : ch ∉ delimiters ∧ ch ≠ 0 := by
  have hall : (bytesOf "connect").all (fun ch => !delimiters.contains ch && ch != 0) = true := by decide
  simpa using List.all_eq_true.1 hall ch h

theorem argv_connectText (n : Nat) : Line.argv ⟨connectText n, env⟩ = [bytesOf "connect", decimalText n] := by
  have hdigit : ∀ ch ∈ decimalText n, ch ∉ delimiters ∧ ch ≠ 0 := fun ch hch =>
    isDigit_notMem_delimiters (isDigit_of_mem_decimalText hch)
  have hnul : (connectText n).takeWhile (· != 0) = connectText n := by
    refine List.takeWhile_eq_self_iff.2 fun ch hch => ?_
    simp only [connectText, wordsText, List.flatMap_cons, List.flatMap_nil, List.append_nil, List.mem_append,
      List.mem_singleton] at hch
    rw [bne_iff_ne]
    rcases hch with (hword | rfl) | hnumber | rfl
    · exact (notMem_connect hword).2
    · decide
    · exact (hdigit ch hnumber).2
    · decide
  rw [Line.argv, hnul, connectText, tokens_wordsText]
  · rfl
  · intro w hw
    rcases List.mem_pair.1 hw with rfl | rfl
    · exact ⟨List.cons_ne_nil _ _, fun ch hch => (notMem_connect hch).1, (by decide : ' '.toUInt8 ∈ delimiters)⟩
    · exact ⟨decimalText_ne_nil n, fun ch hch => (hdigit ch hch).1, (by decide : '\n'.toUInt8 ∈ delimiters)⟩

/-! ### The command `connect` -/

/-- The kernel and the C library grant what `connect N` asks for. -/
structure Grants (env : LineEnv) (n : Nat) : Prop where
  growRealloc : env.growRealloc = true
  shrinkRealloc : env.shrinkRealloc = true
  attempts : ∀ i < n, (env.attempt i).succeeds = true

theorem cliConnect_reaches (h : HoldsConnections order args state acts fds) {n : Nat} (hn : n ≤ 1000000)
    (hgrants : Grants env n)
    (hserved : state.connectionCount < n →
      ∃ last, getSourceAddress order (UInt32.ofNat (n - 1)) args.sourceRange = .ok last) (word : List UInt8) :
    ∃ state' acts' fds', cliConnect order env [word, decimalText n] args state = .ok (0, state', acts') ∧
      HoldsConnections order args state' (acts ++ acts') fds' ∧ fds'.length = n := by
  have hlong : (n : Int) ≤ longMax := by
    have hmax : (1000000 : Int) ≤ longMax := by decide
    omega
  simp only [cliConnect, strtol_decimalText hlong, Int.toNat_natCast]
  rw [if_neg (by omega), if_neg (by omega)]
  split_ifs with hsame hless
  · refine ⟨state, _, fds, rfl, h.quiet rfl rfl, ?_⟩
    have hcount := h.count
    omega
  · obtain ⟨state', acts', fds', hrun, hholds, hall⟩ := growConnections_spec env h n (by omega) hn
    exact ⟨state', acts', fds', hrun, hholds, hall hgrants.growRealloc (hserved (by omega)) hgrants.attempts⟩
  · exact shrinkConnections_spec h hgrants.shrinkRealloc n (by omega)

theorem commandLineLoop_of_not_running {x : Client} (h : x.running = false) (lines : List (Option Line)) :
    commandLineLoop order args lines x = .ok x := by
  cases lines with
  | nil => rfl
  | cons line lines => rw [commandLineLoop, if_neg (by simp [h])]

theorem commandLineLoop_append (lines lines' : List (Option Line)) (x : Client) :
    commandLineLoop order args (lines ++ lines') x =
      commandLineLoop order args lines x >>= commandLineLoop order args lines' := by
  induction lines generalizing x with
  | nil => rfl
  | cons line lines ih =>
    rw [List.cons_append, commandLineLoop, commandLineLoop]
    split
    · cases clientLine order args x line with
      | error fault => rfl
      | ok x' => exact ih x'
    · rename_i hstopped
      exact (commandLineLoop_of_not_running (by simpa using hstopped) lines').symm

theorem clientMain_append (order : ByteOrder) (args : CliConfig) (ping : ConnectEnv)
    (lines lines' : List (Option Line)) :
    clientMain order args ping (lines ++ lines') =
      clientMain order args ping lines >>= commandLineLoop order args lines' := by
  simp only [clientMain]
  split
  · exact commandLineLoop_append lines lines' _
  · exact (commandLineLoop_of_not_running rfl lines').symm

/-- In every run that has not ended and in which `realloc` can make the array smaller, `connect N` leads to `N`
connections if the kernel and the C library grant what the line asks for, and there are source addresses for them where
there are fewer before; and the client goes on. -/
theorem connect_command_reaches_its_number (order : ByteOrder) (args : CliConfig) (ping : ConnectEnv)
    (lines : List (Option Line)) (hrealloc : ReallocShrinks lines) {x : Client}
    (hrun : clientMain order args ping lines = .ok x) (hrunning : x.running = true) {n : Nat} (hn : n ≤ 1000000)
    (hgrants : Grants env n)
    (hserved : x.state.connectionCount < n →
      ∃ last, getSourceAddress order (UInt32.ofNat (n - 1)) args.sourceRange = .ok last) :
    ∃ x', clientMain order args ping (lines ++ [some ⟨connectText n, env⟩]) = .ok x' ∧ x'.running = true ∧
      x'.state.connectionCount = n ∧ ∃ fds : List Nat, fds.length = n ∧ x'.state.connections.take n = fds.map some := by
  have hruns := runsWell_clientMain order args ping lines hrealloc
  rw [hrun] at hruns
  obtain ⟨fds, h⟩ := hruns
  obtain ⟨state', acts', fds', hconnect, hholds, hlen⟩ := cliConnect_reaches h hn hgrants hserved (bytesOf "connect")
  refine ⟨⟨state', x.acts ++ acts', true⟩, ?_, rfl, ?_, fds', hlen, ?_⟩
  · have hline : clientLine order args x (some ⟨connectText n, env⟩) = .ok ⟨state', x.acts ++ acts', true⟩ := by
      have hcommand : findCommand (bytesOf "connect") = some ⟨"connect", some .cliConnect⟩ := by decide
      simp only [clientLine, argv_connectText, hcommand, Handler.run, hconnect]
      rfl
    rw [clientMain_append, hrun]
    show commandLineLoop order args [some ⟨connectText n, env⟩] x = _
    rw [commandLineLoop, if_pos hrunning, hline]
    rfl
  · rw [hholds.count, hlen]
  · rw [← hlen]
    exact hholds.stores

theorem connect_command_reaches_its_number_again :
    ∃ x x', twoThenOne = .ok x ∧ clientMain .little (cliConfigDefault .little) ⟨some 3, true, true⟩
      (twoThenOneLines ++ [some ⟨connectText 30, allSucceed⟩]) = .ok x' ∧ x'.state.connectionCount = 30 := by
  obtain ⟨x, hrun⟩ : ∃ x, twoThenOne = .ok x := ⟨_, rfl⟩
  have hrunning : twoThenOne.toOption.map (·.running) = some true := by decide
  rw [hrun] at hrunning
  have hgrants : Grants allSucceed 30 := ⟨rfl, rfl, fun _ _ => rfl⟩
  have hserved : ∃ last, getSourceAddress .little (UInt32.ofNat (30 - 1)) (cliConfigDefault .little).sourceRange =
      .ok last := ⟨_, rfl⟩
  obtain ⟨x', hrun', -, hcount, -⟩ := connect_command_reaches_its_number .little (cliConfigDefault .little)
    ⟨some 3, true, true⟩ twoThenOneLines reallocShrinks_twoThenOneLines hrun (Option.some.inj hrunning) (by decide)
    hgrants fun _ => hserved
  exact ⟨x, x', hrun, hrun', hcount⟩

/-! ### Lines that cannot be handled -/

theorem strncmpEq_iff (word name : List UInt8) : strncmpEq word name name.length = true ↔ name <+: word := by
  rw [strncmpEq, beq_iff_eq, List.take_length, List.prefix_iff_eq_take, eq_comm]

/-- No name of a command begins another one. -/
theorem command_unique {word : List UInt8} {command command' : Command} (h : command ∈ commands)
    (h' : command' ∈ commands) (hword : bytesOf command.name <+: word) (hword' : bytesOf command'.name <+: word) :
    command = command' := by
  have hall : (commands.all fun c => commands.all fun c' =>
      !(bytesOf c.name).isPrefixOf (bytesOf c'.name) || c == c') = true := by decide
  have hapart : ∀ c ∈ commands, ∀ c' ∈ commands, bytesOf c.name <+: bytesOf c'.name → c = c' := by
    intro c hc c' hc' hbegins
    have hone := List.all_eq_true.1 (List.all_eq_true.1 hall c hc) c' hc'
    rw [List.isPrefixOf_iff_prefix.2 hbegins] at hone
    simpa using hone
  rcases List.prefix_or_prefix_of_prefix hword hword' with hbegins | hbegins
  · exact hapart _ h _ h' hbegins
  · exact (hapart _ h' _ h hbegins).symm

theorem findCommand_begins {word : List UInt8} {command : Command} (h : findCommand word = some command) :
    command ∈ commands ∧ bytesOf command.name <+: word := by
  unfold findCommand at h
  have hfound := List.find?_some h
  exact ⟨List.mem_of_find?_eq_some h, (strncmpEq_iff _ _).1 hfound⟩

theorem findCommand_eq_some {word : List UInt8} {command : Command} (hmem : command ∈ commands)
    (hword : bytesOf command.name <+: word) : findCommand word = some command := by
  cases hfound : findCommand word with
  | none => exact absurd ((strncmpEq_iff _ _).2 hword) (List.find?_eq_none.1 hfound command hmem)
  | some command' =>
    obtain ⟨hmem', hword'⟩ := findCommand_begins hfound
    rw [command_unique hmem' hmem hword' hword]

/-- The line has a word, and this does not begin with the name of a command without a handler. -/
def Line.Usable (line : Line) : Prop :=
  ∃ word words, line.argv = word :: words ∧
    ∀ command ∈ commands, bytesOf command.name <+: word → command.handler.isSome

/-- The line is `exit` without an argument. -/
def Line.exits (line : Line) : Bool :=
  match line.argv with
  | [word] => (findCommand word).bind Command.handler == some .cliExit
  | _ => false

/-- The lines that are read, given the answers of `getline`. -/
def linesRead : List (Option Line) → List Line
  | [] => []
  | none :: _ => []
  | some line :: lines => line :: if line.exits then [] else linesRead lines

theorem growConnections_rc {target : Nat} {rc : Int} {state' : ClientState} {acts' : List ClientAct}
    (h : growConnections order env args state target = .ok (rc, state', acts')) : rc = 0 := by
  rw [growConnections] at h
  split at h
  · cases h
    rfl
  · split at h
    · cases h
      rfl
    · simp only [bind, Except.bind] at h
      split at h <;> cases h
      rfl

theorem shrinkConnections_rc {target : Nat} {rc : Int} {state' : ClientState} {acts' : List ClientAct}
    (h : shrinkConnections env state target = .ok (rc, state', acts')) : rc = 0 := by
  simp only [shrinkConnections, bind, Except.bind] at h
  split at h
  · cases h
  · split at h <;> cases h <;> rfl

/-- Only `exit` without an argument ends the loop. -/
theorem rc_eq_one_iff {argv : List (List UInt8)} {handler : Handler} {rc : Int} {state' : ClientState}
    {acts' : List ClientAct} (h : handler.run order env argv args state = .ok (rc, state', acts')) :
    rc = 1 ↔ handler = .cliExit ∧ argv.length ≤ 1 := by
  have hzero : rc = 0 → handler ≠ .cliExit ∨ 1 < argv.length → (rc = 1 ↔ handler = .cliExit ∧ argv.length ≤ 1) := by
    intro hrc hnot
    subst hrc
    refine iff_of_false (by decide) fun ⟨hexit, hlength⟩ => ?_
    rcases hnot with hne | hlong
    · exact hne hexit
    · omega
  cases handler with
  | cliPingServer =>
    refine hzero ?_ (.inl (by decide))
    simp only [Handler.run, cliPingServer] at h
    split_ifs at h <;> cases h <;> rfl
  | cliExit =>
    simp only [Handler.run, cliExit] at h
    split_ifs at h with hlong
    · cases h
      exact hzero rfl (.inr hlong)
    · cases h
      exact iff_of_true rfl ⟨rfl, by omega⟩
  | cliConnect =>
    refine hzero ?_ (.inl (by decide))
    simp only [Handler.run] at h
    rcases argv with _ | ⟨word, _ | ⟨arg, _ | ⟨_, _⟩⟩⟩
    · cases h; rfl
    · cases h; rfl
    · simp only [cliConnect] at h
      split_ifs at h
      · cases h; rfl
      · cases h; rfl
      · cases h; rfl
      · exact growConnections_rc h
      · exact shrinkConnections_rc h
    · cases h; rfl

theorem clientLine_of_usable {x : Client} (hrunning : x.running = true)
    (h : HoldsConnections order args x.state x.acts fds) {line : Line} (hrealloc : line.env.shrinkRealloc = true)
    (hline : line.Usable) : ∃ x' fds', clientLine order args x (some line) = .ok x' ∧
      HoldsConnections order args x'.state x'.acts fds' ∧ x'.running = !line.exits := by
  obtain ⟨word, words, hargv, hhandled⟩ := hline
  cases hfound : findCommand word with
  | none =>
    have hexits : line.exits = false := by
      rw [Line.exits, hargv]
      cases words <;> simp [hfound]
    obtain ⟨x', hnext, hstate, hacts, hgoes⟩ : ∃ x', clientLine order args x (some line) = .ok x' ∧ x'.state = x.state ∧
        (∃ text, x'.acts = x.acts ++ [.printf text]) ∧ x'.running = x.running := by
      simp only [clientLine, hargv, hfound]
      exact ⟨_, rfl, rfl, ⟨_, rfl⟩, rfl⟩
    obtain ⟨text, hacts⟩ := hacts
    refine ⟨x', fds, hnext, ?_, ?_⟩
    · rw [hstate, hacts]
      exact h.quiet rfl rfl
    · rw [hgoes, hrunning, hexits]
      rfl
  | some command =>
    obtain ⟨hmem, hbegins⟩ := findCommand_begins hfound
    obtain ⟨handler, hhandler⟩ := Option.isSome_iff_exists.1 (hhandled command hmem hbegins)
    obtain ⟨rc, state', acts', fds', hrun, hholds⟩ := keeps_run h hrealloc (word :: words) handler
    refine ⟨⟨state', x.acts ++ acts', decide (rc ≠ 1)⟩, fds', ?_, hholds, ?_⟩
    · simp only [clientLine, hargv, hfound, hhandler, hrun]
    · have hrc := rc_eq_one_iff hrun
      have hexits : line.exits = true ↔ rc = 1 := by
        rw [hrc, Line.exits, hargv]
        cases words <;> simp [hfound, hhandler]
      cases hline : line.exits <;> simp [← hexits, hline]

theorem clientLine_of_not_usable {x : Client} {line : Line} (hline : ¬ line.Usable) :
    ∃ fault, clientLine order args x (some line) = .error fault := by
  cases hargv : line.argv with
  | nil => exact ⟨.noWord, by simp only [clientLine, hargv]⟩
  | cons word words =>
    obtain ⟨command, hmem, hbegins, hhandler⟩ : ∃ command ∈ commands, bytesOf command.name <+: word ∧
        command.handler = none := by
      by_contra hnone
      simp only [not_exists, not_and] at hnone
      exact hline ⟨word, words, hargv, fun command hmem hbegins =>
        Option.isSome_iff_ne_none.2 (hnone command hmem hbegins)⟩
    exact ⟨.nullHandler, by simp only [clientLine, hargv, findCommand_eq_some hmem hbegins, hhandler]⟩

theorem commandLineLoop_defined_iff (lines : List (Option Line)) (hrealloc : ReallocShrinks lines) {x : Client}
    (hrunning : x.running = true) (h : HoldsConnections order args x.state x.acts fds) :
    (∃ x', commandLineLoop order args lines x = .ok x') ↔ ∀ line ∈ linesRead lines, line.Usable := by
  induction lines generalizing x fds with
  | nil => simp [commandLineLoop, linesRead]
  | cons line lines ih =>
    have hrest : ReallocShrinks lines := fun l hl => hrealloc l (List.mem_cons_of_mem _ hl)
    rw [commandLineLoop, if_pos hrunning]
    cases line with
    | none =>
      refine iff_of_true ?_ (by simp [linesRead])
      exact ⟨_, commandLineLoop_of_not_running rfl lines⟩
    | some line =>
      rw [linesRead, List.forall_mem_cons]
      by_cases hline : line.Usable
      · obtain ⟨x', fds', hnext, hholds, hgoes⟩ := clientLine_of_usable hrunning h (hrealloc line (by simp)) hline
        rw [hnext, and_iff_right hline]
        show (∃ x'', commandLineLoop order args lines x' = .ok x'') ↔ _
        cases hexits : line.exits with
        | true =>
          rw [hexits] at hgoes
          exact iff_of_true ⟨x', commandLineLoop_of_not_running hgoes lines⟩ (by simp)
        | false =>
          rw [hexits] at hgoes
          exact ih hrest hgoes hholds
      · obtain ⟨fault, hfault⟩ : ∃ fault, clientLine order args x (some line) = .error fault :=
          clientLine_of_not_usable hline
        rw [hfault]
        refine iff_of_false ?_ fun hall => hline hall.1
        rintro ⟨x', hx'⟩
        cases hx'

/-- Where `realloc` can make the array smaller, the client gets through its lines, without calling a handler that is
`NULL` and without using an `argv[0]` of an earlier line, exactly when each line that it reads has a word that does not
begin with `status`, `write` or `request`; an `exit` without an argument is the last line it reads. -/
theorem client_is_defined_iff (order : ByteOrder) (args : CliConfig) (ping : ConnectEnv) (lines : List (Option Line))
    (hrealloc : ReallocShrinks lines) :
    (∃ x, clientMain order args ping lines = .ok x) ↔
      ((pingServer ping args).1 = 0 → ∀ line ∈ linesRead lines, line.Usable) := by
  rw [clientMain]
  split
  · rename_i hping
    rw [commandLineLoop_defined_iff lines hrealloc rfl (holdsConnections_start order args ping rfl rfl)]
    exact ⟨fun hall _ => hall, fun hall => hall hping⟩
  · rename_i hping
    exact iff_of_true ⟨_, rfl⟩ fun hzero => absurd hzero hping

/-- An `exit` ends the client before the line without words is read. -/
theorem client_is_defined_iff_exit :
    ∃ x, clientMain .little (cliConfigDefault .little) ⟨some 3, true, true⟩
      [some ⟨connectText 2, allSucceed⟩, some ⟨bytesOf "exit\n", allSucceed⟩, some ⟨bytesOf " \n", allSucceed⟩] =
        .ok x := by
  refine (client_is_defined_iff .little (cliConfigDefault .little) ⟨some 3, true, true⟩ _ ?_).2 fun _ => ?_
  · simp [ReallocShrinks, allSucceed]
  · have hconnect : Line.exits ⟨connectText 2, allSucceed⟩ = false := by rw [Line.exits, argv_connectText]
    have hexit : Line.exits ⟨bytesOf "exit\n", allSucceed⟩ = true := by decide
    simp only [linesRead, hconnect, hexit, if_true, Bool.false_eq_true, if_false]
    rw [List.forall_mem_cons, List.forall_mem_singleton]
    exact ⟨⟨bytesOf "connect", [decimalText 2], argv_connectText 2, by decide⟩, ⟨bytesOf "exit", [], rfl, by decide⟩⟩

end Mcon
