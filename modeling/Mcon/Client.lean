import Mcon.SourceAddresses

/-!
# The example client (`apps/million_connections/mcon_client.c`)

The client reads commands from its standard input, line by line.  `connect N` opens or closes connections until there
are `N` of them; their descriptors are in an array that is reallocated to that length.  What the kernel and the clock
answer while a line is handled is given with the line.
-/

namespace Mcon

open Libc

/-- `struct cli_config`. -/
structure CliConfig where
  port : UInt16
  host : InAddr
  sourceRange : Ipv4Range
  deriving DecidableEq, Repr

/-- `INADDR_NONE`. -/
def inaddrNone : InAddr := ⟨0xFFFFFFFF⟩

/-- `cli_config_default`. -/
def cliConfigDefault (order : ByteOrder) : CliConfig where
  host := ⟨0⟩
  port := 8080
  sourceRange :=
    ⟨(inetPton order (bytesOf "127.0.0.2")).getD inaddrNone, (inetPton order (bytesOf "127.0.0.22")).getD inaddrNone⟩

/-! ### The array of connections -/

/-- An access of the array that has no meaning in C: outside of it, or of an element that was not stored. -/
inductive TableFault
  | outside (index : Nat)
  | uninitialised (index : Nat)
  deriving DecidableEq, Repr

/-- The array that `connections` points to, `client_fd` for each of its elements; `none` where nothing was stored. -/
abbrev Connections := List (Option Nat)

/-- `connections[i].client_fd`. -/
def readClientFd (connections : Connections) (i : Nat) : Except TableFault Nat :=
  match connections[i]? with
  | none => .error (.outside i)
  | some none => .error (.uninitialised i)
  | some (some fd) => .ok fd

/-- `connections[i].client_fd = client_fd`. -/
def writeClientFd (connections : Connections) (i fd : Nat) : Except TableFault Connections :=
  if i < connections.length then .ok (connections.set i (some fd)) else .error (.outside i)

/-- The array after a `realloc` that succeeds. -/
def reallocConnections (connections : Connections) (n : Nat) : Connections :=
  connections.take n ++ List.replicate (n - connections.length) none

/-- `struct client_state`. -/
structure ClientState where
  connections : Connections
  connectionCount : Nat
  deriving DecidableEq, Repr

/-! ### The system calls -/

inductive ClientAct
  | socket (fd : Option Nat)
  | bind (fd : Nat) (source : InAddr) (ok : Bool)
  | connect (fd : Nat) (address : InAddr) (port : UInt16) (ok : Bool)
  | shutdown (fd : Nat)
  | close (fd : Nat)
  | realloc (n : Nat) (ok : Bool)
  | printf (text : List UInt8)
  | perror (text : String)
  deriving DecidableEq

/-- `printf` of a text without an argument that is a string. -/
def say (text : String) : ClientAct := .printf (bytesOf text)

/-- The answers of the kernel while a connection is opened. -/
structure ConnectEnv where
  socket : Option Nat
  bind : Bool
  connect : Bool
  deriving DecidableEq, Repr

def ConnectEnv.succeeds (env : ConnectEnv) : Bool := env.socket.isSome && env.bind && env.connect

/-- `struct timespec`. -/
structure Timespec where
  tvSec : Int
  tvNsec : Int
  deriving DecidableEq, Repr

/-- The answers while a line is handled; the attempts to connect and the times are those of the iterations of the
loop. -/
structure LineEnv where
  attempt : Nat → ConnectEnv
  start : Timespec
  clock : Nat → Timespec
  growRealloc : Bool
  shrinkRealloc : Bool

/-- `connect_to_server`: the descriptor, or `none` for `-1`. -/
def connectToServer (env : ConnectEnv) (address : InAddr) (port : UInt16) (sourceAddress : Option InAddr) :
    Option Nat × List ClientAct :=
  match env.socket with
  | none => (none, [.socket none])
  | some clientFd =>
    let connectIt : Option Nat × List ClientAct :=
      let act := .connect clientFd address port env.connect
      if env.connect then (some clientFd, [act]) else (none, [act])
    match sourceAddress with
    | none => (connectIt.1, .socket (some clientFd) :: connectIt.2)
    | some source =>
      let open_ := [.socket (some clientFd), .bind clientFd source env.bind]
      if env.bind then (connectIt.1, open_ ++ connectIt.2) else (none, open_ ++ [.close clientFd])

/-- `ping_server`. -/
def pingServer (env : ConnectEnv) (args : CliConfig) : Int × List ClientAct :=
  match connectToServer env args.host args.port none with
  | (none, acts) => (-1, acts)
  | (some clientFd, acts) => (0, acts ++ [.shutdown clientFd, .close clientFd])

/-- `iteration_timing`. -/
def iterationTiming (intervalMs : Int) (currentTime lastExecution : Timespec) : Bool × Timespec :=
  let timePassedMs := (currentTime.tvSec - lastExecution.tvSec) * 1000 +
    (currentTime.tvNsec - lastExecution.tvNsec).tdiv 1000000
  let execute := decide (intervalMs ≤ timePassedMs)
  (execute, if execute then currentTime else lastExecution)

/-! ### The commands -/

/-- What a handler returns, the state it leaves and what it did. -/
abbrev HandlerOutcome := Except TableFault (Int × ClientState × List ClientAct)

/-- `cli_ping_server`. -/
def cliPingServer (env : LineEnv) (argc : Nat) (args : CliConfig) (state : ClientState) : HandlerOutcome :=
  if 1 < argc then .ok (0, state, [say "Too many arguments\n"])
  else
    let ping := pingServer (env.attempt 0) args
    if ping.1 = 0 then .ok (0, state, ping.2 ++ [say "Ping successful; server responded\n"])
    else .ok (0, state, ping.2 ++ [.perror "ping_server"])

/-- `cli_exit`. -/
def cliExit (argc : Nat) (state : ClientState) : HandlerOutcome :=
  if 1 < argc then .ok (0, state, [say "Too many arguments\n"]) else .ok (1, state, [])

/-- The variables of the loop that opens connections. -/
structure ConnectLoop where
  connections : Connections
  connectionsEstablished : Nat
  sourceAddress : InAddr
  lastExecution : Timespec
  acts : List ClientAct

def progressText (count target : Nat) : String := toString count ++ " / " ++ toString target

/-- The loop that opens connections, with the number of indices that are left. -/
def connectLoop (order : ByteOrder) (env : LineEnv) (args : CliConfig) (connectionCount target : Nat) :
    Nat → ConnectLoop → Except TableFault ConnectLoop
  | 0, st => .ok st
  | remaining + 1, st => do
    let i := target - (remaining + 1)
    -- the result is not looked at: after a failure, the address of the last call is there
    let sourceAddress := match getSourceAddress order (UInt32.ofNat i) args.sourceRange with
      | .ok out => out
      | .error _ => st.sourceAddress
    let connected := connectToServer (env.attempt i) args.host args.port (some sourceAddress)
    match connected.1 with
    | none =>
      return { st with sourceAddress := sourceAddress, acts := st.acts ++ connected.2 ++ [.perror "connect_to_server"] }
    | some clientFd =>
      let connections ← writeClientFd st.connections i clientFd
      let established := st.connectionsEstablished + 1
      let timing := iterationTiming 50 (env.clock i) st.lastExecution
      let progress := if timing.1 then
        [say ("\r\x1b[K " ++ progressText (connectionCount + established) target)] else []
      connectLoop order env args connectionCount target remaining
        ⟨connections, established, sourceAddress, timing.2, st.acts ++ connected.2 ++ progress⟩

/-- The branch of `cli_connect` that opens connections. -/
def growConnections (order : ByteOrder) (env : LineEnv) (args : CliConfig) (state : ClientState) (target : Nat) :
    HandlerOutcome :=
  match getSourceAddress order (UInt32.ofNat (target - 1)) args.sourceRange with
  | .error _ => .ok (0, state, [say "Not enough source addresses\n"])
  | .ok sourceAddress =>
    if !env.growRealloc then .ok (0, state, [.realloc target false, .perror "realloc"])
    else do
      let st ← connectLoop order env args state.connectionCount target (target - state.connectionCount)
        ⟨reallocConnections state.connections target, 0, sourceAddress, env.start,
          [.realloc target true, say (progressText state.connectionCount target)]⟩
      let connectionCount := state.connectionCount + st.connectionsEstablished
      return (0, ⟨st.connections, connectionCount⟩, st.acts ++
        [say ("\nSuccessfully connected " ++ toString st.connectionsEstablished ++ " new clients\n"),
          say ("Current total: " ++ toString connectionCount ++ "\n")])

/-- The loop that closes connections: `i` goes down from the end to the target. -/
def closeLoop (connections : Connections) (target : Nat) : Nat → Except TableFault (List ClientAct)
  | 0 => .ok []
  | i + 1 =>
    if i < target then .ok []
    else do
      let clientFd ← readClientFd connections i
      let acts ← closeLoop connections target i
      return .shutdown clientFd :: .close clientFd :: acts

/-- The branch of `cli_connect` that closes connections; `realloc` to nothing gives back the array. -/
def shrinkConnections (env : LineEnv) (state : ClientState) (target : Nat) : HandlerOutcome := do
  let acts ← closeLoop state.connections target state.connectionCount
  if !env.shrinkRealloc && target ≠ 0 then
    return (0, state, acts ++ [.realloc target false, .perror "realloc"])
  else
    return (0, ⟨reallocConnections state.connections target, target⟩, acts ++ [.realloc target env.shrinkRealloc,
      say ("Current total: " ++ toString target ++ "\n")])

/-- `cli_connect`. -/
def cliConnect (order : ByteOrder) (env : LineEnv) (argv : List (List UInt8)) (args : CliConfig)
    (state : ClientState) : HandlerOutcome :=
  match argv with
  | _ :: _ :: _ :: _ => .ok (0, state, [say "Too many arguments\n"])
  | [_, arg] =>
    let targetConnections := (strtol arg).value
    if targetConnections < 0 then .ok (0, state, [say "Invalid argument\n"])
    else if 1000000 < targetConnections then .ok (0, state, [say "Too many connections\n"])
    else if targetConnections = state.connectionCount then
      .ok (0, state, [say (toString targetConnections ++ " connections already active\n")])
    else if state.connectionCount < targetConnections then
      growConnections order env args state targetConnections.toNat
    else shrinkConnections env state targetConnections.toNat
  | _ => .ok (0, state, [say "Too few arguments\n"])

/-! ### The command line -/

inductive Handler
  | cliPingServer
  | cliConnect
  | cliExit
  deriving DecidableEq, Repr

/-- `struct command`; without a handler where that is `NULL`. -/
structure Command where
  name : String
  handler : Option Handler
  deriving DecidableEq, Repr

def commands : List Command :=
  [⟨"ping", some .cliPingServer⟩, ⟨"status", none⟩, ⟨"connect", some .cliConnect⟩, ⟨"write", none⟩, ⟨"request", none⟩,
    ⟨"exit", some .cliExit⟩]

def Handler.run (order : ByteOrder) (env : LineEnv) (argv : List (List UInt8)) (args : CliConfig)
    (state : ClientState) : Handler → HandlerOutcome
  | cliPingServer => Mcon.cliPingServer env argv.length args state
  | cliConnect => Mcon.cliConnect order env argv args state
  | cliExit => Mcon.cliExit argv.length state

/-- The words that a line is split into, at most `room` of them. -/
def tokens (delimiters : List UInt8) : Nat → List UInt8 → List (List UInt8)
  | 0, _ => []
  | room + 1, text =>
    match strtokR text delimiters with
    | none => []
    | some (token, rest) => token :: tokens delimiters room rest

/-- The length of `argv`. -/
def argvLength : Nat := 20

def delimiters : List UInt8 := [' '.toUInt8, '\t'.toUInt8, '\n'.toUInt8]

/-- The first command whose name begins the word. -/
def findCommand (word : List UInt8) : Option Command :=
  commands.find? fun command => strncmpEq word (bytesOf command.name) (bytesOf command.name).length

/-- Where the program does something that has no meaning in C: a fault, the call of a handler that is `NULL`, or a line
without words, for which `argv[0]` is a pointer that was left from before. -/
inductive ClientFault
  | table (fault : TableFault)
  | nullHandler
  | noWord
  deriving DecidableEq, Repr

/-- The running program, until `running` is false. -/
structure Client where
  state : ClientState
  acts : List ClientAct
  running : Bool

/-- A line, with what is answered while it is handled. -/
structure Line where
  text : List UInt8
  env : LineEnv

/-- The words of a line; it ends at its first NUL. -/
def Line.argv (line : Line) : List (List UInt8) := tokens delimiters argvLength (line.text.takeWhile (· != 0))

/-- The body of `while (running)`; `getline` fails, or reads a line. -/
def clientLine (order : ByteOrder) (args : CliConfig) (x : Client) : Option Line → Except ClientFault Client
  | none => .ok { x with acts := x.acts ++ [.perror "getline"], running := false }
  | some line =>
    match line.argv with
    | [] => .error .noWord
    | word :: words =>
      match findCommand word with
      | none => .ok { x with acts := x.acts ++ [.printf (bytesOf "Unknown command: " ++ word ++ bytesOf "\n")] }
      | some command =>
        match command.handler with
        | none => .error .nullHandler
        | some handler =>
          match handler.run order line.env (word :: words) args x.state with
          | .error fault => .error (.table fault)
          | .ok (rc, state, acts) => .ok ⟨state, x.acts ++ acts, rc ≠ 1⟩

/-- `command_line_loop`, on the first answers of `getline`. -/
def commandLineLoop (order : ByteOrder) (args : CliConfig) : List (Option Line) → Client → Except ClientFault Client
  | [], x => .ok x
  | line :: lines, x =>
    if x.running then do commandLineLoop order args lines (← clientLine order args x line) else .ok x

/-- `main`, once the options are read and `print_run_config` has printed them. -/
def clientMain (order : ByteOrder) (args : CliConfig) (env : ConnectEnv) (lines : List (Option Line)) :
    Except ClientFault Client :=
  let ping := pingServer env args
  if ping.1 = 0 then
    commandLineLoop order args lines
      ⟨⟨[], 0⟩, ping.2 ++ [say "Ping successful; server responded\n"], true⟩
  else .ok ⟨⟨[], 0⟩, ping.2 ++ [.perror "ping_server"], false⟩

end Mcon
