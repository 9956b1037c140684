import Mcon.Client

/-!
# The options of the example client

`parse_port` and `parse_args` read the options into the configuration, and `print_run_config` prints it: what is printed
for the host and the port is read back as they are.
-/

namespace Mcon

open Libc

variable {order : ByteOrder} {stack : Vector UInt8 (inetAddrstrlen + 1)} {config config' : CliConfig}

/-- `parse_port`. -/
def parsePort (arg : List UInt8) : Int :=
  let number := strtol arg
  if number.erange = true ∨ number.endIndex = 0 ∨ number.endIndex ≠ arg.length then -1
  else if number.value < 0 ∨ 65535 < number.value then -1
  else number.value

/-- `ARGP_ERR_UNKNOWN`. -/
def argpErrUnknown : Int := 7

/-- `parse_args`: the result and the configuration. -/
def parseArgs (order : ByteOrder) (stack : Vector UInt8 (inetAddrstrlen + 1)) (key : Int) (arg : CString)
    (config : CliConfig) : Checked (Int × CliConfig) :=
  if key = 'p'.toNat then
    let port := parsePort arg.bytes
    if port = -1 then .ok (argpErrUnknown, config) else .ok (0, { config with port := UInt16.ofNat port.toNat })
  else if key = 'H'.toNat then
    match inetPton order arg.bytes with
    | none => .ok (argpErrUnknown, config)
    | some host => .ok (0, { config with host := host })
  else if key = 's'.toNat then do
    let (rc, sourceRange) ← parseSourceRange order stack arg config.sourceRange
    if rc ≠ 0 then return (argpErrUnknown, { config with sourceRange := sourceRange })
    else return (0, { config with sourceRange := sourceRange })
  else .ok (argpErrUnknown, config)

/-- An option, as it is given to `parse_args`. -/
structure CliOption where
  key : Int
  arg : CString

/-- The options one after another; the program ends (`none`) at one that is rejected. -/
def parseOptions (order : ByteOrder) (stack : Vector UInt8 (inetAddrstrlen + 1)) :
    List CliOption → CliConfig → Checked (Option CliConfig)
  | [], config => .ok (some config)
  | option :: options, config => do
    let (rc, config) ← parseArgs order stack option.key option.arg config
    if rc ≠ 0 then return none else parseOptions order stack options config

/-- `inet_ntop` for `AF_INET`. -/
def inetNtop (order : ByteOrder) (address : InAddr) : List UInt8 := addressText (ntohl order address.sAddr)

/-- `print_run_config`. -/
def printRunConfig (order : ByteOrder) (args : CliConfig) : List UInt8 :=
  bytesOf "host         = " ++ inetNtop order args.host ++ bytesOf "\nport         = " ++ decimalText args.port.toNat ++
    bytesOf "\nsource_range = " ++ inetNtop order args.sourceRange.first ++ bytesOf " - " ++
    inetNtop order args.sourceRange.final ++ bytesOf "\n"

/-! ### The options of a configuration -/

theorem zero_notMem_addressText (address : UInt32) : 0 ∉ addressText address := by
  intro hmem
  exact (mem_addressText hmem).1 rfl

theorem zero_notMem_decimalText (n : Nat) : 0 ∉ decimalText n := by
  intro hmem
  exact absurd (isDigit_of_mem_decimalText hmem) (by decide)

def portOption (config : CliConfig) : CliOption :=
  ⟨'p'.toNat, ⟨decimalText config.port.toNat, zero_notMem_decimalText _⟩⟩

def hostOption (order : ByteOrder) (config : CliConfig) : CliOption :=
  ⟨'H'.toNat, ⟨inetNtop order config.host, zero_notMem_addressText _⟩⟩

/-- The option for the range of the block of an address from the address on. -/
def rangeOption (address : UInt32) (prefixLength : Nat) (h : prefixLength ≤ 32) : CliOption :=
  ⟨'s'.toNat, cidrArgument address prefixLength h⟩

/-! ### Reading what is printed -/

theorem parsePort_decimalText (port : UInt16) : parsePort (decimalText port.toNat) = port.toNat := by
  have hport := port.toNat_lt
  have hlong : (port.toNat : Int) ≤ longMax := by
    have hmax : (65536 : Int) ≤ longMax := by decide
    omega
  have hlen : (decimalText port.toNat).length ≠ 0 := fun h => decimalText_ne_nil _ (List.length_eq_zero_iff.1 h)
  simp only [parsePort, strtol_decimalText hlong, Bool.false_eq_true, ne_eq, not_true_eq_false, or_false, false_or]
  rw [if_neg hlen, if_neg (by omega)]

theorem parseArgs_portOption (order : ByteOrder) (stack : Vector UInt8 (inetAddrstrlen + 1))
    (config config' : CliConfig) :
    parseArgs order stack (portOption config).key (portOption config).arg config' =
      .ok (0, { config' with port := config.port }) := by
  simp only [parseArgs, portOption, if_true, parsePort_decimalText, Int.toNat_natCast, UInt16.ofNat_toNat]
  exact if_neg (by omega)

theorem parseArgs_hostOption (order : ByteOrder) (stack : Vector UInt8 (inetAddrstrlen + 1))
    (config config' : CliConfig) :
    parseArgs order stack (hostOption order config).key (hostOption order config).arg config' =
      .ok (0, { config' with host := config.host }) := by
  have hhost : inetPton order (inetNtop order config.host) = some config.host := by
    rw [inetPton, inetNtop, dottedDecimal_addressText, Option.map_some, htonl_ntohl]
  have hkey : ¬ ('H'.toNat : Int) = 'p'.toNat := by decide
  simp only [parseArgs, hostOption, if_neg hkey, if_true, hhost]

theorem parseArgs_rangeOption (order : ByteOrder) (stack : Vector UInt8 (inetAddrstrlen + 1)) (address : UInt32)
    {prefixLength : Nat} (h : prefixLength < 32) (config' : CliConfig) :
    parseArgs order stack (rangeOption address prefixLength (Nat.le_of_lt h)).key
        (rangeOption address prefixLength (Nat.le_of_lt h)).arg config' =
      .ok (0, { config' with sourceRange := blockRange order address prefixLength }) := by
  have hp : ¬ ('s'.toNat : Int) = 'p'.toNat := by decide
  have hH : ¬ ('s'.toNat : Int) = 'H'.toNat := by decide
  have hrange : parseSourceRange order stack (cidrArgument address prefixLength (Nat.le_of_lt h)) config'.sourceRange =
      .ok (0, blockRange order address prefixLength) := by
    obtain ⟨-, hrange⟩ | ⟨rfl, -⟩ :=
      (denotes_cidrArgument address (Nat.le_of_lt h)).outcome order stack config'.sourceRange
    · exact hrange
    · exact absurd h (Nat.lt_irrefl 32)
  simp only [parseArgs, rangeOption, if_neg hp, if_neg hH, if_true, hrange, ok_bind]
  rfl

/-- The options that are printed, or stand for the range. -/
def optionsOf (order : ByteOrder) (config : CliConfig) (address : UInt32) (prefixLength : Nat)
    (h : prefixLength ≤ 32) : List CliOption :=
  [portOption config, hostOption order config, rangeOption address prefixLength h]

/-- Options of a configuration set its fields one by one. -/
theorem parseOptions_spec (order : ByteOrder) (stack : Vector UInt8 (inetAddrstrlen + 1)) {address : UInt32}
    {prefixLength : Nat} (h : prefixLength < 32)
    (hrange : config.sourceRange = blockRange order address prefixLength) (options : List CliOption)
    (hoptions : ∀ o ∈ options, o ∈ optionsOf order config address prefixLength (Nat.le_of_lt h)) (config₀ : CliConfig) :
    ∃ config', parseOptions order stack options config₀ = .ok (some config') ∧
      (config₀.port = config.port ∨ portOption config ∈ options → config'.port = config.port) ∧
      (config₀.host = config.host ∨ hostOption order config ∈ options → config'.host = config.host) ∧
      (config₀.sourceRange = config.sourceRange ∨
        rangeOption address prefixLength (Nat.le_of_lt h) ∈ options → config'.sourceRange = config.sourceRange) := by
  have hkeys : ∀ o o' : CliOption, o.key ≠ o'.key → o ≠ o' := fun o o' hne heq => hne (congrArg CliOption.key heq)
  have hph : portOption config ≠ hostOption order config :=
    hkeys _ _ (show ('p'.toNat : Int) ≠ 'H'.toNat by decide)
  have hpr : portOption config ≠ rangeOption address prefixLength (Nat.le_of_lt h) :=
    hkeys _ _ (show ('p'.toNat : Int) ≠ 's'.toNat by decide)
  have hhr : hostOption order config ≠ rangeOption address prefixLength (Nat.le_of_lt h) :=
    hkeys _ _ (show ('H'.toNat : Int) ≠ 's'.toNat by decide)
  induction options generalizing config₀ with
  | nil => exact ⟨config₀, rfl, by simp, by simp, by simp⟩
  | cons option options ih =>
    have hrest := ih fun o ho => hoptions o (List.mem_cons_of_mem option ho)
    have hoption := hoptions option (List.mem_cons_self ..)
    simp only [optionsOf, List.mem_cons, List.not_mem_nil, or_false] at hoption
    rcases hoption with rfl | rfl | rfl
    · obtain ⟨config', hparse, hport, hhost, hsource⟩ := hrest { config₀ with port := config.port }
      refine ⟨config', ?_, fun _ => hport (.inl rfl), ?_, ?_⟩
      · rw [parseOptions, parseArgs_portOption]
        exact hparse
      · simpa [hph.symm] using hhost
      · simpa [hpr.symm] using hsource
    · obtain ⟨config', hparse, hport, hhost, hsource⟩ := hrest { config₀ with host := config.host }
      refine ⟨config', ?_, ?_, fun _ => hhost (.inl rfl), ?_⟩
      · rw [parseOptions, parseArgs_hostOption]
        exact hparse
      · simpa [hph] using hport
      · simpa [hhr.symm] using hsource
    · obtain ⟨config', hparse, hport, hhost, hsource⟩ := hrest { config₀ with sourceRange := config.sourceRange }
      refine ⟨config', ?_, ?_, ?_, fun _ => hsource (.inl rfl)⟩
      · rw [parseOptions, parseArgs_rangeOption order stack address h, ← hrange]
        exact hparse
      · simpa [hpr] using hport
      · simpa [hhr] using hhost

/-- A configuration whose range is that of a block, given by its options in any order and any number of times, with what
is printed for its host and its port, is read back whatever the configuration was before. -/
theorem options_read_back_printed_configuration (order : ByteOrder) (stack : Vector UInt8 (inetAddrstrlen + 1))
    {config : CliConfig} {address : UInt32} {prefixLength : Nat} (h : prefixLength < 32)
    (hrange : config.sourceRange = blockRange order address prefixLength) {options : List CliOption}
    (hoptions : ∀ o, o ∈ options ↔ o ∈ optionsOf order config address prefixLength (Nat.le_of_lt h))
    (config₀ : CliConfig) : parseOptions order stack options config₀ = .ok (some config) := by
  have hgiven : ∀ o ∈ optionsOf order config address prefixLength (Nat.le_of_lt h), o ∈ options :=
    fun o ho => (hoptions o).2 ho
  obtain ⟨config', hparse, hport, hhost, hsource⟩ :=
    parseOptions_spec order stack h hrange options (fun o ho => (hoptions o).1 ho) config₀
  rw [hparse]
  have heq : config' = config := by
    obtain ⟨port', host', sourceRange'⟩ := config'
    obtain ⟨port, host, sourceRange⟩ := config
    obtain rfl := hport (.inr (hgiven _ (by simp [optionsOf])))
    obtain rfl := hhost (.inr (hgiven _ (by simp [optionsOf])))
    obtain rfl := hsource (.inr (hgiven _ (by simp [optionsOf])))
    rfl
  rw [heq]

/-- `-p 8080 -H 0.0.0.0 -s 127.0.0.2/27`. -/
theorem options_read_back_printed_configuration_default :
    parseOptions .little (Vector.replicate 17 0)
      (optionsOf .little ⟨8080, ⟨0⟩, blockRange .little 0x7F000002 27⟩ 0x7F000002 27 (by decide))
      ⟨0, ⟨1⟩, ⟨⟨0⟩, ⟨0⟩⟩⟩ = .ok (some ⟨8080, ⟨0⟩, blockRange .little 0x7F000002 27⟩) :=
  options_read_back_printed_configuration .little (Vector.replicate 17 0) (by decide) rfl (fun _ => Iff.rfl) _

/-- A rejected option changes nothing. -/
theorem parseArgs_rejected {key rc : Int} {arg : CString}
    (h : parseArgs order stack key arg config = .ok (rc, config')) (hrc : rc ≠ 0) : config' = config := by
  rw [parseArgs] at h
  split_ifs at h with hp hH hs
  · dsimp only at h
    split_ifs at h
    · cases h
      rfl
    · cases h
      exact absurd rfl hrc
  · split at h
    · cases h
      rfl
    · cases h
      exact absurd rfl hrc
  · have houtcome := parseOutcome order stack arg config.sourceRange
    generalize parseSourceRange order stack arg config.sourceRange = result at h houtcome
    cases houtcome <;> cases h
    · rfl
    · rfl
    · rfl
    · exact absurd rfl hrc
  · cases h
    rfl

/-! ### What is printed -/

theorem notMem_inetNtop {ch : UInt8} (hdigit : isDigit ch = false) (hdot : ch ≠ '.'.toUInt8) (order : ByteOrder)
    (address : InAddr) : ch ∉ inetNtop order address := by
  intro hmem
  rcases isDigit_or_dot_of_mem_addressText hmem with h | h
  · exact absurd h (by simp [hdigit])
  · exact hdot h

theorem inetNtop_injective {address address' : InAddr} (h : inetNtop order address = inetNtop order address') :
    address = address' := by
  have hhost := congrArg dottedDecimal h
  rw [inetNtop, inetNtop, dottedDecimal_addressText, dottedDecimal_addressText] at hhost
  have hword := congrArg (htonl order) (Option.some.inj hhost)
  rw [htonl_ntohl, htonl_ntohl] at hword
  obtain ⟨word⟩ := address
  obtain ⟨word'⟩ := address'
  exact congrArg InAddr.mk hword

/-- The arguments of `-H` and `-p` are what the lines of the host and of the port hold. -/
theorem printRunConfig_options (order : ByteOrder) (config : CliConfig) :
    ∃ range, printRunConfig order config =
        bytesOf "host         = " ++ (hostOption order config).arg.bytes ++ '\n'.toUInt8 ::
          bytesOf "port         = " ++ (portOption config).arg.bytes ++ '\n'.toUInt8 :: range ∧
      '\n'.toUInt8 ∉ (hostOption order config).arg.bytes ∧ '\n'.toUInt8 ∉ (portOption config).arg.bytes := by
  have hport : bytesOf "\nport         = " = '\n'.toUInt8 :: bytesOf "port         = " := by decide
  have hsource : bytesOf "\nsource_range = " = '\n'.toUInt8 :: bytesOf "source_range = " := by decide
  refine ⟨bytesOf "source_range = " ++ inetNtop order config.sourceRange.first ++ bytesOf " - " ++
    inetNtop order config.sourceRange.final ++ bytesOf "\n", ?_, ?_, ?_⟩
  · simp only [printRunConfig, hport, hsource, hostOption, portOption, List.append_assoc, List.cons_append]
  · exact notMem_inetNtop (by decide) (by decide) order config.host
  · exact fun hmem => absurd (isDigit_of_mem_decimalText hmem) (by decide)

/-- What is printed determines the configuration. -/
theorem printRunConfig_injective (h : printRunConfig order config = printRunConfig order config') :
    config = config' := by
  -- each text ends where a byte follows that is in none of its kind
  have hport : bytesOf "\nport         = " = '\n'.toUInt8 :: bytesOf "port         = " := by decide
  have hsource : bytesOf "\nsource_range = " = '\n'.toUInt8 :: bytesOf "source_range = " := by decide
  have hbetween : bytesOf " - " = ' '.toUInt8 :: bytesOf "- " := by decide
  have hline : ∀ address, '\n'.toUInt8 ∉ inetNtop order address := notMem_inetNtop (by decide) (by decide) order
  have hblank : ∀ address, ' '.toUInt8 ∉ inetNtop order address := notMem_inetNtop (by decide) (by decide) order
  have hnumber : ∀ n, '\n'.toUInt8 ∉ decimalText n := fun n hmem =>
    absurd (isDigit_of_mem_decimalText hmem) (by decide)
  simp only [printRunConfig, hport, hsource, hbetween, List.append_assoc, List.cons_append] at h
  obtain ⟨hhost, h⟩ := delimited_unique (hline _) (hline _) (List.append_cancel_left h)
  obtain ⟨hport, h⟩ := delimited_unique (hnumber _) (hnumber _) (List.append_cancel_left h)
  obtain ⟨hfirst, h⟩ := delimited_unique (hblank _) (hblank _) (List.append_cancel_left h)
  have hfinal := List.append_cancel_right (List.append_cancel_left h)
  have hport := congrArg decimal hport
  rw [decimal_decimalText, decimal_decimalText, UInt16.toNat_inj] at hport
  obtain ⟨port, host, first, final⟩ := config
  obtain ⟨port', host', first', final'⟩ := config'
  obtain rfl := inetNtop_injective hhost
  obtain rfl : port = port' := hport
  obtain rfl := inetNtop_injective hfirst
  obtain rfl := inetNtop_injective hfinal
  rfl

end Mcon
