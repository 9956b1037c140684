import Mcon.Library.Libc

/-!
# The source range of the example client (`apps/million_connections/mcon_client.c`)

`parse_source_range` reads an address and the length of its network part, in CIDR notation, into the first and the last
address of a range.
-/

namespace Mcon

open Libc

variable {order : ByteOrder} {arg : CString}

/-- `struct ipv4_range`. -/
structure Ipv4Range where
  first : InAddr
  final : InAddr
  deriving DecidableEq, Repr

/-- `INET_ADDRSTRLEN`. -/
def inetAddrstrlen : Nat := 16

/-- The loop over the argument that looks for the delimiter, from an index on. -/
def delimiterLoop : List UInt8 → Nat → Nat
  | [], delimiterIndex => delimiterIndex
  | ch :: rest, delimiterIndex =>
    if ch ≠ '/'.toUInt8 then delimiterLoop rest (delimiterIndex + 1) else delimiterIndex

/-- The number after the delimiter, if it passes the checks. -/
def parsePrefixLength (text : List UInt8) : Option Nat :=
  let number := strtol text
  if number.erange = true ∨ number.endIndex = 0 ∨ number.endIndex ≠ text.length ∨ number.value < 0 ∨
      32 < number.value then none
  else some number.value.toNat

def hostMask (prefixLength : Nat) : Checked UInt32 :=
  if prefixLength = 0 then .ok 0xFFFFFFFF else shiftRight 0xFFFFFFFF prefixLength

/-- `parse_source_range`: the result and what `range_out` points to.  The buffer for the address has the contents of
the `stack`. -/
def parseSourceRange (order : ByteOrder) (stack : Vector UInt8 (inetAddrstrlen + 1)) (arg : CString)
    (rangeOut : Ipv4Range) : Checked (Int × Ipv4Range) :=
  let delimiterIndex := delimiterLoop arg.bytes 0
  if delimiterIndex = arg.bytes.length then .ok (-1, rangeOut)
  else match parsePrefixLength (arg.bytes.drop (delimiterIndex + 1)) with
  | none => .ok (-1, rangeOut)
  | some prefixLength => do
    let addressStr ← memcpy stack 0 (arg.bytes.take delimiterIndex)
    let addressStr ← store addressStr delimiterIndex 0
    match inetPton order (stringAt addressStr) with
    | none => return (-1, rangeOut)
    | some address =>
      let addressHost := ntohl order address.sAddr
      let hostMask ← hostMask prefixLength
      return (0, ⟨⟨htonl order addressHost⟩, ⟨htonl order (addressHost ||| hostMask)⟩⟩)

/-! ### The parts of the argument -/

/-- The argument is the `text` before its first delimiter and the `number` after it. -/
def Delimited (arg : CString) (text number : List UInt8) : Prop :=
  arg.bytes = text ++ '/'.toUInt8 :: number ∧ '/'.toUInt8 ∉ text

theorem delimiterLoop_of_notMem {bytes : List UInt8} (h : '/'.toUInt8 ∉ bytes) (i : Nat) :
    delimiterLoop bytes i = i + bytes.length := by
  induction bytes generalizing i with
  | nil => rfl
  | cons ch rest ih =>
    rw [List.mem_cons, not_or] at h
    rw [delimiterLoop, if_pos (Ne.symm h.1), ih h.2, List.length_cons]
    omega

theorem delimiterLoop_append {text : List UInt8} (h : '/'.toUInt8 ∉ text) (number : List UInt8) (i : Nat) :
    delimiterLoop (text ++ '/'.toUInt8 :: number) i = i + text.length := by
  induction text generalizing i with
  | nil => rfl
  | cons ch rest ih =>
    rw [List.mem_cons, not_or] at h
    rw [List.cons_append, delimiterLoop, if_pos (Ne.symm h.1), ih h.2, List.length_cons]
    omega

theorem exists_delimited (h : '/'.toUInt8 ∈ arg.bytes) : ∃ text number, Delimited arg text number := by
  obtain ⟨text, number, hbytes, hnot⟩ := List.eq_append_cons_of_mem h
  exact ⟨text, number, hbytes, hnot⟩

theorem Delimited.delimiterLoop {text number : List UInt8} (h : Delimited arg text number) :
    delimiterLoop arg.bytes 0 = text.length := by
  rw [h.1, delimiterLoop_append h.2, Nat.zero_add]

theorem Delimited.length_lt {text number : List UInt8} (h : Delimited arg text number) :
    text.length < arg.bytes.length := by
  rw [h.1, List.length_append, List.length_cons]
  omega

theorem Delimited.take {text number : List UInt8} (h : Delimited arg text number) :
    arg.bytes.take text.length = text := by
  rw [h.1, List.take_left]

theorem Delimited.drop {text number : List UInt8} (h : Delimited arg text number) :
    arg.bytes.drop (text.length + 1) = number := by
  rw [h.1, ← List.drop_drop, List.drop_left, List.drop_one, List.tail_cons]

theorem Delimited.unique {text number text' number' : List UInt8} (h : Delimited arg text number)
    (h' : Delimited arg text' number') : text = text' ∧ number = number' := by
  have hlen : text.length = text'.length := h.delimiterLoop.symm.trans h'.delimiterLoop
  refine ⟨?_, ?_⟩
  · rw [← h.take, hlen, h'.take]
  · rw [← h.drop, hlen, h'.drop]

theorem Delimited.zero_notMem {text number : List UInt8} (h : Delimited arg text number) : 0 ∉ text := by
  intro hmem
  apply arg.noNul
  rw [h.1]
  exact List.mem_append_left _ hmem

/-- The argument denotes an address and a number from 0 to 32 in CIDR notation. -/
def Denotes (arg : CString) (address : UInt32) (prefixLength : Nat) : Prop :=
  ∃ text number, Delimited arg text number ∧ dottedDecimal text = some address ∧
    parsePrefixLength number = some prefixLength

def cidrText (address : UInt32) (prefixLength : Nat) : List UInt8 :=
  addressText address ++ '/'.toUInt8 :: octetText prefixLength

theorem zero_notMem_cidrText (address : UInt32) {prefixLength : Nat} (h : prefixLength ≤ 32) :
    0 ∉ cidrText address prefixLength := by
  intro hmem
  rw [cidrText, List.mem_append, List.mem_cons] at hmem
  obtain haddress | hslash | hnumber := hmem
  · exact (mem_addressText haddress).1 rfl
  · exact absurd hslash (by decide)
  · obtain ⟨d, hd, hzero⟩ := mem_octetText (by omega) hnumber
    exact (digitChar_ne d hd).1 hzero.symm

def cidrArgument (address : UInt32) (prefixLength : Nat) (h : prefixLength ≤ 32) : CString :=
  ⟨cidrText address prefixLength, zero_notMem_cidrText address h⟩

theorem parsePrefixLength_octetText : ∀ prefixLength < 33,
    parsePrefixLength (octetText prefixLength) = some prefixLength := by
  decide

/-- Every address and every number from 0 to 32 are denoted by an argument. -/
theorem denotes_cidrArgument (address : UInt32) {prefixLength : Nat} (h : prefixLength ≤ 32) :
    Denotes (cidrArgument address prefixLength h) address prefixLength := by
  refine ⟨addressText address, octetText prefixLength, ⟨rfl, ?_⟩, dottedDecimal_addressText address,
    parsePrefixLength_octetText prefixLength (Nat.lt_succ_of_le h)⟩
  intro hmem
  exact (mem_addressText hmem).2 rfl

/-! ### The outcomes of the call -/

/-- The mask of the host part, for a network part that is shorter than the address. -/
def hostPart (prefixLength : Nat) : UInt32 := .ofNat (2 ^ (32 - prefixLength) - 1)

theorem toNat_hostPart (prefixLength : Nat) : (hostPart prefixLength).toNat = 2 ^ (32 - prefixLength) - 1 := by
  have hle : 2 ^ (32 - prefixLength) ≤ 2 ^ 32 := Nat.pow_le_pow_right (by decide) (Nat.sub_le 32 prefixLength)
  rw [hostPart, UInt32.toNat_ofNat']
  omega

theorem hostMask_of_lt : ∀ prefixLength < 32, hostMask prefixLength = .ok (hostPart prefixLength) := by decide

/-- How the call can end, by the shape of its argument. -/
inductive ParseOutcome (order : ByteOrder) (arg : CString) (rangeOut : Ipv4Range) : Checked (Int × Ipv4Range) → Prop
  | noDelimiter (h : '/'.toUInt8 ∉ arg.bytes) : ParseOutcome order arg rangeOut (.ok (-1, rangeOut))
  | noNumber {text number : List UInt8} (h : Delimited arg text number) (hnumber : parsePrefixLength number = none) :
    ParseOutcome order arg rangeOut (.ok (-1, rangeOut))
  | tooLong {text number : List UInt8} {prefixLength : Nat} (h : Delimited arg text number)
    (hnumber : parsePrefixLength number = some prefixLength) (hlen : inetAddrstrlen < text.length) :
    ParseOutcome order arg rangeOut (.error (.store (inetAddrstrlen + 1)))
  | noAddress {text number : List UInt8} {prefixLength : Nat} (h : Delimited arg text number)
    (hnumber : parsePrefixLength number = some prefixLength) (hlen : text.length ≤ inetAddrstrlen)
    (haddress : dottedDecimal text = none) : ParseOutcome order arg rangeOut (.ok (-1, rangeOut))
  | noShift {text number : List UInt8} {address : UInt32} (h : Delimited arg text number)
    (hnumber : parsePrefixLength number = some 32) (haddress : dottedDecimal text = some address) :
    ParseOutcome order arg rangeOut (.error (.shift 32))
  | range {text number : List UInt8} {prefixLength : Nat} {address : UInt32} (h : Delimited arg text number)
    (hnumber : parsePrefixLength number = some prefixLength) (hlt : prefixLength < 32)
    (haddress : dottedDecimal text = some address) :
    ParseOutcome order arg rangeOut
      (.ok (0, ⟨⟨htonl order address⟩, ⟨htonl order (address ||| hostPart prefixLength)⟩⟩))

theorem parsePrefixLength_le {text : List UInt8} {prefixLength : Nat} (h : parsePrefixLength text = some prefixLength) :
    prefixLength ≤ 32 := by
  simp only [parsePrefixLength] at h
  split_ifs at h with hchecks
  obtain rfl := Option.some.inj h
  omega

theorem parseOutcome (order : ByteOrder) (stack : Vector UInt8 (inetAddrstrlen + 1)) (arg : CString)
    (rangeOut : Ipv4Range) : ParseOutcome order arg rangeOut (parseSourceRange order stack arg rangeOut) := by
  by_cases hmem : '/'.toUInt8 ∈ arg.bytes
  · obtain ⟨text, number, h⟩ := exists_delimited hmem
    rw [parseSourceRange, h.delimiterLoop]
    dsimp only
    rw [if_neg (Nat.ne_of_lt h.length_lt), h.drop, h.take]
    cases hnumber : parsePrefixLength number with
    | none => exact .noNumber h hnumber
    | some prefixLength =>
      obtain hlong | hshort := Nat.lt_or_ge inetAddrstrlen text.length
      · obtain hcopy | ⟨array, hcopy, hstore⟩ := copy_of_le stack (Nat.succ_le_of_lt hlong)
        · simp only [hcopy, error_bind]
          exact .tooLong h hnumber hlong
        · simp only [hcopy, hstore, ok_bind, error_bind]
          exact .tooLong h hnumber hlong
      · obtain ⟨array, array', hcopy, hstore, htext⟩ := copy_of_lt stack h.zero_notMem (Nat.lt_succ_of_le hshort)
        simp only [hcopy, hstore, htext, inetPton, ok_bind]
        cases haddress : dottedDecimal text with
        | none => exact .noAddress h hnumber hshort haddress
        | some address =>
          simp only [Option.map_some, ntohl_htonl]
          obtain hlt | rfl := Nat.lt_or_eq_of_le (parsePrefixLength_le hnumber)
          · rw [hostMask_of_lt _ hlt]
            exact .range h hnumber hlt haddress
          · exact .noShift h hnumber haddress
  · rw [parseSourceRange, delimiterLoop_of_notMem hmem, Nat.zero_add]
    dsimp only
    rw [if_pos rfl]
    exact .noDelimiter hmem

/-! ### Safety of the call -/

/-- `parse_source_range` stores inside its buffer only, shifts by less than the width of a word, rejects what is too
long for the buffer, and leaves `*range_out` as it was where it returns `-1`. -/
structure ParsesSafely (order : ByteOrder) (stack : Vector UInt8 (inetAddrstrlen + 1)) (arg : CString)
    (rangeOut : Ipv4Range) : Prop where
  stores (index : Nat) : parseSourceRange order stack arg rangeOut ≠ .error (.store index)
  shifts (count : Nat) : parseSourceRange order stack arg rangeOut ≠ .error (.shift count)
  rejects {text number : List UInt8} : Delimited arg text number → inetAddrstrlen < text.length →
    ∃ range, parseSourceRange order stack arg rangeOut = .ok (-1, range)
  unchanged {range : Ipv4Range} : parseSourceRange order stack arg rangeOut = .ok (-1, range) → range = rangeOut

/-- Where a number from 0 to 32 follows the first delimiter, the text before it has room in the buffer, and is no
address if the number is 32. -/
def SafeArgument (arg : CString) : Prop :=
  ∀ text number prefixLength, Delimited arg text number → parsePrefixLength number = some prefixLength →
    text.length ≤ inetAddrstrlen ∧ (prefixLength = 32 → dottedDecimal text = none)

theorem Delimited.mem {text number : List UInt8} (h : Delimited arg text number) : '/'.toUInt8 ∈ arg.bytes := by
  rw [h.1]
  exact List.mem_append_right _ (List.mem_cons_self ..)

theorem ParsesSafely.of_rejected {stack : Vector UInt8 (inetAddrstrlen + 1)} {rangeOut : Ipv4Range}
    (h : parseSourceRange order stack arg rangeOut = .ok (-1, rangeOut)) : ParsesSafely order stack arg rangeOut where
  stores index hfault := by cases h.symm.trans hfault
  shifts count hfault := by cases h.symm.trans hfault
  rejects _ _ := ⟨rangeOut, h⟩
  unchanged hrange := by
    cases h.symm.trans hrange
    rfl

theorem ParsesSafely.of_range {stack : Vector UInt8 (inetAddrstrlen + 1)} {rangeOut range : Ipv4Range}
    {text number : List UInt8} (h : parseSourceRange order stack arg rangeOut = .ok (0, range))
    (hdelimited : Delimited arg text number) (hlen : text.length ≤ inetAddrstrlen) :
    ParsesSafely order stack arg rangeOut where
  stores index hfault := by cases h.symm.trans hfault
  shifts count hfault := by cases h.symm.trans hfault
  rejects hdelimited' hlong := by
    obtain ⟨rfl, -⟩ := hdelimited.unique hdelimited'
    exact absurd hlen (Nat.not_le_of_lt hlong)
  unchanged hrange := by
    cases h.symm.trans hrange

/-- The call is safe exactly for the safe arguments, whatever the stack holds. -/
theorem parses_safely_iff (order : ByteOrder) (stack : Vector UInt8 (inetAddrstrlen + 1)) (arg : CString)
    (rangeOut : Ipv4Range) : ParsesSafely order stack arg rangeOut ↔ SafeArgument arg := by
  have houtcome := parseOutcome order stack arg rangeOut
  generalize hresult : parseSourceRange order stack arg rangeOut = result at houtcome
  cases houtcome with
  | noDelimiter hnot =>
    refine iff_of_true (.of_rejected hresult) ?_
    intro text number prefixLength h _
    exact absurd h.mem hnot
  | noNumber hd hnone =>
    refine iff_of_true (.of_rejected hresult) ?_
    intro text number prefixLength h hnumber
    obtain ⟨-, rfl⟩ := hd.unique h
    cases hnone.symm.trans hnumber
  | tooLong hd hnumber hlong =>
    refine iff_of_false (fun hsafe => hsafe.stores _ hresult) ?_
    intro hsafe
    exact absurd (hsafe _ _ _ hd hnumber).1 (Nat.not_le_of_lt hlong)
  | noAddress hd hnumber hlen hnone =>
    refine iff_of_true (.of_rejected hresult) ?_
    intro text number prefixLength h _
    obtain ⟨rfl, -⟩ := hd.unique h
    exact ⟨hlen, fun _ => hnone⟩
  | noShift hd hnumber haddress =>
    refine iff_of_false (fun hsafe => hsafe.shifts _ hresult) ?_
    intro hsafe
    cases haddress.symm.trans ((hsafe _ _ _ hd hnumber).2 rfl)
  | range hd hnumber hlt haddress =>
    have hlen : _ ≤ inetAddrstrlen := Nat.le_succ_of_le (length_of_dottedDecimal haddress)
    refine iff_of_true (.of_range hresult hd hlen) ?_
    intro text number prefixLength h hnumber'
    obtain ⟨rfl, rfl⟩ := hd.unique h
    obtain rfl := Option.some.inj (hnumber.symm.trans hnumber')
    exact ⟨hlen, fun h32 => absurd h32 (Nat.ne_of_lt hlt)⟩

/-- Seventeen characters before the delimiter. -/
def tooLongArgument : CString where
  bytes := List.replicate 17 '1'.toUInt8 ++ ['/'.toUInt8, '8'.toUInt8]
  noNul := by decide

/-- The terminator of the copy goes past the end of the buffer; a network part of 32 bits shifts the mask by 32. -/
theorem too_long_argument_is_stored :
    parseSourceRange .little (Vector.replicate 17 0) tooLongArgument ⟨⟨0⟩, ⟨0⟩⟩ = .error (.store 17) ∧
      ¬ ParsesSafely .little (Vector.replicate 17 0) tooLongArgument ⟨⟨0⟩, ⟨0⟩⟩ ∧
      parseSourceRange .little (Vector.replicate 17 0) (cidrArgument 0x7F000001 32 (by decide)) ⟨⟨0⟩, ⟨0⟩⟩ =
        .error (.shift 32) := by
  have hstore : parseSourceRange .little (Vector.replicate 17 0) tooLongArgument ⟨⟨0⟩, ⟨0⟩⟩ = .error (.store 17) := by
    decide
  have hshift : parseSourceRange .little (Vector.replicate 17 0) (cidrArgument 0x7F000001 32 (by decide)) ⟨⟨0⟩, ⟨0⟩⟩ =
      .error (.shift 32) := by
    decide
  exact ⟨hstore, fun hsafe => hsafe.stores 17 hstore, hshift⟩

end Mcon
