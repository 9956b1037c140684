import Mathlib.Order.Interval.Finset.Nat
import Mcon.SourceRange
import Mcon.Types

/-!
# The source addresses of the example client (`apps/million_connections/mcon_client.c`)

`get_source_address` hands out the addresses of a range to the connections, 25000 connections to an address.  It takes
the last address of the range for the end that is left out, and multiplies in 32 bits.
-/

namespace Mcon

open Libc

variable {order : ByteOrder} {arg : CString}

/-- `CONNECTIONS_PER_SOURCE_ADDRESS`. -/
def connectionsPerSourceAddress : UInt32 := 25000

/-- `get_source_address`: what `out` points to then, or `errno` where the result is `-1`. -/
def getSourceAddress (order : ByteOrder) (connectionIdx : UInt32) (sourceRange : Ipv4Range) : Except Int InAddr :=
  let minAddress := ntohl order sourceRange.first.sAddr
  let maxAddress := ntohl order sourceRange.final.sAddr
  let numAddresses := maxAddress - minAddress
  if numAddresses * connectionsPerSourceAddress ≤ connectionIdx then .error Errno.einval
  else
    let addressIdx := connectionIdx / connectionsPerSourceAddress
    let targetAddress := minAddress + addressIdx
    .ok ⟨htonl order targetAddress⟩

/-! ### What a range is for -/

/-- The last address of the block of an address. -/
def blockLast (address : UInt32) (prefixLength : Nat) : Nat :=
  address.toNat / 2 ^ (32 - prefixLength) * 2 ^ (32 - prefixLength) + (2 ^ (32 - prefixLength) - 1)

/-- The number of addresses from an address to the end of its block. -/
def addressCount (address : UInt32) (prefixLength : Nat) : Nat := blockLast address prefixLength - address.toNat + 1

/-- On this range `get_source_address` succeeds for the index exactly if the addresses suffice, and gives it the next
address after every 25000 indices. -/
structure ServesIndex (order : ByteOrder) (range : Ipv4Range) (address : UInt32) (prefixLength : Nat) (i : UInt32) :
    Prop where
  succeeds : (∃ out, getSourceAddress order i range = .ok out) ↔ i.toNat < addressCount address prefixLength * 25000
  value {out : InAddr} : getSourceAddress order i range = .ok out →
    (ntohl order out.sAddr).toNat = address.toNat + i.toNat / 25000
  within {out : InAddr} : getSourceAddress order i range = .ok out →
    address.toNat + i.toNat / 25000 ≤ (ntohl order range.final.sAddr).toNat

/-- Every range that `parse_source_range` may accept the argument with ends at the end of the block, and serves the
index. -/
def ArgumentServes (order : ByteOrder) (stack : Vector UInt8 (inetAddrstrlen + 1)) (arg : CString)
    (rangeOut : Ipv4Range) (address : UInt32) (prefixLength : Nat) (i : UInt32) : Prop :=
  ∀ range, Permits (parseSourceRange order stack arg rangeOut) (0, range) →
    (ntohl order range.final.sAddr).toNat = blockLast address prefixLength ∧
      ServesIndex order range address prefixLength i

/-- The indices that are given an address. -/
def servedIndices (order : ByteOrder) (range : Ipv4Range) (out : InAddr) : Finset Nat :=
  (Finset.range (2 ^ 32)).filter fun i => getSourceAddress order (UInt32.ofNat i) range = .ok out

/-- No address of the block from `address` on is left unused. -/
def EveryAddressServed (order : ByteOrder) (range : Ipv4Range) (address : UInt32) (prefixLength : Nat) : Prop :=
  ∀ target : UInt32, address ≤ target → target.toNat ≤ blockLast address prefixLength →
    (servedIndices order range ⟨htonl order target⟩).Nonempty

/-! ### The blocks -/

theorem or_two_pow_sub_one (a k : Nat) : a ||| (2 ^ k - 1) = a / 2 ^ k * 2 ^ k + (2 ^ k - 1) := by
  have hmask : 2 ^ k - 1 < 2 ^ k := Nat.sub_lt (Nat.two_pow_pos k) Nat.one_pos
  apply Nat.eq_of_testBit_eq
  intro j
  rw [Nat.mul_comm, Nat.testBit_two_pow_mul_add _ hmask, Nat.testBit_or, Nat.testBit_two_pow_sub_one,
    Nat.testBit_div_two_pow]
  by_cases hj : j < k
  · simp [hj]
  · simp [hj, Nat.sub_add_cancel (Nat.le_of_not_lt hj)]

theorem toNat_or_hostPart (address : UInt32) (prefixLength : Nat) :
    (address ||| hostPart prefixLength).toNat = blockLast address prefixLength := by
  rw [UInt32.toNat_or, toNat_hostPart, or_two_pow_sub_one, blockLast]

theorem le_blockLast (address : UInt32) (prefixLength : Nat) : address.toNat ≤ blockLast address prefixLength := by
  rw [← toNat_or_hostPart, UInt32.toNat_or]
  exact Nat.left_le_or

theorem le_or_hostPart (address : UInt32) (prefixLength : Nat) : address ≤ address ||| hostPart prefixLength := by
  rw [UInt32.le_iff_toNat_le, toNat_or_hostPart]
  exact le_blockLast address prefixLength

theorem blockLast_lt (address : UInt32) (prefixLength : Nat) : blockLast address prefixLength < 2 ^ 32 := by
  rw [← toNat_or_hostPart]
  exact UInt32.toNat_lt _

theorem blockLast_32 (address : UInt32) : blockLast address 32 = address.toNat := by
  rw [blockLast, Nat.sub_self, Nat.pow_zero, Nat.div_one, Nat.mul_one, Nat.sub_self, Nat.add_zero]

/-! ### One call -/

theorem getSourceAddress_of_le {range : Ipv4Range} {i : UInt32}
    (h : (ntohl order range.final.sAddr - ntohl order range.first.sAddr) * connectionsPerSourceAddress ≤ i) :
    getSourceAddress order i range = .error Errno.einval :=
  if_pos h

theorem getSourceAddress_of_lt {range : Ipv4Range} {i : UInt32}
    (h : i < (ntohl order range.final.sAddr - ntohl order range.first.sAddr) * connectionsPerSourceAddress) :
    getSourceAddress order i range =
      .ok ⟨htonl order (ntohl order range.first.sAddr + i / connectionsPerSourceAddress)⟩ :=
  if_neg (UInt32.not_le.2 h)

theorem getSourceAddress_ok {range : Ipv4Range} {i : UInt32} {out : InAddr}
    (h : getSourceAddress order i range = .ok out) :
    i < (ntohl order range.final.sAddr - ntohl order range.first.sAddr) * connectionsPerSourceAddress ∧
      ntohl order out.sAddr = ntohl order range.first.sAddr + i / connectionsPerSourceAddress := by
  obtain hle | hlt := UInt32.le_or_lt _ i
  · cases (getSourceAddress_of_le hle).symm.trans h
  · cases (getSourceAddress_of_lt hlt).symm.trans h
    exact ⟨hlt, ntohl_htonl order _⟩

theorem getSourceAddress_succeeds_iff {range : Ipv4Range} {i : UInt32} :
    (∃ out, getSourceAddress order i range = .ok out) ↔
      i < (ntohl order range.final.sAddr - ntohl order range.first.sAddr) * connectionsPerSourceAddress :=
  ⟨fun ⟨_, h⟩ => (getSourceAddress_ok h).1, fun h => ⟨_, getSourceAddress_of_lt h⟩⟩

theorem toNat_addressIdx (i : UInt32) : (i / connectionsPerSourceAddress).toNat = i.toNat / 25000 :=
  UInt32.toNat_div i connectionsPerSourceAddress

/-- An address determines the 25000 indices that it is given to. -/
theorem card_servedIndices_le (order : ByteOrder) (range : Ipv4Range) (out : InAddr) :
    (servedIndices order range out).card ≤ 25000 := by
  generalize hpos : (ntohl order out.sAddr - ntohl order range.first.sAddr).toNat = pos
  have hsubset : servedIndices order range out ⊆ Finset.Ico (pos * 25000) (pos * 25000 + 25000) := by
    intro i hi
    obtain ⟨hrange, hserved⟩ := Finset.mem_filter.1 hi
    obtain ⟨-, hout⟩ := getSourceAddress_ok hserved
    have hi' : (UInt32.ofNat i).toNat = i := UInt32.toNat_ofNat_of_lt' (Finset.mem_range.1 hrange)
    rw [hout, UInt32.add_comm, UInt32.add_sub_cancel, toNat_addressIdx, hi'] at hpos
    rw [Finset.mem_Ico]
    omega
  calc (servedIndices order range out).card
    _ ≤ (Finset.Ico (pos * 25000) (pos * 25000 + 25000)).card := Finset.card_le_card hsubset
    _ = 25000 := by rw [Nat.card_Ico, Nat.add_sub_cancel_left]

/-! ### The range of a block -/

/-- The range that is parsed. -/
def blockRange (order : ByteOrder) (address : UInt32) (prefixLength : Nat) : Ipv4Range where
  first := ⟨htonl order address⟩
  final := ⟨htonl order (address ||| hostPart prefixLength)⟩

theorem toNat_numAddresses (address : UInt32) (prefixLength : Nat) :
    ((address ||| hostPart prefixLength) - address).toNat = addressCount address prefixLength - 1 := by
  rw [UInt32.toNat_sub_of_le _ _ (le_or_hostPart address prefixLength), toNat_or_hostPart, addressCount,
    Nat.add_sub_cancel]

theorem blockRange_succeeds_iff (address : UInt32) (prefixLength : Nat) (i : UInt32) :
    (∃ out, getSourceAddress order i (blockRange order address prefixLength) = .ok out) ↔
      i.toNat < (addressCount address prefixLength - 1) * 25000 % 2 ^ 32 := by
  rw [getSourceAddress_succeeds_iff, blockRange, ntohl_htonl, ntohl_htonl, UInt32.lt_iff_toNat_lt, UInt32.toNat_mul,
    toNat_numAddresses]
  rfl

/-- Where it succeeds, the address is one before the end of the block. -/
theorem blockRange_value {address : UInt32} {prefixLength : Nat} {i : UInt32} {out : InAddr}
    (h : getSourceAddress order i (blockRange order address prefixLength) = .ok out) :
    (ntohl order out.sAddr).toNat = address.toNat + i.toNat / 25000 ∧
      address.toNat + i.toNat / 25000 < blockLast address prefixLength := by
  have hlt := (blockRange_succeeds_iff address prefixLength i).1 ⟨out, h⟩
  have hlast := blockLast_lt address prefixLength
  have hmod := Nat.mod_le ((addressCount address prefixLength - 1) * 25000) (2 ^ 32)
  obtain ⟨-, hout⟩ := getSourceAddress_ok h
  rw [blockRange, ntohl_htonl] at hout
  rw [addressCount] at hmod hlt
  have hbefore : address.toNat + i.toNat / 25000 < blockLast address prefixLength := by
    omega
  refine ⟨?_, hbefore⟩
  rw [hout, UInt32.toNat_add, toNat_addressIdx, Nat.mod_eq_of_lt (Nat.lt_trans hbefore hlast)]

theorem blockRange_serves_iff (address : UInt32) (prefixLength : Nat) (i : UInt32) :
    ServesIndex order (blockRange order address prefixLength) address prefixLength i ↔
      addressCount address prefixLength * 25000 ≤ i.toNat ∨
        i.toNat < (addressCount address prefixLength - 1) * 25000 % 2 ^ 32 := by
  have hmod := Nat.mod_le ((addressCount address prefixLength - 1) * 25000) (2 ^ 32)
  constructor
  · intro hserves
    have hiff := hserves.succeeds
    rw [blockRange_succeeds_iff] at hiff
    omega
  · intro hcases
    refine ⟨?_, fun h => (blockRange_value h).1, fun {out} h => ?_⟩
    · rw [blockRange_succeeds_iff]
      omega
    · have hbefore := (blockRange_value h).2
      rw [blockRange, ntohl_htonl, toNat_or_hostPart]
      omega

/-- The last address of a block is given to no index. -/
theorem not_everyAddressServed_blockRange (order : ByteOrder) (address : UInt32) (prefixLength : Nat) :
    ¬ EveryAddressServed order (blockRange order address prefixLength) address prefixLength := by
  intro hall
  obtain ⟨i, hi⟩ := hall _ (le_or_hostPart address prefixLength) (Nat.le_of_eq (toNat_or_hostPart ..))
  obtain ⟨hvalue, hlt⟩ := blockRange_value (Finset.mem_filter.1 hi).2
  rw [ntohl_htonl, toNat_or_hostPart] at hvalue
  omega

/-- A range that ends where it begins gives no address. -/
theorem not_everyAddressServed_single (order : ByteOrder) (address : UInt32) (prefixLength : Nat) :
    ¬ EveryAddressServed order ⟨⟨htonl order address⟩, ⟨htonl order address⟩⟩ address prefixLength := by
  intro hall
  obtain ⟨i, hi⟩ := hall address (UInt32.le_refl address) (le_blockLast address prefixLength)
  obtain ⟨hlt, -⟩ := getSourceAddress_ok (Finset.mem_filter.1 hi).2
  rw [UInt32.sub_self, UInt32.zero_mul] at hlt
  exact UInt32.not_lt_zero hlt

/-! ### The argument and its range -/

/-- An argument in CIDR notation gives the range of its block, unless the network part is the whole address. -/
theorem Denotes.outcome {address : UInt32} {prefixLength : Nat} (h : Denotes arg address prefixLength)
    (order : ByteOrder) (stack : Vector UInt8 (inetAddrstrlen + 1)) (rangeOut : Ipv4Range) :
    prefixLength < 32 ∧ parseSourceRange order stack arg rangeOut = .ok (0, blockRange order address prefixLength) ∨
      prefixLength = 32 ∧ parseSourceRange order stack arg rangeOut = .error (.shift 32) := by
  obtain ⟨text, number, hdelimited, haddress, hnumber⟩ := h
  have houtcome := parseOutcome order stack arg rangeOut
  generalize hresult : parseSourceRange order stack arg rangeOut = result at houtcome
  cases houtcome with
  | noDelimiter hnot => exact absurd hdelimited.mem hnot
  | noNumber hd hnone =>
    obtain ⟨-, rfl⟩ := hd.unique hdelimited
    cases hnone.symm.trans hnumber
  | tooLong hd _ hlong =>
    obtain ⟨rfl, -⟩ := hd.unique hdelimited
    have hlen := length_of_dottedDecimal haddress
    rw [inetAddrstrlen] at hlong
    omega
  | noAddress hd _ _ hnone =>
    obtain ⟨rfl, -⟩ := hd.unique hdelimited
    cases hnone.symm.trans haddress
  | noShift hd hfull _ =>
    obtain ⟨-, rfl⟩ := hd.unique hdelimited
    exact .inr ⟨Option.some.inj (hnumber.symm.trans hfull), rfl⟩
  | range hd hshort hlt haddress' =>
    obtain ⟨rfl, rfl⟩ := hd.unique hdelimited
    obtain rfl := Option.some.inj (hnumber.symm.trans hshort)
    obtain rfl := Option.some.inj (haddress.symm.trans haddress')
    exact .inl ⟨hlt, rfl⟩

/-- For an argument `A/P`, the range and the answer for the index `i` are right exactly if the mask is not shifted by
the width of a word and `i` is beyond the range or below the product that is computed.  No address is given to more than
25000 indices, but no range is used to its end. -/
theorem source_addresses_iff (order : ByteOrder) (stack : Vector UInt8 (inetAddrstrlen + 1)) (rangeOut : Ipv4Range)
    {address : UInt32} {prefixLength : Nat} (h : Denotes arg address prefixLength) :
    (∀ i : UInt32, ArgumentServes order stack arg rangeOut address prefixLength i ↔
      prefixLength < 32 ∧ (addressCount address prefixLength * 25000 ≤ i.toNat ∨
        i.toNat < (addressCount address prefixLength - 1) * 25000 % 2 ^ 32)) ∧
    (∀ range, Permits (parseSourceRange order stack arg rangeOut) (0, range) →
      ∀ out, (servedIndices order range out).card ≤ 25000) ∧
    ¬ ∀ range, Permits (parseSourceRange order stack arg rangeOut) (0, range) →
      EveryAddressServed order range address prefixLength := by
  refine ⟨?_, fun range _ out => card_servedIndices_le order range out, ?_⟩
  · intro i
    obtain ⟨hlt, hparse⟩ | ⟨rfl, hparse⟩ := h.outcome order stack rangeOut
    · rw [ArgumentServes, hparse, and_iff_right hlt, ← @blockRange_serves_iff order]
      constructor
      · intro hserves
        exact (hserves _ rfl).2
      · intro hserves range hrange
        cases hrange
        refine ⟨?_, hserves⟩
        rw [blockRange, ntohl_htonl, toNat_or_hostPart]
    · refine iff_of_false ?_ (fun hcond => Nat.lt_irrefl 32 hcond.1)
      intro hserves
      have hnext := (hserves ⟨⟨htonl order (address + 1)⟩, ⟨htonl order (address + 1)⟩⟩ (by rw [hparse]; trivial)).1
      rw [ntohl_htonl, blockLast_32, UInt32.toNat_inj] at hnext
      exact absurd hnext (by simp)
  · intro hall
    obtain ⟨-, hparse⟩ | ⟨-, hparse⟩ := h.outcome order stack rangeOut
    · exact not_everyAddressServed_blockRange order address prefixLength (hall _ (by rw [hparse]; rfl))
    · exact not_everyAddressServed_single order address prefixLength (hall _ (by rw [hparse]; trivial))

/-- The first index after those of the first address, in the range `127.0.0.2/24`. -/
theorem source_addresses_iff_loopback :
    ArgumentServes .little (Vector.replicate 17 0) (cidrArgument 0x7F000002 24 (by decide)) ⟨⟨0⟩, ⟨0⟩⟩ 0x7F000002 24
      25000 :=
  ((source_addresses_iff .little (Vector.replicate 17 0) ⟨⟨0⟩, ⟨0⟩⟩ (denotes_cidrArgument 0x7F000002 (by decide))).1
    25000).2 ⟨by decide, .inr (by decide)⟩

/-- From the last address of a block to its end there is one address, but it is not given to the first index. -/
theorem last_address_is_refused :
    parseSourceRange .little (Vector.replicate 17 0) (cidrArgument 0x7F0000FF 24 (by decide)) ⟨⟨0⟩, ⟨0⟩⟩ =
        .ok (0, blockRange .little 0x7F0000FF 24) ∧
      getSourceAddress .little 0 (blockRange .little 0x7F0000FF 24) = .error Errno.einval ∧
      addressCount 0x7F0000FF 24 = 1 ∧
      ¬ ArgumentServes .little (Vector.replicate 17 0) (cidrArgument 0x7F0000FF 24 (by decide)) ⟨⟨0⟩, ⟨0⟩⟩ 0x7F0000FF 24
        0 := by
  have hparse : parseSourceRange .little (Vector.replicate 17 0) (cidrArgument 0x7F0000FF 24 (by decide)) ⟨⟨0⟩, ⟨0⟩⟩ =
      .ok (0, blockRange .little 0x7F0000FF 24) := by
    decide
  have hrefused : getSourceAddress .little 0 (blockRange .little 0x7F0000FF 24) = .error Errno.einval := by
    decide
  refine ⟨hparse, hrefused, by decide, ?_⟩
  intro hserves
  obtain ⟨out, hout⟩ := (hserves _ (by rw [hparse]; rfl)).2.succeeds.2 (by decide)
  cases hrefused.symm.trans hout

end Mcon
