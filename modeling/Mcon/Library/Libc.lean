import Mathlib.Algebra.Group.Nat.Defs
import Mathlib.Data.List.TakeWhile

/-!
# Strings and addresses of the C library

Byte strings, `strtol`, `inet_pton` and the conversions between the byte order of the host and that of the network, on
a platform with a 32-bit `int` and a 64-bit `long`.  A computation that stores outside an array or shifts a word by its
width or more has no meaning in C; it ends in a `Fault`.
-/

namespace Libc

/-! ### What has no meaning -/

inductive Fault
  /-- A store outside an array, at this index. -/
  | store (index : Nat)
  /-- A shift of a 32-bit word by this count. -/
  | shift (count : Nat)
  deriving DecidableEq, Repr

abbrev Checked (α : Type) := Except Fault α

@[simp] theorem ok_bind {α β : Type} (x : α) (f : α → Checked β) : (Except.ok x >>= f) = f x := rfl

@[simp] theorem error_bind {α β : Type} (fault : Fault) (f : α → Checked β) :
    (Except.error fault >>= f) = .error fault := rfl

/-- The outcomes of a computation: any at all after a fault. -/
def Permits {α : Type} : Checked α → α → Prop
  | .ok value, outcome => value = outcome
  | .error _, _ => True

def store {n : Nat} (dst : Vector UInt8 n) (index : Nat) (byte : UInt8) : Checked (Vector UInt8 n) :=
  if h : index < n then .ok (dst.set index byte h) else .error (.store index)

/-- `memcpy` to the array from an index on. -/
def memcpy {n : Nat} : Vector UInt8 n → Nat → List UInt8 → Checked (Vector UInt8 n)
  | dst, _, [] => .ok dst
  | dst, index, byte :: src => do
    let dst ← store dst index byte
    memcpy dst (index + 1) src

def shiftRight (x : UInt32) (count : Nat) : Checked UInt32 :=
  if count < 32 then .ok (x >>> UInt32.ofNat count) else .error (.shift count)

theorem store_of_lt {n : Nat} (dst : Vector UInt8 n) {index : Nat} (byte : UInt8) (h : index < n) :
    ∃ dst', store dst index byte = .ok dst' ∧ dst'.toList = dst.toList.set index byte :=
  ⟨dst.set index byte h, by rw [store, dif_pos h], Vector.toList_set _⟩

theorem memcpy_of_le {n : Nat} (dst : Vector UInt8 n) {index : Nat} {src : List UInt8} (h : index + src.length ≤ n) :
    ∃ dst', memcpy dst index src = .ok dst' ∧
      dst'.toList.take (index + src.length) = dst.toList.take index ++ src := by
  induction src generalizing dst index with
  | nil => exact ⟨dst, rfl, by simp⟩
  | cons byte src ih =>
    rw [List.length_cons] at h
    obtain ⟨dst₁, hstore, hlist₁⟩ := store_of_lt dst byte (show index < n by omega)
    obtain ⟨dst', hcopy, hlist⟩ := ih dst₁ (show index + 1 + src.length ≤ n by omega)
    refine ⟨dst', by rw [memcpy, hstore]; exact hcopy, ?_⟩
    have hlen : index < dst.toList.length := by
      rw [Vector.length_toList]
      omega
    have htake : dst₁.toList.take (index + 1) = dst.toList.take index ++ [byte] := by
      rw [hlist₁, List.take_add_one, List.getElem?_set_self hlen, List.take_set_of_le (Nat.le_refl index)]
      rfl
    rw [List.length_cons, Nat.add_comm src.length 1, ← Nat.add_assoc, hlist, htake, List.append_assoc]
    rfl

theorem memcpy_of_lt {n : Nat} (dst : Vector UInt8 n) {index : Nat} {src : List UInt8} (hle : index ≤ n)
    (h : n < index + src.length) : memcpy dst index src = .error (.store n) := by
  induction src generalizing dst index with
  | nil => simp at h; omega
  | cons byte src ih =>
    rw [List.length_cons] at h
    rw [memcpy]
    by_cases hlt : index < n
    · obtain ⟨dst₁, hstore, -⟩ := store_of_lt dst byte hlt
      rw [hstore]
      exact ih dst₁ hlt (by omega)
    · obtain rfl : index = n := by omega
      rw [store, dif_neg hlt]
      rfl

/-! ### Strings -/

/-- The bytes of a string before its terminator. -/
structure CString where
  bytes : List UInt8
  noNul : 0 ∉ bytes

/-- The bytes of the string at the start of an array that holds a NUL. -/
def stringAt {n : Nat} (array : Vector UInt8 n) : List UInt8 := array.toList.takeWhile (· != 0)

/-- A string is copied with its terminator into an array that has room for both. -/
theorem copy_of_lt {n : Nat} (array : Vector UInt8 n) {text : List UInt8} (hnul : 0 ∉ text) (hlt : text.length < n) :
    ∃ array₁ array₂, memcpy array 0 text = .ok array₁ ∧ store array₁ text.length 0 = .ok array₂ ∧
      stringAt array₂ = text := by
  have hle : 0 + text.length ≤ n := by omega
  obtain ⟨array₁, hcopy, htake⟩ := memcpy_of_le array hle
  obtain ⟨array₂, hstore, hlist⟩ := store_of_lt array₁ 0 hlt
  refine ⟨array₁, array₂, hcopy, hstore, ?_⟩
  have hlen : text.length < array₁.toList.length := by
    rw [Vector.length_toList]
    exact hlt
  rw [Nat.zero_add, List.take_zero, List.nil_append] at htake
  rw [stringAt, hlist, List.set_eq_take_append_cons_drop, if_pos hlen, htake, List.takeWhile_append_of_pos]
  · simp
  · intro byte hbyte
    exact bne_iff_ne.2 fun hzero => hnul (hzero ▸ hbyte)

/-- Without that room the copy, or the terminator, goes past the end of the array. -/
theorem copy_of_le {n : Nat} (array : Vector UInt8 n) {text : List UInt8} (h : n ≤ text.length) :
    memcpy array 0 text = .error (.store n) ∨
      ∃ array₁, memcpy array 0 text = .ok array₁ ∧ store array₁ text.length 0 = .error (.store n) := by
  obtain hlt | rfl := Nat.lt_or_eq_of_le h
  · exact .inl (memcpy_of_lt array (Nat.zero_le n) (by omega))
  · obtain ⟨array₁, hcopy, -⟩ := memcpy_of_le array (show 0 + text.length ≤ text.length by omega)
    exact .inr ⟨array₁, hcopy, dif_neg (Nat.lt_irrefl _)⟩

/-! ### Words -/

/-- The bytes of a literal. -/
def bytesOf (text : String) : List UInt8 := text.toUTF8.data.toList

/-- Whether `strncmp` finds no difference between two strings, given without their terminators. -/
def strncmpEq (s₁ s₂ : List UInt8) (n : Nat) : Bool := s₁.take n == s₂.take n

/-- `strtok_r`: the next token and what is left. -/
def strtokR (text delim : List UInt8) : Option (List UInt8 × List UInt8) :=
  let text := text.dropWhile fun ch => delim.contains ch
  if text = [] then none
  else some (text.takeWhile fun ch => !delim.contains ch, (text.dropWhile fun ch => !delim.contains ch).drop 1)

/-- What stands in front of the first delimiter, and what follows it, are determined. -/
theorem delimited_unique {text text' rest rest' : List UInt8} {ch : UInt8} (hnot : ch ∉ text) (hnot' : ch ∉ text')
    (h : text ++ ch :: rest = text' ++ ch :: rest') : text = text' ∧ rest = rest' := by
  induction text generalizing text' with
  | nil =>
    cases text' with
    | nil => exact ⟨rfl, (List.cons.inj h).2⟩
    | cons x text' => exact absurd (List.mem_cons.2 (.inl (List.cons.inj h).1)) hnot'
  | cons x text ih =>
    cases text' with
    | nil => exact absurd (List.mem_cons.2 (.inl (List.cons.inj h).1.symm)) hnot
    | cons x' text' =>
      obtain ⟨rfl, hrest⟩ := List.cons.inj h
      obtain ⟨rfl, rfl⟩ := ih (fun hmem => hnot (List.mem_cons_of_mem x hmem))
        (fun hmem => hnot' (List.mem_cons_of_mem x hmem)) hrest
      exact ⟨rfl, rfl⟩

/-- A word in front of a delimiter is a token. -/
theorem strtokR_word {word delim : List UInt8} {ch : UInt8} (hword : word ≠ []) (hnot : ∀ x ∈ word, x ∉ delim)
    (hch : ch ∈ delim) (rest : List UInt8) : strtokR (word ++ ch :: rest) delim = some (word, rest) := by
  have hhead : (word ++ ch :: rest).dropWhile (fun x => delim.contains x) = word ++ ch :: rest := by
    cases word with
    | nil => exact absurd rfl hword
    | cons x word => simp [hnot x (List.mem_cons_self ..)]
  have htake : (word ++ ch :: rest).takeWhile (fun x => !delim.contains x) = word := by
    rw [List.takeWhile_append_of_pos (by simpa using hnot)]
    simp [hch]
  have hdrop : (word ++ ch :: rest).dropWhile (fun x => !delim.contains x) = ch :: rest := by
    rw [List.dropWhile_append_of_pos (by simpa using hnot)]
    simp [hch]
  simp only [strtokR, hhead, htake, hdrop]
  simp

/-! ### Numbers -/

def isSpace (ch : UInt8) : Bool := ch == 32 || (9 ≤ ch && ch ≤ 13)

def isDigit (ch : UInt8) : Bool := '0'.toUInt8 ≤ ch && ch ≤ '9'.toUInt8

def digit (ch : UInt8) : Nat := ch.toNat - '0'.toNat

def decimal (digits : List UInt8) : Nat := digits.foldl (fun value ch => value * 10 + digit ch) 0

/-- `LONG_MAX`. -/
def longMax : Int := 0x7FFFFFFFFFFFFFFF

/-- `LONG_MIN`. -/
def longMin : Int := -longMax - 1

/-- What `strtol` returns, the index of `*endptr` in the string and whether `errno` becomes `ERANGE`. -/
structure Strtol where
  value : Int
  endIndex : Nat
  erange : Bool

/-- `strtol` to the base 10, in the "C" locale. -/
def strtol (nptr : List UInt8) : Strtol :=
  let blanks := (nptr.takeWhile isSpace).length
  let sign := nptr[blanks]?
  let signLength := if sign = some '-'.toUInt8 ∨ sign = some '+'.toUInt8 then 1 else 0
  let digits := (nptr.drop (blanks + signLength)).takeWhile isDigit
  let endIndex := blanks + signLength + digits.length
  let value : Int := if sign = some '-'.toUInt8 then -(decimal digits : Int) else decimal digits
  if digits = [] then ⟨0, 0, false⟩
  else if value < longMin then ⟨longMin, endIndex, true⟩
  else if longMax < value then ⟨longMax, endIndex, true⟩
  else ⟨value, endIndex, false⟩

/-! ### Byte order -/

inductive ByteOrder
  | little
  | big
  deriving DecidableEq, Repr

def byteSwap (x : UInt32) : UInt32 :=
  .ofNat (x.toNat % 2 ^ 8 * 2 ^ 24 + x.toNat / 2 ^ 8 % 2 ^ 8 * 2 ^ 16 + x.toNat / 2 ^ 16 % 2 ^ 8 * 2 ^ 8 +
    x.toNat / 2 ^ 24)

def htonl : ByteOrder → UInt32 → UInt32
  | .little, x => byteSwap x
  | .big, x => x

def ntohl : ByteOrder → UInt32 → UInt32
  | .little, x => byteSwap x
  | .big, x => x

theorem toNat_byteSwap {x : UInt32} {b₀ b₁ b₂ b₃ : Nat} (h₀ : b₀ < 2 ^ 8) (h₁ : b₁ < 2 ^ 8) (h₂ : b₂ < 2 ^ 8)
    (h₃ : b₃ < 2 ^ 8) (hx : x.toNat = b₃ * 2 ^ 24 + b₂ * 2 ^ 16 + b₁ * 2 ^ 8 + b₀) :
    (byteSwap x).toNat = b₀ * 2 ^ 24 + b₁ * 2 ^ 16 + b₂ * 2 ^ 8 + b₃ := by
  have hbyte₀ : x.toNat % 2 ^ 8 = b₀ := by omega
  have hbyte₁ : x.toNat / 2 ^ 8 % 2 ^ 8 = b₁ := by omega
  have hbyte₂ : x.toNat / 2 ^ 16 % 2 ^ 8 = b₂ := by omega
  have hbyte₃ : x.toNat / 2 ^ 24 = b₃ := by omega
  rw [byteSwap, hbyte₀, hbyte₁, hbyte₂, hbyte₃, UInt32.toNat_ofNat']
  omega

theorem byteSwap_byteSwap (x : UInt32) : byteSwap (byteSwap x) = x := by
  have hx := x.toNat_lt
  have h₀ : x.toNat % 2 ^ 8 < 2 ^ 8 := by omega
  have h₁ : x.toNat / 2 ^ 8 % 2 ^ 8 < 2 ^ 8 := by omega
  have h₂ : x.toNat / 2 ^ 16 % 2 ^ 8 < 2 ^ 8 := by omega
  have h₃ : x.toNat / 2 ^ 24 < 2 ^ 8 := by omega
  apply UInt32.toNat_inj.1
  rw [toNat_byteSwap h₃ h₂ h₁ h₀ (toNat_byteSwap h₀ h₁ h₂ h₃ (by omega))]
  omega

@[simp] theorem ntohl_htonl (order : ByteOrder) (x : UInt32) : ntohl order (htonl order x) = x := by
  cases order with
  | little => exact byteSwap_byteSwap x
  | big => rfl

@[simp] theorem htonl_ntohl (order : ByteOrder) (x : UInt32) : htonl order (ntohl order x) = x := by
  cases order with
  | little => exact byteSwap_byteSwap x
  | big => rfl

/-! ### Internet addresses -/

/-- `struct in_addr`, with the word as the host reads it. -/
structure InAddr where
  sAddr : UInt32
  deriving DecidableEq, Repr

/-- The loop of `inet_pton` for `AF_INET`: the number of finished octets, their value, and the octet that is being
read, if a digit of it has been seen.  An octet of several digits does not begin with a zero. -/
def inetPtonLoop (octets tmp : Nat) : Option Nat → List UInt8 → Option Nat
  | none, [] => none
  | some tp, [] => if octets = 3 then some (tmp * 256 + tp) else none
  | none, ch :: src =>
    if isDigit ch ∧ octets < 4 then inetPtonLoop octets tmp (some (digit ch)) src else none
  | some tp, ch :: src =>
    if isDigit ch then
      if tp = 0 ∨ 255 < tp * 10 + digit ch then none else inetPtonLoop octets tmp (some (tp * 10 + digit ch)) src
    else if ch = '.'.toUInt8 then
      if octets = 3 then none else inetPtonLoop (octets + 1) (tmp * 256 + tp) none src
    else none

/-- The number that a dotted decimal text stands for. -/
def dottedDecimal (src : List UInt8) : Option UInt32 := (inetPtonLoop 0 0 none src).map UInt32.ofNat

/-- `inet_pton` for `AF_INET`: the address that is stored where it returns 1. -/
def inetPton (order : ByteOrder) (src : List UInt8) : Option InAddr :=
  (dottedDecimal src).map fun address => ⟨htonl order address⟩

/-- The number of digits that can still follow the digits read of an octet. -/
def remainingDigits (tp : Nat) : Nat := if tp = 0 then 0 else if tp < 10 then 2 else if tp < 26 then 1 else 0

theorem remainingDigits_le (tp : Nat) : remainingDigits tp ≤ 2 := by
  rw [remainingDigits]
  split_ifs <;> omega

theorem remainingDigits_lt {tp new : Nat} (hnew : ¬ (tp = 0 ∨ 255 < new)) (hle : tp * 10 ≤ new) :
    remainingDigits new < remainingDigits tp := by
  rw [remainingDigits, remainingDigits]
  split_ifs <;> omega

theorem length_le_of_inetPtonLoop {octets tmp : Nat} {current : Option Nat} {src : List UInt8} {address : Nat}
    (hoctets : octets ≤ 3) (h : inetPtonLoop octets tmp current src = some address) :
    src.length ≤ 4 * (3 - octets) + current.elim 3 remainingDigits := by
  fun_induction inetPtonLoop octets tmp current src with
  | case1 => cases h
  | case2 => exact Nat.zero_le _
  | case3 => cases h
  | case4 octets tmp ch src hdigit ih =>
    have hle : src.length ≤ 4 * (3 - octets) + remainingDigits (digit ch) := ih hoctets h
    have hfirst := remainingDigits_le (digit ch)
    show src.length + 1 ≤ 4 * (3 - octets) + 3
    omega
  | case5 => cases h
  | case6 => cases h
  | case7 octets tmp tp ch src hdigit hnew ih =>
    have hle : src.length ≤ 4 * (3 - octets) + remainingDigits (tp * 10 + digit ch) := ih hoctets h
    have hnext := remainingDigits_lt hnew (Nat.le_add_right _ _)
    show src.length + 1 ≤ 4 * (3 - octets) + remainingDigits tp
    omega
  | case8 => cases h
  | case9 octets tmp tp src hdigit hthree ih =>
    have hle : src.length ≤ 4 * (3 - (octets + 1)) + 3 := ih (by omega) h
    show src.length + 1 ≤ 4 * (3 - octets) + remainingDigits tp
    omega
  | case10 => cases h

theorem length_of_dottedDecimal {src : List UInt8} {address : UInt32} (h : dottedDecimal src = some address) :
    src.length ≤ 15 := by
  obtain ⟨value, hloop, -⟩ := Option.map_eq_some_iff.1 h
  exact length_le_of_inetPtonLoop (Nat.zero_le 3) hloop

/-! ### The text of an address -/

def digitChar (d : Nat) : UInt8 := UInt8.ofNat ('0'.toNat + d)

def octetText (octet : Nat) : List UInt8 :=
  if octet < 10 then [digitChar octet]
  else if octet < 100 then [digitChar (octet / 10), digitChar (octet % 10)]
  else [digitChar (octet / 100), digitChar (octet / 10 % 10), digitChar (octet % 10)]

def addressText (address : UInt32) : List UInt8 :=
  octetText (address.toNat / 2 ^ 24) ++ '.'.toUInt8 :: (octetText (address.toNat / 2 ^ 16 % 2 ^ 8) ++
    '.'.toUInt8 :: (octetText (address.toNat / 2 ^ 8 % 2 ^ 8) ++ '.'.toUInt8 ::
      octetText (address.toNat % 2 ^ 8)))

theorem digit_digitChar : ∀ d < 10, isDigit (digitChar d) = true ∧ digit (digitChar d) = d := by decide

theorem inetPtonLoop_first {octets : Nat} (hoctets : octets < 4) (tmp : Nat) {d : Nat} (hd : d < 10)
    (src : List UInt8) :
    inetPtonLoop octets tmp none (digitChar d :: src) = inetPtonLoop octets tmp (some d) src := by
  obtain ⟨hdigit, hvalue⟩ := digit_digitChar d hd
  rw [inetPtonLoop, if_pos ⟨hdigit, hoctets⟩, hvalue]

theorem inetPtonLoop_next (octets tmp : Nat) {tp d : Nat} (hd : d < 10) (htp : tp ≠ 0) (hnew : tp * 10 + d ≤ 255)
    (src : List UInt8) :
    inetPtonLoop octets tmp (some tp) (digitChar d :: src) = inetPtonLoop octets tmp (some (tp * 10 + d)) src := by
  obtain ⟨hdigit, hvalue⟩ := digit_digitChar d hd
  rw [inetPtonLoop, if_pos hdigit, hvalue, if_neg (by omega)]

theorem inetPtonLoop_dot {octets : Nat} (hoctets : octets < 3) (tmp tp : Nat) (src : List UInt8) :
    inetPtonLoop octets tmp (some tp) ('.'.toUInt8 :: src) =
      inetPtonLoop (octets + 1) (tmp * 256 + tp) none src := by
  rw [inetPtonLoop, if_neg (by decide), if_pos rfl, if_neg (by omega)]

theorem inetPtonLoop_octetText {octets : Nat} (hoctets : octets < 4) (tmp : Nat) {octet : Nat} (h : octet < 2 ^ 8)
    (src : List UInt8) :
    inetPtonLoop octets tmp none (octetText octet ++ src) = inetPtonLoop octets tmp (some octet) src := by
  rw [octetText]
  split_ifs with hone htwo
  · exact inetPtonLoop_first hoctets tmp hone src
  · have hvalue : octet / 10 * 10 + octet % 10 = octet := by omega
    rw [List.cons_append, inetPtonLoop_first hoctets tmp (by omega), List.singleton_append,
      inetPtonLoop_next octets tmp (by omega) (by omega) (by omega), hvalue]
  · have hvalue : (octet / 100 * 10 + octet / 10 % 10) * 10 + octet % 10 = octet := by omega
    rw [List.cons_append, inetPtonLoop_first hoctets tmp (by omega), List.cons_append,
      inetPtonLoop_next octets tmp (by omega) (by omega) (by omega), List.singleton_append,
      inetPtonLoop_next octets tmp (by omega) (by omega) (by omega), hvalue]

theorem digitChar_ne : ∀ d < 10, digitChar d ≠ 0 ∧ digitChar d ≠ '/'.toUInt8 := by decide

theorem mem_octetText {octet : Nat} (h : octet < 2 ^ 8) {ch : UInt8} (hch : ch ∈ octetText octet) :
    ∃ d < 10, ch = digitChar d := by
  rw [octetText] at hch
  split_ifs at hch with hone htwo
  · exact ⟨octet, hone, List.mem_singleton.1 hch⟩
  · rw [List.mem_cons, List.mem_singleton] at hch
    obtain rfl | rfl := hch
    · exact ⟨octet / 10, by omega, rfl⟩
    · exact ⟨octet % 10, by omega, rfl⟩
  · rw [List.mem_cons, List.mem_cons, List.mem_singleton] at hch
    obtain rfl | rfl | rfl := hch
    · exact ⟨octet / 100, by omega, rfl⟩
    · exact ⟨octet / 10 % 10, by omega, rfl⟩
    · exact ⟨octet % 10, by omega, rfl⟩

theorem mem_addressText {address : UInt32} {ch : UInt8} (hch : ch ∈ addressText address) :
    ch ≠ 0 ∧ ch ≠ '/'.toUInt8 := by
  have haddress := address.toNat_lt
  have hdot : '.'.toUInt8 ≠ 0 ∧ '.'.toUInt8 ≠ '/'.toUInt8 := by decide
  have hoctet {octet : Nat} (h : octet < 2 ^ 8) (hmem : ch ∈ octetText octet) : ch ≠ 0 ∧ ch ≠ '/'.toUInt8 := by
    obtain ⟨d, hd, rfl⟩ := mem_octetText h hmem
    exact digitChar_ne d hd
  simp only [addressText, List.mem_append, List.mem_cons] at hch
  obtain hmem | rfl | hmem | rfl | hmem | rfl | hmem := hch
  · exact hoctet (by omega) hmem
  · exact hdot
  · exact hoctet (by omega) hmem
  · exact hdot
  · exact hoctet (by omega) hmem
  · exact hdot
  · exact hoctet (by omega) hmem

/-- A text of an address is made of digits and dots. -/
theorem isDigit_or_dot_of_mem_addressText {address : UInt32} {ch : UInt8} (hch : ch ∈ addressText address) :
    isDigit ch = true ∨ ch = '.'.toUInt8 := by
  have haddress := address.toNat_lt
  have hoctet {octet : Nat} (h : octet < 2 ^ 8) (hmem : ch ∈ octetText octet) : isDigit ch = true := by
    obtain ⟨d, hd, rfl⟩ := mem_octetText h hmem
    exact (digit_digitChar d hd).1
  simp only [addressText, List.mem_append, List.mem_cons] at hch
  rcases hch with hmem | rfl | hmem | rfl | hmem | rfl | hmem
  · exact .inl (hoctet (by omega) hmem)
  · exact .inr rfl
  · exact .inl (hoctet (by omega) hmem)
  · exact .inr rfl
  · exact .inl (hoctet (by omega) hmem)
  · exact .inr rfl
  · exact .inl (hoctet (by omega) hmem)

/-- Every address has a text. -/
theorem dottedDecimal_addressText (address : UInt32) : dottedDecimal (addressText address) = some address := by
  have haddress := address.toNat_lt
  have hlast (octet : Nat) : octetText octet = octetText octet ++ [] := (List.append_nil _).symm
  rw [dottedDecimal, addressText, inetPtonLoop_octetText (by omega) 0 (by omega), inetPtonLoop_dot (by omega),
    inetPtonLoop_octetText (by omega) _ (by omega), inetPtonLoop_dot (by omega),
    inetPtonLoop_octetText (by omega) _ (by omega), inetPtonLoop_dot (by omega), hlast (address.toNat % 2 ^ 8),
    inetPtonLoop_octetText (by omega) _ (by omega), inetPtonLoop, if_pos rfl, Option.map_some]
  refine congrArg some (UInt32.toNat_inj.1 ?_)
  rw [UInt32.toNat_ofNat']
  omega

/-! ### The text of a number -/

def decimalText (n : Nat) : List UInt8 :=
  if n < 10 then [digitChar n] else decimalText (n / 10) ++ [digitChar (n % 10)]

theorem decimal_append (digits : List UInt8) (ch : UInt8) :
    decimal (digits ++ [ch]) = decimal digits * 10 + digit ch := by
  rw [decimal, List.foldl_append]
  rfl

theorem decimal_decimalText (n : Nat) : decimal (decimalText n) = n := by
  fun_induction decimalText n with
  | case1 n hlt =>
    show 0 * 10 + digit (digitChar n) = n
    rw [(digit_digitChar n hlt).2]
    omega
  | case2 n hge ih =>
    rw [decimal_append, ih, (digit_digitChar (n % 10) (by omega)).2]
    omega

theorem decimalText_ne_nil (n : Nat) : decimalText n ≠ [] := by
  rw [decimalText]
  split_ifs <;> simp

theorem isDigit_of_mem_decimalText {n : Nat} {ch : UInt8} (h : ch ∈ decimalText n) : isDigit ch = true := by
  fun_induction decimalText n with
  | case1 n hlt =>
    rw [List.mem_singleton.1 h]
    exact (digit_digitChar n hlt).1
  | case2 n hge ih =>
    rcases List.mem_append.1 h with h | h
    · exact ih h
    · rw [List.mem_singleton.1 h]
      exact (digit_digitChar (n % 10) (by omega)).1

/-- A digit is no blank, no sign and no terminator. -/
theorem isDigit_iff {ch : UInt8} : isDigit ch = true ↔ 48 ≤ ch.toNat ∧ ch.toNat ≤ 57 := by
  rw [isDigit, Bool.and_eq_true, decide_eq_true_iff, decide_eq_true_iff, UInt8.le_iff_toNat_le, UInt8.le_iff_toNat_le]
  rfl

theorem isSpace_of_isDigit {ch : UInt8} (h : isDigit ch = true) : isSpace ch = false := by
  rw [isDigit_iff] at h
  have hne : ch ≠ 32 := by
    rintro rfl
    exact absurd h.1 (by decide)
  have hgt : ¬ ch ≤ 13 := by
    rw [UInt8.le_iff_toNat_le]
    have h13 : (13 : UInt8).toNat = 13 := rfl
    omega
  simp [isSpace, hne, hgt]

/-- `strtol` reads the text of a number. -/
theorem strtol_decimalText {n : Nat} (h : (n : Int) ≤ longMax) :
    strtol (decimalText n) = ⟨n, (decimalText n).length, false⟩ := by
  have hdecimal := decimal_decimalText n
  have hdigits : (decimalText n).takeWhile isDigit = decimalText n :=
    List.takeWhile_eq_self_iff.2 fun _ => isDigit_of_mem_decimalText
  have hnil := decimalText_ne_nil n
  have hall := @isDigit_of_mem_decimalText n
  generalize decimalText n = text at hdecimal hdigits hnil hall ⊢
  cases text with
  | nil => exact absurd rfl hnil
  | cons ch rest =>
    have hch := hall (List.mem_cons_self ..)
    have hsign : ch ≠ '-'.toUInt8 ∧ ch ≠ '+'.toUInt8 := by
      rw [isDigit_iff] at hch
      constructor <;> rintro rfl <;> exact absurd hch (by decide)
    have hmin : ¬ (n : Int) < longMin := by
      have hlong : longMin < 0 := by decide
      omega
    simp [strtol, isSpace_of_isDigit hch, hsign, hdigits, hdecimal, hmin, Int.not_lt.2 h]

end Libc
