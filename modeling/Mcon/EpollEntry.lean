import Mcon.Types

/-!
# The epoll payload (`epoll_entry.h`)

A registration of the epoll instance carries a 64-bit word into which the identity of the mcon instance, the
generation of the session, the source of the event and the session index are packed.
-/

namespace Mcon

/-- `enum mcon_epoll_source`; a value read from a payload may be any number below `16`. -/
abbrev EpollSource := UInt32

def epollSourceUnknown : EpollSource := 0
def epollSourceServerSocket : EpollSource := 1
def epollSourceIoUring : EpollSource := 2
def epollSourceSession : EpollSource := 3

def mconIsValidSource (source : EpollSource) : Bool := 0 ≤ source && source ≤ epollSourceSession

/-- `struct mcon_epoll_entry`. -/
structure EpollEntry where
  instanceId : UInt16
  generation : UInt8
  source : EpollSource
  session : UInt32
  reserved : UInt16
  deriving DecidableEq, Repr

def mconEncodeEpollEntry (entry : EpollEntry) : UInt64 :=
  (entry.instanceId.toUInt64 <<< 48) ||| (entry.generation.toUInt64 <<< 40) |||
    (entry.source.toUInt64 <<< 36) ||| (entry.session.toUInt64 <<< 16) ||| (entry.reserved.toUInt64 <<< 0)

def mconDecodeEpollEntry (data : UInt64) : EpollEntry where
  instanceId := ((data >>> 48) &&& 0xffff).toUInt16
  generation := ((data >>> 40) &&& 0xff).toUInt8
  source := ((data >>> 36) &&& 0xf).toUInt32
  session := ((data >>> 16) &&& 0xfffff).toUInt32
  reserved := ((data >>> 0) &&& 0xffff).toUInt16

/-! ### The format is a bijection -/

/-- The fields without a type of their own width fit into the bits the payload has for them. -/
structure EpollEntry.InRange (entry : EpollEntry) : Prop where
  source_lt : entry.source.toNat < 2 ^ 4
  session_lt : entry.session.toNat < 2 ^ 20

/-- Two fields side by side are one field: `y` fits into the `w` bits below `x`. -/
private theorem pack_two (x : Nat) {y w i j : Nat} (hy : y < 2 ^ w) (hij : j = w + i) :
    x * 2 ^ j ||| y * 2 ^ i = (x * 2 ^ w + y) * 2 ^ i := by
  have hlow : y * 2 ^ i < 2 ^ (w + i) := by
    rw [Nat.pow_add]
    exact Nat.mul_lt_mul_of_pos_right hy (Nat.two_pow_pos i)
  rw [hij, Nat.mul_comm x, ← Nat.two_pow_add_eq_or_of_lt hlow, Nat.pow_add, Nat.add_mul, Nat.mul_right_comm,
    Nat.mul_comm (2 ^ w) x]

/-- The payload as a number. -/
theorem mconEncodeEpollEntry_toNat {entry : EpollEntry} (h : entry.InRange) :
    (mconEncodeEpollEntry entry).toNat =
      (((entry.instanceId.toNat * 2 ^ 8 + entry.generation.toNat) * 2 ^ 4 + entry.source.toNat) * 2 ^ 20 +
        entry.session.toNat) * 2 ^ 16 + entry.reserved.toNat := by
  obtain ⟨hsource, hsession⟩ := h
  have hinstance := entry.instanceId.toNat_lt
  have hgeneration := entry.generation.toNat_lt
  have hreserved := entry.reserved.toNat_lt
  have h48 : UInt64.toNat 48 % 64 = 48 := rfl
  have h40 : UInt64.toNat 40 % 64 = 40 := rfl
  have h36 : UInt64.toNat 36 % 64 = 36 := rfl
  have h16 : UInt64.toNat 16 % 64 = 16 := rfl
  have h0 : UInt64.toNat 0 % 64 = 0 := rfl
  simp only [mconEncodeEpollEntry, UInt64.toNat_or, UInt64.toNat_shiftLeft, UInt16.toNat_toUInt64,
    UInt8.toNat_toUInt64, UInt32.toNat_toUInt64, Nat.shiftLeft_eq, h48, h40, h36, h16, h0]
  -- no field loses a bit
  rw [Nat.mod_eq_of_lt (by omega), Nat.mod_eq_of_lt (by omega), Nat.mod_eq_of_lt (by omega),
    Nat.mod_eq_of_lt (by omega), Nat.mod_eq_of_lt (by omega)]
  rw [pack_two _ hgeneration (by rfl), pack_two _ hsource (by rfl), pack_two _ hsession (by rfl),
    pack_two _ hreserved (by rfl),
    Nat.pow_zero, Nat.mul_one]

/-- The fields of a payload as numbers. -/
theorem mconDecodeEpollEntry_toNat (data : UInt64) :
    (mconDecodeEpollEntry data).instanceId.toNat = data.toNat / 2 ^ 48 ∧
      (mconDecodeEpollEntry data).generation.toNat = data.toNat / 2 ^ 40 % 2 ^ 8 ∧
      (mconDecodeEpollEntry data).source.toNat = data.toNat / 2 ^ 36 % 2 ^ 4 ∧
      (mconDecodeEpollEntry data).session.toNat = data.toNat / 2 ^ 16 % 2 ^ 20 ∧
      (mconDecodeEpollEntry data).reserved.toNat = data.toNat % 2 ^ 16 := by
  have hdata := data.toNat_lt
  have h48 : UInt64.toNat 48 % 64 = 48 := rfl
  have h40 : UInt64.toNat 40 % 64 = 40 := rfl
  have h36 : UInt64.toNat 36 % 64 = 36 := rfl
  have h16 : UInt64.toNat 16 % 64 = 16 := rfl
  have h0 : UInt64.toNat 0 % 64 = 0 := rfl
  have m16 : UInt64.toNat 0xffff = 2 ^ 16 - 1 := rfl
  have m8 : UInt64.toNat 0xff = 2 ^ 8 - 1 := rfl
  have m4 : UInt64.toNat 0xf = 2 ^ 4 - 1 := rfl
  have m20 : UInt64.toNat 0xfffff = 2 ^ 20 - 1 := rfl
  simp only [mconDecodeEpollEntry, UInt64.toNat_toUInt16, UInt64.toNat_toUInt8, UInt64.toNat_toUInt32,
    UInt64.toNat_and, UInt64.toNat_shiftRight, Nat.shiftRight_eq_div_pow, h48, h40, h36, h16, h0, m16, m8, m4, m20,
    Nat.and_two_pow_sub_one_eq_mod]
  omega

/-- A payload in range gives its entry back. -/
theorem mconDecodeEpollEntry_encode {entry : EpollEntry} (h : entry.InRange) :
    mconDecodeEpollEntry (mconEncodeEpollEntry entry) = entry := by
  obtain ⟨hinstance, hgeneration, hsource, hsession, hreserved⟩ :=
    mconDecodeEpollEntry_toNat (mconEncodeEpollEntry entry)
  have hencode := mconEncodeEpollEntry_toNat h
  obtain ⟨hsource', hsession'⟩ := h
  have hgeneration' := entry.generation.toNat_lt
  have hreserved' := entry.reserved.toNat_lt
  rw [EpollEntry.mk.injEq, ← UInt16.toNat_inj, ← UInt8.toNat_inj, ← UInt32.toNat_inj, ← UInt32.toNat_inj,
    ← UInt16.toNat_inj]
  omega

theorem mconDecodeEpollEntry_inRange (data : UInt64) : (mconDecodeEpollEntry data).InRange := by
  obtain ⟨-, -, hsource, hsession, -⟩ := mconDecodeEpollEntry_toNat data
  constructor <;> omega

/-- Every word is the payload of its entry. -/
theorem mconEncodeEpollEntry_decode (data : UInt64) : mconEncodeEpollEntry (mconDecodeEpollEntry data) = data := by
  obtain ⟨hinstance, hgeneration, hsource, hsession, hreserved⟩ := mconDecodeEpollEntry_toNat data
  have hencode := mconEncodeEpollEntry_toNat (mconDecodeEpollEntry_inRange data)
  rw [← UInt64.toNat_inj]
  omega

end Mcon
