import Mathlib

/-!
# Integers in network byte order

Fixed-width big-endian bytes of a natural number and back. The width is the
number of bytes; whatever does not fit is cut off, as a conversion of a machine
integer does.
-/
namespace NetworkOrder

/-- The low `width` bytes of `value`, most significant byte first. -/
def toNetwork : Nat → Nat → List UInt8
  | 0, _ => []
  | width + 1, value => UInt8.ofNat (value / 256 ^ width) :: toNetwork width value

def toHost : List UInt8 → Nat
  | [] => 0
  | byte :: bytes => byte.toNat * 256 ^ bytes.length + toHost bytes

@[simp] theorem length_toNetwork (width value : Nat) : (toNetwork width value).length = width := by
  induction width with
  | zero => rfl
  | succ width ih => rw [toNetwork, List.length_cons, ih]

theorem toHost_toNetwork (width value : Nat) : toHost (toNetwork width value) = value % 256 ^ width := by
  induction width with
  | zero => simp [toNetwork, toHost, Nat.mod_one]
  | succ width ih =>
    rw [toNetwork, toHost, ih, length_toNetwork, Nat.mod_pow_succ, UInt8.toNat_ofNat', Nat.mul_comm]
    exact Nat.add_comm _ _

theorem toHost_lt (bytes : List UInt8) : toHost bytes < 256 ^ bytes.length := by
  induction bytes with
  | nil => exact Nat.one_pos
  | cons byte bytes ih =>
    have hbyte : byte.toNat * 256 ^ bytes.length ≤ 255 * 256 ^ bytes.length :=
      Nat.mul_le_mul_right _ (Nat.le_of_lt_succ byte.toNat_lt)
    rw [toHost, List.length_cons, Nat.pow_succ]
    omega

/-- Only the low `width` bytes count. -/
theorem toNetwork_mod (width value : Nat) : toNetwork width (value % 256 ^ width) = toNetwork width value := by
  induction width generalizing value with
  | zero => rfl
  | succ width ih =>
    have hhigh : value % 256 ^ (width + 1) / 256 ^ width = value / 256 ^ width % 256 := by
      rw [Nat.pow_succ, Nat.mod_mul_right_div_self]
    have hlow : value % 256 ^ (width + 1) % 256 ^ width = value % 256 ^ width :=
      Nat.mod_mod_of_dvd _ (Nat.pow_dvd_pow 256 (Nat.le_succ width))
    rw [toNetwork, toNetwork, hhigh, ← ih (value % 256 ^ (width + 1)), hlow, ih]
    congr 1
    exact UInt8.toNat_inj.mp (by simp)

theorem toNetwork_toHost (bytes : List UInt8) : toNetwork bytes.length (toHost bytes) = bytes := by
  induction bytes with
  | nil => rfl
  | cons byte bytes ih =>
    have hlt := toHost_lt bytes
    have hpos : 0 < 256 ^ bytes.length := Nat.pow_pos (by omega)
    have hhigh : (byte.toNat * 256 ^ bytes.length + toHost bytes) / 256 ^ bytes.length = byte.toNat := by
      rw [Nat.mul_comm, Nat.mul_add_div hpos, Nat.div_eq_of_lt hlt, Nat.add_zero]
    have hlow : toNetwork bytes.length (byte.toNat * 256 ^ bytes.length + toHost bytes) =
        toNetwork bytes.length (toHost bytes) := by
      rw [← toNetwork_mod, Nat.mul_comm, Nat.mul_add_mod, toNetwork_mod]
    rw [toHost, List.length_cons, toNetwork, hhigh, hlow, ih, UInt8.ofNat_toNat]

/-- Bytes of a width are those of the value read from them. -/
theorem toNetwork_of_length {width : Nat} {bytes : List UInt8} (h : bytes.length = width) :
    toNetwork width (toHost bytes) = bytes := by
  rw [← h]
  exact toNetwork_toHost bytes

theorem toHost_lt_of_length {width : Nat} {bytes : List UInt8} (h : bytes.length = width) :
    toHost bytes < 256 ^ width := h ▸ toHost_lt bytes

@[simp] theorem toHost_uInt64 (v : UInt64) : UInt64.ofNat (toHost (toNetwork 8 v.toNat)) = v := by
  rw [toHost_toNetwork, Nat.mod_eq_of_lt (show v.toNat < 256 ^ 8 from v.toNat_lt)]
  simp

@[simp] theorem toHost_uInt32 (v : UInt32) : UInt32.ofNat (toHost (toNetwork 4 v.toNat)) = v := by
  rw [toHost_toNetwork, Nat.mod_eq_of_lt (show v.toNat < 256 ^ 4 from v.toNat_lt)]
  simp

@[simp] theorem toHost_uInt16 (v : UInt16) : UInt16.ofNat (toHost (toNetwork 2 v.toNat)) = v := by
  rw [toHost_toNetwork, Nat.mod_eq_of_lt (show v.toNat < 256 ^ 2 from v.toNat_lt)]
  simp

end NetworkOrder
