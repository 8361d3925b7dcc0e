import Mathlib

/-!
# Checked signed arithmetic

A signed operation has an exact result, and no defined one if that does not fit
the type, of 32 bits or of 64. The operations here are `none` then. Otherwise they
agree with the ones that wrap.
-/
namespace CheckedInt

variable {a b c : Int32} {n : Int}

/-- The number in 32 bits, if it fits. -/
def exact (n : Int) : Option Int32 :=
  if -2 ^ 31 ≤ n ∧ n < 2 ^ 31 then some (Int32.ofInt n) else none

def add (a b : Int32) : Option Int32 := exact (a.toInt + b.toInt)

def sub (a b : Int32) : Option Int32 := exact (a.toInt - b.toInt)

def mul (a b : Int32) : Option Int32 := exact (a.toInt * b.toInt)

/-- Division rounds toward zero. -/
def div (a b : Int32) : Option Int32 := if b = 0 then none else exact (a.toInt.tdiv b.toInt)

def abs (a : Int32) : Option Int32 := exact |a.toInt|

theorem exact_eq_some : exact n = some c ↔ c.toInt = n := by
  rw [exact]
  constructor
  · intro h
    split at h
    · rename_i hfits
      cases h
      exact Int32.toInt_ofInt_of_le hfits.1 hfits.2
    · cases h
  · rintro rfl
    rw [if_pos ⟨c.le_toInt, c.toInt_lt⟩, Int32.ofInt_toInt]

theorem exact_fits (hlow : -2 ^ 31 ≤ n) (hhigh : n < 2 ^ 31) : ∃ c, exact n = some c ∧ c.toInt = n :=
  ⟨_, if_pos ⟨hlow, hhigh⟩, Int32.toInt_ofInt_of_le hlow hhigh⟩

theorem exact_eq_none (h : 2 ^ 31 ≤ n) : exact n = none := if_neg fun hfits => absurd hfits.2 (by omega)

theorem add_fits (hlow : -2 ^ 31 ≤ a.toInt + b.toInt) (hhigh : a.toInt + b.toInt < 2 ^ 31) :
    ∃ c, add a b = some c ∧ c.toInt = a.toInt + b.toInt := exact_fits hlow hhigh

theorem sub_fits (hlow : -2 ^ 31 ≤ a.toInt - b.toInt) (hhigh : a.toInt - b.toInt < 2 ^ 31) :
    ∃ c, sub a b = some c ∧ c.toInt = a.toInt - b.toInt := exact_fits hlow hhigh

theorem abs_fits (h : |a.toInt| < 2 ^ 31) : ∃ c, abs a = some c ∧ c.toInt = |a.toInt| :=
  exact_fits (by have := abs_nonneg a.toInt; omega) h

/-- A result that fits is the one that wraps. -/
theorem eq_of_exact {x : Int32} (h : exact n = some c) (hwrap : x.toInt = n.bmod (2 ^ 32)) : c = x := by
  have hc := exact_eq_some.mp h
  have hlow := c.le_toInt
  have hhigh := c.toInt_lt
  rw [← Int32.toInt_inj, hwrap, ← hc, Int.bmod_eq_of_le (by omega) (by omega)]

theorem eq_add (h : add a b = some c) : c = a + b := eq_of_exact h (Int32.toInt_add a b)

theorem eq_sub (h : sub a b = some c) : c = a - b := eq_of_exact h (Int32.toInt_sub a b)

theorem eq_mul (h : mul a b = some c) : c = a * b := eq_of_exact h (Int32.toInt_mul a b)

theorem eq_div (h : div a b = some c) : c = a / b := by
  rw [div] at h
  split at h
  · cases h
  · exact eq_of_exact h (Int32.toInt_div a b)

theorem eq_abs (h : abs a = some c) : c = a.abs := by
  have hc : c.toInt = |a.toInt| := exact_eq_some.mp h
  have hne : a.toBitVec ≠ BitVec.intMin 32 := by
    intro heq
    have hmin : a.toInt = -2 ^ 31 := by
      rw [← Int32.toInt_toBitVec, heq]
      decide
    have hlt := c.toInt_lt
    rw [hc, hmin] at hlt
    exact absurd hlt (by decide)
  rw [← Int32.toInt_inj, hc, Int.abs_eq_natAbs]
  exact (BitVec.toInt_abs_eq_natAbs_of_ne_intMin hne).symm

theorem tdiv_two_of_nonneg (h : 0 ≤ n) : n.tdiv 2 = n / 2 := Int.tdiv_eq_ediv_of_nonneg h

theorem tdiv_two_of_neg (h : n < 0) : n.tdiv 2 = -(-n / 2) := by
  rw [← Int.tdiv_eq_ediv_of_nonneg (by omega), Int.neg_tdiv, Int.neg_neg]

/-- Half of a number fits, and is not further from zero. -/
theorem div_two_fits (a : Int32) : ∃ c, div a 2 = some c ∧ c.toInt = a.toInt.tdiv 2 := by
  have hlow := a.le_toInt
  have hhigh := a.toInt_lt
  rw [div, if_neg (by decide), show (2 : Int32).toInt = 2 from rfl]
  rcases lt_or_ge a.toInt 0 with hneg | hpos
  · rw [tdiv_two_of_neg hneg]
    exact exact_fits (by omega) (by omega)
  · rw [tdiv_two_of_nonneg hpos]
    exact exact_fits (by omega) (by omega)

theorem toInt_max (a b : Int32) : (max a b).toInt = max a.toInt b.toInt := by
  by_cases h : a ≤ b
  · rw [show max a b = b from if_pos h, max_eq_right (Int32.le_iff_toInt_le.mp h)]
  · have hlt := Int32.not_le.mp h
    rw [show max a b = a from if_neg h, max_eq_left (Int32.le_iff_toInt_le.mp (Int32.le_of_lt hlt))]

theorem toInt_min (a b : Int32) : (min a b).toInt = min a.toInt b.toInt := by
  by_cases h : a ≤ b
  · rw [show min a b = a from if_pos h, min_eq_left (Int32.le_iff_toInt_le.mp h)]
  · have hlt := Int32.not_le.mp h
    rw [show min a b = b from if_neg h, min_eq_right (Int32.le_iff_toInt_le.mp (Int32.le_of_lt hlt))]

end CheckedInt

namespace CheckedInt64

variable {a b c : Int64} {n : Int}

/-- The number in 64 bits, if it fits. -/
def exact (n : Int) : Option Int64 :=
  if -2 ^ 63 ≤ n ∧ n < 2 ^ 63 then some (Int64.ofInt n) else none

def add (a b : Int64) : Option Int64 := exact (a.toInt + b.toInt)

def sub (a b : Int64) : Option Int64 := exact (a.toInt - b.toInt)

def abs (a : Int64) : Option Int64 := exact |a.toInt|

theorem exact_eq_some : exact n = some c ↔ c.toInt = n := by
  rw [exact]
  constructor
  · intro h
    split at h
    · rename_i hfits
      cases h
      exact Int64.toInt_ofInt_of_le hfits.1 hfits.2
    · cases h
  · rintro rfl
    rw [if_pos ⟨c.le_toInt, c.toInt_lt⟩, Int64.ofInt_toInt]

/-- A result that fits is the one that wraps. -/
theorem eq_of_exact {x : Int64} (h : exact n = some c) (hwrap : x.toInt = n.bmod (2 ^ 64)) : c = x := by
  have hc := exact_eq_some.mp h
  have hlow := c.le_toInt
  have hhigh := c.toInt_lt
  rw [← Int64.toInt_inj, hwrap, ← hc, Int.bmod_eq_of_le (by omega) (by omega)]

theorem eq_add (h : add a b = some c) : c = a + b := eq_of_exact h (Int64.toInt_add a b)

theorem eq_sub (h : sub a b = some c) : c = a - b := eq_of_exact h (Int64.toInt_sub a b)

theorem eq_abs (h : abs a = some c) : c = a.abs := by
  have hc : c.toInt = |a.toInt| := exact_eq_some.mp h
  have hne : a.toBitVec ≠ BitVec.intMin 64 := by
    intro heq
    have hmin : a.toInt = -2 ^ 63 := by
      rw [← Int64.toInt_toBitVec, heq]
      decide
    have hlt := c.toInt_lt
    rw [hc, hmin] at hlt
    exact absurd hlt (by decide)
  rw [← Int64.toInt_inj, hc, Int.abs_eq_natAbs]
  exact (BitVec.toInt_abs_eq_natAbs_of_ne_intMin hne).symm

end CheckedInt64
