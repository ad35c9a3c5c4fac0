import Mathlib.Data.Set.Basic
import Mathlib.Order.Interval.Set.Defs
import Mathlib.Tactic

/-!
# Bit vectors as finite sets

A bit vector of width `w` stands for the set of the positions of its ones (`bits`). The operations
that a program does with masks are then set operations: `bits_lowOnes` for `(1 << n) - 1` and
`bits_clear` for `m & ~(1 << k)`.
-/

namespace OneWifiTestSuite.BitSet

variable {w : ℕ}

/-- The positions of the ones. -/
def bits (m : BitVec w) : Set ℕ :=
  {k | m.getLsbD k = true}

@[simp]
theorem mem_bits {m : BitVec w} {k : ℕ} : k ∈ bits m ↔ m.getLsbD k = true := Iff.rfl

theorem lt_of_mem_bits {m : BitVec w} {k : ℕ} (h : k ∈ bits m) : k < w :=
  BitVec.lt_of_getLsbD h

theorem bits_injective : Function.Injective (bits (w := w)) := by
  intro m m' h
  apply BitVec.eq_of_getLsbD_eq
  intro k _
  have hk := Set.ext_iff.mp h k
  simp only [mem_bits] at hk
  exact Bool.eq_iff_iff.mpr hk

@[simp]
theorem bits_zero : bits (0 : BitVec w) = ∅ := by
  ext k
  simp

/-- `(1 << n) - 1`, up to the width. -/
theorem bits_lowOnes {n : ℕ} (hn : n ≤ w) : bits (1#w <<< n - 1#w) = Set.Iio n := by
  have hone : 1#w <<< n = BitVec.ofNat w (2 ^ n) := by
    apply BitVec.eq_of_toNat_eq
    rw [BitVec.toNat_shiftLeft, BitVec.toNat_ofNat, BitVec.toNat_ofNat, Nat.shiftLeft_eq, Nat.mod_mul_mod,
      one_mul]
  have hval : 1#w <<< n - 1#w = BitVec.ofNat w (2 ^ n - 1) := by
    calc 1#w <<< n - 1#w = BitVec.ofNat w (2 ^ n - 1 + 1) - 1#w := by
          rw [hone, Nat.sub_add_cancel Nat.one_le_two_pow]
      _ = BitVec.ofNat w (2 ^ n - 1) + 1#w - 1#w := by
          rw [BitVec.ofNat_add]
      _ = BitVec.ofNat w (2 ^ n - 1) := BitVec.add_sub_cancel _ _
  ext k
  rw [hval, mem_bits, BitVec.getLsbD_ofNat, Nat.testBit_two_pow_sub_one]
  simp only [Bool.and_eq_true, decide_eq_true_eq, Set.mem_Iio]
  omega

/-- `m & ~(1 << k)`. -/
theorem bits_clear (m : BitVec w) {k : ℕ} (hk : k < w) :
    bits (m &&& ~~~(1#w <<< k)) = bits m \ {k} := by
  ext i
  by_cases hi : i = k
  · subst hi
    simp [hk]
  · have hshift : (1#w <<< k).getLsbD i = false := by
      rw [← BitVec.twoPow_eq, BitVec.getLsbD_twoPow]
      simp [Ne.symm hi]
    have hlt : m.getLsbD i = true → i < w := BitVec.lt_of_getLsbD
    simp only [mem_bits, BitVec.getLsbD_and, BitVec.getLsbD_not, hshift, Set.mem_sdiff,
      Set.mem_singleton_iff, hi, Bool.and_eq_true]
    simpa using hlt

end OneWifiTestSuite.BitSet
