import Mathlib.Data.List.GetD
import Mathlib.Tactic

/-!
# Bytes in a region of memory

A region is a total map from offsets to bytes. `store` is a `memcpy` into it and `slice` one out of
it; `leBytes` and `leNat` are the little endian numbers. A slice reads back what was stored at its
place (`slice_store_self`), does not see what was stored elsewhere (`slice_store_of_le`,
`slice_store_of_ge`), and is cut out of a longer store (`slice_store_sub`).
-/

namespace OneWifiTestSuite.ByteRegion

abbrev Bytes := List UInt8

abbrev Region := ℕ → UInt8

/-- The region with `bs` written from `off` on. -/
def store (m : Region) (off : ℕ) (bs : Bytes) : Region :=
  fun i => if off ≤ i ∧ i < off + bs.length then bs.getD (i - off) 0 else m i

/-- The `len` bytes from `off` on. -/
def slice (m : Region) (off len : ℕ) : Bytes :=
  (List.range len).map fun i => m (off + i)

/-- The number that bytes make, the least significant one first. -/
def leNat : Bytes → ℕ
  | [] => 0
  | b :: bs => b.toNat + 256 * leNat bs

/-- The `len` bytes of a number. -/
def leBytes : ℕ → ℕ → Bytes
  | 0, _ => []
  | len + 1, n => UInt8.ofNat n :: leBytes len (n / 256)

section Slices

variable {m m' : Region} {off off' len len' : ℕ} {bs bs' : Bytes}

@[simp]
theorem length_slice (m : Region) (off len : ℕ) : (slice m off len).length = len := by
  simp [slice]

@[simp]
theorem slice_zero (m : Region) (off : ℕ) : slice m off 0 = [] := rfl

/-- Slices are equal exactly when the regions agree there. -/
theorem slice_eq_iff : slice m off len = slice m' off len ↔ ∀ i < len, m (off + i) = m' (off + i) := by
  simp [slice, List.map_inj_left]

theorem slice_congr (h : ∀ i, off ≤ i → i < off + len → m i = m' i) : slice m off len = slice m' off len :=
  slice_eq_iff.mpr fun i hi => h _ (by omega) (by omega)

theorem slice_append (m : Region) (off len len' : ℕ) :
    slice m off len ++ slice m (off + len) len' = slice m off (len + len') := by
  simp only [slice, List.range_add, List.map_append, List.map_map]
  congr 1
  apply List.map_congr_left
  intro i _
  simp [Nat.add_assoc]

theorem slice_append_of_eq {m : Region} {off off' len len' : ℕ} (h : off' = off + len) :
    slice m off len ++ slice m off' len' = slice m off (len + len') := by
  rw [h]
  exact slice_append m off len len'

/-- A slice of a slice. -/
theorem slice_sub (m : Region) {off n skip len : ℕ} (h : skip + len ≤ n) :
    ((slice m off n).drop skip).take len = slice m (off + skip) len := by
  have hsplit := slice_append m off skip (n - skip)
  have hsplit' := slice_append m (off + skip) len (n - skip - len)
  rw [show skip + (n - skip) = n by omega] at hsplit
  rw [show len + (n - skip - len) = n - skip by omega] at hsplit'
  have hdrop : (slice m off skip ++ slice m (off + skip) (n - skip)).drop skip = slice m (off + skip) (n - skip) :=
    List.drop_left' (length_slice _ _ _)
  have htake : (slice m (off + skip) len ++ slice m (off + skip + len) (n - skip - len)).take len =
      slice m (off + skip) len := List.take_left' (length_slice _ _ _)
  rw [← hsplit, hdrop, ← hsplit', htake]

theorem slice_store_of_le (h : off' + len ≤ off) : slice (store m off bs) off' len = slice m off' len := by
  apply slice_congr
  intro i _ hi
  have hout : ¬ (off ≤ i ∧ i < off + bs.length) := by omega
  simp only [store, if_neg hout]

theorem slice_store_of_ge (h : off + bs.length ≤ off') :
    slice (store m off bs) off' len = slice m off' len := by
  apply slice_congr
  intro i hi _
  have hout : ¬ (off ≤ i ∧ i < off + bs.length) := by omega
  simp only [store, if_neg hout]

/-- A slice inside a stored list. -/
theorem slice_store_sub (h : off ≤ off') (h' : off' + len ≤ off + bs.length) :
    slice (store m off bs) off' len = (bs.drop (off' - off)).take len := by
  apply List.ext_getElem
  · simp
    omega
  · intro i hi hi'
    have hin : off ≤ off' + i ∧ off' + i < off + bs.length := by
      simp at hi
      omega
    have hlt : off' - off + i < bs.length := by omega
    have hidx : off' + i - off = off' - off + i := by omega
    simp [slice, store, hin, hidx, hlt]

theorem slice_store_self (h : len = bs.length) : slice (store m off bs) off len = bs := by
  rw [slice_store_sub (Nat.le_refl _) (by omega), h]
  simp

theorem store_append (m : Region) (off : ℕ) (bs bs' : Bytes) :
    store m off (bs ++ bs') = store (store m off bs) (off + bs.length) bs' := by
  funext i
  simp only [store, List.length_append]
  by_cases hfirst : i < off + bs.length
  · have hnot : ¬ (off + bs.length ≤ i ∧ i < off + bs.length + bs'.length) := by omega
    rw [if_neg hnot]
    by_cases hin : off ≤ i
    · have hlt : i - off < bs.length := by omega
      have hwide : off ≤ i ∧ i < off + (bs.length + bs'.length) := by omega
      rw [if_pos hwide, if_pos ⟨hin, hfirst⟩, List.getD_append _ _ _ _ hlt]
    · have hno : ¬ (off ≤ i ∧ i < off + (bs.length + bs'.length)) := by omega
      have hno' : ¬ (off ≤ i ∧ i < off + bs.length) := by omega
      rw [if_neg hno, if_neg hno']
  · by_cases hin : i < off + bs.length + bs'.length
    · have hwide : off ≤ i ∧ i < off + (bs.length + bs'.length) := by omega
      have hsecond : off + bs.length ≤ i ∧ i < off + bs.length + bs'.length := by omega
      have hle : bs.length ≤ i - off := by omega
      have hidx : i - off - bs.length = i - (off + bs.length) := by omega
      rw [if_pos hwide, if_pos hsecond, List.getD_append_right _ _ _ _ hle, hidx]
    · have hno : ¬ (off ≤ i ∧ i < off + (bs.length + bs'.length)) := by omega
      have hno' : ¬ (off + bs.length ≤ i ∧ i < off + bs.length + bs'.length) := by omega
      have hno'' : ¬ (off ≤ i ∧ i < off + bs.length) := by omega
      rw [if_neg hno, if_neg hno', if_neg hno'']

end Slices

section Numbers

@[simp]
theorem length_leBytes (len n : ℕ) : (leBytes len n).length = len := by
  induction len generalizing n with
  | zero =>
      rfl
  | succ len ih =>
      simp [leBytes, ih]

theorem leNat_leBytes {len n : ℕ} (h : n < 256 ^ len) : leNat (leBytes len n) = n := by
  induction len generalizing n with
  | zero =>
      have hn : n = 0 := by simpa using h
      simp [leBytes, leNat, hn]
  | succ len ih =>
      have hdiv : n / 256 < 256 ^ len := by
        rw [pow_succ] at h
        exact Nat.div_lt_of_lt_mul (by omega)
      rw [leBytes, leNat, ih hdiv]
      have hb : (UInt8.ofNat n).toNat = n % 256 := by
        simp
      omega

/-- Texts of one length that make the same number are the same. -/
theorem leNat_injective {bs bs' : Bytes} (hlen : bs.length = bs'.length) (h : leNat bs = leNat bs') :
    bs = bs' := by
  induction bs generalizing bs' with
  | nil =>
      exact (List.length_eq_zero_iff.mp hlen.symm).symm
  | cons b bs ih =>
      cases bs' with
      | nil =>
          simp at hlen
      | cons b' bs' =>
          simp only [leNat] at h
          have hb := b.toNat_lt
          have hb' := b'.toNat_lt
          have hhead : b = b' := UInt8.toNat_inj.mp (by omega)
          have htail : bs = bs' := ih (by simpa using hlen) (by omega)
          rw [hhead, htail]

end Numbers

end OneWifiTestSuite.ByteRegion
