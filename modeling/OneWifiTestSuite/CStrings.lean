import OneWifiTestSuite.ByteRegion
import Mathlib.Data.List.TakeWhile

/-!
# Strings in character arrays

An array of characters has a fixed size, and what stands before its first NUL is its string. `cstr`
reads the string and `strncpy` writes one; both are `none` when they leave the array. A copy of all
bytes but the last one reads back as the cut string exactly when it is short or the last byte was a
NUL (`cstr_strncpy`). `strstr` and `strrchr` work on the strings themselves.
-/

namespace OneWifiTestSuite.CStrings

open ByteRegion

/-- `char a[n]`. -/
def CharArray (n : ℕ) := { bs : Bytes // bs.length = n }

instance (n : ℕ) : DecidableEq (CharArray n) :=
  inferInstanceAs (DecidableEq { bs : Bytes // bs.length = n })

section Arrays

variable {n k : ℕ}

def zeros (n : ℕ) : CharArray n :=
  ⟨List.replicate n 0, List.length_replicate⟩

/-- The bytes before the first NUL, or all of them. -/
def content (a : CharArray n) : Bytes :=
  a.1.takeWhile (· != 0)

/-- The string in the array; `none` runs past its end. -/
def cstr (a : CharArray n) : Option Bytes :=
  if 0 ∈ a.1 then some (content a) else none

theorem length_padded {s : Bytes} {a : CharArray n} (h : k ≤ n) :
    (s.take k ++ List.replicate (k - s.length) 0 ++ a.1.drop k).length = n := by
  have hlen := a.2
  simp only [List.length_append, List.length_take, List.length_replicate, List.length_drop]
  omega

/-- `strncpy(a, s, k)`: all `k` bytes are written; `none` writes past the end. -/
def strncpy (a : CharArray n) (s : Bytes) (k : ℕ) : Option (CharArray n) :=
  if h : k ≤ n then some ⟨s.take k ++ List.replicate (k - s.length) 0 ++ a.1.drop k, length_padded h⟩ else none

/-- `memset(a, 0, n)` and `snprintf(a, n, "%s", s)`. -/
def printed (n : ℕ) (s : Bytes) : CharArray n :=
  ⟨(s.take (n - 1) ++ List.replicate n 0).take n, by simp⟩

theorem takeWhile_append_zero {s : Bytes} (hs : 0 ∉ s) (t : Bytes) : (s ++ 0 :: t).takeWhile (· != 0) = s := by
  induction s with
  | nil =>
      rfl
  | cons b s ih =>
      rw [List.mem_cons, not_or] at hs
      have hb : (b != 0) = true := bne_iff_ne.mpr (Ne.symm hs.1)
      rw [List.cons_append, List.takeWhile_cons, if_pos hb, ih hs.2]

theorem cstr_of_eq {a : CharArray n} {s t : Bytes} (hs : 0 ∉ s) (h : a.1 = s ++ 0 :: t) : cstr a = some s := by
  have hmem : 0 ∈ a.1 := by simp [h]
  rw [cstr, if_pos hmem, content, h, takeWhile_append_zero hs]

/-- A string in an array ends inside it. -/
theorem cstr_spec {a : CharArray n} {s : Bytes} (h : cstr a = some s) :
    content a = s ∧ (0 : UInt8) ∉ s ∧ s.length < n := by
  unfold cstr at h
  split_ifs at h with hmem
  cases h
  refine ⟨rfl, fun h0 => ?_, ?_⟩
  · have := List.mem_takeWhile_imp h0
    simp at this
  · have hlen := a.2
    have hle := (List.takeWhile_prefix (· != (0 : UInt8)) (l := a.1)).length_le
    by_contra hge
    have hall : content a = a.1 := (List.takeWhile_prefix _).eq_of_length (by unfold content at hge; omega)
    rw [← hall] at hmem
    have := List.mem_takeWhile_imp hmem
    simp at this

/-- A copy up to the last byte: what is read back. -/
theorem cstr_strncpy {a : CharArray n} {s : Bytes} (hs : 0 ∉ s) (hk : k + 1 = n) :
    ∃ a', strncpy a s k = some a' ∧
      cstr a' = if s.length < k ∨ a.1[k]? = some 0 then some (s.take k) else none := by
  have hle : k ≤ n := by omega
  refine ⟨_, dif_pos hle, ?_⟩
  obtain ⟨b, hb⟩ : ∃ b, a.1.drop k = [b] := by
    have hlen := a.2
    exact List.length_eq_one_iff.mp (by simp; omega)
  have hget : a.1[k]? = some b := by
    have hdrop : (a.1.drop k)[0]? = a.1[k]? := by simp
    rw [← hdrop, hb]
    rfl
  by_cases hlen : s.length < k
  · rw [if_pos (Or.inl hlen)]
    obtain ⟨j, hj⟩ : ∃ j, k - s.length = j + 1 := ⟨k - s.length - 1, by omega⟩
    have htake : s.take k = s := List.take_of_length_le (by omega)
    apply cstr_of_eq (t := List.replicate j 0 ++ [b]) (by rw [htake]; exact hs)
    simp [hb, hj, List.replicate_succ]
  · have hnil : k - s.length = 0 := by omega
    have hs' : (0 : UInt8) ∉ s.take k := fun h => hs (List.mem_of_mem_take h)
    by_cases hb0 : b = 0
    · subst hb0
      rw [if_pos (Or.inr hget)]
      exact cstr_of_eq (t := []) hs' (by simp [hb, hnil])
    · have hno : ¬ (s.length < k ∨ a.1[k]? = some 0) := by
        rw [hget]
        rintro (h | h)
        · exact hlen h
        · exact hb0 (Option.some.inj h)
      have hmem : (0 : UInt8) ∉ s.take k ++ List.replicate (k - s.length) 0 ++ a.1.drop k := by
        simp [hb, hnil, hs', Ne.symm hb0]
      rw [if_neg hno]
      exact if_neg hmem

theorem cstr_printed {s : Bytes} (hs : 0 ∉ s) (hn : 0 < n) : cstr (printed n s) = some (s.take (n - 1)) := by
  obtain ⟨m, rfl⟩ : ∃ m, n = m + 1 := ⟨n - 1, by omega⟩
  apply cstr_of_eq (t := List.replicate (m - s.length) 0) (fun h => hs (List.mem_of_mem_take h))
  have hmin : m + 1 - min m s.length = (m - s.length) + 1 := by omega
  simp [printed, List.take_append, List.replicate_succ, hmin]

end Arrays

section Search

variable {s : Bytes}

/-- `strstr(s, t)`: from the first occurrence on. -/
def strstr (t : Bytes) : Bytes → Option Bytes
  | [] => if t = [] then some [] else none
  | b :: s => if t <+: b :: s then some (b :: s) else strstr t s

/-- `strrchr(s, c)`: what stands before the last `c`, and what stands behind it. -/
def strrchr (c : UInt8) : Bytes → Option (Bytes × Bytes)
  | [] => none
  | b :: s =>
      match strrchr c s with
      | some (before, behind) => some (b :: before, behind)
      | none => if b = c then some ([], s) else none

theorem strrchr_spec {c : UInt8} {before behind : Bytes} (h : strrchr c s = some (before, behind)) :
    s = before ++ c :: behind := by
  induction s generalizing before with
  | nil =>
      cases h
  | cons b s ih =>
      unfold strrchr at h
      cases hs : strrchr c s with
      | some r =>
          obtain ⟨x, y⟩ := r
          rw [hs] at h
          cases h
          rw [ih hs]
          rfl
      | none =>
          rw [hs] at h
          simp only at h
          split_ifs at h with hb
          cases h
          rw [hb]
          rfl

end Search

end OneWifiTestSuite.CStrings
