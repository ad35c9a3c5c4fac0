import OneWifiTestSuite.HashMap
import Mathlib.Data.Nat.Digits.Lemmas

/-!
# The keys of the station map

`create_key` writes `snprintf(key, sizeof(sta_key_t), "%d-%d", test_id, dev_id)`. Both numbers are
unsigned and printed as signed ones. The size of `sta_key_t` comes from a header outside the
repository, so it is a parameter, and a key that does not fit is cut off.

`testId_eq_of_extends` is the fact the search by prefix leaves intact: when a key is a prefix of
another, both belong to one test. (The device ids may differ: "1-1" is a prefix of "1-10".)
-/

namespace OneWifiTestSuite.StaKey

open HashMap

/-- The digits that `%d` prints for a number that is not negative. -/
def decimal (n : ℕ) : List UInt8 :=
  if n = 0 then [48] else (Nat.digits 10 n).reverse.map fun d => UInt8.ofNat (d + 48)

/-- `%d`. -/
def formatInt : ℤ → List UInt8
  | .ofNat n => decimal n
  | .negSucc n => 45 :: decimal (n + 1)

@[simp]
theorem formatInt_ofNat (n : ℕ) : formatInt (.ofNat n) = decimal n := rfl

@[simp]
theorem formatInt_negSucc (n : ℕ) : formatInt (.negSucc n) = 45 :: decimal (n + 1) := rfl

/-- The text "%d-%d". -/
def keyText (testId : BitVec 32) (devId : ℕ) : List UInt8 :=
  formatInt testId.toInt ++ 45 :: formatInt (BitVec.ofNat 32 devId).toInt

/-- `isspace` in the C locale. -/
def isSpace (b : UInt8) : Bool :=
  b = 32 ∨ 9 ≤ b ∧ b ≤ 13

def isDigit (b : UInt8) : Bool :=
  48 ≤ b ∧ b ≤ 57

/-- The digits of a `%d` conversion, at least one. -/
def scanDigits (s : List UInt8) : Option (ℕ × List UInt8) :=
  match s.takeWhile isDigit with
  | [] => none
  | ds => some (ds.foldl (fun n b => 10 * n + (b.toNat - 48)) 0, s.dropWhile isDigit)

/-- A `%d` conversion of `sscanf`: the number and the rest of the text. -/
def scanInt (s : List UInt8) : Option (ℤ × List UInt8) :=
  match s.dropWhile isSpace with
  | 45 :: s => (scanDigits s).map fun r => (-r.1, r.2)
  | 43 :: s => (scanDigits s).map fun r => (r.1, r.2)
  | s => (scanDigits s).map fun r => (r.1, r.2)

/-- `get_dev_id_from_key`; a conversion that fails leaves the variable as it was, uninitialised. -/
def getDevIdFromKey (key : CString) (uninit : ℕ) : ℕ :=
  match scanInt key.1 with
  | some (_, 45 :: s) =>
      match scanInt s with
      | some (devId, _) => (BitVec.ofInt 32 devId).toNat
      | none => uninit
  | _ => uninit

theorem toNat_digit {d : ℕ} (h : d < 10) : (UInt8.ofNat (d + 48)).toNat = d + 48 := by
  rw [UInt8.toNat_ofNat']
  omega

theorem mem_decimal {n : ℕ} {b : UInt8} (h : b ∈ decimal n) : 48 ≤ b.toNat := by
  unfold decimal at h
  split_ifs at h with hn
  · rw [List.mem_singleton.mp h]
    decide
  · obtain ⟨d, hd, rfl⟩ := List.mem_map.mp h
    rw [toNat_digit (Nat.digits_lt_base (by omega) (List.mem_reverse.mp hd))]
    omega

theorem decimal_ne_nil (n : ℕ) : decimal n ≠ [] := by
  unfold decimal
  split_ifs with hn
  · simp
  · simp [Nat.digits_ne_nil_iff_ne_zero.mpr hn]

theorem dash_notMem_decimal (n : ℕ) : (45 : UInt8) ∉ decimal n := by
  intro h
  have := mem_decimal h
  simp at this

/-- The value of a decimal text. -/
theorem ofDigits_decimal (n : ℕ) :
    Nat.ofDigits 10 ((decimal n).reverse.map fun b => b.toNat - 48) = n := by
  unfold decimal
  split_ifs with hn
  · simp [hn]
  · have hmap : ((Nat.digits 10 n).map fun d => (UInt8.ofNat (d + 48)).toNat - 48) = Nat.digits 10 n := by
      refine (List.map_congr_left fun d hd => ?_).trans (List.map_id _)
      rw [toNat_digit (Nat.digits_lt_base (by omega) hd)]
      simp
    rw [← List.map_reverse, List.reverse_reverse, List.map_map]
    exact (congrArg (Nat.ofDigits 10) hmap).trans (Nat.ofDigits_digits 10 n)

theorem decimal_injective : Function.Injective decimal := by
  intro m n h
  rw [← ofDigits_decimal m, ← ofDigits_decimal n, h]

theorem formatInt_injective : Function.Injective formatInt := by
  intro y z h
  have hdash : ∀ m n : ℕ, decimal m ≠ 45 :: decimal n := by
    intro m n hmn
    exact dash_notMem_decimal m (hmn ▸ List.mem_cons_self)
  cases y with
  | ofNat m =>
      cases z with
      | ofNat n =>
          exact congrArg Int.ofNat (decimal_injective h)
      | negSucc n =>
          exact absurd h (hdash _ _)
  | negSucc m =>
      cases z with
      | ofNat n =>
          exact absurd h.symm (hdash _ _)
      | negSucc n =>
          have := decimal_injective (List.cons.inj h).2
          simp only [Nat.add_right_cancel_iff] at this
          rw [this]

/-- Up to the first dash two texts that continue each other agree. -/
theorem eq_of_dash_extends {s t u v : List UInt8} (hs : (45 : UInt8) ∉ s) (ht : (45 : UInt8) ∉ t)
    (h : s ++ 45 :: u <+: t ++ 45 :: v) : s = t := by
  induction s generalizing t with
  | nil =>
      cases t with
      | nil =>
          rfl
      | cons b t =>
          have hb := (List.cons_prefix_cons.mp h).1
          simp [← hb] at ht
  | cons a s ih =>
      cases t with
      | nil =>
          have ha := (List.cons_prefix_cons.mp h).1
          simp [ha] at hs
      | cons b t =>
          obtain ⟨hab, htail⟩ := List.cons_prefix_cons.mp h
          rw [List.mem_cons, not_or] at hs ht
          rw [hab, ih hs.2 ht.2 htail]

theorem formatInt_eq_of_extends {y z : ℤ} {u v : List UInt8}
    (h : formatInt y ++ 45 :: u <+: formatInt z ++ 45 :: v) : formatInt y = formatInt z := by
  have hfirst : ∀ (n : ℕ) (u : List UInt8) (t : List UInt8), decimal n ++ 45 :: u <+: 45 :: t → False := by
    intro n u t hpre
    obtain ⟨a, s, hs⟩ := List.exists_cons_of_ne_nil (decimal_ne_nil n)
    rw [hs] at hpre
    exact dash_notMem_decimal n (by simp [hs, (List.cons_prefix_cons.mp hpre).1])
  cases y with
  | ofNat m =>
      cases z with
      | ofNat n =>
          exact eq_of_dash_extends (dash_notMem_decimal m) (dash_notMem_decimal n) h
      | negSucc n =>
          exact (hfirst m u _ h).elim
  | negSucc m =>
      cases z with
      | ofNat n =>
          obtain ⟨b, t, ht⟩ := List.exists_cons_of_ne_nil (decimal_ne_nil n)
          rw [formatInt_negSucc, formatInt_ofNat, ht] at h
          exact absurd (by simp [ht, ← (List.cons_prefix_cons.mp h).1]) (dash_notMem_decimal n)
      | negSucc n =>
          have h' := (List.cons_prefix_cons.mp h).2
          rw [formatInt_negSucc, formatInt_negSucc,
            eq_of_dash_extends (dash_notMem_decimal _) (dash_notMem_decimal _) h']

/-- **A key that is a prefix of another belongs to the same test.** -/
theorem testId_eq_of_extends {t t' : BitVec 32} {d d' : ℕ} (h : keyText t d <+: keyText t' d') : t = t' :=
  BitVec.eq_of_toInt_eq (formatInt_injective (formatInt_eq_of_extends h))

theorem zero_notMem_formatInt (z : ℤ) : (0 : UInt8) ∉ formatInt z := by
  have hdec : ∀ n, (0 : UInt8) ∉ decimal n := by
    intro n h
    have := mem_decimal h
    simp at this
  cases z with
  | ofNat n =>
      exact hdec n
  | negSucc n =>
      simp [formatInt, hdec]

theorem zero_notMem_keyText (testId : BitVec 32) (devId : ℕ) : (0 : UInt8) ∉ keyText testId devId := by
  simp [keyText, zero_notMem_formatInt]

/-- `create_key`, in a buffer of `size` bytes. -/
def createKey (size : ℕ) (devId : ℕ) (testId : BitVec 32) : CString :=
  ⟨(keyText testId devId).take (size - 1), fun h => zero_notMem_keyText testId devId (List.mem_of_mem_take h)⟩

/-- The keys of `count` devices fit a buffer of `size` bytes, with the terminating NUL. -/
def KeysFit (size count : ℕ) : Prop :=
  ∀ testId devId, devId < count → (keyText testId devId).length < size

theorem createKey_val {size count devId : ℕ} (h : KeysFit size count) (hd : devId < count)
    (testId : BitVec 32) : (createKey size devId testId).1 = keyText testId devId := by
  have := h testId devId hd
  exact List.take_of_length_le (by omega)

/-- A decimal text of a number of at most `k` digits. -/
theorem decimal_length_le {n k : ℕ} (hk : 0 < k) (h : n < 10 ^ k) : (decimal n).length ≤ k := by
  unfold decimal
  split_ifs with hn
  · simp
    omega
  · simpa using (Nat.digits_length_le_iff (by omega) n).mpr h

/-- A buffer of 18 bytes is enough for a hundred thousand devices. -/
theorem keysFit_of_le {size count : ℕ} (hs : 18 ≤ size) (hc : count ≤ 100000) : KeysFit size count := by
  intro testId devId hd
  have htest : (formatInt testId.toInt).length ≤ 11 := by
    have h₁ := testId.toInt_lt
    have h₂ := testId.le_toInt
    cases hz : testId.toInt with
    | ofNat n =>
        have := decimal_length_le (n := n) (k := 10) (by omega) (by rw [hz] at h₁; simp at h₁; omega)
        simp only [formatInt]
        omega
    | negSucc n =>
        have := decimal_length_le (n := n + 1) (k := 10) (by omega) (by rw [hz] at h₂; simp at h₂; omega)
        simp only [formatInt, List.length_cons]
        omega
  have hdev : (BitVec.ofNat 32 devId).toInt = Int.ofNat devId := by
    have hnat : (BitVec.ofNat 32 devId).toNat = devId := by
      rw [BitVec.toNat_ofNat, Nat.mod_eq_of_lt (by omega)]
    rw [BitVec.toInt_eq_toNat_of_lt (by omega), hnat]
    rfl
  have hlen := decimal_length_le (n := devId) (k := 5) (by omega) (by omega)
  simp only [keyText, List.length_append, List.length_cons, hdev, formatInt_ofNat]
  omega

/-! ### Reading a key back -/

theorem isDigit_of_mem_decimal {n : ℕ} {b : UInt8} (h : b ∈ decimal n) : isDigit b = true := by
  have hle : b.toNat ≤ 57 := by
    unfold decimal at h
    split_ifs at h with hn
    · rw [List.mem_singleton.mp h]
      decide
    · obtain ⟨d, hd, rfl⟩ := List.mem_map.mp h
      have hlt := Nat.digits_lt_base (by omega) (List.mem_reverse.mp hd)
      rw [toNat_digit hlt]
      omega
  have hge := mem_decimal h
  simp only [isDigit, decide_eq_true_eq, UInt8.le_iff_toNat_le]
  exact ⟨hge, hle⟩

theorem foldl_decimal (n : ℕ) :
    (decimal n).foldl (fun k b => 10 * k + (b.toNat - 48)) 0 = n := by
  have h := ofDigits_decimal n
  rw [Nat.ofDigits_eq_foldr, List.foldr_map, List.foldr_reverse] at h
  simpa [add_comm] using h

/-- `%d` reads back the digits of a number that something else follows. -/
theorem scanDigits_decimal {n : ℕ} {s : List UInt8} (hs : s.takeWhile isDigit = []) :
    scanDigits (decimal n ++ s) = some (n, s) := by
  have hall : ∀ b ∈ decimal n, isDigit b = true := fun b hb => isDigit_of_mem_decimal hb
  have htake : (decimal n ++ s).takeWhile isDigit = decimal n := by
    rw [List.takeWhile_append_of_pos hall, hs, List.append_nil]
  have hdrop : (decimal n ++ s).dropWhile isDigit = s := by
    have hwhole := List.takeWhile_append_dropWhile (p := isDigit) (l := decimal n ++ s)
    rw [htake] at hwhole
    exact List.append_cancel_left hwhole
  unfold scanDigits
  rw [htake, hdrop]
  cases hd : decimal n with
  | nil =>
      exact absurd hd (decimal_ne_nil n)
  | cons a l =>
      simp only [← hd, foldl_decimal]

theorem scanInt_formatInt (z : ℤ) {s : List UInt8} (hs : s.takeWhile isDigit = []) :
    scanInt (formatInt z ++ s) = some (z, s) := by
  cases z with
  | ofNat n =>
      obtain ⟨a, l, hd⟩ := List.exists_cons_of_ne_nil (decimal_ne_nil n)
      have ha : isDigit a = true := isDigit_of_mem_decimal (n := n) (by simp [hd])
      simp only [isDigit, decide_eq_true_eq, UInt8.le_iff_toNat_le] at ha
      have hspace : isSpace a = false := by
        simp only [isSpace, decide_eq_false_iff_not, UInt8.le_iff_toNat_le, ← UInt8.toNat_inj]
        simp at ha ⊢
        omega
      have h45 : a ≠ 45 := by
        rintro rfl
        simp at ha
      have h43 : a ≠ 43 := by
        rintro rfl
        simp at ha
      have hscan := scanDigits_decimal (n := n) hs
      unfold scanInt
      rw [formatInt_ofNat, hd] at *
      rw [List.cons_append, List.dropWhile_cons_of_neg (by simp [hspace])]
      split
      · rename_i heq
        exact absurd (List.cons.inj heq).1 h45
      · rename_i heq
        exact absurd (List.cons.inj heq).1 h43
      · rw [← List.cons_append, hscan]
        rfl
  | negSucc n =>
      have hscan := scanDigits_decimal (n := n + 1) hs
      unfold scanInt
      rw [formatInt_negSucc, List.cons_append, List.dropWhile_cons_of_neg (by decide)]
      simp only [hscan]
      rfl

/-- **The key gives the device id back**: `get_dev_id_from_key` undoes `create_key` for every 32-bit
device id and test id. -/
theorem getDevIdFromKey_createKey {size count devId : ℕ} (hfit : KeysFit size count) (hd : devId < count)
    (hdev : devId < 2 ^ 32) (testId : BitVec 32) (uninit : ℕ) :
    getDevIdFromKey (createKey size devId testId) uninit = devId := by
  have hdash : ∀ s : List UInt8, (45 :: s).takeWhile isDigit = [] := fun s => rfl
  have hdev' := scanInt_formatInt (BitVec.ofNat 32 devId).toInt (s := []) rfl
  rw [List.append_nil] at hdev'
  unfold getDevIdFromKey
  rw [createKey_val hfit hd, keyText, scanInt_formatInt _ (hdash _)]
  simp only [hdev', BitVec.ofInt_toInt, BitVec.toNat_ofNat]
  exact Nat.mod_eq_of_lt hdev

end OneWifiTestSuite.StaKey
