import OneWifiTestSuite.AgentJson

/-!
# Checks of a set request

`validate_dm_set_parameters` compares a typed value with the range and the list of its data model
element. The bounds are a `long`, and every comparison first casts them to the type of the value.
`correct_iff` is the exact condition on an element and a type under which the check is the intended one
for all values of the type: the cast must keep the range.
-/

namespace OneWifiTestSuite.DataModelCheck

open ByteRegion AgentJson

/-! ### Values -/

section Values

/-- The types with a range check. -/
inductive Kind
  | boolean
  | int8
  | uint8
  | int16
  | uint16
  | int32
  | uint32
deriving DecidableEq, Repr

def Kind.lo : Kind → ℤ
  | .int8 => -2 ^ 7
  | .int16 => -2 ^ 15
  | .int32 => -2 ^ 31
  | _ => 0

def Kind.hi : Kind → ℤ
  | .boolean => 1
  | .int8 => 2 ^ 7 - 1
  | .uint8 => 2 ^ 8 - 1
  | .int16 => 2 ^ 15 - 1
  | .uint16 => 2 ^ 16 - 1
  | .int32 => 2 ^ 31 - 1
  | .uint32 => 2 ^ 32 - 1

/-- The cast of a `long` to the type. -/
def Kind.cast : Kind → ℤ → ℤ
  | .boolean, x => if x = 0 then 0 else 1
  | .int8, x => x.bmod (2 ^ 8)
  | .uint8, x => x % 2 ^ 8
  | .int16, x => x.bmod (2 ^ 16)
  | .uint16, x => x % 2 ^ 16
  | .int32, x => x.bmod (2 ^ 32)
  | .uint32, x => x % 2 ^ 32

/-- `raw_data_t`; a string is the one its pointer points to, or null. -/
inductive RawData
  | checked (k : Kind) (v : ℤ) (fits : k.lo ≤ v ∧ v ≤ k.hi)
  | string (s : Option CText)
  | other

/-- `data_type`. -/
inductive DataType
  | checked (k : Kind)
  | string
  | other
deriving DecidableEq, Repr

def RawData.dataType : RawData → DataType
  | .checked k _ _ => .checked k
  | .string _ => .string
  | .other => .other

/-- `data_model_properties_t`; the list is the array with its null entries. -/
structure DataModelProperties where
  dataPermission : Bool
  minDataRange : ℤ
  maxDataRange : ℤ
  strValidation : Option (List (Option CText))

end Values

/-! ### The code -/

section Code

/-- `COMPARE_INT_RANGE`. -/
def compareIntRange (minValue maxValue setValue : ℤ) : Bool :=
  if setValue < minValue then false else if setValue > maxValue then false else true

/-- `check_dm_min_max_data_range`; true is `RETURN_OK`. -/
def checkDmMinMaxDataRange (minData maxData : ℤ) (busSetData : RawData) : Bool :=
  if minData = 0 ∧ maxData = 0 then true
  else
    match busSetData with
    | .checked k v _ => compareIntRange (k.cast minData) (k.cast maxData) v
    | _ => true

/-- `strncmp(a, b, n) == 0`. -/
def strncmpEq (a b : CText) (n : ℕ) : Bool :=
  (a.1 ++ [0]).take n = (b.1 ++ [0]).take n

/-- `validate_dm_string_param`. -/
def validateDmStringParam (str : Option (List (Option CText))) (setStr : Option CText) : Bool :=
  match str, setStr with
  | some entries, some s =>
      entries.isEmpty || entries.any fun entry =>
        match entry with
        | some t => strncmpEq t s (s.1.length + 1)
        | none => false
  | _, _ => true

/-- `validate_dm_set_parameters`; `none` is a null pointer. -/
def validateDmSetParameters (dataModelProp : Option DataModelProperties) (busSetData : RawData) : Bool :=
  match dataModelProp with
  | none => false
  | some p =>
      if p.dataPermission = false then false
      else if checkDmMinMaxDataRange p.minDataRange p.maxDataRange busSetData = false then false
      else
        match busSetData with
        | .string s => validateDmStringParam p.strValidation s
        | _ => true

end Code

/-! ### The purpose -/

section Spec

/-- The requests to accept: writing is permitted, a value of a checked type lies in the range, and a
string is in the list. Two bounds of 0 are no range, no list and an empty one allow every string, and a
null pointer is no string. -/
def Accepts (p : DataModelProperties) (d : RawData) : Prop :=
  p.dataPermission = true ∧
    (∀ k v fits, d = .checked k v fits →
      p.minDataRange = 0 ∧ p.maxDataRange = 0 ∨ p.minDataRange ≤ v ∧ v ≤ p.maxDataRange) ∧
    ∀ s entries, d = .string (some s) → p.strValidation = some entries → entries ≠ [] → some s ∈ entries

/-- The values of a type are checked as they should be. -/
def Correct (p : Option DataModelProperties) (t : DataType) : Prop :=
  ∀ d, d.dataType = t → (validateDmSetParameters p d = true ↔ ∃ q, p = some q ∧ Accepts q d)

/-- The cast keeps the range on the values of the type: the bounds become those of the range cut to the
type, or neither range has a value. -/
def RangeKept (k : Kind) (minData maxData : ℤ) : Prop :=
  k.cast minData = max minData k.lo ∧ k.cast maxData = min maxData k.hi ∨
    k.cast maxData < k.cast minData ∧ min maxData k.hi < max minData k.lo

/-- The condition on an element: for a checked type there is no permission, no range, or one that the
cast keeps. -/
def Faithful (p : Option DataModelProperties) (t : DataType) : Prop :=
  ∀ q k, p = some q → t = .checked k → q.dataPermission = true →
    q.minDataRange = 0 ∧ q.maxDataRange = 0 ∨ RangeKept k q.minDataRange q.maxDataRange

end Spec

/-! ### The range -/

section Range

variable {k : Kind} {minData maxData v : ℤ}

theorem compareIntRange_iff (minData maxData v : ℤ) :
    compareIntRange minData maxData v = true ↔ minData ≤ v ∧ v ≤ maxData := by
  unfold compareIntRange
  split_ifs with hlow hhigh
  · simp
    omega
  · simp
    omega
  · simp
    omega

theorem Kind.lo_le_hi (k : Kind) : k.lo ≤ k.hi := by
  cases k <;> decide

/-- A cast value is one of the type. -/
theorem Kind.cast_mem (k : Kind) (x : ℤ) : k.lo ≤ k.cast x ∧ k.cast x ≤ k.hi := by
  cases k with
  | boolean =>
      simp only [Kind.cast, Kind.lo, Kind.hi]
      split_ifs <;> omega
  | int8 | int16 | int32 =>
      simp only [Kind.cast, Kind.lo, Kind.hi, Int.bmod]
      split_ifs <;> omega
  | _ =>
      simp only [Kind.cast, Kind.lo, Kind.hi]
      omega

/-- **The cast keeps the range exactly when both ranges have the same values of the type.** -/
theorem rangeKept_iff (k : Kind) (minData maxData : ℤ) : RangeKept k minData maxData ↔
    ∀ v, k.lo ≤ v → v ≤ k.hi → (k.cast minData ≤ v ∧ v ≤ k.cast maxData ↔ minData ≤ v ∧ v ≤ maxData) := by
  have hbounds := k.lo_le_hi
  obtain ⟨hmin, hmin'⟩ := k.cast_mem minData
  obtain ⟨hmax, hmax'⟩ := k.cast_mem maxData
  unfold RangeKept
  generalize k.cast minData = cmin at *
  generalize k.cast maxData = cmax at *
  constructor
  · intro hkept v hlo hhi
    omega
  · intro h
    -- the ends of both ranges are the values to test
    have h₁ := h cmin hmin hmin'
    have h₂ := h cmax hmax hmax'
    have h₃ := h (max minData k.lo)
    have h₄ := h (min maxData k.hi)
    omega

end Range

/-! ### The list -/

section Strings

/-- The comparison takes the terminator of the value in, so that it is equality. -/
theorem strncmpEq_iff (a b : CText) : strncmpEq a b (b.1.length + 1) = true ↔ a = b := by
  have hb : (b.1 ++ [0]).take (b.1.length + 1) = b.1 ++ [0] := List.take_of_length_le (by simp)
  unfold strncmpEq
  rw [decide_eq_true_eq, hb]
  constructor
  · intro h
    by_cases hlen : a.1.length ≤ b.1.length
    · rw [List.take_of_length_le (by simpa using hlen)] at h
      exact Subtype.ext (List.append_cancel_right h)
    · rw [List.take_append_of_le_length (by omega)] at h
      have hzero : (0 : UInt8) ∈ a.1 := by
        apply List.mem_of_mem_take
        rw [h]
        simp
      exact absurd hzero a.2
  · rintro rfl
    exact hb

theorem validateDmStringParam_iff (str : Option (List (Option CText))) (setStr : Option CText) :
    validateDmStringParam str setStr = true ↔
      ∀ s entries, setStr = some s → str = some entries → entries ≠ [] → some s ∈ entries := by
  cases str with
  | none =>
      simp [validateDmStringParam]
  | some entries =>
      cases setStr with
      | none =>
          simp [validateDmStringParam]
      | some s =>
          simp only [validateDmStringParam, Bool.or_eq_true, List.isEmpty_iff, List.any_eq_true, Option.some.injEq]
          constructor
          · rintro (hnil | ⟨entry, hmem, heq⟩) t list rfl rfl hne
            · exact absurd hnil hne
            · cases entry with
              | none =>
                  cases heq
              | some t =>
                  rw [(strncmpEq_iff t s).mp heq] at hmem
                  exact hmem
          · intro h
            by_cases hnil : entries = []
            · exact Or.inl hnil
            · exact Or.inr ⟨some s, h s entries rfl rfl hnil, (strncmpEq_iff s s).mpr rfl⟩

end Strings

/-! ### The check -/

section Check

variable {p : DataModelProperties} {d : RawData}

/-- What the code accepts: the intended requests, with the cast bounds in place of the configured ones. -/
theorem validateDmSetParameters_iff : validateDmSetParameters (some p) d = true ↔
    p.dataPermission = true ∧
      (∀ k v fits, d = .checked k v fits → p.minDataRange = 0 ∧ p.maxDataRange = 0 ∨
        k.cast p.minDataRange ≤ v ∧ v ≤ k.cast p.maxDataRange) ∧
      ∀ s entries, d = .string (some s) → p.strValidation = some entries → entries ≠ [] → some s ∈ entries := by
  simp only [validateDmSetParameters]
  cases hperm : p.dataPermission with
  | false =>
      simp
  | true =>
      cases d with
      | checked k v fits =>
          by_cases hzero : p.minDataRange = 0 ∧ p.maxDataRange = 0
          · simp [checkDmMinMaxDataRange, hzero]
          · have hrange := compareIntRange_iff (k.cast p.minDataRange) (k.cast p.maxDataRange) v
            cases hcmp : compareIntRange (k.cast p.minDataRange) (k.cast p.maxDataRange) v with
            | false =>
                rw [hcmp] at hrange
                simp only [checkDmMinMaxDataRange, if_neg hzero, hcmp]
                refine iff_of_false (by simp) ?_
                rintro ⟨-, hin, -⟩
                obtain hno | hyes := hin k v fits rfl
                · exact hzero hno
                · exact absurd (hrange.mpr hyes) (by simp)
            | true =>
                rw [hcmp] at hrange
                simp only [checkDmMinMaxDataRange, if_neg hzero, hcmp]
                refine iff_of_true (by simp) ⟨trivial, ?_, by rintro s entries ⟨⟩⟩
                rintro k' v' fits' ⟨⟩
                exact Or.inr (hrange.mp rfl)
      | string s =>
          have hcheck : checkDmMinMaxDataRange p.minDataRange p.maxDataRange (.string s) = true := by
            simp [checkDmMinMaxDataRange]
          have hlist := validateDmStringParam_iff p.strValidation s
          simp only [hcheck, Bool.true_eq_false, if_false, hlist, true_and, RawData.string.injEq]
          constructor
          · intro h
            exact ⟨by rintro k v fits ⟨⟩, h⟩
          · rintro ⟨-, h⟩
            exact h
      | other =>
          simp [checkDmMinMaxDataRange]

/-- **The check of a set request is the intended one exactly when the cast keeps the range**: for every
element and every type, over all values of the type. -/
theorem correct_iff (p : Option DataModelProperties) (t : DataType) : Correct p t ↔ Faithful p t := by
  cases p with
  | none =>
      simp [Correct, Faithful, validateDmSetParameters]
  | some p =>
      simp only [Correct, Faithful, Option.some.injEq, exists_eq_left', validateDmSetParameters_iff]
      constructor
      · rintro h q k rfl ht hperm
        by_cases hzero : p.minDataRange = 0 ∧ p.maxDataRange = 0
        · exact Or.inl hzero
        · refine Or.inr ((rangeKept_iff k _ _).mpr fun v hlo hhi => ?_)
          have hv := h (.checked k v ⟨hlo, hhi⟩) ht.symm
          constructor
          · intro hin
            obtain ⟨-, hspec, -⟩ := hv.mp ⟨hperm, by rintro k' v' fits' ⟨⟩; exact Or.inr hin, by rintro s e ⟨⟩⟩
            exact (hspec k v ⟨hlo, hhi⟩ rfl).resolve_left hzero
          · intro hin
            obtain ⟨-, hcode, -⟩ := hv.mpr ⟨hperm, by rintro k' v' fits' ⟨⟩; exact Or.inr hin, by rintro s e ⟨⟩⟩
            exact (hcode k v ⟨hlo, hhi⟩ rfl).resolve_left hzero
      · intro h d ht
        unfold Accepts
        refine and_congr_right fun hperm => and_congr_left fun _ => ?_
        refine forall_congr' fun k => forall_congr' fun v => forall_congr' fun fits => ?_
        refine imp_congr_right fun hd => or_congr_right' fun hzero => ?_
        have hkept := (h p k rfl (by rw [← ht, hd]; rfl) hperm).resolve_left hzero
        exact (rangeKept_iff k _ _).mp hkept v fits.1 fits.2

/-- A range from 0 to 200 for a signed byte. -/
def wideRange : DataModelProperties :=
  ⟨true, 0, 200, none⟩

/-- The upper bound is cast to −56, and the value 5 is refused. -/
theorem not_correct_wideRange : validateDmSetParameters (some wideRange) (.checked .int8 5 (by decide)) = false ∧
    ¬ Correct (some wideRange) (.checked .int8) := by
  have hrun : validateDmSetParameters (some wideRange) (.checked .int8 5 (by decide)) = false := by decide
  refine ⟨hrun, fun hcorrect => ?_⟩
  have haccept : Accepts wideRange (.checked .int8 5 (by decide)) := by
    refine ⟨rfl, ?_, by rintro s entries ⟨⟩⟩
    rintro k v fits ⟨⟩
    exact Or.inr (by decide)
  have hyes := (hcorrect (.checked .int8 5 (by decide)) rfl).mpr ⟨wideRange, rfl, haccept⟩
  rw [hrun] at hyes
  cases hyes

end Check

end OneWifiTestSuite.DataModelCheck
