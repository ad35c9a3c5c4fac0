import OneWifiTestSuite.StatsDecode
import Mathlib.Algebra.Order.Floor.Ring

/-!
# The ranges of radio and VAP indexes

Eleven decoders take the index of a radio or of a VAP and compare it with the size of its table. Those of
the statistics want both bounds at once. `decode_step_mgmt_frame_capture` rejects an index that is below
the table and above it, so none.

`rangeSound_iff` says which configurations are decoded to an index inside its table only. For the
statistics these are all but the ones with a number that `atoi` cuts to another; one that fits an `int` is
not cut (`not_misread`).
-/

namespace OneWifiTestSuite.IndexRanges

open ByteRegion RebootFile StaKey RebootResume StatsDecode
open StatsGet (WifiStatsGet DataType Limits zeroed)

/-! ### The code -/

section Code

/-- `mgmt_frame_capture_t`. -/
structure MgmtFrameCapture where
  radioIndex : BitVec 32
  duration : BitVec 32
deriving DecidableEq, Repr

/-- A number with a fraction as an `unsigned int`: the fraction is dropped, and what the target does with a number
that does not fit is its own. -/
structure Conversion where
  toUnsigned : ℚ → BitVec 32
  truncates : ∀ q : ℚ, 0 ≤ q → q < 2 ^ 32 → (toUnsigned q).toNat = ⌊q⌋₊

/-- The numbers of a step configuration: the `valuedouble` that `decode_param_integer` finds under a key. -/
abbrev Numbers := String → Option ℚ

/-- `decode_step_mgmt_frame_capture`. -/
def decodeStepMgmtFrameCapture (conv : Conversion) (l : Limits) (step : Numbers) : Except Stop MgmtFrameCapture := do
  let radio ← orFail (step "MgmtFrameCaptureRadioIndex")
  if radio < 0 ∧ (l.maxNumRadios : ℚ) ≤ radio then .error .failed
  else do
    let duration ← orFail (step "Duration")
    .ok ⟨conv.toUnsigned radio, conv.toUnsigned duration⟩

end Code

/-! ### Indexes inside their tables -/

section Meaning

/-- The number that `strtol` reads, without its bounds. -/
def number (s : Bytes) : ℤ :=
  match scanInt s with
  | none => 0
  | some (z, _) => z

/-- The index that a `stats_get` step stores. -/
def getIndex (t : DataType) (c : WifiStatsGet) : ℕ :=
  match t with
  | .associatedDeviceStats => c.vapIndex
  | _ => c.radioIndex

/-- The index that a `stats_set` step stores. -/
def setIndex (t : DataType) (c : WifiStatsSet) : BitVec 32 :=
  match t with
  | .associatedDeviceStats => c.vapIndex
  | _ => c.radioIndex

/-- A step configuration, with the decoder that it is for; `memory` answers its pushes. -/
inductive Config
  | mgmtFrameCapture (step : Numbers)
  | statsGet (t : DataType) (json : Json)
  | statsSet (t : DataType) (memory : ℕ → Bool) (json : Json) (c : WifiStatsSet)

/-- The number that a configuration gives as a string is inside the table. -/
def NumberInside (json : Json) (key : String) (limit : ℕ) : Prop :=
  ∀ s, json.getObjectItem key = some (.string s) → 0 ≤ number s ∧ number s < limit

/-- A step that comes out has an index inside its table, and the configuration gave one inside. -/
def RangeSound (conv : Conversion) (l : Limits) : Config → Prop
  | .mgmtFrameCapture step => ∀ c, decodeStepMgmtFrameCapture conv l step = .ok c → c.radioIndex.toNat < l.maxNumRadios ∧
      ∀ q, step "MgmtFrameCaptureRadioIndex" = some q → 0 ≤ q ∧ q < l.maxNumRadios
  | .statsGet t json => ∀ c, decodeStepStatsGet t l json = .ok c → getIndex t c < indexLimit l t ∧
      NumberInside json (indexKey t) (indexLimit l t)
  | .statsSet t memory json c => ∀ d, decodeStepStatsSet t memory l json c = .ok d →
      (0 ≤ (setIndex t d).toInt ∧ (setIndex t d).toInt < indexLimit l t) ∧
        NumberInside json (indexKey t) (indexLimit l t)

/-- A number that is read as a `long`, which it is cut to, and kept in an `int`. -/
def kept (n : ℤ) : ℤ :=
  (BitVec.ofInt 32 (max (-2 ^ 63) (min n (2 ^ 63 - 1)))).toInt

/-- A number outside a table that is kept as one inside. -/
def Misread (limit : ℕ) (s : Bytes) : Prop :=
  ¬ (0 ≤ number s ∧ number s < limit) ∧ 0 ≤ kept (number s) ∧ kept (number s) < limit

/-- The document has all that a `stats_get` step needs besides its index. -/
def GetComplete (t : DataType) (json : Json) : Prop :=
  (∃ c d, OperationOf json c d) ∧ (hasScanMode t = true → ∃ mode, ScanModeGiven json mode)

/-- The document has all that a `stats_set` step needs besides its index. -/
def SetComplete (json : Json) : Prop :=
  ∃ list rs, json.getObjectItem "StatsConfiguration" = some list ∧ List.Forall₂ EntryOf (StepSubdoc.children list) rs

/-- A configuration that is complete otherwise gives an index inside the table, or one that the check sees outside. -/
def RangeOk (l : Limits) : Config → Prop
  | .mgmtFrameCapture step => ∀ q d, step "MgmtFrameCaptureRadioIndex" = some q → step "Duration" = some d →
      0 ≤ q ∧ q < l.maxNumRadios
  | .statsGet t json => ∀ s, json.getObjectItem (indexKey t) = some (.string s) → GetComplete t json →
      ¬ Misread (indexLimit l t) s
  | .statsSet t _ json _ => ∀ s, json.getObjectItem (indexKey t) = some (.string s) → SetComplete json →
      ¬ Misread (indexLimit l t) s

end Meaning

/-! ### Numbers -/

section Numbers

variable {limit : ℕ} {s : Bytes}

theorem toInt_atoi (s : Bytes) : (atoi s).toInt = kept (number s) := by
  unfold atoi number
  cases scanInt s with
  | none => rfl
  | some r => rfl

/-- A number that fits an `int` is not cut. -/
theorem kept_eq_self {n : ℤ} (hlo : -2 ^ 31 ≤ n) (hhi : n < 2 ^ 31) : kept n = n := by
  have hclamp : max (-2 ^ 63) (min n (2 ^ 63 - 1)) = n := by omega
  rw [kept, hclamp]
  exact BitVec.toInt_ofInt_eq_self (by omega) (by omega) (by omega)

/-- Only a number that does not fit an `int` is misread. -/
theorem not_misread (hlo : -2 ^ 31 ≤ number s) (hhi : number s < 2 ^ 31) : ¬ Misread limit s := by
  rintro ⟨hout, hin⟩
  rw [kept_eq_self hlo hhi] at hin
  exact hout hin

end Numbers

/-! ### The decoders -/

section Decoders

variable {conv : Conversion} {l : Limits} {t : DataType} {json : Json}

/-- The check of `decode_step_mgmt_frame_capture` rejects nothing. -/
theorem mgmt_eq_ok_iff {step : Numbers} {c : MgmtFrameCapture} : decodeStepMgmtFrameCapture conv l step = .ok c ↔
    ∃ q d, step "MgmtFrameCaptureRadioIndex" = some q ∧ step "Duration" = some d ∧
      c = ⟨conv.toUnsigned q, conv.toUnsigned d⟩ := by
  have hnever : ∀ q : ℚ, ¬ (q < 0 ∧ (l.maxNumRadios : ℚ) ≤ q) := fun q hq =>
    absurd (hq.2.trans_lt hq.1) (not_lt.mpr (Nat.cast_nonneg _))
  simp only [decodeStepMgmtFrameCapture, if_neg (hnever _), bind_eq_ok_iff, orFail_eq_ok_iff, Except.ok.injEq,
    exists_and_left, eq_comm (b := c)]

/-- A number inside the table of the radios is stored as it is, without its fraction. -/
theorem toUnsigned_lt {q : ℚ} (hlo : 0 ≤ q) (hhi : q < l.maxNumRadios) :
    (conv.toUnsigned q).toNat < l.maxNumRadios := by
  have hfits : q < 2 ^ 32 := by
    have hmax : (l.maxNumRadios : ℚ) < 2 ^ 31 := by exact_mod_cast l.fits.1
    exact hhi.trans (hmax.trans (by norm_num))
  rw [conv.truncates q hlo hfits]
  exact (Nat.floor_lt hlo).mpr hhi

theorem getIndex_of_getFrom {c : WifiStatsGet} (h : GetFrom t l json c) :
    ∃ index, IndexGiven json (indexKey t) (indexLimit l t) index ∧ getIndex t c = index.toInt.toNat := by
  obtain ⟨index, d, hindex, hop, hscan⟩ := h
  have hd : getIndex t d = index.toInt.toNat := by
    cases hop <;> cases t <;> rfl
  refine ⟨index, hindex, ?_⟩
  split_ifs at hscan
  · obtain ⟨mode, -, rfl⟩ := hscan
    rw [← hd]
    cases t <;> rfl
  · rw [hscan, hd]

/-- With an index that the check takes for one inside, a complete document gives a step. -/
theorem exists_getFrom {s : Bytes} (hs : json.getObjectItem (indexKey t) = some (.string s))
    (hin : 0 ≤ (atoi s).toInt ∧ (atoi s).toInt < indexLimit l t) (hcomplete : GetComplete t json) :
    ∃ c, GetFrom t l json c := by
  obtain ⟨⟨c, d, hop⟩, hscan⟩ := hcomplete
  obtain ⟨d', hop'⟩ := hop.other (withIndex t (atoi s).toInt.toNat)
  by_cases hmode : hasScanMode t = true
  · obtain ⟨mode, hgiven⟩ := hscan hmode
    exact ⟨_, atoi s, d', ⟨s, hs, rfl, hin⟩, hop', by rw [if_pos hmode]; exact ⟨mode, hgiven, rfl⟩⟩
  · exact ⟨d', atoi s, d', ⟨s, hs, rfl, hin⟩, hop', by rw [if_neg hmode]⟩

theorem getComplete_of_getFrom {c : WifiStatsGet} (h : GetFrom t l json c) : GetComplete t json := by
  obtain ⟨index, d, hindex, hop, hscan⟩ := h
  refine ⟨⟨_, _, hop⟩, fun hmode => ?_⟩
  rw [if_pos hmode] at hscan
  obtain ⟨mode, hgiven, -⟩ := hscan
  exact ⟨mode, hgiven⟩

theorem mgmt_rangeSound_iff (conv : Conversion) (l : Limits) (step : Numbers) :
    RangeSound conv l (.mgmtFrameCapture step) ↔ RangeOk l (.mgmtFrameCapture step) := by
  constructor
  · intro h q d hq hd
    exact (h _ (mgmt_eq_ok_iff.mpr ⟨q, d, hq, hd, rfl⟩)).2 q hq
  · intro h c hc
    obtain ⟨q, d, hq, hd, rfl⟩ := mgmt_eq_ok_iff.mp hc
    obtain ⟨hlo, hhi⟩ := h q d hq hd
    refine ⟨toUnsigned_lt hlo hhi, fun q' hq' => ?_⟩
    obtain rfl : q = q' := Option.some.inj (hq.symm.trans hq')
    exact ⟨hlo, hhi⟩

theorem statsGet_rangeSound_iff (conv : Conversion) (l : Limits) (t : DataType) (json : Json) :
    RangeSound conv l (.statsGet t json) ↔ RangeOk l (.statsGet t json) := by
  constructor
  · rintro h s hs hcomplete ⟨hout, hin⟩
    rw [← toInt_atoi] at hin
    obtain ⟨c, hc⟩ := exists_getFrom hs hin hcomplete
    exact hout ((h c (statsGet_eq_ok_iff.mpr hc)).2 s hs)
  · intro h c hc
    have hfrom := statsGet_eq_ok_iff.mp hc
    obtain ⟨index, ⟨s, hs, rfl, hin⟩, hindex⟩ := getIndex_of_getFrom hfrom
    refine ⟨by omega, fun s' hs' => ?_⟩
    obtain rfl : s = s' := by simpa using hs.symm.trans hs'
    by_contra hout
    rw [toInt_atoi] at hin
    exact h s hs (getComplete_of_getFrom hfrom) ⟨hout, hin⟩

theorem statsSet_rangeSound_iff (conv : Conversion) (l : Limits) (t : DataType) (memory : ℕ → Bool) (json : Json)
    (c : WifiStatsSet) : RangeSound conv l (.statsSet t memory json c) ↔ RangeOk l (.statsSet t memory json c) := by
  constructor
  · rintro h s hs ⟨list, rs, hlist, hrs⟩ ⟨hout, hin⟩
    rw [← toInt_atoi] at hin
    exact hout ((h _ (statsSet_eq_ok_iff.mpr ⟨atoi s, list, rs, ⟨⟨s, hs, rfl, hin⟩, hlist, hrs⟩, rfl⟩)).2 s hs)
  · intro h d hd
    obtain ⟨index, list, rs, ⟨⟨s, hs, rfl, hin⟩, hlist, hrs⟩, rfl⟩ := statsSet_eq_ok_iff.mp hd
    refine ⟨?_, fun s' hs' => ?_⟩
    · cases t <;> exact hin
    · obtain rfl : s = s' := by simpa using hs.symm.trans hs'
      by_contra hout
      rw [toInt_atoi] at hin
      exact h s hs ⟨list, rs, hlist, hrs⟩ ⟨hout, hin⟩

/-- **All decoders**: an index that comes out is inside its table exactly when the configuration gives one inside or
the check sees that it is not. -/
theorem rangeSound_iff (conv : Conversion) (l : Limits) (config : Config) :
    RangeSound conv l config ↔ RangeOk l config := by
  cases config with
  | mgmtFrameCapture step =>
      exact mgmt_rangeSound_iff conv l step
  | statsGet t json =>
      exact statsGet_rangeSound_iff conv l t json
  | statsSet t memory json c =>
      exact statsSet_rangeSound_iff conv l t memory json c

end Decoders

/-! ### A radio that does not exist -/

section Example

/-- A conversion that keeps the low half of a number that is too large. -/
def lowHalf : Conversion where
  toUnsigned := fun q => BitVec.ofInt 32 ⌊q⌋
  truncates := fun q hlo hhi => by
    have hfloor : ⌊q⌋₊ < 2 ^ 32 := (Nat.floor_lt hlo).mpr (by exact_mod_cast hhi)
    rw [← Int.natCast_floor_eq_floor hlo, BitVec.ofInt_natCast, BitVec.toNat_ofNat, Nat.mod_eq_of_lt hfloor]

/-- A capture on radio 99. -/
def radioNinetyNine : Numbers
  | "MgmtFrameCaptureRadioIndex" => some 99
  | "Duration" => some 5
  | _ => none

/-- The capture is accepted. -/
theorem not_rangeSound_radioNinetyNine :
    ¬ ∀ (conv : Conversion) (l : Limits) (config : Config), RangeSound conv l config := by
  intro h
  have hrange := (h lowHalf ⟨2, 8, by decide⟩ (.mgmtFrameCapture radioNinetyNine) _
    (mgmt_eq_ok_iff.mpr ⟨99, 5, rfl, rfl, rfl⟩)).2 99 rfl
  norm_num at hrange

end Example

end OneWifiTestSuite.IndexRanges
