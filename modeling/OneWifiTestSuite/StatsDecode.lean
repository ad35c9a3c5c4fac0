import OneWifiTestSuite.StatsGet
import OneWifiTestSuite.StepSubdoc

/-!
# Decoding the statistics steps

The decoders of the `stats_get` and `stats_set` steps look up one item after the other and read the
`valuestring` of what they find. Most of them test only that there is an item, and the `valuestring` of
an item that is no string is `NULL`. A decoder here ends with a step, with `RETURN_ERR` or with such a
read.

`statsGet_sound_iff` and `statsSet_sound_iff` give the documents for which no decoder of a family makes
such a read and a step is what its document says. The steps that come out are those whose subscriptions
are paired in `StatsGet` (`statsGet_toOption`).
-/

namespace OneWifiTestSuite.StatsDecode

open ByteRegion RebootFile AgentJson RebootResume StepSubdoc
open StatsGet (WifiStatsGet DataType ScanMode LogOperation Limits zeroed)

/-! ### Decoders that can fail in two ways -/

section Outcomes

/-- How a decoder ends otherwise: with `RETURN_ERR`, or by reading the `valuestring` of an item that is absent or no
string. -/
inductive Stop
  | failed
  | badRead
deriving DecidableEq, Repr

/-- `item->valuestring`. -/
def valuestring : Option Json → Except Stop Bytes
  | some (.string s) => .ok s
  | _ => .error .badRead

/-- The `valuestring` of an item of which only the presence is tested. -/
def readString (json : Json) (key : String) : Except Stop Bytes :=
  match json.getObjectItem key with
  | none => .error .failed
  | some item => valuestring (some item)

/-- `return RETURN_ERR` when a macro `decode_param_…` finds nothing. -/
def orFail {α : Type} : Option α → Except Stop α
  | some a => .ok a
  | none => .error .failed

variable {α β : Type} {x : Except Stop α} {f : α → Except Stop β} {json : Json} {key : String}

theorem bind_eq_ok_iff {b : β} : (x >>= f) = .ok b ↔ ∃ a, x = .ok a ∧ f a = .ok b := by
  cases x with
  | error e => simp [bind, Except.bind]
  | ok a => simp [bind, Except.bind]

theorem bind_eq_badRead_iff :
    (x >>= f) = .error .badRead ↔ x = .error .badRead ∨ ∃ a, x = .ok a ∧ f a = .error .badRead := by
  cases x with
  | error e => simp [bind, Except.bind]
  | ok a => simp [bind, Except.bind]

@[simp] theorem orFail_eq_ok_iff {o : Option α} {a : α} : orFail o = .ok a ↔ o = some a := by
  cases o <;> simp [orFail]

@[simp] theorem orFail_ne_badRead {o : Option α} : orFail o ≠ .error .badRead := by
  cases o <;> simp [orFail]

/-- The item is a string if it is there. -/
def Stringy (json : Json) (key : String) : Prop :=
  ∀ item, json.getObjectItem key = some item → ∃ s, item = .string s

theorem readString_eq_ok_iff {s : Bytes} : readString json key = .ok s ↔ json.getObjectItem key = some (.string s) := by
  unfold readString
  cases json.getObjectItem key with
  | none => simp
  | some item => cases item <;> simp [valuestring]

theorem readString_eq_badRead_iff : readString json key = .error .badRead ↔ ¬ Stringy json key := by
  unfold readString Stringy
  cases json.getObjectItem key with
  | none => simp
  | some item => cases item <;> simp [valuestring]

end Outcomes

/-! ### The code: `stats_get` -/

section Get

/-- `RadioIndex` and `VapIndex` of the `stats_get` decoders. -/
def decodeIndex (json : Json) (key : String) (limit : ℕ) : Except Stop ℕ := do
  let index := (atoi (← readString json key)).toInt
  if 0 ≤ index ∧ index < limit then .ok index.toNat else .error .failed

/-- The first half of `decode_stats_get_common_params`: `Operation`, or else `Duration`. -/
def decodeOperation (json : Json) (c : WifiStatsGet) : Except Stop WifiStatsGet :=
  match json.getObjectItem "Operation" with
  | some config => do
      let operation := (← valuestring (some config)).take 31
      if operation = text "Start" then .ok { c with logOperation := .start }
      else if operation = text "Stop" then .ok { c with logOperation := .stop, timeout := -1 }
      else .error .failed
  | none => do
      let duration ← readString json "Duration"
      .ok { c with timeout := (atoi duration).toInt, logOperation := .timer }

/-- The second half: the step to stop, or else the type of the response. -/
def decodeTarget (json : Json) (c : WifiStatsGet) : Except Stop WifiStatsGet :=
  if c.logOperation = .stop then do
    let number ← readString json "StopLogStepNumber"
    .ok { c with stopLogStepNumber := atoi number }
  else do
    let set ← orFail (decodeParamBool json "StatResponseType")
    .ok { c with isStatResponseTypeSet := set }

/-- `decode_stats_get_common_params`. -/
def decodeStatsGetCommonParams (json : Json) (c : WifiStatsGet) : Except Stop WifiStatsGet :=
  decodeOperation json c >>= decodeTarget json

/-- The names of `ScanMode`. -/
def scanModes : List (ScanMode × Bytes) :=
  [(.onchan, text "OnChannel"), (.offchan, text "OffChannel"), (.full, text "Full"), (.survey, text "Survey")]

/-- `ScanMode`. -/
def decodeScanMode (json : Json) : Except Stop ScanMode := do
  let mode ← readString json "ScanMode"
  orFail (stringEnum scanModes mode)

/-- The decoders with a radio and a scan mode. -/
def decodeScan (dataType : DataType) (l : Limits) (json : Json) : Except Stop WifiStatsGet := do
  let radio ← decodeIndex json "RadioIndex" l.maxNumRadios
  let c ← decodeStatsGetCommonParams json { zeroed dataType with radioIndex := radio }
  let mode ← decodeScanMode json
  .ok { c with scanMode := mode }

/-- The decoders with a radio. -/
def decodeRadio (dataType : DataType) (l : Limits) (json : Json) : Except Stop WifiStatsGet := do
  let radio ← decodeIndex json "RadioIndex" l.maxNumRadios
  decodeStatsGetCommonParams json { zeroed dataType with radioIndex := radio }

/-- `decode_step_radio_channel_stats_get`. -/
def decodeStepRadioChannelStatsGet : Limits → Json → Except Stop WifiStatsGet := decodeScan .radioChannelStats

/-- `decode_step_neighbor_stats_get`. -/
def decodeStepNeighborStatsGet : Limits → Json → Except Stop WifiStatsGet := decodeScan .neighborStats

/-- `decode_step_assoc_client_stats_get`. -/
def decodeStepAssocClientStatsGet (l : Limits) (json : Json) : Except Stop WifiStatsGet := do
  let vap ← decodeIndex json "VapIndex" (l.maxNumVapPerRadio * l.maxNumRadios)
  decodeStatsGetCommonParams json { zeroed .associatedDeviceStats with vapIndex := vap }

/-- `decode_step_radio_diag_stats_get`. -/
def decodeStepRadioDiagStatsGet : Limits → Json → Except Stop WifiStatsGet := decodeRadio .radioDiagnosticStats

/-- `decode_step_radio_temperature_stats_get`. -/
def decodeStepRadioTemperatureStatsGet : Limits → Json → Except Stop WifiStatsGet := decodeRadio .radioTemperature

/-- The decoder of a type of statistics. -/
def decodeStepStatsGet : DataType → Limits → Json → Except Stop WifiStatsGet
  | .radioChannelStats => decodeStepRadioChannelStatsGet
  | .neighborStats => decodeStepNeighborStatsGet
  | .associatedDeviceStats => decodeStepAssocClientStatsGet
  | .radioDiagnosticStats => decodeStepRadioDiagStatsGet
  | .radioTemperature => decodeStepRadioTemperatureStatsGet

end Get

/-! ### The code: `stats_set` -/

section Set

/-- `stat_set_config_t`. -/
structure StatSetConfig where
  statsDuration : BitVec 32
  inputFileJson : Bytes
deriving DecidableEq, Repr

/-- `wifi_stats_set_t`. -/
structure WifiStatsSet where
  dataType : DataType
  statsSetQ : List StatSetConfig
  totalDuration : BitVec 32
  radioIndex : BitVec 32
  vapIndex : BitVec 32
deriving DecidableEq, Repr

/-- `queue_push(stats_set_q, reference)`; `memory` says whether `malloc` finds any for the element, and the answer is
not looked at. -/
def WifiStatsSet.push (c : WifiStatsSet) (memory : Bool) (reference : StatSetConfig) : WifiStatsSet :=
  if memory = true then { c with statsSetQ := reference :: c.statsSetQ } else c

/-- The loop of `decode_stats_set_common_params`; `memory` answers the push of a position. -/
def decodeEntries (memory : ℕ → Bool) : ℕ → List Json → WifiStatsSet → Except Stop WifiStatsSet
  | _, [], c => .ok c
  | n, entry :: entries, c => do
      let duration := atoi (← readString entry "StatsDuration")
      let c := { c with totalDuration := c.totalDuration + duration }
      let file ← orFail (decodeParamString entry "InputFile")
      decodeEntries memory (n + 1) entries (c.push (memory n) ⟨duration, file.take 127⟩)

/-- `decode_stats_set_common_params`. -/
def decodeStatsSetCommonParams (memory : ℕ → Bool) (json : Json) (c : WifiStatsSet) : Except Stop WifiStatsSet := do
  let list ← orFail (json.getObjectItem "StatsConfiguration")
  decodeEntries memory 0 (children list) c

/-- The check of an index that has been stored already. -/
def checkIndex (index : BitVec 32) (limit : ℕ) : Except Stop Unit :=
  if 0 ≤ index.toInt ∧ index.toInt < limit then .ok () else .error .failed

/-- The decoders with a radio. -/
def decodeRadioSet (dataType : DataType) (memory : ℕ → Bool) (l : Limits) (json : Json) (c : WifiStatsSet) :
    Except Stop WifiStatsSet := do
  let c := { c with radioIndex := atoi (← readString json "RadioIndex") }
  checkIndex c.radioIndex l.maxNumRadios
  let c ← decodeStatsSetCommonParams memory json c
  .ok { c with dataType := dataType }

/-- `decode_step_radio_channel_stats_set`. -/
def decodeStepRadioChannelStatsSet : (ℕ → Bool) → Limits → Json → WifiStatsSet → Except Stop WifiStatsSet :=
  decodeRadioSet .radioChannelStats

/-- `decode_step_neighbor_stats_set`. -/
def decodeStepNeighborStatsSet : (ℕ → Bool) → Limits → Json → WifiStatsSet → Except Stop WifiStatsSet :=
  decodeRadioSet .neighborStats

/-- `decode_step_assoc_client_stats_set`. -/
def decodeStepAssocClientStatsSet (memory : ℕ → Bool) (l : Limits) (json : Json) (c : WifiStatsSet) :
    Except Stop WifiStatsSet := do
  let c := { c with vapIndex := atoi (← readString json "VapIndex") }
  checkIndex c.vapIndex (l.maxNumVapPerRadio * l.maxNumRadios)
  let c ← decodeStatsSetCommonParams memory json c
  .ok { c with dataType := .associatedDeviceStats }

/-- `decode_step_radio_diag_stats_set`. -/
def decodeStepRadioDiagStatsSet : (ℕ → Bool) → Limits → Json → WifiStatsSet → Except Stop WifiStatsSet :=
  decodeRadioSet .radioDiagnosticStats

/-- `decode_step_radio_temperature_stats_set`. -/
def decodeStepRadioTemperatureStatsSet : (ℕ → Bool) → Limits → Json → WifiStatsSet → Except Stop WifiStatsSet :=
  decodeRadioSet .radioTemperature

/-- The decoder of a type of statistics. -/
def decodeStepStatsSet : DataType → (ℕ → Bool) → Limits → Json → WifiStatsSet → Except Stop WifiStatsSet
  | .radioChannelStats => decodeStepRadioChannelStatsSet
  | .neighborStats => decodeStepNeighborStatsSet
  | .associatedDeviceStats => decodeStepAssocClientStatsSet
  | .radioDiagnosticStats => decodeStepRadioDiagStatsSet
  | .radioTemperature => decodeStepRadioTemperatureStatsSet

end Set

/-! ### What a document says -/

section Meaning

/-- The key of the index. -/
def indexKey : DataType → String
  | .associatedDeviceStats => "VapIndex"
  | _ => "RadioIndex"

/-- The size of the table that the index is for. -/
def indexLimit (l : Limits) : DataType → ℕ
  | .associatedDeviceStats => l.maxNumVapPerRadio * l.maxNumRadios
  | _ => l.maxNumRadios

/-- The decoders that read a scan mode. -/
def hasScanMode : DataType → Bool
  | .radioChannelStats | .neighborStats => true
  | _ => false

/-- The document gives an index, and its number is inside the table. -/
def IndexGiven (json : Json) (key : String) (limit : ℕ) (index : BitVec 32) : Prop :=
  ∃ s, json.getObjectItem key = some (.string s) ∧ index = atoi s ∧ 0 ≤ index.toInt ∧ index.toInt < limit

/-- The document describes an operation in full, and what the common keys make of a step. -/
inductive OperationOf (json : Json) (c : WifiStatsGet) : WifiStatsGet → Prop
  | start {set : Bool} (hop : json.getObjectItem "Operation" = some (.string (text "Start")))
      (hset : json.getObjectItem "StatResponseType" = some (.bool set)) :
      OperationOf json c { c with logOperation := .start, isStatResponseTypeSet := set }
  | stop {number : Bytes} (hop : json.getObjectItem "Operation" = some (.string (text "Stop")))
      (hnumber : json.getObjectItem "StopLogStepNumber" = some (.string number)) :
      OperationOf json c { c with logOperation := .stop, timeout := -1, stopLogStepNumber := atoi number }
  | timer {duration : Bytes} {set : Bool} (hop : json.getObjectItem "Operation" = none)
      (hduration : json.getObjectItem "Duration" = some (.string duration))
      (hset : json.getObjectItem "StatResponseType" = some (.bool set)) :
      OperationOf json c
        { c with logOperation := .timer, timeout := (atoi duration).toInt, isStatResponseTypeSet := set }

/-- The document gives a known scan mode. -/
def ScanModeGiven (json : Json) (mode : ScanMode) : Prop :=
  ∃ s, json.getObjectItem "ScanMode" = some (.string s) ∧ stringEnum scanModes s = some mode

/-- A new step with its index. -/
def withIndex (t : DataType) (index : ℕ) : WifiStatsGet :=
  match t with
  | .associatedDeviceStats => { zeroed t with vapIndex := index }
  | _ => { zeroed t with radioIndex := index }

/-- The step is what the document says: its index, its operation and, if it has one, its scan mode. -/
def GetFrom (t : DataType) (l : Limits) (json : Json) (c : WifiStatsGet) : Prop :=
  ∃ index d, IndexGiven json (indexKey t) (indexLimit l t) index ∧ OperationOf json (withIndex t index.toInt.toNat) d ∧
    if hasScanMode t = true then ∃ mode, ScanModeGiven json mode ∧ c = { d with scanMode := mode } else c = d

/-- An element of `StatsConfiguration` is what its document says. -/
def EntryOf (json : Json) (r : StatSetConfig) : Prop :=
  ∃ duration file, json.getObjectItem "StatsDuration" = some (.string duration) ∧
    json.getObjectItem "InputFile" = some (.string file) ∧ file ≠ [] ∧ r = ⟨atoi duration, file.take 127⟩

/-- An item with elements. -/
def IsList : Json → Prop
  | .array _ | .object _ => True
  | _ => False

def storeIndex (t : DataType) (index : BitVec 32) (c : WifiStatsSet) : WifiStatsSet :=
  match t with
  | .associatedDeviceStats => { c with vapIndex := index }
  | _ => { c with radioIndex := index }

/-- Those of the elements from position `n` on for which there is memory. -/
def withMemory {α : Type} (memory : ℕ → Bool) : ℕ → List α → List α
  | _, [] => []
  | n, r :: rs => if memory n = true then r :: withMemory memory (n + 1) rs else withMemory memory (n + 1) rs

/-- Elements in the queue, the last in front, and the durations of all of them in the total. -/
def addEntries (queued rs : List StatSetConfig) (c : WifiStatsSet) : WifiStatsSet :=
  { c with
    statsSetQ := queued.reverse ++ c.statsSetQ
    totalDuration := (rs.map StatSetConfig.statsDuration).foldl (· + ·) c.totalDuration }

/-- The document gives an index inside the table, and an item of which all elements are complete. -/
def Described (t : DataType) (l : Limits) (json : Json) (index : BitVec 32) (list : Json) (rs : List StatSetConfig) :
    Prop :=
  IndexGiven json (indexKey t) (indexLimit l t) index ∧ json.getObjectItem "StatsConfiguration" = some list ∧
    List.Forall₂ EntryOf (children list) rs

/-- The step is what the document says: its index and the elements of a list. -/
def SetFrom (t : DataType) (l : Limits) (json : Json) (c d : WifiStatsSet) : Prop :=
  ∃ index list rs, Described t l json index list rs ∧ IsList list ∧
    d = { addEntries rs rs (storeIndex t index c) with dataType := t }

end Meaning

/-! ### What is read -/

section Reads

/-- The items that the common keys read as strings are strings. -/
structure OperationReads (json : Json) : Prop where
  operation : Stringy json "Operation"
  duration : json.getObjectItem "Operation" = none → Stringy json "Duration"
  stop : json.getObjectItem "Operation" = some (.string (text "Stop")) → Stringy json "StopLogStepNumber"

/-- The items that a `stats_get` decoder comes to read as strings are strings. -/
structure GetReads (t : DataType) (l : Limits) (json : Json) : Prop where
  index : Stringy json (indexKey t)
  operation : ∀ i, IndexGiven json (indexKey t) (indexLimit l t) i → OperationReads json
  scanMode : ∀ i c d, IndexGiven json (indexKey t) (indexLimit l t) i → OperationOf json c d → hasScanMode t = true →
    Stringy json "ScanMode"

/-- Every `StatsDuration` up to the first element that is not complete is a string. -/
def EntriesRead : List Json → Prop
  | [] => True
  | entry :: entries => Stringy entry "StatsDuration" ∧ ((∃ r, EntryOf entry r) → EntriesRead entries)

/-- The items that a `stats_set` decoder comes to read as strings are strings, `StatsConfiguration` has elements to
read, and when they are all complete there is memory for each of them in the queue. -/
structure SetReads (t : DataType) (memory : ℕ → Bool) (l : Limits) (json : Json) : Prop where
  index : Stringy json (indexKey t)
  entries : ∀ i list, IndexGiven json (indexKey t) (indexLimit l t) i →
    json.getObjectItem "StatsConfiguration" = some list → IsList list ∧ EntriesRead (children list)
  memory : ∀ i list rs, Described t l json i list rs → ∀ k < rs.length, memory k = true

end Reads

/-! ### `stats_get` -/

section GetLemmas

variable {json : Json} {key : String} {limit : ℕ} {t : DataType} {l : Limits} {c d : WifiStatsGet}

theorem decodeIndex_eq_ok_iff {i : ℕ} : decodeIndex json key limit = .ok i ↔
    ∃ index, IndexGiven json key limit index ∧ i = index.toInt.toNat := by
  simp only [decodeIndex, bind_eq_ok_iff, readString_eq_ok_iff]
  constructor
  · rintro ⟨s, hs, h⟩
    split_ifs at h with hrange
    cases h
    exact ⟨atoi s, ⟨s, hs, rfl, hrange⟩, rfl⟩
  · rintro ⟨_, ⟨s, hs, rfl, hrange⟩, rfl⟩
    exact ⟨s, hs, by rw [if_pos hrange]⟩

theorem decodeIndex_eq_badRead_iff : decodeIndex json key limit = .error .badRead ↔ ¬ Stringy json key := by
  simp only [decodeIndex, bind_eq_badRead_iff, readString_eq_badRead_iff, or_iff_left_iff_imp]
  rintro ⟨s, -, h⟩
  split_ifs at h
  cases h

theorem decodeScanMode_eq_ok_iff {mode : ScanMode} : decodeScanMode json = .ok mode ↔ ScanModeGiven json mode := by
  simp only [decodeScanMode, bind_eq_ok_iff, readString_eq_ok_iff, orFail_eq_ok_iff, ScanModeGiven]

theorem decodeScanMode_eq_badRead_iff : decodeScanMode json = .error .badRead ↔ ¬ Stringy json "ScanMode" := by
  simp only [decodeScanMode, bind_eq_badRead_iff, readString_eq_badRead_iff, orFail_ne_badRead, and_false, exists_false,
    or_false]

/-- A short string is not cut. -/
theorem take_eq_iff {s u : Bytes} {n : ℕ} (hu : u.length < n) : s.take n = u ↔ s = u := by
  constructor
  · intro h
    have hlen := congrArg List.length h
    rw [List.length_take] at hlen
    rw [← h, List.take_of_length_le (by omega)]
  · rintro rfl
    exact List.take_of_length_le hu.le

theorem decodeParamBool_eq_some_iff {set : Bool} :
    decodeParamBool json key = some set ↔ json.getObjectItem key = some (.bool set) := by
  unfold decodeParamBool
  cases json.getObjectItem key with
  | none => simp
  | some item => cases item <;> simp

theorem stop_ne_start : text "Stop" ≠ text "Start" := by
  decide

/-- What the first half makes of a step. -/
theorem decodeOperation_eq_ok_iff : decodeOperation json c = .ok d ↔
    (json.getObjectItem "Operation" = some (.string (text "Start")) ∧ d = { c with logOperation := .start }) ∨
      (json.getObjectItem "Operation" = some (.string (text "Stop")) ∧
        d = { c with logOperation := .stop, timeout := -1 }) ∨
      (json.getObjectItem "Operation" = none ∧ ∃ duration, json.getObjectItem "Duration" = some (.string duration) ∧
        d = { c with timeout := (atoi duration).toInt, logOperation := .timer }) := by
  unfold decodeOperation
  cases hop : json.getObjectItem "Operation" with
  | none =>
      simp only [bind_eq_ok_iff, readString_eq_ok_iff, Except.ok.injEq, reduceCtorEq, false_and, false_or, true_and,
        eq_comm (b := d)]
  | some item =>
      cases item with
      | string s =>
          have hstart := take_eq_iff (s := s) (u := text "Start") (n := 31) (by decide)
          have hstop := take_eq_iff (s := s) (u := text "Stop") (n := 31) (by decide)
          have hne := stop_ne_start
          simp only [bind_eq_ok_iff, valuestring, Except.ok.injEq, exists_eq_left', hstart, hstop, Option.some.injEq,
            Json.string.injEq, reduceCtorEq, false_and, or_false]
          split_ifs with h h' <;> grind
      | _ => simp [bind_eq_ok_iff, valuestring]

theorem decodeOperation_eq_badRead_iff : decodeOperation json c = .error .badRead ↔
    ¬ (Stringy json "Operation" ∧ (json.getObjectItem "Operation" = none → Stringy json "Duration")) := by
  unfold decodeOperation
  cases hop : json.getObjectItem "Operation" with
  | none =>
      have hstringy : Stringy json "Operation" := by
        simp [Stringy, hop]
      simp [bind_eq_badRead_iff, readString_eq_badRead_iff, hstringy]
  | some item =>
      have hstringy : Stringy json "Operation" ↔ ∃ s, item = .string s := by
        simp [Stringy, hop]
      simp only [hstringy, reduceCtorEq, false_implies, and_true]
      cases item with
      | string s =>
          simp only [bind_eq_badRead_iff, valuestring, Except.ok.injEq, reduceCtorEq, false_or, exists_eq_left',
            Json.string.injEq, exists_eq', not_true_eq_false, iff_false]
          split_ifs <;> simp
      | _ => simp [bind_eq_badRead_iff, valuestring]

theorem decodeTarget_eq_ok_iff : decodeTarget json c = .ok d ↔
    (c.logOperation = .stop ∧ ∃ number, json.getObjectItem "StopLogStepNumber" = some (.string number) ∧
        d = { c with stopLogStepNumber := atoi number }) ∨
      (c.logOperation ≠ .stop ∧ ∃ set, json.getObjectItem "StatResponseType" = some (.bool set) ∧
        d = { c with isStatResponseTypeSet := set }) := by
  unfold decodeTarget
  split_ifs with hstop
  · simp only [bind_eq_ok_iff, readString_eq_ok_iff, Except.ok.injEq, hstop, true_and, ne_eq, not_true_eq_false,
      false_and, or_false, eq_comm (b := d)]
  · simp only [bind_eq_ok_iff, orFail_eq_ok_iff, decodeParamBool_eq_some_iff, Except.ok.injEq, hstop, false_and, ne_eq,
      not_false_eq_true, true_and, false_or, eq_comm (b := d)]

theorem decodeTarget_eq_badRead_iff :
    decodeTarget json c = .error .badRead ↔ c.logOperation = .stop ∧ ¬ Stringy json "StopLogStepNumber" := by
  unfold decodeTarget
  split_ifs with hstop
  · simp [bind_eq_badRead_iff, readString_eq_badRead_iff, hstop]
  · simp [bind_eq_badRead_iff, hstop]

/-- **The common keys**: a step comes out exactly when the operation is described in full. -/
theorem decodeCommon_eq_ok_iff : decodeStatsGetCommonParams json c = .ok d ↔ OperationOf json c d := by
  simp only [decodeStatsGetCommonParams, bind_eq_ok_iff, decodeOperation_eq_ok_iff, decodeTarget_eq_ok_iff]
  constructor
  · rintro ⟨_, ⟨hop, rfl⟩ | ⟨hop, rfl⟩ | ⟨hop, duration, hduration, rfl⟩, ⟨hstop, number, hnumber, rfl⟩ |
      ⟨hstop, set, hset, rfl⟩⟩
    · cases hstop
    · exact .start hop hset
    · exact .stop hop hnumber
    · exact absurd rfl hstop
    · cases hstop
    · exact .timer hop hduration hset
  · intro h
    cases h with
    | start hop hset => exact ⟨_, .inl ⟨hop, rfl⟩, .inr ⟨by simp, _, hset, rfl⟩⟩
    | stop hop hnumber => exact ⟨_, .inr (.inl ⟨hop, rfl⟩), .inl ⟨rfl, _, hnumber, rfl⟩⟩
    | timer hop hduration hset => exact ⟨_, .inr (.inr ⟨hop, _, hduration, rfl⟩), .inr ⟨by simp, _, hset, rfl⟩⟩

/-- What they read, for whatever step. -/
theorem decodeCommon_eq_badRead_iff :
    decodeStatsGetCommonParams json c = .error .badRead ↔ ¬ OperationReads json := by
  have hreads : OperationReads json ↔ (Stringy json "Operation" ∧
      (json.getObjectItem "Operation" = none → Stringy json "Duration")) ∧
        (json.getObjectItem "Operation" = some (.string (text "Stop")) → Stringy json "StopLogStepNumber") :=
    ⟨fun h => ⟨⟨h.operation, h.duration⟩, h.stop⟩, fun h => ⟨h.1.1, h.1.2, h.2⟩⟩
  rw [hreads, not_and_or, Classical.not_imp]
  simp only [decodeStatsGetCommonParams, bind_eq_badRead_iff, decodeOperation_eq_badRead_iff,
    decodeTarget_eq_badRead_iff, decodeOperation_eq_ok_iff]
  refine or_congr_right ⟨?_, ?_⟩
  · rintro ⟨_, ⟨-, rfl⟩ | ⟨hop, rfl⟩ | ⟨-, _, -, rfl⟩, hstop, hread⟩
    · cases hstop
    · exact ⟨hop, hread⟩
    · cases hstop
  · rintro ⟨hop, hread⟩
    exact ⟨_, .inr (.inl ⟨hop, rfl⟩), rfl, hread⟩

/-- The shape that the five decoders share. -/
theorem decodeStepStatsGet_eq : decodeStepStatsGet t l json = (do
    let index ← decodeIndex json (indexKey t) (indexLimit l t)
    let c ← decodeStatsGetCommonParams json (withIndex t index)
    if hasScanMode t = true then do
      let mode ← decodeScanMode json
      .ok { c with scanMode := mode }
    else .ok c) := by
  have hpure : ∀ x : Except Stop WifiStatsGet, (x >>= fun c => .ok c) = x := fun x => by
    cases x <;> rfl
  cases t with
  | radioChannelStats => rfl
  | neighborStats => rfl
  | associatedDeviceStats =>
      show _ = (do let index ← _; _ >>= fun c => Except.ok c)
      simp only [hpure]
      rfl
  | radioDiagnosticStats =>
      show _ = (do let index ← _; _ >>= fun c => Except.ok c)
      simp only [hpure]
      rfl
  | radioTemperature =>
      show _ = (do let index ← _; _ >>= fun c => Except.ok c)
      simp only [hpure]
      rfl

/-- **A `stats_get` step** comes out exactly when it is what the document says. -/
theorem statsGet_eq_ok_iff : decodeStepStatsGet t l json = .ok c ↔ GetFrom t l json c := by
  simp only [decodeStepStatsGet_eq, bind_eq_ok_iff, decodeIndex_eq_ok_iff, decodeCommon_eq_ok_iff]
  constructor
  · rintro ⟨_, ⟨index, hindex, rfl⟩, d, hd, h⟩
    refine ⟨index, d, hindex, hd, ?_⟩
    split_ifs at h ⊢
    · obtain ⟨mode, hmode, hc⟩ := bind_eq_ok_iff.mp h
      exact ⟨mode, decodeScanMode_eq_ok_iff.mp hmode, (Except.ok.inj hc).symm⟩
    · exact (Except.ok.inj h).symm
  · rintro ⟨index, d, hindex, hd, h⟩
    refine ⟨_, ⟨index, hindex, rfl⟩, d, hd, ?_⟩
    split_ifs at h ⊢
    · obtain ⟨mode, hmode, rfl⟩ := h
      exact bind_eq_ok_iff.mpr ⟨mode, decodeScanMode_eq_ok_iff.mpr hmode, rfl⟩
    · rw [h]

/-- Whether an operation is described does not depend on the step. -/
theorem OperationOf.other (h : OperationOf json c d) (c' : WifiStatsGet) : ∃ d', OperationOf json c' d' := by
  cases h with
  | start hop hset => exact ⟨_, .start hop hset⟩
  | stop hop hnumber => exact ⟨_, .stop hop hnumber⟩
  | timer hop hduration hset => exact ⟨_, .timer hop hduration hset⟩

/-- The reads of a `stats_get` decoder. -/
theorem statsGet_eq_badRead_iff : decodeStepStatsGet t l json = .error .badRead ↔ ¬ GetReads t l json := by
  simp only [decodeStepStatsGet_eq, bind_eq_badRead_iff, decodeIndex_eq_badRead_iff, decodeIndex_eq_ok_iff,
    decodeCommon_eq_badRead_iff, decodeCommon_eq_ok_iff]
  have hscan : ∀ d : WifiStatsGet, (if hasScanMode t = true then (do
      let mode ← decodeScanMode json
      .ok { d with scanMode := mode } : Except Stop WifiStatsGet) else .ok d) = .error .badRead ↔
        hasScanMode t = true ∧ ¬ Stringy json "ScanMode" := by
    intro d
    split_ifs with hmode
    · simp [bind_eq_badRead_iff, decodeScanMode_eq_badRead_iff, hmode]
    · simp [hmode]
  simp only [hscan]
  constructor
  · rintro (hindex | ⟨_, ⟨index, hindex, -⟩, hop | ⟨d, hd, hmode, hread⟩⟩) hreads
    · exact hindex hreads.index
    · exact hop (hreads.operation index hindex)
    · exact hread (hreads.scanMode index _ d hindex hd hmode)
  · intro hreads
    by_contra hnot
    push Not at hnot
    refine hreads ⟨hnot.1, fun i hi => (hnot.2 _ ⟨i, hi, rfl⟩).1, fun i c d hi hd hmode => ?_⟩
    obtain ⟨d', hd'⟩ := hd.other (withIndex t i.toInt.toNat)
    exact (hnot.2 _ ⟨i, hi, rfl⟩).2 d' hd' hmode

end GetLemmas

/-! ### `stats_set` -/

section SetLemmas

variable {json : Json} {key : String} {limit : ℕ} {t : DataType} {l : Limits} {c d : WifiStatsSet} {entries : List Json}
  {memory : ℕ → Bool}

theorem decodeParamString_eq_some_iff {s : Bytes} :
    decodeParamString json key = some s ↔ json.getObjectItem key = some (.string s) ∧ s ≠ [] := by
  unfold decodeParamString
  cases json.getObjectItem key with
  | none => simp
  | some item =>
      cases item with
      | string s' =>
          by_cases hs : s' = []
          · simp only [hs, if_true, reduceCtorEq, Option.some.injEq, Json.string.injEq, false_iff, not_and, not_not]
            exact Eq.symm
          · simp only [hs, if_false, Option.some.injEq, Json.string.injEq]
            exact ⟨fun h => ⟨h, h ▸ hs⟩, And.left⟩
      | _ => simp

theorem withMemory_sublist {α : Type} (memory : ℕ → Bool) (rs : List α) (n : ℕ) : (withMemory memory n rs).Sublist rs := by
  induction rs generalizing n with
  | nil => exact .slnil
  | cons r rs ih =>
      unfold withMemory
      split_ifs
      · exact (ih _).cons_cons r
      · exact (ih _).cons r

/-- Of the elements that are looked for all are kept exactly when there is memory for each of them. -/
theorem filter_withMemory_eq_iff {α : Type} (memory : ℕ → Bool) (p : α → Bool) (rs : List α) (n : ℕ) :
    (withMemory memory n rs).filter p = rs.filter p ↔ ∀ k r, rs[k]? = some r → p r = true → memory (n + k) = true := by
  induction rs generalizing n with
  | nil => simp [withMemory]
  | cons r rs ih =>
      have hsucc : ∀ k, n + 1 + k = n + (k + 1) := fun k => by omega
      have hforall : (∀ k r', (r :: rs)[k]? = some r' → p r' = true → memory (n + k) = true) ↔
          (p r = true → memory n = true) ∧ ∀ k r', rs[k]? = some r' → p r' = true → memory (n + 1 + k) = true := by
        rw [← Nat.and_forall_add_one]
        simp only [List.getElem?_cons_zero, List.getElem?_cons_succ, Option.some.injEq, forall_eq', Nat.add_zero, hsucc]
      rw [hforall, ← ih, withMemory]
      by_cases hmem : memory n = true
      · by_cases hp : p r = true <;> simp [hmem, hp]
      · by_cases hp : p r = true
        · simp only [hmem, hp]
          refine iff_of_false (fun heq => ?_) (by simp)
          have hlen := ((withMemory_sublist memory rs (n + 1)).filter p).length_le
          simp [hp] at heq
          rw [heq, List.length_cons] at hlen
          omega
        · simp [hmem, hp]

/-- All elements are kept exactly when there is memory for each of them. -/
theorem withMemory_eq_self_iff {α : Type} (memory : ℕ → Bool) (rs : List α) :
    withMemory memory 0 rs = rs ↔ ∀ k < rs.length, memory k = true := by
  have hall := filter_withMemory_eq_iff memory (fun _ => true) rs 0
  simp only [List.filter_true, Nat.zero_add, true_implies] at hall
  rw [hall]
  exact ⟨fun h k hk => h k _ (List.getElem?_eq_getElem hk), fun h k r hr => h k (List.getElem?_eq_some_iff.mp hr).1⟩

theorem addEntries_cons (memory : ℕ → Bool) (n : ℕ) (r : StatSetConfig) (rs : List StatSetConfig) :
    addEntries (withMemory memory n (r :: rs)) (r :: rs) c = addEntries (withMemory memory (n + 1) rs) rs
      (({ c with totalDuration := c.totalDuration + r.statsDuration } : WifiStatsSet).push (memory n) r) := by
  rw [withMemory, WifiStatsSet.push]
  split_ifs <;> simp [addEntries]

/-- **The loop** counts the elements when all of them are complete, and queues those with memory. -/
theorem decodeEntries_eq_ok_iff {n : ℕ} : decodeEntries memory n entries c = .ok d ↔
    ∃ rs, List.Forall₂ EntryOf entries rs ∧ d = addEntries (withMemory memory n rs) rs c := by
  induction entries generalizing n c with
  | nil => simp [decodeEntries, addEntries, withMemory, eq_comm]
  | cons entry entries ih =>
      simp only [decodeEntries, bind_eq_ok_iff, readString_eq_ok_iff, orFail_eq_ok_iff, decodeParamString_eq_some_iff, ih]
      constructor
      · rintro ⟨duration, hduration, file, ⟨hfile, hne⟩, rs, hrs, rfl⟩
        exact ⟨_ :: rs, .cons ⟨duration, file, hduration, hfile, hne, rfl⟩ hrs, (addEntries_cons _ _ _ _).symm⟩
      · rintro ⟨_, hall, rfl⟩
        cases hall with
        | cons hentry hrs =>
            obtain ⟨duration, file, hduration, hfile, hne, rfl⟩ := hentry
            exact ⟨duration, hduration, file, ⟨hfile, hne⟩, _, hrs, addEntries_cons _ _ _ _⟩

theorem decodeEntries_eq_badRead_iff {n : ℕ} :
    decodeEntries memory n entries c = .error .badRead ↔ ¬ EntriesRead entries := by
  induction entries generalizing n c with
  | nil => simp [decodeEntries, EntriesRead]
  | cons entry entries ih =>
      simp only [decodeEntries, bind_eq_badRead_iff, readString_eq_badRead_iff, readString_eq_ok_iff, orFail_ne_badRead,
        orFail_eq_ok_iff, decodeParamString_eq_some_iff, ih, EntriesRead, false_or, not_and_or, Classical.not_imp]
      refine or_congr_right ⟨?_, ?_⟩
      · rintro ⟨duration, hduration, file, ⟨hfile, hne⟩, hread⟩
        exact ⟨⟨_, duration, file, hduration, hfile, hne, rfl⟩, hread⟩
      · rintro ⟨⟨_, duration, file, hduration, hfile, hne, rfl⟩, hread⟩
        exact ⟨duration, hduration, file, ⟨hfile, hne⟩, hread⟩

theorem EntryOf.unique {entry : Json} {r r' : StatSetConfig} (h : EntryOf entry r) (h' : EntryOf entry r') : r = r' := by
  obtain ⟨duration, file, hduration, hfile, -, rfl⟩ := h
  obtain ⟨duration', file', hduration', hfile', -, rfl⟩ := h'
  simp only [hduration, hfile, Option.some.injEq, Json.string.injEq] at hduration' hfile'
  rw [hduration', hfile']

/-- Elements that each have one description have one list of them. -/
theorem forall₂_unique {α β : Type} {R : α → β → Prop} (hunique : ∀ a b b', R a b → R a b' → b = b') {as : List α}
    {bs bs' : List β} (h : List.Forall₂ R as bs) (h' : List.Forall₂ R as bs') : bs = bs' := by
  induction h generalizing bs' with
  | nil =>
      cases h'
      rfl
  | cons hhead _ ih =>
      cases h' with
      | cons hhead' htail' => rw [hunique _ _ _ hhead hhead', ih htail']

theorem checkIndex_eq_ok_iff {index : BitVec 32} {u : Unit} :
    checkIndex index limit = .ok u ↔ 0 ≤ index.toInt ∧ index.toInt < limit := by
  unfold checkIndex
  split_ifs with h <;> simp [h]

theorem checkIndex_ne_badRead {index : BitVec 32} : checkIndex index limit ≠ .error .badRead := by
  unfold checkIndex
  split_ifs <;> simp

/-- The shape that the five decoders share. -/
theorem decodeStepStatsSet_eq : decodeStepStatsSet t memory l json c = (do
    let s ← readString json (indexKey t)
    checkIndex (atoi s) (indexLimit l t)
    let list ← orFail (json.getObjectItem "StatsConfiguration")
    let d ← decodeEntries memory 0 (children list) (storeIndex t (atoi s) c)
    .ok { d with dataType := t }) := by
  have hcommon : ∀ c : WifiStatsSet, (do
      let d ← decodeStatsSetCommonParams memory json c
      .ok { d with dataType := t } : Except Stop WifiStatsSet) = (do
        let list ← orFail (json.getObjectItem "StatsConfiguration")
        let d ← decodeEntries memory 0 (children list) c
        .ok { d with dataType := t }) := by
    intro c
    unfold decodeStatsSetCommonParams
    cases json.getObjectItem "StatsConfiguration" <;> rfl
  simp only [← hcommon]
  cases t <;> rfl

/-- **A `stats_set` step** comes out exactly when its index and the elements are described, with the elements queued for
which there is memory. -/
theorem statsSet_eq_ok_iff : decodeStepStatsSet t memory l json c = .ok d ↔ ∃ index list rs,
    Described t l json index list rs ∧
      d = { addEntries (withMemory memory 0 rs) rs (storeIndex t index c) with dataType := t } := by
  simp only [decodeStepStatsSet_eq, bind_eq_ok_iff, readString_eq_ok_iff, checkIndex_eq_ok_iff, orFail_eq_ok_iff,
    decodeEntries_eq_ok_iff, Except.ok.injEq]
  constructor
  · rintro ⟨s, hs, -, hrange, list, hlist, _, ⟨rs, hrs, rfl⟩, rfl⟩
    exact ⟨atoi s, list, rs, ⟨⟨s, hs, rfl, hrange⟩, hlist, hrs⟩, rfl⟩
  · rintro ⟨_, list, rs, ⟨⟨s, hs, rfl, hrange⟩, hlist, hrs⟩, rfl⟩
    exact ⟨s, hs, (), hrange, list, hlist, _, ⟨rs, hrs, rfl⟩, rfl⟩

theorem statsSet_eq_badRead_iff : decodeStepStatsSet t memory l json c = .error .badRead ↔
    ¬ (Stringy json (indexKey t) ∧ ∀ i list, IndexGiven json (indexKey t) (indexLimit l t) i →
      json.getObjectItem "StatsConfiguration" = some list → EntriesRead (children list)) := by
  simp only [decodeStepStatsSet_eq, bind_eq_badRead_iff, readString_eq_badRead_iff, readString_eq_ok_iff,
    checkIndex_eq_ok_iff, checkIndex_ne_badRead, orFail_ne_badRead, orFail_eq_ok_iff, decodeEntries_eq_badRead_iff,
    reduceCtorEq, and_false, exists_false, or_false, false_or]
  constructor
  · rintro (hindex | ⟨s, hs, -, hrange, list, hlist, hread⟩) hreads
    · exact hindex hreads.1
    · exact hread (hreads.2 _ list ⟨s, hs, rfl, hrange⟩ hlist)
  · intro hreads
    by_contra hnot
    push Not at hnot
    refine hreads ⟨hnot.1, ?_⟩
    rintro _ list ⟨s, hs, rfl, hrange⟩ hlist
    exact hnot.2 s hs () hrange list hlist

end SetLemmas

/-! ### Sound decoders -/

section Sound

variable {json : Json} {t : DataType} {l : Limits} {memory : ℕ → Bool} {c d : WifiStatsSet}

/-- The decoder makes no bad read, and a step that comes out is what the document says. -/
def GetSound (t : DataType) (l : Limits) (json : Json) : Prop :=
  decodeStepStatsGet t l json ≠ .error .badRead ∧ ∀ c, decodeStepStatsGet t l json = .ok c → GetFrom t l json c

def SetSound (t : DataType) (memory : ℕ → Bool) (l : Limits) (json : Json) (c : WifiStatsSet) : Prop :=
  decodeStepStatsSet t memory l json c ≠ .error .badRead ∧
    ∀ d, decodeStepStatsSet t memory l json c = .ok d → SetFrom t l json c d

/-- **The `stats_get` decoders** are sound exactly on the documents whose items are strings where they are read. -/
theorem statsGet_sound_iff : GetSound t l json ↔ GetReads t l json := by
  unfold GetSound
  rw [ne_eq, statsGet_eq_badRead_iff, not_not]
  exact ⟨And.left, fun h => ⟨h, fun c => statsGet_eq_ok_iff.mp⟩⟩

/-- Elements of an item that has none are all complete. -/
theorem described_of_not_isList {list : Json} {index : BitVec 32} (hlist : ¬ IsList list)
    (hindex : IndexGiven json (indexKey t) (indexLimit l t) index)
    (hitem : json.getObjectItem "StatsConfiguration" = some list) : Described t l json index list [] := by
  have hchildren : children list = [] := by
    cases list <;> first | rfl | exact absurd trivial hlist
  exact ⟨hindex, hitem, hchildren ▸ .nil⟩

/-- A description is the only one. -/
theorem Described.unique {list list' : Json} {index index' : BitVec 32} {rs rs' : List StatSetConfig}
    (h : Described t l json index list rs) (h' : Described t l json index' list' rs') : list = list' ∧ rs = rs' := by
  obtain ⟨-, hitem, hrs⟩ := h
  obtain ⟨-, hitem', hrs'⟩ := h'
  obtain rfl : list = list' := Option.some.inj (hitem.symm.trans hitem')
  exact ⟨rfl, forall₂_unique (R := EntryOf) (fun _ _ _ => EntryOf.unique) hrs hrs'⟩

/-- The queue of a step tells which elements are in it. -/
theorem eq_of_addEntries {index index' : BitVec 32} {queued queued' rs rs' : List StatSetConfig}
    (h : ({ addEntries queued rs (storeIndex t index c) with dataType := t } : WifiStatsSet) =
      { addEntries queued' rs' (storeIndex t index' c) with dataType := t }) : queued = queued' := by
  have hqueue : ∀ index, (storeIndex t index c).statsSetQ = c.statsSetQ := by
    intro index
    cases t <;> rfl
  have happend := congrArg WifiStatsSet.statsSetQ h
  simp only [addEntries, hqueue] at happend
  exact List.reverse_injective (List.append_cancel_right happend)

/-- **The `stats_set` decoders** are sound exactly on the documents whose items are strings where they are read and
whose elements are in a list, with memory for every element. -/
theorem statsSet_sound_iff : SetSound t memory l json c ↔ SetReads t memory l json := by
  unfold SetSound
  rw [ne_eq, statsSet_eq_badRead_iff, not_not]
  constructor
  · rintro ⟨⟨hindex, hread⟩, hfrom⟩
    have hdescribed : ∀ i list rs, Described t l json i list rs → IsList list ∧ withMemory memory 0 rs = rs := by
      intro i list rs hd
      obtain ⟨i', list', rs', hd', hlist', heq⟩ := hfrom _ (statsSet_eq_ok_iff.mpr ⟨i, list, rs, hd, rfl⟩)
      obtain ⟨rfl, rfl⟩ := hd.unique hd'
      exact ⟨hlist', eq_of_addEntries heq⟩
    refine ⟨hindex, fun i list hi hitem => ⟨by_contra fun hlist => ?_, hread i list hi hitem⟩, fun i list rs hd k hk => ?_⟩
    · -- without elements the step comes out, and the list it should be from is this item
      exact hlist (hdescribed i list [] (described_of_not_isList hlist hi hitem)).1
    · exact (withMemory_eq_self_iff memory rs).mp (hdescribed i list rs hd).2 k hk
  · intro h
    refine ⟨⟨h.index, fun i list hi hitem => (h.entries i list hi hitem).2⟩, fun d hd => ?_⟩
    obtain ⟨index, list, rs, hdescribed, rfl⟩ := statsSet_eq_ok_iff.mp hd
    have hkept : withMemory memory 0 rs = rs :=
      (withMemory_eq_self_iff memory rs).mpr (h.memory index list rs hdescribed)
    exact ⟨index, list, rs, hdescribed, (h.entries index list hdescribed.1 hdescribed.2.1).1, by rw [hkept]⟩

end Sound

/-! ### The steps of a subscription -/

section Subscriptions

variable {json : Json} {t : DataType} {l : Limits}

theorem toOption_bind {α β : Type} (x : Except Stop α) (f : α → Except Stop β) :
    (x >>= f).toOption = x.toOption.bind fun a => (f a).toOption := by
  cases x <;> rfl

theorem toOption_ok {α : Type} (a : α) : (Except.ok a : Except Stop α).toOption = some a :=
  rfl

theorem toOption_error {α : Type} (e : Stop) : (Except.error e : Except Stop α).toOption = none :=
  rfl

theorem toOption_readString (key : String) :
    (readString json key).toOption = match json.getObjectItem key with
      | some (.string s) => some s
      | _ => none := by
  unfold readString
  cases json.getObjectItem key with
  | none => rfl
  | some item => cases item <;> rfl

theorem decodeIndex_toOption (key : String) (limit : ℕ) :
    (decodeIndex json key limit).toOption = StatsGet.decodeIndex json key limit := by
  unfold decodeIndex StatsGet.decodeIndex
  rw [toOption_bind, toOption_readString]
  cases json.getObjectItem key with
  | none => rfl
  | some item =>
      cases item with
      | string s =>
          simp only [Option.bind_some]
          split_ifs <;> rfl
      | _ => rfl

theorem decodeScanMode_toOption : (decodeScanMode json).toOption = StatsGet.decodeScanMode json := by
  unfold decodeScanMode StatsGet.decodeScanMode
  rw [toOption_bind, toOption_readString]
  cases json.getObjectItem "ScanMode" with
  | none => rfl
  | some item =>
      cases item with
      | string s =>
          simp only [Option.bind_some, stringEnum, scanModes, List.find?_cons, List.find?_nil, eq_comm (b := s)]
          split_ifs with hon hoff hfull hsurvey <;> simp_all [toOption_ok, toOption_error, orFail]
      | _ => rfl

/-- The second half, which both models have. -/
theorem decodeTarget_toOption (c : WifiStatsGet) : (decodeTarget json c).toOption =
    if c.logOperation = .stop then
      match json.getObjectItem "StopLogStepNumber" with
      | some (.string s) => some { c with stopLogStepNumber := atoi s }
      | _ => none
    else (decodeParamBool json "StatResponseType").map fun b => { c with isStatResponseTypeSet := b } := by
  unfold decodeTarget
  split_ifs
  · rw [toOption_bind, toOption_readString]
    cases json.getObjectItem "StopLogStepNumber" with
    | none => rfl
    | some item => cases item <;> rfl
  · cases decodeParamBool json "StatResponseType" <;> rfl

theorem decodeCommon_toOption {c : WifiStatsGet} (htimeout : c.timeout = 0) :
    (decodeStatsGetCommonParams json c).toOption = StatsGet.decodeStatsGetCommonParams json c := by
  have hstart : { c with logOperation := .start } = { c with logOperation := .start, timeout := 0 } := by
    rw [← htimeout]
  have hfirst : (decodeOperation json c).toOption =
      (StatsGet.decodeOperation json).map fun r => { c with logOperation := r.1, timeout := r.2 } := by
    unfold decodeOperation StatsGet.decodeOperation
    cases json.getObjectItem "Operation" with
    | none =>
        simp only [toOption_bind, toOption_readString]
        cases json.getObjectItem "Duration" with
        | none => rfl
        | some item => cases item <;> rfl
    | some item =>
        cases item with
        | string s =>
            simp only [toOption_bind, valuestring, toOption_ok, Option.bind_some]
            split_ifs <;> simp [toOption_ok, toOption_error, hstart]
        | _ => rfl
  unfold decodeStatsGetCommonParams StatsGet.decodeStatsGetCommonParams
  rw [toOption_bind, hfirst, Option.bind_map]
  simp only [decodeTarget_toOption]
  rfl

/-- The steps that come out are those of the decoders that take a bad read for an error. -/
theorem statsGet_toOption : (decodeStepStatsGet t l json).toOption =
    match t with
    | .radioChannelStats => StatsGet.decodeStepRadioChannelStatsGet l json
    | .neighborStats => StatsGet.decodeStepNeighborStatsGet l json
    | .associatedDeviceStats => StatsGet.decodeStepAssocClientStatsGet l json
    | .radioDiagnosticStats => StatsGet.decodeStepRadioDiagStatsGet l json
    | .radioTemperature => StatsGet.decodeStepRadioTemperatureStatsGet l json := by
  have hscan : ∀ t, (decodeScan t l json).toOption = StatsGet.decodeScan t l json := fun t => by
    simp only [decodeScan, toOption_bind, decodeIndex_toOption, decodeScanMode_toOption, toOption_ok,
      decodeCommon_toOption (c := { zeroed t with radioIndex := _ }) rfl]
    rfl
  have hradio : ∀ t, (decodeRadio t l json).toOption = StatsGet.decodeRadio t l json := fun t => by
    simp only [decodeRadio, toOption_bind, decodeIndex_toOption,
      decodeCommon_toOption (c := { zeroed t with radioIndex := _ }) rfl]
    rfl
  cases t with
  | radioChannelStats => exact hscan _
  | neighborStats => exact hscan _
  | associatedDeviceStats =>
      simp only [decodeStepStatsGet, decodeStepAssocClientStatsGet, toOption_bind, decodeIndex_toOption,
        decodeCommon_toOption (c := { zeroed .associatedDeviceStats with vapIndex := _ }) rfl]
      rfl
  | radioDiagnosticStats => exact hradio _
  | radioTemperature => exact hradio _

end Subscriptions

end OneWifiTestSuite.StatsDecode
