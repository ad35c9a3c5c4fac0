import OneWifiTestSuite.AgentJson
import OneWifiTestSuite.RebootResume
import OneWifiTestSuite.Runs
import OneWifiTestSuite.Steps

/-!
# Subscriptions of the statistics steps

A `stats_get` step with the operation `Start` subscribes to a bus event and a step with `Stop` is meant
to close what the step that it names has opened; a step with a `Duration` closes its own subscription.
But `stop_subscription` asks its own step for the name of the event, and not the step that it gets.

`subscriptionString_eq_iff` says when two decoded steps print the same name, and `pairs_iff` when a
closing step closes the subscriptions of its target and no other.
-/

namespace OneWifiTestSuite.StatsGet

open ByteRegion RebootFile AgentJson RebootResume StaKey Runs Steps

section Code

/-- `wifi_mon_stats_type_t`. -/
inductive DataType
  | radioChannelStats
  | neighborStats
  | associatedDeviceStats
  | radioDiagnosticStats
  | radioTemperature
deriving DecidableEq, Repr

/-- `wifi_neighborScanMode_t`; `none` is the value 0 that the constructors of the steps leave. -/
inductive ScanMode
  | none
  | onchan
  | offchan
  | full
  | survey
deriving DecidableEq, Repr

/-- `log_operation_type_t`. -/
inductive LogOperation
  | start
  | stop
  | timer
  | invalid
deriving DecidableEq, Repr

/-- `wifi_stats_get_t`. -/
structure WifiStatsGet where
  dataType : DataType
  scanMode : ScanMode
  logOperation : LogOperation
  timeout : ℤ
  radioIndex : ℕ
  vapIndex : ℕ
  stopLogStepNumber : BitVec 32
  isStatResponseTypeSet : Bool
deriving DecidableEq, Repr

/-- `MAX_NUM_RADIOS` and `MAX_NUM_VAP_PER_RADIO`. -/
structure Limits where
  maxNumRadios : ℕ
  maxNumVapPerRadio : ℕ
  fits : maxNumRadios < 2 ^ 31 ∧ maxNumVapPerRadio * maxNumRadios < 2 ^ 31

/-- `RadioIndex` and `VapIndex`: a string whose number is below the limit. -/
def decodeIndex (json : Json) (key : String) (limit : ℕ) : Option ℕ :=
  match json.getObjectItem key with
  | some (.string s) =>
      if 0 ≤ (atoi s).toInt ∧ (atoi s).toInt < limit then some (atoi s).toInt.toNat else none
  | _ => none

/-- `ScanMode`. -/
def decodeScanMode (json : Json) : Option ScanMode :=
  match json.getObjectItem "ScanMode" with
  | some (.string s) =>
      if s = text "OnChannel" then some .onchan
      else if s = text "OffChannel" then some .offchan
      else if s = text "Full" then some .full
      else if s = text "Survey" then some .survey
      else none
  | _ => none

/-- The operation and the timeout that `decode_stats_get_common_params` reads. -/
def decodeOperation (json : Json) : Option (LogOperation × ℤ) :=
  match json.getObjectItem "Operation" with
  | some (.string s) =>
      if s.take 31 = text "Start" then some (.start, 0)
      else if s.take 31 = text "Stop" then some (.stop, -1)
      else none
  | some _ => none
  | none =>
      match json.getObjectItem "Duration" with
      | some (.string s) => some (.timer, (atoi s).toInt)
      | _ => none

/-- `decode_stats_get_common_params`; a missing string of an item is read as an error. -/
def decodeStatsGetCommonParams (json : Json) (c : WifiStatsGet) : Option WifiStatsGet :=
  (decodeOperation json).bind fun (op, timeout) =>
    let c := { c with logOperation := op, timeout := timeout }
    if op = .stop then
      match json.getObjectItem "StopLogStepNumber" with
      | some (.string s) => some { c with stopLogStepNumber := atoi s }
      | _ => none
    else (decodeParamBool json "StatResponseType").map fun b => { c with isStatResponseTypeSet := b }

/-- What the constructors of the steps leave. -/
def zeroed (dataType : DataType) : WifiStatsGet :=
  ⟨dataType, .none, .start, 0, 0, 0, 0, false⟩

/-- The decoders with a radio and a scan mode. -/
def decodeScan (dataType : DataType) (l : Limits) (json : Json) : Option WifiStatsGet := do
  let radio ← decodeIndex json "RadioIndex" l.maxNumRadios
  let c ← decodeStatsGetCommonParams json { zeroed dataType with radioIndex := radio }
  let mode ← decodeScanMode json
  return { c with scanMode := mode }

/-- The decoders with a radio. -/
def decodeRadio (dataType : DataType) (l : Limits) (json : Json) : Option WifiStatsGet := do
  let radio ← decodeIndex json "RadioIndex" l.maxNumRadios
  decodeStatsGetCommonParams json { zeroed dataType with radioIndex := radio }

/-- `decode_step_radio_channel_stats_get`. -/
def decodeStepRadioChannelStatsGet : Limits → Json → Option WifiStatsGet := decodeScan .radioChannelStats

/-- `decode_step_neighbor_stats_get`. -/
def decodeStepNeighborStatsGet : Limits → Json → Option WifiStatsGet := decodeScan .neighborStats

/-- `decode_step_assoc_client_stats_get`. -/
def decodeStepAssocClientStatsGet (l : Limits) (json : Json) : Option WifiStatsGet := do
  let vap ← decodeIndex json "VapIndex" (l.maxNumVapPerRadio * l.maxNumRadios)
  decodeStatsGetCommonParams json { zeroed .associatedDeviceStats with vapIndex := vap }

/-- `decode_step_radio_diag_stats_get`. -/
def decodeStepRadioDiagStatsGet : Limits → Json → Option WifiStatsGet := decodeRadio .radioDiagnosticStats

/-- `decode_step_radio_temperature_stats_get`. -/
def decodeStepRadioTemperatureStatsGet : Limits → Json → Option WifiStatsGet := decodeRadio .radioTemperature

/-- The choice of the decoder in `decode_step_param_config`. -/
def decodeStepStatsGet (l : Limits) (json : Json) : Option WifiStatsGet :=
  (decodeParamString json "GetStatsType").bind fun s =>
    if s = text "RadioChannelStats" then decodeStepRadioChannelStatsGet l json
    else if s = text "NeighborStats" then decodeStepNeighborStatsGet l json
    else if s = text "AssociatedDeviceStats" then decodeStepAssocClientStatsGet l json
    else if s = text "RadioDiagnosticStats" then decodeStepRadioDiagStatsGet l json
    else if s = text "RadioTemperatureStats" then decodeStepRadioTemperatureStatsGet l json
    else none

/-- `get_scanmode`. -/
def getScanmode : ScanMode → Option Bytes
  | .onchan => some (text "on_channel")
  | .offchan => some (text "off_channel")
  | .full => some (text "full_channel")
  | .survey => some (text "Survey")
  | .none => none

/-- `get_subscription_string` into a buffer of `strLen` bytes. -/
def getSubscriptionString (c : WifiStatsGet) (strLen : ℕ) : Option Bytes :=
  let radio := text "Device.WiFi.CollectStats.Radio." ++ formatInt (c.radioIndex + 1)
  match c.dataType with
  | .radioChannelStats => (getScanmode c.scanMode).map fun mode =>
      (radio ++ text ".ScanMode." ++ mode ++ text ".ChannelStats").take (strLen - 1)
  | .neighborStats => (getScanmode c.scanMode).map fun mode =>
      (radio ++ text ".ScanMode." ++ mode ++ text ".NeighborStats").take (strLen - 1)
  | .associatedDeviceStats =>
      some ((text "Device.WiFi.CollectStats.AccessPoint." ++ formatInt (c.vapIndex + 1) ++
        text ".AssociatedDeviceStats").take (strLen - 1))
  | .radioDiagnosticStats => some ((radio ++ text ".RadioDiagnosticStats").take (strLen - 1))
  | .radioTemperature => some ((radio ++ text ".RadioTemperatureStats").take (strLen - 1))

/-- `test_step_params_t`; `stats` is there for a step of type `stats_get`. -/
structure Step where
  stepNumber : BitVec 32
  stats : Option WifiStatsGet
  testState : TestState
  timeoutCount : ℤ
deriving DecidableEq, Repr

/-- A subscription, with the step whose `this` the handler gets. -/
structure Sub where
  event : Bytes
  owner : ℕ
deriving DecidableEq, Repr

/-- The steps, in the order of their queue, and the subscriptions that the bus has open. -/
structure St where
  steps : List Step
  opened : List Sub
deriving DecidableEq, Repr

/-- `get_step_from_step_number`: the first step of the queue with the number. -/
def getStepFromStepNumber (numbers : List (BitVec 32)) (n : BitVec 32) : Option ℕ :=
  numbers.findIdx? (· = n)

def St.setState (s : St) (i : ℕ) (state : TestState) : St :=
  { s with steps := s.steps.modify i fun step => { step with testState := state } }

/-- `start_subscription` of step `i`; `ok` is the answer of `bus_event_subs_fn`. -/
def startSubscription (c : WifiStatsGet) (i : ℕ) (ok : Bool) (s : St) : St × Bool :=
  match getSubscriptionString c 128 with
  | none => (s, false)
  | some name =>
      if ok then ({ s with opened := s.opened ++ [⟨name, i⟩] }, true) else (s.setState i .abort, false)

/-- `bus_event_unsubs_fn`: an error for an event that is not subscribed, and for a fault of the bus. -/
def unsubscribe (name : Bytes) (ok : Bool) (s : St) : St × Bool :=
  if ok ∧ ∃ sub ∈ s.opened, sub.event = name then
    ({ s with opened := s.opened.filter fun sub => sub.event ≠ name }, true)
  else (s, false)

/-- `stop_subscription`, called on the step with the statistics `c` and given step `j`. -/
def stopSubscription (c : WifiStatsGet) (j : ℕ) (ok : Bool) (s : St) : St × Bool :=
  match getSubscriptionString c 128 with
  | none => (s, false)
  | some name =>
      let r := unsubscribe name ok s
      (r.1.setState j (if r.2 then .results else .abort), r.2)

/-- `step_execute` of step `i`; the output file of a decoded step always gets its name. -/
def stepExecute (c : WifiStatsGet) (i : ℕ) (ok : Bool) (s : St) : St :=
  match c.logOperation with
  | .start =>
      let r := startSubscription c i ok s
      if r.2 then r.1.setState i .wait else r.1
  | .stop =>
      match getStepFromStepNumber (s.steps.map Step.stepNumber) c.stopLogStepNumber with
      | none => s.setState i .abort
      | some j =>
          let r := stopSubscription c j ok s
          if r.2 then r.1.setState i .results else r.1
  | .timer =>
      let r := startSubscription c i ok s
      if r.2 then r.1.setState i .cont else r.1
  | .invalid => s

/-- `step_timeout` of step `i`. -/
def stepTimeout (step : Step) (c : WifiStatsGet) (i : ℕ) (ok : Bool) (s : St) : St :=
  if step.testState ≠ .results ∧ c.logOperation = .timer then
    let s := { s with steps := s.steps.modify i fun step => { step with timeoutCount := step.timeoutCount + 1 } }
    if c.timeout = step.timeoutCount + 1 then (stopSubscription c i ok s).1.setState i .results
    else s.setState i .cont
  else if c.logOperation = .stop ∨ c.logOperation = .start then s.setState i .results
  else s.setState i .abort

/-- The calls of the scheduler on step `i`, with the answer of the bus. -/
inductive Move
  | execute (i : ℕ) (ok : Bool)
  | timeout (i : ℕ) (ok : Bool)
deriving DecidableEq, Repr

/-- The statistics of step `i`. -/
def St.stats (s : St) (i : ℕ) : Option WifiStatsGet := s.steps[i]?.bind Step.stats

/-- A step is executed once, and gets its timeouts while it is in `wait` or `continue`. -/
def next (s : St) : Move → Option St
  | .execute i ok =>
      match s.steps[i]?, s.stats i with
      | some step, some c => if step.testState = .request then some (stepExecute c i ok s) else none
      | _, _ => none
  | .timeout i ok =>
      match s.steps[i]?, s.stats i with
      | some step, some c =>
          if step.testState = .wait ∨ step.testState = .cont then some (stepTimeout step c i ok s) else none
      | _, _ => none

/-- A list of steps whose statistics the decoder has accepted. -/
structure Config (l : Limits) where
  steps : List (BitVec 32 × Option WifiStatsGet)
  accepted : ∀ step ∈ steps, ∀ c, step.2 = some c → ∃ json, decodeStepStatsGet l json = some c

/-- Before the first step. -/
def init {l : Limits} (config : Config l) : St where
  steps := config.steps.map fun (number, stats) => ⟨number, stats, .request, 0⟩
  opened := []

end Code

/-! ### Names -/

section Names

variable {l : Limits} {json : Json} {c d : WifiStatsGet}

/-- The event that a step is about. -/
@[ext]
structure Event where
  dataType : DataType
  index : ℕ
  scan : Option ScanMode
deriving DecidableEq, Repr

/-- The data types with a scan mode in the name. -/
def DataType.scans : DataType → Bool
  | .radioChannelStats | .neighborStats => true
  | _ => false

def WifiStatsGet.event (c : WifiStatsGet) : Event where
  dataType := c.dataType
  index := if c.dataType = .associatedDeviceStats then c.vapIndex else c.radioIndex
  scan := if c.dataType.scans then some c.scanMode else none

/-- What a decoder sees to. -/
structure Decoded (c : WifiStatsGet) : Prop where
  radioIndex : c.radioIndex < 2 ^ 31
  vapIndex : c.vapIndex < 2 ^ 31
  scanMode : c.dataType.scans = true → c.scanMode ≠ .none

theorem decodeIndex_lt {key : String} {limit i : ℕ} (h : decodeIndex json key limit = some i) : i < limit := by
  unfold decodeIndex at h
  split at h
  · split_ifs at h with hin
    cases h
    omega
  · cases h

theorem decodeScanMode_ne_none {mode : ScanMode} (h : decodeScanMode json = some mode) : mode ≠ .none := by
  unfold decodeScanMode at h
  split at h
  · split_ifs at h <;> cases h <;> decide
  · cases h

/-- The common parameters leave the event alone. -/
theorem decodeCommon_keeps (h : decodeStatsGetCommonParams json c = some d) :
    d.dataType = c.dataType ∧ d.scanMode = c.scanMode ∧ d.radioIndex = c.radioIndex ∧ d.vapIndex = c.vapIndex := by
  unfold decodeStatsGetCommonParams at h
  obtain ⟨⟨op, timeout⟩, -, h⟩ := Option.bind_eq_some_iff.mp h
  dsimp only at h
  split_ifs at h
  · split at h
    · cases h
      exact ⟨rfl, rfl, rfl, rfl⟩
    · cases h
  · obtain ⟨b, -, rfl⟩ := Option.map_eq_some_iff.mp h
    exact ⟨rfl, rfl, rfl, rfl⟩

/-- The common parameters keep the indices in range. -/
theorem decodeCommon_indices (h : decodeStatsGetCommonParams json c = some d) (hradio : c.radioIndex < 2 ^ 31)
    (hvap : c.vapIndex < 2 ^ 31) : d.radioIndex < 2 ^ 31 ∧ d.vapIndex < 2 ^ 31 := by
  obtain ⟨-, -, hr, hv⟩ := decodeCommon_keeps h
  rw [hr, hv]
  exact ⟨hradio, hvap⟩

theorem decoded_of_scan {t : DataType} (h : decodeScan t l json = some c) : Decoded c := by
  obtain ⟨radio, hradio, h⟩ := Option.bind_eq_some_iff.mp h
  obtain ⟨c₀, hc₀, h⟩ := Option.bind_eq_some_iff.mp h
  obtain ⟨mode, hmode, h⟩ := Option.bind_eq_some_iff.mp h
  cases h
  obtain ⟨hr, hv⟩ := decodeCommon_indices hc₀ ((decodeIndex_lt hradio).trans l.fits.1) (Nat.two_pow_pos 31)
  exact ⟨hr, hv, fun _ => decodeScanMode_ne_none hmode⟩

/-- Without a scan mode in the name the common parameters are the last to be decoded. -/
theorem decoded_of_common (h : decodeStatsGetCommonParams json c = some d) (hscans : c.dataType.scans = false)
    (hradio : c.radioIndex < 2 ^ 31) (hvap : c.vapIndex < 2 ^ 31) : Decoded d := by
  obtain ⟨hr, hv⟩ := decodeCommon_indices h hradio hvap
  refine ⟨hr, hv, fun hscans' => ?_⟩
  rw [(decodeCommon_keeps h).1, hscans] at hscans'
  cases hscans'

theorem decoded_of_radio {t : DataType} (ht : t.scans = false) (h : decodeRadio t l json = some c) : Decoded c := by
  obtain ⟨radio, hradio, h⟩ := Option.bind_eq_some_iff.mp h
  exact decoded_of_common h ht ((decodeIndex_lt hradio).trans l.fits.1) (Nat.two_pow_pos 31)

theorem decoded_of_assoc (h : decodeStepAssocClientStatsGet l json = some c) : Decoded c := by
  obtain ⟨vap, hvap, h⟩ := Option.bind_eq_some_iff.mp h
  exact decoded_of_common h rfl (Nat.two_pow_pos 31) ((decodeIndex_lt hvap).trans l.fits.2)

/-- **Every decoded step has its indices in range and, where its name has one, a scan mode.** -/
theorem decoded_of_decode (h : decodeStepStatsGet l json = some c) : Decoded c := by
  unfold decodeStepStatsGet at h
  obtain ⟨s, -, h⟩ := Option.bind_eq_some_iff.mp h
  split_ifs at h
  · exact decoded_of_scan h
  · exact decoded_of_scan h
  · exact decoded_of_assoc h
  · exact decoded_of_radio rfl h
  · exact decoded_of_radio rfl h

/-- The name up to the number. -/
def nameHead : DataType → Bytes
  | .associatedDeviceStats => text "Device.WiFi.CollectStats.AccessPoint."
  | _ => text "Device.WiFi.CollectStats.Radio."

/-- The name behind the dot that follows the number. -/
def nameTail (mode : ScanMode) : DataType → Bytes
  | .radioChannelStats => text "ScanMode." ++ (getScanmode mode).getD [] ++ text ".ChannelStats"
  | .neighborStats => text "ScanMode." ++ (getScanmode mode).getD [] ++ text ".NeighborStats"
  | .associatedDeviceStats => text "AssociatedDeviceStats"
  | .radioDiagnosticStats => text "RadioDiagnosticStats"
  | .radioTemperature => text "RadioTemperatureStats"

/-- The name of an event. -/
def eventName (c : WifiStatsGet) : Bytes :=
  nameHead c.dataType ++ (decimal (c.event.index + 1) ++ 46 :: nameTail c.scanMode c.dataType)

theorem nameHead_length (t : DataType) : (nameHead t).length ≤ 37 := by
  cases t <;> decide

theorem nameTail_length (mode : ScanMode) (t : DataType) : (nameTail mode t).length ≤ 40 := by
  cases mode <;> cases t <;> decide

theorem eventName_length (h : Decoded c) : (eventName c).length ≤ 127 := by
  have hindex : c.event.index + 1 < 10 ^ 10 := by
    have hradio := h.radioIndex
    have hvap := h.vapIndex
    unfold WifiStatsGet.event
    dsimp only
    split_ifs <;> omega
  have hdecimal := decimal_length_le (by omega) hindex
  have hhead := nameHead_length c.dataType
  have htail := nameTail_length c.scanMode c.dataType
  unfold eventName
  rw [List.length_append, List.length_append, List.length_cons]
  omega

theorem formatInt_succ (n : ℕ) : formatInt (n + 1) = decimal (n + 1) := rfl

/-- The literals that stand behind the number begin with a dot. -/
theorem dotted : text ".ScanMode." = 46 :: text "ScanMode." ∧
    text ".AssociatedDeviceStats" = 46 :: text "AssociatedDeviceStats" ∧
    text ".RadioDiagnosticStats" = 46 :: text "RadioDiagnosticStats" ∧
    text ".RadioTemperatureStats" = 46 :: text "RadioTemperatureStats" := by
  decide

theorem getScanmode_of_ne_none {mode : ScanMode} (h : mode ≠ .none) : ∃ name, getScanmode mode = some name := by
  cases mode with
  | none => exact absurd rfl h
  | onchan | offchan | full | survey => exact ⟨_, rfl⟩

/-- The buffer is large enough for every name. -/
theorem getSubscriptionString_eq (h : Decoded c) : getSubscriptionString c 128 = some (eventName c) := by
  have hlen := eventName_length h
  have hwhole : ∀ s : Bytes, s = eventName c → some (s.take (128 - 1)) = some (eventName c) := by
    rintro s rfl
    rw [List.take_of_length_le hlen]
  obtain ⟨hscan, hassoc, hdiag, htemp⟩ := dotted
  unfold getSubscriptionString
  cases htype : c.dataType with
  | radioChannelStats | neighborStats =>
      obtain ⟨name, hname⟩ := getScanmode_of_ne_none (h.scanMode (by rw [htype]; rfl))
      rw [hname]
      refine hwhole _ ?_
      simp [eventName, nameHead, nameTail, WifiStatsGet.event, htype, hname, hscan, formatInt_succ]
  | associatedDeviceStats =>
      refine hwhole _ ?_
      simp [eventName, nameHead, nameTail, WifiStatsGet.event, htype, hassoc, formatInt_succ]
  | radioDiagnosticStats =>
      refine hwhole _ ?_
      simp [eventName, nameHead, nameTail, WifiStatsGet.event, htype, hdiag, formatInt_succ]
  | radioTemperature =>
      refine hwhole _ ?_
      simp [eventName, nameHead, nameTail, WifiStatsGet.event, htype, htemp, formatInt_succ]

/-- Texts that agree, each up to a separator and behind it, agree part by part. -/
theorem eq_of_separated {sep : UInt8} {s s' u u' : Bytes} (hs : sep ∉ s) (hs' : sep ∉ s')
    (h : s ++ sep :: u = s' ++ sep :: u') : s = s' ∧ u = u' := by
  induction s generalizing s' with
  | nil =>
      cases s' with
      | nil => exact ⟨rfl, (List.cons.inj h).2⟩
      | cons b s' =>
          obtain ⟨rfl, -⟩ := List.cons.inj h
          exact absurd List.mem_cons_self hs'
  | cons a s ih =>
      cases s' with
      | nil =>
          obtain ⟨rfl, -⟩ := List.cons.inj h
          exact absurd List.mem_cons_self hs
      | cons b s' =>
          obtain ⟨rfl, htail⟩ := List.cons.inj h
          rw [List.mem_cons, not_or] at hs hs'
          obtain ⟨rfl, hu⟩ := ih hs.2 hs'.2 htail
          exact ⟨rfl, hu⟩

theorem dot_notMem_decimal (n : ℕ) : (46 : UInt8) ∉ decimal n := by
  intro h
  have := mem_decimal h
  simp at this

/-- Radios and access points have different names. -/
theorem nameHead_eq_of_append {t t' : DataType} {s s' : Bytes} (h : nameHead t ++ s = nameHead t' ++ s') :
    nameHead t = nameHead t' := by
  have htake := congrArg (List.take 26) h
  rw [List.take_append_of_le_length (by cases t <;> decide),
    List.take_append_of_le_length (by cases t' <;> decide)] at htake
  revert htake
  cases t <;> cases t' <;> decide

/-- The part behind the number tells the data type and the scan mode. -/
theorem nameTail_injective {t t' : DataType} {mode mode' : ScanMode} (hmode : t.scans = true → mode ≠ .none)
    (hmode' : t'.scans = true → mode' ≠ .none) (h : nameTail mode t = nameTail mode' t') :
    t = t' ∧ (t.scans = true → mode = mode') := by
  revert hmode hmode' h
  cases t <;> cases t' <;> cases mode <;> cases mode' <;> decide

/-- The scan mode of a data type without one does not matter. -/
theorem nameTail_congr {t : DataType} {mode mode' : ScanMode} (h : t.scans = true → mode = mode') :
    nameTail mode t = nameTail mode' t := by
  cases t with
  | radioChannelStats | neighborStats => rw [h rfl]
  | associatedDeviceStats | radioDiagnosticStats | radioTemperature => rfl

/-- What two steps about the same event share. -/
theorem event_eq_iff : c.event = d.event ↔
    c.dataType = d.dataType ∧ c.event.index = d.event.index ∧ (c.dataType.scans = true → c.scanMode = d.scanMode) := by
  constructor
  · intro h
    have htype : c.dataType = d.dataType := congrArg Event.dataType h
    refine ⟨htype, congrArg Event.index h, fun hscans => ?_⟩
    have hscan : c.event.scan = d.event.scan := congrArg Event.scan h
    unfold WifiStatsGet.event at hscan
    rw [← htype, hscans] at hscan
    exact Option.some.inj hscan
  · rintro ⟨htype, hindex, hmode⟩
    refine Event.ext htype hindex ?_
    unfold WifiStatsGet.event
    dsimp only
    rw [← htype]
    split_ifs with hscans
    · rw [hmode hscans]
    · rfl

/-- **Two decoded steps print the same name exactly when they are about the same event.** -/
theorem subscriptionString_eq_iff (hc : Decoded c) (hd : Decoded d) :
    getSubscriptionString c 128 = getSubscriptionString d 128 ↔ c.event = d.event := by
  rw [getSubscriptionString_eq hc, getSubscriptionString_eq hd, Option.some.injEq, event_eq_iff]
  unfold eventName
  constructor
  · intro h
    have hhead := nameHead_eq_of_append h
    rw [hhead] at h
    obtain ⟨hindex, htail⟩ := eq_of_separated (dot_notMem_decimal _) (dot_notMem_decimal _)
      (List.append_cancel_left h)
    obtain ⟨htype, hmode⟩ := nameTail_injective hc.scanMode hd.scanMode htail
    have := decimal_injective hindex
    exact ⟨htype, by omega, hmode⟩
  · rintro ⟨htype, hindex, hmode⟩
    rw [hindex, nameTail_congr hmode, htype]

end Names

/-! ### Pairing -/

section Pairing

variable {s s' : St} {m : Move} {l : Limits}

def Move.ok : Move → Bool
  | .execute _ ok => ok
  | .timeout _ ok => ok

/-- The moves that close: the statistics by which the event is named to the bus, and the step whose
subscription is to be closed. A `Stop` closes for the step that it names, and a step with a duration for
itself. -/
def closing (s : St) : Move → Option (WifiStatsGet × ℕ)
  | .execute i _ =>
      match s.stats i with
      | some c =>
          if c.logOperation = .stop then
            (getStepFromStepNumber (s.steps.map Step.stepNumber) c.stopLogStepNumber).map fun j => (c, j)
          else none
      | none => none
  | .timeout i _ =>
      match s.steps[i]?, s.stats i with
      | some step, some c =>
          if c.logOperation = .timer ∧ c.timeout = step.timeoutCount + 1 then some (c, i) else none
      | _, _ => none

/-- A move that closes takes away the subscriptions of its target and no other, unless the bus has a fault;
every other move takes none away. -/
def Pairs (s : St) (m : Move) (s' : St) : Prop :=
  match closing s m with
  | none => s.opened <+: s'.opened
  | some (_, j) => s'.opened = if m.ok then s.opened.filter fun sub => sub.owner ≠ j else s.opened

/-- Where the bus has no fault, a move that closes is about the event of a subscription exactly when that
belongs to its target. -/
def Matches (s : St) (m : Move) : Prop :=
  match closing s m with
  | none => True
  | some (c, j) => m.ok = true → ∀ sub ∈ s.opened, ∀ d, s.stats sub.owner = some d →
      (d.event = c.event ↔ sub.owner = j)

@[simp]
theorem opened_setState (s : St) (i : ℕ) (state : TestState) : (s.setState i state).opened = s.opened := rfl

/-- What the steps keep: their numbers and their statistics. -/
def St.kept (s : St) : List (BitVec 32 × Option WifiStatsGet) :=
  s.steps.map fun step => (step.stepNumber, step.stats)

theorem stats_eq (s : St) (i : ℕ) : s.stats i = s.kept[i]?.bind Prod.snd := by
  unfold St.stats St.kept
  rw [List.getElem?_map, Option.bind_map]
  rfl

theorem stats_of_kept (h : s'.kept = s.kept) : s'.stats = s.stats := by
  funext i
  rw [stats_eq, stats_eq, h]

theorem numbers_eq (s : St) : s.steps.map Step.stepNumber = s.kept.map Prod.fst := by
  unfold St.kept
  rw [List.map_map]
  rfl

theorem kept_modify {g : Step → Step} (hg : ∀ step, (g step).stepNumber = step.stepNumber ∧ (g step).stats = step.stats)
    (s : St) (i : ℕ) : St.kept { s with steps := s.steps.modify i g } = s.kept := by
  refine List.ext_getElem? fun j => ?_
  unfold St.kept
  rw [List.getElem?_map, List.getElem?_map, List.getElem?_modify]
  cases s.steps[j]? with
  | none => rfl
  | some step =>
      obtain ⟨hnumber, hstats⟩ := hg step
      split_ifs
      · exact congrArg some (Prod.ext hnumber hstats)
      · rfl

@[simp]
theorem kept_setState (s : St) (i : ℕ) (state : TestState) : (s.setState i state).kept = s.kept :=
  kept_modify (g := fun step => { step with testState := state }) (fun _ => ⟨rfl, rfl⟩) s i

/-- Neither does the state that a call leaves when it succeeds change them. -/
@[simp]
theorem kept_ite (b : Bool) (s : St) (i : ℕ) (state : TestState) :
    (if b then s.setState i state else s).kept = s.kept := by
  split_ifs
  · exact kept_setState s i state
  · rfl

@[simp]
theorem opened_ite (b : Bool) (s : St) (i : ℕ) (state : TestState) :
    (if b then s.setState i state else s).opened = s.opened := by
  split_ifs <;> rfl

theorem startSubscription_spec (c : WifiStatsGet) (i : ℕ) (ok : Bool) (s : St) :
    (startSubscription c i ok s).1.kept = s.kept ∧
      ((startSubscription c i ok s).1.opened = s.opened ∨
        ∃ name, getSubscriptionString c 128 = some name ∧
          (startSubscription c i ok s).1.opened = s.opened ++ [⟨name, i⟩]) := by
  unfold startSubscription
  split
  · exact ⟨rfl, Or.inl rfl⟩
  · rename_i name hname
    split_ifs
    · exact ⟨rfl, Or.inr ⟨name, hname, rfl⟩⟩
    · exact ⟨kept_setState s i _, Or.inl rfl⟩

/-- The subscriptions left by a move that closes, given the name of the event. -/
def closedBy (name : Bytes) (ok : Bool) (opened : List Sub) : List Sub :=
  if ok then opened.filter fun sub => sub.event ≠ name else opened

theorem unsubscribe_spec (name : Bytes) (ok : Bool) (s : St) :
    (unsubscribe name ok s).1.steps = s.steps ∧ (unsubscribe name ok s).1.opened = closedBy name ok s.opened := by
  unfold unsubscribe closedBy
  by_cases hex : ∃ sub ∈ s.opened, sub.event = name
  · cases ok with
    | false => simp
    | true => simp [hex]
  · have hall : s.opened.filter (fun sub => sub.event ≠ name) = s.opened := by
      refine List.filter_eq_self.mpr fun sub hsub => ?_
      exact decide_eq_true fun hevent => hex ⟨sub, hsub, hevent⟩
    rw [if_neg fun h => hex h.2, hall]
    simp

theorem stopSubscription_spec {c : WifiStatsGet} (hc : Decoded c) (j : ℕ) (ok : Bool) (s : St) :
    (stopSubscription c j ok s).1.kept = s.kept ∧
      (stopSubscription c j ok s).1.opened = closedBy (eventName c) ok s.opened := by
  obtain ⟨hsteps, hopened⟩ := unsubscribe_spec (eventName c) ok s
  unfold stopSubscription
  rw [getSubscriptionString_eq hc]
  refine ⟨?_, hopened⟩
  rw [kept_setState]
  unfold St.kept
  rw [hsteps]

/-- What a move does to the subscriptions. -/
def Effect (s : St) (m : Move) (s' : St) : Prop :=
  match closing s m with
  | none => s'.opened = s.opened ∨ ∃ i c name, s.stats i = some c ∧ c.logOperation ≠ .stop ∧
      getSubscriptionString c 128 = some name ∧ s'.opened = s.opened ++ [⟨name, i⟩]
  | some (c, _) => (∃ i, s.stats i = some c) ∧ s'.opened = closedBy (eventName c) m.ok s.opened

theorem effect_of_start {i : ℕ} {c : WifiStatsGet} (ok : Bool) (hclosing : closing s m = none)
    (hstats : s.stats i = some c) (hop : c.logOperation ≠ .stop)
    (hopened : s'.opened = (startSubscription c i ok s).1.opened) : Effect s m s' := by
  unfold Effect
  rw [hclosing, hopened]
  obtain ⟨-, hsame | ⟨name, hname, hnew⟩⟩ := startSubscription_spec c i ok s
  · exact Or.inl hsame
  · exact Or.inr ⟨i, c, name, hstats, hop, hname, hnew⟩

theorem effect_of_stop {i j : ℕ} {c : WifiStatsGet} (hclosing : closing s m = some (c, j))
    (hstats : s.stats i = some c) (hc : Decoded c)
    (hopened : s'.opened = (stopSubscription c j m.ok s).1.opened) : Effect s m s' := by
  unfold Effect
  rw [hclosing, hopened]
  exact ⟨⟨i, hstats⟩, (stopSubscription_spec hc j m.ok s).2⟩

theorem stepExecute_spec {i : ℕ} {c : WifiStatsGet} {ok : Bool} (hstats : s.stats i = some c) (hc : Decoded c) :
    (stepExecute c i ok s).kept = s.kept ∧ Effect s (.execute i ok) (stepExecute c i ok s) := by
  have hstart := startSubscription_spec c i ok s
  unfold stepExecute
  cases hop : c.logOperation with
  | start =>
      refine ⟨by simpa using hstart.1, effect_of_start ok ?_ hstats (by simp [hop]) (by simp)⟩
      simp [closing, hstats, hop]
  | timer =>
      refine ⟨by simpa using hstart.1, effect_of_start ok ?_ hstats (by simp [hop]) (by simp)⟩
      simp [closing, hstats, hop]
  | invalid =>
      refine ⟨rfl, ?_⟩
      simp [Effect, closing, hstats, hop]
  | stop =>
      cases hnamed : getStepFromStepNumber (s.steps.map Step.stepNumber) c.stopLogStepNumber with
      | none =>
          refine ⟨kept_setState s i _, ?_⟩
          simp [Effect, closing, hstats, hop, hnamed]
      | some j =>
          have hstop := stopSubscription_spec hc j ok s
          refine ⟨by simpa using hstop.1, effect_of_stop (j := j) ?_ hstats hc (by simp [Move.ok])⟩
          simp [closing, hstats, hop, hnamed]

theorem stepTimeout_spec {i : ℕ} {step : Step} {c : WifiStatsGet} {ok : Bool} (hstep : s.steps[i]? = some step)
    (hstats : s.stats i = some c) (hc : Decoded c) (hstate : step.testState ≠ .results) :
    (stepTimeout step c i ok s).kept = s.kept ∧ Effect s (.timeout i ok) (stepTimeout step c i ok s) := by
  have hcount := kept_modify (g := fun step => { step with timeoutCount := step.timeoutCount + 1 }) (fun _ => ⟨rfl, rfl⟩) s i
  unfold stepTimeout
  by_cases hop : c.logOperation = .timer
  · rw [if_pos ⟨hstate, hop⟩]
    dsimp only
    by_cases htime : c.timeout = step.timeoutCount + 1
    · rw [if_pos htime, kept_setState]
      have hstop := stopSubscription_spec hc i ok
        { s with steps := s.steps.modify i fun step => { step with timeoutCount := step.timeoutCount + 1 } }
      refine ⟨hstop.1.trans hcount, ?_⟩
      have hclosing : closing s (.timeout i ok) = some (c, i) := by
        simp [closing, hstep, hstats, hop, htime]
      unfold Effect
      rw [hclosing]
      exact ⟨⟨i, hstats⟩, hstop.2⟩
    · rw [if_neg htime, kept_setState]
      refine ⟨hcount, ?_⟩
      simp [Effect, closing, hstep, hstats, htime]
  · rw [if_neg fun h => hop h.2]
    split_ifs
    · refine ⟨kept_setState s i _, ?_⟩
      simp [Effect, closing, hstep, hstats, hop]
    · refine ⟨kept_setState s i _, ?_⟩
      simp [Effect, closing, hstep, hstats, hop]

/-- What holds of every state: the statistics have been decoded, and an open subscription is one that a
start or a step with a duration has opened, by the name that it prints. -/
structure Inv (s : St) : Prop where
  decoded : ∀ i c, s.stats i = some c → Decoded c
  owned : ∀ sub ∈ s.opened, ∃ d, s.stats sub.owner = some d ∧ d.logOperation ≠ .stop ∧
    getSubscriptionString d 128 = some sub.event

theorem next_spec (hinv : Inv s) (h : next s m = some s') : s'.kept = s.kept ∧ Effect s m s' := by
  cases m with
  | execute i ok =>
      simp only [next] at h
      split at h
      · rename_i step c hstep hstats
        obtain ⟨-, heq⟩ := Option.ite_none_right_eq_some.mp h
        cases heq
        exact stepExecute_spec hstats (hinv.decoded i c hstats)
      · cases h
  | timeout i ok =>
      simp only [next] at h
      split at h
      · rename_i step c hstep hstats
        obtain ⟨hstate, heq⟩ := Option.ite_none_right_eq_some.mp h
        cases heq
        refine stepTimeout_spec hstep hstats (hinv.decoded i c hstats) fun hresults => ?_
        rw [hresults] at hstate
        simp at hstate
      · cases h

theorem inv_next (hinv : Inv s) (h : next s m = some s') : Inv s' := by
  obtain ⟨hkept, heffect⟩ := next_spec hinv h
  have hstats := stats_of_kept hkept
  refine ⟨fun i c => by rw [hstats]; exact hinv.decoded i c, ?_⟩
  rw [hstats]
  unfold Effect at heffect
  split at heffect
  · rcases heffect with hsame | ⟨i, c, name, hc, hop, hname, hnew⟩
    · rw [hsame]
      exact hinv.owned
    · rw [hnew]
      intro sub hsub
      rcases List.mem_append.mp hsub with hold | hown
      · exact hinv.owned sub hold
      · rw [List.mem_singleton.mp hown]
        exact ⟨c, hc, hop, hname⟩
  · intro sub hsub
    rw [heffect.2] at hsub
    unfold closedBy at hsub
    split_ifs at hsub
    · exact hinv.owned sub (List.mem_of_mem_filter hsub)
    · exact hinv.owned sub hsub

theorem inv_init (config : Config l) : Inv (init config) := by
  refine ⟨fun i c hstats => ?_, by simp [init]⟩
  obtain ⟨step, hstep, hc⟩ := Option.bind_eq_some_iff.mp hstats
  obtain ⟨entry, hentry, rfl⟩ := List.mem_map.mp (List.mem_of_getElem? hstep)
  obtain ⟨json, hjson⟩ := config.accepted entry hentry c hc
  exact decoded_of_decode hjson

theorem inv_of_run {config : Config l} (hrun : Run next (fun _ _ => True) (init config) s) : Inv s :=
  run_invariant (fun _ _ _ hinv _ hnext => inv_next hinv hnext) hrun (inv_init config)

/-- Two filters keep the same exactly when they agree on the list. -/
theorem filter_eq_filter_iff {α : Type} {p q : α → Bool} {l : List α} :
    l.filter p = l.filter q ↔ ∀ a ∈ l, p a = q a := by
  refine ⟨fun h a ha => ?_, List.filter_congr⟩
  rw [Bool.eq_iff_iff]
  have hmem := congrArg (a ∈ ·) h
  simpa [ha] using hmem

/-- An open subscription has the name of an event exactly when its step is about that event. -/
theorem event_eq_name_iff (hinv : Inv s) {c d : WifiStatsGet} {sub : Sub} (hc : Decoded c) (hsub : sub ∈ s.opened)
    (hd : s.stats sub.owner = some d) : sub.event = eventName c ↔ d.event = c.event := by
  obtain ⟨d', hd', -, hname⟩ := hinv.owned sub hsub
  obtain rfl := Option.some.inj (hd.symm.trans hd')
  rw [← subscriptionString_eq_iff (hinv.decoded _ _ hd) hc, hname, getSubscriptionString_eq hc, Option.some.injEq]

/-- **A move closes the right subscriptions exactly when it matches**: in every state that any run of
any accepted list of steps reaches, for every move and every answer of the bus. -/
theorem pairs_iff {config : Config l} (hrun : Run next (fun _ _ => True) (init config) s)
    (hnext : next s m = some s') : Pairs s m s' ↔ Matches s m := by
  have hinv := inv_of_run hrun
  obtain ⟨-, heffect⟩ := next_spec hinv hnext
  unfold Pairs Matches
  unfold Effect at heffect
  cases hclosing : closing s m with
  | none =>
      rw [hclosing] at heffect
      refine iff_of_true ?_ trivial
      rcases heffect with hsame | ⟨i, c, name, -, -, -, hnew⟩
      · exact hsame ▸ List.prefix_refl _
      · exact hnew ▸ List.prefix_append _ _
  | some p =>
      obtain ⟨c, j⟩ := p
      rw [hclosing] at heffect
      obtain ⟨⟨i, hc⟩, hopened⟩ := heffect
      have hdecoded := hinv.decoded i c hc
      dsimp only
      rw [hopened]
      unfold closedBy
      cases m.ok with
      | false => simp
      | true =>
          rw [if_pos rfl, if_pos rfl, filter_eq_filter_iff]
          constructor
          · intro hall _ sub hsub d hd
            rw [← event_eq_name_iff hinv hdecoded hsub hd]
            have := hall sub hsub
            simpa [decide_eq_decide, not_iff_not] using this
          · intro hall sub hsub
            obtain ⟨d, hd, -, -⟩ := hinv.owned sub hsub
            have hiff := hall rfl sub hsub d hd
            rw [← event_eq_name_iff hinv hdecoded hsub hd] at hiff
            simp [hiff]

/-- The step that the moves of step `i`, with the statistics `c`, close for. -/
def closesFor (numbers : List (BitVec 32)) (i : ℕ) (c : WifiStatsGet) : Option ℕ :=
  match c.logOperation with
  | .stop => getStepFromStepNumber numbers c.stopLogStepNumber
  | .timer => some i
  | _ => none

/-- Every step that closes is about the event of the step that it closes for, and about that of no other
step that subscribes. -/
def WellPaired (s : St) : Prop :=
  ∀ i c j, s.stats i = some c → closesFor (s.steps.map Step.stepNumber) i c = some j →
    ∀ k d, s.stats k = some d → d.logOperation ≠ .stop → (d.event = c.event ↔ k = j)

theorem closing_spec {c : WifiStatsGet} {j : ℕ} (h : closing s m = some (c, j)) :
    ∃ i, s.stats i = some c ∧ closesFor (s.steps.map Step.stepNumber) i c = some j := by
  cases m with
  | execute i ok =>
      simp only [closing] at h
      split at h
      · rename_i c' hstats
        split_ifs at h with hop
        obtain ⟨j', hj', heq⟩ := Option.map_eq_some_iff.mp h
        cases heq
        exact ⟨i, hstats, by simpa [closesFor, hop] using hj'⟩
      · cases h
  | timeout i ok =>
      simp only [closing] at h
      split at h
      · rename_i step c' hstep hstats
        split_ifs at h with hop
        obtain ⟨rfl, rfl⟩ := Prod.mk.inj (Option.some.inj h)
        exact ⟨i, hstats, by simp [closesFor, hop.1]⟩
      · cases h

theorem kept_of_run {config : Config l} (hrun : Run next (fun _ _ => True) (init config) s) :
    s.kept = (init config).kept := by
  have hboth : Inv s ∧ s.kept = (init config).kept :=
    run_invariant (I := fun t => Inv t ∧ t.kept = (init config).kept)
      (fun _ _ _ h _ hnext => ⟨inv_next h.1 hnext, (next_spec h.1 hnext).1.trans h.2⟩) hrun ⟨inv_init config, rfl⟩
  exact hboth.2

/-- In a list of steps that is well paired every move of every run matches. -/
theorem matches_of_wellPaired {config : Config l} (h : WellPaired (init config))
    (hrun : Run next (fun _ _ => True) (init config) s) (m : Move) : Matches s m := by
  have hkept := kept_of_run hrun
  have hstats := stats_of_kept hkept
  have hinv := inv_of_run hrun
  unfold Matches
  split
  · trivial
  · rename_i c j hclosing
    obtain ⟨i, hc, hfor⟩ := closing_spec hclosing
    rw [numbers_eq, hkept, ← numbers_eq] at hfor
    rw [hstats] at hc
    intro _ sub hsub d hd
    obtain ⟨d', hd', hop, -⟩ := hinv.owned sub hsub
    obtain rfl := Option.some.inj (hd.symm.trans hd')
    rw [hstats] at hd
    exact h i c j hc hfor sub.owner d hd hop

end Pairing

section Sample

/-- Two radios with eight access points each. -/
def twoRadios : Limits := ⟨2, 8, by decide⟩

/-- A step that gets the temperature of a radio. -/
def temperatureJson (radio operation : String) (stop : List (String × Json)) : Json :=
  .object ([("GetStatsType", .string (text "RadioTemperatureStats")), ("RadioIndex", .string (text radio)),
    ("Operation", .string (text operation)), ("StatResponseType", .bool true)] ++ stop)

def startStats : WifiStatsGet := ⟨.radioTemperature, .none, .start, 0, 0, 0, 0, true⟩

/-- A stop of step 1, by its own radio. -/
def stopStats (radio : ℕ) : WifiStatsGet := ⟨.radioTemperature, .none, .stop, -1, radio, 0, 1, false⟩

theorem decode_start : decodeStepStatsGet twoRadios (temperatureJson "0" "Start" []) = some startStats := by
  decide +kernel

theorem decode_stop : decodeStepStatsGet twoRadios
    (temperatureJson "0" "Stop" [("StopLogStepNumber", .string (text "1"))]) = some (stopStats 0) := by
  decide +kernel

theorem decode_otherStop : decodeStepStatsGet twoRadios
    (temperatureJson "1" "Stop" [("StopLogStepNumber", .string (text "1"))]) = some (stopStats 1) := by
  decide +kernel

/-- A start with the number 1 and behind it a stop with the number 2, in the order of the queue. -/
def stopQueue (radio : ℕ) (h : ∃ json, decodeStepStatsGet twoRadios json = some (stopStats radio)) :
    Config twoRadios where
  steps := [(2, some (stopStats radio)), (1, some startStats)]
  accepted := by
    intro step hstep c hc
    rcases List.mem_cons.mp hstep with rfl | hstep
    · cases hc
      exact h
    · obtain rfl := List.mem_singleton.mp hstep
      cases hc
      exact ⟨_, decode_start⟩

/-- The stop is about the radio of the start. -/
def rightQueue : Config twoRadios := stopQueue 0 ⟨_, decode_stop⟩

/-- The stop is about another radio. -/
def wrongQueue : Config twoRadios := stopQueue 1 ⟨_, decode_otherStop⟩

/-- The start has been executed. -/
def started (config : Config twoRadios) : St where
  steps := (init config).steps.modify 1 fun step => { step with testState := .wait }
  opened := [⟨text "Device.WiFi.CollectStats.Radio.1.RadioTemperatureStats", 1⟩]

theorem execTo_right : execTo next (init rightQueue) [.execute 1 true] = some (started rightQueue) := by
  decide +kernel

theorem execTo_wrong : execTo next (init wrongQueue) [.execute 1 true] = some (started wrongQueue) := by
  decide +kernel

/-- The stop has been executed. -/
def stopped : St where
  steps := (init rightQueue).steps.map fun step => { step with testState := .results }
  opened := []

theorem matches_right : Matches (started rightQueue) (.execute 0 true) := by
  have hclosing : closing (started rightQueue) (.execute 0 true) = some (stopStats 0, 1) := by decide +kernel
  unfold Matches
  rw [hclosing]
  intro _ sub hsub d hd
  obtain rfl := List.mem_singleton.mp hsub
  cases hd
  decide

/-- The stop is about the event of the start, and closes its subscription. -/
theorem pairs_iff_sameRadio : Pairs (started rightQueue) (.execute 0 true) stopped :=
  (pairs_iff (run_of_execTo execTo_right) (by decide +kernel)).mpr matches_right

/-- The stop is about another radio: the event that it names is not subscribed, and the start keeps its
subscription. -/
theorem not_pairs_otherRadio :
    ¬∀ (l : Limits) (config : Config l) (s s' : St) (m : Move),
      Run next (fun _ _ => True) (init config) s → next s m = some s' → Pairs s m s' := by
  intro hall
  have hpairs := hall _ _ _ ((started wrongQueue).setState 1 .abort) (.execute 0 true)
    (run_of_execTo execTo_wrong) (by decide +kernel)
  have hclosing : closing (started wrongQueue) (.execute 0 true) = some (stopStats 1, 1) := by decide +kernel
  unfold Pairs at hpairs
  rw [hclosing] at hpairs
  revert hpairs
  decide

end Sample

end OneWifiTestSuite.StatsGet
