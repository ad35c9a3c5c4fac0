import OneWifiTestSuite.AgentJson
import OneWifiTestSuite.StepTypes

/-!
# The status of the external agent

The gateway's `encode_external_agent_test_status` and `decode_external_agent_test_status`, and the
documents that the agent's `test_function` publishes at each tick. The encoder writes the agent's
name under a key that the decoder does not read, so that nothing encoded is accepted; what the agent
publishes is, and comes back unless a step number does not fit an `int` or a step in abort hides an earlier one
(`roundTrips_iff_decodable`).
-/

namespace OneWifiTestSuite.AgentStatus

open ByteRegion RebootFile AgentJson Steps
open StepTypes (AgentState)

/-! ### States as text -/

section States

/-- `agent_state_as_string`. -/
def agentStateAsString : AgentState → Bytes
  | .idle => text "idle"
  | .ready => text "ready"
  | .running => text "running"
  | .complete => text "complete"
  | .fail => text "fail"
  | .invalid => text "Unknown"

/-- `agent_state_as_enum`. -/
def agentStateAsEnum (s : Bytes) : AgentState :=
  if s = text "idle" then .idle
  else if s = text "ready" then .ready
  else if s = text "running" then .running
  else if s = text "complete" then .complete
  else if s = text "fail" then .fail
  else .invalid

/-- `step_state_as_string`. -/
def stepStateAsString : TestState → Bytes
  | .none => text "none"
  | .wait => text "wait"
  | .request => text "request"
  | .start => text "start"
  | .results => text "results"
  | .cont => text "continue"
  | .abort => text "abort"

/-- `step_state_as_enum`. -/
def stepStateAsEnum (s : Bytes) : TestState :=
  if s = text "none" then .none
  else if s = text "wait" then .wait
  else if s = text "request" then .request
  else if s = text "start" then .start
  else if s = text "results" then .results
  else if s = text "continue" then .cont
  else if s = text "abort" then .abort
  else .none

theorem agentStateAsEnum_asString (s : AgentState) : agentStateAsEnum (agentStateAsString s) = s := by
  cases s <;> decide +kernel

theorem stepStateAsEnum_asString (s : TestState) : stepStateAsEnum (stepStateAsString s) = s := by
  cases s <;> decide +kernel

theorem agentStateAsString_ne_nil (s : AgentState) : agentStateAsString s ≠ [] := by
  cases s <;> decide +kernel

theorem stepStateAsString_ne_nil (s : TestState) : stepStateAsString s ≠ [] := by
  cases s <;> decide +kernel

end States

/-! ### The gateway -/

section Gateway

/-- `ext_agent_step_status_t`. -/
structure StepStatus where
  stepNumber : BitVec 32
  state : TestState
  resultFiles : List Bytes
  stepPrivateJsonData : Bytes
deriving DecidableEq

/-- `ext_agent_status_resp_t`. -/
structure StatusResp where
  agentName : Bytes
  stepCount : BitVec 32
  state : AgentState
  steps : List StepStatus
deriving DecidableEq

def encodeStep (step : StepStatus) : Json :=
  .object [("StepNumber", .number step.stepNumber.toInt), ("StepStatus", .string (stepStateAsString step.state)),
    ("ResultFiles", .array (step.resultFiles.map fun file => .string (cStr file)))]

/-- The document of `encode_external_agent_test_status`. -/
def encodeStatus (status : StatusResp) : Json :=
  .object [("ExternalAgentName", .string (cStr status.agentName)),
    ("ExternalAgentStepCount", .number status.stepCount.toInt),
    ("ExternalAgentStatus", .string (agentStateAsString status.state)),
    ("ExternalAgentStepStatus", .array (status.steps.map encodeStep))]

/-- `encode_external_agent_test_status`. -/
def encodeExternalAgentTestStatus (lib : CJson) (status : StatusResp) : Bytes :=
  lib.print (encodeStatus status)

/-- The result files of a step, which are read in `results` only. -/
def decodeFiles (elem : Json) (state : TestState) : Option (List Bytes) :=
  if state = .results then (decodeParamArray elem "ResultFiles").bind fun files => files.mapM validateParamString
  else some []

def decodePrivate (lib : CJson) (elem : Json) : Bytes :=
  match elem.getObjectItem "StepPrivateData" with
  | none => []
  | some data => lib.print data

/-- One turn of the loop over the steps. -/
def decodeStep (lib : CJson) (elem : Json) : Option StepStatus := do
  let number ← decodeParamInteger elem "StepNumber"
  let status ← decodeParamString elem "StepStatus"
  let files ← decodeFiles elem (stepStateAsEnum status)
  some ⟨valueint number, stepStateAsEnum status, files, decodePrivate lib elem⟩

def decodeStatus (lib : CJson) (root : Json) : Option StatusResp := do
  let name ← decodeParamString root "ExternalAgentHostName"
  let count ← decodeParamInteger root "ExternalAgentStepCount"
  let state ← decodeParamString root "ExternalAgentStatus"
  let elems ← decodeParamArray root "ExternalAgentStepStatus"
  let steps ← elems.mapM (decodeStep lib)
  some ⟨name, valueint count, agentStateAsEnum state, steps⟩

/-- `decode_external_agent_test_status` into an empty status. -/
def decodeExternalAgentTestStatus (lib : CJson) (json : Bytes) : Option StatusResp :=
  (lib.parse json).bind (decodeStatus lib)

end Gateway

/-! ### The agent -/

section Agent

/-- The step classes of the agent, with the data that their timeouts and status updates read. -/
inductive StepClass
  | staManagement (interfaceName : Bytes) (isIpAssigned : Bool) (ipAddress : Bytes)
  | iperf (start : Bool)
  | ethLanClient (interfaceName ipAddress : Bytes)
deriving DecidableEq

/-- `wlan_ext_test_step_params_t`. -/
structure ExtStep where
  stepNumber : BitVec 32
  stepState : TestState
  timeoutCount : BitVec 32
  executionTime : BitVec 32
  fork : Bool
  artifacts : List Bytes
  cls : StepClass
deriving DecidableEq

/-- A step goes on in the background only when it was forked. -/
def goOn (inBackground : Bool) : TestState :=
  if inBackground then .wait else .cont

/-- The state after `wlan_ext_step_timeout`; `running` says whether the step's process still runs. -/
def ExtStep.timeoutState (running : Bool) (s : ExtStep) : TestState :=
  match s.cls with
  | .staManagement _ isIpAssigned _ =>
      if s.executionTime.sle (s.timeoutCount + 1) then .results else goOn (isIpAssigned && s.fork)
  | .iperf true => if running then goOn s.fork else .results
  | .iperf false => .results
  | .ethLanClient _ _ => if s.executionTime.sle (s.timeoutCount + 1) then .results else goOn s.fork

/-- `wlan_ext_step_timeout`. -/
def ExtStep.timeout (running : Bool) (s : ExtStep) : ExtStep :=
  { s with timeoutCount := s.timeoutCount + 1, stepState := s.timeoutState running }

/-- The private data of `wlan_ext_step_status_update`. -/
def StepClass.stepPrivate : StepClass → Option Json
  | .staManagement interfaceName isIpAssigned ipAddress =>
      some (.object (("InterfaceName", .string (cStr interfaceName)) ::
        if isIpAssigned then [("IpAddress", .string (cStr ipAddress))] else []))
  | .iperf _ => none
  | .ethLanClient interfaceName ipAddress =>
      some (.object [("EthInterfaceName", .string (cStr interfaceName)), ("EthIpAddress", .string (cStr ipAddress))])

/-- The item of `update_step_status_json`. -/
def ExtStep.statusJson (s : ExtStep) : Json :=
  .object ([("StepNumber", .number s.stepNumber.toNat), ("StepStatus", .string (stepStateAsString s.stepState))] ++
    (s.cls.stepPrivate.elim [] fun data => [("StepPrivateData", data)]) ++
    if s.stepState = .results then [("ResultFiles", .array (s.artifacts.map .string))] else [])

/-- Steps that wait or go on time out. -/
def ExtStep.poll (running : ExtStep → Bool) (s : ExtStep) : ExtStep :=
  if s.stepState = .wait ∨ s.stepState = .cont then s.timeout (running s) else s

/-- The loop of a tick, in its order from the last step to the first; a step in abort ends it. The flag
says that this happened. -/
def visit (running : ExtStep → Bool) : List ExtStep → List ExtStep × Bool
  | [] => ([], false)
  | s :: steps =>
      let s := s.poll running
      if s.stepState = .abort then
        ([s], true)
      else
        let (visited, aborted) := visit running steps
        (s :: visited, aborted)

/-- The host name that `agent_init` gives an agent. -/
def agentHostname : Bytes := text "ots_ext_agent"

/-- The document of a tick. -/
def agentStatus (total : ℕ) (visited : List ExtStep) (state : AgentState) : Json :=
  .object [("ExternalAgentHostName", .string agentHostname),
    ("ExternalAgentStepCount", .number (BitVec.ofNat 32 total).toInt),
    ("ExternalAgentStepStatus", .array (visited.map ExtStep.statusJson)),
    ("ExternalAgentStatus", .string (agentStateAsString state))]

/-- A tick of `test_function` with its `test_steps_q`. -/
structure Tick where
  steps : List ExtStep
  running : ExtStep → Bool
  state : AgentState

/-- The steps that the tick reports, as they are then, the last one first. -/
def Tick.reported (t : Tick) : List ExtStep :=
  (visit t.running t.steps.reverse).1

def Tick.aborted (t : Tick) : Bool :=
  (visit t.running t.steps.reverse).2

/-- The queue after the tick. -/
def Tick.after (t : Tick) : List ExtStep :=
  (t.reported ++ t.steps.reverse.drop t.reported.length).reverse

/-- An abort fails the test. -/
def Tick.agentState (t : Tick) : AgentState :=
  if t.aborted then .fail else t.state

/-- The document that the tick publishes. -/
def Tick.document (t : Tick) : Json :=
  agentStatus t.steps.length t.reported t.agentState

end Agent

/-! ### The round trip -/

section RoundTrip

/-- What the decoder is given: an encoded status, or the document of a tick. -/
inductive Publication
  | encoded (status : StatusResp)
  | ticked (t : Tick)

def Publication.document : Publication → Json
  | .encoded status => encodeStatus status
  | .ticked t => t.document

/-- The state of a step as the gateway keeps it. -/
def ExtStep.status (lib : CJson) (s : ExtStep) : StepStatus :=
  ⟨s.stepNumber, s.stepState, if s.stepState = .results then s.artifacts else [],
    s.cls.stepPrivate.elim [] lib.print⟩

/-- The status that the decoder should yield. -/
def Publication.status (lib : CJson) : Publication → StatusResp
  | .encoded status => status
  | .ticked t =>
      ⟨agentHostname, BitVec.ofNat 32 t.steps.length, t.agentState, t.after.reverse.map (ExtStep.status lib)⟩

/-- The decoder accepts the document and yields the status. -/
def RoundTrips (lib : CJson) (p : Publication) : Prop :=
  decodeExternalAgentTestStatus lib (lib.print p.document) = some (p.status lib)

/-- No encoded status; a tick whose step numbers fit an `int`, where no step in abort hides an earlier
step. -/
def Publication.Decodable : Publication → Prop
  | .encoded _ => False
  | .ticked t => (∀ s ∈ t.steps, s.stepNumber.toNat < 2 ^ 31) ∧ ∀ s ∈ t.steps.tail, s.stepState ≠ .abort

end RoundTrip

/-! ### The loop of a tick -/

section Loop

variable (running : ExtStep → Bool)

theorem poll_stepNumber (s : ExtStep) : (s.poll running).stepNumber = s.stepNumber := by
  unfold ExtStep.poll
  split_ifs <;> rfl

theorem goOn_ne_abort (inBackground : Bool) : goOn inBackground ≠ .abort := by
  cases inBackground <;> simp [goOn]

/-- A timeout never aborts a step. -/
theorem timeout_ne_abort (b : Bool) (s : ExtStep) : (s.timeout b).stepState ≠ .abort := by
  unfold ExtStep.timeout ExtStep.timeoutState
  cases s.cls with
  | staManagement _ isIpAssigned _ =>
      dsimp only
      split_ifs
      · simp
      · exact goOn_ne_abort _
  | iperf start =>
      cases start with
      | true =>
          dsimp only
          split_ifs
          · exact goOn_ne_abort _
          · simp
      | false =>
          simp
  | ethLanClient _ _ =>
      dsimp only
      split_ifs
      · simp
      · exact goOn_ne_abort _

theorem poll_abort_iff (s : ExtStep) : (s.poll running).stepState = .abort ↔ s.stepState = .abort := by
  unfold ExtStep.poll
  split_ifs with h
  · refine iff_of_false (timeout_ne_abort _ s) fun ha => ?_
    rw [ha] at h
    simp at h
  · rfl

theorem visit_append {steps : List ExtStep} (h : ∀ s ∈ steps, s.stepState ≠ .abort) (s : ExtStep) :
    (visit running (steps ++ [s])).1 = (steps ++ [s]).map (ExtStep.poll running) := by
  induction steps with
  | nil =>
      simp only [List.nil_append, visit, List.map_cons, List.map_nil]
      split_ifs <;> rfl
  | cons s' steps ih =>
      have hs : (s'.poll running).stepState ≠ .abort := fun ha => h s' (by simp) ((poll_abort_iff running s').mp ha)
      simp only [List.cons_append, visit, if_neg hs, List.map_cons]
      rw [ih fun s hs => h s (by simp [hs])]

/-- A step in abort hides what comes behind it. -/
theorem length_visit_le {steps : List ExtStep} (rest : List ExtStep) (h : ∃ s ∈ steps, s.stepState = .abort) :
    (visit running (steps ++ rest)).1.length ≤ steps.length := by
  induction steps with
  | nil =>
      simp at h
  | cons s steps ih =>
      simp only [List.cons_append, visit]
      split_ifs with hs
      · simp
      · have htail : ∃ s ∈ steps, s.stepState = .abort := by
          obtain ⟨x, hx, ha⟩ := h
          obtain rfl | hx := List.mem_cons.mp hx
          · exact absurd ((poll_abort_iff running x).mpr ha) hs
          · exact ⟨x, hx, ha⟩
        have := ih htail
        simp only [List.length_cons]
        omega

/-- The document lists all steps, unless one in abort hides an earlier one. -/
theorem Tick.reported_eq {t : Tick} (h : ∀ s ∈ t.steps.tail, s.stepState ≠ .abort) :
    t.reported = t.steps.reverse.map (ExtStep.poll t.running) := by
  unfold Tick.reported
  cases hsteps : t.steps with
  | nil =>
      rfl
  | cons s steps =>
      rw [hsteps] at h
      rw [List.reverse_cons]
      exact visit_append _ (fun s hs => h s (List.mem_reverse.mp hs)) s

theorem Tick.length_reported_lt {t : Tick} (h : ∃ s ∈ t.steps.tail, s.stepState = .abort) :
    t.reported.length < t.steps.length := by
  unfold Tick.reported
  cases hsteps : t.steps with
  | nil =>
      simp [hsteps] at h
  | cons s steps =>
      rw [hsteps, List.tail_cons] at h
      obtain ⟨x, hx, ha⟩ := h
      have := length_visit_le t.running [s] ⟨x, List.mem_reverse.mpr hx, ha⟩
      rw [List.length_reverse] at this
      rw [List.reverse_cons, List.length_cons]
      omega

theorem Tick.after_reverse (t : Tick) : t.after.reverse = t.reported ++ t.steps.reverse.drop t.reported.length :=
  List.reverse_reverse _

end Loop

/-! ### Decoding -/

section Decoding

variable {lib : CJson}

/-- Nothing that the encoder writes is accepted. -/
theorem decodeStatus_encodeStatus (status : StatusResp) : decodeStatus lib (encodeStatus status) = none := by
  have hname : decodeParamString (encodeStatus status) "ExternalAgentHostName" = none := by
    simp [decodeParamString, encodeStatus]
  simp [decodeStatus, hname]

/-- What the decoder reads of a step, with its number as an `int`. -/
theorem decodeStep_statusJson (s : ExtStep) :
    decodeStep lib s.statusJson = some { s.status lib with stepNumber := valueint s.stepNumber.toNat } := by
  have hnumber : decodeParamInteger s.statusJson "StepNumber" = some (s.stepNumber.toNat : ℤ) :=
    decodeParamInteger_of_item (by simp [ExtStep.statusJson])
  have hstatus : decodeParamString s.statusJson "StepStatus" = some (stepStateAsString s.stepState) := by
    rw [decodeParamString_of_item (s := stepStateAsString s.stepState) (by simp [ExtStep.statusJson]),
      if_neg (stepStateAsString_ne_nil _)]
  have hprivate : decodePrivate lib s.statusJson = s.cls.stepPrivate.elim [] lib.print := by
    unfold decodePrivate ExtStep.statusJson
    cases s.cls.stepPrivate with
    | none =>
        by_cases hres : s.stepState = .results
        · simp [hres]
        · simp [hres]
    | some data =>
        simp
  have hfiles : decodeFiles s.statusJson s.stepState = some (if s.stepState = .results then s.artifacts else []) := by
    unfold decodeFiles
    by_cases hres : s.stepState = .results
    · have harr : decodeParamArray s.statusJson "ResultFiles" = some (s.artifacts.map .string) := by
        apply decodeParamArray_of_item
        unfold ExtStep.statusJson
        cases s.cls.stepPrivate with
        | none =>
            simp [hres]
        | some data =>
            simp [hres]
      rw [if_pos hres, if_pos hres, harr, Option.bind_some, mapM_validate]
    · rw [if_neg hres, if_neg hres]
  simp only [decodeStep, hnumber, hstatus, stepStateAsEnum_asString, hfiles, hprivate, Option.bind_eq_bind,
    Option.bind_some]
  rfl

theorem mapM_decodeStep (steps : List ExtStep) : (steps.map ExtStep.statusJson).mapM (decodeStep lib) =
    some (steps.map fun s => { s.status lib with stepNumber := valueint s.stepNumber.toNat }) := by
  induction steps with
  | nil =>
      rfl
  | cons s steps ih =>
      simp [List.mapM_cons, decodeStep_statusJson, ih]

/-- What the decoder reads of a tick. -/
theorem decodeStatus_document (t : Tick) : decodeStatus lib t.document =
    some ⟨agentHostname, BitVec.ofNat 32 t.steps.length, t.agentState,
      t.reported.map fun s => { s.status lib with stepNumber := valueint s.stepNumber.toNat }⟩ := by
  have hname : decodeParamString t.document "ExternalAgentHostName" = some agentHostname := rfl
  have hcount : decodeParamInteger t.document "ExternalAgentStepCount" =
      some (BitVec.ofNat 32 t.steps.length).toInt :=
    decodeParamInteger_of_item (by simp [Tick.document, agentStatus])
  have hstate : decodeParamString t.document "ExternalAgentStatus" = some (agentStateAsString t.agentState) := by
    rw [decodeParamString_of_item (s := agentStateAsString t.agentState)
      (by simp [Tick.document, agentStatus]), if_neg (agentStateAsString_ne_nil _)]
  have harr : decodeParamArray t.document "ExternalAgentStepStatus" = some (t.reported.map ExtStep.statusJson) :=
    decodeParamArray_of_item (by simp [Tick.document, agentStatus])
  simp only [decodeStatus, hname, hcount, hstate, harr, mapM_decodeStep, agentStateAsEnum_asString, valueint_toInt,
    Option.bind_eq_bind, Option.bind_some]

/-- Step numbers come back when they fit an `int`. -/
theorem map_status_eq_iff (steps : List ExtStep) :
    (steps.map fun s => { s.status lib with stepNumber := valueint s.stepNumber.toNat }) =
      steps.map (ExtStep.status lib) ↔ ∀ s ∈ steps, s.stepNumber.toNat < 2 ^ 31 := by
  rw [List.map_inj_left]
  refine forall₂_congr fun s _ => ?_
  rw [← valueint_eq_iff]
  constructor
  · intro h
    exact congrArg StepStatus.stepNumber h
  · intro h
    rw [h]
    rfl

/-- The steps of a tick come back when all are reported and their numbers fit an `int`. -/
theorem reported_eq_after_iff (lib : CJson) (t : Tick) :
    (t.reported.map fun s => { s.status lib with stepNumber := valueint s.stepNumber.toNat }) =
      t.after.reverse.map (ExtStep.status lib) ↔ (Publication.ticked t).Decodable := by
  unfold Publication.Decodable
  by_cases habort : ∃ s ∈ t.steps.tail, s.stepState = .abort
  · refine iff_of_false (fun h => ?_) fun ⟨_, hno⟩ => ?_
    · have hlt := t.length_reported_lt habort
      have hlen := congrArg List.length h
      rw [t.after_reverse] at hlen
      simp only [List.length_map, List.length_append, List.length_drop, List.length_reverse] at hlen
      omega
    · obtain ⟨s, hs, ha⟩ := habort
      exact hno s hs ha
  · have hno : ∀ s ∈ t.steps.tail, s.stepState ≠ .abort := fun s hs ha => habort ⟨s, hs, ha⟩
    have hrep := t.reported_eq hno
    have hall : t.after.reverse = t.reported := by
      rw [t.after_reverse, hrep, List.length_map, List.drop_length, List.append_nil]
    rw [hall, map_status_eq_iff, hrep]
    simp only [List.forall_mem_map, poll_stepNumber, List.mem_reverse]
    exact ⟨fun h => ⟨h, hno⟩, And.left⟩

/-- **The status round trip**: with a library that reads back what it printed, an encoded status is
never accepted, and a published document comes back exactly when the step numbers fit an `int` and no
step in abort hides an earlier one. -/
theorem roundTrips_iff_decodable (lib : CJson) (p : Publication) (hlib : Reads lib p.document) :
    RoundTrips lib p ↔ p.Decodable := by
  unfold RoundTrips decodeExternalAgentTestStatus
  rw [hlib, Option.bind_some]
  cases p with
  | encoded status =>
      simp [Publication.document, Publication.Decodable, decodeStatus_encodeStatus]
  | ticked t =>
      rw [Publication.document, decodeStatus_document, ← reported_eq_after_iff lib]
      simp [Publication.status]

end Decoding

/-! ### Documents -/

section Examples

/-- A station that waits and an iperf server whose process has ended. -/
def twoSteps : Tick where
  steps := [⟨4, .wait, 0, 60, true, [], .staManagement (text "wlan0") true (text "10.0.0.7")⟩,
    ⟨5, .cont, 2, 5, false, [text "/tmp/cci_res/1_5.txt"], .iperf true⟩]
  running := fun _ => false
  state := .running

/-- What the library prints for `twoSteps`. -/
def twoStepsText : String :=
  braces (
    "\n\t\"ExternalAgentHostName\":\t\"ots_ext_agent\",\n\t\"ExternalAgentStepCount\":\t2,\n" ++
    "\t\"ExternalAgentStepStatus\":\t[" ++
    braces ("\n\t\t\t\"StepNumber\":\t5,\n\t\t\t\"StepStatus\":\t\"results\",\n" ++
      "\t\t\t\"ResultFiles\":\t[\"/tmp/cci_res/1_5.txt\"]\n\t\t") ++ ", " ++
    braces ("\n\t\t\t\"StepNumber\":\t4,\n\t\t\t\"StepStatus\":\t\"wait\",\n\t\t\t\"StepPrivateData\":\t" ++
      braces "\n\t\t\t\t\"InterfaceName\":\t\"wlan0\",\n\t\t\t\t\"IpAddress\":\t\"10.0.0.7\"\n\t\t\t" ++ "\n\t\t") ++
    "],\n\t\"ExternalAgentStatus\":\t\"running\"\n")

theorem libOf_reads_self (json : Json) (s : String) : Reads (libOf json s) json :=
  if_pos rfl

theorem roundTrips_twoSteps : RoundTrips (libOf twoSteps.document twoStepsText) (.ticked twoSteps) :=
  (roundTrips_iff_decodable _ (.ticked twoSteps) (libOf_reads_self _ _)).mpr ⟨by simp [twoSteps], by simp [twoSteps]⟩

/-- The status of an idle agent without steps. -/
def idleStatus : StatusResp :=
  ⟨text "ots_ext_agent", 0, .idle, []⟩

def idleText : String :=
  braces (
    "\n\t\"ExternalAgentName\":\t\"ots_ext_agent\",\n\t\"ExternalAgentStepCount\":\t0,\n" ++
    "\t\"ExternalAgentStatus\":\t\"idle\",\n\t\"ExternalAgentStepStatus\":\t[]\n")

/-- An encoded status is not accepted. -/
theorem not_roundTrips_idleStatus :
    Reads (libOf (encodeStatus idleStatus) idleText) (encodeStatus idleStatus) ∧
      ¬ RoundTrips (libOf (encodeStatus idleStatus) idleText) (.encoded idleStatus) := by
  refine ⟨libOf_reads_self _ _, ?_⟩
  unfold RoundTrips decodeExternalAgentTestStatus
  rw [Publication.document, libOf_reads_self, Option.bind_some, decodeStatus_encodeStatus]
  simp

end Examples

end OneWifiTestSuite.AgentStatus
