import OneWifiTestSuite.StepSubdoc

/-!
# The subdocuments of an iperf step

A client or server step starts iperf on an external agent, and a later step of the same class stops it. The
gateway appends the addresses to the options, and the agent copies the command into 128 bytes; the stop document
has no interface type, so the agent's stop step has none. `iperf_transfers` says what the agent gets from both.
-/

namespace OneWifiTestSuite.IperfSubdoc

open ByteRegion CStrings RebootFile AgentJson StepSubdoc

/-! ### The gateway -/

section Gateway

/-- The two classes, which differ in their keys and in the end of the command. -/
inductive Role
  | client
  | server
deriving DecidableEq

def Role.stepClass : Role → StepClass
  | .client => .iperfClient
  | .server => .iperfServer

def Role.operationKey : Role → String
  | .client => "IperfClientOperation"
  | .server => "IperfServerOperation"

def Role.cmdKey : Role → String
  | .client => "IperfClientCmd"
  | .server => "IperfServerCmd"

def Role.stopKey : Role → String
  | .client => "StopClientStepNumber"
  | .server => "StopServerStepNumber"

/-- `iperf_operation_type_t`. -/
def operationStart : ℤ := 1

def operationStop : ℤ := 2

/-- `interface_type_t`. -/
inductive InterfaceType
  | ethernet
  | wifi
deriving DecidableEq

def InterfaceType.value : InterfaceType → ℤ
  | .ethernet => 1
  | .wifi => 2

/-- The fields of a step that all subdocuments have. -/
structure StepCommon where
  stepNumber : BitVec 32
  fork : Bool
  testCaseId : Name 8
  testCaseName : Name 128

/-- The interface step: its type, its station or interface name and its address. -/
structure Interface where
  type : InterfaceType
  name : CText
  ipAddress : CText

/-- A start step that the decoder accepted, with the address of the server's interface (which a server step does
not use). The encoder of a client refuses a Wi-Fi interface without an address. -/
structure StartStep (role : Role) where
  common : StepCommon
  cmdOptions : Name 128
  inputFilename : Name 128
  interface : Interface
  serverIpAddress : CText
  addressed : role = .client → interface.type = .wifi → ∃ b ∈ interface.ipAddress.1, b ≠ 32

variable {role : Role}

/-- `client_cmd` and `server_cmd`. -/
def StartStep.command (step : StartStep role) : Bytes :=
  match role with
  | .client => step.cmdOptions.1 ++ text " -B " ++ step.interface.ipAddress.1 ++ text " -c " ++ step.serverIpAddress.1
  | .server => step.cmdOptions.1 ++ text " -s -B " ++ step.interface.ipAddress.1

/-- The start documents of both classes. -/
def encodeStart (step : StartStep role) : Json :=
  .object [("SubDocName", .string (subDocName role.stepClass)), ("StepNumber", .number step.common.stepNumber.toNat),
    (role.operationKey, .number operationStart), ("Fork", .bool step.common.fork),
    ("StationName", .string step.interface.name.1), ("TestCaseID", .string step.common.testCaseId.1),
    ("TestCaseName", .string step.common.testCaseName.1), (role.cmdKey, .string step.command),
    ("InputLogFileName", .string step.inputFilename.1), ("InterfaceType", .number step.interface.type.value)]

/-- The stop documents of both classes. -/
def encodeStop (role : Role) (step : StepCommon) (stopStepNumber : BitVec 32) : Json :=
  .object [("SubDocName", .string (subDocName role.stepClass)), ("StepNumber", .number step.stepNumber.toNat),
    ("Fork", .bool step.fork), (role.operationKey, .number operationStop),
    ("TestCaseID", .string step.testCaseId.1), ("TestCaseName", .string step.testCaseName.1),
    (role.stopKey, .number stopStepNumber.toNat)]

/-- `encode_external_iperf_client_start_subdoc`. -/
def encodeExternalIperfClientStart (step : StartStep .client) : Json :=
  encodeStart step

/-- `encode_external_iperf_client_stop_subdoc`. -/
def encodeExternalIperfClientStop (step : StepCommon) (stopStepNumber : BitVec 32) : Json :=
  encodeStop .client step stopStepNumber

/-- `encode_external_iperf_server_start_subdoc`. -/
def encodeExternalIperfServerStart (step : StartStep .server) : Json :=
  encodeStart step

/-- `encode_external_iperf_server_stop_subdoc`. -/
def encodeExternalIperfServerStop (step : StepCommon) (stopStepNumber : BitVec 32) : Json :=
  encodeStop .server step stopStepNumber

end Gateway

/-! ### The agent -/

section Agent

/-- The agent's step with its `iperf_client_t` or `iperf_server_t`. The number of a stop step shares its memory
with a start field that is not used here. -/
structure AgentStep where
  common : Common
  inputOperation : ℤ
  interfaceType : ℤ
  cmdOptions : CharArray 128
  inputFilename : CharArray 128
  stopStepNumber : BitVec 32

/-- The constructors clear the iperf record. -/
def newStep (common : Common) : AgentStep :=
  ⟨common, 0, 0, zeros 128, zeros 128, 0⟩

/-- `wlan_ext_step_decode_client_start` and `wlan_ext_step_decode_server_start`. -/
def decodeStart (role : Role) (root : Json) (s : AgentStep) : Option AgentStep := do
  let cmd ← decodeParamString root role.cmdKey
  let file ← decodeParamString root "InputLogFileName"
  let type ← decodeParamInteger root "InterfaceType"
  some { s with
    cmdOptions := copyString s.cmdOptions cmd
    inputFilename := copyString s.inputFilename file
    interfaceType := type }

/-- `wlan_ext_step_decode_client_stop` and `wlan_ext_step_decode_server_stop`. -/
def decodeStop (role : Role) (root : Json) (s : AgentStep) : Option AgentStep := do
  let number ← decodeParamInteger root role.stopKey
  some { s with stopStepNumber := valuedouble number }

/-- `wlan_ext_step_decode_subdocument`. -/
def decodeSubdocument (role : Role) (root : Json) (s : AgentStep) : Option AgentStep := do
  let operation ← decodeParamInteger root role.operationKey
  if operation = operationStart then decodeStart role root { s with inputOperation := operation }
  else if operation = operationStop then decodeStop role root { s with inputOperation := operation }
  else none

/-- `decode_step_param_ext_sta_iperf_client` and `decode_step_param_ext_sta_iperf_server`. -/
def decodeStepParamExtStaIperf (role : Role) (memory : Common) (root : Json) : Option AgentStep := do
  let common ← decodeStepParamCommon root { memory with captureFrames := false }
  decodeSubdocument role root (newStep common)

/-- The agent: the memory of new steps, its other classes and what the caller's pointer points to. -/
structure Agent where
  memory : Common
  others : StepClass → Json → Option AgentStep
  pointer : AgentStep

def Agent.decoders (agent : Agent) : StepClass → Json → Option AgentStep
  | .iperfClient => decodeStepParamExtStaIperf .client agent.memory
  | .iperfServer => decodeStepParamExtStaIperf .server agent.memory
  | c => agent.others c

/-- `decode_step_param` of the agent. -/
def Agent.decode (agent : Agent) (lib : CJson) (json : Json) : Option AgentStep :=
  decodeStepParam lib agent.decoders agent.pointer (lib.print json)

/-- `wlan_ext_step_execute` runs its command in the namespace of the test devices. -/
def AgentStep.entersNamespace (s : AgentStep) : Bool :=
  s.interfaceType = InterfaceType.value .ethernet

end Agent

/-! ### Decoding -/

section Decoding

variable {role : Role} {lib : CJson}

theorem command_ne_nil (step : StartStep role) : step.command ≠ [] := by
  have hne := step.cmdOptions.2.2.2
  cases role <;> simp [StartStep.command, hne]

theorem zero_notMem_command (step : StartStep role) : 0 ∉ step.command := by
  have hcmd := step.cmdOptions.2.1
  have hip := step.interface.ipAddress.2
  have hserver := step.serverIpAddress.2
  have hbind : (0 : UInt8) ∉ text " -B " ∧ (0 : UInt8) ∉ text " -c " ∧ (0 : UInt8) ∉ text " -s -B " := by
    decide +kernel
  cases role with
  | client =>
      simp only [StartStep.command, List.mem_append, not_or]
      exact ⟨⟨⟨⟨hcmd, hbind.1⟩, hip⟩, hbind.2.1⟩, hserver⟩
  | server =>
      simp only [StartStep.command, List.mem_append, not_or]
      exact ⟨⟨hcmd, hbind.2.2⟩, hip⟩

/-- What `decode_step_param_common` makes of both documents. -/
def receivedCommon (memory : Common) (step : StepCommon) : Common :=
  ⟨valueint step.stepNumber.toNat, copyString memory.testCaseName step.testCaseName.1,
    copyString memory.testCaseId step.testCaseId.1, step.fork, false, noFrames⟩

/-- A document with the common keys, and without a capture request. -/
theorem decodeCommon_of_items {json : Json} {step : StepCommon} {memory : Common}
    (hnumber : json.getObjectItem "StepNumber" = some (.number step.stepNumber.toNat))
    (hname : json.getObjectItem "TestCaseName" = some (.string step.testCaseName.1))
    (hid : json.getObjectItem "TestCaseID" = some (.string step.testCaseId.1))
    (hfork : json.getObjectItem "Fork" = some (.bool step.fork)) (hcapture : json.getObjectItem "TestCapture" = none) :
    decodeStepParamCommon json { memory with captureFrames := false } = some (receivedCommon memory step) := by
  unfold decodeStepParamCommon decodeCapture
  simp only [decodeParamInteger_of_item hnumber, decodeParamString_of_item hname, decodeParamString_of_item hid,
    decodeParamBool_of_item hfork, hcapture, if_neg step.testCaseName.2.2.2, if_neg step.testCaseId.2.2.2,
    Option.bind_eq_bind, Option.bind_some]
  rfl

/-- The agent's start step. -/
def started (memory : Common) (step : StartStep role) : AgentStep where
  common := receivedCommon memory step.common
  inputOperation := operationStart
  interfaceType := step.interface.type.value
  cmdOptions := copyString (zeros 128) step.command
  inputFilename := copyString (zeros 128) step.inputFilename.1
  stopStepNumber := 0

/-- The agent's stop step; no interface type was sent. -/
def stopped (memory : Common) (step : StepCommon) (stopStepNumber : BitVec 32) : AgentStep where
  common := receivedCommon memory step
  inputOperation := operationStop
  interfaceType := 0
  cmdOptions := zeros 128
  inputFilename := zeros 128
  stopStepNumber := stopStepNumber

theorem decodeIperf_encodeStart (memory : Common) (step : StartStep role) :
    decodeStepParamExtStaIperf role memory (encodeStart step) = some (started memory step) := by
  have hcommon : decodeStepParamCommon (encodeStart step) { memory with captureFrames := false } =
      some (receivedCommon memory step.common) := by
    refine decodeCommon_of_items ?_ ?_ ?_ ?_ ?_ <;> cases role <;> simp [encodeStart, Role.operationKey, Role.cmdKey]
  have hoperation : decodeParamInteger (encodeStart step) role.operationKey = some operationStart :=
    decodeParamInteger_of_item (by cases role <;> simp [encodeStart, Role.operationKey])
  have hcmd : decodeParamString (encodeStart step) role.cmdKey = some step.command := by
    rw [decodeParamString_of_item (s := step.command)
      (by cases role <;> simp [encodeStart, Role.operationKey, Role.cmdKey]), if_neg (command_ne_nil step)]
  have hfile : decodeParamString (encodeStart step) "InputLogFileName" = some step.inputFilename.1 := by
    rw [decodeParamString_of_item (s := step.inputFilename.1)
      (by cases role <;> simp [encodeStart, Role.operationKey, Role.cmdKey]), if_neg step.inputFilename.2.2.2]
  have htype : decodeParamInteger (encodeStart step) "InterfaceType" = some step.interface.type.value :=
    decodeParamInteger_of_item (by cases role <;> simp [encodeStart, Role.operationKey, Role.cmdKey])
  unfold decodeStepParamExtStaIperf decodeSubdocument decodeStart
  simp only [hcommon, hoperation, hcmd, hfile, htype, Option.bind_eq_bind, Option.bind_some, if_true]
  rfl

theorem decodeIperf_encodeStop (memory : Common) (step : StepCommon) (stopStepNumber : BitVec 32) :
    decodeStepParamExtStaIperf role memory (encodeStop role step stopStepNumber) =
      some (stopped memory step stopStepNumber) := by
  have hcommon : decodeStepParamCommon (encodeStop role step stopStepNumber) { memory with captureFrames := false } =
      some (receivedCommon memory step) := by
    refine decodeCommon_of_items ?_ ?_ ?_ ?_ ?_ <;> cases role <;> simp [encodeStop, Role.operationKey, Role.stopKey]
  have hoperation : decodeParamInteger (encodeStop role step stopStepNumber) role.operationKey = some operationStop :=
    decodeParamInteger_of_item (by cases role <;> simp [encodeStop, Role.operationKey])
  have hnumber : decodeParamInteger (encodeStop role step stopStepNumber) role.stopKey =
      some (stopStepNumber.toNat : ℤ) :=
    decodeParamInteger_of_item (by cases role <;> simp [encodeStop, Role.operationKey, Role.stopKey])
  unfold decodeStepParamExtStaIperf decodeSubdocument decodeStop
  simp only [hcommon, hoperation, hnumber, Option.bind_eq_bind, Option.bind_some, valuedouble_toNat]
  rfl

theorem decoders_stepClass (agent : Agent) (role : Role) :
    agent.decoders role.stepClass = decodeStepParamExtStaIperf role agent.memory := by
  cases role <;> rfl

theorem decode_encodeStart {step : StartStep role} (agent : Agent) (hlib : Reads lib (encodeStart step))
    (hnul : 0 ∉ lib.print (encodeStart step)) :
    agent.decode lib (encodeStart step) = some (started agent.memory step) := by
  rw [Agent.decode, decodeStepParam_print agent.decoders agent.pointer role.stepClass hlib hnul (by simp [encodeStart]),
    decoders_stepClass, decodeIperf_encodeStart]

theorem decode_encodeStop {step : StepCommon} {stopStepNumber : BitVec 32} (agent : Agent)
    (hlib : Reads lib (encodeStop role step stopStepNumber)) (hnul : 0 ∉ lib.print (encodeStop role step stopStepNumber)) :
    agent.decode lib (encodeStop role step stopStepNumber) = some (stopped agent.memory step stopStepNumber) := by
  rw [Agent.decode, decodeStepParam_print agent.decoders agent.pointer role.stepClass hlib hnul (by simp [encodeStop]),
    decoders_stepClass, decodeIperf_encodeStop]

end Decoding

/-! ### The round trip -/

section RoundTrip

variable {role : Role} {lib : CJson} {agent : Agent}

/-- The agent's start step has the gateway's command, log name and interface type. -/
def StartTransfers (lib : CJson) (agent : Agent) (step : StartStep role) : Prop :=
  ∃ s, agent.decode lib (encodeStart step) = some s ∧ cstr s.cmdOptions = some step.command ∧
    cstr s.inputFilename = some step.inputFilename.1 ∧ s.interfaceType = step.interface.type.value

/-- The agent's stop step names the start step, and has the interface type of it. -/
def StopTransfers (lib : CJson) (agent : Agent) (step : StartStep role) (stop : StepCommon) : Prop :=
  ∃ s t, agent.decode lib (encodeStart step) = some s ∧
    agent.decode lib (encodeStop role stop step.common.stepNumber) = some t ∧
    t.stopStepNumber = step.common.stepNumber ∧ t.interfaceType = s.interfaceType

/-- The agent's start and stop steps enter the same namespaces. -/
def SameNamespace (lib : CJson) (agent : Agent) (step : StartStep role) (stop : StepCommon) : Prop :=
  ∃ s t, agent.decode lib (encodeStart step) = some s ∧
    agent.decode lib (encodeStop role stop step.common.stepNumber) = some t ∧
    t.entersNamespace = s.entersNamespace

theorem startTransfers_iff {step : StartStep role} (hlib : Reads lib (encodeStart step))
    (hnul : 0 ∉ lib.print (encodeStart step)) : StartTransfers lib agent step ↔ step.command.length < 128 := by
  have hcmd : cstr (copyString (zeros 128) step.command) = some (step.command.take 127) :=
    cstr_copyString_zeros (zero_notMem_command step) (by decide)
  have hfile : cstr (copyString (zeros 128) step.inputFilename.1) = some step.inputFilename.1 := by
    have hlen := step.inputFilename.2.2.1
    rw [cstr_copyString_zeros step.inputFilename.2.1 (by decide), List.take_of_length_le (by omega)]
  unfold StartTransfers
  rw [decode_encodeStart agent hlib hnul]
  constructor
  · rintro ⟨s, hs, hcommand, -⟩
    cases hs
    have heq : step.command.take 127 = step.command := Option.some.inj (hcmd.symm.trans hcommand)
    have hlen := congrArg List.length heq
    rw [List.length_take] at hlen
    omega
  · intro hlen
    refine ⟨_, rfl, hcmd.trans ?_, hfile, rfl⟩
    rw [List.take_of_length_le (by omega)]

theorem not_stopTransfers {step : StartStep role} {stop : StepCommon} (hstart : Reads lib (encodeStart step))
    (hstartNul : 0 ∉ lib.print (encodeStart step))
    (hstop : Reads lib (encodeStop role stop step.common.stepNumber))
    (hstopNul : 0 ∉ lib.print (encodeStop role stop step.common.stepNumber)) :
    ¬ StopTransfers lib agent step stop := by
  rintro ⟨s, t, hs, ht, -, htype⟩
  rw [decode_encodeStart agent hstart hstartNul] at hs
  rw [decode_encodeStop agent hstop hstopNul] at ht
  cases hs
  cases ht
  change (0 : ℤ) = step.interface.type.value at htype
  cases hi : step.interface.type <;> rw [hi] at htype <;> cases htype

theorem sameNamespace_iff {step : StartStep role} {stop : StepCommon} (hstart : Reads lib (encodeStart step))
    (hstartNul : 0 ∉ lib.print (encodeStart step))
    (hstop : Reads lib (encodeStop role stop step.common.stepNumber))
    (hstopNul : 0 ∉ lib.print (encodeStop role stop step.common.stepNumber)) :
    SameNamespace lib agent step stop ↔ step.interface.type = .wifi := by
  unfold SameNamespace
  rw [decode_encodeStart agent hstart hstartNul, decode_encodeStop agent hstop hstopNul]
  constructor
  · rintro ⟨s, t, hs, ht, hsame⟩
    cases hs
    cases ht
    change false = decide (step.interface.type.value = _) at hsame
    cases hi : step.interface.type with
    | wifi =>
        rfl
    | ethernet =>
        rw [hi] at hsame
        cases hsame
  · intro hi
    refine ⟨_, _, rfl, rfl, ?_⟩
    show false = decide (step.interface.type.value = _)
    rw [hi]
    rfl

/-- **iperf subdocuments**: a start step arrives as it is exactly when its command has at most 127 bytes, and no
stop step has the interface type of its start step; the namespace agrees for Wi-Fi only. -/
theorem iperf_transfers {step : StartStep role} {stop : StepCommon} (hstart : Reads lib (encodeStart step))
    (hstartNul : 0 ∉ lib.print (encodeStart step))
    (hstop : Reads lib (encodeStop role stop step.common.stepNumber))
    (hstopNul : 0 ∉ lib.print (encodeStop role stop step.common.stepNumber)) :
    (StartTransfers lib agent step ↔ step.command.length < 128) ∧
      ¬ (StartTransfers lib agent step ∧ StopTransfers lib agent step stop) ∧
      (SameNamespace lib agent step stop ↔ step.interface.type = .wifi) :=
  ⟨startTransfers_iff hstart hstartNul, fun h => not_stopTransfers hstart hstartNul hstop hstopNul h.2,
    sameNamespace_iff hstart hstartNul hstop hstopNul⟩

end RoundTrip

/-! ### A client on a LAN interface -/

section Examples

theorem lanName_no_nul : 0 ∉ text "lan3" := by
  decide

theorem lanAddress_no_nul : 0 ∉ text "10.0.0.3" := by
  decide

/-- A client that sends for ten seconds from an Ethernet interface. -/
def lanStart : StartStep .client where
  common := ⟨5, true, ⟨text "TC7", by decide⟩, ⟨text "NC1-Private", by decide⟩⟩
  cmdOptions := ⟨text "-t 10", by decide⟩
  inputFilename := ⟨text "iperf_client", by decide⟩
  interface := ⟨.ethernet, ⟨text "lan3", lanName_no_nul⟩, ⟨text "10.0.0.3", lanAddress_no_nul⟩⟩
  serverIpAddress := ⟨text "10.0.0.4", by decide⟩
  addressed := fun _ h => by cases h

def lanStop : StepCommon :=
  ⟨6, false, ⟨text "TC7", by decide⟩, ⟨text "NC1-Private", by decide⟩⟩

/-- What the library prints for the start document. -/
def lanStartText : Bytes :=
  lbrace ++ text "\n\t\"SubDocName\":\t\"ExternalIperfClient\",\n\t\"StepNumber\":\t5,\n" ++
  text "\t\"IperfClientOperation\":\t1,\n\t\"Fork\":\ttrue,\n\t\"StationName\":\t\"lan3\",\n" ++
  text "\t\"TestCaseID\":\t\"TC7\",\n\t\"TestCaseName\":\t\"NC1-Private\",\n" ++
  text "\t\"IperfClientCmd\":\t\"-t 10 -B 10.0.0.3 -c 10.0.0.4\",\n" ++
  text "\t\"InputLogFileName\":\t\"iperf_client\",\n\t\"InterfaceType\":\t1\n" ++ rbrace

/-- What the library prints for the stop document. -/
def lanStopText : Bytes :=
  lbrace ++ text "\n\t\"SubDocName\":\t\"ExternalIperfClient\",\n\t\"StepNumber\":\t6,\n\t\"Fork\":\tfalse,\n" ++
  text "\t\"IperfClientOperation\":\t2,\n\t\"TestCaseID\":\t\"TC7\",\n" ++
  text "\t\"TestCaseName\":\t\"NC1-Private\",\n\t\"StopClientStepNumber\":\t5\n" ++ rbrace

/-- A library on a start and a stop document; only the start document has an interface type. -/
def pairLib (start stop : Json) (startText stopText : Bytes) : CJson where
  print json := if (json.getObjectItem "InterfaceType").isSome then startText else stopText
  parse file := if file = startText then some start else if file = stopText then some stop else none

theorem pairLib_print_start {start stop : Json} {startText stopText : Bytes}
    (h : (start.getObjectItem "InterfaceType").isSome = true) :
    (pairLib start stop startText stopText).print start = startText :=
  if_pos h

theorem pairLib_print_stop {start stop : Json} {startText stopText : Bytes}
    (h : ¬ (stop.getObjectItem "InterfaceType").isSome = true) :
    (pairLib start stop startText stopText).print stop = stopText :=
  if_neg h

theorem pairLib_parse {start stop : Json} {startText stopText : Bytes} (hne : stopText ≠ startText) :
    (pairLib start stop startText stopText).parse startText = some start ∧
      (pairLib start stop startText stopText).parse stopText = some stop :=
  ⟨if_pos rfl, (if_neg hne).trans (if_pos rfl)⟩

def lanLib : CJson :=
  pairLib (encodeExternalIperfClientStart lanStart) (encodeExternalIperfClientStop lanStop 5) lanStartText lanStopText

def lanAgent : Agent :=
  ⟨⟨0, zeros 128, zeros 8, false, false, noFrames⟩, fun _ _ => none,
    newStep ⟨0, zeros 128, zeros 8, false, false, noFrames⟩⟩

theorem lanText_no_nul : 0 ∉ lanStartText ∧ 0 ∉ lanStopText ∧ lanStopText ≠ lanStartText := by
  have hne : lanStopText ≠ lanStartText := by
    decide +kernel
  rw [← and_assoc, and_iff_left hne]
  simp only [lanStartText, lanStopText, List.mem_append, not_or]
  repeat' apply And.intro
  all_goals exact notMem_text rfl

theorem lanStart_print : lanLib.print (encodeStart lanStart) = lanStartText :=
  pairLib_print_start (by decide +kernel)

theorem lanStop_print : lanLib.print (encodeStop .client lanStop lanStart.common.stepNumber) = lanStopText :=
  pairLib_print_stop (by decide +kernel)

theorem lanStart_reads : Reads lanLib (encodeStart lanStart) := by
  rw [Reads, lanStart_print]
  exact (pairLib_parse lanText_no_nul.2.2).1

theorem lanStop_reads : Reads lanLib (encodeStop .client lanStop lanStart.common.stepNumber) := by
  rw [Reads, lanStop_print]
  exact (pairLib_parse lanText_no_nul.2.2).2

theorem lanStart_no_nul : 0 ∉ lanLib.print (encodeStart lanStart) := by
  rw [lanStart_print]
  exact lanText_no_nul.1

theorem lanStop_no_nul : 0 ∉ lanLib.print (encodeStop .client lanStop lanStart.common.stepNumber) := by
  rw [lanStop_print]
  exact lanText_no_nul.2.1

theorem iperf_transfers_lan : StartTransfers lanLib lanAgent lanStart ∧
    ¬ (StartTransfers lanLib lanAgent lanStart ∧ StopTransfers lanLib lanAgent lanStart lanStop) :=
  ⟨(iperf_transfers lanStart_reads lanStart_no_nul lanStop_reads lanStop_no_nul).1.mpr (by decide +kernel),
    (iperf_transfers lanStart_reads lanStart_no_nul lanStop_reads lanStop_no_nul).2.1⟩

/-- The stop step of an Ethernet client has no interface type, and stops iperf in another namespace. -/
theorem not_stopTransfers_lan : ¬ StopTransfers lanLib lanAgent lanStart lanStop ∧
    ¬ SameNamespace lanLib lanAgent lanStart lanStop :=
  ⟨not_stopTransfers lanStart_reads lanStart_no_nul lanStop_reads lanStop_no_nul,
    fun h => by cases (sameNamespace_iff lanStart_reads lanStart_no_nul lanStop_reads lanStop_no_nul).mp h⟩

end Examples

end OneWifiTestSuite.IperfSubdoc
