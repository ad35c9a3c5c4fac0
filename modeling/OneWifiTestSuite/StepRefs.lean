import OneWifiTestSuite.StatsGet

/-!
# References between steps

A step names other steps by their number: a stop names the step that it ends, an iperf step the steps
whose interface it uses, a reboot step the steps whose logging it pauses. `step_execute` looks the number
up and reads the member of the union `u` that the referenced step should have. Only the interface steps
have their `param_type` looked at first.

`TypeSafe` asks for that of every reference. `typeSafe_iff` is the exact condition on the steps and
`refsRight_of_run` a condition on a configuration that no run of its steps destroys.
-/

namespace OneWifiTestSuite.StepRefs

open ByteRegion RebootFile AgentJson RebootResume Runs Steps StatsGet

/-! ### Steps -/

section Code

/-- The values of `step_param_type_t` whose steps neither name a step nor are named for their member, but
for the two kinds of interface steps. -/
inductive PlainType
  | radio
  | vap
  | stationManagement
  | time
  | command
  | dmlSubdoc
  | dmlReset
  | statsSet
  | getFile
  | mgmtFrameCapture
  | getPatternFiles
  | timedWait
  | configOnewifi
  | gatewayPerformance
  | packetGenerator
  | ethernetLanInterface
deriving DecidableEq, Repr

/-- `step_param_type_t`. -/
inductive ParamType
  | plain (t : PlainType)
  | logRedirection
  | statsGet
  | configIperfServer
  | configIperfClient
  | upgradeOrReboot
deriving DecidableEq, Repr

/-- The members of `u` that a step reads of another step. -/
inductive Member
  | staTest
  | logCapture
  | iperfServer
  | iperfClient
  | ethLanClient
deriving DecidableEq, Repr

/-- The type of the steps that have the member. -/
def Member.paramType : Member → ParamType
  | .staTest => .plain .stationManagement
  | .logCapture => .logRedirection
  | .iperfServer => .configIperfServer
  | .iperfClient => .configIperfClient
  | .ethLanClient => .plain .ethernetLanInterface

/-- `iperf_server_t`; `real` is `client_connection_type_real`. -/
inductive IperfServer
  | start (interfaceStepNumber : BitVec 32) (real : Bool)
  | stop (stopStepNumber : BitVec 32) (real : Bool)
deriving DecidableEq, Repr

/-- `iperf_client_t`. -/
inductive IperfClient
  | start (interfaceStepNumber serverStepNumber : BitVec 32) (real : Bool)
  | stop (stopStepNumber : BitVec 32)
deriving DecidableEq, Repr

/-- `u.start_conf.interface_step_number`, which lies where a stop has its `stop_step_number`. -/
def IperfServer.interfaceStepNumber : IperfServer → BitVec 32
  | .start n _ => n
  | .stop n _ => n

/-- The same field of a client. -/
def IperfClient.interfaceStepNumber : IperfClient → BitVec 32
  | .start n _ _ => n
  | .stop n => n

/-- What a step has in its own member of `u`. -/
inductive Conf
  | logCapture (logOperation : LogOperation) (stopStepNumber : BitVec 32)
  | wifiStatsGet (c : WifiStatsGet)
  | iperfServer (c : IperfServer)
  | iperfClient (c : IperfClient)
  | upgradeOrReboot (loggingStepNumbers : List (BitVec 32))
  | plain (t : PlainType)
deriving DecidableEq, Repr

def Conf.paramType : Conf → ParamType
  | .logCapture .. => .logRedirection
  | .wifiStatsGet _ => .statsGet
  | .iperfServer _ => .configIperfServer
  | .iperfClient _ => .configIperfClient
  | .upgradeOrReboot _ => .upgradeOrReboot
  | .plain t => .plain t

/-- `test_step_params_t`. -/
structure Step where
  stepNumber : BitVec 32
  conf : Conf
  testState : TestState
deriving DecidableEq, Repr

/-- What happens on a reference: a number is looked up, for a step with one of the members (for none, if
the step's member is not read), and the member of the step at an index of the queue is read. -/
inductive Ev
  | follow (number : BitVec 32) (members : List Member)
  | read (step : ℕ) (member : Member)
deriving DecidableEq, Repr

/-- The answers that a call gets. -/
structure Answers where
  /-- the server of the step is running, under a process id -/
  pidPositive : Bool
  killall : Bool
  /-- the interface step of the server can be used -/
  serverInterface : Bool
  /-- what the call does behind its references -/
  rest : Bool
  /-- what stands in a step of another type where an iperf step has its interface step number -/
  junk : ℕ → BitVec 32

instance : Inhabited Answers := ⟨true, true, true, true, fun _ => 0⟩

variable (steps : List Step)

/-- `get_step_from_step_number`. -/
def named (n : BitVec 32) : Option ℕ := getStepFromStepNumber (steps.map Step.stepNumber) n

def paramTypeOf (j : ℕ) : Option ParamType := steps[j]?.map fun step => step.conf.paramType

/-- The number of the interface step, read through member `m` of step `j`. -/
def interfaceNumber (ans : Answers) (m : Member) (j : ℕ) : BitVec 32 :=
  match steps[j]?.map Step.conf, m with
  | some (.iperfServer c), .iperfServer => c.interfaceStepNumber
  | some (.iperfClient c), .iperfClient => c.interfaceStepNumber
  | _, _ => ans.junk j

/-- An interface step is looked up and used, by its type. -/
def interfaceStep (n : BitVec 32) (ok : Bool) : List Ev × Bool :=
  let looked : Ev := .follow n [.staTest, .ethLanClient]
  match named steps n with
  | none => ([looked], false)
  | some j =>
      if paramTypeOf steps j = some (.plain .stationManagement) then ([looked, .read j .staTest], ok)
      else if paramTypeOf steps j = some (.plain .ethernetLanInterface) then
        ([looked, .read j .ethLanClient], ok)
      else ([looked], false)

/-- The interface step of another iperf step is looked up there. -/
def throughStart (ans : Answers) (m : Member) (n : BitVec 32) (ok : Bool) : List Ev × Bool :=
  match named steps n with
  | none => ([.follow n [m]], false)
  | some j =>
      let r := interfaceStep steps (interfaceNumber steps ans m j) ok
      (.follow n [m] :: .read j m :: r.1, r.2)

/-- `encode_external_iperf_server_start_subdoc`. -/
def encodeExternalIperfServerStartSubdoc (ans : Answers) (interfaceStepNumber : BitVec 32) : List Ev × Bool :=
  interfaceStep steps interfaceStepNumber ans.rest

/-- `encode_external_iperf_server_stop_subdoc`. -/
def encodeExternalIperfServerStopSubdoc (ans : Answers) (stopStepNumber : BitVec 32) : List Ev × Bool :=
  throughStart steps ans .iperfServer stopStepNumber ans.rest

/-- `encode_external_iperf_client_start_subdoc`. -/
def encodeExternalIperfClientStartSubdoc (ans : Answers) (interfaceStepNumber serverStepNumber : BitVec 32) :
    List Ev × Bool :=
  let r := throughStart steps ans .iperfServer serverStepNumber ans.serverInterface
  if r.2 then
    let r' := interfaceStep steps interfaceStepNumber ans.rest
    (r.1 ++ r'.1, r'.2)
  else (r.1, false)

/-- `encode_external_iperf_client_stop_subdoc`. -/
def encodeExternalIperfClientStopSubdoc (ans : Answers) (stopStepNumber : BitVec 32) : List Ev × Bool :=
  throughStart steps ans .iperfClient stopStepNumber ans.rest

/-- The stop of a real server: without a step to stop, or a process there, it kills every iperf. -/
def stopRealServer (ans : Answers) (n : BitVec 32) : List Ev × Bool :=
  match named steps n with
  | none => ([.follow n [.iperfServer]], ans.killall)
  | some j => ([.follow n [.iperfServer], .read j .iperfServer], ans.pidPositive || ans.killall)

/-- The stop of a log. -/
def stopLog (ans : Answers) (n : BitVec 32) : List Ev × Bool :=
  match named steps n with
  | none => ([.follow n [.logCapture]], false)
  | some j => ([.follow n [.logCapture], .read j .logCapture], ans.rest)

/-- The loop of the reboot step over the logs that it pauses; a failed upload does not end it. -/
def pauseLoop : List (BitVec 32) → List Ev × Bool
  | [] => ([], true)
  | n :: ns =>
      match named steps n with
      | none => ([.follow n [.logCapture]], false)
      | some j =>
          let r := pauseLoop ns
          (.follow n [.logCapture] :: .read j .logCapture :: r.1, r.2)

/-- The stop of statistics looks its step up but uses no member of it. -/
def stopStats (ans : Answers) (n : BitVec 32) : List Ev × Bool :=
  ([.follow n []], (named steps n).isSome && ans.rest)

/-- The references of `step_execute`, true for `RETURN_OK`. A stop of a client has no connection type, so
it is never real. -/
def stepExecute (ans : Answers) (step : Step) : List Ev × Bool :=
  match step.conf with
  | .logCapture op n => if op = .start then ([], step.testState = .start && ans.rest) else stopLog steps ans n
  | .wifiStatsGet c =>
      if c.logOperation = .stop then stopStats steps ans c.stopLogStepNumber else ([], ans.rest)
  | .iperfServer (.start n real) =>
      if real then ([], ans.rest) else encodeExternalIperfServerStartSubdoc steps ans n
  | .iperfServer (.stop n real) =>
      if real then stopRealServer steps ans n else encodeExternalIperfServerStopSubdoc steps ans n
  | .iperfClient (.start n server real) =>
      if real then ([], ans.rest) else encodeExternalIperfClientStartSubdoc steps ans n server
  | .iperfClient (.stop n) => encodeExternalIperfClientStopSubdoc steps ans n
  | .upgradeOrReboot ns =>
      let r := pauseLoop steps ns
      (r.1, r.2 && ans.rest)
  | .plain _ => ([], ans.rest)

/-! ### The decoders -/

/-- The limits, the check of the iperf options and the decoders of the steps without references. -/
structure Env where
  limits : Limits
  validateIperfOptions : Bytes → Bool
  plain : PlainType → Json → Bool

/-- `decode_step_log_redirect`; the name of the log is cut to its 128 bytes and needs a slash. -/
def decodeStepLogRedirect (json : Json) : Option Conf :=
  (json.getObjectItem "LogOperation").bind fun config =>
    let start : Option LogOperation :=
      match decodeParamString config "RedirectLogs" with
      | none => some .invalid
      | some s =>
          match getLastSubstringAfterSlash (s.take 127) 128 with
          | .ok _ => some .start
          | .error _ => none
    start.bind fun op =>
      match decodeParamString config "StopLogStepNumber" with
      | some s => some (.logCapture .stop (atoi s))
      | none => if op = .invalid then none else some (.logCapture op 0)

/-- `ConnectionType`. -/
def decodeReal (json : Json) : Bool :=
  json.getObjectItem "ConnectionType" matches some (.string _) &&
    decodeParamString json "ConnectionType" = some (text "Real")

/-- `decode_step_iperf_server`. -/
def decodeStepIperfServer (env : Env) (json : Json) : Option Conf :=
  (json.getObjectItem "IperfServerOptions").bind fun config =>
    match decodeParamInteger config "StopServerStepNumber", decodeParamInteger config "ServerInterfaceStepNumber" with
    | some n, _ => some (.iperfServer (.stop (BitVec.ofInt 32 n) (decodeReal json)))
    | none, some n => do
        let _ ← decodeParamString config "ServerLogResultName"
        let options ← decodeParamString config "ServerIperfOptions"
        if env.validateIperfOptions (options.take 127) then
          some (.iperfServer (.start (BitVec.ofInt 32 n) (decodeReal json)))
        else none
    | none, none => none

/-- `decode_step_iperf_client`. -/
def decodeStepIperfClient (env : Env) (json : Json) : Option Conf :=
  (json.getObjectItem "IperfClientOptions").bind fun config =>
    match decodeParamInteger config "StopClientStepNumber", decodeParamInteger config "ClientInterfaceStepNumber" with
    | some n, _ => some (.iperfClient (.stop (BitVec.ofInt 32 n)))
    | none, some n => do
        let server ← decodeParamInteger config "ServerStepNumber"
        let options ← config.getObjectItem "ClientOptions"
        let _ ← decodeParamString options "ClientLogResultName"
        let iperf ← decodeParamString options "ClientIperfOptions"
        if env.validateIperfOptions (iperf.take 127) then
          some (.iperfClient (.start (BitVec.ofInt 32 n) (BitVec.ofInt 32 server) (decodeReal json)))
        else none
    | none, none => none

/-- `decode_step_configure_upgrade_or_reboot`; the queue has the last number in front. -/
def decodeStepConfigureUpgradeOrReboot (json : Json) : Option Conf :=
  (json.getObjectItem "UpgradeOrReboot").bind fun config =>
    (decodeParamBool config "is_logging_enabled").bind fun enabled =>
      if enabled then
        match config.getObjectItem "logging_step_numbers" with
        | some (.array items) =>
            (items.mapM fun item => (decodeParamInteger item "step_numbers").map valueint).map fun ns =>
              .upgradeOrReboot ns.reverse
        | _ => none
      else some (.upgradeOrReboot [])

/-- The types that `GetStatsType` and `SetStatsType` know; with another one the next keys are tried. -/
def statsTypes : List Bytes :=
  [text "RadioChannelStats", text "NeighborStats", text "AssociatedDeviceStats", text "RadioDiagnosticStats",
    text "RadioTemperatureStats"]

/-- The decoder that a key of the step leads to, if there is the key. -/
def decodeKey (env : Env) (json : Json) : String × Option PlainType → Option (Option Conf)
  | (key, some t) =>
      if json.getObjectItem key matches none then none
      else if t = .statsSet then
        match decodeParamString json key with
        | none => some none
        | some s =>
            if s ∈ statsTypes then some (if env.plain t json then some (.plain t) else none) else none
      else some (if env.plain t json then some (.plain t) else none)
  | (key, none) =>
      if json.getObjectItem key matches none then none
      else if key = "LogOperation" then some (decodeStepLogRedirect json)
      else if key = "GetStatsType" then
        match decodeParamString json key with
        | none => some none
        | some s =>
            if s ∈ statsTypes then some ((decodeStepStatsGet env.limits json).map .wifiStatsGet) else none
      else if key = "IperfServerOptions" then some (decodeStepIperfServer env json)
      else if key = "IperfClientOptions" then some (decodeStepIperfClient env json)
      else some (decodeStepConfigureUpgradeOrReboot json)

/-- The keys, in the order in which `decode_step_param_config` tries them. -/
def paramKeys : List (String × Option PlainType) :=
  [("RadioConfiguration", some .radio), ("VapConfiguration", some .vap),
    ("StationManagement", some .stationManagement), ("Command", some .command), ("DmlSubDoc", some .dmlSubdoc),
    ("DmlResetConfiguration", some .dmlReset), ("LogOperation", none), ("GetStatsType", none),
    ("SetStatsType", some .statsSet), ("GetFile", some .getFile),
    ("MgmtFrameCaptureRadioIndex", some .mgmtFrameCapture), ("GetPatternFiles", some .getPatternFiles),
    ("WaitTimeInSeconds", some .timedWait), ("OneWiFiSubdoc", some .configOnewifi),
    ("GatewayPerformance", some .gatewayPerformance), ("PacketGenerator", some .packetGenerator),
    ("IperfServerOptions", none), ("IperfClientOptions", none),
    ("ConfigureEthernetClient", some .ethernetLanInterface), ("UpgradeOrReboot", none)]

/-- `decode_step_param_config`. -/
def decodeStepParamConfig (env : Env) (json : Json) : Option Conf :=
  (paramKeys.findSome? (decodeKey env json)).join

/-- A step of `decode_step_config`; what else `decode_step_common_config` reads is left out. -/
def decodeStep (env : Env) (json : Json) : Option Step := do
  let conf ← decodeStepParamConfig env json
  let number ← decodeParamString json "StepNumber"
  return ⟨atoi number, conf, .request⟩

/-- `decode_step_config`: the queue has the last step in front. -/
def decodeSteps (env : Env) (docs : List Json) : Option (List Step) :=
  (docs.mapM (decodeStep env)).map List.reverse

end Code

/-! ### Safety -/

section Safety

variable {steps : List Step} {ans : Answers} {n : BitVec 32} {m : Member} {ms : List Member} {j : ℕ} {ok : Bool}
  {evs : List Ev}

/-- The number names a step, and one with one of the members. -/
def Found (steps : List Step) (n : BitVec 32) (ms : List Member) : Prop :=
  ∃ j, named steps n = some j ∧ (ms = [] ∨ ∃ m ∈ ms, paramTypeOf steps j = some m.paramType)

/-- The references are followed safely: a member is read of a step of its type only, and a call with a
reference to no step, or to one of another type, fails. -/
structure Safe (steps : List Step) (r : List Ev × Bool) : Prop where
  reads : ∀ j m, .read j m ∈ r.1 → paramTypeOf steps j = some m.paramType
  fails : ∀ n ms, .follow n ms ∈ r.1 → ¬Found steps n ms → r.2 = false

/-- Whatever the answers, the step follows its references safely. -/
def TypeSafe (steps : List Step) (step : Step) : Prop :=
  ∀ ans, Safe steps (stepExecute steps ans step)

/-- A step that the number names has the type of the member. -/
def NamedIf (steps : List Step) (n : BitVec 32) (m : Member) : Prop :=
  ∀ j, named steps n = some j → paramTypeOf steps j = some m.paramType

/-- The same of the logs that a reboot pauses, up to the first number that names no step. -/
def PausedRight (steps : List Step) : List (BitVec 32) → Prop
  | [] => True
  | n :: ns =>
      match named steps n with
      | none => True
      | some j => paramTypeOf steps j = some .logRedirection ∧ PausedRight steps ns

/-- The references of the step that are followed without a look at the type lead to steps of the right
type, and the one of a real server to a step. -/
def RefsRight (steps : List Step) (step : Step) : Prop :=
  match step.conf with
  | .logCapture op n => op ≠ .start → NamedIf steps n .logCapture
  | .iperfServer (.stop n real) =>
      NamedIf steps n .iperfServer ∧ (real = true → named steps n ≠ none)
  | .iperfClient (.start _ server real) => real = false → NamedIf steps server .iperfServer
  | .iperfClient (.stop n) => NamedIf steps n .iperfClient
  | .upgradeOrReboot ns => PausedRight steps ns
  | .iperfServer (.start _ _) | .wifiStatsGet _ | .plain _ => True

theorem safe_nil (steps : List Step) (ok : Bool) : Safe steps ([], ok) :=
  ⟨by simp, by simp⟩

/-- A failed lookup is safe if the call fails. -/
theorem safe_follow (steps : List Step) (n : BitVec 32) (ms : List Member) :
    Safe steps ([.follow n ms], false) :=
  ⟨by simp, by simp⟩

theorem found_of_type (hj : named steps n = some j) (hm : m ∈ ms)
    (htype : paramTypeOf steps j = some m.paramType) : Found steps n ms :=
  ⟨j, hj, Or.inr ⟨m, hm, htype⟩⟩

/-- A member that is read behind its lookup is read safely exactly of a step of its type. -/
theorem safe_read_iff (hj : named steps n = some j) (hm : m ∈ ms) :
    Safe steps (.follow n ms :: .read j m :: evs, ok) ↔
      paramTypeOf steps j = some m.paramType ∧ Safe steps (evs, ok) := by
  constructor
  · intro h
    refine ⟨h.reads j m (by simp), fun j' m' hread => h.reads j' m' ?_, fun n' ms' hfollow => h.fails n' ms' ?_⟩
    · exact List.mem_cons_of_mem _ (List.mem_cons_of_mem _ hread)
    · exact List.mem_cons_of_mem _ (List.mem_cons_of_mem _ hfollow)
  · rintro ⟨htype, h⟩
    refine ⟨fun j' m' hread => ?_, fun n' ms' hfollow hnot => ?_⟩
    · rcases List.mem_cons.mp hread with hread | hread
      · cases hread
      · rcases List.mem_cons.mp hread with hread | hread
        · cases hread
          exact htype
        · exact h.reads j' m' hread
    · rcases List.mem_cons.mp hfollow with hfollow | hfollow
      · cases hfollow
        exact absurd (found_of_type hj hm htype) hnot
      · rcases List.mem_cons.mp hfollow with hfollow | hfollow
        · cases hfollow
        · exact h.fails n' ms' hfollow hnot

/-- A call that fails more often is as safe. -/
theorem safe_and {r : List Ev × Bool} (h : Safe steps r) (b : Bool) : Safe steps (r.1, r.2 && b) :=
  ⟨h.reads, fun n ms hfollow hnot => by rw [h.fails n ms hfollow hnot]; rfl⟩

theorem safe_append {r r' : List Ev × Bool} (h : Safe steps r) (hok : r.2 = true) (h' : Safe steps r') :
    Safe steps (r.1 ++ r'.1, r'.2) := by
  refine ⟨fun j m hread => ?_, fun n ms hfollow hnot => ?_⟩
  · exact (List.mem_append.mp hread).elim (h.reads j m) (h'.reads j m)
  · rcases List.mem_append.mp hfollow with hfollow | hfollow
    · exact absurd (hok.symm.trans (h.fails n ms hfollow hnot)) (by decide)
    · exact h'.fails n ms hfollow hnot

/-- Interface steps are checked. -/
theorem interfaceStep_safe (steps : List Step) (n : BitVec 32) (ok : Bool) :
    Safe steps (interfaceStep steps n ok) := by
  unfold interfaceStep
  dsimp only
  split
  · exact safe_follow steps n _
  · rename_i j hj
    split_ifs with hsta heth
    · exact (safe_read_iff hj (by simp)).mpr ⟨hsta, safe_nil steps ok⟩
    · exact (safe_read_iff hj (by simp)).mpr ⟨heth, safe_nil steps ok⟩
    · exact safe_follow steps n _

theorem throughStart_safe_iff : Safe steps (throughStart steps ans m n ok) ↔ NamedIf steps n m := by
  unfold throughStart NamedIf
  cases hj : named steps n with
  | none =>
      simp [safe_follow]
  | some j =>
      dsimp only
      rw [safe_read_iff hj List.mem_cons_self]
      simp [interfaceStep_safe]

/-- A step that the number names is read. -/
theorem read_mem_throughStart (hj : named steps n = some j) :
    .read j m ∈ (throughStart steps ans m n ok).1 := by
  unfold throughStart
  rw [hj]
  simp

theorem clientStart_safe_iff {server : BitVec 32} :
    Safe steps (encodeExternalIperfClientStartSubdoc steps ans n server) ↔ NamedIf steps server .iperfServer := by
  have hthrough : Safe steps (throughStart steps ans .iperfServer server ans.serverInterface) ↔
      NamedIf steps server .iperfServer := throughStart_safe_iff
  unfold encodeExternalIperfClientStartSubdoc
  dsimp only
  split_ifs with hok
  · constructor
    · intro h j hj
      exact h.reads j .iperfServer (List.mem_append_left _ (read_mem_throughStart hj))
    · intro h
      exact safe_append (hthrough.mpr h) hok (interfaceStep_safe steps n ans.rest)
  · rw [← hthrough]
    have hfalse := Bool.eq_false_iff.mpr hok
    rw [← hfalse]

theorem stopLog_safe_iff : Safe steps (stopLog steps ans n) ↔ NamedIf steps n .logCapture := by
  unfold stopLog NamedIf
  cases hj : named steps n with
  | none =>
      simp [safe_follow]
  | some j =>
      dsimp only
      rw [safe_read_iff hj List.mem_cons_self]
      simp [safe_nil]

/-- A real server without a step may be stopped all the same. -/
theorem stopRealServer_safe_iff :
    (∀ ans, Safe steps (stopRealServer steps ans n)) ↔ NamedIf steps n .iperfServer ∧ named steps n ≠ none := by
  unfold stopRealServer NamedIf
  cases hj : named steps n with
  | none =>
      refine iff_of_false (fun h => ?_) (by simp)
      have hfails := (h default).fails n [.iperfServer] List.mem_cons_self
      have := hfails fun ⟨j, hj', _⟩ => by rw [hj] at hj'; cases hj'
      cases this
  | some j =>
      dsimp only
      simp only [safe_read_iff hj List.mem_cons_self]
      refine ⟨fun h => ?_, fun h ans => ?_⟩
      · refine ⟨fun j' hj' => ?_, by simp⟩
        cases hj'
        exact (h default).1
      · exact ⟨h.1 j rfl, safe_nil steps _⟩

theorem pauseLoop_safe_iff (ns : List (BitVec 32)) : Safe steps (pauseLoop steps ns) ↔ PausedRight steps ns := by
  induction ns with
  | nil =>
      simp [pauseLoop, PausedRight, safe_nil]
  | cons n ns ih =>
      unfold pauseLoop PausedRight
      cases hj : named steps n with
      | none =>
          simp [safe_follow]
      | some j =>
          dsimp only
          rw [safe_read_iff hj List.mem_cons_self, ih]
          rfl

theorem stopStats_safe : Safe steps (stopStats steps ans n) := by
  unfold stopStats
  refine ⟨by simp, fun n' ms hfollow hnot => ?_⟩
  cases List.mem_singleton.mp hfollow
  cases hj : named steps n with
  | none => rfl
  | some j => exact absurd ⟨j, hj, Or.inl rfl⟩ hnot

/-- **A step follows its references safely, whatever the answers, exactly when the references that are
followed without a look at the type lead to steps of the right type.** -/
theorem typeSafe_iff (steps : List Step) (step : Step) : TypeSafe steps step ↔ RefsRight steps step := by
  unfold TypeSafe RefsRight stepExecute
  cases step.conf with
  | logCapture op n =>
      by_cases hop : op = .start
      · simp [hop, safe_nil]
      · simp [hop, stopLog_safe_iff]
  | wifiStatsGet c =>
      refine iff_of_true (fun ans => ?_) trivial
      dsimp only
      split_ifs
      · exact stopStats_safe
      · exact safe_nil steps _
  | iperfServer c =>
      cases c with
      | start n real =>
          refine iff_of_true (fun ans => ?_) trivial
          dsimp only
          split_ifs
          · exact safe_nil steps _
          · exact interfaceStep_safe steps n _
      | stop n real =>
          cases real with
          | false =>
              simp [encodeExternalIperfServerStopSubdoc, throughStart_safe_iff]
          | true =>
              simp [stopRealServer_safe_iff]
  | iperfClient c =>
      cases c with
      | start n server real =>
          cases real with
          | false =>
              simp [clientStart_safe_iff]
          | true =>
              simp [safe_nil]
      | stop n =>
          simp [encodeExternalIperfClientStopSubdoc, throughStart_safe_iff]
  | upgradeOrReboot ns =>
      dsimp only
      rw [← pauseLoop_safe_iff]
      refine ⟨fun h => ?_, fun h ans => safe_and h ans.rest⟩
      have hall : Safe steps ((pauseLoop steps ns).1, (pauseLoop steps ns).2 && true) := h default
      rwa [Bool.and_true] at hall
  | plain t =>
      exact iff_of_true (fun ans => safe_nil steps _) trivial

end Safety

/-! ### Runs -/

section Run

variable {steps steps' : List Step} {step : Step}

/-- The call of a step by the scheduler, with its answers and the state that it leaves. -/
structure Move where
  step : ℕ
  ans : Answers
  state : TestState

/-- The operation of the log becomes a stop. -/
def Conf.stopped : Conf → Conf
  | .logCapture _ n => .logCapture .stop n
  | conf => conf

/-- The logs that have been read are stopped; what a write to a step of another type does is left out. -/
def stopLogs (evs : List Ev) (steps : List Step) : List Step :=
  steps.mapIdx fun j step =>
    if .read j .logCapture ∈ evs then { step with conf := step.conf.stopped } else step

/-- A step is executed once, in `start`. -/
def next (steps : List Step) (m : Move) : Option (List Step) :=
  match steps[m.step]? with
  | none => none
  | some step =>
      if step.testState = .request then
        let r := stepExecute steps m.ans { step with testState := .start }
        some ((stopLogs r.1 steps).modify m.step fun step => { step with testState := m.state })
      else none

/-- What no call changes: the number, and the references with every log taken to be a stop. -/
def Step.shape (step : Step) : BitVec 32 × Conf := (step.stepNumber, step.conf.stopped)

/-- The references of a configuration are right, also those of a log that is stopped before it starts. -/
def ConfigRight (steps : List Step) : Prop :=
  ∀ step ∈ steps, RefsRight steps { step with conf := step.conf.stopped }

theorem paramType_stopped (conf : Conf) : conf.stopped.paramType = conf.paramType := by
  cases conf <;> rfl

theorem stopped_stopped (conf : Conf) : conf.stopped.stopped = conf.stopped := by
  cases conf <;> rfl

theorem named_eq (steps : List Step) (n : BitVec 32) :
    named steps n = getStepFromStepNumber ((steps.map Step.shape).map Prod.fst) n := by
  unfold named
  rw [List.map_map]
  rfl

theorem paramTypeOf_eq (steps : List Step) (j : ℕ) :
    paramTypeOf steps j = (steps.map Step.shape)[j]?.map fun shape => shape.2.paramType := by
  unfold paramTypeOf
  rw [List.getElem?_map, Option.map_map]
  congr 1
  funext step
  exact (paramType_stopped step.conf).symm

/-- The references are judged by the shapes of the steps. -/
theorem namedIf_congr (h : steps.map Step.shape = steps'.map Step.shape) (n : BitVec 32) (m : Member) :
    NamedIf steps n m ↔ NamedIf steps' n m := by
  simp only [NamedIf, named_eq, paramTypeOf_eq, h]

theorem pausedRight_congr (h : steps.map Step.shape = steps'.map Step.shape) (ns : List (BitVec 32)) :
    PausedRight steps ns ↔ PausedRight steps' ns := by
  induction ns with
  | nil => exact Iff.rfl
  | cons n ns ih =>
      unfold PausedRight
      rw [named_eq, named_eq, h]
      cases getStepFromStepNumber ((steps'.map Step.shape).map Prod.fst) n with
      | none => exact Iff.rfl
      | some j =>
          dsimp only
          rw [paramTypeOf_eq, paramTypeOf_eq, h, ih]

theorem refsRight_congr (h : steps.map Step.shape = steps'.map Step.shape) (step : Step) :
    RefsRight steps step ↔ RefsRight steps' step := by
  unfold RefsRight
  split
  · rw [namedIf_congr h]
  · rw [namedIf_congr h, named_eq, named_eq, h]
  · rw [namedIf_congr h]
  · rw [namedIf_congr h]
  · rw [pausedRight_congr h]
  · exact Iff.rfl
  · exact Iff.rfl
  · exact Iff.rfl

/-- A log that is taken to be a stop has no fewer references. -/
theorem refsRight_of_stopped (h : RefsRight steps { step with conf := step.conf.stopped }) :
    RefsRight steps step := by
  cases hconf : step.conf with
  | logCapture op n =>
      simp only [RefsRight, hconf, Conf.stopped] at h ⊢
      exact fun _ => h (by decide)
  | wifiStatsGet | plain =>
      simp only [RefsRight, hconf]
  | iperfServer | iperfClient | upgradeOrReboot =>
      simp only [RefsRight, hconf, Conf.stopped] at h ⊢
      exact h

theorem shape_next {m : Move} (h : next steps m = some steps') : steps'.map Step.shape = steps.map Step.shape := by
  unfold next at h
  split at h
  · cases h
  · split_ifs at h
    cases h
    refine List.ext_getElem? fun j => ?_
    unfold stopLogs
    simp only [List.getElem?_map, List.getElem?_modify, List.getElem?_mapIdx]
    cases steps[j]? with
    | none => rfl
    | some step =>
        simp only [Option.map_some]
        split_ifs <;> simp [Step.shape, stopped_stopped]

/-- **In every run of a configuration whose references are right, every step that is executed follows its
references safely.** -/
theorem typeSafe_of_run (hconfig : ConfigRight steps) (hrun : Run next (fun _ _ => True) steps steps')
    (hstep : step ∈ steps') : TypeSafe steps' step := by
  have hshape : steps'.map Step.shape = steps.map Step.shape :=
    run_invariant (I := fun t => t.map Step.shape = steps.map Step.shape)
      (fun _ _ _ h _ hnext => (shape_next hnext).trans h) hrun rfl
  have hmem : step.shape ∈ steps.map Step.shape := hshape ▸ List.mem_map_of_mem hstep
  obtain ⟨step₀, hstep₀, hsame⟩ := List.mem_map.mp hmem
  rw [typeSafe_iff]
  refine refsRight_of_stopped ?_
  rw [refsRight_congr hshape]
  have hright := hconfig step₀ hstep₀
  have hconf : step₀.conf.stopped = step.conf.stopped := congrArg Prod.snd hsame
  unfold RefsRight at hright ⊢
  rw [hconf] at hright
  exact hright

end Run

section Sample

/-- Every step without references is accepted, and every iperf option. -/
def plainEnv : Env := ⟨twoRadios, fun _ => true, fun _ _ => true⟩

/-- A radio step with the number 1 and a step that stops its log. -/
def radioDocs : List Json :=
  [.object [("StepNumber", .string (text "1")), ("RadioConfiguration", .string (text "radio.json"))],
    .object [("StepNumber", .string (text "2")),
      ("LogOperation", .object [("StopLogStepNumber", .string (text "1"))])]]

def radioSteps : List Step :=
  [⟨2, .logCapture .stop 1, .request⟩, ⟨1, .plain .radio, .request⟩]

theorem decodeSteps_radioDocs : decodeSteps plainEnv radioDocs = some radioSteps := by
  decide

/-- The stop of a log reads the log of a radio step. -/
theorem not_typeSafe_radioDocs :
    ¬∀ (env : Env) (docs : List Json) (steps : List Step), decodeSteps env docs = some steps →
      ∀ step ∈ steps, TypeSafe steps step := by
  intro hall
  have hsafe := hall _ _ _ decodeSteps_radioDocs ⟨2, .logCapture .stop 1, .request⟩ List.mem_cons_self
  have hread := (hsafe default).reads 1 .logCapture (by decide)
  revert hread
  decide

end Sample

end OneWifiTestSuite.StepRefs
