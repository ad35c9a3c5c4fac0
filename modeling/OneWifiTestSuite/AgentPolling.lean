import OneWifiTestSuite.AgentStatus

/-!
# Polling the external agent

The polls of the external station and of the ethernet client: `step_timeout_ext_sta` and the `step_timeout` of
`wlan_emu_test_param_eth_lan_client.cpp`. Both search the status that the agent replies for their own step
and go on with the iterator of the search, which stands at `end()` when the agent does not list the step.
An iterator is a position here, and to dereference it at the end yields `none`.

After the execution time and the grace timeout, while the agent is running, the entry is read whether the
search found one or not. So the polls are sound exactly when a reply of that moment lists the step
(`sound_iff_covered`). `cci_error_code`, which no poll reads, is left out.
-/

namespace OneWifiTestSuite.AgentPolling

open ByteRegion RebootFile AgentJson Steps AgentStatus

/-! ### The polls -/

section Polls

/-- What the polls read and write of a step and of its `sta_test` or `eth_lan_client`. -/
structure Step where
  stepNumber : BitVec 32
  testState : TestState
  timeoutCount : BitVec 32
  executionTime : BitVec 32
  fork : Bool
  interfaceName : Bytes
  isIpAssigned : Bool
  ipAddress : Bytes
  resultFile : Bytes
deriving DecidableEq

/-- The answers of the calls that a poll makes: whether the agent is known, what it replies with status 200,
whether its files are downloaded, whether there is memory for a file, and whether it is uploaded. -/
structure Answers where
  agent : Bool
  response : Option Bytes
  download : List Bytes → Bool
  alloc : Bytes → Bool
  upload : Bytes → Bool

/-- How a poll ends: the step, whether it returns `RETURN_OK`, and whether it sent the stop command. -/
structure Polled where
  step : Step
  ok : Bool
  stopSent : Bool
deriving DecidableEq

/-- `external_sta_grace_timeout`. -/
def externalStaGraceTimeout : BitVec 32 := 3

/-- `sizeof(capture->pcap_file)`. -/
def pcapFileSize : ℕ := 128

/-- What the two polls do not share: when a step is due, the keys of the private data, how result files are
pushed, and whether the failure of the agent sends it the stop command. -/
structure Poller where
  due : (executionTime timeoutCount : BitVec 32) → Bool
  interfaceKey : String
  ipKey : String
  push : Answers → Step → List Bytes → Step × Bool
  stops : Bool

/-- The step ends in abort, with `RETURN_ERR`. -/
def Step.aborted (s : Step) : Polled :=
  ⟨{ s with testState := .abort }, false, false⟩

/-- The step goes on, in the background when it was forked and has its address. -/
def Step.goesOn (s : Step) : Polled :=
  ⟨{ s with testState := goOn (s.isIpAssigned && s.fork) }, true, false⟩

/-- The search for the step: where it stands in the list, or the end of the list. The step takes the state
that is found. -/
def Step.search (s : Step) : List StepStatus → Step × ℕ
  | [] => (s, 0)
  | entry :: entries =>
      if entry.stepNumber = s.stepNumber then
        ({ s with testState := entry.state }, 0)
      else
        let (s, i) := s.search entries
        (s, i + 1)

/-- `parse_step_private_data`, whose result is ignored. -/
def Poller.parseStepPrivateData (p : Poller) (lib : CJson) (s : Step) (privateDataStr : Bytes) : Step :=
  match lib.parse privateDataStr with
  | none => s
  | some root =>
      match decodeParamString root p.interfaceKey with
      | none => s
      | some name =>
          match root.getObjectItem p.ipKey with
          | some (.string ip) => { s with interfaceName := name, isIpAssigned := true, ipAddress := ip }
          | _ => { s with interfaceName := name }

def Poller.readPrivate (p : Poller) (lib : CJson) (s : Step) (entry : StepStatus) : Step :=
  if entry.stepPrivateJsonData = [] then s else p.parseStepPrivateData lib s entry.stepPrivateJsonData

/-- The result files of an entry are downloaded and pushed. -/
def Poller.fetchResults (p : Poller) (ans : Answers) (s : Step) (entry : StepStatus) : Polled :=
  if ans.download entry.resultFiles then
    let (s, pushed) := p.push ans s entry.resultFiles
    if pushed then ⟨s, true, false⟩ else s.aborted
  else s.aborted

/-- A due step whose agent is running: the iterator is dereferenced wherever the search ended. -/
def Poller.finish (p : Poller) (lib : CJson) (ans : Answers) (s : Step) (steps : List StepStatus) : Option Polled :=
  let (s, i) := { s with testState := .results }.search steps
  steps[i]?.map fun entry => p.fetchResults ans (p.readPrivate lib s entry) entry

/-- What the state of an entry brings. -/
def Poller.follow (p : Poller) (ans : Answers) (s : Step) (entry : StepStatus) : Polled :=
  if s.testState = .results then p.fetchResults ans s entry
  else if s.testState = .abort then ⟨s, false, false⟩
  else s.goesOn

/-- Any other step: the iterator is compared with `end()` first. -/
def Poller.update (p : Poller) (lib : CJson) (ans : Answers) (s : Step) (steps : List StepStatus) : Option Polled :=
  let (s, i) := s.search steps
  if i = steps.length then some s.goesOn
  else steps[i]?.map fun entry => p.follow ans (p.readPrivate lib s entry) entry

/-- The poll with the status of the agent; the step's timeout is counted. -/
def Poller.pollStatus (p : Poller) (lib : CJson) (ans : Answers) (s : Step) (status : StatusResp) : Option Polled :=
  if s.timeoutCount = 3 ∧ status.state = .idle then some s.aborted
  else if status.state = .running ∧ p.due s.executionTime s.timeoutCount = true then p.finish lib ans s status.steps
  else if status.state = .fail then some { s.aborted with stopSent := p.stops }
  else p.update lib ans s status.steps

/-- `get_ext_agent` and `get_external_agent_test_status`. -/
def Answers.status (ans : Answers) (lib : CJson) : Option StatusResp :=
  if ans.agent then ans.response.bind (decodeExternalAgentTestStatus lib) else none

def Poller.poll (p : Poller) (lib : CJson) (ans : Answers) (s : Step) : Option Polled :=
  match ans.status lib with
  | none => some s.aborted
  | some status => p.pollStatus lib ans { s with timeoutCount := s.timeoutCount + 1 } status

end Polls

/-! ### The two step types -/

section StepTypes

/-- `push_ext_sta_result_files`: each file is uploaded under a name that fits its buffer. -/
def pushExtStaResultFiles (ans : Answers) (s : Step) : List Bytes → Step × Bool
  | [] => (s, true)
  | file :: files =>
      if ans.alloc file = false then (s, false)
      else if pcapFileSize ≤ (cStr file).length then (s, false)
      else if ans.upload (cStr file) then pushExtStaResultFiles ans s files
      else ({ s with testState := .abort }, false)

/-- `push_ext_eth_lan_client_result_files`: only the last file is uploaded. -/
def pushExtEthLanClientResultFiles (ans : Answers) (s : Step) (files : List Bytes) : Step × Bool :=
  let s := { s with resultFile := files.getLastD s.resultFile }
  if ans.alloc s.resultFile = false then (s, false)
  else if ans.upload (cStr s.resultFile) then (s, true)
  else ({ s with testState := .abort }, false)

def extSta : Poller where
  due := fun executionTime timeoutCount => (executionTime + externalStaGraceTimeout).sle timeoutCount
  interfaceKey := "InterfaceName"
  ipKey := "IpAddress"
  push := pushExtStaResultFiles
  stops := false

def ethLanClient : Poller where
  due := fun executionTime timeoutCount => executionTime + externalStaGraceTimeout == timeoutCount
  interfaceKey := "EthInterfaceName"
  ipKey := "EthIpAddress"
  push := pushExtEthLanClientResultFiles
  stops := true

/-- `step_timeout_ext_sta`. -/
def stepTimeoutExtSta : CJson → Answers → Step → Option Polled :=
  extSta.poll

/-- `test_step_param_eth_lan_client::step_timeout`. -/
def stepTimeoutEthLanClient : CJson → Answers → Step → Option Polled :=
  ethLanClient.poll

end StepTypes

/-! ### Soundness -/

section Soundness

/-- The reply has no entry for the step. -/
def Missing (s : Step) (steps : List StepStatus) : Prop :=
  ∀ entry ∈ steps, entry.stepNumber ≠ s.stepNumber

/-- The poll returns an error, and the step is in abort. -/
def Polled.IsError (polled : Polled) : Prop :=
  polled.ok = false ∧ polled.step.testState = .abort

/-- The poll of `s` returns without an error, and the step goes on with nothing but its timeout counted. -/
def Polled.NoNews (s : Step) (polled : Polled) : Prop :=
  polled.ok = true ∧ polled.step =
    { s with timeoutCount := s.timeoutCount + 1, testState := goOn (s.isIpAssigned && s.fork) }

/-- The poll never dereferences `end()`, and takes a missing step as an error or as no news. -/
structure Sound (poll : CJson → Answers → Step → Option Polled) (lib : CJson) (ans : Answers) (s : Step) : Prop where
  noEnd : poll lib ans s ≠ none
  missing : ∀ status, ans.status lib = some status → Missing s status.steps →
    ∀ polled, poll lib ans s = some polled → polled.IsError ∨ polled.NoNews s

/-- A reply with which a due step would be read, because the agent is running, lists the step. -/
def Covered (p : Poller) (lib : CJson) (ans : Answers) (s : Step) : Prop :=
  ∀ status, ans.status lib = some status → status.state = .running →
    p.due s.executionTime (s.timeoutCount + 1) = true → ¬ Missing s status.steps

/-- A search that finds nothing ends at the end and leaves the step alone. -/
theorem search_missing {s : Step} {steps : List StepStatus} (h : Missing s steps) :
    s.search steps = (s, steps.length) := by
  induction steps with
  | nil =>
      rfl
  | cons entry entries ih =>
      have hrest : Missing s entries := fun e he => h e (List.mem_cons_of_mem _ he)
      simp [Step.search, h entry (by simp), ih hrest]

/-- A search that finds the step ends before the end. -/
theorem search_lt {s : Step} {steps : List StepStatus} (h : ¬ Missing s steps) :
    (s.search steps).2 < steps.length := by
  induction steps with
  | nil =>
      exact absurd (fun e he => absurd he List.not_mem_nil) h
  | cons entry entries ih =>
      by_cases heq : entry.stepNumber = s.stepNumber
      · simp [Step.search, heq]
      · have hrest : ¬ Missing s entries := fun hm => h fun e he => by
          rcases List.mem_cons.mp he with rfl | he
          · exact heq
          · exact hm e he
        simp only [Step.search, if_neg heq, List.length_cons]
        exact Nat.succ_lt_succ (ih hrest)

variable (p : Poller) (lib : CJson) (ans : Answers) {s : Step} {steps : List StepStatus}

/-- A due step is read at the end exactly when the reply misses it. -/
theorem finish_eq_none_iff : p.finish lib ans s steps = none ↔ Missing s steps := by
  simp only [Poller.finish, Option.map_eq_none_iff, List.getElem?_eq_none_iff]
  constructor
  · intro hle
    by_contra h
    have := search_lt (s := { s with testState := .results }) h
    omega
  · intro h
    rw [search_missing (s := { s with testState := .results }) h]

/-- The other branch never reads at the end. -/
theorem update_ne_none : p.update lib ans s steps ≠ none := by
  by_cases h : Missing s steps
  · simp [Poller.update, search_missing h]
  · have hlt := search_lt h
    simp [Poller.update, hlt.ne, hlt]

theorem update_missing (h : Missing s steps) : p.update lib ans s steps = some s.goesOn := by
  simp [Poller.update, search_missing h]

/-- A poll with a status reads at the end exactly when the agent runs a due step that its reply misses. -/
theorem pollStatus_eq_none_iff (status : StatusResp) : p.pollStatus lib ans s status = none ↔
    status.state = .running ∧ p.due s.executionTime s.timeoutCount = true ∧ Missing s status.steps := by
  unfold Poller.pollStatus
  split_ifs with hidle hdue hfail
  · simp [hidle.2]
  · simp [finish_eq_none_iff, hdue.1, hdue.2]
  · simp [hfail]
  · refine iff_of_false (update_ne_none p lib ans) fun h => hdue ⟨h.1, h.2.1⟩

/-- With a reply that misses the step, whatever a poll returns is an error, or the step just goes on. -/
theorem pollStatus_missing {status : StatusResp} (h : Missing s status.steps) {polled : Polled}
    (hpoll : p.pollStatus lib ans s status = some polled) : polled.IsError ∨ polled = s.goesOn := by
  unfold Poller.pollStatus at hpoll
  split_ifs at hpoll with hidle hdue hfail
  · cases hpoll
    exact .inl ⟨rfl, rfl⟩
  · rw [(finish_eq_none_iff p lib ans).mpr h] at hpoll
    cases hpoll
  · cases hpoll
    exact .inl ⟨rfl, rfl⟩
  · rw [update_missing p lib ans h] at hpoll
    cases hpoll
    exact .inr rfl

/-- A poll of either kind is sound exactly when the replies cover it. -/
theorem poll_sound_iff (s : Step) : Sound p.poll lib ans s ↔ Covered p lib ans s := by
  constructor
  · intro h status hstatus hrun hdue hmiss
    refine h.noEnd ?_
    simp only [Poller.poll, hstatus]
    exact (pollStatus_eq_none_iff p lib ans status).mpr ⟨hrun, hdue, hmiss⟩
  · intro h
    refine ⟨fun hnone => ?_, fun status hstatus hmiss polled hpoll => ?_⟩
    · cases hstatus : ans.status lib with
      | none =>
          simp [Poller.poll, hstatus] at hnone
      | some status =>
          simp only [Poller.poll, hstatus] at hnone
          obtain ⟨hrun, hdue, hmiss⟩ := (pollStatus_eq_none_iff p lib ans status).mp hnone
          exact h status hstatus hrun hdue hmiss
    · simp only [Poller.poll, hstatus] at hpoll
      have hmiss' : Missing { s with timeoutCount := s.timeoutCount + 1 } status.steps := hmiss
      refine (pollStatus_missing p lib ans hmiss' hpoll).imp_right ?_
      rintro rfl
      exact ⟨rfl, rfl⟩

/-- **The polls of the external agent**: both never dereference `end()`, and take a missing step as an error or
as no news, exactly when each reply of a running agent lists the step that is due. -/
theorem sound_iff_covered (lib : CJson) (ans : Answers) (s : Step) :
    (Sound stepTimeoutExtSta lib ans s ↔ Covered extSta lib ans s) ∧
      (Sound stepTimeoutEthLanClient lib ans s ↔ Covered ethLanClient lib ans s) :=
  ⟨poll_sound_iff extSta lib ans s, poll_sound_iff ethLanClient lib ans s⟩

end Soundness

/-! ### A running agent without steps -/

section Example

/-- An agent that runs and has no steps. -/
def noSteps : Tick where
  steps := []
  running := fun _ => false
  state := .running

/-- What it publishes. -/
def noStepsText : String :=
  braces (
    "\n\t\"ExternalAgentHostName\":\t\"ots_ext_agent\",\n\t\"ExternalAgentStepCount\":\t0,\n" ++
    "\t\"ExternalAgentStepStatus\":\t[],\n\t\"ExternalAgentStatus\":\t\"running\"\n")

/-- A step in its last second, before the grace timeout ends. -/
def lastPoll : Step :=
  ⟨4, .cont, 62, 60, false, text "wlan0", true, text "10.0.0.7", []⟩

def noStepsAnswers : Answers where
  agent := true
  response := some (text noStepsText)
  download := fun _ => true
  alloc := fun _ => true
  upload := fun _ => true

/-- The status of an agent that replies a document. -/
theorem status_bytesLib (ans : Answers) (json : Json) (file : Bytes) (hagent : ans.agent = true)
    (hresponse : ans.response = some file) :
    ans.status (bytesLib json file) = decodeStatus (bytesLib json file) json := by
  have hread : (bytesLib json file).parse file = some json := bytesLib_reads json file
  rw [Answers.status, if_pos hagent, hresponse, Option.bind_some, decodeExternalAgentTestStatus, hread,
    Option.bind_some]

/-- Both polls read a step at the end of the empty list. -/
theorem not_sound_noSteps :
    ¬ Sound stepTimeoutExtSta (bytesLib noSteps.document (text noStepsText)) noStepsAnswers lastPoll ∧
      ¬ Sound stepTimeoutEthLanClient (bytesLib noSteps.document (text noStepsText)) noStepsAnswers lastPoll := by
  have hstatus : noStepsAnswers.status (bytesLib noSteps.document (text noStepsText)) =
      some ⟨agentHostname, 0, .running, []⟩ := by
    rw [status_bytesLib noStepsAnswers noSteps.document _ rfl rfl, decodeStatus_document]
    rfl
  refine ⟨fun h => h.noEnd ?_, fun h => h.noEnd ?_⟩
  · simp only [stepTimeoutExtSta, Poller.poll, hstatus]
    rfl
  · simp only [stepTimeoutEthLanClient, Poller.poll, hstatus]
    rfl

end Example

end OneWifiTestSuite.AgentPolling
