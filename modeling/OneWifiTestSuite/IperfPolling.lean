import OneWifiTestSuite.AgentPolling
import OneWifiTestSuite.IperfSubdoc
import OneWifiTestSuite.Runs

/-!
# Polling for an iperf server

`test_step_param_iperf_server::step_timeout` polls the external agent and, on its way to its own step in the reply,
sends the stop command when the step with the number `IPERF_STOP_STEP_NUMBER` is in `results`. The number is that
of one configuration. So the commands are justified in the runs in which every completed step 7 that a poll comes
across is an iperf stop step, and in no other (`sound_iff_stopNumbered`).
-/

namespace OneWifiTestSuite.IperfPolling

open ByteRegion RebootFile AgentJson Steps AgentStatus AgentPolling IperfSubdoc Runs

/-! ### The poll -/

section Poll

/-- `IPERF_STOP_STEP_NUMBER`. -/
def iperfStopStepNumber : BitVec 32 := 7

/-- What the poll reads and writes of a step and of its `iperf_server`; `startReal` and `stopReal` are what it
reads as the two connection types, which lie in one union. -/
structure ServerStep where
  stepNumber : BitVec 32
  testState : TestState
  timeoutCount : BitVec 32
  executionTime : BitVec 32
  fork : Bool
  inputOperation : ℤ
  startReal : Bool
  stopReal : Bool
  resultFile : Bytes
deriving DecidableEq

/-- Why the stop command is sent: the agent has failed, or an entry of its reply. -/
inductive Trigger
  | failure
  | entry (e : StepStatus)
deriving DecidableEq

/-- How a poll ends: the step, whether it returns `RETURN_OK`, and the stop commands that it sent. -/
structure ServerPolled where
  step : ServerStep
  ok : Bool
  stops : List Trigger
deriving DecidableEq

def ServerStep.withState (s : ServerStep) (state : TestState) : ServerStep :=
  { s with testState := state }

/-- The search for the step, with the stop commands on the way. -/
def search (own : BitVec 32) : List StepStatus → Option StepStatus × List Trigger
  | [] => (none, [])
  | e :: es =>
      let stop := if e.stepNumber = iperfStopStepNumber ∧ e.state = .results then [.entry e] else []
      if e.stepNumber = own then (some e, stop)
      else
        let (found, stops) := search own es
        (found, stop ++ stops)

/-- `push_ext_iperf_server_result_files`, whose files are in `result_file` one after the other. -/
def pushFiles (ans : Answers) (s : ServerStep) : List Bytes → ServerStep × Bool
  | [] =>
      if s.inputOperation = operationStop ∨ ans.upload s.resultFile = true then (s, true)
      else (s.withState .abort, false)
  | file :: files =>
      let s := { s with resultFile := (cStr file).take (pcapFileSize - 1) }
      if pcapFileSize ≤ (cStr file).length then (s, false) else pushFiles ans s files

/-- What the state of the step's own entry brings. -/
def follow (ans : Answers) (s : ServerStep) (e : StepStatus) : ServerStep × Bool :=
  if s.testState = .results then
    if s.inputOperation = operationStop then (s, true)
    else if ans.download e.resultFiles = false then (s.withState .abort, false)
    else
      match pushFiles ans s e.resultFiles with
      | (s, true) => (s, true)
      | (s, false) => (s.withState .abort, false)
  else if s.testState = .abort then (s, false)
  else (s.withState (goOn s.fork), true)

/-- The poll with the status of the agent; the step's timeout is counted. -/
def pollStatus (ans : Answers) (s : ServerStep) (status : StatusResp) : ServerPolled :=
  if s.timeoutCount = 3 ∧ status.state = .idle then ⟨s.withState .abort, false, []⟩
  else if status.state = .fail then ⟨s.withState .abort, false, [.failure]⟩
  else
    match search s.stepNumber status.steps with
    | (none, stops) => ⟨s.withState (goOn s.fork), true, stops⟩
    | (some e, stops) =>
        let (s, ok) := follow ans (s.withState e.state) e
        ⟨s, ok, stops⟩

/-- `test_step_param_iperf_server::step_timeout`. -/
def stepTimeout (lib : CJson) (ans : Answers) (s : ServerStep) : ServerPolled :=
  let counted := { s with timeoutCount := s.timeoutCount + 1 }
  if s.startReal then
    if counted.timeoutCount = s.executionTime then ⟨counted.withState .results, true, []⟩
    else if counted.timeoutCount.slt s.executionTime then ⟨counted.withState .cont, true, []⟩
    else ⟨counted, false, []⟩
  else if s.stopReal then ⟨s, true, []⟩
  else
    match ans.status lib with
    | none => ⟨s.withState .abort, false, []⟩
    | some status => pollStatus ans counted status

end Poll

/-! ### Runs -/

section System

/-- A step of the configuration: its number, its class and, for iperf, its operation. -/
structure ConfigStep where
  number : BitVec 32
  cls : StepSubdoc.StepClass
  operation : ℤ

def ConfigStep.IsIperfStop (step : ConfigStep) : Prop :=
  (step.cls = .iperfClient ∨ step.cls = .iperfServer) ∧ step.operation = operationStop

/-- What happened: a reply of the agent, or a stop command. -/
inductive Event
  | reply (status : StatusResp)
  | stop (trigger : Trigger)

/-- The step with its history, the newest event in front. -/
structure St where
  step : ServerStep
  log : List Event

/-- The reply that a poll gets. -/
def St.reply (lib : CJson) (s : St) (ans : Answers) : Option StatusResp :=
  if s.step.startReal || s.step.stopReal then none else ans.status lib

/-- One poll; only a step in wait or continue is polled. -/
def next (lib : CJson) (s : St) (ans : Answers) : Option St :=
  if s.step.testState = .wait ∨ s.step.testState = .cont then
    let polled := stepTimeout lib ans s.step
    some ⟨polled.step, polled.stops.map .stop ++ ((s.reply lib ans).toList.map .reply ++ s.log)⟩
  else none

end System

/-! ### Justified commands -/

section Justified

/-- The last reply of a history. -/
def lastReply : List Event → Option StatusResp
  | [] => none
  | .reply status :: _ => some status
  | .stop _ :: log => lastReply log

/-- A stop command is justified by the reply before it: the agent has failed, or the step that triggered the
command has completed and is an iperf stop step of the configuration. -/
def Justified (config : List ConfigStep) (log : List Event) : Trigger → Prop
  | .failure => ∃ status, lastReply log = some status ∧ status.state = .fail
  | .entry e => (∃ status, lastReply log = some status ∧ e ∈ status.steps) ∧ e.state = .results ∧
      ∃ step ∈ config, step.number = e.stepNumber ∧ step.IsIperfStop

/-- Every stop command of a history is justified. -/
def Sound (config : List ConfigStep) : List Event → Prop
  | [] => True
  | .reply _ :: log => Sound config log
  | .stop t :: log => Justified config log t ∧ Sound config log

/-- The entries that the search comes across, up to the step's own. -/
def visited (own : BitVec 32) : List StepStatus → List StepStatus
  | [] => []
  | e :: es => if e.stepNumber = own then [e] else e :: visited own es

/-- The agent neither has failed nor is idle at the third poll, so that its steps are searched. -/
def Searches (s : St) (status : StatusResp) : Prop :=
  ¬ (s.step.timeoutCount + 1 = 3 ∧ status.state = .idle) ∧ status.state ≠ .fail

/-- A completed step 7 that the poll comes across is an iperf stop step of the configuration. -/
def StopNumbered (config : List ConfigStep) (lib : CJson) (s : St) (ans : Answers) : Prop :=
  ∀ status, s.reply lib ans = some status → Searches s status →
    (∃ e ∈ visited s.step.stepNumber status.steps, e.stepNumber = iperfStopStepNumber ∧ e.state = .results) →
      ∃ step ∈ config, step.number = iperfStopStepNumber ∧ step.IsIperfStop

variable {config : List ConfigStep} {lib : CJson} {s s' : St} {ans : Answers} {log : List Event}

theorem visited_subset (own : BitVec 32) (es : List StepStatus) : visited own es ⊆ es := by
  induction es with
  | nil => simp [visited]
  | cons e es ih =>
      unfold visited
      split_ifs
      · simp
      · exact List.cons_subset_cons e ih

/-- The commands of a search are those of the completed entries with the number that it comes across. -/
theorem mem_search_iff {own : BitVec 32} {es : List StepStatus} {t : Trigger} :
    t ∈ (search own es).2 ↔
      ∃ e ∈ visited own es, t = .entry e ∧ e.stepNumber = iperfStopStepNumber ∧ e.state = .results := by
  induction es with
  | nil => simp [search, visited]
  | cons e es ih =>
      have hstop : t ∈ (if e.stepNumber = iperfStopStepNumber ∧ e.state = .results then [Trigger.entry e] else []) ↔
          t = .entry e ∧ e.stepNumber = iperfStopStepNumber ∧ e.state = .results := by
        split_ifs with h <;> simp [h]
      by_cases hown : e.stepNumber = own
      · simp only [search, visited, if_pos hown, List.mem_singleton, exists_eq_left]
        exact hstop
      · simp only [search, visited, if_neg hown, List.mem_append, List.mem_cons, exists_eq_or_imp]
        rw [hstop, ih]

/-- The commands of a poll. -/
theorem stops_eq (s : St) (ans : Answers) : (stepTimeout lib ans s.step).stops =
    match s.reply lib ans with
    | none => []
    | some status =>
        if s.step.timeoutCount + 1 = 3 ∧ status.state = .idle then []
        else if status.state = .fail then [.failure]
        else (search s.step.stepNumber status.steps).2 := by
  unfold stepTimeout St.reply
  cases hstart : s.step.startReal with
  | true =>
      simp only [if_true, Bool.true_or]
      split_ifs <;> rfl
  | false =>
      cases hstop : s.step.stopReal with
      | true => simp
      | false =>
          cases hstatus : ans.status lib with
          | none => simp
          | some status =>
              simp only [Bool.false_eq_true, if_false, Bool.or_self, pollStatus]
              split_ifs with hidle hfail
              · rfl
              · rfl
              · cases hsearch : search s.step.stepNumber status.steps with
                | mk found stops => cases found <;> rfl

theorem lastReply_stops (stops : List Trigger) (status : StatusResp) :
    lastReply (stops.map Event.stop ++ (Event.reply status :: log)) = some status := by
  induction stops with
  | nil => rfl
  | cons t stops ih => exact ih

/-- Commands that all come from one reply are judged by it. -/
theorem sound_stops_iff {stops : List Trigger} (status : StatusResp) :
    Sound config (stops.map Event.stop ++ (Event.reply status :: log)) ↔
      (∀ t ∈ stops, Justified config (Event.reply status :: log) t) ∧ Sound config log := by
  induction stops with
  | nil => simp [Sound]
  | cons t stops ih =>
      have hlast : lastReply (stops.map Event.stop ++ (Event.reply status :: log)) = some status :=
        lastReply_stops stops status
      have hjust : Justified config (stops.map Event.stop ++ (Event.reply status :: log)) t ↔
          Justified config (Event.reply status :: log) t := by
        cases t <;> simp [Justified, hlast, lastReply]
      simp only [List.map_cons, List.cons_append, Sound, hjust, ih, List.forall_mem_cons, and_assoc]

/-- **One poll**: a justified history stays justified exactly when a completed step 7 on its way is an iperf stop
step. -/
theorem sound_next_iff (h : next lib s ans = some s') :
    Sound config s'.log ↔ Sound config s.log ∧ StopNumbered config lib s ans := by
  unfold next at h
  split_ifs at h
  cases h
  simp only [stops_eq]
  cases hreply : s.reply lib ans with
  | none => simp [StopNumbered, hreply]
  | some status =>
      simp only [Option.toList_some, List.map_cons, List.map_nil, List.cons_append, List.nil_append]
      rw [sound_stops_iff]
      by_cases hidle : s.step.timeoutCount + 1 = 3 ∧ status.state = .idle
      · have hnumbered : StopNumbered config lib s ans := by
          intro status' hstatus' hsearches
          rw [hreply] at hstatus'
          cases hstatus'
          exact absurd hidle hsearches.1
        rw [if_pos hidle]
        simp [hnumbered]
      rw [if_neg hidle]
      by_cases hfail : status.state = .fail
      · simp [hfail, StopNumbered, hreply, Searches, Justified, lastReply]
      rw [if_neg hfail]
      have hsearches : Searches s status := ⟨hidle, hfail⟩
      constructor
      · rintro ⟨hall, hsound⟩
        refine ⟨hsound, fun status' hstatus' _ hcome => ?_⟩
        rw [hreply] at hstatus'
        cases hstatus'
        obtain ⟨e, he, hnumber, hresults⟩ := hcome
        obtain ⟨-, -, step, hstep, heq, hstop⟩ := hall _ (mem_search_iff.mpr ⟨e, he, rfl, hnumber, hresults⟩)
        exact ⟨step, hstep, heq.trans hnumber, hstop⟩
      · rintro ⟨hsound, hnumbered⟩
        refine ⟨fun t ht => ?_, hsound⟩
        obtain ⟨e, he, rfl, hnumber, hresults⟩ := mem_search_iff.mp ht
        obtain ⟨step, hstep, heq, hstop⟩ := hnumbered status hreply hsearches ⟨e, he, hnumber, hresults⟩
        exact ⟨⟨status, rfl, visited_subset _ _ he⟩, hresults, step, hstep, heq.trans hnumber.symm, hstop⟩

/-- **The stop commands of a poller are justified in the runs in which every completed step 7 that it comes across
is an iperf stop step, and a poll that comes across another one is not.** -/
theorem sound_iff_stopNumbered (config : List ConfigStep) (lib : CJson) (step : ServerStep) :
    (∀ s, Run (next lib) (StopNumbered config lib) ⟨step, []⟩ s → Sound config s.log) ∧
      ∀ s ans s', Run (next lib) (fun _ _ => True) ⟨step, []⟩ s → next lib s ans = some s' →
        ¬ StopNumbered config lib s ans → ¬ Sound config s'.log := by
  refine ⟨fun s hrun => ?_, fun s ans s' _ hnext hnot hsound => ?_⟩
  · have hstart : Sound config (St.mk step []).log := trivial
    refine run_invariant (I := fun s => Sound config s.log) (fun s ans t hsound hnumbered hnext => ?_) hrun hstart
    exact (sound_next_iff hnext).mpr ⟨hsound, hnumbered⟩
  · exact hnot ((sound_next_iff hnext).mp hsound).2

end Justified

/-! ### A client step with the number 7 -/

section Example

/-- A server of step 3 and its client of step 7. -/
def numberedSeven : List ConfigStep :=
  [⟨3, .iperfServer, operationStart⟩, ⟨7, .iperfClient, operationStart⟩]

def server : ServerStep :=
  ⟨3, .cont, 4, 60, false, operationStart, false, false, []⟩

/-- The client has completed, and the server goes on. -/
def clientDone : Json :=
  .object [("ExternalAgentHostName", .string (text "agent")), ("ExternalAgentStepCount", .number 2),
    ("ExternalAgentStepStatus", .array
      [.object [("StepNumber", .number 7), ("StepStatus", .string (text "results")), ("ResultFiles", .array [])],
        .object [("StepNumber", .number 3), ("StepStatus", .string (text "continue"))]]),
    ("ExternalAgentStatus", .string (text "running"))]

def clientDoneAnswers : Answers where
  agent := true
  response := some [1]
  download := fun _ => true
  alloc := fun _ => true
  upload := fun _ => true

theorem status_clientDone : clientDoneAnswers.status (bytesLib clientDone [1]) =
    some ⟨text "agent", 2, .running, [⟨7, .results, [], []⟩, ⟨3, .cont, [], []⟩]⟩ := by
  rw [status_bytesLib clientDoneAnswers clientDone [1] rfl rfl]
  decide +kernel

/-- The completed client makes the server's poll stop the agent. -/
theorem clientDone_stops : ∃ s, Run (next (bytesLib clientDone [1])) (fun _ _ => True) ⟨server, []⟩ s ∧
    (∃ e log, s.log = .stop (.entry e) :: log ∧ e.stepNumber = 7) ∧ ¬ Sound numberedSeven s.log := by
  have hreply : (St.mk server []).reply (bytesLib clientDone [1]) clientDoneAnswers =
      some ⟨text "agent", 2, .running, [⟨7, .results, [], []⟩, ⟨3, .cont, [], []⟩]⟩ := status_clientDone
  have hstops : (stepTimeout (bytesLib clientDone [1]) clientDoneAnswers server).stops =
      (search 3 [⟨7, .results, [], []⟩, ⟨3, .cont, [], []⟩]).2 := by
    rw [stops_eq ⟨server, []⟩ clientDoneAnswers, hreply]
    rfl
  have hnext : next (bytesLib clientDone [1]) ⟨server, []⟩ clientDoneAnswers =
      some ⟨(stepTimeout (bytesLib clientDone [1]) clientDoneAnswers server).step,
        [.stop (.entry ⟨7, .results, [], []⟩),
          .reply ⟨text "agent", 2, .running, [⟨7, .results, [], []⟩, ⟨3, .cont, [], []⟩]⟩]⟩ := by
    simp only [next, hstops, hreply]
    rfl
  refine ⟨_, .single trivial hnext, ⟨_, _, rfl, rfl⟩, fun hsound => ?_⟩
  obtain ⟨-, step, hstep, hnumber, hstop⟩ := hsound.1.2
  rcases List.mem_cons.mp hstep with rfl | hstep
  · cases hnumber
  · rw [List.mem_singleton.mp hstep] at hstop
    exact absurd hstop.2 (by decide)

end Example

end OneWifiTestSuite.IperfPolling
