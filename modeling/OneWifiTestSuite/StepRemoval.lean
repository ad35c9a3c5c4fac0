import OneWifiTestSuite.MainLoop

/-!
# The removal of the decoded steps

`decode_step_config` queues steps in a new configuration, and `step_remove` is called in one place
only: the loops with which `cci_report_pause_to_tda` and `cci_report_failure_to_tda` free the
configurations. Both reports follow an `upload_results`, which has popped and deleted every
configuration already.

The state carries the history of the steps and of their configurations. A tally of every function
(`Tally`) counts the steps that it queues and removes: `next_tally` finds that no step is ever
removed, so that `removes_iff` leaves the runs that queue none.
-/

namespace OneWifiTestSuite.StepRemoval

open Runs Steps MainLoop

/-- What happens to the steps and to the configurations, which are numbered as they are made. -/
inductive Event
  | queued (config step : ℕ)
  | accessed (step : ℕ)
  | removed (step : ℕ)
  | deleted (config : ℕ)
deriving DecidableEq, Repr

def Event.isQueued : Event → Bool
  | .queued _ _ => true
  | _ => false

def Event.isRemoved : Event → Bool
  | .removed _ => true
  | _ => false

/-- `wlan_emu_test_case_config`, with `test_steps_q`, index 0 first. -/
structure Config where
  ident : ℕ
  category : Category
  steps : List ℕ
deriving DecidableEq, Repr

structure Suite where
  state : TestState
  pc : LoopPc
  /-- `test_cov_cases_q`, index 0 first -/
  queue : List Config
  /-- posted signals that have not been read -/
  pending : List Sig
  nextConfig : ℕ
  nextStep : ℕ
  /-- the process is gone: the device restarts, or a NULL configuration was read -/
  stopped : Bool
  /-- all that has happened, the oldest first -/
  log : List Event
deriving DecidableEq, Repr

def init : Suite where
  state := .wait
  pc := .turn
  queue := []
  pending := []
  nextConfig := 0
  nextStep := 0
  stopped := false
  log := []

def Suite.add (s : Suite) (events : List Event) : Suite :=
  { s with log := s.log ++ events }

def Suite.post (s : Suite) (sigs : List Sig) : Suite :=
  { s with pending := s.pending ++ sigs }

/-! ### The request -/

/-- What `decode_step_config` does with a step of the document: `check_reboot_step_config` skips
it, or it is decoded or not. -/
inductive StepEntry
  | skipped
  | decoded
  | rejected
deriving DecidableEq, Repr

/-- An entry of `TestCoverages`: whether its fields are accepted before the steps are decoded, and
whether its `TestCaseId` is, after them. -/
structure CoverageEntry where
  category : Category
  accepted : Bool
  steps : List StepEntry
  testCaseId : Bool
deriving DecidableEq, Repr

/-- What `run` gets for a request: the external agents, the document, the files of the steps and
the file of the results. -/
structure Request where
  agents : Bool
  fetched : Bool
  entries : List CoverageEntry
  downloaded : ℕ → Bool
  opened : Bool

/-- `decode_step_config`. -/
def decodeStepConfig : Suite → Config → List StepEntry → Suite × Config × Bool
  | s, c, [] => (s, c, true)
  | s, c, .skipped :: steps => decodeStepConfig s c steps
  | s, c, .rejected :: _ => (s, c, false)
  | s, c, .decoded :: steps =>
      decodeStepConfig ({ s with nextStep := s.nextStep + 1 }.add [.queued c.ident s.nextStep])
        { c with steps := s.nextStep :: c.steps } steps

/-- `decode_coverage_config`; the configuration of a failed one is lost. -/
def decodeCoverageConfig (s : Suite) (category : Category) (steps : List StepEntry) :
    Suite × Option Config :=
  match decodeStepConfig { s with nextConfig := s.nextConfig + 1 } ⟨s.nextConfig, category, []⟩ steps with
  | (s, c, true) => (s, some c)
  | (s, _, false) => (s, none)

/-- `push_config_to_queue`. -/
def pushConfigToQueue (s : Suite) (c : Config) : Suite :=
  { s with queue := c :: s.queue }

/-- `decode_coverage_1_config` and its siblings. -/
def decodeCoverageEntry (s : Suite) (e : CoverageEntry) : Suite × Bool :=
  if e.accepted = false then (s, false)
  else
    match decodeCoverageConfig s e.category e.steps with
    | (s, none) => (s, false)
    | (s, some c) => if e.testCaseId = false then (s, false) else (pushConfigToQueue s c, true)

/-- The loop of `decode_json_config`. -/
def decodeJsonConfig : Suite → List CoverageEntry → Suite × Bool
  | s, [] => (s, true)
  | s, e :: es =>
      match decodeCoverageEntry s e with
      | (s, true) => decodeJsonConfig s es
      | (s, false) => (s, false)

/-- The inner loop of `download_test_files`. -/
def downloadSteps (downloaded : ℕ → Bool) : Suite → List ℕ → Suite × Bool
  | s, [] => (s, true)
  | s, step :: steps =>
      if downloaded step then downloadSteps downloaded (s.add [.accessed step]) steps
      else (s.add [.accessed step], false)

def downloadConfigs (downloaded : ℕ → Bool) : Suite → List Config → Suite × Bool
  | s, [] => (s, true)
  | s, c :: cs =>
      if c.steps = [] then (s, false)
      else
        match downloadSteps downloaded s c.steps with
        | (s, true) => downloadConfigs downloaded s cs
        | (s, false) => (s, false)

/-- `download_test_files`. -/
def downloadTestFiles (s : Suite) (downloaded : ℕ → Bool) : Suite × Bool :=
  if s.queue = [] then (s, false) else downloadConfigs downloaded s s.queue

/-- `analyze_request`. -/
def analyzeRequest (s : Suite) (r : Request) : Suite × Bool :=
  if r.fetched = false then (s, false)
  else
    match decodeJsonConfig s r.entries with
    | (s, false) => (s, false)
    | (s, true) =>
        match downloadTestFiles s r.downloaded with
        | (s, false) => (s, false)
        | (s, true) => (s, r.opened)

/-! ### Results and reports -/

/-- `upload_results`, and whether the file list is uploaded: it pops the configurations one by
one and deletes them. -/
def uploadResults (s : Suite) (uploaded : Bool) : Suite × Bool :=
  if s.queue = [] then (s, false)
  else (s.queue.reverse.foldl (fun s c => s.add [.deleted c.ident]) { s with queue := [] }, uploaded)

/-- The loop that pops the steps of a configuration and removes them. -/
def removeSteps (s : Suite) (c : Config) : Suite :=
  c.steps.reverse.foldl (fun s step => s.add [.removed step]) s

/-- The loop that pops the configurations, at the end of `cci_report_pause_to_tda`,
`cci_report_failure_to_tda` and `cci_report_factory_reset_to_tda` (which nobody calls). -/
def freeQueue (s : Suite) : Suite :=
  s.queue.reverse.foldl (fun s c => (removeSteps s c).add [.deleted c.ident]) { s with queue := [] }

/-- `cci_report_pause_to_tda`, and whether its message is posted. -/
def reportPause (s : Suite) (posted : Bool) : Suite :=
  if posted then freeQueue s else s

/-- `cci_report_failure_to_tda`, and whether its message is posted. -/
def reportFailure (s : Suite) (posted : Bool) : Suite :=
  if posted then freeQueue s else s

/-! ### The tests -/

/-- The end of `step_execute` of an upgrade or reboot step. -/
structure Reboot where
  uploaded : Bool
  posted : Bool
  restarted : Bool
  /-- the steps that the thread reads afterwards -/
  later : List ℕ
deriving DecidableEq, Repr

/-- What the thread of a test does: the indices of the steps it reads, the reboot step that it
may come to, and its end by `test_done`, by `test_fail` or without a signal. -/
structure TestRun where
  accesses : List ℕ
  reboot : Option Reboot
  outcome : Option Bool
deriving DecidableEq, Repr

/-- `get_step_from_index` and the use of the step that it finds. -/
def accessSteps (s : Suite) (c : Config) (indices : List ℕ) : Suite :=
  s.add ((indices.filterMap fun i => c.steps[i]?).map .accessed)

def endTest (s : Suite) (c : Config) : Option Bool → Suite
  | some true => s.post (signalTestDone c.category.toCoverage)
  | some false => s.post [.fail]
  | none => s

/-- `start` of a test: its thread is joined. A thread without steps ends at once. -/
def runTest (s : Suite) (c : Config) (t : TestRun) : Suite :=
  if c.steps = [] then s
  else
    match t.reboot with
    | none => endTest (accessSteps s c t.accesses) c t.outcome
    | some r =>
        let paused := reportPause (uploadResults (accessSteps s c t.accesses) r.uploaded).1 r.posted
        if r.posted && r.restarted then { paused with stopped := true }
        else endTest (accessSteps paused c r.later) c t.outcome

/-- The loop of `start_test` over the indices; the queue may have become empty meanwhile. -/
def runTests (runs : ℕ → TestRun) : Suite → List ℕ → Suite
  | s, [] => s
  | s, i :: is =>
      match s.queue[i]? with
      | none => { s with stopped := true }
      | some c =>
          if (runTest s c (runs i)).stopped then runTest s c (runs i)
          else runTests runs (runTest s c (runs i)) is

/-! ### The loop -/

/-- A turn of the switch in `run`, with what the calls in it find. -/
inductive Turn
  | idle
  | request (r : Request)
  | start (runs : ℕ → TestRun)
  | results (uploaded posted : Bool)
  | abort (uploaded posted : Bool)

def requestTurn (s : Suite) (r : Request) : Suite :=
  if r.agents = false then s.post [.fail]
  else
    match analyzeRequest s r with
    | (s, true) => s.post [.analysis]
    | (s, false) => s.post [.fail]

def startTurn (s : Suite) (runs : ℕ → TestRun) : Suite :=
  if s.queue = [] then s.post [.fail]
  else { runTests runs s (List.range s.queue.length) with state := .wait }

def resultsTurn (s : Suite) (uploaded posted : Bool) : Suite :=
  match uploadResults s uploaded with
  | (s, true) => s.post [.results]
  | (s, false) => { reportFailure s posted with state := .wait }

/-- `abort_test` has no test to stop. -/
def abortTurn (s : Suite) (uploaded posted : Bool) : Suite :=
  { reportFailure (uploadResults s uploaded).1 posted with state := .wait }

def turn (s : Suite) : Turn → Option Suite
  | .idle => if s.state = .none ∨ s.state = .wait ∨ s.state = .cont then some s else none
  | .request r => if s.state = .request then some (requestTurn s r) else none
  | .start runs => if s.state = .start then some (startTurn s runs) else none
  | .results uploaded posted =>
      if s.state = .results then some (resultsTurn s uploaded posted) else none
  | .abort uploaded posted =>
      if s.state = .abort then some (abortTurn s uploaded posted) else none

/-- The loop moves, a new request or an external abort comes, or `select` fails. -/
inductive Action
  | turn (t : Turn)
  | pick (index : ℕ)
  | input
  | abort
  | interrupted

def next (s : Suite) : Action → Option Suite
  | .turn t =>
      if s.stopped = false ∧ s.pc = .turn then
        match turn s t with
        | none => none
        | some s => some { s with pc := .select }
      else none
  | .pick index =>
      if s.stopped = false ∧ s.pc = .select then
        match s.pending[index]? with
        | none => none
        | some sig =>
            some { s with state := updateState sig, pending := s.pending.eraseIdx index, pc := .turn }
      else none
  | .input => some (s.post [.input])
  | .abort => some (s.post [.fail])
  | .interrupted =>
      if s.stopped = false ∧ s.pc = .select then
        some { s with state := updateState .max, pc := .turn }
      else none

/-- The loop waits, and no signal is left. -/
def Ended (s : Suite) : Prop :=
  s.stopped = false ∧ s.pc = .select ∧ s.pending = []

/-- Each queued step is removed exactly once by the end of the run, before its configuration is
deleted, and never used afterwards. -/
structure Removes (s : Suite) : Prop where
  once : Ended s → ∀ config step, .queued config step ∈ s.log → s.log.count (.removed step) = 1
  first : ∀ config step before after, s.log = before ++ .deleted config :: after →
    .queued config step ∈ s.log → .removed step ∈ before
  unused : ∀ step before after, s.log = before ++ .removed step :: after → .accessed step ∉ after

/-! ### How many steps a request queues -/

def queuedSteps : List StepEntry → ℕ
  | [] => 0
  | .skipped :: steps => queuedSteps steps
  | .rejected :: _ => 0
  | .decoded :: steps => queuedSteps steps + 1

/-- The entry is decoded to its end. -/
def CoverageEntry.Decodes (e : CoverageEntry) : Prop :=
  e.accepted = true ∧ .rejected ∉ e.steps ∧ e.testCaseId = true

instance (e : CoverageEntry) : Decidable e.Decodes := by
  unfold CoverageEntry.Decodes
  infer_instance

def queuedEntries : List CoverageEntry → ℕ
  | [] => 0
  | e :: es =>
      (if e.accepted then queuedSteps e.steps else 0) + if e.Decodes then queuedEntries es else 0

def Action.queued : Action → ℕ
  | .turn (.request r) => if r.agents && r.fetched then queuedEntries r.entries else 0
  | _ => 0

/-! ### The tally of a function -/

/-- From `s` to `s'`, `n` steps are queued and none is removed. -/
structure Tally (n : ℕ) (s s' : Suite) : Prop where
  queued : s'.log.countP Event.isQueued = s.log.countP Event.isQueued + n
  removed : s'.log.countP Event.isRemoved = s.log.countP Event.isRemoved

section Tallies

variable {s t u : Suite} {m n : ℕ}

theorem Tally.trans (h : Tally m s t) (h' : Tally n t u) : Tally (m + n) s u := by
  refine ⟨?_, ?_⟩
  · have := h.queued
    have := h'.queued
    omega
  · rw [h'.removed, h.removed]

theorem Tally.of_log (h : t.log = s.log) : Tally 0 s t := by
  refine ⟨?_, ?_⟩ <;> rw [h]
  rfl

/-- A change that leaves the history alone does not change the tally. -/
theorem Tally.log_right (h : Tally n s t) (hlog : u.log = t.log) : Tally n s u := by
  have := h.trans (Tally.of_log hlog)
  rwa [Nat.add_zero] at this

theorem Tally.then_quiet (h : Tally n s t) (h' : Tally 0 t u) : Tally n s u := by
  have := h.trans h'
  rwa [Nat.add_zero] at this

/-- Events other than removals add what they queue. -/
theorem tally_add (s : Suite) {events : List Event} (hremoved : ∀ e ∈ events, e.isRemoved = false)
    (hqueued : events.countP Event.isQueued = n) : Tally n s (s.add events) := by
  have hnone : events.countP Event.isRemoved = 0 := by
    rw [List.countP_eq_zero]
    intro e he
    rw [hremoved e he]
    exact Bool.false_ne_true
  refine ⟨?_, ?_⟩
  · unfold Suite.add
    rw [List.countP_append, hqueued]
  · unfold Suite.add
    rw [List.countP_append, hnone, Nat.add_zero]

theorem tally_accesses (s : Suite) (steps : List ℕ) : Tally 0 s (s.add (steps.map .accessed)) := by
  apply tally_add
  · intro e he
    obtain ⟨step, _, rfl⟩ := List.mem_map.mp he
    rfl
  · rw [List.countP_eq_zero]
    intro e he
    obtain ⟨step, _, rfl⟩ := List.mem_map.mp he
    exact Bool.false_ne_true

/-- A loop whose turns queue and remove nothing. -/
theorem tally_foldl {α : Type} {f : Suite → α → Suite} (hf : ∀ s a, Tally 0 s (f s a)) (l : List α)
    (s : Suite) : Tally 0 s (l.foldl f s) := by
  induction l generalizing s with
  | nil =>
      exact Tally.of_log rfl
  | cons a l ih =>
      exact (hf s a).then_quiet (ih (f s a))

end Tallies

section Decoding

theorem decodeStepConfig_tally (steps : List StepEntry) (s : Suite) (c : Config) :
    Tally (queuedSteps steps) s (decodeStepConfig s c steps).1 ∧
      ((decodeStepConfig s c steps).2.2 = true ↔ .rejected ∉ steps) := by
  induction steps generalizing s c with
  | nil =>
      refine ⟨Tally.of_log rfl, ?_⟩
      simp [decodeStepConfig]
  | cons entry steps ih =>
      cases entry with
      | skipped =>
          obtain ⟨htally, hok⟩ := ih s c
          refine ⟨htally, ?_⟩
          rw [decodeStepConfig, hok]
          simp
      | rejected =>
          refine ⟨Tally.of_log rfl, ?_⟩
          simp [decodeStepConfig]
      | decoded =>
          obtain ⟨htally, hok⟩ := ih
            ({ s with nextStep := s.nextStep + 1 }.add [.queued c.ident s.nextStep])
            { c with steps := s.nextStep :: c.steps }
          have hname : Tally 0 s { s with nextStep := s.nextStep + 1 } := Tally.of_log rfl
          have hqueue : Tally 1 { s with nextStep := s.nextStep + 1 }
              ({ s with nextStep := s.nextStep + 1 }.add [.queued c.ident s.nextStep]) :=
            tally_add _ (by simp [Event.isRemoved]) rfl
          refine ⟨?_, ?_⟩
          · have := hname.trans (hqueue.trans htally)
            rwa [Nat.zero_add, Nat.add_comm] at this
          · rw [decodeStepConfig, hok]
            simp

theorem decodeCoverageConfig_tally (s : Suite) (category : Category) (steps : List StepEntry) :
    Tally (queuedSteps steps) s (decodeCoverageConfig s category steps).1 ∧
      ((decodeCoverageConfig s category steps).2.isSome = true ↔ .rejected ∉ steps) := by
  obtain ⟨htally, hok⟩ := decodeStepConfig_tally steps { s with nextConfig := s.nextConfig + 1 }
    ⟨s.nextConfig, category, []⟩
  unfold decodeCoverageConfig
  rcases h : decodeStepConfig { s with nextConfig := s.nextConfig + 1 } ⟨s.nextConfig, category, []⟩
    steps with ⟨s', c, _ | _⟩
  all_goals
    rw [h] at htally hok
    exact ⟨⟨htally.queued, htally.removed⟩, by simpa using hok⟩

theorem decodeCoverageEntry_tally (s : Suite) (e : CoverageEntry) :
    Tally (if e.accepted then queuedSteps e.steps else 0) s (decodeCoverageEntry s e).1 ∧
      ((decodeCoverageEntry s e).2 = true ↔ e.Decodes) := by
  unfold decodeCoverageEntry CoverageEntry.Decodes
  by_cases haccepted : e.accepted = true
  · obtain ⟨htally, hok⟩ := decodeCoverageConfig_tally s e.category e.steps
    rcases h : decodeCoverageConfig s e.category e.steps with ⟨s', _ | c⟩
    all_goals rw [h] at htally hok
    · refine ⟨by simpa [haccepted] using htally, ?_⟩
      simp only [Option.isSome_none, Bool.false_eq_true, false_iff] at hok
      simp [haccepted, hok]
    · simp only [Option.isSome_some, true_iff] at hok
      by_cases hid : e.testCaseId = true
      · have hpush : Tally (queuedSteps e.steps) s (pushConfigToQueue s' c) := htally.log_right rfl
        refine ⟨by simpa [haccepted, hid] using hpush, ?_⟩
        simp [haccepted, hid, hok]
      · refine ⟨by simpa [haccepted, hid] using htally, ?_⟩
        simp [haccepted, hid]
  · refine ⟨by simpa [haccepted] using Tally.of_log rfl, ?_⟩
    simp [haccepted]

theorem decodeJsonConfig_tally (entries : List CoverageEntry) (s : Suite) :
    Tally (queuedEntries entries) s (decodeJsonConfig s entries).1 := by
  induction entries generalizing s with
  | nil =>
      exact Tally.of_log rfl
  | cons e es ih =>
      obtain ⟨htally, hok⟩ := decodeCoverageEntry_tally s e
      unfold decodeJsonConfig queuedEntries
      rcases h : decodeCoverageEntry s e with ⟨s', _ | _⟩
      all_goals rw [h] at htally hok
      · have hnot : ¬e.Decodes := fun hdec => Bool.false_ne_true (hok.mpr hdec)
        rw [if_neg hnot, Nat.add_zero]
        exact htally
      · rw [if_pos (hok.mp rfl)]
        exact htally.trans (ih s')

theorem downloadSteps_tally (downloaded : ℕ → Bool) (steps : List ℕ) (s : Suite) :
    Tally 0 s (downloadSteps downloaded s steps).1 := by
  induction steps generalizing s with
  | nil =>
      exact Tally.of_log rfl
  | cons step steps ih =>
      have haccess := tally_accesses s [step]
      unfold downloadSteps
      by_cases hok : downloaded step = true
      · rw [if_pos hok]
        exact haccess.then_quiet (ih _)
      · rw [if_neg hok]
        exact haccess

theorem downloadConfigs_tally (downloaded : ℕ → Bool) (configs : List Config) (s : Suite) :
    Tally 0 s (downloadConfigs downloaded s configs).1 := by
  induction configs generalizing s with
  | nil =>
      exact Tally.of_log rfl
  | cons c cs ih =>
      unfold downloadConfigs
      by_cases hnil : c.steps = []
      · rw [if_pos hnil]
        exact Tally.of_log rfl
      · have hsteps := downloadSteps_tally downloaded c.steps s
        rw [if_neg hnil]
        rcases h : downloadSteps downloaded s c.steps with ⟨s', _ | _⟩
        all_goals rw [h] at hsteps
        · exact hsteps
        · exact hsteps.then_quiet (ih s')

theorem analyzeRequest_tally (s : Suite) (r : Request) :
    Tally (if r.fetched then queuedEntries r.entries else 0) s (analyzeRequest s r).1 := by
  unfold analyzeRequest
  by_cases hfetched : r.fetched = true
  · have hdecode := decodeJsonConfig_tally r.entries s
    rcases h : decodeJsonConfig s r.entries with ⟨s', _ | _⟩
    all_goals rw [h] at hdecode
    · simpa [hfetched] using hdecode
    · have hfiles : Tally 0 s' (downloadTestFiles s' r.downloaded).1 := by
        unfold downloadTestFiles
        by_cases hnil : s'.queue = []
        · rw [if_pos hnil]
          exact Tally.of_log rfl
        · rw [if_neg hnil]
          exact downloadConfigs_tally _ _ s'
      have hboth := hdecode.then_quiet hfiles
      rcases h' : downloadTestFiles s' r.downloaded with ⟨s'', _ | _⟩
      all_goals
        rw [h'] at hboth
        simpa [hfetched, h'] using hboth
  · simpa [hfetched] using Tally.of_log rfl

end Decoding

section Freeing

theorem uploadResults_tally (s : Suite) (uploaded : Bool) :
    Tally 0 s (uploadResults s uploaded).1 := by
  unfold uploadResults
  by_cases hnil : s.queue = []
  · rw [if_pos hnil]
    exact Tally.of_log rfl
  · rw [if_neg hnil]
    have hquiet : Tally 0 s { s with queue := [] } := Tally.of_log rfl
    apply hquiet.then_quiet
    apply tally_foldl
    intro s c
    exact tally_add s (by simp [Event.isRemoved]) rfl

theorem foldl_add_queue {α : Type} {f : Suite → α → Suite} (hf : ∀ s a, (f s a).queue = s.queue)
    (l : List α) (s : Suite) : (l.foldl f s).queue = s.queue := by
  induction l generalizing s with
  | nil =>
      rfl
  | cons a l ih =>
      rw [List.foldl_cons, ih, hf]

/-- `upload_results` leaves no configuration behind, whatever it returns. -/
theorem uploadResults_queue (s : Suite) (uploaded : Bool) : (uploadResults s uploaded).1.queue = [] := by
  unfold uploadResults
  by_cases hnil : s.queue = []
  · rw [if_pos hnil]
    exact hnil
  · rw [if_neg hnil]
    show (List.foldl _ { s with queue := [] } s.queue.reverse).queue = []
    rw [foldl_add_queue]
    intro t c
    rfl

end Freeing

section Turns

variable {s s' : Suite}

theorem freeQueue_nil (h : s.queue = []) : (freeQueue s).log = s.log := by
  unfold freeQueue
  rw [h]
  rfl

/-- After `upload_results` the loops of a report have nothing to free. -/
theorem reportFailure_tally (s : Suite) (uploaded posted : Bool) :
    Tally 0 s (reportFailure (uploadResults s uploaded).1 posted) := by
  have hupload := uploadResults_tally s uploaded
  unfold reportFailure
  cases posted with
  | true =>
      exact hupload.log_right (freeQueue_nil (uploadResults_queue s uploaded))
  | false =>
      exact hupload

theorem reportPause_eq : reportPause = reportFailure := rfl

theorem endTest_log (s : Suite) (c : Config) (outcome : Option Bool) :
    (endTest s c outcome).log = s.log := by
  rcases outcome with _ | _ | _ <;> rfl

theorem runTest_tally (s : Suite) (c : Config) (t : TestRun) : Tally 0 s (runTest s c t) := by
  unfold runTest
  by_cases hnil : c.steps = []
  · rw [if_pos hnil]
    exact Tally.of_log rfl
  · rw [if_neg hnil]
    have hearly : Tally 0 s (accessSteps s c t.accesses) := tally_accesses s _
    cases t.reboot with
    | none =>
        exact hearly.log_right (endTest_log _ c t.outcome)
    | some r =>
        have hpause := hearly.then_quiet (reportFailure_tally _ r.uploaded r.posted)
        rw [← reportPause_eq] at hpause
        dsimp only
        by_cases hrestart : (r.posted && r.restarted) = true
        · rw [if_pos hrestart]
          exact hpause.log_right rfl
        · rw [if_neg hrestart]
          have hlate := hpause.then_quiet (tally_accesses _ (r.later.filterMap fun i => c.steps[i]?))
          exact hlate.log_right (endTest_log _ c t.outcome)

theorem runTests_tally (runs : ℕ → TestRun) (indices : List ℕ) (s : Suite) :
    Tally 0 s (runTests runs s indices) := by
  induction indices generalizing s with
  | nil =>
      exact Tally.of_log rfl
  | cons i is ih =>
      unfold runTests
      cases hconfig : s.queue[i]? with
      | none =>
          exact Tally.of_log rfl
      | some c =>
          have htest := runTest_tally s c (runs i)
          dsimp only
          by_cases hstopped : (runTest s c (runs i)).stopped = true
          · rw [if_pos hstopped]
            exact htest
          · rw [if_neg hstopped]
            exact htest.then_quiet (ih _)

theorem post_tally {n : ℕ} {s t : Suite} (h : Tally n s t) (sigs : List Sig) : Tally n s (t.post sigs) :=
  h.log_right rfl

theorem requestTurn_tally (s : Suite) (r : Request) :
    Tally (Action.turn (.request r)).queued s (requestTurn s r) := by
  unfold requestTurn
  cases hagents : r.agents with
  | true =>
      have htally := analyzeRequest_tally s r
      have hqueued : (Action.turn (.request r)).queued = if r.fetched then queuedEntries r.entries else 0 := by
        simp [Action.queued, hagents]
      have htrue : ¬(true = false) := by decide
      rw [hqueued, if_neg htrue]
      rcases h : analyzeRequest s r with ⟨s', _ | _⟩
      all_goals rw [h] at htally
      · exact post_tally htally [.fail]
      · exact post_tally htally [.analysis]
  | false =>
      have hqueued : (Action.turn (.request r)).queued = 0 := by
        simp [Action.queued, hagents]
      rw [hqueued, if_pos rfl]
      exact post_tally (Tally.of_log rfl) [.fail]

theorem startTurn_tally (s : Suite) (runs : ℕ → TestRun) : Tally 0 s (startTurn s runs) := by
  unfold startTurn
  by_cases hnil : s.queue = []
  · rw [if_pos hnil]
    exact Tally.of_log rfl
  · rw [if_neg hnil]
    exact (runTests_tally runs _ s).log_right rfl

theorem resultsTurn_tally (s : Suite) (uploaded posted : Bool) :
    Tally 0 s (resultsTurn s uploaded posted) := by
  have hupload := uploadResults_tally s uploaded
  have hreport := reportFailure_tally s uploaded posted
  unfold resultsTurn
  rcases h : uploadResults s uploaded with ⟨s', _ | _⟩
  all_goals rw [h] at hupload hreport
  · exact hreport.log_right rfl
  · exact hupload.log_right rfl

theorem turn_tally {t : Turn} (h : turn s t = some s') : Tally (Action.turn t).queued s s' := by
  cases t with
  | idle =>
      simp only [turn, Option.ite_none_right_eq_some, Option.some.injEq] at h
      obtain ⟨_, rfl⟩ := h
      exact Tally.of_log rfl
  | request r =>
      simp only [turn, Option.ite_none_right_eq_some, Option.some.injEq] at h
      obtain ⟨_, rfl⟩ := h
      exact requestTurn_tally s r
  | start runs =>
      simp only [turn, Option.ite_none_right_eq_some, Option.some.injEq] at h
      obtain ⟨_, rfl⟩ := h
      exact startTurn_tally s runs
  | results uploaded posted =>
      simp only [turn, Option.ite_none_right_eq_some, Option.some.injEq] at h
      obtain ⟨_, rfl⟩ := h
      exact resultsTurn_tally s uploaded posted
  | abort uploaded posted =>
      simp only [turn, Option.ite_none_right_eq_some, Option.some.injEq] at h
      obtain ⟨_, rfl⟩ := h
      exact (reportFailure_tally s uploaded posted).log_right rfl

/-- A step of the loop queues what its request says, and removes nothing. -/
theorem next_tally {a : Action} (h : next s a = some s') : Tally a.queued s s' := by
  cases a with
  | turn t =>
      unfold next at h
      simp only [Option.ite_none_right_eq_some] at h
      obtain ⟨_, h⟩ := h
      cases hturn : turn s t with
      | none =>
          simp [hturn] at h
      | some u =>
          simp only [hturn, Option.some.injEq] at h
          subst h
          exact (turn_tally hturn).log_right rfl
  | pick index =>
      unfold next at h
      simp only [Option.ite_none_right_eq_some] at h
      obtain ⟨_, h⟩ := h
      cases hsig : s.pending[index]? with
      | none =>
          simp [hsig] at h
      | some sig =>
          simp only [hsig, Option.some.injEq] at h
          subst h
          exact Tally.of_log rfl
  | input | abort =>
      cases h
      exact Tally.of_log rfl
  | interrupted =>
      simp only [next, Option.ite_none_right_eq_some, Option.some.injEq] at h
      obtain ⟨_, rfl⟩ := h
      exact Tally.of_log rfl

/-- **No step is removed in any run, and the queued ones are those that the requests queue.** -/
theorem execTo_tally {as : List Action} (h : execTo next s as = some s') :
    Tally (as.map Action.queued).sum s s' := by
  induction as generalizing s with
  | nil =>
      cases h
      exact Tally.of_log rfl
  | cons a as ih =>
      rw [execTo_cons] at h
      obtain ⟨t, hnext, hrest⟩ := Option.bind_eq_some_iff.mp h
      rw [List.map_cons, List.sum_cons]
      exact (next_tally hnext).trans (ih hrest)

end Turns

/-! ### Which runs remove their steps -/

section Removals

variable {as : List Action} {s : Suite}

theorem not_removed_mem (h : execTo next init as = some s) (step : ℕ) : .removed step ∉ s.log := by
  intro hmem
  have hzero : s.log.countP Event.isRemoved = 0 := (execTo_tally h).removed
  exact List.countP_eq_zero.mp hzero _ hmem rfl

theorem countP_queued (h : execTo next init as = some s) :
    s.log.countP Event.isQueued = (as.map Action.queued).sum := by
  have := (execTo_tally h).queued
  rwa [show init.log.countP Event.isQueued = 0 from rfl, Nat.zero_add] at this

/-- In every state of a run whose requests queue no step the steps are removed as they should be,
and a run that has ended with all of them removed has queued none. -/
theorem removes_iff (h : execTo next init as = some s) :
    ((∀ a ∈ as, a.queued = 0) → Removes s) ∧
      (Ended s → (Removes s ↔ ∀ a ∈ as, a.queued = 0)) := by
  have hcount := countP_queued h
  have hempty : (∀ a ∈ as, a.queued = 0) → Removes s := by
    intro hnone
    have hsum : (as.map Action.queued).sum = 0 := by
      rw [List.sum_eq_zero_iff]
      intro n hn
      obtain ⟨a, ha, rfl⟩ := List.mem_map.mp hn
      exact hnone a ha
    rw [hsum, List.countP_eq_zero] at hcount
    refine ⟨?_, ?_, ?_⟩
    · intro _ config step hmem
      exact absurd rfl (hcount _ hmem)
    · intro config step _ _ _ hmem
      exact absurd rfl (hcount _ hmem)
    · intro step before after hlog
      have hmem : Event.removed step ∈ s.log := by
        rw [hlog]
        exact List.mem_append_right _ List.mem_cons_self
      exact absurd hmem (not_removed_mem h step)
  refine ⟨hempty, fun hended => ⟨?_, hempty⟩⟩
  intro hremoves a ha
  by_contra hqueued
  have hpos : 0 < s.log.countP Event.isQueued := by
    rw [hcount]
    have := List.single_le_sum (fun _ _ => Nat.zero_le _) _ (List.mem_map_of_mem (f := Action.queued) ha)
    omega
  obtain ⟨e, he, hisq⟩ := List.countP_pos_iff.mp hpos
  cases e with
  | queued config step =>
      have hone := hremoves.once hended config step he
      have hmem : Event.removed step ∈ s.log := by
        apply List.count_pos_iff.mp
        omega
      exact not_removed_mem h step hmem
  | accessed step | removed step | deleted config =>
      exact absurd hisq Bool.false_ne_true

end Removals

/-! ### Two runs -/

/-- A request with one coverage entry. -/
def request (steps : List StepEntry) : Request where
  agents := true
  fetched := true
  entries := [⟨.coverage1, true, steps, true⟩]
  downloaded := fun _ => true
  opened := true

/-- The step of the request cannot be decoded, and the run is aborted. -/
def rejectedRun : List Action :=
  [.turn .idle, .input, .pick 0, .turn (.request (request [.rejected])), .pick 0,
    .turn (.abort true true)]

/-- The only step of the test is executed, and the results are uploaded. -/
def completedRun : List Action :=
  [.turn .idle, .input, .pick 0, .turn (.request (request [.decoded])), .pick 0,
    .turn (.start fun _ => ⟨[0], none, some true⟩), .pick 0, .turn (.results true true), .pick 0,
    .turn .idle]

def rejectedEnd : Suite :=
  { init with pc := .select, nextConfig := 1 }

theorem removes_iff_rejected :
    execTo next init rejectedRun = some rejectedEnd ∧ Ended rejectedEnd ∧ Removes rejectedEnd := by
  have h : execTo next init rejectedRun = some rejectedEnd := rfl
  refine ⟨h, ⟨rfl, rfl, rfl⟩, (removes_iff h).1 ?_⟩
  intro a ha
  simp only [rejectedRun, List.mem_cons, List.not_mem_nil, or_false] at ha
  rcases ha with rfl | rfl | rfl | rfl | rfl | rfl <;> rfl

def completedEnd : Suite :=
  { init with
    pc := .select
    nextConfig := 1
    nextStep := 1
    log := [.queued 0 0, .accessed 0, .accessed 0, .deleted 0] }

/-- A completed run deletes the configuration of a step that was never removed. -/
theorem not_removes_completed :
    ¬∀ as s, execTo next init as = some s → Removes s := by
  intro hall
  have hremoves := hall completedRun completedEnd rfl
  have hone := hremoves.once ⟨rfl, rfl, rfl⟩ 0 0 (by decide)
  exact absurd hone (by decide)

end OneWifiTestSuite.StepRemoval
