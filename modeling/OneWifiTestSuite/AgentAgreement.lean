import OneWifiTestSuite.AgentPolling
import OneWifiTestSuite.Runs

/-!
# Agreement of the gateway with its agent

The whole exchange about the steps that the gateway hands to an external agent, over every order of what the
two sides do: the gateway posts a step, the agent's thread takes it into `test_steps_q`, what the step runs
changes it while it waits or goes on, a tick of `test_function` times the steps out and publishes their status,
and the gateway polls that status. A reply may be any document that was published so far, since a reply can be
on its way while the agent goes on.

The result: the gateway has no results that the agent has not (`agreement_of_run`), what it downloads are the
files of the agent's step, and a poll that reads a status ends its step exactly as the status says.
One test of the agent is followed; the `stop` command, which ends it, is left out.
-/

namespace OneWifiTestSuite.AgentAgreement

open ByteRegion RebootFile AgentJson AgentStatus AgentPolling
open Steps (TestState)
open StepTypes (AgentState)
open Runs (Run run_invariant)

/-! ### The two sides -/

section Model

/-- The steps of the gateway that an agent executes. -/
inductive Kind
  | extSta
  | ethLanClient
deriving DecidableEq

def Kind.poller : Kind → Poller
  | .extSta => AgentPolling.extSta
  | .ethLanClient => AgentPolling.ethLanClient

/-- A step of the gateway. -/
structure Client where
  kind : Kind
  step : Step

/-- The agent's queue, whether its test thread has left, what it published (the newest first), and the steps of
the gateway. -/
structure State where
  steps : List ExtStep
  exited : Bool
  published : List Tick
  clients : List Client

def start : State :=
  ⟨[], false, [], []⟩

/-- Both test threads time out the steps that wait or go on. -/
def Alive (state : TestState) : Prop :=
  state = .wait ∨ state = .cont

instance (state : TestState) : Decidable (Alive state) :=
  inferInstanceAs (Decidable (_ ∨ _))

inductive Event
  /-- The gateway posts a step. -/
  | request (c : Client)
  /-- The agent's thread takes a posted step, and has executed it. -/
  | push (e : ExtStep)
  /-- What a step runs, or a notification, changes it. -/
  | change (i : ℕ) (e : ExtStep)
  /-- A second has passed at the agent. -/
  | tick (running : ExtStep → Bool) (state : AgentState)
  /-- The gateway polls for a step: the document of the reply, if there is one, and the other answers. -/
  | poll (i : ℕ) (reply : Option ℕ) (ans : Answers)

/-- The tick of the agent as it is now. -/
def State.now (s : State) (running : ExtStep → Bool) (state : AgentState) : Tick :=
  ⟨s.steps, running, state⟩

/-- The body of a reply; the agent has nothing to send before its first tick. -/
def State.response (s : State) (lib : CJson) (reply : Option ℕ) : Option Bytes :=
  reply.bind fun k => s.published[k]?.map fun t => lib.print t.document

def State.pollOf (s : State) (lib : CJson) (c : Client) (reply : Option ℕ) (ans : Answers) : Option Polled :=
  c.kind.poller.poll lib { ans with response := s.response lib reply } c.step

/-- A tick, with the document that it publishes. -/
def State.tick (s : State) (t : Tick) : State :=
  { s with steps := t.after, exited := t.aborted, published := t :: s.published }

def next (lib : CJson) (s : State) : Event → Option State
  | .request c => some { s with clients := s.clients ++ [c] }
  | .push e => if s.exited = true then none else some { s with steps := s.steps ++ [e] }
  | .change i e =>
      if s.exited = true then none
      else s.steps[i]?.bind fun old => if Alive old.stepState then some { s with steps := s.steps.set i e } else none
  | .tick running state => if s.exited = true then none else some (s.tick (s.now running state))
  | .poll i reply ans =>
      s.clients[i]?.bind fun c =>
        if Alive c.step.testState then
          (s.pollOf lib c reply ans).map fun polled =>
            { s with clients := s.clients.set i { c with step := polled.step } }
        else none

/-- A step is posted before it has ended; step numbers fit an `int`, and no two steps of the agent have the same;
nothing changes the number of a step; the library reads back what it printed. -/
def Condition (lib : CJson) (s : State) : Event → Prop
  | .request c => Alive c.step.testState
  | .push e => e.stepNumber.toNat < 2 ^ 31 ∧ ∀ e' ∈ s.steps, e'.stepNumber ≠ e.stepNumber
  | .change i e => ∀ old, s.steps[i]? = some old → e.stepNumber = old.stepNumber
  | .tick running state => Reads lib (s.now running state).document
  | .poll _ _ _ => True

end Model

/-! ### What the two sides agree on -/

section Agreement

/-- The agent's step of a number has its results. -/
def HasResults (s : State) (number : BitVec 32) (files : List Bytes) : Prop :=
  ∃ e ∈ s.steps, e.stepNumber = number ∧ e.stepState = .results ∧ e.artifacts = files

/-- What a poll of the gateway's step `i` does with its reply. -/
structure Polls (lib : CJson) (s : State) (c : Client) (reply : Option ℕ) (ans : Answers) : Prop where
  /-- A step gets results only with the files that the agent's step has. -/
  fetched : ∀ polled, s.pollOf lib c reply ans = some polled → polled.step.testState = .results →
    ∃ files, HasResults s c.step.stepNumber files ∧ ans.download files = true
  /-- The failure of the agent ends the step. -/
  failed : s.exited = true → reply = some 0 →
    ∃ polled, s.pollOf lib c reply ans = some polled ∧ polled.step.testState = .abort
  /-- A listed step in results ends the step, with the results or in abort. -/
  ended : ∀ k t, reply = some k → s.published[k]? = some t →
    ∀ e ∈ t.reported, e.stepNumber = c.step.stepNumber → e.stepState = .results →
      ∃ polled, s.pollOf lib c reply ans = some polled ∧
        (polled.step.testState = .results ∨ polled.step.testState = .abort)
  /-- While the agent lists the step as alive, does not fail and is not idle, the step goes on until it is due. -/
  goesOn : ∀ k t, reply = some k → s.published[k]? = some t → ans.agent = true →
    ∀ e ∈ t.reported, e.stepNumber = c.step.stepNumber → Alive e.stepState →
      t.agentState ≠ .fail → t.agentState ≠ .idle →
      c.kind.poller.due c.step.executionTime (c.step.timeoutCount + 1) = false →
      ∃ polled, s.pollOf lib c reply ans = some polled ∧ Alive polled.step.testState
  /-- No reply ends the step in abort. -/
  unanswered : s.response lib reply = none →
    ∃ polled, s.pollOf lib c reply ans = some polled ∧ polled.step.testState = .abort

structure Agreement (lib : CJson) (s : State) : Prop where
  /-- The gateway has no results that the agent has not. -/
  results : ∀ c ∈ s.clients, c.step.testState = .results → ∃ files, HasResults s c.step.stepNumber files
  polls : ∀ c ∈ s.clients, Alive c.step.testState → ∀ reply ans, Polls lib s c reply ans

end Agreement

/-! ### Ticks -/

section Ticks

/-- Step numbers fit an `int`, and differ. -/
structure Numbered (numbers : List (BitVec 32)) : Prop where
  fits : ∀ n ∈ numbers, n.toNat < 2 ^ 31
  distinct : numbers.Nodup

theorem Numbered.sublist {numbers numbers' : List (BitVec 32)} (h : Numbered numbers)
    (hsub : numbers'.Sublist numbers) : Numbered numbers' where
  fits n hn := h.fits n (hsub.subset hn)
  distinct := hsub.nodup h.distinct

theorem Numbered.reverse {numbers : List (BitVec 32)} (h : Numbered numbers) : Numbered numbers.reverse where
  fits n hn := h.fits n (List.mem_reverse.mp hn)
  distinct := List.nodup_reverse.mpr h.distinct

theorem Numbered.push {numbers : List (BitVec 32)} {n : BitVec 32} (h : Numbered numbers) (hfit : n.toNat < 2 ^ 31)
    (hnew : n ∉ numbers) : Numbered (numbers ++ [n]) where
  fits m hm := by
    rcases List.mem_append.mp hm with hm | hm
    · exact h.fits m hm
    · rwa [List.mem_singleton.mp hm]
  distinct := by
    refine List.nodup_append.mpr ⟨h.distinct, List.nodup_singleton _, fun m hm n' hn' => ?_⟩
    rw [List.mem_singleton.mp hn']
    rintro rfl
    exact hnew hm

/-- The numbers of steps. -/
def numbers (steps : List ExtStep) : List (BitVec 32) :=
  steps.map ExtStep.stepNumber

/-- A tick reports the first of the steps that it visits. -/
theorem visit_eq_take (running : ExtStep → Bool) (steps : List ExtStep) :
    (visit running steps).1 = (steps.take (visit running steps).1.length).map (ExtStep.poll running) := by
  induction steps with
  | nil =>
      rfl
  | cons e steps ih =>
      simp only [visit]
      split_ifs with ha
      · simp
      · rw [List.length_cons, List.take_succ_cons, List.map_cons, ← ih]

/-- A tick times out the steps from one position on, which it reports, and leaves the steps before it alone. -/
theorem exists_reported (t : Tick) : ∃ n, t.reported = (t.steps.reverse.take n).map (ExtStep.poll t.running) ∧
    t.after.reverse = t.reported ++ t.steps.reverse.drop n :=
  ⟨t.reported.length, visit_eq_take t.running t.steps.reverse, t.after_reverse⟩

theorem numbers_poll (running : ExtStep → Bool) (steps : List ExtStep) :
    numbers (steps.map (ExtStep.poll running)) = numbers steps := by
  rw [numbers, List.map_map]
  exact List.map_congr_left fun e _ => poll_stepNumber running e

theorem numbers_after (t : Tick) : numbers t.after = numbers t.steps := by
  obtain ⟨n, hrep, hafter⟩ := exists_reported t
  have hrev : numbers t.after.reverse = numbers t.steps.reverse := by
    conv_rhs => rw [← List.take_append_drop n t.steps.reverse]
    rw [hafter, hrep, numbers, numbers, List.map_append, List.map_append]
    exact congrArg (· ++ _) (numbers_poll t.running _)
  simpa [numbers, List.map_reverse] using hrev

theorem Numbered.reported {t : Tick} (h : Numbered (numbers t.steps)) : Numbered (numbers t.reported) := by
  obtain ⟨n, hrep, -⟩ := exists_reported t
  rw [hrep, numbers_poll]
  refine h.reverse.sublist ?_
  rw [numbers, numbers, ← List.map_reverse]
  exact (List.take_sublist n _).map _

theorem numbers_set {steps : List ExtStep} {i : ℕ} {old e : ExtStep} (hold : steps[i]? = some old)
    (hnumber : e.stepNumber = old.stepNumber) : numbers (steps.set i e) = numbers steps := by
  obtain ⟨hlt, hget⟩ := List.getElem?_eq_some_iff.mp hold
  rw [numbers, numbers, List.map_set, hnumber, ← hget, ← List.getElem_map ExtStep.stepNumber (h := by simpa using hlt),
    List.set_getElem_self]

theorem mem_after_of_reported {t : Tick} {e : ExtStep} (h : e ∈ t.reported) : e ∈ t.after := by
  rw [← List.mem_reverse, t.after_reverse]
  exact List.mem_append_left _ h

/-- A step in results stays as it is. -/
theorem mem_after_of_results {t : Tick} {e : ExtStep} (h : e ∈ t.steps) (hres : e.stepState = .results) :
    e ∈ t.after := by
  have hpoll : e.poll t.running = e := by simp [ExtStep.poll, hres]
  obtain ⟨n, hrep, hafter⟩ := exists_reported t
  rw [← List.mem_reverse, ← List.take_append_drop n t.steps.reverse] at h
  rw [← List.mem_reverse, hafter, hrep]
  rcases List.mem_append.mp h with h | h
  · exact List.mem_append_left _ (List.mem_map.mpr ⟨e, h, hpoll⟩)
  · exact List.mem_append_right _ h

end Ticks

/-! ### One poll -/

section OnePoll

variable {lib : CJson} {ans : Answers} {s : Step}

theorem pushExtSta_eq {files : List Bytes} {s' : Step} (h : pushExtStaResultFiles ans s files = (s', true)) :
    s' = s := by
  induction files with
  | nil =>
      cases h
      rfl
  | cons file files ih =>
      unfold pushExtStaResultFiles at h
      split_ifs at h
      · cases h
      · cases h
      · exact ih h
      · cases h

/-- Files that are pushed leave the state of the step alone. -/
theorem push_testState (k : Kind) {files : List Bytes} {s' : Step} (h : k.poller.push ans s files = (s', true)) :
    s'.testState = s.testState := by
  cases k with
  | extSta =>
      rw [pushExtSta_eq h]
  | ethLanClient =>
      change pushExtEthLanClientResultFiles ans s files = (s', true) at h
      simp only [pushExtEthLanClientResultFiles] at h
      split_ifs at h
      · cases h
      · cases h
        rfl
      · cases h

/-- Result files are downloaded, or the step ends in abort. -/
theorem fetchResults_cases (k : Kind) (entry : StepStatus) :
    (k.poller.fetchResults ans s entry).step.testState = .abort ∨
      (k.poller.fetchResults ans s entry).step.testState = s.testState ∧ ans.download entry.resultFiles = true := by
  unfold Poller.fetchResults
  split_ifs with hdown
  · cases hpush : k.poller.push ans s entry.resultFiles with
    | mk s' pushed =>
        cases pushed with
        | true =>
            exact .inr ⟨push_testState k hpush, hdown⟩
        | false =>
            exact .inl rfl
  · exact .inl rfl

theorem readPrivate_testState (p : Poller) (entry : StepStatus) :
    (p.readPrivate lib s entry).testState = s.testState := by
  unfold Poller.readPrivate Poller.parseStepPrivateData
  split_ifs
  · rfl
  · split
    · rfl
    · split
      · rfl
      · split <;> rfl

theorem goesOn_alive (s : Step) : Alive s.goesOn.step.testState := by
  cases h : s.isIpAssigned && s.fork with
  | false =>
      exact .inr (by simp [Step.goesOn, goOn, h])
  | true =>
      exact .inl (by simp [Step.goesOn, goOn, h])

/-- The search misses the step, or ends at an entry for it. -/
theorem search_cases (s : Step) (steps : List StepStatus) : s.search steps = (s, steps.length) ∨
    ∃ i entry, steps[i]? = some entry ∧ entry.stepNumber = s.stepNumber ∧
      s.search steps = ({ s with testState := entry.state }, i) := by
  induction steps with
  | nil =>
      exact .inl rfl
  | cons entry entries ih =>
      by_cases heq : entry.stepNumber = s.stepNumber
      · exact .inr ⟨0, entry, rfl, heq, by simp [Step.search, heq]⟩
      · rcases ih with hmiss | ⟨i, e, hget, hnumber, hsearch⟩
        · exact .inl (by simp [Step.search, heq, hmiss])
        · exact .inr ⟨i + 1, e, hget, hnumber, by simp [Step.search, heq, hsearch]⟩

/-- A step that is listed once is found there. -/
theorem search_of_mem {steps : List StepStatus} (hdistinct : (steps.map StepStatus.stepNumber).Nodup)
    {entry : StepStatus} (hmem : entry ∈ steps) (hnumber : entry.stepNumber = s.stepNumber) :
    ∃ i, steps[i]? = some entry ∧ s.search steps = ({ s with testState := entry.state }, i) := by
  rcases search_cases s steps with hmiss | ⟨i, e, hget, heq, hsearch⟩
  · have hlt := search_lt fun h : Missing s steps => h entry hmem hnumber
    rw [hmiss] at hlt
    exact absurd hlt (lt_irrefl _)
  · have hsame := List.inj_on_of_nodup_map hdistinct (List.mem_of_getElem? hget) hmem (heq.trans hnumber.symm)
    subst hsame
    exact ⟨i, hget, hsearch⟩

variable (k : Kind) {steps : List StepStatus} {i : ℕ} {entry : StepStatus}

/-- A due step takes the state of its entry and fetches its files. -/
theorem finish_of_search (hget : steps[i]? = some entry)
    (hsearch : { s with testState := .results }.search steps = ({ s with testState := entry.state }, i)) :
    k.poller.finish lib ans s steps = some (k.poller.fetchResults ans
      (k.poller.readPrivate lib { s with testState := entry.state } entry) entry) := by
  simp [Poller.finish, hsearch, hget]

theorem update_of_search (hget : steps[i]? = some entry)
    (hsearch : s.search steps = ({ s with testState := entry.state }, i)) :
    k.poller.update lib ans s steps = some (k.poller.follow ans
      (k.poller.readPrivate lib { s with testState := entry.state } entry) entry) := by
  have hne : i ≠ steps.length := fun h => by simp [h] at hget
  simp [Poller.update, hsearch, hget, hne]

variable {status : StatusResp} {polled : Polled}

/-- A poll brings results only from an entry in results whose files are downloaded. -/
theorem pollStatus_results (hpoll : k.poller.pollStatus lib ans s status = some polled)
    (hres : polled.step.testState = .results) : ∃ entry ∈ status.steps, entry.stepNumber = s.stepNumber ∧
      entry.state = .results ∧ ans.download entry.resultFiles = true := by
  unfold Poller.pollStatus at hpoll
  split_ifs at hpoll with hidle hdue hfail
  · cases hpoll
    cases hres
  · rcases search_cases { s with testState := .results } status.steps with hmiss | ⟨i, entry, hget, hnumber, hsearch⟩
    · simp [Poller.finish, hmiss] at hpoll
    · rw [finish_of_search k hget hsearch] at hpoll
      cases hpoll
      rcases fetchResults_cases k entry with habort | ⟨hstate, hdown⟩
      · rw [habort] at hres
        cases hres
      · rw [hstate, readPrivate_testState] at hres
        exact ⟨entry, List.mem_of_getElem? hget, hnumber, hres, hdown⟩
  · cases hpoll
    cases hres
  · rcases search_cases s status.steps with hmiss | ⟨i, entry, hget, hnumber, hsearch⟩
    · simp only [Poller.update, hmiss, if_true] at hpoll
      cases hpoll
      rcases goesOn_alive s with h | h
      · rw [h] at hres
        cases hres
      · rw [h] at hres
        cases hres
    · rw [update_of_search k hget hsearch] at hpoll
      cases hpoll
      unfold Poller.follow at hres
      split_ifs at hres with hr ha
      · rw [readPrivate_testState] at hr
        rcases fetchResults_cases k entry with habort | ⟨-, hdown⟩
        · rw [habort] at hres
          cases hres
        · exact ⟨entry, List.mem_of_getElem? hget, hnumber, hr, hdown⟩
      · rw [ha] at hres
        cases hres
      · rcases goesOn_alive (k.poller.readPrivate lib { s with testState := entry.state } entry) with h | h
        · rw [h] at hres
          cases hres
        · rw [h] at hres
          cases hres

/-- An agent that fails ends the step. -/
theorem pollStatus_fail (hfail : status.state = .fail) :
    ∃ polled, k.poller.pollStatus lib ans s status = some polled ∧ polled.step.testState = .abort := by
  refine ⟨{ s.aborted with stopSent := k.poller.stops }, ?_, rfl⟩
  simp [Poller.pollStatus, hfail]

theorem fetchResults_ends (hstate : s.testState = .results) :
    (k.poller.fetchResults ans s entry).step.testState = .results ∨
      (k.poller.fetchResults ans s entry).step.testState = .abort := by
  rcases fetchResults_cases k entry with habort | ⟨hsame, -⟩
  · exact .inr habort
  · exact .inl (hsame.trans hstate)

/-- An entry in results ends the step. -/
theorem pollStatus_ends (hdistinct : (status.steps.map StepStatus.stepNumber).Nodup) (hmem : entry ∈ status.steps)
    (hnumber : entry.stepNumber = s.stepNumber) (hres : entry.state = .results) :
    ∃ polled, k.poller.pollStatus lib ans s status = some polled ∧
      (polled.step.testState = .results ∨ polled.step.testState = .abort) := by
  have hstate : (k.poller.readPrivate lib { s with testState := entry.state } entry).testState = .results := by
    rw [readPrivate_testState, hres]
  unfold Poller.pollStatus
  split_ifs
  · exact ⟨_, rfl, .inr rfl⟩
  · obtain ⟨i, hget, hsearch⟩ := search_of_mem (s := { s with testState := .results }) hdistinct hmem hnumber
    exact ⟨_, finish_of_search k hget hsearch, fetchResults_ends k hstate⟩
  · exact ⟨_, rfl, .inr rfl⟩
  · obtain ⟨i, hget, hsearch⟩ := search_of_mem hdistinct hmem hnumber
    refine ⟨_, update_of_search k hget hsearch, ?_⟩
    rw [Poller.follow, if_pos hstate]
    exact fetchResults_ends k hstate

/-- An entry that is alive keeps a step alive that is not due. -/
theorem pollStatus_alive (hdistinct : (status.steps.map StepStatus.stepNumber).Nodup) (hmem : entry ∈ status.steps)
    (hnumber : entry.stepNumber = s.stepNumber) (halive : Alive entry.state) (hfail : status.state ≠ .fail)
    (hidle : status.state ≠ .idle) (hdue : k.poller.due s.executionTime s.timeoutCount = false) :
    ∃ polled, k.poller.pollStatus lib ans s status = some polled ∧ Alive polled.step.testState := by
  obtain ⟨i, hget, hsearch⟩ := search_of_mem hdistinct hmem hnumber
  have hstate : (k.poller.readPrivate lib { s with testState := entry.state } entry).testState = entry.state :=
    readPrivate_testState k.poller entry
  refine ⟨_, ?_, goesOn_alive (k.poller.readPrivate lib { s with testState := entry.state } entry)⟩
  have hupdate : k.poller.pollStatus lib ans s status = k.poller.update lib ans s status.steps := by
    simp [Poller.pollStatus, hfail, hidle, hdue]
  rw [hupdate, update_of_search k hget hsearch, Poller.follow, hstate]
  rcases halive with h | h
  · simp [h]
  · simp [h]

/-! No poll changes the number of its step. -/

theorem push_stepNumber (files : List Bytes) : (k.poller.push ans s files).1.stepNumber = s.stepNumber := by
  cases k with
  | extSta =>
      change (pushExtStaResultFiles ans s files).1.stepNumber = s.stepNumber
      induction files with
      | nil =>
          rfl
      | cons file files ih =>
          unfold pushExtStaResultFiles
          split_ifs
          · rfl
          · rfl
          · exact ih
          · rfl
  | ethLanClient =>
      change (pushExtEthLanClientResultFiles ans s files).1.stepNumber = s.stepNumber
      simp only [pushExtEthLanClientResultFiles]
      split_ifs <;> rfl

theorem fetchResults_stepNumber : (k.poller.fetchResults ans s entry).step.stepNumber = s.stepNumber := by
  unfold Poller.fetchResults
  split_ifs
  · have hpush := @push_stepNumber ans s k entry.resultFiles
    dsimp only
    split_ifs
    · exact hpush
    · exact hpush
  · rfl

theorem readPrivate_stepNumber (p : Poller) : (p.readPrivate lib s entry).stepNumber = s.stepNumber := by
  unfold Poller.readPrivate Poller.parseStepPrivateData
  split_ifs
  · rfl
  · split
    · rfl
    · split
      · rfl
      · split <;> rfl

theorem pollStatus_stepNumber (hpoll : k.poller.pollStatus lib ans s status = some polled) :
    polled.step.stepNumber = s.stepNumber := by
  unfold Poller.pollStatus at hpoll
  split_ifs at hpoll
  · cases hpoll
    rfl
  · rcases search_cases { s with testState := .results } status.steps with hmiss | ⟨i, entry, hget, -, hsearch⟩
    · simp [Poller.finish, hmiss] at hpoll
    · rw [finish_of_search k hget hsearch] at hpoll
      cases hpoll
      rw [fetchResults_stepNumber, readPrivate_stepNumber]
  · cases hpoll
    rfl
  · rcases search_cases s status.steps with hmiss | ⟨i, entry, hget, -, hsearch⟩
    · simp only [Poller.update, hmiss, if_true] at hpoll
      cases hpoll
      rfl
    · rw [update_of_search k hget hsearch] at hpoll
      cases hpoll
      unfold Poller.follow
      split_ifs
      · rw [fetchResults_stepNumber, readPrivate_stepNumber]
      · exact readPrivate_stepNumber k.poller
      · exact readPrivate_stepNumber k.poller

end OnePoll

/-! ### The invariant -/

section Invariant

variable {lib : CJson} {s : State}

/-- What holds of both sides after any run. -/
structure Inv (lib : CJson) (s : State) : Prop where
  numbered : Numbered (numbers s.steps)
  reads : ∀ t ∈ s.published, Reads lib t.document
  published : ∀ t ∈ s.published, Numbered (numbers t.steps)
  /-- Results that were published are still there. -/
  kept : ∀ t ∈ s.published, ∀ e ∈ t.reported, e.stepState = .results → e ∈ s.steps
  results : ∀ c ∈ s.clients, c.step.testState = .results → ∃ files, HasResults s c.step.stepNumber files
  /-- The thread leaves with the failure that it published. -/
  exited : s.exited = true → ∃ t, s.published[0]? = some t ∧ t.aborted = true

theorem inv_start (lib : CJson) : Inv lib start where
  numbered := ⟨by simp [start, numbers], by simp [start, numbers]⟩
  reads := by simp [start]
  published := by simp [start]
  kept := by simp [start]
  results := by simp [start]
  exited := by simp [start]

/-- The status that a poll decodes from a document of the agent. -/
theorem status_of_response (h : Inv lib s) {t : Tick} {k : ℕ} (hk : s.published[k]? = some t) {ans : Answers}
    (hagent : ans.agent = true) : { ans with response := s.response lib (some k) }.status lib =
      some ⟨agentHostname, BitVec.ofNat 32 t.steps.length, t.agentState, t.reported.map (ExtStep.status lib)⟩ := by
  have hmem := List.mem_of_getElem? hk
  have hsame := (@map_status_eq_iff lib t.reported).mpr fun e he =>
    (h.published t hmem).reported.fits _ (List.mem_map_of_mem he)
  have hreads := h.reads t hmem
  unfold Reads at hreads
  simp only [Answers.status, hagent, if_true, State.response, Option.bind_some, hk, Option.map_some,
    decodeExternalAgentTestStatus, hreads, decodeStatus_document, hsame]

/-- The counted step, with the status of a document. -/
def Client.follows (c : Client) (lib : CJson) (ans : Answers) (t : Tick) : Option Polled :=
  c.kind.poller.pollStatus lib ans { c.step with timeoutCount := c.step.timeoutCount + 1 }
    ⟨agentHostname, BitVec.ofNat 32 t.steps.length, t.agentState, t.reported.map (ExtStep.status lib)⟩

theorem pollOf_none {c : Client} {reply : Option ℕ} {ans : Answers}
    (h : ans.agent = false ∨ s.response lib reply = none) : s.pollOf lib c reply ans = some c.step.aborted := by
  have hstatus : { ans with response := s.response lib reply }.status lib = none := by
    rcases h with h | h
    · simp [Answers.status, h]
    · simp [Answers.status, h]
  simp [State.pollOf, Poller.poll, hstatus]

theorem pollOf_some (h : Inv lib s) {c : Client} {t : Tick} {k : ℕ} (hk : s.published[k]? = some t) {ans : Answers}
    (hagent : ans.agent = true) : s.pollOf lib c (some k) ans =
      c.follows lib { ans with response := s.response lib (some k) } t := by
  simp only [State.pollOf, Poller.poll, status_of_response h hk hagent]
  rfl

/-- A poll aborts its step, or goes by a document of the agent. -/
theorem pollOf_cases (h : Inv lib s) (c : Client) (reply : Option ℕ) (ans : Answers) :
    s.pollOf lib c reply ans = some c.step.aborted ∨ ∃ t ∈ s.published,
      s.pollOf lib c reply ans = c.follows lib { ans with response := s.response lib reply } t := by
  by_cases hagent : ans.agent = true
  · cases reply with
    | none =>
        exact .inl (pollOf_none (.inr rfl))
    | some k =>
        cases hk : s.published[k]? with
        | none =>
            exact .inl (pollOf_none (.inr (by simp [State.response, hk])))
        | some t =>
            exact .inr ⟨t, List.mem_of_getElem? hk, pollOf_some h hk hagent⟩
  · exact .inl (pollOf_none (.inl (Bool.eq_false_iff.mpr hagent)))

/-- The entries of a document have different numbers. -/
theorem entries_distinct (h : Inv lib s) {t : Tick} (ht : t ∈ s.published) :
    ((t.reported.map (ExtStep.status lib)).map StepStatus.stepNumber).Nodup := by
  rw [List.map_map]
  exact (h.published t ht).reported.distinct

/-- A poll that brings results found them at the agent, which still has them. -/
theorem hasResults_of_pollOf (h : Inv lib s) {c : Client} {reply : Option ℕ} {ans : Answers} {polled : Polled}
    (hpoll : s.pollOf lib c reply ans = some polled) (hres : polled.step.testState = .results) :
    ∃ files, HasResults s c.step.stepNumber files ∧ ans.download files = true := by
  rcases pollOf_cases h c reply ans with habort | ⟨t, ht, hfollows⟩
  · rw [habort] at hpoll
    cases hpoll
    cases hres
  · rw [hfollows] at hpoll
    obtain ⟨entry, hentry, hnumber, hstate, hdown⟩ := pollStatus_results c.kind hpoll hres
    obtain ⟨e, he, rfl⟩ := List.mem_map.mp hentry
    have hres' : e.stepState = .results := hstate
    refine ⟨e.artifacts, ⟨e, h.kept t ht e he hres', hnumber, hres', rfl⟩, ?_⟩
    simpa [ExtStep.status, hres'] using hdown

theorem pollOf_stepNumber (h : Inv lib s) {c : Client} {reply : Option ℕ} {ans : Answers} {polled : Polled}
    (hpoll : s.pollOf lib c reply ans = some polled) : polled.step.stepNumber = c.step.stepNumber := by
  rcases pollOf_cases h c reply ans with habort | ⟨t, -, hfollows⟩
  · rw [habort] at hpoll
    cases hpoll
    rfl
  · rw [hfollows] at hpoll
    exact (pollStatus_stepNumber c.kind hpoll :)

/-- The invariant says what every poll does. -/
theorem Inv.polls (h : Inv lib s) (c : Client) (reply : Option ℕ) (ans : Answers) : Polls lib s c reply ans where
  fetched _ hpoll hres := hasResults_of_pollOf h hpoll hres
  failed hexited hreply := by
    subst hreply
    obtain ⟨t, ht, habort⟩ := h.exited hexited
    cases hagent : ans.agent with
    | false =>
        exact ⟨_, pollOf_none (.inl hagent), rfl⟩
    | true =>
        rw [pollOf_some h ht hagent]
        exact pollStatus_fail c.kind (by simp [Tick.agentState, habort])
  ended k t hreply ht e he hnumber hres := by
    subst hreply
    cases hagent : ans.agent with
    | false =>
        exact ⟨_, pollOf_none (.inl hagent), .inr rfl⟩
    | true =>
        rw [pollOf_some h ht hagent]
        exact pollStatus_ends c.kind (entries_distinct h (List.mem_of_getElem? ht))
          (List.mem_map_of_mem (f := ExtStep.status lib) he) hnumber hres
  goesOn k t hreply ht hagent e he hnumber halive hfail hidle hdue := by
    subst hreply
    rw [pollOf_some h ht hagent]
    exact pollStatus_alive c.kind (entries_distinct h (List.mem_of_getElem? ht))
      (List.mem_map_of_mem (f := ExtStep.status lib) he) hnumber halive hfail hidle hdue
  unanswered hnone := ⟨_, pollOf_none (.inr hnone), rfl⟩

theorem HasResults.mono {t : State} {number : BitVec 32} {files : List Bytes} (h : HasResults s number files)
    (hsub : ∀ e ∈ s.steps, e.stepState = .results → e ∈ t.steps) : HasResults t number files := by
  obtain ⟨e, he, hnumber, hres, hfiles⟩ := h
  exact ⟨e, hsub e he hres, hnumber, hres, hfiles⟩

/-- What the agent does keeps the invariant when it keeps the results that are there. -/
theorem Inv.agent (h : Inv lib s) {steps : List ExtStep} (hnumbered : Numbered (numbers steps))
    (hkept : ∀ e ∈ s.steps, e.stepState = .results → e ∈ steps) : Inv lib { s with steps := steps } where
  numbered := hnumbered
  reads := h.reads
  published := h.published
  kept t ht e he hres := hkept e (h.kept t ht e he hres) hres
  results c hc hres := (h.results c hc hres).imp fun _ hf => hf.mono hkept
  exited := h.exited

theorem Inv.tick (h : Inv lib s) {running : ExtStep → Bool} {state : AgentState}
    (hreads : Reads lib (s.now running state).document) :
    Inv lib (s.tick (s.now running state)) where
  numbered := by
    rw [State.tick, numbers_after]
    exact h.numbered
  reads t ht := by
    rcases List.mem_cons.mp ht with rfl | ht
    · exact hreads
    · exact h.reads t ht
  published t ht := by
    rcases List.mem_cons.mp ht with rfl | ht
    · exact h.numbered
    · exact h.published t ht
  kept t ht e he hres := by
    rcases List.mem_cons.mp ht with rfl | ht
    · exact mem_after_of_reported he
    · exact mem_after_of_results (t := s.now running state) (h.kept t ht e he hres) hres
  results c hc hres := (h.results c hc hres).imp fun _ hf =>
    hf.mono fun e he hres => mem_after_of_results (t := s.now running state) he hres
  exited habort := ⟨_, rfl, habort⟩

/-- What the gateway does keeps the invariant when it gets no results that the agent has not. -/
theorem Inv.gateway (h : Inv lib s) {clients : List Client}
    (hresults : ∀ c ∈ clients, c.step.testState = .results → ∃ files, HasResults s c.step.stepNumber files) :
    Inv lib { s with clients := clients } where
  numbered := h.numbered
  reads := h.reads
  published := h.published
  kept := h.kept
  results := hresults
  exited := h.exited

theorem Inv.next (h : Inv lib s) {ev : Event} {t : State} (hcond : Condition lib s ev)
    (hnext : next lib s ev = some t) : Inv lib t := by
  cases ev with
  | request c =>
      cases hnext
      refine h.gateway fun c' hc' hres => ?_
      rcases List.mem_append.mp hc' with hc' | hc'
      · exact h.results c' hc' hres
      · rw [List.mem_singleton.mp hc'] at hres
        rcases hcond with hw | hw
        · rw [hw] at hres
          cases hres
        · rw [hw] at hres
          cases hres
  | push e =>
      simp only [AgentAgreement.next] at hnext
      split_ifs at hnext
      cases hnext
      refine h.agent ?_ fun e' he' _ => List.mem_append_left _ he'
      rw [numbers, List.map_append]
      refine h.numbered.push hcond.1 fun hmem => ?_
      obtain ⟨e', he', heq⟩ := List.mem_map.mp hmem
      exact hcond.2 e' he' heq
  | change i e =>
      simp only [AgentAgreement.next] at hnext
      split_ifs at hnext
      obtain ⟨old, hold, hnext⟩ := Option.bind_eq_some_iff.mp hnext
      split_ifs at hnext with halive
      cases hnext
      refine h.agent ?_ fun e' he' hres => ?_
      · rw [numbers_set hold (hcond old hold)]
        exact h.numbered
      · obtain ⟨j, hj, rfl⟩ := List.mem_iff_getElem.mp he'
        have hne : i ≠ j := by
          rintro rfl
          rw [List.getElem?_eq_getElem hj] at hold
          cases hold
          rcases halive with hw | hw
          · rw [hw] at hres
            cases hres
          · rw [hw] at hres
            cases hres
        exact List.mem_iff_getElem.mpr ⟨j, by simpa using hj, by simp [hne]⟩
  | tick running state =>
      simp only [AgentAgreement.next] at hnext
      split_ifs at hnext
      cases hnext
      exact h.tick hcond
  | poll i reply ans =>
      obtain ⟨c, hc, hnext⟩ := Option.bind_eq_some_iff.mp hnext
      split_ifs at hnext with halive
      obtain ⟨polled, hpoll, heq⟩ := Option.map_eq_some_iff.mp hnext
      subst heq
      refine h.gateway fun c' hc' hres => ?_
      rcases List.mem_or_eq_of_mem_set hc' with hc' | rfl
      · exact h.results c' hc' hres
      · obtain ⟨files, hfiles, -⟩ := hasResults_of_pollOf h hpoll hres
        exact ⟨files, by rwa [pollOf_stepNumber h hpoll]⟩

end Invariant

/-! ### Runs -/

section Runs

/-- **Gateway and agent agree**: after every run, the gateway has results only for steps that have them at the
agent, and every poll ends its step or lets it go on as the document says that it reads. -/
theorem agreement_of_run {lib : CJson} {s : State} (h : Run (next lib) (Condition lib) start s) : Agreement lib s := by
  have hinv : Inv lib s := run_invariant (fun _ _ _ hI hC hn => hI.next hC hn) h (inv_start lib)
  exact ⟨hinv.results, fun c _ _ reply ans => hinv.polls c reply ans⟩

/-- A station of the gateway, and its step at the agent, whose time is over after a second. -/
def station : Client :=
  ⟨.extSta, ⟨4, .cont, 0, 60, false, [], false, [], []⟩⟩

def stationStep : ExtStep :=
  ⟨4, .cont, 0, 1, false, [text "/tmp/cci_res/1_4.pcap"], .staManagement (text "wlan0") false []⟩

def stationTick : Tick :=
  ⟨[stationStep], fun _ => false, .running⟩

/-- What the library prints for `stationTick`. -/
def stationText : Bytes :=
  braced (
    text "\n\t\"ExternalAgentHostName\":" ++ text "\t\"ots_ext_agent\",\n" ++
    text "\t\"ExternalAgentStepCount\":\t1,\n" ++ text "\t\"ExternalAgentStepStatus\":\t[" ++
    braced (text "\n\t\t\t\"StepNumber\":\t4,\n" ++ text "\t\t\t\"StepStatus\":\t\"results\",\n" ++
      text "\t\t\t\"StepPrivateData\":\t" ++ braced (text "\n\t\t\t\t\"InterfaceName\":\t\"wlan0\"\n\t\t\t") ++
      text ",\n\t\t\t\"ResultFiles\":\t" ++ text "[\"/tmp/cci_res/1_4.pcap\"]\n\t\t") ++
    text "],\n" ++ text "\t\"ExternalAgentStatus\":\t\"running\"\n")

/-- The private data of the step, as the library prints it by itself. -/
def privateText : Bytes :=
  braced (text "\n\t\"InterfaceName\":\t\"wlan0\"\n")

/-- The library on the document and on the private data in it. -/
def stationLib : CJson where
  print := fun json => if (json.getObjectItem "InterfaceName").isSome then privateText else stationText
  parse := fun file =>
    if file = privateText then stationStep.cls.stepPrivate
    else if file = stationText then some stationTick.document
    else none

theorem stationLib_reads : Reads stationLib stationTick.document := by
  have hprint : stationLib.print stationTick.document = stationText := by
    have hno : (stationTick.document.getObjectItem "InterfaceName").isSome = false := by decide +kernel
    simp only [stationLib, hno, Bool.false_eq_true, if_false]
  have hne : stationText ≠ privateText := by decide +kernel
  rw [Reads, hprint]
  simp only [stationLib, if_neg hne, if_true]

/-- The document is published. -/
def published : State :=
  ⟨[{ stationStep with timeoutCount := 1, stepState := .results }], false, [stationTick], [station]⟩

/-- The step with its results. -/
def answered : Step :=
  { station.step with testState := .results, timeoutCount := 1, interfaceName := text "wlan0" }

/-- A run in which the station gets its results. -/
theorem agreement_of_station_run : ∃ s, Run (next stationLib) (Condition stationLib) start s ∧
    s.clients.map (fun c => c.step.testState) = [.results] ∧ Agreement stationLib s := by
  have hposted : Run (next stationLib) (Condition stationLib) start ⟨[stationStep], false, [], [station]⟩ :=
    ((Run.refl start).step (a := .request station) (.inr rfl) rfl).step (a := .push stationStep)
      ⟨by decide, by simp [start]⟩ rfl
  have hticked : Run (next stationLib) (Condition stationLib) start published :=
    hposted.step (a := .tick (fun _ => false) .running) stationLib_reads rfl
  have hinv := run_invariant (fun _ _ _ hI hC hn => Inv.next hI hC hn) hticked (inv_start stationLib)
  have hpoll : published.pollOf stationLib station (some 0) noStepsAnswers =
      some ⟨answered, true, false⟩ := by
    rw [pollOf_some hinv (t := stationTick) rfl rfl]
    decide +kernel
  have hnext : next stationLib published (.poll 0 (some 0) noStepsAnswers) =
      some { published with clients := [⟨.extSta, answered⟩] } := by
    have hclient : published.clients[0]? = some station := rfl
    have halive : Alive station.step.testState := .inr rfl
    simp only [next, hclient, Option.bind_some, if_pos halive, hpoll, Option.map_some]
    rfl
  have hcond : Condition stationLib published (.poll 0 (some 0) noStepsAnswers) := trivial
  have hpolled := hticked.step hcond hnext
  exact ⟨_, hpolled, rfl, agreement_of_run hpolled⟩

end Runs

end OneWifiTestSuite.AgentAgreement
