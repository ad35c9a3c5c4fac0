import OneWifiTestSuite.Runs
import OneWifiTestSuite.Scheduler

/-!
# The main loop and its reports

`wlan_emu_t::run` alternates a turn of its state machine with `io_wait`, which takes one of the
pending signals and sets the next state. `start_test` runs the tests of a configuration one after
another, so their signals are all pending before the loop reads the first of them, and io_wait may
read them in any order: the choice is in the label `pick`. (Each signal is a datagram of its own,
and `select` has no timeout.) A report is the call of `cci_report_complete_to_tda` or of
`cci_report_failure_to_tda`; the first carries here the tests whose results were uploaded for it.

`reports_of_run` counts the reports: every test gets one, for every order. So `oneReport_iff` finds
a single report exactly for a single test.
-/

namespace OneWifiTestSuite.MainLoop

open Runs Steps
open Scheduler (Coverage)

/-- `wlan_emu_sig_type_t`. -/
inductive Sig
  | input
  | analysis
  | coverage1
  | coverage2
  | coverage3
  | coverage4
  | coverage5
  | results
  | fail
  | max
deriving DecidableEq, Repr

/-- The coverage categories that `decode_json_config` accepts. -/
inductive Category
  | coverage1
  | coverage2
  | coverage3
deriving DecidableEq, Repr

def Category.toCoverage : Category → Coverage
  | .coverage1 => .coverage1
  | .coverage2 => .coverage2
  | .coverage3 => .coverage3

/-- A decoded coverage entry, and whether its test ends with `test_done` or with `test_fail`. -/
structure TestCase where
  testCaseId : ℕ
  category : Category
  done : Bool
deriving DecidableEq, Repr

inductive Report
  | complete (covered : List ℕ)
  | failure
deriving DecidableEq, Repr

/-- The loop is before a turn, or in `io_wait`. -/
inductive LoopPc
  | turn
  | select
deriving DecidableEq, Repr

structure Loop where
  state : TestState
  pc : LoopPc
  /-- `test_cov_cases_q`, index 0 first -/
  queue : List TestCase
  /-- posted signals that have not been read -/
  pending : List Sig
  /-- how often the file list has been uploaded -/
  uploads : ℕ
  reports : List Report
deriving DecidableEq, Repr

/-- What the calls outside the loop return: whether a request is analyzed, and whether the n-th
upload of the file list succeeds. -/
structure Calls where
  analyzed : Bool
  uploaded : ℕ → Bool

/-- `signal_test_done`. -/
def signalTestDone : Coverage → List Sig
  | .coverage1 => [.coverage1]
  | .coverage2 => [.coverage2]
  | .coverage3 => [.coverage3]
  | .coverage4 => [.coverage4]
  | .coverage5 => [.coverage5]
  | .max => []

/-- The signal that the thread of a test posts. -/
def TestCase.signal (c : TestCase) : List Sig :=
  if c.done then signalTestDone c.category.toCoverage else [.fail]

def Loop.post (s : Loop) (sigs : List Sig) : Loop :=
  { s with pending := s.pending ++ sigs }

def Loop.report (s : Loop) (r : Report) : Loop :=
  { s with reports := s.reports ++ [r] }

/-- `update_state_io_wait_done`. -/
def updateState : Sig → TestState
  | .fail | .max => .abort
  | .input => .request
  | .analysis => .start
  | .coverage1 | .coverage2 | .coverage3 | .coverage4 | .coverage5 => .results
  | .results => .wait

/-- `start_test`; `none` is `RETURN_ERR`. -/
def startTest (s : Loop) : Option Loop :=
  if s.queue = [] then none else some (s.post (s.queue.flatMap TestCase.signal))

/-- `upload_results`, with the tests that it takes out of the queue, and whether it succeeds. -/
def uploadResults (calls : Calls) (s : Loop) : Loop × List ℕ × Bool :=
  if s.queue = [] then (s, [], false)
  else
    ({ s with queue := [], uploads := s.uploads + 1 }, (s.queue.map TestCase.testCaseId).reverse,
      calls.uploaded s.uploads)

/-- `cci_report_failure_to_tda` also frees the queue. -/
def reportFailure (s : Loop) : Loop :=
  { s.report .failure with queue := [] }

/-- A turn of the switch in `run`. -/
def turn (calls : Calls) (s : Loop) : Loop :=
  match s.state with
  | .request => if calls.analyzed then s.post [.analysis] else s.post [.fail]
  | .start =>
      match startTest s with
      | some s => { s with state := .wait }
      | none => s.post [.fail]
  | .results =>
      match uploadResults calls s with
      | (s, covered, true) => (s.post [.results]).report (.complete covered)
      | (s, _, false) => { reportFailure s with state := .wait }
  | .abort => { reportFailure (uploadResults calls s).1 with state := .wait }
  | .none | .wait | .cont => s

inductive Action
  | turn
  | pick (index : ℕ)
deriving DecidableEq, Repr

def next (calls : Calls) (s : Loop) : Action → Option Loop
  | .turn => if s.pc = .turn then some { turn calls s with pc := .select } else none
  | .pick index =>
      if s.pc = .select then
        match s.pending[index]? with
        | none => none
        | some sig =>
            some { s with state := updateState sig, pending := s.pending.eraseIdx index, pc := .turn }
      else none

/-- `decode_json_config` pushes one test for each entry. -/
def decodeJsonConfig (tests : List TestCase) : List TestCase :=
  tests.foldl (fun q c => c :: q) []

/-- The loop after `analyze_request` has decoded the configuration. -/
def init (tests : List TestCase) : Loop where
  state := .request
  pc := .select
  queue := decodeJsonConfig tests
  pending := [.analysis]
  uploads := 0
  reports := []

/-- The loop waits, and no signal will come. -/
def Settled (s : Loop) : Prop :=
  s.pc = .select ∧ s.pending = []

/-- The one report that a configuration is to end with. -/
def expected (tests : List TestCase) : Report :=
  if tests.all TestCase.done then .complete (tests.map TestCase.testCaseId) else .failure

/-- Every run of the loop ends, after the one expected report. -/
structure OneReport (calls : Calls) (tests : List TestCase) : Prop where
  once : ∀ s, Run (next calls) (fun _ _ => True) (init tests) s → s.reports.length ≤ 1
  final : ∀ s, Run (next calls) (fun _ _ => True) (init tests) s → Settled s → s.reports = [expected tests]
  progress : ∀ s, Run (next calls) (fun _ _ => True) (init tests) s →
    Settled s ∨ ∃ a s', next calls s a = some s'
  ends : ∃ n, ∀ as s, execTo (next calls) (init tests) as = some s → as.length ≤ n

section Accounting

/-- The signals that are answered by a report. -/
def Sig.final : Sig → Bool
  | .coverage1 | .coverage2 | .coverage3 | .coverage4 | .coverage5 | .fail => true
  | .input | .analysis | .results | .max => false

/-- The report that the turn at hand owes. -/
def Loop.owed (s : Loop) : ℕ :=
  if s.pc = .turn ∧ s.state ≠ .wait then 1 else 0

/-- The loop after `start_test`, which will have sent `n` reports in the end. -/
structure Running (n : ℕ) (s : Loop) : Prop where
  sigs : ∀ sig ∈ s.pending, sig = .results ∨ sig.final = true
  states : s.pc = .turn → s.state = .wait ∨ s.state = .results ∨ s.state = .abort
  count : s.reports.length + s.pending.countP Sig.final + s.owed = n

/-- What is left to do. -/
def Loop.left (s : Loop) : ℕ :=
  2 * s.pending.length + 3 * (s.pending.countP Sig.final + s.owed) + if s.pc = .turn then 1 else 0

variable {calls : Calls} {tests : List TestCase} {s s' : Loop} {n : ℕ}

theorem decodeJsonConfig_eq (tests : List TestCase) : decodeJsonConfig tests = tests.reverse := by
  unfold decodeJsonConfig
  rw [List.foldl_flip_cons_eq_append', List.append_nil]

theorem turn_complete (calls : Calls) (hstate : s.state = .results) (hqueue : s.queue ≠ [])
    (hup : calls.uploaded s.uploads = true) :
    (turn calls s).reports = s.reports ++ [.complete (s.queue.map TestCase.testCaseId).reverse] ∧
      (turn calls s).pending = s.pending ++ [.results] := by
  unfold turn uploadResults
  simp [hstate, hqueue, hup, Loop.report, Loop.post]

theorem turn_failure (calls : Calls) (h : s.state = .abort ∨
      s.state = .results ∧ (s.queue = [] ∨ calls.uploaded s.uploads = false)) :
    (turn calls s).reports = s.reports ++ [.failure] ∧ (turn calls s).pending = s.pending := by
  unfold turn uploadResults
  rcases h with hstate | ⟨hstate, hqueue⟩
  · by_cases hqueue : s.queue = [] <;> simp [hstate, hqueue, reportFailure, Loop.report]
  · rw [hstate]
    by_cases hnil : s.queue = []
    · simp [hnil, reportFailure, Loop.report]
    · have hup := hqueue.resolve_left hnil
      simp [hnil, hup, reportFailure, Loop.report]

/-- A turn that answers a final signal reports once, and posts at most the `results` signal. -/
theorem turn_report (calls : Calls) (h : s.state = .results ∨ s.state = .abort) :
    (∃ r, (turn calls s).reports = s.reports ++ [r]) ∧
      ((turn calls s).pending = s.pending ∨ (turn calls s).pending = s.pending ++ [.results]) := by
  by_cases hcomplete : s.state = .results ∧ s.queue ≠ [] ∧ calls.uploaded s.uploads = true
  · obtain ⟨hstate, hqueue, hup⟩ := hcomplete
    obtain ⟨hreports, hpending⟩ := turn_complete calls hstate hqueue hup
    exact ⟨⟨_, hreports⟩, Or.inr hpending⟩
  · obtain ⟨hreports, hpending⟩ := turn_failure calls (s := s) (by
      rcases h with h | h
      · refine Or.inr ⟨h, ?_⟩
        by_contra hnot
        simp only [not_or, Bool.not_eq_false] at hnot
        exact hcomplete ⟨h, hnot⟩
      · exact Or.inl h)
    exact ⟨⟨_, hreports⟩, Or.inl hpending⟩

theorem turn_wait (h : s.state = .wait) : turn calls s = s := by
  unfold turn
  rw [h]

theorem owed_select (h : s.pc = .select) : s.owed = 0 := by
  simp [Loop.owed, h]

theorem owed_wait (h : s.state = .wait) : s.owed = 0 := by
  simp [Loop.owed, h]

theorem owed_report (hpc : s.pc = .turn) (h : s.state = .results ∨ s.state = .abort) : s.owed = 1 := by
  rcases h with h | h <;> simp [Loop.owed, hpc, h]

theorem left_select (h : s.pc = .select) :
    s.left = 2 * s.pending.length + 3 * s.pending.countP Sig.final := by
  simp [Loop.left, owed_select h, h]

theorem left_turn (h : s.pc = .turn) :
    s.left = 2 * s.pending.length + 3 * (s.pending.countP Sig.final + s.owed) + 1 := by
  simp [Loop.left, h]

theorem Running.next_turn (h : Running n s) (hpc : s.pc = .turn) :
    Running n { turn calls s with pc := .select } ∧
      Loop.left { turn calls s with pc := .select } < s.left := by
  have hcount := h.count
  rw [left_turn hpc, left_select rfl]
  rcases h.states hpc with hwait | hreport
  · rw [turn_wait hwait]
    rw [owed_wait hwait] at hcount ⊢
    exact ⟨⟨h.sigs, by simp, by rw [owed_select rfl]; exact hcount⟩, by simp only; omega⟩
  · obtain ⟨⟨r, hreports⟩, hpending⟩ := turn_report calls hreport
    have hfinal : (turn calls s).pending.countP Sig.final = s.pending.countP Sig.final := by
      rcases hpending with hp | hp <;> rw [hp]
      rw [List.countP_append]
      rfl
    have hlen : (turn calls s).pending.length ≤ s.pending.length + 1 := by
      rcases hpending with hp | hp <;> rw [hp] <;> simp
    rw [owed_report hpc hreport] at hcount ⊢
    refine ⟨⟨fun sig hsig => ?_, by simp, ?_⟩, ?_⟩
    · have hsig' : sig ∈ (turn calls s).pending := hsig
      rcases hpending with hp | hp <;> rw [hp] at hsig'
      · exact h.sigs sig hsig'
      · rcases List.mem_append.mp hsig' with hsig' | hsig'
        · exact h.sigs sig hsig'
        · exact Or.inl (List.mem_singleton.mp hsig')
    · rw [owed_select rfl]
      simp only [hreports, hfinal, List.length_append, List.length_singleton]
      omega
    · simp only [hfinal]
      omega

theorem Running.next_pick (h : Running n s) {index : ℕ} {sig : Sig} (hpc : s.pc = .select)
    (hsig : s.pending[index]? = some sig) :
    let s' : Loop :=
      { s with state := updateState sig, pending := s.pending.eraseIdx index, pc := .turn }
    Running n s' ∧ s'.left < s.left := by
  intro s'
  obtain ⟨hlt, hget⟩ := List.getElem?_eq_some_iff.mp hsig
  have hperm := List.getElem_cons_eraseIdx_perm hlt
  rw [hget] at hperm
  have hlen := hperm.length_eq
  have hfinal := hperm.countP_eq Sig.final
  have hcount := h.count
  rw [owed_select hpc] at hcount
  rw [left_select hpc, left_turn rfl]
  have hsigs : ∀ x ∈ s'.pending, x = .results ∨ x.final = true := fun x hx =>
    h.sigs x (List.mem_of_mem_eraseIdx hx)
  rw [List.length_cons] at hlen
  rw [List.countP_cons] at hfinal
  have hpending : s'.pending = s.pending.eraseIdx index := rfl
  have hreports : s'.reports = s.reports := rfl
  rcases h.sigs sig (List.mem_of_getElem? hsig) with rfl | hsigFinal
  · have howed : s'.owed = 0 := owed_wait rfl
    rw [howed, hpending]
    refine ⟨⟨hsigs, fun _ => Or.inl rfl, ?_⟩, by simp [Sig.final] at hfinal; omega⟩
    rw [howed, hpending, hreports]
    simp [Sig.final] at hfinal
    omega
  · have hstate : s'.state = .results ∨ s'.state = .abort := by
      show updateState sig = .results ∨ updateState sig = .abort
      cases sig <;> simp [updateState, Sig.final] at hsigFinal ⊢
    have howed : s'.owed = 1 := owed_report rfl hstate
    rw [howed, hpending]
    rw [if_pos hsigFinal] at hfinal
    refine ⟨⟨hsigs, fun _ => Or.inr hstate, ?_⟩, by omega⟩
    rw [howed, hpending, hreports]
    omega

/-- **The step lemma** of the accounting: a move keeps the number of reports sent and owed, and
leaves less to do. -/
theorem Running.next {a : Action} (h : Running n s) (hnext : next calls s a = some s') :
    Running n s' ∧ s'.left < s.left := by
  cases a with
  | turn =>
      simp only [MainLoop.next] at hnext
      split_ifs at hnext with hpc
      cases hnext
      exact h.next_turn hpc
  | pick index =>
      simp only [MainLoop.next] at hnext
      split_ifs at hnext with hpc
      cases hsig : s.pending[index]? with
      | none =>
          simp [hsig] at hnext
      | some sig =>
          simp only [hsig, Option.some.injEq] at hnext
          subst hnext
          exact h.next_pick hpc hsig

/-- The loop before `start_test`. -/
def starting (tests : List TestCase) : Loop :=
  { init tests with state := .start, pending := [], pc := .turn }

/-- The loop after `start_test`. -/
def started (tests : List TestCase) : Loop :=
  { init tests with state := .wait, pending := tests.reverse.flatMap TestCase.signal }

theorem countP_signal (c : TestCase) : c.signal.countP Sig.final = 1 := by
  unfold TestCase.signal
  cases c.done with
  | true => cases c.category <;> rfl
  | false => rfl

theorem running_started (tests : List TestCase) : Running tests.length (started tests) := by
  have howed : (started tests).owed = 0 := owed_wait rfl
  refine ⟨fun sig hsig => Or.inr ?_, by simp [started, init], ?_⟩
  · obtain ⟨c, -, hc⟩ := List.mem_flatMap.mp hsig
    unfold TestCase.signal at hc
    cases hdone : c.done <;> cases hcat : c.category <;>
      simp [hdone, hcat, Category.toCoverage, signalTestDone] at hc <;> rw [hc] <;> rfl
  · have hcount : (started tests).pending.countP Sig.final = tests.length := by
      show (tests.reverse.flatMap TestCase.signal).countP Sig.final = tests.length
      rw [List.countP_flatMap]
      have hone : List.countP Sig.final ∘ TestCase.signal = fun _ => 1 := funext countP_signal
      simp [hone]
    rw [howed, hcount]
    simp [started, init]

theorem next_init {a : Action} (hnext : next calls (init tests) a = some s') : s' = starting tests := by
  cases a with
  | turn =>
      simp [next, init] at hnext
  | pick index =>
      cases index with
      | zero =>
          simp only [next, init] at hnext
          cases hnext
          rfl
      | succ index =>
          simp [next, init] at hnext

theorem next_starting {a : Action} (hne : tests ≠ []) (hnext : next calls (starting tests) a = some s') :
    s' = started tests := by
  cases a with
  | turn =>
      have hqueue : (starting tests).queue = tests.reverse := decodeJsonConfig_eq tests
      have hstart : startTest (starting tests) = some ((starting tests).post
          (tests.reverse.flatMap TestCase.signal)) := by
        unfold startTest
        rw [hqueue, if_neg (by simpa using hne)]
      have hturn : turn calls (starting tests) = { (starting tests).post
          (tests.reverse.flatMap TestCase.signal) with state := .wait } := by
        show (match startTest (starting tests) with | some s => _ | none => _) = _
        rw [hstart]
      have hpc : (starting tests).pc = .turn := rfl
      simp only [next, hpc, if_true, hturn, Option.some.injEq] at hnext
      rw [← hnext]
      rfl
  | pick index =>
      simp [next, starting] at hnext

end Accounting

section WholeRuns

variable {calls : Calls} {tests : List TestCase} {s s' : Loop} {n : ℕ}

/-- The places of a run. -/
theorem reached_of_run (hne : tests ≠ []) {C : Loop → Action → Prop}
    (h : Run (next calls) C (init tests) s) :
    s = init tests ∨ s = starting tests ∨ Running tests.length s := by
  refine run_invariant (I := fun s => s = init tests ∨ s = starting tests ∨ Running tests.length s) ?_ h
    (Or.inl rfl)
  rintro s a t (rfl | rfl | hrunning) - hnext
  · exact Or.inr (Or.inl (next_init hnext))
  · rw [next_starting hne hnext]
    exact Or.inr (Or.inr (running_started tests))
  · exact Or.inr (Or.inr (hrunning.next hnext).1)

theorem run_started (hne : tests ≠ []) : Run (next calls) (fun _ _ => True) (init tests) (started tests) := by
  have hpick : next calls (init tests) (.pick 0) = some (starting tests) := rfl
  have hturn : ∃ s, next calls (starting tests) .turn = some s := ⟨_, rfl⟩
  obtain ⟨s, hs⟩ := hturn
  rw [next_starting hne hs] at hs
  exact ((Run.refl _).step trivial hpick).step trivial hs

/-- **Every test gets a report**, in every run and for every order of the signals. -/
theorem reports_of_run (hne : tests ≠ []) {C : Loop → Action → Prop}
    (h : Run (next calls) C (init tests) s) (hsettled : Settled s) : s.reports.length = tests.length := by
  obtain ⟨hpc, hpending⟩ := hsettled
  rcases reached_of_run hne h with rfl | rfl | hrunning
  · cases hpending
  · cases hpc
  · have hcount := hrunning.count
    rw [owed_select hpc, hpending, List.countP_nil] at hcount
    omega

theorem can_move (hpc : s.pc = .turn ∨ s.pending ≠ []) : ∃ a s', next calls s a = some s' := by
  cases hs : s.pc with
  | turn => exact ⟨.turn, _, by simp [next, hs]; rfl⟩
  | select =>
      rcases hpc with hpc | hpending
      · rw [hs] at hpc
        cases hpc
      · obtain ⟨sig, rest, hrest⟩ := List.exists_cons_of_ne_nil hpending
        exact ⟨.pick 0, _, by simp [next, hs, hrest]; rfl⟩

theorem settled_or_moves (calls : Calls) (s : Loop) : Settled s ∨ ∃ a s', next calls s a = some s' := by
  by_cases hpc : s.pc = .turn
  · exact Or.inr (can_move (Or.inl hpc))
  by_cases hpending : s.pending = []
  · left
    refine ⟨?_, hpending⟩
    cases hs : s.pc with
    | turn => exact absurd hs hpc
    | select => rfl
  · exact Or.inr (can_move (Or.inr hpending))

/-- A run that ends. -/
theorem exists_settled (calls : Calls) (hne : tests ≠ []) :
    ∃ s, Run (next calls) (fun _ _ => True) (init tests) s ∧ Settled s := by
  obtain ⟨s, hrun, -, hstuck⟩ := exists_stuck_of_measure (I := Running tests.length)
    (μ := Loop.left) (fun _ _ _ hI hnext => hI.next hnext) (running_started tests)
  refine ⟨s, (run_started hne).trans hrun, ?_⟩
  rcases settled_or_moves calls s with hsettled | ⟨a, s', hnext⟩
  · exact hsettled
  · rw [hstuck a] at hnext
    cases hnext

/-- Every run ends. -/
theorem length_of_run (hne : tests ≠ []) {as : List Action} (h : execTo (next calls) (init tests) as = some s) :
    as.length ≤ (started tests).left + 2 := by
  cases as with
  | nil => exact Nat.zero_le _
  | cons a as =>
      rw [execTo_cons] at h
      obtain ⟨u, hu, h⟩ := Option.bind_eq_some_iff.mp h
      rw [next_init hu] at h
      cases as with
      | nil => simp
      | cons a as =>
          rw [execTo_cons] at h
          obtain ⟨u, hu, h⟩ := Option.bind_eq_some_iff.mp h
          rw [next_starting hne hu] at h
          have hle := length_le_of_measure (I := Running tests.length) (μ := Loop.left)
            (fun _ _ _ hI hnext => hI.next hnext) h (running_started tests)
          simp only [List.length_cons]
          omega

end WholeRuns

section SingleTest

variable {calls : Calls} {c : TestCase} {s s' : Loop}

/-- The turn after the signal of a single test has been read. -/
def answering (c : TestCase) : Loop :=
  { init [c] with state := if c.done then .results else .abort, pending := [], pc := .turn }

/-- A run over a single test: after its report only the `results` signal may be pending. -/
def Single (c : TestCase) (s : Loop) : Prop :=
  s = init [c] ∨ s = starting [c] ∨ s = started [c] ∨ s = answering c ∨
    s.reports = [expected [c]] ∧ (∀ sig ∈ s.pending, sig = .results) ∧ (s.pc = .turn → s.state = .wait)

theorem turn_answering (hup : c.done = true → calls.uploaded 0 = true) :
    (turn calls (answering c)).reports = [expected [c]] ∧
      ∀ sig ∈ (turn calls (answering c)).pending, sig = .results := by
  cases hdone : c.done with
  | true =>
      have hstate : (answering c).state = .results := by simp [answering, hdone]
      obtain ⟨hreports, hpending⟩ := turn_complete calls hstate (by simp [answering, init,
        decodeJsonConfig]) (hup hdone)
      rw [hreports, hpending]
      simp [answering, init, decodeJsonConfig, expected, hdone]
  | false =>
      have hstate : (answering c).state = .abort := by simp [answering, hdone]
      obtain ⟨hreports, hpending⟩ := turn_failure calls (Or.inl hstate)
      rw [hreports, hpending]
      simp [answering, init, expected, hdone]

theorem next_started_single {a : Action} (hnext : next calls (started [c]) a = some s') :
    s' = answering c := by
  cases a with
  | turn =>
      simp [next, started, init] at hnext
  | pick index =>
      cases hdone : c.done <;> cases hcat : c.category <;> cases index <;>
        simp [next, started, init, TestCase.signal, hdone, hcat, Category.toCoverage, signalTestDone] at hnext <;>
        simp [← hnext, answering, init, hdone, updateState]

theorem Single.next {a : Action} (hup : c.done = true → calls.uploaded 0 = true) (h : Single c s)
    (hnext : next calls s a = some s') : Single c s' := by
  rcases h with rfl | rfl | rfl | rfl | ⟨hreports, hpending, hstate⟩
  · exact Or.inr (Or.inl (next_init hnext))
  · exact Or.inr (Or.inr (Or.inl (next_starting (by simp) hnext)))
  · exact Or.inr (Or.inr (Or.inr (Or.inl (next_started_single hnext))))
  · right; right; right; right
    cases a with
    | turn =>
        simp only [MainLoop.next, answering, if_true, Option.some.injEq] at hnext
        subst hnext
        obtain ⟨hreports, hpending⟩ := turn_answering hup
        exact ⟨hreports, hpending, by simp⟩
    | pick index =>
        simp [MainLoop.next, answering] at hnext
  · right; right; right; right
    cases a with
    | turn =>
        simp only [MainLoop.next] at hnext
        split_ifs at hnext with hpc
        rw [turn_wait (hstate hpc), Option.some.injEq] at hnext
        subst hnext
        exact ⟨hreports, hpending, by simp⟩
    | pick index =>
        simp only [MainLoop.next] at hnext
        split_ifs at hnext with hpc
        cases hsig : s.pending[index]? with
        | none =>
            simp [hsig] at hnext
        | some sig =>
            simp only [hsig, Option.some.injEq] at hnext
            subst hnext
            have hsigResults := hpending sig (List.mem_of_getElem? hsig)
            refine ⟨hreports, fun x hx => hpending x (List.mem_of_mem_eraseIdx hx), fun _ => ?_⟩
            rw [hsigResults]
            rfl

theorem single_of_run (hup : c.done = true → calls.uploaded 0 = true) {C : Loop → Action → Prop}
    (h : Run (next calls) C (init [c]) s) : Single c s :=
  run_invariant (fun _ _ _ hI _ hnext => Single.next hup hI hnext) h (Or.inl rfl)

theorem settled_single (hup : c.done = true → calls.uploaded 0 = true) {C : Loop → Action → Prop}
    (h : Run (next calls) C (init [c]) s) (hsettled : Settled s) : s.reports = [expected [c]] := by
  obtain ⟨hpc, hpending⟩ := hsettled
  rcases single_of_run hup h with rfl | rfl | rfl | rfl | ⟨hreports, -, -⟩
  · cases hpending
  · cases hpc
  · exact absurd hpending (by
      cases hdone : c.done <;> cases hcat : c.category <;>
        simp [started, TestCase.signal, hdone, hcat, Category.toCoverage, signalTestDone])
  · cases hpc
  · exact hreports

theorem reports_le_one {C : Loop → Action → Prop} (h : Run (next calls) C (init [c]) s) :
    s.reports.length ≤ 1 := by
  rcases reached_of_run (by simp) h with rfl | rfl | hrunning
  · exact Nat.zero_le _
  · exact Nat.zero_le _
  · have hcount := hrunning.count
    simp only [List.length_singleton] at hcount
    omega

end SingleTest

section OneReport

variable {calls : Calls} {tests : List TestCase}

/-- When the upload of the file list fails, a single done test ends with the failure report. -/
theorem uploaded_of_oneReport {c : TestCase} (h : OneReport calls [c]) (hdone : c.done = true) :
    calls.uploaded 0 = true := by
  by_contra hup
  rw [Bool.not_eq_true] at hup
  have hpick : next calls (started [c]) (.pick 0) = some (answering c) := by
    cases hcat : c.category <;>
      simp [next, started, init, TestCase.signal, hdone, hcat, Category.toCoverage, signalTestDone, answering,
        updateState]
  have hturn : next calls (answering c) .turn = some { turn calls (answering c) with pc := .select } := rfl
  have hstate : (answering c).state = .results := by simp [answering, hdone]
  obtain ⟨hreports, hpending⟩ := turn_failure calls (s := answering c)
    (Or.inr ⟨hstate, Or.inr hup⟩)
  have hfinal := h.final _ (((run_started (by simp)).step trivial hpick).step trivial hturn) ⟨rfl, hpending⟩
  have hfailure : (turn calls (answering c)).reports = [expected [c]] := hfinal
  rw [hreports] at hfailure
  simp [answering, init, expected, hdone] at hfailure

/-- **A configuration ends with its one expected report, in every run, exactly when** it has a
single test, whose file list is uploaded if the test is done. -/
theorem oneReport_iff (hne : tests ≠ []) :
    OneReport calls tests ↔
      tests.length = 1 ∧ (tests.all TestCase.done = true → calls.uploaded 0 = true) := by
  constructor
  · intro h
    obtain ⟨s, hrun, hsettled⟩ := exists_settled calls hne
    have hlen := reports_of_run hne hrun hsettled
    have honce := h.once s hrun
    have hpos := List.length_pos_iff.mpr hne
    have hone : tests.length = 1 := by omega
    obtain ⟨c, rfl⟩ := List.length_eq_one_iff.mp hone
    exact ⟨rfl, fun hall => uploaded_of_oneReport h (by simpa using hall)⟩
  · rintro ⟨hone, hup⟩
    obtain ⟨c, rfl⟩ := List.length_eq_one_iff.mp hone
    have hup' : c.done = true → calls.uploaded 0 = true := by simpa using hup
    refine ⟨fun s hrun => reports_le_one hrun, fun s hrun => settled_single hup' hrun,
      fun s _ => settled_or_moves calls s, ⟨_, fun as s hexec => length_of_run hne hexec⟩⟩

theorem oneReport_iff_sample : OneReport ⟨true, fun _ => true⟩ [⟨1, .coverage1, true⟩] :=
  (oneReport_iff (by simp)).mpr ⟨rfl, fun _ => rfl⟩

/-- Two tests that are both done. -/
def twoDone : List TestCase := [⟨1, .coverage1, true⟩, ⟨2, .coverage2, true⟩]

theorem twoDone_reports :
    (execTo (next ⟨true, fun _ => true⟩) (init twoDone)
      [.pick 0, .turn, .pick 0, .turn, .pick 0, .turn]).map Loop.reports =
      some [.complete [1, 2], .failure] := by
  rfl

theorem not_oneReport_twoDone : ¬ OneReport ⟨true, fun _ => true⟩ twoDone := by
  intro h
  obtain ⟨s, hs, hreports⟩ := Option.map_eq_some_iff.mp twoDone_reports
  have honce := h.once s (run_of_execTo hs)
  rw [hreports] at honce
  simp at honce

end OneReport

end OneWifiTestSuite.MainLoop
