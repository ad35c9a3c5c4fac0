import Mathlib.Data.List.Basic
import Mathlib.Tactic

/-!
# Steps of a test and their queue

`decode_step_config` numbers the steps it accepts from 0 on and pushes each at the front of
`test_steps_q`, so the step with sequence number `s` of `n` steps sits at queue index `n - s - 1`.
A `StepQueue` carries this index convention, and that every step is in `request`, as a field; it
is what the decoder returns, and every queue of this form is returned for some configuration
(`exists_decode`). The decoder checks no limit on the number of steps.
-/

namespace OneWifiTestSuite.Steps

/-- `wlan_emu_tests_state_t`; `cont` is `wlan_emu_tests_state_cmd_continue`. -/
inductive TestState
  | none
  | wait
  | request
  | start
  | results
  | cont
  | abort
deriving DecidableEq, Repr

/-- What step callbacks, worker threads and bus event handlers write into a `test_state`. -/
inductive Write
  | wait
  | results
  | cont
  | abort
deriving DecidableEq, Repr

def Write.toState : Write → TestState
  | .wait => .wait
  | .results => .results
  | .cont => .cont
  | .abort => .abort

/-- What the scheduler reads of `test_step_params_t`. -/
structure Step where
  stepNumber : ℕ
  stepSeqNum : ℕ
  fork : Bool
  testState : TestState
deriving DecidableEq, Repr

/-- The step at queue index `i` of `n` has sequence number `n - i - 1`. -/
def Indexed (steps : List Step) : Prop :=
  ∀ i step, steps[i]? = some step → step.stepSeqNum + i + 1 = steps.length

/-- A decoded queue of steps. -/
structure StepQueue where
  steps : List Step
  indexed : Indexed steps
  requested : ∀ step ∈ steps, step.testState = .request

/-- The number of steps. -/
def StepQueue.total (q : StepQueue) : ℕ := q.steps.length

theorem StepQueue.getElem?_seq (q : StepQueue) {i : ℕ} {step : Step} (h : q.steps[i]? = some step) :
    step.stepSeqNum + i + 1 = q.total :=
  q.indexed i step h

/-- `queue_push` of a step numbered with the count of those before it. -/
def StepQueue.push (q : StepQueue) (stepNumber : ℕ) (fork : Bool) : StepQueue where
  steps := ⟨stepNumber, q.total, fork, .request⟩ :: q.steps
  indexed := by
    intro i step h
    cases i with
    | zero =>
        cases h
        rfl
    | succ i =>
        have := q.getElem?_seq h
        simp only [StepQueue.total, List.length_cons] at this ⊢
        omega
  requested := by
    intro step hstep
    rcases List.mem_cons.mp hstep with rfl | hstep
    · rfl
    · exact q.requested step hstep

def StepQueue.empty : StepQueue where
  steps := []
  indexed := by
    intro i step h
    simp at h
  requested := by
    intro step hstep
    cases hstep

/-- An entry of the JSON array: its `StepNumber` (when there is one), its `Fork` flag, and whether
`decode_step_param_config` and `decode_step_common_config` accept it. -/
structure StepEntry where
  stepNumber : Option ℕ
  fork : Bool
  paramOk : Bool
  commonOk : Bool
deriving DecidableEq, Repr

/-- `check_reboot_step_config`, after a reboot at step `lastExecuted`. -/
def checkReboot (lastExecuted : ℕ) (paused : List ℕ) (entry : StepEntry) : Bool :=
  match entry.stepNumber with
  | none => false
  | some stepNumber =>
      if stepNumber = 0 then false
      else if stepNumber ≤ lastExecuted then paused.contains stepNumber
      else true

/-- The loop of `decode_step_config`; `none` is `RETURN_ERR`. -/
def decodeSteps (lastExecuted : ℕ) (paused : List ℕ) : List StepEntry → StepQueue → Option StepQueue
  | [], q => some q
  | entry :: entries, q =>
      if lastExecuted ≠ 0 ∧ checkReboot lastExecuted paused entry = false then
        decodeSteps lastExecuted paused entries q
      else if entry.paramOk = false then none
      else if entry.commonOk = false then none
      else decodeSteps lastExecuted paused entries (q.push (entry.stepNumber.getD 0) entry.fork)

/-- `decode_step_config`. -/
def decodeStepConfig (lastExecuted : ℕ) (paused : List ℕ) (entries : List StepEntry) : Option StepQueue :=
  decodeSteps lastExecuted paused entries .empty

/-- An entry that decodes. -/
def entryOf (stepNumber : ℕ) (fork : Bool) : StepEntry :=
  ⟨some stepNumber, fork, true, true⟩

theorem decodeSteps_entryOf (paused : List ℕ) (xs : List (ℕ × Bool)) (q : StepQueue) :
    decodeSteps 0 paused (xs.map fun x => entryOf x.1 x.2) q =
      some (xs.foldl (fun q x => q.push x.1 x.2) q) := by
  induction xs generalizing q with
  | nil =>
      rfl
  | cons x xs ih =>
      simp [decodeSteps, entryOf] at ih ⊢
      exact ih _

theorem foldl_push_steps (xs : List (ℕ × Bool)) (q : StepQueue) :
    ((xs.foldl (fun q x => q.push x.1 x.2) q).steps.map fun s => (s.stepNumber, s.fork)) =
      xs.reverse ++ q.steps.map fun s => (s.stepNumber, s.fork) := by
  induction xs generalizing q with
  | nil =>
      rfl
  | cons x xs ih =>
      rw [List.foldl_cons, ih, List.reverse_cons, List.append_assoc]
      rfl

/-- The steps of a queue are determined by their numbers and fork flags. -/
theorem StepQueue.ext_of_map {q q' : StepQueue}
    (h : (q.steps.map fun s => (s.stepNumber, s.fork)) = q'.steps.map fun s => (s.stepNumber, s.fork)) :
    q = q' := by
  suffices hsteps : q.steps = q'.steps by
    cases q
    cases q'
    simp only at hsteps
    subst hsteps
    rfl
  have hlen : q.steps.length = q'.steps.length := by
    simpa using congrArg List.length h
  refine List.ext_getElem hlen fun i hi hi' => ?_
  have hi₁ := List.getElem?_eq_getElem hi
  have hi₂ := List.getElem?_eq_getElem hi'
  have hseq := q.indexed i _ hi₁
  have hseq' := q'.indexed i _ hi₂
  have hreq := q.requested _ (List.getElem_mem hi)
  have hreq' := q'.requested _ (List.getElem_mem hi')
  have hmap := congrArg (fun xs => xs[i]?) h
  simp only [List.getElem?_map, hi₁, hi₂, Option.map_some, Option.some.injEq, Prod.mk.injEq] at hmap
  have hseqs : q.steps[i].stepSeqNum = q'.steps[i].stepSeqNum := by omega
  cases hs : q.steps[i]
  cases hs' : q'.steps[i]
  simp_all

/-- Every queue of steps is what the decoder returns for some configuration. -/
theorem exists_decode (q : StepQueue) : ∃ entries, decodeStepConfig 0 [] entries = some q := by
  let xs : List (ℕ × Bool) := (q.steps.map fun s => (s.stepNumber, s.fork)).reverse
  refine ⟨xs.map fun x : ℕ × Bool => entryOf x.1 x.2, ?_⟩
  unfold decodeStepConfig
  rw [decodeSteps_entryOf, Option.some.injEq]
  apply StepQueue.ext_of_map
  rw [foldl_push_steps]
  simp [xs, StepQueue.empty]

end OneWifiTestSuite.Steps
