import OneWifiTestSuite.StepRelease
import Mathlib.Logic.Function.Iterate

/-!
# The schedule of a statistics step

A step of type `stats_set` applies a list of instances, each for its duration. `step_timeout` moves on
with two counters and the queue of instances that shrinks. `applies_iff` is the exact condition on the
durations and on the answers of the HAL under which a list is applied as it should be, and
`toStatsSet_next` connects the step with the one whose releases are counted.
-/

namespace OneWifiTestSuite.StatsSchedule

open Steps

variable {F : Type}

/-! ### Data -/

section Data

/-- `stat_set_config_t`. -/
structure Config (F : Type) where
  statsDuration : ℤ
  inputFileJson : F
deriving DecidableEq, Repr

/-- The calls of `webconfig_stats_set_execute_start` and `webconfig_stats_set_execute_stop`. -/
inductive Call (F : Type)
  | start (reference : Config F)
  | stop
deriving DecidableEq, Repr

/-- The answers of the two calls; starts are counted. -/
structure Answers where
  start : ℕ → Bool
  stop : Bool

/-- The step, with the number of its timeouts and its successful calls, each at its timeout. -/
structure St (F : Type) where
  /-- the queue, the element that was pushed last in front -/
  statsSetQ : List (Config F)
  currentStatsSetCount : ℤ
  totalDuration : ℤ
  setExecDuration : ℤ
  executionTime : ℤ
  timeoutCount : ℤ
  fork : Bool
  testState : TestState
  timeouts : ℕ
  log : List (ℕ × Call F)

/-- The step after its constructor. -/
def St.init (fork : Bool) : St F where
  statsSetQ := []
  currentStatsSetCount := 0
  totalDuration := 0
  setExecDuration := 0
  executionTime := 0
  timeoutCount := 0
  fork := fork
  testState := .start
  timeouts := 0
  log := []

/-- `queue_peek`. -/
def queuePeek {α : Type} (q : List α) (index : ℤ) : Option α :=
  if index < 0 then none else q[index.toNat]?

/-- `queue_pop`. -/
def queuePop {α : Type} (q : List α) : List α × Option α :=
  (q.dropLast, q.getLast?)

end Data

/-! ### The code -/

section Code

/-- An element of `StatsConfiguration`, with `atoi` of its `StatsDuration`. -/
structure Entry (F : Type) where
  statsDuration : Option ℤ
  inputFile : Option F

/-- The loop of `decode_stats_set_common_params`; `none` is `RETURN_ERR`, and the total is an `int`. -/
def decodeStatsSetCommonParams : List (Entry F) → St F → Option (St F)
  | [], s => some s
  | entry :: entries, s =>
      match entry.statsDuration with
      | none => none
      | some duration =>
          let s := { s with totalDuration := (s.totalDuration + duration).bmod (2 ^ 32) }
          match entry.inputFile with
          | none => none
          | some file => decodeStatsSetCommonParams entries { s with statsSetQ := ⟨duration, file⟩ :: s.statsSetQ }

/-- The state in which the step waits for its next timeout. -/
def St.waiting (s : St F) : St F :=
  { s with testState := if s.fork then .wait else .cont }

def St.abort (s : St F) : St F :=
  { s with testState := .abort }

/-- `webconfig_stats_set_instance`; false is `RETURN_ERR`. -/
def St.setInstance (ans : Answers) (s : St F) : St F × Bool :=
  if s.statsSetQ ≠ [] ∧ 0 ≤ s.currentStatsSetCount then
    match queuePeek s.statsSetQ s.currentStatsSetCount with
    | none => (s.abort, false)
    | some reference =>
        if ans.start s.log.length then ({ s with log := s.log ++ [(s.timeouts, .start reference)] }, true)
        else (s.abort, false)
  else (s, true)

/-- `step_execute`. -/
def St.execute (ans : Answers) (s : St F) : St F :=
  let s := { s with
    currentStatsSetCount := s.statsSetQ.length - 1
    executionTime := s.totalDuration
    setExecDuration := 0 }
  match s.setInstance ans with
  | (s, true) => s.waiting
  | (s, false) => s.abort

/-- The end of `step_timeout`: the emulation is stopped at the execution time. -/
def St.finish (ans : Answers) (s : St F) : St F :=
  if s.timeoutCount < s.executionTime then s
  else if ans.stop = false then s.abort
  else
    { s with
      log := s.log ++ [(s.timeouts, .stop)]
      testState := if s.timeoutCount = s.executionTime then .results else .abort }

/-- The part of `step_timeout` that moves to the next instance. -/
def St.nextInstance (ans : Answers) (s : St F) : St F :=
  match queuePop s.statsSetQ with
  | (_, none) => s.abort
  | (q, some _) =>
      match St.setInstance ans { s with
          statsSetQ := q
          currentStatsSetCount := q.length - 1
          setExecDuration := 0 } with
      | (s, true) => St.waiting { s with setExecDuration := s.setExecDuration + 1 }
      | (s, false) => s.abort

/-- The count of the timeouts up to the execution time. -/
def St.count (s : St F) : St F :=
  if s.timeoutCount < s.executionTime then { s with timeoutCount := s.timeoutCount + 1 } else s

/-- `step_timeout`. -/
def St.timeout (ans : Answers) (s : St F) : St F :=
  let s := { s with timeouts := s.timeouts + 1 }
  if s.statsSetQ ≠ [] ∧ 0 ≤ s.currentStatsSetCount then
    match queuePeek s.statsSetQ s.currentStatsSetCount with
    | none => s.abort
    | some reference =>
        if s.timeoutCount < s.executionTime ∧ s.setExecDuration < reference.statsDuration then
          St.waiting { s.count with setExecDuration := s.setExecDuration + 1 }
        else if s.setExecDuration = reference.statsDuration then s.count.nextInstance ans
        else s.count.finish ans
  else s.finish ans

/-- A step that waits or continues gets its timeouts. -/
def St.next (ans : Answers) (s : St F) : St F :=
  if s.testState = .wait ∨ s.testState = .cont then s.timeout ans else s

end Code

/-! ### The purpose -/

section Spec

/-- The configured instances, in their order. -/
def St.configs (s : St F) : List (Config F) :=
  s.statsSetQ.reverse

def St.durations (s : St F) : List ℤ :=
  s.configs.map Config.statsDuration

/-- An instance is kept for its duration before the next one is applied. -/
def Kept (e e' : ℕ × Call F) : Prop :=
  ∀ c c', e.2 = .start c → e'.2 = .start c' → (e.1 : ℤ) + c.statsDuration ≤ e'.1

/-- Every instance has been applied once and in order, and kept for its duration; then the emulation has
been stopped once, and the step is in its results. -/
structure Applied (configs : List (Config F)) (t : St F) : Prop where
  calls : t.log.map Prod.snd = configs.map Call.start ++ [Call.stop]
  kept : t.log.IsChain Kept
  results : t.testState = .results

/-- The step comes to such a state. -/
def Applies (ans : Answers) (s : St F) : Prop :=
  ∃ n, Applied s.configs ((St.next ans)^[n] (s.execute ans))

/-- The condition on the durations: the total is not negative; of more than one duration the first is not
negative, those between the first and the last are positive, and the first and each later one but the last
that is more than one timeout long end within the total. -/
structure Fair (total : ℤ) (durations : List ℤ) : Prop where
  nonneg : 0 ≤ total
  first : ∀ d ds, durations = d :: ds → ds ≠ [] → 0 ≤ d
  between : ∀ pre d post, durations = pre ++ d :: post → pre ≠ [] → post ≠ [] → 0 < d
  inTime : ∀ pre d post, durations = pre ++ d :: post → post ≠ [] → pre = [] ∨ 1 < d → pre.sum + d ≤ total

/-- The HAL answers the calls that a list needs. -/
def Answers.Ok (ans : Answers) (n : ℕ) : Prop :=
  (∀ k < n, ans.start k = true) ∧ ans.stop = true

end Spec

/-! ### One timeout -/

section Timeout

variable {ans : Answers} {s t : St F} {c d : Config F} {rest : List (Config F)}

/-- The step is in its timeouts, and the instances from the current one on are these. -/
structure Going (s : St F) (pending : List (Config F)) : Prop where
  queue : s.statsSetQ = pending.reverse
  current : s.currentStatsSetCount = pending.length - 1
  waits : s.testState = if s.fork then .wait else .cont

theorem Going.next (h : Going s (d :: rest)) : s.next ans = s.timeout ans := by
  unfold St.next
  rw [if_pos]
  rw [h.waits]
  cases s.fork <;> simp

/-- The peek is at the current instance. -/
theorem Going.peek (h : Going s (d :: rest)) :
    (s.statsSetQ ≠ [] ∧ 0 ≤ s.currentStatsSetCount) ∧ queuePeek s.statsSetQ s.currentStatsSetCount = some d := by
  have hcurrent : s.currentStatsSetCount = rest.length := by
    rw [h.current]
    simp
  refine ⟨⟨by simp [h.queue], by omega⟩, ?_⟩
  rw [queuePeek, if_neg (by omega), hcurrent, h.queue]
  simp

/-- A timeout within the duration. -/
theorem next_stay (h : Going s (d :: rest)) (hcount : s.timeoutCount < s.executionTime)
    (hset : s.setExecDuration < d.statsDuration) : s.next ans = { s with
      timeouts := s.timeouts + 1
      timeoutCount := s.timeoutCount + 1
      setExecDuration := s.setExecDuration + 1 } := by
  rw [h.next]
  obtain ⟨hguard, hpeek⟩ := h.peek
  simp only [St.timeout, if_pos hguard, hpeek, hcount, hset, and_self, if_true, St.count, St.waiting]
  rw [← h.waits]

/-- The timeout that ends the duration. -/
theorem next_pop (h : Going s (d :: rest)) (hset : s.setExecDuration = d.statsDuration) :
    s.next ans = St.nextInstance ans (St.count { s with timeouts := s.timeouts + 1 }) := by
  rw [h.next]
  obtain ⟨hguard, hpeek⟩ := h.peek
  simp only [St.timeout, if_pos hguard, hpeek, hset, lt_irrefl, and_false, if_false, if_true]

/-- A timeout that neither stays nor moves on. -/
theorem next_else (ans : Answers) (h : Going s (d :: rest))
    (hstay : ¬ (s.timeoutCount < s.executionTime ∧ s.setExecDuration < d.statsDuration))
    (hset : s.setExecDuration ≠ d.statsDuration) :
    s.next ans = St.finish ans (St.count { s with timeouts := s.timeouts + 1 }) := by
  rw [h.next]
  obtain ⟨hguard, hpeek⟩ := h.peek
  simp only [St.timeout, if_pos hguard, hpeek, if_neg hstay, if_neg hset]

theorem next_empty (hqueue : s.statsSetQ = []) (hwaits : s.testState = if s.fork then .wait else .cont) :
    s.next ans = St.finish ans { s with timeouts := s.timeouts + 1 } := by
  unfold St.next
  rw [if_pos]
  · simp [St.timeout, hqueue]
  · rw [hwaits]
    cases s.fork <;> simp

theorem count_eq (h : s.timeoutCount ≤ s.executionTime) :
    s.count = { s with timeoutCount := min (s.timeoutCount + 1) s.executionTime } := by
  unfold St.count
  split_ifs with hlt
  · rw [min_eq_left (by omega)]
  · have heq : min (s.timeoutCount + 1) s.executionTime = s.timeoutCount := by omega
    rw [heq]

theorem nextInstance_nil (h : Going s [d]) : s.nextInstance ans = { s with
    statsSetQ := []
    currentStatsSetCount := -1
    setExecDuration := 1 } := by
  have hpop : queuePop s.statsSetQ = ([], some d) := by
    rw [h.queue]
    rfl
  simp only [St.nextInstance, hpop, St.setInstance, ne_eq, not_true_eq_false, false_and, if_false, St.waiting,
    List.length_nil]
  rw [← h.waits]
  rfl

theorem nextInstance_cons (h : Going s (d :: c :: rest)) : s.nextInstance ans =
    if ans.start s.log.length then { s with
      statsSetQ := (c :: rest).reverse
      currentStatsSetCount := rest.length
      setExecDuration := 1
      log := s.log ++ [(s.timeouts, .start c)] }
    else St.abort { s with
      statsSetQ := (c :: rest).reverse
      currentStatsSetCount := rest.length
      setExecDuration := 0 } := by
  have hpop : queuePop s.statsSetQ = ((c :: rest).reverse, some d) := by
    rw [h.queue, List.reverse_cons]
    simp [queuePop]
  have hlen : (((c :: rest).reverse.length : ℕ) : ℤ) - 1 = rest.length := by
    simp
  have hpeek : queuePeek (c :: rest).reverse (rest.length : ℤ) = some c := by
    rw [queuePeek, if_neg (by omega)]
    simp
  have hguard : (c :: rest).reverse ≠ [] ∧ (0 : ℤ) ≤ rest.length := ⟨by simp, by omega⟩
  simp only [St.nextInstance, hpop, St.setInstance, hlen, if_pos hguard, hpeek]
  cases ans.start s.log.length with
  | true =>
      simp only [if_true, St.waiting]
      rw [← h.waits]
      rfl
  | false =>
      rfl

end Timeout

/-! ### Stretches of timeouts -/

section Stretches

variable {ans : Answers} {s t : St F} {c d : Config F} {rest : List (Config F)}

/-- The timeouts within a duration. -/
theorem iterate_stay (ans : Answers) (h : Going s (d :: rest)) (n : ℕ) (hcount : s.timeoutCount + n ≤ s.executionTime)
    (hset : s.setExecDuration + n ≤ d.statsDuration) : (St.next ans)^[n] s = { s with
      timeouts := s.timeouts + n
      timeoutCount := s.timeoutCount + n
      setExecDuration := s.setExecDuration + n } := by
  induction n with
  | zero =>
      simp
  | succ n ih =>
      push_cast at hcount hset
      have hgoing : Going { s with
          timeouts := s.timeouts + n
          timeoutCount := s.timeoutCount + n
          setExecDuration := s.setExecDuration + n } (d :: rest) := ⟨h.queue, h.current, h.waits⟩
      rw [Function.iterate_succ_apply', ih (by omega) (by omega)]
      rw [next_stay hgoing (by simpa using by omega) (by simpa using by omega)]
      push_cast
      simp only [add_assoc]

/-- The timeouts up to the one that ends a duration. -/
theorem iterate_pop (ans : Answers) (h : Going s (d :: rest)) {n : ℕ} (hset : d.statsDuration = s.setExecDuration + n)
    (hcount : s.timeoutCount + n ≤ s.executionTime) : (St.next ans)^[n + 1] s = St.nextInstance ans { s with
      timeouts := s.timeouts + n + 1
      timeoutCount := min (s.timeoutCount + n + 1) s.executionTime
      setExecDuration := s.setExecDuration + n } := by
  have hgoing : Going { s with
      timeouts := s.timeouts + n
      timeoutCount := s.timeoutCount + n
      setExecDuration := s.setExecDuration + n } (d :: rest) := ⟨h.queue, h.current, h.waits⟩
  rw [Function.iterate_succ_apply', iterate_stay ans h n hcount hset.ge, next_pop hgoing hset.symm, count_eq hcount]

/-- The step comes to its stop without another instance. -/
def Stops (ans : Answers) (s : St F) : Prop :=
  ∃ n, (ans.stop = true → ((St.next ans)^[n] s).testState = .results ∧
      ((St.next ans)^[n] s).log.map Prod.snd = s.log.map Prod.snd ++ [Call.stop]) ∧
    (ans.stop = false → ((St.next ans)^[n] s).testState = .abort)

theorem Stops.of_iterate {n : ℕ} (hlog : ((St.next ans)^[n] s).log = s.log) (h : Stops ans ((St.next ans)^[n] s)) :
    Stops ans s := by
  obtain ⟨m, hok, hfail⟩ := h
  refine ⟨m + n, ?_, ?_⟩
  · rw [Function.iterate_add_apply, ← hlog]
    exact hok
  · rw [Function.iterate_add_apply]
    exact hfail

/-- The end of a timeout at the execution time. -/
theorem stops_of_finish (h : s.next ans = t.finish ans) (hlog : t.log = s.log)
    (hcount : t.timeoutCount = t.executionTime) : Stops ans s := by
  refine ⟨1, fun hok => ?_, fun hfail => ?_⟩
  · rw [Function.iterate_one, h, St.finish, if_neg (by omega), if_neg (by simp [hok]), ← hlog]
    simp [hcount]
  · rw [Function.iterate_one, h, St.finish, if_neg (by omega), if_pos hfail]
    rfl

/-- An instance that is over its duration stays until the stop. -/
theorem stops_over (h : Going s (d :: rest)) (hcount : s.timeoutCount ≤ s.executionTime)
    (hset : d.statsDuration < s.setExecDuration) : Stops ans s := by
  obtain ⟨n, hn⟩ : ∃ n : ℕ, s.executionTime = s.timeoutCount + n := ⟨(s.executionTime - s.timeoutCount).toNat, by omega⟩
  induction n generalizing s with
  | zero =>
      have hnext := next_else ans h (by omega) (by omega)
      rw [St.count, if_neg (by simpa using by omega)] at hnext
      exact stops_of_finish hnext rfl (by simpa using hn.symm)
  | succ n ih =>
      have hnext := next_else ans h (by omega) (by omega)
      rw [St.count, if_pos (by simpa using by omega)] at hnext
      by_cases hlast : n = 0
      · subst hlast
        exact stops_of_finish hnext rfl (by simpa using hn.symm)
      · rw [St.finish, if_pos (by simpa using by omega)] at hnext
        refine Stops.of_iterate (n := 1) (by rw [Function.iterate_one, hnext]) ?_
        rw [Function.iterate_one, hnext]
        exact ih ⟨h.queue, h.current, h.waits⟩ (by simpa using by omega) hset (by push_cast at hn; simpa using by omega)

/-- An instance that lasts longer than the step is cut by the stop. -/
theorem stops_short (h : Going s (d :: rest)) (hcount : s.timeoutCount ≤ s.executionTime)
    (hset : s.executionTime - s.timeoutCount < d.statsDuration - s.setExecDuration) : Stops ans s := by
  obtain ⟨n, hn⟩ : ∃ n : ℕ, s.executionTime = s.timeoutCount + n := ⟨(s.executionTime - s.timeoutCount).toNat, by omega⟩
  have hstay := iterate_stay ans h n (by omega) (by omega)
  refine Stops.of_iterate (n := n) (by rw [hstay]) ?_
  rw [hstay]
  have hgoing : Going { s with
      timeouts := s.timeouts + n
      timeoutCount := s.timeoutCount + n
      setExecDuration := s.setExecDuration + n } (d :: rest) := ⟨h.queue, h.current, h.waits⟩
  have hnext := next_else ans hgoing (by simpa using by omega) (by simpa using by omega)
  rw [St.count, if_neg (by simpa using by omega)] at hnext
  exact stops_of_finish hnext rfl (by simpa using hn.symm)

/-- The last instance runs out with the step. -/
theorem stops_last (h : Going s [d]) (hset : s.setExecDuration ≤ d.statsDuration)
    (hcount : s.timeoutCount + (d.statsDuration - s.setExecDuration) ≤ s.executionTime)
    (hend : s.executionTime ≤ s.timeoutCount + (d.statsDuration - s.setExecDuration) + 1) : Stops ans s := by
  obtain ⟨n, hn⟩ : ∃ n : ℕ, d.statsDuration = s.setExecDuration + n :=
    ⟨(d.statsDuration - s.setExecDuration).toNat, by omega⟩
  have hpop := (iterate_pop ans h hn (by omega)).trans
    (nextInstance_nil (d := d) ⟨h.queue, h.current, h.waits⟩)
  -- the queue is empty now, and the count has reached the execution time
  refine Stops.of_iterate (n := n + 1) (by rw [hpop]) ?_
  rw [hpop]
  refine stops_of_finish (next_empty rfl h.waits) rfl ?_
  simp only
  omega

end Stretches

/-! ### The whole list -/

section Outcome

variable {ans : Answers} {s t : St F} {c d : Config F} {rest : List (Config F)}

/-- The durations up to the last one fit, from an instance on that has been kept for `set` timeouts when
`count` are over. -/
def Passes (total : ℤ) : ℤ → ℤ → List ℤ → Prop
  | _, _, [] => True
  | _, _, [_] => True
  | count, set, d :: e :: ds =>
      set ≤ d ∧ count + (d - set) ≤ total ∧ Passes total (min (count + (d - set) + 1) total) 1 (e :: ds)

/-- If they fit, the last one does not end before the step. -/
def LastOk (total : ℤ) : ℤ → ℤ → List ℤ → Prop
  | _, _, [] => True
  | count, set, [d] => set ≤ d → total ≤ count + (d - set) + 1
  | count, set, d :: e :: ds =>
      set ≤ d → count + (d - set) ≤ total → LastOk total (min (count + (d - set) + 1) total) 1 (e :: ds)

/-- The step is in its results, after the calls for these instances and the stop. -/
def Ended (before : List (Call F)) (rest : List (Config F)) (t : St F) : Prop :=
  t.testState = .results ∧ t.log.map Prod.snd = before ++ rest.map Call.start ++ [Call.stop]

/-- The step is no longer called. -/
def St.Over (t : St F) : Prop :=
  t.testState = .results ∨ t.testState = .abort

theorem Stops.outcome (h : Stops ans s) (rest : List (Config F)) :
    ∃ n, ((St.next ans)^[n] s).Over ∧
      (Ended (s.log.map Prod.snd) rest ((St.next ans)^[n] s) ↔ rest = [] ∧ ans.stop = true) := by
  obtain ⟨n, hok, hfail⟩ := h
  refine ⟨n, ?_⟩
  cases hstop : ans.stop with
  | true =>
      obtain ⟨hresults, hlog⟩ := hok hstop
      refine ⟨Or.inl hresults, ?_⟩
      unfold Ended
      rw [hlog, List.append_assoc, List.append_cancel_left_eq]
      simp [hresults]
  | false =>
      have habort := hfail hstop
      exact ⟨Or.inr habort, by simp [Ended, habort]⟩

/-- **How a step ends that has just been given an instance.** -/
theorem outcome (ans : Answers) (rest : List (Config F)) (d : Config F) (s : St F) (h : Going s (d :: rest))
    (hcount : s.timeoutCount ≤ s.executionTime)
    (hlast : LastOk s.executionTime s.timeoutCount s.setExecDuration ((d :: rest).map Config.statsDuration)) :
    ∃ n, ((St.next ans)^[n] s).Over ∧
      (Ended (s.log.map Prod.snd) rest ((St.next ans)^[n] s) ↔
        Passes s.executionTime s.timeoutCount s.setExecDuration ((d :: rest).map Config.statsDuration) ∧
          (∀ k < rest.length, ans.start (s.log.length + k) = true) ∧ ans.stop = true) := by
  induction rest generalizing d s with
  | nil =>
      have hstops : Stops ans s := by
        by_cases hover : d.statsDuration < s.setExecDuration
        · exact stops_over h hcount hover
        · by_cases hshort : s.executionTime - s.timeoutCount < d.statsDuration - s.setExecDuration
          · exact stops_short h hcount hshort
          · exact stops_last h (by omega) (by omega) (hlast (by omega))
      obtain ⟨n, hover, hended⟩ := hstops.outcome []
      refine ⟨n, hover, hended.trans ?_⟩
      simp [Passes]
  | cons c rest ih =>
      by_cases hfits : s.setExecDuration ≤ d.statsDuration ∧
          s.timeoutCount + (d.statsDuration - s.setExecDuration) ≤ s.executionTime
      · obtain ⟨n, hn⟩ : ∃ n : ℕ, d.statsDuration = s.setExecDuration + n :=
          ⟨(d.statsDuration - s.setExecDuration).toNat, by omega⟩
        have hpop := (iterate_pop ans h hn (by omega)).trans
          (nextInstance_cons (d := d) ⟨h.queue, h.current, h.waits⟩)
        have hdur : d.statsDuration - s.setExecDuration = n := by omega
        have hstarts : (∀ k < (c :: rest).length, ans.start (s.log.length + k) = true) ↔
            ans.start s.log.length = true ∧ ∀ k < rest.length, ans.start (s.log.length + 1 + k) = true := by
          rw [List.length_cons, Nat.forall_lt_succ_left]
          simp only [Nat.add_zero, Nat.add_assoc, Nat.add_comm 1]
        cases hstart : ans.start s.log.length with
        | false =>
            simp only [hstart, Bool.false_eq_true, if_false] at hpop
            refine ⟨n + 1, ?_⟩
            rw [hpop, hstarts]
            exact ⟨Or.inr rfl, iff_of_false (by simp [Ended, St.abort]) (by simp [hstart])⟩
        | true =>
            simp only [hstart, if_true] at hpop
            have hlast' := hlast hfits.1 hfits.2
            rw [hdur] at hlast'
            obtain ⟨m, hover, hended⟩ := ih c { s with
                statsSetQ := (c :: rest).reverse
                currentStatsSetCount := rest.length
                timeoutCount := min (s.timeoutCount + n + 1) s.executionTime
                setExecDuration := 1
                timeouts := s.timeouts + n + 1
                log := s.log ++ [(s.timeouts + n + 1, .start c)] }
              ⟨rfl, by simp, h.waits⟩ (min_le_right _ _) hlast'
            refine ⟨m + (n + 1), ?_⟩
            rw [Function.iterate_add_apply, hpop, hstarts]
            refine ⟨hover, Iff.trans ?_ (hended.trans ?_)⟩
            · simp [Ended]
            · rw [List.length_append, List.length_singleton]
              simp only [List.map_cons, Passes, hdur, hstart, true_and]
              constructor
              · rintro ⟨hpass, hrest⟩
                exact ⟨⟨hfits.1, by omega, hpass⟩, hrest⟩
              · rintro ⟨⟨-, -, hpass⟩, hrest⟩
                exact ⟨hpass, hrest⟩
      · have hstops : Stops ans s := by
          by_cases hover : d.statsDuration < s.setExecDuration
          · exact stops_over h hcount hover
          · exact stops_short h hcount (by omega)
        obtain ⟨n, hover, hended⟩ := hstops.outcome (c :: rest)
        refine ⟨n, hover, hended.trans (iff_of_false (by simp) ?_)⟩
        rintro ⟨⟨hset, hle, -⟩, -⟩
        exact hfits ⟨hset, hle⟩

theorem next_of_over (h : t.Over) : t.next ans = t := by
  unfold St.next
  rw [if_neg]
  rintro (hwait | hcont)
  · obtain hresults | habort := h <;> simp_all
  · obtain hresults | habort := h <;> simp_all

/-- A step is over in one way only. -/
theorem iterate_over_unique {m n : ℕ} (hm : ((St.next ans)^[m] s).Over) (hn : ((St.next ans)^[n] s).Over) :
    (St.next ans)^[m] s = (St.next ans)^[n] s := by
  obtain ⟨k, rfl⟩ | ⟨k, rfl⟩ := (Nat.le_total m n).imp Nat.exists_eq_add_of_le' Nat.exists_eq_add_of_le'
  · rw [Function.iterate_add_apply, Function.iterate_fixed (next_of_over hm)]
  · rw [Function.iterate_add_apply, Function.iterate_fixed (next_of_over hn)]

end Outcome

/-! ### The durations -/

section Durations

variable {total sum count set d : ℤ} {ds : List ℤ}

theorem forall_split_cons {P : List ℤ → ℤ → List ℤ → Prop} :
    (∀ pre x post, d :: ds = pre ++ x :: post → P pre x post) ↔
      P [] d ds ∧ ∀ pre x post, ds = pre ++ x :: post → P (d :: pre) x post := by
  constructor
  · intro h
    refine ⟨h [] d ds rfl, ?_⟩
    rintro pre x post rfl
    exact h (d :: pre) x post rfl
  · rintro ⟨hfirst, hrest⟩ (_ | ⟨p, pre⟩) x post heq
    · obtain ⟨rfl, rfl⟩ := List.cons_eq_cons.mp heq
      exact hfirst
    · obtain ⟨rfl, htail⟩ := List.cons_eq_cons.mp heq
      exact hrest pre x post htail

/-- The conditions on the durations behind the first one, which are over after `sum` timeouts. -/
theorem passes_iff (sum : ℤ) (hsum : count = min (sum + 1) total) : Passes total count 1 ds ↔
    ∀ pre d post, ds = pre ++ d :: post → post ≠ [] → 0 < d ∧ (1 < d → sum + pre.sum + d ≤ total) := by
  induction ds generalizing sum count with
  | nil =>
      simp [Passes]
  | cons d ds ih =>
      rw [forall_split_cons]
      cases ds with
      | nil =>
          simp [Passes]
      | cons e es =>
          have hsplit : (1 ≤ d ∧ count + (d - 1) ≤ total) ↔ 0 < d ∧ (1 < d → sum + [].sum + d ≤ total) := by
            rw [List.sum_nil]
            omega
          rw [Passes, ← and_assoc, hsplit]
          simp only [ne_eq, reduceCtorEq, not_false_eq_true, true_implies, List.sum_nil]
          refine and_congr_right fun hd => (ih (sum + d) (by omega)).trans ?_
          simp only [List.sum_cons, add_assoc, ne_eq]

/-- The last one ends with the step when the total is at most the sum. -/
theorem lastOk_of_le (sum : ℤ) (hsum : count = min (sum + 1) total) (hnonneg : 0 ≤ sum)
    (htotal : 0 ≤ sum + ds.sum → total ≤ sum + ds.sum) : LastOk total count 1 ds := by
  induction ds generalizing sum count with
  | nil =>
      trivial
  | cons d ds ih =>
      rw [List.sum_cons] at htotal
      cases ds with
      | nil =>
          intro hd
          rw [List.sum_nil] at htotal
          omega
      | cons e es =>
          intro hd hcount
          exact ih (sum + d) (by omega) (by omega) (by rwa [add_assoc])

/-- From the first instance on, the condition is the one on the list. -/
theorem fair_iff (htotal : 0 ≤ total) : Fair total (d :: ds) ↔ Passes total 0 0 (d :: ds) := by
  cases ds with
  | nil =>
      refine iff_of_true ⟨htotal, ?_, ?_, ?_⟩ trivial
      · rintro _ _ ⟨⟩ hne
        exact absurd rfl hne
      · rw [forall_split_cons]
        simp
      · rw [forall_split_cons]
        simp
  | cons e es =>
      rw [Passes, passes_iff d (by omega)]
      constructor
      · rintro ⟨-, hfirst, hbetween, htime⟩
        refine ⟨hfirst d _ rfl (by simp), ?_, fun pre x post heq hpost => ⟨?_, fun hx => ?_⟩⟩
        · have := htime [] d (e :: es) rfl (by simp) (Or.inl rfl)
          rw [List.sum_nil] at this
          omega
        · exact hbetween (d :: pre) x post (by rw [heq, List.cons_append]) (by simp) hpost
        · have := htime (d :: pre) x post (by rw [heq, List.cons_append]) hpost (Or.inr hx)
          rwa [List.sum_cons] at this
      · rintro ⟨hfirst, hle, hrest⟩
        refine ⟨htotal, ?_, ?_, ?_⟩
        · rintro _ _ ⟨⟩ -
          exact hfirst
        · rw [forall_split_cons]
          exact ⟨fun h => absurd rfl h, fun pre x post heq _ hpost => (hrest pre x post heq hpost).1⟩
        · rw [forall_split_cons]
          refine ⟨fun _ _ => by rw [List.sum_nil]; omega, fun pre x post heq hpost hx => ?_⟩
          rw [List.sum_cons]
          exact (hrest pre x post heq hpost).2 (hx.resolve_left (by simp))

theorem lastOk_first (hle : 0 ≤ (d :: ds).sum → total ≤ (d :: ds).sum) : LastOk total 0 0 (d :: ds) := by
  rw [List.sum_cons] at hle
  cases ds with
  | nil =>
      intro hd
      rw [List.sum_nil] at hle
      omega
  | cons e es =>
      intro hd hcount
      exact lastOk_of_le d (by omega) hd hle

theorem bmod_le_self {x : ℤ} (hx : 0 ≤ x) : x.bmod (2 ^ 32) ≤ x := by
  simp only [Int.bmod]
  split_ifs <;> omega

end Durations

/-! ### The durations are kept -/

section Pace

variable {ans : Answers} {s t : St F} {pending : List (Config F)}

/-- While the step goes on, its last start is that of the current instance, which has not been kept for
longer than its timeouts say. -/
structure Paced (s : St F) (pending : List (Config F)) : Prop where
  going : Going s pending
  last : ∀ d rest, pending = d :: rest → ∃ n : ℕ, s.log.getLast? = some (n, Call.start d) ∧
    s.setExecDuration ≤ s.timeouts - n + 1

/-- The invariant of the timeouts. -/
def Inv (s : St F) : Prop :=
  s.log.IsChain Kept ∧ (s.Over ∨ ∃ pending, Paced s pending)

theorem kept_stop (e : ℕ × Call F) (n : ℕ) : Kept e (n, .stop) := by
  rintro c c' - ⟨⟩

theorem inv_snoc {e : ℕ × Call F} (hkept : s.log.IsChain Kept) (h : ∀ e' ∈ s.log.getLast?, Kept e' e) :
    (s.log ++ [e]).IsChain Kept := by
  refine List.isChain_append.mpr ⟨hkept, List.isChain_singleton e, ?_⟩
  rintro e' he' _ ⟨⟩
  exact h e' he'

/-- The end of a timeout goes on or is the end of the step. -/
theorem inv_finish (hkept : t.log.IsChain Kept) (h : Paced t pending) : Inv (t.finish ans) := by
  unfold St.finish
  by_cases hcount : t.timeoutCount < t.executionTime
  · rw [if_pos hcount]
    exact ⟨hkept, Or.inr ⟨pending, h⟩⟩
  · rw [if_neg hcount]
    cases ans.stop with
    | false =>
        exact ⟨hkept, Or.inl (Or.inr rfl)⟩
    | true =>
        refine ⟨inv_snoc hkept fun e _ => kept_stop e _, Or.inl ?_⟩
        by_cases hend : t.timeoutCount = t.executionTime
        · exact Or.inl (if_pos hend)
        · exact Or.inr (if_neg hend)

theorem exists_count (s : St F) : ∃ count, s.count = { s with timeoutCount := count } := by
  unfold St.count
  split_ifs
  · exact ⟨_, rfl⟩
  · exact ⟨s.timeoutCount, rfl⟩

theorem Paced.tick (h : Paced s pending) (count : ℤ) :
    Paced { s with timeouts := s.timeouts + 1, timeoutCount := count } pending := by
  refine ⟨⟨h.going.queue, h.going.current, h.going.waits⟩, fun d rest heq => ?_⟩
  obtain ⟨n, hlog, hset⟩ := h.last d rest heq
  exact ⟨n, hlog, by push_cast; omega⟩

theorem inv_nextInstance {d : Config F} {rest : List (Config F)} (hkept : s.log.IsChain Kept)
    (h : Paced s (d :: rest)) (hset : s.setExecDuration = d.statsDuration)
    (hpace : ∀ n : ℕ, s.log.getLast? = some (n, Call.start d) → s.setExecDuration ≤ s.timeouts - n) :
    Inv (s.nextInstance ans) := by
  cases rest with
  | nil =>
      rw [nextInstance_nil h.going]
      exact ⟨hkept, Or.inr ⟨[], ⟨rfl, rfl, h.going.waits⟩, by rintro _ _ ⟨⟩⟩⟩
  | cons c rest =>
      rw [nextInstance_cons h.going]
      split_ifs with hstart
      · obtain ⟨n, hlog, -⟩ := h.last d _ rfl
        refine ⟨inv_snoc hkept ?_, Or.inr ⟨c :: rest, ⟨rfl, by simp, h.going.waits⟩, ?_⟩⟩
        · rw [hlog]
          rintro _ ⟨⟩ _ _ ⟨⟩ ⟨⟩
          have := hpace n hlog
          simp only
          omega
        · rintro _ _ ⟨⟩
          exact ⟨s.timeouts, List.getLast?_concat, by simp⟩
      · exact ⟨hkept, Or.inl (Or.inr rfl)⟩

/-- **Each timeout keeps the invariant.** -/
theorem inv_next (h : Inv s) : Inv (s.next ans) := by
  obtain ⟨hkept, hover | ⟨pending, h⟩⟩ := h
  · rw [next_of_over hover]
    exact ⟨hkept, Or.inl hover⟩
  · obtain ⟨count, hcount⟩ := exists_count { s with timeouts := s.timeouts + 1 }
    cases pending with
    | nil =>
        rw [next_empty h.going.queue h.going.waits]
        exact inv_finish hkept ⟨⟨h.going.queue, h.going.current, h.going.waits⟩, by rintro _ _ ⟨⟩⟩
    | cons d rest =>
        by_cases hstay : s.timeoutCount < s.executionTime ∧ s.setExecDuration < d.statsDuration
        · rw [next_stay h.going hstay.1 hstay.2]
          refine ⟨hkept, Or.inr ⟨d :: rest, ⟨h.going.queue, h.going.current, h.going.waits⟩, ?_⟩⟩
          rintro _ _ ⟨⟩
          obtain ⟨n, hlast, hset⟩ := h.last d rest rfl
          exact ⟨n, hlast, by push_cast; omega⟩
        · by_cases hset : s.setExecDuration = d.statsDuration
          · rw [next_pop h.going hset, hcount]
            refine inv_nextInstance hkept (h.tick count) hset fun n hn => ?_
            obtain ⟨n', hlast, hle⟩ := h.last d rest rfl
            have heq : n' = n := congrArg Prod.fst (Option.some.inj (hlast.symm.trans hn))
            push_cast
            omega
          · rw [next_else _ h.going hstay hset, hcount]
            exact inv_finish hkept (h.tick count)

theorem inv_iterate (h : Inv s) (n : ℕ) : Inv ((St.next ans)^[n] s) := by
  induction n with
  | zero =>
      exact h
  | succ n ih =>
      rw [Function.iterate_succ_apply']
      exact inv_next ih

/-- A negative total is exceeded from the start on, and the step does not come to its results. -/
def Late (s : St F) : Prop :=
  s.executionTime < s.timeoutCount ∧ (s.testState = .abort ∨ ∃ pending, Going s pending)

theorem late_finish (h : t.executionTime < t.timeoutCount) : Late (t.finish ans) := by
  unfold St.finish
  rw [if_neg (by omega)]
  cases ans.stop with
  | false =>
      exact ⟨h, Or.inl rfl⟩
  | true =>
      exact ⟨h, Or.inl (if_neg (by simpa using by omega))⟩

theorem late_nextInstance {d : Config F} {rest : List (Config F)} (h : Going s (d :: rest))
    (hlate : s.executionTime < s.timeoutCount) : Late (s.nextInstance ans) := by
  cases rest with
  | nil =>
      rw [nextInstance_nil h]
      exact ⟨hlate, Or.inr ⟨[], rfl, rfl, h.waits⟩⟩
  | cons c rest =>
      rw [nextInstance_cons h]
      split_ifs
      · exact ⟨hlate, Or.inr ⟨c :: rest, rfl, by simp, h.waits⟩⟩
      · exact ⟨hlate, Or.inl rfl⟩

theorem late_next (h : Late s) : Late (s.next ans) := by
  obtain ⟨hlate, habort | ⟨pending, hgoing⟩⟩ := h
  · rw [next_of_over (Or.inr habort)]
    exact ⟨hlate, Or.inl habort⟩
  · cases pending with
    | nil =>
        rw [next_empty hgoing.queue hgoing.waits]
        exact late_finish hlate
    | cons d rest =>
        have hcount : St.count { s with timeouts := s.timeouts + 1 } = { s with timeouts := s.timeouts + 1 } :=
          if_neg (by simpa using by omega)
        by_cases hset : s.setExecDuration = d.statsDuration
        · rw [next_pop hgoing hset, hcount]
          exact late_nextInstance (d := d) ⟨hgoing.queue, hgoing.current, hgoing.waits⟩ hlate
        · rw [next_else _ hgoing (by omega) hset, hcount]
          exact late_finish hlate

theorem late_iterate (ans : Answers) (h : Late s) (n : ℕ) : ((St.next ans)^[n] s).testState ≠ .results := by
  have hlate : Late ((St.next ans)^[n] s) := by
    induction n with
    | zero =>
        exact h
    | succ n ih =>
        rw [Function.iterate_succ_apply']
        exact late_next ih
  obtain ⟨-, habort | ⟨_, -, -, hwaits⟩⟩ := hlate
  · simp [habort]
  · rw [hwaits]
    split_ifs <;> simp

end Pace

/-! ### The releases of the step -/

section Releases

variable {ans : Answers} {s t : St F} {pending : List (Config F)}

def Call.isStop : Call F → Bool
  | .start _ => false
  | .stop => true

/-- The step as the one whose releases are counted: its durations, and which calls have succeeded. -/
def St.toStatsSet (s : St F) : StepRelease.StatsSet where
  durations := s.durations
  totalDuration := s.totalDuration
  fork := s.fork
  executionTime := s.executionTime
  setExecDuration := s.setExecDuration
  timeoutCount := s.timeoutCount
  testState := s.testState
  emulated := s.log.getLast?.any fun e => !e.2.isStop
  started := s.log.any fun e => !e.2.isStop
  stopped := s.log.any fun e => e.2.isStop

theorem toStatsSet_count (s : St F) : s.count.toStatsSet = s.toStatsSet.count := by
  unfold St.count StepRelease.StatsSet.count
  by_cases hcount : s.timeoutCount < s.executionTime
  · rw [if_pos hcount, if_pos (show s.toStatsSet.timeoutCount < s.toStatsSet.executionTime from hcount)]
    rfl
  · rw [if_neg hcount, if_neg (show ¬ s.toStatsSet.timeoutCount < s.toStatsSet.executionTime from hcount)]

theorem toStatsSet_finish (s : St F) : (s.finish ans).toStatsSet = s.toStatsSet.stop ans.stop := by
  unfold St.finish StepRelease.StatsSet.stop
  by_cases hcount : s.timeoutCount < s.executionTime
  · rw [if_pos hcount, if_pos (show s.toStatsSet.timeoutCount < s.toStatsSet.executionTime from hcount)]
  · rw [if_neg hcount, if_neg (show ¬ s.toStatsSet.timeoutCount < s.toStatsSet.executionTime from hcount)]
    cases ans.stop with
    | false =>
        rfl
    | true =>
        simp [St.toStatsSet, St.durations, St.configs, Call.isStop]

theorem toStatsSet_nextInstance {d : Config F} {rest : List (Config F)} (h : Going s (d :: rest)) :
    (s.nextInstance ans).toStatsSet =
      match StepRelease.StatsSet.setInstance { s.toStatsSet with
          durations := rest.map Config.statsDuration
          setExecDuration := 0 } (ans.start s.log.length) with
      | (s, true) => s.longer.waiting
      | (s, false) => { s with testState := .abort } := by
  cases rest with
  | nil =>
      rw [nextInstance_nil h]
      simp [StepRelease.StatsSet.setInstance, StepRelease.StatsSet.longer, StepRelease.StatsSet.waiting,
        St.toStatsSet, St.durations, St.configs, h.waits]
  | cons c rest =>
      rw [nextInstance_cons h]
      cases ans.start s.log.length with
      | true =>
          simp [StepRelease.StatsSet.setInstance, StepRelease.StatsSet.longer, StepRelease.StatsSet.waiting,
            St.toStatsSet, St.durations, St.configs, h.waits, Call.isStop]
      | false =>
          simp [StepRelease.StatsSet.setInstance, St.toStatsSet, St.durations, St.configs, St.abort]

/-- **A timeout of the schedule is one of the step whose releases are counted.** -/
theorem toStatsSet_next (h : Going s pending) :
    (s.next ans).toStatsSet = s.toStatsSet.timeout (ans.start s.log.length) ans.stop := by
  have hdurations : s.toStatsSet.durations = pending.map Config.statsDuration := by
    change s.durations = _
    rw [St.durations, St.configs, h.queue, List.reverse_reverse]
  unfold StepRelease.StatsSet.timeout
  cases pending with
  | nil =>
      rw [next_empty h.queue h.waits, toStatsSet_finish, hdurations]
      rfl
  | cons d rest =>
      rw [hdurations, List.map_cons]
      by_cases hstay : s.timeoutCount < s.executionTime ∧ s.setExecDuration < d.statsDuration
      · simp only [show s.toStatsSet.timeoutCount < s.toStatsSet.executionTime ∧
          s.toStatsSet.setExecDuration < d.statsDuration from hstay, and_self, if_true]
        rw [next_stay h hstay.1 hstay.2, ← toStatsSet_count, St.count, if_pos hstay.1]
        simp only [St.toStatsSet, StepRelease.StatsSet.longer, StepRelease.StatsSet.waiting, h.waits]
        rfl
      · simp only [show ¬ (s.toStatsSet.timeoutCount < s.toStatsSet.executionTime ∧
          s.toStatsSet.setExecDuration < d.statsDuration) from hstay, if_false]
        by_cases hset : s.setExecDuration = d.statsDuration
        · simp only [show s.toStatsSet.setExecDuration = d.statsDuration from hset, if_true]
          have htick : s.toStatsSet.count = (St.count { s with timeouts := s.timeouts + 1 }).toStatsSet :=
            (toStatsSet_count { s with timeouts := s.timeouts + 1 }).symm
          obtain ⟨count, hcount⟩ := exists_count { s with timeouts := s.timeouts + 1 }
          rw [next_pop h hset, htick, hcount]
          exact toStatsSet_nextInstance ⟨h.queue, h.current, h.waits⟩
        · simp only [show s.toStatsSet.setExecDuration ≠ d.statsDuration from hset, if_false]
          rw [next_else _ h hstay hset, toStatsSet_finish, toStatsSet_count]
          rfl

end Releases

/-! ### The schedule -/

section Schedule

variable {ans : Answers} {s₀ s : St F} {entries : List (Entry F)} {d : Config F} {rest : List (Config F)}

/-- The element of a document that is decoded as an instance. -/
def Config.entry (c : Config F) : Entry F :=
  ⟨some c.statsDuration, some c.inputFileJson⟩

/-- What is decoded: the instances in their order, and the sum of their durations as an `int`. -/
theorem decode_spec (sum : ℤ) (hsum : s₀.totalDuration = sum.bmod (2 ^ 32))
    (h : decodeStatsSetCommonParams entries s₀ = some s) :
    ∃ cs : List (Config F), entries = cs.map Config.entry ∧ s = { s₀ with
      statsSetQ := cs.reverse ++ s₀.statsSetQ
      totalDuration := (sum + (cs.map Config.statsDuration).sum).bmod (2 ^ 32) } := by
  induction entries generalizing s₀ sum with
  | nil =>
      obtain rfl : s₀ = s := Option.some.inj h
      refine ⟨[], rfl, ?_⟩
      rw [List.map_nil, List.sum_nil, add_zero, ← hsum]
      rfl
  | cons entry entries ih =>
      obtain ⟨_ | duration, file⟩ := entry
      · simp [decodeStatsSetCommonParams] at h
      · cases file with
        | none =>
            simp [decodeStatsSetCommonParams] at h
        | some file =>
            obtain ⟨cs, rfl, rfl⟩ := ih (sum + duration) (by simp [hsum, Int.bmod_add_bmod]) h
            refine ⟨⟨duration, file⟩ :: cs, rfl, ?_⟩
            simp [add_assoc]

/-- The first instance is applied by `step_execute`. -/
theorem execute_eq (ans : Answers) (h : s.configs = d :: rest) : s.execute ans =
    if ans.start s.log.length then { s with
      currentStatsSetCount := rest.length
      executionTime := s.totalDuration
      setExecDuration := 0
      testState := if s.fork then .wait else .cont
      log := s.log ++ [(s.timeouts, .start d)] }
    else St.abort { s with
      currentStatsSetCount := rest.length
      executionTime := s.totalDuration
      setExecDuration := 0 } := by
  have hqueue : s.statsSetQ = (d :: rest).reverse := by
    rw [← h, St.configs, List.reverse_reverse]
  have hlen : ((s.statsSetQ.length : ℕ) : ℤ) - 1 = rest.length := by
    rw [hqueue]
    simp
  have hpeek : queuePeek s.statsSetQ (rest.length : ℤ) = some d := by
    rw [queuePeek, if_neg (by omega), hqueue]
    simp
  have hguard : s.statsSetQ ≠ [] ∧ (0 : ℤ) ≤ rest.length := ⟨by simp [hqueue], by omega⟩
  simp only [St.execute, St.setInstance, hlen, if_pos hguard, hpeek]
  cases ans.start s.log.length <;> rfl

/-- The step that `step_execute` leaves when its first instance is applied. -/
def firstApplied (s : St F) (d : Config F) (rest : List (Config F)) : St F :=
  { s with
    currentStatsSetCount := rest.length
    executionTime := s.totalDuration
    setExecDuration := 0
    testState := if s.fork then .wait else .cont
    timeouts := 0
    log := [(0, .start d)] }

/-- A step that has just been executed comes to its end, and to its results after all its instances exactly
if their durations pass and the HAL answers. -/
theorem applied_iff (ans : Answers) (h : s.configs = d :: rest) (hcount : s.timeoutCount = 0)
    (htotal : s.totalDuration = s.durations.sum.bmod (2 ^ 32)) (hnonneg : 0 ≤ s.totalDuration) :
    (∃ n, Applied s.configs ((St.next ans)^[n] (firstApplied s d rest))) ↔
      Passes s.totalDuration 0 0 s.durations ∧ (∀ k < rest.length, ans.start (1 + k) = true) ∧ ans.stop = true := by
  have hdurations : s.durations = (d :: rest).map Config.statsDuration := by
    rw [St.durations, h]
  have hgoing : Going (firstApplied s d rest) (d :: rest) := by
    refine ⟨?_, by simp [firstApplied], rfl⟩
    rw [← h, St.configs, List.reverse_reverse]
    rfl
  have hlast : LastOk s.totalDuration s.timeoutCount 0 ((d :: rest).map Config.statsDuration) := by
    rw [hcount]
    refine lastOk_first fun hsum => ?_
    rw [htotal, hdurations]
    exact bmod_le_self hsum
  obtain ⟨n, hover, hended⟩ := outcome ans rest d _ hgoing (hcount.trans_le hnonneg) hlast
  have hinv : Inv (firstApplied s d rest) := by
    refine ⟨List.isChain_singleton _, Or.inr ⟨_, hgoing, ?_⟩⟩
    rintro _ _ ⟨⟩
    exact ⟨0, rfl, by simp [firstApplied]⟩
  rw [hdurations]
  refine Iff.trans ?_ (hended.trans (by rw [show (firstApplied s d rest).timeoutCount = 0 from hcount]; rfl))
  constructor
  · rintro ⟨m, hcalls, -, hresults⟩
    rw [← iterate_over_unique (m := m) (Or.inl hresults) hover]
    exact ⟨hresults, by rw [hcalls, h]; rfl⟩
  · rintro ⟨hresults, hcalls⟩
    exact ⟨n, by rw [hcalls, h]; rfl, (inv_iterate hinv n).1, hresults⟩

/-- **A list of instances is applied as it should be exactly when its durations are fair and the HAL
answers**: for every list that is decoded. -/
theorem applies_iff (ans : Answers) {fork : Bool} (h : decodeStatsSetCommonParams entries (St.init fork) = some s)
    (hne : s.configs ≠ []) :
    Applies ans s ↔ Fair (s.durations.sum.bmod (2 ^ 32)) s.durations ∧ ans.Ok s.configs.length := by
  obtain ⟨cs, -, hs⟩ := decode_spec 0 rfl h
  obtain ⟨d, rest, hcs⟩ := List.exists_cons_of_ne_nil hne
  have htotal : s.totalDuration = s.durations.sum.bmod (2 ^ 32) := by
    rw [hs]
    simp [St.durations, St.configs, St.init]
  have hlog : s.log = [] := by
    rw [hs]
    rfl
  have hcount : s.timeoutCount = 0 := by
    rw [hs]
    rfl
  have htimeouts : s.timeouts = 0 := by
    rw [hs]
    rfl
  have hdurations : s.durations = d.statsDuration :: rest.map Config.statsDuration := by
    rw [St.durations, hcs]
    rfl
  have hok : ans.Ok s.configs.length ↔ ans.start 0 = true ∧
      (∀ k < rest.length, ans.start (1 + k) = true) ∧ ans.stop = true := by
    rw [Answers.Ok, hcs, List.length_cons, Nat.forall_lt_succ_left, and_assoc]
    simp only [Nat.add_comm 1]
  have hexecute := execute_eq ans hcs
  rw [hlog, htimeouts] at hexecute
  unfold Applies
  rw [List.length_nil] at hexecute
  rw [hexecute, hok, ← htotal]
  cases hstart : ans.start 0 with
  | false =>
      refine iff_of_false ?_ (by simp)
      rintro ⟨n, -, -, hresults⟩
      rw [if_neg (by simp), Function.iterate_fixed (next_of_over (Or.inr rfl))] at hresults
      cases hresults
  | true =>
      rw [if_pos rfl]
      by_cases hnonneg : 0 ≤ s.totalDuration
      · refine (applied_iff ans hcs hcount htotal hnonneg).trans ?_
        rw [hdurations, fair_iff hnonneg]
        simp
      · refine iff_of_false ?_ fun hfair => hnonneg hfair.1.nonneg
        rintro ⟨n, -, -, hresults⟩
        refine late_iterate ans (s := firstApplied s d rest) ⟨?_, Or.inr ⟨d :: rest, ?_, ?_, rfl⟩⟩ n hresults
        · change s.totalDuration < s.timeoutCount
          omega
        · rw [← hcs, St.configs, List.reverse_reverse]
          rfl
        · simp [firstApplied]

/-- Three instances, of which the first and the last have a duration of 0. -/
def edges : List (Config ℕ) :=
  [⟨0, 1⟩, ⟨2, 2⟩, ⟨0, 3⟩]

/-- Three instances, of which the second has a duration of 0. -/
def emptyMiddle : List (Config ℕ) :=
  [⟨1, 1⟩, ⟨0, 2⟩, ⟨1, 3⟩]

/-- What is decoded from instances. -/
def decoded (configs : List (Config F)) : St F :=
  { St.init false with
    statsSetQ := configs.reverse
    totalDuration := (configs.map Config.statsDuration).sum.bmod (2 ^ 32) }

def allOk : Answers :=
  ⟨fun _ => true, true⟩

theorem applies_edges : Applies allOk (decoded edges) := by
  have hdecoded : decodeStatsSetCommonParams (edges.map Config.entry) (St.init false) = some (decoded edges) := rfl
  refine (applies_iff allOk hdecoded ?_).mpr ⟨?_, fun _ _ => rfl, rfl⟩
  · exact List.cons_ne_nil _ _
  · have htotal : (0 : ℤ) ≤ 2 := by decide
    exact (fair_iff htotal).mpr (by simp [Passes])

/-- The second instance is stuck, and the third one is never applied. -/
theorem not_applies_emptyMiddle :
    decodeStatsSetCommonParams (emptyMiddle.map Config.entry) (St.init false) = some (decoded emptyMiddle) ∧
      ¬ Applies allOk (decoded emptyMiddle) := by
  refine ⟨rfl, ?_⟩
  rintro ⟨n, hcalls, -, hresults⟩
  have hend : ((St.next allOk)^[3] ((decoded emptyMiddle).execute allOk)).testState = .results := by decide
  rw [← iterate_over_unique (Or.inl hend) (Or.inl hresults)] at hcalls
  revert hcalls
  decide

end Schedule

end OneWifiTestSuite.StatsSchedule
