import OneWifiTestSuite.Barrier
import OneWifiTestSuite.Queue

/-!
# The index convention of the step queue

`decode_step_config` counts the steps it accepts while `queue_push` puts each of them at the head, so
the step with sequence number `s` of `n` steps is at queue index `n - s - 1`. Five places recompute
this index, in 32-bit arithmetic.

The decoder is translated once more, here with the answers of the `malloc` in `queue_push`: the answer
of `queue_push` is not looked at, so a step that was not queued has used up its sequence number.
While every push succeeds it is the decoder of the `Steps` module (`decodeStepConfig_of_success`), and
the lookups of the test thread's model are those of the code (`lookups_eq`).

* `indexed_iff` says for which answers the queue has the convention.
* `convention_of_basic` says that then all five places agree in every reachable state, and
  `triggered_of_run` that the steps are triggered in the order of the configuration.
* `convention_iff` is the exact condition.
-/

namespace OneWifiTestSuite.IndexConvention

open Runs Steps Scheduler

/-! ### The code -/

section Code

/-- `queue_push` onto `test_steps_q`; `e` is what `malloc` returned. -/
def queuePush (steps : List Step) (step : Step) (e : Option ℕ) : List Step :=
  match e with
  | none => steps
  | some _ => step :: steps

/-- The loop of `decode_step_config`; `malloc k` is the answer to the push of the step numbered `k`,
and `none` is `RETURN_ERR`. -/
def decodeSteps (malloc : ℕ → Option ℕ) (lastExecuted : ℕ) (paused : List ℕ) :
    List StepEntry → ℕ → List Step → Option (List Step)
  | [], _, steps => some steps
  | entry :: entries, count, steps =>
      if lastExecuted ≠ 0 ∧ checkReboot lastExecuted paused entry = false then
        decodeSteps malloc lastExecuted paused entries count steps
      else if entry.paramOk = false then none
      else if entry.commonOk = false then none
      else
        decodeSteps malloc lastExecuted paused entries (count + 1)
          (queuePush steps ⟨entry.stepNumber.getD 0, count % 2 ^ 32, entry.fork, .request⟩ (malloc count))

/-- `decode_step_config`. -/
def decodeStepConfig (malloc : ℕ → Option ℕ) (lastExecuted : ℕ) (paused : List ℕ)
    (entries : List StepEntry) : Option (List Step) :=
  decodeSteps malloc lastExecuted paused entries 0 []

/-- `queue_count(test_steps_q)`, which the callers keep in an `int`. -/
def stepTotal (steps : List Step) : BitVec 32 :=
  Queue.listCount (steps.map some)

/-- `queue_peek` of `test_steps_q`. -/
def queuePeek (steps : List Step) (index : BitVec 32) : Option Step :=
  if Queue.InBound (steps.map some) index then steps[index.toNat]? else none

/-- `get_step_from_index`. -/
def getStepFromIndex (steps : List Step) (index : BitVec 32) : Option Step :=
  if index.toInt ≥ (stepTotal steps).toInt ∨ index.toInt < 0 then none else queuePeek steps index

/-- `step_total - step_seq_num - 1`. -/
def seqIndex (steps : List Step) (seq : ℕ) : BitVec 32 :=
  stepTotal steps - BitVec.ofNat 32 seq - 1

/-- `get_current_step`. -/
def getCurrentStep (s : St) : Option Step :=
  getStepFromIndex s.steps (BitVec.ofNat 32 s.currentTestStep)

/-- The index that a turn of `get_next_pending_step` goes on to. -/
def indexBefore (steps : List Step) (index : BitVec 32) : BitVec 32 :=
  if index = 0 then stepTotal steps - 1 else index - 1

/-- The state before `start`, with any list of steps in the queue. -/
def start (steps : List Step) (coverage : Coverage) (pendingSteps : BitVec 32) : St :=
  { init .empty coverage pendingSteps with steps := steps }

end Code

/-! ### What the convention says -/

section Spec

/-- The step with a sequence number. -/
def stepOf (steps : List Step) (seq : ℕ) : Option Step :=
  steps.find? fun t => t.stepSeqNum = seq

/-- The step of a trigger. -/
def triggerSeq : Event → Option ℕ
  | .trigger seq => some seq
  | _ => none

/-- The steps that have been triggered, in the order of their triggers. -/
def triggered (log : List Event) : List ℕ :=
  (log.filterMap triggerSeq).reverse

/-- The index convention in a state of the test whose queue was decoded as `steps`. -/
structure Convention (steps : List Step) (s : St) : Prop where
  /-- no step is added, removed, moved or renumbered -/
  kept : skeleton s.steps = skeleton steps
  /-- the step with sequence number `k` is at queue index `n - k - 1` -/
  placed : ∀ (i : ℕ) (t : Step), s.steps[i]? = some t → t.stepSeqNum + i + 1 = steps.length
  /-- `get_step_from_index`, as `run` calls it for a sequence number -/
  resolved : ∀ seq < steps.length, ∃ t : Step, stepOf s.steps seq = some t ∧
    getStepFromIndex s.steps (seqIndex s.steps seq) = some t
  /-- `get_current_step`, wherever it is called -/
  current : s.pc.active = true → s.pc ≠ .loop → ∃ t : Step, s.steps[s.step]? = some t ∧
    BitVec.ofNat 32 s.currentTestStep = seqIndex s.steps t.stepSeqNum ∧
    getCurrentStep s = stepOf s.steps t.stepSeqNum
  /-- turn `k` of `get_next_pending_step` from a current step -/
  next : ∀ seq < steps.length, ∀ k, getStepFromIndex s.steps
    ((indexBefore s.steps)^[k] (seqIndex s.steps seq)) = stepOf s.steps ((seq + k) % steps.length)
  /-- the timeout loop at an index -/
  timeout : ∀ i < steps.length, getStepFromIndex s.steps (BitVec.ofNat 32 i) =
    stepOf s.steps (steps.length - i - 1)
  /-- the steps are triggered in the order of the configuration -/
  ordered : ∃ k ≤ steps.length, triggered s.log = List.range k

/-- The convention in every state that a run of the test reaches. -/
def Holds (steps : List Step) : Prop :=
  ∀ T coverage pendingSteps s, Run (next T) (fun _ _ => True) (start steps coverage pendingSteps) s →
    Convention steps s

/-- The entries that the decoder numbers: after a reboot it leaves out those that are done. -/
def accepted (lastExecuted : ℕ) (paused : List ℕ) (entries : List StepEntry) : List StepEntry :=
  entries.filter fun entry => lastExecuted = 0 ∨ checkReboot lastExecuted paused entry = true

/-- The pushes that fail among the first `k`. -/
def failures (malloc : ℕ → Option ℕ) (k : ℕ) : ℕ :=
  Nat.count (fun j => malloc j = none) k

/-- No push succeeds after one has failed (or so many have that the 32-bit count is back at the number
of those that succeeded). -/
def Gapless (malloc : ℕ → Option ℕ) (total : ℕ) : Prop :=
  ∀ k < total, malloc k ≠ none → 2 ^ 32 ∣ failures malloc k

instance (malloc : ℕ → Option ℕ) (total : ℕ) : Decidable (Gapless malloc total) :=
  inferInstanceAs (Decidable (∀ k < total, malloc k ≠ none → 2 ^ 32 ∣ failures malloc k))

end Spec

/-! ### The queue that the decoder builds -/

section Decode

variable {malloc : ℕ → Option ℕ} {lastExecuted : ℕ} {paused : List ℕ} {entries : List StepEntry}

/-- `queue_push` and `queue_peek` are those of the queue. -/
theorem queuePush_eq (steps : List Step) (step : Step) (e : Option ℕ) :
    (Queue.listStep (steps.map some) (.push (some step) e)).1 = (queuePush steps step e).map some := by
  cases e <;> rfl

theorem queuePeek_eq (steps : List Step) (index : BitVec 32) :
    (Queue.listStep (steps.map some) (.peek index)).2 = .data (queuePeek steps index) := by
  have hjoin : (steps[index.toNat]?.map some).join = steps[index.toNat]? := by
    cases steps[index.toNat]? <;> rfl
  simp only [Queue.listStep, queuePeek, List.getElem?_map, hjoin]

/-- The pushes of the loop. -/
def pushAll (malloc : ℕ → Option ℕ) : List StepEntry → ℕ → List Step → List Step
  | [], _, steps => steps
  | entry :: entries, count, steps =>
      pushAll malloc entries (count + 1)
        (queuePush steps ⟨entry.stepNumber.getD 0, count % 2 ^ 32, entry.fork, .request⟩ (malloc count))

theorem decodeSteps_eq {count : ℕ} {steps out : List Step}
    (h : decodeSteps malloc lastExecuted paused entries count steps = some out) :
    out = pushAll malloc (accepted lastExecuted paused entries) count steps := by
  induction entries generalizing count steps with
  | nil =>
      exact (Option.some.inj h).symm
  | cons entry entries ih =>
      unfold decodeSteps at h
      split_ifs at h with hskip hparam hcommon
      · have hout : ¬(lastExecuted = 0 ∨ checkReboot lastExecuted paused entry = true) := by
          rw [hskip.2]
          simpa using hskip.1
        rw [accepted, List.filter_cons_of_neg (by simpa using hout)]
        exact ih h
      · have hin : lastExecuted = 0 ∨ checkReboot lastExecuted paused entry = true := by
          by_cases hzero : lastExecuted = 0
          · exact Or.inl hzero
          · exact Or.inr (by simpa [hzero] using hskip)
        rw [accepted, List.filter_cons_of_pos (by simpa using hin)]
        exact ih h

/-- The pushes that succeed among the first `k`. -/
def successes (malloc : ℕ → Option ℕ) (k : ℕ) : ℕ :=
  Nat.count (fun j => malloc j ≠ none) k

theorem successes_add_failures (malloc : ℕ → Option ℕ) (k : ℕ) :
    successes malloc k + failures malloc k = k := by
  induction k with
  | zero =>
      simp [successes, failures]
  | succ k ih =>
      unfold successes failures at ih ⊢
      simp only [ne_eq] at ih ⊢
      rw [Nat.count_succ, Nat.count_succ]
      by_cases h : malloc k = none
      · simp only [h, not_true, if_false, if_true]
        omega
      · simp only [h, not_false_iff, if_false, if_true]
        omega

theorem length_pushAll (entries : List StepEntry) {count : ℕ} {steps : List Step}
    (h : steps.length = successes malloc count) :
    (pushAll malloc entries count steps).length = successes malloc (count + entries.length) := by
  induction entries generalizing count steps with
  | nil =>
      exact h
  | cons entry entries ih =>
      rw [pushAll, ih, List.length_cons, Nat.add_right_comm, Nat.add_assoc]
      rw [successes, Nat.count_succ, ← successes, ← h]
      cases malloc count <;> simp [queuePush]

theorem indexed_cons_iff {step : Step} {steps : List Step} :
    Indexed (step :: steps) ↔ step.stepSeqNum = steps.length ∧ Indexed steps := by
  constructor
  · intro h
    refine ⟨by simpa using h 0 step rfl, fun i t ht => ?_⟩
    have := h (i + 1) t ht
    simp only [List.length_cons] at this
    omega
  · rintro ⟨hstep, h⟩ i t ht
    cases i with
    | zero =>
        cases ht
        simp [hstep]
    | succ i =>
        have := h i t ht
        simp only [List.length_cons]
        omega

/-- The queue has the convention when every step that was queued got the number of those before it. -/
theorem indexed_pushAll_iff (entries : List StepEntry) {count : ℕ} {steps : List Step}
    (h : steps.length = successes malloc count) :
    Indexed (pushAll malloc entries count steps) ↔
      Indexed steps ∧ ∀ k, count ≤ k → k < count + entries.length → malloc k ≠ none →
        k % 2 ^ 32 = successes malloc k := by
  induction entries generalizing count steps with
  | nil =>
      rw [pushAll]
      refine ⟨fun hi => ⟨hi, fun k hle hlt => ?_⟩, And.left⟩
      simp only [List.length_nil] at hlt
      omega
  | cons entry entries ih =>
      have hsucc : successes malloc (count + 1) =
          successes malloc count + if malloc count ≠ none then 1 else 0 := Nat.count_succ _ _
      -- the range of the numbers to come, split at the first
      have hrange : (∀ k, count ≤ k → k < count + (entry :: entries).length → malloc k ≠ none →
            k % 2 ^ 32 = successes malloc k) ↔
          (malloc count ≠ none → count % 2 ^ 32 = successes malloc count) ∧
            ∀ k, count + 1 ≤ k → k < count + 1 + entries.length → malloc k ≠ none →
              k % 2 ^ 32 = successes malloc k := by
        simp only [List.length_cons]
        constructor
        · intro hall
          exact ⟨hall count le_rfl (by omega), fun k hle hlt => hall k (by omega) (by omega)⟩
        · rintro ⟨hfirst, hrest⟩ k hle hlt
          rcases Nat.eq_or_lt_of_le hle with rfl | hlt'
          · exact hfirst
          · exact hrest k hlt' (by omega)
      rw [pushAll, hrange]
      cases hm : malloc count with
      | none =>
          rw [queuePush, ih (by rw [h, hsucc, hm]; simp)]
          simp
      | some e =>
          rw [queuePush, ih (by rw [List.length_cons, h, hsucc, hm]; simp), indexed_cons_iff, h]
          simp only [ne_eq, reduceCtorEq, not_false_iff, forall_const]
          tauto

/-- The number of a step that is queued is that of the queued ones before it when no failed push has
used up one. -/
theorem mod_eq_successes_iff {k : ℕ} (h : successes malloc k < 2 ^ 32) :
    k % 2 ^ 32 = successes malloc k ↔ 2 ^ 32 ∣ failures malloc k := by
  have hsum := successes_add_failures malloc k
  omega

theorem requested_pushAll (entries : List StepEntry) {count : ℕ} {steps : List Step}
    (h : ∀ step ∈ steps, step.testState = .request) :
    ∀ step ∈ pushAll malloc entries count steps, step.testState = .request := by
  induction entries generalizing count steps with
  | nil =>
      exact h
  | cons entry entries ih =>
      refine ih fun step hstep => ?_
      cases hm : malloc count with
      | none =>
          rw [hm] at hstep
          exact h step hstep
      | some e =>
          rw [hm] at hstep
          rcases List.mem_cons.mp hstep with rfl | hstep
          · rfl
          · exact h step hstep

/-- **The queue that the decoder builds** has the convention exactly when no push succeeded after one
had failed. -/
theorem indexed_iff {steps : List Step} (h : decodeStepConfig malloc lastExecuted paused entries = some steps)
    (hlen : steps.length < 2 ^ 31) :
    Indexed steps ↔ Gapless malloc (accepted lastExecuted paused entries).length := by
  have hzero : ([] : List Step).length = successes malloc 0 := rfl
  have hempty : Indexed [] := by
    intro i t ht
    cases ht
  have hsteps := decodeSteps_eq h
  have htotal := length_pushAll (accepted lastExecuted paused entries) hzero
  rw [← hsteps, Nat.zero_add] at htotal
  rw [hsteps, indexed_pushAll_iff _ hzero, and_iff_right hempty, Nat.zero_add]
  have hmod : ∀ k, k < (accepted lastExecuted paused entries).length →
      (k % 2 ^ 32 = successes malloc k ↔ 2 ^ 32 ∣ failures malloc k) := by
    intro k hk
    have hle : successes malloc k ≤ successes malloc (accepted lastExecuted paused entries).length :=
      Nat.count_monotone _ hk.le
    exact mod_eq_successes_iff (by omega)
  constructor
  · intro hall k hk hm
    exact (hmod k hk).mp (hall k (Nat.zero_le k) hk hm)
  · intro hall k _ hk hm
    exact (hmod k hk).mpr (hall k hk hm)

theorem decodeSteps_of_success (hm : ∀ k, malloc k ≠ none) {count : ℕ} {q : StepQueue}
    (hq : q.total = count) (hlen : count + entries.length ≤ 2 ^ 32) :
    decodeSteps malloc lastExecuted paused entries count q.steps =
      (Steps.decodeSteps lastExecuted paused entries q).map StepQueue.steps := by
  induction entries generalizing count q with
  | nil =>
      rfl
  | cons entry entries ih =>
      rw [List.length_cons] at hlen
      obtain ⟨e, he⟩ := Option.ne_none_iff_exists'.mp (hm count)
      have hpush : queuePush q.steps ⟨entry.stepNumber.getD 0, count % 2 ^ 32, entry.fork, .request⟩
          (malloc count) = (q.push (entry.stepNumber.getD 0) entry.fork).steps := by
        rw [he, Nat.mod_eq_of_lt (by omega), ← hq]
        rfl
      have htotal : (q.push (entry.stepNumber.getD 0) entry.fork).total = count + 1 := by
        rw [← hq]
        rfl
      unfold decodeSteps Steps.decodeSteps
      rw [hpush, ih hq (by omega), ih htotal (by omega)]
      split_ifs <;> rfl

/-- While every push succeeds, the decoder is that of the `Steps` module. -/
theorem decodeStepConfig_of_success (hm : ∀ k, malloc k ≠ none) (hlen : entries.length ≤ 2 ^ 32) :
    decodeStepConfig malloc lastExecuted paused entries =
      (Steps.decodeStepConfig lastExecuted paused entries).map StepQueue.steps := by
  have hzero : StepQueue.empty.total = 0 := rfl
  exact decodeSteps_of_success hm hzero (by omega)

end Decode

/-! ### The index arithmetic -/

section Index

variable {steps : List Step}

theorem toInt_ofNat {i : ℕ} (h : i < 2 ^ 31) : (BitVec.ofNat 32 i).toInt = i := by
  have hnat : (BitVec.ofNat 32 i).toNat = i := by
    rw [BitVec.toNat_ofNat, Nat.mod_eq_of_lt (by omega)]
  rw [BitVec.toInt_eq_toNat_of_lt (by omega), hnat]

theorem stepTotal_eq (steps : List Step) : stepTotal steps = BitVec.ofNat 32 steps.length := by
  rw [stepTotal, Queue.listCount, List.length_map]

/-- `get_step_from_index` reads the queue. -/
theorem getStepFromIndex_ofNat (hn : steps.length < 2 ^ 31) {i : ℕ} (hi : i < 2 ^ 31) :
    getStepFromIndex steps (BitVec.ofNat 32 i) = steps[i]? := by
  have hnat : (BitVec.ofNat 32 i).toNat = i := by
    rw [BitVec.toNat_ofNat, Nat.mod_eq_of_lt (by omega)]
  rw [getStepFromIndex, stepTotal_eq, toInt_ofNat hi, toInt_ofNat hn]
  by_cases hlt : i < steps.length
  · have hin : Queue.InBound (steps.map some) (BitVec.ofNat 32 i) := by
      rw [Queue.inBound_iff (by rw [List.length_map]; omega), hnat, List.length_map]
      exact Or.inr hlt
    rw [if_neg (by omega), queuePeek, if_pos hin, hnat]
  · rw [if_pos (by omega), List.getElem?_eq_none (by omega)]

theorem seqIndex_eq (hn : steps.length < 2 ^ 31) {seq : ℕ} (hseq : seq < steps.length) :
    seqIndex steps seq = BitVec.ofNat 32 (steps.length - seq - 1) := by
  rw [seqIndex, stepTotal_eq]
  apply BitVec.eq_of_toNat_eq
  have hone : (1 : BitVec 32).toNat = 1 := rfl
  simp only [BitVec.toNat_sub, BitVec.toNat_ofNat, hone]
  omega

theorem indexBefore_eq (hn : steps.length < 2 ^ 31) {i : ℕ} (hi : i < steps.length) :
    indexBefore steps (BitVec.ofNat 32 i) = BitVec.ofNat 32 (if i = 0 then steps.length - 1 else i - 1) := by
  have hone : (1 : BitVec 32).toNat = 1 := rfl
  have hzero : BitVec.ofNat 32 i = 0 ↔ i = 0 := by
    rw [← BitVec.toNat_inj, BitVec.toNat_ofNat, Nat.mod_eq_of_lt (by omega)]
    rfl
  rw [indexBefore, stepTotal_eq]
  by_cases h : i = 0
  · rw [if_pos (hzero.mpr h), if_pos h]
    apply BitVec.eq_of_toNat_eq
    simp only [BitVec.toNat_sub, BitVec.toNat_ofNat, hone]
    omega
  · rw [if_neg (mt hzero.mp h), if_neg h]
    apply BitVec.eq_of_toNat_eq
    simp only [BitVec.toNat_sub, BitVec.toNat_ofNat, hone]
    omega

/-- Turn `k` of the search is at the step `k` later, cyclically. -/
theorem iterate_indexBefore (hn : steps.length < 2 ^ 31) {seq : ℕ} (hseq : seq < steps.length) (k : ℕ) :
    (indexBefore steps)^[k] (seqIndex steps seq) = seqIndex steps ((seq + k) % steps.length) := by
  induction k with
  | zero =>
      rw [Function.iterate_zero_apply, Nat.add_zero, Nat.mod_eq_of_lt hseq]
  | succ k ih =>
      have hmod : (seq + k) % steps.length < steps.length := Nat.mod_lt _ (by omega)
      have hmod' : (seq + (k + 1)) % steps.length < steps.length := Nat.mod_lt _ (by omega)
      have hstep : (seq + (k + 1)) % steps.length =
          if (seq + k) % steps.length + 1 = steps.length then 0 else (seq + k) % steps.length + 1 := by
        rw [← Nat.add_assoc, ← Nat.mod_add_mod]
        split_ifs with hlast
        · rw [hlast, Nat.mod_self]
        · exact Nat.mod_eq_of_lt (by omega)
      rw [Function.iterate_succ_apply', ih, seqIndex_eq hn hmod, indexBefore_eq hn (by omega),
        seqIndex_eq hn hmod', hstep]
      congr 1
      split_ifs <;> omega

/-- A step of a queue with the convention is the one with its sequence number. -/
theorem stepOf_eq (h : Indexed steps) {i : ℕ} {t : Step} (ht : steps[i]? = some t) :
    stepOf steps t.stepSeqNum = some t := by
  cases hfind : stepOf steps t.stepSeqNum with
  | none =>
      have hno := List.find?_eq_none.mp hfind t (List.mem_of_getElem? ht)
      simp at hno
  | some u =>
      have hseq : u.stepSeqNum = t.stepSeqNum := by simpa using List.find?_some hfind
      obtain ⟨j, hu⟩ := List.mem_iff_getElem?.mp (List.mem_of_find?_eq_some hfind)
      have hi := h i t ht
      have hj := h j u hu
      obtain rfl : i = j := by omega
      rw [← hu, ht]

theorem stepOf_index (h : Indexed steps) {i : ℕ} (hi : i < steps.length) :
    stepOf steps (steps.length - i - 1) = steps[i]? := by
  have ht := List.getElem?_eq_getElem hi
  have hseq := h i _ ht
  have hkey : steps.length - i - 1 = (steps[i]).stepSeqNum := by omega
  rw [hkey, stepOf_eq h ht, ht]

theorem exists_stepOf (h : Indexed steps) {seq : ℕ} (hseq : seq < steps.length) :
    ∃ t : Step, stepOf steps seq = some t := by
  have hback : steps.length - (steps.length - seq - 1) - 1 = seq := by omega
  have hlt : steps.length - seq - 1 < steps.length := by omega
  have hfind := stepOf_index h hlt
  rw [hback] at hfind
  exact ⟨_, hfind.trans (List.getElem?_eq_getElem hlt)⟩

/-- **`get_step_from_index` at the index computed from a sequence number** is the step with that number. -/
theorem getStepFromIndex_seqIndex (hn : steps.length < 2 ^ 31) (h : Indexed steps) {seq : ℕ}
    (hseq : seq < steps.length) : getStepFromIndex steps (seqIndex steps seq) = stepOf steps seq := by
  have hback : steps.length - (steps.length - seq - 1) - 1 = seq := by omega
  rw [seqIndex_eq hn hseq, getStepFromIndex_ofNat hn (by omega),
    ← stepOf_index h (by omega : steps.length - seq - 1 < steps.length), hback]

/-- The lookups of the test thread, of `handle_emu80211_msg` and of `run` are those of the code. -/
theorem lookups_eq {s : St} (hn : s.total < 2 ^ 31) :
    (s.currentTestStep < 2 ^ 31 → getCurrentStep s = s.steps[s.currentTestStep]?) ∧
      (∀ seq < s.total, getStepFromIndex s.steps (seqIndex s.steps seq) = s.steps[s.total - seq - 1]?) ∧
      (∀ i < s.total, getStepFromIndex s.steps (indexBefore s.steps (BitVec.ofNat 32 i)) =
        s.steps[prevIndex s i]?) ∧
      ∀ i < s.total, getStepFromIndex s.steps (BitVec.ofNat 32 i) = s.steps[i]? := by
  have hn' : s.steps.length < 2 ^ 31 := hn
  have hprev : ∀ i, prevIndex s i = if i = 0 then s.steps.length - 1 else i - 1 := fun _ => rfl
  refine ⟨fun hcur => getStepFromIndex_ofNat hn hcur, fun seq hseq => ?_, fun i hi => ?_, fun i hi => ?_⟩
  · rw [seqIndex_eq hn hseq, getStepFromIndex_ofNat hn (by omega)]
    rfl
  · rw [indexBefore_eq hn hi, ← hprev]
    refine getStepFromIndex_ofNat hn ?_
    unfold St.total at hi
    rw [hprev]
    split_ifs <;> omega
  · exact getStepFromIndex_ofNat hn (by omega)

end Index

/-! ### The order of the triggers -/

section Order

variable {T : Target} {q : StepQueue} {s s' : St}

theorem triggered_cons (e : Event) (log : List Event) :
    triggered (e :: log) = triggered log ++ (triggerSeq e).toList := by
  unfold triggered
  cases h : triggerSeq e <;> simp [h]

theorem mem_triggered {log : List Event} {seq : ℕ} : seq ∈ triggered log ↔ .trigger seq ∈ log := by
  simp only [triggered, List.mem_reverse, List.mem_filterMap]
  constructor
  · rintro ⟨e, he, hseq⟩
    cases e <;> simp only [triggerSeq, reduceCtorEq, Option.some.injEq] at hseq
    rwa [← hseq]
  · intro h
    exact ⟨.trigger seq, h, rfl⟩

theorem triggered_write (s : St) (index : ℕ) (w : Write) :
    triggered (s.write index w).log = triggered s.log := by
  unfold St.write
  cases s.steps[index]? with
  | none => rfl
  | some t =>
      have hlog : ((s.setState index w.toState).note (.wrote t.stepSeqNum w)).log =
          .wrote t.stepSeqNum w :: s.log := rfl
      simp only [hlog, triggered_cons]
      exact List.append_nil _

theorem triggered_writes (s : St) (ws : List (ℕ × Write)) :
    triggered (s.writes ws).log = triggered s.log :=
  writes_induction (P := fun u => triggered u.log = triggered s.log) (Q := fun _ => True)
    (fun u index w hu _ => (triggered_write u index w).trans hu) rfl (fun _ _ => trivial)

/-- Only the trigger at the top of the loop is one. -/
theorem triggered_move (hmove : Move T s s') :
    triggered s'.log = triggered s.log ∨ s.pc = .loop ∧ ∃ t : Step, s.steps[s.step]? = some t ∧
      t.testState = .request ∧ triggered s'.log = triggered s.log ++ [t.stepSeqNum] := by
  cases hmove with
  | trigger t hpc ht hstate =>
      exact Or.inr ⟨hpc, t, ht, hstate, triggered_cons _ _⟩
  | exec coverage tag rest t ws =>
      left
      rw [triggered_writes]
      exact (triggered_cons _ _).trans (List.append_nil _)
  | filter mask seq index t ws pc =>
      left
      refine (triggered_writes _ _).trans ?_
      exact (triggered_cons _ _).trans (List.append_nil _)
  | timeout index t ws =>
      left
      refine (triggered_writes _ _).trans ?_
      exact (triggered_cons _ _).trans (List.append_nil _)
  | clear t | tickClear index t =>
      left
      exact (triggered_cons _ _).trans (List.append_nil _)
  | _ =>
      exact Or.inl rfl

/-- The steps triggered so far are the first of the configuration. -/
def Ordered (q : StepQueue) (s : St) : Prop :=
  ∃ k ≤ q.total, triggered s.log = List.range k

theorem Ordered.move (hbasic : Basic q s) (hb : Barrier q s) (h : Ordered q s) (hmove : Move T s s') :
    Ordered q s' := by
  obtain ⟨k, hk, hlog⟩ := h
  rcases triggered_move hmove with heq | ⟨hpc, t, ht, hstate, heq⟩
  · exact ⟨k, hk, heq.trans hlog⟩
  · have hseq := hbasic.sound.seq ht
    have hmem : ∀ j, .trigger j ∈ s.log ↔ j < k := by
      intro j
      rw [← mem_triggered, hlog, List.mem_range]
    -- all the steps before it have been triggered, and it has not
    have hge : k ≤ t.stepSeqNum := by
      have hnot := (hbasic.sound.request s.step t ht).mp hstate
      rw [hmem] at hnot
      omega
    have hle : t.stepSeqNum ≤ k := by
      by_contra hlt
      have htrigger := (hb.loop hpc t ht k (by omega)).1
      rw [hmem] at htrigger
      omega
    have hkey : t.stepSeqNum = k := by omega
    exact ⟨k + 1, by omega, by rw [heq, hlog, hkey, List.range_succ]⟩

theorem Ordered.env {a : Action} (h : Ordered q s) (henv : Env s a s') : Ordered q s' := by
  obtain ⟨k, hk, hlog⟩ := h
  refine ⟨k, hk, ?_⟩
  cases henv with
  | wrote index w _ => exact (triggered_write s index w).trans hlog
  | _ => exact hlog

theorem triggered_of_run {C : St → Action → Prop} {coverage : Coverage} {pendingSteps : BitVec 32}
    (h : Run (next T) C (init q coverage pendingSteps) s) : Ordered q s := by
  refine (run_invariant (I := fun s => Basic q s ∧ Barrier q s ∧ Ordered q s) ?_ h
    ⟨basic_init coverage pendingSteps, barrier_init, 0, Nat.zero_le _, rfl⟩).2.2
  rintro s a t ⟨hbasic, hb, hord⟩ - hnext
  refine ⟨basic_next hbasic hnext, ?_⟩
  rcases next_cases hnext with henv | ⟨c, -, hmove⟩
  · exact ⟨hb.env henv, hord.env henv⟩
  · exact ⟨hb.move hbasic hmove, hord.move hbasic hb hmove⟩

end Order

/-! ### The convention along a run -/

section Run

variable {T : Target} {q : StepQueue} {s : St}

theorem indexed_of_sound (h : Sound q s) : Indexed s.steps := fun i t ht => by
  rw [h.seq ht, ← h.total]
  rfl

/-- **The five places agree** in a reachable state, while the number of steps is an `int`. -/
theorem convention_of_basic (hn : q.total < 2 ^ 31) (h : Basic q s) (hord : Ordered q s) :
    Convention q.steps s := by
  have hindexed := indexed_of_sound h.sound
  have hlen : s.steps.length = q.steps.length := h.sound.total
  have hn' : s.steps.length < 2 ^ 31 := hlen ▸ hn
  refine ⟨h.sound.kept, fun i t ht => h.sound.seq ht, fun seq hseq => ?_, fun hactive hpc => ?_,
    fun seq hseq k => ?_, fun i hi => ?_, hord⟩
  · obtain ⟨t, ht⟩ := exists_stepOf hindexed (by omega : seq < s.steps.length)
    exact ⟨t, ht, by rw [getStepFromIndex_seqIndex hn' hindexed (by omega), ht]⟩
  · have hst := h.placed.standing hactive hpc
    have hstep : s.step < s.steps.length := hst.step_lt
    have ht := List.getElem?_eq_getElem hstep
    have hseq := hindexed _ _ ht
    have hback : s.steps.length - (s.steps[s.step]).stepSeqNum - 1 = s.step := by omega
    refine ⟨_, ht, ?_, ?_⟩
    · rw [seqIndex_eq hn' (by omega), hback, hst.current]
    · rw [getCurrentStep, hst.current, getStepFromIndex_ofNat hn' (by omega), ht, stepOf_eq hindexed ht]
  · have hmod : (seq + k) % s.steps.length < s.steps.length := Nat.mod_lt _ (by omega)
    rw [← hlen, iterate_indexBefore hn' (by omega), getStepFromIndex_seqIndex hn' hindexed hmod]
  · rw [← hlen, stepOf_index hindexed (by omega), getStepFromIndex_ofNat hn' (by omega)]

/-- A queue that is too long for `get_step_from_index` has no step with the number 0 at its index. -/
theorem lt_of_convention {steps : List Step} {s : St} (h : Convention steps s) (hs : s.steps = steps) :
    steps.length < 2 ^ 31 := by
  by_contra hn
  obtain ⟨t, ht, hget⟩ := h.resolved 0 (by omega)
  have hseq : t.stepSeqNum = 0 := by simpa using List.find?_some ht
  unfold getStepFromIndex at hget
  split_ifs at hget with hbound
  unfold queuePeek at hget
  split_ifs at hget with hin
  have hplaced := h.placed _ t hget
  rw [hs, stepTotal_eq, not_or, BitVec.toInt_eq_toNat_cond, BitVec.toInt_eq_toNat_cond,
    BitVec.toNat_ofNat] at hbound
  obtain ⟨hlt, hpos⟩ := hbound
  rw [hs, hseq] at hplaced
  split_ifs at hlt hpos <;> omega

variable {malloc : ℕ → Option ℕ} {lastExecuted : ℕ} {paused : List ℕ} {entries : List StepEntry}

/-- **The index convention** holds in every state of every run exactly when no `queue_push` of the
decoder succeeded after one had failed, and the number of queued steps is an `int`. (Without the
condition the state before the first move is one in which it fails.) -/
theorem convention_iff {steps : List Step}
    (h : decodeStepConfig malloc lastExecuted paused entries = some steps) :
    Holds steps ↔ Gapless malloc (accepted lastExecuted paused entries).length ∧ steps.length < 2 ^ 31 := by
  constructor
  · intro hholds
    have hstart := hholds .masking .coverage1 0 _ (.refl _)
    have hlen := lt_of_convention hstart rfl
    exact ⟨(indexed_iff h hlen).mp hstart.placed, hlen⟩
  · rintro ⟨hgapless, hlen⟩ T coverage pendingSteps s hrun
    have hrequested : ∀ step ∈ steps, step.testState = .request := by
      rw [decodeSteps_eq h]
      exact requested_pushAll _ (by simp)
    let q : StepQueue := ⟨steps, (indexed_iff h hlen).mpr hgapless, hrequested⟩
    have hrun' : Run (next T) (fun _ _ => True) (init q coverage pendingSteps) s := hrun
    exact convention_of_basic (q := q) hlen (basic_of_run hrun') (triggered_of_run hrun')

/-- Three steps; every push succeeds. -/
theorem convention_iff_threeSteps :
    Holds [⟨3, 2, false, .request⟩, ⟨2, 1, true, .request⟩, ⟨1, 0, false, .request⟩] := by
  have hdecode : decodeStepConfig some 0 [] [entryOf 1 false, entryOf 2 true, entryOf 3 false] =
      some [⟨3, 2, false, .request⟩, ⟨2, 1, true, .request⟩, ⟨1, 0, false, .request⟩] := rfl
  exact (convention_iff hdecode).mpr ⟨by decide, by decide⟩

/-- The `malloc` of the first push fails. -/
def firstFails : ℕ → Option ℕ
  | 0 => none
  | k => some k

/-- What is queued of three steps then. -/
def lastTwo : List Step :=
  [⟨3, 2, false, .request⟩, ⟨2, 1, false, .request⟩]

/-- When the first of three pushes fails, the index of the step with the number 1 is that of the step
with the number 2: the trigger of the one executes the other. -/
theorem not_holds_lastTwo :
    decodeStepConfig firstFails 0 [] [entryOf 1 false, entryOf 2 false, entryOf 3 false] = some lastTwo ∧
      ¬Holds lastTwo ∧
      getStepFromIndex lastTwo (seqIndex lastTwo 1) = some ⟨3, 2, false, .request⟩ ∧
      (execTo (next .masking) (start lastTwo .coverage1 0) [.create true, .subscribe, .thread {},
        .thread {}, .deliver, .thread {}, .thread {}]).map St.log = some [.exec (some 1) 2, .trigger 1] := by
  refine ⟨rfl, fun hholds => ?_, by decide, rfl⟩
  have hstart := hholds .masking .coverage1 0 _ (.refl _)
  have hplaced := hstart.placed 0 ⟨3, 2, false, .request⟩ rfl
  simp [lastTwo] at hplaced

end Run

end OneWifiTestSuite.IndexConvention
