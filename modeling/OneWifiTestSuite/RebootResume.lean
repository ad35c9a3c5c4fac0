import OneWifiTestSuite.StaKey

/-!
# Resuming after a reboot

`decode_json_config` decodes the coverages of a configuration in their order, each into a test case
with a queue of steps. After a reboot `check_reboot_step_config` filters the steps by the saved
number of the last executed step and the saved numbers of the paused logging steps, and
`decode_step_config` forgets the saved number when it has decoded one coverage.

`Resumes` is what the filter is for, stated with positions in the configuration and not with the
numbers that the entries carry: `resumes_iff` is the exact condition under which the code does it.
-/

namespace OneWifiTestSuite.RebootResume

open StaKey

section Code

variable {π κ : Type}

/-- An entry of a step array: the text of its `StepNumber`, if `decode_param_string` accepts it, and
what `decode_step_param_config` and the rest of `decode_step_common_config` make of it. -/
structure StepJson (π κ : Type) where
  stepNumber : Option (List UInt8)
  param : Option π
  common : Option κ
deriving DecidableEq, Repr

/-- `test_step_params_t`; `pos` is the position of the entry it was decoded from. -/
structure StepConfig (π κ : Type) where
  pos : ℕ
  stepNumber : BitVec 32
  param : π
  common : κ
  stepSeqNum : BitVec 32
deriving DecidableEq, Repr

/-- A coverage: the step array that its keys lead to, if they are known ones, and its `TestCaseId`. -/
structure Coverage (π κ : Type) where
  entry : Option (List (StepJson π κ))
  testCaseId : Option (List UInt8)
deriving DecidableEq, Repr

structure TestCase (π κ : Type) where
  testCaseId : List UInt8
  testStepsQ : List (StepConfig π κ)
deriving DecidableEq, Repr

/-- What the user interface manager keeps of a reboot. -/
structure UiMgr where
  lastExecutedStepNum : BitVec 32
  pausedLoggingSteps : List (BitVec 32)
deriving DecidableEq, Repr

/-- `atoi`: `strtol` stops at the bounds of a `long`, and the result is cut to an `int`. -/
def atoi (s : List UInt8) : BitVec 32 :=
  match scanInt s with
  | none => 0
  | some (z, _) => BitVec.ofInt 32 (max (-2 ^ 63) (min z (2 ^ 63 - 1)))

/-- `check_reboot_step_config`, true for `RETURN_OK`. -/
def checkRebootStepConfig (u : UiMgr) (step : StepJson π κ) : Bool :=
  match step.stepNumber with
  | none => false
  | some text =>
      if atoi text = 0 then false
      else if atoi text ≤ u.lastExecutedStepNum then u.pausedLoggingSteps.contains (atoi text)
      else true

/-- The loop of `decode_step_config`, from the entry at `pos`; `none` is `RETURN_ERR`. -/
def decodeSteps (u : UiMgr) : ℕ → BitVec 32 → List (StepJson π κ) → Option (List (StepConfig π κ))
  | _, _, [] => some []
  | pos, count, step :: steps =>
      if u.lastExecutedStepNum ≠ 0 ∧ checkRebootStepConfig u step = false then
        decodeSteps u (pos + 1) count steps
      else
        match step.param, step.stepNumber, step.common with
        | some param, some text, some common =>
            (decodeSteps u (pos + 1) (count + 1) steps).map fun q =>
              ⟨pos, atoi text, param, common, count⟩ :: q
        | _, _, _ => none

/-- `decode_step_config`. -/
def decodeStepConfig (u : UiMgr) (entry : List (StepJson π κ)) : UiMgr × Option (List (StepConfig π κ)) :=
  match decodeSteps u 0 0 entry with
  | none => (u, none)
  | some q => ({ u with lastExecutedStepNum := 0 }, some q)

/-- `decode_coverage_1_config` and its two siblings; `test_case_id` has 8 bytes. -/
def decodeCoverageConfig (u : UiMgr) (cov : Coverage π κ) : UiMgr × Option (TestCase π κ) :=
  match cov.entry with
  | none => (u, none)
  | some entry =>
      match decodeStepConfig u entry with
      | (u, none) => (u, none)
      | (u, some q) => (u, cov.testCaseId.map fun id => ⟨id.take 7, q⟩)

/-- `decode_json_config`: the test cases that it queues, and whether it returns `RETURN_OK`. -/
def decodeJsonConfig (u : UiMgr) : List (Coverage π κ) → UiMgr × List (TestCase π κ) × Bool
  | [] => (u, [], true)
  | cov :: covs =>
      match decodeCoverageConfig u cov with
      | (u, none) => (u, [], false)
      | (u, some test) =>
          let r := decodeJsonConfig u covs
          (r.1, test :: r.2.1, r.2.2)

end Code

/-! ### What is to be resumed -/

section Spec

variable {π κ : Type}

/-- The number of an entry. -/
def number (step : StepJson π κ) : BitVec 32 :=
  step.stepNumber.elim 0 atoi

/-- The entry at position `j` of coverage `i`. -/
def stepAt (config : List (Coverage π κ)) (i j : ℕ) : Option (StepJson π κ) :=
  (config[i]?).bind fun cov => cov.entry.bind fun entry => entry[j]?

def numberAt (config : List (Coverage π κ)) (i j : ℕ) : BitVec 32 :=
  (stepAt config i j).elim 0 number

/-- The state saved when step `p` of coverage `k` reboots and pauses the logging steps at `logging`. -/
def saved (config : List (Coverage π κ)) (k p : ℕ) (logging : List ℕ) : UiMgr :=
  ⟨numberAt config k p, logging.map (numberAt config k)⟩

/-- What is still to be executed: the later coverages, and in the interrupted one the later steps and
the paused logging steps. -/
def remains (k p : ℕ) (logging : List ℕ) (i j : ℕ) : Bool :=
  k < i ∨ i = k ∧ (p < j ∨ j ∈ logging)

/-- A step of a queue with all its data. -/
def view (s : StepConfig π κ) : ℕ × BitVec 32 × Option π × Option κ × ℕ :=
  (s.pos, s.stepNumber, some s.param, some s.common, s.stepSeqNum.toNat)

/-- The entries that a filter keeps, with their positions. -/
def kept (f : StepJson π κ → ℕ → Bool) (pos : ℕ) (entry : List (StepJson π κ)) : List (StepJson π κ × ℕ) :=
  (entry.zipIdx pos).filter fun x => f x.1 x.2

/-- The queue of these entries, numbered by `seq`. -/
def queueOf (seq : ℕ → ℕ) (first : ℕ) (steps : List (StepJson π κ × ℕ)) :
    List (ℕ × BitVec 32 × Option π × Option κ × ℕ) :=
  (steps.zipIdx first).map fun x => (x.1.2, number x.1.1, x.1.1.param, x.1.1.common, seq x.2)

/-- **The purpose of the filter**: each test case has the steps that remain, in configuration order
and numbered from 0 on. -/
def Resumes (config : List (Coverage π κ)) (k p : ℕ) (logging : List ℕ) (tests : List (TestCase π κ)) : Prop :=
  tests.map (fun test => test.testStepsQ.map view) =
    config.zipIdx.map fun x => queueOf id 0 (kept (fun _ j => remains k p logging x.2 j) 0 (x.1.entry.getD []))

/-- The configuration was accepted at the first start, a step of it rebooted, and this step is no
logging step. -/
structure Interrupted (config : List (Coverage π κ)) (k p : ℕ) (logging : List ℕ) : Prop where
  accepted : (decodeJsonConfig ⟨0, []⟩ config).2.2 = true
  reboot : (stepAt config k p).isSome = true
  noLogging : p ∉ logging

/-- The condition: the first coverage is the interrupted one, and its numbers order its steps around
the last executed one. -/
structure Ordered (config : List (Coverage π κ)) (k p : ℕ) (logging : List ℕ) : Prop where
  first : k = 0
  last : numberAt config k p ≠ 0
  later : ∀ j step, stepAt config k j = some step → p < j → number step ≠ 0 ∧
    (numberAt config k p < number step ∨ number step ∈ logging.map (numberAt config k))
  paused : ∀ j step, stepAt config k j = some step → j ∈ logging → number step ≠ 0
  executed : ∀ j step, stepAt config k j = some step → j ≤ p → j ∉ logging → number step = 0 ∨
    number step ≤ numberAt config k p ∧ number step ∉ logging.map (numberAt config k)
  count : ∀ i cov, config[i]? = some cov →
    (kept (fun _ j => remains k p logging i j) 0 (cov.entry.getD [])).length ≤ 2 ^ 32

end Spec

/-! ### One coverage -/

section Steps

variable {π κ : Type} {u : UiMgr}

/-- The filter of the code. -/
def keeps (u : UiMgr) (step : StepJson π κ) : Bool :=
  u.lastExecutedStepNum = 0 ∨ checkRebootStepConfig u step = true

/-- An entry that decodes. -/
def Decodes (step : StepJson π κ) : Prop :=
  step.stepNumber.isSome = true ∧ step.param.isSome = true ∧ step.common.isSome = true

theorem keeps_iff {step : StepJson π κ} (hd : Decodes step) (hlast : u.lastExecutedStepNum ≠ 0) :
    keeps u step = true ↔ number step ≠ 0 ∧
      (u.lastExecutedStepNum < number step ∨ number step ∈ u.pausedLoggingSteps) := by
  obtain ⟨text, htext⟩ := Option.isSome_iff_exists.mp hd.1
  have hnum : number step = atoi text := by
    simp [number, htext]
  simp only [keeps, hlast, false_or, decide_eq_true_eq, hnum, checkRebootStepConfig, htext]
  by_cases hzero : atoi text = 0
  · simp [hzero]
  · by_cases hle : atoi text ≤ u.lastExecutedStepNum
    · have hlt : ¬ u.lastExecutedStepNum < atoi text := BitVec.not_lt.mpr hle
      simp [hle, hlt]
    · have hlt : u.lastExecutedStepNum < atoi text := BitVec.not_le.mp hle
      simp [hle, hlt]

/-- The entries decode if no saved state filters them. -/
theorem decodes_of_decodeSteps {pos : ℕ} {count : BitVec 32} {entry : List (StepJson π κ)}
    (hu : u.lastExecutedStepNum = 0) (h : (decodeSteps u pos count entry).isSome = true) :
    ∀ step ∈ entry, Decodes step := by
  induction entry generalizing pos count with
  | nil =>
      simp
  | cons step entry ih =>
      simp only [decodeSteps, hu, ne_eq, not_true_eq_false, false_and, if_false] at h
      split at h
      · rename_i param text common hparam htext hcommon
        rw [Option.isSome_map] at h
        intro s hs
        rcases List.mem_cons.mp hs with rfl | hs
        · simp [Decodes, hparam, htext, hcommon]
        · exact ih h s hs
      · simp at h

/-- **The loop**: the queue holds the entries that the filter keeps, numbered from `count` on. -/
theorem decodeSteps_eq (pos count : ℕ) {entry : List (StepJson π κ)} (hd : ∀ step ∈ entry, Decodes step) :
    ∃ q, decodeSteps u pos (BitVec.ofNat 32 count) entry = some q ∧
      q.map view = queueOf (· % 2 ^ 32) count (kept (fun step _ => keeps u step) pos entry) := by
  induction entry generalizing pos count with
  | nil =>
      exact ⟨[], rfl, rfl⟩
  | cons step entry ih =>
      have hd' := fun s hs => hd s (List.mem_cons_of_mem _ hs)
      simp only [decodeSteps, kept, List.zipIdx_cons, List.filter_cons]
      by_cases hkeep : keeps u step = true
      · obtain ⟨q, hq, hview⟩ := ih (pos + 1) (count + 1) hd'
        obtain ⟨hnum, hparam, hcommon⟩ := hd step List.mem_cons_self
        obtain ⟨text, htext⟩ := Option.isSome_iff_exists.mp hnum
        obtain ⟨param, hparam⟩ := Option.isSome_iff_exists.mp hparam
        obtain ⟨common, hcommon⟩ := Option.isSome_iff_exists.mp hcommon
        have hpass : ¬ (u.lastExecutedStepNum ≠ 0 ∧ checkRebootStepConfig u step = false) := by
          rintro ⟨hlast, hcheck⟩
          simp only [keeps, hlast, hcheck, Bool.false_eq_true, or_self, decide_false] at hkeep
        have hsucc : BitVec.ofNat 32 count + 1 = BitVec.ofNat 32 (count + 1) :=
          (BitVec.ofNat_add count 1).symm
        rw [if_neg hpass, if_pos hkeep, hsucc, hq]
        simp only [htext, hparam, hcommon]
        refine ⟨_, rfl, ?_⟩
        rw [List.map_cons, hview]
        simp [queueOf, kept, view, number, htext, hparam, hcommon]
      · obtain ⟨q, hq, hview⟩ := ih (pos + 1) count hd'
        have hskip : u.lastExecutedStepNum ≠ 0 ∧ checkRebootStepConfig u step = false := by
          simpa [keeps] using hkeep
        rw [if_pos hskip, if_neg hkeep]
        exact ⟨q, hq, hview⟩

/-- Two queues of the same entries agree when the filters do and the numbers do not wrap. -/
theorem queueOf_eq_iff {f g : StepJson π κ → ℕ → Bool} {entry : List (StepJson π κ)} {w : ℕ} (hw : 0 < w) :
    queueOf (· % w) 0 (kept f 0 entry) = queueOf id 0 (kept g 0 entry) ↔
      (∀ j step, entry[j]? = some step → f step j = g step j) ∧ (kept g 0 entry).length ≤ w := by
  have hpos : ∀ (seq : ℕ → ℕ) (h : StepJson π κ → ℕ → Bool) j, j ∈ (queueOf seq 0 (kept h 0 entry)).map Prod.fst ↔
      ∃ step, entry[j]? = some step ∧ h step j = true := by
    intro seq h j
    have hmap : (queueOf seq 0 (kept h 0 entry)).map Prod.fst = (kept h 0 entry).map Prod.snd := by
      rw [queueOf, List.map_map]
      have hcomp : (kept h 0 entry).map Prod.snd = (((kept h 0 entry).zipIdx 0).map Prod.fst).map Prod.snd := by
        rw [List.zipIdx_map_fst]
      rw [hcomp, List.map_map]
      rfl
    rw [hmap]
    simp only [kept, List.mem_map, List.mem_filter, Prod.exists, exists_eq_right]
    constructor
    · rintro ⟨step, hmem, hkeep⟩
      exact ⟨step, List.mem_zipIdx_iff_getElem?.mp hmem, hkeep⟩
    · rintro ⟨step, hmem, hkeep⟩
      exact ⟨step, List.mem_zipIdx_iff_getElem?.mpr hmem, hkeep⟩
  constructor
  · intro heq
    have hfilter : ∀ j step, entry[j]? = some step → f step j = g step j := by
      intro j step hstep
      have hf := hpos (· % w) f j
      rw [heq, hpos id g j] at hf
      simp only [hstep, Option.some.injEq, exists_eq_left'] at hf
      exact (Bool.eq_iff_iff.mpr hf).symm
    have hkept : kept f 0 entry = kept g 0 entry := by
      apply List.filter_congr
      rintro ⟨step, j⟩ hmem
      exact hfilter j step (List.mem_zipIdx_iff_getElem?.mp hmem)
    refine ⟨hfilter, ?_⟩
    by_contra hlen
    rw [hkept] at heq
    have hget := congrArg (fun l => (l[w]?).map fun x => x.2.2.2.2) heq
    simp only [queueOf, List.getElem?_map, List.getElem?_zipIdx] at hget
    rw [List.getElem?_eq_getElem (by omega)] at hget
    simp at hget
    omega
  · rintro ⟨hfilter, hlen⟩
    have hkept : kept f 0 entry = kept g 0 entry := by
      apply List.filter_congr
      rintro ⟨step, j⟩ hmem
      exact hfilter j step (List.mem_zipIdx_iff_getElem?.mp hmem)
    rw [hkept]
    apply List.map_congr_left
    rintro ⟨x, i⟩ hmem
    have hi : i < (kept g 0 entry).length := by
      have := List.mem_zipIdx hmem
      omega
    have hmod : i % w = i := Nat.mod_eq_of_lt (by omega)
    simp only [hmod, id_eq]

end Steps

/-! ### All coverages -/

section Coverages

variable {π κ : Type} {u : UiMgr} {config : List (Coverage π κ)} {k p : ℕ} {logging : List ℕ}

/-- A coverage that decodes. -/
def CoverageOk (cov : Coverage π κ) : Prop :=
  cov.testCaseId.isSome = true ∧ ∃ entry, cov.entry = some entry ∧ ∀ step ∈ entry, Decodes step

theorem decodeCoverageConfig_eq {cov : Coverage π κ} (hok : CoverageOk cov) :
    ∃ test, decodeCoverageConfig u cov = ({ u with lastExecutedStepNum := 0 }, some test) ∧
      test.testStepsQ.map view =
        queueOf (· % 2 ^ 32) 0 (kept (fun step _ => keeps u step) 0 (cov.entry.getD [])) := by
  obtain ⟨hid, entry, hentry, hd⟩ := hok
  obtain ⟨id, hid⟩ := Option.isSome_iff_exists.mp hid
  obtain ⟨q, hq, hview⟩ := decodeSteps_eq (u := u) 0 0 hd
  refine ⟨⟨id.take 7, q⟩, ?_, ?_⟩
  · simp only [decodeCoverageConfig, hentry, decodeStepConfig]
    rw [show (0 : BitVec 32) = BitVec.ofNat 32 0 from rfl, hq]
    simp [hid]
  · rw [hentry]
    exact hview

theorem coverageOk_of_decode {cov : Coverage π κ} (hu : u.lastExecutedStepNum = 0)
    (h : (decodeCoverageConfig u cov).2.isSome = true) : CoverageOk cov := by
  unfold decodeCoverageConfig decodeStepConfig at h
  cases hentry : cov.entry with
  | none =>
      simp [hentry] at h
  | some entry =>
      cases hq : decodeSteps u 0 0 entry with
      | none =>
          simp only [hentry, hq] at h
          cases h
      | some q =>
          simp only [hentry, hq, Option.isSome_map] at h
          exact ⟨h, entry, hentry, decodes_of_decodeSteps hu (Option.isSome_iff_exists.mpr ⟨q, hq⟩)⟩

/-- An accepted configuration decodes coverage by coverage. -/
theorem coverageOk_of_accepted (hu : u.lastExecutedStepNum = 0)
    (h : (decodeJsonConfig u config).2.2 = true) : ∀ cov ∈ config, CoverageOk cov := by
  induction config generalizing u with
  | nil =>
      simp
  | cons cov config ih =>
      cases hdec : decodeCoverageConfig u cov with
      | mk u' test =>
          cases test with
          | none =>
              simp [decodeJsonConfig, hdec] at h
          | some test =>
              have hok : CoverageOk cov := by
                apply coverageOk_of_decode hu
                rw [hdec]
                rfl
              obtain ⟨test', heq, -⟩ := decodeCoverageConfig_eq (u := u) hok
              rw [hdec] at heq
              cases heq
              simp only [decodeJsonConfig, hdec] at h
              intro c hc
              rcases List.mem_cons.mp hc with rfl | hc
              · exact hok
              · exact ih rfl h c hc

/-- Without a saved number no entry is filtered. -/
theorem decodeJsonConfig_unfiltered (hu : u.lastExecutedStepNum = 0) (hok : ∀ cov ∈ config, CoverageOk cov) :
    (decodeJsonConfig u config).2.2 = true ∧
      (decodeJsonConfig u config).2.1.map (fun test => test.testStepsQ.map view) =
        config.map fun cov => queueOf (· % 2 ^ 32) 0 (kept (fun _ _ => true) 0 (cov.entry.getD [])) := by
  induction config generalizing u with
  | nil =>
      exact ⟨rfl, rfl⟩
  | cons cov config ih =>
      obtain ⟨test, hdec, hview⟩ := decodeCoverageConfig_eq (u := u) (hok cov List.mem_cons_self)
      obtain ⟨hret, hrest⟩ := ih (u := { u with lastExecutedStepNum := 0 }) rfl
        fun c hc => hok c (List.mem_cons_of_mem _ hc)
      have hkeeps : ∀ step : StepJson π κ, keeps u step = true := fun step => by simp [keeps, hu]
      simp only [hkeeps] at hview
      simp only [decodeJsonConfig, hdec, List.map_cons, hview, hrest]
      exact ⟨hret, trivial⟩

/-- Only the first coverage is filtered. -/
theorem decodeJsonConfig_eq (hok : ∀ cov ∈ config, CoverageOk cov) :
    (decodeJsonConfig u config).2.2 = true ∧
      (decodeJsonConfig u config).2.1.map (fun test => test.testStepsQ.map view) =
        config.zipIdx.map fun x => queueOf (· % 2 ^ 32) 0
          (kept (fun step _ => if x.2 = 0 then keeps u step else true) 0 (x.1.entry.getD [])) := by
  cases config with
  | nil =>
      exact ⟨rfl, rfl⟩
  | cons cov config =>
      obtain ⟨test, hdec, hview⟩ := decodeCoverageConfig_eq (u := u) (hok cov List.mem_cons_self)
      obtain ⟨hret, hrest⟩ := decodeJsonConfig_unfiltered (u := { u with lastExecutedStepNum := 0 }) rfl
        fun c hc => hok c (List.mem_cons_of_mem _ hc)
      simp only [decodeJsonConfig, hdec, List.map_cons, List.zipIdx_cons, hview, hrest, if_pos]
      refine ⟨hret, congrArg _ ?_⟩
      conv_lhs => rw [← List.zipIdx_map_fst (0 + 1) config, List.map_map]
      apply List.map_congr_left
      rintro ⟨c, i⟩ hmem
      have hpos : i ≠ 0 := by
        have := List.mem_zipIdx hmem
        omega
      simp [hpos]

/-- The code and the purpose keep the same entries. -/
def Agree (config : List (Coverage π κ)) (k p : ℕ) (logging : List ℕ) : Prop :=
  ∀ i j step, stepAt config i j = some step →
    (if i = 0 then keeps (saved config k p logging) step else true) = remains k p logging i j

/-- No queue is longer than its numbers reach. -/
def CountFits (config : List (Coverage π κ)) (k p : ℕ) (logging : List ℕ) : Prop :=
  ∀ i cov, config[i]? = some cov →
    (kept (fun _ j => remains k p logging i j) 0 (cov.entry.getD [])).length ≤ 2 ^ 32

theorem stepAt_eq_some {i j : ℕ} {step : StepJson π κ} :
    stepAt config i j = some step ↔ ∃ cov, config[i]? = some cov ∧ (cov.entry.getD [])[j]? = some step := by
  rw [stepAt, Option.bind_eq_some_iff]
  refine exists_congr fun cov => and_congr_right fun _ => ?_
  cases hentry : cov.entry <;> simp

theorem resumes_iff_agree (hok : ∀ cov ∈ config, CoverageOk cov) :
    Resumes config k p logging (decodeJsonConfig (saved config k p logging) config).2.1 ↔
      Agree config k p logging ∧ CountFits config k p logging := by
  have hw : 0 < 2 ^ 32 := by decide
  rw [Resumes, (decodeJsonConfig_eq (u := saved config k p logging) hok).2, List.map_inj_left]
  simp only [queueOf_eq_iff hw, Prod.forall, List.mem_zipIdx_iff_getElem?]
  constructor
  · intro h
    refine ⟨fun i j step hs => ?_, fun i cov hc => (h cov i hc).2⟩
    obtain ⟨cov, hc, hs⟩ := stepAt_eq_some.mp hs
    exact (h cov i hc).1 j step hs
  · rintro ⟨hagree, hcount⟩ cov i hc
    exact ⟨fun j step hs => hagree i j step (stepAt_eq_some.mpr ⟨cov, hc, hs⟩), hcount i cov hc⟩

theorem decodes_stepAt (hok : ∀ cov ∈ config, CoverageOk cov) {i j : ℕ} {step : StepJson π κ}
    (hs : stepAt config i j = some step) : Decodes step := by
  obtain ⟨cov, hc, hs⟩ := stepAt_eq_some.mp hs
  obtain ⟨-, entry, hentry, hd⟩ := hok cov (List.mem_of_getElem? hc)
  rw [hentry] at hs
  exact hd step (List.mem_of_getElem? hs)

theorem keeps_saved_iff {step : StepJson π κ} (hd : Decodes step) (hlast : numberAt config k p ≠ 0) :
    keeps (saved config k p logging) step = true ↔ number step ≠ 0 ∧
      (numberAt config k p < number step ∨ number step ∈ logging.map (numberAt config k)) :=
  keeps_iff hd hlast

/-- The step that rebooted would be executed again by a later coverage, or without its number. -/
theorem first_of_agree (hint : Interrupted config k p logging) (h : Agree config k p logging) :
    k = 0 ∧ numberAt config k p ≠ 0 := by
  obtain ⟨reboot, hreboot⟩ := Option.isSome_iff_exists.mp hint.reboot
  have hgone : remains k p logging k p = false := by
    simp [remains, hint.noLogging]
  have hagree := h k p reboot hreboot
  rw [hgone] at hagree
  have hk : k = 0 := by
    by_contra hk
    simp [hk] at hagree
  refine ⟨hk, fun hn => ?_⟩
  rw [if_pos hk] at hagree
  simp [keeps, saved, hn] at hagree

theorem ordered_of_agree (hok : ∀ cov ∈ config, CoverageOk cov) (hint : Interrupted config k p logging)
    (h : Agree config k p logging) (hcount : CountFits config k p logging) : Ordered config k p logging := by
  obtain ⟨rfl, hlast⟩ := first_of_agree hint h
  have hkeep : ∀ j step, stepAt config 0 j = some step → ((number step ≠ 0 ∧
      (numberAt config 0 p < number step ∨ number step ∈ logging.map (numberAt config 0))) ↔
        p < j ∨ j ∈ logging) := by
    intro j step hs
    have heq := h 0 j step hs
    rw [if_pos rfl] at heq
    rw [← keeps_saved_iff (decodes_stepAt hok hs) hlast, heq]
    simp [remains]
  refine ⟨rfl, hlast, ?_, ?_, ?_, hcount⟩
  · intro j step hs hlt
    exact (hkeep j step hs).mpr (Or.inl hlt)
  · intro j step hs hmem
    exact ((hkeep j step hs).mpr (Or.inr hmem)).1
  · intro j step hs hle hmem
    by_cases hnum : number step = 0
    · exact Or.inl hnum
    · right
      have hnot : ¬ (p < j ∨ j ∈ logging) := by
        rintro (hlt | hlog)
        · omega
        · exact hmem hlog
      have hdrop := (hkeep j step hs).not.mpr hnot
      rw [not_and, not_or] at hdrop
      exact ⟨BitVec.not_lt.mp (hdrop hnum).1, (hdrop hnum).2⟩

theorem agree_of_ordered (hok : ∀ cov ∈ config, CoverageOk cov) (hord : Ordered config k p logging) :
    Agree config k p logging := by
  obtain rfl := hord.first
  intro i j step hs
  by_cases hzero : i = 0
  · subst hzero
    have hrem : remains 0 p logging 0 j = true ↔ p < j ∨ j ∈ logging := by
      simp [remains]
    rw [if_pos rfl, Bool.eq_iff_iff, keeps_saved_iff (decodes_stepAt hok hs) hord.last, hrem]
    constructor
    · rintro ⟨hnum, hkeep⟩
      by_contra hnot
      rw [not_or, Nat.not_lt] at hnot
      obtain hz | ⟨hle, hmem⟩ := hord.executed j step hs hnot.1 hnot.2
      · exact hnum hz
      · exact hkeep.elim (fun hlt => absurd hle (BitVec.not_le.mpr hlt)) hmem
    · rintro (hlt | hmem)
      · exact hord.later j step hs hlt
      · have hnum : numberAt config 0 j = number step := by
          simp [numberAt, hs]
        exact ⟨hord.paused j step hs hmem, Or.inr (List.mem_map.mpr ⟨j, hmem, hnum⟩)⟩
  · have hlt : 0 < i := by omega
    simp [hzero, remains, hlt]

/-- **Resuming after a reboot**: for every accepted configuration, every rebooting step and every list
of paused logging steps, the restart queues exactly the steps that remain, numbered from 0 on, if and
only if the first coverage is the interrupted one and the numbers order its steps around the last
executed one. -/
theorem resumes_iff (hint : Interrupted config k p logging) :
    ((decodeJsonConfig (saved config k p logging) config).2.2 = true ∧
      Resumes config k p logging (decodeJsonConfig (saved config k p logging) config).2.1) ↔
      Ordered config k p logging := by
  have hok := coverageOk_of_accepted rfl hint.accepted
  rw [resumes_iff_agree hok]
  constructor
  · rintro ⟨-, hagree, hcount⟩
    exact ordered_of_agree hok hint hagree hcount
  · intro hord
    exact ⟨(decodeJsonConfig_eq hok).1, agree_of_ordered hok hord, hord.count⟩

end Coverages

/-! ### Two configurations -/

section Runs

/-- An entry with the number `d`, a digit. -/
def entryOf (d : UInt8) : StepJson Unit Unit :=
  ⟨some [48 + d], some (), some ()⟩

/-- Step 3 of a single coverage reboots and step 1 is logging. -/
theorem resumes_iff_single :
    ((decodeJsonConfig (saved [⟨some ([1, 2, 3, 4].map entryOf), some [49]⟩] 0 2 [0])
        [⟨some ([1, 2, 3, 4].map entryOf), some [49]⟩]).2.2 = true ∧
      Resumes [⟨some ([1, 2, 3, 4].map entryOf), some [49]⟩] 0 2 [0]
        (decodeJsonConfig (saved [⟨some ([1, 2, 3, 4].map entryOf), some [49]⟩] 0 2 [0])
          [⟨some ([1, 2, 3, 4].map entryOf), some [49]⟩]).2.1) ↔
      Ordered [⟨some ([1, 2, 3, 4].map entryOf), some [49]⟩] 0 2 [0] :=
  resumes_iff ⟨by decide, by decide, by decide⟩

/-- Step 2 of the second coverage reboots: all of that coverage is queued again. -/
theorem not_resumes_second :
    (decodeJsonConfig
      (saved [⟨some ([1, 2].map entryOf), some [49]⟩, ⟨some ([1, 2, 3].map entryOf), some [50]⟩] 1 1 [])
      [⟨some ([1, 2].map entryOf), some [49]⟩, ⟨some ([1, 2, 3].map entryOf), some [50]⟩]).2.1.map
        (fun test => test.testStepsQ.map StepConfig.pos) = [[], [0, 1, 2]] ∧
    ¬ Resumes [⟨some ([1, 2].map entryOf), some [49]⟩, ⟨some ([1, 2, 3].map entryOf), some [50]⟩] 1 1 []
      (decodeJsonConfig
        (saved [⟨some ([1, 2].map entryOf), some [49]⟩, ⟨some ([1, 2, 3].map entryOf), some [50]⟩] 1 1 [])
        [⟨some ([1, 2].map entryOf), some [49]⟩, ⟨some ([1, 2, 3].map entryOf), some [50]⟩]).2.1 := by
  refine ⟨by decide, fun h => ?_⟩
  have hpos := congrArg (fun l => l.map fun q => q.map Prod.fst) h
  revert hpos
  decide

end Runs

end OneWifiTestSuite.RebootResume
