import OneWifiTestSuite.StepRemoval

/-!
# The handle of the result file

`analyze_request` opens the file of the results at its end, `upload_results` writes the names of the
uploaded logs to it and closes it, and steps write to it through `step_upload_files`. Neither
`upload_cci_log` nor `step_upload_files` looks whether the handle is NULL.

The state has the history of the file, and `Uses` says that every use of a handle falls between its
opening and its closing. `uses_of_run` is the result about whole runs, with the exact condition on each
action.
-/

namespace OneWifiTestSuite.ResultFile

open Runs Steps MainLoop StepRemoval

section Code

/-- What happens to the file; the openings are numbered, and a use may be one of NULL. -/
inductive FileEvent
  | opened (handle : ℕ)
  | wrote (handle : Option ℕ)
  | closed (handle : ℕ)
deriving DecidableEq, Repr

/-- `wlan_emu_test_case_config`; its `test_case_id` is never empty. -/
structure Case where
  category : Category
  hasSteps : Bool
  /-- `test_case_name` is not empty -/
  named : Bool
deriving DecidableEq, Repr

structure Suite where
  state : TestState
  pc : LoopPc
  /-- `test_cov_cases_q`, index 0 first -/
  queue : List Case
  /-- posted signals that have not been read -/
  pending : List Sig
  /-- `res_output_file_fp` -/
  fp : Option ℕ
  nextHandle : ℕ
  /-- the process is gone: the device restarts, or a NULL configuration was read -/
  stopped : Bool
  log : List FileEvent
deriving DecidableEq, Repr

def init : Suite where
  state := .wait
  pc := .turn
  queue := []
  pending := []
  fp := none
  nextHandle := 0
  stopped := false
  log := []

def Suite.post (s : Suite) (sigs : List Sig) : Suite :=
  { s with pending := s.pending ++ sigs }

/-- `fopen`. -/
def Suite.openFile (s : Suite) : Suite :=
  { s with fp := some s.nextHandle, nextHandle := s.nextHandle + 1, log := s.log ++ [.opened s.nextHandle] }

/-- `n` calls of `fprintf`. -/
def Suite.write (s : Suite) (n : ℕ) : Suite :=
  { s with log := s.log ++ List.replicate n (.wrote s.fp) }

/-- The handle is closed and set to NULL if it is not NULL. -/
def Suite.closeFile (s : Suite) : Suite :=
  match s.fp with
  | none => s
  | some handle => { s with fp := none, log := s.log ++ [.closed handle] }

/-! ### The request -/

/-- What `run` gets for a request; `names i` tells whether the memory of configuration `i` is left with a
name in `test_case_name`. -/
structure Request where
  agents : Bool
  fetched : Bool
  entries : List CoverageEntry
  names : ℕ → Bool
  downloaded : Bool
  opened : Bool

/-- The loop of `decode_json_config`; a configuration is queued when it has been decoded to its end. -/
def decodeJsonConfig (names : ℕ → Bool) : ℕ → List Case → List CoverageEntry → List Case × Bool
  | _, q, [] => (q, true)
  | i, q, e :: es =>
      if e.Decodes then
        decodeJsonConfig names (i + 1) (⟨e.category, e.steps.contains .decoded, names i⟩ :: q) es
      else (q, false)

/-- `download_test_files`. -/
def downloadTestFiles (q : List Case) (downloaded : Bool) : Bool :=
  q ≠ [] && q.all Case.hasSteps && downloaded

/-- `analyze_request`. -/
def analyzeRequest (s : Suite) (r : Request) : Suite × Bool :=
  if r.fetched = false then (s, false)
  else
    match decodeJsonConfig r.names 0 s.queue r.entries with
    | (q, false) => ({ s with queue := q }, false)
    | (q, true) =>
        if downloadTestFiles q r.downloaded = false then ({ s with queue := q }, false)
        else if s.fp ≠ none then ({ s with queue := q }, true)
        else if r.opened then (Suite.openFile { s with queue := q }, true)
        else ({ s with queue := q }, false)

/-! ### Results and reports -/

/-- How many of the cases `upload_cci_log` writes the log name of; `logged` says of the `i`th case from
the back whether its log is copied and uploaded. -/
def written (q : List Case) (logged : ℕ → Bool) : ℕ :=
  ((q.reverse.zipIdx).filter fun (c, i) => c.named && logged i).length

/-- `upload_results`, and whether the file list is uploaded. -/
def uploadResults (s : Suite) (logged : ℕ → Bool) (uploaded : Bool) : Suite × Bool :=
  if s.queue = [] then (s.closeFile, false)
  else ({ (s.write (written s.queue logged)).closeFile with queue := [] }, uploaded)

/-- `cci_report_pause_to_tda` and `cci_report_failure_to_tda` free the queue when the message is posted. -/
def report (s : Suite) (posted : Bool) : Suite :=
  if posted then { s with queue := [] } else s

/-! ### The tests -/

/-- The end of `step_execute` of an upgrade or reboot step, and how often the later steps write. -/
structure Reboot where
  logged : ℕ → Bool
  uploaded : Bool
  posted : Bool
  restarted : Bool
  later : ℕ

/-- What the thread of a test does: how often its steps write, the reboot step that it may come to, and
its end by `test_done`, by `test_fail` or without a signal. -/
structure TestRun where
  uploads : ℕ
  reboot : Option Reboot
  outcome : Option Bool

/-- The constructor of the test gives its configuration a name. -/
def nameCase (q : List Case) (i : ℕ) : List Case :=
  q.modify i fun c => { c with named := true }

def Suite.name (s : Suite) (i : ℕ) : Suite :=
  { s with queue := nameCase s.queue i }

def endTest (s : Suite) (c : Case) : Option Bool → Suite
  | some true => s.post (signalTestDone c.category.toCoverage)
  | some false => s.post [.fail]
  | none => s

/-- The test of case `i`, from its constructor to the end of its thread. -/
def runTest (s : Suite) (i : ℕ) (c : Case) (t : TestRun) : Suite :=
  if c.hasSteps = false then s.name i
  else
    match t.reboot with
    | none => endTest ((s.name i).write t.uploads) c t.outcome
    | some r =>
        let paused := report (uploadResults ((s.name i).write t.uploads) r.logged r.uploaded).1 r.posted
        if r.posted && r.restarted then { paused with stopped := true }
        else endTest (paused.write r.later) c t.outcome

/-- The loop of `start_test` over the indices; the queue may have become empty meanwhile. -/
def runTests (runs : ℕ → TestRun) : Suite → List ℕ → Suite
  | s, [] => s
  | s, i :: is =>
      match s.queue[i]? with
      | none => { s with stopped := true }
      | some c =>
          if (runTest s i c (runs i)).stopped then runTest s i c (runs i)
          else runTests runs (runTest s i c (runs i)) is

/-! ### The loop -/

/-- A turn of the switch in `run`. -/
inductive Turn
  | idle
  | request (r : Request)
  | start (runs : ℕ → TestRun)
  | results (logged : ℕ → Bool) (uploaded posted : Bool)
  | abort (logged : ℕ → Bool) (uploaded posted : Bool)

def requestTurn (s : Suite) (r : Request) : Suite :=
  if r.agents = false then s.post [.fail]
  else
    match analyzeRequest s r with
    | (s, true) => s.post [.analysis]
    | (s, false) => s.post [.fail]

def startTurn (s : Suite) (runs : ℕ → TestRun) : Suite :=
  if s.queue = [] then s.post [.fail]
  else { runTests runs s (List.range s.queue.length) with state := .wait }

def resultsTurn (s : Suite) (logged : ℕ → Bool) (uploaded posted : Bool) : Suite :=
  match uploadResults s logged uploaded with
  | (s, true) => s.post [.results]
  | (s, false) => { report s posted with state := .wait }

def abortTurn (s : Suite) (logged : ℕ → Bool) (uploaded posted : Bool) : Suite :=
  { report (uploadResults s logged uploaded).1 posted with state := .wait }

def turn (s : Suite) : Turn → Option Suite
  | .idle => if s.state = .none ∨ s.state = .wait ∨ s.state = .cont then some s else none
  | .request r => if s.state = .request then some (requestTurn s r) else none
  | .start runs => if s.state = .start then some (startTurn s runs) else none
  | .results logged uploaded posted =>
      if s.state = .results then some (resultsTurn s logged uploaded posted) else none
  | .abort logged uploaded posted =>
      if s.state = .abort then some (abortTurn s logged uploaded posted) else none

/-- The loop moves, a request or an external abort comes, `select` fails, or another thread (of a step
that has been executed, or of the bus) uploads a file with `step_upload_files`. -/
inductive Action
  | turn (t : Turn)
  | pick (index : ℕ)
  | input
  | abort
  | interrupted
  | upload

def next (s : Suite) : Action → Option Suite
  | .turn t =>
      if s.stopped = false ∧ s.pc = .turn then (turn s t).map fun s => { s with pc := .select } else none
  | .pick index =>
      if s.stopped = false ∧ s.pc = .select then
        s.pending[index]?.map fun sig =>
          { s with state := updateState sig, pending := s.pending.eraseIdx index, pc := .turn }
      else none
  | .input => some (s.post [.input])
  | .abort => some (s.post [.fail])
  | .interrupted =>
      if s.stopped = false ∧ s.pc = .select then some { s with state := updateState .max, pc := .turn }
      else none
  | .upload => if s.stopped = false then some (s.write 1) else none

end Code

/-! ### Uses -/

section Uses

variable {s t : Suite} {log : List FileEvent} {e : FileEvent} {n : ℕ}

/-- The event may come after the others. -/
def FileEvent.Good (before : List FileEvent) : FileEvent → Prop
  | .opened k => .opened k ∉ before
  | .wrote none => False
  | .wrote (some k) => .opened k ∈ before ∧ .closed k ∉ before
  | .closed k => .opened k ∈ before ∧ .closed k ∉ before

/-- But for writes to NULL, every use is of a handle that has been opened and not closed since. -/
def WellUsed (log : List FileEvent) : Prop :=
  ∀ before e after, log = before ++ e :: after → e ≠ .wrote none → e.Good before

/-- The file is well used, the handle is the open one or NULL, and every other one has been closed. -/
structure Held (s : Suite) : Prop where
  used : WellUsed s.log
  current : ∀ k, s.fp = some k → .opened k ∈ s.log ∧ .closed k ∉ s.log
  others : ∀ k, .opened k ∈ s.log → s.fp = some k ∨ .closed k ∈ s.log
  numbered : ∀ k, .opened k ∈ s.log → k < s.nextHandle

/-- The handle is never used unless the file is open: every event is good, and each opening but the
present one has been closed. -/
structure Uses (s : Suite) : Prop where
  good : ∀ before e after, s.log = before ++ e :: after → e.Good before
  current : ∀ k, s.fp = some k → .opened k ∈ s.log ∧ .closed k ∉ s.log
  others : ∀ k, .opened k ∈ s.log → s.fp = some k ∨ .closed k ∈ s.log

/-- All that can go wrong is a write to NULL. -/
theorem uses_iff (h : Held s) : Uses s ↔ .wrote none ∉ s.log := by
  constructor
  · intro huses hmem
    obtain ⟨before, after, hlog⟩ := List.append_of_mem hmem
    exact huses.good before _ after hlog
  · intro hnull
    refine ⟨fun before e after hlog => h.used before e after hlog ?_, h.current, h.others⟩
    rintro rfl
    exact hnull (hlog ▸ by simp)

theorem wellUsed_append (hlog : WellUsed log) (he : e ≠ .wrote none → e.Good log) : WellUsed (log ++ [e]) := by
  intro before e' after h hne
  rcases List.eq_nil_or_concat after with rfl | ⟨after, a, rfl⟩
  · obtain ⟨rfl, heq⟩ := List.append_inj' h rfl
    cases heq
    exact he hne
  · rw [List.concat_eq_append, ← List.cons_append, ← List.append_assoc] at h
    exact hlog before e' after (List.append_inj_left' h rfl) hne

/-- Nothing else of the state matters. -/
theorem Held.congr (h : Held s) (hlog : t.log = s.log) (hfp : t.fp = s.fp) (hnext : t.nextHandle = s.nextHandle) :
    Held t := by
  refine ⟨?_, ?_, ?_, ?_⟩
  · rw [hlog]; exact h.used
  · rw [hlog, hfp]; exact h.current
  · rw [hlog, hfp]; exact h.others
  · rw [hlog, hnext]; exact h.numbered

theorem held_init : Held init := by
  refine ⟨fun before e after h => ?_, by simp [init], by simp [init], by simp [init]⟩
  simp [init] at h

theorem held_write_one (h : Held s) : Held { s with log := s.log ++ [.wrote s.fp] } := by
  refine ⟨wellUsed_append h.used fun hne => ?_, fun k hk => ?_, fun k hk => ?_, fun k hk => ?_⟩
  · cases hfp : s.fp with
    | none => exact absurd (by rw [hfp]) hne
    | some k => exact h.current k hfp
  · have := h.current k hk
    simpa using this
  · have := h.others k (by simpa using hk)
    simpa using this
  · exact h.numbered k (by simpa using hk)

theorem held_write (h : Held s) (n : ℕ) : Held (s.write n) := by
  induction n with
  | zero =>
      exact h.congr (by simp [Suite.write]) rfl rfl
  | succ n ih =>
      refine (held_write_one ih).congr ?_ rfl rfl
      simp [Suite.write, List.replicate_succ']

theorem held_openFile (h : Held s) (hfp : s.fp = none) : Held s.openFile := by
  have hnew : .opened s.nextHandle ∉ s.log := fun hmem => lt_irrefl _ (h.numbered _ hmem)
  have hclosed : .closed s.nextHandle ∉ s.log := by
    intro hmem
    obtain ⟨before, after, hlog⟩ := List.append_of_mem hmem
    have hopened := (h.used before _ after hlog (by simp)).1
    exact hnew (hlog ▸ List.mem_append_left _ hopened)
  refine ⟨wellUsed_append h.used fun _ => hnew, fun k hk => ?_, fun k hk => ?_, fun k hk => ?_⟩
  · cases hk
    simpa [Suite.openFile] using hclosed
  · rcases List.mem_append.mp hk with hk | hk
    · right
      have := (h.others k hk).resolve_left (by simp [hfp])
      exact List.mem_append_left _ this
    · left
      cases List.mem_singleton.mp hk
      rfl
  · rcases List.mem_append.mp hk with hk | hk
    · exact Nat.lt_succ_of_lt (h.numbered k hk)
    · cases List.mem_singleton.mp hk
      exact Nat.lt_succ_self _

theorem held_closeFile (h : Held s) : Held s.closeFile := by
  unfold Suite.closeFile
  cases hfp : s.fp with
  | none => exact h
  | some handle =>
      refine ⟨wellUsed_append h.used fun _ => h.current handle hfp, fun k hk => ?_, fun k hk => ?_, fun k hk => ?_⟩
      · cases hk
      · right
        have hk : .opened k ∈ s.log := by simpa using hk
        rcases h.others k hk with hcur | hclosed
        · obtain rfl := Option.some.inj (hfp.symm.trans hcur)
          simp
        · exact List.mem_append_left _ hclosed
      · exact h.numbered k (by simpa using hk)

end Uses

/-! ### Every action keeps the handle -/

section Keeps

variable {s s' : Suite}

theorem held_uploadResults (h : Held s) (logged : ℕ → Bool) (uploaded : Bool) :
    Held (uploadResults s logged uploaded).1 := by
  unfold uploadResults
  split_ifs
  · exact held_closeFile h
  · exact (held_closeFile (held_write h _)).congr rfl rfl rfl

theorem held_report (h : Held s) (posted : Bool) : Held (report s posted) := by
  unfold report
  split_ifs
  · exact h.congr rfl rfl rfl
  · exact h

theorem held_endTest (h : Held s) (c : Case) (outcome : Option Bool) : Held (endTest s c outcome) := by
  unfold endTest
  split
  · exact h.congr rfl rfl rfl
  · exact h.congr rfl rfl rfl
  · exact h

theorem held_runTest (h : Held s) (i : ℕ) (c : Case) (t : TestRun) : Held (runTest s i c t) := by
  have hname : Held (s.name i) := h.congr rfl rfl rfl
  unfold runTest
  dsimp only
  split_ifs
  · exact hname
  · split
    · exact held_endTest (held_write hname _) c _
    · rename_i r hreboot
      have hpaused := held_report (held_uploadResults (held_write hname t.uploads) r.logged r.uploaded) r.posted
      split_ifs
      · exact hpaused.congr rfl rfl rfl
      · exact held_endTest (held_write hpaused _) c _

theorem held_runTests (runs : ℕ → TestRun) (is : List ℕ) (h : Held s) : Held (runTests runs s is) := by
  induction is generalizing s with
  | nil =>
      exact h
  | cons i is ih =>
      unfold runTests
      split
      · exact h.congr rfl rfl rfl
      · rename_i c hc
        split_ifs
        · exact held_runTest h i c _
        · exact ih (held_runTest h i c _)

theorem held_analyzeRequest (h : Held s) (r : Request) : Held (analyzeRequest s r).1 := by
  unfold analyzeRequest
  by_cases hfetched : r.fetched = false
  · rw [if_pos hfetched]
    exact h
  · rw [if_neg hfetched]
    split
    · exact h.congr rfl rfl rfl
    · rename_i q _
      have hq : Held { s with queue := q } := h.congr rfl rfl rfl
      split_ifs with _ hfp
      · exact hq
      · exact hq
      · exact held_openFile hq (not_not.mp hfp)
      · exact hq

theorem held_turn {t : Turn} (h : Held s) (hturn : turn s t = some s') : Held s' := by
  cases t with
  | idle =>
      obtain ⟨-, heq⟩ := Option.ite_none_right_eq_some.mp hturn
      cases heq
      exact h
  | request r =>
      obtain ⟨-, heq⟩ := Option.ite_none_right_eq_some.mp hturn
      cases heq
      have hanalyze := held_analyzeRequest h r
      unfold requestTurn
      split_ifs
      · exact h.congr rfl rfl rfl
      · split
        · rename_i u hu
          rw [hu] at hanalyze
          exact hanalyze.congr rfl rfl rfl
        · rename_i u hu
          rw [hu] at hanalyze
          exact hanalyze.congr rfl rfl rfl
  | start runs =>
      obtain ⟨-, heq⟩ := Option.ite_none_right_eq_some.mp hturn
      cases heq
      unfold startTurn
      split_ifs
      · exact h.congr rfl rfl rfl
      · exact (held_runTests runs _ h).congr rfl rfl rfl
  | results logged uploaded posted =>
      obtain ⟨-, heq⟩ := Option.ite_none_right_eq_some.mp hturn
      cases heq
      have hupload := held_uploadResults h logged uploaded
      unfold resultsTurn
      split
      · rename_i u hu
        rw [hu] at hupload
        exact hupload.congr rfl rfl rfl
      · rename_i u hu
        rw [hu] at hupload
        exact (held_report hupload posted).congr rfl rfl rfl
  | abort logged uploaded posted =>
      obtain ⟨-, heq⟩ := Option.ite_none_right_eq_some.mp hturn
      cases heq
      exact (held_report (held_uploadResults h logged uploaded) posted).congr rfl rfl rfl

/-- **Whatever happens, each handle is closed once and used in between**, but for writes to NULL. -/
theorem held_next {a : Action} (h : Held s) (hnext : next s a = some s') : Held s' := by
  cases a with
  | turn t =>
      obtain ⟨-, heq⟩ := Option.ite_none_right_eq_some.mp hnext
      obtain ⟨u, hu, rfl⟩ := Option.map_eq_some_iff.mp heq
      exact (held_turn h hu).congr rfl rfl rfl
  | pick index =>
      obtain ⟨-, heq⟩ := Option.ite_none_right_eq_some.mp hnext
      obtain ⟨sig, -, rfl⟩ := Option.map_eq_some_iff.mp heq
      exact h.congr rfl rfl rfl
  | input | abort =>
      cases hnext
      exact h.congr rfl rfl rfl
  | interrupted =>
      obtain ⟨-, heq⟩ := Option.ite_none_right_eq_some.mp hnext
      cases heq
      exact h.congr rfl rfl rfl
  | upload =>
      obtain ⟨-, heq⟩ := Option.ite_none_right_eq_some.mp hnext
      cases heq
      exact held_write h 1

end Keeps

/-! ### Writes to NULL -/

section Null

variable {s s' : Suite}

/-- The file has not been written to through NULL. -/
def Suite.Clean (s : Suite) : Prop := .wrote none ∉ s.log

theorem clean_write (n : ℕ) : (s.write n).Clean ↔ s.Clean ∧ (n ≠ 0 → s.fp ≠ none) := by
  simp only [Suite.Clean, Suite.write, List.mem_append, List.mem_replicate, not_or, FileEvent.wrote.injEq]
  refine and_congr_right fun _ => ?_
  constructor
  · intro hnot hn hfp
    exact hnot ⟨hn, hfp.symm⟩
  · rintro hfp ⟨hn, hnone⟩
    exact hfp hn hnone.symm

theorem clean_openFile : s.openFile.Clean ↔ s.Clean := by
  simp [Suite.Clean, Suite.openFile]

theorem clean_closeFile : s.closeFile.Clean ↔ s.Clean := by
  unfold Suite.closeFile
  cases s.fp with
  | none =>
      rfl
  | some handle =>
      simp [Suite.Clean]

theorem closeFile_fp : s.closeFile.fp = none := by
  unfold Suite.closeFile
  cases hfp : s.fp with
  | none =>
      exact hfp
  | some handle =>
      rfl

theorem uploadResults_fp (logged : ℕ → Bool) (uploaded : Bool) :
    (uploadResults s logged uploaded).1.fp = none := by
  unfold uploadResults
  split_ifs
  · exact closeFile_fp
  · exact closeFile_fp (s := s.write _)

theorem clean_uploadResults (logged : ℕ → Bool) (uploaded : Bool) :
    (uploadResults s logged uploaded).1.Clean ↔ s.Clean ∧ (written s.queue logged ≠ 0 → s.fp ≠ none) := by
  unfold uploadResults
  split_ifs with hqueue
  · rw [clean_closeFile, hqueue]
    simp [written]
  · rw [← clean_write]
    exact clean_closeFile

theorem uploadResults_queue (logged : ℕ → Bool) (uploaded : Bool) :
    (uploadResults s logged uploaded).1.queue = [] := by
  unfold uploadResults
  split_ifs with hqueue
  · unfold Suite.closeFile
    split
    · exact hqueue
    · exact hqueue
  · rfl

theorem clean_report (posted : Bool) : (report s posted).Clean ↔ s.Clean := by
  unfold report
  split_ifs
  · rfl
  · rfl

theorem clean_endTest (c : Case) (outcome : Option Bool) : (endTest s c outcome).Clean ↔ s.Clean := by
  unfold endTest
  split
  · rfl
  · rfl
  · rfl

theorem endTest_fields (c : Case) (outcome : Option Bool) :
    (endTest s c outcome).fp = s.fp ∧ (endTest s c outcome).queue = s.queue ∧
      (endTest s c outcome).stopped = s.stopped := by
  unfold endTest
  split
  · exact ⟨rfl, rfl, rfl⟩
  · exact ⟨rfl, rfl, rfl⟩
  · exact ⟨rfl, rfl, rfl⟩

/-! ### The conditions -/

/-- The thread of a test writes to an open file only: its own steps and `upload_results` in its reboot
step do so before the file is closed, and nothing is left to be written after that. -/
def TestRun.Meets (fp : Option ℕ) (q : List Case) (t : TestRun) : Prop :=
  (t.uploads ≠ 0 → fp ≠ none) ∧
    ∀ r, t.reboot = some r →
      (written q r.logged ≠ 0 → fp ≠ none) ∧ ((r.posted && r.restarted) = false → r.later = 0)

/-- Every test that `start_test` comes to meets its condition; none comes after a reboot step. -/
def RunsMeet (runs : ℕ → TestRun) (fp : Option ℕ) : List Case → List ℕ → Prop
  | _, [] => True
  | q, i :: is =>
      match q[i]? with
      | none => True
      | some c =>
          (c.hasSteps = true → (runs i).Meets fp (nameCase q i)) ∧
            (c.hasSteps = false ∨ (runs i).reboot = none → RunsMeet runs fp (nameCase q i) is)

/-- A file is only written to while it is open. -/
def Meets (s : Suite) : Action → Prop
  | .turn (.start runs) => RunsMeet runs s.fp s.queue (List.range s.queue.length)
  | .turn (.results logged _ _) => written s.queue logged ≠ 0 → s.fp ≠ none
  | .turn (.abort logged _ _) => written s.queue logged ≠ 0 → s.fp ≠ none
  | .upload => s.fp ≠ none
  | _ => True

/-- A test without a reboot step leaves the handle and the names of the others. -/
theorem runTest_noReboot {i : ℕ} {c : Case} {t : TestRun} (h : c.hasSteps = false ∨ t.reboot = none) :
    (runTest s i c t).fp = s.fp ∧ (runTest s i c t).queue = nameCase s.queue i ∧
      (runTest s i c t).stopped = s.stopped ∧
      ((runTest s i c t).Clean ↔ s.Clean ∧ (c.hasSteps = true → t.Meets s.fp (nameCase s.queue i))) := by
  unfold runTest
  by_cases hsteps : c.hasSteps = false
  · rw [if_pos hsteps]
    refine ⟨rfl, rfl, rfl, ?_⟩
    simp only [hsteps, Bool.false_eq_true, false_implies, and_true]
    rfl
  · have hreboot := h.resolve_left hsteps
    rw [if_neg hsteps]
    simp only [hreboot]
    obtain ⟨hfp, hqueue, hstopped⟩ := endTest_fields (s := (s.name i).write t.uploads) c t.outcome
    refine ⟨hfp, hqueue, hstopped, ?_⟩
    rw [clean_endTest, clean_write]
    simp only [Bool.not_eq_false] at hsteps
    simp only [hsteps, true_implies, TestRun.Meets, hreboot, reduceCtorEq, false_implies, implies_true,
      and_true]
    rfl

theorem report_fields (posted : Bool) :
    (report s posted).fp = s.fp ∧ (s.queue = [] → (report s posted).queue = []) := by
  unfold report
  split_ifs
  · exact ⟨rfl, fun _ => rfl⟩
  · exact ⟨rfl, id⟩

/-- After its reboot step the device restarts, or no case is left. -/
theorem runTest_reboot {i : ℕ} {c : Case} {t : TestRun} {r : Reboot} (hsteps : c.hasSteps = true)
    (hreboot : t.reboot = some r) :
    ((runTest s i c t).stopped = true ∨ (runTest s i c t).queue = []) ∧
      ((runTest s i c t).Clean ↔ s.Clean ∧ t.Meets s.fp (nameCase s.queue i)) := by
  have hclean := clean_uploadResults (s := (s.name i).write t.uploads) r.logged r.uploaded
  rw [clean_write, and_assoc] at hclean
  have hfp := uploadResults_fp (s := (s.name i).write t.uploads) r.logged r.uploaded
  have hqueue := uploadResults_queue (s := (s.name i).write t.uploads) r.logged r.uploaded
  have hmeets : t.Meets s.fp (nameCase s.queue i) ↔ (t.uploads ≠ 0 → s.fp ≠ none) ∧
      (written (nameCase s.queue i) r.logged ≠ 0 → s.fp ≠ none) ∧
        ((r.posted && r.restarted) = false → r.later = 0) := by
    simp [TestRun.Meets, hreboot]
  unfold runTest
  rw [if_neg (by simp [hsteps])]
  simp only [hreboot]
  generalize (uploadResults ((s.name i).write t.uploads) r.logged r.uploaded).1 = u at hclean hfp hqueue
  obtain ⟨hrfp, hrqueue⟩ := report_fields (s := u) r.posted
  cases hrestart : r.posted && r.restarted with
  | true =>
      refine ⟨.inl rfl, ?_⟩
      rw [hmeets, hrestart, if_pos rfl]
      simp only [reduceCtorEq, false_implies, and_true]
      exact (clean_report r.posted).trans hclean
  | false =>
      rw [if_neg (by simp)]
      obtain ⟨-, hequeue, -⟩ := endTest_fields (s := (report u r.posted).write r.later) c t.outcome
      refine ⟨.inr (hequeue.trans (hrqueue hqueue)), ?_⟩
      rw [clean_endTest, clean_write, clean_report, hclean, hmeets, hrestart, hrfp, hfp]
      simp only [ne_eq, not_true_eq_false, imp_false, not_not, true_implies, and_assoc]
      rfl

theorem clean_runTests_empty (runs : ℕ → TestRun) (is : List ℕ) (hqueue : s.queue = []) :
    (runTests runs s is).Clean ↔ s.Clean := by
  cases is with
  | nil =>
      rfl
  | cons i is =>
      rw [runTests, hqueue]
      rfl

theorem clean_runTests (runs : ℕ → TestRun) (is : List ℕ) (hstopped : s.stopped = false) :
    (runTests runs s is).Clean ↔ s.Clean ∧ RunsMeet runs s.fp s.queue is := by
  induction is generalizing s with
  | nil =>
      exact (and_iff_left trivial).symm
  | cons i is ih =>
      rw [runTests, RunsMeet]
      cases hcase : s.queue[i]? with
      | none =>
          exact (and_iff_left trivial).symm
      | some c =>
          dsimp only
          by_cases hreboot : c.hasSteps = false ∨ (runs i).reboot = none
          · obtain ⟨hfp, hqueue, hstop, hclean⟩ := runTest_noReboot (s := s) (i := i) hreboot
            rw [if_neg (by simp [hstop, hstopped]), ih (hstop.trans hstopped), hclean, hfp, hqueue, and_assoc]
            simp only [hreboot, true_implies]
          · obtain ⟨hsteps, hsome⟩ := not_or.mp hreboot
            simp only [Bool.not_eq_false] at hsteps
            obtain ⟨r, hr⟩ := Option.ne_none_iff_exists'.mp hsome
            obtain ⟨hend, hclean⟩ := runTest_reboot (s := s) (i := i) hsteps hr
            simp only [hreboot, false_implies, and_true]
            simp only [hsteps, true_implies]
            split_ifs with hstop
            · exact hclean
            · rw [clean_runTests_empty runs is (hend.resolve_left hstop)]
              exact hclean

theorem clean_analyzeRequest (r : Request) : (analyzeRequest s r).1.Clean ↔ s.Clean := by
  unfold analyzeRequest
  by_cases hfetched : r.fetched = false
  · rw [if_pos hfetched]
  · rw [if_neg hfetched]
    split
    · rfl
    · rename_i q _
      split_ifs
      · rfl
      · rfl
      · exact clean_openFile (s := { s with queue := q })
      · rfl

theorem clean_turn {t : Turn} (hstopped : s.stopped = false) (hturn : turn s t = some s') :
    s'.Clean ↔ s.Clean ∧ Meets s (.turn t) := by
  cases t with
  | idle =>
      obtain ⟨-, heq⟩ := Option.ite_none_right_eq_some.mp hturn
      cases heq
      exact (and_iff_left trivial).symm
  | request r =>
      obtain ⟨-, heq⟩ := Option.ite_none_right_eq_some.mp hturn
      cases heq
      have hanalyze := clean_analyzeRequest (s := s) r
      refine Iff.trans ?_ (and_iff_left trivial).symm
      unfold requestTurn
      split_ifs
      · rfl
      · split
        · rename_i u hu
          rw [hu] at hanalyze
          exact hanalyze
        · rename_i u hu
          rw [hu] at hanalyze
          exact hanalyze
  | start runs =>
      obtain ⟨-, heq⟩ := Option.ite_none_right_eq_some.mp hturn
      cases heq
      unfold startTurn
      split_ifs with hqueue
      · refine (and_iff_left ?_).symm
        simp [Meets, hqueue, RunsMeet]
      · exact clean_runTests runs _ hstopped
  | results logged uploaded posted =>
      obtain ⟨-, heq⟩ := Option.ite_none_right_eq_some.mp hturn
      cases heq
      have hupload := clean_uploadResults (s := s) logged uploaded
      unfold resultsTurn
      split
      · rename_i u hu
        rw [hu] at hupload
        exact hupload
      · rename_i u hu
        rw [hu] at hupload
        exact (clean_report posted).trans hupload
  | abort logged uploaded posted =>
      obtain ⟨-, heq⟩ := Option.ite_none_right_eq_some.mp hturn
      cases heq
      exact (clean_report posted).trans (clean_uploadResults logged uploaded)

/-- An action writes to NULL exactly where it does not meet its condition. -/
theorem clean_next {a : Action} (hnext : next s a = some s') : s'.Clean ↔ s.Clean ∧ Meets s a := by
  cases a with
  | turn t =>
      obtain ⟨⟨hstopped, -⟩, heq⟩ := Option.ite_none_right_eq_some.mp hnext
      obtain ⟨u, hu, rfl⟩ := Option.map_eq_some_iff.mp heq
      have hclean := clean_turn hstopped hu
      exact hclean
  | pick index =>
      obtain ⟨-, heq⟩ := Option.ite_none_right_eq_some.mp hnext
      obtain ⟨sig, -, rfl⟩ := Option.map_eq_some_iff.mp heq
      exact (and_iff_left trivial).symm
  | input | abort =>
      cases hnext
      exact (and_iff_left trivial).symm
  | interrupted =>
      obtain ⟨-, heq⟩ := Option.ite_none_right_eq_some.mp hnext
      cases heq
      exact (and_iff_left trivial).symm
  | upload =>
      obtain ⟨-, heq⟩ := Option.ite_none_right_eq_some.mp hnext
      cases heq
      rw [clean_write]
      simp [Meets]

end Null

/-! ### Runs -/

section RunLemmas

variable {s : Suite}

theorem held_of_run {C : Suite → Action → Prop} (h : Run next C init s) : Held s :=
  run_invariant (fun _ _ _ hs _ hnext => held_next hs hnext) h held_init

theorem clean_of_run (h : Run next Meets init s) : s.Clean :=
  run_invariant (fun _ _ _ hs hmeets hnext => (clean_next hnext).mpr ⟨hs, hmeets⟩) h (by simp [Suite.Clean, init])

/-- **The handle is used while the file is open** in every run whose actions meet their condition, and
an action keeps it so exactly if it meets its own. -/
theorem uses_of_run (h : Run next Meets init s) :
    Uses s ∧ ∀ a s', next s a = some s' → (Uses s' ↔ Meets s a) := by
  have hheld := held_of_run h
  have hclean := clean_of_run h
  refine ⟨(uses_iff hheld).mpr hclean, fun a s' hnext => ?_⟩
  rw [uses_iff (held_next hheld hnext)]
  exact (clean_next hnext).trans (and_iff_right hclean)

end RunLemmas

/-! ### A test and a late notification -/

/-- A request with one coverage entry. -/
def request : Request where
  agents := true
  fetched := true
  entries := [⟨.coverage1, true, [.decoded], true⟩]
  names := fun _ => false
  downloaded := true
  opened := true

/-- A step of the test uploads a file, and the test passes. -/
def uploading : TestRun where
  uploads := 1
  reboot := none
  outcome := some true

/-- The request, its test and the results. -/
def testedRun : List Action :=
  [.turn .idle, .input, .pick 0, .turn (.request request), .pick 0, .turn (.start fun _ => uploading), .pick 0,
    .turn (.results (fun _ => true) true true)]

def testedEnd : Suite :=
  { init with
    state := .results
    pc := .select
    pending := [.results]
    nextHandle := 1
    log := [.opened 0, .wrote (some 0), .wrote (some 0), .closed 0] }

theorem uses_of_run_tested :
    execTo next init testedRun = some testedEnd ∧ Uses testedEnd ∧
      ∀ a s', next testedEnd a = some s' → (Uses s' ↔ Meets testedEnd a) := by
  have h₁ : Run next Meets init _ := Run.single (a := Action.turn .idle) trivial rfl
  have h₂ := h₁.step (a := Action.input) trivial rfl
  have h₃ := h₂.step (a := Action.pick 0) trivial rfl
  have h₄ := h₃.step (a := Action.turn (.request request)) trivial rfl
  have h₅ := h₄.step (a := Action.pick 0) trivial rfl
  have h₆ := h₅.step (a := Action.turn (.start fun _ => uploading)) ?_ rfl
  · have h₇ := h₆.step (a := Action.pick 0) trivial rfl
    have h₈ := h₇.step (a := Action.turn (.results (fun _ => true) true true)) (fun _ => nofun) rfl
    exact ⟨rfl, uses_of_run h₈⟩
  · exact ⟨fun _ => ⟨fun _ => nofun, fun r hr => by cases hr⟩, fun _ => trivial⟩

/-- A subscription of the test is still alive, and its handler uploads a file. -/
theorem not_uses_lateUpload :
    ¬∀ as s, execTo next init as = some s → Uses s := by
  intro hall
  have huses := hall (testedRun ++ [.upload]) { testedEnd with log := testedEnd.log ++ [.wrote none] } rfl
  exact huses.good testedEnd.log (.wrote none) [] rfl

end OneWifiTestSuite.ResultFile
