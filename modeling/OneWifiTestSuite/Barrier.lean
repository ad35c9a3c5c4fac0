import OneWifiTestSuite.Invariant

/-!
# A step that is not forked is a barrier

Nothing in the code stores the barrier: it comes from where `get_next_pending_step` is called, and
from what it skips. The invariant `Barrier` says that a step is triggered only when every step
before it is `Passed`, that is triggered and, unless it is forked, written into `results`. At the
two places where the next step is looked for, the step that the search starts from is passed, so
the step after it in the queue may be triggered.

`barrier_of_run` is the property itself.
-/

namespace OneWifiTestSuite.Scheduler

open Runs Steps

/-- The step with this sequence number is not forked. -/
def Nonforked (q : StepQueue) (seq : ℕ) : Prop :=
  ∃ (i : ℕ) (t : Step), q.steps[i]? = some t ∧ t.stepSeqNum = seq ∧ t.fork = false

/-- The step has been triggered and, unless it is forked, has reached `results`. -/
def Passed (q : StepQueue) (log : List Event) (seq : ℕ) : Prop :=
  .trigger seq ∈ log ∧ (Nonforked q seq → .wrote seq .results ∈ log)

/-- All steps before this one are passed. -/
def Clear (q : StepQueue) (log : List Event) (seq : ℕ) : Prop :=
  ∀ k, k < seq → Passed q log k

structure Barrier (q : StepQueue) (s : St) : Prop where
  ordered : ∀ seq, .trigger seq ∈ s.log → Clear q s.log seq
  loop : s.pc = .loop → ∀ t : Step, s.steps[s.step]? = some t → Clear q s.log t.stepSeqNum
  next : s.pc = .next → ∀ t : Step, s.steps[s.step]? = some t → Passed q s.log t.stepSeqNum
  scan : ∀ index, s.pc = .scan index →
    ∃ t : Step, s.steps[index]? = some t ∧ Passed q s.log t.stepSeqNum

section Passed

variable {q : StepQueue} {s s' : St} {log log' : List Event} {seq : ℕ}

theorem Passed.mono (hsub : ∀ e ∈ log, e ∈ log') (h : Passed q log seq) : Passed q log' seq :=
  ⟨hsub _ h.1, fun hfork => hsub _ (h.2 hfork)⟩

theorem Clear.mono (hsub : ∀ e ∈ log, e ∈ log') (h : Clear q log seq) : Clear q log' seq :=
  fun k hk => (h k hk).mono hsub

theorem nonforked_iff (hs : Sound q s) {i : ℕ} {t : Step} (ht : s.steps[i]? = some t) :
    Nonforked q t.stepSeqNum ↔ t.fork = false := by
  obtain ⟨u, hu, hseq', hfork'⟩ := getElem?_of_skeleton hs.kept ht
  constructor
  · rintro ⟨j, v, hv, hseq, hfork⟩
    have hj := q.getElem?_seq hv
    have hi := q.getElem?_seq hu
    have hij : i = j := by omega
    subst hij
    rw [hu, Option.some.injEq] at hv
    subst hv
    rw [← hfork']
    exact hfork
  · intro hfork
    exact ⟨i, u, hu, hseq', hfork'.trans hfork⟩

/-- A step in `results` is passed. -/
theorem passed_of_results (h : Basic q s) {i : ℕ} {t : Step} (ht : s.steps[i]? = some t)
    (hstate : t.testState = .results) : Passed q s.log t.stepSeqNum :=
  ⟨h.trigger_mem ht (by simp [hstate]), fun _ => h.sound.reached i t ht hstate⟩

/-- A triggered step that is forked is passed. -/
theorem passed_of_fork (h : Basic q s) {i : ℕ} {t : Step} (ht : s.steps[i]? = some t)
    (hstarted : s.started i = true) (hfork : t.fork = true) : Passed q s.log t.stepSeqNum := by
  refine ⟨(h.sound.started_iff_trigger ht).mp hstarted, fun hnon => ?_⟩
  rw [nonforked_iff h.sound ht, hfork] at hnon
  cases hnon

/-- The step after a passed one may be triggered; after the last one comes the first. -/
theorem clear_prevIndex (hs : Sound q s) (hb : Barrier q s) {i : ℕ} {t u : Step}
    (ht : s.steps[i]? = some t) (hpassed : Passed q s.log t.stepSeqNum)
    (hu : s.steps[prevIndex s i]? = some u) : Clear q s.log u.stepSeqNum := by
  intro k hk
  have hi := hs.seq ht
  have hprev := hs.seq hu
  have htotal := hs.total
  unfold prevIndex at hprev
  split_ifs at hprev with hzero
  · omega
  · by_cases hkt : k = t.stepSeqNum
    · rw [hkt]
      exact hpassed
    · exact hb.ordered _ hpassed.1 k (by omega)

end Passed

section Preserved

variable {T : Target} {q : StepQueue} {s s' : St}

/-- A move that triggers no step, to a place where no step is looked for or selected. -/
theorem Barrier.of_log (hb : Barrier q s) (hsub : ∀ e ∈ s.log, e ∈ s'.log)
    (htrigger : ∀ seq, .trigger seq ∈ s'.log → .trigger seq ∈ s.log)
    (hloop : s'.pc = .loop → ∀ t : Step, s'.steps[s'.step]? = some t → Clear q s'.log t.stepSeqNum)
    (hnext : s'.pc = .next → ∀ t : Step, s'.steps[s'.step]? = some t → Passed q s'.log t.stepSeqNum)
    (hscan : ∀ index, s'.pc ≠ .scan index) : Barrier q s' :=
  ⟨fun seq hseq => (hb.ordered seq (htrigger seq hseq)).mono hsub, hloop, hnext,
    fun index hindex => absurd hindex (hscan index)⟩

theorem Barrier.goto (h : Basic q s) (hb : Barrier q s) {pc : Pc} (hgoto : Goto s pc) :
    Barrier q (s.goto pc) := by
  have hactive := (goto_active hgoto).1
  -- a step that is not at the top of the loop has been triggered
  have hclear : s.pc ≠ .loop → ∀ t : Step, s.steps[s.step]? = some t → Clear q s.log t.stepSeqNum := by
    intro hpc t ht
    have hst := h.placed.standing hactive hpc
    exact hb.ordered _ ((h.sound.started_iff_trigger ht).mp hst.started)
  cases hgoto with
  | scan cur hpc hcur hfork _ =>
      have hst := h.placed.standing hactive (by simp [hpc])
      rw [hst.current] at hcur
      refine ⟨hb.ordered, by simp [St.goto], by simp [St.goto], fun index hindex => ?_⟩
      cases hindex
      rw [h.sound.index_eq hcur]
      exact ⟨cur, hcur, hb.next hpc cur hcur⟩
  | scanOn index t hpc ht hstate _ =>
      refine ⟨hb.ordered, by simp [St.goto], by simp [St.goto], fun index' hindex => ?_⟩
      cases hindex
      exact ⟨t, ht, passed_of_results h ht hstate⟩
  | leave t hpc ht hleave =>
      refine hb.of_log (fun _ he => he) (fun _ he => he) (by simp [St.goto]) (fun _ u hu => ?_)
        (by simp [St.goto])
      have hst := h.placed.standing hactive (by simp [hpc])
      have hut : u = t := by
        have hu' : s.steps[s.step]? = some u := hu
        rw [ht, Option.some.injEq] at hu'
        exact hu'.symm
      subst hut
      rcases hleave with hres | ⟨hfork, -⟩
      · exact passed_of_results h ht hres
      · exact passed_of_fork h ht hst.started hfork
  | drained hpc _ =>
      exact hb.of_log (fun _ he => he) (fun _ he => he) (fun _ => hclear (by simp [hpc]))
        (by simp [St.goto]) (by simp [St.goto])
  | stay hpc =>
      exact hb.of_log (fun _ he => he) (fun _ he => he) (fun _ => hclear (by simp [hpc]))
        (by simp [St.goto]) (by simp [St.goto])
  | tickSkip index check _ _ =>
      refine hb.of_log (fun _ he => he) (fun _ he => he) ?_ ?_ ?_ <;>
        cases index <;> simp [St.goto, tickNextPc]
  | tickGoesOn index t _ _ _ =>
      refine hb.of_log (fun _ he => he) (fun _ he => he) ?_ ?_ ?_ <;>
        cases index <;> simp [St.goto, tickNextPc]
  | _ =>
      exact hb.of_log (fun _ he => he) (fun _ he => he) (by simp [St.goto]) (by simp [St.goto])
        (by simp [St.goto])

/-- Neither a callback nor what it writes triggers a step. -/
theorem mem_log_callback {e : Event} {ws : List (ℕ × Write)} {seq : ℕ} (he : e ≠ .trigger seq)
    (h : .trigger seq ∈ ((s.note e).writes ws).log) : .trigger seq ∈ s.log := by
  rcases List.mem_cons.mp (mem_log_of_mem_log_writes (by simp) h) with heq | hmem
  · exact absurd heq.symm he
  · exact hmem

theorem mem_log_callback_of_mem {e e' : Event} {ws : List (ℕ × Write)} (h : e' ∈ s.log) :
    e' ∈ ((s.note e).writes ws).log :=
  mem_log_writes_of_mem (List.mem_cons_of_mem _ h)

theorem Barrier.select (h : Basic q s) (hb : Barrier q s) {i : ℕ} {t u : Step}
    (ht : s.steps[i]? = some t) (hpassed : Passed q s.log t.stepSeqNum)
    (hu : s.steps[prevIndex s i]? = some u) : Barrier q (s.select (prevIndex s i) u) := by
  refine hb.of_log (fun _ he => he) (fun _ he => he) (fun _ v hv => ?_) (by simp [St.select])
    (by simp [St.select])
  have hv' : s.steps[prevIndex s i]? = some v := hv
  rw [hu, Option.some.injEq] at hv'
  subst hv'
  exact clear_prevIndex h.sound hb ht hpassed hu

theorem Barrier.move (h : Basic q s) (hb : Barrier q s) (hmove : Move T s s') : Barrier q s' := by
  cases hmove with
  | goto pc hgoto => exact hb.goto h hgoto
  | entry hpc hne =>
      refine hb.of_log (fun _ he => he) (fun _ he => he) (fun _ t ht => ?_) (by simp) (by simp)
      -- the first step
      have hseq := h.sound.seq ht
      have htotal := h.sound.total
      intro k hk
      simp only at hseq
      omega
  | trigger t hpc ht hstate =>
      have hsub : ∀ e ∈ s.log, e ∈ Event.trigger t.stepSeqNum :: s.log :=
        fun _ he => List.mem_cons_of_mem _ he
      refine ⟨fun seq hseq => ?_, by simp, by simp, by simp⟩
      rcases List.mem_cons.mp hseq with heq | hseq
      · cases heq
        exact (hb.loop hpc t ht).mono hsub
      · exact (hb.ordered seq hseq).mono hsub
  | clear t hpc ht hstate =>
      refine hb.of_log (fun _ he => List.mem_cons_of_mem _ he) (by simp [St.note, St.goto, St.clearPendingStep])
        (by simp [St.goto]) (fun _ u hu => ?_) (by simp [St.goto])
      have hu' : s.steps[s.step]? = some u := hu
      rw [ht, Option.some.injEq] at hu'
      subst hu'
      exact (passed_of_results h ht hstate).mono fun _ he => List.mem_cons_of_mem _ he
  | skip coverage ctrl tag rest hpc _ _ =>
      exact hb.of_log (fun _ he => he) (fun _ he => he) (by simp [hpc]) (by simp [hpc]) (by simp [hpc])
  | exec coverage tag rest t ws hpc _ _ _ =>
      have hpc' : (({ s with results := rest }.note (.exec tag t.stepSeqNum)).writes ws).pc = .drain := by
        rw [writes_pc]
        exact hpc
      refine hb.of_log (fun e he => mem_log_callback_of_mem (s := { s with results := rest }) he)
        (fun seq hseq => mem_log_callback (s := { s with results := rest }) (by simp) hseq) ?_ ?_ ?_ <;>
        rw [hpc'] <;> simp
  | filter mask seq index t ws pc hpc _ _ hto =>
      refine hb.of_log (fun _ he => mem_log_callback_of_mem he)
        (fun _ hseq => mem_log_callback (by simp) hseq) ?_ ?_ ?_ <;>
        rcases hto with rfl | rfl | rfl <;> simp [St.goto]
  | timeout index t ws hpc _ _ =>
      exact hb.of_log (fun _ he => mem_log_callback_of_mem he)
        (fun _ hseq => mem_log_callback (by simp) hseq) (by simp [St.goto]) (by simp [St.goto])
        (by simp [St.goto])
  | tickClear index t _ _ _ =>
      refine hb.of_log (fun _ he => List.mem_cons_of_mem _ he) (by simp [St.note, St.goto, St.clearPendingStep])
        ?_ ?_ ?_ <;> cases index <;> simp [St.goto, tickNextPc]
  | select cur t index hpc hcur hfork hindex ht =>
      have hst := h.placed.standing (by simp [hpc, Pc.active]) (by simp [hpc])
      rw [hst.current] at hcur
      rw [h.sound.index_eq hcur] at hindex
      subst hindex
      exact hb.select h hcur (hb.next hpc cur hcur) ht
  | found index t hpc ht _ =>
      obtain ⟨u, hu, hpassed⟩ := hb.scan index hpc
      exact hb.select h hu hpassed ht
  | noCurrent hpc hcur =>
      exact hb.of_log (fun _ he => he) (fun _ he => he) (by simp) (by simp) (by simp)
  | _ =>
      exact hb.of_log (fun _ he => he) (fun _ he => he) (by simp [St.goto, St.finish, St.fail])
        (by simp [St.goto, St.finish, St.fail]) (by simp [St.goto, St.finish, St.fail])

/-- The environment triggers nothing and keeps the place of the thread. -/
theorem Barrier.env {a : Action} (hb : Barrier q s) (henv : Env s a s') : Barrier q s' := by
  cases henv with
  | created _ =>
      exact hb.of_log (fun _ he => he) (fun _ he => he) (by simp) (by simp) (by simp)
  | wrote index w _ =>
      have hsub : ∀ e ∈ s.log, e ∈ (s.write index w).log := fun e he => mem_log_write.mpr (Or.inl he)
      have hpc : (s.write index w).pc = s.pc := writes_pc s [(index, w)]
      have hstep : (s.write index w).step = s.step := by
        show (s.writes [(index, w)]).step = s.step
        rw [writes_frame]
      have hkept := skeleton_write s index w
      refine ⟨fun seq hseq => ?_, fun hloop t ht => ?_, fun hnext t ht => ?_, fun i hscan => ?_⟩
      · rcases mem_log_write.mp hseq with hseq | ⟨t, -, heq⟩
        · exact (hb.ordered seq hseq).mono hsub
        · cases heq
      · rw [hstep] at ht
        obtain ⟨u, hu, hseq, -⟩ := getElem?_of_skeleton hkept ht
        rw [← hseq]
        exact (hb.loop (hpc ▸ hloop) u hu).mono hsub
      · rw [hstep] at ht
        obtain ⟨u, hu, hseq, -⟩ := getElem?_of_skeleton hkept ht
        rw [← hseq]
        exact (hb.next (hpc ▸ hnext) u hu).mono hsub
      · obtain ⟨u, hu, hpassed⟩ := hb.scan i (hpc ▸ hscan)
        obtain ⟨t, ht, hseq, -⟩ := getElem?_of_skeleton hkept.symm hu
        exact ⟨t, ht, hseq ▸ hpassed.mono hsub⟩
  | _ => exact ⟨hb.ordered, hb.loop, hb.next, hb.scan⟩

end Preserved

section Run

variable {T : Target} {q : StepQueue} {coverage : Coverage} {pendingSteps : BitVec 32} {s : St}

theorem barrier_init : Barrier q (init q coverage pendingSteps) := by
  constructor <;> simp [init]

theorem passed_before_trigger {C : St → Action → Prop}
    (h : Run (next T) C (init q coverage pendingSteps) s) : Barrier q s := by
  refine (run_invariant (I := fun s => Basic q s ∧ Barrier q s) ?_ h
    ⟨basic_init coverage pendingSteps, barrier_init⟩).2
  rintro s a t ⟨hbasic, hb⟩ - hnext
  refine ⟨basic_next hbasic hnext, ?_⟩
  rcases next_cases hnext with henv | ⟨c, -, hmove⟩
  · exact hb.env henv
  · exact hb.move hbasic hmove

/-- **A step that is not forked is a barrier**: until it reaches `results`, every later step is in
`request` and none of its callbacks has been called. (This includes the time before its own
trigger.) -/
theorem barrier_of_run (h : Run (next T) (fun _ _ => True) (init q coverage pendingSteps) s)
    {i j : ℕ} {k m : Step} (hk : s.steps[i]? = some k) (hm : s.steps[j]? = some m)
    (hlater : k.stepSeqNum < m.stepSeqNum) (hfork : k.fork = false)
    (hresults : .wrote k.stepSeqNum .results ∉ s.log) :
    m.testState = .request ∧ (∀ tag, .exec tag m.stepSeqNum ∉ s.log) ∧
      .timeout m.stepSeqNum ∉ s.log ∧ .filter m.stepSeqNum ∉ s.log := by
  have hsound := (basic_of_run h).sound
  have hnot : .trigger m.stepSeqNum ∉ s.log := by
    intro htrigger
    obtain ⟨-, hpassed⟩ := (passed_before_trigger h).ordered _ htrigger k.stepSeqNum hlater
    exact hresults (hpassed ((nonforked_iff hsound hk).mpr hfork))
  refine ⟨(hsound.request j m hm).mpr hnot, fun tag hexec => ?_, fun htimeout => ?_, fun hfilter => ?_⟩
  · exact hnot (hsound.triggered _ hexec)
  · exact hnot (hsound.triggered _ htimeout)
  · exact hnot (hsound.triggered _ hfilter)

/-- Two steps that are not forked. -/
def twoSteps : StepQueue := (StepQueue.empty.push 1 false).push 2 false

theorem barrier_of_run_sample :
    (⟨2, 1, false, .request⟩ : Step).testState = .request ∧
      (∀ tag, .exec tag 1 ∉ [Event.exec (some 0) 0, .trigger 0]) ∧
      .timeout 1 ∉ [Event.exec (some 0) 0, .trigger 0] ∧
      .filter 1 ∉ [Event.exec (some 0) 0, .trigger 0] := by
  have hrun : execTo (next .masking) (init twoSteps .coverage1 0)
      [.create true, .subscribe, .thread {}, .thread {}, .deliver, .thread {}, .thread {}] =
      some { init twoSteps .coverage1 0 with
        steps := [⟨2, 1, false, .request⟩, ⟨1, 0, false, .start⟩]
        pendingSteps := 3
        currentTestStep := 1
        step := 1
        pc := .drain
        startPc := .join
        subs := 1
        log := [.exec (some 0) 0, .trigger 0] } := rfl
  exact barrier_of_run (i := 1) (j := 0) (k := ⟨1, 0, false, .start⟩) (m := ⟨2, 1, false, .request⟩)
    (run_of_execTo hrun) rfl rfl (by decide) rfl (by decide)

end Run

end OneWifiTestSuite.Scheduler
