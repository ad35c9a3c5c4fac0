import OneWifiTestSuite.Moves

/-!
# The invariant of the test thread

Every run of the scheduler keeps the following, whatever the callbacks, the worker threads and the
order of messages and timeouts.

* `Sound`: the queue keeps its steps and their order, a step is in `request` exactly until it is
  triggered, nothing happens to a step before that, and a step in `results` was written so.
* `Placed`: between the start of the thread and its end, the local `step` is a step of the queue
  and the current step of the test, except that at the top of the loop it may still have to be
  triggered.

`Basic` is both, and `basic_of_run` is the run lemma that the results about the scheduler build on.
-/

namespace OneWifiTestSuite.Scheduler

open Runs Steps

/-- The step that an event is about. -/
def Event.seq : Event → ℕ
  | .trigger seq | .exec _ seq | .timeout seq | .filter seq | .wrote seq _ | .processed seq => seq

/-- What no move changes in the queue of steps. -/
def skeleton (steps : List Step) : List (ℕ × ℕ × Bool) :=
  steps.map fun t => (t.stepNumber, t.stepSeqNum, t.fork)

theorem getElem?_of_skeleton {xs ys : List Step} (h : skeleton xs = skeleton ys) {i : ℕ} {t : Step}
    (ht : xs[i]? = some t) : ∃ u, ys[i]? = some u ∧ u.stepSeqNum = t.stepSeqNum ∧ u.fork = t.fork := by
  have hmap := congrArg (fun zs => zs[i]?) h
  simp only [skeleton, List.getElem?_map, ht, Option.map_some] at hmap
  obtain ⟨u, hu, hkey⟩ := Option.map_eq_some_iff.mp hmap.symm
  simp only [Prod.mk.injEq] at hkey
  exact ⟨u, hu, hkey.2⟩

section Writes

theorem started_iff {s : St} {index : ℕ} :
    s.started index = true ↔ ∃ t, s.steps[index]? = some t ∧ t.testState ≠ .request := by
  unfold St.started
  cases s.steps[index]? with
  | none =>
      simp
  | some t =>
      simp

theorem getElem?_setState (s : St) (index : ℕ) (state : TestState) (j : ℕ) :
    (s.setState index state).steps[j]? =
      s.steps[j]?.map fun t => if index = j then { t with testState := state } else t := by
  simp only [St.setState, List.getElem?_modify]
  rfl

@[simp]
theorem skeleton_setState (s : St) (index : ℕ) (state : TestState) :
    skeleton (s.setState index state).steps = skeleton s.steps := by
  unfold skeleton
  refine List.ext_getElem? fun j => ?_
  simp only [List.getElem?_map, getElem?_setState, Option.map_map]
  cases s.steps[j]? with
  | none =>
      rfl
  | some t =>
      by_cases hj : index = j <;> simp [hj]

@[simp]
theorem skeleton_write (s : St) (index : ℕ) (w : Write) :
    skeleton (s.write index w).steps = skeleton s.steps := by
  unfold St.write
  cases s.steps[index]? with
  | none =>
      rfl
  | some t =>
      exact skeleton_setState s index w.toState

theorem mem_log_write {s : St} {index : ℕ} {w : Write} {e : Event} :
    e ∈ (s.write index w).log ↔
      e ∈ s.log ∨ ∃ t, s.steps[index]? = some t ∧ e = .wrote t.stepSeqNum w := by
  unfold St.write
  cases s.steps[index]? with
  | none =>
      simp
  | some t =>
      simp [St.note, St.setState, or_comm]

/-- A written step keeps its state, or has the written one, which is then in the log. -/
theorem getElem?_write {s : St} {index j : ℕ} {w : Write} {t : Step}
    (h : (s.write index w).steps[j]? = some t) :
    s.steps[j]? = some t ∨
      index = j ∧ t.testState = w.toState ∧ .wrote t.stepSeqNum w ∈ (s.write index w).log ∧
        ∃ u, s.steps[j]? = some u ∧ u.stepSeqNum = t.stepSeqNum := by
  unfold St.write at h ⊢
  cases hindex : s.steps[index]? with
  | none =>
      rw [hindex] at h
      exact Or.inl h
  | some u =>
      rw [hindex] at h
      have hset : (s.setState index w.toState).steps[j]? = some t := h
      rw [getElem?_setState] at hset
      by_cases hj : index = j
      · subst hj
        rw [hindex, Option.map_some, if_pos rfl, Option.some.injEq] at hset
        subst hset
        exact Or.inr ⟨rfl, rfl, List.mem_cons_self, u, hindex, rfl⟩
      · left
        simpa [hj] using hset

theorem getElem?_write_ne {s : St} {index j : ℕ} {w : Write} (h : index ≠ j) :
    (s.write index w).steps[j]? = s.steps[j]? := by
  unfold St.write
  cases s.steps[index]? with
  | none =>
      rfl
  | some u =>
      show (s.setState index w.toState).steps[j]? = s.steps[j]?
      rw [getElem?_setState]
      simp [h]

theorem write_toState_ne (w : Write) : w.toState ≠ .request := by
  cases w <;> simp [Write.toState]

/-- A started step stays started. -/
theorem started_write {s : St} {index j : ℕ} {w : Write} (h : s.started j = true) :
    (s.write index w).started j = true := by
  obtain ⟨t, ht, hstate⟩ := started_iff.mp h
  rw [started_iff]
  by_cases hj : index = j
  · subst hj
    unfold St.write
    rw [ht]
    refine ⟨{ t with testState := w.toState }, ?_, write_toState_ne w⟩
    show (s.setState index w.toState).steps[index]? = _
    rw [getElem?_setState, ht]
    simp
  · exact ⟨t, by rwa [getElem?_write_ne hj], hstate⟩

theorem started_writes {s : St} (ws : List (ℕ × Write)) {j : ℕ} (h : s.started j = true) :
    (s.writes ws).started j = true := by
  induction ws generalizing s with
  | nil =>
      exact h
  | cons w ws ih =>
      exact ih (started_write h)

/-- What writes preserve one by one they preserve as a list. -/
theorem writes_induction {P : St → Prop} {ws : List (ℕ × Write)} {Q : ℕ → Prop}
    (hwrite : ∀ s index w, P s → Q index → P (s.write index w))
    {s : St} (hs : P s) (hok : ∀ w ∈ ws, Q w.1) : P (s.writes ws) := by
  induction ws generalizing s with
  | nil =>
      exact hs
  | cons w ws ih =>
      refine ih (hwrite s w.1 w.2 hs (hok w List.mem_cons_self)) fun w' hw' => ?_
      exact hok w' (List.mem_cons_of_mem _ hw')

theorem mem_log_writes_of_mem {s : St} {ws : List (ℕ × Write)} {e : Event} (h : e ∈ s.log) :
    e ∈ (s.writes ws).log :=
  writes_induction (P := fun s => e ∈ s.log) (Q := fun _ => True)
    (fun _ _ _ hs _ => mem_log_write.mpr (Or.inl hs)) h (fun _ _ => trivial)

/-- Writes add `wrote` events only. -/
theorem mem_log_of_mem_log_writes {s : St} {ws : List (ℕ × Write)} {e : Event}
    (he : ∀ seq w, e ≠ .wrote seq w) (h : e ∈ (s.writes ws).log) : e ∈ s.log := by
  induction ws generalizing s with
  | nil =>
      exact h
  | cons w ws ih =>
      rcases mem_log_write.mp (ih h) with h | ⟨t, -, ht⟩
      · exact h
      · exact absurd ht (he _ _)

end Writes

section Sound

/-- What holds of the steps and of the log in every reachable state. -/
structure Sound (q : StepQueue) (s : St) : Prop where
  kept : skeleton s.steps = skeleton q.steps
  request : ∀ (i : ℕ) (t : Step), s.steps[i]? = some t → (t.testState = .request ↔ .trigger t.stepSeqNum ∉ s.log)
  triggered : ∀ e ∈ s.log, .trigger e.seq ∈ s.log
  bounded : ∀ e ∈ s.log, e.seq < q.total
  reached : ∀ (i : ℕ) (t : Step), s.steps[i]? = some t → t.testState = .results → .wrote t.stepSeqNum .results ∈ s.log

variable {q : StepQueue} {s s' : St}

theorem Sound.total (h : Sound q s) : s.total = q.total := by
  have hlen := congrArg List.length h.kept
  simp only [skeleton, List.length_map] at hlen
  exact hlen

/-- The index convention of the queue. -/
theorem Sound.seq (h : Sound q s) {i : ℕ} {t : Step} (ht : s.steps[i]? = some t) :
    t.stepSeqNum + i + 1 = q.total := by
  obtain ⟨u, hu, hkey, -⟩ := getElem?_of_skeleton h.kept ht
  have hseq := q.getElem?_seq hu
  omega

/-- The way back from a sequence number to the index. -/
theorem Sound.index_eq (h : Sound q s) {i : ℕ} {t : Step} (ht : s.steps[i]? = some t) :
    s.total - t.stepSeqNum - 1 = i := by
  have hseq := h.seq ht
  have htotal := h.total
  omega

theorem Sound.exists_step (h : Sound q s) {i : ℕ} (hi : i < q.total) : ∃ t, s.steps[i]? = some t := by
  have htotal := h.total
  unfold St.total at htotal
  exact ⟨_, List.getElem?_eq_getElem (by omega)⟩

theorem Sound.index_unique (h : Sound q s) {i j : ℕ} {t u : Step} (ht : s.steps[i]? = some t)
    (hu : s.steps[j]? = some u) (hseq : t.stepSeqNum = u.stepSeqNum) : i = j := by
  have ht' := h.seq ht
  have hu' := h.seq hu
  omega

/-- The queue has a step before every other, cyclically. -/
theorem Sound.prevIndex_ne_none (h : Sound q s) {i : ℕ} {t : Step} (ht : s.steps[i]? = some t) :
    s.steps[prevIndex s (s.total - t.stepSeqNum - 1)]? ≠ none := by
  have hseq := h.seq ht
  have htotal := h.total
  have hlt : prevIndex s (s.total - t.stepSeqNum - 1) < q.total := by
    unfold prevIndex
    split_ifs <;> omega
  obtain ⟨u, hu⟩ := h.exists_step hlt
  simp [hu]

theorem Sound.steps_ne_nil (h : Sound q s) (hne : q.steps ≠ []) : s.steps ≠ [] := by
  have htotal := h.total
  unfold St.total StepQueue.total at htotal
  have hpos := List.length_pos_iff.mpr hne
  exact List.length_pos_iff.mp (by omega)

theorem Sound.started_iff_trigger (h : Sound q s) {i : ℕ} {t : Step} (ht : s.steps[i]? = some t) :
    s.started i = true ↔ .trigger t.stepSeqNum ∈ s.log := by
  have hrequest := h.request i t ht
  rw [started_iff]
  simp only [ht, Option.some.injEq, exists_eq_left', ne_eq]
  tauto

theorem Sound.congr (h : Sound q s) (hsteps : s'.steps = s.steps) (hlog : s'.log = s.log) :
    Sound q s' := by
  obtain ⟨hkept, hrequest, htriggered, hbounded, hreached⟩ := h
  rw [← hsteps] at hkept hrequest hreached
  rw [← hlog] at hrequest htriggered hbounded hreached
  exact ⟨hkept, hrequest, htriggered, hbounded, hreached⟩

/-- An event on a triggered step. -/
theorem Sound.note (h : Sound q s) {e : Event} (he : ∀ seq, e ≠ .trigger seq)
    (htrigger : .trigger e.seq ∈ s.log) : Sound q (s.note e) := by
  have hmem : ∀ seq, .trigger seq ∈ (s.note e).log ↔ .trigger seq ∈ s.log := by
    intro seq
    simp [St.note, (he seq).symm]
  refine ⟨h.kept, fun i t ht => ?_, fun e' he' => ?_, fun e' he' => ?_, fun i t ht hres => ?_⟩
  · rw [hmem]
    exact h.request i t ht
  · rw [hmem]
    rcases List.mem_cons.mp he' with rfl | he'
    · exact htrigger
    · exact h.triggered e' he'
  · rcases List.mem_cons.mp he' with rfl | he'
    · exact h.bounded (.trigger e'.seq) htrigger
    · exact h.bounded e' he'
  · exact List.mem_cons_of_mem _ (h.reached i t ht hres)

theorem Sound.write (h : Sound q s) {index : ℕ} {w : Write} (hstarted : s.started index = true) :
    Sound q (s.write index w) := by
  obtain ⟨u, hu, -⟩ := started_iff.mp hstarted
  have htrigger := (h.started_iff_trigger hu).mp hstarted
  have hmem : ∀ seq, .trigger seq ∈ (s.write index w).log ↔ .trigger seq ∈ s.log := by
    intro seq
    simp [mem_log_write]
  refine ⟨(skeleton_write s index w).trans h.kept, fun i t ht => ?_, fun e he => ?_, fun e he => ?_,
    fun i t ht hres => ?_⟩
  · rw [hmem]
    rcases getElem?_write ht with ht | ⟨rfl, hstate, -, u', hu', hseq⟩
    · exact h.request i t ht
    · rw [hu, Option.some.injEq] at hu'
      subst hu'
      rw [hseq] at htrigger
      simp [hstate, write_toState_ne, htrigger]
  · rw [hmem]
    rcases mem_log_write.mp he with he | ⟨u', hu', rfl⟩
    · exact h.triggered e he
    · rw [hu, Option.some.injEq] at hu'
      subst hu'
      exact htrigger
  · rcases mem_log_write.mp he with he | ⟨u', hu', rfl⟩
    · exact h.bounded e he
    · have := h.seq hu'
      simp only [Event.seq]
      omega
  · rcases getElem?_write ht with ht | ⟨rfl, hstate, hwrote, -⟩
    · exact mem_log_write.mpr (Or.inl (h.reached i t ht hres))
    · cases w <;> simp_all [Write.toState]

theorem Sound.writes (h : Sound q s) {ws : List (ℕ × Write)}
    (hstarted : ∀ w ∈ ws, s.started w.1 = true) : Sound q (s.writes ws) := by
  induction ws generalizing s with
  | nil =>
      exact h
  | cons w ws ih =>
      refine ih (h.write (hstarted w List.mem_cons_self)) fun w' hw' => ?_
      exact started_write (hstarted w' (List.mem_cons_of_mem _ hw'))

/-- The trigger of a step. -/
theorem Sound.trigger (h : Sound q s) {index : ℕ} {t : Step} (ht : s.steps[index]? = some t)
    (hsteps : s'.steps = (s.setState index .start).steps)
    (hlog : s'.log = .trigger t.stepSeqNum :: s.log) : Sound q s' := by
  have hmem : ∀ e, e ∈ s'.log ↔ e = .trigger t.stepSeqNum ∨ e ∈ s.log := by
    intro e
    rw [hlog, List.mem_cons]
  refine ⟨?_, fun i u hu => ?_, fun e he => ?_, fun e he => ?_, fun i u hu hres => ?_⟩
  · rw [hsteps, skeleton_setState]
    exact h.kept
  · rw [hmem]
    rw [hsteps, getElem?_setState] at hu
    obtain ⟨u', hu', rfl⟩ := Option.map_eq_some_iff.mp hu
    by_cases hi : index = i
    · subst hi
      rw [ht, Option.some.injEq] at hu'
      subst hu'
      simp
    · have hne : u'.stepSeqNum ≠ t.stepSeqNum := fun hseq => hi (h.index_unique hu' ht hseq).symm
      simp only [hi, if_false, Event.trigger.injEq, hne, false_or]
      exact h.request i u' hu'
  · rw [hmem]
    rcases (hmem e).mp he with rfl | he
    · exact Or.inl rfl
    · exact Or.inr (h.triggered e he)
  · rcases (hmem e).mp he with rfl | he
    · have := h.seq ht
      simp only [Event.seq]
      omega
    · exact h.bounded e he
  · rw [hmem]
    rw [hsteps, getElem?_setState] at hu
    obtain ⟨u', hu', rfl⟩ := Option.map_eq_some_iff.mp hu
    by_cases hi : index = i
    · simp [hi] at hres
    · simp only [hi, if_false] at hres ⊢
      exact Or.inr (h.reached i u' hu' hres)

theorem sound_init (coverage : Coverage) (pendingSteps : BitVec 32) :
    Sound q (init q coverage pendingSteps) := by
  refine ⟨rfl, fun i t ht => ?_, fun e he => ?_, fun e he => ?_, fun i t ht hres => ?_⟩
  · have hrequest := q.requested t (List.mem_of_getElem? ht)
    simp [hrequest, init]
  · simp [init] at he
  · simp [init] at he
  · have hrequest := q.requested t (List.mem_of_getElem? ht)
    simp [hrequest] at hres

end Sound

section Placed

/-- The thread is in its loop. -/
def Pc.active : Pc → Bool
  | .idle | .entry | .exited => false
  | _ => true

theorem Pc.ne_of_active {pc : Pc} (h : pc.active = true) : pc ≠ .idle ∧ pc ≠ .entry ∧ pc ≠ .exited := by
  cases pc <;> simp_all [Pc.active]

/-- The local `step` is the current step of the test and has been triggered. -/
structure Standing (s : St) : Prop where
  step_lt : s.step < s.total
  current : s.currentTestStep = s.step
  started : s.started s.step = true

/-- Where the thread stands. -/
structure Placed (s : St) : Prop where
  create : s.startPc = .create → s.pc = .idle
  fresh : s.pc = .idle ∨ s.pc = .entry → s.log = []
  active : s.pc.active = true → Standing s ∨ s.pc = .loop ∧ s.step < s.total ∧ s.started s.step = false

variable {T : Target} {q : StepQueue} {s s' : St}

theorem Placed.standing (h : Placed s) (hactive : s.pc.active = true) (hpc : s.pc ≠ .loop) : Standing s := by
  rcases h.active hactive with hstanding | ⟨hloop, -⟩
  · exact hstanding
  · exact absurd hloop hpc

theorem Standing.writes (h : Standing s) (ws : List (ℕ × Write)) : Standing (s.writes ws) := by
  have hlen : (s.writes ws).total = s.total :=
    writes_induction (P := fun u => u.total = s.total) (Q := fun _ => True)
      (fun u index w hu _ => by
        have := congrArg List.length (skeleton_write u index w)
        simp only [skeleton, List.length_map] at this
        unfold St.total at hu ⊢
        omega)
      rfl (fun _ _ => trivial)
  have hstarted := started_writes ws h.started
  refine ⟨?_, ?_, ?_⟩
  · rw [hlen, writes_frame]
    exact h.step_lt
  · rw [writes_frame]
    exact h.current
  · rw [writes_frame] at hstarted ⊢
    exact hstarted

/-- A move of the thread between two places of its loop. -/
theorem Placed.of_standing (h : Placed s) (hactive : s.pc.active = true) (hpc : s'.pc.active = true)
    (hstart : s'.startPc = s.startPc) (hstanding : Standing s') : Placed s' := by
  refine ⟨fun hcreate => ?_, fun hidle => ?_, fun _ => Or.inl hstanding⟩
  · have := h.create (hstart ▸ hcreate)
    simp [this, Pc.active] at hactive
  · rcases hidle with hidle | hidle <;> simp [hidle, Pc.active] at hpc

theorem Placed.of_exited (h : Placed s) (hidle : s.pc ≠ .idle) (hpc : s'.pc = .exited)
    (hstart : s'.startPc = s.startPc) : Placed s' := by
  refine ⟨fun hcreate => absurd (h.create (hstart ▸ hcreate)) hidle, ?_, ?_⟩
  · rintro (hpc' | hpc') <;> simp [hpc] at hpc'
  · intro hactive
    simp [hpc, Pc.active] at hactive

theorem Placed.of_select (h : Placed s) (hs : Sound q s) (hactive : s.pc.active = true) {index : ℕ}
    {t : Step} (ht : s.steps[index]? = some t) : Placed (s.select index t) := by
  have hseq := hs.seq ht
  have htotal := hs.total
  refine ⟨fun hcreate => ?_, ?_, fun _ => ?_⟩
  · have := h.create hcreate
    simp [this, Pc.active] at hactive
  · rintro (hpc | hpc) <;> simp [St.select] at hpc
  · have hlt : index < s.total := by omega
    cases hstarted : s.started index with
    | true =>
        exact Or.inl ⟨hlt, hs.index_eq ht, hstarted⟩
    | false =>
        exact Or.inr ⟨rfl, hlt, hstarted⟩

theorem tickNextPc_active (index : ℕ) : (tickNextPc index).active = true := by
  cases index <;> rfl

theorem goto_active {pc : Pc} (h : Goto s pc) : s.pc.active = true ∧ pc.active = true := by
  refine ⟨?_, ?_⟩
  · cases h <;> simp_all [Pc.active]
  · cases h with
    | tickSkip index _ _ _ => exact tickNextPc_active index
    | tickGoesOn index _ _ _ _ => exact tickNextPc_active index
    | _ => rfl

/-- A jump keeps the place, and makes it a standing one where the step has been triggered. -/
theorem Placed.goto (h : Placed s) {pc : Pc} (hgoto : Goto s pc) : Placed (s.goto pc) := by
  obtain ⟨hactive, hactive'⟩ := goto_active hgoto
  suffices hstanding : Standing s from
    h.of_standing hactive hactive' rfl ⟨hstanding.step_lt, hstanding.current, hstanding.started⟩
  cases hgoto with
  | pass t hpc ht hstate =>
      rcases h.active hactive with hstanding | ⟨-, -, hstarted⟩
      · exact hstanding
      · have := started_iff.mpr ⟨t, ht, hstate⟩
        rw [hstarted] at this
        cases this
  | _ => exact h.standing hactive (by simp [*])

theorem Placed.move (h : Placed s) (hs : Sound q s) (hmove : Move T s s') : Placed s' := by
  cases hmove with
  | goto pc hgoto => exact h.goto hgoto
  | entryEmpty hpc _ => exact h.of_exited (by simp [hpc]) rfl rfl
  | entry hpc hne =>
      have hlen := List.length_pos_iff.mpr hne
      have hlt : s.total - 1 < s.total := by
        unfold St.total
        omega
      refine ⟨fun hcreate => ?_, ?_, fun _ => Or.inr ⟨rfl, hlt, ?_⟩⟩
      · have := h.create hcreate
        simp [this] at hpc
      · rintro (hpc' | hpc') <;> simp at hpc'
      · obtain ⟨t, ht⟩ := hs.exists_step (i := s.total - 1) (by have := hs.total; omega)
        have hstarted := hs.started_iff_trigger ht
        rw [h.fresh (Or.inr hpc)] at hstarted
        have hfalse : s.started (s.total - 1) = false := by simpa using hstarted
        exact hfalse
  | exitSet hpc _ => exact h.of_exited (by simp [hpc]) rfl rfl
  | trigger t hpc ht hstate =>
      have hseq := hs.seq ht
      have htotal := hs.total
      refine h.of_standing (by simp [hpc, Pc.active]) rfl rfl ⟨?_, ?_, ?_⟩
      · show s.step < (s.steps.modify _ _).length
        rw [List.length_modify]
        unfold St.total at htotal
        omega
      · show s.total - t.stepSeqNum - 1 = s.step
        omega
      · refine started_iff.mpr ⟨{ t with testState := .start }, ?_, by simp⟩
        simp [ht]
  | clear t hpc ht hstate =>
      have hst := h.standing (by simp [hpc, Pc.active]) (by simp [hpc])
      exact h.of_standing (by simp [hpc, Pc.active]) rfl rfl ⟨hst.step_lt, hst.current, hst.started⟩
  | waitFail t hpc _ _ => exact h.of_exited (by simp [hpc]) rfl rfl
  | skip coverage ctrl tag rest hpc _ _ =>
      have hst := h.standing (by simp [hpc, Pc.active]) (by simp [hpc])
      exact h.of_standing (by simp [hpc, Pc.active]) (by simp [hpc, Pc.active]) rfl
        ⟨hst.step_lt, hst.current, hst.started⟩
  | exec coverage tag rest t ws hpc _ ht _ =>
      have hst := h.standing (by simp [hpc, Pc.active]) (by simp [hpc])
      refine h.of_standing (by simp [hpc, Pc.active]) ?_ ?_
        (Standing.writes (s := { s with results := rest }.note _) ⟨hst.step_lt, hst.current, hst.started⟩ ws)
      · rw [writes_pc]
        simp [St.note, hpc, Pc.active]
      · rw [writes_frame]
        rfl
  | frame rest hpc _ =>
      have hst := h.standing (by simp [hpc, Pc.active]) (by simp [hpc])
      exact h.of_standing (by simp [hpc, Pc.active]) rfl rfl ⟨hst.step_lt, hst.current, hst.started⟩
  | filter mask seq index t ws pc hpc ht hstate hto =>
      have hst := h.standing (by simp [hpc, Pc.active]) (by simp [hpc])
      have hst' := Standing.writes (s := s.note (.filter t.stepSeqNum))
        ⟨hst.step_lt, hst.current, hst.started⟩ (ws.map fun w => (index, w))
      refine h.of_standing (by simp [hpc, Pc.active]) ?_ ?_ ⟨hst'.step_lt, hst'.current, hst'.started⟩
      · rcases hto with rfl | rfl | rfl <;> rfl
      · simp only [St.goto]
        rw [writes_frame]
        rfl
  | timeout index t ws hpc ht hstate =>
      have hst := h.standing (by simp [hpc, Pc.active]) (by simp [hpc])
      have hst' := Standing.writes (s := s.note (.timeout t.stepSeqNum))
        ⟨hst.step_lt, hst.current, hst.started⟩ (ws.map fun w => (index, w))
      refine h.of_standing (by simp [hpc, Pc.active]) rfl ?_ ⟨hst'.step_lt, hst'.current, hst'.started⟩
      simp only [St.goto]
      rw [writes_frame]
      rfl
  | tickFail index t hpc _ _ => exact h.of_exited (by simp [hpc]) rfl rfl
  | tickClear index t hpc _ _ =>
      have hst := h.standing (by simp [hpc, Pc.active]) (by simp [hpc])
      exact h.of_standing (by simp [hpc, Pc.active]) (tickNextPc_active index) rfl
        ⟨hst.step_lt, hst.current, hst.started⟩
  | noCurrent hpc _ => exact h.of_exited (by simp [hpc]) rfl rfl
  | finish hpc _ => exact h.of_exited (by rcases hpc with hpc | ⟨_, hpc⟩ <;> simp [hpc]) rfl rfl
  | finishNull cur hpc _ _ => exact h.of_exited (by simp [hpc]) rfl rfl
  | select cur t index hpc _ _ _ ht => exact h.of_select hs (by simp [hpc, Pc.active]) ht
  | found index t hpc ht _ => exact h.of_select hs (by simp [hpc, Pc.active]) ht

end Placed

section Runs

/-- **The shared invariant**. -/
structure Basic (q : StepQueue) (s : St) : Prop where
  sound : Sound q s
  placed : Placed s

variable {T : Target} {q : StepQueue} {s s' : St}

/-- Where a callback runs, its step has been triggered. -/
theorem Basic.trigger_mem (h : Basic q s) {i : ℕ} {t : Step} (ht : s.steps[i]? = some t)
    (hstate : t.testState ≠ .request) : .trigger t.stepSeqNum ∈ s.log :=
  (h.sound.started_iff_trigger ht).mp (started_iff.mpr ⟨t, ht, hstate⟩)

theorem Basic.current_started (h : Basic q s) (hactive : s.pc.active = true) (hpc : s.pc ≠ .loop) :
    s.started s.currentTestStep = true := by
  have hst := h.placed.standing hactive hpc
  rw [hst.current]
  exact hst.started

theorem Basic.current_ne_none (h : Basic q s) (hactive : s.pc.active = true) (hpc : s.pc ≠ .loop) :
    s.steps[s.currentTestStep]? ≠ none := by
  obtain ⟨t, ht, -⟩ := started_iff.mp (h.current_started hactive hpc)
  simp [ht]

/-- A callback that the thread calls on a step, with the states that it writes. -/
theorem Basic.sound_callback (h : Basic q s) {e : Event} (he : ∀ seq, e ≠ .trigger seq)
    (htrigger : .trigger e.seq ∈ s.log) {ws : List (ℕ × Write)}
    (hstarted : ∀ w ∈ ws, s.started w.1 = true) : Sound q ((s.note e).writes ws) :=
  (h.sound.note he htrigger).writes hstarted

theorem Basic.sound_move (h : Basic q s) (hmove : Move T s s') : Sound q s' := by
  have hs := h.sound
  cases hmove with
  | trigger t hpc ht hstate => exact hs.trigger ht rfl rfl
  | clear t hpc ht hstate =>
      exact (hs.note (e := .processed t.stepSeqNum) (by simp) (h.trigger_mem ht (by simp [hstate]))).congr
        rfl rfl
  | exec coverage tag rest t ws hpc hres ht hws =>
      have hcur := h.current_started (by simp [hpc, Pc.active]) (by simp [hpc])
      have hs' : Sound q { s with results := rest } := hs.congr rfl rfl
      refine (hs'.note (e := .exec tag t.stepSeqNum) (by simp)
        ((hs.started_iff_trigger ht).mp hcur)).writes fun w hw => ?_
      rcases hws w hw with hstarted | heq
      · exact hstarted
      · rw [heq]
        exact hcur
  | filter mask seq index t ws pc hpc ht hstate hto =>
      have hne : t.testState ≠ .request := by rcases hstate with h | h <;> simp [h]
      refine (h.sound_callback (e := .filter t.stepSeqNum) (by simp) (h.trigger_mem ht hne)
        fun w hw => ?_).congr rfl rfl
      obtain ⟨w', -, rfl⟩ := List.mem_map.mp hw
      exact started_iff.mpr ⟨t, ht, hne⟩
  | timeout index t ws hpc ht hstate =>
      have hne : t.testState ≠ .request := by rcases hstate with h | h <;> simp [h]
      refine (h.sound_callback (e := .timeout t.stepSeqNum) (by simp) (h.trigger_mem ht hne)
        fun w hw => ?_).congr rfl rfl
      obtain ⟨w', -, rfl⟩ := List.mem_map.mp hw
      exact started_iff.mpr ⟨t, ht, hne⟩
  | tickClear index t hpc ht hstate =>
      exact (hs.note (e := .processed t.stepSeqNum) (by simp) (h.trigger_mem ht (by simp [hstate]))).congr
        rfl rfl
  | noCurrent hpc hcur =>
      exact absurd hcur (h.current_ne_none (by simp [hpc, Pc.active]) (by simp [hpc]))
  | _ => exact hs.congr rfl rfl

theorem Basic.move (h : Basic q s) (hmove : Move T s s') : Basic q s' :=
  ⟨h.sound_move hmove, h.placed.move h.sound hmove⟩

/-- A move of the environment that leaves the steps and the thread alone. -/
theorem Basic.of_frame (h : Basic q s) (hsteps : s'.steps = s.steps) (hlog : s'.log = s.log)
    (hstep : s'.step = s.step) (hcur : s'.currentTestStep = s.currentTestStep) (hpc : s'.pc = s.pc)
    (hcreate : s'.startPc = .create → s.startPc = .create) : Basic q s' := by
  have hstarted : ∀ i, s'.started i = s.started i := by
    intro i
    unfold St.started
    rw [hsteps]
  refine ⟨h.sound.congr hsteps hlog, fun hs => ?_, fun hs => ?_, fun hs => ?_⟩
  · rw [hpc]
    exact h.placed.create (hcreate hs)
  · rw [hpc] at hs
    rw [hlog]
    exact h.placed.fresh hs
  · rw [hpc] at hs ⊢
    unfold St.total
    rw [hstep, hsteps, hstarted]
    rcases h.placed.active hs with hst | hst
    · refine Or.inl ⟨?_, ?_, ?_⟩
      · unfold St.total
        rw [hstep, hsteps]
        exact hst.step_lt
      · rw [hcur, hstep]
        exact hst.current
      · rw [hstep, hstarted]
        exact hst.started
    · exact Or.inr hst

/-- An executed step has been triggered. -/
theorem Basic.executed_started (h : Basic q s) {index : ℕ} (hexec : s.executed index = true) :
    s.started index = true ∧ s.log ≠ [] := by
  unfold St.executed at hexec
  cases ht : s.steps[index]? with
  | none =>
      simp [ht] at hexec
  | some t =>
      simp only [ht, List.any_eq_true] at hexec
      obtain ⟨e, he, hseq⟩ := hexec
      cases e with
      | exec tag seq =>
          have htrigger := h.sound.triggered _ he
          simp only [Event.seq, decide_eq_true_eq] at hseq htrigger
          rw [hseq] at htrigger
          exact ⟨(h.sound.started_iff_trigger ht).mpr htrigger, List.ne_nil_of_mem he⟩
      | _ => simp at hseq

theorem Basic.env {a : Action} (h : Basic q s) (henv : Env s a s') : Basic q s' := by
  cases henv with
  | created hstart =>
      refine ⟨h.sound.congr rfl rfl, by simp, fun _ => h.placed.fresh (Or.inl (h.placed.create hstart)), ?_⟩
      intro hactive
      simp [Pc.active] at hactive
  | wrote index w hexec =>
      obtain ⟨hstarted, hlog⟩ := h.executed_started hexec
      refine ⟨h.sound.write hstarted, ?_, ?_, ?_⟩
      all_goals rw [show s.write index w = s.writes [(index, w)] from rfl]
      · rw [writes_frame]
        exact h.placed.create
      · rw [writes_pc]
        exact fun hpc => absurd (h.placed.fresh hpc) hlog
      · rw [writes_pc]
        intro hactive
        rcases h.placed.active hactive with hst | ⟨hloop, hlt, hst⟩
        · exact Or.inl (hst.writes _)
        · have hne : index ≠ s.step := by
            rintro rfl
            rw [hst] at hstarted
            cases hstarted
          have htotal : (s.write index w).total = s.total :=
            ((h.sound.write hstarted).total).trans h.sound.total.symm
          have hst' : (s.write index w).started s.step = false := by
            unfold St.started
            rw [getElem?_write_ne hne]
            exact hst
          have hwrite : s.write index w = s.writes [(index, w)] := rfl
          rw [hwrite, writes_frame] at htotal hst'
          rw [writes_frame]
          exact Or.inr ⟨hloop, by rw [htotal]; exact hlt, hst'⟩
  | notCreated _ => exact h.of_frame rfl rfl rfl rfl rfl (by simp)
  | subscribed _ => exact h.of_frame rfl rfl rfl rfl rfl (by simp)
  | joined _ _ => exact h.of_frame rfl rfl rfl rfl rfl (by simp)
  | _ => exact h.of_frame rfl rfl rfl rfl rfl id

theorem basic_next {a : Action} (h : Basic q s) (hnext : next T s a = some s') : Basic q s' := by
  rcases next_cases hnext with henv | ⟨c, -, hmove⟩
  · exact h.env henv
  · exact h.move hmove

theorem basic_init (coverage : Coverage) (pendingSteps : BitVec 32) :
    Basic q (init q coverage pendingSteps) := by
  refine ⟨sound_init coverage pendingSteps, fun _ => rfl, fun _ => rfl, ?_⟩
  intro hactive
  simp [init, Pc.active] at hactive

/-- **The run lemma** of the shared invariant. -/
theorem basic_of_run {C : St → Action → Prop} {coverage : Coverage} {pendingSteps : BitVec 32}
    (h : Run (next T) C (init q coverage pendingSteps) s) : Basic q s :=
  run_invariant (fun _ _ _ hI _ hnext => basic_next hI hnext) h (basic_init coverage pendingSteps)

end Runs

end OneWifiTestSuite.Scheduler
