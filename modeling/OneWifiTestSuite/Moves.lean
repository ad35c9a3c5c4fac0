import OneWifiTestSuite.Scheduler

/-!
# What a move of the test thread can do

`Move` lists once everything that one move of the thread can do, with its guards, so that the
invariants of the thread are derived from this list and not from the code of each `Pc`.
`move_of_threadStep` is the inversion lemma that ties it to the model. The moves that only change
the program counter are `Goto`. `Env` does the same for the moves of the environment, and
`next_cases` is the inversion lemma of `next`.
-/

namespace OneWifiTestSuite.Scheduler

open Runs Steps

section Moves

/-- The place in the timeout loop after the step at an index. -/
def tickNextPc : ℕ → Pc
  | 0 => .after
  | index + 1 => .tick index .waiting

theorem tickNext_eq (s : St) (index : ℕ) : tickNext s index = s.goto (tickNextPc index) := by
  cases index <;> rfl

/-- The moves of the thread that only change the program counter. -/
inductive Goto (s : St) : Pc → Prop
  | pass (t : Step) : s.pc = .loop → s.steps[s.step]? = some t → t.testState ≠ .request → Goto s .wait
  | drain (t : Step) : s.pc = .wait → s.steps[s.step]? = some t →
      t.testState = .start ∨ t.testState = .wait ∨ t.testState = .cont → Goto s .drain
  | timedOut : s.pc = .wait → Goto s (.tick (s.total - 1) .waiting)
  | drained : s.pc = .drain → s.results = [] → Goto s .loop
  | walked (mask : BitVec 32) (seq : ℕ) : s.pc = .walk mask seq → Goto s .drain
  | walkOn (mask : BitVec 32) (seq : ℕ) : s.pc = .walk mask seq → Goto s (.walk (mask >>> 1) (seq + 1))
  | tickSkip (index : ℕ) (check : Check) : s.pc = .tick index check → s.steps[index]? = none →
      Goto s (tickNextPc index)
  | tickWaited (index : ℕ) : s.pc = .tick index .waiting → Goto s (.tick index .aborted)
  | tickAlive (index : ℕ) : s.pc = .tick index .aborted → Goto s (.tick index .finished)
  | tickGoesOn (index : ℕ) (t : Step) : s.pc = .tick index .finished → s.steps[index]? = some t →
      t.testState ≠ .results → Goto s (tickNextPc index)
  | leave (t : Step) : s.pc = .after → s.steps[s.step]? = some t →
      t.testState = .results ∨ t.fork = true ∧ t.testState ≠ .cont → Goto s .next
  | stay : s.pc = .after → Goto s .loop
  | scan (cur : Step) : s.pc = .next → s.steps[s.currentTestStep]? = some cur → cur.fork = true →
      s.pendingSteps ≠ 0 → Goto s (.scan (s.total - cur.stepSeqNum - 1))
  | scanOn (index : ℕ) (t : Step) : s.pc = .scan index → s.steps[prevIndex s index]? = some t →
      t.testState = .results → s.pendingSteps ≠ 0 → Goto s (.scan (prevIndex s index))

/-- Everything a move of the thread can do. -/
inductive Move (T : Target) (s : St) : St → Prop
  | goto (pc : Pc) : Goto s pc → Move T s (s.goto pc)
  | entryEmpty : s.pc = .entry → s.steps = [] →
      Move T s { s with pendingSteps := T.ones s.total, pc := .exited }
  | entry : s.pc = .entry → s.steps ≠ [] →
      Move T s { s with pendingSteps := T.ones s.total, step := s.total - 1, pc := .loop }
  | exitSet : s.pc = .loop → s.exit = true → Move T s (s.goto .exited)
  | trigger (t : Step) : s.pc = .loop → s.steps[s.step]? = some t → t.testState = .request →
      Move T s { s with
        currentTestStep := s.total - t.stepSeqNum - 1
        chan := s.chan ++ [.emu80211 s.coverage .tstart (some t.stepSeqNum)]
        log := .trigger t.stepSeqNum :: s.log
        steps := s.steps.modify s.step fun t => { t with testState := .start }
        pc := .wait }
  | clear (t : Step) : s.pc = .wait → s.steps[s.step]? = some t → t.testState = .results →
      Move T s (((s.clearPendingStep T t.stepSeqNum).note (.processed t.stepSeqNum)).goto .next)
  | waitFail (t : Step) : s.pc = .wait → s.steps[s.step]? = some t →
      t.testState = .none ∨ t.testState = .request ∨ t.testState = .abort → Move T s s.fail
  | skip (coverage : Coverage) (ctrl : Ctrl) (tag : Option ℕ) (rest : List Msg) : s.pc = .drain →
      s.results = .emu80211 coverage ctrl tag :: rest → coverage = .max ∨ ctrl = .tstop →
      Move T s { s with results := rest }
  | exec (coverage : Coverage) (tag : Option ℕ) (rest : List Msg) (t : Step) (ws : List (ℕ × Write)) :
      s.pc = .drain → s.results = .emu80211 coverage .tstart tag :: rest →
      s.steps[s.currentTestStep]? = some t →
      (∀ w ∈ ws, s.started w.1 = true ∨ w.1 = s.currentTestStep) →
      Move T s (({ s with results := rest }.note (.exec tag t.stepSeqNum)).writes ws)
  | frame (rest : List Msg) : s.pc = .drain → s.results = .frame :: rest →
      Move T s { s with results := rest, pc := .walk s.pendingSteps 0 }
  | filter (mask : BitVec 32) (seq index : ℕ) (t : Step) (ws : List Write) (pc : Pc) :
      s.pc = .walk mask seq → s.steps[index]? = some t → t.testState = .cont ∨ t.testState = .wait →
      pc = .walk (mask >>> 1) (seq + 1) ∨ pc = .drain ∨ pc = .walk mask seq →
      Move T s (((s.note (.filter t.stepSeqNum)).writes (ws.map fun w => (index, w))).goto pc)
  | timeout (index : ℕ) (t : Step) (ws : List Write) : s.pc = .tick index .waiting →
      s.steps[index]? = some t → t.testState = .wait ∨ t.testState = .cont →
      Move T s (((s.note (.timeout t.stepSeqNum)).writes (ws.map fun w => (index, w))).goto
        (.tick index .aborted))
  | tickFail (index : ℕ) (t : Step) : s.pc = .tick index .aborted → s.steps[index]? = some t →
      t.testState = .abort → Move T s s.fail
  | tickClear (index : ℕ) (t : Step) : s.pc = .tick index .finished → s.steps[index]? = some t →
      t.testState = .results →
      Move T s (((s.clearPendingStep T t.stepSeqNum).note (.processed t.stepSeqNum)).goto
        (tickNextPc index))
  | noCurrent : s.pc = .next → s.steps[s.currentTestStep]? = none →
      Move T s { s.setState s.step .abort with testState := .abort, pc := .exited }
  | finish : s.pc = .next ∨ (∃ index, s.pc = .scan index) → s.pendingSteps = 0 → Move T s s.finish
  | finishNull (cur : Step) : s.pc = .next → s.steps[s.currentTestStep]? = some cur →
      s.steps[prevIndex s (s.total - cur.stepSeqNum - 1)]? = none → Move T s s.finish
  | select (cur t : Step) (index : ℕ) : s.pc = .next → s.steps[s.currentTestStep]? = some cur →
      cur.fork = false → index = prevIndex s (s.total - cur.stepSeqNum - 1) →
      s.steps[index]? = some t → Move T s (s.select index t)
  | found (index : ℕ) (t : Step) : s.pc = .scan index → s.steps[prevIndex s index]? = some t →
      t.testState ≠ .results → Move T s (s.select (prevIndex s index) t)

end Moves

section Inversion

variable {T : Target} {s s' : St} {c : Choice}

theorem writes_concat (s : St) (ws : List (ℕ × Write)) (index : ℕ) (w : Write) :
    (s.writes ws).write index w = s.writes (ws ++ [(index, w)]) := by
  simp [St.writes]

/-- Writes to step states change the states and the log only. -/
theorem writes_frame (s : St) (ws : List (ℕ × Write)) :
    s.writes ws = { s with steps := (s.writes ws).steps, log := (s.writes ws).log } := by
  induction ws generalizing s with
  | nil =>
      rfl
  | cons w ws ih =>
      have hwrite : s.write w.1 w.2 =
          { s with steps := (s.write w.1 w.2).steps, log := (s.write w.1 w.2).log } := by
        unfold St.write
        cases s.steps[w.1]? <;> rfl
      have hcons : s.writes (w :: ws) = (s.write w.1 w.2).writes ws := rfl
      rw [hcons, ih, hwrite]

@[simp]
theorem writes_currentTestStep (s : St) (ws : List (ℕ × Write)) :
    (s.writes ws).currentTestStep = s.currentTestStep := by
  rw [writes_frame]

@[simp]
theorem writes_pc (s : St) (ws : List (ℕ × Write)) : (s.writes ws).pc = s.pc := by
  rw [writes_frame]

theorem goto_self {s : St} {pc : Pc} (h : s.pc = pc) : s.goto pc = s := by
  subst h
  rfl

theorem move_of_entryStep (hpc : s.pc = .entry) (h : entryStep T s = some s') : Move T s s' := by
  unfold entryStep at h
  cases hstep : s.steps[s.total - 1]? with
  | none =>
      simp only [hstep, Option.some.injEq] at h
      subst h
      refine .entryEmpty hpc ?_
      rw [List.getElem?_eq_none_iff] at hstep
      exact List.length_eq_zero_iff.mp (by unfold St.total at hstep; omega)
  | some t =>
      simp only [hstep, Option.some.injEq] at h
      subst h
      exact .entry hpc (by rintro hnil; simp [hnil] at hstep)

theorem move_of_loopStep (hpc : s.pc = .loop) (h : loopStep s = some s') : Move T s s' := by
  unfold loopStep at h
  by_cases hexit : s.exit = true
  · rw [if_pos hexit, Option.some.injEq] at h
    subst h
    exact .exitSet hpc hexit
  rw [if_neg hexit] at h
  cases hstep : s.steps[s.step]? with
  | none =>
      simp [hstep] at h
  | some t =>
      simp only [hstep] at h
      by_cases hreq : t.testState = .request
      · rw [if_pos hreq, Option.some.injEq] at h
        subst h
        exact .trigger t hpc hstep hreq
      · rw [if_neg hreq, Option.some.injEq] at h
        subst h
        exact .goto _ (.pass t hpc hstep hreq)

theorem move_of_waitStep (hpc : s.pc = .wait) (h : waitStep T s c = some s') : Move T s s' := by
  unfold waitStep at h
  split_ifs at h with htime
  · cases hstep : s.steps[s.step]? with
    | none =>
        simp [hstep] at h
    | some t =>
        simp only [hstep] at h
        cases hstate : t.testState <;> simp only [hstate, Option.some.injEq] at h <;> subst h
        case none => exact .waitFail t hpc hstep (by simp [hstate])
        case request => exact .waitFail t hpc hstep (by simp [hstate])
        case abort => exact .waitFail t hpc hstep (by simp [hstate])
        case results => exact .clear t hpc hstep hstate
        all_goals exact .goto _ (.drain t hpc hstep (by simp [hstate]))
  · cases h
    exact .goto _ (.timedOut hpc)

theorem move_of_drainStep (hpc : s.pc = .drain) (h : drainStep s c = some s') : Move T s s' := by
  unfold drainStep at h
  cases hres : s.results with
  | nil =>
      simp only [hres, Option.some.injEq] at h
      subst h
      exact .goto _ (.drained hpc hres)
  | cons m rest =>
      cases m with
      | frame =>
          simp only [hres, Option.some.injEq] at h
          subst h
          exact .frame rest hpc hres
      | emu80211 coverage ctrl tag =>
          simp only [hres, handleEmu80211] at h
          by_cases hmax : coverage = .max
          · rw [if_pos hmax, Option.some.injEq] at h
            subst h
            exact .skip coverage ctrl tag rest hpc hres (Or.inl hmax)
          rw [if_neg hmax] at h
          cases hcur : s.steps[s.currentTestStep]? with
          | none =>
              simp [hcur] at h
          | some t =>
              cases ctrl with
              | tstop =>
                  simp only [hcur, Option.some.injEq] at h
                  subst h
                  exact .skip coverage _ tag rest hpc hres (Or.inr rfl)
              | tstart =>
                  simp only [hcur] at h
                  split_ifs at h with hall hok
                  · cases h
                    refine .exec coverage tag rest t c.execWrites hpc hres hcur fun w hw => Or.inl ?_
                    exact List.all_eq_true.mp hall w hw
                  · cases h
                    rw [writes_concat]
                    refine .exec coverage tag rest t _ hpc hres hcur fun w hw => ?_
                    rcases List.mem_append.mp hw with hw | hw
                    · exact Or.inl (List.all_eq_true.mp hall w hw)
                    · rw [List.mem_singleton.mp hw]
                      exact Or.inr (by simp [St.note])

theorem move_of_walkStep {mask : BitVec 32} {seq : ℕ} (hpc : s.pc = .walk mask seq)
    (h : walkStep s mask seq c = some s') : Move T s s' := by
  unfold walkStep at h
  split_ifs at h
  · cases h
    exact .goto _ (.walked mask seq hpc)
  · cases h
    exact .goto _ (.walkOn mask seq hpc)
  · cases h
    exact .goto _ (.walked mask seq hpc)
  · cases hstep : s.steps[s.total - seq - 1]? with
    | none =>
        simp only [hstep, Option.some.injEq] at h
        subst h
        exact .goto _ (.walked mask seq hpc)
    | some t =>
        simp only [hstep] at h
        split_ifs at h with hstate
        · cases hret : c.filterRet <;> simp only [hret, Option.some.injEq] at h <;> subst h
          case handled => exact .filter mask seq _ t c.writes _ hpc hstep hstate (Or.inr (Or.inl rfl))
          case unhandled => exact .filter mask seq _ t c.writes _ hpc hstep hstate (Or.inl rfl)
          case other =>
            have hmove := Move.filter (T := T) mask seq _ t c.writes (.walk mask seq) hpc hstep hstate
              (Or.inr (Or.inr rfl))
            rwa [goto_self (by simpa [St.note] using hpc)] at hmove
        · cases h
          exact .goto _ (.walkOn mask seq hpc)

theorem move_of_tickStep {index : ℕ} {check : Check} (hpc : s.pc = .tick index check)
    (h : tickStep T s index check c = some s') : Move T s s' := by
  unfold tickStep at h
  cases hstep : s.steps[index]? with
  | none =>
      simp only [hstep, Option.some.injEq, tickNext_eq] at h
      subst h
      exact .goto _ (.tickSkip index check hpc hstep)
  | some t =>
      simp only [hstep, tickNext_eq] at h
      cases check with
      | waiting =>
          simp only at h
          split_ifs at h with hstate
          · cases h
            exact .timeout index t c.writes hpc hstep hstate
          · cases h
            exact .goto _ (.tickWaited index hpc)
      | aborted =>
          simp only at h
          split_ifs at h with hstate
          · cases h
            exact .tickFail index t hpc hstep hstate
          · cases h
            exact .goto _ (.tickAlive index hpc)
      | finished =>
          simp only at h
          split_ifs at h with hstate
          · cases h
            exact .tickClear index t hpc hstep hstate
          · cases h
            exact .goto _ (.tickGoesOn index t hpc hstep hstate)

theorem move_of_afterStep (hpc : s.pc = .after) (h : afterStep s = some s') : Move T s s' := by
  unfold afterStep at h
  cases hstep : s.steps[s.step]? with
  | none =>
      simp [hstep] at h
  | some t =>
      simp only [hstep] at h
      split_ifs at h with hleave
      · cases h
        exact .goto _ (.leave t hpc hstep hleave)
      · cases h
        exact .goto _ (.stay hpc)

theorem move_of_nextStep (hpc : s.pc = .next) (h : nextStep s = some s') : Move T s s' := by
  unfold nextStep at h
  cases hcur : s.steps[s.currentTestStep]? with
  | none =>
      simp only [hcur, Option.some.injEq] at h
      subst h
      exact .noCurrent hpc hcur
  | some cur =>
      simp only [hcur] at h
      by_cases hzero : s.pendingSteps = 0
      · rw [if_pos hzero, Option.some.injEq] at h
        subst h
        exact .finish (Or.inl hpc) hzero
      rw [if_neg hzero] at h
      cases hfork : cur.fork with
      | false =>
          rw [hfork, if_pos rfl] at h
          cases hprev : s.steps[prevIndex s (s.total - cur.stepSeqNum - 1)]? with
          | none =>
              simp only [hprev, Option.some.injEq] at h
              subst h
              exact .finishNull cur hpc hcur hprev
          | some t =>
              simp only [hprev, Option.some.injEq] at h
              subst h
              exact .select cur t _ hpc hcur hfork rfl hprev
      | true =>
          rw [hfork, if_neg (by simp), Option.some.injEq] at h
          subst h
          exact .goto _ (.scan cur hpc hcur hfork hzero)

theorem move_of_scanStep {index : ℕ} (hpc : s.pc = .scan index) (h : scanStep s index = some s') :
    Move T s s' := by
  unfold scanStep at h
  cases hprev : s.steps[prevIndex s index]? with
  | none =>
      simp [hprev] at h
  | some t =>
      simp only [hprev] at h
      split_ifs at h with hres hzero
      · cases h
        exact .found index t hpc hprev hres
      · cases h
        exact .finish (Or.inr ⟨index, hpc⟩) hzero
      · cases h
        exact .goto _ (.scanOn index t hpc hprev (not_not.mp hres) hzero)

/-- **The inversion lemma** of the test thread. -/
theorem move_of_threadStep (h : threadStep T s c = some s') : Move T s s' := by
  unfold threadStep at h
  cases hpc : s.pc with
  | idle => simp [hpc] at h
  | entry => exact move_of_entryStep hpc (by simpa only [hpc] using h)
  | loop => exact move_of_loopStep hpc (by simpa only [hpc] using h)
  | wait => exact move_of_waitStep hpc (by simpa only [hpc] using h)
  | drain => exact move_of_drainStep hpc (by simpa only [hpc] using h)
  | walk mask seq => exact move_of_walkStep hpc (by simpa only [hpc] using h)
  | tick index check => exact move_of_tickStep hpc (by simpa only [hpc] using h)
  | after => exact move_of_afterStep hpc (by simpa only [hpc] using h)
  | next => exact move_of_nextStep hpc (by simpa only [hpc] using h)
  | scan index => exact move_of_scanStep hpc (by simpa only [hpc] using h)
  | exited => simp [hpc] at h

end Inversion

section Environment

/-- Everything the environment of the thread can do. -/
inductive Env (s : St) : Action → St → Prop
  | created : s.startPc = .create → Env s (.create true) { s with startPc := .subscribe, pc := .entry }
  | notCreated : s.startPc = .create → Env s (.create false) { s with startPc := .returned }
  | subscribed : s.startPc = .subscribe →
      Env s .subscribe { s with startPc := .join, subs := s.subs + 1 }
  | joined : s.startPc = .join → s.pc = .exited → Env s .join { s with startPc := .returned }
  | delivered (m : Msg) (chan : List Msg) : s.chan = m :: chan →
      Env s .deliver ({ s with chan := chan }.queueMsg m)
  | injected (m : Msg) : Env s (.inject m) (s.queueMsg m)
  | wrote (index : ℕ) (w : Write) : s.executed index = true → Env s (.async index w) (s.write index w)

theorem next_cases {T : Target} {s s' : St} {a : Action} (h : next T s a = some s') :
    Env s a s' ∨ ∃ c, a = .thread c ∧ Move T s s' := by
  cases a with
  | create ok =>
      simp only [next] at h
      split_ifs at h with hpc hok
      · subst hok
        cases h
        exact Or.inl (.created hpc)
      · rw [Bool.not_eq_true] at hok
        subst hok
        cases h
        exact Or.inl (.notCreated hpc)
  | subscribe =>
      simp only [next] at h
      split_ifs at h with hpc
      cases h
      exact Or.inl (.subscribed hpc)
  | join =>
      simp only [next] at h
      split_ifs at h with hpc
      cases h
      exact Or.inl (.joined hpc.1 hpc.2)
  | deliver =>
      cases hchan : s.chan with
      | nil =>
          simp [next, hchan] at h
      | cons m chan =>
          simp only [next, hchan, Option.some.injEq] at h
          subst h
          exact Or.inl (.delivered m chan hchan)
  | inject m =>
      cases h
      exact Or.inl (.injected m)
  | async index w =>
      simp only [next] at h
      split_ifs at h with hexec
      cases h
      exact Or.inl (.wrote index w hexec)
  | thread c =>
      exact Or.inr ⟨c, rfl, move_of_threadStep h⟩

end Environment

end OneWifiTestSuite.Scheduler
