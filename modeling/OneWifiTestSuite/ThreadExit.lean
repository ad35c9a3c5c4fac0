import OneWifiTestSuite.Barrier

/-!
# How the test thread ends

`start` creates the thread before it subscribes the test, so the thread may run for a while with no
subscription. `Early` says what it can do then: nothing has been executed, every step is in
`request` or `start`, and the mask is the initial one. So the thread can end before `subscribe`
only when the mask is 0 from the start and its first step is forked (a forked step is left at the
first timeout). A thread that ends so early leaves its test in the subscriber list, and a thread
with no step ends without a signal.

`reports_iff` says that these are the only two ways to miss the signal or the unsubscription.
-/

namespace OneWifiTestSuite.Scheduler

open Runs Steps

/-- Every exit of the thread signals exactly once, and the test is not subscribed when `start`
returns. -/
structure Reports (T : Target) (q : StepQueue) : Prop where
  signal : ∀ (coverage : Coverage) (pendingSteps : BitVec 32) (s : St),
    Run (next T) (fun _ _ => True) (init q coverage pendingSteps) s → s.pc = .exited → s.sigs.length = 1
  unsubscribed : ∀ (coverage : Coverage) (pendingSteps : BitVec 32) (s : St),
    Run (next T) (fun _ _ => True) (init q coverage pendingSteps) s → s.startPc = .returned → s.subs = 0

/-- The thread has a step, and does not find the mask 0 before its first step is executed. -/
def Lasts (T : Target) (q : StepQueue) : Prop :=
  q.steps ≠ [] ∧ (T.ones q.total ≠ 0 ∨ Nonforked q 0)

/-- What holds before `subscribe`. -/
structure Early (T : Target) (q : StepQueue) (s : St) : Prop where
  results : s.results = []
  states : ∀ (i : ℕ) (t : Step), s.steps[i]? = some t → t.testState = .request ∨ t.testState = .start
  noExec : ∀ tag seq, .exec tag seq ∉ s.log
  pending : s.pc.active = true → s.pendingSteps = T.ones q.total
  held : T.ones q.total ≠ 0 ∨
    (s.pc.active = true → s.step + 1 = q.total ∧ s.pc ≠ .next ∧ ∀ index, s.pc ≠ .scan index)

/-- The signals and the subscription. -/
structure Exits (T : Target) (q : StepQueue) (s : St) : Prop where
  quiet : s.pc ≠ .exited → s.exit = false ∧ s.sigs = []
  signal : s.pc = .exited → s.sigs.length = 1
  subs : s.subs = if s.startPc = .join ∧ s.pc ≠ .exited then 1 else 0
  early : s.startPc = .create ∨ s.startPc = .subscribe → s.pc ≠ .exited ∧ Early T q s
  returned : s.startPc = .returned → s.pc = .exited ∨ s.pc = .idle

section Moves

variable {T : Target} {q : StepQueue} {s s' : St}

theorem Move.started_pc (hmove : Move T s s') : s.pc ≠ .idle ∧ s.pc ≠ .exited := by
  cases hmove with
  | goto pc hgoto =>
      have hne := Pc.ne_of_active (goto_active hgoto).1
      exact ⟨hne.1, hne.2.2⟩
  | finish hpc _ => rcases hpc with hpc | ⟨_, hpc⟩ <;> simp [hpc]
  | _ => simp_all

/-- A move of a thread that has a step either stays in the loop or ends the thread with one signal
and one `unsubscribe`. -/
theorem Move.exit_cases (hb : Basic q s) (hne : q.steps ≠ []) (hexit : s.exit = false)
    (hmove : Move T s s') :
    s'.startPc = s.startPc ∧
      (s'.pc ≠ .exited ∧ s'.exit = s.exit ∧ s'.sigs = s.sigs ∧ s'.subs = s.subs ∨
        s'.pc = .exited ∧ (∃ sig, s'.sigs = sig :: s.sigs) ∧ s'.subs = s.subs - 1) := by
  cases hmove with
  | goto pc hgoto =>
      exact ⟨rfl, Or.inl ⟨(Pc.ne_of_active (goto_active hgoto).2).2.2, rfl, rfl, rfl⟩⟩
  | entryEmpty _ hnil => exact absurd hnil (hb.sound.steps_ne_nil hne)
  | exitSet _ hset =>
      rw [hexit] at hset
      cases hset
  | waitFail t _ _ _ => exact ⟨rfl, Or.inr ⟨rfl, ⟨_, rfl⟩, rfl⟩⟩
  | tickFail index t _ _ _ => exact ⟨rfl, Or.inr ⟨rfl, ⟨_, rfl⟩, rfl⟩⟩
  | finish _ _ => exact ⟨rfl, Or.inr ⟨rfl, ⟨_, rfl⟩, rfl⟩⟩
  | finishNull _ _ _ _ => exact ⟨rfl, Or.inr ⟨rfl, ⟨_, rfl⟩, rfl⟩⟩
  | noCurrent hpc hcur =>
      exact absurd hcur (hb.current_ne_none (by simp [hpc, Pc.active]) (by simp [hpc]))
  | exec coverage tag rest t ws hpc _ _ _ =>
      rw [writes_frame]
      exact ⟨rfl, Or.inl ⟨by simp [St.note, hpc], rfl, rfl, rfl⟩⟩
  | filter mask seq index t ws pc _ _ _ hto =>
      rw [writes_frame]
      exact ⟨rfl, Or.inl ⟨by rcases hto with rfl | rfl | rfl <;> simp [St.goto], rfl, rfl, rfl⟩⟩
  | timeout index t ws _ _ _ =>
      rw [writes_frame]
      exact ⟨rfl, Or.inl ⟨by simp [St.goto], rfl, rfl, rfl⟩⟩
  | tickClear index t _ _ _ =>
      exact ⟨rfl, Or.inl ⟨(Pc.ne_of_active (tickNextPc_active index)).2.2, rfl, rfl, rfl⟩⟩
  | skip coverage ctrl tag rest hpc _ _ => exact ⟨rfl, Or.inl ⟨by simp [hpc], rfl, rfl, rfl⟩⟩
  | _ => exact ⟨rfl, Or.inl ⟨by simp [St.goto, St.select], rfl, rfl, rfl⟩⟩

end Moves

section Early

variable {T : Target} {q : StepQueue} {s s' : St}

theorem Early.state (h : Early T q s) {i : ℕ} {t : Step} (ht : s.steps[i]? = some t) :
    t.testState ≠ .none ∧ t.testState ≠ .wait ∧ t.testState ≠ .results ∧ t.testState ≠ .cont ∧
      t.testState ≠ .abort := by
  rcases h.states i t ht with hstate | hstate <;> simp [hstate]

/-- A move within the loop that changes only the place. -/
theorem Early.of_frame (h : Early T q s) (hactive : s.pc.active = true) (hsteps : s'.steps = s.steps)
    (hlog : s'.log = s.log) (hresults : s'.results = s.results) (hpending : s'.pendingSteps = s.pendingSteps)
    (hheld : T.ones q.total ≠ 0 ∨ s'.step + 1 = q.total ∧ s'.pc ≠ .next ∧ ∀ index, s'.pc ≠ .scan index) :
    Early T q s' := by
  refine ⟨hresults.trans h.results, ?_, ?_, fun _ => hpending.trans (h.pending hactive), ?_⟩
  · rw [hsteps]
    exact h.states
  · rw [hlog]
    exact h.noExec
  · rcases hheld with hones | hheld
    · exact Or.inl hones
    · exact Or.inr fun _ => hheld

theorem Early.goto (hl : Lasts T q) (hb : Basic q s) (h : Early T q s) {pc : Pc} (hgoto : Goto s pc) :
    Early T q (s.goto pc) := by
  have hactive := (goto_active hgoto).1
  refine h.of_frame hactive rfl rfl rfl rfl ?_
  rcases h.held with hones | hheld
  · exact Or.inl hones
  obtain ⟨hstep, hnext, hscan⟩ := hheld hactive
  cases hgoto with
  | leave t hpc ht hleave =>
      -- the first step is not forked, or the mask is not 0
      rcases hl.2 with hones | hfork
      · exact Or.inl hones
      have hseq := hb.sound.seq ht
      have hzero : t.stepSeqNum = 0 := by omega
      rw [← hzero, nonforked_iff hb.sound ht] at hfork
      rcases hleave with hres | ⟨hfork', -⟩
      · exact absurd hres (h.state ht).2.2.1
      · rw [hfork] at hfork'
        cases hfork'
  | scan cur hpc _ _ _ => exact absurd hpc hnext
  | scanOn index t hpc _ _ _ => exact absurd hpc (hscan index)
  | tickSkip index check _ _ => exact Or.inr ⟨hstep, by cases index <;> simp [St.goto, tickNextPc]⟩
  | tickGoesOn index t _ _ _ => exact Or.inr ⟨hstep, by cases index <;> simp [St.goto, tickNextPc]⟩
  | _ => exact Or.inr ⟨hstep, by simp [St.goto]⟩

theorem Early.select (h : Early T q s) (hactive : s.pc.active = true)
    (hpc : s.pc = .next ∨ ∃ index, s.pc = .scan index) (index : ℕ) (t : Step) :
    Early T q (s.select index t) := by
  refine h.of_frame hactive rfl rfl rfl rfl ?_
  rcases h.held with hones | hheld
  · exact Or.inl hones
  obtain ⟨-, hnext, hscan⟩ := hheld hactive
  rcases hpc with hpc | ⟨i, hpc⟩
  · exact absurd hpc hnext
  · exact absurd hpc (hscan i)

/-- Before `subscribe` the thread does not end. -/
theorem Early.move (hl : Lasts T q) (hb : Basic q s) (hexit : s.exit = false) (h : Early T q s)
    (hmove : Move T s s') : s'.pc ≠ .exited ∧ Early T q s' := by
  cases hmove with
  | goto pc hgoto => exact ⟨(Pc.ne_of_active (goto_active hgoto).2).2.2, h.goto hl hb hgoto⟩
  | entryEmpty _ hnil => exact absurd hnil (hb.sound.steps_ne_nil hl.1)
  | entry hpc hne =>
      have htotal := hb.sound.total
      have hpos := List.length_pos_iff.mpr hne
      refine ⟨by simp, h.results, h.states, h.noExec, fun _ => by rw [htotal], Or.inr fun _ => ?_⟩
      refine ⟨?_, by simp⟩
      show s.total - 1 + 1 = q.total
      unfold St.total at htotal ⊢
      omega
  | exitSet _ hset =>
      rw [hexit] at hset
      cases hset
  | trigger t hpc ht _ =>
      refine ⟨by simp, h.results, fun i u hu => ?_, by simpa using h.noExec, ?_, ?_⟩
      · have hset : (s.setState s.step .start).steps[i]? = some u := hu
        rw [getElem?_setState] at hset
        obtain ⟨u', hu', rfl⟩ := Option.map_eq_some_iff.mp hset
        split_ifs
        · exact Or.inr rfl
        · exact h.states i u' hu'
      · exact fun _ => h.pending (by simp [hpc, Pc.active])
      · rcases h.held with hones | hheld
        · exact Or.inl hones
        · exact Or.inr fun _ => ⟨(hheld (by simp [hpc, Pc.active])).1, by simp⟩
  | clear t _ ht hstate => exact absurd hstate (h.state ht).2.2.1
  | waitFail t hpc ht hstate =>
      have hst := hb.placed.standing (by simp [hpc, Pc.active]) (by simp [hpc])
      obtain ⟨u, hu, hrequest⟩ := started_iff.mp hst.started
      rw [ht, Option.some.injEq] at hu
      subst hu
      obtain ⟨hnone, -, -, -, habort⟩ := h.state ht
      rcases hstate with hstate | hstate | hstate
      · exact absurd hstate hnone
      · exact absurd hstate hrequest
      · exact absurd hstate habort
  | skip coverage ctrl tag rest _ hres _ =>
      rw [h.results] at hres
      cases hres
  | exec coverage tag rest t ws _ hres _ _ =>
      rw [h.results] at hres
      cases hres
  | frame rest _ hres =>
      rw [h.results] at hres
      cases hres
  | filter mask seq index t ws pc _ ht hstate _ =>
      obtain ⟨-, hwait, -, hcont, -⟩ := h.state ht
      rcases hstate with hstate | hstate
      · exact absurd hstate hcont
      · exact absurd hstate hwait
  | timeout index t ws _ ht hstate =>
      obtain ⟨-, hwait, -, hcont, -⟩ := h.state ht
      rcases hstate with hstate | hstate
      · exact absurd hstate hwait
      · exact absurd hstate hcont
  | tickFail index t _ ht hstate => exact absurd hstate (h.state ht).2.2.2.2
  | tickClear index t _ ht hstate => exact absurd hstate (h.state ht).2.2.1
  | noCurrent hpc hcur =>
      exact absurd hcur (hb.current_ne_none (by simp [hpc, Pc.active]) (by simp [hpc]))
  | finish hpc hzero =>
      have hactive : s.pc.active = true := by rcases hpc with hpc | ⟨_, hpc⟩ <;> simp [hpc, Pc.active]
      rw [h.pending hactive] at hzero
      rcases h.held with hones | hheld
      · exact absurd hzero hones
      obtain ⟨-, hnext, hscan⟩ := hheld hactive
      rcases hpc with hpc | ⟨i, hpc⟩
      · exact absurd hpc hnext
      · exact absurd hpc (hscan i)
  | finishNull cur _ hcur hnull => exact absurd hnull (hb.sound.prevIndex_ne_none hcur)
  | select cur t index hpc _ _ _ _ =>
      exact ⟨by simp [St.select], h.select (by simp [hpc, Pc.active]) (Or.inl hpc) index t⟩
  | found index t hpc _ _ =>
      exact ⟨by simp [St.select], h.select (by simp [hpc, Pc.active]) (Or.inr ⟨index, hpc⟩) _ t⟩

end Early

section Exits

variable {T : Target} {q : StepQueue} {s s' : St}

theorem Exits.move (hl : Lasts T q) (hb : Basic q s) (h : Exits T q s) (hmove : Move T s s') :
    Exits T q s' := by
  obtain ⟨hidle, hexited⟩ := hmove.started_pc
  obtain ⟨hexit, hsigs⟩ := h.quiet hexited
  obtain ⟨hstart, hcases⟩ := hmove.exit_cases hb hl.1 hexit
  have hreturned : s.startPc ≠ .returned := by
    intro hret
    rcases h.returned hret with hpc | hpc
    · exact hexited hpc
    · exact hidle hpc
  have hearly : s.startPc = .create ∨ s.startPc = .subscribe → s'.pc ≠ .exited ∧ Early T q s' :=
    fun hs => (h.early hs).2.move hl hb hexit hmove
  have hsubs := h.subs
  simp only [hexited, ne_eq, not_false_eq_true, and_true] at hsubs
  rcases hcases with ⟨hpc, hexit', hsigs', hsubs'⟩ | ⟨hpc, ⟨sig, hsigs'⟩, hsubs'⟩
  · refine ⟨fun _ => ⟨hexit'.trans hexit, hsigs'.trans hsigs⟩, fun hpc' => absurd hpc' hpc, ?_, ?_, ?_⟩
    · rw [hsubs', hsubs, hstart]
      simp [hpc]
    · rw [hstart]
      exact hearly
    · rw [hstart]
      exact fun hret => absurd hret hreturned
  · refine ⟨fun hpc' => absurd hpc hpc', fun _ => by simp [hsigs', hsigs], ?_, ?_, ?_⟩
    · rw [hsubs', hsubs]
      split_ifs <;> simp_all
    · rw [hstart]
      exact fun hs => absurd hpc (hearly hs).1
    · exact fun _ => Or.inl hpc

theorem queueMsg_of_subs (h : s.subs = 0) (m : Msg) : s.queueMsg m = s := by
  have hnil : List.replicate s.subs m = [] := by
    rw [h]
    rfl
  unfold St.queueMsg
  rw [hnil, List.append_nil]

theorem Exits.env {a : Action} (hb : Basic q s) (h : Exits T q s) (henv : Env s a s') :
    Exits T q s' := by
  have hnosubs : s.startPc = .create ∨ s.startPc = .subscribe → s.subs = 0 := by
    intro hs
    rw [h.subs]
    rcases hs with hs | hs <;> simp [hs]
  cases henv with
  | created hstart =>
      have hidle := hb.placed.create hstart
      obtain ⟨-, hearly⟩ := h.early (Or.inl hstart)
      refine ⟨fun _ => h.quiet (by simp [hidle]), by simp, ?_, fun _ => ⟨by simp, ?_⟩, by simp⟩
      · simpa using hnosubs (Or.inl hstart)
      · exact ⟨hearly.results, hearly.states, hearly.noExec, by simp [Pc.active], Or.inr (by simp [Pc.active])⟩
  | notCreated hstart =>
      refine ⟨h.quiet, h.signal, ?_, by simp, fun _ => Or.inr (hb.placed.create hstart)⟩
      simpa using hnosubs (Or.inl hstart)
  | subscribed hstart =>
      have hsubs := hnosubs (Or.inr hstart)
      obtain ⟨hexited, -⟩ := h.early (Or.inr hstart)
      refine ⟨h.quiet, h.signal, ?_, by simp, by simp⟩
      simp [hexited, hsubs]
  | joined hstart hexited =>
      refine ⟨h.quiet, h.signal, ?_, by simp, fun _ => Or.inl hexited⟩
      have hsubs := h.subs
      simpa [hexited] using hsubs
  | delivered m chan _ =>
      refine ⟨h.quiet, h.signal, h.subs, fun hs => ⟨(h.early hs).1, ?_⟩, h.returned⟩
      have hearly := (h.early hs).2
      have hframe := queueMsg_of_subs (s := { s with chan := chan }) (hnosubs hs) m
      rw [hframe]
      exact ⟨hearly.results, hearly.states, hearly.noExec, hearly.pending, hearly.held⟩
  | injected m =>
      refine ⟨h.quiet, h.signal, h.subs, fun hs => ⟨(h.early hs).1, ?_⟩, h.returned⟩
      rw [queueMsg_of_subs (hnosubs hs)]
      exact (h.early hs).2
  | wrote index w hexec =>
      have hframe := writes_frame s [(index, w)]
      have hwrite : s.write index w = s.writes [(index, w)] := rfl
      have hlate : ¬ (s.startPc = .create ∨ s.startPc = .subscribe) := by
        intro hs
        have hnoExec := (h.early hs).2.noExec
        unfold St.executed at hexec
        cases ht : s.steps[index]? with
        | none =>
            simp [ht] at hexec
        | some t =>
            simp only [ht, List.any_eq_true] at hexec
            obtain ⟨e, he, hseq⟩ := hexec
            cases e with
            | exec tag seq => exact hnoExec tag seq he
            | _ => simp at hseq
      rw [hwrite, hframe]
      exact ⟨h.quiet, h.signal, h.subs, fun hs => absurd hs hlate, h.returned⟩

theorem exits_init (coverage : Coverage) (pendingSteps : BitVec 32) :
    Exits T q (init q coverage pendingSteps) := by
  refine ⟨by simp [init], by simp [init], by simp [init], fun _ => ⟨by simp [init], ?_⟩, by simp [init]⟩
  refine ⟨rfl, fun i t ht => Or.inl (q.requested t (List.mem_of_getElem? ht)), by simp [init], ?_, ?_⟩
  · simp [init, Pc.active]
  · exact Or.inr (by simp [init, Pc.active])

theorem exits_of_run (hl : Lasts T q) {C : St → Action → Prop} {coverage : Coverage}
    {pendingSteps : BitVec 32} (h : Run (next T) C (init q coverage pendingSteps) s) : Exits T q s := by
  refine (run_invariant (I := fun s => Basic q s ∧ Exits T q s) ?_ h
    ⟨basic_init coverage pendingSteps, exits_init coverage pendingSteps⟩).2
  rintro s a t ⟨hb, hexits⟩ - hnext
  refine ⟨basic_next hb hnext, ?_⟩
  rcases next_cases hnext with henv | ⟨c, -, hmove⟩
  · exact hexits.env hb henv
  · exact hexits.move hl hb hmove

theorem reports_of_lasts (hl : Lasts T q) : Reports T q := by
  refine ⟨fun coverage pendingSteps s hrun => (exits_of_run hl hrun).signal,
    fun coverage pendingSteps s hrun hret => ?_⟩
  have hsubs := (exits_of_run hl hrun).subs
  simpa [hret] using hsubs

end Exits

section Converse

variable {T : Target} {q : StepQueue} {s : St}

/-- With no step the thread ends without a signal. -/
theorem steps_ne_nil_of_reports (h : Reports T q) : q.steps ≠ [] := by
  intro hnil
  let s : St := { init q .coverage1 0 with startPc := .subscribe, pc := .entry }
  have hnone : s.steps[s.total - 1]? = none := by
    show q.steps[_]? = none
    rw [hnil]
    rfl
  have hcreate : next T (init q .coverage1 0) (.create true) = some s := rfl
  have hthread : next T s (.thread {}) =
      some { s with pendingSteps := T.ones s.total, pc := .exited } := by
    show entryStep T s = _
    simp [entryStep, hnone]
  have hsignal := h.signal .coverage1 0 _ (((Run.refl _).step trivial hcreate).step trivial hthread) rfl
  simp [s, init] at hsignal

theorem next_entry {t : Step} (hpc : s.pc = .entry) (ht : s.steps[s.total - 1]? = some t) :
    next T s (.thread {}) =
      some { s with pendingSteps := T.ones s.total, step := s.total - 1, pc := .loop } := by
  show threadStep T s {} = _
  unfold threadStep
  rw [hpc]
  show entryStep T s = _
  unfold entryStep
  rw [ht]

theorem next_trigger {t : Step} (hpc : s.pc = .loop) (hexit : s.exit = false)
    (ht : s.steps[s.step]? = some t) (hrequest : t.testState = .request) :
    next T s (.thread {}) = some { s with
      currentTestStep := s.total - t.stepSeqNum - 1
      chan := s.chan ++ [.emu80211 s.coverage .tstart (some t.stepSeqNum)]
      log := .trigger t.stepSeqNum :: s.log
      steps := s.steps.modify s.step fun t => { t with testState := .start }
      pc := .wait } := by
  show threadStep T s {} = _
  unfold threadStep
  rw [hpc]
  show loopStep s = _
  unfold loopStep
  rw [hexit, ht]
  simp only [hrequest, if_true]
  rfl

/-- No step has been executed yet. -/
def Unrun (s : St) : Prop :=
  ∀ (i : ℕ) (t : Step), s.steps[i]? = some t → t.testState = .request ∨ t.testState = .start

/-- Where a test of the timeout loop leads that finds nothing to do. -/
def checkNext (s : St) (index : ℕ) : Check → Pc
  | .waiting => if s.steps[index]? = none then tickNextPc index else .tick index .aborted
  | .aborted => if s.steps[index]? = none then tickNextPc index else .tick index .finished
  | .finished => tickNextPc index

theorem next_tick (hs : Unrun s) {index : ℕ} {check : Check} (hpc : s.pc = .tick index check) :
    next T s (.thread {}) = some (s.goto (checkNext s index check)) := by
  have hthread : next T s (.thread {}) = tickStep T s index check {} := by
    show threadStep T s {} = _
    unfold threadStep
    rw [hpc]
  rw [hthread]
  unfold tickStep checkNext
  cases ht : s.steps[index]? with
  | none =>
      cases check <;> simp [tickNext_eq]
  | some t =>
      rcases hs index t ht with hstate | hstate <;> cases check <;> simp [hstate, tickNext_eq]

/-- A turn of the timeout loop. -/
theorem run_tick (hs : Unrun s) {index : ℕ} (hpc : s.pc = .tick index .waiting) :
    Run (next T) (fun _ _ => True) s (s.goto (tickNextPc index)) := by
  have hwaiting := next_tick (T := T) hs hpc
  unfold checkNext at hwaiting
  by_cases hnone : s.steps[index]? = none
  · rw [if_pos hnone] at hwaiting
    exact Run.single trivial hwaiting
  · rw [if_neg hnone] at hwaiting
    have haborted : next T (s.goto (.tick index .aborted)) (.thread {}) =
        some (s.goto (.tick index .finished)) := by
      have h := next_tick (T := T) (s := s.goto (.tick index .aborted)) hs rfl
      have hsteps : (s.goto (.tick index .aborted)).steps[index]? ≠ none := hnone
      simp only [checkNext, hsteps, if_false] at h
      exact h
    have hfinished : next T (s.goto (.tick index .finished)) (.thread {}) =
        some (s.goto (tickNextPc index)) := by
      exact next_tick (T := T) (s := s.goto (.tick index .finished)) hs rfl
    exact ((Run.single trivial hwaiting).step trivial haborted).step trivial hfinished

/-- The timeout loop. -/
theorem run_ticks (hs : Unrun s) {index : ℕ} (hpc : s.pc = .tick index .waiting) :
    Run (next T) (fun _ _ => True) s (s.goto .after) := by
  induction index generalizing s with
  | zero =>
      exact run_tick hs hpc
  | succ index ih =>
      have hrest := ih (s := s.goto (.tick index .waiting)) hs rfl
      exact (run_tick hs hpc).trans hrest

/-- A thread that finds the mask 0 at its first timeout ends before `subscribe`. -/
theorem held_of_reports (h : Reports T q) : T.ones q.total ≠ 0 ∨ Nonforked q 0 := by
  by_contra hnot
  rw [not_or, not_not] at hnot
  obtain ⟨hones, hnon⟩ := hnot
  have hpos := List.length_pos_iff.mpr (steps_ne_nil_of_reports h)
  have hlt : q.total - 1 < q.total := by
    unfold StepQueue.total
    omega
  obtain ⟨t, ht⟩ : ∃ t, q.steps[q.total - 1]? = some t := ⟨_, List.getElem?_eq_getElem hlt⟩
  have hzero : t.stepSeqNum = 0 := by
    have := q.getElem?_seq ht
    omega
  have hfork : t.fork = true := by
    by_contra hfork
    exact hnon ⟨_, t, ht, hzero, by simpa using hfork⟩
  have hrequest := q.requested t (List.mem_of_getElem? ht)
  let s₀ : St := { init q .coverage1 0 with startPc := .subscribe, pc := .entry }
  let s₁ : St := { s₀ with pendingSteps := T.ones q.total, step := q.total - 1, pc := .loop }
  -- the first step is triggered, and times out
  let s₂ : St := { s₁ with
    currentTestStep := q.total - t.stepSeqNum - 1
    chan := [.emu80211 .coverage1 .tstart (some t.stepSeqNum)]
    log := [.trigger t.stepSeqNum]
    steps := q.steps.modify (q.total - 1) fun t => { t with testState := .start }
    pc := .wait }
  have hcreate : next T (init q .coverage1 0) (.create true) = some s₀ := rfl
  have hentry : next T s₀ (.thread {}) = some s₁ := next_entry rfl ht
  have htrigger : next T s₁ (.thread {}) = some s₂ := next_trigger rfl rfl ht hrequest
  have hcur : s₂.steps[q.total - 1]? = some { t with testState := .start } := by
    show (q.steps.modify _ _)[q.total - 1]? = _
    simp [ht]
  have hunrun : Unrun s₂ := by
    intro i v hv
    have hset : (s₁.setState (q.total - 1) .start).steps[i]? = some v := hv
    rw [getElem?_setState] at hset
    obtain ⟨v', hv', rfl⟩ := Option.map_eq_some_iff.mp hset
    split_ifs
    · exact Or.inr rfl
    · exact Or.inl (q.requested v' (List.mem_of_getElem? hv'))
  have htimeout : next T s₂ (.thread { timedOut := true }) =
      some (s₂.goto (.tick (s₂.total - 1) .waiting)) := rfl
  have hticks := run_ticks (T := T) (s := s₂.goto (.tick (s₂.total - 1) .waiting)) hunrun rfl
  have hleave : next T (s₂.goto .after) (.thread {}) = some (s₂.goto .next) := by
    have hafter : (s₂.goto .after).steps[(s₂.goto .after).step]? = some { t with testState := .start } := hcur
    show afterStep (s₂.goto .after) = _
    unfold afterStep
    rw [hafter]
    simp [hfork, St.goto]
  -- the mask is 0, so the test is done
  have hfinish : next T (s₂.goto .next) (.thread {}) = some (s₂.goto .next).finish := by
    have hnext : (s₂.goto .next).steps[(s₂.goto .next).currentTestStep]? =
        some { t with testState := .start } := by
      have hindex : (s₂.goto .next).currentTestStep = q.total - 1 := by
        show q.total - t.stepSeqNum - 1 = q.total - 1
        omega
      rw [hindex]
      exact hcur
    have hmask : (s₂.goto .next).pendingSteps = 0 := hones
    show nextStep (s₂.goto .next) = _
    unfold nextStep
    rw [hnext, hmask]
    rfl
  have hsubscribe : next T (s₂.goto .next).finish .subscribe =
      some { (s₂.goto .next).finish with startPc := .join, subs := 1 } := rfl
  have hjoin : next T { (s₂.goto .next).finish with startPc := .join, subs := 1 } .join =
      some { (s₂.goto .next).finish with startPc := .returned, subs := 1 } := rfl
  have htimedOut : Run (next T) (fun _ _ => True) (init q .coverage1 0)
      (s₂.goto (.tick (s₂.total - 1) .waiting)) :=
    ((((Run.refl _).step trivial hcreate).step trivial hentry).step trivial htrigger).step trivial htimeout
  have hended := ((htimedOut.trans hticks).step trivial hleave).step trivial hfinish
  have hsubs := h.unsubscribed .coverage1 0 _ ((hended.step trivial hsubscribe).step trivial hjoin) rfl
  cases hsubs

/-- **The thread signals once and is unsubscribed in every run exactly when it lasts**: it has a
step, and the mask is not 0 from the start or its first step is not forked. -/
theorem reports_iff (T : Target) (q : StepQueue) : Reports T q ↔ Lasts T q :=
  ⟨fun h => ⟨steps_ne_nil_of_reports h, held_of_reports h⟩, reports_of_lasts⟩

theorem not_reports_empty : ¬ Reports .masking .empty := by
  intro h
  exact steps_ne_nil_of_reports h rfl

end Converse

end OneWifiTestSuite.Scheduler
