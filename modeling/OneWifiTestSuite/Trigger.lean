import OneWifiTestSuite.Invariant

/-!
# Triggers and executions

The trigger of a step is a control message that goes through the kernel device and the message
manager, and is handled by whatever step is current when it comes back. `Answered` says that every
trigger is answered by exactly one execution, of its own step.

The code does not guarantee this: a message that comes back before `subscribe` is lost, and the
timeout branch leaves a forked step also when its message is still in flight, so that the message
executes the next step instead. `InTime` excludes these moves (and the two others that lose or add
a trigger), and `answered_of_run` shows that nothing else can go wrong: at most one trigger is in
flight, and it is that of the current step.
-/

namespace OneWifiTestSuite.Scheduler

open Runs Steps

/-- The tag of a trigger. -/
def Msg.trigger? : Msg → Option (Option ℕ)
  | .emu80211 _ .tstart tag => some tag
  | _ => none

/-- The tags of the triggers that have not been handled, in the order in which they will be. -/
def St.inFlight (s : St) : List (Option ℕ) :=
  (s.results ++ s.chan).filterMap Msg.trigger?

/-- Every trigger is answered by exactly one execution of its step, or still in flight, and none is
in flight when the thread has ended. -/
structure Answered (s : St) : Prop where
  own : ∀ tag seq, .exec tag seq ∈ s.log → tag = some seq
  once : ∀ seq, s.log.count (.trigger seq) ≤ 1
  count : ∀ seq, s.log.count (.trigger seq) =
    s.log.count (.exec (some seq) seq) + s.inFlight.count (some seq)
  ended : s.pc = .exited → s.inFlight = []

/-- The moves that handle every trigger in time. -/
structure InTime (s : St) (a : Action) : Prop where
  /-- a trigger comes back while the test is subscribed, once -/
  subscribed : ∀ m chan tag, a = .deliver → s.chan = m :: chan → m.trigger? = some tag → s.subs = 1
  /-- no trigger of another test comes in -/
  own : ∀ m, a = .inject m → m.trigger? = none
  /-- the timeout branch does not leave a forked step whose trigger is in flight -/
  forked : ∀ (c : Choice) (t : Step), a = .thread c → s.pc = .after → s.steps[s.step]? = some t →
    t.fork = true → s.inFlight = []
  /-- the thread does not end on an aborted step while the trigger of another one is in flight -/
  aborted : ∀ (c : Choice) (index : ℕ) (t : Step), a = .thread c → s.pc = .tick index .aborted →
    s.steps[index]? = some t → t.testState = .abort → s.inFlight = []

section Counts

variable {s s' : St}

theorem inFlight_congr (hresults : s'.results = s.results) (hchan : s'.chan = s.chan) :
    s'.inFlight = s.inFlight := by
  unfold St.inFlight
  rw [hresults, hchan]

@[simp]
theorem inFlight_writes (s : St) (ws : List (ℕ × Write)) : (s.writes ws).inFlight = s.inFlight := by
  rw [writes_frame]
  rfl

/-- Writes are not counted as triggers or executions. -/
theorem count_log_writes (s : St) (ws : List (ℕ × Write)) {e : Event} (he : ∀ seq w, e ≠ .wrote seq w) :
    (s.writes ws).log.count e = s.log.count e := by
  induction ws generalizing s with
  | nil =>
      rfl
  | cons w ws ih =>
      have hcons : s.writes (w :: ws) = (s.write w.1 w.2).writes ws := rfl
      rw [hcons, ih]
      unfold St.write
      cases s.steps[w.1]? with
      | none =>
          rfl
      | some t =>
          exact List.count_cons_of_ne (he _ _).symm

/-- A message that is not a trigger changes nothing in flight, however often it is copied. -/
theorem inFlight_queueMsg {m : Msg} (hm : m.trigger? = none) : (s.queueMsg m).inFlight = s.inFlight := by
  have hnil : (List.replicate s.subs m).filterMap Msg.trigger? = [] := by
    rw [List.filterMap_eq_nil_iff]
    intro m' hm'
    rw [List.eq_of_mem_replicate hm']
    exact hm
  simp [St.inFlight, St.queueMsg, hnil]

end Counts

/-- The trigger in flight, if there is one, is that of the step at which the thread stands. -/
structure Flight (s : St) : Prop where
  own : ∀ tag seq, .exec tag seq ∈ s.log → tag = some seq
  once : ∀ seq, s.log.count (.trigger seq) ≤ 1
  count : ∀ seq, s.log.count (.trigger seq) =
    s.log.count (.exec (some seq) seq) + s.inFlight.count (some seq)
  current : s.inFlight = [] ∨ s.pc.active = true ∧ s.pc ≠ .next ∧ (∀ index, s.pc ≠ .scan index) ∧
    ∃ t : Step, s.steps[s.step]? = some t ∧ t.testState = .start ∧ s.inFlight = [some t.stepSeqNum]
  coverage : ∀ m ∈ s.results ++ s.chan, ∀ coverage tag, m = .emu80211 coverage .tstart tag →
    coverage = s.coverage
  valid : s.coverage ≠ .max
  exit : s.exit = true → s.pc = .exited

section Preserved

variable {T : Target} {q : StepQueue} {s s' : St}

/-- Where the state of the current step is not `start`, nothing is in flight. -/
theorem Flight.nil_of_state (h : Flight s) {t : Step} (ht : s.steps[s.step]? = some t)
    (hstate : t.testState ≠ .start) : s.inFlight = [] := by
  rcases h.current with hnil | ⟨-, -, -, u, hu, hstart, -⟩
  · exact hnil
  · rw [ht, Option.some.injEq] at hu
    subst hu
    exact absurd hstart hstate

theorem Flight.nil_of_pc (h : Flight s)
    (hpc : s.pc.active = false ∨ s.pc = .next ∨ ∃ index, s.pc = .scan index) : s.inFlight = [] := by
  rcases h.current with hnil | ⟨hactive, hnext, hscan, -⟩
  · exact hnil
  · rcases hpc with hpc | hpc | ⟨index, hpc⟩
    · rw [hactive] at hpc
      cases hpc
    · exact absurd hpc hnext
    · exact absurd hpc (hscan index)

/-- A move that leaves log, messages and flags alone. -/
theorem Flight.of_frame (h : Flight s) (hlog : s'.log = s.log) (hresults : s'.results = s.results)
    (hchan : s'.chan = s.chan) (hcoverage : s'.coverage = s.coverage)
    (hexit : s'.exit = true → s'.pc = .exited)
    (hcurrent : s.inFlight = [] ∨ s'.steps = s.steps ∧ s'.step = s.step ∧ s'.pc.active = true ∧
      s'.pc ≠ .next ∧ ∀ index, s'.pc ≠ .scan index) : Flight s' := by
  have hinFlight := inFlight_congr hresults hchan
  refine ⟨?_, ?_, ?_, ?_, ?_, ?_, hexit⟩
  · rw [hlog]
    exact h.own
  · rw [hlog]
    exact h.once
  · rw [hlog, hinFlight]
    exact h.count
  · rw [hinFlight]
    rcases hcurrent with hnil | ⟨hsteps, hstep, hpc⟩
    · exact Or.inl hnil
    · rcases h.current with hnil | ⟨-, -, -, hcur⟩
      · exact Or.inl hnil
      · rw [hsteps, hstep]
        exact Or.inr ⟨hpc.1, hpc.2.1, hpc.2.2, hcur⟩
  · rw [hresults, hchan, hcoverage]
    exact h.coverage
  · rw [hcoverage]
    exact h.valid

theorem Flight.goto (h : Flight s) {c : Choice} (htime : InTime s (.thread c)) {pc : Pc}
    (hgoto : Goto s pc) : Flight (s.goto pc) := by
  obtain ⟨hactive, hactive'⟩ := goto_active hgoto
  have hexit : s.exit = true → pc = .exited := by
    intro hset
    exact absurd (h.exit hset) (Pc.ne_of_active hactive).2.2
  refine h.of_frame rfl rfl rfl rfl hexit ?_
  cases hgoto with
  | leave t hpc ht hleave =>
      rcases hleave with hres | ⟨hfork, -⟩
      · exact Or.inl (h.nil_of_state ht (by simp [hres]))
      · exact Or.inl (htime.forked c t rfl hpc ht hfork)
  | scan cur hpc _ _ _ => exact Or.inl (h.nil_of_pc (Or.inr (Or.inl hpc)))
  | scanOn index t hpc _ _ _ => exact Or.inl (h.nil_of_pc (Or.inr (Or.inr ⟨index, hpc⟩)))
  | tickSkip index _ _ _ =>
      refine Or.inr ⟨rfl, rfl, hactive', ?_, fun i => ?_⟩ <;> cases index <;> simp [St.goto, tickNextPc]
  | tickGoesOn index _ _ _ _ =>
      refine Or.inr ⟨rfl, rfl, hactive', ?_, fun i => ?_⟩ <;> cases index <;> simp [St.goto, tickNextPc]
  | _ => exact Or.inr ⟨rfl, rfl, rfl, by simp [St.goto], by simp [St.goto]⟩

/-- An event that is neither a trigger nor an execution, with no trigger in flight. -/
theorem Flight.of_note (h : Flight s) {e : Event} (htrigger : ∀ seq, e ≠ .trigger seq)
    (hexec : ∀ tag seq, e ≠ .exec tag seq) (hlog : s'.log = e :: s.log) (hresults : s'.results = s.results)
    (hchan : s'.chan = s.chan) (hcoverage : s'.coverage = s.coverage)
    (hexit : s'.exit = true → s'.pc = .exited)
    (hcurrent : s.inFlight = [] ∨ s'.steps = s.steps ∧ s'.step = s.step ∧ s'.pc.active = true ∧
      s'.pc ≠ .next ∧ ∀ index, s'.pc ≠ .scan index) : Flight s' := by
  have hcount : ∀ e', (∃ seq, e' = .trigger seq) ∨ (∃ tag seq, e' = .exec tag seq) →
      (e :: s.log).count e' = s.log.count e' := by
    rintro e' (⟨seq, rfl⟩ | ⟨tag, seq, rfl⟩)
    · exact List.count_cons_of_ne (htrigger seq)
    · exact List.count_cons_of_ne (hexec tag seq)
  have hframe : Flight { s' with log := s.log } :=
    h.of_frame rfl hresults hchan hcoverage hexit hcurrent
  refine ⟨fun tag seq hmem => ?_, fun seq => ?_, fun seq => ?_, hframe.current, hframe.coverage,
    hframe.valid, hexit⟩
  · rw [hlog] at hmem
    rcases List.mem_cons.mp hmem with heq | hmem
    · exact absurd heq.symm (hexec tag seq)
    · exact h.own tag seq hmem
  · rw [hlog, hcount _ (Or.inl ⟨seq, rfl⟩)]
    exact h.once seq
  · rw [hlog, hcount _ (Or.inl ⟨seq, rfl⟩), hcount _ (Or.inr ⟨_, seq, rfl⟩)]
    exact hframe.count seq

/-- Writes to a step other than the one whose trigger is in flight. -/
theorem Flight.writes (h : Flight s) {ws : List (ℕ × Write)}
    (hws : s.inFlight = [] ∨ ∀ w ∈ ws, w.1 ≠ s.step) : Flight (s.writes ws) := by
  have hown : ∀ tag seq, .exec tag seq ∈ (s.writes ws).log → tag = some seq := fun tag seq hmem =>
    h.own tag seq (mem_log_of_mem_log_writes (by simp) hmem)
  have hcount : ∀ e : Event, (∀ seq w, e ≠ .wrote seq w) → (s.writes ws).log.count e = s.log.count e :=
    fun e he => count_log_writes s ws he
  refine ⟨hown, fun seq => ?_, fun seq => ?_, ?_, ?_, ?_, ?_⟩
  · rw [hcount _ (by simp)]
    exact h.once seq
  · rw [hcount _ (by simp), hcount _ (by simp), inFlight_writes]
    exact h.count seq
  · rw [inFlight_writes, writes_pc]
    rcases h.current with hnil | ⟨hactive, hnext, hscan, t, ht, hstart, hflight⟩
    · exact Or.inl hnil
    rcases hws with hnil | hne
    · exact Or.inl hnil
    refine Or.inr ⟨hactive, hnext, hscan, t, ?_, hstart, hflight⟩
    have hstep : (s.writes ws).step = s.step := by rw [writes_frame]
    rw [hstep, ← ht]
    exact writes_induction (P := fun u => u.steps[s.step]? = s.steps[s.step]?) (Q := fun i => i ≠ s.step)
      (fun u index w hu hi => by rw [getElem?_write_ne hi]; exact hu) rfl hne
  · rw [writes_frame]
    exact h.coverage
  · rw [writes_frame]
    exact h.valid
  · rw [writes_frame]
    exact h.exit

/-- The end of the thread, with nothing in flight. -/
theorem Flight.of_stop (h : Flight s) (hnil : s.inFlight = []) (hlog : s'.log = s.log)
    (hresults : s'.results = s.results) (hcoverage : s'.coverage = s.coverage)
    (hchan : s'.chan = s.chan ++ [.emu80211 s.coverage .tstop none]) (hpc : s'.pc = .exited) : Flight s' := by
  have hinFlight : s'.inFlight = s.inFlight := by
    unfold St.inFlight
    rw [hresults, hchan, ← List.append_assoc, List.filterMap_append]
    simp [Msg.trigger?]
  refine ⟨?_, ?_, ?_, Or.inl (hinFlight.trans hnil), ?_, ?_, fun _ => hpc⟩
  · rw [hlog]
    exact h.own
  · rw [hlog]
    exact h.once
  · rw [hlog, hinFlight]
    exact h.count
  · rw [hresults, hchan, hcoverage, ← List.append_assoc]
    intro m hm coverage tag heq
    rcases List.mem_append.mp hm with hm | hm
    · exact h.coverage m hm coverage tag heq
    · rw [List.mem_singleton.mp hm] at heq
      cases heq
  · rw [hcoverage]
    exact h.valid

/-- The trigger of a step in `request`. -/
theorem Flight.trigger (hb : Basic q s) (h : Flight s) (hpc : s.pc = .loop) {t : Step}
    (ht : s.steps[s.step]? = some t) (hrequest : t.testState = .request) :
    Flight { s with
      currentTestStep := s.total - t.stepSeqNum - 1
      chan := s.chan ++ [.emu80211 s.coverage .tstart (some t.stepSeqNum)]
      log := .trigger t.stepSeqNum :: s.log
      steps := s.steps.modify s.step fun t => { t with testState := .start }
      pc := .wait } := by
  have hnil := h.nil_of_state ht (by simp [hrequest])
  have hnot : s.log.count (.trigger t.stepSeqNum) = 0 :=
    List.count_eq_zero.mpr ((hb.sound.request _ t ht).mp hrequest)
  have hcount : ∀ seq, (Event.trigger t.stepSeqNum :: s.log).count (.trigger seq) =
      s.log.count (.trigger seq) + if t.stepSeqNum = seq then 1 else 0 := by
    intro seq
    rw [List.count_cons]
    simp
  have hinFlight : ((s.results ++ (s.chan ++ [Msg.emu80211 s.coverage .tstart (some t.stepSeqNum)])).filterMap
      Msg.trigger?) = [some t.stepSeqNum] := by
    have hnil' : (s.results ++ s.chan).filterMap Msg.trigger? = [] := hnil
    rw [← List.append_assoc, List.filterMap_append, hnil']
    rfl
  refine ⟨fun tag seq hmem => ?_, fun seq => ?_, fun seq => ?_, ?_, ?_, h.valid, ?_⟩
  · exact h.own tag seq (by simpa using hmem)
  · have honce := h.once seq
    simp only [hcount]
    split_ifs with hseq
    · subst hseq
      omega
    · exact honce
  · have hsum := h.count seq
    rw [hnil, List.count_nil] at hsum
    simp only [hcount]
    unfold St.inFlight
    rw [hinFlight, List.count_cons_of_ne (by simp), List.count_singleton]
    simp only [beq_iff_eq, Option.some.injEq]
    omega
  · refine Or.inr ⟨rfl, by simp, by simp, { t with testState := .start }, ?_, rfl, hinFlight⟩
    simp [ht]
  · intro m hm coverage tag heq
    simp only [← List.append_assoc] at hm
    rcases List.mem_append.mp hm with hm | hm
    · exact h.coverage m hm coverage tag heq
    · rw [List.mem_singleton.mp hm] at heq
      cases heq
      rfl
  · intro hset
    have := h.exit hset
    rw [hpc] at this
    cases this

/-- A message that is not a trigger is taken out of the queue. -/
theorem Flight.pop (h : Flight s) {m : Msg} {rest : List Msg} (hresults : s.results = m :: rest)
    (hm : m.trigger? = none) {pc : Pc} (hactive : s.pc.active = true) (hpc : pc.active = true)
    (hnext : pc ≠ .next) (hscan : ∀ index, pc ≠ .scan index) :
    Flight { s with results := rest, pc := pc } := by
  have hinFlight : (rest ++ s.chan).filterMap Msg.trigger? = s.inFlight := by
    unfold St.inFlight
    rw [hresults, List.cons_append, List.filterMap_cons_none hm]
  refine ⟨h.own, h.once, fun seq => ?_, ?_, fun m' hm' => ?_, h.valid, fun hset => ?_⟩
  · show _ = _ + ((rest ++ s.chan).filterMap Msg.trigger?).count _
    rw [hinFlight]
    exact h.count seq
  · show (rest ++ s.chan).filterMap Msg.trigger? = [] ∨ _ ∧ _ ∧ _ ∧ ∃ t : Step, _ ∧ _ ∧
      (rest ++ s.chan).filterMap Msg.trigger? = _
    rw [hinFlight]
    rcases h.current with hnil | ⟨-, -, -, hcur⟩
    · exact Or.inl hnil
    · exact Or.inr ⟨hpc, hnext, hscan, hcur⟩
  · apply h.coverage m'
    rw [hresults]
    exact List.mem_cons_of_mem _ hm'
  · exact absurd (h.exit hset) (Pc.ne_of_active hactive).2.2

/-- A trigger that comes back executes its own step. -/
theorem Flight.exec (hb : Basic q s) (h : Flight s) (hpc : s.pc = .drain) {coverage : Coverage}
    {tag : Option ℕ} {rest : List Msg} (hresults : s.results = .emu80211 coverage .tstart tag :: rest)
    {t : Step} (ht : s.steps[s.currentTestStep]? = some t) (ws : List (ℕ × Write)) :
    Flight (({ s with results := rest }.note (.exec tag t.stepSeqNum)).writes ws) := by
  have hst := hb.placed.standing (by simp [hpc, Pc.active]) (by simp [hpc])
  rw [hst.current] at ht
  have hinFlight : s.inFlight = tag :: (rest ++ s.chan).filterMap Msg.trigger? := by
    unfold St.inFlight
    rw [hresults]
    rfl
  rcases h.current with hnil | ⟨-, -, -, u, hu, -, hflight⟩
  · rw [hinFlight] at hnil
    cases hnil
  rw [ht, Option.some.injEq] at hu
  subst hu
  rw [hinFlight, List.cons.injEq] at hflight
  obtain ⟨rfl, hrest⟩ := hflight
  have hcount : ∀ seq, (Event.exec (some t.stepSeqNum) t.stepSeqNum :: s.log).count (.exec (some seq) seq) =
      s.log.count (.exec (some seq) seq) + if t.stepSeqNum = seq then 1 else 0 := by
    intro seq
    rw [List.count_cons]
    simp
  suffices hbase : Flight ({ s with results := rest }.note (.exec (some t.stepSeqNum) t.stepSeqNum)) from
    hbase.writes (Or.inl hrest)
  refine ⟨fun tag seq hmem => ?_, fun seq => ?_, fun seq => ?_, Or.inl hrest, ?_, h.valid, ?_⟩
  · rcases List.mem_cons.mp hmem with heq | hmem
    · cases heq
      rfl
    · exact h.own tag seq hmem
  · show (Event.exec _ _ :: s.log).count _ ≤ 1
    rw [List.count_cons_of_ne (by simp)]
    exact h.once seq
  · have hsum := h.count seq
    rw [hinFlight, hrest, List.count_singleton] at hsum
    show (Event.exec _ _ :: s.log).count _ = (Event.exec _ _ :: s.log).count _ +
      ((rest ++ s.chan).filterMap Msg.trigger?).count _
    rw [List.count_cons_of_ne (by simp), hcount, hrest, List.count_nil, hsum]
    simp only [beq_iff_eq, Option.some.injEq]
    omega
  · intro m hm
    apply h.coverage m
    rw [hresults]
    exact List.mem_cons_of_mem _ hm
  · intro hset
    have := h.exit hset
    rw [hpc] at this
    cases this

theorem goto_writes (s : St) (pc : Pc) (ws : List (ℕ × Write)) :
    (s.goto pc).writes ws = (s.writes ws).goto pc := by
  induction ws generalizing s with
  | nil =>
      rfl
  | cons w ws ih =>
      have hwrite : (s.goto pc).write w.1 w.2 = (s.write w.1 w.2).goto pc := by
        have hsteps : (s.goto pc).steps = s.steps := rfl
        rw [St.write, St.write, hsteps]
        cases s.steps[w.1]? <;> rfl
      show ((s.goto pc).write w.1 w.2).writes ws = ((s.write w.1 w.2).writes ws).goto pc
      rw [hwrite, ih]

/-- A callback on a step that has been executed, and where the thread goes on after it. -/
theorem Flight.callback (h : Flight s) (hactive : s.pc.active = true) {e : Event}
    (htrigger : ∀ seq, e ≠ .trigger seq) (hexec : ∀ tag seq, e ≠ .exec tag seq) {index : ℕ} {t : Step}
    (ht : s.steps[index]? = some t) (hstate : t.testState ≠ .start) (ws : List Write) {pc : Pc}
    (hpc : pc.active = true) (hnext : pc ≠ .next) (hscan : ∀ i, pc ≠ .scan i) :
    Flight (((s.note e).writes (ws.map fun w => (index, w))).goto pc) := by
  have hrunning : ¬ s.exit = true := fun hset => (Pc.ne_of_active hactive).2.2 (h.exit hset)
  have hnote : Flight ((s.note e).goto pc) :=
    h.of_note htrigger hexec rfl rfl rfl rfl (fun hset => absurd hset hrunning)
      (Or.inr ⟨rfl, rfl, hpc, hnext, hscan⟩)
  have hwrites : Flight (((s.note e).goto pc).writes (ws.map fun w => (index, w))) := by
    apply hnote.writes
    by_cases hindex : index = s.step
    · rw [hindex] at ht
      exact Or.inl (hnote.nil_of_state ht hstate)
    · right
      intro w hw
      obtain ⟨w', -, rfl⟩ := List.mem_map.mp hw
      exact hindex
  have hgoto : ((s.note e).goto pc).writes (ws.map fun w => (index, w)) =
      ((s.note e).writes (ws.map fun w => (index, w))).goto pc := goto_writes _ _ _
  rw [← hgoto]
  exact hwrites

theorem Flight.move (hb : Basic q s) (h : Flight s) {c : Choice} (htime : InTime s (.thread c))
    (hmove : Move T s s') : Flight s' := by
  have hrunning : s.pc.active = true → ¬ s.exit = true := fun hactive hset =>
    (Pc.ne_of_active hactive).2.2 (h.exit hset)
  cases hmove with
  | goto pc hgoto => exact h.goto htime hgoto
  | entryEmpty hpc _ =>
      exact h.of_frame rfl rfl rfl rfl (fun _ => rfl) (Or.inl (h.nil_of_pc (Or.inl (by simp [hpc, Pc.active]))))
  | entry hpc _ =>
      refine h.of_frame rfl rfl rfl rfl (fun hset => ?_)
        (Or.inl (h.nil_of_pc (Or.inl (by simp [hpc, Pc.active]))))
      have := h.exit hset
      rw [hpc] at this
      cases this
  | exitSet hpc hset => exact absurd hset (hrunning (by simp [hpc, Pc.active]))
  | trigger t hpc ht hrequest => exact h.trigger hb hpc ht hrequest
  | clear t hpc ht hstate =>
      exact h.of_note (e := .processed t.stepSeqNum) (by simp) (by simp) rfl rfl rfl rfl
        (fun hset => absurd hset (hrunning (by simp [hpc, Pc.active])))
        (Or.inl (h.nil_of_state ht (by simp [hstate])))
  | waitFail t hpc ht hstate =>
      refine h.of_stop (h.nil_of_state ht ?_) rfl rfl rfl rfl rfl
      rcases hstate with hstate | hstate | hstate <;> simp [hstate]
  | skip coverage ctrl tag rest hpc hresults hctrl =>
      have hself : { s with results := rest } = { s with results := rest, pc := s.pc } := rfl
      rw [hself]
      refine h.pop hresults ?_ (by simp [hpc, Pc.active]) (by simp [hpc, Pc.active]) (by simp [hpc])
        (by simp [hpc])
      rcases hctrl with rfl | rfl
      · cases ctrl with
        | tstop => rfl
        | tstart =>
            have hmax := h.coverage (.emu80211 .max .tstart tag) (by simp [hresults]) .max tag rfl
            exact absurd hmax.symm h.valid
      · rfl
  | exec coverage tag rest t ws hpc hresults ht _ => exact h.exec hb hpc hresults ht ws
  | frame rest hpc hresults =>
      exact h.pop hresults rfl (by simp [hpc, Pc.active]) rfl (by simp) (by simp)
  | filter mask seq index t ws pc hpc ht hstate hto =>
      refine h.callback (by simp [hpc, Pc.active]) (by simp) (by simp) ht ?_ ws ?_ ?_ ?_
      · rcases hstate with hstate | hstate <;> simp [hstate]
      all_goals rcases hto with rfl | rfl | rfl <;> simp [Pc.active]
  | timeout index t ws hpc ht hstate =>
      refine h.callback (by simp [hpc, Pc.active]) (by simp) (by simp) ht ?_ ws rfl (by simp) (by simp)
      rcases hstate with hstate | hstate <;> simp [hstate]
  | tickFail index t hpc ht hstate => exact h.of_stop (htime.aborted c index t rfl hpc ht hstate) rfl rfl rfl rfl rfl
  | tickClear index t hpc ht hstate =>
      refine h.of_note (e := .processed t.stepSeqNum) (by simp) (by simp) rfl rfl rfl rfl
        (fun hset => absurd hset (hrunning (by simp [hpc, Pc.active]))) (Or.inr ⟨rfl, rfl, ?_, ?_, fun i => ?_⟩)
      · exact tickNextPc_active index
      · cases index <;> simp [St.goto, tickNextPc]
      · cases index <;> simp [St.goto, tickNextPc]
  | noCurrent hpc hcur => exact absurd hcur (hb.current_ne_none (by simp [hpc, Pc.active]) (by simp [hpc]))
  | finish hpc _ =>
      exact h.of_stop (h.nil_of_pc (Or.inr hpc)) rfl rfl rfl rfl rfl
  | finishNull cur _ hcur hnull => exact absurd hnull (hb.sound.prevIndex_ne_none hcur)
  | select cur t index hpc _ _ _ _ =>
      exact h.of_frame rfl rfl rfl rfl (fun hset => absurd hset (hrunning (by simp [hpc, Pc.active])))
        (Or.inl (h.nil_of_pc (Or.inr (Or.inl hpc))))
  | found index t hpc _ _ =>
      exact h.of_frame rfl rfl rfl rfl (fun hset => absurd hset (hrunning (by simp [hpc, Pc.active])))
        (Or.inl (h.nil_of_pc (Or.inr (Or.inr ⟨index, hpc⟩))))

/-- An executed step is not the one whose trigger is in flight. -/
theorem Flight.executed_ne (h : Flight s) {index : ℕ} (hexec : s.executed index = true) :
    s.inFlight = [] ∨ index ≠ s.step := by
  rcases h.current with hnil | ⟨-, -, -, t, ht, -, hflight⟩
  · exact Or.inl hnil
  right
  rintro rfl
  unfold St.executed at hexec
  simp only [ht, List.any_eq_true] at hexec
  obtain ⟨e, he, hseq⟩ := hexec
  cases e with
  | exec tag seq =>
      simp only [decide_eq_true_eq] at hseq
      subst hseq
      have htag := h.own tag _ he
      subst htag
      have hpos := List.count_pos_iff.mpr he
      have hsum := h.count t.stepSeqNum
      have honce := h.once t.stepSeqNum
      rw [hflight, List.count_singleton_self] at hsum
      omega
  | _ => simp at hseq

theorem Flight.env {a : Action} (hb : Basic q s) (h : Flight s) (htime : InTime s a) (henv : Env s a s') :
    Flight s' := by
  cases henv with
  | created hstart =>
      have hidle := hb.placed.create hstart
      refine h.of_frame rfl rfl rfl rfl (fun hset => ?_)
        (Or.inl (h.nil_of_pc (Or.inl (by simp [hidle, Pc.active]))))
      have := h.exit hset
      rw [hidle] at this
      cases this
  | notCreated _ => exact ⟨h.own, h.once, h.count, h.current, h.coverage, h.valid, h.exit⟩
  | subscribed _ => exact ⟨h.own, h.once, h.count, h.current, h.coverage, h.valid, h.exit⟩
  | joined _ _ => exact ⟨h.own, h.once, h.count, h.current, h.coverage, h.valid, h.exit⟩
  | delivered m chan hchan =>
      have hsame : ({ s with chan := chan }.queueMsg m).inFlight = s.inFlight := by
        cases htag : m.trigger? with
        | none =>
            rw [inFlight_queueMsg htag]
            unfold St.inFlight
            rw [hchan]
            simp [htag]
        | some tag =>
            have hsubs := htime.subscribed m chan tag rfl hchan htag
            unfold St.inFlight St.queueMsg
            rw [hchan, hsubs]
            simp
      have hmem : ∀ m', m' ∈ s.results ++ List.replicate s.subs m ++ chan → m' ∈ s.results ++ s.chan := by
        intro m' hm'
        rw [hchan]
        simp only [List.mem_append, List.mem_cons] at hm' ⊢
        rcases hm' with (hm' | hm') | hm'
        · exact Or.inl hm'
        · exact Or.inr (Or.inl (List.eq_of_mem_replicate hm'))
        · exact Or.inr (Or.inr hm')
      refine ⟨h.own, h.once, ?_, ?_, fun m' hm' => h.coverage m' (hmem m' hm'), h.valid, h.exit⟩
      · rw [hsame]
        exact h.count
      · rw [hsame]
        exact h.current
  | injected m =>
      have hm := htime.own m rfl
      have hsame := inFlight_queueMsg (s := s) hm
      refine ⟨h.own, h.once, ?_, ?_, fun m' hm' coverage tag heq => ?_, h.valid, h.exit⟩
      · rw [hsame]
        exact h.count
      · rw [hsame]
        exact h.current
      · simp only [St.queueMsg, List.mem_append] at hm'
        rcases hm' with (hm' | hm') | hm'
        · exact h.coverage m' (List.mem_append_left _ hm') coverage tag heq
        · rw [← List.eq_of_mem_replicate hm', heq] at hm
          cases hm
        · exact h.coverage m' (List.mem_append_right _ hm') coverage tag heq
  | wrote index w hexec =>
      show Flight (s.writes [(index, w)])
      apply h.writes
      rcases h.executed_ne hexec with hnil | hne
      · exact Or.inl hnil
      · exact Or.inr (by simpa using hne)

theorem flight_init {coverage : Coverage} (hcoverage : coverage ≠ .max) (pendingSteps : BitVec 32) :
    Flight (init q coverage pendingSteps) := by
  refine ⟨by simp [init], by simp [init], by simp [init, St.inFlight], Or.inl rfl, by simp [init], hcoverage,
    by simp [init]⟩

/-- **Triggers and executions match** in every run whose moves are all in time. -/
theorem answered_of_run {coverage : Coverage} (hcoverage : coverage ≠ .max) {pendingSteps : BitVec 32}
    (h : Run (next T) InTime (init q coverage pendingSteps) s) : Answered s := by
  have hflight : Flight s := by
    refine (run_invariant (I := fun s => Basic q s ∧ Flight s) ?_ h
      ⟨basic_init coverage pendingSteps, flight_init hcoverage pendingSteps⟩).2
    rintro s a t ⟨hb, hflight⟩ htime hnext
    refine ⟨basic_next hb hnext, ?_⟩
    rcases next_cases hnext with henv | ⟨c, rfl, hmove⟩
    · exact hflight.env hb htime henv
    · exact hflight.move hb htime hmove
  refine ⟨hflight.own, hflight.once, hflight.count, fun hpc => ?_⟩
  exact hflight.nil_of_pc (Or.inl (by simp [hpc, Pc.active]))

end Preserved

section Samples

/-- A forked step and one that is not. -/
def forkThenPlain : StepQueue := (StepQueue.empty.push 1 true).push 2 false

/-- The first step times out before its trigger comes back. -/
def lateTrigger : List Action :=
  [.create true, .subscribe, .thread {}, .thread {}, .thread { timedOut := true }] ++
    List.replicate 6 (.thread {}) ++ List.replicate 4 (.thread {}) ++
    [.deliver, .deliver, .thread {}, .thread {}, .thread {}]

theorem lateTrigger_log :
    (execTo (next .masking) (init forkThenPlain .coverage1 0) lateTrigger).map St.log =
      some [.exec (some 1) 1, .exec (some 0) 1, .trigger 1, .trigger 0] := by
  decide

/-- The trigger of the first step executes the second one, which is executed twice; the first one
never is. -/
theorem exists_not_answered :
    ∃ s, Run (next .masking) (fun _ _ => True) (init forkThenPlain .coverage1 0) s ∧
      s.log = [.exec (some 1) 1, .exec (some 0) 1, .trigger 1, .trigger 0] ∧ ¬ Answered s := by
  obtain ⟨s, hs, hlog⟩ := Option.map_eq_some_iff.mp lateTrigger_log
  refine ⟨s, run_of_execTo hs, hlog, fun h => ?_⟩
  have hown := h.own (some 0) 1 (by simp [hlog])
  cases hown

theorem inTime_quiet {s : St} {a : Action} (hdeliver : a ≠ .deliver) (hinject : ∀ m, a ≠ .inject m)
    (hafter : s.pc ≠ .after) (htick : ∀ index, s.pc ≠ .tick index .aborted) : InTime s a :=
  ⟨fun _ _ _ h => absurd h hdeliver, fun m h => absurd h (hinject m), fun _ _ _ h => absurd h hafter,
    fun _ index _ _ h => absurd h (htick index)⟩

theorem answered_of_run_sample :
    ∃ s, Run (next .masking) InTime (init forkThenPlain .coverage1 0) s ∧
      s.log = [.exec (some 0) 0, .trigger 0] ∧ Answered s := by
  let s₀ := init forkThenPlain .coverage1 0
  let s₁ : St := { s₀ with startPc := .subscribe, pc := .entry }
  let s₂ : St := { s₁ with startPc := .join, subs := 1 }
  let s₃ : St := { s₂ with pendingSteps := 3, step := 1, pc := .loop }
  let s₄ : St := { s₃ with
    steps := [⟨2, 1, false, .request⟩, ⟨1, 0, true, .start⟩]
    currentTestStep := 1
    chan := [.emu80211 .coverage1 .tstart (some 0)]
    log := [.trigger 0]
    pc := .wait }
  let s₅ : St := { s₄ with results := [.emu80211 .coverage1 .tstart (some 0)], chan := [] }
  let s₆ : St := { s₅ with pc := .drain }
  let s₇ : St := { s₆ with results := [], log := [.exec (some 0) 0, .trigger 0] }
  have hquiet : ∀ s a, s.pc ≠ .after → (∀ index, s.pc ≠ .tick index .aborted) →
      a = .create true ∨ a = .subscribe ∨ a = .thread {} → InTime s a := by
    rintro s a hafter htick (rfl | rfl | rfl) <;> exact inTime_quiet (by simp) (by simp) hafter htick
  have h₁ : next .masking s₀ (.create true) = some s₁ := by decide
  have h₂ : next .masking s₁ .subscribe = some s₂ := by decide
  have h₃ : next .masking s₂ (.thread {}) = some s₃ := by decide
  have h₄ : next .masking s₃ (.thread {}) = some s₄ := by decide
  have h₅ : next .masking s₄ .deliver = some s₅ := by decide
  have h₆ : next .masking s₅ (.thread {}) = some s₆ := by decide
  have h₇ : next .masking s₆ (.thread {}) = some s₇ := by decide
  have hdeliver : InTime s₄ .deliver := ⟨fun _ _ _ _ _ _ => rfl, by simp, by simp, by simp⟩
  have hrun : Run (next .masking) InTime s₀ s₇ :=
    (((((((Run.refl s₀).step (hquiet _ _ (by decide) (by simp [init]) (by simp)) h₁).step
      (hquiet _ _ (by decide) (by simp [s₁]) (by simp)) h₂).step
      (hquiet _ _ (by decide) (by simp [s₂, s₁]) (by simp)) h₃).step
      (hquiet _ _ (by decide) (by simp [s₃]) (by simp)) h₄).step hdeliver h₅).step
      (hquiet _ _ (by decide) (by simp [s₅, s₄]) (by simp)) h₆).step
      (hquiet _ _ (by decide) (by simp [s₆]) (by simp)) h₇
  exact ⟨s₇, hrun, rfl, answered_of_run (by decide) hrun⟩

end Samples

end OneWifiTestSuite.Scheduler
