import OneWifiTestSuite.LocalSteps

/-!
# Steps with workers

The step types that leave their work to a thread:
`test_step_param_packet_generator`, `test_step_param_gateway_performance` and
`test_step_param_logredirect`. Their `step_execute` starts the worker first and assigns wait or continue
afterwards, so that an abort posted in between is lost, and so is a result.
-/

namespace OneWifiTestSuite.WorkerSteps

open Runs Steps SharedCell StepTypes

section Sources

/-- The end of a worker that sets the step to a state. -/
def endWith (v : TestState) : Cmd Bool := do
  writeCell v
  pure false

/-- A call of a worker, which sets abort and ends when the call fails. -/
def orStop (k : Answer → Cmd Bool) : Cmd Bool := do
  let a ← ask
  if a.ok then k a else endWith .abort

/-- What `test_step_param_packet_generator` has decoded: the number of captures in `pcap_queue`, and
`iteration`, `interval` and `fork`. -/
structure PacketGenerator where
  frameCount : BitVec 32
  iteration : BitVec 32
  interval : BitVec 32
  fork : Bool
deriving DecidableEq, Repr

/-- The inner loop of `pkt_gen_cci_thread`. -/
def pktGenFrames (k : Cmd Bool) : ℕ → Cmd Bool
  | 0 => k
  | n + 1 => orStop fun _ => pktGenFrames k n

/-- The outer loop of `pkt_gen_cci_thread`. -/
def pktGenIterations (frames : ℕ) : ℕ → Cmd Bool
  | 0 => endWith .results
  | n + 1 => pktGenFrames (pktGenIterations frames n) frames

/-- `pkt_gen_cci_thread`. -/
def pktGenCciThread (g : PacketGenerator) : Cmd Bool :=
  orStop fun _ => pktGenIterations g.frameCount.toInt.toNat g.iteration.toInt.toNat

/-- `iteration * (interval / 1000)`. -/
def PacketGenerator.seconds (g : PacketGenerator) : ℤ :=
  g.iteration.toInt * g.interval.toInt.tdiv 1000

/-- The product with the unsigned `frame_count`, as an `int`. -/
def PacketGenerator.time (g : PacketGenerator) (seconds : ℤ) : ℤ :=
  (g.frameCount * BitVec.ofInt 32 seconds).toInt

/-- `test_step_param_packet_generator::step_execute`. -/
def packetGeneratorExecute (g : PacketGenerator) (d : Counters) : Cmd (Bool × Counters) := do
  let seconds ← intOf g.seconds
  let d := { d with executionTime := g.time seconds }
  orAbort d fun _ => do
  spawn
  waitOrContinue g.fork d

/-- `test_step_param_packet_generator::step_timeout`. -/
def packetGeneratorTimeout (g : PacketGenerator) (d : Counters) : Cmd (Bool × Counters) := do
  let s ← readCell
  if s ≠ .results then do
    let d ← d.incr
    if d.executionTime > d.timeoutCount then do
      writeCell .cont
      pure (true, d)
    else if d.executionTime = d.timeoutCount then do
      writeCell .results
      cancel
      pure (true, d)
    else waitOrContinue g.fork d
  else pure (true, d)

/-- `test_step_param_packet_generator`. -/
def packetGenerator (g : PacketGenerator) : StepType where
  Data := Counters
  init := .ofTime 15
  stepExecute := packetGeneratorExecute g
  stepTimeout := packetGeneratorTimeout g
  worker _ := pktGenCciThread g

/-- What `test_step_param_gateway_performance` has decoded: whether `cmd_option` is one of the two that
are known, the number of names in `process_status`, `iteration` and `fork`. -/
structure GatewayPerformance where
  known : Bool
  processes : ℕ
  iteration : BitVec 32
  fork : Bool
deriving DecidableEq, Repr

/-- The loop of `performance_log` over `process_status`. -/
def performanceProcesses (k : Cmd Bool) : ℕ → Cmd Bool
  | 0 => k
  | n + 1 => do
      let name ← ask
      if name.flag then
        orStop fun _ => performanceProcesses k n
      else performanceProcesses k n

/-- `performance_log`. -/
def performanceLog (g : GatewayPerformance) : ℕ → Cmd Bool
  | 0 => endWith .results
  | n + 1 =>
      orStop fun _ =>
      orStop fun _ =>
      if g.known = false then endWith .abort
      else
        orStop fun _ =>
        orStop fun _ =>
        orStop fun _ =>
        performanceProcesses (orStop fun _ => performanceLog g n) g.processes

/-- `test_step_param_gateway_performance::step_execute`. -/
def gatewayPerformanceExecute (g : GatewayPerformance) (d : Unit) : Cmd (Bool × Unit) := do
  let s ← readCell
  if s = .start then
    orAbort d fun _ => do
    spawn
    orErr d fun _ =>
      waitOrContinue g.fork d
  else waitOrContinue g.fork d

/-- `test_step_param_gateway_performance::step_timeout`. -/
def gatewayPerformanceTimeout (g : GatewayPerformance) (d : Unit) : Cmd (Bool × Unit) := do
  let s ← readCell
  if s = .results then pure (true, d)
  else do
    let s ← readCell
    if s = .abort then do
      cancel
      pure (false, d)
    else waitOrContinue g.fork d

/-- `test_step_param_gateway_performance`. -/
def gatewayPerformance (g : GatewayPerformance) : StepType where
  Data := Unit
  init := ()
  stepExecute := gatewayPerformanceExecute g
  stepTimeout := gatewayPerformanceTimeout g
  worker _ := performanceLog g g.iteration.toInt.toNat

/-- `log_thread_function`: the start of the thread, and a round of its loop. The answers to the first
question of a round are what `log_operation` says. -/
def logThreadFunction : ℕ → Cmd Bool
  | 0 =>
      orStop fun _ => do
      let buff ← ask
      pure buff.ok
  | _ + 1 => do
      let operation ← ask
      if operation.flag then do
        let bytes ← ask
        if bytes.flag then
          orStop fun _ => pure true
        else pure true
      else pure false

/-- `test_step_param_logredirect::step_execute`; `start` says that `log_operation` is
`log_operation_type_start`. -/
def logRedirectExecute (start : Bool) (d : Unit) : Cmd (Bool × Unit) :=
  if start then do
    let s ← readCell
    if s = .start then
      orAbort d fun _ =>
      orErr d fun _ =>
      orAbort d fun _ => do
      spawn
      orErr d fun _ => do
      writeCell .cont
      pure (true, d)
    else pure (false, d)
  else
    orErr d fun _ =>
    orAbort d fun _ =>
    orAbort d fun _ => do
    writeCell .results
    pure (true, d)

/-- `test_step_param_logredirect::step_timeout`. -/
def logRedirectTimeout (d : Unit) : Cmd (Bool × Unit) := do
  let s ← readCell
  if s = .abort then do
    writeCell .abort
    pure (true, d)
  else do
    writeCell .results
    pure (true, d)

/-- `test_step_param_logredirect`; a stop creates no thread. -/
def logRedirect (start : Bool) : StepType where
  Data := Unit
  init := ()
  stepExecute := logRedirectExecute start
  stepTimeout := logRedirectTimeout
  worker n := if start then logThreadFunction n else pure false

end Sources

section Rules

theorem writes_endWith {W : TestState → Prop} {v : TestState} (h : W v) : Writes W (endWith v) := by
  apply writes_bind
  · simpa using h
  · exact fun _ => writes_pure

theorem writes_orStop {W : TestState → Prop} (hW : W .abort) {k : Answer → Cmd Bool} (h : ∀ a, Writes W (k a)) :
    Writes W (orStop k) := by
  apply writes_bind writes_ask
  exact fun a => writes_ite (h a) (writes_endWith hW)

theorem onlyAborts_orStop {k : Answer → Cmd Bool} (h : ∀ a, OnlyAborts (k a)) : OnlyAborts (orStop k) :=
  writes_orStop (W := (· = .abort)) rfl h

/-- A worker may fail at its first call. -/
theorem plain_orStop {Q : Bool → TestState → Prop} {k : Answer → Cmd Bool} {s : TestState} (h : Q false .abort) :
    Plain Q (orStop k) s := by
  simp only [orStop, plain_bind, plain_ask, plain_ite]
  exact ⟨{ (default : Answer) with ok := false }, by simp, by simp [endWith, h]⟩

theorem over_abort (v : TestState) (h : v = .abort) : Over v := .inr h

theorem over_of_env {W : TestState → Prop} (hW : ∀ v, W v → Over v) {s t : TestState} (henv : Env W s t)
    (h : Over s) : Over t := by
  rcases henv with rfl | ht
  · exact h
  · exact hW t ht

theorem live_of_env {W : TestState → Prop} (hW : ∀ v, W v → Over v) {s t : TestState} (henv : Env W s t)
    (h : s = .wait ∨ s = .cont) : Over t ∨ t = .wait ∨ t = .cont := by
  rcases henv with rfl | ht
  · exact .inr h
  · exact .inl (hW t ht)

theorem sat_orAbort {δ : Type} {W : TestState → Prop} {Q : Bool × δ → TestState → Prop} {d : δ}
    {k : Answer → Cmd (Bool × δ)} {s : TestState}
    (hk : ∀ a t, Env W s t → Sat W (fun _ _ => True) Q (k a) t) (habort : ∀ t, Env W .abort t → Q (false, d) t) :
    Sat W (fun _ _ => True) Q (orAbort d k) s := by
  simp only [orAbort, abortErr, sat_bind, sat_ask, sat_ite, sat_writeCell, sat_pure]
  exact fun a t ht => ⟨fun _ => hk a t ht, fun _ => ⟨fun _ _ => trivial,
    fun u hu u' hu' => habort u' (hu.trans hu')⟩⟩

theorem sat_waitOrContinue {δ : Type} {fork : Bool} {d : δ} {s : TestState} :
    Sat Over (fun _ _ => True) (fun r t => (Over t ∨ t = .wait ∨ t = .cont) ∧ r.2 = d) (waitOrContinue fork d) s := by
  simp only [waitOrContinue, sat_bind, sat_writeCell, sat_pure]
  refine ⟨fun _ _ => trivial, fun t ht t' ht' => ⟨live_of_env (fun _ => id) (ht.trans ht') ?_, trivial⟩⟩
  cases fork <;> simp

variable {agent : Cmd Bool} {B : TestState → TestState → Prop}

theorem may_orAbort {δ : Type} {Q : Bool × δ → TestState → Prop} {d : δ} {k : Answer → Cmd (Bool × δ)} {s : TestState}
    (h : ∀ a, May agent B Q (k a) s) : May agent B Q (orAbort d k) s := by
  simp only [orAbort, may_bind, may_ask, may_ite]
  exact ⟨{ (default : Answer) with ok := true }, fun _ => h _, by simp⟩

theorem may_orErr {δ : Type} {Q : Bool × δ → TestState → Prop} {d : δ} {k : Answer → Cmd (Bool × δ)} {s : TestState}
    (h : ∀ a, May agent B Q (k a) s) : May agent B Q (orErr d k) s := by
  simp only [orErr, may_bind, may_ask, may_ite]
  exact ⟨{ (default : Answer) with ok := true }, fun _ => h _, by simp⟩

theorem may_intOf {Q : ℤ → TestState → Prop} {z : ℤ} {s : TestState}
    (hin : -2147483648 ≤ z ∧ z ≤ 2147483647 → Q z s) (hout : ∃ x : BitVec 32, Q x.toInt s) :
    May agent B Q (intOf z) s := by
  obtain ⟨x, hx⟩ := hout
  simp only [intOf, may_ite, may_bind, may_pure, may_ask]
  exact ⟨hin, fun _ => ⟨{ (default : Answer) with int := x }, hx⟩⟩

/-- An abort is overwritten by the assignment after the start of the worker. -/
theorem may_waitOrContinue {δ : Type} {fork : Bool} {d : δ} {Q : Bool × δ → TestState → Prop} :
    May agent Overwrites Q (waitOrContinue fork d) .abort := by
  cases fork <;> simp [waitOrContinue, Overwrites]

variable {S : StepType}

theorem inTime_of_isMove (s : S.St) {a : Label Answer Job} (ha : a.IsMove) : InTime S s a := by
  cases a with
  | start j =>
      cases ha
  | main r | event | agent i r | drop i =>
      trivial

/-- **The rule for an abort that is lost later**: moves lead from an abort to another state. -/
theorem not_abortStays_of_moves {s t : S.St} (hrun : Run (next S.object) (InTime S) S.start s)
    (hs : s.cell = .abort) (hmoves : Moves S.object s t) (ht : t.cell ≠ .abort) : ¬AbortStays S := by
  intro hstays
  have hkeeps : Run (next S.object) (InTime S) S.start t ∧ t.cell = .abort := by
    clear ht
    induction hmoves with
    | refl =>
        exact ⟨hrun, hs⟩
    | @step u _ a _ ha hnext ih =>
        have hin : InTime S u a := inTime_of_isMove u ha
        exact ⟨.step ih.1 hin hnext, hstays _ _ _ ih.1 hin hnext ih.2⟩
  exact ht hkeeps.2

end Rules

section PacketGenerators

variable {agent : Cmd Bool} (g : PacketGenerator)

theorem writes_pktGenFrames {k : Cmd Bool} (hk : Writes Over k) (n : ℕ) : Writes Over (pktGenFrames k n) := by
  induction n with
  | zero =>
      exact hk
  | succ n ih =>
      exact writes_orStop (.inr rfl) fun _ => ih

theorem writes_pktGenIterations (frames n : ℕ) : Writes Over (pktGenIterations frames n) := by
  induction n with
  | zero =>
      exact writes_endWith (.inl rfl)
  | succ n ih =>
      exact writes_pktGenFrames ih frames

theorem writes_pktGenCciThread : Writes Over (pktGenCciThread g) :=
  writes_orStop (.inr rfl) fun _ => writes_pktGenIterations _ _

/-- A thread that fails at once has posted its abort before the assignment. -/
theorem may_packetGeneratorExecute {Q : Bool × Counters → TestState → Prop} {d : Counters} {s : TestState}
    (hin : -2147483648 ≤ g.seconds ∧ g.seconds ≤ 2147483647 → May (pktGenCciThread g) B Q
      (waitOrContinue g.fork { d with executionTime := g.time g.seconds }) .abort)
    (hout : ∃ x : BitVec 32, May (pktGenCciThread g) B Q
      (waitOrContinue g.fork { d with executionTime := g.time x.toInt }) .abort) :
    May (pktGenCciThread g) B Q (packetGeneratorExecute g d) s := by
  have hspawn : ∀ d, May (pktGenCciThread g) B Q (waitOrContinue g.fork d) .abort →
      May (pktGenCciThread g) B Q (orAbort d fun _ => do spawn; waitOrContinue g.fork d) s := by
    intro d h
    apply may_orAbort
    intro thread
    simp only [may_bind, may_spawn]
    exact plain_orStop ⟨rfl, h⟩
  simp only [packetGeneratorExecute, may_bind]
  exact may_intOf (fun hz => hspawn _ (hin hz)) (hout.imp fun _ hx => hspawn _ hx)

theorem not_abortStays_packetGenerator : ¬AbortStays (packetGenerator g) := by
  apply not_abortStays_of_may
  simp only [packetGenerator, StepType.job, may_bind]
  exact may_packetGeneratorExecute g (fun _ => may_waitOrContinue) ⟨0, may_waitOrContinue⟩

/-- `execution_time` is computed without an overflow, and it is still ahead at the first timeout. -/
def PacketGenerator.Timed : Prop :=
  -2147483648 ≤ g.seconds ∧ g.seconds ≤ 2147483647 ∧ 0 < g.time g.seconds

/-- The step is alive, with an `execution_time` that no timeout will meet. -/
def Missed (d : Counters) (s : TestState) : Prop :=
  (s = .wait ∨ s = .cont) ∧ d.executionTime ≤ 0 ∧ 0 ≤ d.timeoutCount

theorem may_waitOrContinue_missed {fork : Bool} {d : Counters} {s : TestState}
    (htime : d.executionTime ≤ 0) (hcount : 0 ≤ d.timeoutCount) :
    May agent (fun _ _ => False) (fun r t => r.1 = true ∧ Missed r.2 t) (waitOrContinue fork d) s := by
  cases fork <;> simp [waitOrContinue, Missed, htime, hcount]

theorem may_packetGeneratorTimeout {d : Counters} {s : TestState} (h : Missed d s) :
    May agent (fun _ _ => False) (fun r t => Missed r.2 t) (packetGeneratorTimeout g d) s := by
  obtain ⟨hs, htime, hcount⟩ := h
  have hres : s ≠ .results := by
    rcases hs with rfl | rfl <;> decide
  simp only [packetGeneratorTimeout, may_bind, may_readCell, may_ite]
  refine ⟨fun _ => may_incr hcount fun n hn => ⟨fun hlt => ?_, fun _ => ⟨fun heq => ?_, fun _ => ?_⟩⟩, absurd hres⟩
  · simp only at hlt
    omega
  · simp only at heq
    omega
  · exact (may_waitOrContinue_missed (d := ⟨_, n⟩) htime hn.le).mono fun _ _ h => h.2

/-- A timeout of a step whose `execution_time` is ahead completes it or comes closer to it. -/
theorem sat_packetGeneratorTimeout {d : Counters} {s : TestState} (hd : LocalSteps.Ahead d) :
    Sat Over (fun _ _ => True)
      (fun r t => Over t ∨ (t = .wait ∨ t = .cont) ∧ LocalSteps.Ahead r.2 ∧ r.2.left < d.left)
      (packetGeneratorTimeout g d) s := by
  simp only [packetGeneratorTimeout, sat_bind, sat_readCell, sat_ite, sat_pure]
  intro v hv v' hv'
  refine ⟨fun _ => ?_, fun hres => fun t ht => .inl ?_⟩
  · rw [sat_incr hd.1]
    intro t ht
    simp only [sat_writeCell, sat_cancel]
    have hahead : d.timeoutCount < d.executionTime := hd.2
    refine ⟨fun hlt => ⟨fun _ _ => trivial, fun t ht t' ht' => ?_⟩, fun hge =>
      ⟨fun _ => ⟨fun _ _ => trivial, fun t ht t' ht' t'' ht'' => .inl ?_⟩, fun hne => ?_⟩⟩
    · rcases live_of_env (fun _ => id) (ht.trans ht') (.inr rfl) with hover | hlive
      · exact .inl hover
      · exact .inr ⟨hlive, hd.succ (Int.ne_of_gt hlt)⟩
    · exact over_of_env (fun _ => id) ((ht.trans ht').trans ht'') (.inl rfl)
    · simp only [Counters.succ] at hge hne
      omega
  · rw [not_not] at hres
    exact over_of_env (fun _ => id) (hv'.trans ht) (.inl hres)

/-- A thread that ends before the assignment leaves a step that only its `execution_time` completes. -/
theorem completes_packetGenerator_iff (P : Pace (packetGenerator g)) : Completes (packetGenerator g) P ↔ g.Timed := by
  constructor
  · intro h
    by_contra hcond
    revert h
    apply not_completes_of_may (K := Missed)
    · exact fun d s hK => hK.1
    · simp only [packetGenerator, StepType.job, may_bind]
      refine May.mono (Q := fun r t => r.1 = true ∧ Missed r.2 t) ?_ fun r t hr => by simpa [hr.1] using hr.2
      refine may_packetGeneratorExecute g (fun hz => may_waitOrContinue_missed ?_ (Int.le_refl 0))
        ⟨0, may_waitOrContinue_missed ?_ (Int.le_refl 0)⟩
      · by_contra htime
        exact hcond ⟨hz.1, hz.2, by simpa using htime⟩
      · simp [PacketGenerator.time]
    · exact fun d s hK => may_packetGeneratorTimeout g hK
  · rintro ⟨hlow, hhigh, htime⟩
    apply completes_of_measure (W := Over) (I := LocalSteps.Ahead) (μ := Counters.left)
    · exact fun _ => writes_pktGenCciThread g
    · exact fun v hv => hv
    · simp only [packetGenerator, packetGeneratorExecute, sat_bind]
      rw [sat_intOf ⟨hlow, hhigh⟩]
      intro s _
      have hahead : LocalSteps.Ahead ⟨g.time g.seconds, 0⟩ :=
        ⟨(Counters.fits_ofTime (LocalSteps.toInt_le _)), htime⟩
      refine (sat_orAbort (Q := fun r _ => r.2 = ⟨g.time g.seconds, 0⟩) (fun a t _ => ?_) fun _ _ => rfl).mono
        fun r t hr _ => hr ▸ hahead
      simp only [sat_bind, sat_spawn]
      exact fun t _ => sat_waitOrContinue.mono fun r t hr => hr.2
    · exact fun d s hd _ => sat_packetGeneratorTimeout g hd

end PacketGenerators

section GatewayPerformances

variable (g : GatewayPerformance)

/-- The thread may end at once, with results if there is nothing to do. -/
theorem plain_performanceLog {Q : Bool → TestState → Prop} {n : ℕ} {s : TestState}
    (hresults : n = 0 → Q false .results) (habort : n ≠ 0 → Q false .abort) : Plain Q (performanceLog g n) s := by
  cases n with
  | zero =>
      exact hresults rfl
  | succ n =>
      exact plain_orStop (habort (Nat.succ_ne_zero n))

theorem may_gatewayPerformanceExecute {Q : Bool × Unit → TestState → Prop}
    (h : Plain (fun on t => on = false ∧ May ((gatewayPerformance g).worker 0) B Q (waitOrContinue g.fork ()) t)
      ((gatewayPerformance g).worker 0) .start) :
    May ((gatewayPerformance g).worker 0) B Q (gatewayPerformanceExecute g ()) .start := by
  simp only [gatewayPerformanceExecute, may_bind, may_readCell, if_true]
  apply may_orAbort
  intro thread
  simp only [may_bind, may_spawn]
  exact h.mono fun on t ht => ⟨ht.1, may_orErr fun _ => ht.2⟩

/-- With nothing to do, the results of the thread come after the abort of a `step_execute` that cannot
detach it. -/
theorem exists_moves_gatewayPerformance (h : g.iteration.toInt.toNat = 0) :
    ∃ s t, Run (next (gatewayPerformance g).object) (InTime (gatewayPerformance g)) (gatewayPerformance g).start s ∧
      s.cell = .abort ∧ Moves (gatewayPerformance g).object s t ∧ t.cell = .results := by
  obtain ⟨s, hrun, hcell, hmain, hagents, hdata⟩ := exists_executing (S := gatewayPerformance g)
  obtain ⟨cell, data, main, listening, cancelled, agents⟩ := s
  simp only at hcell hmain hagents
  subst hcell hmain hagents
  have hexecute : Run (next (gatewayPerformance g).object) (InTime (gatewayPerformance g)) (gatewayPerformance g).start
      ⟨.start, data, some ((gatewayPerformance g).job .execute data), listening, cancelled, []⟩ :=
    .step hrun (a := .start .execute) (by simp [InTime]) rfl
  have hfailed : Moves (gatewayPerformance g).object
      ⟨.start, data, some ((gatewayPerformance g).job .execute data), listening, cancelled, []⟩
      ⟨.abort, data, some (.pure data), listening, cancelled, [(0, (gatewayPerformance g).object.agent 0)]⟩ := by
    have hread := Moves.of_main (O := (gatewayPerformance g).object) (r := default)
      (s := ⟨.start, data, some ((gatewayPerformance g).job .execute data), listening, cancelled, []⟩) rfl
    have hcreate := hread.trans (.of_main (r := { (default : Answer) with ok := true }) rfl)
    have hspawn := hcreate.trans (.of_main (r := default) rfl)
    have hdetach := hspawn.trans (.of_main (r := { (default : Answer) with ok := false }) rfl)
    exact hdetach.trans (.of_main (r := default) rfl)
  have hworker : Plain (fun on t => on = false ∧ t = .results) ((gatewayPerformance g).object.agent 0) .abort :=
    plain_performanceLog g (fun _ => ⟨rfl, rfl⟩) fun hne => absurd h hne
  obtain ⟨t, v, hmoves, ht, hv⟩ := moves_of_plain (O := (gatewayPerformance g).object)
    (s := ⟨.abort, data, some (.pure data), listening, cancelled, [(0, (gatewayPerformance g).object.agent 0)]⟩)
    (Q := fun _ t => t = .results) rfl hworker
  exact ⟨_, t, hexecute.trans (hfailed.mono fun s a ha => inTime_of_isMove s ha), rfl, hmoves, by rw [ht, hv]⟩

theorem not_abortStays_gatewayPerformance : ¬AbortStays (gatewayPerformance g) := by
  by_cases h : g.iteration.toInt.toNat = 0
  · obtain ⟨s, t, hrun, hs, hmoves, ht⟩ := exists_moves_gatewayPerformance g h
    exact not_abortStays_of_moves hrun hs hmoves (by simp [ht])
  · apply not_abortStays_of_may
    simp only [StepType.job, may_bind]
    exact may_gatewayPerformanceExecute g (plain_performanceLog g (fun hzero => absurd hzero h)
      fun _ => ⟨rfl, may_waitOrContinue⟩)

theorem not_completes_gatewayPerformance (P : Pace (gatewayPerformance g)) :
    ¬Completes (gatewayPerformance g) P := by
  have hlive : ∀ s : TestState, May ((gatewayPerformance g).worker 0) (fun _ _ => False)
      (fun (r : Bool × Unit) t => r.1 = true ∧ (t = .wait ∨ t = .cont)) (waitOrContinue g.fork ()) s := by
    intro s
    cases g.fork <;> simp [waitOrContinue]
  apply not_completes_of_may (K := fun _ s => s = .wait ∨ s = .cont)
  · exact fun _ _ hK => hK
  · simp only [StepType.job, may_bind]
    refine May.mono (Q := fun r t => r.1 = true ∧ (t = .wait ∨ t = .cont)) ?_ fun r t hr => by simpa [hr.1] using hr.2
    exact may_gatewayPerformanceExecute g (plain_performanceLog g (fun _ => ⟨rfl, hlive _⟩) fun _ => ⟨rfl, hlive _⟩)
  · intro d s hs
    have hres : s ≠ .results := by
      rcases hs with rfl | rfl <;> decide
    have habort : s ≠ .abort := by
      rcases hs with rfl | rfl <;> decide
    simp only [gatewayPerformance, gatewayPerformanceTimeout, may_bind, may_readCell, may_ite]
    exact ⟨fun h => absurd h hres, fun _ => ⟨fun h => absurd h habort, fun _ => (hlive s).mono fun _ _ h => h.2⟩⟩

end GatewayPerformances

section LogRedirects

theorem writes_logThreadFunction (n : ℕ) : OnlyAborts (logThreadFunction n) := by
  cases n with
  | zero =>
      exact onlyAborts_orStop fun _ => writes_bind writes_ask fun _ => writes_pure
  | succ n =>
      apply writes_bind writes_ask
      intro operation
      apply writes_ite ?_ writes_pure
      apply writes_bind writes_ask
      exact fun bytes => writes_ite (onlyAborts_orStop fun _ => writes_pure) writes_pure

theorem tame_logRedirectExecute {d : Unit} {s : TestState} (hs : s ≠ .abort) : Tame (logRedirectExecute false d) s := by
  simp [logRedirectExecute, guard_of_ne hs]

theorem tame_logRedirectTimeout {d : Unit} {s : TestState} (hs : s ≠ .abort) : Tame (logRedirectTimeout d) s := by
  simp [logRedirectTimeout, guard_of_ne hs]

theorem abortStays_logRedirect_iff (start : Bool) : AbortStays (logRedirect start) ↔ start = false := by
  constructor
  · intro h
    by_contra hstart
    rw [Bool.not_eq_false] at hstart
    subst hstart
    revert h
    apply not_abortStays_of_may
    simp only [logRedirect, StepType.job, logRedirectExecute, may_bind, if_true, may_readCell]
    refine may_orAbort fun _ => may_orErr fun _ => may_orAbort fun _ => ?_
    simp only [may_bind, may_spawn]
    exact plain_orStop ⟨rfl, may_orErr fun _ => by simp [Overwrites]⟩
  · rintro rfl
    apply abortStays_of_tame
    · exact fun _ => writes_pure
    · exact fun d s hs => tame_logRedirectExecute hs
    · exact fun d s hs => tame_logRedirectTimeout hs
    · exact fun f d s hs => tame_pure

theorem completes_logRedirect (start : Bool) (P : Pace (logRedirect start)) : Completes (logRedirect start) P := by
  apply completes_of_measure (W := (· = TestState.abort)) (I := fun _ => True) (μ := fun _ => 0)
  · intro n
    cases start with
    | false =>
        exact writes_pure
    | true =>
        exact writes_logThreadFunction n
  · exact fun v hv => .inr hv
  · simp
  · intro d s _ _
    simp only [logRedirect, logRedirectTimeout, sat_bind, sat_readCell, sat_ite, sat_writeCell, sat_pure]
    intro v _ v' _
    exact ⟨fun _ => ⟨fun _ _ => trivial, fun t ht t' ht' => .inl (over_of_env over_abort (ht.trans ht') (.inr rfl))⟩,
      fun _ => ⟨fun _ _ => trivial, fun t ht t' ht' => .inl (over_of_env over_abort (ht.trans ht') (.inl rfl))⟩⟩

end LogRedirects

end OneWifiTestSuite.WorkerSteps
