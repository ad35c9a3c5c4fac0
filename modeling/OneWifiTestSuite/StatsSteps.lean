import OneWifiTestSuite.WorkerSteps
import OneWifiTestSuite.StatsSchedule

/-!
# Statistics steps

The step types `test_step_param_get_stats_t`, whose handler of bus events may post an abort at any
time, and `test_step_param_set_stats_t`, which applies its instances one after the other.
-/

namespace OneWifiTestSuite.StatsSteps

open Runs Steps SharedCell StepTypes WorkerSteps
open ByteRegion (Bytes)
open StatsSchedule (Config Entry decodeStatsSetCommonParams queuePeek queuePop)

section Sources

/-- `log_operation_type_t`. -/
inductive LogOperation
  | start
  | stop
  | timer
  | invalid
deriving DecidableEq, Repr

/-- The values of `wifi_mon_stats_type_t` that the decoders set. -/
inductive StatsType
  | radioChannel
  | neighbor
  | associatedDevice
  | radioDiagnostic
  | radioTemperature
deriving DecidableEq, Repr

/-- The types whose decoder sets `scan_mode`; for the others it stays as `memset` left it. -/
def StatsType.hasScanMode : StatsType → Bool
  | .radioChannel | .neighbor => true
  | .associatedDevice | .radioDiagnostic | .radioTemperature => false

/-- What `test_step_param_get_stats_t` has decoded; `scanKnown` says that `scan_mode` is one of the four
values that `get_scanmode` knows. -/
structure StatsGet where
  op : LogOperation
  timeout : BitVec 32
  dataType : StatsType
  scanKnown : Bool
  decoded : dataType.hasScanMode = true → scanKnown = true
deriving DecidableEq, Repr

/-- `stats_get_event_handler`. -/
def statsGetEventHandler : Cmd Bool := do
  let data ← ask
  if data.ok then do
    let timestamp ← ask
    if timestamp.ok then
      orStop fun _ =>
      orStop fun _ =>
      pure false
    else pure false
  else pure false

/-- `get_scanmode` and `get_scanmode_str`. -/
def getScanmode (g : StatsGet) : Cmd Bool :=
  if g.scanKnown then pure true
  else do
    writeCell .abort
    pure false

/-- `get_subscription_string`: the scan mode is asked for before the type is looked at. -/
def getSubscriptionString (g : StatsGet) : Cmd Bool := do
  let _ ← getScanmode g
  if g.dataType.hasScanMode then getScanmode g else pure true

/-- `update_output_file_name`. -/
def updateOutputFileName (g : StatsGet) : Cmd Bool :=
  if g.dataType.hasScanMode then getScanmode g else pure true

/-- `start_subscription`. -/
def startSubscription (g : StatsGet) : Cmd Bool := do
  let string ← getSubscriptionString g
  if string then do
    let rc ← ask
    if rc.ok then do
      listen true
      pure true
    else do
      writeCell .abort
      pure false
  else pure false

/-- `stop_subscription`; `self` says that the step is the one that is stopped. -/
def stopSubscription (g : StatsGet) (self : Bool) : Cmd Bool := do
  let string ← getSubscriptionString g
  if string then do
    let rc ← ask
    if self then
      if rc.ok then do
        listen false
        writeCell .results
        pure true
      else do
        writeCell .abort
        pure false
    else pure rc.ok
  else pure false

/-- `test_step_param_get_stats_t::step_execute`. A `Stop` step may name itself. -/
def statsGetExecute (g : StatsGet) (d : Counters) : Cmd (Bool × Counters) :=
  match g.op with
  | .start => do
      let started ← startSubscription g
      if started then do
        writeCell .wait
        let named ← updateOutputFileName g
        pure (named, d)
      else pure (false, d)
  | .stop =>
      orAbort d fun step => do
      let stopped ← stopSubscription g step.flag
      if stopped then do
        writeCell .results
        pure (true, d)
      else pure (false, d)
  | .timer => do
      let started ← startSubscription g
      if started then do
        let d := { d with executionTime := g.timeout.toInt }
        writeCell .cont
        let named ← updateOutputFileName g
        pure (named, d)
      else pure (false, d)
  | .invalid => pure (true, d)

/-- `test_step_param_get_stats_t::step_timeout`. -/
def statsGetTimeout (g : StatsGet) (d : Counters) : Cmd (Bool × Counters) := do
  let s ← readCell
  if s ≠ .results ∧ g.op = .timer then do
    let d ← d.incr
    if d.executionTime = d.timeoutCount then do
      let _ ← stopSubscription g true
      writeCell .results
      pure (true, d)
    else do
      writeCell .cont
      pure (true, d)
  else if g.op = .stop ∨ g.op = .start then do
    writeCell .results
    pure (true, d)
  else do
    writeCell .abort
    pure (true, d)

/-- `test_step_param_get_stats_t`; a stop subscribes to nothing. -/
def statsGet (g : StatsGet) : StepType where
  Data := Counters
  init := .ofTime 15
  stepExecute := statsGetExecute g
  stepTimeout := statsGetTimeout g
  worker _ := if g.op = .start ∨ g.op = .timer then statsGetEventHandler else pure false

/-- What `test_step_param_set_stats_t` has decoded. -/
structure StatsSet where
  entries : List (Entry Bytes)
  fork : Bool
  step : StatsSchedule.St Bytes
  decoded : decodeStatsSetCommonParams entries (.init fork) = some step
  /-- `stats_duration` is an `int` -/
  int : ∀ c ∈ step.statsSetQ, c.statsDuration ≤ 2147483647

/-- What the callbacks change. -/
structure StatsSetData where
  statsSetQ : List (Config Bytes)
  currentStatsSetCount : ℤ
  setExecDuration : ℤ
  counters : Counters

/-- `webconfig_stats_set_instance`. -/
def statsSetInstance (d : StatsSetData) : Cmd Bool :=
  if d.statsSetQ ≠ [] ∧ 0 ≤ d.currentStatsSetCount then
    match queuePeek d.statsSetQ d.currentStatsSetCount with
    | none => do
        writeCell .abort
        pure false
    | some _ => do
        let start ← ask
        if start.ok then pure true
        else do
          writeCell .abort
          pure false
  else pure true

/-- `test_step_param_set_stats_t::step_execute`. -/
def statsSetExecute (g : StatsSet) (d : StatsSetData) : Cmd (Bool × StatsSetData) := do
  let d := { d with
    currentStatsSetCount := d.statsSetQ.length - 1
    setExecDuration := 0
    counters := { d.counters with executionTime := g.step.totalDuration } }
  let applied ← statsSetInstance d
  if applied then waitOrContinue g.fork d else abortErr d

/-- The end of `step_timeout`: the emulation is stopped at the execution time. -/
def statsSetFinish (d : StatsSetData) : Cmd (Bool × StatsSetData) :=
  if d.counters.timeoutCount = d.counters.executionTime then
    orAbort d fun _ => do
    writeCell .results
    pure (true, d)
  else if d.counters.timeoutCount > d.counters.executionTime then do
    let _ ← ask
    abortErr d
  else pure (true, d)

/-- The part of `step_timeout` that moves to the next instance. -/
def statsSetNext (fork : Bool) (d : StatsSetData) : Cmd (Bool × StatsSetData) :=
  match queuePop d.statsSetQ with
  | (_, none) => abortErr d
  | (q, some _) => do
      let d := { d with statsSetQ := q, currentStatsSetCount := q.length - 1, setExecDuration := 0 }
      let applied ← statsSetInstance d
      if applied then do
        let duration ← intOf (d.setExecDuration + 1)
        waitOrContinue fork { d with setExecDuration := duration }
      else abortErr d

/-- The part of `step_timeout` after the count: the current instance is over, or it is not. -/
def statsSetOver (fork : Bool) (reference : Config Bytes) (d : StatsSetData) : Cmd (Bool × StatsSetData) :=
  if d.setExecDuration = reference.statsDuration then statsSetNext fork d else statsSetFinish d

/-- `test_step_param_set_stats_t::step_timeout`. -/
def statsSetTimeout (g : StatsSet) (d : StatsSetData) : Cmd (Bool × StatsSetData) :=
  if d.statsSetQ ≠ [] ∧ 0 ≤ d.currentStatsSetCount then
    match queuePeek d.statsSetQ d.currentStatsSetCount with
    | none => abortErr d
    | some reference =>
        if d.counters.timeoutCount < d.counters.executionTime then do
          let c ← d.counters.incr
          let d := { d with counters := c }
          if d.setExecDuration < reference.statsDuration then do
            let duration ← intOf (d.setExecDuration + 1)
            waitOrContinue g.fork { d with setExecDuration := duration }
          else statsSetOver g.fork reference d
        else statsSetOver g.fork reference d
  else statsSetFinish d

/-- `test_step_param_set_stats_t`. -/
def statsSet (g : StatsSet) : StepType where
  Data := StatsSetData
  init := ⟨g.step.statsSetQ, 0, 0, .ofTime 0⟩
  stepExecute := statsSetExecute g
  stepTimeout := statsSetTimeout g

end Sources

section StatsGets

variable (g : StatsGet)

theorem writes_statsGetEventHandler : OnlyAborts statsGetEventHandler := by
  apply writes_bind writes_ask
  intro data
  apply writes_ite ?_ writes_pure
  apply writes_bind writes_ask
  exact fun timestamp => writes_ite (onlyAborts_orStop fun _ => onlyAborts_orStop fun _ => writes_pure) writes_pure

/-- The handler may post an abort. -/
theorem plain_statsGetEventHandler {Q : Bool → TestState → Prop} {s : TestState} (h : Q false .abort) :
    Plain Q statsGetEventHandler s := by
  simp only [statsGetEventHandler, plain_bind, plain_ask, plain_ite]
  have hok : ({ (default : Answer) with ok := true }).ok = true := rfl
  exact ⟨_, fun _ => ⟨_, fun _ => plain_orStop h, fun hno => absurd hok hno⟩, fun hno => absurd hok hno⟩

/-- A subscription may be accepted, over an abort of `get_scanmode` where the scan mode is not known. -/
theorem may_getSubscriptionString {agent : Cmd Bool} {B : TestState → TestState → Prop} {Q : Bool → TestState → Prop}
    {s : TestState} (hknown : g.scanKnown = true → Q true s) (hunknown : g.scanKnown = false → Q true .abort) :
    May agent B Q (getSubscriptionString g) s := by
  simp only [getSubscriptionString, getScanmode, may_bind]
  cases hscan : g.scanKnown with
  | true =>
      simp [hknown hscan]
  | false =>
      have hmode : g.dataType.hasScanMode = false := by
        by_contra hmode
        have := g.decoded (by simpa using hmode)
        simp [hscan] at this
      simp [hmode, hunknown hscan]

/-- The condition for an abort to stay: the step neither subscribes nor asks for an unknown scan mode. -/
def StatsGet.Quiet : Prop :=
  g.op = .invalid ∨ g.op = .stop ∧ g.scanKnown = true

theorem tame_statsGetExecute {d : Counters} {s : TestState} (h : g.Quiet) (hs : s ≠ .abort) :
    Tame (statsGetExecute g d) s := by
  rcases h with hop | ⟨hop, hscan⟩
  · simp [statsGetExecute, hop]
  · have hresults : Guard .results .results := guard_of_ne (by decide)
    simp [Tame, statsGetExecute, hop, orAbort, abortErr, stopSubscription, getSubscriptionString, getScanmode, hscan,
      guard_of_ne hs, hresults]

theorem tame_statsGetTimeout {d : Counters} {s : TestState} (h : g.Quiet) (hs : s ≠ .abort) :
    Tame (statsGetTimeout g d) s := by
  rcases h with hop | ⟨hop, hscan⟩ <;> simp [statsGetTimeout, hop, guard_of_ne hs]

/-- A subscription may leave an abort behind: that of `get_scanmode`, or that of an event. -/
theorem may_startSubscription {B : TestState → TestState → Prop} {Q : Bool → TestState → Prop} {s : TestState}
    (h : Q true .abort) : May statsGetEventHandler B Q (startSubscription g) s := by
  have hok : ({ (default : Answer) with ok := true }).ok = true := rfl
  simp only [startSubscription, may_bind]
  apply may_getSubscriptionString
  · intro hscan
    simp only [if_true, may_bind, may_ask, may_ite, may_listen, may_pure]
    exact ⟨_, fun _ => .inr ⟨trivial, plain_statsGetEventHandler ⟨rfl, h⟩⟩, fun hno => absurd hok hno⟩
  · intro hscan
    simp only [if_true, may_bind, may_ask, may_ite, may_listen, may_pure]
    exact ⟨_, fun _ => .inl h, fun hno => absurd hok hno⟩

theorem abortStays_statsGet_iff : AbortStays (statsGet g) ↔ g.Quiet := by
  constructor
  · intro h
    by_contra hquiet
    revert h
    apply not_abortStays_of_may
    simp only [statsGet, StepType.job, may_bind]
    cases hop : g.op with
    | start =>
        simp only [statsGetExecute, hop, true_or, if_true, may_bind]
        exact may_startSubscription g (by simp [Overwrites])
    | timer =>
        simp only [statsGetExecute, hop, or_true, if_true, may_bind]
        exact may_startSubscription g (by simp [Overwrites])
    | stop =>
        have hscan : g.scanKnown = false := by
          by_contra hscan
          exact hquiet (.inr ⟨hop, by simpa using hscan⟩)
        have hmode : g.dataType.hasScanMode = false := by
          by_contra hmode
          have := g.decoded (by simpa using hmode)
          simp [hscan] at this
        simp only [statsGetExecute, hop]
        refine may_orAbort fun step => ?_
        simp only [stopSubscription, getSubscriptionString, getScanmode, hscan, hmode, may_bind, Bool.false_eq_true,
          if_false, if_true, may_writeCell, may_pure, may_ask]
        refine .inr ⟨{ (default : Answer) with ok := true }, ?_⟩
        cases step.flag <;> simp [Overwrites]
    | invalid =>
        exact absurd (.inl hop) hquiet
  · intro hquiet
    apply abortStays_of_tame
    · intro n
      rcases hquiet with hop | ⟨hop, -⟩ <;> simp [statsGet, hop]
    · exact fun d s hs => tame_statsGetExecute g hquiet hs
    · exact fun d s hs => tame_statsGetTimeout g hquiet hs
    · exact fun f d s hs => tame_pure

/-- A subscription may be accepted while no event comes. -/
theorem may_startSubscription_silent {agent : Cmd Bool} {B : TestState → TestState → Prop}
    {Q : Bool → TestState → Prop} {s : TestState} (h : ∀ t, Q true t) : May agent B Q (startSubscription g) s := by
  have hok : ({ (default : Answer) with ok := true }).ok = true := rfl
  simp only [startSubscription, may_bind]
  apply may_getSubscriptionString
  · intro _
    simp only [if_true, may_bind, may_ask, may_ite, may_listen, may_pure]
    exact ⟨_, fun _ => .inl (h s), fun hno => absurd hok hno⟩
  · intro _
    simp only [if_true, may_bind, may_ask, may_ite, may_listen, may_pure]
    exact ⟨_, fun _ => .inl (h .abort), fun hno => absurd hok hno⟩

theorem may_updateOutputFileName {agent : Cmd Bool} {B : TestState → TestState → Prop}
    {Q : Bool → TestState → Prop} {s : TestState} (h : Q true s) : May agent B Q (updateOutputFileName g) s := by
  simp only [updateOutputFileName, getScanmode]
  cases hmode : g.dataType.hasScanMode with
  | true =>
      simp [g.decoded hmode, h]
  | false =>
      simp [h]

/-- A timeout of a statistics step without a timer completes it. -/
theorem sat_statsGetTimeout {d : Counters} {s : TestState} (h : g.op ≠ .timer) :
    Sat (· = TestState.abort) (fun _ _ => True) (fun _ t => Over t) (statsGetTimeout g d) s := by
  simp only [statsGetTimeout, h, and_false, if_false, sat_bind, sat_readCell, sat_ite, sat_writeCell, sat_pure]
  intro v _ v' _
  exact ⟨fun _ => ⟨fun _ _ => trivial, fun t ht t' ht' => over_of_env over_abort (ht.trans ht') (.inl rfl)⟩,
    fun _ => ⟨fun _ _ => trivial, fun t ht t' ht' => over_of_env over_abort (ht.trans ht') (.inr rfl)⟩⟩

/-- A timeout of a timer that is ahead completes the step or comes closer to it. -/
theorem sat_statsGetTimeout_timer {d : Counters} {s : TestState} (h : g.op = .timer) (hd : LocalSteps.Ahead d) :
    Sat (· = TestState.abort) (fun _ _ => True)
      (fun r t => Over t ∨ (t = .wait ∨ t = .cont) ∧ LocalSteps.Ahead r.2 ∧ r.2.left < d.left)
      (statsGetTimeout g d) s := by
  simp only [statsGetTimeout, h, sat_bind, sat_readCell, sat_ite, sat_writeCell, sat_pure]
  intro v hv v' hv'
  refine ⟨fun _ => ?_, fun hres => ⟨fun hother => ?_, fun _ => ⟨fun _ _ => trivial, fun t ht t' ht' => ?_⟩⟩⟩
  · rw [sat_incr hd.1]
    intro t ht
    refine ⟨fun heq => ?_, fun hne => ⟨fun _ _ => trivial, fun t ht t' ht' => ?_⟩⟩
    · refine sat_true.mono fun _ _ _ => ⟨fun _ _ => trivial, fun t ht t' ht' => .inl ?_⟩
      exact over_of_env over_abort (ht.trans ht') (.inl rfl)
    · rcases live_of_env over_abort (ht.trans ht') (.inr rfl) with hover | hlive
      · exact .inl hover
      · exact .inr ⟨hlive, hd.succ hne⟩
  · simp at hother
  · exact .inl (over_of_env over_abort (ht.trans ht') (.inr rfl))

theorem completes_statsGet_iff (P : Pace (statsGet g)) :
    Completes (statsGet g) P ↔ (g.op = .timer → 0 < g.timeout.toInt) := by
  constructor
  · intro h hop
    by_contra htime
    rw [not_lt] at htime
    revert h
    apply not_completes_of_may (K := Missed)
    · exact fun d s hK => hK.1
    · simp only [statsGet, StepType.job, statsGetExecute, hop, may_bind]
      refine may_startSubscription_silent g fun t => ?_
      simp only [if_true, may_bind, may_writeCell]
      exact .inr (may_updateOutputFileName g (by simp [Missed, htime, Counters.ofTime]))
    · rintro d s ⟨hs, hexec, hcount⟩
      have hres : s ≠ .results := by
        rcases hs with rfl | rfl <;> decide
      simp only [statsGet, statsGetTimeout, hop, may_bind, may_readCell, may_ite]
      refine ⟨fun _ => may_incr hcount fun n hn => ⟨fun heq => ?_, fun _ => .inr ⟨.inr rfl, hexec, hn.le⟩⟩,
        fun h => absurd ⟨hres, trivial⟩ h⟩
      simp only at heq
      omega
  · intro htime
    by_cases hop : g.op = .timer
    · apply completes_of_measure (W := (· = TestState.abort)) (I := LocalSteps.Ahead) (μ := Counters.left)
      · exact fun _ => writes_ite writes_statsGetEventHandler writes_pure
      · exact fun v hv => .inr hv
      · have hfits : LocalSteps.Ahead (.ofTime 15) := ⟨Counters.fits_ofTime (by decide), by decide⟩
        have hahead : LocalSteps.Ahead ⟨g.timeout.toInt, 0⟩ :=
          ⟨Counters.fits_ofTime (LocalSteps.toInt_le _), htime hop⟩
        simp only [statsGet, statsGetExecute, hop, sat_bind]
        refine sat_true.mono fun started t _ => ?_
        cases started with
        | false =>
            exact fun _ _ _ => hfits
        | true =>
            simp only [if_true, sat_bind, sat_writeCell]
            exact ⟨fun _ _ => trivial, fun t _ => sat_true.mono fun _ _ _ _ _ _ => hahead⟩
      · exact fun d s hd _ => sat_statsGetTimeout_timer g hop hd
    · apply completes_of_measure (W := (· = TestState.abort)) (I := fun _ => True) (μ := fun _ => 0)
      · exact fun _ => writes_ite writes_statsGetEventHandler writes_pure
      · exact fun v hv => .inr hv
      · simp
      · exact fun d s _ _ => (sat_statsGetTimeout g hop).mono fun _ _ h => .inl h

end StatsGets

section StatsSets

variable {s : TestState}

theorem tame_waitOrContinue {δ : Type} {fork : Bool} {d : δ} (hs : s ≠ .abort) : Tame (waitOrContinue fork d) s := by
  simp [waitOrContinue, guard_of_ne hs]

/-- An instance that fails leaves abort. -/
theorem tame_statsSetInstance_bind {d : StatsSetData} {k : Bool → Cmd (Bool × StatsSetData)}
    (htrue : Tame (k true) s) (hfalse : Tame (k false) .abort) : Tame (statsSetInstance d >>= k) s := by
  unfold statsSetInstance
  by_cases hd : d.statsSetQ ≠ [] ∧ 0 ≤ d.currentStatsSetCount
  · rw [if_pos hd]
    cases queuePeek d.statsSetQ d.currentStatsSetCount with
    | none =>
        simpa [Tame] using hfalse
    | some reference =>
        simp only [Tame, sat_bind, sat_ask, env_alone, sat_ite, sat_pure, sat_writeCell, forall_eq]
        exact fun a => ⟨fun _ => htrue, fun _ => ⟨fun _ => rfl, hfalse⟩⟩
  · rw [if_neg hd]
    exact htrue

theorem tame_statsSetFinish {d : StatsSetData} (hs : s ≠ .abort) : Tame (statsSetFinish d) s := by
  simp [statsSetFinish, guard_of_ne hs]

theorem tame_statsSetOver {fork : Bool} {reference : Config Bytes} {d : StatsSetData} (hs : s ≠ .abort) :
    Tame (statsSetOver fork reference d) s := by
  simp only [statsSetOver, tame_ite]
  refine ⟨fun _ => ?_, fun _ => tame_statsSetFinish hs⟩
  unfold statsSetNext
  cases queuePop d.statsSetQ with
  | mk q popped =>
      cases popped with
      | none =>
          exact tame_abortErr
      | some instance' =>
          apply tame_statsSetInstance_bind
          · exact tame_intOf_bind fun _ => tame_waitOrContinue hs
          · exact tame_abortErr

theorem tame_statsSetTimeout {g : StatsSet} {d : StatsSetData} (hs : s ≠ .abort) : Tame (statsSetTimeout g d) s := by
  unfold statsSetTimeout
  simp only [tame_ite]
  refine ⟨fun _ => ?_, fun _ => tame_statsSetFinish hs⟩
  cases queuePeek d.statsSetQ d.currentStatsSetCount with
  | none =>
      exact tame_abortErr
  | some reference =>
      simp only [tame_ite]
      refine ⟨fun _ => tame_incr_bind fun c => ?_, fun _ => tame_statsSetOver hs⟩
      simp only [tame_ite]
      exact ⟨fun _ => tame_intOf_bind fun _ => tame_waitOrContinue hs, fun _ => tame_statsSetOver hs⟩

theorem abortStays_statsSet (g : StatsSet) : AbortStays (statsSet g) := by
  apply abortStays_of_tame
  · exact fun _ => writes_pure
  · intro d s hs
    exact tame_statsSetInstance_bind (tame_waitOrContinue hs) tame_abortErr
  · exact fun d s hs => tame_statsSetTimeout hs
  · exact fun f d s hs => tame_pure

/-- The instances that are left are applied for no less than the time that is left, or one of them is
never over. -/
def Lasts (time : ℤ) : ℤ → ℤ → List (Config Bytes) → Prop
  | count, _, [] => time ≤ count
  | count, elapsed, c :: rest =>
      c.statsDuration < elapsed ∨ Lasts time (count + (c.statsDuration - elapsed) + 1) 1 rest

/-- The invariant of a step that waits; `pending` are the instances that are left, the current one
first. -/
structure Paced (d : StatsSetData) (pending : List (Config Bytes)) : Prop where
  queue : d.statsSetQ = pending.reverse
  current : d.currentStatsSetCount = d.statsSetQ.length - 1
  elapsed : 0 ≤ d.setExecDuration
  count : 0 ≤ d.counters.timeoutCount
  time : d.counters.executionTime ≤ 2147483647
  int : ∀ c ∈ pending, c.statsDuration ≤ 2147483647
  lasts : d.counters.executionTime ≤ d.counters.timeoutCount ∨
    Lasts d.counters.executionTime d.counters.timeoutCount d.setExecDuration pending

/-- The timeouts that are left, at most. -/
def StatsSetData.left (d : StatsSetData) : ℕ := d.counters.left + d.statsSetQ.length

variable {d : StatsSetData} {pending rest : List (Config Bytes)} {c : Config Bytes}

theorem Paced.peek (h : Paced d (c :: rest)) :
    (d.statsSetQ ≠ [] ∧ 0 ≤ d.currentStatsSetCount) ∧ queuePeek d.statsSetQ d.currentStatsSetCount = some c := by
  have hcurrent : d.currentStatsSetCount = (rest.length : ℤ) := by
    rw [h.current, h.queue]
    simp
  refine ⟨⟨by simp [h.queue], by omega⟩, ?_⟩
  rw [hcurrent, h.queue]
  simp [queuePeek]

theorem sat_statsSetInstance (d : StatsSetData) (s : TestState) :
    Sat Alone (fun _ _ => True) (fun applied t => applied = true ∧ t = s ∨ applied = false ∧ t = .abort)
      (statsSetInstance d) s := by
  unfold statsSetInstance
  by_cases hd : d.statsSetQ ≠ [] ∧ 0 ≤ d.currentStatsSetCount
  · rw [if_pos hd]
    cases queuePeek d.statsSetQ d.currentStatsSetCount <;> simp
  · rw [if_neg hd]
    simp

theorem sat_statsSetNext {fork : Bool} (h : Paced d (c :: rest)) :
    Sat Alone (fun _ _ => True) (fun r t => Over t ∨ (t = .wait ∨ t = .cont) ∧
      r.2 = { d with statsSetQ := rest.reverse, currentStatsSetCount := rest.length - 1, setExecDuration := 1 })
      (statsSetNext fork d) s := by
  have hpop : queuePop d.statsSetQ = (rest.reverse, some c) := by
    simp [queuePop, h.queue]
  simp only [statsSetNext, hpop, sat_bind]
  refine (sat_statsSetInstance _ s).mono fun applied t ht => ?_
  rcases ht with ⟨rfl, rfl⟩ | ⟨rfl, rfl⟩
  · simp only [if_true, sat_bind]
    rw [sat_intOf ⟨by omega, by omega⟩]
    intro t _
    cases fork <;> simp [waitOrContinue]
  · simp [abortErr, Over]

theorem sat_statsSetFinish (d : StatsSetData) (s : TestState) :
    Sat Alone (fun _ _ => True)
      (fun r t => Over t ∨ t = s ∧ r.2 = d ∧ d.counters.timeoutCount < d.counters.executionTime)
      (statsSetFinish d) s := by
  simp only [statsSetFinish, sat_ite]
  refine ⟨fun _ => ?_, fun hne => ⟨fun _ => ?_, fun hle => ?_⟩⟩
  · simp [orAbort, abortErr, Over]
  · simp [abortErr, Over]
  · have hlt : d.counters.timeoutCount < d.counters.executionTime := by omega
    simp [hlt]

theorem Lasts.mono {time count count' elapsed : ℤ} (h : Lasts time count elapsed pending) (hle : count ≤ count') :
    Lasts time count' elapsed pending := by
  induction pending generalizing count count' elapsed with
  | nil =>
      exact le_trans h hle
  | cons c rest ih =>
      exact h.imp_right fun hrest => ih hrest (by omega)

/-- Instances that last for the whole time. -/
theorem lasts_of_sum {time count : ℤ}
    (h : 0 ≤ (pending.map Config.statsDuration).sum → time ≤ count + (pending.map Config.statsDuration).sum) :
    Lasts time count 1 pending := by
  induction pending generalizing count with
  | nil =>
      simpa [Lasts] using h
  | cons c rest ih =>
      by_cases hc : c.statsDuration < 1
      · exact .inl hc
      · simp only [List.map_cons, List.sum_cons] at h
        exact .inr (ih fun hrest => by omega)

theorem Paced.count_succ (h : Paced d pending) : Paced { d with counters := d.counters.succ } pending := by
  have hcount : d.counters.timeoutCount ≤ d.counters.succ.timeoutCount := by
    simp [Counters.succ]
  exact ⟨h.queue, h.current, h.elapsed, h.count.trans hcount, h.time, h.int,
    h.lasts.imp (fun hle => le_trans hle hcount) fun hlasts => hlasts.mono hcount⟩

/-- The step is over, or it waits for a timeout with the invariant, and fewer timeouts are left. -/
def Onward (d : StatsSetData) (r : Bool × StatsSetData) (t : TestState) : Prop :=
  Over t ∨ (t = .wait ∨ t = .cont) ∧ (∃ pending, Paced r.2 pending) ∧ r.2.left < d.left

/-- The end of a timeout; `d₀` is the step before the count. -/
theorem sat_statsSetOver {fork : Bool} {d₀ : StatsSetData} (h : Paced d (c :: rest)) (hs : s = .wait ∨ s = .cont)
    (hlast : d.setExecDuration = c.statsDuration → d.counters.executionTime ≤ d.counters.timeoutCount ∨
      Lasts d.counters.executionTime d.counters.timeoutCount 1 rest)
    (hqueue : d.statsSetQ = d₀.statsSetQ) (hexec : d.counters.executionTime = d₀.counters.executionTime)
    (hcount : d₀.counters.timeoutCount ≤ d.counters.timeoutCount)
    (hless : d.counters.timeoutCount < d.counters.executionTime →
      d₀.counters.timeoutCount < d.counters.timeoutCount) :
    Sat Alone (fun _ _ => True) (Onward d₀) (statsSetOver fork c d) s := by
  simp only [statsSetOver, sat_ite]
  constructor
  · intro heq
    refine (sat_statsSetNext h).mono fun r t ht => ?_
    rcases ht with hover | ⟨hlive, hr⟩
    · exact .inl hover
    · refine .inr ⟨hlive, ⟨rest, ?_⟩, ?_⟩
      · rw [hr]
        exact ⟨rfl, by simp, by simp, h.count, h.time, fun c hc => h.int c (List.mem_cons_of_mem _ hc), hlast heq⟩
      · rw [hr]
        simp only [StatsSetData.left, Counters.left, ← hqueue, ← hexec, h.queue, List.length_reverse, List.length_cons]
        omega
  · intro _
    refine (sat_statsSetFinish d s).mono fun r t ht => ?_
    rcases ht with hover | ⟨rfl, hr, hlt⟩
    · exact .inl hover
    · have hcounted := hless hlt
      refine .inr ⟨hs, ⟨c :: rest, hr ▸ h⟩, ?_⟩
      rw [hr]
      simp only [StatsSetData.left, Counters.left, ← hqueue, ← hexec]
      omega

/-- A timeout within the duration. -/
theorem onward_stay (h : Paced d (c :: rest)) (hlt : d.counters.timeoutCount < d.counters.executionTime)
    (hstay : d.setExecDuration < c.statsDuration) {t : TestState} (ht : t = .wait ∨ t = .cont) :
    Onward d (true, { d with setExecDuration := d.setExecDuration + 1, counters := d.counters.succ }) t := by
  have hlasts := h.lasts.resolve_left (by omega)
  have hsum : d.counters.timeoutCount + 1 + (c.statsDuration - (d.setExecDuration + 1)) + 1 =
      d.counters.timeoutCount + (c.statsDuration - d.setExecDuration) + 1 := by omega
  have hleft : d.counters.succ.left < d.counters.left := by
    simp only [Counters.left, Counters.succ]
    omega
  have hnext := h.count_succ
  refine .inr ⟨ht, ⟨c :: rest, h.queue, h.current, ?_, hnext.count, h.time, h.int, .inr (.inr ?_)⟩,
    Nat.add_lt_add_right hleft _⟩
  · have := h.elapsed
    simp only
    omega
  · simp only [Counters.succ, hsum]
    exact hlasts.resolve_left (by omega)

theorem sat_statsSetTimeout (g : StatsSet) (h : Paced d pending) (hs : s = .wait ∨ s = .cont) :
    Sat Alone (fun _ _ => True) (Onward d) (statsSetTimeout g d) s := by
  cases pending with
  | nil =>
      have hempty : d.statsSetQ = [] := by
        simpa using h.queue
      have htime : d.counters.executionTime ≤ d.counters.timeoutCount := h.lasts.elim id id
      unfold statsSetTimeout
      rw [if_neg (by simp [hempty])]
      refine (sat_statsSetFinish d s).mono fun r t ht => ?_
      rcases ht with hover | ⟨-, -, hlt⟩
      · exact .inl hover
      · omega
  | cons c rest =>
      obtain ⟨hguard, hpeek⟩ := h.peek
      unfold statsSetTimeout
      simp only [if_pos hguard, hpeek, sat_ite]
      constructor
      · intro hlt
        have htime := h.time
        simp only [sat_bind]
        rw [sat_incr ⟨h.count, by omega, h.time⟩]
        intro t ht
        obtain rfl : t = s := env_alone.mp ht
        simp only [sat_ite]
        constructor
        · intro hstay
          have hint := h.int c (List.mem_cons_self ..)
          have helapsed := h.elapsed
          simp only [sat_bind]
          rw [sat_intOf ⟨by omega, by omega⟩]
          intro t _
          cases g.fork <;> simp [waitOrContinue, onward_stay h hlt hstay]
        · intro _
          refine sat_statsSetOver h.count_succ hs (fun heq => .inr ?_) rfl rfl ?_ ?_
          · have hlasts := (h.lasts.resolve_left (by omega)).resolve_left (by simp [← heq])
            simpa [Counters.succ, ← heq] using hlasts
          · simp [Counters.succ]
          · simp [Counters.succ]
      · intro hge
        exact sat_statsSetOver h hs (fun _ => .inl (by omega)) rfl rfl le_rfl fun hlt => absurd hlt hge

/-- The invariant of a step that has just been executed. -/
theorem paced_executed (g : StatsSet) : Paced ⟨g.step.statsSetQ, g.step.statsSetQ.length - 1, 0,
    { Counters.ofTime 0 with executionTime := g.step.totalDuration }⟩ g.step.statsSetQ.reverse := by
  have htotal : g.step.totalDuration = (g.step.statsSetQ.reverse.map Config.statsDuration).sum.bmod (2 ^ 32) := by
    obtain ⟨cs, -, hstep⟩ := StatsSchedule.decode_spec 0 rfl g.decoded
    rw [hstep]
    simp [StatsSchedule.St.init]
  refine ⟨by simp, rfl, le_rfl, le_rfl, ?_, fun c hc => g.int c (List.mem_reverse.mp hc), ?_⟩
  · simp only [htotal]
    have := Int.bmod_lt (x := (g.step.statsSetQ.reverse.map Config.statsDuration).sum) (m := 2 ^ 32) (by decide)
    omega
  · simp only [htotal]
    cases hpending : g.step.statsSetQ.reverse with
    | nil =>
        exact .inl (by simp [Counters.ofTime])
    | cons c rest =>
        refine .inr ?_
        by_cases hc : c.statsDuration < 0
        · exact .inl hc
        · refine .inr (lasts_of_sum fun hrest => ?_)
          have hle := StatsSchedule.bmod_le_self
            (x := ((c :: rest).map Config.statsDuration).sum) (by simpa using by omega)
          simp only [List.map_cons, List.sum_cons] at hle ⊢
          simp only [Counters.ofTime]
          omega

/-- Whatever the durations are, the step ends. -/
theorem completes_statsSet (g : StatsSet) (P : Pace (statsSet g)) : Completes (statsSet g) P := by
  apply completes_of_measure (W := Alone) (I := fun d => ∃ pending, Paced d pending) (μ := StatsSetData.left)
  · exact fun _ => writes_pure
  · exact fun v hv => hv.elim
  · simp only [statsSet, statsSetExecute, sat_bind]
    refine (sat_statsSetInstance _ _).mono fun applied t ht => ?_
    rcases ht with ⟨rfl, -⟩ | ⟨rfl, -⟩
    · have hpaced := paced_executed g
      cases g.fork <;> simp [waitOrContinue] <;> exact ⟨_, hpaced⟩
    · simp [abortErr]
  · rintro d s ⟨pending, hd⟩ hs
    exact sat_statsSetTimeout g hd hs

end StatsSets

end OneWifiTestSuite.StatsSteps
