import OneWifiTestSuite.Scheduler
import OneWifiTestSuite.SharedCell

/-!
# Step types

What every step type has in common. A `StepType` gives its callbacks as programs over the
`test_state` of the step: `step_execute`, `step_timeout`, `step_frame_filter`, and the worker
thread or bus event handler it starts, if any. `object` adds what the test thread does around
them: it triggers the step, it sets the step to abort when `step_execute` fails, and it calls
`step_timeout` and `step_frame_filter` only on a step in wait or continue. Each definition of a
callback is the source function cut down to its reads and writes of `test_state`, its own data, and
the calls it makes outside, whose answers are left open.

Two properties of a step type are studied: an abort stays until the test thread has seen it
(`AbortStays`), and a step in wait or continue reaches results or abort after finitely many
timeouts (`Completes`).

An `int` that overflows has no value in the language, so the model lets it have any (`intOf`).
-/

namespace OneWifiTestSuite.StepTypes

open Runs Steps SharedCell
open Scheduler (FilterRet)

/-- `ext_agent_test_state_t`. -/
inductive AgentState
  | idle
  | ready
  | running
  | complete
  | fail
  | invalid
deriving DecidableEq, Repr, Inhabited

/-- `ext_agent_status_resp_t`: the state of the agent's test, and the number and state of each of
its steps. -/
structure AgentStatus where
  state : AgentState
  steps : List (ℕ × TestState)
deriving Repr, Inhabited

/-- `webconfig_subdoc_type_t`, as far as the step types tell its values apart. -/
inductive Subdoc
  | unknown
  | privateVap
  | null
  | home
  | xfinity
  | radio
  | mesh
  | meshBackhaul
  | meshSta
  | lnf
  | dml
  | associatedClients
  | macFilter
  | blaster
  | harvester
  | wifiConfig
  | csi
  | statsConfig
  | steeringConfig
  | steeringClients
  | vifNeighbors
  | meshBackhaulSta
  | levl
  | cac
  | radioStats
  | neighborStats
  | assocdevStats
  | radiodiagStats
  | radioTemperature
  | wifiapiradio
  | wifiapivap
  | other
deriving DecidableEq, Repr, Inhabited

/-- What a call outside returns; each call has its own fields of it. -/
structure Answer where
  ok : Bool
  flag : Bool
  num : ℕ
  int : BitVec 32
  macs : List ℕ
  subdoc : Subdoc
  status : AgentStatus
deriving Inhabited

/-- A program over the `test_state` of a step. -/
abbrev Cmd := Prog TestState Answer

section Common

/-- The value of an `int` expression; one that overflows can be anything. -/
def intOf (z : ℤ) : Cmd ℤ :=
  if -2147483648 ≤ z ∧ z ≤ 2147483647 then pure z
  else do
    let a ← ask
    pure a.int.toInt

variable {δ : Type}

/-- The end of a callback that sets abort and returns `RETURN_ERR`. -/
def abortErr (d : δ) : Cmd (Bool × δ) := do
  writeCell .abort
  pure (false, d)

/-- A call, with abort and `RETURN_ERR` when it fails. -/
def orAbort (d : δ) (k : Answer → Cmd (Bool × δ)) : Cmd (Bool × δ) := do
  let a ← ask
  if a.ok then k a else abortErr d

/-- A call, with a bare `RETURN_ERR` when it fails. -/
def orErr (d : δ) (k : Answer → Cmd (Bool × δ)) : Cmd (Bool × δ) := do
  let a ← ask
  if a.ok then k a else pure (false, d)

/-- The assignment of wait to a forked step and of continue to another, then `RETURN_OK`. -/
def waitOrContinue (fork : Bool) (d : δ) : Cmd (Bool × δ) := do
  writeCell (if fork then .wait else .cont)
  pure (true, d)

/-- `execution_time` and `timeout_count`. -/
structure Counters where
  executionTime : ℤ
  timeoutCount : ℤ
deriving Repr

/-- The counters a constructor sets. -/
def Counters.ofTime (executionTime : ℤ) : Counters := ⟨executionTime, 0⟩

/-- `timeout_count++`. -/
def Counters.incr (c : Counters) : Cmd Counters := do
  let n ← intOf (c.timeoutCount + 1)
  pure { c with timeoutCount := n }

/-- Another timeout can be counted, and `execution_time` is an `int`. -/
structure Counters.Fits (c : Counters) : Prop where
  nonneg : 0 ≤ c.timeoutCount
  lt : c.timeoutCount < 2147483647
  time_le : c.executionTime ≤ 2147483647

/-- The timeouts left until `timeout_count` reaches `execution_time`. -/
def Counters.left (c : Counters) : ℕ := (c.executionTime - c.timeoutCount).toNat

/-- The counters after one more timeout. -/
def Counters.succ (c : Counters) : Counters := { c with timeoutCount := c.timeoutCount + 1 }

theorem Counters.fits_ofTime {z : ℤ} (h : z ≤ 2147483647) : (Counters.ofTime z).Fits := by
  constructor
  · exact Int.le_refl 0
  · change (0 : ℤ) < 2147483647
    omega
  · exact h

theorem Counters.Fits.withTime {c : Counters} (h : c.Fits) {z : ℤ} (hz : z ≤ 2147483647) :
    Counters.Fits { c with executionTime := z } :=
  ⟨h.nonneg, h.lt, hz⟩

/-- As long as `timeout_count` stays below `execution_time`, timeouts can be counted. -/
theorem Counters.Fits.succ {c : Counters} (h : c.Fits) (hlt : c.succ.timeoutCount < c.executionTime) :
    c.succ.Fits ∧ c.succ.left < c.left := by
  obtain ⟨hnonneg, hcount, htime⟩ := h
  simp only [Counters.succ, Counters.left] at hlt ⊢
  refine ⟨⟨?_, ?_, ?_⟩, ?_⟩
  · change 0 ≤ c.timeoutCount + 1
    omega
  · change c.timeoutCount + 1 < 2147483647
    omega
  · exact htime
  · omega

section Judgements

variable {W : TestState → Prop} {G : TestState → TestState → Prop} {s : TestState}

theorem sat_intOf {Q : ℤ → TestState → Prop} {z : ℤ} (h : -2147483648 ≤ z ∧ z ≤ 2147483647) :
    Sat W G Q (intOf z) s ↔ ∀ s', Env W s s' → Q z s' := by
  unfold intOf
  rw [if_pos h, sat_pure]

theorem sat_incr {Q : Counters → TestState → Prop} {c : Counters} (h : c.Fits) :
    Sat W G Q c.incr s ↔ ∀ s', Env W s s' → Q c.succ s' := by
  obtain ⟨hnonneg, hlt, _⟩ := h
  unfold Counters.incr
  rw [sat_bind, sat_intOf ⟨by omega, by omega⟩]
  constructor
  · exact fun hQ s' henv => hQ s' henv s' (.refl W _)
  · exact fun hQ s' henv s'' henv' => hQ s'' (henv.trans henv')

/-- Some value follows a count that is not negative, whether or not the count overflows. -/
theorem may_incr {agent : Cmd Bool} {B : TestState → TestState → Prop} {Q : Counters → TestState → Prop}
    {c : Counters} (hc : 0 ≤ c.timeoutCount) (h : ∀ n, 0 < n → Q { c with timeoutCount := n } s) :
    May agent B Q c.incr s := by
  unfold Counters.incr intOf
  simp only [may_bind, may_ite, may_pure, may_ask]
  refine ⟨fun _ => h _ (by omega), fun _ => ?_⟩
  exact ⟨{ (default : Answer) with int := 1 }, h 1 Int.one_pos⟩

end Judgements

end Common

section Messages

/-- `wlan_emu_frm80211_ops_type_t`. -/
inductive FrmOps
  | assocReq
  | prbReq
  | prbResp
  | assocResp
  | auth
  | deauth
  | disassoc
  | eapol
  | reassocReq
  | reassocResp
  | action
  | other
deriving DecidableEq, Repr

/-- `wlan_emu_cfg80211_ops_type_t`. -/
inductive CfgOps
  | startAp
  | other
deriving DecidableEq, Repr

/-- What the frame filters read of a `wlan_emu_msg_t`. -/
inductive Frame
  | webconfig (subdoc : Subdoc)
  | cfg80211 (ops : CfgOps) (phyIndex : ℕ)
  | frm80211 (ops : FrmOps) (clientMac mac : ℕ)
  | other
deriving DecidableEq, Repr

/-- `capture_frames` and `frame_request`: whether frames are captured, of which message types and
with which operations. -/
structure Capture where
  frames : Bool
  cfg80211 : Bool
  frm80211 : Bool
  cfgOps : List CfgOps
  frmOps : List FrmOps
deriving Repr

/-- `wlan_emu_msg_t::dump`: a failed upload sets the step to abort, another failure does not. -/
def dump : Cmd Unit := do
  let file ← ask
  if file.ok then
    let upload ← ask
    if upload.ok then pure () else writeCell .abort
  else pure ()

/-- `unload_cfg80211_start_ap`: every second beacon is dumped (`enable_beacon_dump`). -/
def unloadCfg80211StartAp (ops : CfgOps) : Cmd Unit :=
  match ops with
  | .startAp => do
      let enabled ← ask
      if enabled.flag then dump else pure ()
  | .other => pure ()

/-- `unload_frm80211_msg`. -/
def unloadFrm80211Msg : Cmd Unit := dump

end Messages

/-- A step type with its parameters decoded: the data of a fresh step and its callbacks. A callback
returns whether its result is `RETURN_OK`. -/
structure StepType where
  Data : Type
  init : Data
  stepExecute : Data → Cmd (Bool × Data)
  stepTimeout : Data → Cmd (Bool × Data)
  stepFrameFilter : Frame → Data → Cmd (FilterRet × Data) := fun _ d => pure (.unhandled, d)
  /-- the rounds of the worker thread, or the event handler -/
  worker : ℕ → Cmd Bool := fun _ => pure false

/-- What is done to a step by the test thread. -/
inductive Job
  | trigger
  | execute
  | timeout
  | filter (f : Frame)
  | giveUp
  | stopped (ok : Bool)
deriving DecidableEq, Repr

variable (S : StepType)

/-- The jobs. The test thread sets a requested step to start; `wlan_emu_handle_emu80211_msg` sets a
step to abort when its execution fails; `giveUp` is the abort of a step when none follows it; and
`stopped` is what `stop_subscription` writes, called by a `Stop` step that names this step. -/
def StepType.job : Job → S.Data → Cmd S.Data
  | .trigger, d => do
      let s ← readCell
      if s = .request then writeCell .start
      pure d
  | .execute, d => do
      let r ← S.stepExecute d
      if r.1 then pure r.2
      else do
        writeCell .abort
        pure r.2
  | .timeout, d => do
      let r ← S.stepTimeout d
      pure r.2
  | .filter f, d => do
      let r ← S.stepFrameFilter f d
      pure r.2
  | .giveUp, d => do
      writeCell .abort
      pure d
  | .stopped ok, d => do
      writeCell (if ok then .results else .abort)
      pure d

/-- `step_timeout` and `step_frame_filter` are called on a step in wait or continue. -/
def ready : Job → TestState → Bool
  | .timeout, s => s = .wait || s = .cont
  | .filter _, s => s = .wait || s = .cont
  | _, _ => true

def StepType.object : Object TestState Answer S.Data Job where
  job := S.job
  ready := ready
  agent := S.worker

/-- The state of a step of the type. -/
abbrev StepType.St := State TestState Answer S.Data

/-- A decoded step, before it is triggered. -/
def StepType.start : S.St where
  cell := .request
  data := S.init
  main := none
  listening := false
  cancelled := false
  agents := []

/-- The step is executed, and stopped by another one, only while it is not in abort. (The test
thread executes a step once, when its control message is delivered in time; a `Stop` step that
names this one may come later.) -/
def InTime (s : S.St) : Label Answer Job → Prop
  | .start .execute => s.cell ≠ .abort
  | .start (.stopped _) => s.cell ≠ .abort
  | _ => True

/-- In every run an abort stays: nothing changes it before the test thread has processed it. -/
def AbortStays : Prop :=
  ∀ s t a, Run (next S.object) (InTime S) S.start s → InTime S s a → next S.object s a = some t →
    s.cell = .abort → t.cell = .abort

/-- The states at which the scheduler is finished with a step. -/
def Over (s : TestState) : Prop :=
  s = .results ∨ s = .abort

/-- When timeouts come: at least while no worker thread or event handler is running. -/
structure Pace where
  due : S.St → Prop
  idle : ∀ t, t.agents = [] → due t

/-- A triggered step whose `step_execute` is called. -/
def StepType.executing : S.St :=
  { S.start with cell := .start, main := some (S.job .execute S.init) }

/-- A step that `step_execute` puts into wait or continue reaches results or abort after finitely
many timeouts, with no frame, whatever the workers do. -/
def Completes (P : Pace S) : Prop :=
  ∀ t, Moves S.object S.executing t → t.main = none → P.due t → ready .timeout t.cell = true →
    Ends S.object .timeout Over P.due (t.started S.object .timeout)

section Rules

variable {S}

/-- The guarantee of an abort. -/
def Guard (s v : TestState) : Prop :=
  s = .abort → v = .abort

@[simp]
theorem guard_abort (s : TestState) : Guard s .abort := fun _ => rfl

@[simp]
theorem guard_cont (v : TestState) : Guard .cont v := by
  rintro ⟨⟩

theorem guard_of_ne {s v : TestState} (h : s ≠ .abort) : Guard s v := fun hs => absurd hs h

/-- A program that, alone, writes nothing but abort over an abort. -/
def Tame {α : Type} (p : Cmd α) (s : TestState) : Prop :=
  Sat Alone Guard (fun _ _ => True) p s

/-- Every write is one of abort. -/
abbrev OnlyAborts {α : Type} (p : Cmd α) : Prop := Writes (· = .abort) p

theorem tame_of_writes {α : Type} {p : Cmd α} {s : TestState} (h : OnlyAborts p) : Tame p s := by
  unfold Tame
  induction p generalizing s with
  | pure a =>
      exact fun _ _ => trivial
  | read k ih =>
      exact fun t _ => ih t (h t)
  | write v k ih =>
      exact ⟨fun _ _ _ => h.1, ih h.2⟩
  | call k ih =>
      exact fun r => ih r (h r)
  | spawn k ih =>
      exact ih h
  | listen on k ih =>
      exact ih h
  | cancel k ih =>
      exact ih h

/-- A program that writes only abort leaves the state as it was or at abort. -/
theorem sat_of_writes {α : Type} {p : Cmd α} {s : TestState} (h : OnlyAborts p) :
    Sat Alone (fun _ _ => True) (fun _ t => t = s ∨ t = .abort) p s := by
  have hstable : ∀ s', s' = s ∨ s' = .abort →
      Sat Alone (fun _ _ => True) (fun _ t => t = s ∨ t = .abort) p s' := by
    induction p with
    | pure a =>
        intro s' hs' t ht
        rwa [env_alone.mp ht]
    | read k ih =>
        intro s' hs' t ht
        rw [env_alone.mp ht]
        exact ih s' (h s') s' hs'
    | write v k ih =>
        exact fun _ _ => ⟨fun _ _ => trivial, ih h.2 v (.inr h.1)⟩
    | call k ih =>
        exact fun s' hs' r => ih r (h r) s' hs'
    | spawn k ih =>
        exact ih h
    | listen on k ih =>
        exact ih h
    | cancel k ih =>
        exact ih h
  exact hstable s (.inl rfl)

theorem writes_abortErr {δ : Type} (d : δ) : OnlyAborts (abortErr d) := by
  apply writes_bind
  · simp
  · exact fun _ => writes_pure

theorem writes_orAbort {δ : Type} {d : δ} {k : Answer → Cmd (Bool × δ)} (h : ∀ a, OnlyAborts (k a)) :
    OnlyAborts (orAbort d k) := by
  apply writes_bind writes_ask
  exact fun a => writes_ite (h a) (writes_abortErr d)

theorem writes_dump : OnlyAborts dump := by
  apply writes_bind writes_ask
  intro file
  apply writes_ite
  · apply writes_bind writes_ask
    intro upload
    apply writes_ite
    · exact writes_pure
    · simp
  · exact writes_pure

theorem writes_unloadCfg80211StartAp (ops : CfgOps) : OnlyAborts (unloadCfg80211StartAp ops) := by
  cases ops with
  | other =>
      exact writes_pure
  | startAp =>
      apply writes_bind writes_ask
      intro enabled
      exact writes_ite writes_dump writes_pure

@[simp]
theorem tame_pure {α : Type} {a : α} {s : TestState} : Tame (pure a) s := fun _ _ => trivial

@[simp]
theorem tame_write_abort {s : TestState} : Tame (writeCell .abort) s := ⟨fun _ _ _ => rfl, fun _ _ => trivial⟩

@[simp]
theorem tame_read_bind {α : Type} {f : TestState → Cmd α} {s : TestState} :
    Tame (readCell >>= f) s ↔ Tame (f s) s := by
  simp [Tame]

@[simp]
theorem tame_ask_bind {α : Type} {f : Answer → Cmd α} {s : TestState} :
    Tame (ask >>= f) s ↔ ∀ a, Tame (f a) s := by
  simp [Tame]

@[simp]
theorem tame_write_bind {α : Type} {f : Unit → Cmd α} {s v : TestState} :
    Tame (writeCell v >>= f) s ↔ Guard s v ∧ Tame (f ()) v := by
  simp [Tame]

@[simp]
theorem tame_ite {α : Type} {c : Prop} [Decidable c] {p q : Cmd α} {s : TestState} :
    Tame (if c then p else q) s ↔ (c → Tame p s) ∧ (¬c → Tame q s) :=
  sat_ite

@[simp]
theorem tame_abortErr {δ : Type} {d : δ} {s : TestState} : Tame (abortErr d) s := by
  simp [abortErr]

@[simp]
theorem tame_orAbort {δ : Type} {d : δ} {k : Answer → Cmd (Bool × δ)} {s : TestState} :
    Tame (orAbort d k) s ↔ ∀ a, a.ok = true → Tame (k a) s := by
  simp [orAbort]

@[simp]
theorem tame_orErr {δ : Type} {d : δ} {k : Answer → Cmd (Bool × δ)} {s : TestState} :
    Tame (orErr d k) s ↔ ∀ a, a.ok = true → Tame (k a) s := by
  simp [orErr]

@[simp]
theorem tame_intOf_bind {α : Type} {z : ℤ} {f : ℤ → Cmd α} {s : TestState} (h : ∀ n, Tame (f n) s) :
    Tame (intOf z >>= f) s := by
  unfold Tame intOf
  rw [sat_bind, sat_ite]
  refine ⟨fun _ => ?_, fun _ => ?_⟩
  · simpa [Tame] using h z
  · simp only [sat_bind, sat_ask, sat_pure, env_alone, forall_eq]
    exact fun a => h _

@[simp]
theorem tame_incr_bind {α : Type} {c : Counters} {f : Counters → Cmd α} {s : TestState}
    (h : ∀ c, Tame (f c) s) : Tame (c.incr >>= f) s := by
  have hincr : Tame (c.incr >>= f) s ↔
      Tame (intOf (c.timeoutCount + 1) >>= fun n => f { c with timeoutCount := n }) s := by
    simp [Tame, Counters.incr]
  rw [hincr]
  exact tame_intOf_bind fun n => h _

theorem ready_live {s : TestState} (h : ready .timeout s = true) : s = .wait ∨ s = .cont := by
  simpa [ready] using h

theorem ne_abort_of_ready {s : TestState} {j : Job} (hj : j = .timeout ∨ ∃ f, j = .filter f)
    (h : ready j s = true) : s ≠ .abort := by
  rintro rfl
  rcases hj with rfl | ⟨f, rfl⟩ <;> cases h

/-- **The rule for an abort that stays**: a step type without workers whose callbacks write nothing
but abort over an abort. -/
theorem abortStays_of_tame (hworker : ∀ n, Writes Alone (S.worker n))
    (hexecute : ∀ d s, s ≠ .abort → Tame (S.stepExecute d) s)
    (htimeout : ∀ d s, s ≠ .abort → Tame (S.stepTimeout d) s)
    (hfilter : ∀ f d s, s ≠ .abort → Tame (S.stepFrameFilter f d) s) : AbortStays S := by
  intro s t a hrun hC h habort
  have hjob : ∀ (s : S.St) j, InTime S s (.start j) → S.object.ready j s.cell = true →
      Sat Alone Guard (fun _ _ => True) (S.object.job j s.data) s.cell := by
    intro s j hin hready
    cases j with
    | trigger =>
        simp only [StepType.object, StepType.job, sat_bind, sat_readCell, env_alone]
        rintro _ rfl _ rfl
        by_cases hs : s.cell = .request <;> simp [hs, Guard]
    | execute =>
        simp only [StepType.object, StepType.job, sat_bind]
        refine (hexecute s.data s.cell hin).mono fun r t _ => ?_
        simp
    | timeout =>
        simp only [StepType.object, StepType.job, sat_bind]
        exact (htimeout _ _ (ne_abort_of_ready (.inl rfl) hready)).mono fun r t _ => by simp
    | filter f =>
        simp only [StepType.object, StepType.job, sat_bind]
        exact (hfilter f _ _ (ne_abort_of_ready (.inr ⟨f, rfl⟩) hready)).mono fun r t _ => by simp
    | giveUp =>
        simp [StepType.object, StepType.job]
    | stopped ok =>
        simp only [StepType.object, StepType.job, sat_bind, sat_writeCell, env_alone]
        refine ⟨?_, by simp⟩
        rintro _ rfl
        exact guard_of_ne hin
  rcases guarantee_of_run (O := S.object) hworker hjob rfl rfl hrun hC h with hcell | hguard | hfalse
  · rw [hcell, habort]
  · exact hguard habort
  · cases hfalse

/-- A write over an abort. -/
def Overwrites (s v : TestState) : Prop :=
  s = .abort ∧ v ≠ .abort

/-- The triggered step can be executed. -/
theorem exists_executing :
    ∃ s, Run (next S.object) (InTime S) S.start s ∧ s.cell = .start ∧ s.main = none ∧ s.agents = [] ∧
      s.data = S.init := by
  have hrun : Run (next S.object) (fun _ a => a = .start .trigger ∨ a.IsMove) S.start
      { S.start with cell := .start } := by
    have h₁ : next S.object S.start (.start .trigger) = some (S.start.started S.object .trigger) := rfl
    refine (Run.single (.inl rfl) h₁).trans ?_
    refine .step (.step (.step (.refl _) (.inr trivial) (a := .main default) rfl) (.inr trivial)
      (a := .main default) rfl) (.inr trivial) (a := .main default) rfl
  refine ⟨_, hrun.mono ?_, rfl, rfl, rfl, rfl⟩
  rintro s a (rfl | ha)
  · trivial
  · cases a with
    | start j =>
        cases ha
    | main r | event | agent i r | drop i =>
        trivial

/-- **The rule for an abort that is lost**: some answers let `step_execute`, with the workers it
starts, write over an abort. -/
theorem not_abortStays_of_may
    (h : May (S.worker 0) Overwrites (fun _ _ => False) (S.job .execute S.init) .start) :
    ¬AbortStays S := by
  intro hstays
  obtain ⟨s, hrun, hcell, hmain, hagents, hdata⟩ := exists_executing (S := S)
  have hstart : next S.object s (.start .execute) = some (s.started S.object .execute) := by
    simp only [next, startStep, hmain]
    rfl
  have hrun' : Run (next S.object) (InTime S) S.start (s.started S.object .execute) := by
    refine .step hrun ?_ hstart
    simp [InTime, hcell]
  have hmay : May (S.object.agent 0) Overwrites (fun _ _ => False) (S.job .execute S.init)
      (s.started S.object .execute).cell := by
    rw [← hcell] at h
    exact h
  have hmain' : (s.started S.object .execute).main = some (S.job .execute S.init) := by
    simp [State.started, hdata, StepType.object]
  obtain ⟨t, u, a, hmoves, ha, hnext, hover⟩ := exists_break (O := S.object) hmain' hagents hmay
  have hin : ∀ (s : S.St) (a : Label Answer Job), a.IsMove → InTime S s a := by
    intro s a ha
    cases a with
    | start j =>
        cases ha
    | main r | event | agent i r | drop i =>
        trivial
  exact hover.2 (hstays t u a (hrun'.trans (hmoves.mono hin)) (hin t a ha) hnext hover.1)

theorem not_ready_of_over {s : TestState} (h : Over s) : ready .timeout s ≠ true := by
  rcases h with rfl | rfl <;> decide

/-- **The rule for completion**: `step_execute` establishes an invariant of the data, and
`step_timeout` completes the step or keeps the invariant and makes a measure smaller. `W` is what
the workers write. -/
theorem completes_of_measure {W : TestState → Prop} {I : S.Data → Prop} {μ : S.Data → ℕ}
    (hworker : ∀ n, Writes W (S.worker n)) (hW : ∀ v, W v → Over v)
    (hexecute : Sat W (fun _ _ => True) (fun r t => t = .wait ∨ t = .cont → I r.2)
      (S.stepExecute S.init) .start)
    (htimeout : ∀ d s, I d → s = .wait ∨ s = .cont →
      Sat W (fun _ _ => True) (fun r t => Over t ∨ (t = .wait ∨ t = .cont) ∧ I r.2 ∧ μ r.2 < μ d)
        (S.stepTimeout d) s) (P : Pace S) : Completes S P := by
  intro t hmoves hmain hdue hready
  have hjob : Sat W (fun _ _ => True) (fun d s => ready .timeout s = true → I d)
      (S.job .execute S.init) .start := by
    simp only [StepType.job, sat_bind, sat_ite, sat_pure, sat_writeCell]
    refine hexecute.stable.mono fun r t ht => ⟨fun _ t' henv hlive => ?_, fun _ => ⟨fun _ _ => trivial, ?_⟩⟩
    · exact ht t' henv (ready_live hlive)
    · intro t' henv t'' henv' hlive
      have hover : Over t'' := by
        rcases henv.trans henv' with rfl | hw
        · exact .inr rfl
        · exact hW t'' hw
      exact absurd hlive (not_ready_of_over hover)
  have hholds : Holds W (fun _ _ => True) (fun d s => ready .timeout s = true → I d) S.executing := by
    refine ⟨?_, hjob⟩
    simp [StepType.executing, StepType.start]
  obtain ⟨hagents, ht⟩ := holds_moves (O := S.object) hworker hmoves hholds
  unfold MainSat at ht
  rw [hmain] at ht
  have htick : ∀ d s, I d → S.object.ready .timeout s = true →
      Sat W (fun _ _ => True) (Below S.object .timeout Over I μ (μ d)) (S.object.job .timeout d) s := by
    intro d s hI hs
    simp only [StepType.object, StepType.job, sat_bind]
    have hsat := htimeout d s hI (ready_live hs)
    refine hsat.stable.mono fun r t ht t' henv => ?_
    rcases ht t' henv with hover | ⟨hlive, hI', hlt⟩
    · exact .inl hover
    · refine .inr ⟨?_, hI', hlt⟩
      simpa [ready] using hlive
  exact ends_of_measure hworker htick ⟨hagents, htick _ _ (ht t.cell (.refl _ _) hready) hready⟩

/-- **The rule against completion**: `step_execute` may end in `K`, and `step_timeout` may lead from
`K` to `K` again. -/
theorem not_completes_of_may {K : S.Data → TestState → Prop}
    (hlive : ∀ d s, K d s → s = .wait ∨ s = .cont)
    (hexecute : May (S.worker 0) (fun _ _ => False) K (S.job .execute S.init) .start)
    (htimeout : ∀ d s, K d s →
      May (S.worker 0) (fun _ _ => False) (fun r t => K r.2 t) (S.stepTimeout d) s) (P : Pace S) :
    ¬Completes S P := by
  intro hcompletes
  obtain ⟨t, hmoves, hmain, hagents, hK⟩ := exists_rest (O := S.object) (s := S.executing) rfl rfl hexecute
  have htick : ∀ d s, K d s → May (S.worker 0) (fun _ _ => False) K (S.job .timeout d) s := by
    intro d s hK
    simp only [StepType.job, may_bind, may_pure]
    exact htimeout d s hK
  have hready : ready .timeout t.cell = true := by
    simpa [ready] using hlive _ _ hK
  have hover : ∀ d s, K d s → ¬Over s := by
    intro d s hK hover
    rcases hlive d s hK with rfl | rfl <;> simp [Over] at hover
  have hnot : ¬Ends S.object .timeout Over P.due (t.started S.object .timeout) :=
    not_ends_of_may P.idle hover htick rfl hagents (htick _ _ hK)
  exact hnot (hcompletes t hmoves hmain (P.idle t hagents) hready)

end Rules

end OneWifiTestSuite.StepTypes
