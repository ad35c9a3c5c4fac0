import OneWifiTestSuite.StepTypes

/-!
# Configuration steps

The step types that send a configuration to the gateway: `test_step_param_radio`,
`test_step_param_vap` and `test_step_param_config_onewifi`, which then wait until the gateway
publishes the subdocument, and `test_step_param_dmlsubdoc` and `test_step_param_dml_reset`, which
complete at once. None of them has a worker, so an abort stays, and the time they wait is fixed.
-/

namespace OneWifiTestSuite.ConfigSteps

open Steps SharedCell StepTypes
open Scheduler (FilterRet)

/-- The data of the steps that wait for a subdocument. -/
structure Data where
  counters : Counters
  subdocType : Subdoc
deriving Repr

/-- `step_timeout` of the three types that wait. -/
def retryTimeout (d : Data) : Cmd (Bool × Data) := do
  let s ← readCell
  if s = .results then pure (true, d)
  else
    let c ← d.counters.incr
    let d := { d with counters := c }
    if c.executionTime > c.timeoutCount then do
      writeCell .cont
      pure (true, d)
    else do
      writeCell .abort
      pure (true, d)

/-- The webconfig case of the filters that wait for a subdocument. -/
def webconfigFilter (subdoc : Subdoc) (d : Data) : Cmd (FilterRet × Data) :=
  if d.subdocType ≠ .unknown ∧ d.subdocType = subdoc then do
    writeCell .results
    pure (.handled, d)
  else pure (.unhandled, d)

/-- `step_timeout` of the types that complete in `step_execute`. -/
def abortTimeout (d : Counters) : Cmd (Bool × Counters) := do
  let s ← readCell
  if s ≠ .results then do
    writeCell .abort
    pure (true, d)
  else pure (true, d)

/-- A step type that waits for a subdocument. -/
def waiting (time : ℤ) (execute : Data → Cmd (Bool × Data)) (filter : Frame → Data → Cmd (FilterRet × Data)) :
    StepType where
  Data := Data
  init := ⟨.ofTime time, .privateVap⟩
  stepExecute := execute
  stepTimeout := retryTimeout
  stepFrameFilter := filter

/-- A step type that completes in `step_execute` and handles no frame. -/
def immediate (execute : Counters → Cmd (Bool × Counters)) : StepType where
  Data := Counters
  init := .ofTime 5
  stepExecute := execute
  stepTimeout := abortTimeout

section Sources

/-- `test_step_param_radio::step_execute`; `current` says that `test_webconfig_json` is
`CURRENT_CONFIGURATION`. -/
def radioExecute (current : Bool) (d : Data) : Cmd (Bool × Data) :=
  if current then do
    writeCell .results
    pure (true, d)
  else
    orAbort d fun _ =>
    orAbort d fun _ => do
    let found ← ask
    let d := { d with subdocType := found.subdoc }
    orAbort d fun _ => do
    writeCell .cont
    pure (true, d)

/-- `test_step_param_radio::step_frame_filter`. -/
def radioFilter (f : Frame) (d : Data) : Cmd (FilterRet × Data) :=
  match f with
  | .webconfig subdoc => webconfigFilter subdoc d
  | .cfg80211 _ _ | .frm80211 _ _ _ | .other => pure (.unhandled, d)

/-- `test_step_param_radio`. -/
def radio (current : Bool) : StepType := waiting 25 (radioExecute current) radioFilter

/-- `test_step_param_vap::step_execute`: hotspot subdocuments are given more time. -/
def vapExecute (current : Bool) (d : Data) : Cmd (Bool × Data) :=
  if current then do
    writeCell .results
    pure (true, d)
  else
    orAbort d fun _ =>
    orAbort d fun _ => do
    let found ← ask
    let time := if found.subdoc = .xfinity ∨ found.subdoc = .cac then 40 else d.counters.executionTime
    let d := { d with counters := { d.counters with executionTime := time }, subdocType := found.subdoc }
    orAbort d fun _ => do
    writeCell .cont
    pure (true, d)

/-- `get_subdoc_string_from_type` knows the type. -/
def hasVapName : Subdoc → Bool
  | .privateVap | .home | .xfinity | .cac | .meshBackhaul | .lnf => true
  | _ => false

/-- The loop over the VAP names of the subdocument: a beacon of one of them is handled. -/
def vapBeaconLoop (c : Capture) (ops : CfgOps) : ℕ → Cmd FilterRet
  | 0 => pure .unhandled
  | n + 1 =>
      if c.cfgOps.contains ops then do
        let same ← ask
        if same.flag then do
          unloadCfg80211StartAp ops
          pure .handled
        else vapBeaconLoop c ops n
      else pure .unhandled

/-- `test_step_param_vap::step_frame_filter`. -/
def vapFilter (c : Capture) (f : Frame) (d : Data) : Cmd (FilterRet × Data) :=
  match f with
  | .cfg80211 ops _ =>
      if c.frames = false ∨ c.cfg80211 = false then pure (.unhandled, d)
      else if hasVapName d.subdocType = false then pure (.unhandled, d)
      else do
        let vaps ← ask
        let ret ← vapBeaconLoop c ops vaps.num
        pure (ret, d)
  | .webconfig subdoc => webconfigFilter subdoc d
  | .frm80211 _ _ _ | .other => pure (.unhandled, d)

/-- `test_step_param_vap`. -/
def vap (current : Bool) (c : Capture) : StepType := waiting 25 (vapExecute current) (vapFilter c)

/-- `no_publish_subdoc_array`. -/
def noPublishSubdocs : List Subdoc :=
  [.radioStats, .neighborStats, .assocdevStats, .radiodiagStats, .radioTemperature, .wifiapiradio,
    .wifiapivap]

/-- `onewifi_subdoc_array`. -/
def onewifiSubdocs : List Subdoc :=
  [.privateVap, .null, .home, .xfinity, .radio, .mesh, .meshBackhaul, .meshSta, .lnf, .dml,
    .associatedClients, .macFilter, .blaster, .harvester, .wifiConfig, .csi, .statsConfig,
    .steeringConfig, .steeringClients, .vifNeighbors, .meshBackhaulSta, .levl, .cac]

/-- `test_step_param_config_onewifi::step_execute`. -/
def configOnewifiExecute (d : Data) : Cmd (Bool × Data) :=
  orAbort d fun _ =>
  orAbort d fun _ =>
  orAbort d fun _ => do
  let found ← ask
  let d := { d with subdocType := found.subdoc }
  if noPublishSubdocs.contains d.subdocType then abortErr d
  else
    orAbort d fun _ => do
    writeCell .cont
    pure (true, d)

/-- `test_step_param_config_onewifi::step_frame_filter`. -/
def configOnewifiFilter (f : Frame) (d : Data) : Cmd (FilterRet × Data) :=
  match f with
  | .webconfig subdoc =>
      if onewifiSubdocs.contains d.subdocType then webconfigFilter subdoc d else pure (.unhandled, d)
  | .cfg80211 _ _ | .frm80211 _ _ _ | .other => pure (.unhandled, d)

/-- `test_step_param_config_onewifi`. -/
def configOnewifi : StepType := waiting 15 configOnewifiExecute configOnewifiFilter

/-- `test_step_param_dmlsubdoc::step_execute`. -/
def dmlSubdocExecute (d : Counters) : Cmd (Bool × Counters) :=
  orAbort d fun _ =>
  orAbort d fun _ =>
  orAbort d fun _ =>
  orAbort d fun _ => do
  writeCell .results
  pure (true, d)

/-- `test_step_param_dmlsubdoc`. -/
def dmlSubdoc : StepType := immediate dmlSubdocExecute

/-- The loop of `test_step_param_dml_reset::step_execute` over `subdoc_array`. -/
def dmlResetLoop (d : Counters) : ℕ → Cmd (Bool × Counters)
  | 0 => do
      writeCell .results
      pure (true, d)
  | n + 1 =>
      orAbort d fun _ =>
      orAbort d fun _ =>
      dmlResetLoop d n

/-- `test_step_param_dml_reset::step_execute`. -/
def dmlResetExecute (d : Counters) : Cmd (Bool × Counters) :=
  orAbort d fun _ =>
  orAbort d fun _ =>
  orAbort d fun _ =>
  dmlResetLoop d 8

/-- `test_step_param_dml_reset`. -/
def dmlReset : StepType := immediate dmlResetExecute

end Sources

section Families

variable {s : TestState}

theorem tame_retryTimeout {d : Data} (hs : s ≠ .abort) : Tame (retryTimeout d) s := by
  simp only [retryTimeout, tame_read_bind, tame_ite]
  refine ⟨fun _ => tame_pure, fun _ => tame_incr_bind fun c => ?_⟩
  simp [guard_of_ne hs]

theorem tame_webconfigFilter {subdoc : Subdoc} {d : Data} (hs : s ≠ .abort) :
    Tame (webconfigFilter subdoc d) s := by
  simp [webconfigFilter, guard_of_ne hs]

/-- A timeout of a step that waits completes it or is counted towards its execution time. -/
theorem sat_retryTimeout {d : Data} (hd : d.counters.Fits) (hs : s = .wait ∨ s = .cont) :
    Sat Alone (fun _ _ => True)
      (fun r t => Over t ∨ (t = .wait ∨ t = .cont) ∧ r.2.counters.Fits ∧ r.2.counters.left < d.counters.left)
      (retryTimeout d) s := by
  have hres : s ≠ .results := by
    rcases hs with rfl | rfl <;> decide
  suffices h : d.counters.succ.timeoutCount < d.counters.succ.executionTime →
      d.counters.succ.Fits ∧ d.counters.succ.left < d.counters.left by
    simpa [retryTimeout, sat_incr hd, hres, Over] using h
  exact fun hlt => hd.succ hlt

variable {time : ℤ} {execute : Data → Cmd (Bool × Data)} {filter : Frame → Data → Cmd (FilterRet × Data)}

theorem abortStays_waiting (hexecute : ∀ d s, s ≠ .abort → Tame (execute d) s)
    (hfilter : ∀ f d s, s ≠ .abort → Tame (filter f d) s) : AbortStays (waiting time execute filter) := by
  apply abortStays_of_tame
  · exact fun _ => writes_pure
  · exact hexecute
  · exact fun d s hs => tame_retryTimeout hs
  · exact hfilter

theorem completes_waiting
    (hexecute : Sat Alone (fun _ _ => True) (fun r _ => r.2.counters.Fits)
      (execute ⟨.ofTime time, .privateVap⟩) .start) (P : Pace (waiting time execute filter)) :
    Completes (waiting time execute filter) P := by
  apply completes_of_measure (W := Alone) (I := fun d : Data => d.counters.Fits)
    (μ := fun d : Data => d.counters.left)
  · exact fun _ => writes_pure
  · exact fun v hv => hv.elim
  · exact hexecute.mono fun r t hr _ => hr
  · exact fun d s hd hs => sat_retryTimeout hd hs

theorem abortStays_immediate {execute : Counters → Cmd (Bool × Counters)}
    (hexecute : ∀ d s, s ≠ .abort → Tame (execute d) s) : AbortStays (immediate execute) := by
  apply abortStays_of_tame
  · exact fun _ => writes_pure
  · exact hexecute
  · intro d s hs
    simp [immediate, abortTimeout]
  · exact fun f d s hs => tame_pure

theorem completes_immediate {execute : Counters → Cmd (Bool × Counters)}
    (P : Pace (immediate execute)) : Completes (immediate execute) P := by
  apply completes_of_measure (W := Alone) (I := fun _ => True) (μ := fun _ => 0)
  · exact fun _ => writes_pure
  · exact fun v hv => hv.elim
  · simp
  · intro d s _ hs
    have hres : s ≠ .results := by
      rcases hs with rfl | rfl <;> decide
    simp [immediate, abortTimeout, Over, hres]

end Families

section Members

variable {s : TestState}

theorem tame_radioExecute {current : Bool} {d : Data} (hs : s ≠ .abort) :
    Tame (radioExecute current d) s := by
  simp [radioExecute, guard_of_ne hs]

theorem tame_radioFilter {f : Frame} {d : Data} (hs : s ≠ .abort) : Tame (radioFilter f d) s := by
  cases f with
  | webconfig subdoc =>
      exact tame_webconfigFilter hs
  | cfg80211 ops phyIndex | frm80211 ops clientMac mac | other =>
      exact tame_pure

theorem abortStays_radio (current : Bool) : AbortStays (radio current) :=
  abortStays_waiting (fun _ _ hs => tame_radioExecute hs) fun _ _ _ hs => tame_radioFilter hs

theorem completes_radio (current : Bool) (P : Pace (radio current)) : Completes (radio current) P := by
  apply completes_waiting
  have hfits := Counters.fits_ofTime (z := 25) (by decide)
  simp [radioExecute, orAbort, abortErr, hfits]

theorem tame_vapExecute {current : Bool} {d : Data} (hs : s ≠ .abort) : Tame (vapExecute current d) s := by
  simp [vapExecute, guard_of_ne hs]

theorem writes_vapBeaconLoop (c : Capture) (ops : CfgOps) (n : ℕ) : OnlyAborts (vapBeaconLoop c ops n) := by
  induction n with
  | zero =>
      exact writes_pure
  | succ n ih =>
      apply writes_ite
      · apply writes_bind writes_ask
        intro same
        apply writes_ite
        · exact writes_bind (writes_unloadCfg80211StartAp ops) fun _ => writes_pure
        · exact ih
      · exact writes_pure

theorem tame_vapFilter {c : Capture} {f : Frame} {d : Data} (hs : s ≠ .abort) :
    Tame (vapFilter c f d) s := by
  cases f with
  | cfg80211 ops phyIndex =>
      apply tame_of_writes
      apply writes_ite writes_pure
      apply writes_ite writes_pure
      apply writes_bind writes_ask
      intro vaps
      exact writes_bind (writes_vapBeaconLoop c ops vaps.num) fun _ => writes_pure
  | webconfig subdoc =>
      exact tame_webconfigFilter hs
  | frm80211 ops clientMac mac | other =>
      exact tame_pure

theorem abortStays_vap (current : Bool) (c : Capture) : AbortStays (vap current c) :=
  abortStays_waiting (fun _ _ hs => tame_vapExecute hs) fun _ _ _ hs => tame_vapFilter hs

theorem completes_vap (current : Bool) (c : Capture) (P : Pace (vap current c)) :
    Completes (vap current c) P := by
  apply completes_waiting
  have hfits := Counters.fits_ofTime (z := 25) (by decide)
  have htime : ∀ found : Answer,
      Counters.Fits { Counters.ofTime 25 with executionTime :=
        if found.subdoc = .xfinity ∨ found.subdoc = .cac then 40 else (Counters.ofTime 25).executionTime } := by
    intro found
    apply hfits.withTime
    split <;> decide
  simp [vapExecute, orAbort, abortErr, hfits, htime]

theorem tame_configOnewifiExecute {d : Data} (hs : s ≠ .abort) : Tame (configOnewifiExecute d) s := by
  simp [configOnewifiExecute, guard_of_ne hs]

theorem tame_configOnewifiFilter {f : Frame} {d : Data} (hs : s ≠ .abort) :
    Tame (configOnewifiFilter f d) s := by
  cases f with
  | webconfig subdoc =>
      simp [configOnewifiFilter, tame_webconfigFilter hs]
  | cfg80211 ops phyIndex | frm80211 ops clientMac mac | other =>
      exact tame_pure

theorem abortStays_configOnewifi : AbortStays configOnewifi :=
  abortStays_waiting (fun _ _ hs => tame_configOnewifiExecute hs) fun _ _ _ hs => tame_configOnewifiFilter hs

theorem completes_configOnewifi (P : Pace configOnewifi) : Completes configOnewifi P := by
  apply completes_waiting
  have hfits := Counters.fits_ofTime (z := 15) (by decide)
  simp [configOnewifiExecute, orAbort, abortErr, hfits]

theorem abortStays_dmlSubdoc : AbortStays dmlSubdoc := by
  apply abortStays_immediate
  intro d s hs
  simp [dmlSubdocExecute, guard_of_ne hs]

theorem tame_dmlResetLoop {d : Counters} (hs : s ≠ .abort) (n : ℕ) : Tame (dmlResetLoop d n) s := by
  induction n with
  | zero =>
      simp [dmlResetLoop, guard_of_ne hs]
  | succ n ih =>
      simp [dmlResetLoop, ih]

theorem abortStays_dmlReset : AbortStays dmlReset := by
  apply abortStays_immediate
  intro d s hs
  simp [dmlResetExecute, tame_dmlResetLoop hs]

end Members

end OneWifiTestSuite.ConfigSteps
