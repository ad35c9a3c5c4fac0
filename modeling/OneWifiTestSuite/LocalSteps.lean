import OneWifiTestSuite.ConfigSteps

/-!
# Local steps

The step types that work on the gateway itself: `test_step_param_command`,
`test_step_param_get_file` and `test_step_param_get_pattern_files`, which complete in
`step_execute`; `test_step_param_upgrade_or_reboot`, which ends in abort unless the device reboots;
and `test_step_param_timed_wait` and `test_step_param_mgmt_frame_capture`, which wait for a decoded
time. `timed_wait` compares with `>=` and always completes. `mgmt_frame_capture` compares with `==`,
and its unsigned duration becomes a negative `execution_time` from `2 ^ 31` on
(`completes_mgmtFrameCapture_iff`).
-/

namespace OneWifiTestSuite.LocalSteps

open Steps SharedCell StepTypes ConfigSteps
open Scheduler (FilterRet)

section Sources

/-- The end of `test_step_param_command::step_execute`, once its log file is open. -/
def commandRun (logged : Bool) (d : Counters) : Cmd (Bool × Counters) :=
  orErr d fun _ =>
  if logged then
    orAbort d fun _ => do
    writeCell .results
    pure (true, d)
  else do
    writeCell .results
    pure (true, d)

/-- `test_step_param_command::step_execute`; `logged` says that the output goes to a file. -/
def commandExecute (logged : Bool) (d : Counters) : Cmd (Bool × Counters) := do
  writeCell .cont
  orAbort d fun _ =>
    if logged then
      orErr d fun _ =>
      orAbort d fun _ =>
      commandRun logged d
    else commandRun logged d

/-- `test_step_param_command`. -/
def command (logged : Bool) : StepType := immediate (commandExecute logged)

/-- `test_step_param_get_file::step_execute`; `delete` is `delete_source_file`. -/
def getFileExecute (delete : Bool) (d : Counters) : Cmd (Bool × Counters) :=
  orAbort d fun _ =>
  orAbort d fun _ =>
  orAbort d fun _ =>
  if delete then
    orAbort d fun _ => do
    writeCell .results
    pure (true, d)
  else do
    writeCell .results
    pure (true, d)

/-- `test_step_param_get_file`. -/
def getFile (delete : Bool) : StepType := immediate (getFileExecute delete)

/-- The loop of `test_step_param_get_pattern_files::step_execute` over the entries of a directory:
the matching files are uploaded, and deleted when `delete_pattern_files` says so. -/
def patternLoop (delete : Bool) (d : Counters) : ℕ → Cmd (Bool × Counters)
  | 0 => do
      writeCell .results
      pure (true, d)
  | n + 1 =>
      orAbort d fun entry =>
      if entry.flag then
        orAbort d fun _ =>
        orAbort d fun _ =>
        if delete then
          orAbort d fun _ => patternLoop delete d n
        else patternLoop delete d n
      else patternLoop delete d n

/-- `test_step_param_get_pattern_files::step_execute`. -/
def getPatternFilesExecute (emptyPattern delete : Bool) (d : Counters) : Cmd (Bool × Counters) :=
  orAbort d fun _ =>
  if emptyPattern then abortErr d
  else
    orAbort d fun directory => patternLoop delete d directory.num

/-- `test_step_param_get_pattern_files`. -/
def getPatternFiles (emptyPattern delete : Bool) : StepType :=
  immediate (getPatternFilesExecute emptyPattern delete)

/-- The end of `test_step_param_upgrade_or_reboot::step_execute`: a device that is still running
after the call of `reboot` fails the step. -/
def rebootDevice (d : Counters) : Cmd (Bool × Counters) :=
  orAbort d fun _ =>
  orAbort d fun _ => do
  let config ← ask
  if config.ok then do
    let _ ← ask
    abortErr d
  else abortErr d

/-- `test_step_param_upgrade_or_reboot::step_execute`: the logs of the listed steps are uploaded
before the reboot. -/
def upgradeOrRebootExecute (d : Counters) : ℕ → Cmd (Bool × Counters)
  | 0 => rebootDevice d
  | n + 1 =>
      orAbort d fun _ =>
      orAbort d fun _ =>
      orAbort d fun _ => do
      let _ ← ask
      upgradeOrRebootExecute d n

/-- `test_step_param_upgrade_or_reboot`, with the number of `logging_step_numbers`. -/
def upgradeOrReboot (logs : ℕ) : StepType where
  Data := Counters
  init := .ofTime 0
  stepExecute d := upgradeOrRebootExecute d logs
  stepTimeout d := pure (true, d)

/-- `test_step_param_timed_wait::step_execute`: `seconds` is unsigned, `execution_time` an `int`. -/
def timedWaitExecute (seconds : BitVec 32) (d : Counters) : Cmd (Bool × Counters) := do
  let d := { d with executionTime := seconds.toInt }
  writeCell .cont
  pure (true, d)

/-- `test_step_param_timed_wait::step_timeout`. -/
def timedWaitTimeout (d : Counters) : Cmd (Bool × Counters) := do
  let d ← d.incr
  if d.timeoutCount ≥ d.executionTime then do
    writeCell .results
    pure (true, d)
  else pure (true, d)

/-- `test_step_param_timed_wait`. -/
def timedWait (seconds : BitVec 32) : StepType where
  Data := Counters
  init := .ofTime 5
  stepExecute := timedWaitExecute seconds
  stepTimeout := timedWaitTimeout

/-- `test_step_param_mgmt_frame_capture::step_execute`. -/
def mgmtFrameCaptureExecute (c : Capture) (duration : BitVec 32) (d : Counters) : Cmd (Bool × Counters) :=
  if c.frames = false then abortErr d
  else if duration.toNat > 0 then do
    let d := { d with executionTime := duration.toInt }
    writeCell .cont
    pure (true, d)
  else do
    writeCell .results
    pure (true, d)

/-- `test_step_param_mgmt_frame_capture::step_timeout`. -/
def mgmtFrameCaptureTimeout (d : Counters) : Cmd (Bool × Counters) := do
  let s ← readCell
  if s ≠ .results then do
    let d ← d.incr
    if d.executionTime = d.timeoutCount then do
      writeCell .results
      pure (true, d)
    else pure (true, d)
  else pure (true, d)

/-- `get_radioindex_from_bssid` finds the radio of the step. -/
def onRadio (radioIndex : ℕ) : Cmd Bool := do
  let radio ← ask
  pure (radio.ok && radio.num = radioIndex)

/-- Whether a management frame is one of the radio of the step; `none` is an operation that is not
captured. -/
def frameOnRadio (radioIndex : ℕ) : FrmOps → Option (Cmd Bool)
  | .prbReq => some (pure true)
  | .assocReq | .reassocReq | .action => some (onRadio radioIndex)
  | .auth | .eapol | .deauth | .disassoc => some do
      let found ← onRadio radioIndex
      if found then pure true else onRadio radioIndex
  | .prbResp | .assocResp | .reassocResp => some (onRadio radioIndex)
  | .other => none

/-- `test_step_param_mgmt_frame_capture::step_frame_filter`. -/
def mgmtFrameCaptureFilter (c : Capture) (radioIndex : ℕ) (f : Frame) (d : Counters) :
    Cmd (FilterRet × Counters) :=
  match f with
  | .cfg80211 ops phyIndex =>
      if c.frames = false ∨ c.cfg80211 = false then pure (.unhandled, d)
      else if phyIndex = radioIndex then do
        unloadCfg80211StartAp ops
        pure (.handled, d)
      else pure (.unhandled, d)
  | .frm80211 ops _ _ =>
      if c.frames = false ∨ c.frm80211 = false then pure (.unhandled, d)
      else if c.frmOps.contains ops = false then pure (.unhandled, d)
      else
        match frameOnRadio radioIndex ops with
        | none => pure (.unhandled, d)
        | some found => do
            let found ← found
            if found then do
              unloadFrm80211Msg
              pure (.handled, d)
            else pure (.unhandled, d)
  | .webconfig _ | .other => pure (.unhandled, d)

/-- `test_step_param_mgmt_frame_capture`. -/
def mgmtFrameCapture (c : Capture) (radioIndex : ℕ) (duration : BitVec 32) : StepType where
  Data := Counters
  init := .ofTime 5
  stepExecute := mgmtFrameCaptureExecute c duration
  stepTimeout := mgmtFrameCaptureTimeout
  stepFrameFilter := mgmtFrameCaptureFilter c radioIndex

end Sources

section Immediate

variable {s : TestState}

theorem tame_commandRun {logged : Bool} {d : Counters} : Tame (commandRun logged d) .cont := by
  simp [commandRun]

theorem abortStays_command (logged : Bool) : AbortStays (command logged) := by
  apply abortStays_immediate
  intro d s hs
  simp [commandExecute, guard_of_ne hs, tame_commandRun]

theorem abortStays_getFile (delete : Bool) : AbortStays (getFile delete) := by
  apply abortStays_immediate
  intro d s hs
  simp [getFileExecute, guard_of_ne hs]

theorem tame_patternLoop {delete : Bool} {d : Counters} (hs : s ≠ .abort) (n : ℕ) :
    Tame (patternLoop delete d n) s := by
  induction n with
  | zero =>
      simp [patternLoop, guard_of_ne hs]
  | succ n ih =>
      simp [patternLoop, ih]

theorem abortStays_getPatternFiles (emptyPattern delete : Bool) :
    AbortStays (getPatternFiles emptyPattern delete) := by
  apply abortStays_immediate
  intro d s hs
  simp [getPatternFilesExecute, tame_patternLoop hs]

theorem writes_upgradeOrRebootExecute (d : Counters) (n : ℕ) : OnlyAborts (upgradeOrRebootExecute d n) := by
  induction n with
  | zero =>
      apply writes_orAbort
      intro _
      apply writes_orAbort
      intro _
      apply writes_bind writes_ask
      intro config
      apply writes_ite
      · exact writes_bind writes_ask fun _ => writes_abortErr d
      · exact writes_abortErr d
  | succ n ih =>
      apply writes_orAbort
      intro _
      apply writes_orAbort
      intro _
      apply writes_orAbort
      intro _
      exact writes_bind writes_ask fun _ => ih

theorem abortStays_upgradeOrReboot (logs : ℕ) : AbortStays (upgradeOrReboot logs) := by
  apply abortStays_of_tame
  · exact fun _ => writes_pure
  · exact fun d s hs => tame_of_writes (writes_upgradeOrRebootExecute d logs)
  · exact fun d s hs => tame_pure
  · exact fun f d s hs => tame_pure

theorem completes_upgradeOrReboot (logs : ℕ) (P : Pace (upgradeOrReboot logs)) :
    Completes (upgradeOrReboot logs) P := by
  apply completes_of_measure (W := Alone) (I := fun _ => False) (μ := fun _ => 0)
  · exact fun _ => writes_pure
  · exact fun v hv => hv.elim
  · refine (sat_of_writes (writes_upgradeOrRebootExecute _ logs)).mono fun r t ht => ?_
    rcases ht with rfl | rfl <;> simp
  · exact fun d s hd => hd.elim

end Immediate

section Waits

variable {s : TestState}

theorem tame_timedWaitTimeout {d : Counters} (hs : s ≠ .abort) : Tame (timedWaitTimeout d) s := by
  apply tame_incr_bind
  simp [guard_of_ne hs]

theorem abortStays_timedWait (seconds : BitVec 32) : AbortStays (timedWait seconds) := by
  apply abortStays_of_tame
  · exact fun _ => writes_pure
  · intro d s hs
    simp [timedWait, timedWaitExecute, guard_of_ne hs]
  · exact fun d s hs => tame_timedWaitTimeout hs
  · exact fun f d s hs => tame_pure

theorem toInt_le (x : BitVec 32) : x.toInt ≤ 2147483647 := by
  have := BitVec.toInt_lt (x := x)
  omega

theorem completes_timedWait (seconds : BitVec 32) (P : Pace (timedWait seconds)) :
    Completes (timedWait seconds) P := by
  apply completes_of_measure (W := Alone) (I := Counters.Fits) (μ := Counters.left)
  · exact fun _ => writes_pure
  · exact fun v hv => hv.elim
  · have hfits := (Counters.fits_ofTime (z := 5) (by decide)).withTime (toInt_le seconds)
    simpa [timedWait, timedWaitExecute] using hfits
  · intro d s hd hs
    suffices h : d.succ.timeoutCount < d.succ.executionTime → d.succ.Fits ∧ d.succ.left < d.left by
      simpa [timedWait, timedWaitTimeout, sat_incr hd, Over, hs] using fun hlt => .inr (h hlt)
    exact fun hlt => hd.succ hlt

theorem tame_mgmtFrameCaptureExecute {c : Capture} {duration : BitVec 32} {d : Counters} (hs : s ≠ .abort) :
    Tame (mgmtFrameCaptureExecute c duration d) s := by
  simp [mgmtFrameCaptureExecute, guard_of_ne hs]

theorem tame_mgmtFrameCaptureTimeout {d : Counters} (hs : s ≠ .abort) :
    Tame (mgmtFrameCaptureTimeout d) s := by
  simp only [mgmtFrameCaptureTimeout, tame_read_bind, tame_ite]
  refine ⟨fun _ => tame_incr_bind fun c => ?_, fun _ => tame_pure⟩
  simp [guard_of_ne hs]

theorem writes_onRadio (radioIndex : ℕ) : OnlyAborts (onRadio radioIndex) :=
  writes_bind writes_ask fun _ => writes_pure

theorem writes_frameOnRadio {radioIndex : ℕ} {ops : FrmOps} {p : Cmd Bool}
    (h : frameOnRadio radioIndex ops = some p) : OnlyAborts p := by
  cases ops with
  | prbReq =>
      cases h
      exact writes_pure
  | assocReq | reassocReq | action | prbResp | assocResp | reassocResp =>
      cases h
      exact writes_onRadio radioIndex
  | auth | eapol | deauth | disassoc =>
      cases h
      apply writes_bind (writes_onRadio radioIndex)
      exact fun found => writes_ite writes_pure (writes_onRadio radioIndex)
  | other =>
      cases h

theorem writes_mgmtFrameCaptureFilter (c : Capture) (radioIndex : ℕ) (f : Frame) (d : Counters) :
    OnlyAborts (mgmtFrameCaptureFilter c radioIndex f d) := by
  cases f with
  | cfg80211 ops phyIndex =>
      apply writes_ite writes_pure
      apply writes_ite ?_ writes_pure
      exact writes_bind (writes_unloadCfg80211StartAp ops) fun _ => writes_pure
  | frm80211 ops clientMac mac =>
      apply writes_ite writes_pure
      apply writes_ite writes_pure
      cases hfound : frameOnRadio radioIndex ops with
      | none =>
          exact writes_pure
      | some found =>
          apply writes_bind (writes_frameOnRadio hfound)
          intro found
          apply writes_ite ?_ writes_pure
          exact writes_bind writes_dump fun _ => writes_pure
  | webconfig subdoc | other =>
      exact writes_pure

theorem abortStays_mgmtFrameCapture (c : Capture) (radioIndex : ℕ) (duration : BitVec 32) :
    AbortStays (mgmtFrameCapture c radioIndex duration) := by
  apply abortStays_of_tame
  · exact fun _ => writes_pure
  · exact fun d s hs => tame_mgmtFrameCaptureExecute hs
  · exact fun d s hs => tame_mgmtFrameCaptureTimeout hs
  · exact fun f d s hs => tame_of_writes (writes_mgmtFrameCaptureFilter c radioIndex f d)

/-- `execution_time` is still ahead, so the comparison with `==` will meet it. -/
def Ahead (d : Counters) : Prop :=
  d.Fits ∧ d.timeoutCount < d.executionTime

theorem Ahead.succ {d : Counters} (h : Ahead d) (hne : d.executionTime ≠ d.succ.timeoutCount) :
    Ahead d.succ ∧ d.succ.left < d.left := by
  obtain ⟨hfits, hlt⟩ := h
  have hlt' : d.succ.timeoutCount < d.executionTime := by
    simp only [Counters.succ] at hne ⊢
    omega
  exact ⟨⟨(hfits.succ hlt').1, hlt'⟩, (hfits.succ hlt').2⟩

theorem sat_mgmtFrameCaptureTimeout {d : Counters} (hd : Ahead d) (hs : s = .wait ∨ s = .cont) :
    Sat Alone (fun _ _ => True)
      (fun r t => Over t ∨ (t = .wait ∨ t = .cont) ∧ Ahead r.2 ∧ r.2.left < d.left)
      (mgmtFrameCaptureTimeout d) s := by
  have hres : s ≠ .results := by
    rcases hs with rfl | rfl <;> decide
  suffices h : ¬d.succ.executionTime = d.succ.timeoutCount → Ahead d.succ ∧ d.succ.left < d.left by
    simpa [mgmtFrameCaptureTimeout, sat_incr hd.1, hres, Over, hs] using fun hne => .inr (h hne)
  exact fun hne => hd.succ hne

/-- A capture completes if and only if none is asked for or its duration is an `int`. -/
theorem completes_mgmtFrameCapture_iff (c : Capture) (radioIndex : ℕ) (duration : BitVec 32)
    (P : Pace (mgmtFrameCapture c radioIndex duration)) :
    Completes (mgmtFrameCapture c radioIndex duration) P ↔
      c.frames = false ∨ duration.toNat ≤ 2147483647 := by
  constructor
  · intro h
    by_contra hcond
    rw [not_or, not_le] at hcond
    obtain ⟨hframes, hduration⟩ := hcond
    have hneg : duration.toInt < 0 := by
      rw [BitVec.toInt_eq_toNat_cond]
      split <;> omega
    revert h
    apply not_completes_of_may
      (K := fun d s => s = .cont ∧ Counters.executionTime d < 0 ∧ 0 ≤ Counters.timeoutCount d)
    · exact fun d s hK => .inr hK.1
    · have hpos : 0 < duration.toNat := by omega
      simp [mgmtFrameCapture, StepType.job, mgmtFrameCaptureExecute, hframes, hpos, hneg, Counters.ofTime]
    · rintro d s ⟨rfl, hexec, hcount⟩
      simp only [mgmtFrameCapture, mgmtFrameCaptureTimeout, may_bind, may_readCell, may_ite]
      refine ⟨fun _ => may_incr hcount fun n hn => ⟨fun heq => ?_, fun _ => ⟨rfl, hexec, hn.le⟩⟩, fun h => ?_⟩
      · have : Counters.executionTime d = n := heq
        omega
      · exact absurd (by decide) h
  · intro hcond
    apply completes_of_measure (W := Alone) (I := Ahead) (μ := Counters.left)
    · exact fun _ => writes_pure
    · exact fun v hv => hv.elim
    · have hahead : ∀ h : c.frames = true, 0 < duration.toNat → Ahead ⟨duration.toInt, 0⟩ := by
        intro hframes hpos
        have hle := hcond.resolve_left (by simp [hframes])
        have htoInt : duration.toInt = duration.toNat := by
          rw [BitVec.toInt_eq_toNat_cond]
          split <;> omega
        refine ⟨(Counters.fits_ofTime (z := 5) (by decide)).withTime (toInt_le duration), ?_⟩
        simp only [htoInt]
        omega
      simpa [mgmtFrameCapture, mgmtFrameCaptureExecute, abortErr, Counters.ofTime] using hahead
    · exact fun d s hd hs => sat_mgmtFrameCaptureTimeout hd hs

end Waits

end OneWifiTestSuite.LocalSteps
