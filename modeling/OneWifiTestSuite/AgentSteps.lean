import OneWifiTestSuite.WorkerSteps

/-!
# Steps with clients

The step types `test_step_param_iperf_client`, `test_step_param_iperf_server`,
`test_step_param_eth_lan_client` and `test_step_param_sta_management`. On an external agent they poll its
status, which is one function for the four (`Poll.timeout`): such a step goes on for as long as the agent
says so. With a real or a simulated client they count their timeouts.
-/

namespace OneWifiTestSuite.AgentSteps

open Steps SharedCell StepTypes WorkerSteps
open Scheduler (FilterRet)

section Sources

/-- `iperf_operation_type_t`. -/
inductive IperfOperation
  | start
  | stop
  | invalid
deriving DecidableEq, Repr

/-- A profile of `connectivity_q`. -/
structure Profile where
  duration : ℤ
  counter : ℤ
deriving DecidableEq, Repr

/-- What the callbacks change: the counters of every type, and fields of `eth_dev_info` and `sta_test`. -/
structure Data where
  counters : Counters
  isIpAssigned : Bool := false
  isDecoded : Bool := false
  connectivityQ : List Profile := []
  currentProfileCount : ℤ := 0
deriving Repr

/-- A call that may have set abort when it fails: the posting of a subdocument, the push of the result
files. -/
def attempt : Cmd Bool := do
  let call ← ask
  if call.ok then pure true
  else if call.flag then do
    writeCell .abort
    pure false
  else pure false

/-- `attempt`, with abort and `RETURN_ERR` when it fails. -/
def attemptOrAbort (d : Data) (k : Cmd (Bool × Data)) : Cmd (Bool × Data) := do
  let done ← attempt
  if done then k else abortErr d

/-- What the polls do not share. -/
structure Poll where
  stepNumber : ℕ
  /-- the assignment of wait or continue -/
  pause : Data → Cmd (Bool × Data)
  /-- the comparison of `execution_time` and the grace timeout with `timeout_count`, while the agent is
  running -/
  due : ℤ → ℤ → Bool
  /-- the private data of the agent's step may say that it has an address -/
  readsAddress : Bool
  /-- whether results come with files -/
  files : Bool
  /-- whether an agent that has failed gets the stop command -/
  stopsFailed : Bool
  /-- the entries at which the agent gets the stop command -/
  stopsAt : ℕ × TestState → Bool

/-- A step type of this module: it starts no thread. -/
def clientStep (time : ℤ) (execute timeout : Data → Cmd (Bool × Data))
    (filter : Frame → Data → Cmd (FilterRet × Data)) : StepType where
  Data := Data
  init := { counters := .ofTime time }
  stepExecute := execute
  stepTimeout := timeout
  stepFrameFilter := filter

/-- The `step_frame_filter` of a step type that handles no frame. -/
def unhandled (_ : Frame) (d : Data) : Cmd (FilterRet × Data) := pure (.unhandled, d)

variable (p : Poll)

/-- The search for the step in the agent's reply, which writes its state. -/
def Poll.search : List (ℕ × TestState) → Cmd Bool
  | [] => pure false
  | entry :: steps => do
      if p.stopsAt entry then
        let _ ← ask
      if entry.1 = p.stepNumber then do
        writeCell entry.2
        pure true
      else Poll.search steps

/-- `parse_step_private_data`. -/
def Poll.parseStepPrivateData (d : Data) : Cmd Data :=
  if p.readsAddress then do
    let data ← ask
    pure { d with isIpAssigned := d.isIpAssigned || data.flag }
  else pure d

/-- The download and the push of the result files. -/
def Poll.results (d : Data) : Cmd (Bool × Data) :=
  if p.files then orAbort d fun _ => attemptOrAbort d (pure (true, d)) else pure (true, d)

/-- The end of a poll, which follows the agent's step. -/
def Poll.follow (status : AgentStatus) (d : Data) : Cmd (Bool × Data) :=
  if status.state = .fail then do
    writeCell .abort
    if p.stopsFailed then
      let _ ← ask
    pure (false, d)
  else do
    let found ← p.search status.steps
    if found then do
      let d ← p.parseStepPrivateData d
      let s ← readCell
      if s = .results then p.results d
      else if s = .abort then pure (false, d)
      else p.pause d
    else p.pause d

/-- The poll, from the lookup of the agent on; `external_sta_grace_timeout` is 3. -/
def Poll.timeout (d : Data) : Cmd (Bool × Data) :=
  orAbort d fun _ =>
  orAbort d fun reply => do
  let c ← d.counters.incr
  let d := { d with counters := c }
  if c.timeoutCount = 3 ∧ reply.status.state = .idle then abortErr d
  else if reply.status.state = .running then do
    let bound ← intOf (c.executionTime + 3)
    if p.due bound c.timeoutCount then do
      writeCell .results
      let _ ← p.search reply.status.steps
      let d ← p.parseStepPrivateData d
      p.results d
    else p.follow reply.status d
  else p.follow reply.status d

/-- `step_timeout` with a real client; `sta` says that it is a station, which is removed. -/
def realTimeout (sta : Bool) (d : Data) : Cmd (Bool × Data) := do
  let c ← d.counters.incr
  let d := { d with counters := c }
  if c.timeoutCount = c.executionTime then do
    writeCell .results
    if sta then do
      let _ ← ask
      pure (true, { d with isDecoded := false })
    else pure (true, d)
  else if c.executionTime > c.timeoutCount then do
    writeCell .cont
    pure (true, d)
  else pure (false, d)

/-- The polls of the two `iperf` types, without the stop commands. -/
def iperfPoll (stepNumber : ℕ) (op : IperfOperation) (fork : Bool) : Poll where
  stepNumber := stepNumber
  pause := waitOrContinue fork
  due _ _ := false
  readsAddress := false
  files := op ≠ .stop
  stopsFailed := false
  stopsAt _ := false

/-- What `test_step_param_iperf_client` has decoded; `real` is `start_conf.connection_type`. -/
structure IperfClient where
  stepNumber : ℕ
  op : IperfOperation
  real : Bool
  fork : Bool

/-- `test_step_param_iperf_client::step_execute`. -/
def iperfClientExecute (c : IperfClient) (d : Data) : Cmd (Bool × Data) :=
  match c.op with
  | .stop =>
      if c.real then abortErr d
      else attemptOrAbort d (waitOrContinue c.fork d)
  | .start =>
      if c.real then
        orErr d fun _ =>
        orErr d fun _ =>
        orErr d fun _ =>
        waitOrContinue c.fork d
      else do
        let posted ← attempt
        if posted then waitOrContinue c.fork d
        else do
          let agent ← ask
          if agent.ok then
            let _ ← ask
          abortErr d
  | .invalid => waitOrContinue c.fork d

/-- `test_step_param_iperf_client::step_timeout`. -/
def iperfClientTimeout (c : IperfClient) (d : Data) : Cmd (Bool × Data) :=
  if c.real then realTimeout false d else (iperfPoll c.stepNumber c.op c.fork).timeout d

/-- `test_step_param_iperf_client`. -/
def iperfClient (c : IperfClient) : StepType :=
  clientStep 5 (iperfClientExecute c) (iperfClientTimeout c) unhandled

/-- What `test_step_param_iperf_server` has decoded; `start_conf` and `stop_conf` are of one union. -/
structure IperfServer where
  stepNumber : ℕ
  op : IperfOperation
  startReal : Bool
  stopReal : Bool
  fork : Bool

/-- `test_step_param_iperf_server::step_execute`. -/
def iperfServerExecute (c : IperfServer) (d : Data) : Cmd (Bool × Data) :=
  match c.op with
  | .stop =>
      if c.stopReal then do
        let started ← ask
        if started.ok then do
          let _ ← ask
          writeCell .results
          pure (true, d)
        else
          orAbort d fun _ => do
          writeCell .results
          pure (true, d)
      else attemptOrAbort d (waitOrContinue c.fork d)
  | .start =>
      if c.startReal then
        orAbort d fun _ =>
        orAbort d fun _ =>
        waitOrContinue c.fork d
      else attemptOrAbort d (waitOrContinue c.fork d)
  | .invalid => waitOrContinue c.fork d

/-- The poll of an `iperf` server: `IPERF_STOP_STEP_NUMBER` is 7. -/
def iperfServerPoll (c : IperfServer) : Poll where
  __ := iperfPoll c.stepNumber c.op c.fork
  stopsFailed := true
  stopsAt entry := entry.1 = 7 && entry.2 = .results

/-- `test_step_param_iperf_server::step_timeout`. -/
def iperfServerTimeout (c : IperfServer) (d : Data) : Cmd (Bool × Data) :=
  if c.startReal then realTimeout false d
  else if c.stopReal then pure (true, d)
  else (iperfServerPoll c).timeout d

/-- `test_step_param_iperf_server`. -/
def iperfServer (c : IperfServer) : StepType :=
  clientStep 5 (iperfServerExecute c) (iperfServerTimeout c) unhandled

/-- What `test_step_param_eth_lan_client` has decoded. -/
structure EthLanClient where
  stepNumber : ℕ
  duration : BitVec 32
  fork : Bool

/-- Wait for a forked step that has an address, continue for another. -/
def ethLanClientPause (fork : Bool) (d : Data) : Cmd (Bool × Data) :=
  waitOrContinue (fork && d.isIpAssigned) d

/-- `test_step_param_eth_lan_client::step_execute`. -/
def ethLanClientExecute (c : EthLanClient) (d : Data) : Cmd (Bool × Data) :=
  orErr d fun _ =>
  let d := { d with counters := { d.counters with executionTime := c.duration.toInt } }
  orErr d fun _ =>
  orErr d fun _ =>
  ethLanClientPause c.fork d

/-- The poll of an ethernet client; the timeout after the grace one is due. -/
def ethLanClientPoll (c : EthLanClient) : Poll where
  stepNumber := c.stepNumber
  pause := ethLanClientPause c.fork
  due bound count := bound = count
  readsAddress := true
  files := true
  stopsFailed := true
  stopsAt _ := false

/-- `test_step_param_eth_lan_client`; `step_timeout` is its poll. -/
def ethLanClient (c : EthLanClient) : StepType :=
  clientStep 5 (ethLanClientExecute c) (ethLanClientPoll c).timeout unhandled

/-- `client_connection_type_t`. -/
inductive Connection
  | internal
  | external
  | real
  | noUserInput
deriving DecidableEq, Repr

/-- What `test_step_param_sta_management` has decoded. -/
structure StaManagement where
  stepNumber : ℕ
  connection : Connection
  capture : Capture
  captureStaRequests : Bool
  fork : Bool
  waitConnection : Bool
  testDuration : BitVec 32
  signalPattern : List ℤ

/-- The end of `step_execute`: the addresses of the stations are written to a file and uploaded. -/
def staManagementReport (d : Data) : Cmd (Bool × Data) :=
  orErr d fun _ =>
  orAbort d fun _ =>
  orAbort d fun _ =>
  pure (true, d)

/-- `test_step_param_sta_management::step_execute`, which decodes at its first call. -/
def staManagementExecute (c : StaManagement) (d : Data) : Cmd (Bool × Data) :=
  if d.isDecoded then staManagementReport d
  else
    orErr d fun _ =>
    let d := { d with
      isDecoded := true
      counters := { d.counters with executionTime := c.testDuration.toInt }
      connectivityQ := c.signalPattern.map fun duration => ⟨duration, 0⟩
      currentProfileCount := c.signalPattern.length - 1 }
    match c.connection with
    | .internal =>
        orErr d fun _ => do
        writeCell (if c.capture.frames then .cont else .results)
        staManagementReport d
    | .external =>
        orErr d fun _ =>
        orErr d fun _ => do
        writeCell .cont
        staManagementReport d
    | .real =>
        orErr d fun _ => do
        writeCell .cont
        staManagementReport d
    | .noUserInput => staManagementReport d

/-- Wait for a forked step, then continue for one without an address. -/
def extStaPause (fork : Bool) (d : Data) : Cmd (Bool × Data) := do
  writeCell (if fork then .wait else .cont)
  if d.isIpAssigned = false then writeCell .cont
  pure (true, d)

/-- `step_timeout_ext_sta`; every timeout after the grace one is due. -/
def extStaPoll (c : StaManagement) : Poll where
  stepNumber := c.stepNumber
  pause := extStaPause c.fork
  due bound count := bound ≤ count
  readsAddress := true
  files := true
  stopsFailed := false
  stopsAt _ := false

/-- The reconnections and disconnections of a timeout; a success leaves the step to be decoded again. -/
def simReconnect (d : Data) : Cmd Data := do
  let exchange ← ask
  if exchange.flag then pure { d with isDecoded := false } else pure d

/-- The loop that sends heart beats, up to one for which there is no memory. -/
def heartBeats (d : Data) (k : Cmd (Bool × Data)) : ℕ → Cmd (Bool × Data)
  | 0 => k
  | n + 1 => do
      let client ← ask
      if client.ok then orErr d fun _ => heartBeats d k n else heartBeats d k n

/-- The loop at the end of a timeout, which assigns wait or continue for each client. -/
def simClients (c : StaManagement) (d : Data) : ℕ → Cmd (Bool × Data)
  | 0 => pure (true, d)
  | n + 1 => do
      let client ← ask
      if client.ok then
        if c.fork then
          if c.waitConnection ∧ client.flag = false then do
            writeCell .cont
            simClients c d n
          else do
            writeCell .wait
            simClients c d n
        else if d.counters.executionTime > d.counters.timeoutCount then do
          writeCell .cont
          simClients c d n
        else simClients c d n
      else simClients c d n

/-- The loop over the clients that are there. -/
def simPause (c : StaManagement) (d : Data) : Cmd (Bool × Data) := do
  let clients ← ask
  simClients c d clients.num

/-- The end of a timeout of a profile: the next one is that before it in the queue. -/
def simProfileEnd (c : StaManagement) (profile : Profile) (d : Data) : Cmd (Bool × Data) :=
  if profile.counter ≥ profile.duration then
    let d := { d with currentProfileCount := d.currentProfileCount - 1 }
    if d.currentProfileCount = -1 then do
      writeCell .results
      pure (true, d)
    else simPause c d
  else simPause c d

/-- The part of `step_timeout` that plays the signal pattern. -/
def simProfiles (c : StaManagement) (d : Data) : Cmd (Bool × Data) :=
  if d.connectivityQ ≠ [] ∧ 0 ≤ d.currentProfileCount then
    match d.connectivityQ[d.currentProfileCount.toNat]? with
    | none => pure (true, d)
    | some profile => do
        let counter ← intOf (profile.counter + 1)
        let profile := { profile with counter := counter }
        let d := { d with connectivityQ := d.connectivityQ.set d.currentProfileCount.toNat profile }
        let clients ← ask
        heartBeats d (simProfileEnd c profile d) clients.num
  else simPause c d

/-- `step_timeout` with simulated stations. -/
def simTimeout (c : StaManagement) (d : Data) : Cmd (Bool × Data) := do
  let s ← readCell
  if s ≠ .results then do
    let n ← d.counters.incr
    let d := { d with counters := n }
    if n.executionTime = n.timeoutCount then do
      writeCell .results
      pure (true, d)
    else do
      let d ← simReconnect d
      simProfiles c d
  else pure (true, d)

/-- `test_step_param_sta_management::step_timeout`. -/
def staManagementTimeout (c : StaManagement) (d : Data) : Cmd (Bool × Data) :=
  match c.connection with
  | .external => (extStaPoll c).timeout d
  | .real => realTimeout true d
  | .internal | .noUserInput => simTimeout c d

/-- The end of the loop over the clients in `step_frame_filter`, for a frame from or to one of them: `none`
goes on with the next client. -/
def clientCapture (c : StaManagement) (ops : FrmOps) : Cmd (Option FilterRet) := do
  let toClient ← ask
  if toClient.flag then
    if c.capture.frames = false ∨ c.capture.frm80211 = false then pure (some .unhandled)
    else if c.capture.frmOps.contains ops = false then pure (some .unhandled)
    else do
      unloadFrm80211Msg
      pure none
  else if c.captureStaRequests then do
    let fromClient ← ask
    if fromClient.flag then
      if c.capture.frames = false ∨ c.capture.frm80211 = false then pure none
      else if c.capture.frmOps.contains ops = false then pure none
      else do
        unloadFrm80211Msg
        pure none
    else pure none
  else pure none

/-- The loop over the clients in `step_frame_filter`. -/
def clientFrames (c : StaManagement) (ops : FrmOps) : ℕ → Cmd FilterRet
  | 0 => pure .unhandled
  | n + 1 => do
      let client ← ask
      if client.ok then
        if client.flag then do
          let name ← ask
          if name.ok then do
            if ops = .deauth ∨ ops = .disassoc then do
              if c.capture.frames then unloadFrm80211Msg
              let sent ← ask
              if ops = .deauth ∧ sent.flag = false then pure .unhandled
              else do
                let ret ← clientCapture c ops
                match ret with
                | some ret => pure ret
                | none => clientFrames c ops n
            else do
              let ret ← clientCapture c ops
              match ret with
              | some ret => pure ret
              | none => clientFrames c ops n
          else clientFrames c ops n
        else clientFrames c ops n
      else pure .unhandled

/-- `test_step_param_sta_management::step_frame_filter`. -/
def staManagementFilter (c : StaManagement) (f : Frame) (d : Data) : Cmd (FilterRet × Data) :=
  match f with
  | .frm80211 ops _ _ => do
      let bssid ← ask
      if c.connection = .real ∧ bssid.flag then do
        unloadFrm80211Msg
        pure (.handled, d)
      else do
        let clients ← ask
        let ret ← clientFrames c ops clients.num
        pure (ret, d)
  | .cfg80211 ops _ =>
      if c.connection = .real then do
        unloadCfg80211StartAp ops
        pure (.handled, d)
      else pure (.unhandled, d)
  | .webconfig _ | .other => pure (.unhandled, d)

/-- `test_step_param_sta_management`. -/
def staManagement (c : StaManagement) : StepType :=
  clientStep 3 (staManagementExecute c) (staManagementTimeout c) (staManagementFilter c)

end Sources

section Rules

variable {time : ℤ} {execute timeout : Data → Cmd (Bool × Data)} {filter : Frame → Data → Cmd (FilterRet × Data)}

theorem abortStays_clientStep (hexecute : ∀ d s, s ≠ .abort → Tame (execute d) s)
    (htimeout : ∀ d s, s ≠ .abort → Tame (timeout d) s) (hfilter : ∀ f d, OnlyAborts (filter f d)) :
    AbortStays (clientStep time execute timeout filter) :=
  abortStays_of_tame (fun _ => writes_pure) hexecute htimeout fun f d _ _ => tame_of_writes (hfilter f d)

theorem writes_unhandled (f : Frame) (d : Data) : OnlyAborts (unhandled f d) := writes_pure

/-- A step that may stay alive in `K` does not complete. -/
theorem not_completes_clientStep (K : Data → TestState → Prop) (hlive : ∀ d s, K d s → s = .wait ∨ s = .cont)
    (hexecute : May (pure false) (fun _ _ => False) (fun r t => r.1 = true ∧ K r.2 t)
      (execute { counters := .ofTime time }) .start)
    (htimeout : ∀ d s, K d s → May (pure false) (fun _ _ => False) (fun r t => K r.2 t) (timeout d) s)
    (P : Pace (clientStep time execute timeout filter)) : ¬Completes (clientStep time execute timeout filter) P := by
  have hjob : May (pure false) (fun _ _ => False) K (do
      let r ← execute { counters := .ofTime time }
      if r.1 then pure r.2
      else do
        writeCell .abort
        pure r.2) .start := by
    rw [may_bind]
    refine hexecute.mono fun r t hr => ?_
    rw [if_pos hr.1]
    exact hr.2
  exact not_completes_of_may (K := K) hlive hjob htimeout P

/-- The invariant of a step that counts its timeouts up to a time that is ahead. -/
def Onward (d : Data) (r : Bool × Data) (t : TestState) : Prop :=
  Over t ∨ (t = .wait ∨ t = .cont) ∧ LocalSteps.Ahead r.2.counters ∧ r.2.counters.left < d.counters.left

theorem completes_clientStep
    (hexecute : Sat Alone (fun _ _ => True) (fun r t => t = .wait ∨ t = .cont → LocalSteps.Ahead r.2.counters)
      (execute { counters := .ofTime time }) .start)
    (htimeout : ∀ d s, LocalSteps.Ahead d.counters → s = .wait ∨ s = .cont →
      Sat Alone (fun _ _ => True) (Onward d) (timeout d) s)
    (P : Pace (clientStep time execute timeout filter)) : Completes (clientStep time execute timeout filter) P :=
  completes_of_measure (S := clientStep time execute timeout filter) (W := Alone)
    (I := fun d : Data => LocalSteps.Ahead d.counters) (μ := fun d : Data => d.counters.left)
    (fun _ => writes_pure) (fun _ hv => hv.elim) hexecute htimeout P

/-- A step that `step_execute` leaves neither in wait nor in continue. -/
theorem completes_clientStep_executed
    (hexecute : Sat Alone (fun _ _ => True) (fun _ t => ¬(t = .wait ∨ t = .cont))
      (execute { counters := .ofTime time }) .start)
    (P : Pace (clientStep time execute timeout filter)) : Completes (clientStep time execute timeout filter) P :=
  completes_of_measure (S := clientStep time execute timeout filter) (W := Alone) (I := fun _ => False)
    (μ := fun _ => 0) (fun _ => writes_pure) (fun _ hv => hv.elim) hexecute (fun _ _ h => h.elim) P

theorem tame_waitOrContinue {fork : Bool} {d : Data} {s : TestState} (hs : s ≠ .abort) :
    Tame (waitOrContinue fork d) s := by
  simp [waitOrContinue, guard_of_ne hs]

end Rules

section Attempts

variable {s : TestState} {d : Data}

theorem tame_attempt_bind {k : Bool → Cmd (Bool × Data)} (htrue : Tame (k true) s) (hfalse : Tame (k false) s)
    (habort : Tame (k false) .abort) : Tame (attempt >>= k) s := by
  simp only [attempt, Tame, sat_bind, sat_ask, env_alone, sat_ite, sat_pure, sat_writeCell, forall_eq]
  exact fun call => ⟨fun _ => htrue, fun _ => ⟨fun _ => ⟨guard_abort s, habort⟩, fun _ => hfalse⟩⟩

theorem tame_attemptOrAbort {k : Cmd (Bool × Data)} (hk : Tame k s) : Tame (attemptOrAbort d k) s :=
  tame_attempt_bind (by simpa using hk) (by simp) (by simp)

theorem may_attempt_bind {agent : Cmd Bool} {B : TestState → TestState → Prop} {Q : Bool × Data → TestState → Prop}
    {k : Bool → Cmd (Bool × Data)} (h : May agent B Q (k true) s) : May agent B Q (attempt >>= k) s := by
  simp only [attempt, may_bind, may_ask, may_ite, may_pure]
  exact ⟨{ (default : Answer) with ok := true }, fun _ => h, by simp⟩

end Attempts

section Polls

variable {s : TestState} {d : Data} (p : Poll)

/-- The search writes the state of its step or nothing. -/
theorem sat_search {p : Poll} (hs : s ≠ .abort) (steps : List (ℕ × TestState)) :
    Sat Alone Guard (fun found t => found = false → t = s) (p.search steps) s := by
  induction steps with
  | nil =>
      simp [Poll.search]
  | cons entry steps ih =>
      by_cases hstop : p.stopsAt entry = true <;> by_cases hnumber : entry.1 = p.stepNumber <;>
        simp [Poll.search, hstop, hnumber, guard_of_ne hs, ih]

theorem tame_search_bind {α : Type} {p : Poll} {k : Bool → Cmd α} {steps : List (ℕ × TestState)} (hs : s ≠ .abort)
    (htrue : ∀ t, Tame (k true) t) (hfalse : Tame (k false) s) : Tame (p.search steps >>= k) s := by
  unfold Tame
  rw [sat_bind]
  refine (sat_search hs steps).mono fun found t ht => ?_
  cases found with
  | true =>
      exact htrue t
  | false =>
      rw [ht rfl]
      exact hfalse

theorem tame_parse_bind {α : Type} {p : Poll} {k : Data → Cmd α} (h : ∀ d, Tame (k d) s) :
    Tame (p.parseStepPrivateData d >>= k) s := by
  cases hreads : p.readsAddress <;> simp only [Poll.parseStepPrivateData, hreads, Tame, sat_bind, sat_ask, env_alone,
    sat_pure, forall_eq, if_true, Bool.false_eq_true, if_false]
  · exact h d
  · exact fun data => h _

theorem tame_results : Tame (p.results d) s := by
  simp only [Poll.results, tame_ite, tame_orAbort, tame_pure, implies_true, and_true]
  exact fun _ _ _ => tame_attemptOrAbort tame_pure

/-- A poll that finds an abort in the agent's reply leaves it. -/
theorem tame_follow {p : Poll} (hpause : ∀ d s, s ≠ .abort → Tame (p.pause d) s) {status : AgentStatus}
    (hs : s ≠ .abort) : Tame (p.follow status d) s := by
  simp only [Poll.follow, tame_ite, tame_write_bind]
  refine ⟨fun _ => ⟨guard_abort s, ?_⟩, fun _ => tame_search_bind hs (fun t => ?_) ?_⟩
  · cases p.stopsFailed <;> simp
  · simp only [if_true]
    refine tame_parse_bind fun d => ?_
    simp only [tame_read_bind, tame_ite]
    exact ⟨fun _ => tame_results p, fun _ => ⟨fun _ => tame_pure, fun habort => hpause d t habort⟩⟩
  · exact hpause d s hs

theorem tame_pollTimeout {p : Poll} (hpause : ∀ d s, s ≠ .abort → Tame (p.pause d) s) (hs : s ≠ .abort) :
    Tame (p.timeout d) s := by
  simp only [Poll.timeout, tame_orAbort]
  refine fun _ _ reply _ => tame_incr_bind fun c => ?_
  simp only [tame_ite]
  refine ⟨fun _ => tame_abortErr, fun _ => ⟨fun _ => tame_intOf_bind fun bound => ?_, fun _ => tame_follow hpause hs⟩⟩
  simp only [tame_ite, tame_write_bind]
  refine ⟨fun _ => ⟨guard_of_ne hs, ?_⟩, fun _ => tame_follow hpause hs⟩
  exact tame_search_bind (by decide) (fun t => tame_parse_bind fun d => tame_results p)
    (tame_parse_bind fun d => tame_results p)

/-- The step is alive, and its timeouts can go on. -/
def Polled (d : Data) (s : TestState) : Prop :=
  (s = .wait ∨ s = .cont) ∧ 0 ≤ d.counters.timeoutCount

/-- An agent may say for ever that it is complete and has no steps. -/
theorem may_pollTimeout {agent : Cmd Bool} {p : Poll}
    (hpause : ∀ d s, 0 ≤ d.counters.timeoutCount → May agent (fun _ _ => False) (fun r t => Polled r.2 t) (p.pause d) s)
    (hd : 0 ≤ d.counters.timeoutCount) :
    May agent (fun _ _ => False) (fun r t => Polled r.2 t) (p.timeout d) s := by
  have hok : ({ (default : Answer) with ok := true, status := ⟨.complete, []⟩ }).ok = true := rfl
  simp only [Poll.timeout, orAbort, may_bind, may_ask, may_ite]
  refine ⟨{ (default : Answer) with ok := true }, fun _ => ?_, by simp⟩
  refine ⟨{ (default : Answer) with ok := true, status := ⟨.complete, []⟩ }, fun _ => ?_, fun hno => absurd hok hno⟩
  refine may_incr hd fun n hn => ?_
  simp only [reduceCtorEq, and_false, IsEmpty.forall_iff, not_false_eq_true, true_and, forall_const]
  simpa [Poll.follow, Poll.search] using hpause { d with counters := ⟨d.counters.executionTime, n⟩ } s hn.le

theorem may_waitOrContinue_polled {agent : Cmd Bool} {fork : Bool} (hd : 0 ≤ d.counters.timeoutCount) :
    May agent (fun _ _ => False) (fun r t => r.1 = true ∧ Polled r.2 t) (waitOrContinue fork d) s := by
  cases fork <;> simp [waitOrContinue, Polled, hd]

end Polls

section RealClients

variable {s : TestState} {d : Data} (sta : Bool)

theorem tame_realTimeout (hs : s ≠ .abort) : Tame (realTimeout sta d) s := by
  refine tame_incr_bind fun c => ?_
  cases sta <;> simp [guard_of_ne hs]

theorem sat_realTimeout (hd : LocalSteps.Ahead d.counters) :
    Sat Alone (fun _ _ => True) (Onward d) (realTimeout sta d) s := by
  simp only [realTimeout, sat_bind]
  rw [sat_incr hd.1]
  intro t _
  have hahead : d.counters.timeoutCount < d.counters.executionTime := hd.2
  simp only [sat_ite]
  refine ⟨fun _ => ?_, fun hne => ⟨fun hlt => ?_, fun hge => ?_⟩⟩
  · cases sta <;> simp [Onward, Over]
  · have hnext := hd.succ (Int.ne_of_gt hlt)
    simp [Onward, hnext]
  · simp only [Counters.succ] at hne hge
    omega

theorem may_realTimeout {agent : Cmd Bool} (h : Missed d.counters s) :
    May agent (fun _ _ => False) (fun r t => Missed r.2.counters t) (realTimeout sta d) s := by
  obtain ⟨hs, htime, hcount⟩ := h
  simp only [realTimeout, may_bind]
  refine may_incr hcount fun n hn => ?_
  rw [may_ite, may_ite]
  refine ⟨fun heq => ?_, fun _ => ⟨fun hgt => ?_, fun _ => ⟨hs, htime, hn.le⟩⟩⟩
  · simp only at heq
    omega
  · simp only at hgt
    omega

end RealClients

section IperfClients

variable {s : TestState} {d : Data} (c : IperfClient)

theorem tame_iperfClientExecute (hs : s ≠ .abort) : Tame (iperfClientExecute c d) s := by
  have hpause : Tame (waitOrContinue c.fork d) s := tame_waitOrContinue hs
  unfold iperfClientExecute
  cases c.op with
  | stop =>
      simp only [tame_ite]
      exact ⟨fun _ => tame_abortErr, fun _ => tame_attemptOrAbort hpause⟩
  | start =>
      simp only [tame_ite]
      refine ⟨fun _ => by simp [hpause], fun _ => tame_attempt_bind (by simpa using hpause) ?_ ?_⟩ <;> simp
  | invalid =>
      exact hpause

theorem abortStays_iperfClient : AbortStays (iperfClient c) := by
  apply abortStays_clientStep
  · exact fun d s hs => tame_iperfClientExecute c hs
  · intro d s hs
    simp only [iperfClientTimeout, tame_ite]
    exact ⟨fun _ => tame_realTimeout false hs, fun _ => tame_pollTimeout (fun d s hs => tame_waitOrContinue hs) hs⟩
  · exact writes_unhandled

theorem may_iperfClientExecute {agent : Cmd Bool} (hreal : c.real = false) (hd : 0 ≤ d.counters.timeoutCount) :
    May agent (fun _ _ => False) (fun r t => r.1 = true ∧ Polled r.2 t) (iperfClientExecute c d) s := by
  unfold iperfClientExecute
  simp only [hreal, Bool.false_eq_true, if_false]
  cases c.op with
  | stop | start =>
      exact may_attempt_bind (may_waitOrContinue_polled hd)
  | invalid =>
      exact may_waitOrContinue_polled hd

theorem completes_iperfClient_iff (P : Pace (iperfClient c)) : Completes (iperfClient c) P ↔ c.real = true := by
  constructor
  · intro h
    by_contra hreal
    rw [Bool.not_eq_true] at hreal
    revert h
    apply not_completes_clientStep Polled
    · exact fun _ _ h => h.1
    · exact may_iperfClientExecute c hreal le_rfl
    · intro d s hK
      simp only [iperfClientTimeout, hreal, Bool.false_eq_true, if_false]
      exact may_pollTimeout (fun d s hd => (may_waitOrContinue_polled hd).mono fun _ _ h => h.2) hK.2
  · intro hreal
    apply completes_clientStep
    · have hahead : LocalSteps.Ahead (.ofTime 5) := ⟨Counters.fits_ofTime (by decide), by decide⟩
      simp only [iperfClientExecute, hreal, if_true]
      cases c.op <;> simp [abortErr, orErr, waitOrContinue, hahead]
    · intro d s hd _
      simp only [iperfClientTimeout, hreal, if_true]
      exact sat_realTimeout false hd

end IperfClients

section IperfServers

variable {s : TestState} {d : Data} (c : IperfServer)

theorem tame_iperfServerExecute (hs : s ≠ .abort) : Tame (iperfServerExecute c d) s := by
  have hpause : Tame (waitOrContinue c.fork d) s := tame_waitOrContinue hs
  unfold iperfServerExecute
  cases c.op with
  | stop =>
      simp only [tame_ite]
      exact ⟨fun _ => by simp [guard_of_ne hs], fun _ => tame_attemptOrAbort hpause⟩
  | start =>
      simp only [tame_ite]
      exact ⟨fun _ => by simp [hpause], fun _ => tame_attemptOrAbort hpause⟩
  | invalid =>
      exact hpause

theorem abortStays_iperfServer : AbortStays (iperfServer c) := by
  apply abortStays_clientStep
  · exact fun d s hs => tame_iperfServerExecute c hs
  · intro d s hs
    simp only [iperfServerTimeout, tame_ite]
    exact ⟨fun _ => tame_realTimeout false hs, fun _ => ⟨fun _ => tame_pure,
      fun _ => tame_pollTimeout (fun d s hs => tame_waitOrContinue hs) hs⟩⟩
  · exact writes_unhandled

theorem may_iperfServerExecute {agent : Cmd Bool} (hreal : c.startReal = false)
    (hstop : c.op = .stop → c.stopReal = false) (hd : 0 ≤ d.counters.timeoutCount) :
    May agent (fun _ _ => False) (fun r t => r.1 = true ∧ Polled r.2 t) (iperfServerExecute c d) s := by
  unfold iperfServerExecute
  cases hop : c.op with
  | stop =>
      simp only [hstop hop, Bool.false_eq_true, if_false]
      exact may_attempt_bind (may_waitOrContinue_polled hd)
  | start =>
      simp only [hreal, Bool.false_eq_true, if_false]
      exact may_attempt_bind (may_waitOrContinue_polled hd)
  | invalid =>
      exact may_waitOrContinue_polled hd

/-- A server that is stopped with a real connection is over at once; another one needs the counters of a real
client. -/
theorem completes_iperfServer_iff (P : Pace (iperfServer c)) :
    Completes (iperfServer c) P ↔ c.startReal = true ∨ c.op = .stop ∧ c.stopReal = true := by
  constructor
  · intro h
    by_contra hcond
    simp only [not_or, not_and, Bool.not_eq_true] at hcond
    obtain ⟨hreal, hstop⟩ := hcond
    revert h
    apply not_completes_clientStep Polled
    · exact fun _ _ h => h.1
    · exact may_iperfServerExecute c hreal hstop le_rfl
    · intro d s hK
      simp only [iperfServerTimeout, hreal, Bool.false_eq_true, if_false, may_ite]
      exact ⟨fun _ => hK, fun _ =>
        may_pollTimeout (fun d s hd => (may_waitOrContinue_polled hd).mono fun _ _ h => h.2) hK.2⟩
  · have hahead : LocalSteps.Ahead (.ofTime 5) := ⟨Counters.fits_ofTime (by decide), by decide⟩
    rintro (hreal | ⟨hop, hstop⟩)
    · apply completes_clientStep
      · simp only [iperfServerExecute, hreal, if_true]
        cases c.op <;> cases c.stopReal <;>
          simp [abortErr, orAbort, attemptOrAbort, attempt, waitOrContinue, hahead]
      · intro d s hd _
        simp only [iperfServerTimeout, hreal, if_true]
        exact sat_realTimeout false hd
    · apply completes_clientStep_executed
      simp [iperfServerExecute, hop, hstop, orAbort, abortErr]

end IperfServers

section EthLanClients

variable {s : TestState} {d : Data} (c : EthLanClient)

theorem abortStays_ethLanClient : AbortStays (ethLanClient c) := by
  apply abortStays_clientStep
  · intro d s hs
    simp only [ethLanClientExecute, tame_orErr]
    exact fun _ _ _ _ _ _ => tame_waitOrContinue hs
  · exact fun d s hs => tame_pollTimeout (fun d s hs => tame_waitOrContinue hs) hs
  · exact writes_unhandled

theorem may_ethLanClientPause {agent : Cmd Bool} (hd : 0 ≤ d.counters.timeoutCount) :
    May agent (fun _ _ => False) (fun r t => r.1 = true ∧ Polled r.2 t) (ethLanClientPause c.fork d) s :=
  may_waitOrContinue_polled hd

theorem not_completes_ethLanClient (P : Pace (ethLanClient c)) : ¬Completes (ethLanClient c) P := by
  apply not_completes_clientStep Polled
  · exact fun _ _ h => h.1
  · exact may_orErr fun dev => may_orErr fun _ => may_orErr fun _ => may_ethLanClientPause c le_rfl
  · exact fun d s hK => may_pollTimeout (fun d s hd => (may_ethLanClientPause c hd).mono fun _ _ h => h.2) hK.2

end EthLanClients

section StaManagements

variable {s : TestState} {d : Data} (c : StaManagement)

theorem tame_staManagementReport : Tame (staManagementReport d) s := by
  simp [staManagementReport]

theorem tame_staManagementExecute (hs : s ≠ .abort) : Tame (staManagementExecute c d) s := by
  have hwrite (v : TestState) (d : Data) : Tame (do writeCell v; staManagementReport d) s :=
    tame_write_bind.mpr ⟨guard_of_ne hs, tame_staManagementReport⟩
  simp only [staManagementExecute, tame_ite, tame_orErr]
  refine ⟨fun _ => tame_staManagementReport, fun _ _ _ => ?_⟩
  cases c.connection with
  | internal | real =>
      exact tame_orErr.mpr fun _ _ => hwrite _ _
  | external =>
      exact tame_orErr.mpr fun _ _ => tame_orErr.mpr fun _ _ => hwrite _ _
  | noUserInput =>
      exact tame_staManagementReport

theorem tame_extStaPause {fork : Bool} (hs : s ≠ .abort) : Tame (extStaPause fork d) s := by
  cases fork <;> cases hip : d.isIpAssigned <;> simp [extStaPause, hip, Guard, hs]

theorem tame_simClients (hs : s ≠ .abort) (n : ℕ) : Tame (simClients c d n) s := by
  induction n generalizing s with
  | zero =>
      exact tame_pure
  | succ n ih =>
      have hcont : Tame (do writeCell .cont; simClients c d n) s :=
        tame_write_bind.mpr ⟨guard_of_ne hs, ih (by decide)⟩
      have hwait : Tame (do writeCell .wait; simClients c d n) s :=
        tame_write_bind.mpr ⟨guard_of_ne hs, ih (by decide)⟩
      simp only [simClients, tame_ask_bind, tame_ite]
      exact fun client => ⟨fun _ => ⟨fun _ => ⟨fun _ => hcont, fun _ => hwait⟩, fun _ => ⟨fun _ => hcont,
        fun _ => ih hs⟩⟩, fun _ => ih hs⟩

theorem tame_simPause (hs : s ≠ .abort) : Tame (simPause c d) s :=
  tame_ask_bind.mpr fun clients => tame_simClients c hs clients.num

theorem tame_heartBeats {k : Cmd (Bool × Data)} (hk : Tame k s) (n : ℕ) : Tame (heartBeats d k n) s := by
  induction n with
  | zero =>
      exact hk
  | succ n ih =>
      simp only [heartBeats, tame_ask_bind, tame_ite, tame_orErr]
      exact fun client => ⟨fun _ _ _ => ih, fun _ => ih⟩

theorem tame_simProfiles (hs : s ≠ .abort) : Tame (simProfiles c d) s := by
  have hend (profile : Profile) (d : Data) : Tame (simProfileEnd c profile d) s := by
    simp only [simProfileEnd, tame_ite, tame_write_bind]
    exact ⟨fun _ => ⟨fun _ => ⟨guard_of_ne hs, tame_pure⟩, fun _ => tame_simPause c hs⟩, fun _ => tame_simPause c hs⟩
  simp only [simProfiles, tame_ite]
  refine ⟨fun _ => ?_, fun _ => tame_simPause c hs⟩
  cases d.connectivityQ[d.currentProfileCount.toNat]? with
  | none =>
      exact tame_pure
  | some profile =>
      exact tame_intOf_bind fun counter => tame_ask_bind.mpr fun clients => tame_heartBeats (hend _ _) _

theorem tame_simTimeout (hs : s ≠ .abort) : Tame (simTimeout c d) s := by
  simp only [simTimeout, tame_read_bind, tame_ite]
  refine ⟨fun _ => tame_incr_bind fun n => ?_, fun _ => tame_pure⟩
  simp only [tame_ite, tame_write_bind]
  refine ⟨fun _ => ⟨guard_of_ne hs, tame_pure⟩, fun _ => ?_⟩
  simp only [simReconnect, Tame, sat_bind, sat_ask, env_alone, sat_ite, sat_pure, forall_eq]
  exact fun exchange => ⟨fun _ => tame_simProfiles c hs, fun _ => tame_simProfiles c hs⟩

theorem writes_clientCapture (ops : FrmOps) : OnlyAborts (clientCapture c ops) := by
  have hunload : OnlyAborts (do unloadFrm80211Msg; pure (none : Option FilterRet)) :=
    writes_bind writes_dump fun _ => writes_pure
  apply writes_bind writes_ask
  intro toClient
  apply writes_ite
  · exact writes_ite writes_pure (writes_ite writes_pure hunload)
  · apply writes_ite ?_ writes_pure
    apply writes_bind writes_ask
    exact fun fromClient => writes_ite (writes_ite writes_pure (writes_ite writes_pure hunload)) writes_pure

theorem writes_clientFrames (ops : FrmOps) (n : ℕ) : OnlyAborts (clientFrames c ops n) := by
  induction n with
  | zero =>
      exact writes_pure
  | succ n ih =>
      have hcapture : OnlyAborts (do
          let ret ← clientCapture c ops
          match ret with
          | some ret => pure ret
          | none => clientFrames c ops n) := by
        apply writes_bind (writes_clientCapture c ops)
        rintro (_ | ret)
        · exact ih
        · exact writes_pure
      apply writes_bind writes_ask
      refine fun client => writes_ite (writes_ite ?_ ih) writes_pure
      apply writes_bind writes_ask
      refine fun name => writes_ite (writes_ite ?_ hcapture) ih
      cases c.capture.frames with
      | true =>
          exact writes_bind writes_dump fun _ => writes_bind writes_ask fun sent => writes_ite writes_pure hcapture
      | false =>
          exact writes_bind writes_ask fun sent => writes_ite writes_pure hcapture

theorem writes_staManagementFilter (f : Frame) (d : Data) : OnlyAborts (staManagementFilter c f d) := by
  cases f with
  | webconfig subdoc | other =>
      exact writes_pure
  | cfg80211 ops phyIndex =>
      exact writes_ite (writes_bind (writes_unloadCfg80211StartAp ops) fun _ => writes_pure) writes_pure
  | frm80211 ops clientMac mac =>
      apply writes_bind writes_ask
      intro bssid
      apply writes_ite
      · exact writes_bind writes_dump fun _ => writes_pure
      · apply writes_bind writes_ask
        exact fun clients => writes_bind (writes_clientFrames c ops clients.num) fun _ => writes_pure

theorem abortStays_staManagement : AbortStays (staManagement c) := by
  apply abortStays_clientStep
  · exact fun d s hs => tame_staManagementExecute c hs
  · intro d s hs
    unfold staManagementTimeout
    cases c.connection with
    | external =>
        exact tame_pollTimeout (fun d s hs => tame_extStaPause hs) hs
    | real =>
        exact tame_realTimeout true hs
    | internal | noUserInput =>
        exact tame_simTimeout c hs
  · exact writes_staManagementFilter c

/-- The loop leaves the data as they are, and assigns nothing but wait and continue. -/
theorem sat_simClients (hs : s = .wait ∨ s = .cont) (n : ℕ) :
    Sat Alone (fun _ _ => True) (fun r t => r.2.counters = d.counters ∧ (t = .wait ∨ t = .cont))
      (simClients c d n) s := by
  induction n generalizing s with
  | zero =>
      simp [simClients, hs]
  | succ n ih =>
      have hcont := ih (s := .cont) (.inr rfl)
      have hwait := ih (s := .wait) (.inl rfl)
      simp only [simClients, sat_bind, sat_ask, env_alone, sat_ite, sat_writeCell, forall_eq, implies_true, true_and]
      exact fun client => ⟨fun _ => ⟨fun _ => ⟨fun _ => hcont, fun _ => hwait⟩, fun _ => ⟨fun _ => hcont,
        fun _ => ih hs⟩⟩, fun _ => ih hs⟩

theorem sat_heartBeats {Q : Bool × Data → TestState → Prop} {k : Cmd (Bool × Data)}
    (hk : Sat Alone (fun _ _ => True) Q k s) (hfail : Q (false, d) s) (n : ℕ) :
    Sat Alone (fun _ _ => True) Q (heartBeats d k n) s := by
  induction n with
  | zero =>
      exact hk
  | succ n ih =>
      simp only [heartBeats, orErr, sat_bind, sat_ask, env_alone, sat_ite, sat_pure, forall_eq]
      exact fun client => ⟨fun _ memory => ⟨fun _ => ih, fun _ => hfail⟩, fun _ => ih⟩

/-- The step is over, or it is alive with the counters that it had. -/
def Counted (d : Data) (r : Bool × Data) (t : TestState) : Prop :=
  Over t ∨ r.2.counters = d.counters ∧ (t = .wait ∨ t = .cont)

theorem sat_simPause {d' : Data} (hd : d'.counters = d.counters) (hs : s = .wait ∨ s = .cont) :
    Sat Alone (fun _ _ => True) (Counted d) (simPause c d') s := by
  simp only [simPause, sat_bind, sat_ask, env_alone, forall_eq]
  exact fun clients => (sat_simClients c hs clients.num).mono fun r t ht => .inr ⟨ht.1.trans hd, ht.2⟩

theorem sat_simProfileEnd {d' : Data} {profile : Profile} (hd : d'.counters = d.counters)
    (hs : s = .wait ∨ s = .cont) : Sat Alone (fun _ _ => True) (Counted d) (simProfileEnd c profile d') s := by
  simp only [simProfileEnd, sat_ite]
  refine ⟨fun _ => ⟨fun _ => ?_, fun _ => sat_simPause c hd hs⟩, fun _ => sat_simPause c hd hs⟩
  simp [Counted, Over]

theorem sat_simProfiles {d' : Data} (hd : d'.counters = d.counters) (hs : s = .wait ∨ s = .cont) :
    Sat Alone (fun _ _ => True) (Counted d) (simProfiles c d') s := by
  simp only [simProfiles, sat_ite]
  refine ⟨fun _ => ?_, fun _ => sat_simPause c hd hs⟩
  cases d'.connectivityQ[d'.currentProfileCount.toNat]? with
  | none =>
      simp [Counted, hd, hs]
  | some profile =>
      have hbeats (profile : Profile) (d' : Data) (hd : d'.counters = d.counters) (n : ℕ) :
          Sat Alone (fun _ _ => True) (Counted d) (heartBeats d' (simProfileEnd c profile d') n) s :=
        sat_heartBeats (sat_simProfileEnd c hd hs) (.inr ⟨hd, hs⟩) n
      simp only [sat_bind, intOf, sat_ask, env_alone, sat_ite, sat_pure, forall_eq]
      refine ⟨fun _ clients => hbeats _ _ ?_ _, fun _ counter clients => hbeats _ _ ?_ _⟩ <;> exact hd

theorem sat_simTimeout (hd : LocalSteps.Ahead d.counters) (hs : s = .wait ∨ s = .cont) :
    Sat Alone (fun _ _ => True) (Onward d) (simTimeout c d) s := by
  have hres : s ≠ .results := by
    rcases hs with rfl | rfl <;> decide
  simp only [simTimeout, sat_bind, sat_readCell, env_alone, forall_eq, sat_ite]
  refine ⟨fun _ => ?_, fun hno => absurd hres hno⟩
  rw [sat_incr hd.1]
  intro t ht
  obtain rfl : t = s := env_alone.mp ht
  refine ⟨fun _ => by simp [Onward, Over], fun hne => ?_⟩
  have hsim {d' : Data} (hd' : d'.counters = d.counters.succ) :
      Sat Alone (fun _ _ => True) (Onward d) (simProfiles c d') t :=
    (sat_simProfiles (d := d') c rfl hs).mono fun r t ht => ht.imp_right fun hlive =>
      ⟨hlive.2, by rw [hlive.1, hd']; exact hd.succ hne⟩
  simp only [simReconnect, sat_bind, sat_ask, env_alone, sat_ite, sat_pure, forall_eq]
  exact fun exchange => ⟨fun _ => hsim rfl, fun _ => hsim rfl⟩

/-- There may be no memory for a heart beat, and no client to wait for. -/
theorem may_simProfiles {agent : Cmd Bool} :
    May agent (fun _ _ => False) (fun r t => r.2.counters = d.counters ∧ t = s) (simProfiles c d) s := by
  have hpause (d' : Data) (hd : d'.counters = d.counters) :
      May agent (fun _ _ => False) (fun r t => r.2.counters = d.counters ∧ t = s) (simPause c d') s := by
    simp only [simPause, may_bind, may_ask]
    exact ⟨{ (default : Answer) with num := 0 }, hd, rfl⟩
  simp only [simProfiles, may_ite]
  refine ⟨fun _ => ?_, fun _ => hpause d rfl⟩
  cases d.connectivityQ[d.currentProfileCount.toNat]? with
  | none =>
      exact ⟨rfl, rfl⟩
  | some profile =>
      have hbeats (profile : Profile) (d' : Data) (hd : d'.counters = d.counters) :
          May agent (fun _ _ => False) (fun r t => r.2.counters = d.counters ∧ t = s)
            (do let clients ← ask; heartBeats d' (simProfileEnd c profile d') clients.num) s := by
        simp only [may_bind, may_ask]
        refine ⟨{ (default : Answer) with num := 1 }, ?_⟩
        simp only [heartBeats, orErr, may_bind, may_ask, may_ite, may_pure]
        refine ⟨{ (default : Answer) with ok := true }, fun _ => ?_, by simp⟩
        exact ⟨{ (default : Answer) with ok := false }, by simp, fun _ => ⟨hd, trivial⟩⟩
      rw [may_bind]
      exact may_intOf (fun _ => hbeats _ _ rfl) ⟨0, hbeats _ _ rfl⟩

theorem may_simTimeout {agent : Cmd Bool} (h : Missed d.counters s) :
    May agent (fun _ _ => False) (fun r t => Missed r.2.counters t) (simTimeout c d) s := by
  obtain ⟨hs, htime, hcount⟩ := h
  have hres : s ≠ .results := by
    rcases hs with rfl | rfl <;> decide
  simp only [simTimeout, may_bind, may_readCell, may_ite]
  refine ⟨fun _ => may_incr hcount fun n hn => ?_, fun hno => absurd hres hno⟩
  refine ⟨fun heq => ?_, fun _ => ?_⟩
  · simp only at heq
    omega
  · simp only [simReconnect, may_bind, may_ask, may_ite, may_pure]
    refine ⟨{ (default : Answer) with flag := false }, by simp, fun _ => (may_simProfiles c).mono fun r t ht => ?_⟩
    rw [ht.1, ht.2]
    exact ⟨hs, htime, hn.le⟩

/-- A step that captures frames of simulated stations, and one with a real station, need a time that is
ahead; one on an agent has no bound. -/
def StaManagement.Timed : Prop :=
  match c.connection with
  | .internal => c.capture.frames = true → 0 < c.testDuration.toInt
  | .external => False
  | .real => 0 < c.testDuration.toInt
  | .noUserInput => True

/-- The decoder and the start of the stations may succeed, and so may the report. -/
theorem may_staManagementExecute {agent : Cmd Bool} {K : Data → TestState → Prop}
    (hconnection : c.connection = .internal ∧ c.capture.frames = true ∨ c.connection = .external ∨ c.connection = .real)
    (hK : ∀ d, d.counters = ⟨c.testDuration.toInt, 0⟩ → K d .cont) :
    May agent (fun _ _ => False) (fun r t => r.1 = true ∧ K r.2 t) (staManagementExecute c { counters := .ofTime 3 })
      .start := by
  have hreport (d : Data) (hd : d.counters = ⟨c.testDuration.toInt, 0⟩) :
      May agent (fun _ _ => False) (fun r t => r.1 = true ∧ K r.2 t) (do writeCell .cont; staManagementReport d)
        .start := by
    rw [may_bind, may_writeCell]
    exact .inr (may_orErr fun _ => may_orAbort fun _ => may_orAbort fun _ => ⟨rfl, hK d hd⟩)
  refine may_orErr fun _ => ?_
  rcases hconnection with ⟨hconnection, hframes⟩ | hconnection | hconnection
  · simp only [hconnection, hframes, if_true]
    exact may_orErr fun _ => hreport _ rfl
  · simp only [hconnection]
    exact may_orErr fun _ => may_orErr fun _ => hreport _ rfl
  · simp only [hconnection]
    exact may_orErr fun _ => hreport _ rfl

theorem sat_staManagementExecute (htimed : c.Timed) :
    Sat Alone (fun _ _ => True) (fun r t => t = .wait ∨ t = .cont → LocalSteps.Ahead r.2.counters)
      (staManagementExecute c { counters := .ofTime 3 }) .start := by
  have hahead (h : 0 < c.testDuration.toInt) : LocalSteps.Ahead ⟨c.testDuration.toInt, 0⟩ :=
    ⟨Counters.fits_ofTime (LocalSteps.toInt_le _), h⟩
  unfold StaManagement.Timed at htimed
  cases hconnection : c.connection with
  | internal =>
      rw [hconnection] at htimed
      cases hframes : c.capture.frames with
      | true =>
          simp [staManagementExecute, staManagementReport, orErr, orAbort, abortErr, hconnection, hframes,
            hahead (htimed hframes), Counters.ofTime]
      | false =>
          simp [staManagementExecute, staManagementReport, orErr, orAbort, abortErr, hconnection, hframes]
  | external =>
      rw [hconnection] at htimed
      exact htimed.elim
  | real =>
      rw [hconnection] at htimed
      simp [staManagementExecute, staManagementReport, orErr, orAbort, abortErr, hconnection, hahead htimed,
        Counters.ofTime]
  | noUserInput =>
      simp [staManagementExecute, staManagementReport, orErr, orAbort, abortErr, hconnection]

theorem completes_staManagement_iff (P : Pace (staManagement c)) : Completes (staManagement c) P ↔ c.Timed := by
  constructor
  · intro h
    by_contra htimed
    revert h
    unfold StaManagement.Timed at htimed
    cases hconnection : c.connection with
    | internal =>
        simp only [hconnection, Classical.not_imp, not_lt] at htimed
        apply not_completes_clientStep fun d s => Missed d.counters s
        · exact fun _ _ h => h.1
        · refine may_staManagementExecute c (K := fun d s => Missed d.counters s) (.inl ⟨hconnection, htimed.1⟩) fun d hd => ?_
          rw [hd]
          exact ⟨.inr rfl, htimed.2, le_rfl⟩
        · intro d s h
          simp only [staManagementTimeout, hconnection]
          exact may_simTimeout c h
    | external =>
        apply not_completes_clientStep Polled
        · exact fun _ _ h => h.1
        · refine may_staManagementExecute c (K := Polled) (.inr (.inl hconnection)) fun d hd => ⟨.inr rfl, ?_⟩
          rw [hd]
        · intro d s h
          simp only [staManagementTimeout, hconnection]
          refine may_pollTimeout (fun d s hd => ?_) h.2
          cases hip : d.isIpAssigned <;> cases hfork : c.fork <;>
            simp [extStaPoll, extStaPause, hip, hfork, Polled, hd]
    | real =>
        simp only [hconnection, not_lt] at htimed
        apply not_completes_clientStep fun d s => Missed d.counters s
        · exact fun _ _ h => h.1
        · refine may_staManagementExecute c (K := fun d s => Missed d.counters s) (.inr (.inr hconnection)) fun d hd => ?_
          rw [hd]
          exact ⟨.inr rfl, htimed, le_rfl⟩
        · intro d s h
          simp only [staManagementTimeout, hconnection]
          exact may_realTimeout true h
    | noUserInput =>
        simp [hconnection] at htimed
  · intro htimed
    apply completes_clientStep (sat_staManagementExecute c htimed)
    intro d s hd hs
    unfold StaManagement.Timed at htimed
    unfold staManagementTimeout
    cases hconnection : c.connection with
    | external =>
        rw [hconnection] at htimed
        exact htimed.elim
    | real =>
        exact sat_realTimeout true hd
    | internal | noUserInput =>
        exact sat_simTimeout c hd hs

end StaManagements

end OneWifiTestSuite.AgentSteps
