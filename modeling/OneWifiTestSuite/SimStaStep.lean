import OneWifiTestSuite.Runs
import OneWifiTestSuite.Steps

/-!
# The step of simulated stations

`test_step_param_sta_management` for a `client_connection_type_internal` step once `add_sta` has
connected its clients: `step_timeout` on every tick and `step_frame_filter` on every frame. Both go
over `connected_client_info_q` and use the calls of the station manager; what these answer, and
whether a captured frame can be uploaded, is part of the label, by the index of the client.

`step_timeout` ends with a loop over the clients in which each writes the state of the step, so the
last one decides (`finalState_forked`). `leavesRight_iff` says when that is the state that the
others would have written too, and the one that the associations of the clients ask for.

The fields `disconnected` and `sinceSuccess` of a client record what happened to it and are never
read by the step. `is_station_associated` may be out of date: on a deauthentication the filter clears
the flag of the test and not the one of the client.
-/

namespace OneWifiTestSuite.SimStaStep

open Runs Steps

section Code

/-- `RECONNECT_TIMEOUT`. -/
def reconnectTimeout : BitVec 32 := 3

/-- `connected_client_info_t`. -/
structure Client where
  staMac : BitVec 48
  isStationAssociated : Bool
  isDisconnectionSent : Bool
  reconnectTimer : BitVec 32
  /-- a disconnection came after the last completed association -/
  disconnected : Bool
  /-- the ticks since `reconnect_sta` last succeeded -/
  sinceSuccess : Option ℕ
deriving DecidableEq, Repr

/-- What `add_sta` pushes. -/
def Client.connected (staMac : BitVec 48) : Client :=
  ⟨staMac, true, false, 0, false, none⟩

/-- `wlan_emu_frm80211_ops_type_t`, as far as the filter tells them apart. -/
inductive FrmOps
  | deauth
  | disassoc
  | assocResp
  | eapol
  | other
deriving DecidableEq, Repr

/-- `station_connectivity_profile_t`. -/
structure Profile where
  duration : BitVec 32
  counter : BitVec 32
deriving DecidableEq, Repr

/-- The configuration of the step. -/
structure Cfg where
  executionTime : ℤ
  fork : Bool
  waitConnection : Bool
  isReconnectEnabled : Bool
  reconnectInterval : BitVec 32
  /-- `security.mode` is `wifi_security_mode_none` -/
  openSecurity : Bool
  captureFrames : Bool
  captureStaRequests : Bool
  /-- `frame_request.msg_type` has the bit of `frm80211` -/
  frm80211Requested : Bool
  /-- the bits of `frame_request.frm80211_ops` -/
  opsRequested : FrmOps → Bool

/-- A call of `reconnect_sta`, with what is recorded of the client then. -/
structure Call where
  disconnected : Bool
  sinceSuccess : Option ℕ
deriving DecidableEq, Repr

/-- The step. -/
structure St where
  testState : TestState
  timeoutCount : ℤ
  clients : List Client
  profiles : List Profile
  currentProfileCount : BitVec 32
  /-- the calls of `reconnect_sta`, oldest first -/
  calls : List Call
deriving DecidableEq, Repr

/-- A management or EAPOL frame; `nameOk` is the result of `get_msgname_from_msgtype`. -/
structure Frame where
  ops : FrmOps
  eapolMsg3 : Bool
  nameOk : Bool
  macaddr : BitVec 48
  clientMacaddr : BitVec 48
deriving DecidableEq, Repr

/-- The answers that a tick gets, by the index of the client. -/
structure TickAns where
  reconnectSta : ℕ → Bool
  disconnectSta : ℕ → Bool
  removeSta : ℕ → Bool
  newHeartBeat : ℕ → Bool

/-- The answers that a frame gets, by the index of the client. -/
structure FrameAns where
  disconnectSta : ℕ → Bool
  removeSta : ℕ → Bool
  /-- the upload of the captured frame fails, which sets the step to `abort` -/
  unloadAborts : ℕ → Bool

/-- `disconnect_sta` sets `is_disconnection_sent` when the HAL has disconnected the station. -/
def disconnectSta (ok : Bool) (c : Client) : Client :=
  if ok then { c with isDisconnectionSent := true, disconnected := true } else c

/-- `remove_sta` sets it when it finds the station. -/
def removeSta (ok : Bool) (c : Client) : Client :=
  if ok then { c with isDisconnectionSent := true, disconnected := true } else c

/-- The loop that reconnects; `err` is the variable `ret` of `step_timeout`, kept from client to
client. -/
def reconnectLoop (ok : ℕ → Bool) : ℕ → Bool → List Client → List Client × List Call
  | _, _, [] => ([], [])
  | i, err, c :: cs =>
      if c.isDisconnectionSent = false then
        let r := reconnectLoop ok (i + 1) err cs
        (c :: r.1, r.2)
      else if c.reconnectTimer + 1 < reconnectTimeout then
        let r := reconnectLoop ok (i + 1) err cs
        ({ c with reconnectTimer := c.reconnectTimer + 1 } :: r.1, r.2)
      else
        let err := err || !ok i
        let r := reconnectLoop ok (i + 1) err cs
        let c' := { c with
          reconnectTimer := if err then c.reconnectTimer + 1 else 0
          sinceSuccess := if ok i then some 0 else c.sinceSuccess }
        (c' :: r.1, ⟨c.disconnected, c.sinceSuccess⟩ :: r.2)

/-- The loop that disconnects, every `reconnect_interval` ticks. -/
def disconnectClient (ans : TickAns) (i : ℕ) (c : Client) : Client :=
  if c.isStationAssociated then { disconnectSta (ans.disconnectSta i) c with isStationAssociated := false }
  else c

/-- The tick on which the clients are disconnected. -/
def intervalTick (cfg : Cfg) (timeoutCount : ℤ) : Bool :=
  cfg.isReconnectEnabled && timeoutCount ≠ 0 && 0 < cfg.reconnectInterval &&
    BitVec.ofInt 32 timeoutCount % cfg.reconnectInterval = 0

/-- One client more has passed a tick. -/
def Client.aged (c : Client) : Client :=
  { c with sinceSuccess := c.sinceSuccess.map (· + 1) }

/-- The first of the two loops. -/
def reconnectPart (cfg : Cfg) (ok : ℕ → Bool) (cs : List Client) : List Client × List Call :=
  if cfg.isReconnectEnabled then reconnectLoop ok 0 false cs else (cs, [])

/-- The clients after both. -/
def St.exchange (cfg : Cfg) (ans : TickAns) (s : St) : St :=
  let r := reconnectPart cfg ans.reconnectSta (s.clients.map Client.aged)
  { s with
    clients := if intervalTick cfg s.timeoutCount then r.1.mapIdx (disconnectClient ans) else r.1
    calls := s.calls ++ r.2 }

/-- The step has its results and removes its stations. -/
def St.finish (ans : TickAns) (s : St) : St :=
  { s with testState := .results, clients := s.clients.mapIdx fun i c => removeSta (ans.removeSta i) c }

/-- `queue_count`. -/
def queueCount {α : Type} (q : List α) : BitVec 32 :=
  BitVec.ofNat 32 q.length

/-- `queue_peek`. -/
def queuePeek {α : Type} (q : List α) (index : BitVec 32) : Option α :=
  if queueCount q - 1 < index then none else q[index.toNat]?

/-- The part of `step_timeout` before the last loop: it returns early (`inl`) or goes on. The test that
`current_profile_count` is not negative holds of every unsigned number. -/
def tickBody (cfg : Cfg) (ans : TickAns) (s : St) : St ⊕ St :=
  let s := { s with timeoutCount := s.timeoutCount + 1 }
  if cfg.executionTime = s.timeoutCount then
    .inl (St.finish ans { s with clients := s.clients.map Client.aged })
  else
    let s := s.exchange cfg ans
    if queueCount s.profiles ≠ 0 then
      match queuePeek s.profiles s.currentProfileCount with
      | none => .inl s
      | some profile =>
          let s := { s with profiles := s.profiles.modify s.currentProfileCount.toNat fun p =>
            { p with counter := p.counter + 1 } }
          if (List.range s.clients.length).any fun i => !ans.newHeartBeat i then .inl s
          else if profile.duration ≤ profile.counter + 1 then
            let s := { s with currentProfileCount := s.currentProfileCount - 1 }
            if s.currentProfileCount = -1 then .inl (s.finish ans) else .inr s
          else .inr s
    else .inr s

/-- The last loop: every client writes the state of the step. -/
def finalState (cfg : Cfg) (timeoutCount : ℤ) : TestState → List Client → TestState
  | state, [] => state
  | state, c :: cs =>
      finalState cfg timeoutCount
        (if cfg.fork then
          if cfg.waitConnection ∧ c.isStationAssociated = false then .cont else .wait
        else if timeoutCount < cfg.executionTime then .cont
        else state) cs

/-- `step_timeout`. -/
def stepTimeout (cfg : Cfg) (ans : TickAns) (s : St) : St :=
  if s.testState = .results then s
  else
    match tickBody cfg ans s with
    | .inl s => s
    | .inr s => { s with testState := finalState cfg s.timeoutCount s.testState s.clients }

/-- What the filter does with a client of the frame: the client, whether the upload of the frame has
aborted the step, and whether the filter returns. -/
def filterClient (cfg : Cfg) (f : Frame) (ans : FrameAns) (i : ℕ) (c : Client) : Client × Bool × Bool :=
  if c.staMac ≠ f.clientMacaddr ∧ c.staMac ≠ f.macaddr ∨ f.nameOk = false then (c, false, false)
  else
    let leaves : Bool := f.ops = .deauth || f.ops = .disassoc
    let abort := leaves && cfg.captureFrames && ans.unloadAborts i
    -- a frame that ends the association is a disconnection for the record
    let c := if leaves then { c with disconnected := true } else c
    if f.ops = .deauth ∧ c.isDisconnectionSent = false then
      -- the result of `disconnect_sta` is not looked at
      ({ disconnectSta (ans.disconnectSta i) c with isDisconnectionSent := true }, abort, true)
    else
      let c := if leaves ∧ cfg.isReconnectEnabled = false ∧ c.isStationAssociated then
          removeSta (ans.removeSta i) { c with isStationAssociated := false }
        else c
      let captured : Bool := cfg.captureFrames && cfg.frm80211Requested && cfg.opsRequested f.ops
      if c.staMac = f.clientMacaddr then
        let c :=
          if cfg.openSecurity then
            if f.ops = .assocResp then { c with isStationAssociated := true, disconnected := false } else c
          else if f.ops = .eapol ∧ f.eapolMsg3 then
            { c with isStationAssociated := true, isDisconnectionSent := false, disconnected := false }
          else c
        (c, abort || captured && ans.unloadAborts i, !captured)
      else (c, abort || cfg.captureStaRequests && captured && ans.unloadAborts i, false)

/-- The loop of the filter over the clients, with whether the step is aborted. -/
def filterLoop (cfg : Cfg) (f : Frame) (ans : FrameAns) : ℕ → List Client → List Client × Bool
  | _, [] => ([], false)
  | i, c :: cs =>
      let r := filterClient cfg f ans i c
      if r.2.2 then (r.1 :: cs, r.2.1)
      else
        let rest := filterLoop cfg f ans (i + 1) cs
        (r.1 :: rest.1, r.2.1 || rest.2)

/-- `step_frame_filter`. -/
def stepFrameFilter (cfg : Cfg) (f : Frame) (ans : FrameAns) (s : St) : St :=
  let r := filterLoop cfg f ans 0 s.clients
  { s with clients := r.1, testState := if r.2 then .abort else s.testState }

/-- The moves of the step. -/
inductive Move
  | tick (ans : TickAns)
  | frame (f : Frame) (ans : FrameAns)

/-- The scheduler calls both while the step is in `wait` or `continue`. -/
def next (cfg : Cfg) (s : St) : Move → Option St
  | .tick ans => if s.testState = .wait ∨ s.testState = .cont then some (stepTimeout cfg ans s) else none
  | .frame f ans =>
      if s.testState = .wait ∨ s.testState = .cont then some (stepFrameFilter cfg f ans s) else none

/-- After `step_execute`: a step that does not capture frames has its results at once. -/
def init (cfg : Cfg) (macs : List (BitVec 48)) (profiles : List Profile) : St where
  testState := if cfg.captureFrames then .cont else .results
  timeoutCount := 0
  clients := macs.map Client.connected
  profiles := profiles
  currentProfileCount := queueCount profiles - 1
  calls := []

end Code

section Wait

variable {cfg : Cfg} {ans : TickAns} {s s' : St}

/-- The association flags of the clients. -/
def flags (cs : List Client) : List Bool := cs.map Client.isStationAssociated

/-- Every client has completed its association and has not been disconnected since. -/
def AllAssociated (cs : List Client) : Prop := ∀ c ∈ cs, c.disconnected = false

/-- A step that is not completed is in `wait` only with all of its clients associated, and else in
`continue`. -/
def WaitRight (s : St) : Prop :=
  s.testState = .results ∨
    (s.testState = .wait → AllAssociated s.clients) ∧ (¬AllAssociated s.clients → s.testState = .cont)

/-- The tick leaves the step so, and in the same state for every order of its clients. -/
def LeavesRight (cfg : Cfg) (ans : TickAns) (s : St) : Prop :=
  WaitRight (stepTimeout cfg ans s) ∧
    ∀ cs, cs.Perm s.clients →
      (stepTimeout cfg ans { s with clients := cs }).testState = (stepTimeout cfg ans s).testState

/-- How `step_timeout` ends. -/
inductive Way
  | completes
  | early
  | loop
deriving DecidableEq, Repr

/-- The end that a tick takes. -/
def tickWay (cfg : Cfg) (ans : TickAns) (s : St) : Way :=
  if cfg.executionTime = s.timeoutCount + 1 then .completes
  else if queueCount s.profiles ≠ 0 then
    match queuePeek s.profiles s.currentProfileCount with
    | none => .early
    | some profile =>
        if (List.range s.clients.length).any fun i => !ans.newHeartBeat i then .early
        else if profile.duration ≤ profile.counter + 1 then
          if s.currentProfileCount - 1 = -1 then .completes else .loop
        else .loop
  else .loop

/-- The flags that the last loop sees. -/
def flagsAtLoop (cfg : Cfg) (s : St) : List Bool :=
  if intervalTick cfg (s.timeoutCount + 1) then (flags s.clients).map fun _ => false else flags s.clients

/-- Every client is associated, and the tick does not disconnect it. -/
def StaysAssociated (cfg : Cfg) (ans : TickAns) (s : St) : Prop :=
  ∀ (i : ℕ) (c : Client), s.clients[i]? = some c → c.disconnected = false ∧
    (intervalTick cfg (s.timeoutCount + 1) = true → c.isStationAssociated = true → ans.disconnectSta i = false)

/-- The tick completes the step; or it returns early and the step was in `continue` or all of its clients
are and stay associated; or it comes to its last loop with all flags cleared, or with all flags set and all
of its clients associated. -/
def FlagsRight (cfg : Cfg) (ans : TickAns) (s : St) : Prop :=
  s.testState = .results ∨
    match tickWay cfg ans s with
    | .completes => True
    | .early => s.testState = .cont ∨ StaysAssociated cfg ans s
    | .loop => (∀ b ∈ flagsAtLoop cfg s, b = false) ∨
        (∀ b ∈ flagsAtLoop cfg s, b = true) ∧ StaysAssociated cfg ans s

/-- The loop that reconnects changes the timers and what is recorded of a success. -/
theorem map_reconnectLoop {β : Type} {f : Client → β}
    (hf : ∀ (c : Client) timer since, f { c with reconnectTimer := timer, sinceSuccess := since } = f c)
    (ok : ℕ → Bool) (i : ℕ) (err : Bool) (cs : List Client) :
    (reconnectLoop ok i err cs).1.map f = cs.map f := by
  induction cs generalizing i err with
  | nil =>
      rfl
  | cons c cs ih =>
      unfold reconnectLoop
      split
      · exact congrArg (f c :: ·) (ih (i + 1) err)
      · split
        · exact congrArg₂ List.cons (hf c _ c.sinceSuccess) (ih (i + 1) err)
        · exact congrArg₂ List.cons (hf c _ _) (ih (i + 1) _)

theorem map_reconnectPart {β : Type} {f : Client → β}
    (hf : ∀ (c : Client) timer since, f { c with reconnectTimer := timer, sinceSuccess := since } = f c)
    (cfg : Cfg) (ok : ℕ → Bool) (cs : List Client) :
    (reconnectPart cfg ok (cs.map Client.aged)).1.map f = cs.map f := by
  have haged : (cs.map Client.aged).map f = cs.map f := by
    rw [List.map_map]
    exact List.map_congr_left fun c _ => hf c c.reconnectTimer _
  unfold reconnectPart
  split_ifs
  · rw [map_reconnectLoop hf, haged]
  · exact haged

theorem flags_disconnect (ans : TickAns) (cs : List Client) :
    flags (cs.mapIdx (disconnectClient ans)) = (flags cs).map fun _ => false := by
  unfold flags
  refine List.ext_getElem? fun i => ?_
  simp only [List.getElem?_map, List.getElem?_mapIdx, Option.map_map]
  congr 1
  funext c
  simp only [Function.comp_apply, disconnectClient]
  split_ifs with hassoc
  · rfl
  · simpa using hassoc

/-- The two loops of the reconnect part change the flags on an interval tick only. -/
theorem flags_exchange (cfg : Cfg) (ans : TickAns) (s : St) :
    flags (s.exchange cfg ans).clients =
      if intervalTick cfg s.timeoutCount then (flags s.clients).map fun _ => false else flags s.clients := by
  have hpart : flags (reconnectPart cfg ans.reconnectSta (s.clients.map Client.aged)).1 = flags s.clients :=
    map_reconnectPart (fun _ _ _ => rfl) cfg _ _
  unfold St.exchange
  dsimp only
  split_ifs
  · rw [flags_disconnect, hpart]
  · rw [hpart]

/-- A client is associated behind the loop that disconnects. -/
theorem disconnectClient_disconnected (ans : TickAns) (i : ℕ) (c : Client) :
    (disconnectClient ans i c).disconnected = false ↔
      c.disconnected = false ∧ (c.isStationAssociated = true → ans.disconnectSta i = false) := by
  unfold disconnectClient disconnectSta
  cases c.isStationAssociated <;> cases ans.disconnectSta i <;> simp

/-- What the reconnect part reads of a client's association. -/
def Client.standing (c : Client) : Bool × Bool := (c.disconnected, c.isStationAssociated)

theorem allAssociated_disconnect (ans : TickAns) (interval : Bool) (cs : List Client) :
    AllAssociated (if interval then cs.mapIdx (disconnectClient ans) else cs) ↔
      ∀ (i : ℕ) (p : Bool × Bool), (cs.map Client.standing)[i]? = some p →
        p.1 = false ∧ (interval = true → p.2 = true → ans.disconnectSta i = false) := by
  cases interval with
  | false =>
      rw [if_neg Bool.false_ne_true]
      constructor
      · intro h i p hp
        rw [List.getElem?_map] at hp
        obtain ⟨c, hc, rfl⟩ := Option.map_eq_some_iff.mp hp
        exact ⟨h c (List.mem_of_getElem? hc), fun hno => Bool.noConfusion hno⟩
      · intro h c hc
        obtain ⟨i, hi⟩ := List.getElem?_of_mem hc
        exact (h i c.standing (by rw [List.getElem?_map, hi]; rfl)).1
  | true =>
      rw [if_pos rfl]
      constructor
      · intro h i p hp
        rw [List.getElem?_map] at hp
        obtain ⟨c, hc, rfl⟩ := Option.map_eq_some_iff.mp hp
        have hmem : disconnectClient ans i c ∈ cs.mapIdx (disconnectClient ans) :=
          List.mem_of_getElem? (i := i) (by rw [List.getElem?_mapIdx, hc]; rfl)
        obtain ⟨hassoc, hkept⟩ := (disconnectClient_disconnected ans i c).mp (h _ hmem)
        exact ⟨hassoc, fun _ => hkept⟩
      · intro h c' hc'
        obtain ⟨i, hi, rfl⟩ := List.mem_mapIdx.mp hc'
        obtain ⟨hassoc, hkept⟩ := h i cs[i].standing (by rw [List.getElem?_map, List.getElem?_eq_getElem hi]; rfl)
        exact (disconnectClient_disconnected ans i cs[i]).mpr ⟨hassoc, hkept rfl⟩

/-- All clients are associated behind the reconnect part when they are before and it disconnects none. -/
theorem allAssociated_exchange (cfg : Cfg) (ans : TickAns) (s : St) :
    AllAssociated (({ s with timeoutCount := s.timeoutCount + 1 } : St).exchange cfg ans).clients ↔
      StaysAssociated cfg ans s := by
  have hpart : (reconnectPart cfg ans.reconnectSta (s.clients.map Client.aged)).1.map Client.standing =
      s.clients.map Client.standing :=
    map_reconnectPart (fun _ _ _ => rfl) cfg _ _
  unfold St.exchange
  dsimp only
  rw [allAssociated_disconnect, hpart]
  unfold StaysAssociated
  simp only [List.getElem?_map, Option.map_eq_some_iff]
  constructor
  · intro h i c hc
    exact h i c.standing ⟨c, hc, rfl⟩
  · rintro h i p ⟨c, hc, rfl⟩
    exact h i c hc

/-- The state that the last loop leaves: the one that the last client writes. -/
def lastState (state : TestState) (bs : List Bool) : TestState :=
  match bs.getLast? with
  | none => state
  | some true => .wait
  | some false => .cont

theorem lastState_congr {bs : List Bool} (h : bs ≠ []) (state state' : TestState) :
    lastState state bs = lastState state' bs := by
  unfold lastState
  rw [List.getLast?_eq_some_getLast h]
  cases bs.getLast h <;> rfl

theorem finalState_forked (hfork : cfg.fork = true) (hwait : cfg.waitConnection = true) (n : ℤ)
    (state : TestState) (cs : List Client) :
    finalState cfg n state cs = lastState state (flags cs) := by
  induction cs generalizing state with
  | nil =>
      rfl
  | cons c cs ih =>
      unfold finalState
      rw [ih]
      cases cs with
      | nil =>
          cases hassoc : c.isStationAssociated <;> simp [lastState, flags, hfork, hwait, hassoc]
      | cons c' cs =>
          have hlast : ∀ state, lastState state (flags (c :: c' :: cs)) = lastState state (flags (c' :: cs)) :=
            fun state => by simp [lastState, flags, List.getLast?_cons_cons]
          rw [hlast]
          exact lastState_congr (by simp [flags]) _ _

/-- The clients that the second half of the tick works on. -/
theorem exchange_spec (cfg : Cfg) (ans : TickAns) (s : St) :
    flags (({ s with timeoutCount := s.timeoutCount + 1 } : St).exchange cfg ans).clients =
        flagsAtLoop cfg s ∧
      (({ s with timeoutCount := s.timeoutCount + 1 } : St).exchange cfg ans).clients.length =
        s.clients.length := by
  have hflags := flags_exchange cfg ans { s with timeoutCount := s.timeoutCount + 1 }
  refine ⟨hflags, ?_⟩
  have hlen := congrArg List.length hflags
  dsimp only at hlen
  split_ifs at hlen <;> simpa [flags] using hlen

/-- What a tick that goes on has done to the clients. -/
structure Exchanged (cfg : Cfg) (ans : TickAns) (s t : St) : Prop where
  flags : flags t.clients = flagsAtLoop cfg s
  associated : AllAssociated t.clients ↔ StaysAssociated cfg ans s

/-- What the tick does before its last loop. -/
theorem tickBody_spec (cfg : Cfg) (ans : TickAns) (s : St) :
    match tickWay cfg ans s with
    | .completes => ∃ t, tickBody cfg ans s = .inl t ∧ t.testState = .results
    | .early => ∃ t, tickBody cfg ans s = .inl t ∧ t.testState = s.testState ∧ Exchanged cfg ans s t
    | .loop => ∃ t, tickBody cfg ans s = .inr t ∧ t.testState = s.testState ∧ Exchanged cfg ans s t := by
  obtain ⟨hflags, hlen⟩ := exchange_spec cfg ans s
  have hassociated := allAssociated_exchange cfg ans s
  unfold tickWay tickBody
  by_cases hdone : cfg.executionTime = s.timeoutCount + 1
  · simp only [hdone, if_true]
    exact ⟨_, rfl, rfl⟩
  simp only [hdone, if_false]
  have hprofiles : (({ s with timeoutCount := s.timeoutCount + 1 } : St).exchange cfg ans).profiles =
      s.profiles := rfl
  have hcurrent : (({ s with timeoutCount := s.timeoutCount + 1 } : St).exchange cfg ans).currentProfileCount =
      s.currentProfileCount := rfl
  simp only [hprofiles, hcurrent, hlen]
  by_cases hpattern : queueCount s.profiles ≠ 0
  · simp only [if_pos hpattern]
    cases hprofile : queuePeek s.profiles s.currentProfileCount with
    | none =>
        exact ⟨_, rfl, rfl, hflags, hassociated⟩
    | some profile =>
        dsimp only
        split_ifs
        · exact ⟨_, rfl, rfl, hflags, hassociated⟩
        · exact ⟨_, rfl, rfl⟩
        · exact ⟨_, rfl, rfl, hflags, hassociated⟩
        · exact ⟨_, rfl, rfl, hflags, hassociated⟩
  · simp only [if_neg hpattern]
    exact ⟨_, rfl, rfl, hflags, hassociated⟩

/-- **What a tick leaves**: the state of a step that it does not complete, and its clients. -/
theorem stepTimeout_spec (ans : TickAns) (hfork : cfg.fork = true) (hwait : cfg.waitConnection = true)
    (hstate : s.testState ≠ .results) :
    match tickWay cfg ans s with
    | .completes => (stepTimeout cfg ans s).testState = .results
    | .early => (stepTimeout cfg ans s).testState = s.testState ∧
        Exchanged cfg ans s (stepTimeout cfg ans s)
    | .loop => (stepTimeout cfg ans s).testState = lastState s.testState (flagsAtLoop cfg s) ∧
        Exchanged cfg ans s (stepTimeout cfg ans s) := by
  have hbody := tickBody_spec cfg ans s
  unfold stepTimeout
  rw [if_neg hstate]
  cases hway : tickWay cfg ans s with
  | completes =>
      rw [hway] at hbody
      obtain ⟨t, ht, hresults⟩ := hbody
      rw [ht]
      exact hresults
  | early =>
      rw [hway] at hbody
      obtain ⟨t, ht, hsame, hex⟩ := hbody
      rw [ht]
      exact ⟨hsame, hex⟩
  | loop =>
      rw [hway] at hbody
      obtain ⟨t, ht, hsame, hex⟩ := hbody
      rw [ht]
      refine ⟨?_, hex.flags, hex.associated⟩
      dsimp only
      rw [finalState_forked hfork hwait, hex.flags, hsame]

/-- The order of the clients does not matter for the end that a tick takes. -/
theorem tickWay_perm {cs : List Client} (h : cs.Perm s.clients) :
    tickWay cfg ans { s with clients := cs } = tickWay cfg ans s := by
  unfold tickWay
  rw [h.length_eq]

theorem flagsAtLoop_perm {cs : List Client} (h : cs.Perm s.clients) :
    (flagsAtLoop cfg { s with clients := cs }).Perm (flagsAtLoop cfg s) := by
  unfold flagsAtLoop flags
  dsimp only
  split_ifs
  · exact (h.map _).map _
  · exact h.map _

/-- The flags are all alike. -/
def Uniform (bs : List Bool) : Prop :=
  (∀ b ∈ bs, b = false) ∨ ∀ b ∈ bs, b = true

/-- Flags that are all alike are written alike by every client. -/
theorem lastState_uniform {bs bs' : List Bool} (hperm : bs'.Perm bs) (h : Uniform bs)
    (state : TestState) : lastState state bs' = lastState state bs := by
  by_cases hnil : bs = []
  · subst hnil
    rw [hperm.eq_nil]
  have hnil' : bs' ≠ [] := fun hnil' => hnil (hnil' ▸ hperm).nil_eq.symm
  unfold lastState
  rw [List.getLast?_eq_some_getLast hnil, List.getLast?_eq_some_getLast hnil']
  have hmem := List.getLast_mem hnil
  have hmem' := hperm.mem_iff.mp (List.getLast_mem hnil')
  rcases h with hall | hall
  · rw [hall _ hmem, hall _ hmem']
  · rw [hall _ hmem, hall _ hmem']

theorem waitRight_of_associated {t : St} (h : t.testState = .cont ∨ AllAssociated t.clients) :
    WaitRight t := by
  refine Or.inr ⟨fun hwait => ?_, fun hnot => ?_⟩
  · rcases h with hcont | hall
    · rw [hcont] at hwait
      cases hwait
    · exact hall
  · exact h.resolve_right hnot

/-- Cleared flags leave the step in `continue`. -/
theorem lastState_cleared {bs : List Bool} (h : ∀ b ∈ bs, b = false) (state : TestState) :
    lastState state bs = .cont ∨ bs = [] := by
  by_cases hnil : bs = []
  · exact Or.inr hnil
  · left
    unfold lastState
    rw [List.getLast?_eq_some_getLast hnil, h _ (List.getLast_mem hnil)]

theorem allAssociated_of_flags {t : St} (h : flags t.clients = []) : AllAssociated t.clients := by
  intro c hc
  rw [List.map_eq_nil_iff.mp h] at hc
  cases hc

theorem leavesRight_of_flagsRight (hfork : cfg.fork = true) (hwait : cfg.waitConnection = true)
    (h : FlagsRight cfg ans s) : LeavesRight cfg ans s := by
  by_cases hresults : s.testState = .results
  · have hsame : ∀ t : St, t.testState = .results → stepTimeout cfg ans t = t := fun t ht => by
      unfold stepTimeout
      rw [if_pos ht]
    refine ⟨?_, fun cs _ => ?_⟩
    · rw [hsame s hresults]
      exact Or.inl hresults
    · rw [hsame s hresults, hsame { s with clients := cs } hresults]
  have hspec := stepTimeout_spec ans hfork hwait hresults
  have hspec' := fun (cs : List Client) => stepTimeout_spec (s := { s with clients := cs }) ans hfork hwait hresults
  have hway' : ∀ cs : List Client, cs.Perm s.clients → tickWay cfg ans { s with clients := cs } = tickWay cfg ans s :=
    fun cs hperm => tickWay_perm hperm
  have hcond := h.resolve_left hresults
  cases hway : tickWay cfg ans s with
  | completes =>
      simp only [hway] at hspec hway'
      refine ⟨Or.inl hspec, fun cs hperm => ?_⟩
      have hspec' := hspec' cs
      simp only [hway' cs hperm] at hspec'
      exact hspec'.trans hspec.symm
  | early =>
      simp only [hway] at hspec hway' hcond
      refine ⟨waitRight_of_associated ?_, fun cs hperm => ?_⟩
      · rw [hspec.1, hspec.2.associated]
        exact hcond
      · have hspec' := hspec' cs
        simp only [hway' cs hperm] at hspec'
        exact hspec'.1.trans hspec.1.symm
  | loop =>
      simp only [hway] at hspec hway' hcond
      refine ⟨waitRight_of_associated ?_, fun cs hperm => ?_⟩
      · rcases hcond with hcleared | ⟨-, hstays⟩
        · rw [hspec.1]
          refine (lastState_cleared hcleared _).imp_right fun hnil => ?_
          exact allAssociated_of_flags (hspec.2.flags.trans hnil)
        · exact Or.inr (hspec.2.associated.mpr hstays)
      · have hspec' := hspec' cs
        simp only [hway' cs hperm] at hspec'
        rw [hspec'.1, hspec.1]
        exact lastState_uniform (flagsAtLoop_perm hperm) (hcond.imp_right And.left) _

/-- A client whose flag the last loop sees can be put at the end of the list; it decides then. -/
theorem exists_perm_lastState (hfork : cfg.fork = true) (hwait : cfg.waitConnection = true)
    (hstate : s.testState ≠ .results) (hway : tickWay cfg ans s = .loop)
    (hflags : flagsAtLoop cfg s = flags s.clients) {b : Bool} (hb : b ∈ flagsAtLoop cfg s) :
    ∃ cs, cs.Perm s.clients ∧
      (stepTimeout cfg ans { s with clients := cs }).testState = if b then .wait else .cont := by
  rw [hflags] at hb
  obtain ⟨c, hc, rfl⟩ := List.mem_map.mp hb
  have hperm : (s.clients.erase c ++ [c]).Perm s.clients :=
    (List.perm_append_singleton c _).trans (List.perm_cons_erase hc).symm
  refine ⟨_, hperm, ?_⟩
  have hspec := stepTimeout_spec (s := { s with clients := s.clients.erase c ++ [c] }) ans hfork hwait hstate
  rw [tickWay_perm hperm, hway] at hspec
  have hlast : (flagsAtLoop cfg { s with clients := s.clients.erase c ++ [c] }).getLast? =
      some c.isStationAssociated := by
    unfold flagsAtLoop at hflags ⊢
    dsimp only
    split_ifs at hflags ⊢ with hinterval
    · have hfalse : c.isStationAssociated = false := by
        have hmem : c.isStationAssociated ∈ (flags s.clients).map fun _ => false := by
          rw [hflags]
          exact List.mem_map_of_mem hc
        obtain ⟨-, -, h⟩ := List.mem_map.mp hmem
        exact h.symm
      simp [flags, hfalse]
    · simp [flags]
  rw [hspec.1, lastState, hlast]
  cases c.isStationAssociated <;> rfl

theorem flagsRight_of_leavesRight (hfork : cfg.fork = true) (hwait : cfg.waitConnection = true)
    (h : LeavesRight cfg ans s) : FlagsRight cfg ans s := by
  by_cases hresults : s.testState = .results
  · exact Or.inl hresults
  refine Or.inr ?_
  have hspec := stepTimeout_spec ans hfork hwait hresults
  cases hway : tickWay cfg ans s with
  | completes => trivial
  | early =>
      rw [hway] at hspec
      rcases h.1 with hres | ⟨-, hnot⟩
      · exact absurd (hspec.1.symm.trans hres) hresults
      · by_cases hall : StaysAssociated cfg ans s
        · exact Or.inr hall
        · exact Or.inl (hspec.1.symm.trans (hnot fun hassoc => hall (hspec.2.associated.mp hassoc)))
  | loop =>
      rw [hway] at hspec
      change (∀ b ∈ flagsAtLoop cfg s, b = false) ∨ (∀ b ∈ flagsAtLoop cfg s, b = true) ∧ _
      by_cases hcleared : ∀ b ∈ flagsAtLoop cfg s, b = false
      · exact Or.inl hcleared
      push Not at hcleared
      obtain ⟨b, hb, htrue⟩ := hcleared
      obtain rfl := Bool.eq_true_of_not_eq_false htrue
      have hflags : flagsAtLoop cfg s = flags s.clients := by
        unfold flagsAtLoop at hb ⊢
        split_ifs at hb ⊢ with hinterval
        · simp at hb
        · rfl
      obtain ⟨cs, hperm, hwaits⟩ := exists_perm_lastState hfork hwait hresults hway hflags hb
      have hstate : (stepTimeout cfg ans s).testState = .wait := (h.2 cs hperm).symm.trans hwaits
      refine Or.inr ⟨fun b' hb' => ?_, ?_⟩
      · by_contra hfalse
        obtain rfl := Bool.eq_false_iff.mpr hfalse
        obtain ⟨cs', hperm', hgoes⟩ := exists_perm_lastState hfork hwait hresults hway hflags hb'
        have := hstate.symm.trans ((h.2 cs' hperm').symm.trans hgoes)
        cases this
      · rcases h.1 with hres | ⟨hall, -⟩
        · rw [hstate] at hres
          cases hres
        · exact hspec.2.associated.mp (hall hstate)

/-- **A tick of a forked step that waits for its connections leaves it in the right state, whatever the
order of its clients, exactly when the flags of the clients are right.** -/
theorem leavesRight_iff (cfg : Cfg) (ans : TickAns) (s : St) (hfork : cfg.fork = true)
    (hwait : cfg.waitConnection = true) : LeavesRight cfg ans s ↔ FlagsRight cfg ans s :=
  ⟨flagsRight_of_leavesRight hfork hwait, leavesRight_of_flagsRight hfork hwait⟩

end Wait

section Sample

/-- A forked step that waits for its connections, on a secured network. -/
def waitingCfg : Cfg where
  executionTime := 100
  fork := true
  waitConnection := true
  isReconnectEnabled := false
  reconnectInterval := 0
  openSecurity := false
  captureFrames := true
  captureStaRequests := false
  frm80211Requested := true
  opsRequested _ := true

/-- Every call succeeds. -/
def allOk : TickAns := ⟨fun _ => true, fun _ => true, fun _ => true, fun _ => true⟩

def frameOk : FrameAns := ⟨fun _ => true, fun _ => true, fun _ => false⟩

/-- The access point disassociates the first of two clients. -/
def oneLeft : St :=
  { init waitingCfg [1, 2] [] with clients :=
      [⟨1, false, true, 0, true, none⟩, Client.connected 2] }

theorem execTo_oneLeft :
    execTo (next waitingCfg) (init waitingCfg [1, 2] []) [.frame ⟨.disassoc, false, true, 9, 1⟩ frameOk] =
      some oneLeft := by
  decide

/-- Both clients are associated. -/
theorem leavesRight_iff_connected : LeavesRight waitingCfg allOk (init waitingCfg [1, 2] []) :=
  (leavesRight_iff waitingCfg allOk _ rfl rfl).mpr (Or.inr (Or.inr ⟨by decide, fun i c hc => by
    obtain ⟨mac, -, rfl⟩ := List.mem_map.mp (List.mem_of_getElem? hc)
    exact ⟨rfl, fun hno => Bool.noConfusion hno⟩⟩))

/-- The second client is associated and the first one is not. -/
theorem not_leavesRight_oneLeft :
    ¬∀ (cfg : Cfg) (ans : TickAns) (macs : List (BitVec 48)) (profiles : List Profile) (s : St),
      cfg.fork = true → cfg.waitConnection = true →
        Run (next cfg) (fun _ _ => True) (init cfg macs profiles) s → LeavesRight cfg ans s := by
  intro hall
  have hright := hall waitingCfg allOk [1, 2] [] oneLeft rfl rfl (run_of_execTo execTo_oneLeft)
  have horder := hright.2 [Client.connected 2, ⟨1, false, true, 0, true, none⟩] (by decide)
  revert horder
  decide

/-- A deauthentication leaves the flag of its client set, and the next tick the step in `wait`. -/
example : (execTo (next waitingCfg) (init waitingCfg [1] [])
      [.frame ⟨.deauth, false, true, 9, 1⟩ frameOk, .tick allOk]).map
        (fun s => (s.testState, s.clients.map Client.standing)) =
    some (.wait, [(true, true)]) := by
  decide

end Sample

end OneWifiTestSuite.SimStaStep
