import OneWifiTestSuite.AgentJson
import OneWifiTestSuite.Steps

/-!
# Connection events of the agent's stations

`sta_connection_status` turns an event of the HAL into a notification, which comes back through the
character device and is offered to the steps until one takes it. The device hands out the newest message
first and the test has a queue of its own, so a notification can overtake another. A station step has an
address while it is connected. Both branches of `sta_connection_status` write `connected`.
`agrees_iff_meets` says for which runs every step's state is the last event of its own station, whenever no
notification of that station is on its way.
-/

namespace OneWifiTestSuite.AgentNotify

open ByteRegion AgentJson
open Steps (TestState)

/-! ### Events and steps -/

section Model

/-- `connect_status` of an event. -/
inductive ConnectStatus
  | connected
  | disconnected
  | other
deriving DecidableEq, Repr

/-- `wlan_emu_ext_wifi_sta_state_t`. -/
inductive StaState
  | connected
  | disconnected
deriving DecidableEq, Repr

/-- An event of the interface with the address `mac`: whether `get_interface_mac_from_ifindex` can read the
address, and whether the notification gets through the device. -/
structure ConnEvent where
  mac : Mac
  readable : Bool
  written : Bool
  status : ConnectStatus
deriving DecidableEq

/-- `wlan_emu_msg_type_ext_wifi_sta_notif_t`. -/
structure Notif where
  staState : StaState
  staMac : Mac
deriving DecidableEq

/-- `sta_connection_status`, as far as the notification that arrives. -/
def staConnectionStatus (e : ConnEvent) : Option Notif :=
  if e.readable = false then none
  else
    match e.status with
    | .connected => if e.written then some ⟨.connected, e.mac⟩ else none
    -- the same constant in both branches
    | .disconnected => if e.written then some ⟨.connected, e.mac⟩ else none
    | .other => none

/-- A station step. -/
structure Step where
  mac : Mac
  state : TestState
  isIpAssigned : Bool
  ipAddress : Bytes
deriving DecidableEq

/-- The DHCP client's four attempts: the first that runs, and the address it left, if any. -/
def dhcp (attempts : List (Option (Option Bytes))) : Option (Option Bytes) :=
  (attempts.take 4).findSome? id

/-- `wlan_ext_step_frame_filter` for a notification: the step, and whether it took it. -/
def frameFilter (s : Step) (n : Notif) (attempts : List (Option (Option Bytes))) : Step × Bool :=
  if s.mac = n.staMac then
    match n.staState with
    | .connected =>
        match dhcp attempts with
        | some (some ip) => ({ s with isIpAssigned := true, ipAddress := ip }, true)
        | some none => (s, true)
        | none => (if s.isIpAssigned = false then { s with state := .abort } else s, true)
    | .disconnected => ({ s with isIpAssigned := false, ipAddress := [] }, true)
  else
    (s, false)

/-- The loop of `wlan_emu_handle_agent_msg`, over the station steps in its order. -/
def notify (n : Notif) (attempts : List (Option (Option Bytes))) : List Step → List Step
  | [] => []
  | s :: steps =>
      if s.state = .cont ∨ s.state = .wait then
        match frameFilter s n attempts with
        | (s', true) => s' :: steps
        | (s', false) => s' :: notify n attempts steps
      else
        s :: notify n attempts steps

/-- The agent: the notifications on their way, and the station steps, oldest first. The last event that it
received of each station is kept beside what the code has. -/
structure State where
  device : List Notif
  steps : List Step
  last : Mac → Option ConnectStatus

inductive Move
  /-- the HAL reports an event -/
  | event (e : ConnEvent)
  /-- the notification at `k` is handled -/
  | deliver (k : ℕ) (attempts : List (Option (Option Bytes)))
  /-- a station step is executed -/
  | add (mac : Mac) (state : TestState)
  /-- timeouts and other messages change the states of steps -/
  | setStates (states : ℕ → TestState)
  /-- a new test starts -/
  | clear

def Step.setState (s : Step) (state : TestState) : Step :=
  { s with state := state }

/-- The last events after another one. -/
def record (last : Mac → Option ConnectStatus) (e : ConnEvent) : Mac → Option ConnectStatus :=
  if e.status = .other then last else Function.update last e.mac (some e.status)

def step (σ : State) : Move → State
  | .event e =>
      { σ with device := σ.device ++ (staConnectionStatus e).toList, last := record σ.last e }
  | .deliver k attempts =>
      match σ.device[k]? with
      | none => σ
      | some n => { σ with device := σ.device.eraseIdx k, steps := notify n attempts σ.steps }
  | .add mac state => { σ with steps := σ.steps ++ [⟨mac, state, false, []⟩] }
  | .setStates states => { σ with steps := σ.steps.mapIdx fun i s => Step.setState s (states i) }
  | .clear => { σ with steps := [] }

def start : State :=
  ⟨[], [], fun _ => none⟩

end Model

/-! ### Agreement -/

section Agreement

/-- A notification of the station is on its way. -/
def Waits (device : List Notif) (mac : Mac) : Prop :=
  ∃ n ∈ device, n.staMac = mac

/-- The step has an address exactly when the last event of its station was a connection. -/
def Right (last : Mac → Option ConnectStatus) (s : Step) : Prop :=
  s.isIpAssigned = true ↔ last s.mac = some .connected

/-- Every step is right when no notification of its station is on its way. -/
def Agrees (σ : State) : Prop :=
  ∀ s ∈ σ.steps, ¬ Waits σ.device s.mac → Right σ.last s

/-- A notification leaves the steps of other stations as they are. -/
def Keeps (σ : State) : Move → Prop
  | .deliver k attempts => ∀ n, σ.device[k]? = some n →
      ∀ (i : ℕ) (s : Step), σ.steps[i]? = some s → s.mac ≠ n.staMac → (step σ (.deliver k attempts)).steps[i]? = some s
  | _ => True

/-- Every state of the run agrees, and no event changes the step of another station. -/
def Holds (σ : State) : List Move → Prop
  | [] => Agrees σ
  | mv :: mvs => Agrees σ ∧ Keeps σ mv ∧ Holds (step σ mv) mvs

/-- The step that takes a notification for an address. -/
def handler (steps : List Step) (mac : Mac) : Option ℕ :=
  steps.findIdx? fun s : Step => (s.state = .cont ∨ s.state = .wait) ∧ s.mac = mac

/-- The step gets an address from a notification of the station. -/
def Connects (σ : State) (mac : Mac) (attempts : List (Option (Option Bytes))) (i : ℕ) : Prop :=
  handler σ.steps mac = some i ∧ ∃ ip, dhcp attempts = some (some ip)

/-- When the last notification of a station is handled, each of its steps has an address or gets one if the
last event was a connection, and has none and gets none otherwise. When an event without a notification is
received while none of its station is on its way, its steps are as the event says. And a step is executed
when the last event of its station was no connection, or a notification of it is on its way. -/
def Condition (σ : State) : Move → Prop
  | .deliver k attempts => ∀ n, σ.device[k]? = some n → ¬ Waits (σ.device.eraseIdx k) n.staMac →
      ∀ (i : ℕ) (s : Step), σ.steps[i]? = some s → s.mac = n.staMac →
      (σ.last n.staMac = some .connected → s.isIpAssigned = true ∨ Connects σ n.staMac attempts i) ∧
      (σ.last n.staMac ≠ some .connected → s.isIpAssigned = false ∧ ¬ Connects σ n.staMac attempts i)
  | .event e => staConnectionStatus e = none → e.status ≠ .other → ¬ Waits σ.device e.mac →
      ∀ s ∈ σ.steps, s.mac = e.mac → (s.isIpAssigned = true ↔ e.status = .connected)
  | .add mac _ => ¬ Waits σ.device mac → σ.last mac ≠ some .connected
  | _ => True

/-- Every move of the run meets the condition. -/
def Meets (σ : State) : List Move → Prop
  | [] => True
  | mv :: mvs => Condition σ mv ∧ Meets (step σ mv) mvs

end Agreement

/-! ### A notification -/

section Notification

/-- What the handler of a connection becomes. -/
def Step.connect (attempts : List (Option (Option Bytes))) (s : Step) : Step :=
  (frameFilter s ⟨.connected, s.mac⟩ attempts).1

theorem frameFilter_of_ne {s : Step} {n : Notif} (h : s.mac ≠ n.staMac) (attempts : List (Option (Option Bytes))) :
    frameFilter s n attempts = (s, false) :=
  if_neg h

theorem frameFilter_connected (s : Step) (attempts : List (Option (Option Bytes))) :
    frameFilter s ⟨.connected, s.mac⟩ attempts = (s.connect attempts, true) := by
  unfold Step.connect frameFilter
  rw [if_pos rfl]
  dsimp only
  split <;> rfl

theorem connect_mac (s : Step) (attempts : List (Option (Option Bytes))) : (s.connect attempts).mac = s.mac := by
  unfold Step.connect frameFilter
  rw [if_pos rfl]
  dsimp only
  split
  · rfl
  · rfl
  · split_ifs <;> rfl

theorem connect_isIpAssigned (s : Step) (attempts : List (Option (Option Bytes))) :
    (s.connect attempts).isIpAssigned = true ↔ s.isIpAssigned = true ∨ ∃ ip, dhcp attempts = some (some ip) := by
  unfold Step.connect frameFilter
  rw [if_pos rfl]
  dsimp only
  split
  · next ip h => simp [h]
  · next h => simp [h]
  · next h => split_ifs <;> simp [h]

/-- A notification of a connection changes the step that takes it, and no other. -/
theorem notify_getElem? (mac : Mac) (attempts : List (Option (Option Bytes))) (steps : List Step) (i : ℕ) :
    (notify ⟨.connected, mac⟩ attempts steps)[i]? =
      steps[i]?.map fun s => if handler steps mac = some i then s.connect attempts else s := by
  induction steps generalizing i with
  | nil =>
      rfl
  | cons s steps ih =>
      unfold notify
      by_cases hactive : s.state = .cont ∨ s.state = .wait
      · rw [if_pos hactive]
        by_cases hmac : s.mac = mac
        · subst hmac
          have hhandler : handler (s :: steps) s.mac = some 0 := by simp [handler, List.findIdx?_cons, hactive]
          rw [frameFilter_connected, hhandler]
          cases i with
          | zero =>
              simp
          | succ i =>
              simp
        · have hhandler : handler (s :: steps) mac = (handler steps mac).map (· + 1) := by
            simp [handler, List.findIdx?_cons, hmac]
          rw [frameFilter_of_ne hmac, hhandler]
          cases i with
          | zero =>
              simp
          | succ i =>
              simp [ih]
      · have hhandler : handler (s :: steps) mac = (handler steps mac).map (· + 1) := by
          simp [handler, List.findIdx?_cons, hactive]
        rw [if_neg hactive, hhandler]
        cases i with
        | zero =>
            simp
        | succ i =>
            simp [ih]

/-- Every notification says `connected`, with the station's own address. -/
theorem staConnectionStatus_some {e : ConnEvent} {n : Notif} (h : staConnectionStatus e = some n) :
    n = ⟨.connected, e.mac⟩ ∧ e.status ≠ .other := by
  unfold staConnectionStatus at h
  cases hr : e.readable <;> cases hw : e.written <;> cases hs : e.status <;>
    simp only [hr, hw, hs, reduceCtorEq, if_true, if_false, Bool.false_eq_true, Option.some.injEq] at h
  · exact ⟨h.symm, by decide⟩
  · exact ⟨h.symm, by decide⟩

theorem handler_mac {steps : List Step} {mac : Mac} {i : ℕ} {s : Step} (h : handler steps mac = some i)
    (hs : steps[i]? = some s) : s.mac = mac := by
  obtain ⟨hi, hp, -⟩ := List.findIdx?_eq_some_iff_getElem.mp h
  rw [List.getElem?_eq_getElem hi, Option.some.injEq] at hs
  rw [hs] at hp
  exact (of_decide_eq_true hp).2

end Notification

/-! ### Deliveries -/

section Deliveries

variable {σ : State}

/-- Every notification on its way says `connected`. -/
def Inv (σ : State) : Prop :=
  ∀ n ∈ σ.device, n.staState = .connected

/-- A step after a notification of a station. -/
def received (σ : State) (mac : Mac) (attempts : List (Option (Option Bytes))) (i : ℕ) (s : Step) : Step :=
  if handler σ.steps mac = some i then s.connect attempts else s

theorem deliver_getElem? {k : ℕ} {n : Notif} (hinv : Inv σ) (h : σ.device[k]? = some n)
    (attempts : List (Option (Option Bytes))) (i : ℕ) :
    (step σ (.deliver k attempts)).steps[i]? = σ.steps[i]?.map (received σ n.staMac attempts i) := by
  obtain ⟨staState, staMac⟩ := n
  obtain rfl : staState = .connected := hinv _ (List.mem_of_getElem? h)
  simp only [step, h]
  rw [notify_getElem?]
  rfl

theorem received_of_ne {mac : Mac} {i : ℕ} {s : Step} (hs : σ.steps[i]? = some s) (hne : s.mac ≠ mac)
    (attempts : List (Option (Option Bytes))) : received σ mac attempts i s = s :=
  if_neg fun hc => hne (handler_mac hc hs)

theorem received_mac (mac : Mac) (attempts : List (Option (Option Bytes))) (i : ℕ) (s : Step) :
    (received σ mac attempts i s).mac = s.mac := by
  unfold received
  split_ifs
  · exact connect_mac s attempts
  · rfl

theorem received_isIpAssigned (mac : Mac) (attempts : List (Option (Option Bytes))) (i : ℕ) (s : Step) :
    (received σ mac attempts i s).isIpAssigned = true ↔ s.isIpAssigned = true ∨ Connects σ mac attempts i := by
  unfold received Connects
  split_ifs with hc
  · rw [connect_isIpAssigned]
    simp [hc]
  · simp [hc]

/-- A step of the station is right afterwards exactly when the condition says so. -/
theorem right_received_iff (mac : Mac) (attempts : List (Option (Option Bytes))) (i : ℕ) {s : Step} (hmac : s.mac = mac) :
    Right σ.last (received σ mac attempts i s) ↔
      (σ.last mac = some .connected → s.isIpAssigned = true ∨ Connects σ mac attempts i) ∧
      (σ.last mac ≠ some .connected → s.isIpAssigned = false ∧ ¬ Connects σ mac attempts i) := by
  rw [Right, received_isIpAssigned, received_mac, hmac]
  by_cases hlast : σ.last mac = some .connected <;> simp [hlast]

/-- To take a notification out leaves those of other stations. -/
theorem waits_eraseIdx_of_ne {device : List Notif} {k : ℕ} {n : Notif} {mac : Mac} (h : device[k]? = some n)
    (hne : mac ≠ n.staMac) : Waits (device.eraseIdx k) mac ↔ Waits device mac := by
  obtain ⟨hk, rfl⟩ := List.getElem?_eq_some_iff.mp h
  have hperm := (List.getElem_cons_eraseIdx_perm hk).symm
  constructor
  · rintro ⟨m, hm, hmac⟩
    exact ⟨m, List.mem_of_mem_eraseIdx hm, hmac⟩
  · rintro ⟨m, hm, hmac⟩
    obtain rfl | hm := List.mem_cons.mp (hperm.mem_iff.mp hm)
    · exact absurd hmac.symm hne
    · exact ⟨m, hm, hmac⟩

theorem agrees_iff_getElem? (σ : State) :
    Agrees σ ↔ ∀ (i : ℕ) (s : Step), σ.steps[i]? = some s → ¬ Waits σ.device s.mac → Right σ.last s := by
  unfold Agrees
  constructor
  · intro h i s hs
    exact h s (List.mem_of_getElem? hs)
  · intro h s hs
    obtain ⟨i, hi⟩ := List.getElem?_of_mem hs
    exact h i s hi

/-- A notification is handled rightly exactly under the condition. -/
theorem deliver_agrees_iff (hinv : Inv σ) (h : Agrees σ) (k : ℕ) (attempts : List (Option (Option Bytes))) :
    Agrees (step σ (.deliver k attempts)) ↔ Condition σ (.deliver k attempts) := by
  cases hdev : σ.device[k]? with
  | none =>
      have hself : step σ (.deliver k attempts) = σ := by
        simp only [step, hdev]
      rw [hself]
      refine iff_of_true h ?_
      intro n hn
      rw [hdev] at hn
      cases hn
  | some n =>
      have hdevice : (step σ (.deliver k attempts)).device = σ.device.eraseIdx k := by
        simp only [step, hdev]
      have hlast : (step σ (.deliver k attempts)).last = σ.last := by
        simp only [step, hdev]
      rw [agrees_iff_getElem?, hdevice, hlast]
      rw [agrees_iff_getElem?] at h
      constructor
      · intro hafter n' hn' hwait i s hs hmac
        rw [hdev, Option.some.injEq] at hn'
        subst hn'
        refine (right_received_iff n.staMac attempts i hmac).mp (hafter i _ ?_ ?_)
        · rw [deliver_getElem? hinv hdev, hs, Option.map_some]
        · rwa [received_mac, hmac]
      · intro hcond i s' hs' hwait
        rw [deliver_getElem? hinv hdev] at hs'
        obtain ⟨s, hs, rfl⟩ := Option.map_eq_some_iff.mp hs'
        rw [received_mac] at hwait
        by_cases hmac : s.mac = n.staMac
        · rw [hmac] at hwait
          exact (right_received_iff n.staMac attempts i hmac).mpr (hcond n hdev hwait i s hs hmac)
        · rw [received_of_ne hs hmac]
          exact h i s hs fun hw => hwait ((waits_eraseIdx_of_ne hdev hmac).mpr hw)

/-- A notification that is sent is one of the event's station. -/
theorem waits_of_event {e : ConnEvent} (hn : staConnectionStatus e ≠ none) :
    Waits (step σ (.event e)).device e.mac := by
  obtain ⟨n, hn⟩ := Option.ne_none_iff_exists'.mp hn
  obtain ⟨rfl, -⟩ := staConnectionStatus_some hn
  exact ⟨⟨.connected, e.mac⟩, List.mem_append_right _ (by rw [hn]; simp), rfl⟩

theorem waits_event_of_ne {e : ConnEvent} {mac : Mac} (hne : mac ≠ e.mac) :
    Waits (step σ (.event e)).device mac ↔ Waits σ.device mac := by
  unfold Waits step
  dsimp only
  constructor
  · rintro ⟨n, hn, hmac⟩
    obtain hn | hn := List.mem_append.mp hn
    · exact ⟨n, hn, hmac⟩
    · obtain ⟨rfl, -⟩ := staConnectionStatus_some (Option.mem_toList.mp hn)
      exact absurd hmac.symm hne
  · rintro ⟨n, hn, hmac⟩
    exact ⟨n, List.mem_append_left _ hn, hmac⟩

theorem record_of_ne {last : Mac → Option ConnectStatus} {e : ConnEvent} {mac : Mac} (hne : mac ≠ e.mac) :
    record last e mac = last mac := by
  unfold record
  split_ifs
  · rfl
  · exact Function.update_of_ne hne _ _

/-- An event is received rightly exactly under the condition. -/
theorem event_agrees_iff (h : Agrees σ) (e : ConnEvent) : Agrees (step σ (.event e)) ↔ Condition σ (.event e) := by
  have hother : ∀ s ∈ σ.steps, s.mac ≠ e.mac → ¬ Waits (step σ (.event e)).device s.mac →
      Right (step σ (.event e)).last s := by
    intro s hs hne hwait
    have hright := h s hs fun hw => hwait ((waits_event_of_ne hne).mpr hw)
    unfold Right at hright ⊢
    rwa [show (step σ (.event e)).last s.mac = σ.last s.mac from record_of_ne hne]
  by_cases hn : staConnectionStatus e = none
  · have hdevice : (step σ (.event e)).device = σ.device := by
      simp [step, hn]
    by_cases hstatus : e.status = .other
    · refine iff_of_true (fun s hs hwait => ?_) fun _ hno => absurd hstatus hno
      have hlast : (step σ (.event e)).last = σ.last := if_pos hstatus
      rw [hdevice] at hwait
      rw [hlast]
      exact h s hs hwait
    · have hlast : (step σ (.event e)).last e.mac = some e.status := by
        rw [show (step σ (.event e)).last = record σ.last e from rfl, record, if_neg hstatus, Function.update_self]
      constructor
      · intro hafter _ _ hwait s hs hmac
        have hright := hafter s hs (by rwa [hdevice, hmac])
        rw [Right, hmac, hlast, Option.some.injEq] at hright
        exact hright
      · intro hcond s hs hwait
        by_cases hmac : s.mac = e.mac
        · rw [hdevice, hmac] at hwait
          rw [Right, hmac, hlast, Option.some.injEq]
          exact hcond hn hstatus hwait s hs hmac
        · exact hother s hs hmac hwait
  · refine iff_of_true (fun s hs hwait => ?_) fun hno => absurd hno hn
    by_cases hmac : s.mac = e.mac
    · exact absurd (hmac ▸ waits_of_event hn) hwait
    · exact hother s hs hmac hwait

theorem keeps_of_inv (hinv : Inv σ) (mv : Move) : Keeps σ mv := by
  cases mv with
  | deliver k attempts =>
      intro n hn i s hs hne
      rw [deliver_getElem? hinv hn, hs, Option.map_some, received_of_ne hs hne]
  | _ =>
      exact trivial

theorem Inv.step (hinv : Inv σ) (mv : Move) : Inv (step σ mv) := by
  cases mv with
  | event e =>
      intro n hn
      obtain hn | hn := List.mem_append.mp hn
      · exact hinv n hn
      · obtain ⟨rfl, -⟩ := staConnectionStatus_some (Option.mem_toList.mp hn)
        rfl
  | deliver k attempts =>
      intro n hn
      cases hd : σ.device[k]? with
      | none =>
          simp only [AgentNotify.step, hd] at hn
          exact hinv n hn
      | some m =>
          simp only [AgentNotify.step, hd] at hn
          exact hinv n (List.mem_of_mem_eraseIdx hn)
  | _ =>
      exact hinv

/-- **The step lemma**: a move leaves every step right exactly under the condition. -/
theorem agrees_step_iff (hinv : Inv σ) (h : Agrees σ) (mv : Move) : Agrees (step σ mv) ↔ Condition σ mv := by
  cases mv with
  | deliver k attempts =>
      exact deliver_agrees_iff hinv h k attempts
  | event e =>
      exact event_agrees_iff h e
  | add mac state =>
      constructor
      · intro hafter hwait hlast
        have hright := hafter ⟨mac, state, false, []⟩ (List.mem_append_right _ (List.mem_singleton_self _)) hwait
        exact absurd (hright.mpr hlast) Bool.false_ne_true
      · intro hcond s hs hwait
        obtain hs | hs := List.mem_append.mp hs
        · exact h s hs hwait
        · rw [List.mem_singleton.mp hs] at hwait ⊢
          exact iff_of_false Bool.false_ne_true (hcond hwait)
  | setStates states =>
      refine iff_of_true (fun s hs hwait => ?_) trivial
      obtain ⟨i, hi, rfl⟩ := List.mem_mapIdx.mp hs
      exact h σ.steps[i] (List.getElem_mem hi) hwait
  | clear =>
      exact iff_of_true (fun s hs => by cases hs) trivial

end Deliveries

/-! ### Runs -/

section Runs

variable {σ : State}

theorem Holds.agrees {mvs : List Move} (h : Holds σ mvs) : Agrees σ := by
  cases mvs with
  | nil =>
      exact h
  | cons mv mvs =>
      exact h.1

theorem holds_iff (hinv : Inv σ) (h : Agrees σ) (mvs : List Move) : Holds σ mvs ↔ Meets σ mvs := by
  induction mvs generalizing σ with
  | nil =>
      exact iff_of_true h trivial
  | cons mv mvs ih =>
      have hstep := agrees_step_iff hinv h mv
      constructor
      · rintro ⟨-, -, hrest⟩
        exact ⟨hstep.mp hrest.agrees, (ih (hinv.step mv) hrest.agrees).mp hrest⟩
      · rintro ⟨hcond, hrest⟩
        have hafter := hstep.mpr hcond
        exact ⟨h, keeps_of_inv hinv mv, (ih (hinv.step mv) hafter).mpr hrest⟩

/-- **Connection events**: in a run every station step's state is the last event of its own station, whenever
no notification of it is on its way, and no event of another station changes it, exactly when every event is
received and handled under the condition. -/
theorem agrees_iff_meets (mvs : List Move) : Holds start mvs ↔ Meets start mvs :=
  holds_iff (fun x hx => by cases hx) (fun s hs => by cases hs) mvs

/-- The station of the step. -/
def station : Mac :=
  macOf 2 0 0 0 0 1

/-- The station connects, gets an address, and disconnects. -/
def disconnectRun : List Move :=
  [.add station .cont, .event ⟨station, true, true, .connected⟩, .deliver 0 [some (some (text "10.0.0.3"))],
    .event ⟨station, true, true, .disconnected⟩, .deliver 0 [some (some (text "10.0.0.3"))]]

/-- After the disconnection the step still has its address. -/
theorem not_holds_disconnect : ¬ Holds start disconnectRun := by
  rintro ⟨-, -, -, -, -, -, -, -, -, -, h⟩
  have hright := (h ⟨station, .cont, true, text "10.0.0.3"⟩ (by decide +kernel) (by rintro ⟨n, ⟨⟩, -⟩)).mp rfl
  revert hright
  decide +kernel

end Runs

end OneWifiTestSuite.AgentNotify
