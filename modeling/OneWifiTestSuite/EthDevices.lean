import OneWifiTestSuite.ExtStaMgr
import OneWifiTestSuite.Runs
import OneWifiTestSuite.Steps

/-!
# The Ethernet devices of the agents

A step of type `eth_lan_client` takes the first free Ethernet device of all agents, keeps a copy of it with the
text of its address as key, and every later call looks the agent up by that key: the commands to the agent, the
polls, and `remove_eth_intf`, which frees the device.

`pool_of_run`: over every order of executions, polls and removals the devices in use are those that were in use
at first and those that a live step holds, no two steps hold the same device, every command goes to the agent of
the step's own device, and a removal gives back that device and no other.
-/

namespace OneWifiTestSuite.EthDevices

open ByteRegion AgentJson AgentCapability
open Steps (TestState)
open ExtStaMgr (modify_append_length)
open Runs (Run run_invariant)

/-! ### Lists with distinct keys -/

section Keyed

variable {α κ : Type*} {key : α → κ}

/-- Among distinct keys, the element in the middle is the only one with its key. -/
theorem forall_ne_of_nodup {front back : List α} {a : α} (h : ((front ++ a :: back).map key).Nodup) :
    ∀ x ∈ front ++ back, key x ≠ key a := by
  rw [List.map_append, List.map_cons, List.nodup_middle, List.nodup_cons, ← List.map_append] at h
  intro x hx heq
  exact h.1 (heq ▸ List.mem_map_of_mem hx)

/-- Counting by cases. -/
theorem countP_and_add_countP_and_not (p q : α → Prop) [DecidablePred p] [DecidablePred q] (as : List α) :
    as.countP (fun a => p a ∧ q a) + as.countP (fun a => p a ∧ ¬ q a) = as.countP fun a => p a := by
  rw [List.countP_eq_countP_filter_add as (fun a => p a) (fun a => q a), List.countP_filter, List.countP_filter]
  simp

variable [DecidableEq κ] (key)

/-- `f` at the elements with the key `k`. -/
def atKey (k : κ) (f : α → α) (a : α) : α :=
  if key a = k then f a else a

variable {key} {k : κ} {f : α → α}

theorem map_at_of_forall_ne {as : List α} (h : ∀ a ∈ as, key a ≠ k) : as.map (atKey key k f) = as :=
  (List.map_congr_left fun a ha => if_neg (h a ha)).trans (List.map_id as)

theorem map_map_at_of_forall_ne {rows : List (List α)} (h : ∀ a ∈ rows.flatten, key a ≠ k) :
    rows.map (List.map (atKey key k f)) = rows := by
  refine (List.map_congr_left fun as has => ?_).trans (List.map_id rows)
  exact map_at_of_forall_ne fun a ha => h a (List.mem_flatten.mpr ⟨as, has, ha⟩)

/-- Writing the element in the middle is writing at its key. -/
theorem map_at {pre post : List α} {a : α} (h : ((pre ++ a :: post).map key).Nodup) :
    (pre ++ a :: post).map (atKey key (key a) f) = pre ++ f a :: post := by
  have hne := forall_ne_of_nodup h
  have hpre : pre.map (atKey key (key a) f) = pre :=
    map_at_of_forall_ne fun x hx => hne x (List.mem_append_left _ hx)
  have hpost : post.map (atKey key (key a) f) = post :=
    map_at_of_forall_ne fun x hx => hne x (List.mem_append_right _ hx)
  rw [List.map_append, List.map_cons, hpre, hpost, atKey, if_pos rfl]

/-- The same in the row in the middle of others. -/
theorem map_map_at {front back : List (List α)} {pre post : List α} {a : α}
    (h : (((front ++ (pre ++ a :: post) :: back).flatten).map key).Nodup) :
    (front ++ (pre ++ a :: post) :: back).map (List.map (atKey key (key a) f)) =
      front ++ (pre ++ f a :: post) :: back := by
  have hne : ∀ x ∈ (front.flatten ++ pre) ++ (post ++ back.flatten), key x ≠ key a := by
    refine forall_ne_of_nodup ?_
    simpa using h
  have hfront : front.map (List.map (atKey key (key a) f)) = front :=
    map_map_at_of_forall_ne fun x hx => hne x (by simp only [List.mem_append]; tauto)
  have hback : back.map (List.map (atKey key (key a) f)) = back :=
    map_map_at_of_forall_ne fun x hx => hne x (by simp only [List.mem_append]; tauto)
  have hrow : ((pre ++ a :: post).map key).Nodup := by
    rw [List.flatten_append, List.flatten_cons, List.map_append, List.map_append] at h
    exact (List.nodup_append.mp (List.nodup_append.mp h).2.1).1
  rw [List.map_append, List.map_cons, hfront, hback, map_at hrow]

end Keyed

/-! ### The calls -/

section Calls

/-- `eth_interface_state_in_use`. -/
def ethStateInUse : BitVec 32 := 1

def setState (state : BitVec 32) (d : EthDev) : EthDev :=
  { d with state := state }

/-- A step of type `eth_lan_client`: its `eth_lan_interface_t`, and what `step_execute` sets of the step. -/
structure EthLanClient where
  ethDevInfo : EthDev
  key : Bytes
  duration : ℤ
  fork : Bool
  executionTime : ℤ
  testState : TestState

/-- The `eth_client_interfaces` of the agents in map order (a missing queue counts 0), the steps, and those that
took a device and were not removed. -/
structure State where
  agents : List (List EthDev)
  steps : ℕ → EthLanClient
  live : List ℕ

/-- What the gateway sends to an agent. -/
inductive Command
  | start
  | status
  | testconfig
  | download
  | stop
deriving DecidableEq

/-- What `step_execute` gets from the encoder, the agent and the files. -/
structure Answers where
  encode : Bool
  startCommand : Bool
  testStatus : Bool
  fopen : Bool
  fwrite : Bool
  postFile : Bool

/-- What a poll gets: whether a status comes, whether the agent is in the state fail, the name of the interface and
the address that the private data of the step's entry give (if they can be parsed), and whether there are result
files to download. -/
structure Reply where
  status : Bool
  failed : Bool
  privateData : Option (Bytes × Option Bytes)
  results : Bool

/-- The inner loop of `find_first_free_eth_dev`: the device, and the queue with the device in use. -/
def markFirstFree : List EthDev → Option (EthDev × List EthDev)
  | [] => none
  | d :: ds =>
      if d.state = ethStateFree then some (setState ethStateInUse d, setState ethStateInUse d :: ds)
      else (markFirstFree ds).map fun found => (found.1, d :: found.2)

/-- `find_first_free_eth_dev`, whose agent is not used by its caller. -/
def findFirstFreeEthDev : List (List EthDev) → Option (EthDev × List (List EthDev))
  | [] => none
  | ds :: agents =>
      match markFirstFree ds with
      | some found => some (found.1, found.2 :: agents)
      | none => (findFirstFreeEthDev agents).map fun found => (found.1, ds :: found.2)

variable (macs : MacLib)

/-- `get_ext_agent_from_eth_dev_mac`. -/
def getExtAgentFromEthDevMac (agents : List (List EthDev)) (key : Bytes) : Option ℕ :=
  agents.findIdx? fun ds => ds.any fun d => d.mac = macs.read key

/-- `add_eth_lan_device`: the commands, and whether it succeeded. -/
def addEthLanDevice (agents : List (List EthDev)) (key : Bytes) (o : Answers) : List (ℕ × Command) × Bool :=
  match getExtAgentFromEthDevMac macs agents key with
  | none => ([], false)
  | some i =>
      if o.startCommand = false then ([(i, .start)], false)
      else if o.testStatus = false then ([(i, .start), (i, .status), (i, .stop)], false)
      else if o.fopen = false then ([(i, .start), (i, .status), (i, .stop)], false)
      else if o.fwrite = false then ([(i, .start), (i, .status), (i, .stop)], false)
      else if o.postFile = false then ([(i, .start), (i, .status), (i, .testconfig), (i, .stop)], false)
      else ([(i, .start), (i, .status), (i, .testconfig)], true)

/-- The step once it has its device; `is_ip_assigned` is not copied. -/
def EthLanClient.take (c : EthLanClient) (d : EthDev) : EthLanClient :=
  { c with
    ethDevInfo := { d with isIpAssigned := c.ethDevInfo.isIpAssigned }
    executionTime := c.duration
    key := macs.print d.mac }

/-- The end of `step_execute`. -/
def EthLanClient.goOn (c : EthLanClient) : EthLanClient :=
  { c with testState := if c.fork = true ∧ c.ethDevInfo.isIpAssigned = true then .wait else .cont }

/-- `step_execute` of the step `s`: the state, the commands and whether it succeeded. -/
def stepExecute (σ : State) (s : ℕ) (o : Answers) : State × List (ℕ × Command) × Bool :=
  match findFirstFreeEthDev σ.agents with
  | none => (σ, [], false)
  | some (d, agents) =>
      let c := (σ.steps s).take macs d
      if o.encode = false then (⟨agents, Function.update σ.steps s c, s :: σ.live⟩, [], false)
      else
        match addEthLanDevice macs agents c.key o with
        | (sent, false) => (⟨agents, Function.update σ.steps s c, s :: σ.live⟩, sent, false)
        | (sent, true) => (⟨agents, Function.update σ.steps s c.goOn, s :: σ.live⟩, sent, true)

/-- The loop of `remove_eth_intf`. -/
def freeFirst (mac : Mac) : List EthDev → List EthDev
  | [] => []
  | d :: ds => if d.mac = mac then setState ethStateFree d :: ds else d :: freeFirst mac ds

/-- `step_remove` of the step `s`, with `remove_eth_intf`. -/
def stepRemove (σ : State) (s : ℕ) : State × List (ℕ × Command) :=
  let live := σ.live.filter (· ≠ s)
  match getExtAgentFromEthDevMac macs σ.agents (σ.steps s).key with
  | none => ({ σ with live := live }, [])
  | some i =>
      ({ σ with agents := σ.agents.modify i (freeFirst (σ.steps s).ethDevInfo.mac), live := live }, [(i, .stop)])

/-- `parse_step_private_data`. -/
def EthLanClient.parse (c : EthLanClient) : Option (Bytes × Option Bytes) → EthLanClient
  | none => c
  | some (name, none) => { c with ethDevInfo := { c.ethDevInfo with interfaceName := name } }
  | some (name, some ip) =>
      { c with ethDevInfo := { c.ethDevInfo with interfaceName := name, isIpAssigned := true, ipAddress := ip } }

/-- `step_timeout` of the step `s`: the state, but for that of the test, and the commands. -/
def stepTimeout (σ : State) (s : ℕ) (r : Reply) : State × List (ℕ × Command) :=
  match getExtAgentFromEthDevMac macs σ.agents (σ.steps s).key with
  | none => (σ, [])
  | some i =>
      if r.status = false then (σ, [(i, .status)])
      else if r.failed = true then (σ, [(i, .status), (i, .stop)])
      else
        ({ σ with steps := Function.update σ.steps s ((σ.steps s).parse r.privateData) },
          if r.results = true then [(i, .status), (i, .download)] else [(i, .status)])

inductive Call
  | execute (s : ℕ) (o : Answers)
  | poll (s : ℕ) (r : Reply)
  | remove (s : ℕ)

/-- The step that a call is made for. -/
def Call.subject : Call → ℕ
  | .execute s _ | .poll s _ | .remove s => s

def after (σ : State) : Call → State
  | .execute s o => (stepExecute macs σ s o).1
  | .poll s r => (stepTimeout macs σ s r).1
  | .remove s => (stepRemove macs σ s).1

def sent (σ : State) : Call → List (ℕ × Command)
  | .execute s o => (stepExecute macs σ s o).2.1
  | .poll s r => (stepTimeout macs σ s r).2
  | .remove s => (stepRemove macs σ s).2

def next (σ : State) (call : Call) : Option State :=
  some (after macs σ call)

/-- Before the first step. -/
def start (agents : List (List EthDev)) (steps : ℕ → EthLanClient) : State :=
  ⟨agents, steps, []⟩

end Calls

/-! ### The pool -/

section Pool

def State.mac (σ : State) (s : ℕ) : Mac :=
  (σ.steps s).ethDevInfo.mac

/-- The addresses that the live steps have. -/
def State.held (σ : State) : List Mac :=
  σ.live.map σ.mac

/-- A device of the pool when the devices with these addresses are taken. -/
def mark (held : List Mac) (d : EthDev) : EthDev :=
  if d.mac ∈ held then setState ethStateInUse d else d

variable (macs : MacLib) (agents : List (List EthDev))

/-- A live step has a device that was free at first. -/
structure Holds (c : EthLanClient) (d : EthDev) : Prop where
  mem : d ∈ agents.flatten
  free : d.state = ethStateFree
  mac : c.ethDevInfo.mac = d.mac
  key : c.key = macs.print d.mac

/-- Who has which device, against the devices at first. -/
structure Owned (σ : State) : Prop where
  agents_eq : σ.agents = agents.map (List.map (mark σ.held))
  own : ∀ s ∈ σ.live, ∃ d, Holds macs agents (σ.steps s) d
  alone : σ.held.Nodup

/-- A step is executed while it is not live and polled while it is; a step that never got a device is removed with a
key that names none. -/
def Condition (σ : State) : Call → Prop
  | .execute s _ => s ∉ σ.live
  | .poll s _ => s ∈ σ.live
  | .remove s => s ∈ σ.live ∨ ∀ d ∈ σ.agents.flatten, d.mac ≠ macs.read (σ.steps s).key

/-- What the pool promises in a state. -/
structure Kept (σ : State) : Prop where
  /-- A device is in use for a live step, or as it was at first. -/
  in_use : σ.agents = agents.map (List.map (mark σ.held))
  /-- Two live steps have two devices. -/
  alone : ∀ s ∈ σ.live, ∀ t ∈ σ.live, σ.mac s = σ.mac t → s = t
  /-- No device is lost. -/
  conserved : σ.live.length + σ.agents.flatten.countP (fun d => d.state = ethStateFree) =
    agents.flatten.countP fun d => d.state = ethStateFree
  /-- A step that is executed gets a device as long as one is free. -/
  served : ∀ s o, s ∉ σ.live →
    (s ∈ (stepExecute macs σ s o).1.live ↔ ∃ d ∈ σ.agents.flatten, d.state = ethStateFree)
  /-- A step that has no address yet goes on at once when it succeeds, whether it is forked or not. -/
  goes_on : ∀ s o, (σ.steps s).ethDevInfo.isIpAssigned = false → (stepExecute macs σ s o).2.2 = true →
    ((stepExecute macs σ s o).1.steps s).testState = .cont
  /-- Commands are sent to the agent of the step's own device. -/
  sent_own : ∀ call, Condition macs σ call → ∀ c ∈ sent macs σ call,
    ∃ ds, agents[c.1]? = some ds ∧ ∃ d ∈ ds, d.mac = (after macs σ call).mac call.subject
  /-- A removal gives back the step's device, and that one only. -/
  gives_back : ∀ s ∈ σ.live, (stepRemove macs σ s).1.agents =
    σ.agents.map (List.map (atKey EthDev.mac (σ.mac s) (setState ethStateFree)))

end Pool

/-! ### The lookups -/

section Lookups

@[simp]
theorem setState_mac (state : BitVec 32) (d : EthDev) : (setState state d).mac = d.mac := rfl

@[simp]
theorem mark_mac (held : List Mac) (d : EthDev) : (mark held d).mac = d.mac := by
  unfold mark
  split_ifs <;> rfl

theorem map_mark_mac (held : List Mac) (agents : List (List EthDev)) :
    (agents.map (List.map (mark held))).flatten.map EthDev.mac = agents.flatten.map EthDev.mac := by
  rw [← List.map_flatten, List.map_map]
  exact List.map_congr_left fun d _ => mark_mac held d

theorem markFirstFree_spec {ds : List EthDev} {found : EthDev × List EthDev} (h : markFirstFree ds = some found) :
    ∃ pre d post, ds = pre ++ d :: post ∧ d.state = ethStateFree ∧
      found = (setState ethStateInUse d, pre ++ setState ethStateInUse d :: post) := by
  induction ds generalizing found with
  | nil =>
      cases h
  | cons d ds ih =>
      unfold markFirstFree at h
      split_ifs at h with hfree
      · cases h
        exact ⟨[], d, ds, rfl, hfree, rfl⟩
      · obtain ⟨found', h', rfl⟩ := Option.map_eq_some_iff.mp h
        obtain ⟨pre, x, post, rfl, hx, rfl⟩ := ih h'
        exact ⟨d :: pre, x, post, rfl, hx, rfl⟩

theorem markFirstFree_eq_none {ds : List EthDev} (h : markFirstFree ds = none) : ∀ d ∈ ds, d.state ≠ ethStateFree := by
  induction ds with
  | nil =>
      simp
  | cons d ds ih =>
      unfold markFirstFree at h
      split_ifs at h with hfree
      exact List.forall_mem_cons.mpr ⟨hfree, ih (Option.map_eq_none_iff.mp h)⟩

theorem findFirstFreeEthDev_spec {agents : List (List EthDev)} {found : EthDev × List (List EthDev)}
    (h : findFirstFreeEthDev agents = some found) :
    ∃ front pre d post back, agents = front ++ (pre ++ d :: post) :: back ∧ d.state = ethStateFree ∧
      found = (setState ethStateInUse d, front ++ (pre ++ setState ethStateInUse d :: post) :: back) := by
  induction agents generalizing found with
  | nil =>
      cases h
  | cons ds agents ih =>
      unfold findFirstFreeEthDev at h
      cases hmark : markFirstFree ds with
      | some found' =>
          rw [hmark] at h
          cases h
          obtain ⟨pre, d, post, rfl, hd, rfl⟩ := markFirstFree_spec hmark
          exact ⟨[], pre, d, post, agents, rfl, hd, rfl⟩
      | none =>
          rw [hmark] at h
          obtain ⟨found', h', rfl⟩ := Option.map_eq_some_iff.mp h
          obtain ⟨front, pre, d, post, back, rfl, hd, rfl⟩ := ih h'
          exact ⟨ds :: front, pre, d, post, back, rfl, hd, rfl⟩

theorem findFirstFreeEthDev_eq_none {agents : List (List EthDev)} (h : findFirstFreeEthDev agents = none) :
    ∀ d ∈ agents.flatten, d.state ≠ ethStateFree := by
  induction agents with
  | nil =>
      simp
  | cons ds agents ih =>
      unfold findFirstFreeEthDev at h
      cases hmark : markFirstFree ds with
      | some found =>
          rw [hmark] at h
          cases h
      | none =>
          rw [hmark] at h
          intro d hd
          rcases List.mem_append.mp hd with hd | hd
          · exact markFirstFree_eq_none hmark d hd
          · exact ih (Option.map_eq_none_iff.mp h) d hd

variable {macs : MacLib} {agents : List (List EthDev)}

/-- The agent that is found has a device with the address of the key. -/
theorem getExtAgent_some {key : Bytes} {i : ℕ} (h : getExtAgentFromEthDevMac macs agents key = some i) :
    ∃ front ds back, agents = front ++ ds :: back ∧ front.length = i ∧ ∃ d ∈ ds, d.mac = macs.read key := by
  obtain ⟨hi, hany, -⟩ := List.findIdx?_eq_some_iff_getElem.mp h
  obtain ⟨front, ds, back, heq, hlen, -⟩ := List.exists_of_modify id hi
  refine ⟨front, ds, back, heq, hlen, ?_⟩
  have hds : agents[i] = ds := by
    subst hlen
    simp [heq]
  rw [hds] at hany
  simpa using hany

theorem getExtAgent_none {key : Bytes} (h : getExtAgentFromEthDevMac macs agents key = none) :
    ∀ d ∈ agents.flatten, d.mac ≠ macs.read key := by
  intro d hd hmac
  obtain ⟨ds, hds, hdds⟩ := List.mem_flatten.mp hd
  have hnone := List.findIdx?_eq_none_iff.mp h ds hds
  rw [List.any_eq_false] at hnone
  exact hnone d hdds (by simpa using hmac)

/-- The loop writes at the address, if no two devices of the queue have it. -/
theorem freeFirst_eq {m : Mac} {ds : List EthDev} (h : (ds.map EthDev.mac).Nodup) :
    freeFirst m ds = ds.map (atKey EthDev.mac m (setState ethStateFree)) := by
  induction ds with
  | nil =>
      rfl
  | cons d ds ih =>
      rw [List.map_cons, List.nodup_cons] at h
      unfold freeFirst
      by_cases hd : d.mac = m
      · have hrest : ∀ x ∈ ds, x.mac ≠ m := by
          rintro x hx rfl
          exact h.1 (hd ▸ List.mem_map_of_mem hx)
        rw [if_pos hd, List.map_cons, map_at_of_forall_ne hrest, atKey, if_pos hd]
      · rw [if_neg hd, List.map_cons, ih h.2, atKey, if_neg hd]

end Lookups

/-! ### One call -/

section Calls

variable {macs : MacLib} {agents : List (List EthDev)} {σ : State}

theorem mark_cons (held : List Mac) (m : Mac) (d : EthDev) :
    mark (m :: held) d = atKey EthDev.mac m (setState ethStateInUse) (mark held d) := by
  unfold atKey
  rw [mark_mac]
  unfold mark
  by_cases hd : d.mac = m
  · rw [if_pos hd, if_pos (by simp [hd])]
    split_ifs <;> rfl
  · simp [hd]

theorem Owned.nodup (h : Owned macs agents σ) (hmac : (agents.flatten.map EthDev.mac).Nodup) :
    (σ.agents.flatten.map EthDev.mac).Nodup := by
  rw [h.agents_eq, map_mark_mac]
  exact hmac

/-- A free device of the pool was free at first, and nobody holds it. -/
theorem Owned.of_free (h : Owned macs agents σ) {x : EthDev} (hx : x ∈ σ.agents.flatten)
    (hfree : x.state = ethStateFree) : x ∈ agents.flatten ∧ x.mac ∉ σ.held := by
  rw [h.agents_eq, ← List.map_flatten] at hx
  obtain ⟨d, hd, rfl⟩ := List.mem_map.mp hx
  by_cases hheld : d.mac ∈ σ.held
  · rw [mark, if_pos hheld] at hfree
    exact absurd hfree (show ethStateInUse ≠ ethStateFree by decide)
  · rw [mark, if_neg hheld]
    exact ⟨hd, hheld⟩

/-- What `find_first_free_eth_dev` finds, against the devices at first. -/
theorem Owned.find_some (h : Owned macs agents σ) (hmac : (agents.flatten.map EthDev.mac).Nodup)
    {found : EthDev × List (List EthDev)} (hfind : findFirstFreeEthDev σ.agents = some found) :
    ∃ d ∈ agents.flatten, d.state = ethStateFree ∧ d.mac ∉ σ.held ∧
      found = (setState ethStateInUse d, agents.map (List.map (mark (d.mac :: σ.held)))) := by
  have hnodup := h.nodup hmac
  obtain ⟨front, pre, x, post, back, heq, hfree, rfl⟩ := findFirstFreeEthDev_spec hfind
  have hx : x ∈ σ.agents.flatten := by simp [heq]
  obtain ⟨hmem, hheld⟩ := h.of_free hx hfree
  refine ⟨x, hmem, hfree, hheld, Prod.ext rfl ?_⟩
  rw [heq] at hnodup
  have hwrite := map_map_at (f := setState ethStateInUse) hnodup
  rw [← heq, h.agents_eq, List.map_map] at hwrite
  rw [← hwrite]
  refine List.map_congr_left fun ds _ => ?_
  rw [Function.comp_apply, List.map_map]
  exact List.map_congr_left fun d _ => (mark_cons σ.held x.mac d).symm

/-- A step that takes a free device. -/
theorem Owned.take (h : Owned macs agents σ) {s : ℕ} (hs : s ∉ σ.live) {c : EthLanClient} {d : EthDev}
    (hheld : d.mac ∉ σ.held) (hc : Holds macs agents c d) :
    Owned macs agents ⟨agents.map (List.map (mark (d.mac :: σ.held))), Function.update σ.steps s c, s :: σ.live⟩ := by
  have hsteps : ∀ t ∈ σ.live, Function.update σ.steps s c t = σ.steps t := by
    rintro t ht
    refine Function.update_of_ne ?_ c σ.steps
    rintro rfl
    exact hs ht
  have hself : Function.update σ.steps s c s = c := Function.update_self s c σ.steps
  have hheld' : (State.mk (agents.map (List.map (mark (d.mac :: σ.held)))) (Function.update σ.steps s c)
      (s :: σ.live)).held = d.mac :: σ.held := by
    unfold State.held
    rw [List.map_cons]
    congr 1
    · show (Function.update σ.steps s c s).ethDevInfo.mac = d.mac
      rw [hself]
      exact hc.mac
    · refine List.map_congr_left fun t ht => ?_
      show (Function.update σ.steps s c t).ethDevInfo.mac = σ.mac t
      rw [hsteps t ht]
      rfl
  refine ⟨by rw [hheld'], fun t ht => ?_, ?_⟩
  · show ∃ d', Holds macs agents (Function.update σ.steps s c t) d'
    rcases List.mem_cons.mp ht with rfl | ht
    · rw [hself]
      exact ⟨d, hc⟩
    · rw [hsteps t ht]
      exact h.own t ht
  · rw [hheld']
    exact List.nodup_cons.mpr ⟨hheld, h.alone⟩

/-- All commands of `add_eth_lan_device` go to the agent that the key names. -/
theorem addEthLanDevice_sent (agents : List (List EthDev)) (key : Bytes) (o : Answers) :
    ∀ c ∈ (addEthLanDevice macs agents key o).1, getExtAgentFromEthDevMac macs agents key = some c.1 := by
  unfold addEthLanDevice
  cases getExtAgentFromEthDevMac macs agents key with
  | none =>
      simp
  | some i =>
      dsimp only
      split_ifs <;> simp

/-- Everything that `step_execute` does once it has a device. -/
structure Executed (macs : MacLib) (σ : State) (s : ℕ) (o : Answers) (found : EthDev × List (List EthDev))
    (c : EthLanClient) : Prop where
  state : (stepExecute macs σ s o).1 = ⟨found.2, Function.update σ.steps s c, s :: σ.live⟩
  info : c.ethDevInfo = { found.1 with isIpAssigned := (σ.steps s).ethDevInfo.isIpAssigned }
  key : c.key = macs.print found.1.mac
  sent : ∀ e ∈ (stepExecute macs σ s o).2.1, getExtAgentFromEthDevMac macs found.2 c.key = some e.1
  goes_on : (stepExecute macs σ s o).2.2 = true → (σ.steps s).ethDevInfo.isIpAssigned = false → c.testState = .cont

theorem stepExecute_none {s : ℕ} {o : Answers} (hfind : findFirstFreeEthDev σ.agents = none) :
    stepExecute macs σ s o = (σ, [], false) := by
  simp [stepExecute, hfind]

theorem stepExecute_some {s : ℕ} {o : Answers} {found : EthDev × List (List EthDev)}
    (hfind : findFirstFreeEthDev σ.agents = some found) : ∃ c, Executed macs σ s o found c := by
  obtain ⟨d, agents⟩ := found
  by_cases hencode : o.encode = false
  · have heq : stepExecute macs σ s o =
        (⟨agents, Function.update σ.steps s ((σ.steps s).take macs d), s :: σ.live⟩, [], false) := by
      simp [stepExecute, hfind, hencode]
    exact ⟨(σ.steps s).take macs d, by rw [heq], rfl, rfl, by simp [heq], by simp [heq]⟩
  · cases hadd : addEthLanDevice macs agents ((σ.steps s).take macs d).key o with
    | mk commands ok =>
        have hsent : ∀ c ∈ (addEthLanDevice macs agents ((σ.steps s).take macs d).key o).1,
            getExtAgentFromEthDevMac macs agents ((σ.steps s).take macs d).key = some c.1 :=
          addEthLanDevice_sent agents ((σ.steps s).take macs d).key o
        rw [hadd] at hsent
        cases ok with
        | false =>
            have heq : stepExecute macs σ s o =
                (⟨agents, Function.update σ.steps s ((σ.steps s).take macs d), s :: σ.live⟩, commands, false) := by
              simp [stepExecute, hfind, hencode, hadd]
            exact ⟨(σ.steps s).take macs d, by rw [heq], rfl, rfl, by rw [heq]; exact hsent, by simp [heq]⟩
        | true =>
            have heq : stepExecute macs σ s o =
                (⟨agents, Function.update σ.steps s ((σ.steps s).take macs d).goOn, s :: σ.live⟩, commands, true) := by
              simp [stepExecute, hfind, hencode, hadd]
            refine ⟨((σ.steps s).take macs d).goOn, by rw [heq], rfl, rfl, by rw [heq]; exact hsent, fun _ hip => ?_⟩
            have hip' : ((σ.steps s).take macs d).ethDevInfo.isIpAssigned = false := hip
            simp [EthLanClient.goOn, hip']

/-- The agent of a live step, by its key. -/
theorem Owned.lookup (hmacs : macs.Lawful) (h : Owned macs agents σ) {s : ℕ} (hs : s ∈ σ.live) :
    ∃ front ds back, σ.agents = front ++ ds :: back ∧
      getExtAgentFromEthDevMac macs σ.agents (σ.steps s).key = some front.length ∧ ∃ d ∈ ds, d.mac = σ.mac s := by
  obtain ⟨d, hd⟩ := h.own s hs
  have hread : macs.read (σ.steps s).key = σ.mac s := by
    rw [hd.key, hmacs.read_print, State.mac, hd.mac]
  cases hget : getExtAgentFromEthDevMac macs σ.agents (σ.steps s).key with
  | none =>
      have hmem : mark σ.held d ∈ σ.agents.flatten := by
        rw [h.agents_eq, ← List.map_flatten]
        exact List.mem_map_of_mem hd.mem
      refine absurd ?_ (getExtAgent_none hget _ hmem)
      rw [mark_mac, hread, State.mac, hd.mac]
  | some i =>
      obtain ⟨front, ds, back, heq, rfl, x, hx, hxm⟩ := getExtAgent_some hget
      exact ⟨front, ds, back, heq, rfl, x, hx, hxm.trans hread⟩

theorem stepRemove_live (s : ℕ) : (stepRemove macs σ s).1.live = σ.live.filter (· ≠ s) := by
  unfold stepRemove
  dsimp only
  split <;> rfl

theorem stepRemove_steps (s : ℕ) : (stepRemove macs σ s).1.steps = σ.steps := by
  unfold stepRemove
  dsimp only
  split <;> rfl

/-- A live step gives back its device. -/
theorem Owned.gives_back (hmacs : macs.Lawful) (hmac : (agents.flatten.map EthDev.mac).Nodup)
    (h : Owned macs agents σ) {s : ℕ} (hs : s ∈ σ.live) :
    (stepRemove macs σ s).1.agents =
      σ.agents.map (List.map (atKey EthDev.mac (σ.mac s) (setState ethStateFree))) := by
  obtain ⟨front, ds, back, heq, hget, d, hd, hdm⟩ := h.lookup hmacs hs
  have hnodup := h.nodup hmac
  obtain ⟨pre, post, rfl⟩ := List.append_of_mem hd
  have hrow : ((pre ++ d :: post).map EthDev.mac).Nodup := by
    rw [heq, List.flatten_append, List.flatten_cons, List.map_append, List.map_append] at hnodup
    exact (List.nodup_append.mp (List.nodup_append.mp hnodup).2.1).1
  have hagents : (stepRemove macs σ s).1.agents = σ.agents.modify front.length (freeFirst (σ.mac s)) := by
    simp only [stepRemove, hget]
    rfl
  rw [heq] at hnodup
  have hwrite := map_map_at (f := setState ethStateFree) hnodup
  rw [hagents, heq, modify_append_length, freeFirst_eq hrow, ← hdm, hwrite, map_at hrow]

theorem mem_held {m : Mac} : m ∈ σ.held ↔ ∃ s ∈ σ.live, σ.mac s = m := List.mem_map

/-- Who holds a device, once a step gave up its own. -/
theorem Owned.mem_held_remove (h : Owned macs agents σ) {s : ℕ} (hs : s ∈ σ.live) (m : Mac) :
    m ∈ (stepRemove macs σ s).1.held ↔ m ∈ σ.held ∧ m ≠ σ.mac s := by
  have hmac : ∀ t, (stepRemove macs σ s).1.mac t = σ.mac t := by
    intro t
    rw [State.mac, stepRemove_steps, State.mac]
  simp only [mem_held, hmac, stepRemove_live, List.mem_filter, decide_eq_true_eq]
  constructor
  · rintro ⟨t, ⟨ht, hts⟩, rfl⟩
    exact ⟨⟨t, ht, rfl⟩, fun heq => hts (List.inj_on_of_nodup_map h.alone ht hs heq)⟩
  · rintro ⟨⟨t, ht, rfl⟩, hne⟩
    exact ⟨t, ⟨ht, fun hts => hne (by rw [hts])⟩, rfl⟩

/-- A device without its step is as it was at first. -/
theorem Owned.free_mark (h : Owned macs agents σ) (hmac : (agents.flatten.map EthDev.mac).Nodup) {s : ℕ}
    (hs : s ∈ σ.live) {d : EthDev} (hd : d ∈ agents.flatten) :
    atKey EthDev.mac (σ.mac s) (setState ethStateFree) (mark σ.held d) = mark (stepRemove macs σ s).1.held d := by
  unfold atKey
  rw [mark_mac]
  by_cases hdm : d.mac = σ.mac s
  · obtain ⟨x, hx⟩ := h.own s hs
    have hxm : σ.mac s = x.mac := hx.mac
    have hdx : d = x := List.inj_on_of_nodup_map hmac hd hx.mem (hdm.trans hxm)
    have hnot : ¬ d.mac ∈ (stepRemove macs σ s).1.held := fun hm => ((h.mem_held_remove hs _).mp hm).2 hdm
    have hset : setState ethStateFree (mark σ.held d) = setState ethStateFree d := by
      unfold mark
      split_ifs <;> rfl
    rw [if_pos hdm, hset, mark, if_neg hnot, hdx, setState, ← hx.free]
  · rw [if_neg hdm]
    unfold mark
    rw [if_congr (h.mem_held_remove hs d.mac) rfl rfl]
    simp [hdm]

/-- The removal of a live step. -/
theorem Owned.remove (hmacs : macs.Lawful) (hmac : (agents.flatten.map EthDev.mac).Nodup) (h : Owned macs agents σ)
    {s : ℕ} (hs : s ∈ σ.live) : Owned macs agents (stepRemove macs σ s).1 := by
  refine ⟨?_, fun t ht => ?_, ?_⟩
  · rw [h.gives_back hmacs hmac hs, h.agents_eq, List.map_map]
    refine List.map_congr_left fun ds hds => ?_
    rw [Function.comp_apply, List.map_map]
    exact List.map_congr_left fun d hd => h.free_mark hmac hs (List.mem_flatten.mpr ⟨ds, hds, hd⟩)
  · rw [stepRemove_live] at ht
    rw [stepRemove_steps]
    exact h.own t (List.mem_filter.mp ht).1
  · have hheld : (stepRemove macs σ s).1.held = (σ.live.filter (· ≠ s)).map σ.mac := by
      rw [State.held, stepRemove_live]
      refine List.map_congr_left fun t _ => ?_
      rw [State.mac, stepRemove_steps, State.mac]
    rw [hheld]
    exact h.alone.sublist (List.filter_sublist.map σ.mac)

/-- The removal of a step that never had a device. -/
theorem stepRemove_not_live {s : ℕ} (hs : s ∉ σ.live)
    (hkey : ∀ d ∈ σ.agents.flatten, d.mac ≠ macs.read (σ.steps s).key) : stepRemove macs σ s = (σ, []) := by
  have hlive : σ.live.filter (· ≠ s) = σ.live := by
    refine List.filter_eq_self.mpr fun t ht => ?_
    simpa using fun hts : t = s => hs (hts ▸ ht)
  unfold stepRemove
  rw [hlive]
  cases hget : getExtAgentFromEthDevMac macs σ.agents (σ.steps s).key with
  | none =>
      rfl
  | some i =>
      obtain ⟨front, ds, back, heq, -, d, hd, hdm⟩ := getExtAgent_some hget
      refine absurd hdm (hkey d ?_)
      rw [heq]
      simp [hd]

theorem Owned.execute (hmac : (agents.flatten.map EthDev.mac).Nodup) (h : Owned macs agents σ) {s : ℕ} {o : Answers}
    (hs : s ∉ σ.live) : Owned macs agents (stepExecute macs σ s o).1 := by
  cases hfind : findFirstFreeEthDev σ.agents with
  | none =>
      rw [stepExecute_none hfind]
      exact h
  | some found =>
      obtain ⟨c, hc⟩ : ∃ c, Executed macs σ s o found c := stepExecute_some hfind
      obtain ⟨d, hd, hfree, hheld, rfl⟩ := h.find_some hmac hfind
      rw [hc.state]
      refine h.take hs hheld ⟨hd, hfree, ?_, hc.key⟩
      rw [hc.info]
      rfl

theorem parse_mac (c : EthLanClient) (data : Option (Bytes × Option Bytes)) :
    (c.parse data).ethDevInfo.mac = c.ethDevInfo.mac ∧ (c.parse data).key = c.key := by
  obtain _ | ⟨name, _ | ip⟩ := data <;> exact ⟨rfl, rfl⟩

/-- A poll changes no address and no key. -/
theorem stepTimeout_keeps (s : ℕ) (r : Reply) :
    (stepTimeout macs σ s r).1.agents = σ.agents ∧ (stepTimeout macs σ s r).1.live = σ.live ∧
      ∀ t, ((stepTimeout macs σ s r).1.steps t).ethDevInfo.mac = (σ.steps t).ethDevInfo.mac ∧
        ((stepTimeout macs σ s r).1.steps t).key = (σ.steps t).key := by
  unfold stepTimeout
  cases getExtAgentFromEthDevMac macs σ.agents (σ.steps s).key with
  | none =>
      exact ⟨rfl, rfl, fun t => ⟨rfl, rfl⟩⟩
  | some i =>
      dsimp only
      split_ifs
      · exact ⟨rfl, rfl, fun t => ⟨rfl, rfl⟩⟩
      · exact ⟨rfl, rfl, fun t => ⟨rfl, rfl⟩⟩
      all_goals
        refine ⟨rfl, rfl, fun t => ?_⟩
        by_cases ht : t = s
        · subst ht
          simp only [Function.update_self]
          exact parse_mac _ _
        · simp [Function.update_of_ne ht]

/-- All commands of a poll go to the agent that the key names. -/
theorem stepTimeout_sent (s : ℕ) (r : Reply) :
    ∀ c ∈ (stepTimeout macs σ s r).2, getExtAgentFromEthDevMac macs σ.agents (σ.steps s).key = some c.1 := by
  unfold stepTimeout
  cases getExtAgentFromEthDevMac macs σ.agents (σ.steps s).key with
  | none =>
      simp
  | some i =>
      dsimp only
      split_ifs <;> simp

theorem Owned.timeout (h : Owned macs agents σ) (s : ℕ) (r : Reply) : Owned macs agents (stepTimeout macs σ s r).1 := by
  obtain ⟨hagents, hlive, hkeeps⟩ := @stepTimeout_keeps macs σ s r
  have hheld : (stepTimeout macs σ s r).1.held = σ.held := by
    rw [State.held, hlive]
    exact List.map_congr_left fun t _ => (hkeeps t).1
  refine ⟨by rw [hagents, hheld, h.agents_eq], fun t ht => ?_, by rw [hheld]; exact h.alone⟩
  rw [hlive] at ht
  obtain ⟨d, hd⟩ := h.own t ht
  exact ⟨d, hd.mem, hd.free, (hkeeps t).1.trans hd.mac, (hkeeps t).2.trans hd.key⟩

/-- The invariant step. -/
theorem Owned.after (hmacs : macs.Lawful) (hmac : (agents.flatten.map EthDev.mac).Nodup) (h : Owned macs agents σ)
    {call : Call} (hcall : Condition macs σ call) : Owned macs agents (after macs σ call) := by
  cases call with
  | execute s o =>
      exact h.execute hmac hcall
  | poll s r =>
      exact h.timeout s r
  | remove s =>
      by_cases hs : s ∈ σ.live
      · exact h.remove hmacs hmac hs
      · show Owned macs agents (stepRemove macs σ s).1
        rw [stepRemove_not_live hs (hcall.resolve_left hs)]
        exact h

end Calls

/-! ### Runs -/

section Runs

variable {macs : MacLib} {agents : List (List EthDev)} {σ : State}

theorem owned_start {steps : ℕ → EthLanClient} : Owned macs agents (start agents steps) := by
  refine ⟨?_, fun s hs => absurd hs List.not_mem_nil, List.nodup_nil⟩
  have hid : List.map (mark (start agents steps).held) = id := by
    funext ds
    exact (List.map_congr_left fun d _ => by simp [mark, State.held, start]).trans (List.map_id ds)
  rw [hid, List.map_id]
  rfl

/-- The devices that were free at first and are held are those of the live steps. -/
theorem Owned.countP_held (hmac : (agents.flatten.map EthDev.mac).Nodup) (h : Owned macs agents σ) :
    (agents.flatten.filter fun d => d.state = ethStateFree ∧ d.mac ∈ σ.held).length = σ.live.length := by
  have hperm : ((agents.flatten.filter fun d => d.state = ethStateFree ∧ d.mac ∈ σ.held).map EthDev.mac).Perm
      σ.held := by
    refine (List.perm_ext_iff_of_nodup (hmac.sublist (List.filter_sublist.map _)) h.alone).mpr fun m => ?_
    constructor
    · intro hm
      obtain ⟨d, hd, rfl⟩ := List.mem_map.mp hm
      have := (List.mem_filter.mp hd).2
      simp only [decide_eq_true_eq] at this
      exact this.2
    · intro hm
      obtain ⟨s, hs, rfl⟩ := mem_held.mp hm
      obtain ⟨d, hd⟩ := h.own s hs
      have hdm : σ.mac s = d.mac := hd.mac
      rw [hdm]
      refine List.mem_map_of_mem (List.mem_filter.mpr ⟨hd.mem, ?_⟩)
      simpa [hd.free, ← hdm] using hm
  have hlen := hperm.length_eq
  rwa [List.length_map, State.held, List.length_map] at hlen

theorem Owned.conserved (hmac : (agents.flatten.map EthDev.mac).Nodup) (h : Owned macs agents σ) :
    σ.live.length + σ.agents.flatten.countP (fun d => d.state = ethStateFree) =
      agents.flatten.countP fun d => d.state = ethStateFree := by
  have hfree : σ.agents.flatten.countP (fun d => d.state = ethStateFree) =
      agents.flatten.countP fun d => d.state = ethStateFree ∧ ¬ d.mac ∈ σ.held := by
    rw [h.agents_eq, ← List.map_flatten, List.countP_map]
    refine List.countP_congr fun d _ => ?_
    simp only [Function.comp_apply, decide_eq_true_eq]
    unfold mark
    by_cases hd : d.mac ∈ σ.held
    · have hne : (setState ethStateInUse d).state ≠ ethStateFree := show ethStateInUse ≠ ethStateFree by decide
      simp [hd, hne]
    · simp [hd]
  rw [← h.countP_held hmac, hfree, ← List.countP_eq_length_filter, countP_and_add_countP_and_not]

theorem live_stepExecute_iff {s : ℕ} {o : Answers} (hs : s ∉ σ.live) :
    s ∈ (stepExecute macs σ s o).1.live ↔ ∃ d ∈ σ.agents.flatten, d.state = ethStateFree := by
  cases hfind : findFirstFreeEthDev σ.agents with
  | none =>
      rw [stepExecute_none hfind]
      refine iff_of_false hs ?_
      rintro ⟨d, hd, hfree⟩
      exact findFirstFreeEthDev_eq_none hfind d hd hfree
  | some found =>
      obtain ⟨c, hc⟩ : ∃ c, Executed macs σ s o found c := stepExecute_some hfind
      obtain ⟨front, pre, d, post, back, heq, hfree, -⟩ := findFirstFreeEthDev_spec hfind
      rw [hc.state]
      exact iff_of_true List.mem_cons_self ⟨d, by simp [heq], hfree⟩

theorem goes_on {s : ℕ} {o : Answers} (hip : (σ.steps s).ethDevInfo.isIpAssigned = false)
    (hok : (stepExecute macs σ s o).2.2 = true) : ((stepExecute macs σ s o).1.steps s).testState = .cont := by
  cases hfind : findFirstFreeEthDev σ.agents with
  | none =>
      rw [stepExecute_none hfind] at hok
      cases hok
  | some found =>
      obtain ⟨c, hc⟩ : ∃ c, Executed macs σ s o found c := stepExecute_some hfind
      rw [hc.state]
      show (Function.update σ.steps s c s).testState = .cont
      rw [Function.update_self]
      exact hc.goes_on hok hip

/-- The agent that the key of a live step names, among the agents at first. -/
theorem Owned.agent (hmacs : macs.Lawful) (h : Owned macs agents σ) {s : ℕ} (hs : s ∈ σ.live) {i : ℕ}
    (hget : getExtAgentFromEthDevMac macs σ.agents (σ.steps s).key = some i) :
    ∃ ds, agents[i]? = some ds ∧ ∃ d ∈ ds, d.mac = σ.mac s := by
  obtain ⟨front, ds, back, heq, hget', x, hx, hxm⟩ := h.lookup hmacs hs
  rw [hget, Option.some.injEq] at hget'
  have hrow : σ.agents[i]? = some ds := by
    rw [heq, hget']
    simp
  rw [h.agents_eq, List.getElem?_map] at hrow
  obtain ⟨ds₀, hds₀, rfl⟩ := Option.map_eq_some_iff.mp hrow
  obtain ⟨d, hd, rfl⟩ := List.mem_map.mp hx
  exact ⟨ds₀, hds₀, d, hd, (mark_mac σ.held d).symm.trans hxm⟩

theorem Owned.sent_execute (hmacs : macs.Lawful) (hmac : (agents.flatten.map EthDev.mac).Nodup)
    (h : Owned macs agents σ) {s : ℕ} {o : Answers} (hs : s ∉ σ.live) :
    ∀ c ∈ (stepExecute macs σ s o).2.1,
      ∃ ds, agents[c.1]? = some ds ∧ ∃ d ∈ ds, d.mac = (stepExecute macs σ s o).1.mac s := by
  intro e he
  have howned : Owned macs agents (stepExecute macs σ s o).1 := h.execute hmac hs
  cases hfind : findFirstFreeEthDev σ.agents with
  | none =>
      rw [stepExecute_none hfind] at he
      cases he
  | some found =>
      obtain ⟨c, hc⟩ : ∃ c, Executed macs σ s o found c := stepExecute_some hfind
      have hget := hc.sent e he
      refine howned.agent hmacs ?_ ?_
      · rw [hc.state]
        exact List.mem_cons_self
      · rw [hc.state]
        show getExtAgentFromEthDevMac macs found.2 (Function.update σ.steps s c s).key = some e.1
        rw [Function.update_self]
        exact hget

theorem Owned.sent_own (hmacs : macs.Lawful) (hmac : (agents.flatten.map EthDev.mac).Nodup)
    (h : Owned macs agents σ) {call : Call} (hcall : Condition macs σ call) : ∀ c ∈ sent macs σ call,
    ∃ ds, agents[c.1]? = some ds ∧ ∃ d ∈ ds, d.mac = (EthDevices.after macs σ call).mac call.subject := by
  intro e he
  cases call with
  | execute s o =>
      exact h.sent_execute hmacs hmac hcall e he
  | poll s r =>
      obtain ⟨ds, hds, d, hd, hdm⟩ := h.agent hmacs hcall (stepTimeout_sent s r e he)
      refine ⟨ds, hds, d, hd, hdm.trans ?_⟩
      exact ((stepTimeout_keeps s r).2.2 s).1.symm
  | remove s =>
      by_cases hs : s ∈ σ.live
      · cases hget : getExtAgentFromEthDevMac macs σ.agents (σ.steps s).key with
        | none =>
            simp [sent, stepRemove, hget] at he
        | some i =>
            simp only [sent, stepRemove, hget, List.mem_singleton] at he
            subst he
            obtain ⟨ds, hds, d, hd, hdm⟩ := h.agent hmacs hs hget
            refine ⟨ds, hds, d, hd, hdm.trans ?_⟩
            show σ.mac s = (stepRemove macs σ s).1.mac s
            rw [State.mac, State.mac, stepRemove_steps]
      · have hnone : sent macs σ (.remove s) = [] := by
          show (stepRemove macs σ s).2 = []
          rw [stepRemove_not_live hs (hcall.resolve_left hs)]
        rw [hnone] at he
        cases he

theorem Owned.kept (hmacs : macs.Lawful) (hmac : (agents.flatten.map EthDev.mac).Nodup)
    (h : Owned macs agents σ) : Kept macs agents σ where
  in_use := h.agents_eq
  alone _ hs _ ht heq := List.inj_on_of_nodup_map h.alone hs ht heq
  conserved := h.conserved hmac
  served _ _ hs := live_stepExecute_iff hs
  goes_on _ _ hip hok := EthDevices.goes_on hip hok
  sent_own _ hcall := h.sent_own hmacs hmac hcall
  gives_back _ hs := h.gives_back hmacs hmac hs

/-- **The pool of Ethernet devices**: whatever the agents and the files answer, in every order of executions,
polls and removals. -/
theorem pool_of_run (hmacs : macs.Lawful) (hmac : (agents.flatten.map EthDev.mac).Nodup) {steps : ℕ → EthLanClient}
    (h : Run (next macs) (Condition macs) (start agents steps) σ) : Kept macs agents σ := by
  have howned : Owned macs agents σ := by
    refine run_invariant (I := Owned macs agents) ?_ h owned_start
    intro τ call υ hτ hcall hnext
    cases hnext
    exact hτ.after hmacs hmac hcall
  exact howned.kept hmacs hmac

/-- Two agents: the first device of the first one was left in use by its decoder. -/
def twoAgents : List (List EthDev) :=
  [[⟨text "eth0", macOf 2 0 0 0 0 1, text "10.0.0.1", true, 1⟩, ⟨text "eth1", macOf 2 0 0 0 0 2, text "10.0.0.2", true, 0⟩],
    [⟨text "eth0", macOf 2 0 0 0 0 3, text "10.0.0.3", true, 0⟩]]

/-- What the constructor of a step leaves. -/
def fresh : ℕ → EthLanClient :=
  fun _ => ⟨⟨[], macOf 0 0 0 0 0 0, [], false, 0⟩, [], 30, true, 5, .request⟩

def allOk : Answers :=
  ⟨true, true, true, true, true, true⟩

/-- The agent tells of an address. -/
def assigned : Reply :=
  ⟨true, false, some (text "eth1", some (text "10.0.0.7")), false⟩

/-- Two steps take the two free devices, whose second agent does not start; the first step is told an address, and
then removed. -/
theorem pool_of_run_two_steps :
    Kept hexMacs twoAgents
      (after hexMacs (after hexMacs (after hexMacs (after hexMacs (start twoAgents fresh) (.execute 1 allOk))
        (.execute 2 { allOk with startCommand := false })) (.poll 1 assigned)) (.remove 1)) := by
  have hrun : ∀ {σ : State}, Run (next hexMacs) (Condition hexMacs) (start twoAgents fresh) σ →
      Kept hexMacs twoAgents σ := fun h => pool_of_run hexMacs_lawful (by decide) h
  refine hrun ?_
  refine Run.step (Run.step (Run.step (Run.step (.refl _) ?_ rfl) ?_ rfl) ?_ rfl) ?_ rfl
  · show 1 ∉ []
    exact List.not_mem_nil
  · show 2 ∉ [1]
    decide
  · show 1 ∈ [2, 1]
    decide
  · exact .inl (show 1 ∈ [2, 1] by decide)

end Runs

end OneWifiTestSuite.EthDevices
