import OneWifiTestSuite.StaMgr
import OneWifiTestSuite.Steps

/-!
# The stations of an agent's test

The agent's station manager adds a station for each station step, and the step's removal, a deauthentication
frame or nothing removes it. A test ends with a stop message, which removes every step of the queue, or with
a step in abort, where the thread exits and removes none. `stations_released` is the property of the ended
tests: each station of the test was removed once and its device is free, and no step was used after its
removal.
-/

namespace OneWifiTestSuite.AgentStations

open Runs HashMap StaKey
open StaMgr (Status)
open Steps (TestState)

/-! ### The station manager -/

section Manager

/-- `wlan_emu_sta_t`: its number in the order of additions, and its device. -/
structure Sta where
  addr : ℕ
  devId : ℕ
deriving DecidableEq, Repr

/-- The manager: the status of each device of `m_sta_info_map`, the entries of `m_sta_map` (newest first),
all stations added so far, and the stations removed. -/
structure Mgr where
  infos : List Status
  map : List (HashElem Sta)
  added : List Sta
  removed : List ℕ

/-- What `add_sta` gets from allocations and the HAL, and whether `hash_map_put` finds memory. -/
structure Answers where
  mallocMap : Bool
  setRadioOperatingParameters : Bool
  createVAP : Bool
  connect : Bool
  hashMapPut : Bool

def Answers.ok (ans : Answers) : Bool :=
  ans.mallocMap && ans.setRadioOperatingParameters && ans.createVAP && ans.connect

def findFirstFreeDev (m : Mgr) : Option ℕ :=
  m.infos.findIdx? (· = .free)

/-- The end of `add_sta`: the map takes the station, and its device is busy. -/
def Mgr.connect (m : Mgr) (devId : ℕ) (key : CString) (hashMapPut : Bool) : Mgr where
  infos := m.infos.set devId .inUse
  map := if hashMapPut then ⟨some ⟨m.added.length, devId⟩, key⟩ :: m.map else m.map
  added := ⟨m.added.length, devId⟩ :: m.added
  removed := m.removed

/-- `add_sta`: the manager, the step's key and whether it succeeded. -/
def addSta (size : ℕ) (m : Mgr) (testId : BitVec 32) (key : CString) (ans : Answers) : Mgr × CString × Bool :=
  match findFirstFreeDev m with
  | none => (m, key, false)
  | some devId =>
      if ans.ok then (m.connect devId (createKey size devId testId) ans.hashMapPut, createKey size devId testId, true)
      else (m, createKey size devId testId, false)

/-- `hash_map_get`. -/
def hashMapGet (map : List (HashElem Sta)) (key : CString) : Option Sta :=
  (map.find? (keyMatches key)).bind HashElem.data

/-- `set_dev_free` and `hash_map_remove`. -/
def Mgr.release (m : Mgr) (key : CString) (sta : Sta) : Mgr :=
  { m with
    infos := m.infos.set sta.devId .free
    map := m.map.eraseP (keyMatches key)
    removed := sta.addr :: m.removed }

/-- `remove_sta`. -/
def removeSta (m : Mgr) (key : CString) : Mgr :=
  if key.1 = [] then m
  else
    match hashMapGet m.map key with
    | none => m
    | some sta => if sta.devId < m.infos.length then m.release key sta else m

end Manager

/-! ### The test -/

section Test

/-- A station step object; `removed` says that it was deleted. -/
structure Step where
  testId : BitVec 32
  key : CString
  associated : Bool
  state : TestState
  removed : Bool

/-- The agent: its manager, the number of stations added before the test, whether the test's thread runs,
`test_steps_q` with its objects, and whether a deleted object was used. -/
structure State where
  mgr : Mgr
  base : ℕ
  running : Bool
  queue : List ℕ
  objs : ℕ → Step
  fresh : ℕ
  misuse : Bool

def noStep : Step :=
  ⟨0, ⟨[], by simp⟩, false, .request, false⟩

/-- The process before its first test; all devices are free. -/
def start (devices : ℕ) : State where
  mgr := ⟨List.replicate devices .free, [], [], []⟩
  base := 0
  running := false
  queue := []
  objs _ := noStep
  fresh := 0
  misuse := false

/-- Step objects are written one at a time; writing a deleted one is a misuse. -/
def State.write (σ : State) (s : ℕ) (x : Step) : State :=
  { σ with objs := Function.update σ.objs s x, misuse := σ.misuse || (σ.objs s).removed }

/-- `wlan_ext_step_execute` of a new step at the head of the queue. A step that was added goes on in `after`. -/
def State.execute (size : ℕ) (σ : State) (testId : BitVec 32) (ans : Answers) (after : TestState) : State :=
  match addSta size σ.mgr testId noStep.key ans with
  | (mgr, key, ok) =>
      { σ with
        mgr := mgr
        queue := σ.fresh :: σ.queue
        objs := Function.update σ.objs σ.fresh ⟨testId, key, false, if ok then after else .abort, false⟩
        fresh := σ.fresh + 1 }

/-- A deauthentication in the frame filter of a step. -/
def State.deauth (σ : State) (s : ℕ) : State :=
  if (σ.objs s).associated then
    { σ.write s { σ.objs s with associated := false } with mgr := removeSta σ.mgr (σ.objs s).key }
  else
    σ.write s (σ.objs s)

/-- `wlan_ext_step_remove`. -/
def State.stepRemove (σ : State) (s : ℕ) : State :=
  { σ.write s { σ.objs s with associated := false, removed := true } with
    mgr := if (σ.objs s).associated then removeSta σ.mgr (σ.objs s).key else σ.mgr }

/-- `test_stop`; the thread exits after it. -/
def State.testStop (σ : State) : State :=
  { σ.queue.foldl State.stepRemove σ with running := false }

/-- Steps that frames and timeouts reach. -/
def State.waits (σ : State) (s : ℕ) : Prop :=
  σ.running = true ∧ s ∈ σ.queue ∧ ((σ.objs s).state = .cont ∨ (σ.objs s).state = .wait)

instance (σ : State) (s : ℕ) : Decidable (σ.waits s) :=
  inferInstanceAs (Decidable (_ ∧ _ ∧ _))

inductive Event
  /-- a new test, with a new queue of steps -/
  | startTest
  /-- the message with a new step -/
  | data (testId : BitVec 32) (ans : Answers) (after : TestState)
  /-- a frame that associates the step's station -/
  | associate (s : ℕ)
  | deauth (s : ℕ)
  /-- a timeout or a notification -/
  | setState (s : ℕ) (state : TestState)
  /-- a tick that finds a step in abort -/
  | abort (s : ℕ)
  | stop

def next (size : ℕ) (σ : State) : Event → Option State
  | .startTest =>
      if σ.running then none else some { σ with base := σ.mgr.added.length, running := true, queue := [] }
  | .data testId ans after => if σ.running then some (σ.execute size testId ans after) else none
  | .associate s => if σ.waits s then some (σ.write s { σ.objs s with associated := true }) else none
  | .deauth s => if σ.waits s then some (σ.deauth s) else none
  | .setState s state => if σ.waits s then some (σ.write s { σ.objs s with state := state }) else none
  | .abort s =>
      if σ.running = true ∧ s ∈ σ.queue ∧ (σ.objs s).state = .abort then
        some { σ.write s (σ.objs s) with running := false }
      else none
  | .stop => if σ.running then some σ.testStop else none

/-- Each station that the test added was removed exactly once, and its device is free. -/
def Released (σ : State) : Prop :=
  ∀ sta ∈ σ.mgr.added, σ.base ≤ sta.addr →
    σ.mgr.removed.count sta.addr = 1 ∧ σ.mgr.infos[sta.devId]? = some .free

/-- No key of the map begins another one. -/
def PrefixFree (map : List (HashElem Sta)) : Prop :=
  ∀ e ∈ map, ∀ e' ∈ map, e.key.1 <+: e'.key.1 → e = e'

/-- A test may end in abort when none of its stations is left. It may be stopped when each station that is
left has an associated step with its key, and no key of the map begins another one. -/
def Condition (σ : State) : Event → Prop
  | .abort _ => ∀ sta ∈ σ.mgr.added, σ.base ≤ sta.addr → sta.addr ∈ σ.mgr.removed
  | .stop => PrefixFree σ.mgr.map ∧ ∀ sta ∈ σ.mgr.added, σ.base ≤ sta.addr →
      sta.addr ∈ σ.mgr.removed ∨ ∃ s ∈ σ.queue, (σ.objs s).associated = true ∧ (σ.objs s).key.1 ≠ [] ∧
        ⟨some sta, (σ.objs s).key⟩ ∈ σ.mgr.map
  | _ => True

end Test

/-! ### The manager's invariant -/

section ManagerInvariant

variable {m : Mgr}

/-- The station is connected. -/
def Mgr.Holds (m : Mgr) (sta : Sta) : Prop :=
  sta ∈ m.added ∧ sta.addr ∉ m.removed

/-- Entries are of connected stations, and a device is in use exactly when it has one, and then just one. -/
structure MgrInv (m : Mgr) : Prop where
  addr_lt : ∀ sta ∈ m.added, sta.addr < m.added.length
  addr_inj : ∀ sta ∈ m.added, ∀ sta' ∈ m.added, sta.addr = sta'.addr → sta = sta'
  entry : ∀ e ∈ m.map, ∃ sta, e.data = some sta ∧ m.Holds sta
  nodup : (m.map.map HashElem.data).Nodup
  busy : ∀ sta, m.Holds sta → m.infos[sta.devId]? = some .inUse
  unique : ∀ sta sta', m.Holds sta → m.Holds sta' → sta.devId = sta'.devId → sta = sta'
  holder : ∀ d : ℕ, m.infos[d]? = some .inUse → ∃ sta, m.Holds sta ∧ sta.devId = d
  device : ∀ sta ∈ m.added, sta.devId < m.infos.length
  removed_nodup : m.removed.Nodup
  removed_lt : ∀ a ∈ m.removed, a < m.added.length

theorem findFirstFreeDev_eq_some {d : ℕ} (h : findFirstFreeDev m = some d) : m.infos[d]? = some .free := by
  obtain ⟨hd, hfree, -⟩ := List.findIdx?_eq_some_iff_getElem.mp h
  rw [List.getElem?_eq_getElem hd]
  exact congrArg some (of_decide_eq_true hfree)

/-- What a lookup finds, and what the removal by the same key takes out. -/
theorem hashMapGet_eq_some {map : List (HashElem Sta)} {key : CString} {sta : Sta} (h : hashMapGet map key = some sta) :
    ∃ front e back, map = front ++ e :: back ∧ e.data = some sta ∧ key.1 <+: e.key.1 ∧
      map.eraseP (keyMatches key) = front ++ back := by
  obtain ⟨e, hfind, hdata⟩ := Option.bind_eq_some_iff.mp h
  obtain ⟨hmatch, front, back, rfl, hfront⟩ := List.find?_eq_some_iff_append.mp hfind
  refine ⟨front, e, back, rfl, hdata, (keyMatches_iff _ _).mp hmatch, ?_⟩
  rw [List.eraseP_append_right _ (fun x hx => by simpa using hfront x hx), List.eraseP_cons_of_pos hmatch]

theorem connect_holds (d : ℕ) (key : CString) (put : Bool) (sta : Sta) (h : MgrInv m) :
    (m.connect d key put).Holds sta ↔ sta = ⟨m.added.length, d⟩ ∨ m.Holds sta := by
  unfold Mgr.Holds Mgr.connect
  rw [List.mem_cons]
  constructor
  · rintro ⟨rfl | hmem, hrem⟩
    · exact .inl rfl
    · exact .inr ⟨hmem, hrem⟩
  · rintro (rfl | ⟨hmem, hrem⟩)
    · exact ⟨.inl rfl, fun hr => Nat.lt_irrefl _ (h.removed_lt _ hr)⟩
    · exact ⟨.inr hmem, hrem⟩

/-- A free device takes a new station. -/
theorem MgrInv.connect (h : MgrInv m) {d : ℕ} (hfree : m.infos[d]? = some .free) (key : CString) (put : Bool) :
    MgrInv (m.connect d key put) := by
  have hd : d < m.infos.length := by
    obtain ⟨hd, -⟩ := List.getElem?_eq_some_iff.mp hfree
    exact hd
  have hother : ∀ sta, m.Holds sta → sta.devId ≠ d := by
    rintro sta hsta rfl
    have := h.busy sta hsta
    rw [hfree] at this
    cases this
  have hinfos : ∀ x : ℕ, (m.connect d key put).infos[x]? = if x = d then some .inUse else m.infos[x]? := by
    intro x
    show (m.infos.set d .inUse)[x]? = _
    rw [List.getElem?_set]
    by_cases hx : d = x
    · subst hx
      simp [hd]
    · simp [hx, Ne.symm hx]
  have hlt : ∀ sta ∈ m.added, sta.addr ≠ m.added.length := fun sta hsta => Nat.ne_of_lt (h.addr_lt sta hsta)
  have hlength : (m.connect d key put).added.length = m.added.length + 1 := by simp [Mgr.connect]
  refine ⟨?_, ?_, ?_, ?_, ?_, ?_, ?_, ?_, h.removed_nodup, ?_⟩
  · intro sta hsta
    rw [hlength]
    obtain rfl | hsta := List.mem_cons.mp hsta
    · exact Nat.lt_succ_self _
    · have := h.addr_lt sta hsta
      omega
  · intro sta hsta sta' hsta' heq
    obtain rfl | hm := List.mem_cons.mp hsta
    · obtain rfl | hm' := List.mem_cons.mp hsta'
      · rfl
      · exact absurd heq.symm (hlt sta' hm')
    · obtain rfl | hm' := List.mem_cons.mp hsta'
      · exact absurd heq (hlt sta hm)
      · exact h.addr_inj sta hm sta' hm' heq
  · intro e he
    have hcases : e = ⟨some ⟨m.added.length, d⟩, key⟩ ∨ e ∈ m.map := by
      unfold Mgr.connect at he
      dsimp only at he
      split_ifs at he
      · exact List.mem_cons.mp he
      · exact .inr he
    obtain rfl | he := hcases
    · exact ⟨_, rfl, (connect_holds d key put _ h).mpr (.inl rfl)⟩
    · obtain ⟨sta, hdata, hsta⟩ := h.entry e he
      exact ⟨sta, hdata, (connect_holds d key put _ h).mpr (.inr hsta)⟩
  · show (HashElem.data <$> (if put then _ else _ : List (HashElem Sta))).Nodup
    split_ifs
    · refine List.nodup_cons.mpr ⟨fun hmem => ?_, h.nodup⟩
      obtain ⟨e, he, hdata⟩ := List.mem_map.mp hmem
      obtain ⟨sta, hsta, hholds⟩ := h.entry e he
      rw [hsta] at hdata
      exact hlt sta hholds.1 (by rw [Option.some.inj hdata])
    · exact h.nodup
  · intro sta hsta
    rw [hinfos]
    obtain rfl | hsta := (connect_holds d key put sta h).mp hsta
    · simp
    · rw [if_neg (hother sta hsta)]
      exact h.busy sta hsta
  · intro sta sta' hsta hsta' heq
    obtain rfl | hs := (connect_holds d key put sta h).mp hsta
    · obtain rfl | hs' := (connect_holds d key put sta' h).mp hsta'
      · rfl
      · exact absurd heq.symm (hother sta' hs')
    · obtain rfl | hs' := (connect_holds d key put sta' h).mp hsta'
      · exact absurd heq (hother sta hs)
      · exact h.unique sta sta' hs hs' heq
  · intro x hx
    rw [hinfos] at hx
    by_cases hxd : x = d
    · exact ⟨⟨m.added.length, d⟩, (connect_holds d key put _ h).mpr (.inl rfl), hxd.symm⟩
    · rw [if_neg hxd] at hx
      obtain ⟨sta, hsta, hdev⟩ := h.holder x hx
      exact ⟨sta, (connect_holds d key put _ h).mpr (.inr hsta), hdev⟩
  · intro sta hsta
    have hlen : (m.connect d key put).infos.length = m.infos.length := by simp [Mgr.connect]
    rw [hlen]
    obtain rfl | hsta := List.mem_cons.mp hsta
    · exact hd
    · exact h.device sta hsta
  · intro a ha
    rw [hlength]
    have := h.removed_lt a ha
    omega

theorem release_holds (key : CString) {sta : Sta} (h : MgrInv m) (hsta : sta ∈ m.added) (x : Sta) :
    (m.release key sta).Holds x ↔ m.Holds x ∧ x ≠ sta := by
  show x ∈ m.added ∧ x.addr ∉ sta.addr :: m.removed ↔ _
  rw [List.mem_cons, not_or]
  constructor
  · rintro ⟨hx, hne, hrem⟩
    exact ⟨⟨hx, hrem⟩, fun heq => hne (by rw [heq])⟩
  · rintro ⟨⟨hx, hrem⟩, hne⟩
    exact ⟨hx, fun heq => hne (h.addr_inj x hx sta hsta heq), hrem⟩

/-- The entry that a lookup finds is of a connected station. -/
theorem MgrInv.found (h : MgrInv m) {key : CString} {sta : Sta} (hget : hashMapGet m.map key = some sta) :
    m.Holds sta := by
  obtain ⟨front, e, back, hmap, hdata, -⟩ := hashMapGet_eq_some hget
  obtain ⟨x, hx, hholds⟩ := h.entry e (by simp [hmap])
  rw [hdata] at hx
  cases hx
  exact hholds

theorem MgrInv.release (h : MgrInv m) {key : CString} {sta : Sta} (hget : hashMapGet m.map key = some sta) :
    MgrInv (m.release key sta) := by
  have hsta := h.found hget
  have hholds := release_holds key h hsta.1
  obtain ⟨front, e, back, hmap, hdata, -, herase⟩ := hashMapGet_eq_some hget
  have hnodup : some sta ∉ (front ++ back).map HashElem.data ∧ ((front ++ back).map HashElem.data).Nodup := by
    have := h.nodup
    rw [hmap, List.map_append, List.map_cons, List.nodup_middle, List.nodup_cons, hdata] at this
    rwa [List.map_append]
  have hinfos : ∀ x : ℕ, x ≠ sta.devId → (m.release key sta).infos[x]? = m.infos[x]? :=
    fun x hx => List.getElem?_set_ne (Ne.symm hx)
  refine ⟨h.addr_lt, h.addr_inj, ?_, ?_, ?_, ?_, ?_, ?_, List.nodup_cons.mpr ⟨hsta.2, h.removed_nodup⟩, ?_⟩
  · intro x hx
    have hmem : x ∈ front ++ back := herase ▸ hx
    obtain ⟨y, hy, hyholds⟩ := h.entry x (by grind)
    refine ⟨y, hy, (hholds y).mpr ⟨hyholds, ?_⟩⟩
    rintro rfl
    exact hnodup.1 (List.mem_map.mpr ⟨x, hmem, hy⟩)
  · show ((m.map.eraseP (keyMatches key)).map HashElem.data).Nodup
    rw [herase]
    exact hnodup.2
  · intro x hx
    obtain ⟨hx, hne⟩ := (hholds x).mp hx
    rw [hinfos _ fun hdev => hne (h.unique x sta hx hsta hdev)]
    exact h.busy x hx
  · intro x y hx hy
    exact h.unique x y ((hholds x).mp hx).1 ((hholds y).mp hy).1
  · intro d hd
    have hne : d ≠ sta.devId := by
      rintro rfl
      have hfree : (m.release key sta).infos[sta.devId]? = some .free :=
        List.getElem?_set_self (h.device sta hsta.1)
      rw [hfree] at hd
      cases hd
    rw [hinfos d hne] at hd
    obtain ⟨x, hx, hdev⟩ := h.holder d hd
    refine ⟨x, (hholds x).mpr ⟨hx, ?_⟩, hdev⟩
    rintro rfl
    exact hne hdev.symm
  · intro x hx
    show x.devId < (m.infos.set _ _).length
    rw [List.length_set]
    exact h.device x hx
  · intro a ha
    obtain rfl | ha := List.mem_cons.mp ha
    · exact h.addr_lt sta hsta.1
    · exact h.removed_lt a ha

/-- A call of `remove_sta` without effect, or the release of the station found. -/
theorem removeSta_cases (h : MgrInv m) (key : CString) :
    (removeSta m key = m ∧ (key.1 = [] ∨ hashMapGet m.map key = none)) ∨
      ∃ sta, key.1 ≠ [] ∧ hashMapGet m.map key = some sta ∧ removeSta m key = m.release key sta := by
  unfold removeSta
  by_cases hkey : key.1 = []
  · exact .inl ⟨by rw [if_pos hkey], .inl hkey⟩
  · rw [if_neg hkey]
    cases hget : hashMapGet m.map key with
    | none =>
        exact .inl ⟨rfl, .inr rfl⟩
    | some sta =>
        refine .inr ⟨sta, hkey, rfl, ?_⟩
        exact if_pos (h.device sta (h.found hget).1)

theorem MgrInv.removeSta (h : MgrInv m) (key : CString) : MgrInv (removeSta m key) := by
  obtain ⟨heq, -⟩ | ⟨sta, -, hget, heq⟩ := removeSta_cases h key
  · rwa [heq]
  · rw [heq]
    exact h.release hget

/-- What every call of `remove_sta` keeps. -/
theorem removeSta_frame (m : Mgr) (key : CString) :
    (AgentStations.removeSta m key).added = m.added ∧ ∀ a ∈ m.removed, a ∈ (AgentStations.removeSta m key).removed := by
  unfold AgentStations.removeSta Mgr.release
  split_ifs
  · exact ⟨rfl, fun a ha => ha⟩
  · split
    · exact ⟨rfl, fun a ha => ha⟩
    · split_ifs
      · exact ⟨rfl, fun a ha => List.mem_cons_of_mem _ ha⟩
      · exact ⟨rfl, fun a ha => ha⟩

end ManagerInvariant

/-! ### The stations of one test -/

section Own

variable {m : Mgr} {base : ℕ}

/-- An older station whose device the test took was removed. -/
def Replaced (base : ℕ) (m : Mgr) : Prop :=
  ∀ sta ∈ m.added, base ≤ sta.addr → ∀ old ∈ m.added, old.addr < base → old.devId = sta.devId → old.addr ∈ m.removed

theorem Replaced.connect (h : Replaced base m) (hm : MgrInv m) (hbase : base ≤ m.added.length) {d : ℕ}
    (hfree : m.infos[d]? = some .free) (key : CString) (put : Bool) : Replaced base (m.connect d key put) := by
  intro sta hsta hown old hold hlt hdev
  obtain rfl | hold := List.mem_cons.mp hold
  · exact absurd hbase (Nat.not_le_of_lt hlt)
  · obtain rfl | hsta := List.mem_cons.mp hsta
    · by_contra hrem
      have hbusy := hm.busy old ⟨hold, hrem⟩
      rw [hdev, hfree] at hbusy
      cases hbusy
    · exact h sta hsta hown old hold hlt hdev

theorem Replaced.removeSta (h : Replaced base m) (key : CString) : Replaced base (removeSta m key) := by
  obtain ⟨hadded, hremoved⟩ := removeSta_frame m key
  unfold Replaced
  rw [hadded]
  exact fun sta hsta hown old hold hlt hdev => hremoved _ (h sta hsta hown old hold hlt hdev)

/-- The stations of a test that were all removed left their devices free. -/
theorem free_of_removed (hm : MgrInv m) (h : Replaced base m)
    (hall : ∀ sta ∈ m.added, base ≤ sta.addr → sta.addr ∈ m.removed) {sta : Sta} (hsta : sta ∈ m.added)
    (hown : base ≤ sta.addr) : m.infos[sta.devId]? = some .free := by
  cases hstatus : m.infos[sta.devId]? with
  | none =>
      have hdev := hm.device sta hsta
      rw [List.getElem?_eq_none_iff] at hstatus
      omega
  | some status =>
      cases status with
      | free =>
          rfl
      | inUse =>
          obtain ⟨x, hx, hdev⟩ := hm.holder _ hstatus
          by_cases hlt : x.addr < base
          · exact absurd (h sta hsta hown x hx.1 hlt hdev) hx.2
          · exact absurd (hall x hx.1 (by omega)) hx.2

theorem foldl_removeSta_frame (keys : List CString) (m : Mgr) :
    (keys.foldl removeSta m).added = m.added ∧ ∀ a ∈ m.removed, a ∈ (keys.foldl removeSta m).removed := by
  induction keys generalizing m with
  | nil =>
      exact ⟨rfl, fun a ha => ha⟩
  | cons key keys ih =>
      obtain ⟨hadded, hremoved⟩ := removeSta_frame m key
      obtain ⟨hadded', hremoved'⟩ := ih (removeSta m key)
      exact ⟨hadded'.trans hadded, fun a ha => hremoved' a (hremoved a ha)⟩

theorem foldl_removeSta_inv (keys : List CString) (hm : MgrInv m) (h : Replaced base m) :
    MgrInv (keys.foldl removeSta m) ∧ Replaced base (keys.foldl removeSta m) := by
  induction keys generalizing m with
  | nil =>
      exact ⟨hm, h⟩
  | cons key keys ih =>
      exact ih (hm.removeSta key) (h.removeSta key)

/-- Among keys of which none begins another, the removal with an entry's key removes its station. -/
theorem mem_removed_of_mem (hm : MgrInv m) {keys : List CString} (hfree : PrefixFree m.map) {sta : Sta} {key : CString}
    (hentry : ⟨some sta, key⟩ ∈ m.map) (hne : key.1 ≠ []) (hkey : key ∈ keys) :
    sta.addr ∈ (keys.foldl removeSta m).removed := by
  induction keys generalizing m with
  | nil =>
      cases hkey
  | cons k keys ih =>
      show _ ∈ (keys.foldl removeSta (removeSta m k)).removed
      obtain ⟨heq, hnone⟩ | ⟨x, -, hget, heq⟩ := removeSta_cases hm k
      · have hk : k ≠ key := by
          rintro rfl
          obtain hnone | hnone := hnone
          · exact hne hnone
          · unfold hashMapGet at hnone
            have hsome : (m.map.find? (keyMatches k)).isSome := List.find?_isSome.mpr
              ⟨_, hentry, (keyMatches_iff _ _).mpr (List.prefix_refl _)⟩
            obtain ⟨e, he⟩ := Option.isSome_iff_exists.mp hsome
            obtain ⟨y, hy, -⟩ := hm.entry e (List.mem_of_find?_eq_some he)
            rw [he, Option.bind_some, hy] at hnone
            cases hnone
        rw [heq]
        exact ih hm hfree hentry ((List.mem_cons.mp hkey).resolve_left hk.symm)
      · obtain ⟨front, e, back, hmap, hdata, hpre, herase⟩ := hashMapGet_eq_some hget
        have he : e ∈ m.map := by simp [hmap]
        by_cases hx : x = sta
        · refine (foldl_removeSta_frame keys _).2 _ ?_
          rw [heq, hx]
          exact List.mem_cons_self
        · have hk : k ≠ key := by
            rintro rfl
            have := hfree _ hentry e he hpre
            rw [← this] at hdata
            exact hx (Option.some.inj hdata).symm
          have hleft : (⟨some sta, key⟩ : HashElem Sta) ∈ front ++ back := by
            rw [hmap, List.mem_append, List.mem_cons] at hentry
            rw [List.mem_append]
            obtain hf | hf | hf := hentry
            · exact .inl hf
            · rw [← hf] at hdata
              exact absurd (Option.some.inj hdata).symm hx
            · exact .inr hf
          have hsub : ∀ e ∈ front ++ back, e ∈ m.map := by
            intro e he
            rw [hmap]
            grind
          refine ih (hm.removeSta k) ?_ ?_ ((List.mem_cons.mp hkey).resolve_left hk.symm)
          · rw [heq]
            show PrefixFree (m.map.eraseP (keyMatches k))
            rw [herase]
            exact fun a ha b hb => hfree a (hsub a ha) b (hsub b hb)
          · rw [heq]
            show _ ∈ m.map.eraseP (keyMatches k)
            rwa [herase]

end Own

/-! ### The stop -/

section Stop

/-- The keys that the stop loop gives to `remove_sta`. -/
def State.stopKeys (σ : State) (queue : List ℕ) : List CString :=
  (queue.filter fun s => (σ.objs s).associated).map fun s => (σ.objs s).key

/-- **The stop loop**: it calls `remove_sta` for the associated steps, and deletes each step of the queue once. -/
theorem foldl_stepRemove (queue : List ℕ) (σ : State) (hnodup : queue.Nodup)
    (hlive : ∀ s ∈ queue, (σ.objs s).removed = false) :
    (queue.foldl State.stepRemove σ).mgr = (σ.stopKeys queue).foldl removeSta σ.mgr ∧
      (queue.foldl State.stepRemove σ).misuse = σ.misuse ∧
      (∀ s, s ∉ queue → (queue.foldl State.stepRemove σ).objs s = σ.objs s) ∧
      (queue.foldl State.stepRemove σ).base = σ.base ∧ (queue.foldl State.stepRemove σ).queue = σ.queue ∧
      (queue.foldl State.stepRemove σ).fresh = σ.fresh := by
  induction queue generalizing σ with
  | nil =>
      exact ⟨rfl, rfl, fun _ _ => rfl, rfl, rfl, rfl⟩
  | cons s queue ih =>
      obtain ⟨hs, hnodup⟩ := List.nodup_cons.mp hnodup
      have hother : ∀ r, r ≠ s → (σ.stepRemove s).objs r = σ.objs r := fun r hr => Function.update_of_ne hr _ _
      have hsame : ∀ r ∈ queue, (σ.stepRemove s).objs r = σ.objs r :=
        fun r hr => hother r fun heq => hs (heq ▸ hr)
      obtain ⟨hmgr, hmisuse, hobjs, hbase, hqueue, hfresh⟩ := ih (σ.stepRemove s) hnodup fun r hr => by
        rw [hsame r hr]
        exact hlive r (List.mem_cons_of_mem _ hr)
      refine ⟨?_, ?_, ?_, hbase, hqueue, hfresh⟩
      · have hkeys : (σ.stepRemove s).stopKeys queue = σ.stopKeys queue := by
          unfold State.stopKeys
          rw [List.filter_congr fun r hr => by rw [hsame r hr]]
          exact List.map_congr_left fun r hr => by rw [hsame r (List.mem_of_mem_filter hr)]
        rw [List.foldl_cons, hmgr, hkeys]
        show (σ.stopKeys queue).foldl removeSta (if (σ.objs s).associated then _ else _) = _
        unfold State.stopKeys
        cases hassoc : (σ.objs s).associated with
        | true =>
            rw [List.filter_cons_of_pos (p := fun s => (σ.objs s).associated) hassoc]
            rfl
        | false =>
            rw [List.filter_cons_of_neg (p := fun s => (σ.objs s).associated) (by simp [hassoc])]
            rfl
      · rw [List.foldl_cons, hmisuse]
        show (σ.misuse || (σ.objs s).removed) = _
        rw [hlive s List.mem_cons_self, Bool.or_false]
      · intro r hr
        obtain ⟨hrs, hr⟩ := List.ne_and_not_mem_of_not_mem_cons hr
        rw [List.foldl_cons, hobjs r hr, hother r hrs]

end Stop

/-! ### The invariant -/

section Invariant

variable {σ : State}

/-- The stations of the running test are newer than `base`, its steps are distinct and live, and an ended test
left none of its stations. -/
structure Inv (σ : State) : Prop where
  mgr : MgrInv σ.mgr
  replaced : Replaced σ.base σ.mgr
  base_le : σ.base ≤ σ.mgr.added.length
  ended : σ.running = false → ∀ sta ∈ σ.mgr.added, σ.base ≤ sta.addr → sta.addr ∈ σ.mgr.removed
  nodup : σ.queue.Nodup
  queued : ∀ s ∈ σ.queue, s < σ.fresh
  live : σ.running = true → ∀ s ∈ σ.queue, (σ.objs s).removed = false
  misuse : σ.misuse = false

theorem inv_start (devices : ℕ) : Inv (start devices) := by
  have hfree : ∀ d : ℕ, (List.replicate devices Status.free)[d]? ≠ some .inUse := by
    intro d hd
    have := List.eq_of_mem_replicate (List.mem_of_getElem? hd)
    cases this
  refine ⟨⟨?_, ?_, ?_, List.nodup_nil, ?_, ?_, fun d hd => absurd hd (hfree d), ?_, List.nodup_nil, ?_⟩, ?_,
    Nat.le_refl 0, ?_, List.nodup_nil, ?_, ?_, rfl⟩
  all_goals simp [start, Replaced, Mgr.Holds]

/-- A write to a live step of the queue. -/
theorem Inv.write (h : Inv σ) (hrun : σ.running = true) {s : ℕ} (hs : s ∈ σ.queue) {x : Step}
    (hx : x.removed = false) : Inv (σ.write s x) := by
  refine ⟨h.mgr, h.replaced, h.base_le, h.ended, h.nodup, h.queued, fun _ r hr => ?_, ?_⟩
  · by_cases hrs : r = s
    · rw [hrs]
      show (Function.update σ.objs s x s).removed = _
      rw [Function.update_self, hx]
    · show (Function.update σ.objs s x r).removed = _
      rw [Function.update_of_ne hrs]
      exact h.live hrun r hr
  · show (σ.misuse || (σ.objs s).removed) = false
    rw [h.misuse, h.live hrun s hs]
    rfl

theorem Inv.removeSta (h : Inv σ) (hrun : σ.running = true) (key : CString) :
    Inv { σ with mgr := removeSta σ.mgr key } := by
  obtain ⟨hadded, -⟩ := removeSta_frame σ.mgr key
  refine ⟨h.mgr.removeSta key, h.replaced.removeSta key, ?_, ?_, h.nodup, h.queued, h.live, h.misuse⟩
  · show _ ≤ (AgentStations.removeSta σ.mgr key).added.length
    rw [hadded]
    exact h.base_le
  · intro hended
    have hended : σ.running = false := hended
    rw [hrun] at hended
    cases hended

/-- The new station has a device that was free. -/
theorem addSta_cases (size : ℕ) (m : Mgr) (testId : BitVec 32) (key : CString) (ans : Answers) :
    (addSta size m testId key ans).1 = m ∨ ∃ d key' put, m.infos[d]? = some Status.free ∧
      (addSta size m testId key ans).1 = m.connect d key' put := by
  unfold addSta
  cases hdev : findFirstFreeDev m with
  | none =>
      exact .inl rfl
  | some d =>
      dsimp only
      split_ifs
      · exact .inr ⟨d, _, _, findFirstFreeDev_eq_some hdev, rfl⟩
      · exact .inl rfl

theorem Inv.execute (h : Inv σ) (hrun : σ.running = true) (size : ℕ) (testId : BitVec 32) (ans : Answers)
    (after : TestState) : Inv (σ.execute size testId ans after) := by
  have hfresh : σ.fresh ∉ σ.queue := fun hmem => Nat.lt_irrefl _ (h.queued _ hmem)
  have hmgr : MgrInv (addSta size σ.mgr testId noStep.key ans).1 ∧
      Replaced σ.base (addSta size σ.mgr testId noStep.key ans).1 ∧
      σ.base ≤ (addSta size σ.mgr testId noStep.key ans).1.added.length := by
    obtain heq | ⟨d, key, put, hfree, heq⟩ := addSta_cases size σ.mgr testId noStep.key ans
    · rw [heq]
      exact ⟨h.mgr, h.replaced, h.base_le⟩
    · rw [heq]
      exact ⟨h.mgr.connect hfree key put, h.replaced.connect h.mgr h.base_le hfree key put,
        Nat.le_succ_of_le h.base_le⟩
  refine ⟨hmgr.1, hmgr.2.1, hmgr.2.2, ?_, List.nodup_cons.mpr ⟨hfresh, h.nodup⟩, ?_, ?_, h.misuse⟩
  · intro hended
    have hended : σ.running = false := hended
    rw [hrun] at hended
    cases hended
  · intro s hs
    show s < σ.fresh + 1
    obtain rfl | hs := List.mem_cons.mp hs
    · exact Nat.lt_succ_self _
    · have := h.queued s hs
      omega
  · intro _ s hs
    show (Function.update σ.objs σ.fresh _ s).removed = false
    obtain rfl | hs := List.mem_cons.mp hs
    · rw [Function.update_self]
    · rw [Function.update_of_ne (ne_of_mem_of_not_mem hs hfresh)]
      exact h.live hrun s hs

/-- The stop removes the stations that associated steps hold. -/
theorem Inv.testStop (h : Inv σ) (hrun : σ.running = true) (hcond : Condition σ .stop) : Inv σ.testStop := by
  obtain ⟨hmgr, hmisuse, -, hbase, hqueue, hfresh⟩ := foldl_stepRemove σ.queue σ h.nodup (h.live hrun)
  obtain ⟨hadded, hgrows⟩ := foldl_removeSta_frame (σ.stopKeys σ.queue) σ.mgr
  obtain ⟨hinv, hreplaced⟩ := foldl_removeSta_inv (σ.stopKeys σ.queue) h.mgr h.replaced
  rw [← hmgr] at hadded hgrows hinv hreplaced
  refine ⟨hinv, ?_, ?_, ?_, ?_, ?_, (by rintro ⟨⟩), hmisuse.trans h.misuse⟩
  · show Replaced (σ.queue.foldl State.stepRemove σ).base _
    rwa [hbase]
  · show (σ.queue.foldl State.stepRemove σ).base ≤ (σ.queue.foldl State.stepRemove σ).mgr.added.length
    rw [hbase, hadded]
    exact h.base_le
  · intro _ sta hsta hown
    have hsta : sta ∈ σ.mgr.added := hadded ▸ hsta
    have hown : σ.base ≤ sta.addr := hbase ▸ hown
    show sta.addr ∈ (σ.queue.foldl State.stepRemove σ).mgr.removed
    obtain hrem | ⟨s, hs, hassoc, hne, hentry⟩ := hcond.2 sta hsta hown
    · exact hgrows _ hrem
    · rw [hmgr]
      refine mem_removed_of_mem h.mgr hcond.1 hentry hne ?_
      exact List.mem_map.mpr ⟨s, List.mem_filter.mpr ⟨hs, hassoc⟩, rfl⟩
  · show (σ.queue.foldl State.stepRemove σ).queue.Nodup
    rw [hqueue]
    exact h.nodup
  · show ∀ s ∈ (σ.queue.foldl State.stepRemove σ).queue, s < (σ.queue.foldl State.stepRemove σ).fresh
    rw [hqueue, hfresh]
    exact h.queued

theorem Inv.next (h : Inv σ) {size : ℕ} {ev : Event} {τ : State} (hcond : Condition σ ev)
    (hnext : AgentStations.next size σ ev = some τ) : Inv τ := by
  cases ev <;> simp only [AgentStations.next] at hnext
  case startTest =>
    split_ifs at hnext with hrun
    cases hnext
    refine ⟨h.mgr, ?_, Nat.le_refl _, (by rintro ⟨⟩), List.nodup_nil, ?_, ?_, h.misuse⟩
    · intro sta hsta hown
      exact absurd hown (Nat.not_le_of_lt (h.mgr.addr_lt sta hsta))
    · simp
    · simp
  case data testId ans after =>
    split_ifs at hnext with hrun
    cases hnext
    exact h.execute hrun size testId ans after
  case associate s =>
    split_ifs at hnext with hw
    cases hnext
    exact h.write hw.1 hw.2.1 (h.live hw.1 s hw.2.1)
  case deauth s =>
    split_ifs at hnext with hw
    cases hnext
    have hlive := h.live hw.1 s hw.2.1
    unfold State.deauth
    split_ifs
    · exact (h.write (x := { σ.objs s with associated := false }) hw.1 hw.2.1 hlive).removeSta hw.1 _
    · exact h.write hw.1 hw.2.1 hlive
  case setState s state =>
    split_ifs at hnext with hw
    cases hnext
    exact h.write hw.1 hw.2.1 (h.live hw.1 s hw.2.1)
  case abort s =>
    split_ifs at hnext with hg
    cases hnext
    have hw := h.write hg.1 hg.2.1 (h.live hg.1 s hg.2.1)
    exact ⟨hw.mgr, hw.replaced, hw.base_le, fun _ => hcond, hw.nodup, hw.queued, (by rintro ⟨⟩), hw.misuse⟩
  case stop =>
    split_ifs at hnext with hrun
    cases hnext
    exact h.testStop hrun hcond

theorem Inv.released (h : Inv σ) (hended : σ.running = false) : Released σ := by
  intro sta hsta hown
  have hall := h.ended hended
  exact ⟨List.count_eq_one_of_mem h.mgr.removed_nodup (hall sta hsta hown),
    free_of_removed h.mgr h.replaced hall hsta hown⟩

end Invariant

/-! ### Runs -/

section Runs

/-- **Stations and steps of ended tests**: in every run whose tests end as the condition says, each station that
an ended test added was removed once and its device is free, and no step was used after its removal. -/
theorem stations_released {size devices : ℕ} {σ : State} (h : Run (next size) Condition (start devices) σ) :
    (σ.running = false → Released σ) ∧ σ.misuse = false := by
  have hinv := run_invariant (I := Inv) (fun _ _ _ hI hcond hnext => hI.next hcond hnext) h (inv_start devices)
  exact ⟨hinv.released, hinv.misuse⟩

/-- All calls of `add_sta` succeed. -/
def allOk : Answers :=
  ⟨true, true, true, true, true⟩

/-- A station that was associated when the stop message came. -/
theorem stations_released_stopped : ∃ σ, Run (next 18) Condition (start 1) σ ∧ σ.mgr.removed = [0] ∧
    Released σ ∧ σ.misuse = false := by
  have h₁ : Run (next 18) Condition (start 1) _ := Run.single (a := Event.startTest) trivial rfl
  have h₂ := h₁.step (a := Event.data 1 allOk .cont) trivial rfl
  have h₃ := h₂.step (a := Event.associate 0) trivial rfl
  have h₄ := h₃.step (a := Event.stop) ⟨?_, ?_⟩ rfl
  · exact ⟨_, h₄, by decide, (stations_released h₄).1 rfl, (stations_released h₄).2⟩
  · intro e he e' he' _
    rw [List.mem_singleton.mp he, List.mem_singleton.mp he']
  · intro sta hsta _
    rw [List.mem_singleton.mp hsta]
    exact .inr ⟨0, by decide, by decide, by decide, List.mem_singleton.mpr rfl⟩

/-- The second station cannot be added. -/
def abortRun : List Event :=
  [.startTest, .data 1 allOk .cont, .data 2 allOk .cont, .abort 1]

/-- The stop comes before the station associates. -/
def stopRun : List Event :=
  [.startTest, .data 1 allOk .cont, .stop]

/-- A test in abort keeps its stations, and a stop keeps the stations that are not associated. -/
theorem not_stations_released :
    (∃ σ, Run (next 18) (fun _ _ => True) (start 1) σ ∧ σ.running = false ∧ ¬ Released σ) ∧
      ∃ σ, Run (next 18) (fun _ _ => True) (start 1) σ ∧ σ.running = false ∧ ¬ Released σ := by
  constructor
  · refine ⟨_, run_of_execTo (show execTo (next 18) (start 1) abortRun = some _ from rfl), rfl, fun h => ?_⟩
    have := (h ⟨0, 0⟩ (by decide) (by decide)).1
    exact absurd this (by decide)
  · refine ⟨_, run_of_execTo (show execTo (next 18) (start 1) stopRun = some _ from rfl), rfl, fun h => ?_⟩
    have := (h ⟨0, 0⟩ (by decide) (by decide)).1
    exact absurd this (by decide)

end Runs

end OneWifiTestSuite.AgentStations
