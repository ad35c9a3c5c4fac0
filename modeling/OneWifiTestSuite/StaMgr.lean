import OneWifiTestSuite.StaKey

/-!
# The simulated station manager

`m_sta_info_map` is the pool of devices, in queue order, and `m_sta_map` the map of connected
stations, as the list of its entries (newest first) that the `HashMap` module shows it to be.
`add_sta` first takes and prepares a device for every client and then connects the clients one by
one; every answer it gets from an allocation or a HAL call is part of the request. Calls that the
code makes to the HAL are logged.

`PoolOk` is the invariant: a device is in use if and only if exactly one entry holds a station
with its id, and no entry belongs to a free device. It breaks when `add_sta` gives up after
`set_dev_busy`, or goes on to the next client after a failed connect: no path frees the device.
`pool_ok_of_run` proves it for the runs in which no `add_sta` does either.
-/

namespace OneWifiTestSuite.StaMgr

open Runs HashMap StaKey

inductive Status
  | free
  | inUse
deriving DecidableEq, Repr

/-- `sta_info_t`: a device of the pool, with the names its HAL calls use. -/
structure StaInfo where
  status : Status
  index : ℕ
  interfaceName : String
  bridgeName : String
deriving DecidableEq, Repr

/-- `wlan_emu_sta_t`: a station object at its address, with the `m_sta` copy of the vap. -/
structure Sta where
  addr : ℕ
  devId : ℕ
  testId : BitVec 32
  vapIndex : ℕ
  bridgeName : String
deriving DecidableEq, Repr

/-- Calls that reach the HAL, the bridge, a station object (by its address) or the network. -/
inductive HalCall
  | addToBridge (interfaceName bridgeName : String)
  | removeFromBridge (interfaceName bridgeName : String)
  | connect (vapIndex : ℕ)
  | disconnect (vapIndex : ℕ)
  | smDeinit (vapIndex : ℕ)
  | heartBeat (addr : ℕ)
  | macUpdate (addr : ℕ)
  | rawPacket (interfaceName : String)
deriving DecidableEq, Repr

/-- The manager: `m_sta_info_map`, `m_sta_map`, the next address `new` returns, and the log. -/
structure Mgr where
  infos : List StaInfo
  map : List (HashElem Sta)
  nextAddr : ℕ
  calls : List HalCall

/-- What `add_sta` reads of `sta_test_t`. -/
structure StaTest where
  testId : BitVec 32
  clientCount : ℕ
  knownModel : Bool
  bridgeName : String
  prototypeEnabled : Bool
  clientInfoQ : Bool
deriving DecidableEq, Repr

/-- The answers in the first phase for one client: the two allocations, the two HAL calls and the
prototype configuration. -/
structure PrepAnswers where
  mallocMap : Bool
  newHeartBeat : Bool
  setRadioOperatingParameters : Bool
  createVAP : Bool
  configureProtoTypes : Bool
deriving DecidableEq, Repr

/-- The answers in the second phase for one client: the connect, the allocation of the client
information and `hash_map_put`. -/
structure ConnectAnswers where
  connect : Bool
  mallocClientInfo : Bool
  hashMapPut : Bool
deriving DecidableEq, Repr

/-- `sta_prep_ctx_t`. -/
structure PrepCtx where
  devId : ℕ
  vapIndex : ℕ
  key : CString
  sta : Sta

/-- `find_first_free_dev`. -/
def findFirstFreeDev (m : Mgr) : Option ℕ :=
  m.infos.findIdx? fun info => info.status = .free

/-- `set_dev_busy` and `set_dev_free`, at an index of the pool. -/
def setStatus (m : Mgr) (devId : ℕ) (status : Status) : Mgr :=
  { m with infos := m.infos.modify devId fun info => { info with status := status } }

def setDevBusy (m : Mgr) (devId : ℕ) : Mgr :=
  setStatus m devId .inUse

def setDevFree (m : Mgr) (devId : ℕ) : Mgr :=
  setStatus m devId .free

/-- A call to the HAL. -/
def log (m : Mgr) (cs : List HalCall) : Mgr :=
  { m with calls := m.calls ++ cs }

section AddSta

variable (size : ℕ) (cfg : StaTest)

/-- The first phase: a prepared context for each of the `n` clients still to come. The result is
`none` when an assertion fails, and the inner `none` is an early return with an error. -/
def prepare (prep : ℕ → PrepAnswers) : ℕ → Mgr → List PrepCtx → Option (Mgr × Option (List PrepCtx))
  | 0, m, ctxs => some (m, some ctxs)
  | n + 1, m, ctxs =>
      match findFirstFreeDev m with
      | none => some (m, none)
      | some devId =>
          match m.infos[devId]? with
          | none => some (setDevBusy m devId, none)
          | some info =>
              let i := ctxs.length
              let sta := Sta.mk m.nextAddr devId cfg.testId info.index cfg.bridgeName
              let m := log (setDevBusy m devId) [.addToBridge info.interfaceName cfg.bridgeName]
              -- the `default` case of the switch over the model is `assert(0)`
              if cfg.knownModel = false then none
              else
                let m := { m with nextAddr := m.nextAddr + 1 }
                if (prep i).mallocMap = false then some (m, none)
                else if (prep i).newHeartBeat = false then some (m, none)
                else
                  let m := log m [.heartBeat sta.addr]
                  if (prep i).setRadioOperatingParameters = false then some (m, none)
                  else if (prep i).createVAP = false then some (m, none)
                  else
                    let m := log m [.macUpdate sta.addr]
                    if cfg.prototypeEnabled = true ∧ (prep i).configureProtoTypes = false then
                      some (m, none)
                    else
                      prepare prep n m
                        (ctxs ++ [⟨devId, info.index, createKey size devId cfg.testId, sta⟩])

/-- The second phase: the return code and the keys of the clients reported as connected. -/
def connectAll (conn : ℕ → ConnectAnswers) : List PrepCtx → ℕ → Mgr → List CString → Mgr × ℤ × List CString
  | [], _, m, keys => (m, 0, keys)
  | ctx :: ctxs, i, m, keys =>
      let m := log m [.connect ctx.vapIndex]
      if (conn i).connect = false then connectAll conn ctxs (i + 1) m keys
      else if cfg.clientInfoQ = false then (m, -1, keys)
      else if (conn i).mallocClientInfo = false then (m, -1, keys)
      else
        -- the result of `hash_map_put` is ignored
        let map := if (conn i).hashMapPut then ⟨some ctx.sta, ctx.key⟩ :: m.map else m.map
        connectAll conn ctxs (i + 1) { m with map := map } (keys ++ [ctx.key])

/-- `add_sta`. -/
def addSta (prep : ℕ → PrepAnswers) (conn : ℕ → ConnectAnswers) (m : Mgr) :
    Option (Mgr × ℤ × List CString) :=
  match prepare size cfg prep cfg.clientCount m [] with
  | none => none
  | some (m, none) => some (m, -1, [])
  | some (m, some ctxs) => some (connectAll cfg conn ctxs 0 m [])

end AddSta

/-- `hash_map_get` on the list of entries. -/
def hashMapGet (map : List (HashElem Sta)) (key : CString) : Option Sta :=
  (map.find? (keyMatches key)).bind HashElem.data

/-- `hash_map_remove` on the list of entries. -/
def hashMapRemove (map : List (HashElem Sta)) (key : CString) : List (HashElem Sta) :=
  map.eraseP (keyMatches key)

/-- `hash_map_get_first`. -/
def hashMapGetFirst (map : List (HashElem Sta)) : Option Sta :=
  map.head?.bind HashElem.data

/-- `hash_map_get_next`: the entry after the one that holds the given pointer. -/
def hashMapGetNext : List (HashElem Sta) → Sta → Option Sta
  | [], _ => none
  | e :: map, sta =>
      if e.data.map Sta.addr = some sta.addr then hashMapGetFirst map else hashMapGetNext map sta

/-- `remove_sta`, with a request that is not null. -/
def removeSta (key : CString) (m : Mgr) : Mgr :=
  if key.1 = [] then m
  else
    match hashMapGet m.map key with
    | none => m
    | some sta =>
        match m.infos[sta.devId]? with
        | none => m
        | some info =>
            let m := log m [.disconnect info.index, .removeFromBridge info.interfaceName info.bridgeName]
            let m := setDevFree m sta.devId
            { m with map := hashMapRemove m.map key }

/-- One turn of the loop of `remove_all_sta` on the entry of `tmp`; the device whose names it uses
is that of the next station, so the result is `none` (a null dereference) when there is none. -/
def removeAllTurn (size : ℕ) (testId : BitVec 32) (m : Mgr) (tmp : Sta) (next : Option Sta) :
    Option (Mgr × Bool) :=
  if tmp.testId = testId then
    match next with
    | none => none
    | some sta =>
        match m.infos[sta.devId]? with
        | none => some (m, false)
        | some info =>
            let m := log m [.disconnect tmp.vapIndex, .removeFromBridge info.interfaceName tmp.bridgeName]
            let m := setDevFree m tmp.devId
            some ({ m with map := hashMapRemove m.map (createKey size tmp.devId testId) }, true)
  else some (m, true)

/-- The loop of `remove_all_sta`, with fuel; the flag of a turn says whether it goes on. -/
def removeAllLoop (size : ℕ) (testId : BitVec 32) : ℕ → Mgr → Option Sta → Option Mgr
  | _, m, none => some m
  | 0, _, some _ => none
  | fuel + 1, m, some tmp =>
      let next := hashMapGetNext m.map tmp
      match removeAllTurn size testId m tmp next with
      | none => none
      | some (m, false) => some m
      | some (m, true) => removeAllLoop size testId fuel m next

/-- `remove_all_sta`; each turn moves on in the map, so its length is fuel enough. -/
def removeAllSta (size : ℕ) (testId : BitVec 32) (m : Mgr) : Option Mgr :=
  removeAllLoop size testId m.map.length m (hashMapGetFirst m.map)

/-- `disconnect_sta`, with the answer of the HAL. -/
def disconnectSta (bridgeName : String) (key : CString) (uninit : ℕ) (halDisconnect : Bool) (m : Mgr) :
    Mgr × ℤ :=
  if key.1 = [] then (m, -1)
  else
    match hashMapGet m.map key with
    | none => (m, -1)
    | some _ =>
        match m.infos[getDevIdFromKey key uninit]? with
        | none => (m, -1)
        | some info =>
            let m := log m [.disconnect info.index]
            if halDisconnect = false then (m, -1)
            else (log m [.removeFromBridge info.interfaceName bridgeName], 0)

/-- The answers `reconnect_sta` gets. -/
structure ReconnectAnswers where
  smDeinit : Bool
  mallocMap : Bool
  configureProtoTypes : Bool
  connect : Bool
deriving DecidableEq, Repr

/-- `reconnect_sta`. -/
def reconnectSta (cfg : StaTest) (key : CString) (uninit : ℕ) (ans : ReconnectAnswers) (m : Mgr) :
    Mgr × ℤ :=
  if key.1 = [] then (m, -1)
  else
    match hashMapGet m.map key with
    | none => (m, -1)
    | some sta =>
        match m.infos[getDevIdFromKey key uninit]? with
        | none => (m, -1)
        | some info =>
            let m := log m [.smDeinit info.index]
            if ans.smDeinit = false then (m, -1)
            else
              let m := log m [.addToBridge info.interfaceName cfg.bridgeName]
              if ans.mallocMap = false then (m, -1)
              else
                let m := log m [.macUpdate sta.addr]
                if cfg.prototypeEnabled = true ∧ ans.configureProtoTypes = false then (m, -1)
                else
                  let m := log m [.connect info.index]
                  if ans.connect = false then (m, -1) else (m, 0)

/-- `send_heart_beat`. -/
def sendHeartBeat (key : CString) (uninit : ℕ) (m : Mgr) : Mgr :=
  match m.infos[getDevIdFromKey key uninit]? with
  | none => m
  | some info =>
      match hashMapGet m.map key with
      | none => m
      | some sta => log m [.heartBeat sta.addr, .rawPacket info.interfaceName]

/-- The requests to the manager, with the answers of everything they call. -/
inductive Op
  | addSta (cfg : StaTest) (prep : ℕ → PrepAnswers) (conn : ℕ → ConnectAnswers)
  | removeSta (key : CString)
  | removeAllSta (testId : BitVec 32)
  | disconnectSta (bridgeName : String) (key : CString) (uninit : ℕ) (halDisconnect : Bool)
  | reconnectSta (cfg : StaTest) (key : CString) (uninit : ℕ) (ans : ReconnectAnswers)
  | sendHeartBeat (key : CString) (uninit : ℕ)

/-- The state after a request; `none` is a crash. -/
def step (size : ℕ) (m : Mgr) : Op → Option Mgr
  | .addSta cfg prep conn => (addSta size cfg prep conn m).map Prod.fst
  | .removeSta key => some (removeSta key m)
  | .removeAllSta testId => removeAllSta size testId m
  | .disconnectSta bridgeName key uninit halDisconnect =>
      some (disconnectSta bridgeName key uninit halDisconnect m).1
  | .reconnectSta cfg key uninit ans => some (reconnectSta cfg key uninit ans m).1
  | .sendHeartBeat key uninit => some (sendHeartBeat key uninit m)

/-- `init`, for devices read off the interface map: all of them are free. -/
def init (infos : List StaInfo) : Mgr :=
  ⟨infos.map fun info => { info with status := .free }, [], 0, []⟩

/-! ### The invariant of the pool -/

/-- The number of entries that hold a station with a device id. -/
def entriesOn (m : Mgr) (devId : ℕ) : ℕ :=
  m.map.countP fun e => e.data.map Sta.devId = some devId

/-- A device is in use if and only if exactly one entry has its id, and no entry has the id of a
free device. -/
def PoolOk (m : Mgr) : Prop :=
  ∀ devId info, m.infos[devId]? = some info →
    (info.status = .inUse ↔ entriesOn m devId = 1) ∧ (info.status = .free → entriesOn m devId = 0)

/-- The stations of the map. -/
def stas (map : List (HashElem Sta)) : List Sta :=
  map.filterMap HashElem.data

/-- The invariant, with the stations that `add_sta` has prepared and not yet put into the map:
every device in use has exactly one station, in the map or prepared. -/
structure Inv (size : ℕ) (m : Mgr) (held : List Sta) : Prop where
  owned : ∀ devId info, m.infos[devId]? = some info →
    (stas m.map ++ held).countP (fun sta => sta.devId = devId) = if info.status = .inUse then 1 else 0
  inPool : ∀ sta ∈ stas m.map ++ held, sta.devId < m.infos.length
  addrs : ((stas m.map ++ held).map Sta.addr).Nodup
  allocated : ∀ sta ∈ stas m.map ++ held, sta.addr < m.nextAddr
  entries : ∀ e ∈ m.map, ∃ sta, e.data = some sta ∧ e.key = createKey size sta.devId sta.testId

section Invariant

variable {size : ℕ} {m : Mgr} {held : List Sta}

theorem stas_countP (map : List (HashElem Sta)) (devId : ℕ) :
    (stas map).countP (fun sta => sta.devId = devId) =
      map.countP fun e => e.data.map Sta.devId = some devId := by
  induction map with
  | nil =>
      rfl
  | cons e map ih =>
      unfold stas at ih ⊢
      cases hd : e.data with
      | none =>
          rw [List.filterMap_cons_none hd, List.countP_cons, ih]
          simp [hd]
      | some sta =>
          rw [List.filterMap_cons_some hd, List.countP_cons, List.countP_cons, ih]
          simp [hd]

theorem stas_append (map map' : List (HashElem Sta)) : stas (map ++ map') = stas map ++ stas map' :=
  List.filterMap_append

theorem Inv.poolOk (h : Inv size m []) : PoolOk m := by
  intro devId info hinfo
  have howned := h.owned devId info hinfo
  rw [List.append_nil, stas_countP] at howned
  change entriesOn m devId = _ at howned
  cases hs : info.status with
  | free =>
      simp [howned, hs]
  | inUse =>
      simp [howned, hs]

theorem Inv.log (h : Inv size m held) (cs : List HalCall) : Inv size (log m cs) held :=
  ⟨h.owned, h.inPool, h.addrs, h.allocated, h.entries⟩

/-- The invariant only depends on which stations there are. -/
theorem Inv.of_perm {m' : Mgr} {held' : List Sta} (h : Inv size m held) (hinfos : m'.infos = m.infos)
    (hnext : m'.nextAddr = m.nextAddr) (hperm : (stas m'.map ++ held').Perm (stas m.map ++ held))
    (hentries : ∀ e ∈ m'.map, ∃ sta, e.data = some sta ∧ e.key = createKey size sta.devId sta.testId) :
    Inv size m' held' := by
  refine ⟨?_, ?_, ?_, ?_, hentries⟩
  · intro devId info hinfo
    rw [hperm.countP_eq]
    exact h.owned devId info (hinfos ▸ hinfo)
  · intro sta hsta
    rw [hinfos]
    exact h.inPool sta (hperm.mem_iff.mp hsta)
  · exact (hperm.map Sta.addr).nodup_iff.mpr h.addrs
  · intro sta hsta
    rw [hnext]
    exact h.allocated sta (hperm.mem_iff.mp hsta)

theorem setStatus_getElem? (m : Mgr) (devId d : ℕ) (status : Status) :
    (setStatus m devId status).infos[d]? =
      m.infos[d]?.map fun info => if devId = d then { info with status := status } else info := by
  unfold setStatus
  rw [List.getElem?_modify]
  rfl

@[simp]
theorem setStatus_length (m : Mgr) (devId : ℕ) (status : Status) :
    (setStatus m devId status).infos.length = m.infos.length := by
  simp [setStatus]

/-- Taking a free device for a new station. -/
theorem Inv.take (h : Inv size m held) {sta : Sta} {info : StaInfo}
    (hinfo : m.infos[sta.devId]? = some info) (hfree : info.status = .free)
    (haddr : sta.addr = m.nextAddr) :
    Inv size { setDevBusy m sta.devId with nextAddr := m.nextAddr + 1 } (held ++ [sta]) := by
  have hold : ∀ {d : ℕ} {i : StaInfo}, m.infos[d]? = some i →
      (stas m.map ++ held).countP (fun s => s.devId = d) = if i.status = .inUse then 1 else 0 :=
    fun hi => h.owned _ _ hi
  refine ⟨?_, ?_, ?_, ?_, h.entries⟩
  · intro d i hi
    change (setStatus m sta.devId .inUse).infos[d]? = some i at hi
    rw [setStatus_getElem?] at hi
    obtain ⟨i₀, hi₀, rfl⟩ := Option.map_eq_some_iff.mp hi
    change (stas m.map ++ (held ++ [sta])).countP _ = _
    rw [← List.append_assoc, List.countP_append, hold hi₀, List.countP_singleton]
    by_cases hd : sta.devId = d
    · subst hd
      rw [hinfo] at hi₀
      cases hi₀
      simp [hfree]
    · simp [hd]
  · intro s hs
    have hlen : (setDevBusy m sta.devId).infos.length = m.infos.length := setStatus_length _ _ _
    change s.devId < (setDevBusy m sta.devId).infos.length
    rw [hlen]
    change s ∈ stas m.map ++ (held ++ [sta]) at hs
    rw [← List.append_assoc, List.mem_append, List.mem_singleton] at hs
    rcases hs with hs | rfl
    · exact h.inPool s hs
    · exact (List.getElem?_eq_some_iff.mp hinfo).1
  · change ((stas m.map ++ (held ++ [sta])).map Sta.addr).Nodup
    rw [← List.append_assoc, List.map_append, List.nodup_append]
    refine ⟨h.addrs, by simp, ?_⟩
    intro a ha b hb
    obtain ⟨s, hs, rfl⟩ := List.mem_map.mp ha
    have := h.allocated s hs
    simp only [List.map_cons, List.map_nil, List.mem_singleton] at hb
    omega
  · intro s hs
    change s ∈ stas m.map ++ (held ++ [sta]) at hs
    change s.addr < m.nextAddr + 1
    rw [← List.append_assoc, List.mem_append, List.mem_singleton] at hs
    rcases hs with hs | rfl
    · have := h.allocated s hs
      omega
    · omega

/-- Putting a prepared station into the map. -/
theorem Inv.put {sta : Sta} {key : CString} (h : Inv size m (sta :: held))
    (hkey : key = createKey size sta.devId sta.testId) :
    Inv size { m with map := ⟨some sta, key⟩ :: m.map } held := by
  refine h.of_perm rfl rfl ?_ ?_
  · change (sta :: (stas m.map ++ held)).Perm (stas m.map ++ sta :: held)
    exact List.perm_middle.symm
  · intro e he
    rcases List.mem_cons.mp he with rfl | he
    · exact ⟨sta, rfl, hkey⟩
    · exact h.entries e he

/-- Taking an entry out of the map and freeing its device. -/
theorem Inv.release (h : Inv size m held) {pre post : List (HashElem Sta)} {e : HashElem Sta} {sta : Sta}
    (hmap : m.map = pre ++ e :: post) (hsta : e.data = some sta) :
    Inv size { setDevFree m sta.devId with map := pre ++ post } held := by
  have hperm : (stas m.map ++ held).Perm (sta :: (stas (pre ++ post) ++ held)) := by
    rw [hmap, stas_append, stas_append, stas, stas, List.filterMap_cons_some hsta]
    exact (List.perm_middle.append_right held)
  have hmem : ∀ s ∈ stas (pre ++ post) ++ held, s ∈ stas m.map ++ held :=
    fun s hs => hperm.mem_iff.mpr (List.mem_cons_of_mem _ hs)
  refine ⟨?_, ?_, ?_, ?_, ?_⟩
  · intro d i hi
    change (setStatus m sta.devId .free).infos[d]? = some i at hi
    rw [setStatus_getElem?] at hi
    obtain ⟨i₀, hi₀, rfl⟩ := Option.map_eq_some_iff.mp hi
    have howned := h.owned d i₀ hi₀
    rw [hperm.countP_eq, List.countP_cons] at howned
    change (stas (pre ++ post) ++ held).countP _ = _
    by_cases hd : sta.devId = d
    · have hle : (if i₀.status = .inUse then 1 else 0) ≤ 1 := by
        split_ifs <;> omega
      have hzero : (stas (pre ++ post) ++ held).countP (fun s => s.devId = d) = 0 := by
        simp only [hd, decide_true, if_true] at howned
        omega
      rw [hzero]
      simp [hd]
    · simpa [hd] using howned
  · intro s hs
    change s.devId < (setStatus m sta.devId .free).infos.length
    rw [setStatus_length]
    exact h.inPool s (hmem s hs)
  · have haddrs := h.addrs
    rw [(hperm.map Sta.addr).nodup_iff, List.map_cons, List.nodup_cons] at haddrs
    exact haddrs.2
  · intro s hs
    exact h.allocated s (hmem s hs)
  · intro e' he'
    refine h.entries e' ?_
    rw [hmap, List.mem_append, List.mem_cons]
    rcases List.mem_append.mp he' with he' | he'
    · exact Or.inl he'
    · exact Or.inr (Or.inr he')

theorem Inv.perm {held' : List Sta} (h : Inv size m held) (hp : held'.Perm held) : Inv size m held' :=
  h.of_perm rfl rfl (hp.append_left _) h.entries

end Invariant

/-! ### What keeps the invariant -/

section AddStaLemmas

variable {size : ℕ} {cfg : StaTest} {prep : ℕ → PrepAnswers} {conn : ℕ → ConnectAnswers}

/-- The number of free devices. -/
def freeCount (m : Mgr) : ℕ :=
  m.infos.countP fun info => info.status = .free

/-- Every call of the first phase for a client succeeds. -/
def PrepAnswers.Ok (cfg : StaTest) (ans : PrepAnswers) : Prop :=
  ans.mallocMap = true ∧ ans.newHeartBeat = true ∧ ans.setRadioOperatingParameters = true ∧
    ans.createVAP = true ∧ (cfg.prototypeEnabled = true → ans.configureProtoTypes = true)

/-- Every call of the second phase for a client succeeds. -/
def ConnectAnswers.Ok (cfg : StaTest) (ans : ConnectAnswers) : Prop :=
  ans.connect = true ∧ cfg.clientInfoQ = true ∧ ans.mallocClientInfo = true ∧ ans.hashMapPut = true

theorem findFirstFreeDev_spec {m : Mgr} {devId : ℕ} (h : findFirstFreeDev m = some devId) :
    ∃ info, m.infos[devId]? = some info ∧ info.status = .free := by
  unfold findFirstFreeDev at h
  rw [List.findIdx?_eq_some_iff_getElem] at h
  obtain ⟨hlt, hfree, -⟩ := h
  exact ⟨m.infos[devId], List.getElem?_eq_getElem hlt, by simpa using hfree⟩

theorem findFirstFreeDev_eq_none_iff (m : Mgr) : findFirstFreeDev m = none ↔ freeCount m = 0 := by
  unfold findFirstFreeDev freeCount
  rw [List.findIdx?_eq_none_iff, List.countP_eq_zero]
  simp

/-- A free device is found, with what the pool says of it. -/
theorem exists_free {m : Mgr} (h : freeCount m ≠ 0) : ∃ devId info, findFirstFreeDev m = some devId ∧
    m.infos[devId]? = some info ∧ info.status = .free := by
  rw [Ne, ← findFirstFreeDev_eq_none_iff, ← Ne, Option.ne_none_iff_exists'] at h
  obtain ⟨devId, hfind⟩ := h
  obtain ⟨info, hinfo, hfree⟩ := findFirstFreeDev_spec hfind
  exact ⟨devId, info, hfind, hinfo, hfree⟩

theorem freeCount_setDevBusy {m : Mgr} {devId : ℕ} {info : StaInfo} (h : m.infos[devId]? = some info)
    (hfree : info.status = .free) : freeCount (setDevBusy m devId) + 1 = freeCount m := by
  obtain ⟨hlt, hget⟩ := List.getElem?_eq_some_iff.mp h
  obtain ⟨l₁, a, l₂, hl, hlen, hmod⟩ := List.exists_of_modify
    (fun info : StaInfo => { info with status := Status.inUse }) hlt
  obtain rfl : a = info := by
    rw [← hget]
    simp [hl, ← hlen]
  unfold freeCount setDevBusy setStatus
  simp only [hmod]
  rw [hl]
  simp [hfree]
  omega

/-- The contexts carry the keys of their own devices. -/
def CtxsOk (size : ℕ) (ctxs : List PrepCtx) : Prop :=
  ∀ ctx ∈ ctxs, ctx.key = createKey size ctx.sta.devId ctx.sta.testId

theorem ctxsOk_nil : CtxsOk size [] := by
  intro ctx hctx
  cases hctx

theorem log_log (m : Mgr) (cs cs' : List HalCall) : log (log m cs) cs' = log m (cs ++ cs') := by
  simp [log]

theorem log_set (m : Mgr) (n : ℕ) (cs : List HalCall) :
    log { m with nextAddr := n } cs = { log m cs with nextAddr := n } := rfl

/-- The manager once a device has been taken and prepared for a station. -/
def taken (cfg : StaTest) (m : Mgr) (devId : ℕ) (info : StaInfo) : Mgr :=
  log (log { log (setDevBusy m devId) [.addToBridge info.interfaceName cfg.bridgeName] with
    nextAddr := m.nextAddr + 1 } [.heartBeat m.nextAddr]) [.macUpdate m.nextAddr]

/-- The context of that station. -/
def takenCtx (size : ℕ) (cfg : StaTest) (m : Mgr) (devId : ℕ) (info : StaInfo) : PrepCtx :=
  ⟨devId, info.index, createKey size devId cfg.testId,
    ⟨m.nextAddr, devId, cfg.testId, info.index, cfg.bridgeName⟩⟩

/-- With no failing call a turn of the first phase adds a context for a device that was free. -/
theorem prepare_succ {n : ℕ} {m : Mgr} {ctxs : List PrepCtx} {devId : ℕ} {info : StaInfo}
    (hfind : findFirstFreeDev m = some devId) (hinfo : m.infos[devId]? = some info)
    (hmodel : cfg.knownModel = true) (hok : (prep ctxs.length).Ok cfg) :
    prepare size cfg prep (n + 1) m ctxs =
      prepare size cfg prep n (taken cfg m devId info) (ctxs ++ [takenCtx size cfg m devId info]) := by
  obtain ⟨h₁, h₂, h₃, h₄, h₅⟩ := hok
  have h₅' : ¬(cfg.prototypeEnabled = true ∧ (prep ctxs.length).configureProtoTypes = false) := by
    rintro ⟨hp, hf⟩
    rw [h₅ hp] at hf
    cases hf
  simp only [prepare, hfind, hinfo, hmodel, h₁, h₂, h₃, h₄, h₅', if_false, reduceCtorEq]
  rfl

/-- What one turn does whatever it is answered: it fails an assertion, it stops with the device
taken for a station, or it goes on. -/
theorem prepare_turn (prep : ℕ → PrepAnswers) (n : ℕ) {m : Mgr} (ctxs : List PrepCtx) {devId : ℕ}
    {info : StaInfo} (hfind : findFirstFreeDev m = some devId) (hinfo : m.infos[devId]? = some info) :
    prepare size cfg prep (n + 1) m ctxs = none ∨
      (∃ cs, prepare size cfg prep (n + 1) m ctxs =
        some ({ log (setDevBusy m devId) cs with nextAddr := m.nextAddr + 1 }, none)) ∨
      prepare size cfg prep (n + 1) m ctxs =
        prepare size cfg prep n (taken cfg m devId info) (ctxs ++ [takenCtx size cfg m devId info]) := by
  simp only [prepare, hfind, hinfo]
  split_ifs
  · exact .inl rfl
  · exact .inr (.inl ⟨_, rfl⟩)
  · exact .inr (.inl ⟨_, rfl⟩)
  · exact .inr (.inl ⟨[_, _], by rw [log_set, log_log]; rfl⟩)
  · exact .inr (.inl ⟨[_, _], by rw [log_set, log_log]; rfl⟩)
  · exact .inr (.inl ⟨[_, _, _], by rw [log_set, log_log, log_set, log_log]; rfl⟩)
  · exact .inr (.inr rfl)

/-- A device that is taken gets its station. -/
theorem Inv.taken {m : Mgr} {held : List Sta} {devId : ℕ} {info : StaInfo} (h : Inv size m held)
    (hinfo : m.infos[devId]? = some info) (hfree : info.status = .free) :
    Inv size (taken cfg m devId info) (held ++ [(takenCtx size cfg m devId info).sta]) := by
  let sta : Sta := ⟨m.nextAddr, devId, cfg.testId, info.index, cfg.bridgeName⟩
  have htake : Inv size { setDevBusy m sta.devId with nextAddr := m.nextAddr + 1 } (held ++ [sta]) :=
    h.take hinfo hfree rfl
  exact ((htake.log [.addToBridge info.interfaceName cfg.bridgeName]).log [.heartBeat m.nextAddr]).log
    [.macUpdate m.nextAddr]

theorem CtxsOk.taken {m : Mgr} {ctxs : List PrepCtx} {devId : ℕ} {info : StaInfo} (h : CtxsOk size ctxs) :
    CtxsOk size (ctxs ++ [takenCtx size cfg m devId info]) := by
  intro ctx hctx
  rcases List.mem_append.mp hctx with hctx | hctx
  · exact h ctx hctx
  · rw [List.mem_singleton.mp hctx]
    rfl

theorem taken_length (cfg : StaTest) (m : Mgr) (devId : ℕ) (info : StaInfo) :
    (taken cfg m devId info).infos.length = m.infos.length :=
  setStatus_length _ _ _

/-- The station of a device that is taken joins the prepared ones, whatever has been lost. -/
theorem inv_taken_prepared {m : Mgr} {ctxs : List PrepCtx} {lost : List Sta} {devId : ℕ} {info : StaInfo}
    (h : Inv size m (ctxs.map PrepCtx.sta ++ lost)) (hinfo : m.infos[devId]? = some info)
    (hfree : info.status = .free) : Inv size (taken cfg m devId info)
      ((ctxs ++ [takenCtx size cfg m devId info]).map PrepCtx.sta ++ lost) := by
  refine (h.taken hinfo hfree).perm ?_
  rw [List.map_append, List.append_assoc, List.append_assoc]
  exact List.perm_append_comm.append_left _

/-- With enough free devices and no failing call, the first phase prepares every client. -/
theorem prepare_ok {n : ℕ} {m : Mgr} {ctxs : List PrepCtx} {lost : List Sta} (hmodel : cfg.knownModel = true)
    (hcount : n ≤ freeCount m) (hprep : ∀ i, i < ctxs.length + n → (prep i).Ok cfg)
    (hinv : Inv size m (ctxs.map PrepCtx.sta ++ lost)) (hctxs : CtxsOk size ctxs) :
    ∃ m' ctxs', prepare size cfg prep n m ctxs = some (m', some ctxs') ∧
      Inv size m' (ctxs'.map PrepCtx.sta ++ lost) ∧ CtxsOk size ctxs' ∧ ctxs'.length = ctxs.length + n ∧
      m'.infos.length = m.infos.length := by
  induction n generalizing m ctxs with
  | zero =>
      exact ⟨m, ctxs, rfl, hinv, hctxs, rfl, rfl⟩
  | succ n ih =>
      obtain ⟨devId, info, hfind, hinfo, hfree⟩ := exists_free (m := m) (by omega)
      rw [prepare_succ hfind hinfo hmodel (hprep _ (by omega))]
      have hfree' : freeCount (setDevBusy m devId) + 1 = freeCount m := freeCount_setDevBusy hinfo hfree
      have hcount' : n ≤ freeCount (taken cfg m devId info) := by
        change n ≤ freeCount (setDevBusy m devId)
        omega
      have hlen₁ : (ctxs ++ [takenCtx size cfg m devId info]).length = ctxs.length + 1 := List.length_append
      obtain ⟨m', ctxs', hrun, hinv', hctxs', hlen, hinfos⟩ :=
        ih hcount' (fun i hi => hprep i (by omega)) (inv_taken_prepared hinv hinfo hfree) hctxs.taken
      exact ⟨m', ctxs', hrun, hinv', hctxs', by omega, hinfos.trans (taken_length _ _ _ _)⟩

/-- Whatever it is answered, the first phase keeps the invariant; a device that it leaves behind
stays with a station that is never put into the map. -/
theorem prepare_held {n : ℕ} {m m' : Mgr} {ctxs : List PrepCtx} {lost : List Sta}
    {r : Option (List PrepCtx)} (hinv : Inv size m (ctxs.map PrepCtx.sta ++ lost))
    (hctxs : CtxsOk size ctxs) (hrun : prepare size cfg prep n m ctxs = some (m', r)) :
    m'.infos.length = m.infos.length ∧ ∃ ctxs' lost', Inv size m' (ctxs'.map PrepCtx.sta ++ lost') ∧
      CtxsOk size ctxs' ∧ ∀ cs, r = some cs → cs = ctxs' := by
  induction n generalizing m ctxs with
  | zero =>
      cases hrun
      exact ⟨rfl, ctxs, lost, hinv, hctxs, fun cs hcs => (Option.some.inj hcs).symm⟩
  | succ n ih =>
      cases hfind : findFirstFreeDev m with
      | none =>
          simp only [prepare, hfind, Option.some.injEq, Prod.mk.injEq] at hrun
          obtain ⟨rfl, rfl⟩ := hrun
          exact ⟨rfl, ctxs, lost, hinv, hctxs, by simp⟩
      | some devId =>
          obtain ⟨info, hinfo, hfree⟩ := findFirstFreeDev_spec hfind
          have htaken : Inv size (taken cfg m devId info) _ := inv_taken_prepared hinv hinfo hfree
          obtain hnone | ⟨cs, hstop⟩ | hgo := prepare_turn prep n ctxs hfind hinfo
          · rw [hnone] at hrun
            cases hrun
          · rw [hstop] at hrun
            simp only [Option.some.injEq, Prod.mk.injEq] at hrun
            obtain ⟨rfl, rfl⟩ := hrun
            refine ⟨setStatus_length _ _ _, ctxs ++ [takenCtx size cfg m devId info], lost, ?_,
              hctxs.taken, by simp⟩
            exact htaken.of_perm rfl rfl (List.Perm.refl _) htaken.entries
          · rw [hgo] at hrun
            obtain ⟨hlen, hrest⟩ := ih htaken hctxs.taken hrun
            exact ⟨hlen.trans (taken_length _ _ _ _), hrest⟩

/-- With no free device the first phase does nothing at all. -/
theorem prepare_no_free {n : ℕ} {m : Mgr} {ctxs : List PrepCtx} (hfree : freeCount m = 0) :
    prepare size cfg prep (n + 1) m ctxs = some (m, none) := by
  simp only [prepare, (findFirstFreeDev_eq_none_iff m).mpr hfree]

/-- An unknown station model is an assertion failure on the first client. -/
theorem prepare_unknown {n : ℕ} {m : Mgr} {ctxs : List PrepCtx} (hmodel : cfg.knownModel = false)
    (hfree : freeCount m ≠ 0) : prepare size cfg prep (n + 1) m ctxs = none := by
  obtain ⟨devId, info, hfind, hinfo, -⟩ := exists_free hfree
  simp only [prepare, hfind, hinfo, hmodel, if_true]

/-- With no failing call the second phase puts every prepared station into the map. -/
theorem connectAll_ok {ctxs : List PrepCtx} {i : ℕ} {m : Mgr} {keys : List CString} {lost : List Sta}
    (hconn : ∀ j, j < i + ctxs.length → (conn j).Ok cfg) (hinv : Inv size m (ctxs.map PrepCtx.sta ++ lost))
    (hctxs : CtxsOk size ctxs) :
    Inv size (connectAll cfg conn ctxs i m keys).1 lost ∧
      (connectAll cfg conn ctxs i m keys).1.infos.length = m.infos.length := by
  induction ctxs generalizing i m keys with
  | nil =>
      exact ⟨hinv, rfl⟩
  | cons ctx ctxs ih =>
      obtain ⟨h₁, h₂, h₃, h₄⟩ := hconn i (by simp)
      simp only [connectAll, h₁, h₂, h₃, h₄, if_false, if_true, reduceCtorEq]
      have hput := (hinv.log [.connect ctx.vapIndex]).put (hctxs ctx List.mem_cons_self)
      exact ih (fun j hj => hconn j (by simp; omega)) hput fun c hc => hctxs c (List.mem_cons_of_mem _ hc)

/-- Whatever it is answered, the second phase keeps the invariant. -/
theorem connectAll_held {ctxs : List PrepCtx} {i : ℕ} {m : Mgr} {keys : List CString} {lost : List Sta}
    (hinv : Inv size m (ctxs.map PrepCtx.sta ++ lost)) (hctxs : CtxsOk size ctxs) :
    (connectAll cfg conn ctxs i m keys).1.infos.length = m.infos.length ∧
      ∃ lost', Inv size (connectAll cfg conn ctxs i m keys).1 lost' := by
  induction ctxs generalizing i m keys lost with
  | nil =>
      exact ⟨rfl, lost, hinv⟩
  | cons ctx ctxs ih =>
      have hlog := hinv.log [.connect ctx.vapIndex]
      have hlost : Inv size (log m [.connect ctx.vapIndex]) (ctxs.map PrepCtx.sta ++ ctx.sta :: lost) :=
        hlog.perm List.perm_middle
      have htail : CtxsOk size ctxs := fun c hc => hctxs c (List.mem_cons_of_mem _ hc)
      simp only [connectAll]
      split_ifs
      · exact ih hlost htail
      · exact ⟨rfl, _, hlog⟩
      · exact ⟨rfl, _, hlog⟩
      · exact ih (hlog.put (hctxs ctx List.mem_cons_self)) htail
      · exact ih hlost htail

end AddStaLemmas

section RemoveLemmas

variable {size : ℕ} {m : Mgr} {held : List Sta}

theorem hashMapGet_split {map : List (HashElem Sta)} {key : CString} {sta : Sta}
    (h : hashMapGet map key = some sta) :
    ∃ pre e post, map = pre ++ e :: post ∧ e.data = some sta ∧ hashMapRemove map key = pre ++ post := by
  unfold hashMapGet at h
  obtain ⟨e, he, hdata⟩ := Option.bind_eq_some_iff.mp h
  obtain ⟨hmatch, pre, post, rfl, hno⟩ := List.find?_eq_some_iff_append.mp he
  refine ⟨pre, e, post, rfl, hdata, ?_⟩
  unfold hashMapRemove
  rw [List.eraseP_append_right _ (by simpa using hno), List.eraseP_cons_of_pos hmatch]

theorem removeSta_inv (h : Inv size m held) (key : CString) : Inv size (removeSta key m) held := by
  unfold removeSta
  split_ifs with hkey
  · exact h
  · cases hget : hashMapGet m.map key with
    | none =>
        exact h
    | some sta =>
        simp only
        cases hinfo : m.infos[sta.devId]? with
        | none =>
            exact h
        | some info =>
            obtain ⟨pre, e, post, hmap, hdata, hrem⟩ := hashMapGet_split hget
            have hrel := (h.log [.disconnect info.index,
              .removeFromBridge info.interfaceName info.bridgeName]).release hmap hdata
            rw [← hrem] at hrel
            exact hrel

/-- The entry whose own key is asked for is found when no earlier one belongs to its test. -/
theorem hashMapRemove_own_key (h : Inv size m held) (hfit : KeysFit size m.infos.length)
    {pre post : List (HashElem Sta)} {e : HashElem Sta} {tmp : Sta} (hmap : m.map = pre ++ e :: post)
    (hdata : e.data = some tmp) (hpre : ∀ e' ∈ pre, ∀ s, e'.data = some s → s.testId ≠ tmp.testId) :
    hashMapRemove m.map (createKey size tmp.devId tmp.testId) = pre ++ post := by
  have hval : ∀ e' ∈ m.map, ∀ s, e'.data = some s → e'.key.1 = keyText s.testId s.devId := by
    intro e' he' s hs
    obtain ⟨s', hs', hkey⟩ := h.entries e' he'
    obtain rfl : s' = s := Option.some.inj (hs'.symm.trans hs)
    have hmem : s' ∈ stas m.map := List.mem_filterMap.mpr ⟨e', he', hs'⟩
    rw [hkey, createKey_val hfit (h.inPool s' (List.mem_append_left _ hmem))]
  have hme : e ∈ m.map := by
    simp [hmap]
  have hkey : (createKey size tmp.devId tmp.testId).1 = keyText tmp.testId tmp.devId := by
    obtain ⟨s', hs', hk⟩ := h.entries e hme
    obtain rfl : s' = tmp := Option.some.inj (hs'.symm.trans hdata)
    rw [← hk, hval e hme s' hdata]
  have hmatch : keyMatches (createKey size tmp.devId tmp.testId) e = true := by
    rw [keyMatches_iff, hkey, hval e hme tmp hdata]
  have hno : ∀ e' ∈ pre, ¬keyMatches (createKey size tmp.devId tmp.testId) e' = true := by
    intro e' he' hm
    have hme' : e' ∈ m.map := by
      rw [hmap]
      exact List.mem_append_left _ he'
    obtain ⟨s, hs, -⟩ := h.entries e' hme'
    rw [keyMatches_iff, hkey, hval e' hme' s hs] at hm
    exact hpre e' he' s hs (testId_eq_of_extends hm).symm
  unfold hashMapRemove
  rw [hmap, List.eraseP_append_right _ hno, List.eraseP_cons_of_pos hmatch]

/-- The next station of the map is found by its address, of which there is one. -/
theorem hashMapGetNext_eq {pre post : List (HashElem Sta)} {e : HashElem Sta} {tmp : Sta}
    (hdata : e.data = some tmp) (hnd : ((stas (pre ++ e :: post)).map Sta.addr).Nodup) :
    hashMapGetNext (pre ++ e :: post) tmp = hashMapGetFirst post := by
  induction pre with
  | nil =>
      simp [hashMapGetNext, hdata]
  | cons e' pre ih =>
      have htail : ((stas (pre ++ e :: post)).map Sta.addr).Nodup :=
        hnd.sublist (((List.sublist_cons_self e' _).filterMap _).map _)
      have hne : e'.data.map Sta.addr ≠ some tmp.addr := by
        intro hmap
        obtain ⟨s, hs, haddr⟩ := Option.map_eq_some_iff.mp hmap
        have hcons : stas (e' :: pre ++ e :: post) = s :: stas (pre ++ e :: post) :=
          List.filterMap_cons_some hs
        rw [hcons, List.map_cons, List.nodup_cons] at hnd
        refine hnd.1 (List.mem_map.mpr ⟨tmp, ?_, haddr.symm⟩)
        exact List.mem_filterMap.mpr ⟨e, by simp, hdata⟩
      rw [List.cons_append, hashMapGetNext, if_neg hne, ih htail]

theorem hashMapGetNext_of_inv {pre post : List (HashElem Sta)} {e : HashElem Sta} {tmp : Sta} (h : Inv size m held)
    (hmap : m.map = pre ++ e :: post) (hdata : e.data = some tmp) :
    hashMapGetNext m.map tmp = hashMapGetFirst post := by
  have haddrs := h.addrs
  rw [List.map_append, hmap] at haddrs
  rw [hmap]
  exact hashMapGetNext_eq hdata haddrs.of_append_left

/-- The loop of `remove_all_sta` is at an entry of the map, and the ones before it belong to other
tests. -/
def LoopAt (testId : BitVec 32) (m : Mgr) : Option Sta → Prop
  | none => True
  | some tmp => ∃ pre e post, m.map = pre ++ e :: post ∧ e.data = some tmp ∧
      ∀ e' ∈ pre, ∀ s, e'.data = some s → s.testId ≠ testId

theorem loopAt_first {testId : BitVec 32} {m' : Mgr} {pre post : List (HashElem Sta)}
    (hmap : m'.map = pre ++ post) (hpre : ∀ e' ∈ pre, ∀ s, e'.data = some s → s.testId ≠ testId) :
    LoopAt testId m' (hashMapGetFirst post) := by
  cases post with
  | nil =>
      trivial
  | cons e post =>
      unfold hashMapGetFirst
      cases hdata : e.data with
      | none =>
          simp [hdata, LoopAt]
      | some s =>
          simp only [List.head?_cons, Option.bind_some, hdata]
          exact ⟨pre, e, post, hmap, hdata, hpre⟩

/-- One turn keeps the invariant and moves on. -/
theorem removeAllTurn_inv {testId : BitVec 32} {tmp : Sta} {m' : Mgr} {go : Bool}
    (h : Inv size m held) (hfit : KeysFit size m.infos.length) (hat : LoopAt testId m (some tmp))
    (hturn : removeAllTurn size testId m tmp (hashMapGetNext m.map tmp) = some (m', go)) :
    Inv size m' held ∧ m'.infos.length = m.infos.length ∧
      (go = true → LoopAt testId m' (hashMapGetNext m.map tmp)) := by
  obtain ⟨pre, e, post, hmap, hdata, hpre⟩ := hat
  have hnext := hashMapGetNext_of_inv h hmap hdata
  unfold removeAllTurn at hturn
  split_ifs at hturn with htest
  · rw [hnext] at hturn ⊢
    cases hfirst : hashMapGetFirst post with
    | none =>
        simp [hfirst] at hturn
    | some sta =>
        simp only [hfirst] at hturn
        cases hinfo : m.infos[sta.devId]? with
        | none =>
            simp only [hinfo, Option.some.injEq, Prod.mk.injEq] at hturn
            obtain ⟨rfl, rfl⟩ := hturn
            exact ⟨h, rfl, by simp⟩
        | some info =>
            simp only [hinfo, Option.some.injEq, Prod.mk.injEq] at hturn
            obtain ⟨rfl, rfl⟩ := hturn
            subst htest
            have hrem : hashMapRemove m.map (createKey size tmp.devId tmp.testId) = pre ++ post :=
              hashMapRemove_own_key h hfit hmap hdata hpre
            have hrel := (h.log [.disconnect tmp.vapIndex,
              .removeFromBridge info.interfaceName tmp.bridgeName]).release hmap hdata
            rw [← hrem] at hrel
            refine ⟨hrel, by simp [setDevFree, log], fun _ => ?_⟩
            rw [← hfirst]
            exact loopAt_first hrem hpre
  · simp only [Option.some.injEq, Prod.mk.injEq] at hturn
    obtain ⟨rfl, rfl⟩ := hturn
    refine ⟨h, rfl, fun _ => ?_⟩
    rw [hnext]
    have hmap' : m.map = (pre ++ [e]) ++ post := by
      simp [hmap]
    refine loopAt_first hmap' ?_
    intro e' he' s hs
    rcases List.mem_append.mp he' with he' | he'
    · exact hpre e' he' s hs
    · rw [List.mem_singleton.mp he', hdata] at hs
      cases hs
      exact htest

theorem removeAllLoop_inv {testId : BitVec 32} {fuel : ℕ} {cur : Option Sta} {m' : Mgr}
    (h : Inv size m held) (hfit : KeysFit size m.infos.length) (hat : LoopAt testId m cur)
    (hrun : removeAllLoop size testId fuel m cur = some m') :
    Inv size m' held ∧ m'.infos.length = m.infos.length := by
  induction fuel generalizing m cur with
  | zero =>
      cases cur with
      | none =>
          cases hrun
          exact ⟨h, rfl⟩
      | some tmp =>
          cases hrun
  | succ fuel ih =>
      cases cur with
      | none =>
          cases hrun
          exact ⟨h, rfl⟩
      | some tmp =>
          unfold removeAllLoop at hrun
          cases hturn : removeAllTurn size testId m tmp (hashMapGetNext m.map tmp) with
          | none =>
              simp [hturn] at hrun
          | some r =>
              obtain ⟨m₁, go⟩ := r
              obtain ⟨hinv, hlen, hnext⟩ := removeAllTurn_inv h hfit hat hturn
              cases go with
              | false =>
                  simp only [hturn, Option.some.injEq] at hrun
                  subst hrun
                  exact ⟨hinv, hlen⟩
              | true =>
                  simp only [hturn] at hrun
                  obtain ⟨hinv', hlen'⟩ := ih hinv (hlen ▸ hfit) (hnext rfl) hrun
                  exact ⟨hinv', hlen'.trans hlen⟩

end RemoveLemmas

/-! ### Runs -/

section Runs

variable {size : ℕ} {m m' : Mgr}

/-- A request that cannot leave a device behind: an `add_sta` finds no free device for its first
client, or it has one for each client and none of its calls fails. -/
def Clean (m : Mgr) : Op → Prop
  | .addSta cfg prep conn =>
      freeCount m = 0 ∨
        cfg.clientCount ≤ freeCount m ∧ ∀ i, i < cfg.clientCount → (prep i).Ok cfg ∧ (conn i).Ok cfg
  | _ => True

theorem addSta_inv {cfg : StaTest} {prep : ℕ → PrepAnswers} {conn : ℕ → ConnectAnswers} {held : List Sta}
    (h : Inv size m held) (hclean : Clean m (.addSta cfg prep conn))
    (hstep : step size m (.addSta cfg prep conn) = some m') :
    Inv size m' held ∧ m'.infos.length = m.infos.length := by
  change (addSta size cfg prep conn m).map Prod.fst = some m' at hstep
  unfold addSta at hstep
  cases hn : cfg.clientCount with
  | zero =>
      simp only [hn, prepare, connectAll, Option.map_some, Option.some.injEq] at hstep
      subst hstep
      exact ⟨h, rfl⟩
  | succ n =>
      rw [hn] at hstep
      rcases hclean with hfree | ⟨hcount, hok⟩
      · simp only [prepare_no_free hfree, Option.map_some, Option.some.injEq] at hstep
        subst hstep
        exact ⟨h, rfl⟩
      · rw [hn] at hcount hok
        cases hmodel : cfg.knownModel with
        | false =>
            have hfree : freeCount m ≠ 0 := by omega
            simp [prepare_unknown hmodel hfree] at hstep
        | true =>
            have hnil : Inv size m (([] : List PrepCtx).map PrepCtx.sta ++ held) := h
            obtain ⟨m₁, ctxs, hrun, hinv, hctxs, hlen, hinfos⟩ :=
              prepare_ok hmodel hcount (fun i hi => (hok i (by simpa using hi)).1) hnil ctxsOk_nil
            simp only [hrun, Option.map_some, Option.some.injEq] at hstep
            subst hstep
            have hconn : ∀ j, j < 0 + ctxs.length → (conn j).Ok cfg := by
              intro j hj
              rw [List.length_nil] at hlen
              exact (hok j (by omega)).2
            obtain ⟨hinv', hinfos'⟩ := connectAll_ok hconn hinv hctxs
            exact ⟨hinv', hinfos'.trans hinfos⟩

theorem addSta_held {cfg : StaTest} {prep : ℕ → PrepAnswers} {conn : ℕ → ConnectAnswers} {held : List Sta}
    (h : Inv size m held) (hstep : step size m (.addSta cfg prep conn) = some m') :
    m'.infos.length = m.infos.length ∧ ∃ held', Inv size m' held' := by
  change (addSta size cfg prep conn m).map Prod.fst = some m' at hstep
  unfold addSta at hstep
  cases hrun : prepare size cfg prep cfg.clientCount m [] with
  | none =>
      simp [hrun] at hstep
  | some res =>
      obtain ⟨m₁, r⟩ := res
      have hnil : Inv size m (([] : List PrepCtx).map PrepCtx.sta ++ held) := h
      obtain ⟨hlen, ctxs, lost, hinv, hctxs, hr⟩ := prepare_held hnil ctxsOk_nil hrun
      cases r with
      | none =>
          simp only [hrun, Option.map_some, Option.some.injEq] at hstep
          subst hstep
          exact ⟨hlen, _, hinv⟩
      | some cs =>
          simp only [hrun, Option.map_some, Option.some.injEq] at hstep
          subst hstep
          rw [hr cs rfl]
          obtain ⟨hlen', hinv'⟩ := connectAll_held hinv hctxs
          exact ⟨hlen'.trans hlen, hinv'⟩

theorem removeSta_length (key : CString) (m : Mgr) :
    (removeSta key m).infos.length = m.infos.length := by
  unfold removeSta
  split_ifs
  · rfl
  · cases hget : hashMapGet m.map key with
    | none =>
        rfl
    | some sta =>
        simp only
        cases hinfo : m.infos[sta.devId]? with
        | none =>
            rfl
        | some info =>
            simp [setDevFree, log]

theorem log_nil (m : Mgr) : log m [] = m := by
  simp [log]

/-- A call on a device and its station. -/
def HalCall.On (info : StaInfo) (sta : Sta) : HalCall → Prop
  | .addToBridge interfaceName _ => interfaceName = info.interfaceName
  | .removeFromBridge interfaceName _ => interfaceName = info.interfaceName
  | .rawPacket interfaceName => interfaceName = info.interfaceName
  | .connect vapIndex => vapIndex = info.index
  | .disconnect vapIndex => vapIndex = info.index
  | .smDeinit vapIndex => vapIndex = info.index
  | .heartBeat addr => addr = sta.addr
  | .macUpdate addr => addr = sta.addr

/-- The result of a request that only makes calls, all of them on the device whose id is in the key
and on the station that the map has for the key. -/
def OnlyCalls (m : Mgr) (key : CString) (uninit : ℕ) (m' : Mgr) : Prop :=
  ∃ cs, m' = log m cs ∧ ∀ c ∈ cs, ∃ info sta,
    m.infos[getDevIdFromKey key uninit]? = some info ∧ hashMapGet m.map key = some sta ∧ c.On info sta

theorem OnlyCalls.nothing (m : Mgr) (key : CString) (uninit : ℕ) : OnlyCalls m key uninit m :=
  ⟨[], (log_nil m).symm, by simp⟩

theorem OnlyCalls.call {m m' : Mgr} {key : CString} {uninit : ℕ} {info : StaInfo} {sta : Sta}
    (h : OnlyCalls m key uninit m') (hinfo : m.infos[getDevIdFromKey key uninit]? = some info)
    (hsta : hashMapGet m.map key = some sta) {c : HalCall} (hc : c.On info sta) :
    OnlyCalls m key uninit (log m' [c]) := by
  obtain ⟨cs, rfl, hcs⟩ := h
  refine ⟨cs ++ [c], log_log m cs [c], ?_⟩
  intro c' hc'
  rcases List.mem_append.mp hc' with hc' | hc'
  · exact hcs c' hc'
  · rw [List.mem_singleton.mp hc']
    exact ⟨info, sta, hinfo, hsta, hc⟩

/-- `disconnect_sta` only makes HAL calls. -/
theorem disconnectSta_frame (bridgeName : String) (key : CString) (uninit : ℕ) (ok : Bool) (m : Mgr) :
    OnlyCalls m key uninit (disconnectSta bridgeName key uninit ok m).1 := by
  unfold disconnectSta
  by_cases hkey : key.1 = []
  · simpa only [hkey, if_true] using OnlyCalls.nothing m key uninit
  simp only [hkey, if_false]
  cases hget : hashMapGet m.map key with
  | none =>
      exact .nothing m key uninit
  | some sta =>
      cases hinfo : m.infos[getDevIdFromKey key uninit]? with
      | none =>
          exact .nothing m key uninit
      | some info =>
          have h₁ := (OnlyCalls.nothing m key uninit).call hinfo hget (c := .disconnect info.index) rfl
          have h₂ := h₁.call hinfo hget (c := .removeFromBridge info.interfaceName bridgeName) rfl
          simp only
          split_ifs
          · exact h₁
          · exact h₂

/-- `reconnect_sta` only makes HAL calls. -/
theorem reconnectSta_frame (cfg : StaTest) (key : CString) (uninit : ℕ) (ans : ReconnectAnswers) (m : Mgr) :
    OnlyCalls m key uninit (reconnectSta cfg key uninit ans m).1 := by
  unfold reconnectSta
  by_cases hkey : key.1 = []
  · simpa only [hkey, if_true] using OnlyCalls.nothing m key uninit
  simp only [hkey, if_false]
  cases hget : hashMapGet m.map key with
  | none =>
      exact .nothing m key uninit
  | some sta =>
      cases hinfo : m.infos[getDevIdFromKey key uninit]? with
      | none =>
          exact .nothing m key uninit
      | some info =>
          have h₁ := (OnlyCalls.nothing m key uninit).call hinfo hget (c := .smDeinit info.index) rfl
          have h₂ := h₁.call hinfo hget (c := .addToBridge info.interfaceName cfg.bridgeName) rfl
          have h₃ := h₂.call hinfo hget (c := .macUpdate sta.addr) rfl
          have h₄ := h₃.call hinfo hget (c := .connect info.index) rfl
          simp only
          split_ifs
          · exact h₁
          · exact h₂
          · exact h₃
          · exact h₄
          · exact h₄

/-- `send_heart_beat` only makes calls. -/
theorem sendHeartBeat_frame (key : CString) (uninit : ℕ) (m : Mgr) :
    OnlyCalls m key uninit (sendHeartBeat key uninit m) := by
  unfold sendHeartBeat
  cases hinfo : m.infos[getDevIdFromKey key uninit]? with
  | none =>
      exact .nothing m key uninit
  | some info =>
      cases hget : hashMapGet m.map key with
      | none =>
          exact .nothing m key uninit
      | some sta =>
          have h₁ := (OnlyCalls.nothing m key uninit).call hinfo hget (c := .heartBeat sta.addr) rfl
          have h₂ := h₁.call hinfo hget (c := .rawPacket info.interfaceName) rfl
          rwa [log_log] at h₂

/-- A request other than `add_sta` keeps the invariant, and the devices of the pool. -/
theorem step_held {held : List Sta} {op : Op} (h : Inv size m held) (hfit : KeysFit size m.infos.length)
    (hop : ∀ cfg prep conn, op ≠ .addSta cfg prep conn) (hstep : step size m op = some m') :
    Inv size m' held ∧ m'.infos.length = m.infos.length := by
  cases op with
  | addSta cfg prep conn =>
      exact absurd rfl (hop cfg prep conn)
  | removeSta key =>
      cases hstep
      exact ⟨removeSta_inv h key, removeSta_length key m⟩
  | removeAllSta testId =>
      have hat : LoopAt testId m (hashMapGetFirst m.map) :=
        loopAt_first (List.nil_append _).symm (by intro e' he'; cases he')
      exact removeAllLoop_inv h hfit hat hstep
  | disconnectSta bridgeName key uninit ok =>
      obtain ⟨cs, hcs, -⟩ := disconnectSta_frame bridgeName key uninit ok m
      cases hstep
      rw [hcs]
      exact ⟨h.log cs, rfl⟩
  | reconnectSta cfg key uninit ans =>
      obtain ⟨cs, hcs, -⟩ := reconnectSta_frame cfg key uninit ans m
      cases hstep
      rw [hcs]
      exact ⟨h.log cs, rfl⟩
  | sendHeartBeat key uninit =>
      obtain ⟨cs, hcs, -⟩ := sendHeartBeat_frame key uninit m
      cases hstep
      rw [hcs]
      exact ⟨h.log cs, rfl⟩

/-- **One request** keeps the invariant, and the devices of the pool. -/
theorem step_inv {op : Op} (h : Inv size m []) (hfit : KeysFit size m.infos.length)
    (hclean : Clean m op) (hstep : step size m op = some m') :
    Inv size m' [] ∧ m'.infos.length = m.infos.length := by
  by_cases hop : ∃ cfg prep conn, op = .addSta cfg prep conn
  · obtain ⟨cfg, prep, conn, rfl⟩ := hop
    exact addSta_inv h hclean hstep
  · exact step_held h hfit (fun cfg prep conn heq => hop ⟨cfg, prep, conn, heq⟩) hstep

theorem init_inv (size : ℕ) (infos : List StaInfo) : Inv size (init infos) [] := by
  refine ⟨?_, ?_, ?_, ?_, ?_⟩
  · intro d info hinfo
    obtain ⟨i, -, rfl⟩ : ∃ i, infos[d]? = some i ∧ { i with status := Status.free } = info := by
      simpa [init, Option.map_eq_some_iff] using hinfo
    simp [init, stas]
  all_goals simp [init, stas]

/-- **The pool invariant** holds in every state of a run in which every `add_sta` finds no free
device at all, or one for each client and no failing call. -/
theorem pool_ok_of_run {infos : List StaInfo} (hfit : KeysFit size infos.length)
    (hrun : Run (step size) Clean (init infos) m) : PoolOk m := by
  have hinit : (init infos).infos.length = infos.length := by
    simp [init]
  have hinv : Inv size m [] ∧ m.infos.length = infos.length := by
    refine run_invariant (I := fun m => Inv size m [] ∧ m.infos.length = infos.length) ?_ hrun
      ⟨init_inv size infos, hinit⟩
    rintro s op t ⟨hs, hlen⟩ hclean hstep
    obtain ⟨ht, hlen'⟩ := step_inv hs (hlen ▸ hfit) hclean hstep
    exact ⟨ht, hlen'.trans hlen⟩
  exact hinv.1.poolOk

/-- In every run the stations of the map have their own devices, whatever `add_sta` has lost. -/
theorem held_of_run {infos : List StaInfo} (hfit : KeysFit size infos.length)
    (hrun : Run (step size) (fun _ _ => True) (init infos) m) :
    (∃ held, Inv size m held) ∧ m.infos.length = infos.length := by
  have hinit : (init infos).infos.length = infos.length := by
    simp [init]
  refine run_invariant (I := fun m => (∃ held, Inv size m held) ∧ m.infos.length = infos.length) ?_ hrun
    ⟨⟨[], init_inv size infos⟩, hinit⟩
  rintro s op t ⟨⟨held, hs⟩, hlen⟩ - hstep
  by_cases hop : ∃ cfg prep conn, op = .addSta cfg prep conn
  · obtain ⟨cfg, prep, conn, rfl⟩ := hop
    obtain ⟨hlen', ht⟩ := addSta_held hs hstep
    exact ⟨ht, hlen'.trans hlen⟩
  · obtain ⟨ht, hlen'⟩ :=
      step_held hs (hlen ▸ hfit) (fun cfg prep conn heq => hop ⟨cfg, prep, conn, heq⟩) hstep
    exact ⟨⟨held, ht⟩, hlen'.trans hlen⟩

/-- A pool of one device. -/
def oneDevice : List StaInfo :=
  [⟨.free, 14, "wlan0", "brlan0"⟩]

/-- An `add_sta` of one client; the flag is the answer of `wifi_hal_connect`. -/
def addOne (connect : Bool) : Op :=
  .addSta ⟨1, 1, true, "brlan0", false, true⟩ (fun _ => ⟨true, true, true, true, true⟩)
    (fun _ => ⟨connect, true, true⟩)

theorem pool_ok_of_run_addOne :
    ∃ m, Run (step 18) Clean (init oneDevice) m ∧ m.map.length = 1 ∧ PoolOk m := by
  have hclean : Clean (init oneDevice) (addOne true) := by
    refine Or.inr ⟨by decide, fun i _ => ⟨⟨rfl, rfl, rfl, rfl, fun _ => rfl⟩, ⟨rfl, rfl, rfl, rfl⟩⟩⟩
  obtain ⟨m, hm, hlen⟩ : ∃ m, step 18 (init oneDevice) (addOne true) = some m ∧ m.map.length = 1 :=
    ⟨_, rfl, rfl⟩
  exact ⟨m, Run.single hclean hm, hlen, pool_ok_of_run (keysFit_of_le (by decide) (by decide))
    (Run.single hclean hm)⟩

/-- A failed connect leaves the device in use without an entry. -/
theorem failed_connect_leaves_device :
    ∃ m, execTo (step 18) (init oneDevice) [addOne false] = some m ∧
      m.infos.map StaInfo.status = [.inUse] ∧ m.map.length = 0 ∧ ¬PoolOk m := by
  refine ⟨_, rfl, rfl, rfl, ?_⟩
  intro h
  have hone := (h 0 _ rfl).1.mp rfl
  exact absurd hone (by decide)

end Runs

end OneWifiTestSuite.StaMgr
