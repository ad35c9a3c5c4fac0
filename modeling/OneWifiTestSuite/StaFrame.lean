import OneWifiTestSuite.StaMgr

/-!
# Requests by a client's key

`remove_sta`, `disconnect_sta`, `reconnect_sta` and `send_heart_beat` are called with the key of a
client. `OwnClient` says that they act on that client alone. The search of the map is by prefix, so
the key "1-1" also matches the key "1-10" of another client of the same test, and the map is
searched from its newest entry: `ownClient_iff` is the exact condition, for every pool and every set
of clients a run of the manager can reach.
-/

namespace OneWifiTestSuite.StaMgr

open Runs HashMap StaKey

/-- A request acts on one client: its calls are on the device and the station of the client, and
the devices and entries of all others are what they were. -/
structure ActsOn (m m' : Mgr) (info : StaInfo) (sta : Sta) : Prop where
  calls : ∃ cs, m'.calls = m.calls ++ cs ∧ ∀ c ∈ cs, c.On info sta
  devices : ∀ d, d ≠ sta.devId → m'.infos[d]? = m.infos[d]?
  entries : ∀ e ∈ m.map, e.data ≠ some sta → e ∈ m'.map

/-- What is expected of the requests with the key of the client `sta` on the device `info`. -/
structure OwnClient (size : ℕ) (m : Mgr) (info : StaInfo) (sta : Sta) : Prop where
  remove : ActsOn m (removeSta (createKey size sta.devId sta.testId) m) info sta
  disconnect : ∀ bridgeName uninit ok,
    ActsOn m (disconnectSta bridgeName (createKey size sta.devId sta.testId) uninit ok m).1 info sta
  reconnect : ∀ cfg uninit ans,
    ActsOn m (reconnectSta cfg (createKey size sta.devId sta.testId) uninit ans m).1 info sta
  heartBeat : ∀ uninit,
    ActsOn m (sendHeartBeat (createKey size sta.devId sta.testId) uninit m) info sta
  sameDevice : ∀ uninit s, hashMapGet m.map (createKey size sta.devId sta.testId) = some s →
    getDevIdFromKey (createKey size sta.devId sta.testId) uninit = s.devId

section Frame

variable {size : ℕ} {m : Mgr} {held : List Sta} {pre post : List (HashElem Sta)} {e : HashElem Sta}
  {sta : Sta} {info : StaInfo}

/-- An entry carries the key of its station. -/
theorem Inv.key_val (h : Inv size m held) (hfit : KeysFit size m.infos.length) (he : e ∈ m.map)
    (hdata : e.data = some sta) : e.key.1 = keyText sta.testId sta.devId := by
  obtain ⟨s, hs, hkey⟩ := h.entries e he
  obtain rfl : s = sta := Option.some.inj (hs.symm.trans hdata)
  have hmem : s ∈ stas m.map := List.mem_filterMap.mpr ⟨e, he, hs⟩
  rw [hkey, createKey_val hfit (h.inPool s (List.mem_append_left _ hmem))]

theorem Inv.lt_length (h : Inv size m held) (he : e ∈ m.map) (hdata : e.data = some sta) :
    sta.devId < m.infos.length :=
  h.inPool sta (List.mem_append_left _ (List.mem_filterMap.mpr ⟨e, he, hdata⟩))

/-- Two entries that hold stations hold them on different devices. -/
theorem Inv.devId_ne (h : Inv size m held) (hmap : m.map = pre ++ e :: post) (hdata : e.data = some sta)
    {e' : HashElem Sta} {s : Sta} (he' : e' ∈ pre) (hs : e'.data = some s) : s.devId ≠ sta.devId := by
  intro hdev
  have hpre : s ∈ stas pre := List.mem_filterMap.mpr ⟨e', he', hs⟩
  have hme : e ∈ m.map := by
    simp [hmap]
  obtain ⟨info, hinfo⟩ : ∃ info, m.infos[sta.devId]? = some info :=
    ⟨_, List.getElem?_eq_getElem (h.lt_length hme hdata)⟩
  have howned := h.owned sta.devId info hinfo
  have hone : 0 < (stas pre).countP fun t => t.devId = sta.devId :=
    List.countP_pos_iff.mpr ⟨s, hpre, by simp [hdev]⟩
  have hsplit : stas m.map = stas pre ++ sta :: stas post := by
    rw [hmap, stas_append, stas, stas, List.filterMap_cons_some hdata]
    rfl
  rw [hsplit, List.countP_append, List.countP_append, List.countP_cons] at howned
  simp only [decide_true, if_true] at howned
  split_ifs at howned <;> omega

/-- When no newer entry has the key as a prefix, the map finds and removes the client's own entry. -/
theorem hashMap_own (h : Inv size m held) (hfit : KeysFit size m.infos.length)
    (hmap : m.map = pre ++ e :: post) (hdata : e.data = some sta)
    (hpre : ∀ e' ∈ pre, ¬keyText sta.testId sta.devId <+: e'.key.1) :
    hashMapGet m.map (createKey size sta.devId sta.testId) = some sta ∧
      hashMapRemove m.map (createKey size sta.devId sta.testId) = pre ++ post := by
  have hme : e ∈ m.map := by
    simp [hmap]
  have hval := createKey_val hfit (h.lt_length hme hdata) sta.testId
  have hmatch : keyMatches (createKey size sta.devId sta.testId) e = true := by
    rw [keyMatches_iff, hval, h.key_val hfit hme hdata]
  have hno : ∀ e' ∈ pre, ¬keyMatches (createKey size sta.devId sta.testId) e' = true := by
    intro e' he' hm
    rw [keyMatches_iff, hval] at hm
    exact hpre e' he' hm
  have hfind : m.map.find? (keyMatches (createKey size sta.devId sta.testId)) = some e := by
    rw [List.find?_eq_some_iff_append]
    exact ⟨hmatch, pre, post, hmap, by simpa using hno⟩
  constructor
  · rw [hashMapGet, hfind, Option.bind_some, hdata]
  · unfold hashMapRemove
    rw [hmap, List.eraseP_append_right _ hno, List.eraseP_cons_of_pos hmatch]

theorem OnlyCalls.actsOn {m' : Mgr} {key : CString} {uninit : ℕ} (h : OnlyCalls m key uninit m')
    (hdev : getDevIdFromKey key uninit = sta.devId) (hinfo : m.infos[sta.devId]? = some info)
    (hget : hashMapGet m.map key = some sta) : ActsOn m m' info sta := by
  obtain ⟨cs, rfl, hcs⟩ := h
  refine ⟨⟨cs, rfl, ?_⟩, fun _ _ => rfl, fun _ he _ => he⟩
  intro c hc
  obtain ⟨info', sta', hinfo', hget', hon⟩ := hcs c hc
  rw [hdev, hinfo] at hinfo'
  rw [hget] at hget'
  cases hinfo'
  cases hget'
  exact hon

/-- **`remove_sta` of the found client** disconnects its device, frees it and removes its entry. -/
theorem removeSta_own {key : CString} (hkey : key.1 ≠ []) (hget : hashMapGet m.map key = some sta)
    (hinfo : m.infos[sta.devId]? = some info) :
    removeSta key m = { setDevFree (log m [.disconnect info.index,
      .removeFromBridge info.interfaceName info.bridgeName]) sta.devId with map := hashMapRemove m.map key } := by
  simp only [removeSta, hkey, if_false, hget, hinfo]
  rfl

theorem removeSta_actsOn {key : CString} (hkey : key.1 ≠ []) (hget : hashMapGet m.map key = some sta)
    (hinfo : m.infos[sta.devId]? = some info) (hmap : m.map = pre ++ e :: post) (hdata : e.data = some sta)
    (hrem : hashMapRemove m.map key = pre ++ post) : ActsOn m (removeSta key m) info sta := by
  rw [removeSta_own hkey hget hinfo]
  refine ⟨⟨_, rfl, by simp [HalCall.On]⟩, ?_, ?_⟩
  · intro d hd
    change (setStatus _ sta.devId .free).infos[d]? = _
    rw [setStatus_getElem?]
    simp [Ne.symm hd, log]
  · intro e' he' hne
    change e' ∈ hashMapRemove m.map key
    rw [hrem, List.mem_append]
    rw [hmap, List.mem_append, List.mem_cons] at he'
    obtain hpre | rfl | hpost := he'
    · exact .inl hpre
    · exact absurd hdata hne
    · exact .inr hpost

theorem keyText_ne_nil (testId : BitVec 32) (devId : ℕ) : keyText testId devId ≠ [] := by
  simp [keyText]

/-- No newer entry is found by the key: the requests act on the client alone. -/
theorem OwnClient.of_no_newer (h : Inv size m held) (hfit : KeysFit size m.infos.length)
    (hpool : m.infos.length < 2 ^ 32) (hmap : m.map = pre ++ e :: post) (hdata : e.data = some sta)
    (hinfo : m.infos[sta.devId]? = some info)
    (hpre : ∀ e' ∈ pre, ¬keyText sta.testId sta.devId <+: e'.key.1) : OwnClient size m info sta := by
  have hme : e ∈ m.map := by
    simp [hmap]
  have hlt := h.lt_length hme hdata
  obtain ⟨hget, hrem⟩ := hashMap_own h hfit hmap hdata hpre
  have hdev : ∀ uninit, getDevIdFromKey (createKey size sta.devId sta.testId) uninit = sta.devId :=
    getDevIdFromKey_createKey hfit hlt (by omega) sta.testId
  have hkey : (createKey size sta.devId sta.testId).1 ≠ [] := by
    rw [createKey_val hfit hlt]
    exact keyText_ne_nil _ _
  refine ⟨removeSta_actsOn hkey hget hinfo hmap hdata hrem, ?_, ?_, ?_, ?_⟩
  · intro bridgeName uninit ok
    exact (disconnectSta_frame bridgeName _ uninit ok m).actsOn (hdev uninit) hinfo hget
  · intro cfg uninit ans
    exact (reconnectSta_frame cfg _ uninit ans m).actsOn (hdev uninit) hinfo hget
  · intro uninit
    exact (sendHeartBeat_frame _ uninit m).actsOn (hdev uninit) hinfo hget
  · intro uninit s hs
    rw [hget] at hs
    cases hs
    exact hdev uninit

/-- A newer entry that the key is a prefix of is found instead: its station is on another device. -/
theorem OwnClient.no_newer (h : Inv size m held) (hfit : KeysFit size m.infos.length)
    (hpool : m.infos.length < 2 ^ 32) (hmap : m.map = pre ++ e :: post) (hdata : e.data = some sta)
    (hown : OwnClient size m info sta) : ∀ e' ∈ pre, ¬keyText sta.testId sta.devId <+: e'.key.1 := by
  intro e' he' hprefix
  have hme : e ∈ m.map := by
    simp [hmap]
  have hlt := h.lt_length hme hdata
  have hmatch : keyMatches (createKey size sta.devId sta.testId) e' = true := by
    rwa [keyMatches_iff, createKey_val hfit hlt]
  obtain ⟨e₁, hfind⟩ := Option.isSome_iff_exists.mp (List.find?_isSome.mpr ⟨e', he', hmatch⟩)
  have he₁ : e₁ ∈ pre := List.mem_of_find?_eq_some hfind
  obtain ⟨s, hs, -⟩ := h.entries e₁ (by simp [hmap, he₁])
  have hget : hashMapGet m.map (createKey size sta.devId sta.testId) = some s := by
    rw [hashMapGet, hmap, List.find?_append, hfind, Option.some_or, Option.bind_some, hs]
  have hdev := hown.sameDevice 0 s hget
  rw [getDevIdFromKey_createKey hfit hlt (by omega)] at hdev
  exact h.devId_ne hmap hdata he₁ hs hdev.symm

/-- **Requests by key**: in every state that a run of the manager reaches, for every client in the
map, the requests with the key of the client act on that client alone if and only if no newer entry
of the map has a key that extends it. -/
theorem ownClient_iff {infos : List StaInfo} (hpool : infos.length < 2 ^ 32)
    (hfit : KeysFit size infos.length) (hrun : Run (step size) (fun _ _ => True) (init infos) m)
    (hmap : m.map = pre ++ e :: post) (hdata : e.data = some sta)
    (hinfo : m.infos[sta.devId]? = some info) :
    OwnClient size m info sta ↔ ∀ e' ∈ pre, ¬keyText sta.testId sta.devId <+: e'.key.1 := by
  obtain ⟨⟨held, h⟩, hlen⟩ := held_of_run hfit hrun
  rw [← hlen] at hpool hfit
  constructor
  · exact OwnClient.no_newer h hfit hpool hmap hdata
  · exact OwnClient.of_no_newer h hfit hpool hmap hdata hinfo

end Frame

/-- Two devices. -/
def twoDevices : List StaInfo :=
  [⟨.free, 14, "wlan0", "brlan0"⟩, ⟨.free, 15, "wlan1", "brlan0"⟩]

/-- An `add_sta` of one client of a test, which connects. -/
def addFor (testId : ℕ) : Op :=
  .addSta ⟨testId, 1, true, "brlan0", false, true⟩ (fun _ => ⟨true, true, true, true, true⟩)
    (fun _ => ⟨true, true, true⟩)

/-- The client of the first test, after a client of the second one was added. -/
theorem ownClient_iff_twoTests :
    ∃ m info sta other, execTo (step 18) (init twoDevices) [addFor 1, addFor 2] = some m ∧
      stas m.map = [other, sta] ∧ sta.testId = 1 ∧ other.testId = 2 ∧ OwnClient 18 m info sta := by
  obtain ⟨m, e', e, sta, other, info, hm, hmap, hdata, hother, hinfo, htest, hdev, htest', hkey⟩ :
      ∃ m e' e sta other info, execTo (step 18) (init twoDevices) [addFor 1, addFor 2] = some m ∧
        m.map = [e'] ++ e :: [] ∧ e.data = some sta ∧ e'.data = some other ∧ m.infos[sta.devId]? = some info ∧
        sta.testId = 1 ∧ sta.devId = 0 ∧ other.testId = 2 ∧ e'.key = createKey 18 1 2 :=
    ⟨_, _, _, _, _, _, rfl, rfl, rfl, rfl, rfl, rfl, rfl, rfl, rfl⟩
  have hfit : KeysFit 18 twoDevices.length := keysFit_of_le (by decide) (by decide)
  refine ⟨m, info, sta, other, hm, ?_, htest, htest', ?_⟩
  · rw [hmap, List.singleton_append, stas, List.filterMap_cons_some hother, List.filterMap_cons_some hdata]
    rfl
  · refine (ownClient_iff (by decide) hfit (run_of_execTo hm) hmap hdata hinfo).mpr fun e₁ he₁ => ?_
    obtain rfl := List.mem_singleton.mp he₁
    rw [hkey, createKey_val hfit (by decide), htest, hdev]
    -- the tests differ in the first digit of their keys
    change ¬ decimal 1 ++ 45 :: decimal 0 <+: decimal 2 ++ 45 :: decimal 1
    norm_num [decimal]
    decide

/-- A pool of eleven devices. -/
def elevenDevices : List StaInfo :=
  (List.range 11).map fun i => ⟨.free, 14 + i, "wlan" ++ toString i, "brlan0"⟩

/-- An `add_sta` of eleven clients that all connect. -/
def addEleven : Op :=
  .addSta ⟨1, 11, true, "brlan0", false, true⟩ (fun _ => ⟨true, true, true, true, true⟩)
    (fun _ => ⟨true, true, true⟩)

/-- With eleven clients of test 1 the key "1-1" finds the client "1-10". -/
theorem not_ownClient_addEleven :
    ∃ m e info sta, execTo (step 18) (init elevenDevices) [addEleven] = some m ∧ e ∈ m.map ∧
      e.data = some sta ∧ m.infos[sta.devId]? = some info ∧ sta.devId = 1 ∧ ¬OwnClient 18 m info sta := by
  obtain ⟨m, pre, e, post, e', sta, info, hm, hmap, hdata, hinfo, htest, hdev, hmem, hkey⟩ :
      ∃ m pre e post e' sta info, execTo (step 18) (init elevenDevices) [addEleven] = some m ∧
        m.map = pre ++ e :: post ∧ e.data = some sta ∧ m.infos[sta.devId]? = some info ∧
        sta.testId = 1 ∧ sta.devId = 1 ∧ e' ∈ pre ∧ e'.key = createKey 18 10 1 :=
    ⟨_, [_, _, _, _, _, _, _, _, _], _, [_], _, _, _, rfl, rfl, rfl, rfl, rfl, rfl, List.mem_cons_self, rfl⟩
  have hfit : KeysFit 18 elevenDevices.length := keysFit_of_le (by decide) (by decide)
  obtain ⟨⟨held, h⟩, hlen⟩ := held_of_run hfit (run_of_execTo hm)
  refine ⟨m, e, info, sta, hm, by simp [hmap], hdata, hinfo, hdev, fun hown => ?_⟩
  have hpre := hown.no_newer h (hlen ▸ hfit) (by rw [hlen]; decide) hmap hdata e' hmem
  have hten : e'.key.1 = keyText 1 10 := by
    rw [hkey, createKey_val hfit (by decide)]
  apply hpre
  rw [hten, htest, hdev]
  change decimal 1 ++ 45 :: decimal 1 <+: decimal 1 ++ 45 :: decimal 10
  exact ⟨[48], by norm_num [decimal]; decide⟩

end OneWifiTestSuite.StaMgr
