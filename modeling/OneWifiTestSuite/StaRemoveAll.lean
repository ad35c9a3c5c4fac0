import OneWifiTestSuite.HashMapWalk
import OneWifiTestSuite.StaMgr

/-!
# `remove_all_sta`

The loop of `remove_all_sta` moves its iterator `sta` on before it looks at the station `tmp`, and
then asks `get_devid_sta_info` for the device of `sta`. So a station of the test is taken off the
bridge with the interface of the station behind it in `m_sta_map`, and the last one of the map
dereferences NULL. `removeAllLoop_spec` is what the loop does from any position;
`removesAll_iff` says when that is what it is for. `getFirst_getNext_refine` ties the iteration over
the list of entries to the map in memory.
-/

namespace OneWifiTestSuite.StaMgr

open Runs HashMap StaKey

section Stations

variable {name name' : ℕ → Option String} {testId : BitVec 32}

/-- The interface of a device of the pool. -/
def interfaceOf (m : Mgr) (devId : ℕ) : Option String :=
  m.infos[devId]?.map StaInfo.interfaceName

/-- The calls that take a station of the test down, on its own device. -/
def ownCalls (name : ℕ → Option String) (testId : BitVec 32) (sta : Sta) : List HalCall :=
  if sta.testId = testId then
    match name sta.devId with
    | none => []
    | some interfaceName => [.disconnect sta.vapIndex, .removeFromBridge interfaceName sta.bridgeName]
  else []

/-- The calls of the loop on the stations that it still has to look at; `none` is the NULL
dereference. -/
def loopCalls (name : ℕ → Option String) (testId : BitVec 32) : List Sta → Option (List HalCall)
  | [] => some []
  | tmp :: stas =>
      if tmp.testId = testId then
        match stas.head?.bind fun sta => name sta.devId with
        | none => none
        | some interfaceName => (loopCalls name testId stas).map
            ([.disconnect tmp.vapIndex, .removeFromBridge interfaceName tmp.bridgeName] ++ ·)
      else loopCalls name testId stas

/-- Every station of the test has another one behind it, with the same interface. -/
def NextShares (name : ℕ → Option String) (testId : BitVec 32) : List Sta → Prop
  | [] => True
  | tmp :: stas =>
      (tmp.testId = testId → (stas.head?.bind fun sta => name sta.devId) = name tmp.devId) ∧
        NextShares name testId stas

/-- The loop makes the right calls exactly when the stations behind share the interface. -/
theorem loopCalls_eq_iff {stas : List Sta} (hname : ∀ sta ∈ stas, name sta.devId ≠ none) :
    loopCalls name testId stas = some (stas.flatMap (ownCalls name testId)) ↔
      NextShares name testId stas := by
  induction stas with
  | nil =>
      simp [loopCalls, NextShares]
  | cons tmp stas ih =>
      have hrest := ih fun sta hsta => hname sta (List.mem_cons_of_mem _ hsta)
      obtain ⟨own, hown⟩ := Option.ne_none_iff_exists'.mp (hname tmp List.mem_cons_self)
      by_cases htest : tmp.testId = testId
      · simp only [loopCalls, NextShares, List.flatMap_cons, ownCalls, htest, hown, if_true, true_implies,
          ← hrest]
        cases hnext : stas.head?.bind fun sta => name sta.devId with
        | none =>
            simp
        | some interfaceName =>
            simp only [Option.map_eq_some_iff, Option.some.injEq]
            constructor
            · rintro ⟨cs, hcs, heq⟩
              have hparts := List.append_inj heq rfl
              simp only [List.cons.injEq, HalCall.removeFromBridge.injEq, and_true, true_and] at hparts
              exact ⟨hparts.1, by rw [hcs, hparts.2]⟩
            · rintro ⟨rfl, hcs⟩
              exact ⟨_, hcs, rfl⟩
      · simp only [loopCalls, NextShares, List.flatMap_cons, ownCalls, htest, if_false, false_implies,
          true_and, List.nil_append, hrest]

end Stations

section Loop

variable {size : ℕ} {m m' : Mgr} {held : List Sta} {testId : BitVec 32}

/-- A device of the pool, free when a station of the test is on it. -/
def freedFor (testId : BitVec 32) (stas : List Sta) (devId : ℕ) (info : StaInfo) : StaInfo :=
  if ∃ sta ∈ stas, sta.testId = testId ∧ sta.devId = devId then { info with status := .free } else info

/-- An entry of another test. -/
def ofOtherTest (testId : BitVec 32) (e : HashElem Sta) : Bool :=
  e.data.map Sta.testId ≠ some testId

/-- What the loop has done once it has passed the entries `post` behind `pre`. -/
structure Removed (testId : BitVec 32) (m : Mgr) (pre post : List (HashElem Sta)) (cs : List HalCall)
    (m' : Mgr) : Prop where
  map : m'.map = pre ++ post.filter (ofOtherTest testId)
  infos : ∀ d, m'.infos[d]? = m.infos[d]?.map (freedFor testId (stas post) d)
  calls : m'.calls = m.calls ++ cs

theorem interfaceOf_setStatus (m : Mgr) (devId : ℕ) (status : Status) :
    interfaceOf (setStatus m devId status) = interfaceOf m := by
  funext d
  unfold interfaceOf
  rw [setStatus_getElem?, Option.map_map]
  congr 1
  funext info
  simp only [Function.comp_apply]
  split_ifs <;> rfl

theorem freedFor_nil (d : ℕ) : freedFor testId [] d = id := by
  funext info
  simp [freedFor]

theorem freedFor_cons (tmp : Sta) (stas : List Sta) (d : ℕ) (info : StaInfo) :
    freedFor testId (tmp :: stas) d info =
      if tmp.testId = testId ∧ tmp.devId = d then { info with status := .free }
      else freedFor testId stas d info := by
  unfold freedFor
  by_cases htmp : tmp.testId = testId ∧ tmp.devId = d
  · simp [htmp]
  · simp [htmp]

/-- What the loop reads of the device behind. -/
theorem interfaceOf_of_mem (h : Inv size m held) {sta : Sta} (hsta : sta ∈ stas m.map) :
    ∃ info, m.infos[sta.devId]? = some info ∧ interfaceOf m sta.devId = some info.interfaceName := by
  have hlt := h.inPool sta (List.mem_append_left _ hsta)
  refine ⟨m.infos[sta.devId], List.getElem?_eq_getElem hlt, ?_⟩
  unfold interfaceOf
  rw [List.getElem?_eq_getElem hlt]
  rfl

theorem stas_cons {e : HashElem Sta} {tmp : Sta} (map : List (HashElem Sta)) (h : e.data = some tmp) :
    stas (e :: map) = tmp :: stas map :=
  List.filterMap_cons_some h

/-- `hash_map_get_first` on entries that all hold a station. -/
theorem hashMapGetFirst_eq {map : List (HashElem Sta)} (h : ∀ e ∈ map, ∃ sta, e.data = some sta) :
    hashMapGetFirst map = (stas map).head? := by
  cases map with
  | nil =>
      rfl
  | cons e map =>
      obtain ⟨sta, hsta⟩ := h e List.mem_cons_self
      rw [stas_cons map hsta]
      simp [hashMapGetFirst, hsta]

/-- The first station and the next one are those that the map in memory answers with. -/
theorem getFirst_getNext_refine {fuel : ℕ} {mem : HashMapT Sta} (h : Inv size m held)
    (hmem : HashMap.Holds mem m.map) (hlen : m.map.length < 2 ^ 32) (hf : m.map.length < fuel) :
    getFirst fuel mem = some (hashMapGetFirst m.map) ∧
      ∀ sta ∈ stas m.map, getNext fuel mem (some sta) = some (hashMapGetNext m.map sta) := by
  refine ⟨getFirst_eq hmem hf, fun sta hsta => ?_⟩
  obtain ⟨e, he, hdata⟩ := List.mem_filterMap.mp hsta
  obtain ⟨pre, post, hmap⟩ := List.append_of_mem he
  have hno : ∀ e' ∈ pre, e'.data ≠ e.data := by
    intro e' he' heq
    have hnd := h.addrs
    rw [List.map_append] at hnd
    have hnd' := hnd.of_append_left.of_map
    rw [hmap, stas, List.filterMap_append, List.filterMap_cons_some hdata] at hnd'
    have hin : sta ∈ pre.filterMap HashElem.data := List.mem_filterMap.mpr ⟨e', he', heq.trans hdata⟩
    exact (List.nodup_append.mp hnd').2.2 sta hin sta (by simp) rfl
  rw [getNext_eq hmem hf, Nat.mod_eq_of_lt hlen, List.take_length, hashMapGetNext_of_inv h hmap hdata, hmap,
    ← hdata, nextData_append hno]
  rfl

/-- The entries that the loop has passed, with the next one. -/
theorem Removed.cons_other {pre post : List (HashElem Sta)} {e : HashElem Sta} {tmp : Sta}
    {cs : List HalCall} (h : Removed testId m (pre ++ [e]) post cs m') (hdata : e.data = some tmp)
    (htest : tmp.testId ≠ testId) : Removed testId m pre (e :: post) cs m' := by
  have hother : ofOtherTest testId e = true := by
    simp [ofOtherTest, hdata, htest]
  refine ⟨?_, fun d => ?_, h.calls⟩
  · rw [List.filter_cons_of_pos hother, h.map, List.append_assoc]
    rfl
  · rw [h.infos, stas_cons post hdata]
    congr 1
    funext info
    rw [freedFor_cons, if_neg (fun hboth => htest hboth.1)]

theorem Removed.cons_own {pre post : List (HashElem Sta)} {e : HashElem Sta} {tmp : Sta}
    {cs cs' : List HalCall} {map : List (HashElem Sta)}
    (h : Removed testId { setDevFree (log m cs') tmp.devId with map := map } pre post cs m')
    (hdata : e.data = some tmp) (htest : tmp.testId = testId) :
    Removed testId m pre (e :: post) (cs' ++ cs) m' := by
  have hown : ¬ofOtherTest testId e = true := by
    simp [ofOtherTest, hdata, htest]
  refine ⟨?_, fun d => ?_, ?_⟩
  · rw [List.filter_cons_of_neg hown, h.map]
  · have hinfos := h.infos d
    change _ = (setStatus (log m cs') tmp.devId .free).infos[d]?.map _ at hinfos
    rw [setStatus_getElem?, Option.map_map] at hinfos
    rw [hinfos, stas_cons post hdata]
    congr 1
    funext info
    simp only [Function.comp_apply, freedFor_cons, htest, true_and]
    split_ifs with hd
    · unfold freedFor
      split_ifs <;> rfl
    · rfl
  · rw [h.calls, ← List.append_assoc]
    rfl

/-- **What the loop does** from any position behind entries of other tests: it crashes, or it
removes the entries of the test and frees their devices, with the calls of `loopCalls`. -/
theorem removeAllLoop_spec (testId : BitVec 32) {fuel : ℕ} {pre post : List (HashElem Sta)} (h : Inv size m held)
    (hfit : KeysFit size m.infos.length) (hmap : m.map = pre ++ post)
    (hpre : ∀ e ∈ pre, ∀ s, e.data = some s → s.testId ≠ testId) (hfuel : post.length ≤ fuel) :
    (∀ cs, loopCalls (interfaceOf m) testId (stas post) = some cs →
      ∃ m', removeAllLoop size testId fuel m (hashMapGetFirst post) = some m' ∧
        Removed testId m pre post cs m') ∧
      (loopCalls (interfaceOf m) testId (stas post) = none →
        removeAllLoop size testId fuel m (hashMapGetFirst post) = none) := by
  induction post generalizing m pre fuel with
  | nil =>
      refine ⟨?_, fun hnone => by cases hnone⟩
      rintro cs ⟨⟩
      refine ⟨m, by cases fuel <;> rfl, ⟨hmap, fun d => ?_, (List.append_nil _).symm⟩⟩
      simp [stas, freedFor_nil]
  | cons e post ih =>
      obtain ⟨tmp, hdata, -⟩ := h.entries e (by simp [hmap])
      obtain ⟨fuel, rfl⟩ : ∃ k, fuel = k + 1 := ⟨fuel - 1, by simp at hfuel; omega⟩
      have hfuel' : post.length ≤ fuel := by simpa using hfuel
      have hall : ∀ e' ∈ post, ∃ sta, e'.data = some sta := by
        intro e' he'
        obtain ⟨sta, hsta, -⟩ := h.entries e' (by simp [hmap, he'])
        exact ⟨sta, hsta⟩
      have hfirst : hashMapGetFirst (e :: post) = some tmp := by
        simp [hashMapGetFirst, hdata]
      have hnext := hashMapGetNext_of_inv h hmap hdata
      rw [hfirst, stas_cons post hdata]
      unfold removeAllLoop
      rw [hnext]
      by_cases htest : tmp.testId = testId
      · simp only [loopCalls, htest, if_true, removeAllTurn]
        rw [hashMapGetFirst_eq hall] at ih ⊢
        cases hhead : (stas post).head? with
        | none =>
            simp
        | some sta =>
            have hmem : sta ∈ stas m.map := by
              rw [hmap, stas_append, stas_cons post hdata]
              exact List.mem_append_right _ (List.mem_cons_of_mem _ (List.mem_of_head? hhead))
            obtain ⟨info, hinfo, hname⟩ := interfaceOf_of_mem h hmem
            have hrem : hashMapRemove m.map (createKey size tmp.devId testId) = pre ++ post := by
              rw [← htest]
              exact hashMapRemove_own_key h hfit hmap hdata (htest ▸ hpre)
            let cs' : List HalCall :=
              [.disconnect tmp.vapIndex, .removeFromBridge info.interfaceName tmp.bridgeName]
            let m₁ : Mgr := { setDevFree (log m cs') tmp.devId with
              map := hashMapRemove m.map (createKey size tmp.devId testId) }
            have hrel : Inv size m₁ held := by
              have hrelease := (h.log cs').release hmap hdata
              rwa [← hrem] at hrelease
            have hfit' : KeysFit size m₁.infos.length := by
              have hlen : m₁.infos.length = m.infos.length := setStatus_length _ _ _
              rwa [hlen]
            have hinterface : interfaceOf m₁ = interfaceOf m :=
              interfaceOf_setStatus (log m cs') tmp.devId .free
            obtain ⟨hok, hcrash⟩ := ih hrel hfit' hrem hpre hfuel'
            rw [hinterface, hhead] at hok hcrash
            simp only [Option.bind_some, hname, hinfo, Option.map_eq_some_iff,
              Option.map_eq_none_iff]
            refine ⟨?_, hcrash⟩
            rintro _ ⟨cs, hcs, rfl⟩
            obtain ⟨m', hrun, hremoved⟩ := hok cs hcs
            exact ⟨m', hrun, hremoved.cons_own hdata htest⟩
      · simp only [loopCalls, if_neg htest, removeAllTurn]
        have hmap' : m.map = (pre ++ [e]) ++ post := by
          simp [hmap]
        have hpre' : ∀ e' ∈ pre ++ [e], ∀ s, e'.data = some s → s.testId ≠ testId := by
          intro e' he' s hs
          rcases List.mem_append.mp he' with he' | he'
          · exact hpre e' he' s hs
          · rw [List.mem_singleton.mp he', hdata] at hs
            cases hs
            exact htest
        obtain ⟨hok, hcrash⟩ := ih h hfit hmap' hpre' hfuel'
        refine ⟨fun cs hcs => ?_, hcrash⟩
        obtain ⟨m', hrun, hremoved⟩ := hok cs hcs
        exact ⟨m', hrun, hremoved.cons_other hdata htest⟩

/-- `remove_all_sta` ends, and the stations of the test are disconnected, taken off the bridge with
their own interface, freed and removed, and nothing else is. -/
def RemovesAll (size : ℕ) (testId : BitVec 32) (m : Mgr) : Prop :=
  ∃ m', removeAllSta size testId m = some m' ∧
    m'.map = m.map.filter (ofOtherTest testId) ∧
    (∀ d, m'.infos[d]? = m.infos[d]?.map (freedFor testId (stas m.map) d)) ∧
    m'.calls = m.calls ++ (stas m.map).flatMap (ownCalls (interfaceOf m) testId)

/-- **`remove_all_sta` does its work exactly when every station of the test has a station behind it
in the map whose device has the same interface**: in every state that any run of the manager
reaches, for stations of any tests. (The last station of the map has none behind it, so none of the
test may be there; and devices have different interfaces.) -/
theorem removesAll_iff {infos : List StaInfo} (hfit : KeysFit size infos.length)
    (hrun : Run (step size) (fun _ _ => True) (init infos) m) (testId : BitVec 32) :
    RemovesAll size testId m ↔ NextShares (interfaceOf m) testId (stas m.map) := by
  obtain ⟨⟨held, hinv⟩, hlen⟩ := held_of_run hfit hrun
  have hname : ∀ sta ∈ stas m.map, interfaceOf m sta.devId ≠ none := by
    intro sta hsta
    obtain ⟨info, -, hinfo⟩ := interfaceOf_of_mem hinv hsta
    simp [hinfo]
  have hspec : _ ∧ _ := removeAllLoop_spec testId hinv (hlen ▸ hfit) (List.nil_append _).symm
    (by simp) le_rfl
  rw [← loopCalls_eq_iff hname]
  cases hcalls : loopCalls (interfaceOf m) testId (stas m.map) with
  | none =>
      refine iff_of_false ?_ (by simp)
      rintro ⟨m', hrun', -⟩
      rw [removeAllSta, hspec.2 hcalls] at hrun'
      cases hrun'
  | some cs =>
      obtain ⟨m', hrun', hmap, hinfos, hlog⟩ := hspec.1 cs hcalls
      rw [Option.some.injEq]
      constructor
      · rintro ⟨m'', hrun'', -, -, hlog'⟩
        rw [removeAllSta, hrun', Option.some.injEq] at hrun''
        rw [← hrun'', hlog] at hlog'
        exact List.append_cancel_left hlog'
      · rintro rfl
        exact ⟨m', hrun', hmap, hinfos, hlog⟩

end Loop

section Sample

/-- A station of test 1 on the only device. -/
def oneStation : Mgr :=
  ⟨[⟨.inUse, 14, "wlan0", "brlan0"⟩], [⟨some ⟨0, 0, 1, 14, "brlan0"⟩, createKey 18 0 1⟩], 1,
    [.addToBridge "wlan0" "brlan0", .heartBeat 0, .macUpdate 0, .connect 14]⟩

theorem step_addOne : step 18 (init oneDevice) (addOne true) = some oneStation := rfl

/-- Another test has nothing to remove there. -/
theorem removesAll_iff_otherTest : RemovesAll 18 2 oneStation :=
  (removesAll_iff (keysFit_of_le (by decide) (by decide)) (Run.single trivial step_addOne) 2).mpr
    ⟨by decide, trivial⟩

/-- The last station of the map has no station behind it. -/
theorem removeAllSta_crashes :
    ¬∀ (size : ℕ) (infos : List StaInfo) (m : Mgr) (testId : BitVec 32), KeysFit size infos.length →
      Run (step size) (fun _ _ => True) (init infos) m → RemovesAll size testId m := by
  intro hall
  have hfit : KeysFit 18 oneDevice.length := keysFit_of_le (by decide) (by decide)
  obtain ⟨m', hrun, -⟩ := hall 18 oneDevice oneStation 1 hfit (Run.single trivial step_addOne)
  have hcrash : removeAllSta 18 1 oneStation = none := rfl
  rw [hcrash] at hrun
  cases hrun

end Sample

end OneWifiTestSuite.StaMgr
