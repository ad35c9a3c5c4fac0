import OneWifiTestSuite.SimStaStep
import OneWifiTestSuite.StaAtomic
import OneWifiTestSuite.StaFrame

/-!
# The removal of simulated stations

`step_remove` of a step of simulated stations calls `remove_sta` for the clients that are associated, as
`step_timeout` and `step_frame_filter` do for some of them before. `Simulated` is such a step with the
manager, which other steps call in between, and `simulated_of_run` says when every device that the step
holds is free at the end.
-/

namespace OneWifiTestSuite.StepRelease

open Runs HashMap StaKey

section Simulated

open StaMgr (Mgr StaTest PrepAnswers ConnectAnswers Sta)
open SimStaStep (Client Frame FrameAns Profile)

/-- A step of simulated stations, with the manager. -/
structure Simulated where
  cfg : StaTest
  stepCfg : SimStaStep.Cfg
  profiles : List Profile
  mgr : Mgr
  /-- the step once it has been executed -/
  step : Option SimStaStep.St
  /-- the keys of the clients, index 0 of `connected_client_info_q` first -/
  keys : List CString
  /-- the devices that `add_sta` has taken for the step and that have not been freed since -/
  holding : List ℕ

def isFree (m : Mgr) (d : ℕ) : Bool :=
  m.infos[d]?.map StaMgr.StaInfo.status = some .free

/-- A call of the manager, which may free devices of the step. -/
def Simulated.called (s : Simulated) (m : Mgr) : Simulated :=
  { s with mgr := m, holding := s.holding.filter fun d => !isFree m d }

/-- The part of `step_frame_filter` that calls `remove_sta` for a client. -/
def frameRemoves (cfg : SimStaStep.Cfg) (f : Frame) (c : Client) : Bool :=
  (c.staMac = f.clientMacaddr || c.staMac = f.macaddr) && f.nameOk &&
    !(f.ops = .deauth && !c.isDisconnectionSent) && (f.ops = .deauth || f.ops = .disassoc) &&
    !cfg.isReconnectEnabled && c.isStationAssociated

/-- The clients that the loop of `step_frame_filter` calls it for. -/
def frameRemovals (cfg : SimStaStep.Cfg) (f : Frame) (ans : FrameAns) : ℕ → List Client → List ℕ
  | _, [] => []
  | i, c :: cs =>
      (if frameRemoves cfg f c then [i] else []) ++
        if (SimStaStep.filterClient cfg f ans i c).2.2 then [] else frameRemovals cfg f ans (i + 1) cs

/-- The clients that a move calls `remove_sta` for: a tick that completes the step calls it for all. -/
def removals (cfg : SimStaStep.Cfg) (s : SimStaStep.St) : SimStaStep.Move → List ℕ
  | .tick ans =>
      if s.testState ≠ .results ∧ SimStaStep.tickWay cfg ans s = .completes then List.range s.clients.length
      else []
  | .frame f ans => frameRemovals cfg f ans 0 s.clients

/-- The calls of `remove_sta` with some keys. -/
def removeKeys (keys : List CString) (m : Mgr) : Mgr :=
  keys.foldl (fun m key => StaMgr.removeSta key m) m

/-- What `step_execute` gets: the document, the calls of `add_sta`, the addresses of the clients and
whether the list of stations is uploaded. -/
structure ExecAnswers where
  decoded : Bool
  prep : ℕ → PrepAnswers
  conn : ℕ → ConnectAnswers
  mac : ℕ → BitVec 48
  uploaded : Bool

/-- The step after `step_execute`; a failed one is aborted. -/
def executed (s : Simulated) (clients : ℕ) (mac : ℕ → BitVec 48) (ok : Bool) : SimStaStep.St :=
  let step := SimStaStep.init s.stepCfg ((List.range clients).map mac) s.profiles
  { step with testState := if ok then step.testState else .abort }

/-- `step_execute`; `none` is a failed assertion. -/
def Simulated.execute (size : ℕ) (s : Simulated) (ans : ExecAnswers) : Option Simulated :=
  if ans.decoded = false then some { s with step := some (executed s 0 ans.mac false) }
  else
    (StaMgr.addSta size s.cfg ans.prep ans.conn s.mgr).map fun (m, code, keys) =>
      { s with
        mgr := m
        keys := keys.reverse
        holding := (List.range s.mgr.infos.length).filter fun d => isFree s.mgr d && !isFree m d
        step := some (executed s keys.length ans.mac (code = 0 && ans.uploaded)) }

/-- The keys of the associated clients, in the order in which `queue_pop` takes them. -/
def Simulated.associated (s : Simulated) : List CString :=
  match s.step with
  | none => []
  | some step => (((step.clients.zip s.keys).reverse.filter fun p => p.1.isStationAssociated).map Prod.snd)

/-- `step_remove`. -/
def Simulated.remove (s : Simulated) : Simulated :=
  { s with mgr := removeKeys s.associated s.mgr, keys := [] }

/-- A call of the step, or one of the manager by another step. -/
inductive SimLabel
  | execute (ans : ExecAnswers)
  | move (mv : SimStaStep.Move)
  | other (op : StaMgr.Op)

def simNext (size : ℕ) (s : Simulated) : SimLabel → Option Simulated
  | .execute ans => if s.step = none then s.execute size ans else none
  | .move mv =>
      match s.step with
      | none => none
      | some step =>
          (SimStaStep.next s.stepCfg step mv).map fun step' =>
            { s.called (removeKeys ((removals s.stepCfg step mv).filterMap fun i => s.keys[i]?) s.mgr) with
              step := some step' }
  | .other op => (StaMgr.step size s.mgr op).map s.called

/-- Every device that the step holds is free once it is removed. -/
def Simulated.Released (s : Simulated) : Prop :=
  ∀ d ∈ s.holding, isFree s.remove.mgr d = true

def Simulated.Start (size : ℕ) (s : Simulated) : Prop :=
  s.step = none ∧ s.holding = [] ∧ ∃ infos, KeysFit size infos.length ∧ s.mgr = StaMgr.init infos

/-- No entry in front of an entry of the map has a key that extends its own. -/
def NoNewer (map : List (HashElem Sta)) (e : HashElem Sta) : Prop :=
  ∀ e', [e', e].Sublist map → ¬e.key.1 <+: e'.key.1

/-- `add_sta` of the step finds no free device at all or connects all clients. -/
def Simulated.Meets (s : Simulated) : SimLabel → Prop
  | .execute ans => ans.decoded = true → StaMgr.Clean s.mgr (.addSta s.cfg ans.prep ans.conn)
  | _ => True

/-- Each station in `m_sta_map` that has a device of the step is that of an associated client and is found by
its key. -/
def Simulated.Releases (s : Simulated) : Prop :=
  ∀ e ∈ s.mgr.map, ∀ sta, e.data = some sta → sta.devId ∈ s.holding →
    e.key ∈ s.associated ∧ NoNewer s.mgr.map e

end Simulated

section SimulatedLemmas

open StaMgr (Mgr StaTest PrepAnswers ConnectAnswers Sta PrepCtx)

variable {size : ℕ} {m m' : Mgr} {held : List Sta} {e : HashElem Sta} {map map' : List (HashElem Sta)}
  {cfg : StaTest} {prep : ℕ → PrepAnswers} {conn : ℕ → ConnectAnswers} {s s' : Simulated}

theorem NoNewer.mono (h : NoNewer map e) (hsub : map'.Sublist map) : NoNewer map' e :=
  fun e' he' => h e' (he'.trans hsub)

/-- Every entry holds a station with an address of its own. -/
theorem map_nodup (h : StaMgr.Inv size m held) : m.map.Nodup := by
  have hstas : (StaMgr.stas m.map).Nodup := by
    have haddrs := h.addrs
    rw [List.map_append] at haddrs
    exact haddrs.of_append_left.of_map
  have hpairs := List.pairwise_filterMap.mp hstas
  refine hpairs.imp_of_mem fun {e e'} he _ hne heq => ?_
  obtain ⟨sta, hsta, -⟩ := h.entries e he
  exact hne sta hsta sta (heq ▸ hsta) rfl

theorem removeSta_sublist (key : CString) (m : Mgr) : (StaMgr.removeSta key m).map.Sublist m.map := by
  unfold StaMgr.removeSta
  split_ifs
  · exact List.Sublist.refl _
  · split
    · exact List.Sublist.refl _
    · split
      · exact List.Sublist.refl _
      · exact List.eraseP_sublist

/-- `remove_sta` with the key of an entry takes it out when no newer one has a key that extends it. -/
theorem not_mem_removeSta (h : StaMgr.Inv size m held) (hfit : KeysFit size m.infos.length) (he : e ∈ m.map)
    (hnew : NoNewer m.map e) : e ∉ (StaMgr.removeSta e.key m).map := by
  obtain ⟨sta, hdata, hkey⟩ := h.entries e he
  obtain ⟨pre, post, hmap⟩ := List.append_of_mem he
  have hval := h.key_val hfit he hdata
  have hpre : ∀ e' ∈ pre, ¬keyText sta.testId sta.devId <+: e'.key.1 := by
    intro e' he'
    rw [← hval]
    refine hnew e' ?_
    rw [hmap]
    exact (List.singleton_sublist.mpr he').append (List.singleton_sublist.mpr List.mem_cons_self)
  obtain ⟨hget, hrem⟩ := StaMgr.hashMap_own h hfit hmap hdata hpre
  rw [← hkey] at hget hrem
  have hne : e.key.1 ≠ [] := by
    rw [hval]
    exact StaMgr.keyText_ne_nil _ _
  have hinfo := List.getElem?_eq_getElem (h.lt_length he hdata)
  rw [StaMgr.removeSta_own hne hget hinfo]
  change e ∉ StaMgr.hashMapRemove m.map e.key
  have hnodup := map_nodup h
  rw [hmap, List.nodup_middle, List.nodup_cons] at hnodup
  rw [hrem]
  exact hnodup.1

theorem removeKeys_keeps (keys : List CString) (h : StaMgr.Inv size m held) :
    StaMgr.Inv size (removeKeys keys m) held ∧ (removeKeys keys m).map.Sublist m.map ∧
      (removeKeys keys m).infos.length = m.infos.length := by
  induction keys generalizing m with
  | nil =>
      exact ⟨h, List.Sublist.refl _, rfl⟩
  | cons key keys ih =>
      obtain ⟨hinv, hsub, hlen⟩ := ih (StaMgr.removeSta_inv h key)
      exact ⟨hinv, hsub.trans (removeSta_sublist key m), hlen.trans (StaMgr.removeSta_length key m)⟩

/-- The loop of `step_remove` takes out every entry that it has the key of and that is found by it. -/
theorem not_mem_removeKeys {keys : List CString} (h : StaMgr.Inv size m held) (hfit : KeysFit size m.infos.length)
    (hkey : e.key ∈ keys) (hnew : NoNewer m.map e) : e ∉ (removeKeys keys m).map := by
  induction keys generalizing m with
  | nil =>
      cases hkey
  | cons key keys ih =>
      have hinv := StaMgr.removeSta_inv h key
      have hlen := StaMgr.removeSta_length key m
      have hsub := removeSta_sublist key m
      have hrest := (removeKeys_keeps keys hinv).2.1
      change e ∉ (removeKeys keys (StaMgr.removeSta key m)).map
      rcases List.mem_cons.mp hkey with rfl | hkey
      · intro hmem
        have hmem := hrest.subset hmem
        exact not_mem_removeSta h hfit (hsub.subset hmem) hnew hmem
      · exact ih hinv (hlen ▸ hfit) hkey (hnew.mono hsub)

/-- The second phase of `add_sta` only adds entries. -/
theorem connectAll_map (ctxs : List PrepCtx) (i : ℕ) (m : Mgr) (keys : List CString) :
    m.map.Sublist (StaMgr.connectAll cfg conn ctxs i m keys).1.map := by
  induction ctxs generalizing i m keys with
  | nil =>
      exact List.Sublist.refl _
  | cons ctx ctxs ih =>
      simp only [StaMgr.connectAll]
      split_ifs
      · exact ih _ (StaMgr.log m [.connect ctx.vapIndex]) _
      · exact List.Sublist.refl _
      · exact List.Sublist.refl _
      · exact (List.sublist_cons_self _ _).trans (ih _ { StaMgr.log m [.connect ctx.vapIndex] with
          map := ⟨some ctx.sta, ctx.key⟩ :: m.map } _)
      · exact ih _ (StaMgr.log m [.connect ctx.vapIndex]) _

/-- The first phase leaves the map alone. -/
theorem prepare_map {n : ℕ} {ctxs : List PrepCtx} {r : Option (List PrepCtx)}
    (h : StaMgr.prepare size cfg prep n m ctxs = some (m', r)) : m'.map = m.map := by
  cases hmodel : cfg.knownModel with
  | true =>
      obtain ⟨m₂, r₂, hrun, hspec⟩ : ∃ m₂ r₂, StaMgr.prepare size cfg prep n m ctxs = some (m₂, r₂) ∧ _ :=
        StaMgr.prepare_prepared hmodel n m ctxs
      rw [hrun] at h
      cases h
      exact hspec.map
  | false =>
      cases n with
      | zero =>
          cases h
          rfl
      | succ n =>
          by_cases hfree : StaMgr.freeCount m = 0
          · rw [StaMgr.prepare_no_free hfree] at h
            cases h
            rfl
          · rw [StaMgr.prepare_unknown hmodel hfree] at h
            cases h

theorem addSta_map (h : StaMgr.step size m (.addSta cfg prep conn) = some m') : m.map.Sublist m'.map := by
  change (StaMgr.addSta size cfg prep conn m).map Prod.fst = some m' at h
  unfold StaMgr.addSta at h
  cases hprep : StaMgr.prepare size cfg prep cfg.clientCount m [] with
  | none =>
      simp [hprep] at h
  | some res =>
      obtain ⟨m₁, r⟩ := res
      rw [hprep] at h
      rw [← prepare_map hprep]
      cases r with
      | none =>
          cases h
          exact List.Sublist.refl _
      | some ctxs =>
          cases h
          exact connectAll_map ctxs 0 m₁ []

/-- A device is held by a station of the map. -/
def InMap (m : Mgr) (d : ℕ) : Prop :=
  ∃ e ∈ m.map, ∃ sta, e.data = some sta ∧ sta.devId = d

theorem inMap_iff {d : ℕ} : InMap m d ↔ ∃ sta ∈ StaMgr.stas m.map, sta.devId = d := by
  constructor
  · rintro ⟨e, he, sta, hsta, rfl⟩
    exact ⟨sta, List.mem_filterMap.mpr ⟨e, he, hsta⟩, rfl⟩
  · rintro ⟨sta, hmem, rfl⟩
    obtain ⟨e, he, hsta⟩ := List.mem_filterMap.mp hmem
    exact ⟨e, he, sta, hsta, rfl⟩

/-- A device of the pool is free exactly if neither a station of the map nor a lost one has it. -/
theorem isFree_iff (h : StaMgr.Inv size m held) {d : ℕ} (hd : d < m.infos.length) :
    isFree m d = true ↔ ∀ sta ∈ StaMgr.stas m.map ++ held, sta.devId ≠ d := by
  have howned := h.owned d _ (List.getElem?_eq_getElem hd)
  unfold isFree
  rw [List.getElem?_eq_getElem hd, Option.map_some]
  simp only [Option.some.injEq, decide_eq_true_eq]
  cases hs : m.infos[d].status with
  | free =>
      rw [hs, if_neg (by decide), List.countP_eq_zero] at howned
      simpa using howned
  | inUse =>
      rw [hs, if_pos rfl] at howned
      refine iff_of_false (by simp) fun hnone => ?_
      have hzero : (StaMgr.stas m.map ++ held).countP (fun sta => sta.devId = d) = 0 :=
        List.countP_eq_zero.mpr (by simpa using hnone)
      omega

/-- What is in use is held by a station of the map, if no lost one has it. -/
theorem inMap_of_inUse (h : StaMgr.Inv size m held) {d : ℕ} (hd : d < m.infos.length)
    (huse : isFree m d = false) (hheld : ∀ sta ∈ held, sta.devId ≠ d) : InMap m d := by
  by_contra hnot
  rw [inMap_iff] at hnot
  have hfree : isFree m d = true := (isFree_iff h hd).mpr fun sta hsta heq => by
    rcases List.mem_append.mp hsta with hmap | hlost
    · exact hnot ⟨sta, hmap, heq⟩
    · exact hheld sta hlost heq
  rw [huse] at hfree
  cases hfree

/-- No lost station has a device of one in the map. -/
theorem not_held_of_inMap (h : StaMgr.Inv size m held) {d : ℕ} (hmap : InMap m d) :
    ∀ sta ∈ held, sta.devId ≠ d := by
  intro sta hsta heq
  obtain ⟨sta', hsta', heq'⟩ := inMap_iff.mp hmap
  have hd : d < m.infos.length := heq ▸ h.inPool sta (List.mem_append_right _ hsta)
  have howned := h.owned d _ (List.getElem?_eq_getElem hd)
  have hone : 0 < (StaMgr.stas m.map).countP (fun sta => sta.devId = d) :=
    List.countP_pos_iff.mpr ⟨sta', hsta', by simpa using heq'⟩
  have htwo : 0 < held.countP (fun sta => sta.devId = d) :=
    List.countP_pos_iff.mpr ⟨sta, hsta, by simpa using heq⟩
  rw [List.countP_append] at howned
  split_ifs at howned <;> omega

/-- What holds of the manager all along: each device of the step is held by a station of the map. -/
structure Simulated.Inv (size : ℕ) (s : Simulated) : Prop where
  lost : ∃ lost, StaMgr.Inv size s.mgr lost
  fits : KeysFit size s.mgr.infos.length
  inMap : ∀ d ∈ s.holding, InMap s.mgr d

theorem simulated_inv_start (h : s.Start size) : s.Inv size := by
  obtain ⟨-, hholding, infos, hfit, hmgr⟩ := h
  refine ⟨⟨[], hmgr ▸ StaMgr.init_inv size infos⟩, ?_, ?_⟩
  · rw [hmgr]
    simpa [StaMgr.init] using hfit
  · rw [hholding]
    simp

/-- A call that takes no device and loses no station keeps the stations of the devices that it does not
free. -/
theorem inMap_of_inv (h : StaMgr.Inv size m held) (h' : StaMgr.Inv size m' held)
    (hlen : m'.infos.length = m.infos.length) {d : ℕ} (hmap : InMap m d) (huse : isFree m' d = false) :
    InMap m' d := by
  obtain ⟨sta, hsta, rfl⟩ := inMap_iff.mp hmap
  have hd : sta.devId < m'.infos.length := hlen ▸ h.inPool sta (List.mem_append_left _ hsta)
  exact inMap_of_inUse h' hd huse (not_held_of_inMap h hmap)

theorem Simulated.Inv.called (h : s.Inv size) (hinv : StaMgr.Inv size m' held)
    (hlen : m'.infos.length = s.mgr.infos.length)
    (hkeeps : ∀ d, InMap s.mgr d → isFree m' d = false → InMap m' d) : (s.called m').Inv size := by
  refine ⟨⟨held, hinv⟩, hlen ▸ h.fits, fun d hd => ?_⟩
  obtain ⟨hold, huse⟩ := List.mem_filter.mp hd
  exact hkeeps d (h.inMap d hold) (by simpa using huse)

theorem simulated_inv_execute {ans : ExecAnswers} (h : s.Inv size) (hmeets : s.Meets (.execute ans))
    (hexec : s.execute size ans = some s') : s'.Inv size := by
  unfold Simulated.execute at hexec
  split_ifs at hexec with hdecoded
  · cases hexec
    exact ⟨h.lost, h.fits, h.inMap⟩
  · obtain ⟨⟨m, code, keys⟩, hadd, rfl⟩ := Option.map_eq_some_iff.mp hexec
    obtain ⟨lost, hmgr⟩ := h.lost
    have hrun : StaMgr.step size s.mgr (.addSta s.cfg ans.prep ans.conn) = some m := by
      change (StaMgr.addSta size s.cfg ans.prep ans.conn s.mgr).map Prod.fst = some m
      rw [hadd]
      rfl
    obtain ⟨hinv, hlen⟩ := StaMgr.addSta_inv hmgr (hmeets (by simpa using hdecoded)) hrun
    refine ⟨⟨lost, hinv⟩, hlen ▸ h.fits, fun d hd => ?_⟩
    -- a device that was free is no lost station's
    obtain ⟨hrange, htaken⟩ := List.mem_filter.mp hd
    have hlt := List.mem_range.mp hrange
    obtain ⟨hfree, huse⟩ := Bool.and_eq_true_iff.mp htaken
    have hnone := (isFree_iff hmgr hlt).mp hfree
    exact inMap_of_inUse hinv (hlen ▸ hlt) (by simpa using huse)
      fun sta hsta => hnone sta (List.mem_append_right _ hsta)

theorem simulated_inv_other {op : StaMgr.Op} (h : s.Inv size) (hstep : StaMgr.step size s.mgr op = some m') :
    (s.called m').Inv size := by
  obtain ⟨lost, hmgr⟩ := h.lost
  by_cases hop : ∃ cfg prep conn, op = .addSta cfg prep conn
  · obtain ⟨cfg, prep, conn, rfl⟩ := hop
    obtain ⟨hlen, lost', hinv⟩ := StaMgr.addSta_held hmgr hstep
    refine h.called hinv hlen fun d hmap _ => ?_
    obtain ⟨e, he, hd⟩ := hmap
    exact ⟨e, (addSta_map hstep).subset he, hd⟩
  · obtain ⟨hinv, hlen⟩ := StaMgr.step_held hmgr h.fits (fun cfg prep conn heq => hop ⟨cfg, prep, conn, heq⟩) hstep
    exact h.called hinv hlen fun d hmap huse => inMap_of_inv hmgr hinv hlen hmap huse

theorem simulated_inv_next {label : SimLabel} (h : s.Inv size) (hmeets : s.Meets label)
    (hnext : simNext size s label = some s') : s'.Inv size := by
  cases label with
  | execute ans =>
      exact simulated_inv_execute h hmeets (Option.ite_none_right_eq_some.mp hnext).2
  | move mv =>
      simp only [simNext] at hnext
      split at hnext
      · cases hnext
      · rename_i step hstep
        obtain ⟨step', -, rfl⟩ := Option.map_eq_some_iff.mp hnext
        obtain ⟨lost, hmgr⟩ := h.lost
        obtain ⟨hinv, -, hlen⟩ :=
          removeKeys_keeps ((removals s.stepCfg step mv).filterMap fun i => s.keys[i]?) hmgr
        have hcalled := h.called hinv hlen fun d hmap huse => inMap_of_inv hmgr hinv hlen hmap huse
        exact ⟨hcalled.lost, hcalled.fits, hcalled.inMap⟩
  | other op =>
      obtain ⟨m, hstep, rfl⟩ := Option.map_eq_some_iff.mp hnext
      exact simulated_inv_other h hstep

/-- A device of the step is in use only by a station of the map, and `step_remove` takes those out. -/
theorem simulated_released (h : s.Inv size) (hreleases : s.Releases) : s.Released := by
  intro d hd
  obtain ⟨lost, hmgr⟩ := h.lost
  obtain ⟨hinv, hsub, hlen⟩ := removeKeys_keeps s.associated hmgr
  have hmap := h.inMap d hd
  have hlt : d < (removeKeys s.associated s.mgr).infos.length := by
    obtain ⟨sta, hsta, rfl⟩ := inMap_iff.mp hmap
    exact hlen ▸ hmgr.inPool sta (List.mem_append_left _ hsta)
  refine (isFree_iff hinv hlt).mpr fun sta hsta => ?_
  rcases List.mem_append.mp hsta with hleft | hlost
  · rintro rfl
    obtain ⟨e, he, hdata⟩ := List.mem_filterMap.mp hleft
    obtain ⟨hassoc, hnew⟩ := hreleases e (hsub.subset he) sta hdata hd
    exact not_mem_removeKeys hmgr h.fits hassoc hnew he
  · exact not_held_of_inMap hmgr hmap sta hlost

theorem simulated_of_run {s₀ : Simulated} (hstart : s₀.Start size) (h : Run (simNext size) Simulated.Meets s₀ s)
    (hreleases : s.Releases) : s.Released :=
  simulated_released (run_invariant (fun _ _ _ hs hmeets hnext => simulated_inv_next hs hmeets hnext) h
    (simulated_inv_start hstart)) hreleases

end SimulatedLemmas

end OneWifiTestSuite.StepRelease
