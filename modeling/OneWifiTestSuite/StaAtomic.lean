import OneWifiTestSuite.StaMgr

/-!
# Errors of `add_sta`

`add_sta` has ten points at which it gives up. The first of them, before `set_dev_busy`, leaves
everything as it was; every later one returns with the devices of all clients so far in use, and
the second phase also with their entries in `m_sta_map` and in the list of connected clients. So a
call is all or nothing exactly when it cannot fail behind the first `set_dev_busy`
(`addSta_atomic_iff`).
-/

namespace OneWifiTestSuite.StaMgr

open HashMap StaKey

section Atomic

variable {size : ℕ} {cfg : StaTest} {prep : ℕ → PrepAnswers} {conn : ℕ → ConnectAnswers} {m : Mgr}

/-- A call that returns an error leaves the status of every device, `m_sta_map` and the list of
connected clients as they were. -/
def AddStaAtomic (size : ℕ) (cfg : StaTest) (prep : ℕ → PrepAnswers) (conn : ℕ → ConnectAnswers)
    (m : Mgr) : Prop :=
  ∀ m' code keys, addSta size cfg prep conn m = some (m', code, keys) → code ≠ 0 →
    m'.infos.map StaInfo.status = m.infos.map StaInfo.status ∧ m'.map = m.map ∧ keys = []

/-- No answer to the second phase makes it return early. -/
def ConnectAnswers.GoesOn (cfg : StaTest) (ans : ConnectAnswers) : Prop :=
  ans.connect = true → cfg.clientInfoQ = true ∧ ans.mallocClientInfo = true

/-- There is no client to add, the call gives up before it takes a device, or nothing makes it
return early. -/
def NoLateError (cfg : StaTest) (prep : ℕ → PrepAnswers) (conn : ℕ → ConnectAnswers) (m : Mgr) : Prop :=
  cfg.clientCount = 0 ∨ freeCount m = 0 ∨ cfg.knownModel = false ∨
    cfg.clientCount ≤ freeCount m ∧
      ∀ i, i < cfg.clientCount → (prep i).Ok cfg ∧ (conn i).GoesOn cfg

theorem freeCount_eq (m : Mgr) : freeCount m = (m.infos.map StaInfo.status).countP (· = .free) := by
  unfold freeCount
  rw [List.countP_map]
  rfl

/-- With a failing call a turn of the first phase stops, with the device taken. -/
theorem prepare_stop {n : ℕ} {ctxs : List PrepCtx} {devId : ℕ} {info : StaInfo}
    (hfind : findFirstFreeDev m = some devId) (hinfo : m.infos[devId]? = some info)
    (hmodel : cfg.knownModel = true) (hok : ¬(prep ctxs.length).Ok cfg) :
    ∃ cs, prepare size cfg prep (n + 1) m ctxs =
      some ({ log (setDevBusy m devId) cs with nextAddr := m.nextAddr + 1 }, none) := by
  simp only [prepare, hfind, hinfo]
  split_ifs with h₀ h₁ h₂ h₃ h₄ h₅
  · rw [hmodel] at h₀
    cases h₀
  · exact ⟨_, rfl⟩
  · exact ⟨_, rfl⟩
  · exact ⟨[_, _], by rw [log_set, log_log]; rfl⟩
  · exact ⟨[_, _], by rw [log_set, log_log]; rfl⟩
  · exact ⟨[_, _, _], by rw [log_set, log_log, log_set, log_log]; rfl⟩
  · rw [Bool.not_eq_false] at h₁ h₂ h₃ h₄
    refine absurd ⟨h₁, h₂, h₃, h₄, fun hproto => ?_⟩ hok
    rw [← Bool.not_eq_false]
    exact fun hconf => h₅ ⟨hproto, hconf⟩

/-- What the first phase does on a known model: it prepares all clients exactly when there are
devices for them and no call fails, and it never gives a device back. -/
structure Prepared (cfg : StaTest) (prep : ℕ → PrepAnswers) (n k : ℕ) (m m' : Mgr)
    (r : Option (List PrepCtx)) : Prop where
  complete : r ≠ none ↔ n ≤ freeCount m ∧ ∀ i, k ≤ i → i < k + n → (prep i).Ok cfg
  length : ∀ ctxs, r = some ctxs → ctxs.length = k + n
  map : m'.map = m.map
  free_le : freeCount m' ≤ freeCount m
  takes : 0 < n → freeCount m ≠ 0 → freeCount m' < freeCount m

theorem prepare_prepared (hmodel : cfg.knownModel = true) (n : ℕ) (m : Mgr) (ctxs : List PrepCtx) :
    ∃ m' r, prepare size cfg prep n m ctxs = some (m', r) ∧
      Prepared cfg prep n ctxs.length m m' r := by
  induction n generalizing m ctxs with
  | zero =>
      refine ⟨m, some ctxs, rfl, ?_, ?_, rfl, le_rfl, by simp⟩
      · simp only [ne_eq, reduceCtorEq, not_false_eq_true, true_iff]
        exact ⟨Nat.zero_le _, fun i hle hlt => by omega⟩
      · rintro _ ⟨⟩
        rfl
  | succ n ih =>
      by_cases hzero : freeCount m = 0
      · refine ⟨m, none, prepare_no_free hzero, ?_, by simp, rfl, le_rfl, fun _ hne => absurd hzero hne⟩
        simp only [ne_eq, not_true, false_iff]
        rintro ⟨hle, -⟩
        omega
      obtain ⟨devId, info, hfind, hinfo, hfree⟩ := exists_free hzero
      have hbusy : freeCount (setDevBusy m devId) + 1 = freeCount m := freeCount_setDevBusy hinfo hfree
      by_cases hok : (prep ctxs.length).Ok cfg
      · obtain ⟨m', r, hrun, hprep⟩ := ih (taken cfg m devId info) (ctxs ++ [takenCtx size cfg m devId info])
        have htaken : freeCount (taken cfg m devId info) = freeCount (setDevBusy m devId) := rfl
        have hlength := hprep.length
        have hcomplete := hprep.complete
        have hle := hprep.free_le
        rw [List.length_append, List.length_singleton] at hlength hcomplete
        refine ⟨m', r, (prepare_succ hfind hinfo hmodel hok).trans hrun, ?_, ?_, hprep.map, by omega,
          fun _ _ => by omega⟩
        · rw [hcomplete]
          refine ⟨fun ⟨hcount, hall⟩ => ⟨by omega, fun i hi hlt => ?_⟩,
            fun ⟨hcount, hall⟩ => ⟨by omega, fun i hi hlt => hall i (by omega) (by omega)⟩⟩
          rcases Nat.eq_or_lt_of_le hi with rfl | hi
          · exact hok
          · exact hall i hi (by omega)
        · intro cs hcs
          have := hlength cs hcs
          omega
      · obtain ⟨cs, hstop⟩ : ∃ cs, prepare size cfg prep (n + 1) m ctxs = _ :=
          prepare_stop hfind hinfo hmodel hok
        have hlog : freeCount { log (setDevBusy m devId) cs with nextAddr := m.nextAddr + 1 } =
            freeCount (setDevBusy m devId) := rfl
        refine ⟨_, none, hstop, ?_, by simp, rfl, by omega, fun _ _ => by omega⟩
        simp only [ne_eq, not_true, false_iff]
        rintro ⟨-, hall⟩
        exact hok (hall _ le_rfl (by omega))

/-- The second phase leaves the pool alone. -/
theorem connectAll_infos (ctxs : List PrepCtx) (i : ℕ) (m : Mgr) (keys : List CString) :
    (connectAll cfg conn ctxs i m keys).1.infos = m.infos := by
  induction ctxs generalizing i m keys with
  | nil =>
      rfl
  | cons ctx ctxs ih =>
      simp only [connectAll]
      split_ifs
      · exact ih _ _ _
      · rfl
      · rfl
      · exact ih _ _ _
      · exact ih _ _ _

/-- The second phase returns an error exactly when an answer makes it return early. -/
theorem connectAll_code (ctxs : List PrepCtx) (i : ℕ) (m : Mgr) (keys : List CString) :
    (connectAll cfg conn ctxs i m keys).2.1 = 0 ↔
      ∀ j, i ≤ j → j < i + ctxs.length → (conn j).GoesOn cfg := by
  induction ctxs generalizing i m keys with
  | nil =>
      simp only [connectAll, List.length_nil, true_iff]
      intro j hle hlt
      omega
  | cons ctx ctxs ih =>
      have hsplit : (∀ j, i ≤ j → j < i + (ctx :: ctxs).length → (conn j).GoesOn cfg) ↔
          (conn i).GoesOn cfg ∧ ∀ j, i + 1 ≤ j → j < i + 1 + ctxs.length → (conn j).GoesOn cfg := by
        rw [List.length_cons]
        refine ⟨fun h => ⟨h i le_rfl (by omega), fun j hle hlt => h j (by omega) (by omega)⟩, ?_⟩
        rintro ⟨hi, hrest⟩ j hle hlt
        rcases Nat.eq_or_lt_of_le hle with rfl | hle
        · exact hi
        · exact hrest j hle (by omega)
      rw [hsplit]
      unfold ConnectAnswers.GoesOn at ih ⊢
      simp only [connectAll]
      split_ifs with hconnect hqueue hmalloc
      · simp [ih, hconnect]
      · simp [hconnect, hqueue]
      · simp [hmalloc, hconnect]
      · simp_all
      · simp_all

/-- **`add_sta` is all or nothing exactly when it cannot fail behind the first `set_dev_busy`.** -/
theorem addSta_atomic_iff (size : ℕ) (cfg : StaTest) (prep : ℕ → PrepAnswers)
    (conn : ℕ → ConnectAnswers) (m : Mgr) :
    AddStaAtomic size cfg prep conn m ↔ NoLateError cfg prep conn m := by
  by_cases hcount : cfg.clientCount = 0
  · refine iff_of_true ?_ (Or.inl hcount)
    intro m' code keys hrun hcode
    simp only [addSta, hcount, prepare, connectAll, Option.some.injEq, Prod.mk.injEq] at hrun
    exact absurd hrun.2.1.symm hcode
  obtain ⟨n, hn⟩ := Nat.exists_eq_succ_of_ne_zero hcount
  by_cases hfree : freeCount m = 0
  · refine iff_of_true ?_ (Or.inr (Or.inl hfree))
    rintro m' code keys hrun -
    simp only [addSta, hn, prepare_no_free hfree, Option.some.injEq, Prod.mk.injEq] at hrun
    obtain ⟨rfl, -, rfl⟩ := hrun
    exact ⟨rfl, rfl, rfl⟩
  cases hmodel : cfg.knownModel with
  | false =>
      refine iff_of_true ?_ (Or.inr (Or.inr (Or.inl hmodel)))
      rintro m' code keys hrun -
      simp [addSta, hn, prepare_unknown hmodel hfree] at hrun
  | true =>
      obtain ⟨m₁, r, hprep, hspec⟩ : ∃ m₁ r, prepare size cfg prep cfg.clientCount m [] = some (m₁, r) ∧ _ :=
        prepare_prepared hmodel cfg.clientCount m []
      have hless : freeCount m₁ < freeCount m := hspec.takes (by omega) hfree
      have hcomplete := hspec.complete
      have hlength := hspec.length
      simp only [List.length_nil, Nat.zero_le, true_implies, Nat.zero_add] at hcomplete hlength
      have hno : NoLateError cfg prep conn m ↔ cfg.clientCount ≤ freeCount m ∧
          ∀ i, i < cfg.clientCount → (prep i).Ok cfg ∧ (conn i).GoesOn cfg := by
        simp [NoLateError, hcount, hfree, hmodel]
      rw [hno]
      cases r with
      | none =>
          have hrun : addSta size cfg prep conn m = some (m₁, -1, []) := by
            simp only [addSta, hprep]
          refine iff_of_false (fun hatomic => ?_) (fun hall => ?_)
          · have hsame := (hatomic m₁ _ _ hrun (by decide)).1
            rw [freeCount_eq, freeCount_eq, hsame] at hless
            exact absurd hless (lt_irrefl _)
          · exact hcomplete.mpr ⟨hall.1, fun i hi => (hall.2 i hi).1⟩ rfl
      | some ctxs =>
          have hprepared := hcomplete.mp (by simp)
          have hrun : addSta size cfg prep conn m = some (connectAll cfg conn ctxs 0 m₁ []) := by
            simp only [addSta, hprep]
          have hinfos : (connectAll cfg conn ctxs 0 m₁ []).1.infos = _ := connectAll_infos ctxs 0 m₁ []
          have hcode : (connectAll cfg conn ctxs 0 m₁ []).2.1 = 0 ↔ _ := connectAll_code ctxs 0 m₁ []
          rw [hlength ctxs rfl, Nat.zero_add] at hcode
          refine ⟨fun hatomic => ⟨hprepared.1, fun i hi => ⟨hprepared.2 i hi, ?_⟩⟩, fun hall => ?_⟩
          · refine hcode.mp ?_ i (Nat.zero_le _) hi
            by_contra herror
            have hsame := (hatomic _ _ _ hrun herror).1
            rw [freeCount_eq, freeCount_eq, ← hsame, hinfos] at hless
            exact absurd hless (lt_irrefl _)
          · rintro m' code keys hrun' herror
            rw [hrun, Option.some.injEq] at hrun'
            have hzero := hcode.mpr fun j _ hj => (hall.2 j hj).2
            rw [hrun'] at hzero
            exact absurd hzero herror

/-- The second of two clients finds no device: the first device stays in use. -/
theorem not_addStaAtomic_twoClients :
    ¬∀ (size : ℕ) (cfg : StaTest) (prep : ℕ → PrepAnswers) (conn : ℕ → ConnectAnswers) (m : Mgr),
      AddStaAtomic size cfg prep conn m := by
  intro hall
  have hsame := hall 18 ⟨1, 2, true, "brlan0", false, true⟩ (fun _ => ⟨true, true, true, true, true⟩)
    (fun _ => ⟨true, true, true⟩) (init oneDevice) _ _ _ rfl (by decide)
  exact absurd hsame.1 (by decide)

end Atomic

end OneWifiTestSuite.StaMgr
