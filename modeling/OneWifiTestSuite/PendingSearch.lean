import OneWifiTestSuite.Invariant

/-!
# The search for the next pending step

`get_next_pending_step` counts an `unsigned int` down while it is `>= 0`, so its loop ends only by
a `return`. Worker threads write `results` into their steps while the thread is on its way from the
timeout loop, which clears the bits of `pending_steps`, to the search, which looks at the states.

A turn of the search goes to the step before, cyclically, so a step that is not in `results` is
found within as many turns as there are steps, whatever the others do meanwhile
(`Searching.turns_le`). When all steps are in `results` and a bit is left, no turn ends the search
(`stuck_turn`). `getNextPendingStep_ends_iff` puts both together for every reachable state.
-/

namespace OneWifiTestSuite.Scheduler

open Runs Steps

section Search

variable {T : Target} {q : StepQueue} {s s' : St} {c : Choice}

/-- The thread is inside `get_next_pending_step`. -/
def Pc.searching : Pc → Bool
  | .next | .scan _ => true
  | _ => false

theorem Pc.active_of_searching {pc : Pc} (h : pc.searching = true) : pc.active = true ∧ pc ≠ .loop := by
  cases pc <;> simp_all [Pc.searching, Pc.active]

/-- The thread makes `n` moves and no other thread makes any. -/
def ownMoves (T : Target) : ℕ → St → Option St
  | 0, s => some s
  | n + 1, s => (threadStep T s {}).bind (ownMoves T n)

/-- The search returns, to the move that uses its result. -/
def SearchEnds (T : Target) (s : St) : Prop :=
  ∃ n u, ownMoves T n s = some u ∧ u.pc.searching = false

/-- No bit is left, or the current step is not forked (and the search has not passed it yet), or
some step is not in `results`. -/
def St.FindsStep (s : St) : Prop :=
  s.pendingSteps = 0 ∨
    (s.pc = .next ∧ ∃ cur, s.steps[s.currentTestStep]? = some cur ∧ cur.fork = false) ∨
    ∃ t ∈ s.steps, t.testState ≠ .results

/-- The step at an index is not in `results`. -/
def St.Open (s : St) (index : ℕ) : Prop :=
  ∃ t, s.steps[index]? = some t ∧ t.testState ≠ .results

/-- The search goes on from `s` for some turns, with any moves of the others in between, and the
step at the index stays out of `results`. -/
inductive Searching (T : Target) (index : ℕ) (s : St) : ℕ → St → Prop
  | here : s.pc.searching = true → s.Open index → Searching T index s 0 s
  | turn (n : ℕ) (u v : St) (c : Choice) : Searching T index s n u → next T u (.thread c) = some v →
      v.pc.searching = true → v.Open index → Searching T index s (n + 1) v
  | other (n : ℕ) (u v : St) (a : Action) : Searching T index s n u → (∀ c, a ≠ .thread c) →
      next T u a = some v → v.Open index → Searching T index s n v

/-- A bound on the turns until the search comes to an index. -/
def St.turnsLeft (s : St) (index : ℕ) : ℕ :=
  match s.pc with
  | .scan i => if index < i then i - index else i + s.total - index
  | _ => s.total + 1

theorem prevIndex_lt {index : ℕ} (h : index < s.total) : prevIndex s index < s.total := by
  unfold prevIndex
  split_ifs <;> omega

/-- Going one step back comes closer to every other index. -/
theorem turnsLeft_prevIndex {i index : ℕ} (hi : i < s.total) (hindex : index < s.total)
    (hne : prevIndex s i ≠ index) (hpc : s.pc = .scan i) :
    (s.goto (.scan (prevIndex s i))).turnsLeft index < s.turnsLeft index := by
  have htotal : (s.goto (.scan (prevIndex s i))).total = s.total := rfl
  unfold St.turnsLeft
  rw [htotal, hpc]
  simp only [St.goto]
  unfold prevIndex at hne ⊢
  split_ifs at hne ⊢ <;> omega

end Search

section Place

variable {T : Target} {q : StepQueue} {s s' : St} {c : Choice}

/-- The search stands at a step of the queue. -/
def St.ScanPlaced (s : St) : Prop :=
  ∀ i, s.pc = .scan i → i < s.total

theorem tickNextPc_ne_scan (index i : ℕ) : tickNextPc index ≠ .scan i := by
  cases index <;> simp [tickNextPc]

/-- How a move of the thread comes to a place in the scan. -/
theorem scanPlaced_move (hbasic : Basic q s) (hmove : Move T s s') : s'.ScanPlaced := by
  intro i hpc
  cases hmove with
  | goto pc hgoto =>
      have hpc : pc = .scan i := hpc
      cases hgoto with
      | scan cur _ hcur _ _ =>
          cases hpc
          have hseq := hbasic.sound.seq hcur
          have htotal := hbasic.sound.total
          have hkeep : (s.goto (.scan (s.total - cur.stepSeqNum - 1))).total = s.total := rfl
          omega
      | scanOn index t _ ht _ _ =>
          cases hpc
          exact (List.getElem?_eq_some_iff.mp ht).1
      | tickSkip index _ _ _ => exact absurd hpc (tickNextPc_ne_scan index i)
      | tickGoesOn index _ _ _ _ => exact absurd hpc (tickNextPc_ne_scan index i)
      | _ => cases hpc
  | tickClear index => exact absurd hpc (tickNextPc_ne_scan index i)
  | filter mask seq index t ws pc _ _ _ hto =>
      simp only [St.goto] at hpc
      subst hpc
      rcases hto with hto | hto | hto <;> cases hto
  | _ => simp_all [St.goto, St.finish, St.fail, St.select, St.note]

/-- The others leave the thread where it is, and the steps where they are. -/
theorem env_frame {a : Action} (hbasic : Basic q s) (hactive : s.pc.active = true) (henv : Env s a s') :
    s'.pc = s.pc ∧ s'.total = s.total := by
  have htotal := (hbasic.env henv).sound.total.trans hbasic.sound.total.symm
  refine ⟨?_, htotal⟩
  cases henv with
  | created hstart =>
      have := hbasic.placed.create hstart
      simp [this, Pc.active] at hactive
  | wrote index w _ => exact writes_pc s [(index, w)]
  | _ => rfl

theorem scanPlaced_next {a : Action} (hbasic : Basic q s) (hplaced : s.ScanPlaced)
    (hnext : next T s a = some s') : s'.ScanPlaced := by
  rcases next_cases hnext with henv | ⟨c, -, hmove⟩
  · intro i hpc
    have htotal := (hbasic.env henv).sound.total.trans hbasic.sound.total.symm
    have hkeep : s'.pc = s.pc := by
      cases henv with
      | created => cases hpc
      | wrote index w _ => exact writes_pc s [(index, w)]
      | _ => rfl
    rw [htotal]
    exact hplaced i (hkeep ▸ hpc)
  · exact scanPlaced_move hbasic hmove

/-- In every reachable state the search stands at a step of the queue. -/
theorem scanPlaced_of_run {coverage : Coverage} {pendingSteps : BitVec 32}
    (h : Run (next T) (fun _ _ => True) (init q coverage pendingSteps) s) : s.ScanPlaced := by
  have hboth := run_invariant (I := fun u => Basic q u ∧ u.ScanPlaced)
    (fun _ _ _ hI _ hnext => ⟨basic_next hI.1 hnext, scanPlaced_next hI.1 hI.2 hnext⟩) h
    ⟨basic_init coverage pendingSteps, fun i hpc => by cases hpc⟩
  exact hboth.2

end Place

section Turns

variable {T : Target} {q : StepQueue} {s s' : St} {c : Choice} {index : ℕ}

/-- A turn that stays in the search: it begins the scan, or passes a step in `results`. -/
theorem turn_stays (hmove : Move T s s') (hs : s.pc.searching = true) (hs' : s'.pc.searching = true) :
    ∃ i, s' = s.goto (.scan i) ∧ s.pendingSteps ≠ 0 ∧
      ((∃ cur, s.pc = .next ∧ s.steps[s.currentTestStep]? = some cur ∧ cur.fork = true ∧
          i = s.total - cur.stepSeqNum - 1) ∨
        ∃ j t, s.pc = .scan j ∧ i = prevIndex s j ∧ s.steps[i]? = some t ∧ t.testState = .results) := by
  cases hmove with
  | goto pc hgoto =>
      cases hgoto with
      | scan cur hpc hcur hfork hne => exact ⟨_, rfl, hne, Or.inl ⟨cur, hpc, hcur, hfork, rfl⟩⟩
      | scanOn j t hpc ht hres hne => exact ⟨_, rfl, hne, Or.inr ⟨j, t, hpc, rfl, ht, hres⟩⟩
      | _ => simp_all [Pc.searching]
  | finish => cases hs'
  | noCurrent => cases hs'
  | finishNull => cases hs'
  | select => cases hs'
  | found => cases hs'
  | _ => simp_all [Pc.searching]

theorem threadStep_next (hpc : s.pc = .next) : threadStep T s c = nextStep s := by
  unfold threadStep
  rw [hpc]

theorem threadStep_scan {i : ℕ} (hpc : s.pc = .scan i) : threadStep T s c = scanStep s i := by
  unfold threadStep
  rw [hpc]

/-- The thread is never stuck in the search. -/
theorem turn_enabled (hbasic : Basic q s) (hplaced : s.ScanPlaced) (hs : s.pc.searching = true) :
    ∃ v, threadStep T s c = some v := by
  cases hpc : s.pc with
  | next =>
      rw [threadStep_next hpc]
      unfold nextStep
      split
      · exact ⟨_, rfl⟩
      · split_ifs
        · exact ⟨_, rfl⟩
        · dsimp only
          split
          · exact ⟨_, rfl⟩
          · exact ⟨_, rfl⟩
        · exact ⟨_, rfl⟩
  | scan i =>
      have hlt := prevIndex_lt (hplaced i hpc)
      obtain ⟨t, ht⟩ := hbasic.sound.exists_step (hbasic.sound.total ▸ hlt)
      rw [threadStep_scan hpc]
      simp only [scanStep, ht]
      split_ifs
      · exact ⟨_, rfl⟩
      · exact ⟨_, rfl⟩
      · exact ⟨_, rfl⟩
  | _ => simp [hpc, Pc.searching] at hs

/-- A turn that stays in the search comes closer to every step that is not in `results`. -/
theorem turn_turnsLeft (hbasic : Basic q s) (hplaced : s.ScanPlaced) (hopen : s.Open index)
    (hmove : Move T s s') (hs : s.pc.searching = true) (hs' : s'.pc.searching = true) :
    s'.turnsLeft index < s.turnsLeft index := by
  obtain ⟨t, ht, hstate⟩ := hopen
  have hindex : index < s.total := (List.getElem?_eq_some_iff.mp ht).1
  obtain ⟨i, rfl, -, ⟨cur, hpc, hcur, -, rfl⟩ | ⟨j, t', hpc, rfl, ht', hres⟩⟩ := turn_stays hmove hs hs'
  · have hseq := hbasic.sound.seq hcur
    have htotal := hbasic.sound.total
    have hkeep : (s.goto (.scan (s.total - cur.stepSeqNum - 1))).total = s.total := rfl
    unfold St.turnsLeft
    rw [hkeep, hpc]
    simp only [St.goto]
    split_ifs <;> omega
  · refine turnsLeft_prevIndex (hplaced j hpc) hindex ?_ hpc
    rintro rfl
    rw [ht, Option.some.injEq] at ht'
    exact hstate (ht' ▸ hres)

/-- The first turn of the search takes it to the number of steps, the others below. -/
theorem turnsLeft_pos (hplaced : s.ScanPlaced) (hs : s.pc.searching = true) (hopen : s.Open index) :
    0 < s.turnsLeft index ∧ s.turnsLeft index ≤ s.total + 1 := by
  obtain ⟨t, ht, -⟩ := hopen
  have hindex : index < s.total := (List.getElem?_eq_some_iff.mp ht).1
  unfold St.turnsLeft
  cases hpc : s.pc with
  | scan i =>
      have := hplaced i hpc
      simp only
      split_ifs <;> omega
  | _ => simp_all [Pc.searching]

end Turns

section Bound

variable {T : Target} {q : StepQueue} {s s' u : St} {index : ℕ}

/-- What the search keeps, with the turns it may still take. -/
structure SearchInv (q : StepQueue) (index : ℕ) (s : St) (n : ℕ) (u : St) : Prop where
  basic : Basic q u
  placed : u.ScanPlaced
  searching : u.pc.searching = true
  open_ : u.Open index
  total : u.total = s.total
  turns : n + u.turnsLeft index ≤ s.total + 1

theorem turnsLeft_congr (hpc : s'.pc = s.pc) (htotal : s'.total = s.total) :
    s'.turnsLeft index = s.turnsLeft index := by
  unfold St.turnsLeft
  rw [hpc, htotal]

theorem Searching.inv {n : ℕ} (hbasic : Basic q s) (hplaced : s.ScanPlaced) (h : Searching T index s n u) :
    SearchInv q index s n u := by
  induction h with
  | here hs hopen =>
      have := turnsLeft_pos hplaced hs hopen
      exact ⟨hbasic, hplaced, hs, hopen, rfl, by omega⟩
  | turn n u v c _ hnext hv hopen ih =>
      have hmove := move_of_threadStep hnext
      have hbasic' := basic_next ih.basic hnext
      have hless := turn_turnsLeft ih.basic ih.placed ih.open_ hmove ih.searching hv
      have hturns := ih.turns
      have htotal := hbasic'.sound.total.trans ih.basic.sound.total.symm
      exact ⟨hbasic', scanPlaced_move ih.basic hmove, hv, hopen, htotal.trans ih.total, by omega⟩
  | other n u v a _ ha hnext hopen ih =>
      rcases next_cases hnext with henv | ⟨c, hc, -⟩
      · obtain ⟨hpc, htotal⟩ := env_frame ih.basic (Pc.active_of_searching ih.searching).1 henv
        refine ⟨basic_next ih.basic hnext, scanPlaced_next ih.basic ih.placed hnext, ?_, hopen,
          htotal.trans ih.total, ?_⟩
        · rw [hpc]
          exact ih.searching
        · rw [turnsLeft_congr hpc htotal]
          exact ih.turns
      · exact absurd hc (ha c)

/-- **The bound**: while one step stays out of `results`, the search takes at most one turn for
every step, whatever the other threads do in between. -/
theorem Searching.turns_le {n : ℕ} (hbasic : Basic q s) (hplaced : s.ScanPlaced)
    (h : Searching T index s n u) : n ≤ s.total := by
  have hinv := h.inv hbasic hplaced
  have hpos := (turnsLeft_pos hinv.placed hinv.searching hinv.open_).1
  have hturns := hinv.turns
  omega

end Bound

section Ends

variable {T : Target} {q : StepQueue} {s s' : St} {index : ℕ}

theorem searchEnds_of_turn (hstep : threadStep T s {} = some s') (h : SearchEnds T s') :
    SearchEnds T s := by
  obtain ⟨n, u, hmoves, hu⟩ := h
  refine ⟨n + 1, u, ?_, hu⟩
  simp only [ownMoves, hstep, Option.bind_some]
  exact hmoves

theorem searchEnds_of_left (hs : s.pc.searching = false) : SearchEnds T s :=
  ⟨0, s, rfl, hs⟩

/-- The search ends at the latest at a step that is not in `results`. -/
theorem searchEnds_of_open (hbasic : Basic q s) (hplaced : s.ScanPlaced) (hopen : s.Open index) :
    SearchEnds T s := by
  induction hleft : s.turnsLeft index using Nat.strong_induction_on generalizing s with
  | _ m ih =>
      cases hs : s.pc.searching with
      | false => exact searchEnds_of_left hs
      | true =>
          obtain ⟨v, hv⟩ := turn_enabled (T := T) (c := {}) hbasic hplaced hs
          have hmove := move_of_threadStep hv
          refine searchEnds_of_turn hv ?_
          cases hv' : v.pc.searching with
          | false => exact searchEnds_of_left hv'
          | true =>
              have hless := turn_turnsLeft hbasic hplaced hopen hmove hs hv'
              obtain ⟨i, rfl, -⟩ := turn_stays hmove hs hv'
              exact ih _ (hleft ▸ hless) (hbasic.move hmove) (scanPlaced_move hbasic hmove) hopen rfl

/-- A search that finds a step ends. -/
theorem searchEnds_of_findsStep (hbasic : Basic q s) (hplaced : s.ScanPlaced)
    (hs : s.pc.searching = true) (hfinds : s.FindsStep) : SearchEnds T s := by
  by_cases hopen : ∃ t ∈ s.steps, t.testState ≠ .results
  · obtain ⟨t, ht, hstate⟩ := hopen
    obtain ⟨index, hindex⟩ := List.mem_iff_getElem?.mp ht
    exact searchEnds_of_open hbasic hplaced ⟨t, hindex, hstate⟩
  · obtain ⟨v, hv⟩ := turn_enabled (T := T) (c := {}) hbasic hplaced hs
    refine searchEnds_of_turn hv (searchEnds_of_left ?_)
    rw [Bool.eq_false_iff]
    intro hv'
    obtain ⟨i, -, hne, hplace⟩ := turn_stays (move_of_threadStep hv) hs hv'
    rcases hfinds with hzero | ⟨hpc, cur, hcur, hfork⟩ | hopen'
    · exact hne hzero
    · rcases hplace with ⟨cur', -, hcur', hfork', -⟩ | ⟨j, t, hpc', -⟩
      · rw [hcur, Option.some.injEq] at hcur'
        rw [hcur', hfork'] at hfork
        cases hfork
      · rw [hpc] at hpc'
        cases hpc'
    · exact hopen hopen'

/-- A search that finds no step makes a turn and finds none after it. -/
theorem stuck_turn (hbasic : Basic q s) (hplaced : s.ScanPlaced) (hs : s.pc.searching = true)
    (hnone : ¬s.FindsStep) : ∃ i, threadStep T s {} = some (s.goto (.scan i)) := by
  simp only [St.FindsStep, not_or, not_exists, not_and, not_not] at hnone
  obtain ⟨hne, hfork, hres⟩ := hnone
  cases hpc : s.pc with
  | next =>
      obtain ⟨hactive, hloop⟩ := Pc.active_of_searching hs
      obtain ⟨cur, hcur⟩ := Option.ne_none_iff_exists'.mp (hbasic.current_ne_none hactive hloop)
      have hforked : cur.fork = true := by
        rw [← Bool.not_eq_false]
        exact hfork hpc cur hcur
      refine ⟨s.total - cur.stepSeqNum - 1, ?_⟩
      rw [threadStep_next hpc]
      simp only [nextStep, hcur, if_neg hne, hforked, Bool.true_eq_false, if_false]
  | scan i =>
      have hlt := prevIndex_lt (hplaced i hpc)
      obtain ⟨t, ht⟩ := hbasic.sound.exists_step (hbasic.sound.total ▸ hlt)
      refine ⟨prevIndex s i, ?_⟩
      rw [threadStep_scan hpc]
      simp only [scanStep, ht, hres t (List.mem_of_getElem? ht), ne_eq, not_true, if_false, if_neg hne]
  | _ => simp [hpc, Pc.searching] at hs

/-- A search that finds no step never ends. -/
theorem not_searchEnds_of_stuck (hbasic : Basic q s) (hplaced : s.ScanPlaced)
    (hs : s.pc.searching = true) (hnone : ¬s.FindsStep) : ¬SearchEnds T s := by
  rintro ⟨n, u, hmoves, hu⟩
  induction n generalizing s with
  | zero =>
      cases hmoves
      rw [hs] at hu
      cases hu
  | succ n ih =>
      obtain ⟨i, hturn⟩ := stuck_turn (T := T) hbasic hplaced hs hnone
      have hmove := move_of_threadStep hturn
      simp only [ownMoves, hturn, Option.bind_some] at hmoves
      refine ih (hbasic.move hmove) (scanPlaced_move hbasic hmove) rfl ?_ hmoves
      rintro (hzero | ⟨hpc, -⟩ | hopen)
      · exact hnone (Or.inl hzero)
      · cases hpc
      · exact hnone (Or.inr (Or.inr hopen))

/-- **`get_next_pending_step` ends exactly when it can find a step**: from every reachable state
inside the search, the moves of the thread alone lead out of it if and only if no bit of
`pending_steps` is left, or the current step is not forked, or some step is not in `results`. With
the other threads moving in between, it takes at most one turn for every step as long as one of the
steps stays out of `results`. -/
theorem getNextPendingStep_ends_iff {coverage : Coverage} {pendingSteps : BitVec 32}
    (hrun : Run (next T) (fun _ _ => True) (init q coverage pendingSteps) s)
    (hs : s.pc.searching = true) :
    (SearchEnds T s ↔ s.FindsStep) ∧
      ∀ (index n : ℕ) (u : St), Searching T index s n u → n ≤ s.total := by
  have hbasic := basic_of_run hrun
  have hplaced := scanPlaced_of_run hrun
  refine ⟨⟨fun hends => ?_, searchEnds_of_findsStep hbasic hplaced hs⟩, fun index n u h => ?_⟩
  · by_contra hnone
    exact not_searchEnds_of_stuck hbasic hplaced hs hnone hends
  · exact h.turns_le hbasic hplaced

end Ends

section Sample

/-- A test of one forked step. -/
def oneForked : StepQueue := StepQueue.empty.push 1 true

/-- The timeout loop passes the only step, in `wait`; then come the moves of its worker thread, and
the test thread begins its search. -/
def tickThen (late : List Action) : List Action :=
  [.create true, .subscribe, .thread {}, .thread {}, .deliver, .thread {},
    .thread { execWrites := [(0, .wait)] }, .thread {}, .thread {}, .thread { timedOut := true },
    .thread {}, .thread {}, .thread {}] ++ late ++ [.thread {}]

/-- The state in which the search begins. -/
def searchState (state : TestState) (late : List Event) : St :=
  { init oneForked .coverage1 0 with
    steps := [⟨1, 0, true, state⟩]
    pendingSteps := 1
    currentTestStep := 0
    step := 0
    pc := .next
    startPc := .join
    subs := 1
    log := late ++ [.timeout 0, .wrote 0 .wait, .exec (some 0) 0, .trigger 0] }

/-- The worker writes nothing: the search returns the step. -/
theorem getNextPendingStep_ends_iff_waiting :
    SearchEnds .masking (searchState .wait []) ∧
      ∀ (index n : ℕ) (u : St), Searching .masking index (searchState .wait []) n u → n ≤ 1 := by
  have hrun : execTo (next .masking) (init oneForked .coverage1 0) (tickThen []) =
      some (searchState .wait []) := rfl
  obtain ⟨hends, hturns⟩ := getNextPendingStep_ends_iff (run_of_execTo hrun) rfl
  exact ⟨hends.mpr (Or.inr (Or.inr ⟨_, List.mem_singleton.mpr rfl, by decide⟩)), hturns⟩

/-- The worker writes `results` after the timeout loop has looked at the step: the bit stays set,
and the search never ends. -/
theorem not_searchEnds_lateResults :
    ¬∀ (T : Target) (q : StepQueue) (coverage : Coverage) (pendingSteps : BitVec 32) (s : St),
      Run (next T) (fun _ _ => True) (init q coverage pendingSteps) s → s.pc.searching = true →
        SearchEnds T s := by
  intro hall
  have hrun : execTo (next .masking) (init oneForked .coverage1 0) (tickThen [.async 0 .results]) =
      some (searchState .results [.wrote 0 .results]) := rfl
  have hreach := run_of_execTo hrun
  refine not_searchEnds_of_stuck (basic_of_run hreach) (scanPlaced_of_run hreach) rfl ?_
    (hall .masking oneForked .coverage1 0 _ hreach rfl)
  rintro (hzero | ⟨-, cur, hcur, hfork⟩ | ⟨t, ht, hstate⟩)
  · exact absurd hzero (by decide)
  · cases hcur
    cases hfork
  · rw [List.mem_singleton.mp ht] at hstate
    exact hstate rfl

end Sample

end OneWifiTestSuite.Scheduler
