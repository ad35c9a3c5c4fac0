import OneWifiTestSuite.BitSet
import OneWifiTestSuite.Invariant

/-!
# The mask of pending steps

`pending_steps` stands for the set of the steps whose `results` have not been processed yet.
`OwnBits` says that it does so in every run: it starts as the set of all steps, `clear_pending_step`
takes out exactly its step, and the mask is zero (so that the test can be done) only when every
step has been processed.

A 32-bit mask has room for 32 steps, and `decode_step_config` accepts any number:
`ownBits_iff` says for which numbers of steps, and on which targets, the mask has a bit for each.
-/

namespace OneWifiTestSuite.Scheduler

open Runs Steps BitSet

/-- The steps whose `results` have not been processed. -/
def unprocessed (q : StepQueue) (log : List Event) : Set ℕ :=
  {k | k < q.total ∧ .processed k ∉ log}

/-- The mask has its own bit for every step, in every run. -/
structure OwnBits (T : Target) (q : StepQueue) : Prop where
  clear : ∀ (s : St) (k : ℕ), k < q.total →
    bits (s.clearPendingStep T k).pendingSteps = bits s.pendingSteps \ {k}
  pending : ∀ (coverage : Coverage) (pendingSteps : BitVec 32) (s : St),
    Run (next T) (fun _ _ => True) (init q coverage pendingSteps) s → s.pc ≠ .idle → s.pc ≠ .entry →
      bits s.pendingSteps = unprocessed q s.log
  done : ∀ (coverage : Coverage) (pendingSteps : BitVec 32) (s : St),
    Run (next T) (fun _ _ => True) (init q coverage pendingSteps) s → s.testState = .results →
      s.pendingSteps = 0 ∧ ∀ k, k < q.total → .processed k ∈ s.log

/-- The mask has room for the steps, and the target computes it. -/
def Fits (T : Target) (q : StepQueue) : Prop :=
  q.total ≤ 30 ∨ q.total ≤ 32 ∧ T.ones q.total = 1#32 <<< q.total - 1

section Fits

variable {T : Target} {q : StepQueue}

theorem bits_ones (h : Fits T q) : bits (T.ones q.total) = Set.Iio q.total := by
  rcases h with hle | ⟨hle, hones⟩
  · rw [T.ones_lt _ (by omega)]
    exact bits_lowOnes (by omega)
  · rw [hones]
    exact bits_lowOnes hle

theorem bits_clearPendingStep (h : Fits T q) (s : St) {k : ℕ} (hk : k < q.total) :
    bits (s.clearPendingStep T k).pendingSteps = bits s.pendingSteps \ {k} := by
  have hle : q.total ≤ 32 := by
    rcases h with h | ⟨h, -⟩ <;> omega
  unfold St.clearPendingStep
  rw [T.shl_lt k (by omega)]
  exact bits_clear _ (by omega)

end Fits

section Preserved

variable {T : Target} {q : StepQueue} {s s' : St}

/-- The invariant of the mask. -/
structure Mask (q : StepQueue) (s : St) : Prop where
  pending : s.pc ≠ .idle → s.pc ≠ .entry → bits s.pendingSteps = unprocessed q s.log
  done : s.testState = .results → s.pc = .exited ∧ s.pendingSteps = 0

/-- A move that processes no step and does not end the test. -/
theorem Mask.of_log (h : Mask q s) (hactive : s.pc.active = true) (hpending : s'.pendingSteps = s.pendingSteps)
    (hlog : ∀ k, .processed k ∈ s'.log ↔ .processed k ∈ s.log) (hstate : s'.testState = s.testState) :
    Mask q s' := by
  obtain ⟨hidle, hentry, hexited⟩ := Pc.ne_of_active hactive
  refine ⟨fun _ _ => ?_, fun hres => ?_⟩
  · rw [hpending, h.pending hidle hentry]
    ext k
    simp [unprocessed, hlog]
  · exact absurd (h.done (hstate ▸ hres)).1 hexited

theorem mem_processed_callback {e : Event} {ws : List (ℕ × Write)} (he : ∀ k, e ≠ .processed k) (k : ℕ) :
    .processed k ∈ ((s.note e).writes ws).log ↔ .processed k ∈ s.log := by
  constructor
  · intro h
    rcases List.mem_cons.mp (mem_log_of_mem_log_writes (by simp) h) with heq | hmem
    · exact absurd heq.symm (he k)
    · exact hmem
  · exact fun h => mem_log_writes_of_mem (List.mem_cons_of_mem _ h)

/-- The start of the thread sets the bits of all steps. -/
theorem Mask.of_entry (hfits : Fits T q) (hb : Basic q s) (h : Mask q s) (hpc : s.pc = .entry)
    (hpending : s'.pendingSteps = T.ones s.total) (hlog : s'.log = s.log)
    (hstate : s'.testState = s.testState) : Mask q s' := by
  refine ⟨fun _ _ => ?_, fun hres => ?_⟩
  · rw [hpending, hlog, hb.sound.total, bits_ones hfits, hb.placed.fresh (Or.inr hpc)]
    ext k
    simp [unprocessed]
  · have := (h.done (hstate ▸ hres)).1
    rw [hpc] at this
    cases this

/-- A processed step leaves the set, and its bit the mask. -/
theorem Mask.of_clear (hfits : Fits T q) (hs : Sound q s) (h : Mask q s) (hactive : s.pc.active = true)
    {i : ℕ} {t : Step} (ht : s.steps[i]? = some t) (pc : Pc) :
    Mask q (((s.clearPendingStep T t.stepSeqNum).note (.processed t.stepSeqNum)).goto pc) := by
  obtain ⟨hidle, hentry, hexited⟩ := Pc.ne_of_active hactive
  have hseq := hs.seq ht
  refine ⟨fun _ _ => ?_, fun hres => absurd (h.done hres).1 hexited⟩
  show bits (s.clearPendingStep T t.stepSeqNum).pendingSteps = unprocessed q (_ :: s.log)
  rw [bits_clearPendingStep hfits s (by omega), h.pending hidle hentry]
  ext k
  simp only [unprocessed, Set.mem_sdiff, Set.mem_ofPred_eq, Set.mem_singleton_iff, List.mem_cons,
    Event.processed.injEq, not_or]
  tauto

/-- The end of the thread leaves the mask as it is. -/
theorem Mask.of_exited (h : Mask q s) (hactive : s.pc.active = true)
    (hpending : s'.pendingSteps = s.pendingSteps) (hlog : s'.log = s.log) (hpc : s'.pc = .exited)
    (hdone : s'.testState = .results → s.pendingSteps = 0) : Mask q s' := by
  obtain ⟨hidle, hentry, -⟩ := Pc.ne_of_active hactive
  refine ⟨fun _ _ => ?_, fun hres => ⟨hpc, ?_⟩⟩
  · rw [hpending, hlog]
    exact h.pending hidle hentry
  · rw [hpending]
    exact hdone hres

theorem Mask.move (hfits : Fits T q) (hb : Basic q s) (h : Mask q s) (hmove : Move T s s') :
    Mask q s' := by
  cases hmove with
  | goto pc hgoto => exact h.of_log (goto_active hgoto).1 rfl (fun _ => Iff.rfl) rfl
  | entryEmpty hpc _ => exact h.of_entry hfits hb hpc rfl rfl rfl
  | entry hpc _ => exact h.of_entry hfits hb hpc rfl rfl rfl
  | exitSet hpc _ => exact h.of_log (by simp [hpc, Pc.active]) rfl (fun _ => Iff.rfl) rfl
  | trigger t hpc _ _ => exact h.of_log (by simp [hpc, Pc.active]) rfl (by simp) rfl
  | clear t hpc ht _ => exact h.of_clear hfits hb.sound (by simp [hpc, Pc.active]) ht _
  | tickClear index t hpc ht _ => exact h.of_clear hfits hb.sound (by simp [hpc, Pc.active]) ht _
  | exec coverage tag rest t ws hpc _ _ _ =>
      refine h.of_log (by simp [hpc, Pc.active]) ?_
        (fun k => mem_processed_callback (s := { s with results := rest }) (by simp) k) ?_ <;>
        rw [writes_frame] <;> rfl
  | filter mask seq index t ws pc hpc _ _ _ =>
      refine h.of_log (by simp [hpc, Pc.active]) ?_ (fun k => mem_processed_callback (by simp) k) ?_ <;>
        simp only [St.goto] <;> rw [writes_frame] <;> rfl
  | timeout index t ws hpc _ _ =>
      refine h.of_log (by simp [hpc, Pc.active]) ?_ (fun k => mem_processed_callback (by simp) k) ?_ <;>
        simp only [St.goto] <;> rw [writes_frame] <;> rfl
  | waitFail t hpc _ _ => exact h.of_exited (by simp [hpc, Pc.active]) rfl rfl rfl (by simp [St.fail])
  | tickFail index t hpc _ _ =>
      exact h.of_exited (by simp [hpc, Pc.active]) rfl rfl rfl (by simp [St.fail])
  | noCurrent hpc _ => exact h.of_exited (by simp [hpc, Pc.active]) rfl rfl rfl (by simp)
  | finish hpc hzero =>
      have hactive : s.pc.active = true := by rcases hpc with hpc | ⟨_, hpc⟩ <;> simp [hpc, Pc.active]
      exact h.of_exited hactive rfl rfl rfl fun _ => hzero
  | finishNull cur _ hcur hnull => exact absurd hnull (hb.sound.prevIndex_ne_none hcur)
  | skip coverage ctrl tag rest hpc _ _ =>
      exact h.of_log (by simp [hpc, Pc.active]) rfl (fun _ => Iff.rfl) rfl
  | frame rest hpc _ => exact h.of_log (by simp [hpc, Pc.active]) rfl (fun _ => Iff.rfl) rfl
  | select cur t index hpc _ _ _ _ => exact h.of_log (by simp [hpc, Pc.active]) rfl (fun _ => Iff.rfl) rfl
  | found index t hpc _ _ => exact h.of_log (by simp [hpc, Pc.active]) rfl (fun _ => Iff.rfl) rfl

theorem Mask.env {a : Action} (hb : Basic q s) (h : Mask q s) (henv : Env s a s') : Mask q s' := by
  cases henv with
  | created hstart =>
      have hidle := hb.placed.create hstart
      refine ⟨by simp, fun hres => ?_⟩
      have := (h.done hres).1
      rw [hidle] at this
      cases this
  | wrote index w _ =>
      have hlog : ∀ k, .processed k ∈ (s.write index w).log ↔ .processed k ∈ s.log := by
        intro k
        simp [mem_log_write]
      have hframe := writes_frame s [(index, w)]
      have hwrite : s.write index w = s.writes [(index, w)] := rfl
      refine ⟨fun hidle hentry => ?_, fun hres => ?_⟩
      · have hbits : unprocessed q (s.write index w).log = unprocessed q s.log := by
          ext k
          simp [unprocessed, hlog]
        rw [hbits]
        rw [hwrite, hframe] at hidle hentry ⊢
        exact h.pending hidle hentry
      · rw [hwrite, hframe] at hres ⊢
        exact h.done hres
  | _ => exact ⟨h.pending, h.done⟩

theorem mask_of_run (hfits : Fits T q) {C : St → Action → Prop} {coverage : Coverage}
    {pendingSteps : BitVec 32} (h : Run (next T) C (init q coverage pendingSteps) s) :
    Basic q s ∧ Mask q s := by
  refine run_invariant (I := fun s => Basic q s ∧ Mask q s) ?_ h
    ⟨basic_init coverage pendingSteps, by simp [init], by simp [init]⟩
  rintro s a t ⟨hb, hmask⟩ - hnext
  refine ⟨basic_next hb hnext, ?_⟩
  rcases next_cases hnext with henv | ⟨c, -, hmove⟩
  · exact hmask.env hb henv
  · exact hmask.move hfits hb hmove

end Preserved

section OwnBits

variable {T : Target} {q : StepQueue}

theorem ownBits_of_fits (hfits : Fits T q) : OwnBits T q := by
  refine ⟨fun s k => bits_clearPendingStep hfits s, fun coverage pendingSteps s hrun => ?_,
    fun coverage pendingSteps s hrun hres => ?_⟩
  · exact (mask_of_run hfits hrun).2.pending
  · obtain ⟨-, hmask⟩ := mask_of_run hfits hrun
    obtain ⟨hpc, hzero⟩ := hmask.done hres
    refine ⟨hzero, fun k hk => ?_⟩
    have hpending := hmask.pending (by simp [hpc]) (by simp [hpc])
    rw [hzero, bits_zero] at hpending
    by_contra hnot
    have hmem : k ∈ unprocessed q s.log := ⟨hk, hnot⟩
    rw [← hpending] at hmem
    exact hmem

theorem exists_entryStep (s : St) : ∃ s', entryStep T s = some s' ∧
    s'.pendingSteps = T.ones s.total ∧ s'.log = s.log ∧ s'.pc ≠ .idle ∧ s'.pc ≠ .entry := by
  unfold entryStep
  cases s.steps[s.total - 1]? with
  | none =>
      exact ⟨_, rfl, rfl, rfl, by simp, by simp⟩
  | some t =>
      exact ⟨_, rfl, rfl, rfl, by simp, by simp⟩

/-- The mask in the state after the start of the thread. -/
theorem bits_of_ownBits (h : OwnBits T q) : bits (T.ones q.total) = Set.Iio q.total := by
  let s : St := { init q .coverage1 0 with startPc := .subscribe, pc := .entry }
  obtain ⟨s', hentry, hpending, hlog, hidle, hpc⟩ := exists_entryStep (T := T) s
  have hcreate : next T (init q .coverage1 0) (.create true) = some s := rfl
  have hthread : next T s (.thread {}) = some s' := hentry
  have hrun : Run (next T) (fun _ _ => True) (init q .coverage1 0) s' :=
    ((Run.refl _).step trivial hcreate).step trivial hthread
  have hbits := h.pending .coverage1 0 s' hrun hidle hpc
  have htotal : s.total = q.total := rfl
  rw [hpending, hlog, htotal] at hbits
  rw [hbits]
  ext k
  simp [unprocessed, s, init]

theorem fits_of_ownBits (h : OwnBits T q) : Fits T q := by
  have hbits := bits_of_ownBits h
  have hle : q.total ≤ 32 := by
    by_contra hgt
    have hmem : 32 ∈ bits (T.ones q.total) := by
      rw [hbits]
      exact Set.mem_Iio.mpr (by omega)
    exact absurd (lt_of_mem_bits hmem) (by omega)
  refine Or.inr ⟨hle, ?_⟩
  apply bits_injective
  rw [hbits]
  exact (bits_lowOnes hle).symm

/-- **The mask has its own bit for every step exactly when it fits**: up to 30 steps on every
target, and for 31 and 32 steps where the undefined `(1 << n) - 1` happens to have `n` ones. -/
theorem ownBits_iff (T : Target) (q : StepQueue) : OwnBits T q ↔ Fits T q :=
  ⟨fits_of_ownBits, ownBits_of_fits⟩

/-- A queue of `n` steps that are not forked. -/
def plainSteps : ℕ → StepQueue
  | 0 => .empty
  | n + 1 => (plainSteps n).push (n + 1) false

/-- With 32 steps and a target that masks the shift count, the mask is 0 from the start, and the
test is done after its first step. -/
theorem plainSteps_32_done_early :
    ((execTo (next .masking) (init (plainSteps 32) .coverage1 0)
      [.create true, .subscribe, .thread {}, .thread {}, .deliver, .thread {},
        .thread { execWrites := [(31, .results)] }, .thread {}, .thread {}, .thread {}, .thread {}]).map
      fun s => (s.pendingSteps, s.testState, s.sigs, s.log)) =
      some (0, .results, [.done],
        [.processed 0, .wrote 0 .results, .exec (some 0) 0, .trigger 0]) := by
  decide

theorem not_ownBits_plainSteps_32 : ¬ OwnBits .masking (plainSteps 32) := by
  intro h
  obtain ⟨s, hs, hval⟩ := Option.map_eq_some_iff.mp plainSteps_32_done_early
  simp only [Prod.mk.injEq] at hval
  obtain ⟨-, hall⟩ := h.done .coverage1 0 s (run_of_execTo hs) hval.2.1
  have hprocessed := hall 1 (by decide)
  rw [hval.2.2.2] at hprocessed
  simp at hprocessed

end OwnBits

end OneWifiTestSuite.Scheduler
