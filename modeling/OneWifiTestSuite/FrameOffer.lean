import OneWifiTestSuite.Scheduler
import OneWifiTestSuite.StepKinds

/-!
# Offering a message to the steps

`run` takes a copy of the mask of pending steps and shifts it, bit by bit, while it counts sequence
numbers. A step whose bit is set is looked up by its place in the queue and, when it waits, its frame
filter gets the message. Other threads and the filters change the states of the steps meanwhile, so an
`Env` gives the queue anew for every turn of the loop.

`run_offers` says to whom a message is offered, and that the loop ends. That a filter handles the message
or leaves it is so of every step that can be decoded (`ne_other_of_returns`). A turn is a move of the test
thread in the model of all threads (`walkStep_eq_turn`).
-/

namespace OneWifiTestSuite.FrameOffer

open Steps SharedCell StepTypes ConfigSteps LocalSteps
open Scheduler (FilterRet Msg)
open StepKinds (Kind)

/-! ### The code -/

section Code

/-- `get_step_from_index`; the index is an `int`. -/
def getStepFromIndex (steps : List Step) (index : BitVec 32) : Option Step :=
  if index.toInt ≥ steps.length ∨ index.toInt < 0 then none else steps[index.toNat]?

/-- What a turn does: the step that the message is offered to, and `pending_steps` and `step_seq_number` for the next
turn unless `run` returns. -/
structure Turn where
  offered : Option ℕ
  next : Option (BitVec 32 × ℕ)
deriving DecidableEq, Repr

/-- A turn of the loop of `run`, with what a frame filter would return. -/
def turn (steps : List Step) (ret : FilterRet) (mask : BitVec 32) (seq : ℕ) : Turn :=
  if mask.getLsbD 0 = false then ⟨none, some (mask >>> 1, seq + 1)⟩
  else
    match getStepFromIndex steps (BitVec.ofNat 32 steps.length - BitVec.ofNat 32 seq - 1) with
    | none => ⟨none, none⟩
    | some step =>
        if step.testState = .cont ∨ step.testState = .wait then
          match ret with
          | .unhandled => ⟨some step.stepSeqNum, some (mask >>> 1, seq + 1)⟩
          | .handled => ⟨some step.stepSeqNum, none⟩
          | .other => ⟨some step.stepSeqNum, some (mask, seq)⟩
        else ⟨none, some (mask >>> 1, seq + 1)⟩

/-- What `run` meets: the pending steps, and for every turn of the loop the queue and what a filter returns. No step
is added or removed, and every `step_frame_filter` returns `RETURN_HANDLED` or `RETURN_UNHANDLED`. -/
structure Env where
  pendingSteps : BitVec 32
  total : ℕ
  steps : ℕ → List Step
  filterRet : ℕ → FilterRet
  fits : total ≤ 32
  length : ∀ k, (steps k).length = total
  indexed : ∀ k, Indexed (steps k)
  answers : ∀ k, filterRet k ≠ .other

/-- The loop of `run` from a turn on: the steps that the message is offered to, in order; `none` is no end within the
fuel. -/
def loop (env : Env) : ℕ → ℕ → BitVec 32 → ℕ → Option (List ℕ)
  | 0, _, _, _ => none
  | fuel + 1, k, mask, seq =>
      if mask = 0 then some []
      else
        match turn (env.steps k) (env.filterRet k) mask seq with
        | ⟨offered, none⟩ => some offered.toList
        | ⟨offered, some (mask, seq)⟩ => (loop env fuel (k + 1) mask seq).map (offered.toList ++ ·)

/-- `run`; a control message goes to `wlan_emu_handle_emu80211_msg`. -/
def run (env : Env) (fuel : ℕ) : Option Msg → Option (List ℕ)
  | none => some []
  | some (.emu80211 _ _ _) => some []
  | some .frame => loop env fuel 0 env.pendingSteps 0

end Code

/-! ### What filters return -/

section Filters

variable {α β δ : Type}

/-- Whatever others write and calls answer, what comes out meets `Q`. -/
def Gives (Q : α → Prop) (p : Cmd α) : Prop :=
  ∀ s, Sat (fun _ => True) (fun _ _ => True) (fun a _ => Q a) p s

theorem gives_pure {Q : α → Prop} {a : α} (h : Q a) : Gives Q (pure a) :=
  fun _ _ _ => h

theorem gives_ite {Q : α → Prop} {c : Prop} [Decidable c] {p q : Cmd α} (hp : Gives Q p) (hq : Gives Q q) :
    Gives Q (if c then p else q) := by
  by_cases hc : c
  · simpa only [if_pos hc] using hp
  · simpa only [if_neg hc] using hq

theorem gives_bind {R : α → Prop} {Q : β → Prop} {p : Cmd α} {f : α → Cmd β} (hp : Gives R p)
    (hf : ∀ a, R a → Gives Q (f a)) : Gives Q (p >>= f) := by
  intro s
  rw [sat_bind]
  exact (hp s).mono fun a t ha => hf a ha t

theorem gives_true (p : Cmd α) : Gives (fun _ => True) p :=
  fun _ => sat_true

/-- What comes before the value that is returned does not matter. -/
theorem gives_bind_true {Q : β → Prop} {p : Cmd α} {f : α → Cmd β} (hf : ∀ a, Gives Q (f a)) : Gives Q (p >>= f) :=
  gives_bind (gives_true p) fun a _ => hf a

/-- The filter returns `RETURN_HANDLED` or `RETURN_UNHANDLED`. -/
abbrev Answers (p : Cmd (FilterRet × δ)) : Prop :=
  Gives (fun r => r.1 ≠ .other) p

theorem answers_pure {r : FilterRet} {d : δ} (h : r ≠ .other) : Answers (pure (r, d)) :=
  gives_pure h

theorem answers_webconfigFilter (subdoc : Subdoc) (d : ConfigSteps.Data) : Answers (webconfigFilter subdoc d) := by
  apply gives_ite
  · exact gives_bind_true fun _ => answers_pure (by decide)
  · exact answers_pure (by decide)

theorem answers_radioFilter (f : Frame) (d : ConfigSteps.Data) : Answers (radioFilter f d) := by
  cases f with
  | webconfig subdoc =>
      exact answers_webconfigFilter subdoc d
  | cfg80211 ops phyIndex | frm80211 ops clientMac mac | other =>
      exact answers_pure (by decide)

theorem answers_configOnewifiFilter (f : Frame) (d : ConfigSteps.Data) : Answers (configOnewifiFilter f d) := by
  cases f with
  | webconfig subdoc =>
      exact gives_ite (answers_webconfigFilter subdoc d) (answers_pure (by decide))
  | cfg80211 ops phyIndex | frm80211 ops clientMac mac | other =>
      exact answers_pure (by decide)

/-- The loop over the VAP names. -/
theorem gives_vapBeaconLoop (c : Capture) (ops : CfgOps) (n : ℕ) : Gives (· ≠ .other) (vapBeaconLoop c ops n) := by
  induction n with
  | zero =>
      exact gives_pure (by decide)
  | succ n ih =>
      apply gives_ite
      · refine gives_bind_true fun same => gives_ite ?_ ih
        exact gives_bind_true fun _ => gives_pure (by decide)
      · exact gives_pure (by decide)

theorem answers_vapFilter (c : Capture) (f : Frame) (d : ConfigSteps.Data) : Answers (vapFilter c f d) := by
  cases f with
  | cfg80211 ops phyIndex =>
      apply gives_ite (answers_pure (by decide))
      apply gives_ite (answers_pure (by decide))
      refine gives_bind_true fun vaps => ?_
      exact gives_bind (gives_vapBeaconLoop c ops vaps.num) fun ret hret => answers_pure hret
  | webconfig subdoc =>
      exact answers_webconfigFilter subdoc d
  | frm80211 ops clientMac mac | other =>
      exact answers_pure (by decide)

theorem answers_mgmtFrameCaptureFilter (c : Capture) (radioIndex : ℕ) (f : Frame) (d : Counters) :
    Answers (mgmtFrameCaptureFilter c radioIndex f d) := by
  cases f with
  | cfg80211 ops phyIndex =>
      apply gives_ite (answers_pure (by decide))
      apply gives_ite ?_ (answers_pure (by decide))
      exact gives_bind_true fun _ => answers_pure (by decide)
  | frm80211 ops clientMac mac =>
      apply gives_ite (answers_pure (by decide))
      apply gives_ite (answers_pure (by decide))
      cases frameOnRadio radioIndex ops with
      | none =>
          exact answers_pure (by decide)
      | some found =>
          refine gives_bind_true fun found => gives_ite ?_ (answers_pure (by decide))
          exact gives_bind_true fun _ => answers_pure (by decide)
  | webconfig subdoc | other =>
      exact answers_pure (by decide)

/-- The loop over the clients leaves a frame, whichever client it stops at. -/
theorem gives_clientFrames (c : AgentSteps.StaManagement) (ops : FrmOps) (n : ℕ) :
    Gives (· ≠ .other) (AgentSteps.clientFrames c ops n) := by
  have hcapture : Gives (fun ret : Option FilterRet => ret ≠ some .other) (AgentSteps.clientCapture c ops) := by
    refine gives_bind_true fun toClient => gives_ite ?_ (gives_ite ?_ (gives_pure (by decide)))
    · apply gives_ite (gives_pure (by decide))
      apply gives_ite (gives_pure (by decide))
      exact gives_bind_true fun _ => gives_pure (by decide)
    · refine gives_bind_true fun fromClient => gives_ite ?_ (gives_pure (by decide))
      apply gives_ite (gives_pure (by decide))
      apply gives_ite (gives_pure (by decide))
      exact gives_bind_true fun _ => gives_pure (by decide)
  induction n with
  | zero =>
      exact gives_pure (by decide)
  | succ n ih =>
      have hclient : ∀ k : Option FilterRet → Cmd FilterRet, k none = AgentSteps.clientFrames c ops n →
          (∀ ret, k (some ret) = pure ret) → ∀ ret, ret ≠ some .other → Gives (· ≠ .other) (k ret) := by
        rintro k hnone hsome (_ | ret) hret
        · rw [hnone]
          exact ih
        · rw [hsome]
          exact gives_pure fun h => hret (congrArg some h)
      refine gives_bind_true fun client => gives_ite (gives_ite ?_ ih) (gives_pure (by decide))
      refine gives_bind_true fun name => gives_ite (gives_ite ?_ (gives_bind hcapture (hclient _ rfl fun _ => rfl))) ih
      cases c.capture.frames with
      | true =>
          refine gives_bind_true fun _ => gives_bind_true fun sent => gives_ite (gives_pure (by decide)) ?_
          exact gives_bind hcapture (hclient _ rfl fun _ => rfl)
      | false =>
          refine gives_bind_true fun sent => gives_ite (gives_pure (by decide)) ?_
          exact gives_bind hcapture (hclient _ rfl fun _ => rfl)

theorem answers_staManagementFilter (c : AgentSteps.StaManagement) (f : Frame) (d : AgentSteps.Data) :
    Answers (AgentSteps.staManagementFilter c f d) := by
  cases f with
  | frm80211 ops clientMac mac =>
      refine gives_bind_true fun bssid => gives_ite ?_ ?_
      · exact gives_bind_true fun _ => answers_pure (by decide)
      · refine gives_bind_true fun clients => ?_
        exact gives_bind (gives_clientFrames c ops clients.num) fun ret hret => answers_pure hret
  | cfg80211 ops phyIndex =>
      apply gives_ite ?_ (answers_pure (by decide))
      exact gives_bind_true fun _ => answers_pure (by decide)
  | webconfig subdoc | other =>
      exact answers_pure (by decide)

/-- **Every frame filter answers**: one case for each step type that a test case can be decoded to. -/
theorem answers_stepFrameFilter (k : Kind) (f : Frame) (d : k.stepType.Data) :
    Answers (k.stepType.stepFrameFilter f d) := by
  cases k with
  | radio current =>
      exact answers_radioFilter f d
  | vap current capture =>
      exact answers_vapFilter capture f d
  | configOnewifi =>
      exact answers_configOnewifiFilter f d
  | mgmtFrameCapture capture radioIndex duration =>
      exact answers_mgmtFrameCaptureFilter capture radioIndex f d
  | staManagement c =>
      exact answers_staManagementFilter c f d
  | _ =>
      exact gives_pure (by simp)

/-- A value that a filter may return. -/
def Returns (p : Cmd (FilterRet × δ)) (ret : FilterRet) : Prop :=
  ¬ Gives (fun r => r.1 ≠ ret) p

/-- What `Env.answers` asks for is so of every step that was decoded. -/
theorem ne_other_of_returns {k : Kind} {f : Frame} {d : k.stepType.Data} {ret : FilterRet}
    (h : Returns (k.stepType.stepFrameFilter f d) ret) : ret ≠ .other := by
  rintro rfl
  exact h (answers_stepFrameFilter k f d)

end Filters

/-! ### Places in the queue -/

section Places

variable {steps : List Step} {seq : ℕ}

/-- The index is an `unsigned int` that is passed as an `int`. -/
theorem getStepFromIndex_sub (hlen : steps.length ≤ 32) (hseq : seq ≤ 32) :
    getStepFromIndex steps (BitVec.ofNat 32 steps.length - BitVec.ofNat 32 seq - 1) =
      if seq < steps.length then steps[steps.length - seq - 1]? else none := by
  generalize hn : steps.length = n at hlen
  have hone : (1 : BitVec 32).toNat = 1 := rfl
  by_cases hlt : seq < n
  · have hindex : BitVec.ofNat 32 n - BitVec.ofNat 32 seq - 1 = BitVec.ofNat 32 (n - seq - 1) := by
      apply BitVec.eq_of_toNat_eq
      simp only [BitVec.toNat_sub, BitVec.toNat_ofNat, hone]
      omega
    have hnat : (BitVec.ofNat 32 (n - seq - 1)).toNat = n - seq - 1 := by
      rw [BitVec.toNat_ofNat]
      omega
    have hint : (BitVec.ofNat 32 (n - seq - 1)).toInt = (n - seq - 1 : ℕ) := by
      rw [BitVec.toInt_eq_toNat_of_lt (by omega), hnat]
    rw [if_pos hlt, hindex, getStepFromIndex, if_neg (by omega), hnat]
  · have hneg : (BitVec.ofNat 32 n - BitVec.ofNat 32 seq - 1).toInt < 0 := by
      rw [BitVec.toInt_neg_iff]
      simp only [BitVec.toNat_sub, BitVec.toNat_ofNat, hone]
      omega
    rw [if_neg hlt, getStepFromIndex, if_pos (.inr hneg)]

/-- The place of a step in the queue is the one that `run` computes from its number. -/
theorem mem_iff_getElem?_of_indexed (h : Indexed steps) {step : Step} :
    (step ∈ steps ∧ step.stepSeqNum = seq) ↔
      seq < steps.length ∧ steps[steps.length - seq - 1]? = some step := by
  constructor
  · rintro ⟨hmem, rfl⟩
    obtain ⟨i, hi⟩ := List.mem_iff_getElem?.mp hmem
    have hplace := h i step hi
    have hindex : steps.length - step.stepSeqNum - 1 = i := by omega
    exact ⟨by omega, by rw [hindex, hi]⟩
  · rintro ⟨hlt, hget⟩
    have hplace := h _ step hget
    exact ⟨List.mem_of_getElem? hget, by omega⟩

end Places

/-! ### To whom a message is offered -/

section Meaning

/-- The step is pending, and waits in the turn that looks at it. -/
def Eligible (env : Env) (seq : ℕ) : Prop :=
  env.pendingSteps.getLsbD seq = true ∧
    ∃ step ∈ env.steps seq, step.stepSeqNum = seq ∧ (step.testState = .wait ∨ step.testState = .cont)

/-- From a sequence number on, the step is eligible and no step before it has handled the message. -/
def Offered (env : Env) (start seq : ℕ) : Prop :=
  start ≤ seq ∧ Eligible env seq ∧ ∀ s, start ≤ s → s < seq → Eligible env s → env.filterRet s ≠ .handled

variable {env : Env} {seq s : ℕ}

theorem offered_of_not_eligible (h : ¬ Eligible env seq) : Offered env seq s ↔ Offered env (seq + 1) s := by
  constructor
  · rintro ⟨hle, helig, hbefore⟩
    have hne : seq ≠ s := by
      rintro rfl
      exact h helig
    exact ⟨by omega, helig, fun s' hs' => hbefore s' (by omega)⟩
  · rintro ⟨hle, helig, hbefore⟩
    refine ⟨by omega, helig, fun s' hs' hlt helig' => ?_⟩
    have hne : seq ≠ s' := by
      rintro rfl
      exact h helig'
    exact hbefore s' (by omega) hlt helig'

theorem offered_of_handled (h : Eligible env seq) (hret : env.filterRet seq = .handled) :
    Offered env seq s ↔ s = seq := by
  constructor
  · rintro ⟨hle, -, hbefore⟩
    by_contra hne
    exact hbefore seq le_rfl (by omega) h hret
  · rintro rfl
    exact ⟨le_rfl, h, fun s' hs' hlt => absurd hs' (by omega)⟩

theorem offered_of_unhandled (h : Eligible env seq) (hret : env.filterRet seq ≠ .handled) :
    Offered env seq s ↔ s = seq ∨ Offered env (seq + 1) s := by
  constructor
  · rintro ⟨hle, helig, hbefore⟩
    rcases Nat.eq_or_lt_of_le hle with heq | hlt
    · exact .inl heq.symm
    · exact .inr ⟨hlt, helig, fun s' hs' => hbefore s' (by omega)⟩
  · rintro (rfl | ⟨hle, helig, hbefore⟩)
    · exact ⟨le_rfl, h, fun s' hs' hlt => absurd hs' (by omega)⟩
    · refine ⟨by omega, helig, fun s' hs' hlt helig' => ?_⟩
      rcases Nat.eq_or_lt_of_le hs' with rfl | hlt'
      · exact hret
      · exact hbefore s' hlt' hlt helig'

end Meaning

/-! ### The loop -/

section Loop

variable {env : Env} {seq : ℕ}

/-- A step is eligible where its bit is the lowest one of the mask and `run` finds it waiting. -/
theorem eligible_iff : Eligible env seq ↔ ((env.pendingSteps >>> seq).getLsbD 0 = true ∧ ∃ step,
    (seq < env.total ∧ (env.steps seq)[env.total - seq - 1]? = some step) ∧
      (step.testState = .cont ∨ step.testState = .wait)) := by
  rw [BitVec.getLsbD_ushiftRight, Nat.add_zero, Eligible, ← env.length seq]
  refine and_congr_right fun _ => exists_congr fun step => ?_
  rw [← mem_iff_getElem?_of_indexed (env.indexed seq), and_assoc, or_comm]

/-- What a turn does says whether the step is eligible and what its filter returned. -/
theorem turn_cases (hseq : seq ≤ 32) :
    Eligible env seq ∧ env.filterRet seq = .handled ∧
        turn (env.steps seq) (env.filterRet seq) (env.pendingSteps >>> seq) seq = ⟨some seq, none⟩ ∨
      Eligible env seq ∧ env.filterRet seq ≠ .handled ∧
        turn (env.steps seq) (env.filterRet seq) (env.pendingSteps >>> seq) seq =
          ⟨some seq, some (env.pendingSteps >>> (seq + 1), seq + 1)⟩ ∨
      ¬ Eligible env seq ∧
        (turn (env.steps seq) (env.filterRet seq) (env.pendingSteps >>> seq) seq =
            ⟨none, some (env.pendingSteps >>> (seq + 1), seq + 1)⟩ ∨
          env.total ≤ seq ∧
            turn (env.steps seq) (env.filterRet seq) (env.pendingSteps >>> seq) seq = ⟨none, none⟩) := by
  have hlen : (env.steps seq).length ≤ 32 := (env.length seq).trans_le env.fits
  rw [eligible_iff, turn, getStepFromIndex_sub hlen hseq, env.length, ← BitVec.shiftRight_add]
  by_cases hbit : (env.pendingSteps >>> seq).getLsbD 0 = false
  · rw [if_pos hbit]
    exact .inr (.inr ⟨fun h => Bool.noConfusion (hbit.symm.trans h.1), .inl rfl⟩)
  rw [if_neg hbit]
  by_cases hlt : seq < env.total
  · rw [if_pos hlt]
    obtain ⟨step, hget⟩ : ∃ step, (env.steps seq)[env.total - seq - 1]? = some step := by
      apply Option.ne_none_iff_exists'.mp
      rw [Ne, List.getElem?_eq_none_iff, env.length]
      omega
    have hnum : step.stepSeqNum = seq := by
      have hplace := env.indexed seq _ step hget
      rw [env.length] at hplace
      omega
    rw [hget]
    by_cases hstate : step.testState = .cont ∨ step.testState = .wait
    · have helig : (env.pendingSteps >>> seq).getLsbD 0 = true ∧ ∃ found,
          (seq < env.total ∧ some step = some found) ∧ (found.testState = .cont ∨ found.testState = .wait) :=
        ⟨by simpa using hbit, step, ⟨hlt, rfl⟩, hstate⟩
      cases hret : env.filterRet seq with
      | handled =>
          exact .inl ⟨helig, rfl, by simp [hstate, hnum]⟩
      | unhandled =>
          exact .inr (.inl ⟨helig, by simp, by simp [hstate, hnum]⟩)
      | other =>
          exact absurd hret (env.answers seq)
    · refine .inr (.inr ⟨?_, .inl (by simp [hstate])⟩)
      rintro ⟨-, found, ⟨-, hfound⟩, hwaits⟩
      cases hfound
      exact hstate hwaits
  · rw [if_neg hlt]
    exact .inr (.inr ⟨fun h => hlt h.2.choose_spec.1.1, .inr ⟨by omega, rfl⟩⟩)

/-- A mask that is used up leaves no eligible step. -/
theorem not_offered_of_eq_zero (h : env.pendingSteps >>> seq = 0) (s : ℕ) : ¬ Offered env seq s := by
  rintro ⟨hle, ⟨hbit, -⟩, -⟩
  have hgone : (env.pendingSteps >>> seq).getLsbD (s - seq) = true := by
    rw [BitVec.getLsbD_ushiftRight, Nat.add_sub_cancel' hle]
    exact hbit
  rw [h] at hgone
  simp at hgone

/-- A place behind the queue has no step. -/
theorem not_offered_of_total_le (h : env.total ≤ seq) (s : ℕ) : ¬ Offered env seq s := by
  rintro ⟨hle, helig, -⟩
  obtain ⟨-, step, ⟨hlt, -⟩, -⟩ := eligible_iff.mp helig
  omega

/-- The loop from a turn on, where as many bits are gone as turns are past. -/
theorem loop_spec {fuel : ℕ} (h : fuel + seq = 33) (hseq : seq ≤ 32) :
    ∃ log, loop env fuel seq (env.pendingSteps >>> seq) seq = some log ∧ log.Pairwise (· < ·) ∧
      ∀ s, s ∈ log ↔ Offered env seq s := by
  induction fuel generalizing seq with
  | zero =>
      omega
  | succ fuel ih =>
      rw [loop]
      by_cases hmask : env.pendingSteps >>> seq = 0
      · rw [if_pos hmask]
        exact ⟨[], rfl, .nil, fun s => by simp [not_offered_of_eq_zero hmask]⟩
      rw [if_neg hmask]
      have hlt : seq ≠ 32 := by
        rintro rfl
        exact hmask (BitVec.ushiftRight_eq_zero le_rfl)
      have hnext := @ih (seq + 1) (by omega) (by omega)
      obtain ⟨helig, hret, hturn⟩ | ⟨helig, hret, hturn⟩ | ⟨helig, hturn | ⟨htotal, hturn⟩⟩ := turn_cases hseq
      · rw [hturn]
        refine ⟨[seq], rfl, List.pairwise_singleton _ _, fun s => ?_⟩
        rw [List.mem_singleton, offered_of_handled helig hret]
      · rw [hturn]
        obtain ⟨log, hloop, hsorted, hmem⟩ := hnext
        refine ⟨seq :: log, by simp [hloop], List.pairwise_cons.mpr ⟨fun s hs => ?_, hsorted⟩, fun s => ?_⟩
        · exact ((hmem s).mp hs).1
        · rw [List.mem_cons, hmem, offered_of_unhandled helig hret]
      · rw [hturn]
        obtain ⟨log, hloop, hsorted, hmem⟩ := hnext
        refine ⟨log, by simp [hloop], hsorted, fun s => ?_⟩
        rw [hmem, offered_of_not_eligible helig]
      · rw [hturn]
        exact ⟨[], rfl, .nil, fun s => by simp [not_offered_of_total_le htotal]⟩

/-- **To whom a message is offered**: the loop ends, and offers the message in increasing sequence number to exactly
the steps that are pending and wait when `run` comes to them, up to the first that handles it. -/
theorem run_offers (env : Env) :
    ∃ log, run env 33 (some .frame) = some log ∧ log.Pairwise (· < ·) ∧ ∀ seq, seq ∈ log ↔
      Eligible env seq ∧ ∀ s < seq, Eligible env s → env.filterRet s ≠ .handled := by
  obtain ⟨log, hrun, hsorted, hmem⟩ := @loop_spec env 0 33 rfl (by omega)
  refine ⟨log, by simpa [run] using hrun, hsorted, fun seq => ?_⟩
  simp [hmem, Offered]

/-- Three forked steps: the first is done, the second waits and leaves the message, and the third handles it. -/
def forked : Env where
  pendingSteps := 6
  total := 3
  steps := fun _ => [⟨3, 2, true, .cont⟩, ⟨2, 1, true, .wait⟩, ⟨1, 0, true, .results⟩]
  filterRet := fun k => if k = 2 then .handled else .unhandled
  fits := by decide
  length := fun _ => rfl
  indexed := fun _ i step hget => by
    match i with
    | 0 | 1 | 2 =>
        cases hget
        rfl
    | i + 3 =>
        cases hget
  answers := fun k => by split_ifs <;> simp

example : run forked 33 (some .frame) = some [1, 2] := by
  decide

end Loop

/-! ### The test thread -/

section Thread

open Scheduler

/-- A turn of the test thread: the filter's writes to its step, and where the thread goes. -/
def move (s : St) (t : Turn) (seq : ℕ) (writes : List Write) : St :=
  let s :=
    match t.offered with
    | none => s
    | some offered => (s.note (.filter offered)).writes (writes.map fun w => (s.total - seq - 1, w))
  match t.next with
  | none => s.goto .drain
  | some (mask, seq) => s.goto (.walk mask seq)

/-- **The loop is the test thread's**: where all threads are modelled, a move of `run` is a turn of the loop. -/
theorem walkStep_eq_turn {s : St} {mask : BitVec 32} {seq : ℕ} {c : Choice} (htotal : s.total ≤ 32) (hseq : seq ≤ 32)
    (hmask : mask ≠ 0) (hret : c.filterRet ≠ .other) :
    walkStep s mask seq c = some (move s (turn s.steps c.filterRet mask seq) seq c.writes) := by
  rw [walkStep, if_neg hmask, turn, getStepFromIndex_sub htotal hseq]
  unfold St.total
  by_cases hbit : mask.getLsbD 0 = false
  · rw [if_pos hbit, if_pos hbit]
    rfl
  rw [if_neg hbit, if_neg hbit]
  by_cases hle : s.steps.length ≤ seq
  · rw [if_pos hle, if_neg (Nat.not_lt.mpr hle)]
    rfl
  rw [if_neg hle, if_pos (Nat.not_le.mp hle)]
  cases hget : s.steps[s.steps.length - seq - 1]? with
  | none =>
      rfl
  | some t =>
      by_cases hstate : t.testState = .cont ∨ t.testState = .wait
      · cases hfilter : c.filterRet with
        | handled | unhandled =>
            simp [hstate, move, St.total]
        | other =>
            exact absurd hfilter hret
      · simp [hstate, move]

end Thread

end OneWifiTestSuite.FrameOffer
