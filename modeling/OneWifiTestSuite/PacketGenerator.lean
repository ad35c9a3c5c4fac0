import OneWifiTestSuite.AgentStatus
import OneWifiTestSuite.Runs

/-!
# The packet generator

A packet generator step sends its capture files from a thread of its own, and its `step_timeout` estimates when
the thread will be done: after the interval in whole seconds for every file and iteration. At that count the step
is in `results` and the thread is cancelled, whatever it has sent, and an abort that the thread has posted can be
overwritten by then. A packet that `sendto` refuses is logged and counted as sent. So the step is complete in exactly
those runs in which the count comes after the end of a thread that has gone over all of its packets, and in which no
packet is refused (`complete_iff_timely`).
-/

namespace OneWifiTestSuite.PacketGenerator

open ByteRegion RebootFile AgentJson Steps AgentStatus Runs

/-! ### The decoder -/

section Decoder

/-- The numbers of `packet_generator_t` and its `pcap_queue`, the element that was pushed last in front. -/
structure Generator where
  interval : BitVec 32
  iteration : BitVec 32
  pcapQueue : List Bytes
deriving DecidableEq

/-- `sizeof(pcap_location) - 1`. -/
def pcapLocationLen : ℕ := 127

/-- The loop over `ManagementFrameList`; `calloc` and `push` say whether there is memory for the next file, and for its
element of the queue. The result of `queue_push` is not looked at. -/
def pushFrames (calloc push : ℕ → Bool) : ℕ → List Json → List Bytes → Option (List Bytes)
  | _, [], q => some q
  | i, pcapLoc :: rest, q => do
      let file ← decodeParamString pcapLoc "PcapLocation"
      if calloc i then
        pushFrames calloc push (i + 1) rest (if push i then file.take pcapLocationLen :: q else q)
      else none

/-- `decode_step_packet_generator_config`; `none` is `RETURN_ERR`. -/
def decodeStepPacketGeneratorConfig (calloc push : ℕ → Bool) (step : Json) : Option Generator := do
  let config ← step.getObjectItem "PacketGenerator"
  let _ ← decodeParamAllowEmptyString config "VapName"
  let interval ← decodeParamInteger config "Interval"
  let iteration ← decodeParamInteger config "Iteration"
  let list ← decodeParamArray config "ManagementFrameList"
  let pcapQueue ← pushFrames calloc push 0 list []
  some ⟨valueint interval, valueint iteration, pcapQueue⟩

/-- The files of a step in the order of its configuration. -/
def configuredFrames (step : Json) : List Bytes :=
  (((step.getObjectItem "PacketGenerator").bind fun config => decodeParamArray config "ManagementFrameList").getD []).map
    fun pcapLoc => ((decodeParamString pcapLoc "PcapLocation").getD []).take pcapLocationLen

end Decoder

/-! ### The step and its thread -/

section System

/-- A decoded step. -/
structure Cfg where
  gen : Generator
  fork : Bool

/-- `execution_time`. -/
def Cfg.executionTime (cfg : Cfg) : BitVec 32 :=
  BitVec.ofNat 32 cfg.gen.pcapQueue.length * (cfg.gen.iteration * cfg.gen.interval.sdiv 1000)

/-- Where `pkt_gen_cci_thread` is: before `update_brlan0_config`, before the file at an index (or at the end of an
iteration) with the number of those that are left, in `WaitForDuration`, or at its end. -/
inductive Thread
  | config
  | loop (iteration left : ℕ)
  | pause (iteration left : ℕ)
  | done
  | aborted
  | killed
deriving DecidableEq, Repr

/-- The thread has come to its end by itself. -/
def Thread.ended : Thread → Bool
  | .done | .aborted => true
  | _ => false

/-- Where the scheduler is with the step: at the end of `step_execute`, between the timeouts, at the first check of
`step_timeout`, or behind its count. -/
inductive Main
  | executing
  | idle
  | called
  | counted
deriving DecidableEq, Repr

/-- What a call of the thread comes to: an error, or `RETURN_OK`, for a packet whether `sendto` took it or not. -/
inductive Reply
  | err
  | lost
  | ok
deriving DecidableEq, Repr

/-- The step and its thread; `sent` is what was sent so far, and `refused` counts the packets that were not. -/
structure St where
  testState : TestState
  timeoutCount : BitVec 32
  main : Main
  thread : Thread
  cancelled : Bool
  sent : List Bytes
  refused : ℕ
deriving DecidableEq

/-- `step_execute` has created the thread. -/
def init : St :=
  ⟨.start, 0, .executing, .config, false, [], 0⟩

/-- A move of the scheduler. -/
def mainStep (cfg : Cfg) (s : St) : Option St :=
  match s.main with
  | .executing => some { s with testState := goOn cfg.fork, main := .idle }
  | .idle => if s.testState = .wait ∨ s.testState = .cont then some { s with main := .called } else none
  | .called =>
      if s.testState = .results then some { s with main := .idle }
      else some { s with timeoutCount := s.timeoutCount + 1, main := .counted }
  | .counted =>
      if s.timeoutCount.slt cfg.executionTime then some { s with testState := .cont, main := .idle }
      else if cfg.executionTime = s.timeoutCount then
        some { s with testState := .results, cancelled := true, main := .idle }
      else some { s with testState := goOn cfg.fork, main := .idle }

def St.abort (s : St) : St :=
  { s with testState := .abort, thread := .aborted }

/-- A move of the thread, with what the call that it makes comes to. -/
def threadStep (cfg : Cfg) (s : St) (r : Reply) : Option St :=
  match s.thread with
  | .config => some (if r = .err then s.abort else { s with thread := .loop 0 cfg.gen.pcapQueue.length })
  | .loop iteration left =>
      if cfg.gen.iteration.toInt ≤ iteration then some { s with testState := .results, thread := .done }
      else
        match left with
        | 0 => some { s with thread := .loop (iteration + 1) cfg.gen.pcapQueue.length }
        | index + 1 =>
            (cfg.gen.pcapQueue[index]?).map fun file =>
              match r with
              | .err => s.abort
              | .lost => { s with refused := s.refused + 1, thread := .pause iteration index }
              | .ok => { s with sent := s.sent ++ [file], thread := .pause iteration index }
  | .pause iteration left => some { s with thread := .loop iteration left }
  | .done | .aborted | .killed => none

inductive Action
  | main
  | thread (r : Reply)
  | kill
deriving DecidableEq, Repr

/-- One move: of the scheduler, of the thread, or the end of a thread that was cancelled. -/
def next (cfg : Cfg) (s : St) : Action → Option St
  | .main => mainStep cfg s
  | .thread r => threadStep cfg s r
  | .kill => if s.cancelled = true ∧ s.thread.ended = false then some { s with thread := .killed } else none

end System

/-! ### Completeness -/

section Complete

/-- What a step has to send: every file once for every iteration, in the given order. -/
def wholeList (frames : List Bytes) (cfg : Cfg) : List Bytes :=
  (List.replicate cfg.gen.iteration.toInt.toNat frames).flatten

/-- The step is in `results` only after everything was sent; the thread is cancelled only after its end. -/
structure Complete (frames : List Bytes) (cfg : Cfg) (s : St) : Prop where
  results : s.testState = .results → s.sent = wholeList frames cfg
  cancelled : s.cancelled = true → s.thread.ended = true

/-- There is something to send. -/
def HasPackets (cfg : Cfg) : Prop :=
  0 < cfg.gen.iteration.toInt ∧ cfg.gen.pcapQueue ≠ []

instance (cfg : Cfg) : Decidable (HasPackets cfg) :=
  inferInstanceAs (Decidable (_ ∧ _))

/-- The thread is behind its loops. -/
def Thread.Over (cfg : Cfg) : Thread → Prop
  | .loop iteration _ => cfg.gen.iteration.toInt ≤ iteration
  | _ => False

/-- The timer does not come to the execution time before the thread has ended, nor after the thread has aborted with
something to send. The thread does not come to its end with a packet that was refused. -/
structure Timely (cfg : Cfg) (s : St) (a : Action) : Prop where
  timer : a = .main → s.main = .counted → cfg.executionTime = s.timeoutCount →
    s.thread.ended = true ∧ (s.thread = .aborted → ¬ HasPackets cfg)
  worker : ∀ r, a = .thread r → s.thread.Over cfg → s.refused = 0

/-- What a thread has sent at its place, and how much was refused. -/
def Sent (frames : List Bytes) (cfg : Cfg) (s : St) : Prop :=
  match s.thread with
  | .config => s.sent = [] ∧ s.refused = 0
  | .loop iteration left | .pause iteration left => left ≤ frames.length ∧
      (iteration < cfg.gen.iteration.toInt ∨ left = frames.length ∧ iteration = cfg.gen.iteration.toInt.toNat) ∧
      s.sent.length + s.refused = iteration * frames.length + (frames.length - left) ∧
      (s.refused = 0 → s.sent = (List.replicate iteration frames).flatten ++ frames.take (frames.length - left))
  | .done => s.sent.length + s.refused = (wholeList frames cfg).length ∧
      (s.refused = 0 → s.sent = wholeList frames cfg)
  | .aborted => s.sent.length < (wholeList frames cfg).length ∨ ¬ HasPackets cfg ∧ s.sent = []
  | .killed => True

/-- The invariant of timely runs. -/
structure Inv (frames : List Bytes) (cfg : Cfg) (s : St) : Prop where
  sent : Sent frames cfg s
  refused : s.thread = .done → s.refused = 0
  results : s.testState = .results → s.thread.ended = true ∧ (s.thread = .aborted → ¬ HasPackets cfg)
  cancelled : s.cancelled = true → s.thread.ended = true

variable {frames : List Bytes} {cfg : Cfg} {s s' : St}

theorem goOn_ne_results (b : Bool) : goOn b ≠ .results := by
  cases b <;> simp [goOn]

theorem inv_init : Inv frames cfg init where
  sent := ⟨rfl, rfl⟩
  refused := fun hdone => by cases hdone
  results := fun hres => by cases hres
  cancelled := fun hcancel => by cases hcancel

theorem length_wholeList : (wholeList frames cfg).length = cfg.gen.iteration.toInt.toNat * frames.length := by
  simp [wholeList]

/-- Without anything to send the list is empty. -/
theorem wholeList_eq_nil (hqueue : cfg.gen.pcapQueue = frames.reverse) (h : ¬ HasPackets cfg) :
    wholeList frames cfg = [] := by
  rw [← List.length_eq_zero_iff, length_wholeList]
  by_cases hpos : 0 < cfg.gen.iteration.toInt
  · have hnil : frames = [] := by
      by_contra hne
      exact h ⟨hpos, by simpa [hqueue] using hne⟩
    rw [hnil, List.length_nil, Nat.mul_zero]
  · rw [Int.toNat_of_nonpos (not_lt.mp hpos), Nat.zero_mul]

/-- What a move of the scheduler writes. -/
theorem mainStep_cases (h : mainStep cfg s = some s') :
    (s'.thread = s.thread ∧ s'.sent = s.sent ∧ s'.refused = s.refused) ∧
      ((s'.testState = .results → s.testState = .results) ∧ s'.cancelled = s.cancelled ∨
        s.main = .counted ∧ cfg.executionTime = s.timeoutCount ∧ s'.cancelled = true) := by
  unfold mainStep at h
  cases hmain : s.main with
  | executing =>
      simp only [hmain, Option.some.injEq] at h
      subst h
      exact ⟨⟨rfl, rfl, rfl⟩, Or.inl ⟨fun hres => absurd hres (goOn_ne_results _), rfl⟩⟩
  | idle =>
      simp only [hmain] at h
      split_ifs at h
      cases h
      exact ⟨⟨rfl, rfl, rfl⟩, Or.inl ⟨id, rfl⟩⟩
  | called =>
      simp only [hmain] at h
      split_ifs at h <;> cases h <;> exact ⟨⟨rfl, rfl, rfl⟩, Or.inl ⟨id, rfl⟩⟩
  | counted =>
      simp only [hmain] at h
      split_ifs at h with hlt heq
      · cases h
        exact ⟨⟨rfl, rfl, rfl⟩, Or.inl ⟨by simp, rfl⟩⟩
      · cases h
        exact ⟨⟨rfl, rfl, rfl⟩, Or.inr ⟨rfl, heq, rfl⟩⟩
      · cases h
        exact ⟨⟨rfl, rfl, rfl⟩, Or.inl ⟨fun hres => absurd hres (goOn_ne_results _), rfl⟩⟩

theorem Sent.congr (h : Sent frames cfg s)
    (hsame : s'.thread = s.thread ∧ s'.sent = s.sent ∧ s'.refused = s.refused) : Sent frames cfg s' := by
  obtain ⟨hthread, hsent, hrefused⟩ := hsame
  unfold Sent at h ⊢
  rw [hthread, hsent, hrefused]
  exact h

/-- The next file behind those that were sent in an iteration. -/
theorem take_succ_left {left : ℕ} (hleft : left + 1 ≤ frames.length) {file : Bytes}
    (hfile : frames.reverse[left]? = some file) :
    frames.take (frames.length - (left + 1)) ++ [file] = frames.take (frames.length - left) := by
  have hindex : frames[frames.length - (left + 1)]? = some file := by
    rw [List.getElem?_reverse (by omega)] at hfile
    rw [← hfile]
    congr 1
    omega
  have hlen : frames.length - left = frames.length - (left + 1) + 1 := by omega
  rw [hlen, List.take_add_one, hindex]
  rfl

/-- Before the end of the iterations there is more to send. -/
theorem lt_length_wholeList {iteration left : ℕ} (hiteration : (iteration : ℤ) < cfg.gen.iteration.toInt)
    (hleft : left + 1 ≤ frames.length) :
    iteration * frames.length + (frames.length - (left + 1)) < (wholeList frames cfg).length := by
  have hnext : (iteration + 1) * frames.length ≤ cfg.gen.iteration.toInt.toNat * frames.length :=
    Nat.mul_le_mul_right _ (by omega)
  rw [length_wholeList]
  rw [Nat.succ_mul] at hnext
  omega

/-- The configuration of the bridge is done, or has failed. -/
theorem sent_config (hqueue : cfg.gen.pcapQueue = frames.reverse) (hthread : s.thread = .config)
    (hsent : Sent frames cfg s) {r : Reply} (h : threadStep cfg s r = some s') : Sent frames cfg s' := by
  have hlength : cfg.gen.pcapQueue.length = frames.length := by simp [hqueue]
  unfold threadStep at h
  unfold Sent at hsent
  simp only [hthread, Option.some.injEq] at h hsent
  obtain ⟨hnil, hzero⟩ := hsent
  subst h
  split_ifs
  · refine (em (HasPackets cfg)).imp (fun hhas => ?_) fun hno => ⟨hno, hnil⟩
    have hpos : 0 < frames.length := by
      rw [← hlength]
      exact List.length_pos_of_ne_nil hhas.2
    show s.sent.length < _
    rw [hnil, length_wholeList]
    exact Nat.mul_pos (by have := hhas.1; omega) hpos
  · refine ⟨hlength.le, ?_, by simp [hnil, hzero, hlength], by simp [hnil, hlength]⟩
    by_cases hpos : (0 : ℤ) < cfg.gen.iteration.toInt
    · exact Or.inl (by exact_mod_cast hpos)
    · exact Or.inr ⟨hlength, by omega⟩

/-- A turn of the two loops: the end of all iterations, the end of one, or a file. -/
theorem sent_loop (hqueue : cfg.gen.pcapQueue = frames.reverse) {iteration left : ℕ}
    (hthread : s.thread = .loop iteration left) (hsent : Sent frames cfg s) {r : Reply}
    (h : threadStep cfg s r = some s') : Sent frames cfg s' := by
  have hlength : cfg.gen.pcapQueue.length = frames.length := by simp [hqueue]
  unfold threadStep at h
  unfold Sent at hsent
  simp only [hthread] at h hsent
  obtain ⟨hleft, hplace, hcount, hsent⟩ := hsent
  by_cases hlast : cfg.gen.iteration.toInt ≤ iteration
  · rw [if_pos hlast] at h
    cases h
    rcases hplace with hlt | ⟨hfull, heq⟩
    · omega
    · subst heq
      rw [hfull, Nat.sub_self] at hcount hsent
      refine ⟨hcount.trans length_wholeList.symm, fun hzero => ?_⟩
      show s.sent = _
      rw [hsent hzero, List.take_zero, List.append_nil, wholeList]
  · rw [if_neg hlast] at h
    cases left with
    | zero =>
        cases h
        refine ⟨hlength.le, ?_, ?_, fun hzero => ?_⟩
        · by_cases hpos : ((iteration + 1 : ℕ) : ℤ) < cfg.gen.iteration.toInt
          · exact Or.inl hpos
          · exact Or.inr ⟨hlength, by omega⟩
        · show s.sent.length + s.refused = _
          rw [hcount, hlength, Nat.succ_mul, Nat.sub_self, Nat.sub_zero, Nat.add_zero]
        · show s.sent = _
          rw [hsent hzero, hlength]
          simp [List.replicate_succ']
    | succ index =>
        obtain ⟨file, hfile, heq⟩ := Option.map_eq_some_iff.mp h
        have hmore := lt_length_wholeList (not_le.mp hlast) hleft
        cases r with
        | err =>
            subst heq
            refine Or.inl ?_
            show s.sent.length < _
            omega
        | lost =>
            subst heq
            refine ⟨by omega, Or.inl (by omega), ?_, fun hzero => by cases hzero⟩
            show s.sent.length + (s.refused + 1) = _
            omega
        | ok =>
            subst heq
            refine ⟨by omega, Or.inl (by omega), ?_, fun hzero => ?_⟩
            · show (s.sent ++ [file]).length + s.refused = _
              rw [List.length_append, List.length_singleton]
              omega
            · rw [hqueue] at hfile
              show s.sent ++ [file] = _
              rw [hsent hzero, List.append_assoc, take_succ_left hleft hfile]

/-- **The thread sends file by file**, whatever the scheduler does. -/
theorem sent_thread (hqueue : cfg.gen.pcapQueue = frames.reverse) (hsent : Sent frames cfg s) {r : Reply}
    (h : threadStep cfg s r = some s') : Sent frames cfg s' := by
  cases hthread : s.thread with
  | config =>
      exact sent_config hqueue hthread hsent h
  | loop iteration left =>
      exact sent_loop hqueue hthread hsent h
  | pause iteration left =>
      unfold threadStep at h
      unfold Sent at hsent
      simp only [hthread, Option.some.injEq] at h hsent
      subst h
      exact hsent
  | done => simp [threadStep, hthread] at h
  | aborted => simp [threadStep, hthread] at h
  | killed => simp [threadStep, hthread] at h

theorem sent_next (hqueue : cfg.gen.pcapQueue = frames.reverse) (hsent : Sent frames cfg s) {a : Action}
    (h : next cfg s a = some s') : Sent frames cfg s' := by
  cases a with
  | main => exact hsent.congr (mainStep_cases h).1
  | thread r => exact sent_thread hqueue hsent h
  | kill =>
      simp only [next] at h
      split_ifs at h
      cases h
      trivial

/-- A thread that moves has not ended. It ends its loops, or aborts the step, or the step goes on in its state. -/
theorem threadStep_cases {r : Reply} (h : threadStep cfg s r = some s') :
    s.thread.ended = false ∧ s'.cancelled = s.cancelled ∧
      (s'.thread = .done ∧ s.thread.Over cfg ∧ s'.refused = s.refused ∨
        s'.thread = .aborted ∧ s'.testState = .abort ∨ s'.thread.ended = false ∧ s'.testState = s.testState) := by
  unfold threadStep at h
  cases hthread : s.thread with
  | config =>
      simp only [hthread, Option.some.injEq] at h
      subst h
      split_ifs
      · exact ⟨rfl, rfl, Or.inr (Or.inl ⟨rfl, rfl⟩)⟩
      · exact ⟨rfl, rfl, Or.inr (Or.inr ⟨rfl, rfl⟩)⟩
  | loop iteration left =>
      simp only [hthread] at h
      by_cases hlast : cfg.gen.iteration.toInt ≤ iteration
      · rw [if_pos hlast] at h
        cases h
        exact ⟨rfl, rfl, Or.inl ⟨rfl, hlast, rfl⟩⟩
      · rw [if_neg hlast] at h
        cases left with
        | zero =>
            cases h
            exact ⟨rfl, rfl, Or.inr (Or.inr ⟨rfl, rfl⟩)⟩
        | succ index =>
            obtain ⟨file, -, rfl⟩ := Option.map_eq_some_iff.mp h
            cases r with
            | err => exact ⟨rfl, rfl, Or.inr (Or.inl ⟨rfl, rfl⟩)⟩
            | lost => exact ⟨rfl, rfl, Or.inr (Or.inr ⟨rfl, rfl⟩)⟩
            | ok => exact ⟨rfl, rfl, Or.inr (Or.inr ⟨rfl, rfl⟩)⟩
  | pause iteration left =>
      simp only [hthread, Option.some.injEq] at h
      subst h
      exact ⟨rfl, rfl, Or.inr (Or.inr ⟨rfl, rfl⟩)⟩
  | done => simp [hthread] at h
  | aborted => simp [hthread] at h
  | killed => simp [hthread] at h

theorem inv_main (hinv : Inv frames cfg s) (htimely : Timely cfg s .main) (h : mainStep cfg s = some s') :
    Inv frames cfg s' := by
  obtain ⟨hsame, hcases⟩ := mainStep_cases h
  have hsent := hinv.sent.congr hsame
  obtain ⟨hthread, -, hrefused⟩ := hsame
  refine ⟨hsent, ?_, fun hres => ?_, fun hcancel => ?_⟩
  · rw [hthread, hrefused]
    exact hinv.refused
  · rw [hthread]
    rcases hcases with ⟨hkeep, -⟩ | ⟨hmain, heq, -⟩
    · exact hinv.results (hkeep hres)
    · exact htimely.timer rfl hmain heq
  · rw [hthread]
    rcases hcases with ⟨-, hkeep⟩ | ⟨hmain, heq, -⟩
    · exact hinv.cancelled (hkeep ▸ hcancel)
    · exact (htimely.timer rfl hmain heq).1

theorem inv_thread (hqueue : cfg.gen.pcapQueue = frames.reverse) (hinv : Inv frames cfg s) {r : Reply}
    (htimely : Timely cfg s (.thread r)) (h : threadStep cfg s r = some s') : Inv frames cfg s' := by
  obtain ⟨hended, hcancelled, hcases⟩ := threadStep_cases h
  -- a thread that has not ended is neither in results nor cancelled
  have hnotCancelled : s'.cancelled ≠ true := by
    rw [hcancelled]
    intro hcancel
    rw [hinv.cancelled hcancel] at hended
    cases hended
  refine ⟨sent_thread hqueue hinv.sent h, fun hdone => ?_, fun hres => ?_, fun hcancel => absurd hcancel hnotCancelled⟩
  · rcases hcases with ⟨-, hover, hrefused⟩ | ⟨hthread, -⟩ | ⟨hthread, -⟩
    · exact hrefused.trans (htimely.worker r rfl hover)
    · rw [hthread] at hdone
      cases hdone
    · rw [hdone] at hthread
      cases hthread
  · rcases hcases with ⟨hthread, -, -⟩ | ⟨-, hstate⟩ | ⟨-, hstate⟩
    · rw [hthread]
      exact ⟨rfl, fun habort => by cases habort⟩
    · rw [hstate] at hres
      cases hres
    · rw [hstate] at hres
      rw [(hinv.results hres).1] at hended
      cases hended

theorem inv_next (hqueue : cfg.gen.pcapQueue = frames.reverse) {a : Action} (hinv : Inv frames cfg s)
    (htimely : Timely cfg s a) (h : next cfg s a = some s') : Inv frames cfg s' := by
  cases a with
  | main => exact inv_main hinv htimely h
  | thread r => exact inv_thread hqueue hinv htimely h
  | kill =>
      simp only [next] at h
      split_ifs at h with hkill
      have hended := hinv.cancelled hkill.1
      rw [hkill.2] at hended
      cases hended

theorem Inv.complete (hqueue : cfg.gen.pcapQueue = frames.reverse) (hinv : Inv frames cfg s) :
    Complete frames cfg s := by
  refine ⟨fun hres => ?_, hinv.cancelled⟩
  obtain ⟨hended, habort⟩ := hinv.results hres
  have hsent := hinv.sent
  have hrefused := hinv.refused
  unfold Sent at hsent
  cases hthread : s.thread with
  | done =>
      rw [hthread] at hsent
      exact hsent.2 (hrefused hthread)
  | aborted =>
      rw [hthread] at hsent
      have hnil := wholeList_eq_nil hqueue (habort hthread)
      rcases hsent with hlt | ⟨-, heq⟩
      · rw [hnil] at hlt
        cases hlt
      · rw [heq, hnil]
  | _ => simp [hthread, Thread.ended] at hended

/-- A timer that comes too early or too late, and a thread that ends with a packet that was refused, leave the step
incomplete. -/
theorem not_complete_of_untimely {a : Action} (hsent : Sent frames cfg s) (h : next cfg s a = some s')
    (huntimely : ¬ Timely cfg s a) : ¬ Complete frames cfg s' := by
  intro hcomplete
  apply huntimely
  constructor
  · rintro rfl hmain heq
    have hlt : s.timeoutCount.slt s.timeoutCount = false := by simp [BitVec.slt]
    simp only [next, mainStep, hmain, heq, hlt, Bool.false_eq_true, if_false, if_true, Option.some.injEq] at h
    subst h
    refine ⟨hcomplete.cancelled rfl, fun habort hhas => ?_⟩
    unfold Sent at hsent
    rw [habort] at hsent
    have hwhole : s.sent = wholeList frames cfg := hcomplete.results rfl
    rcases hsent with hless | ⟨hno, -⟩
    · rw [hwhole] at hless
      exact absurd hless (lt_irrefl _)
    · exact hno hhas
  · rintro r rfl hover
    unfold Sent at hsent
    cases hthread : s.thread with
    | loop iteration left =>
        rw [hthread] at hover hsent
        obtain ⟨-, hplace, hcount, -⟩ := hsent
        have hlast : cfg.gen.iteration.toInt ≤ iteration := hover
        simp only [next, threadStep, hthread, if_pos hlast, Option.some.injEq] at h
        subst h
        have hwhole : s.sent.length = (wholeList frames cfg).length := congrArg List.length (hcomplete.results rfl)
        rcases hplace with hlt | ⟨hfull, rfl⟩
        · omega
        · rw [length_wholeList] at hwhole
          rw [hfull] at hcount
          omega
    | _ =>
        rw [hthread] at hover
        exact hover.elim

end Complete

/-! ### Decoded steps -/

section Decoded

variable {calloc push : ℕ → Bool} {step : Json} {gen : Generator}

theorem pushFrames_eq {i : ℕ} {list : List Json} {q q' : List Bytes} (hpush : ∀ i, push i = true)
    (h : pushFrames calloc push i list q = some q') :
    q' = (list.map fun pcapLoc =>
      ((decodeParamString pcapLoc "PcapLocation").getD []).take pcapLocationLen).reverse ++ q := by
  induction list generalizing i q with
  | nil =>
      cases h
      rfl
  | cons pcapLoc rest ih =>
      cases hfile : decodeParamString pcapLoc "PcapLocation" with
      | none => simp [pushFrames, hfile] at h
      | some file =>
          simp only [pushFrames, hfile, hpush, Option.bind_eq_bind, Option.bind_some, if_true] at h
          split_ifs at h
          simp [ih h, hfile]

/-- The queue holds the configured files, the last one in front. -/
theorem pcapQueue_of_decode (hpush : ∀ i, push i = true)
    (h : decodeStepPacketGeneratorConfig calloc push step = some gen) :
    gen.pcapQueue = (configuredFrames step).reverse := by
  simp only [decodeStepPacketGeneratorConfig, Option.bind_eq_bind, Option.bind_eq_some_iff, Option.some.injEq] at h
  obtain ⟨config, hconfig, -, -, interval, -, iteration, -, list, hlist, q, hq, rfl⟩ := h
  simp [configuredFrames, hconfig, hlist, pushFrames_eq hpush hq]

/-- **The step is complete in the timely runs, and every move that is not timely leaves it incomplete.** -/
theorem complete_iff_timely (hpush : ∀ i, push i = true)
    (h : decodeStepPacketGeneratorConfig calloc push step = some gen) (fork : Bool) :
    (∀ s, Run (next ⟨gen, fork⟩) (Timely ⟨gen, fork⟩) init s → Complete (configuredFrames step) ⟨gen, fork⟩ s) ∧
      ∀ s a s', Run (next ⟨gen, fork⟩) (fun _ _ => True) init s → next ⟨gen, fork⟩ s a = some s' →
        ¬ Timely ⟨gen, fork⟩ s a → ¬ Complete (configuredFrames step) ⟨gen, fork⟩ s' := by
  have hqueue := pcapQueue_of_decode hpush h
  refine ⟨fun s hrun => ?_, fun s a s' hrun hnext huntimely => ?_⟩
  · refine Inv.complete ?_ ?_
    · exact hqueue
    exact run_invariant (fun s a t hinv htimely hnext => inv_next hqueue hinv htimely hnext) hrun inv_init
  · have hsent : Sent (configuredFrames step) ⟨gen, fork⟩ s :=
      run_invariant (fun s a t hsent _ hnext => sent_next hqueue hsent hnext) hrun ⟨rfl, rfl⟩
    exact not_complete_of_untimely hsent hnext huntimely

/-- One file, sent once and followed by one and a half seconds. -/
def briefStep : Json :=
  .object [("PacketGenerator", .object [("VapName", .string (text "private_ssid_2g")), ("Interval", .number 1500),
    ("Iteration", .number 1),
    ("ManagementFrameList", .array [.object [("PcapLocation", .string (text "/tmp/auth.pcap"))]])])]

def briefGenerator : Generator :=
  ⟨1500, 1, [text "/tmp/auth.pcap"]⟩

theorem decode_briefStep :
    decodeStepPacketGeneratorConfig (fun _ => true) (fun _ => true) briefStep = some briefGenerator := by
  decide +kernel

theorem complete_iff_timely_briefStep :
    (∀ s, Run (next ⟨briefGenerator, false⟩) (Timely ⟨briefGenerator, false⟩) init s →
        Complete (configuredFrames briefStep) ⟨briefGenerator, false⟩ s) ∧
      ∀ s a s', Run (next ⟨briefGenerator, false⟩) (fun _ _ => True) init s →
        next ⟨briefGenerator, false⟩ s a = some s' → ¬ Timely ⟨briefGenerator, false⟩ s a →
          ¬ Complete (configuredFrames briefStep) ⟨briefGenerator, false⟩ s' :=
  complete_iff_timely (fun _ => rfl) decode_briefStep false

/-- The first timeout comes before the thread has sent its file. -/
theorem briefStep_cut_off :
    ∃ s, Run (next ⟨briefGenerator, false⟩) (fun _ _ => True) init s ∧ s.testState = .results ∧
      s.cancelled = true ∧ s.thread = .config ∧ s.sent = [] ∧
      ¬ Complete (configuredFrames briefStep) ⟨briefGenerator, false⟩ s := by
  have hexec : execTo (next ⟨briefGenerator, false⟩) init [.main, .main, .main, .main] =
      some ⟨.results, 1, .idle, .config, true, [], 0⟩ := by
    decide +kernel
  refine ⟨_, run_of_execTo hexec, rfl, rfl, rfl, rfl, fun hcomplete => ?_⟩
  cases hcomplete.cancelled rfl

/-- The thread aborts before the end of `step_execute`, which overwrites the abort; the first timeout puts the step
into `results` with nothing sent. -/
example : execTo (next ⟨briefGenerator, false⟩) init [.thread .err, .main, .main, .main, .main] =
    some ⟨.results, 1, .idle, .aborted, true, [], 0⟩ := by
  decide +kernel

end Decoded

end OneWifiTestSuite.PacketGenerator
