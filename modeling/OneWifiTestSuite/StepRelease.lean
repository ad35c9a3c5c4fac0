import OneWifiTestSuite.ExtStaMgr
import OneWifiTestSuite.SimRelease
import OneWifiTestSuite.StatsGet

/-!
# What `step_remove` releases

Each type of step acquires something else in `step_execute`: stations, the emulation of statistics,
subscriptions or a thread. A `Life` is one type with its transition system, what is expected of
`step_remove` and the condition on it; `released_of_run` is about all of them.
-/

namespace OneWifiTestSuite.StepRelease

open Runs Steps HashMap StaKey

/-! ### External stations -/

section External

variable {macs : AgentJson.MacLib} {σ τ : ExtStaMgr.State} {call : ExtStaMgr.Call}

def extNext (macs : AgentJson.MacLib) (σ : ExtStaMgr.State) (call : ExtStaMgr.Call) : Option ExtStaMgr.State :=
  some (ExtStaMgr.step macs σ call)

/-- The removal frees the interface of the step and no other, and each interface still in use is that of a
step that has not been removed. -/
def ExtReleased (macs : AgentJson.MacLib) (σ : ExtStaMgr.State) (s : ℕ) : Prop :=
  ExtStaMgr.Exact macs σ (.remove s) ∧
    ∀ c ∈ (ExtStaMgr.removeSta macs σ s).clients, c.status = .inUse →
      ∃ t ∈ σ.live, t ≠ s ∧ σ.key t = macs.print c.mac

def ExtStart (σ : ExtStaMgr.State) : Prop :=
  ∃ agents key, σ = ExtStaMgr.start agents key

theorem external_released_iff (hmacs : macs.Lawful) (hstart : ExtStart σ)
    (h : Run (extNext macs) (ExtStaMgr.Condition macs) σ τ) (s : ℕ) :
    ExtReleased macs τ s ↔ ExtStaMgr.Condition macs τ (.remove s) := by
  obtain ⟨agents, key, rfl⟩ := hstart
  have hinv : ExtStaMgr.Inv macs τ := by
    refine run_invariant ?_ h (ExtStaMgr.inv_start agents key)
    rintro σ call τ hσ hcond hnext
    cases hnext
    exact ((ExtStaMgr.condition_iff hmacs hσ call).mp hcond).2
  refine Iff.trans ?_ (ExtStaMgr.condition_iff hmacs hinv (.remove s)).symm
  refine and_congr_right fun hexact => iff_of_true (fun c hc huse => ?_) (hinv.remove hexact)
  obtain ⟨t, ht, hkey⟩ := ((hinv.remove hexact).paired.in_use_iff c hc).mp huse
  rw [ExtStaMgr.removeSta_live, List.mem_filter] at ht
  rw [ExtStaMgr.removeSta_key] at hkey
  exact ⟨t, ht.1, by simpa using ht.2, hkey⟩

end External

/-! ### Real stations -/

section Real

/-- A step of a real station, and whether it has been asked to connect and not to disconnect since. -/
structure Real where
  executionTime : ℤ
  timeoutCount : ℤ
  testState : TestState
  connected : Bool

/-- The calls of `add_sta` and of `remove_sta`: the document is made, printed and posted. -/
structure PostAnswers where
  created : Bool
  printed : Bool
  posted : Bool

def PostAnswers.ok (ans : PostAnswers) : Bool :=
  ans.created && ans.printed && ans.posted

def Real.removeSta (s : Real) (ans : PostAnswers) : Real :=
  if ans.ok then { s with connected := false } else s

/-- `step_execute`. -/
def Real.execute (s : Real) (decoded : Bool) (ans : PostAnswers) (uploaded : Bool) : Real :=
  if decoded = false then { s with testState := .abort }
  else if ans.ok = false then { s with testState := .abort }
  else { s with connected := true, testState := if uploaded then .cont else .abort }

/-- `step_timeout_real_sta`. -/
def Real.timeout (s : Real) (ans : PostAnswers) : Real :=
  let s := { s with timeoutCount := s.timeoutCount + 1 }
  if s.timeoutCount = s.executionTime then Real.removeSta { s with testState := .results } ans
  else if s.timeoutCount < s.executionTime then { s with testState := .cont }
  else s

inductive RealLabel
  | execute (decoded : Bool) (ans : PostAnswers) (uploaded : Bool)
  | timeout (ans : PostAnswers)

def realNext (s : Real) : RealLabel → Option Real
  | .execute decoded ans uploaded => if s.testState = .start then some (s.execute decoded ans uploaded) else none
  | .timeout ans => if s.testState = .wait ∨ s.testState = .cont then some (s.timeout ans) else none

def Real.Start (s : Real) : Prop :=
  s.testState = .start ∧ s.connected = false

/-- The station is not connected once `step_remove` has called `remove_sta`. -/
def Real.Released (s : Real) (ans : PostAnswers) : Prop :=
  (s.removeSta ans).connected = false

/-- The request to disconnect is posted, unless the station has been disconnected before. -/
def Real.Releases (s : Real) (ans : PostAnswers) : Prop :=
  s.connected = true → ans.ok = true

theorem real_released_iff (s : Real) (ans : PostAnswers) : s.Released ans ↔ s.Releases ans := by
  unfold Real.Released Real.Releases Real.removeSta
  split_ifs with hok
  · simp [hok]
  · simp [hok]

end Real

/-! ### Emulated statistics -/

section StatsSet

/-- A step of type `stats_set`, whether the HAL emulates its statistics, and which of the calls for it have
succeeded. -/
structure StatsSet where
  /-- the durations of `stats_set_q`, in the order in which `queue_pop` takes its elements -/
  durations : List ℤ
  totalDuration : ℤ
  fork : Bool
  executionTime : ℤ
  setExecDuration : ℤ
  timeoutCount : ℤ
  testState : TestState
  emulated : Bool
  started : Bool
  stopped : Bool

/-- The state in which the step waits for its next timeout. -/
def StatsSet.waiting (s : StatsSet) : StatsSet :=
  { s with testState := if s.fork then .wait else .cont }

/-- `webconfig_stats_set_instance`, with the answer of `webconfig_stats_set_execute_start`. -/
def StatsSet.setInstance (s : StatsSet) (ok : Bool) : StatsSet × Bool :=
  if s.durations = [] then (s, true)
  else if ok then ({ s with emulated := true, started := true }, true)
  else ({ s with testState := .abort }, false)

/-- `step_execute`. -/
def StatsSet.execute (s : StatsSet) (ok : Bool) : StatsSet :=
  match StatsSet.setInstance { s with executionTime := s.totalDuration, setExecDuration := 0 } ok with
  | (s, true) => s.waiting
  | (s, false) => { s with testState := .abort }

/-- The end of `step_timeout`, with the answer of `webconfig_stats_set_execute_stop`. -/
def StatsSet.stop (s : StatsSet) (ok : Bool) : StatsSet :=
  if s.timeoutCount < s.executionTime then s
  else if ok = false then { s with testState := .abort }
  else
    { s with
      emulated := false
      stopped := true
      testState := if s.timeoutCount = s.executionTime then .results else .abort }

/-- The count of the timeouts up to the execution time. -/
def StatsSet.count (s : StatsSet) : StatsSet :=
  if s.timeoutCount < s.executionTime then { s with timeoutCount := s.timeoutCount + 1 } else s

/-- The current instance has run for one timeout more. -/
def StatsSet.longer (s : StatsSet) : StatsSet :=
  { s with setExecDuration := s.setExecDuration + 1 }

/-- `step_timeout`. -/
def StatsSet.timeout (s : StatsSet) (startOk stopOk : Bool) : StatsSet :=
  match s.durations with
  | [] => s.stop stopOk
  | duration :: rest =>
      if s.timeoutCount < s.executionTime ∧ s.setExecDuration < duration then s.count.longer.waiting
      else if s.setExecDuration = duration then
        match StatsSet.setInstance { s.count with durations := rest, setExecDuration := 0 } startOk with
        | (s, true) => s.longer.waiting
        | (s, false) => { s with testState := .abort }
      else s.count.stop stopOk

/-- `step_remove`. -/
def StatsSet.remove (s : StatsSet) : StatsSet :=
  { s with durations := [] }

inductive SetLabel
  | execute (ok : Bool)
  | timeout (startOk stopOk : Bool)

def setNext (s : StatsSet) : SetLabel → Option StatsSet
  | .execute ok => if s.testState = .start then some (s.execute ok) else none
  | .timeout startOk stopOk =>
      if s.testState = .wait ∨ s.testState = .cont then some (s.timeout startOk stopOk) else none

def StatsSet.Start (s : StatsSet) : Prop :=
  s.testState = .start ∧ s.emulated = false ∧ s.started = false ∧ s.stopped = false

def StatsSet.Released (s : StatsSet) : Prop :=
  s.remove.emulated = false

/-- A timeout has stopped the emulation if the step has started it. -/
def StatsSet.Releases (s : StatsSet) : Prop :=
  s.started = true → s.stopped = true

/-- The HAL emulates the statistics from the first start on until they have been stopped, which the step is
not called after. -/
structure StatsSet.Inv (s : StatsSet) : Prop where
  emulated : s.emulated = (s.started && !s.stopped)
  ended : s.stopped = true → s.testState = .results ∨ s.testState = .abort

/-- The emulation has not been stopped. -/
structure StatsSet.Going (s : StatsSet) : Prop where
  stopped : s.stopped = false
  emulated : s.emulated = s.started

variable {s s' : StatsSet}

theorem StatsSet.Going.inv (h : s.Going) : s.Inv := by
  refine ⟨?_, fun hstopped => ?_⟩
  · rw [h.stopped, h.emulated]
    simp
  · rw [h.stopped] at hstopped
    cases hstopped

/-- A step that is still called has not stopped the emulation. -/
theorem StatsSet.Inv.going (h : s.Inv) (hresults : s.testState ≠ .results) (habort : s.testState ≠ .abort) :
    s.Going := by
  have hstopped : s.stopped = false := by
    cases hs : s.stopped with
    | false =>
        rfl
    | true =>
        exact ((h.ended hs).elim hresults habort).elim
  refine ⟨hstopped, ?_⟩
  rw [h.emulated, hstopped]
  simp

theorem going_count (h : s.Going) : s.count.Going := by
  unfold StatsSet.count
  split_ifs
  · exact ⟨h.stopped, h.emulated⟩
  · exact h

theorem going_setInstance (h : s.Going) (ok : Bool) : (s.setInstance ok).1.Going := by
  unfold StatsSet.setInstance
  split_ifs
  · exact h
  · exact ⟨h.stopped, rfl⟩
  · exact ⟨h.stopped, h.emulated⟩

theorem inv_stop (h : s.Going) (ok : Bool) : (s.stop ok).Inv := by
  have habort : StatsSet.Going { s with testState := .abort } := ⟨h.stopped, h.emulated⟩
  unfold StatsSet.stop
  split_ifs
  · exact h.inv
  · exact habort.inv
  · exact ⟨by simp, fun _ => .inl rfl⟩
  · exact ⟨by simp, fun _ => .inr rfl⟩

theorem StatsSet.Going.waiting (h : s.Going) : s.waiting.Going :=
  ⟨h.stopped, h.emulated⟩

theorem StatsSet.Going.longer (h : s.Going) : s.longer.Going :=
  ⟨h.stopped, h.emulated⟩

/-- The step goes on after an instance that has been set, or is aborted. -/
theorem going_of_instance (h : s.Going) (ok : Bool) {cont : StatsSet → StatsSet}
    (hcont : ∀ t : StatsSet, t.Going → (cont t).Going) :
    StatsSet.Going (match s.setInstance ok with
      | (s, true) => cont s
      | (s, false) => { s with testState := .abort }) := by
  have hinstance := going_setInstance h ok
  split
  · rename_i t ht
    rw [ht] at hinstance
    exact hcont t hinstance
  · rename_i t ht
    rw [ht] at hinstance
    exact ⟨hinstance.stopped, hinstance.emulated⟩

theorem inv_execute (h : s.Going) (ok : Bool) : (s.execute ok).Inv := by
  have hstart : StatsSet.Going { s with executionTime := s.totalDuration, setExecDuration := 0 } :=
    ⟨h.stopped, h.emulated⟩
  exact (going_of_instance hstart ok fun _ ht => ht.waiting).inv

theorem inv_timeout (h : s.Going) (startOk stopOk : Bool) : (s.timeout startOk stopOk).Inv := by
  have hcount := going_count h
  unfold StatsSet.timeout
  split
  · exact inv_stop h stopOk
  · rename_i duration rest hdurations
    split_ifs
    · exact hcount.longer.waiting.inv
    · have hnext : StatsSet.Going { s.count with durations := rest, setExecDuration := 0 } :=
        ⟨hcount.stopped, hcount.emulated⟩
      exact (going_of_instance hnext startOk fun _ ht => ht.longer.waiting).inv
    · exact inv_stop hcount stopOk

theorem statsSet_inv_next {label : SetLabel} (h : s.Inv) (hnext : setNext s label = some s') : s'.Inv := by
  cases label with
  | execute ok =>
      obtain ⟨hstate, heq⟩ := Option.ite_none_right_eq_some.mp hnext
      cases heq
      exact inv_execute (h.going (by simp [hstate]) (by simp [hstate])) ok
  | timeout startOk stopOk =>
      obtain ⟨hstate, heq⟩ := Option.ite_none_right_eq_some.mp hnext
      cases heq
      refine inv_timeout (h.going ?_ ?_) startOk stopOk
      · rintro hresults
        simp [hresults] at hstate
      · rintro habort
        simp [habort] at hstate

/-- The emulation of a removed step has stopped exactly if one of its timeouts has stopped it. -/
theorem statsSet_released_iff {s₀ : StatsSet} (hstart : s₀.Start) (h : Run setNext (fun _ _ => True) s₀ s) :
    s.Released ↔ s.Releases := by
  have hinv : s.Inv := by
    refine run_invariant (fun _ _ _ hs _ hnext => statsSet_inv_next hs hnext) h ?_
    obtain ⟨-, hemulated, hstarted, hstopped⟩ := hstart
    exact StatsSet.Going.inv ⟨hstopped, hemulated.trans hstarted.symm⟩
  change s.emulated = false ↔ _
  unfold StatsSet.Releases
  rw [hinv.emulated]
  cases s.started <;> simp

end StatsSet

/-! ### Subscriptions -/

section Subscriptions

open StatsGet (Sub)

/-- A successful call of the bus. -/
inductive BusCall
  | subscribed (sub : Sub)
  | unsubscribed (event : ByteRegion.Bytes)
deriving DecidableEq, Repr

/-- The subscriptions that a call leaves. -/
def BusCall.apply (opened : List Sub) : BusCall → List Sub
  | .subscribed sub => opened ++ [sub]
  | .unsubscribed event => opened.filter fun sub => sub.event ≠ event

def replay (calls : List BusCall) : List Sub :=
  calls.foldl BusCall.apply []

theorem replay_concat (calls : List BusCall) (call : BusCall) :
    replay (calls ++ [call]) = call.apply (replay calls) :=
  List.foldl_concat ..

/-- A list with one more member splits as before, or at the new one. -/
theorem split_concat {α : Type} {l : List α} {x a : α} {P : List α → Prop} :
    (∃ pre post, l ++ [x] = pre ++ a :: post ∧ P post) ↔
      (∃ pre post, l = pre ++ a :: post ∧ P (post ++ [x])) ∨ a = x ∧ P [] := by
  constructor
  · rintro ⟨pre, post, heq, hP⟩
    rcases List.eq_nil_or_concat post with rfl | ⟨post, y, rfl⟩
    · right
      have hlast := List.append_inj' heq rfl
      exact ⟨(List.singleton_inj.mp hlast.2).symm, hP⟩
    · left
      rw [List.concat_eq_append, ← List.cons_append, ← List.append_assoc] at heq
      obtain ⟨hinit, hlast⟩ := List.append_inj' heq rfl
      rw [List.concat_eq_append, ← List.singleton_inj.mp hlast] at hP
      exact ⟨pre, post, hinit, hP⟩
  · rintro (⟨pre, post, rfl, hP⟩ | ⟨rfl, hP⟩)
    · exact ⟨pre, post ++ [x], by simp, hP⟩
    · exact ⟨l, [], rfl, hP⟩

/-- A subscription is open exactly if it was made and its event has not been unsubscribed since. -/
theorem mem_replay_iff {calls : List BusCall} {sub : Sub} :
    sub ∈ replay calls ↔
      ∃ pre post, calls = pre ++ .subscribed sub :: post ∧ BusCall.unsubscribed sub.event ∉ post := by
  induction calls using List.reverseRecOn with
  | nil =>
      simp [replay]
  | append_singleton calls call ih =>
      rw [replay_concat, split_concat (P := fun post => BusCall.unsubscribed sub.event ∉ post)]
      cases call with
      | subscribed t =>
          simp [BusCall.apply, ih]
      | unsubscribed event =>
          have hother : (.subscribed sub : BusCall) ≠ .unsubscribed event := by
            rintro ⟨⟩
          simp only [hother, false_and, or_false, List.mem_append, List.mem_singleton, not_or,
            BusCall.unsubscribed.injEq]
          rw [BusCall.apply, List.mem_filter, ih]
          constructor
          · rintro ⟨⟨pre, post, heq, hpost⟩, hne⟩
            exact ⟨pre, post, heq, hpost, of_decide_eq_true hne⟩
          · rintro ⟨pre, post, heq, hpost, hne⟩
            exact ⟨⟨pre, post, heq, hpost⟩, decide_eq_true hne⟩

/-- Steps of type `stats_get`, with all successful calls of the bus, the oldest first. -/
structure Getters where
  get : StatsGet.St
  calls : List BusCall

/-- The call of a move: a successful closing one unsubscribes, and else the bus has what was added. -/
def busCalls (s : StatsGet.St) (m : StatsGet.Move) (s' : StatsGet.St) : List BusCall :=
  match StatsGet.closing s m with
  | some (c, _) => if m.ok then [.unsubscribed (StatsGet.eventName c)] else []
  | none => (s'.opened.drop s.opened.length).map .subscribed

def getNext (s : Getters) (m : StatsGet.Move) : Option Getters :=
  (StatsGet.next s.get m).map fun get => { get := get, calls := s.calls ++ busCalls s.get m get }

/-- `step_remove` of step `i`. -/
def Getters.remove (s : Getters) (i : ℕ) : Getters :=
  { s with get.steps := s.get.steps.modify i fun step => { step with stats := none } }

def Getters.Start (s : Getters) : Prop :=
  (∃ (l : StatsGet.Limits) (config : StatsGet.Config l), s.get = StatsGet.init config) ∧ s.calls = []

/-- No subscription carries the removed step. -/
def Getters.Released (s : Getters) (i : ℕ) : Prop :=
  ∀ sub ∈ (s.remove i).get.opened, sub.owner ≠ i

/-- The event of each subscription that the step has made has been unsubscribed since. -/
def Getters.Releases (s : Getters) (i : ℕ) : Prop :=
  ∀ pre sub post, s.calls = pre ++ .subscribed sub :: post → sub.owner = i → .unsubscribed sub.event ∈ post

/-- What the bus has open is what its calls have left. -/
structure Getters.Inv (s : Getters) : Prop where
  get : StatsGet.Inv s.get
  opened : s.get.opened = replay s.calls

theorem getters_inv_next {s s' : Getters} {m : StatsGet.Move} (h : s.Inv) (hnext : getNext s m = some s') : s'.Inv := by
  obtain ⟨get, hget, rfl⟩ := Option.map_eq_some_iff.mp hnext
  refine ⟨StatsGet.inv_next h.get hget, ?_⟩
  have heffect := (StatsGet.next_spec h.get hget).2
  unfold StatsGet.Effect at heffect
  unfold busCalls
  cases hclosing : StatsGet.closing s.get m with
  | none =>
      rw [hclosing] at heffect
      rcases heffect with hsame | ⟨i, c, name, -, -, -, hnew⟩
      · simp [hsame, h.opened]
      · simp only [hnew, List.drop_left, List.map_cons, List.map_nil]
        rw [replay_concat, h.opened]
        rfl
  | some closed =>
      obtain ⟨c, j⟩ := closed
      rw [hclosing] at heffect
      obtain ⟨-, hopened⟩ := heffect
      dsimp only
      cases hok : m.ok with
      | false =>
          rw [hok] at hopened
          simp only [Bool.false_eq_true, if_false, List.append_nil]
          exact hopened.trans h.opened
      | true =>
          rw [hok] at hopened
          rw [if_pos rfl, replay_concat, ← h.opened]
          exact hopened

theorem getters_released_iff {s₀ s : Getters} (hstart : s₀.Start) (h : Run getNext (fun _ _ => True) s₀ s) (i : ℕ) :
    s.Released i ↔ s.Releases i := by
  have hinv : s.Inv := by
    refine run_invariant (fun _ _ _ hs _ hnext => getters_inv_next hs hnext) h ?_
    obtain ⟨⟨l, config, hget⟩, hcalls⟩ := hstart
    refine ⟨hget ▸ StatsGet.inv_init config, ?_⟩
    rw [hget, hcalls]
    rfl
  change (∀ sub ∈ s.get.opened, sub.owner ≠ i) ↔ _
  rw [hinv.opened]
  constructor
  · intro hnone pre sub post heq howner
    by_contra hnot
    exact hnone sub (mem_replay_iff.mpr ⟨pre, post, heq, hnot⟩) howner
  · intro hreleases sub hsub howner
    obtain ⟨pre, post, heq, hnot⟩ := mem_replay_iff.mp hsub
    exact hnot (hreleases pre sub post heq howner)

end Subscriptions

/-! ### Log threads -/

section LogRedirect

/-- Where the log thread is: at its start, at the condition of its loop, in `select`, or behind it. -/
inductive ThreadPc
  | starting
  | looping
  | selecting
  | reading
deriving DecidableEq, Repr

/-- A step of type `log_redirect`; `thread` is none before the thread is made and after its end. -/
structure LogRedirect where
  logOperation : StatsGet.LogOperation
  testState : TestState
  thread : Option ThreadPc
  cancelled : Bool
deriving DecidableEq, Repr

/-- The calls of `step_execute`. -/
structure LogAnswers where
  opened : Bool
  timed : Bool
  created : Bool
  detached : Bool

/-- `step_execute` of a step that starts the capture. -/
def LogRedirect.execute (s : LogRedirect) (ans : LogAnswers) : LogRedirect :=
  if s.logOperation ≠ .start ∨ ans.opened = false ∨ ans.timed = false ∨ ans.created = false then
    { s with testState := .abort }
  else { s with thread := some .starting, testState := if ans.detached then .cont else .abort }

/-- `step_execute` of a step with the operation `Stop` does this to the step that it names, and so does a
reboot step. -/
def LogRedirect.stopped (s : LogRedirect) : LogRedirect :=
  { s with logOperation := .stop, cancelled := true }

/-- `step_timeout`. -/
def LogRedirect.timeout (s : LogRedirect) : LogRedirect :=
  { s with testState := if s.testState = .abort then .abort else .results }

/-- A move of the thread: it is cancelled, or goes on with what a call answers. -/
inductive ThreadMove
  | begin (sought allocated : Bool)
  | check
  | select (ready : Bool)
  | read (opened : Bool)
  | cancel
deriving DecidableEq, Repr

/-- `log_thread_function`, and whether the move reads or writes the step; `select` and what is called after it
are cancellation points. -/
def logThread (s : LogRedirect) (mv : ThreadMove) : Option (LogRedirect × Bool) :=
  match s.thread, mv with
  | some .starting, .begin sought allocated =>
      if sought = false then some ({ s with thread := none, testState := .abort }, true)
      else some ({ s with thread := if allocated then some .looping else none }, true)
  | some .looping, .check =>
      some ({ s with thread := if s.logOperation = .start then some .selecting else none }, true)
  | some .selecting, .select ready =>
      if s.cancelled then none
      else some ({ s with thread := if ready then some .reading else some .looping }, false)
  | some .selecting, .cancel => if s.cancelled then some ({ s with thread := none }, false) else none
  | some .reading, .read opened =>
      if opened then some ({ s with thread := some .looping }, true)
      else some ({ s with thread := none, testState := .abort }, true)
  | some .reading, .cancel => if s.cancelled then some ({ s with thread := none }, true) else none
  | _, _ => none

inductive LogLabel
  | execute (ans : LogAnswers)
  | stopped
  | timeout
  | thread (mv : ThreadMove)

def logNext (s : LogRedirect) : LogLabel → Option LogRedirect
  | .execute ans => if s.testState = .start then some (s.execute ans) else none
  | .stopped => some s.stopped
  | .timeout => if s.testState = .wait ∨ s.testState = .cont then some s.timeout else none
  | .thread mv => (logThread s mv).map Prod.fst

def LogRedirect.Start (s : LogRedirect) : Prop :=
  s.testState = .start ∧ s.thread = none

/-- Nothing that the thread does after `step_remove`, which leaves it alone, touches the step. -/
def LogRedirect.Released (s : LogRedirect) : Prop :=
  ∀ mvs s' uses, exec logThread s mvs = some (s', uses) → true ∉ uses

/-- The thread has ended or was never made, or it has been cancelled and is in `select`. -/
def LogRedirect.Releases (s : LogRedirect) : Prop :=
  s.thread = none ∨ s.thread = some .selecting ∧ s.cancelled = true

theorem exec_ended {s : LogRedirect} (h : s.thread = none) {mvs : List ThreadMove} {s' : LogRedirect}
    {uses : List Bool} (hexec : exec logThread s mvs = some (s', uses)) : uses = [] := by
  cases mvs with
  | nil =>
      cases hexec
      rfl
  | cons mv mvs =>
      simp [exec, logThread, h] at hexec

theorem exec_singleton {s s' : LogRedirect} {mv : ThreadMove} {use : Bool} (h : logThread s mv = some (s', use)) :
    exec logThread s [mv] = some (s', [use]) :=
  exec_cons h rfl

/-- The next move of the thread of a released step does not use it. -/
theorem logThread_ne_of_released {s : LogRedirect} (h : s.Released) (mv : ThreadMove) (t : LogRedirect) :
    logThread s mv ≠ some (t, true) := by
  intro hmove
  exact h [mv] t [true] (exec_singleton hmove) List.mem_cons_self

/-- **The thread of a removed step no longer uses it** exactly if it has ended or waits cancelled. -/
theorem log_released_iff (s : LogRedirect) : s.Released ↔ s.Releases := by
  constructor
  · intro hreleased
    unfold LogRedirect.Releases
    cases hthread : s.thread with
    | none =>
        exact .inl rfl
    | some pc =>
        right
        cases pc with
        | starting =>
            have hmove : logThread s (.begin false false) = some ({ s with thread := none, testState := .abort }, true) := by
              simp [logThread, hthread]
            exact absurd hmove (logThread_ne_of_released hreleased _ _)
        | looping =>
            obtain ⟨t, hmove⟩ : ∃ t, logThread s .check = some (t, true) := by
              simp [logThread, hthread]
            exact absurd hmove (logThread_ne_of_released hreleased _ _)
        | selecting =>
            refine ⟨rfl, ?_⟩
            cases hcancelled : s.cancelled with
            | true =>
                rfl
            | false =>
                have hready : logThread s (.select true) = some ({ s with thread := some .reading }, false) := by
                  simp [logThread, hthread, hcancelled]
                have hread : logThread { s with thread := some .reading } (.read true) =
                    some ({ s with thread := some .looping }, true) := by
                  simp [logThread]
                have huses := hreleased _ _ _ (exec_cons hready (exec_singleton hread))
                simp at huses
        | reading =>
            have hmove : logThread s (.read true) = some ({ s with thread := some .looping }, true) := by
              simp [logThread, hthread]
            exact absurd hmove (logThread_ne_of_released hreleased _ _)
  · rintro (hended | ⟨hselecting, hcancelled⟩) mvs s' uses hexec
    · rw [exec_ended hended hexec]
      exact List.not_mem_nil
    · cases mvs with
      | nil =>
          cases hexec
          exact List.not_mem_nil
      | cons mv mvs =>
          cases mv with
          | cancel =>
              simp only [exec, logThread, hselecting, hcancelled, if_true] at hexec
              split at hexec
              · cases hexec
              · rename_i t us hrest
                cases hexec
                rw [exec_ended rfl hrest]
                simp
          | begin sought allocated | check | select ready | read opened =>
              simp [exec, logThread, hselecting, hcancelled] at hexec

end LogRedirect

/-! ### All types -/

section Lives

/-- The classes of steps that acquire something, `sta_management` by its `connection_type`. -/
inductive StepType
  | simulated
  | external
  | real
  | statsSet
  | statsGet
  | logRedirect
deriving DecidableEq, Repr

/-- The life of the steps of one type up to `step_remove`, which may get answers, and what is expected of it
there. -/
structure Life where
  St : Type
  Label : Type
  Answers : Type
  Start : St → Prop
  next : St → Label → Option St
  /-- the condition on a move -/
  Meets : St → Label → Prop
  /-- the condition on `step_remove` -/
  Releases : St → Answers → Prop
  /-- everything is released by `step_remove` -/
  Released : St → Answers → Prop

def life (macs : AgentJson.MacLib) (size : ℕ) : StepType → Life
  | .simulated =>
      ⟨Simulated, SimLabel, Unit, Simulated.Start size, simNext size, Simulated.Meets, fun s _ => s.Releases,
        fun s _ => s.Released⟩
  | .external =>
      ⟨ExtStaMgr.State, ExtStaMgr.Call, ℕ, ExtStart, extNext macs, ExtStaMgr.Condition macs,
        fun σ s => ExtStaMgr.Condition macs σ (.remove s), ExtReleased macs⟩
  | .real => ⟨Real, RealLabel, PostAnswers, Real.Start, realNext, fun _ _ => True, Real.Releases, Real.Released⟩
  | .statsSet =>
      ⟨StatsSet, SetLabel, Unit, StatsSet.Start, setNext, fun _ _ => True, fun s _ => s.Releases,
        fun s _ => s.Released⟩
  | .statsGet =>
      ⟨Getters, StatsGet.Move, ℕ, Getters.Start, getNext, fun _ _ => True, Getters.Releases, Getters.Released⟩
  | .logRedirect =>
      ⟨LogRedirect, LogLabel, Unit, LogRedirect.Start, logNext, fun _ _ => True, fun s _ => s.Releases,
        fun s _ => s.Released⟩

variable {macs : AgentJson.MacLib} {size : ℕ} {type : StepType}

/-- **`step_remove` releases everything** in every run of every type of step whose moves meet their condition,
if it meets its own. The condition on `step_remove` is exact but for simulated stations, which the removal of
another one may free. -/
theorem released_of_run (hmacs : macs.Lawful) {s₀ s : (life macs size type).St}
    (hstart : (life macs size type).Start s₀)
    (h : Run (life macs size type).next (life macs size type).Meets s₀ s) (ans : (life macs size type).Answers) :
    ((life macs size type).Releases s ans → (life macs size type).Released s ans) ∧
      (type ≠ .simulated → (life macs size type).Released s ans → (life macs size type).Releases s ans) := by
  cases type with
  | simulated =>
      exact ⟨simulated_of_run hstart h, fun hne => absurd rfl hne⟩
  | external =>
      have hiff := external_released_iff hmacs hstart h ans
      exact ⟨hiff.mpr, fun _ => hiff.mp⟩
  | real =>
      have hiff := real_released_iff s ans
      exact ⟨hiff.mpr, fun _ => hiff.mp⟩
  | statsSet =>
      have hiff := statsSet_released_iff hstart h
      exact ⟨hiff.mpr, fun _ => hiff.mp⟩
  | statsGet =>
      have hiff := getters_released_iff hstart h ans
      exact ⟨hiff.mpr, fun _ => hiff.mp⟩
  | logRedirect =>
      have hiff := log_released_iff s
      exact ⟨hiff.mpr, fun _ => hiff.mp⟩

/-- A step with one simulated client, reconnected every `interval` ticks. -/
def oneClient (interval : ℤ) : Simulated where
  cfg := ⟨1, 1, true, "brlan0", false, true⟩
  stepCfg := ⟨10, false, false, true, interval, false, true, false, false, fun _ => false⟩
  profiles := []
  mgr := StaMgr.init StaMgr.oneDevice
  step := none
  keys := []
  holding := []

def connects : ExecAnswers where
  decoded := true
  prep := fun _ => ⟨true, true, true, true, true⟩
  conn := fun _ => ⟨true, true, true⟩
  mac := fun _ => 2
  uploaded := true

theorem start_oneClient (interval : ℤ) : (oneClient interval).Start 18 :=
  ⟨rfl, rfl, StaMgr.oneDevice, keysFit_of_le (by decide) (by decide), rfl⟩

/-- The client is still associated when the step is removed. -/
theorem released_of_run_oneClient :
    ∃ s, execTo (simNext 18) (oneClient 3) [.execute connects] = some s ∧ s.holding = [0] ∧ s.Released := by
  obtain ⟨s, e, hs, hmap, hassoc, hholding⟩ : ∃ s e, simNext 18 (oneClient 3) (.execute connects) = some s ∧
      s.mgr.map = [e] ∧ s.associated = [e.key] ∧ s.holding = [0] := ⟨_, _, rfl, rfl, rfl, rfl⟩
  have hclean : (oneClient 3).Meets (.execute connects) := fun _ =>
    .inr ⟨by decide, fun i _ => ⟨⟨rfl, rfl, rfl, rfl, fun _ => rfl⟩, ⟨rfl, rfl, rfl, rfl⟩⟩⟩
  have hreleases : s.Releases := by
    intro e' he' _ _ _
    rw [hmap] at he' ⊢
    obtain rfl := List.mem_singleton.mp he'
    refine ⟨by simp [hassoc], fun e'' hsub => ?_⟩
    have := hsub.length_le
    simp at this
  have hrun : Run (simNext 18) Simulated.Meets (oneClient 3) s := Run.single hclean hs
  refine ⟨s, by simp [execTo, hs], hholding, ?_⟩
  exact (@released_of_run AgentJson.hexMacs 18 .simulated AgentJson.hexMacs_lawful (oneClient 3) s
    (start_oneClient 3) hrun ()).1 hreleases

/-- The tick that disconnects the client to reconnect it later, and the answers of its calls. -/
def disconnects : SimLabel :=
  .move (.tick ⟨fun _ => true, fun _ => true, fun _ => true, fun _ => true⟩)

/-- A step that is removed while its client is disconnected keeps the device. -/
theorem not_released_disconnected :
    ¬∀ (type : StepType) (s₀ s : (life AgentJson.hexMacs 18 type).St), (life AgentJson.hexMacs 18 type).Start s₀ →
      Run (life AgentJson.hexMacs 18 type).next (fun _ _ => True) s₀ s →
      ∀ ans, (life AgentJson.hexMacs 18 type).Released s ans := by
  intro hall
  obtain ⟨s, hs, hholding, huse⟩ : ∃ s, execTo (simNext 18) (oneClient 1) [.execute connects, disconnects] = some s ∧
      s.holding = [0] ∧ isFree s.remove.mgr 0 = false := ⟨_, rfl, rfl, rfl⟩
  have hreleased : s.Released := hall .simulated (oneClient 1) s (start_oneClient 1) (run_of_execTo hs) ()
  have hfree := hreleased 0 (by simp [hholding])
  rw [huse] at hfree
  cases hfree

end Lives

end OneWifiTestSuite.StepRelease
