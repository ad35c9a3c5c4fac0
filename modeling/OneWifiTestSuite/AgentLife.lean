import OneWifiTestSuite.Runs
import OneWifiTestSuite.Steps
import OneWifiTestSuite.StepTypes

/-!
# The life of the agent's test object

The external agent's HTTP server makes a test object on a start command, the object's thread runs until a
stop message or an aborted step, and the state machine deletes the object when a signal of the thread tells
it to. `subscribed_alive` is the property of the message manager's list and of the answers to start
commands, for the runs that stay away from the races and from the abort path, which does not unsubscribe.
-/

namespace OneWifiTestSuite.AgentLife

open Runs
open Steps (TestState)
open StepTypes (AgentState)

/-! ### The process -/

section Process

/-- Where the thread of a test is. It was not created, or has not sent its first signal; it polls; it was
told to stop; it has left the subscribers; it has ended. -/
inductive Thread
  | absent
  | begun
  | looping
  | stopping
  | leaving
  | ended
deriving DecidableEq, Repr

/-- The thread exists. -/
def Thread.active : Thread → Bool
  | .begun | .looping | .stopping | .leaving => true
  | .absent | .ended => false

/-- The thread has not left the subscribers. -/
def Thread.listening : Thread → Bool
  | .begun | .looping | .stopping => true
  | .leaving | .absent | .ended => false

/-- The thread was told to stop. -/
def Thread.stopped : Thread → Bool
  | .stopping | .leaving | .ended => true
  | .absent | .begun | .looping => false

/-- Messages: the two commands, a step, and what steps filter. -/
inductive Msg
  | start
  | stop
  | data
  | other
deriving DecidableEq, Repr

/-- `wlan_ext_emu_tests_t`, with the messages of `m_test_msg_q` in the order they are popped. -/
structure Test where
  thread : Thread
  exit : Bool
  initialized : Bool
  deleted : Bool
  msgs : List Msg
deriving DecidableEq

/-- `wlan_ext_emu_test_sig_type_t`. -/
inductive Signal
  | idle
  | ready
  | running
  | complete
  | fail
deriving DecidableEq, Repr

def Signal.all : List Signal :=
  [.idle, .ready, .running, .complete, .fail]

/-- `ext_emu_update_io_wait_to_state`. -/
def Signal.state : Signal → AgentState
  | .idle => .idle
  | .ready => .ready
  | .running => .running
  | .complete => .complete
  | .fail => .fail

/-- The HTTP server: between commands, inside the constructor after the thread was created, or before it
stores the new object. -/
inductive Http
  | idle
  | building (t : ℕ)
  | storing (t : ℕ)
deriving DecidableEq

/-- `ext_emu_state_machine`: before its switch, after `delete` in it, or in `ext_emu_io_wait`. -/
inductive Machine
  | check
  | deleting
  | waiting
deriving DecidableEq, Repr

/-- What fails in the constructor. -/
inductive Built
  | ok
  | noMsgQueue
  | noStepQueue
  | noThread
deriving DecidableEq, Repr

/-- The agent process. The tests are kept by number, in the order of `new`. -/
structure State where
  tests : ℕ → Test
  fresh : ℕ
  obj : Option ℕ
  subscribers : List ℕ
  agentState : AgentState
  signals : Signal → ℕ
  http : Http
  machine : Machine
  device : List Msg
  steps : List TestState

/-- Before the first command, and before the state machine's first switch. -/
def start : State where
  tests _ := ⟨.absent, false, false, false, []⟩
  fresh := 0
  obj := none
  subscribers := []
  agentState := .idle
  signals _ := 0
  http := .idle
  machine := .check
  device := []
  steps := []

def State.setTest (σ : State) (t : ℕ) (x : Test) : State :=
  { σ with tests := Function.update σ.tests t x }

/-- `ext_emu_send_signal_idle` and its siblings: nothing is sent for the state the agent is in. -/
def State.sendSignal (σ : State) (sig : Signal) : State :=
  if σ.agentState = sig.state then σ
  else { σ with signals := Function.update σ.signals sig (σ.signals sig + 1) }

/-- The steps in the order of a tick: a step that waits has its timeout, which leaves it in the next state
of `after`. The states, and the number of steps with results; no number when a step is in abort, where the
tick ends. -/
def tickSteps : List TestState → List TestState → List TestState × Option ℕ
  | [], _ => ([], some 0)
  | s :: steps, after =>
      let s' := if s = .wait ∨ s = .cont then after.headD s else s
      if s' = .abort then (s' :: steps, none)
      else
        let (rest, completed) := tickSteps steps after.tail
        (s' :: rest, completed.map (· + if s' = .results then 1 else 0))

/-- What happens next in the process, and what the environment decides about it. -/
inductive Event
  /-- a start command that finds a test object -/
  | startSeen
  /-- a start command that makes one -/
  | construct (built : Built)
  | subscribe
  | store
  /-- a stop command, and whether its message could be written -/
  | stop (written : Bool)
  /-- another message comes from the device -/
  | arrive (m : Msg)
  | deliver
  | begin (t : ℕ)
  /-- a message for the steps, and their states after it -/
  | handle (t : ℕ) (steps : List TestState)
  | handleStop (t : ℕ)
  | unsubscribe (t : ℕ)
  | leave (t : ℕ)
  | tick (t : ℕ) (after : List TestState)
  | check
  | clear
  | wait (sig : Signal)
  /-- `select` fails -/
  | waitFails

/-- `queue_msg`: every subscriber gets a copy. -/
def State.deliverMsg (σ : State) (m : Msg) (rest : List Msg) : State :=
  { σ with
    tests := fun t => if t ∈ σ.subscribers then { σ.tests t with msgs := (σ.tests t).msgs ++ [m] } else σ.tests t
    device := rest }

/-- The constructor up to the thread. -/
def State.construct (σ : State) : Built → State
  | .ok =>
      { σ.setTest σ.fresh ⟨.begun, false, false, false, []⟩ with
        fresh := σ.fresh + 1, http := .building σ.fresh, steps := [] }
  | .noMsgQueue =>
      { σ.setTest σ.fresh ⟨.absent, false, false, false, []⟩ with
        fresh := σ.fresh + 1, http := .storing σ.fresh }
  | .noStepQueue | .noThread =>
      { σ.setTest σ.fresh ⟨.absent, false, false, false, []⟩ with
        fresh := σ.fresh + 1, http := .storing σ.fresh, steps := [] }

/-- A tick of the thread of `t`. After an abort the thread ends, and `t` stays subscribed. -/
def State.tick (σ : State) (t : ℕ) (after : List TestState) : State :=
  match tickSteps σ.steps after with
  | (steps, none) =>
      ({ σ with steps := steps }.sendSignal .fail).setTest t { σ.tests t with thread := .ended }
  | (steps, some completed) =>
      if σ.steps.length = 0 then { σ with steps := steps }
      else if σ.steps.length = completed then { σ with steps := steps }.sendSignal .complete
      else { σ with steps := steps }.sendSignal .running

/-- The switch of the state machine. -/
def State.check (σ : State) : State :=
  match σ.agentState, σ.obj with
  | .idle, some t | .fail, some t =>
      { σ.setTest t { σ.tests t with deleted := true } with machine := .deleting }
  | .ready, _ => { σ with device := σ.device ++ [.start], machine := .waiting }
  | _, _ => { σ with machine := .waiting }

/-- `ext_emu_io_wait` takes the first of the signals that are pending. -/
def State.pending (σ : State) : Option Signal :=
  Signal.all.find? fun sig => 0 < σ.signals sig

def next (σ : State) : Event → Option State
  | .startSeen => if σ.http = .idle ∧ σ.obj ≠ none then some σ else none
  | .construct built => if σ.http = .idle ∧ σ.obj = none then some (σ.construct built) else none
  | .subscribe =>
      match σ.http with
      | .building t =>
          some { σ.setTest t { σ.tests t with initialized := true } with
            subscribers := t :: σ.subscribers, http := .storing t }
      | _ => none
  | .store =>
      match σ.http with
      | .storing t => some { σ with obj := some t, http := .idle }
      | _ => none
  | .stop written => some (if written then { σ with device := σ.device ++ [.stop] } else σ)
  | .arrive m => some { σ with device := σ.device ++ [m] }
  | .deliver =>
      match σ.device with
      | m :: rest => some (σ.deliverMsg m rest)
      | [] => none
  | .begin t =>
      if (σ.tests t).thread = .begun then
        some ((σ.sendSignal .ready).setTest t { σ.tests t with thread := .looping })
      else none
  | .handle t steps =>
      match (σ.tests t).msgs with
      | m :: msgs =>
          if (σ.tests t).thread = .looping ∧ m ≠ .stop then
            some { σ.setTest t { σ.tests t with msgs := msgs } with steps := steps }
          else none
      | [] => none
  | .handleStop t =>
      match (σ.tests t).msgs with
      | m :: msgs =>
          if (σ.tests t).thread = .looping ∧ m = .stop then
            some (σ.setTest t { σ.tests t with thread := .stopping, exit := true, msgs := msgs })
          else none
      | [] => none
  | .unsubscribe t =>
      if (σ.tests t).thread = .stopping then
        some { σ.setTest t { σ.tests t with thread := .leaving } with subscribers := σ.subscribers.erase t }
      else none
  | .leave t =>
      if (σ.tests t).thread = .leaving then
        some ((σ.sendSignal .idle).setTest t { σ.tests t with thread := .ended })
      else none
  | .tick t after =>
      if (σ.tests t).thread = .looping ∧ (σ.tests t).msgs = [] then some (σ.tick t after) else none
  | .check => if σ.machine = .check then some σ.check else none
  | .clear => if σ.machine = .deleting then some { σ with obj := none, machine := .waiting } else none
  | .wait sig =>
      if σ.machine = .waiting ∧ σ.pending = some sig then
        some { σ with
          signals := Function.update σ.signals sig (σ.signals sig - 1)
          agentState := sig.state
          machine := .check }
      else none
  | .waitFails =>
      if σ.machine = .waiting then some { σ with agentState := .idle, machine := .check } else none

end Process

/-! ### The property -/

section Property

/-- Every subscriber exists, and its thread has not ended. -/
def SubscribersOk (σ : State) : Prop :=
  ∀ t ∈ σ.subscribers, (σ.tests t).deleted = false ∧ (σ.tests t).thread ≠ .ended

/-- The test object exists, its thread runs and was not told to stop, and messages reach it. -/
def Ready (σ : State) : Prop :=
  ∃ t, σ.obj = some t ∧ (σ.tests t).deleted = false ∧
    ((σ.tests t).thread = .begun ∨ (σ.tests t).thread = .looping) ∧ (σ.tests t).exit = false ∧ t ∈ σ.subscribers

/-- `agent_start` reports success. -/
def Reports (σ : State) : Event → Prop
  | .startSeen => True
  | .store => ∃ t, σ.http = .storing t ∧ (σ.tests t).initialized = true
  | _ => False

/-- A start command does not find an object whose constructor failed or whose thread was told to stop. No
new object is stored while the state machine is about to look at an idle or failed state. No stop message is
handled during a start command. No tick finds a step in abort. `select` does not fail while a test's thread
lives or its idle signal is pending. -/
def Condition (σ : State) : Event → Prop
  | .startSeen => ∀ t, σ.obj = some t → (σ.tests t).initialized = true ∧ (σ.tests t).exit = false
  | .store => ∀ t, σ.http = .storing t → (σ.tests t).initialized = true →
      ¬ (σ.machine = .check ∧ (σ.agentState = .idle ∨ σ.agentState = .fail))
  | .handleStop _ => σ.http = .idle
  | .tick _ after => (tickSteps σ.steps after).2 ≠ none
  | .waitFails => ∀ t, σ.obj = some t → (σ.tests t).thread.active = false ∧ σ.signals .idle = 0
  | _ => True

end Property

/-! ### The invariant -/

section Invariant

/-- Only the current test has a thread. Its thread is subscribed from the constructor until it is told to
stop, and a pending or noticed idle signal belongs to a test object whose thread has ended. -/
@[grind cases]
structure Inv (σ : State) : Prop where
  current : ∀ t, (σ.tests t).thread.active = true → σ.obj = some t ∨ σ.http = .building t ∨ σ.http = .storing t
  subscribed : ∀ t ∈ σ.subscribers, (σ.tests t).thread.listening = true ∧ (σ.tests t).initialized = true
  subscribes : ∀ t, (σ.tests t).initialized = true → (σ.tests t).thread.listening = true → t ∈ σ.subscribers
  nodup : σ.subscribers.Nodup
  exit_eq : ∀ t, (σ.tests t).exit = (σ.tests t).thread.stopped
  init_thread : ∀ t, (σ.tests t).initialized = true → (σ.tests t).thread ≠ .absent
  deleted : ∀ t, (σ.tests t).deleted = true → (σ.tests t).thread.active = false
  http_obj : σ.http ≠ .idle → σ.obj = none
  building : ∀ t, σ.http = .building t → (σ.tests t).thread.active = true ∧ (σ.tests t).thread.stopped = false ∧
    (σ.tests t).initialized = false
  storing : ∀ t, σ.http = .storing t → (σ.tests t).thread.stopped = false ∧
    ((σ.tests t).initialized = false → (σ.tests t).thread.active = false)
  checking : σ.machine = .check → σ.agentState = .idle → ∀ t, σ.obj = some t → (σ.tests t).thread.active = false
  deleting : σ.machine = .deleting → ∃ t, σ.obj = some t ∧ (σ.tests t).thread.active = false
  idle_pending : 0 < σ.signals .idle → σ.signals .idle = 1 ∧ σ.machine ≠ .deleting ∧
    ¬ (σ.machine = .check ∧ σ.agentState = .idle) ∧ ∃ t, σ.obj = some t ∧ (σ.tests t).thread.active = false
  no_fail : σ.agentState ≠ .fail ∧ σ.signals .fail = 0
  unused : ∀ t, σ.fresh ≤ t → (σ.tests t).thread = .absent ∧ (σ.tests t).initialized = false

theorem active_of_listening {x : Thread} (h : x.listening = true) : x.active = true := by
  cases x <;> simp_all [Thread.listening, Thread.active]

theorem listening_of_active {x : Thread} (h : x.active = true) (h' : x.stopped = false) : x.listening = true := by
  cases x <;> simp_all [Thread.listening, Thread.active, Thread.stopped]

theorem inv_start : Inv start := by
  constructor <;> simp [start, Thread.active, Thread.listening, Thread.stopped]

variable {σ : State}

theorem Inv.construct (h : Inv σ) (built : Built) (hhttp : σ.http = .idle) (hobj : σ.obj = none) :
    Inv (σ.construct built) := by
  have hfailed : Inv (σ.construct .noMsgQueue) := by
    constructor <;> simp only [State.construct, State.setTest, Function.update_apply] <;>
      grind [Thread.active, Thread.listening, Thread.stopped]
  cases built with
  | ok =>
      constructor <;> simp only [State.construct, State.setTest, Function.update_apply] <;>
        grind [Thread.active, Thread.listening, Thread.stopped]
  | noMsgQueue =>
      exact hfailed
  | noStepQueue | noThread =>
      exact { hfailed with }

theorem Inv.subscribe (h : Inv σ) {t : ℕ} (hhttp : σ.http = .building t) :
    Inv { σ.setTest t { σ.tests t with initialized := true } with
      subscribers := t :: σ.subscribers, http := .storing t } := by
  obtain ⟨hactive, hstopped, hinit⟩ := h.building t hhttp
  have hlisten := listening_of_active hactive hstopped
  have hnew : t ∉ σ.subscribers := fun hmem => by simp [(h.subscribed t hmem).2] at hinit
  have habsent : (σ.tests t).thread ≠ .absent := by
    intro h
    rw [h] at hactive
    cases hactive
  constructor <;> simp only [State.setTest, Function.update_apply] <;> grind

theorem Inv.store (h : Inv σ) {t : ℕ} (hhttp : σ.http = .storing t)
    (hmachine : (σ.tests t).initialized = true → ¬ (σ.machine = .check ∧ (σ.agentState = .idle ∨ σ.agentState = .fail))) :
    Inv { σ with obj := some t, http := .idle } := by
  refine { h with
    current := ?_, http_obj := nofun, building := nofun, storing := nofun, checking := ?_, deleting := ?_,
    idle_pending := ?_ }
  all_goals
    simp only
    grind [Thread.active, Thread.listening, Thread.stopped]

theorem sendSignal_tests (σ : State) (sig : Signal) : (σ.sendSignal sig).tests = σ.tests := by
  unfold State.sendSignal
  split_ifs <;> rfl

/-- What a thread has still to read does not matter. -/
theorem Inv.msgs (h : Inv σ) {tests : ℕ → Test} (hsame : ∀ t, tests t = { σ.tests t with msgs := (tests t).msgs }) :
    Inv { σ with tests } := by
  have hthread : ∀ t, (tests t).thread = (σ.tests t).thread := fun t => by rw [hsame]
  have hexit : ∀ t, (tests t).exit = (σ.tests t).exit := fun t => by rw [hsame]
  have hinit : ∀ t, (tests t).initialized = (σ.tests t).initialized := fun t => by rw [hsame]
  have hdeleted : ∀ t, (tests t).deleted = (σ.tests t).deleted := fun t => by rw [hsame]
  cases h
  constructor <;> simp only [hthread, hexit, hinit, hdeleted] <;> assumption

theorem Inv.deliverMsg (h : Inv σ) (m : Msg) (rest : List Msg) : Inv (σ.deliverMsg m rest) := by
  have hread : Inv { σ with tests := (σ.deliverMsg m rest).tests } := h.msgs fun t => by
    simp only [State.deliverMsg]
    split_ifs <;> rfl
  exact { hread with }

theorem Inv.sendSignal (h : Inv σ) (sig : Signal) (hidle : sig ≠ .idle) (hfail : sig ≠ .fail) :
    Inv (σ.sendSignal sig) := by
  unfold State.sendSignal
  split_ifs
  · exact h
  · refine { h with idle_pending := ?_, no_fail := ?_ }
    all_goals
      simp only [Function.update_apply]
      grind

theorem Inv.begin (h : Inv σ) {t : ℕ} (ht : (σ.tests t).thread = .begun) :
    Inv (σ.setTest t { σ.tests t with thread := .looping }) := by
  constructor <;> simp only [State.setTest, Function.update_apply] <;>
    grind [Thread.active, Thread.listening, Thread.stopped]

theorem Inv.handle (h : Inv σ) (t : ℕ) (msgs : List Msg) (steps : List TestState) :
    Inv { σ.setTest t { σ.tests t with msgs := msgs } with steps := steps } := by
  have hread : Inv (σ.setTest t { σ.tests t with msgs := msgs }) := h.msgs fun u => by
    rw [Function.update_apply]
    split_ifs with hu
    · rw [hu]
    · rfl
  exact { hread with }

theorem Inv.handleStop (h : Inv σ) {t : ℕ} (msgs : List Msg) (ht : (σ.tests t).thread = .looping)
    (hhttp : σ.http = .idle) :
    Inv (σ.setTest t { σ.tests t with thread := .stopping, exit := true, msgs := msgs }) := by
  constructor <;> simp only [State.setTest, Function.update_apply] <;>
    grind [Thread.active, Thread.listening, Thread.stopped]

theorem Inv.unsubscribe (h : Inv σ) {t : ℕ} (ht : (σ.tests t).thread = .stopping) :
    Inv { σ.setTest t { σ.tests t with thread := .leaving } with subscribers := σ.subscribers.erase t } := by
  have hmem : ∀ u, u ∈ σ.subscribers.erase t ↔ u ≠ t ∧ u ∈ σ.subscribers := fun u => h.nodup.mem_erase_iff
  have hnodup := h.nodup.erase t
  constructor <;> simp only [State.setTest, Function.update_apply] <;>
    grind [Thread.active, Thread.listening, Thread.stopped]

theorem Inv.leave (h : Inv σ) {t : ℕ} (ht : (σ.tests t).thread = .leaving) :
    Inv ((σ.sendSignal .idle).setTest t { σ.tests t with thread := .ended }) := by
  unfold State.sendSignal
  split_ifs with hstate
  · constructor <;> simp only [State.setTest, Function.update_apply] <;>
      grind [Thread.active, Thread.listening, Thread.stopped]
  · constructor <;> simp only [State.setTest, Function.update_apply] <;>
      grind [Thread.active, Thread.listening, Thread.stopped, Signal.state]

theorem Inv.check (h : Inv σ) (hmachine : σ.machine = .check) : Inv σ.check := by
  have hwaits : Inv { σ with machine := .waiting } := by
    refine { h with checking := nofun, deleting := nofun, idle_pending := ?_ }
    simp only
    grind
  unfold State.check
  split
  · constructor <;> simp only [State.setTest, Function.update_apply] <;> grind
  · next hfail _ =>
      exact absurd hfail h.no_fail.1
  · exact { hwaits with }
  · exact hwaits

theorem Inv.clear (h : Inv σ) (hmachine : σ.machine = .deleting) :
    Inv { σ with obj := none, machine := .waiting } := by
  refine { h with current := ?_, http_obj := fun _ => rfl, checking := nofun, deleting := nofun, idle_pending := ?_ }
  all_goals
    simp only
    grind

theorem Inv.wait (h : Inv σ) {sig : Signal} (hpending : σ.pending = some sig) :
    Inv { σ with
      signals := Function.update σ.signals sig (σ.signals sig - 1)
      agentState := sig.state
      machine := .check } := by
  have hpos : 0 < σ.signals sig := by simpa using List.find?_some hpending
  refine { h with checking := ?_, deleting := nofun, idle_pending := ?_, no_fail := ?_ }
  all_goals cases sig <;> simp only [Function.update_apply, Signal.state] <;> grind

theorem Inv.waitFails (h : Inv σ)
    (hobj : ∀ t, σ.obj = some t → (σ.tests t).thread.active = false ∧ σ.signals .idle = 0) :
    Inv { σ with agentState := .idle, machine := .check } := by
  refine { h with checking := fun _ _ t ht => (hobj t ht).1, deleting := nofun, idle_pending := ?_, no_fail := ?_ }
  all_goals
    simp only
    grind

/-- A tick that no step aborts only sends a signal. -/
theorem Inv.tick (h : Inv σ) (t : ℕ) {after : List TestState} (hok : (tickSteps σ.steps after).2 ≠ none) :
    Inv (σ.tick t after) := by
  unfold State.tick
  split
  · next heq => exact absurd (by rw [heq]) hok
  · next steps completed heq =>
      have hsteps : Inv { σ with steps := steps } := { h with }
      split_ifs
      · exact hsteps
      · exact hsteps.sendSignal _ (by decide) (by decide)
      · exact hsteps.sendSignal _ (by decide) (by decide)

theorem Inv.next {τ : State} {ev : Event} (h : Inv σ) (hcond : Condition σ ev) (hnext : next σ ev = some τ) : Inv τ := by
  cases ev <;> simp only [AgentLife.next] at hnext
  case startSeen =>
    split_ifs at hnext
    cases hnext
    exact h
  case construct built =>
    split_ifs at hnext with hg
    cases hnext
    exact h.construct built hg.1 hg.2
  case subscribe =>
    split at hnext
    · next t ht =>
        cases hnext
        exact h.subscribe ht
    · cases hnext
  case store =>
    split at hnext
    · next t ht =>
        cases hnext
        exact h.store ht (hcond t ht)
    · cases hnext
  case stop written =>
    cases hnext
    split_ifs
    · exact { h with }
    · exact h
  case arrive m =>
    cases hnext
    exact { h with }
  case deliver =>
    split at hnext
    · next m rest _ =>
        cases hnext
        exact h.deliverMsg m rest
    · cases hnext
  case begin t =>
    split_ifs at hnext with ht
    cases hnext
    have hsent := h.sendSignal .ready (by decide) (by decide)
    rw [← sendSignal_tests σ .ready] at ht ⊢
    exact hsent.begin ht
  case handle t steps =>
    split at hnext
    · split_ifs at hnext
      cases hnext
      exact h.handle t _ steps
    · cases hnext
  case handleStop t =>
    split at hnext
    · split_ifs at hnext with hg
      cases hnext
      exact h.handleStop _ hg.1 hcond
    · cases hnext
  case unsubscribe t =>
    split_ifs at hnext with ht
    cases hnext
    exact h.unsubscribe ht
  case leave t =>
    split_ifs at hnext with ht
    cases hnext
    exact h.leave ht
  case tick t after =>
    split_ifs at hnext
    cases hnext
    exact h.tick t hcond
  case check =>
    split_ifs at hnext with hmachine
    cases hnext
    exact h.check hmachine
  case clear =>
    split_ifs at hnext with hmachine
    cases hnext
    exact h.clear hmachine
  case wait sig =>
    split_ifs at hnext with hg
    cases hnext
    exact h.wait hg.2
  case waitFails =>
    split_ifs at hnext
    cases hnext
    exact h.waitFails hcond

/-- The subscribers are alive. -/
theorem Inv.subscribersOk (h : Inv σ) : SubscribersOk σ := by
  intro t ht
  have hactive := active_of_listening (h.subscribed t ht).1
  constructor
  · cases hdel : (σ.tests t).deleted with
    | false =>
        rfl
    | true =>
        rw [h.deleted t hdel] at hactive
        cases hactive
  · intro hended
    rw [hended] at hactive
    cases hactive

/-- A test that was initialised and not told to stop listens. -/
theorem Inv.running (h : Inv σ) {t : ℕ} (hinit : (σ.tests t).initialized = true) (hexit : (σ.tests t).exit = false) :
    (σ.tests t).deleted = false ∧ ((σ.tests t).thread = .begun ∨ (σ.tests t).thread = .looping) ∧
      t ∈ σ.subscribers := by
  have hstopped : (σ.tests t).thread.stopped = false := by rw [← h.exit_eq t, hexit]
  have habsent := h.init_thread t hinit
  have hthread : (σ.tests t).thread = .begun ∨ (σ.tests t).thread = .looping := by
    cases hc : (σ.tests t).thread <;> simp_all [Thread.stopped]
  have hlisten : (σ.tests t).thread.listening = true := by
    obtain hc | hc := hthread <;> rw [hc] <;> rfl
  have hmem := h.subscribes t hinit hlisten
  exact ⟨(h.subscribersOk t hmem).1, hthread, hmem⟩

/-- A start command that succeeds under the condition finds or leaves a running test. -/
theorem Inv.ready (h : Inv σ) {τ : State} {ev : Event} (hcond : Condition σ ev) (hnext : AgentLife.next σ ev = some τ)
    (hrep : Reports σ ev) : Ready τ := by
  cases ev with
  | startSeen =>
      simp only [AgentLife.next] at hnext
      split_ifs at hnext with hg
      cases hnext
      obtain ⟨t, ht⟩ := Option.ne_none_iff_exists'.mp hg.2
      obtain ⟨hinit, hexit⟩ := hcond t ht
      obtain ⟨hdel, hthread, hmem⟩ := h.running hinit hexit
      exact ⟨t, ht, hdel, hthread, hexit, hmem⟩
  | store =>
      obtain ⟨t, ht, hinit⟩ := hrep
      simp only [AgentLife.next, ht, Option.some.injEq] at hnext
      have hexit : (σ.tests t).exit = false := by rw [h.exit_eq t, (h.storing t ht).1]
      obtain ⟨hdel, hthread, hmem⟩ := h.running hinit hexit
      subst hnext
      exact ⟨t, rfl, hdel, hthread, hexit, hmem⟩
  | _ =>
      cases hrep

end Invariant

/-! ### Runs -/

section Runs

/-- **Subscribers and answers**: in every run whose events meet the condition the subscribers are tests that
are neither deleted nor finished, and every start command that succeeds leaves a test that runs and is
subscribed. -/
theorem subscribed_alive {σ : State} (h : Run next Condition start σ) :
    SubscribersOk σ ∧ ∀ ev τ, Condition σ ev → next σ ev = some τ → Reports σ ev → Ready τ := by
  have hinv := run_invariant (I := Inv) (fun _ _ _ hI hcond hnext => hI.next hcond hnext) h inv_start
  exact ⟨hinv.subscribersOk, fun ev τ hcond hnext hrep => hinv.ready hcond hnext hrep⟩

/-- A first start command, and a second one that finds the test running. -/
theorem subscribed_alive_started : ∃ σ τ, Run next Condition start σ ∧ next σ .startSeen = some τ ∧
    σ.subscribers = [0] ∧ SubscribersOk σ ∧ Ready τ := by
  have h₁ : Run next Condition start _ := Run.single (a := Event.check) trivial rfl
  have h₂ := h₁.step (a := Event.construct .ok) trivial rfl
  have h₃ := h₂.step (a := Event.subscribe) trivial rfl
  have h₄ := h₃.step (a := Event.store) (fun t _ _ hm => by cases hm.1) rfl
  have h₅ := h₄.step (a := Event.begin 0) trivial rfl
  obtain ⟨hsubs, hready⟩ := subscribed_alive h₅
  refine ⟨_, _, h₅, rfl, rfl, hsubs, hready .startSeen _ ?_ rfl trivial⟩
  rintro t ⟨⟩
  exact ⟨rfl, rfl⟩

/-- A step that cannot be executed is in abort at the next tick. -/
def abortRun : List Event :=
  [.check, .construct .ok, .subscribe, .store, .begin 0, .arrive .data, .deliver, .handle 0 [.abort], .tick 0 []]

/-- A start command that comes right after a stop command. -/
def restartRun : List Event :=
  [.check, .construct .ok, .subscribe, .store, .begin 0, .wait .ready, .stop true, .deliver, .handleStop 0,
    .unsubscribe 0, .leave 0]

/-- After an abort the finished test is still subscribed, and right after a stop a start command succeeds
without a running test. -/
theorem not_subscribed_alive : (∃ σ, Run next (fun _ _ => True) start σ ∧ ¬ SubscribersOk σ) ∧
    ∃ σ τ, Run next (fun _ _ => True) start σ ∧ next σ .startSeen = some τ ∧ Reports σ .startSeen ∧ ¬ Ready τ := by
  constructor
  · refine ⟨_, run_of_execTo (show execTo next start abortRun = some _ from rfl), fun h => ?_⟩
    exact (h 0 (by decide)).2 rfl
  · refine ⟨_, _, run_of_execTo (show execTo next start restartRun = some _ from rfl), rfl, trivial, ?_⟩
    rintro ⟨t, ht, -, hthread, -⟩
    cases ht
    obtain h | h := hthread <;> cases h

end Runs

end OneWifiTestSuite.AgentLife
