import OneWifiTestSuite.Runs
import OneWifiTestSuite.Steps

/-!
# The test thread and its environment

The model of `wlan_emu_tests_t::test_function` with everything that moves beside it: the kernel
device that returns control messages, the message manager that copies each message into the queue
of every subscriber, `wlan_emu_tests_t::start` (which creates the thread, then subscribes, then
joins), and the worker threads and bus handlers of steps that have been executed. One label is one
atomic move of one of them, so the runs of `next` are all interleavings.

The thread moves from one `Pc` to the next; each `Pc` is a place of the source where another
thread can come between. What its callbacks do is in the label: the states they write, what they
return, and whether `test_wait` times out. (A callback may write the state of its step several
times. `step_execute` of a `Stop` step also writes the state of the step it stops, which has been
triggered before.)

On `int`, `1 << n` is left undefined by the language from `n = 32` on, and `(1 << n) - 1` from
`n = 31` on, so a `Target` says what they are there. The `log` records what happened and is never
read by the thread.
-/

namespace OneWifiTestSuite.Scheduler

open Runs Steps

/-- The values of `1 << n` and of `(1 << n) - 1` on a target, converted to `unsigned int`. -/
structure Target where
  shl : ℕ → BitVec 32
  ones : ℕ → BitVec 32
  shl_lt : ∀ n, n < 32 → shl n = 1#32 <<< n
  ones_lt : ∀ n, n < 31 → ones n = 1#32 <<< n - 1

/-- A target that uses the low five bits of the shift count, as x86 does, and wraps. -/
def Target.masking : Target where
  shl n := 1#32 <<< (n % 32)
  ones n := 1#32 <<< (n % 32) - 1
  shl_lt := fun n h => by rw [Nat.mod_eq_of_lt h]
  ones_lt := fun n h => by rw [Nat.mod_eq_of_lt (by omega)]

/-- `wlan_emu_test_coverage_t`. -/
inductive Coverage
  | coverage1
  | coverage2
  | coverage3
  | coverage4
  | coverage5
  | max
deriving DecidableEq, Repr

inductive Ctrl
  | tstart
  | tstop
deriving DecidableEq, Repr

/-- A message in the queue of the test. The tag of a control message is the sequence number of the
step it was sent for (`none` when this run did not send it); the code does not see it. -/
inductive Msg
  | emu80211 (coverage : Coverage) (ctrl : Ctrl) (tag : Option ℕ)
  | frame
deriving DecidableEq, Repr

/-- The signals to the UI manager. -/
inductive Signal
  | done
  | fail
deriving DecidableEq, Repr

/-- What a step's frame filter returns. -/
inductive FilterRet
  | handled
  | unhandled
  | other
deriving DecidableEq, Repr

/-- What happened, with sequence numbers of steps. -/
inductive Event
  | trigger (seq : ℕ)
  | exec (tag : Option ℕ) (seq : ℕ)
  | timeout (seq : ℕ)
  | filter (seq : ℕ)
  | wrote (seq : ℕ) (w : Write)
  | processed (seq : ℕ)
deriving DecidableEq, Repr

/-- The three tests that the timeout loop makes on a step. -/
inductive Check
  | waiting
  | aborted
  | finished
deriving DecidableEq, Repr

/-- Where the test thread is. -/
inductive Pc
  | idle
  | entry
  | loop
  | wait
  | drain
  | walk (mask : BitVec 32) (seq : ℕ)
  | tick (index : ℕ) (check : Check)
  | after
  | next
  | scan (index : ℕ)
  | exited
deriving DecidableEq, Repr

/-- Where `wlan_emu_tests_t::start` is. -/
inductive StartPc
  | create
  | subscribe
  | join
  | returned
deriving DecidableEq, Repr

/-- The state of the test (its configuration, its thread, its queues) and of its environment. -/
structure St where
  steps : List Step
  coverage : Coverage
  pendingSteps : BitVec 32
  currentTestStep : ℕ
  testState : TestState
  /-- the local `step` of the thread, as a queue index -/
  step : ℕ
  pc : Pc
  startPc : StartPc
  /-- `m_results`, oldest first -/
  results : List Msg
  /-- messages inside the kernel device, oldest first -/
  chan : List Msg
  /-- how often this test is in the subscriber list -/
  subs : ℕ
  exit : Bool
  sigs : List Signal
  /-- newest first -/
  log : List Event
deriving DecidableEq, Repr

/-- What the calls made by one move of the thread do and return. -/
structure Choice where
  timedOut : Bool := false
  /-- the states that `step_timeout` or `step_frame_filter` writes to its own step -/
  writes : List Write := []
  /-- the states that `step_execute` writes, with the queue index of the step -/
  execWrites : List (ℕ × Write) := []
  execOk : Bool := true
  filterRet : FilterRet := .unhandled
deriving DecidableEq, Repr

section Helpers

/-- `queue_count(test_steps_q)`. -/
def St.total (s : St) : ℕ := s.steps.length

/-- The assignment of a `test_state`. -/
def St.setState (s : St) (index : ℕ) (state : TestState) : St :=
  { s with steps := s.steps.modify index fun t => { t with testState := state } }

def St.note (s : St) (e : Event) : St :=
  { s with log := e :: s.log }

/-- A write to the state of the step at an index by a callback or another thread. -/
def St.write (s : St) (index : ℕ) (w : Write) : St :=
  match s.steps[index]? with
  | none => s
  | some t => (s.setState index w.toState).note (.wrote t.stepSeqNum w)

def St.writes (s : St) (ws : List (ℕ × Write)) : St :=
  ws.foldl (fun s w => s.write w.1 w.2) s

/-- The step at an index has been triggered. -/
def St.started (s : St) (index : ℕ) : Bool :=
  match s.steps[index]? with
  | none => false
  | some t => t.testState ≠ .request

/-- The step at an index has been executed. -/
def St.executed (s : St) (index : ℕ) : Bool :=
  match s.steps[index]? with
  | none => false
  | some t => s.log.any fun e => match e with
      | .exec _ seq => seq = t.stepSeqNum
      | _ => false

def St.goto (s : St) (pc : Pc) : St :=
  { s with pc := pc }

/-- `send_ctrl_msg`: the message goes through the kernel device. -/
def St.sendCtrlMsg (s : St) (ctrl : Ctrl) (tag : Option ℕ) : St :=
  { s with chan := s.chan ++ [.emu80211 s.coverage ctrl tag] }

/-- `wlan_emu_tests_t::stop`: `unsubscribe` takes one occurrence out. -/
def St.stop (s : St) : St :=
  { s.sendCtrlMsg .tstop none with subs := s.subs - 1, exit := true }

/-- The exit on a completed test: `stop`, then `test_done`. -/
def St.finish (s : St) : St :=
  { s.stop with testState := .results, sigs := .done :: s.sigs, pc := .exited }

/-- The exit on an aborted step: `stop`, then `test_fail`. -/
def St.fail (s : St) : St :=
  { s.stop with testState := .abort, sigs := .fail :: s.sigs, pc := .exited }

/-- `clear_pending_step`. -/
def St.clearPendingStep (T : Target) (s : St) (seq : ℕ) : St :=
  { s with pendingSteps := s.pendingSteps &&& ~~~T.shl seq }

/-- The thread goes on with the step at an index. -/
def St.select (s : St) (index : ℕ) (t : Step) : St :=
  { s with step := index, currentTestStep := s.total - t.stepSeqNum - 1, pc := .loop }

end Helpers

section Thread

/-- The start of `test_function`. -/
def entryStep (T : Target) (s : St) : Option St :=
  match s.steps[s.total - 1]? with
  | none => some { s with pendingSteps := T.ones s.total, pc := .exited }
  | some _ => some { s with pendingSteps := T.ones s.total, step := s.total - 1, pc := .loop }

/-- The top of the loop: the current step is triggered when it is in `request`. -/
def loopStep (s : St) : Option St :=
  if s.exit then some (s.goto .exited)
  else
    match s.steps[s.step]? with
    | none => none
    | some t =>
        if t.testState = .request then
          let s := { s with currentTestStep := s.total - t.stepSeqNum - 1 }
          let s := (s.sendCtrlMsg .tstart (some t.stepSeqNum)).note (.trigger t.stepSeqNum)
          some ((s.setState s.step .start).goto .wait)
        else some (s.goto .wait)

/-- After `test_wait`: the switch over the state of the step, or the timeout branch. -/
def waitStep (T : Target) (s : St) (c : Choice) : Option St :=
  if c.timedOut = false ∨ s.results ≠ [] then
    match s.steps[s.step]? with
    | none => none
    | some t =>
        match t.testState with
        | .start | .wait | .cont => some (s.goto .drain)
        | .results => some (((s.clearPendingStep T t.stepSeqNum).note (.processed t.stepSeqNum)).goto .next)
        | .none | .request | .abort => some s.fail
  else some (s.goto (.tick (s.total - 1) .waiting))

/-- `wlan_emu_handle_emu80211_msg`; `none` is the dereference of a missing current step. -/
def handleEmu80211 (s : St) (coverage : Coverage) (ctrl : Ctrl) (tag : Option ℕ) (c : Choice) : Option St :=
  if coverage = .max then some s
  else
    match s.steps[s.currentTestStep]? with
    | none => none
    | some t =>
        match ctrl with
        | .tstop => some s
        | .tstart =>
            if c.execWrites.all fun w => s.started w.1 then
              let s := (s.note (.exec tag t.stepSeqNum)).writes c.execWrites
              some (if c.execOk then s else s.write s.currentTestStep .abort)
            else none

/-- The message loop: `pop_msg` and `run`. -/
def drainStep (s : St) (c : Choice) : Option St :=
  match s.results with
  | [] => some (s.goto .loop)
  | .emu80211 coverage ctrl tag :: rest => handleEmu80211 { s with results := rest } coverage ctrl tag c
  | .frame :: rest => some { s with results := rest, pc := .walk s.pendingSteps 0 }

/-- One turn of the loop of `run` over the pending steps. -/
def walkStep (s : St) (mask : BitVec 32) (seq : ℕ) (c : Choice) : Option St :=
  if mask = 0 then some (s.goto .drain)
  else if mask.getLsbD 0 = false then some (s.goto (.walk (mask >>> 1) (seq + 1)))
  else if s.total ≤ seq then some (s.goto .drain)
  else
    match s.steps[s.total - seq - 1]? with
    | none => some (s.goto .drain)
    | some t =>
        if t.testState = .cont ∨ t.testState = .wait then
          let s := (s.note (.filter t.stepSeqNum)).writes (c.writes.map fun w => (s.total - seq - 1, w))
          match c.filterRet with
          | .unhandled => some (s.goto (.walk (mask >>> 1) (seq + 1)))
          | .handled => some (s.goto .drain)
          | .other => some s
        else some (s.goto (.walk (mask >>> 1) (seq + 1)))

/-- The next step of the timeout loop. -/
def tickNext (s : St) (index : ℕ) : St :=
  match index with
  | 0 => s.goto .after
  | index + 1 => s.goto (.tick index .waiting)

/-- One test of the timeout loop on the step at an index. -/
def tickStep (T : Target) (s : St) (index : ℕ) (check : Check) (c : Choice) : Option St :=
  match s.steps[index]? with
  | none => some (tickNext s index)
  | some t =>
      match check with
      | .waiting =>
          if t.testState = .wait ∨ t.testState = .cont then
            some (((s.note (.timeout t.stepSeqNum)).writes (c.writes.map fun w => (index, w))).goto
              (.tick index .aborted))
          else some (s.goto (.tick index .aborted))
      | .aborted => if t.testState = .abort then some s.fail else some (s.goto (.tick index .finished))
      | .finished =>
          if t.testState = .results then
            some (tickNext ((s.clearPendingStep T t.stepSeqNum).note (.processed t.stepSeqNum)) index)
          else some (tickNext s index)

/-- After the timeout loop: a forked step is left unless it is in `continue`. -/
def afterStep (s : St) : Option St :=
  match s.steps[s.step]? with
  | none => none
  | some t =>
      if t.testState = .results ∨ t.fork = true ∧ t.testState ≠ .cont then some (s.goto .next)
      else some (s.goto .loop)

/-- The index before another one in the queue, cyclically. -/
def prevIndex (s : St) (index : ℕ) : ℕ :=
  if index = 0 then s.total - 1 else index - 1

/-- The start of `get_next_pending_step`, with what its callers do with the result. -/
def nextStep (s : St) : Option St :=
  match s.steps[s.currentTestStep]? with
  | none => some { s.setState s.step .abort with testState := .abort, pc := .exited }
  | some cur =>
      if s.pendingSteps = 0 then some s.finish
      else
        let index := s.total - cur.stepSeqNum - 1
        if cur.fork = false then
          match s.steps[prevIndex s index]? with
          | none => some s.finish
          | some t => some (s.select (prevIndex s index) t)
        else some (s.goto (.scan index))

/-- One turn of the loop of `get_next_pending_step` for a forked step. -/
def scanStep (s : St) (index : ℕ) : Option St :=
  match s.steps[prevIndex s index]? with
  | none => none
  | some t =>
      if t.testState ≠ .results then some (s.select (prevIndex s index) t)
      else if s.pendingSteps = 0 then some s.finish
      else some (s.goto (.scan (prevIndex s index)))

/-- A move of the test thread. -/
def threadStep (T : Target) (s : St) (c : Choice) : Option St :=
  match s.pc with
  | .idle => none
  | .entry => entryStep T s
  | .loop => loopStep s
  | .wait => waitStep T s c
  | .drain => drainStep s c
  | .walk mask seq => walkStep s mask seq c
  | .tick index check => tickStep T s index check c
  | .after => afterStep s
  | .next => nextStep s
  | .scan index => scanStep s index
  | .exited => none

end Thread

/-- The moves. -/
inductive Action
  | create (ok : Bool)
  | subscribe
  | join
  | deliver
  | inject (m : Msg)
  | async (index : ℕ) (w : Write)
  | thread (c : Choice)
deriving DecidableEq, Repr

/-- `queue_msg`: a copy of the message for every occurrence in the subscriber list. -/
def St.queueMsg (s : St) (m : Msg) : St :=
  { s with results := s.results ++ List.replicate s.subs m }

/-- One move; `none` when it is not enabled (or crashes). -/
def next (T : Target) (s : St) : Action → Option St
  | .create ok =>
      if s.startPc = .create then
        if ok then some { s with startPc := .subscribe, pc := .entry } else some { s with startPc := .returned }
      else none
  | .subscribe =>
      if s.startPc = .subscribe then some { s with startPc := .join, subs := s.subs + 1 } else none
  | .join =>
      if s.startPc = .join ∧ s.pc = .exited then some { s with startPc := .returned } else none
  | .deliver =>
      match s.chan with
      | [] => none
      | m :: chan => some ({ s with chan := chan }.queueMsg m)
  | .inject m => some (s.queueMsg m)
  | .async index w => if s.executed index then some (s.write index w) else none
  | .thread c => threadStep T s c

/-- The state before `start`: `decode_coverage_config` has set `current_test_step` to 0 and the
state of the test to `request`. -/
def init (q : StepQueue) (coverage : Coverage) (pendingSteps : BitVec 32) : St where
  steps := q.steps
  coverage := coverage
  pendingSteps := pendingSteps
  currentTestStep := 0
  testState := .request
  step := 0
  pc := .idle
  startPc := .create
  results := []
  chan := []
  subs := 0
  exit := false
  sigs := []
  log := []

end OneWifiTestSuite.Scheduler
