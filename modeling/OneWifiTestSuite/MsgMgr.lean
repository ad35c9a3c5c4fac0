import OneWifiTestSuite.Queue

/-!
# The message manager

`queue_msg` hands a copy of a message to every test in `m_tests`, and the thread of each test pops its
copies and dumps the beacons that a step of it captures. The copies of a `start_ap` share the buffers
of the beacon, and `dump` frees them. A `start_ap` that is not decoded has the buffers that the record
of the handler still holds, which are those of an earlier one.

The turns of the handler thread, of the test threads and of those that subscribe are interleaved in
any order. `push_msg` and `pop_msg` take no lock: each begins and ends with a turn of its own, and when
one begins on a queue that the other is in, the two race and nothing is said of what follows.

`Broadcast` is what the manager is for: `broadcast_of_run` is its invariant for the runs in which the
list is left alone while it is walked, nobody comes into a queue that is in use, and no beacon is dumped
twice.
-/

namespace OneWifiTestSuite.MsgMgr

open Runs Queue

/-! ### The system -/

section System

inductive Part
  | head
  | tail
deriving DecidableEq, Repr

/-- A buffer of a beacon; the beacons that are decoded have numbers. -/
structure Buffer where
  beacon : ℕ
  part : Part
deriving DecidableEq, Repr

inductive Access
  | use (b : Buffer)
  | free (b : Buffer)
deriving DecidableEq, Repr

def Access.buffer : Access → Buffer
  | .use b => b
  | .free b => b

/-- A copy of a message: its number, whether it is a `start_ap`, and its `beacon_head` and
`beacon_tail`, which are `NULL` for `none`. -/
structure Copy where
  num : ℕ
  startAp : Bool
  beacon : Option ℕ
deriving DecidableEq, Repr

/-- The loop of `queue_msg`; `pushing` is the test that `push_msg` is at work for. -/
structure Walk (τ : Type) where
  msg : Copy
  count : BitVec 32
  i : BitVec 32
  pushing : Option τ
deriving DecidableEq, Repr

/-- What the thread of a test is about to do: look at `m_results`, `run` a copy, clear
`enable_beacon_dump` and dump, set `enable_beacon_dump`, or go on with the accesses of `dump`. -/
inductive Phase
  | idle
  | looking
  | popped (c : Copy)
  | clear (beacon : Option ℕ)
  | set
  | dump (beacon : ℕ) (todo : List Access)
deriving DecidableEq, Repr

/-- The manager, the tests and the heap; `fData` are the beacon pointers in the record of the handler,
`raced` says that a `NULL` was used or that two threads were in one queue. The fields from
`subscribed` on are the history: the tests that have subscribed, the number of messages, those that
were queued while a test was subscribed, those that it got and those that it popped, the dumped
beacons and all accesses to buffers. -/
structure State (τ : Type) where
  tests : List τ
  hdlr : Option (Walk τ)
  fData : Option ℕ
  beacons : ℕ
  results : τ → List Copy
  thread : τ → Phase
  enableBeaconDump : Bool
  raced : Bool
  subscribed : List τ
  sent : ℕ
  due : τ → List ℕ
  received : τ → List ℕ
  taken : τ → List ℕ
  dumped : List ℕ
  log : List Access

/-- What `run` sees of a step: its state is continue or wait, and its frame filter calls
`unload_cfg80211_start_ap` and returns `RETURN_HANDLED`. -/
structure StepView where
  active : Bool
  captures : Bool
deriving DecidableEq, Repr

/-- What the handler has read: a `start_ap`, of which it takes the beacon unless the length of its SSID
is rejected, or another message. -/
inductive Kind
  | startAp (decoded : Bool)
  | other
deriving DecidableEq, Repr

/-- One turn of a thread. The handler reads a message, comes to the next test and ends the push into
its queue; a test comes into its queue and has counted it or popped a copy; `memory` answers the
`malloc` in `queue_push`, and `early` says that `dump` returns before it reads the beacon. -/
inductive Label (τ : Type)
  | subscribe (t : τ) (memory : Bool)
  | unsubscribe (t : τ)
  | queueMsg (kind : Kind)
  | deliver
  | pushed (memory : Bool)
  | look (t : τ)
  | counted (t : τ)
  | pop (t : τ)
  | run (t : τ) (steps : List StepView) (pending : BitVec 32)
  | turn (t : τ) (early : Bool)

variable {τ : Type}

/-- `queue_peek`. -/
def peek (tests : List τ) (i : BitVec 32) : Option τ :=
  if InBound (tests.map some) i then tests[i.toNat]? else none

/-- The loop of `run` over the bits of `pending_steps`: a step captures the message. -/
def walk (steps : List StepView) : ℕ → BitVec 32 → ℕ → Bool
  | 0, _, _ => false
  | bits + 1, pending, stepSeqNumber =>
      if pending = 0 then false
      else if pending &&& 1 = 0 then walk steps bits (pending >>> 1) (stepSeqNumber + 1)
      else
        match steps[stepSeqNumber]? with
        | none => false
        | some step =>
            if step.active && step.captures then true else walk steps bits (pending >>> 1) (stepSeqNumber + 1)

/-- The accesses of `dump`: the timestamp is written into the head, head and tail are read, and both
are freed. -/
def dumpAccesses (beacon : ℕ) : List Access :=
  [.use ⟨beacon, .head⟩, .use ⟨beacon, .head⟩, .use ⟨beacon, .tail⟩, .free ⟨beacon, .head⟩, .free ⟨beacon, .tail⟩]

variable [DecidableEq τ]

/-- `unsubscribe`: the first entry for the test, among the `queue_count` first ones. -/
def unsubscribe (tests : List τ) (t : τ) : List τ :=
  if t ∈ tests.take (listCount (tests.map some)).toNat then tests.erase t else tests

/-- `wlan_emu_tests_t::run` of a popped copy, up to the test of `enable_beacon_dump`. -/
def runPhase (enableBeaconDump : Bool) (c : Copy) (steps : List StepView) (pending : BitVec 32) : Phase :=
  if c.startAp && walk steps 32 pending 0 then (if enableBeaconDump then .clear c.beacon else .set) else .idle

/-- The record of the handler once it has a message: the copy to hand out. -/
def decode (s : State τ) : Kind → State τ × Copy
  | .startAp true => ({ s with fData := some s.beacons, beacons := s.beacons + 1 }, ⟨s.sent, true, some s.beacons⟩)
  | .startAp false => (s, ⟨s.sent, true, s.fData⟩)
  | .other => (s, ⟨s.sent, false, s.fData⟩)

/-- The test whose queue the handler is in. -/
def State.pushing (s : State τ) : Option τ :=
  s.hdlr.bind Walk.pushing

def next (s : State τ) (l : Label τ) : Option (State τ) :=
  if s.raced then none
  else
    match l with
    | .subscribe t memory =>
        some { s with tests := if memory then t :: s.tests else s.tests, subscribed := t :: s.subscribed }
    | .unsubscribe t => some { s with tests := unsubscribe s.tests t, subscribed := s.subscribed.erase t }
    | .queueMsg kind =>
        match s.hdlr with
        | some _ => none
        | none =>
            let (s, c) := decode s kind
            some { s with
              hdlr := some ⟨c, listCount (s.tests.map some), 0, none⟩
              sent := s.sent + 1
              due := fun t => if t ∈ s.subscribed then s.due t ++ [s.sent] else s.due t }
    | .deliver =>
        match s.hdlr with
        | none => none
        | some h =>
            if h.pushing.isSome then none
            else if h.i < h.count then
              match peek s.tests h.i with
              | none => some { s with raced := true }
              | some t =>
                  if s.thread t = .looking then some { s with raced := true }
                  else some { s with hdlr := some { h with pushing := some t } }
            else some { s with hdlr := none }
    | .pushed memory =>
        match s.hdlr with
        | none => none
        | some h =>
            match h.pushing with
            | none => none
            | some t =>
                let s := { s with hdlr := some { h with i := h.i + 1, pushing := none } }
                if memory then
                  some { s with
                    results := Function.update s.results t (h.msg :: s.results t)
                    received := Function.update s.received t (s.received t ++ [h.msg.num]) }
                else some s
    | .look t =>
        match s.thread t with
        | .idle =>
            if s.pushing = some t then some { s with raced := true }
            else some { s with thread := Function.update s.thread t .looking }
        | _ => none
    | .counted t =>
        match s.thread t with
        | .looking => some { s with thread := Function.update s.thread t .idle }
        | _ => none
    | .pop t =>
        match s.thread t with
        | .looking =>
            if listCount ((s.results t).map some) = 0 then
              some { s with thread := Function.update s.thread t .idle }
            else
              match (s.results t).getLast? with
              | none => none
              | some c =>
                  some { s with
                    results := Function.update s.results t (s.results t).dropLast
                    thread := Function.update s.thread t (.popped c)
                    taken := Function.update s.taken t (s.taken t ++ [c.num]) }
        | _ => none
    | .run t steps pending =>
        match s.thread t with
        | .popped c =>
            some { s with thread := Function.update s.thread t (runPhase s.enableBeaconDump c steps pending) }
        | _ => none
    | .turn t early =>
        match s.thread t with
        | .clear beacon =>
            let s := { s with enableBeaconDump := false }
            if early then some { s with thread := Function.update s.thread t .idle }
            else
              match beacon with
              | none => some { s with raced := true }
              | some b =>
                  some { s with
                    thread := Function.update s.thread t (.dump b (dumpAccesses b))
                    dumped := b :: s.dumped }
        | .set => some { s with enableBeaconDump := true, thread := Function.update s.thread t .idle }
        | .dump b (a :: todo) =>
            some { s with log := s.log ++ [a], thread := Function.update s.thread t (.dump b todo) }
        | .dump _ [] => some { s with thread := Function.update s.thread t .idle }
        | _ => none

def init : State τ where
  tests := []
  hdlr := none
  fData := none
  beacons := 0
  results := fun _ => []
  thread := fun _ => .idle
  enableBeaconDump := false
  raced := false
  subscribed := []
  sent := 0
  due := fun _ => []
  received := fun _ => []
  taken := fun _ => []
  dumped := []
  log := []

end System

/-! ### What the manager is for -/

section Spec

variable {τ : Type}

/-- No access follows the free of its buffer. -/
def SafeLog (log : List Access) : Prop :=
  log.Pairwise fun x y => ∀ b, x = .free b → y.buffer ≠ b

/-- Every test gets the messages that were queued while it was subscribed, each once and in their
order, and pops them in this order; no buffer is used or freed after it was freed. -/
structure Broadcast (s : State τ) : Prop where
  alive : s.raced = false
  once : ∀ t, (s.due t).Pairwise (· < ·) ∧ s.received t <+: s.due t
  all : s.hdlr = none → ∀ t, s.received t = s.due t
  fifo : ∀ t, s.taken t <+: s.received t
  safe : SafeLog s.log

/-- The thread does not begin to dump a beacon that was dumped, or none. -/
def NotDumped (dumped : List ℕ) : Phase → Prop
  | .clear beacon => ∃ b ∈ beacon, b ∉ dumped
  | _ => True

variable [DecidableEq τ]

/-- The test that the handler comes to next. -/
def State.nextTest (s : State τ) : Option τ :=
  s.hdlr.bind fun h => if h.pushing.isNone ∧ h.i < h.count then peek s.tests h.i else none

/-- The condition on a turn: the list of tests is changed only while no message is queued, and by
tests that are not in it; there is memory for the elements of the queues; nobody comes into the queue of
a test while another thread is in it; and a beacon is dumped only if it was decoded and not dumped. -/
def Clean (s : State τ) : Label τ → Prop
  | .subscribe t memory => s.hdlr = none ∧ t ∉ s.tests ∧ memory = true
  | .unsubscribe _ => s.hdlr = none ∧ s.tests.length < 2 ^ 32
  | .queueMsg _ => s.tests.length < 2 ^ 32
  | .deliver => ∀ t ∈ s.nextTest, s.thread t ≠ .looking
  | .pushed memory => memory = true
  | .look t => s.pushing ≠ some t
  | .turn t false => NotDumped s.dumped (s.thread t)
  | _ => True

instance (dumped : List ℕ) : (p : Phase) → Decidable (NotDumped dumped p)
  | .clear beacon => decidable_of_iff (beacon.any (· ∉ dumped) = true) (by simp [NotDumped, Option.any_eq_true])
  | .idle | .looking | .popped _ | .set | .dump _ _ => isTrue trivial

instance (s : State τ) : (l : Label τ) → Decidable (Clean s l)
  | .subscribe t memory => inferInstanceAs (Decidable (s.hdlr = none ∧ t ∉ s.tests ∧ memory = true))
  | .unsubscribe _ => inferInstanceAs (Decidable (s.hdlr = none ∧ s.tests.length < 2 ^ 32))
  | .queueMsg _ => inferInstanceAs (Decidable (s.tests.length < 2 ^ 32))
  | .deliver => inferInstanceAs (Decidable (∀ t ∈ s.nextTest, s.thread t ≠ .looking))
  | .pushed memory => inferInstanceAs (Decidable (memory = true))
  | .look t => inferInstanceAs (Decidable (s.pushing ≠ some t))
  | .turn t false => inferInstanceAs (Decidable (NotDumped s.dumped (s.thread t)))
  | .turn _ true | .counted _ | .pop _ | .run _ _ _ => isTrue trivial

end Spec

/-! ### The log -/

section Logs

variable {log : List Access} {n : ℕ}

/-- The accesses to the buffers of one beacon. -/
def accessesOf (n : ℕ) (log : List Access) : List Access :=
  log.filter fun a => a.buffer.beacon = n

theorem accessesOf_append (n : ℕ) (l₁ l₂ : List Access) :
    accessesOf n (l₁ ++ l₂) = accessesOf n l₁ ++ accessesOf n l₂ :=
  List.filter_append _ _

theorem accessesOf_singleton (n : ℕ) (a : Access) : accessesOf n [a] = if a.buffer.beacon = n then [a] else [] := by
  by_cases h : a.buffer.beacon = n <;> simp [accessesOf, h]

theorem beacon_of_mem_dumpAccesses {a : Access} (h : a ∈ dumpAccesses n) : a.buffer.beacon = n := by
  simp only [dumpAccesses, List.mem_cons, List.not_mem_nil, or_false] at h
  obtain rfl | rfl | rfl | rfl | rfl := h <;> rfl

theorem safe_dumpAccesses (n : ℕ) : SafeLog (dumpAccesses n) := by
  simp [SafeLog, dumpAccesses, Access.buffer]

/-- A log is safe when it is for every single beacon. -/
theorem safeLog_of_accessesOf (h : ∀ n, SafeLog (accessesOf n log)) : SafeLog log := by
  induction log with
  | nil =>
      exact List.Pairwise.nil
  | cons a log ih =>
      have hrest : ∀ n, SafeLog (accessesOf n log) := by
        intro n
        have hn := h n
        unfold accessesOf at hn ⊢
        by_cases ha : a.buffer.beacon = n
        · rw [List.filter_cons_of_pos (by simpa using ha)] at hn
          exact (List.pairwise_cons.mp hn).2
        · rw [List.filter_cons_of_neg (by simpa using ha)] at hn
          exact hn
      refine List.pairwise_cons.mpr ⟨fun y hy b hb heq => ?_, ih hrest⟩
      have hn := h b.beacon
      have hbuf : a.buffer = b := by
        rw [hb]
        rfl
      unfold accessesOf at hn
      rw [List.filter_cons_of_pos (by simp [hbuf])] at hn
      exact (List.pairwise_cons.mp hn).1 y (List.mem_filter.mpr ⟨hy, by simp [heq]⟩) b hb heq

theorem safeLog_of_prefix (h : ∀ n, accessesOf n log <+: dumpAccesses n) : SafeLog log :=
  safeLog_of_accessesOf fun n => (safe_dumpAccesses n).sublist (h n).sublist

end Logs

/-! ### What a turn can do -/

section Moves

variable {τ : Type} [DecidableEq τ] {s s' : State τ} {l : Label τ}

/-- The turns, one constructor for each thing that a turn can do. -/
inductive Move (s : State τ) : Label τ → State τ → Prop
  | subscribe (t : τ) (memory : Bool) : Move s (.subscribe t memory)
      { s with tests := if memory then t :: s.tests else s.tests, subscribed := t :: s.subscribed }
  | unsubscribe (t : τ) : Move s (.unsubscribe t)
      { s with tests := unsubscribe s.tests t, subscribed := s.subscribed.erase t }
  | queueMsg (kind : Kind) (c : Copy) (fData : Option ℕ) (beacons : ℕ) (hidle : s.hdlr = none) (hnum : c.num = s.sent) :
      Move s (.queueMsg kind)
        { s with
          fData := fData
          beacons := beacons
          hdlr := some ⟨c, listCount (s.tests.map some), 0, none⟩
          sent := s.sent + 1
          due := fun t => if t ∈ s.subscribed then s.due t ++ [s.sent] else s.due t }
  | lost (h : Walk τ) (hw : s.hdlr = some h) (hlt : h.i < h.count) (hp : peek s.tests h.i = none) :
      Move s .deliver { s with raced := true }
  | come (h : Walk τ) (t : τ) (hw : s.hdlr = some h) (hfree : h.pushing = none) (hlt : h.i < h.count)
      (hp : peek s.tests h.i = some t) : Move s .deliver
      (if s.thread t = .looking then { s with raced := true }
      else { s with hdlr := some { h with pushing := some t } })
  | delivered (h : Walk τ) (hw : s.hdlr = some h) (hfree : h.pushing = none) (hge : ¬ h.i < h.count) :
      Move s .deliver { s with hdlr := none }
  | pushed (h : Walk τ) (t : τ) (hw : s.hdlr = some h) (hp : h.pushing = some t) : Move s (.pushed true)
      { s with
        hdlr := some { h with i := h.i + 1, pushing := none }
        results := Function.update s.results t (h.msg :: s.results t)
        received := Function.update s.received t (s.received t ++ [h.msg.num]) }
  | unpushed (h : Walk τ) (t : τ) (hw : s.hdlr = some h) (hp : h.pushing = some t) : Move s (.pushed false)
      { s with hdlr := some { h with i := h.i + 1, pushing := none } }
  | overlap (t : τ) (hp : s.pushing = some t) : Move s (.look t) { s with raced := true }
  | look (t : τ) (hidle : s.thread t = .idle) : Move s (.look t)
      { s with thread := Function.update s.thread t .looking }
  | leave (t : τ) (l : Label τ) (hl : l = .counted t ∨ l = .pop t) : Move s l
      { s with thread := Function.update s.thread t .idle }
  | pop (t : τ) (c : Copy) (hlast : (s.results t).getLast? = some c) : Move s (.pop t)
      { s with
        results := Function.update s.results t (s.results t).dropLast
        thread := Function.update s.thread t (.popped c)
        taken := Function.update s.taken t (s.taken t ++ [c.num]) }
  | run (t : τ) (steps : List StepView) (pending : BitVec 32) (c : Copy) (hc : s.thread t = .popped c) :
      Move s (.run t steps pending)
        { s with thread := Function.update s.thread t (runPhase s.enableBeaconDump c steps pending) }
  | early (t : τ) : Move s (.turn t true)
      { s with enableBeaconDump := false, thread := Function.update s.thread t .idle }
  | null (t : τ) (hc : s.thread t = .clear none) : Move s (.turn t false)
      { s with enableBeaconDump := false, raced := true }
  | clear (t : τ) (b : ℕ) (hc : s.thread t = .clear (some b)) : Move s (.turn t false)
      { s with
        enableBeaconDump := false
        thread := Function.update s.thread t (.dump b (dumpAccesses b))
        dumped := b :: s.dumped }
  | set (t : τ) (early : Bool) (hc : s.thread t = .set) : Move s (.turn t early)
      { s with enableBeaconDump := true, thread := Function.update s.thread t .idle }
  | access (t : τ) (early : Bool) (b : ℕ) (a : Access) (todo : List Access)
      (hc : s.thread t = .dump b (a :: todo)) : Move s (.turn t early)
      { s with log := s.log ++ [a], thread := Function.update s.thread t (.dump b todo) }
  | finish (t : τ) (early : Bool) (b : ℕ) (hc : s.thread t = .dump b []) : Move s (.turn t early)
      { s with thread := Function.update s.thread t .idle }

theorem move_queueMsg {kind : Kind} (h : next s (.queueMsg kind) = some s') : Move s (.queueMsg kind) s' := by
  unfold next at h
  split_ifs at h with hraced
  cases hw : s.hdlr with
  | some w =>
      simp [hw] at h
  | none =>
      simp only [hw] at h
      cases kind with
      | startAp decoded =>
          cases decoded <;> cases h <;> exact .queueMsg _ _ _ _ hw rfl
      | other =>
          cases h
          exact .queueMsg _ _ _ _ hw rfl

theorem move_deliver (h : next s .deliver = some s') : Move s .deliver s' := by
  unfold next at h
  split_ifs at h with hraced
  cases hw : s.hdlr with
  | none =>
      simp [hw] at h
  | some w =>
      simp only [hw] at h
      split_ifs at h with hpush hlt
      · have hfree : w.pushing = none := by simpa using hpush
        cases hp : peek s.tests w.i with
        | none =>
            simp only [hp] at h
            cases h
            rw [← hw]
            exact .lost w hw hlt hp
        | some t =>
            have hcome := Move.come w t hw hfree hlt hp
            simp only [hp, ← apply_ite some, Option.some.injEq] at h
            rw [hw] at hcome
            exact h ▸ hcome
      · cases h
        exact .delivered w hw (by simpa using hpush) hlt

theorem move_pushed {memory : Bool} (h : next s (.pushed memory) = some s') : Move s (.pushed memory) s' := by
  unfold next at h
  split_ifs at h with hraced
  cases hw : s.hdlr with
  | none =>
      simp [hw] at h
  | some w =>
      simp only [hw] at h
      cases hp : w.pushing with
      | none =>
          simp [hp] at h
      | some t =>
          cases memory with
          | true =>
              simp only [hp] at h
              cases h
              exact .pushed w t hw hp
          | false =>
              simp only [hp] at h
              cases h
              exact .unpushed w t hw hp

/-- The turns of the thread of a test in its queue. -/
theorem move_queue {t : τ} (hl : l = .look t ∨ l = .counted t ∨ l = .pop t) (h : next s l = some s') : Move s l s' := by
  unfold next at h
  split_ifs at h with hraced
  obtain rfl | rfl | rfl := hl
  · cases hc : s.thread t with
    | idle =>
        simp only [hc] at h
        split_ifs at h with hp
        · cases h
          exact .overlap t hp
        · cases h
          exact .look t hc
    | _ => simp [hc] at h
  · cases hc : s.thread t with
    | looking =>
        simp only [hc] at h
        cases h
        exact .leave t _ (.inl rfl)
    | _ => simp [hc] at h
  · cases hc : s.thread t with
    | looking =>
        simp only [hc] at h
        split_ifs at h with hcount
        · cases h
          exact .leave t _ (.inr rfl)
        · cases hlast : (s.results t).getLast? with
          | none =>
              simp [hlast] at h
          | some c =>
              simp only [hlast] at h
              cases h
              exact .pop t c hlast
    | _ => simp [hc] at h

theorem move_turn {t : τ} {early : Bool} (h : next s (.turn t early) = some s') : Move s (.turn t early) s' := by
  unfold next at h
  split_ifs at h with hraced
  cases hc : s.thread t with
  | clear beacon =>
      simp only [hc] at h
      cases early with
      | true =>
          cases h
          exact .early t
      | false =>
          cases beacon with
          | none =>
              cases h
              exact .null t hc
          | some b =>
              cases h
              exact .clear t b hc
  | set =>
      simp only [hc] at h
      cases h
      exact .set t early hc
  | dump b todo =>
      cases todo with
      | nil =>
          simp only [hc] at h
          cases h
          exact .finish t early b hc
      | cons a todo =>
          simp only [hc] at h
          cases h
          exact .access t early b a todo hc
  | _ => simp [hc] at h

theorem move_of_next (h : next s l = some s') : Move s l s' := by
  cases l with
  | subscribe t memory =>
      unfold next at h
      split_ifs at h with hraced
      all_goals
        cases h
        exact .subscribe t _
  | unsubscribe t =>
      unfold next at h
      split_ifs at h with hraced
      cases h
      exact .unsubscribe t
  | queueMsg kind => exact move_queueMsg h
  | deliver => exact move_deliver h
  | pushed memory => exact move_pushed h
  | look t => exact move_queue (.inl rfl) h
  | counted t => exact move_queue (.inr (.inl rfl)) h
  | pop t => exact move_queue (.inr (.inr rfl)) h
  | run t steps pending =>
      unfold next at h
      split_ifs at h with hraced
      cases hc : s.thread t with
      | popped c =>
          simp only [hc] at h
          cases h
          exact .run t steps pending c hc
      | _ => simp [hc] at h
  | turn t early => exact move_turn h

end Moves

/-! ### Delivery -/

section Lists

variable {τ : Type}

theorem toNat_listCount {tests : List τ} (h : tests.length < 2 ^ 32) :
    (listCount (tests.map some)).toNat = tests.length := by
  rw [listCount, BitVec.toNat_ofNat, List.length_map]
  omega

/-- Inside the list, `queue_peek` gives the entry. -/
theorem peek_eq_getElem {tests : List τ} (h : tests.length < 2 ^ 32) {i : BitVec 32} (hi : i.toNat < tests.length) :
    peek tests i = some tests[i.toNat] := by
  have hin : InBound (tests.map some) i := (inBound_iff (by simpa using h) i).mpr (Or.inr (by simpa using hi))
  rw [peek, if_pos hin, List.getElem?_eq_getElem hi]

end Lists

section Delivery

variable {τ : Type} [DecidableEq τ] {s s' : State τ} {l : Label τ}

/-- The tests from the place of the walk on still have to get its message, and no others. -/
structure Walking (s : State τ) (h : Walk τ) : Prop where
  count : h.count.toNat = s.tests.length
  place : h.i.toNat ≤ s.tests.length
  due : ∀ t, s.due t = if t ∈ s.tests.drop h.i.toNat then s.received t ++ [h.msg.num] else s.received t
  pushing : ∀ t, h.pushing = some t → s.tests[h.i.toNat]? = some t

structure Delivery (s : State τ) : Prop where
  alive : s.raced = false
  members : s.subscribed = s.tests
  nodup : s.tests.Nodup
  due_lt : ∀ t, ∀ n ∈ s.due t, n < s.sent
  due_sorted : ∀ t, (s.due t).Pairwise (· < ·)
  walking : ∀ h, s.hdlr = some h → Walking s h
  settled : s.hdlr = none → ∀ t, s.received t = s.due t
  queued : ∀ t, s.taken t ++ (s.results t).reverse.map Copy.num = s.received t

theorem unsubscribe_eq {tests : List τ} (h : tests.length < 2 ^ 32) (t : τ) : unsubscribe tests t = tests.erase t := by
  unfold unsubscribe
  rw [toNat_listCount h, List.take_length]
  split_ifs with ht
  · rfl
  · exact (List.erase_of_not_mem ht).symm

theorem delivery_init : Delivery (init : State τ) where
  alive := rfl
  members := rfl
  nodup := List.nodup_nil
  due_lt := by simp [init]
  due_sorted := by simp [init]
  walking := by simp [init]
  settled := fun _ _ => rfl
  queued := fun _ => rfl

/-- The handler is inside the list while it walks. -/
theorem Delivery.inside (hs : Delivery s) {h : Walk τ} (hw : s.hdlr = some h) (hlt : h.i < h.count) :
    s.tests.length < 2 ^ 32 ∧ h.i.toNat < s.tests.length := by
  have hcount := (hs.walking h hw).count
  refine ⟨?_, ?_⟩
  · rw [← hcount]
    exact h.count.isLt
  · rw [← hcount]
    exact hlt

theorem Delivery.subscribe (hs : Delivery s) {t : τ} (hidle : s.hdlr = none) (hnew : t ∉ s.tests) :
    Delivery { s with tests := t :: s.tests, subscribed := t :: s.subscribed } := by
  refine { hs with
    members := by rw [hs.members]
    nodup := List.nodup_cons.mpr ⟨hnew, hs.nodup⟩
    walking := fun h hw => ?_ }
  rw [hidle] at hw
  cases hw

theorem Delivery.unsubscribe (hs : Delivery s) {t : τ} (hidle : s.hdlr = none) (hlen : s.tests.length < 2 ^ 32) :
    Delivery { s with tests := unsubscribe s.tests t, subscribed := s.subscribed.erase t } := by
  rw [unsubscribe_eq hlen]
  refine { hs with
    members := by rw [hs.members]
    nodup := hs.nodup.sublist List.erase_sublist
    walking := fun h hw => ?_ }
  rw [hidle] at hw
  cases hw

/-- A message that is queued is due to the tests in the list. -/
theorem Delivery.queueMsg (hs : Delivery s) {c : Copy} {fData : Option ℕ} {beacons : ℕ} (hlen : s.tests.length < 2 ^ 32)
    (hidle : s.hdlr = none) (hnum : c.num = s.sent) :
    Delivery { s with
      fData := fData
      beacons := beacons
      hdlr := some ⟨c, listCount (s.tests.map some), 0, none⟩
      sent := s.sent + 1
      due := fun t => if t ∈ s.subscribed then s.due t ++ [s.sent] else s.due t } := by
  have hsettled := hs.settled hidle
  rw [hs.members]
  refine ⟨hs.alive, rfl, hs.nodup, fun t n hn => ?_, fun t => ?_, ?_, ?_, hs.queued⟩
  · by_cases ht : t ∈ s.tests
    · simp only [if_pos ht, List.mem_append, List.mem_singleton] at hn
      obtain hn | rfl := hn
      · exact Nat.lt_succ_of_lt (hs.due_lt t n hn)
      · exact Nat.lt_succ_self _
    · simp only [if_neg ht] at hn
      exact Nat.lt_succ_of_lt (hs.due_lt t n hn)
  · by_cases ht : t ∈ s.tests
    · simp only [if_pos ht]
      refine List.pairwise_append.mpr ⟨hs.due_sorted t, List.pairwise_singleton _ _, fun a ha b hb => ?_⟩
      rw [List.mem_singleton.mp hb]
      exact hs.due_lt t a ha
    · simp only [if_neg ht]
      exact hs.due_sorted t
  · rintro h ⟨⟩
    refine ⟨toNat_listCount hlen, Nat.zero_le _, fun t => ?_, fun t ht => ?_⟩
    · have hzero : (0 : BitVec 32).toNat = 0 := rfl
      simp only [hzero, List.drop_zero, hsettled t, hnum]
    · cases ht
  · rintro ⟨⟩

theorem Delivery.pushed (hs : Delivery s) {h : Walk τ} {t : τ} (hw : s.hdlr = some h) (hp : h.pushing = some t) :
    Delivery { s with
      hdlr := some { h with i := h.i + 1, pushing := none }
      results := Function.update s.results t (h.msg :: s.results t)
      received := Function.update s.received t (s.received t ++ [h.msg.num]) } := by
  obtain ⟨hcount, -, hdue, hpush⟩ := hs.walking h hw
  obtain ⟨hin, ht⟩ := List.getElem?_eq_some_iff.mp (hpush t hp)
  have hdrop : s.tests.drop h.i.toNat = t :: s.tests.drop (h.i.toNat + 1) := by
    rw [List.drop_eq_getElem_cons hin, ht]
  have hrest : t ∉ s.tests.drop (h.i.toNat + 1) := by
    have hnodup := hs.nodup.sublist (List.drop_sublist h.i.toNat s.tests)
    rw [hdrop] at hnodup
    exact (List.nodup_cons.mp hnodup).1
  have hnext : (h.i + 1).toNat = h.i.toNat + 1 := by
    have hone : (1 : BitVec 32).toNat = 1 := rfl
    have hlt := h.count.isLt
    rw [BitVec.toNat_add, hone]
    omega
  refine ⟨hs.alive, hs.members, hs.nodup, hs.due_lt, hs.due_sorted, ?_, ?_, fun t' => ?_⟩
  · rintro h' ⟨⟩
    refine ⟨hcount, ?_, fun t' => ?_, fun t' ht' => by cases ht'⟩
    · simp only [hnext]
      exact hin
    · simp only [hnext]
      have hd := hdue t'
      rw [hdrop] at hd
      by_cases heq : t' = t
      · subst heq
        rw [if_pos List.mem_cons_self] at hd
        simp [if_neg hrest, hd]
      · simpa [heq] using hd
  · rintro ⟨⟩
  · by_cases heq : t' = t
    · subst heq
      simp [← hs.queued t']
    · simpa [heq] using hs.queued t'

theorem Delivery.pop (hs : Delivery s) {t : τ} {c : Copy} (hlast : (s.results t).getLast? = some c) :
    Delivery { s with
      results := Function.update s.results t (s.results t).dropLast
      thread := Function.update s.thread t (.popped c)
      taken := Function.update s.taken t (s.taken t ++ [c.num]) } := by
  refine { hs with queued := fun t' => ?_, walking := fun h hw => { hs.walking h hw with } }
  by_cases heq : t' = t
  · subst heq
    have hsplit := List.dropLast_append_getLast? c hlast
    have hq := hs.queued t'
    rw [← hsplit] at hq
    simp only [Function.update_self]
    rw [← hq]
    simp
  · simpa [heq] using hs.queued t'

/-- A turn that touches a thread, the flag and the buffers only. -/
theorem Delivery.of_thread (hs : Delivery s) (thread : τ → Phase) (flag : Bool) (dumped : List ℕ) (log : List Access) :
    Delivery { s with thread := thread, enableBeaconDump := flag, dumped := dumped, log := log } :=
  { hs with walking := fun h hw => { hs.walking h hw with } }

theorem delivery_move (hs : Delivery s) (hC : Clean s l) (hm : Move s l s') : Delivery s' := by
  cases hm with
  | subscribe t memory =>
      obtain ⟨hidle, hnew, rfl⟩ := hC
      exact hs.subscribe hidle hnew
  | unsubscribe t => exact hs.unsubscribe hC.1 hC.2
  | queueMsg kind c fData beacons hidle hnum => exact hs.queueMsg hC hidle hnum
  | lost h hw hlt hp =>
      obtain ⟨hlen, hin⟩ := hs.inside hw hlt
      rw [peek_eq_getElem hlen hin] at hp
      cases hp
  | come h t hw hfree hlt hp =>
      have hfar : s.thread t ≠ .looking := hC t (by simp [State.nextTest, hw, hfree, hlt, hp])
      rw [if_neg hfar]
      obtain ⟨hlen, hin⟩ := hs.inside hw hlt
      rw [peek_eq_getElem hlen hin] at hp
      refine { hs with walking := ?_, settled := ?_ }
      · rintro h' ⟨⟩
        refine { hs.walking h hw with pushing := fun t' ht' => ?_ }
        cases ht'
        rw [List.getElem?_eq_getElem hin, hp]
      · rintro ⟨⟩
  | delivered h hw hfree hge =>
      obtain ⟨hcount, -, hdue, -⟩ := hs.walking h hw
      refine { hs with walking := ?_, settled := fun _ t => ?_ }
      · rintro h' ⟨⟩
      · have hend : s.tests.drop h.i.toNat = [] := by
          rw [List.drop_eq_nil_iff, ← hcount]
          exact BitVec.not_lt.mp hge
        have hd := hdue t
        rw [hend, if_neg List.not_mem_nil] at hd
        exact hd.symm
  | pushed h t hw hp => exact hs.pushed hw hp
  | unpushed h t hw hp => exact absurd hC (by simp [Clean])
  | overlap t hp => exact absurd hp hC
  | look t hidle => exact hs.of_thread _ _ _ _
  | leave t l hl => exact hs.of_thread _ _ _ _
  | pop t c hlast => exact hs.pop hlast
  | run t steps pending c hc => exact hs.of_thread _ _ _ _
  | early t => exact hs.of_thread _ _ _ _
  | null t hc =>
      have hturn : NotDumped s.dumped (s.thread t) := hC
      rw [hc] at hturn
      obtain ⟨b, hb, -⟩ := hturn
      cases hb
  | clear t b hc => exact hs.of_thread _ _ _ _
  | set t early hc => exact hs.of_thread _ _ _ _
  | access t early b a todo hc => exact hs.of_thread _ _ _ _
  | finish t early b hc => exact hs.of_thread _ _ _ _

end Delivery

/-! ### The buffers -/

section Buffers

variable {τ : Type} [DecidableEq τ] {s s' : State τ} {l : Label τ}

/-- The accesses to the buffers of a beacon are those of one `dump`, as far as it has come. -/
structure Dumps (s : State τ) : Prop where
  done : ∀ n, accessesOf n s.log <+: dumpAccesses n
  untouched : ∀ n, n ∉ s.dumped → accessesOf n s.log = []
  doing : ∀ t n a todo, s.thread t = .dump n (a :: todo) → n ∈ s.dumped ∧
    accessesOf n s.log ++ a :: todo = dumpAccesses n
  single : ∀ t t' n a todo a' todo', s.thread t = .dump n (a :: todo) → s.thread t' = .dump n (a' :: todo') → t = t'

omit [DecidableEq τ] in
theorem dumps_init : Dumps (init : State τ) where
  done := fun n => List.nil_prefix
  untouched := fun _ _ => rfl
  doing := fun _ _ _ _ h => by cases h
  single := fun _ _ _ _ _ _ _ h => by cases h

/-- A thread that goes to a phase without accesses. -/
theorem Dumps.update (hs : Dumps s) {t : τ} {p : Phase} (hp : ∀ n a todo, p ≠ .dump n (a :: todo)) :
    (∀ t' n a todo, Function.update s.thread t p t' = .dump n (a :: todo) → n ∈ s.dumped ∧
      accessesOf n s.log ++ a :: todo = dumpAccesses n) ∧
    ∀ t₁ t₂ n a todo a' todo', Function.update s.thread t p t₁ = .dump n (a :: todo) →
      Function.update s.thread t p t₂ = .dump n (a' :: todo') → t₁ = t₂ := by
  have hold : ∀ t' n a todo, Function.update s.thread t p t' = .dump n (a :: todo) →
      s.thread t' = .dump n (a :: todo) := by
    intro t' n a todo h
    by_cases heq : t' = t
    · subst heq
      rw [Function.update_self] at h
      exact absurd h (hp n a todo)
    · rwa [Function.update_of_ne heq] at h
  refine ⟨fun t' n a todo h => hs.doing t' n a todo (hold _ _ _ _ h), fun t₁ t₂ n a todo a' todo' h₁ h₂ => ?_⟩
  exact hs.single t₁ t₂ n a todo a' todo' (hold _ _ _ _ h₁) (hold _ _ _ _ h₂)

theorem runPhase_ne_dump (flag : Bool) (c : Copy) (steps : List StepView) (pending : BitVec 32) (n : ℕ) (a : Access)
    (todo : List Access) : runPhase flag c steps pending ≠ .dump n (a :: todo) := by
  unfold runPhase
  split_ifs <;> simp

omit [DecidableEq τ] in
/-- The next access of a thread that dumps. -/
theorem Dumps.access (hs : Dumps s) {t : τ} {n : ℕ} {a : Access} {todo : List Access}
    (hc : s.thread t = .dump n (a :: todo)) :
    a.buffer.beacon = n ∧ ∀ m, accessesOf m (s.log ++ [a]) = accessesOf m s.log ++ if m = n then [a] else [] := by
  obtain ⟨-, hlog⟩ := hs.doing t n a todo hc
  have hmem : a ∈ dumpAccesses n := by
    rw [← hlog]
    simp
  have hnum := beacon_of_mem_dumpAccesses hmem
  refine ⟨hnum, fun m => ?_⟩
  rw [accessesOf_append, accessesOf_singleton, hnum]
  by_cases hm : m = n
  · rw [if_pos hm, if_pos hm.symm]
  · rw [if_neg hm, if_neg (Ne.symm hm)]

/-- A thread goes to a phase without accesses, and no buffer is touched. -/
theorem Dumps.of_thread (hs : Dumps s) {t : τ} {p : Phase} (hp : ∀ n a todo, p ≠ .dump n (a :: todo)) {r : State τ}
    (hthread : r.thread = Function.update s.thread t p) (hdumped : r.dumped = s.dumped) (hlog : r.log = s.log) :
    Dumps r := by
  obtain ⟨hdoing, hsingle⟩ := hs.update (t := t) hp
  rw [← hthread] at hdoing hsingle
  exact ⟨hlog ▸ hs.done, hlog ▸ hdumped ▸ hs.untouched, hlog ▸ hdumped ▸ hdoing, hsingle⟩

omit [DecidableEq τ] in
/-- A turn that leaves the threads and the buffers alone. -/
theorem Dumps.of_frame (hs : Dumps s) {r : State τ} (hthread : r.thread = s.thread) (hdumped : r.dumped = s.dumped)
    (hlog : r.log = s.log) : Dumps r :=
  ⟨hlog ▸ hs.done, hlog ▸ hdumped ▸ hs.untouched, hthread ▸ hlog ▸ hdumped ▸ hs.doing, hthread ▸ hs.single⟩

/-- A thread begins to dump a beacon that was not dumped. -/
theorem Dumps.clear (hs : Dumps s) {t : τ} {num : ℕ} (hnew : num ∉ s.dumped) (flag : Bool) :
    Dumps { s with
      enableBeaconDump := flag
      thread := Function.update s.thread t (.dump num (dumpAccesses num))
      dumped := num :: s.dumped } := by
  have hold : ∀ t' n a todo, t' ≠ t → Function.update s.thread t (.dump num (dumpAccesses num)) t' =
      .dump n (a :: todo) → s.thread t' = .dump n (a :: todo) := by
    intro t' n a todo hne h
    rwa [Function.update_of_ne hne] at h
  refine ⟨hs.done, fun n hn => hs.untouched n fun h => hn (List.mem_cons_of_mem _ h), ?_, ?_⟩
  · intro t' n a todo h
    by_cases heq : t' = t
    · subst heq
      simp only [Function.update_self, Phase.dump.injEq] at h
      obtain ⟨rfl, htodo⟩ := h
      refine ⟨List.mem_cons_self, ?_⟩
      rw [hs.untouched _ hnew, ← htodo]
      rfl
    · obtain ⟨hmem, hlog⟩ := hs.doing t' n a todo (hold t' n a todo heq h)
      exact ⟨List.mem_cons_of_mem _ hmem, hlog⟩
  · -- no other thread dumps the message, because it was not dumped
    intro t₁ t₂ n a todo a' todo' h₁ h₂
    by_cases heq₁ : t₁ = t
    · by_cases heq₂ : t₂ = t
      · rw [heq₁, heq₂]
      · have hmem := (hs.doing t₂ n a' todo' (hold t₂ n a' todo' heq₂ h₂)).1
        subst heq₁
        simp only [Function.update_self, Phase.dump.injEq] at h₁
        rw [← h₁.1] at hmem
        exact absurd hmem hnew
    · have hmem := (hs.doing t₁ n a todo (hold t₁ n a todo heq₁ h₁)).1
      by_cases heq₂ : t₂ = t
      · subst heq₂
        simp only [Function.update_self, Phase.dump.injEq] at h₂
        rw [← h₂.1] at hmem
        exact absurd hmem hnew
      · exact hs.single t₁ t₂ n a todo a' todo' (hold _ _ _ _ heq₁ h₁) (hold _ _ _ _ heq₂ h₂)

/-- A thread makes the next access of its dump. -/
theorem Dumps.step (hs : Dumps s) {t : τ} {num : ℕ} {a : Access} {todo : List Access}
    (hc : s.thread t = .dump num (a :: todo)) :
    Dumps { s with log := s.log ++ [a], thread := Function.update s.thread t (.dump num todo) } := by
  obtain ⟨hmem, hlog⟩ := hs.doing t num a todo hc
  obtain ⟨hnum, hadd⟩ := hs.access hc
  refine ⟨fun n => ?_, fun n hn => ?_, fun t' n b rest h => ?_, fun t₁ t₂ n b rest b' rest' h₁ h₂ => ?_⟩
  · simp only [hadd]
    by_cases hn : n = num
    · subst hn
      rw [if_pos rfl]
      exact ⟨todo, by simpa using hlog⟩
    · rw [if_neg hn, List.append_nil]
      exact hs.done n
  · simp only [hadd]
    by_cases heq : n = num
    · subst heq
      exact absurd hmem hn
    · rw [if_neg heq, List.append_nil]
      exact hs.untouched n hn
  · simp only [hadd]
    by_cases heq : t' = t
    · subst heq
      simp only [Function.update_self, Phase.dump.injEq] at h
      obtain ⟨rfl, rfl⟩ := h
      refine ⟨hmem, ?_⟩
      rw [if_pos rfl, List.append_assoc]
      exact hlog
    · simp only [Function.update_of_ne heq] at h
      obtain ⟨hmem', hlog'⟩ := hs.doing t' n b rest h
      have hn : n ≠ num := by
        rintro rfl
        exact heq (hs.single t' t n b rest a todo h hc)
      exact ⟨hmem', by rw [if_neg hn, List.append_nil]; exact hlog'⟩
  · have hold : ∀ t' b rest, Function.update s.thread t (.dump num todo) t' = .dump n (b :: rest) →
        ∃ c more, s.thread t' = .dump n (c :: more) := by
      intro t' b rest h
      by_cases heq : t' = t
      · subst heq
        simp only [Function.update_self, Phase.dump.injEq] at h
        exact ⟨a, todo, by rw [hc, h.1]⟩
      · rw [Function.update_of_ne heq] at h
        exact ⟨b, rest, h⟩
    obtain ⟨c₁, more₁, ht₁⟩ := hold t₁ b rest h₁
    obtain ⟨c₂, more₂, ht₂⟩ := hold t₂ b' rest' h₂
    exact hs.single t₁ t₂ n c₁ more₁ c₂ more₂ ht₁ ht₂

theorem dumps_move (hs : Dumps s) (hC : Clean s l) (hm : Move s l s') : Dumps s' := by
  cases hm with
  | subscribe t memory => exact hs.of_frame rfl rfl rfl
  | unsubscribe t => exact hs.of_frame rfl rfl rfl
  | queueMsg kind c fData beacons hidle hnum => exact hs.of_frame rfl rfl rfl
  | lost h hw hlt hp => exact hs.of_frame rfl rfl rfl
  | come h t hw hfree hlt hp =>
      split_ifs
      · exact hs.of_frame rfl rfl rfl
      · exact hs.of_frame rfl rfl rfl
  | delivered h hw hfree hge => exact hs.of_frame rfl rfl rfl
  | pushed h t hw hp => exact hs.of_frame rfl rfl rfl
  | unpushed h t hw hp => exact hs.of_frame rfl rfl rfl
  | overlap t hp => exact hs.of_frame rfl rfl rfl
  | look t hidle => exact hs.of_thread (by simp) rfl rfl rfl
  | leave t l hl => exact hs.of_thread (by simp) rfl rfl rfl
  | pop t c hlast => exact hs.of_thread (p := .popped c) (by simp) rfl rfl rfl
  | run t steps pending c hc =>
      exact hs.of_thread (runPhase_ne_dump s.enableBeaconDump c steps pending) rfl rfl rfl
  | early t => exact hs.of_thread (by simp) rfl rfl rfl
  | null t hc => exact hs.of_frame rfl rfl rfl
  | clear t b hc =>
      have hturn : NotDumped s.dumped (s.thread t) := hC
      rw [hc] at hturn
      obtain ⟨b', hb', hnew⟩ := hturn
      cases hb'
      exact hs.clear hnew false
  | set t early hc => exact hs.of_thread (by simp) rfl rfl rfl
  | access t early b a todo hc => exact hs.step hc
  | finish t early b hc => exact hs.of_thread (by simp) rfl rfl rfl

end Buffers

/-! ### Whole runs -/

section Main

variable {τ : Type} [DecidableEq τ] {s s' : State τ} {l : Label τ}

theorem broadcast_of_inv (hd : Delivery s) (hb : Dumps s) : Broadcast s := by
  refine ⟨hd.alive, fun t => ⟨hd.due_sorted t, ?_⟩, hd.settled, fun t => ?_, safeLog_of_prefix hb.done⟩
  · cases hw : s.hdlr with
    | none =>
        rw [hd.settled hw t]
    | some h =>
        rw [(hd.walking h hw).due t]
        split_ifs
        · exact List.prefix_append _ _
        · exact List.prefix_refl _
  · rw [← hd.queued t]
    exact List.prefix_append _ _

theorem inv_next (hs : Delivery s ∧ Dumps s) (hC : Clean s l) (h : next s l = some s') : Delivery s' ∧ Dumps s' := by
  have hm := move_of_next h
  exact ⟨delivery_move hs.1 hC hm, dumps_move hs.2 hC hm⟩

/-- **The broadcast**: in every run whose turns are clean, with any tests and steps and in any order,
every state has it. -/
theorem broadcast_of_run (h : Run next Clean init s) : Broadcast s := by
  obtain ⟨hd, hb⟩ := run_invariant (I := fun s => Delivery s ∧ Dumps s) (fun _ _ _ hs hC hn => inv_next hs hC hn) h
    ⟨delivery_init, dumps_init⟩
  exact broadcast_of_inv hd hb

/-- A message is queued and handed to two tests. -/
def queueTwo (kind : Kind) : List (Label Bool) :=
  [.queueMsg kind, .deliver, .pushed true, .deliver, .pushed true, .deliver]

/-- A test pops a copy and a step captures it. -/
def capture (t : Bool) : List (Label Bool) :=
  [.look t, .pop t, .run t [⟨true, true⟩] 1, .turn t false]

/-- Two tests. -/
def subscribeTwo : List (Label Bool) :=
  [.subscribe true true, .subscribe false true]

/-- Two beacons, and one test that captures them. -/
def oneCaptures : List (Label Bool) :=
  subscribeTwo ++ queueTwo (.startAp true) ++ queueTwo (.startAp true) ++ capture true ++ capture true ++
    List.replicate 6 (.turn true false) ++ [.look false, .pop false, .run false [⟨true, false⟩] 1]

theorem broadcast_of_run_oneCaptures :
    ∃ s, Run next Clean init s ∧ s.log = dumpAccesses 1 ∧ s.taken false = [0] ∧ Broadcast s := by
  obtain ⟨s, hs⟩ : ∃ s, execTo (guarded next Clean) init oneCaptures = some s := ⟨_, rfl⟩
  have hrun := run_of_guarded hs
  have hlog : s.log = dumpAccesses 1 ∧ s.taken false = [0] := by
    cases hs
    exact ⟨rfl, rfl⟩
  exact ⟨s, hrun, hlog.1, hlog.2, broadcast_of_run hrun⟩

/-- Two beacons, and two tests that capture both: every second capture dumps. -/
def bothCapture : List (Label Bool) :=
  subscribeTwo ++ queueTwo (.startAp true) ++ queueTwo (.startAp true) ++ capture true ++ capture true ++
    List.replicate 6 (.turn true false) ++ capture false ++ capture false ++ [.turn false false]

/-- The second test writes into the head of a beacon that the first one freed. -/
theorem not_broadcast_bothCapture : ∃ s, execTo next init bothCapture = some s ∧ ¬ Broadcast s := by
  obtain ⟨s, hs⟩ : ∃ s, execTo next init bothCapture = some s := ⟨_, rfl⟩
  refine ⟨s, hs, fun h => ?_⟩
  have hlog : s.log = dumpAccesses 1 ++ [.use ⟨1, .head⟩] := by
    cases hs
    rfl
  have hsafe := h.safe
  rw [hlog] at hsafe
  have hlast := (List.pairwise_append.mp hsafe).2.2 (.free ⟨1, .head⟩) (by decide) (.use ⟨1, .head⟩) (by decide)
  exact hlast _ rfl rfl

end Main

end OneWifiTestSuite.MsgMgr
