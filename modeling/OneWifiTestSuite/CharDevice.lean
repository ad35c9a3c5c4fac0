import OneWifiTestSuite.Runs
import OneWifiTestSuite.RingList

/-!
# The queue of the character device

`push_to_char_device` links a copy of a message behind `list_tail`, and `pop_from_char_device` (for
`rdkfmac_read`) unlinks the node that `list_tail` points to. The entries and their `list_entry`
nodes have one address. The answers of the two `kmalloc` calls are part of a push: an address that
is not in use or null for the entry, success or not for the message. The answer of `copy_to_user` is
part of a read: the message is off the list by then, so a read that fails loses it.

Above the memory are two machines on a list of messages, oldest first. `stackStep` is what the code
computes; `fifoStep` is the purpose of the queue. `step_refines_stack` connects the memory to the
first, and `fifo_iff` is the exact condition under which the code answers as the second does:
no message is handed out while a second one waits, and none is taken by a read that fails.
-/

namespace OneWifiTestSuite.CharDevice

open Runs RingList

/-- The address of `g_char_device.list_head`. -/
def listHead : ℕ := 0

/-- What the queue uses of `g_char_device`, the entries by their address, and the flag
`rdkfmac_emu80211_close`. -/
structure Device (δ : Type) where
  links : Mem
  specs : ℕ → Option δ
  listTail : ℕ
  numInst : ℤ
  emu80211Close : Bool

/-- The calls; `start` is the write of a message that clears `rdkfmac_emu80211_close`, and `pop` is
`rdkfmac_read` with the answer of `copy_to_user`. -/
inductive Op (δ : Type)
  | open
  | release
  | start
  | push (data : δ) (entry : Option ℕ) (spec : Bool)
  | pop (copied : Bool)
  | count
deriving DecidableEq, Repr

/-- The answers; `failed` is a read that returns no message, with the message that is lost by it. -/
inductive Out (δ : Type)
  | done
  | dropped
  | accepted
  | handed (spec : Option δ)
  | failed (lost : Option δ)
  | num (n : ℕ)
deriving DecidableEq, Repr

section Code

variable {δ : Type}

/-- `init_rdkfmac_cdev`. -/
def init : Device δ :=
  ⟨initListHead (fun _ => none) listHead, fun _ => none, listHead, 0, true⟩

/-- `push_to_char_device`; `none` is a write through the null pointer of a failed `kmalloc`. -/
def pushToCharDevice (d : Device δ) (data : δ) (entry : Option ℕ) (spec : Bool) :
    Option (Device δ × Out δ) :=
  if d.numInst = 0 then some (d, .dropped)
  else if d.emu80211Close = true then some (d, .dropped)
  else
    match entry, spec with
    | some e, true =>
        -- `list_add` writes both pointers of the new node
        match listAdd (Function.update d.links e (some ⟨0, 0⟩)) e d.listTail with
        | none => none
        | some links =>
            some ({ d with links := links, specs := Function.update d.specs e (some data), listTail := e },
              .accepted)
    | _, _ => none

/-- `pop_from_char_device`. -/
def popFromCharDevice (d : Device δ) : Option (Device δ × Option δ) :=
  if d.listTail = listHead then some (d, none)
  else do
    let entry := d.listTail
    let tail ← prevOf d.links entry
    let links ← listDel d.links entry
    let spec ← d.specs entry
    pure ({ d with links := Function.update links entry none, specs := Function.update d.specs entry none,
                   listTail := tail }, some spec)

/-- The loop of `get_list_entries_count_in_char_device`. -/
def countLoop (m : Mem) (tail : ℕ) : ℕ → ℕ → BitVec 32 → Option (BitVec 32)
  | 0, _, _ => none
  | fuel + 1, ptr, n =>
      if ptr = tail then some n
      else
        match nextOf m ptr with
        | none => none
        | some next => countLoop m tail fuel next (n + 1)

def getListEntriesCount (fuel : ℕ) (d : Device δ) : Option (BitVec 32) :=
  countLoop d.links d.listTail fuel listHead 0

/-- What `rdkfmac_read` answers for the popped message. -/
def readOut (copied : Bool) : Option δ → Out δ
  | none => .handed none
  | some spec => if copied then .handed (some spec) else .failed (some spec)

def step (fuel : ℕ) (d : Device δ) : Op δ → Option (Device δ × Out δ)
  | .open => some ({ d with numInst := d.numInst + 1 }, .done)
  | .release => some (if d.numInst > 0 then { d with numInst := d.numInst - 1 } else d, .done)
  | .start => some ({ d with emu80211Close := false }, .done)
  | .push data entry spec => pushToCharDevice d data entry spec
  | .pop copied => (popFromCharDevice d).map fun r => (r.1, readOut copied r.2)
  | .count => (getListEntriesCount fuel d).map fun n => (d, .num n.toNat)

end Code

/-! ### Two machines on lists -/

section Lists

variable {δ : Type}

/-- The device with its messages as a list, oldest first. -/
structure Abs (δ : Type) where
  queue : List δ
  numInst : ℤ
  emu80211Close : Bool
deriving DecidableEq, Repr

def absInit : Abs δ := ⟨[], 0, true⟩

/-- A machine that takes messages out with `take` and counts them with `count`; `lossless` says that a
read that fails leaves its message in the queue. -/
def absStep (take : List δ → Option δ × List δ) (lossless : Bool) (count : ℕ → ℕ) (a : Abs δ) :
    Op δ → Abs δ × Out δ
  | .open => ({ a with numInst := a.numInst + 1 }, .done)
  | .release => (if a.numInst > 0 then { a with numInst := a.numInst - 1 } else a, .done)
  | .start => ({ a with emu80211Close := false }, .done)
  | .push data _ _ =>
      if a.numInst = 0 then (a, .dropped)
      else if a.emu80211Close = true then (a, .dropped)
      else ({ a with queue := a.queue ++ [data] }, .accepted)
  | .pop copied =>
      if copied = false ∧ lossless = true ∧ a.queue.isEmpty = false then (a, .failed none)
      else ({ a with queue := (take a.queue).2 }, readOut copied (take a.queue).1)
  | .count => (a, .num (count a.queue.length))

/-- What the code computes: the newest message is handed out, and the count is 32 bits wide. -/
def stackStep : Abs δ → Op δ → Abs δ × Out δ :=
  absStep (fun l => (l.getLast?, l.dropLast)) false fun n => (BitVec.ofNat 32 n).toNat

/-- The queue that the device is meant to be. -/
def fifoStep : Abs δ → Op δ → Abs δ × Out δ :=
  absStep (fun l => (l.head?, l.tail)) true fun n => n

/-- A call on which the device answers as the queue does: no message is handed out while a second one
waits, none waits when the copy of a read fails, the count fits its 32 bits, and both `kmalloc` calls of
a push that is not dropped succeed. -/
def Fits (a : Abs δ) : Op δ → Prop
  | .push _ entry spec => a.numInst ≠ 0 → a.emu80211Close = false → entry.isSome = true ∧ spec = true
  | .pop copied => if copied then a.queue.length ≤ 1 else a.queue = []
  | .count => a.queue.length < 2 ^ 32
  | _ => True

/-- Every call finds the queue so. -/
def FitCalls (a : Abs δ) : List (Op δ) → Prop
  | [] => True
  | op :: ops => Fits a op ∧ FitCalls (fifoStep a op).1 ops

/-- The message of a push. -/
def pushed : Op δ → Option δ
  | .push data _ _ => some data
  | _ => none

theorem take_eq_of_length_le_one {l : List δ} (h : l.length ≤ 1) :
    l.getLast? = l.head? ∧ l.dropLast = l.tail := by
  cases l with
  | nil =>
      exact ⟨rfl, rfl⟩
  | cons x l =>
      cases l with
      | nil =>
          exact ⟨rfl, rfl⟩
      | cons y l =>
          simp at h

theorem stackStep_eq_fifoStep {a : Abs δ} {op : Op δ} (h : Fits a op) :
    stackStep a op = fifoStep a op := by
  cases op with
  | pop copied =>
      cases copied with
      | true =>
          obtain ⟨hout, hrest⟩ := take_eq_of_length_le_one h
          simp [stackStep, fifoStep, absStep, hout, hrest]
      | false =>
          have hq : a.queue = [] := h
          simp [stackStep, fifoStep, absStep, hq]
  | count =>
      have hcount : (BitVec.ofNat 32 a.queue.length).toNat = a.queue.length := by
        rw [BitVec.toNat_ofNat, Nat.mod_eq_of_lt h]
      simp only [stackStep, fifoStep, absStep, hcount]
  | «open» | release | start | push data entry spec =>
      rfl

/-- On different messages the machines answer a `pop` or a `count` alike only when it fits. -/
theorem fits_of_out_eq {a : Abs δ} {op : Op δ} (hnd : a.queue.Nodup) (hop : pushed op = none)
    (h : (stackStep a op).2 = (fifoStep a op).2) : Fits a op := by
  cases op with
  | pop copied =>
      rcases List.eq_nil_or_concat' a.queue with hq | ⟨l, y, hq⟩
      · cases copied <;> simp [Fits, hq]
      · cases copied with
        | false =>
            -- the code loses the message, and the queue keeps it
            simp [stackStep, fifoStep, absStep, readOut, hq] at h
        | true =>
            cases l with
            | nil =>
                simp [Fits, hq]
            | cons x l =>
                have hlast : a.queue.getLast? = some y := by
                  rw [hq, List.getLast?_concat]
                have hhead : a.queue.head? = some x := by
                  rw [hq]
                  rfl
                simp only [stackStep, fifoStep, absStep, hlast, hhead, readOut, Bool.true_eq_false, false_and, if_false,
                  if_true, Out.handed.injEq, Option.some.injEq] at h
                rw [hq, h] at hnd
                simp at hnd
  | count =>
      simp only [stackStep, fifoStep, absStep, Out.num.injEq, BitVec.toNat_ofNat] at h
      change a.queue.length < 2 ^ 32
      rw [← h]
      exact Nat.mod_lt _ (by decide)
  | push data entry spec =>
      cases hop
  | «open» | release | start =>
      trivial

/-- A step takes messages out of the queue or puts the pushed one into it. -/
theorem fifoStep_sublist (a : Abs δ) (op : Op δ) :
    (fifoStep a op).1.queue.Sublist (a.queue ++ (pushed op).toList) := by
  cases op with
  | push data entry spec =>
      simp only [fifoStep, absStep]
      split_ifs
      · exact List.sublist_append_left _ _
      · exact List.sublist_append_left _ _
      · exact List.Sublist.refl _
  | pop copied =>
      simp only [fifoStep, absStep]
      split_ifs
      · exact List.sublist_append_left _ _
      · exact (List.tail_sublist _).trans (List.sublist_append_left _ _)
  | release =>
      simp only [fifoStep, absStep]
      split_ifs <;> exact List.sublist_append_left _ _
  | «open» | start | count =>
      exact List.sublist_append_left _ _

/-- The calls with the messages numbered in the order of pushing, so that they can be told apart. -/
def number : ℕ → List (Op δ) → List (Op (ℕ × δ))
  | _, [] => []
  | n, .push data entry spec :: ops => .push (n, data) entry spec :: number (n + 1) ops
  | n, .open :: ops => .open :: number n ops
  | n, .release :: ops => .release :: number n ops
  | n, .start :: ops => .start :: number n ops
  | n, .pop copied :: ops => .pop copied :: number n ops
  | n, .count :: ops => .count :: number n ops

theorem length_number (n : ℕ) (ops : List (Op δ)) : (number n ops).length = ops.length := by
  fun_induction number n ops <;> simp [*]

theorem le_of_mem_number {n : ℕ} {ops : List (Op δ)} {x : ℕ × δ}
    (hx : x ∈ (number n ops).filterMap pushed) : n ≤ x.1 := by
  fun_induction number n ops with
  | case1 =>
      simp at hx
  | case2 n data entry spec ops ih =>
      simp only [List.filterMap_cons, pushed, List.mem_cons] at hx
      rcases hx with rfl | hx
      · exact Nat.le_refl _
      · have := ih hx
        omega
  | case3 n ops ih | case4 n ops ih | case5 n ops ih | case6 n copied ops ih | case7 n ops ih =>
      exact ih hx

theorem nodup_number (n : ℕ) (ops : List (Op δ)) : ((number n ops).filterMap pushed).Nodup := by
  fun_induction number n ops with
  | case1 =>
      exact List.nodup_nil
  | case2 n data entry spec ops ih =>
      simp only [List.filterMap_cons, pushed, List.nodup_cons]
      refine ⟨fun hx => ?_, ih⟩
      have := le_of_mem_number hx
      simp at this
  | case3 n ops ih | case4 n ops ih | case5 n ops ih | case6 n copied ops ih | case7 n ops ih =>
      exact ih

end Lists

/-! ### The memory and the list -/

section Refinement

variable {δ : Type} {d : Device δ} {a : Abs δ}

/-- The device holds the messages of the list, in the nodes `as`. -/
structure Holds (d : Device δ) (a : Abs δ) (as : List ℕ) : Prop where
  ring : Ring d.links listHead as
  tail : d.listTail = lastOf listHead as
  specs : as.map d.specs = a.queue.map some
  numInst : d.numInst = a.numInst
  close : d.emu80211Close = a.emu80211Close

/-- `kmalloc` does not answer with an address that is in use. -/
def Allocates (d : Device δ) : Op δ → Prop
  | .push _ entry _ => ∀ e, entry = some e → d.links e = none
  | _ => True

theorem holds_init : Holds (init : Device δ) absInit [] :=
  ⟨ring_init _ _, rfl, rfl, rfl, rfl⟩

theorem Holds.length_eq {as : List ℕ} (h : Holds d a as) : as.length = a.queue.length := by
  have := congrArg List.length h.specs
  simpa using this

theorem map_update_specs {specs : ℕ → Option δ} {e : ℕ} {x : Option δ} {as : List ℕ} (he : e ∉ as) :
    as.map (Function.update specs e x) = as.map specs := by
  apply List.map_congr_left
  intro b hb
  have hne : b ≠ e := fun hbe => he (hbe ▸ hb)
  exact Function.update_of_ne hne _ _

theorem push_holds {as : List ℕ} (h : Holds d a as) {data : δ} {entry : Option ℕ} {spec : Bool}
    (hfit : Fits a (.push data entry spec)) (halloc : Allocates d (.push data entry spec)) :
    ∃ d' as', pushToCharDevice d data entry spec = some (d', (stackStep a (.push data entry spec)).2) ∧
      Holds d' (stackStep a (.push data entry spec)).1 as' := by
  simp only [pushToCharDevice, stackStep, absStep, ← h.numInst, ← h.close]
  by_cases hinst : d.numInst = 0
  · simp only [if_pos hinst]
    exact ⟨d, as, rfl, h⟩
  · simp only [if_neg hinst]
    by_cases hclose : d.emu80211Close = true
    · simp only [if_pos hclose]
      exact ⟨d, as, rfl, h⟩
    · simp only [if_neg hclose]
      obtain ⟨hentry, rfl⟩ := hfit (h.numInst ▸ hinst) (by simpa [h.close] using hclose)
      obtain ⟨e, rfl⟩ := Option.isSome_iff_exists.mp hentry
      have hfree := halloc e rfl
      have hout : e ∉ listHead :: as := fun he => h.ring.alloc e he hfree
      have hring := h.ring.update (c := some ⟨0, 0⟩) hout
      obtain ⟨m, hadd, hring', -⟩ := ring_listAdd hring (by simp) hout
      simp only [h.tail, hadd]
      refine ⟨_, as ++ [e], rfl, ⟨hring', ?_, ?_, rfl, rfl⟩⟩
      · exact (lastOf_concat _ _ _).symm
      · have he : e ∉ as := fun he => hout (List.mem_cons_of_mem _ he)
        simp only [List.map_append, map_update_specs he, h.specs]
        simp

theorem pop_holds {as : List ℕ} (h : Holds d a as) :
    ∃ d' as', popFromCharDevice d = some (d', a.queue.getLast?) ∧
      Holds d' { a with queue := a.queue.dropLast } as' := by
  unfold popFromCharDevice
  rcases List.eq_nil_or_concat' as with rfl | ⟨as, e, rfl⟩
  · have hempty : a.queue = [] := by
      have := h.length_eq
      exact List.length_eq_zero_iff.mp (by simpa using this.symm)
    have htail : d.listTail = listHead := h.tail
    rw [if_pos htail, hempty]
    refine ⟨d, [], rfl, ⟨h.ring, h.tail, ?_, h.numInst, h.close⟩⟩
    rfl
  · have htail : d.listTail = e := by
      rw [h.tail, lastOf_concat]
    have hperm : (listHead :: (as ++ [e])).Perm (e :: listHead :: as) :=
      List.perm_append_singleton e (listHead :: as)
    have hout := (List.nodup_cons.mp (hperm.nodup_iff.mp h.ring.nodup)).1
    have hne : e ≠ listHead := fun he => hout (he ▸ List.mem_cons_self)
    obtain ⟨hprev, m, hdel, hring, -⟩ := ring_listDel h.ring
    obtain ⟨q, x, hq⟩ : ∃ q x, a.queue = q ++ [x] := by
      rcases List.eq_nil_or_concat' a.queue with hq | hq
      · have := h.length_eq
        simp [hq] at this
      · exact hq
    have hspecs := h.specs
    rw [hq, List.map_append, List.map_append] at hspecs
    obtain ⟨hinit, hlast⟩ := List.append_inj' hspecs rfl
    have hx : d.specs e = some x := by
      simpa using hlast
    rw [htail, if_neg hne, hq]
    refine ⟨⟨Function.update m e none, Function.update d.specs e none, lastOf listHead as, d.numInst,
      d.emu80211Close⟩, as, ?_, ⟨hring.update (c := none) hout, rfl, ?_, h.numInst, h.close⟩⟩
    · simp only [hprev, hdel, hx, Option.bind_eq_bind, Option.bind_some, List.getLast?_append,
        List.getLast?_singleton, Option.some_or]
      rfl
    · have he : e ∉ as := fun he => hout (List.mem_cons_of_mem _ he)
      simp only [List.dropLast_concat]
      rw [map_update_specs he]
      exact hinit

/-- The loop counts the nodes between its pointer and the last one. -/
theorem countLoop_eq {m : Mem} {x fuel : ℕ} {as : List ℕ} (hw : Walk m x as) (hnd : (x :: as).Nodup)
    (hf : as.length < fuel) (n : BitVec 32) :
    countLoop m (lastOf x as) fuel x n = some (n + BitVec.ofNat 32 as.length) := by
  induction as generalizing x fuel n with
  | nil =>
      cases fuel with
      | zero =>
          simp at hf
      | succ fuel =>
          simp [countLoop]
  | cons y as ih =>
      cases fuel with
      | zero =>
          simp at hf
      | succ fuel =>
          obtain ⟨hlink, hw⟩ := hw
          obtain ⟨hx, hnd⟩ := List.nodup_cons.mp hnd
          have hne : x ≠ lastOf y as := fun e => hx (e ▸ lastOf_mem y as)
          have hlen : as.length < fuel := by
            simp only [List.length_cons] at hf
            omega
          rw [lastOf_cons, countLoop, if_neg hne]
          simp only [hlink.1, ih hw hnd hlen, List.length_cons, Option.some.injEq]
          rw [BitVec.ofNat_add, BitVec.add_comm (BitVec.ofNat 32 as.length), BitVec.add_assoc]
          rfl

/-- **One call refines the list machine of the code**, if its allocations succeed. -/
theorem step_refines_stack {fuel : ℕ} {as : List ℕ} {op : Op δ} (h : Holds d a as)
    (hf : a.queue.length < fuel) (hpush : (pushed op).isSome = true → Fits a op)
    (halloc : Allocates d op) :
    ∃ d' as', step fuel d op = some (d', (stackStep a op).2) ∧ Holds d' (stackStep a op).1 as' := by
  cases op with
  | «open» =>
      exact ⟨_, as, rfl, h.ring, h.tail, h.specs, congrArg (· + 1) h.numInst, h.close⟩
  | release =>
      simp only [step, stackStep, absStep, ← h.numInst]
      split_ifs
      · exact ⟨_, as, rfl, h.ring, h.tail, h.specs, rfl, h.close⟩
      · exact ⟨d, as, rfl, h⟩
  | start =>
      exact ⟨_, as, rfl, h.ring, h.tail, h.specs, h.numInst, rfl⟩
  | push data entry spec =>
      exact push_holds h (hpush rfl) halloc
  | pop copied =>
      obtain ⟨d', as', hpop, hh⟩ := pop_holds h
      exact ⟨d', as', by simp [step, hpop, stackStep, absStep], by simpa [stackStep, absStep] using hh⟩
  | count =>
      have hlen := h.length_eq
      have hlt : as.length < fuel := by omega
      have hcount : getListEntriesCount fuel d = some (BitVec.ofNat 32 a.queue.length) := by
        rw [getListEntriesCount, h.tail, countLoop_eq h.ring.walk h.ring.nodup hlt, hlen]
        simp
      exact ⟨d, as, by simp only [step, hcount]; rfl, h⟩

/-- A push that is not dropped crashes when one of its allocations fails. -/
theorem fits_of_push {data : δ} {entry : Option ℕ} {spec : Bool} {r : Device δ × Out δ} {as : List ℕ}
    (h : Holds d a as) (hpush : pushToCharDevice d data entry spec = some r) :
    Fits a (.push data entry spec) := by
  intro hinst hclose
  rw [← h.numInst] at hinst
  have hopen : ¬ d.emu80211Close = true := by
    simp [h.close, hclose]
  unfold pushToCharDevice at hpush
  rw [if_neg hinst, if_neg hopen] at hpush
  cases entry with
  | none =>
      cases hpush
  | some e =>
      cases spec with
      | false =>
          cases hpush
      | true =>
          exact ⟨rfl, rfl⟩

/-- One call answers as the queue does exactly when it fits. -/
theorem step_eq_fifo_iff {fuel : ℕ} {as : List ℕ} {op : Op δ} (h : Holds d a as)
    (hf : a.queue.length < fuel) (halloc : Allocates d op) (hnd : a.queue.Nodup) :
    (∃ d', step fuel d op = some (d', (fifoStep a op).2)) ↔ Fits a op := by
  constructor
  · rintro ⟨d', hstep⟩
    cases hp : pushed op with
    | some data =>
        cases op with
        | push data entry spec =>
            exact fits_of_push h hstep
        | «open» | release | start | pop | count =>
            cases hp
    | none =>
        obtain ⟨d₁, as₁, hstep₁, -⟩ := step_refines_stack h hf (by simp [hp]) halloc
        rw [hstep] at hstep₁
        simp only [Option.some.injEq, Prod.mk.injEq] at hstep₁
        exact fits_of_out_eq hnd hp hstep₁.2.symm
  · intro hfit
    obtain ⟨d', as', hstep, -⟩ := step_refines_stack h hf (fun _ => hfit) halloc
    rw [stackStep_eq_fifoStep hfit] at hstep
    exact ⟨d', hstep⟩

theorem fifoStep_length_le (a : Abs δ) (op : Op δ) :
    (fifoStep a op).1.queue.length ≤ a.queue.length + 1 := by
  have hle := (fifoStep_sublist a op).length_le
  have hone : (pushed op).toList.length ≤ 1 := by
    cases pushed op <;> simp
  rw [List.length_append] at hle
  omega

/-- The allocator condition of a list of calls. -/
abbrev AllocCalls (fuel : ℕ) (d : Device δ) (a : Abs δ) (ops : List (Op δ)) : Prop :=
  Meets (step fuel) fifoStep (fun d _ op => Allocates d op) d a ops

/-- The run lemma: the calls are answered as by the queue exactly when each of them fits. -/
theorem exec_eq_fifo_iff {fuel : ℕ} {as : List ℕ} {ops : List (Op δ)} (h : Holds d a as)
    (hf : a.queue.length + ops.length ≤ fuel) (halloc : AllocCalls fuel d a ops)
    (hnd : (a.queue ++ ops.filterMap pushed).Nodup) :
    (∃ d', exec (step fuel) d ops = some (d', (execTotal fifoStep a ops).2)) ↔ FitCalls a ops := by
  induction ops generalizing d a as with
  | nil =>
      simp [exec, execTotal, FitCalls]
  | cons op ops ih =>
      obtain ⟨hop, halloc⟩ := halloc
      have hlen : a.queue.length < fuel := by
        rw [List.length_cons] at hf
        omega
      have hsplit : (op :: ops).filterMap pushed = (pushed op).toList ++ ops.filterMap pushed := by
        cases hp : pushed op with
        | none =>
            rw [List.filterMap_cons_none hp]
            rfl
        | some x =>
            rw [List.filterMap_cons_some hp]
            rfl
      rw [hsplit, ← List.append_assoc] at hnd
      have hnd' : ((fifoStep a op).1.queue ++ ops.filterMap pushed).Nodup :=
        hnd.sublist ((fifoStep_sublist a op).append_right _)
      have hiff := step_eq_fifo_iff h hlen hop hnd.of_append_left.of_append_left
      have hf' : (fifoStep a op).1.queue.length + ops.length ≤ fuel := by
        have := fifoStep_length_le a op
        rw [List.length_cons] at hf
        omega
      simp only [FitCalls, execTotal]
      constructor
      · rintro ⟨d', hexec⟩
        simp only [exec] at hexec
        cases hstep : step fuel d op with
        | none =>
            simp [hstep] at hexec
        | some r =>
            obtain ⟨d₁, out⟩ := r
            simp only [hstep] at hexec
            cases hrest : exec (step fuel) d₁ ops with
            | none =>
                simp [hrest] at hexec
            | some r =>
                simp only [hrest, Option.some.injEq, Prod.mk.injEq, List.cons.injEq] at hexec
                obtain ⟨rfl, rfl, hout⟩ := hexec
                have hfit := hiff.mp ⟨d₁, hstep⟩
                obtain ⟨d₂, as₂, hstep₂, hh⟩ := step_refines_stack h hlen (fun _ => hfit) hop
                rw [hstep, Option.some.injEq, Prod.mk.injEq] at hstep₂
                obtain ⟨rfl, -⟩ := hstep₂
                rw [stackStep_eq_fifoStep hfit] at hh
                exact ⟨hfit, (ih hh hf' (halloc _ _ hstep) hnd').mp ⟨r.1, by rw [hrest, ← hout]⟩⟩
      · rintro ⟨hfit, hrest⟩
        obtain ⟨d₁, as₁, hstep, hh⟩ := step_refines_stack h hlen (fun _ => hfit) hop
        rw [stackStep_eq_fifoStep hfit] at hstep hh
        obtain ⟨d', hexec⟩ := (ih hh hf' (halloc _ _ hstep) hnd').mpr hrest
        exact ⟨d', exec_cons hstep hexec⟩

/-- **The queue of the device**: for every list of calls, the code answers as the FIFO queue does if
and only if no call hands out a message while a second one waits, no copy to the reader fails while one
waits, none counts `2 ^ 32` messages or more, and the allocations succeed. -/
theorem fifo_iff (fuel : ℕ) (ops : List (Op δ)) (hf : ops.length ≤ fuel)
    (halloc : AllocCalls fuel init absInit (number 0 ops)) :
    (∃ d, exec (step fuel) init (number 0 ops) = some (d, (execTotal fifoStep absInit (number 0 ops)).2)) ↔
      FitCalls absInit (number 0 ops) := by
  apply exec_eq_fifo_iff holds_init
  · rw [length_number]
    simpa [absInit] using hf
  · exact halloc
  · simpa [absInit] using nodup_number 0 ops

/-- Two messages of which each is read before the next one comes, the second at the address of the first;
the read in between finds nothing. -/
def turns : List (Op ℕ) :=
  [.open, .start, .push 7 (some 1) true, .count, .pop true, .pop false, .push 8 (some 1) true, .pop true]

theorem fifo_iff_turns :
    (∃ d, exec (step 8) init (number 0 turns) = some (d, (execTotal fifoStep absInit (number 0 turns)).2)) ↔
      FitCalls absInit (number 0 turns) := by
  refine fifo_iff 8 turns (by decide) ?_
  refine ⟨trivial, ?_⟩
  rintro _ _ ⟨⟩
  refine ⟨trivial, ?_⟩
  rintro _ _ ⟨⟩
  refine ⟨fun e he => by cases he; rfl, ?_⟩
  rintro _ _ ⟨⟩
  refine ⟨trivial, ?_⟩
  rintro _ _ ⟨⟩
  refine ⟨trivial, ?_⟩
  rintro _ _ ⟨⟩
  refine ⟨trivial, ?_⟩
  rintro _ _ ⟨⟩
  refine ⟨fun e he => by cases he; rfl, ?_⟩
  rintro _ _ ⟨⟩
  exact ⟨trivial, fun _ _ _ => trivial⟩

/-- Of two messages that wait, the newer one is handed out first. -/
theorem not_fifo_two :
    (exec (step 5) init
      (number 0 [.open, .start, .push 7 (some 1) true, .push 8 (some 2) true, .pop true])).map Prod.snd =
        some [.done, .done, .accepted, .accepted, .handed (some (1, 8))] ∧
      (execTotal fifoStep absInit
        (number 0 [.open, .start, .push 7 (some 1) true, .push 8 (some 2) true, .pop true])).2 =
        [.done, .done, .accepted, .accepted, .handed (some (0, 7))] := by
  decide

end Refinement

end OneWifiTestSuite.CharDevice
