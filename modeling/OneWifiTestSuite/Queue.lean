import OneWifiTestSuite.Runs
import OneWifiTestSuite.Cells
import Mathlib.Data.List.ReduceOption

/-!
# The queue of `collection.c`

The bottom layer translates `queue_push`, `queue_pop`, `queue_remove`, `queue_peek` and
`queue_count` as they are written: a `head` pointer into a memory of cells, one recursion for each
`while` loop (with fuel, where `none` is a null or dangling dereference or a loop without end) and
the 32-bit `index > (queue_count(q) - 1)` test. Data are `void *`, so a datum is an `Option` whose
`none` is the null pointer. The answer of `malloc` is part of a push: an address that is not in
use, or null.

Above it are two list machines. `listStep` is what the code computes on the list of stored data,
with the count still a 32-bit number; `fifoStep` is the purpose of the component, a FIFO list with
its true length. `step_refines_list` connects the memory to the first for every queue, and
`listStep_eq_fifoStep` the first to the second while the queue holds fewer than `2 ^ 32` data.
-/

namespace OneWifiTestSuite.Queue

open Cells Runs

/-- `queue_t`, with the memory its cells live in. -/
structure QueueT (δ : Type) where
  mem : Mem (Option δ)
  head : Option ℕ

/-- The calls of the queue interface; a push carries the answer of its `malloc`. -/
inductive Op (δ : Type)
  | push (data : Option δ) (e : Option ℕ)
  | pop
  | remove (index : BitVec 32)
  | peek (index : BitVec 32)
  | count
deriving DecidableEq, Repr

/-- The answers: a return code, a data pointer or a count. -/
inductive Out (δ : Type)
  | code (rc : ℤ)
  | data (p : Option δ)
  | num (n : ℕ)
deriving DecidableEq, Repr

section Code

variable {δ : Type}

/-- `queue_create`: no cell is linked. -/
def create : QueueT δ :=
  ⟨fun _ => none, none⟩

/-- `queue_push`; `e` is what `malloc` returned. -/
def push (q : QueueT δ) (data : Option δ) (e : Option ℕ) : QueueT δ × ℤ :=
  match e with
  | none => (q, -1)
  | some e =>
      match q.head with
      | none => (⟨Function.update q.mem e (some ⟨data, none⟩), some e⟩, 0)
      | some tmp => (⟨Function.update q.mem e (some ⟨data, some tmp⟩), some e⟩, 0)

/-- The loop of `queue_pop`: the last cell and the one before it. -/
def popLoop (m : Mem (Option δ)) : ℕ → ℕ → Option ℕ → Option (ℕ × Option ℕ)
  | 0, _, _ => none
  | fuel + 1, e, tmp =>
      match m e with
      | none => none
      | some c =>
          match c.next with
          | none => some (e, tmp)
          | some e' => popLoop m fuel e' (some e)

/-- `tmp->next = p`. -/
def setNext (m : Mem (Option δ)) (tmp : ℕ) (p : Option ℕ) : Option (Mem (Option δ)) :=
  match m tmp with
  | none => none
  | some c => some (Function.update m tmp (some ⟨c.data, p⟩))

/-- `free(e)`. -/
def free (m : Mem (Option δ)) (e : ℕ) : Mem (Option δ) :=
  Function.update m e none

/-- `queue_pop`. -/
def pop (fuel : ℕ) (q : QueueT δ) : Option (QueueT δ × Option δ) :=
  match q.head with
  | none => some (q, none)
  | some e =>
      match popLoop q.mem fuel e none with
      | none => none
      | some (e, tmp) =>
          match q.mem e, tmp with
          | none, _ => none
          | some c, none => some (⟨free q.mem e, none⟩, c.data)
          | some c, some tmp =>
              match setNext q.mem tmp none with
              | none => none
              | some m => some (⟨free m e, q.head⟩, c.data)

/-- The loop of `queue_count`. -/
def countLoop (m : Mem (Option δ)) : ℕ → Option ℕ → BitVec 32 → Option (BitVec 32)
  | 0, _, _ => none
  | _ + 1, none, i => some i
  | fuel + 1, some e, i =>
      match m e with
      | none => none
      | some c => countLoop m fuel c.next (i + 1)

/-- `queue_count`. -/
def count (fuel : ℕ) (q : QueueT δ) : Option (BitVec 32) :=
  countLoop q.mem fuel q.head 0

/-- The loop of `queue_remove`: the cell at `index` and the one before it. -/
def removeLoop (m : Mem (Option δ)) (index : BitVec 32) :
    ℕ → Option ℕ → Option ℕ → BitVec 32 → Option (Option ℕ × Option ℕ)
  | 0, _, _, _ => none
  | fuel + 1, e, tmp, i =>
      if i < index then
        match e with
        | none => none
        | some e =>
            match m e with
            | none => none
            | some c => removeLoop m index fuel c.next (some e) (i + 1)
      else some (e, tmp)

/-- `queue_remove`. -/
def remove (fuel : ℕ) (q : QueueT δ) (index : BitVec 32) : Option (QueueT δ × Option δ) :=
  match count fuel q with
  | none => none
  | some n =>
      if index > n - 1 then some (q, none)
      else
        match q.head with
        | none => some (q, none)
        | some _ =>
            match removeLoop q.mem index fuel q.head none 0 with
            | none => none
            | some (none, _) => none
            | some (some e, tmp) =>
                match q.mem e, tmp with
                | none, _ => none
                | some c, none => some (⟨free q.mem e, c.next⟩, c.data)
                | some c, some tmp =>
                    match setNext q.mem tmp c.next with
                    | none => none
                    | some m => some (⟨free m e, q.head⟩, c.data)

/-- The loop of `queue_peek`, which also stops at the end of the list. -/
def peekLoop (m : Mem (Option δ)) (index : BitVec 32) :
    ℕ → Option ℕ → BitVec 32 → Option (Option ℕ)
  | 0, _, _ => none
  | fuel + 1, e, i =>
      if i < index then
        match e with
        | none => some none
        | some e =>
            match m e with
            | none => none
            | some c => peekLoop m index fuel c.next (i + 1)
      else some e

/-- `queue_peek`. -/
def peek (fuel : ℕ) (q : QueueT δ) (index : BitVec 32) : Option (Option δ) :=
  match count fuel q with
  | none => none
  | some n =>
      if index > n - 1 then some none
      else
        match q.head with
        | none => some none
        | some _ =>
            match peekLoop q.mem index fuel q.head 0 with
            | none => none
            | some none => some none
            | some (some e) =>
                match q.mem e with
                | none => none
                | some c => some c.data

/-- One call of the interface. -/
def step (fuel : ℕ) (q : QueueT δ) : Op δ → Option (QueueT δ × Out δ)
  | .push data e => some ((push q data e).1, .code (push q data e).2)
  | .pop => (pop fuel q).map fun r => (r.1, .data r.2)
  | .remove index => (remove fuel q index).map fun r => (r.1, .data r.2)
  | .peek index => (peek fuel q index).map fun r => (q, .data r)
  | .count => (count fuel q).map fun n => (q, .num n.toNat)

end Code

/-! ### The list machines -/

section Lists

variable {δ : Type}

/-- `queue_count` of a list: a 32-bit number. -/
def listCount (l : List (Option δ)) : BitVec 32 :=
  BitVec.ofNat 32 l.length

/-- The bound test of `queue_remove` and `queue_peek` lets the index through. -/
def InBound (l : List (Option δ)) (index : BitVec 32) : Prop :=
  index ≤ listCount l - 1

instance (l : List (Option δ)) (index : BitVec 32) : Decidable (InBound l index) :=
  inferInstanceAs (Decidable (index ≤ listCount l - 1))

/-- What a call of the code does to the list of stored data. -/
def listStep (l : List (Option δ)) : Op δ → List (Option δ) × Out δ
  | .push _ none => (l, .code (-1))
  | .push data (some _) => (data :: l, .code 0)
  | .pop => (l.dropLast, .data l.getLast?.join)
  | .remove index =>
      if InBound l index then (l.eraseIdx index.toNat, .data l[index.toNat]?.join) else (l, .data none)
  | .peek index => (l, .data (if InBound l index then l[index.toNat]?.join else none))
  | .count => (l, .num (listCount l).toNat)

/-- The queue as a FIFO list: a push adds at index 0, a pop takes the last datum, `remove` and
`peek` act on an index (and answer null without a change when it is out of range), and the count
is the length. A push whose `malloc` fails answers `-1` and changes nothing. -/
def fifoStep (l : List (Option δ)) : Op δ → List (Option δ) × Out δ
  | .push _ none => (l, .code (-1))
  | .push data (some _) => (data :: l, .code 0)
  | .pop => (l.dropLast, .data l.getLast?.join)
  | .remove index => (l.eraseIdx index.toNat, .data l[index.toNat]?.join)
  | .peek index => (l, .data l[index.toNat]?.join)
  | .count => (l, .num l.length)

/-- The bound `queue_count(q) - 1` wraps on the empty queue. -/
theorem toNat_listCount_sub_one (l : List (Option δ)) :
    (listCount l - 1).toNat = (l.length + (2 ^ 32 - 1)) % 2 ^ 32 := by
  have hone : (1 : BitVec 32).toNat = 1 := rfl
  rw [listCount, BitVec.toNat_sub, BitVec.toNat_ofNat, hone]
  omega

/-- The bound test is the right one while the length fits 32 bits; the empty list, where
`count - 1` wraps, lets every index through to the test for a null head. -/
theorem inBound_iff {l : List (Option δ)} (h : l.length < 2 ^ 32) (index : BitVec 32) :
    InBound l index ↔ l = [] ∨ index.toNat < l.length := by
  have hi := index.isLt
  rw [InBound, BitVec.le_def, toNat_listCount_sub_one]
  cases l with
  | nil =>
      simp only [List.length_nil, true_or, iff_true]
      omega
  | cons d l =>
      simp only [List.length_cons, reduceCtorEq, false_or] at h ⊢
      omega

/-- An index the bound test lets through is an index of the list, however long it is. -/
theorem lt_length_of_inBound {l : List (Option δ)} (hne : l ≠ []) {index : BitVec 32}
    (h : InBound l index) : index.toNat < l.length := by
  have hi := index.isLt
  have hpos := List.length_pos_iff.mpr hne
  rw [InBound, BitVec.le_def, toNat_listCount_sub_one] at h
  omega

/-- Below `2 ^ 32` data the two list machines are one. -/
theorem listStep_eq_fifoStep {l : List (Option δ)} (h : l.length < 2 ^ 32) (op : Op δ) :
    listStep l op = fifoStep l op := by
  have hget : ∀ index : BitVec 32, ¬InBound l index → l.length ≤ index.toNat := fun index hb => by
    rw [inBound_iff h] at hb
    omega
  cases op with
  | push data e =>
      cases e <;> rfl
  | pop =>
      rfl
  | remove index =>
      by_cases hb : InBound l index
      · simp [listStep, fifoStep, hb]
      · simp [listStep, fifoStep, hb, List.eraseIdx_of_length_le (hget index hb), hget index hb]
  | peek index =>
      by_cases hb : InBound l index
      · simp [listStep, fifoStep, hb]
      · simp [listStep, fifoStep, hb, hget index hb]
  | count =>
      simp only [listStep, fifoStep, listCount, BitVec.toNat_ofNat, Nat.mod_eq_of_lt h]

end Lists

/-! ### The memory refines the list -/

section Refinement

variable {δ : Type}

/-- The queue's chain of cells holds the data `l`, head first. -/
def Holds (q : QueueT δ) (l : List (Option δ)) : Prop :=
  ∃ cs, Chain q.mem q.head cs ∧ cs.map Prod.snd = l

/-- `malloc` answers with an address that is not in use. -/
def Fresh (q : QueueT δ) : Op δ → Prop
  | .push _ (some e) => q.mem e = none
  | _ => True

theorem holds_create : Holds (create : QueueT δ) [] :=
  ⟨[], rfl, rfl⟩

theorem countLoop_eq {m : Mem (Option δ)} {p : Option ℕ} {cs : List (ℕ × Option δ)} {fuel : ℕ}
    (h : Chain m p cs) (hf : cs.length < fuel) (i : BitVec 32) :
    countLoop m fuel p i = some (i + BitVec.ofNat 32 cs.length) := by
  induction cs generalizing p fuel i with
  | nil =>
      obtain ⟨fuel, rfl⟩ := Nat.exists_eq_succ_of_ne_zero (Nat.ne_of_gt hf)
      rw [chain_iff, seg_nil] at h
      simp [h, countLoop]
  | cons c cs ih =>
      obtain ⟨a, d⟩ := c
      obtain ⟨rfl, n, hn, h⟩ := h
      cases fuel with
      | zero =>
          simp at hf
      | succ fuel =>
          have hf' : cs.length < fuel := by
            simpa using hf
          have hadd : i + 1 + BitVec.ofNat 32 cs.length = i + BitVec.ofNat 32 (cs.length + 1) := by
            rw [BitVec.ofNat_add, BitVec.add_assoc]
            congr 1
            exact BitVec.add_comm _ _
          simp only [countLoop, hn, ih h hf', List.length_cons, hadd]

/-- `queue_count` returns the length modulo `2 ^ 32`. -/
theorem count_eq {q : QueueT δ} {l : List (Option δ)} {fuel : ℕ} (h : Holds q l)
    (hf : l.length < fuel) : count fuel q = some (listCount l) := by
  obtain ⟨cs, hc, rfl⟩ := h
  rw [count, countLoop_eq hc (by simpa using hf)]
  simp [listCount]

/-- The address of the last cell of a segment, or `tmp` when it has none. -/
def lastAddr : List (ℕ × Option δ) → Option ℕ → Option ℕ
  | [], tmp => tmp
  | c :: cs, _ => lastAddr cs (some c.1)

theorem lastAddr_concat (cs : List (ℕ × Option δ)) (c : ℕ × Option δ) (tmp : Option ℕ) :
    lastAddr (cs ++ [c]) tmp = some c.1 := by
  induction cs generalizing tmp with
  | nil =>
      rfl
  | cons c' cs ih =>
      exact ih _

theorem popLoop_eq {m : Mem (Option δ)} {e a : ℕ} {d : Option δ} {cs : List (ℕ × Option δ)}
    {fuel : ℕ} (h : Chain m (some e) (cs ++ [(a, d)])) (hf : cs.length < fuel) (tmp : Option ℕ) :
    popLoop m fuel e tmp = some (a, lastAddr cs tmp) := by
  induction cs generalizing e fuel tmp with
  | nil =>
      obtain ⟨fuel, rfl⟩ := Nat.exists_eq_succ_of_ne_zero (Nat.ne_of_gt hf)
      obtain ⟨he, n, hn, h⟩ := h
      cases he
      rw [seg_nil] at h
      subst h
      simp [popLoop, hn, lastAddr]
  | cons c cs ih =>
      obtain ⟨b, db⟩ := c
      obtain ⟨he, n, hn, h⟩ := h
      cases he
      rw [List.length_cons] at hf
      cases fuel with
      | zero =>
          omega
      | succ fuel =>
          obtain ⟨e', rfl⟩ : ∃ e', n = some e' := by
            cases cs with
            | nil =>
                exact ⟨_, h.1⟩
            | cons c cs =>
                exact ⟨_, h.1⟩
          have hf' : cs.length < fuel := by omega
          have := ih h hf' (some e)
          simp only [popLoop, hn, this, lastAddr]

/-- One turn of the loops that count `i` up to `index`. -/
theorem index_turn {i index : BitVec 32} {n : ℕ} (hi : i.toNat + (n + 1) = index.toNat) :
    i < index ∧ (i + 1).toNat + n = index.toNat := by
  have hix := index.isLt
  have hone : (1 : BitVec 32).toNat = 1 := rfl
  refine ⟨by rw [BitVec.lt_def]; omega, ?_⟩
  rw [BitVec.toNat_add, hone, Nat.mod_eq_of_lt (by omega)]
  omega

theorem index_end {i index : BitVec 32} (hi : i.toNat + 0 = index.toNat) : ¬i < index := by
  rw [BitVec.lt_def]
  omega

theorem removeLoop_eq {m : Mem (Option δ)} {p : Option ℕ} {a : ℕ} {d : Option δ}
    {cs ds : List (ℕ × Option δ)} {fuel : ℕ} {index i : BitVec 32}
    (h : Chain m p (cs ++ (a, d) :: ds)) (hf : cs.length < fuel)
    (hi : i.toNat + cs.length = index.toNat) (tmp : Option ℕ) :
    removeLoop m index fuel p tmp i = some (some a, lastAddr cs tmp) := by
  induction cs generalizing p fuel tmp i with
  | nil =>
      obtain ⟨fuel, rfl⟩ := Nat.exists_eq_succ_of_ne_zero (Nat.ne_of_gt hf)
      simp [removeLoop, index_end hi, h.1, lastAddr]
  | cons c cs ih =>
      obtain ⟨b, db⟩ := c
      obtain ⟨rfl, n, hn, h⟩ := h
      rw [List.length_cons] at hf
      cases fuel with
      | zero =>
          omega
      | succ fuel =>
          have hf' : cs.length < fuel := by omega
          obtain ⟨hlt, hi'⟩ := index_turn hi
          have := ih h hf' hi' (some b)
          simp only [removeLoop, hlt, if_true, hn, this, lastAddr]

theorem peekLoop_eq {m : Mem (Option δ)} {p : Option ℕ} {a : ℕ} {d : Option δ}
    {cs ds : List (ℕ × Option δ)} {fuel : ℕ} {index i : BitVec 32}
    (h : Chain m p (cs ++ (a, d) :: ds)) (hf : cs.length < fuel)
    (hi : i.toNat + cs.length = index.toNat) :
    peekLoop m index fuel p i = some (some a) := by
  induction cs generalizing p fuel i with
  | nil =>
      obtain ⟨fuel, rfl⟩ := Nat.exists_eq_succ_of_ne_zero (Nat.ne_of_gt hf)
      simp [peekLoop, index_end hi, h.1]
  | cons c cs ih =>
      obtain ⟨b, db⟩ := c
      obtain ⟨rfl, n, hn, h⟩ := h
      rw [List.length_cons] at hf
      cases fuel with
      | zero =>
          omega
      | succ fuel =>
          have hf' : cs.length < fuel := by omega
          obtain ⟨hlt, hi'⟩ := index_turn hi
          have := ih h hf' hi'
          simp only [peekLoop, hlt, if_true, hn, this]

theorem push_holds {q : QueueT δ} {l : List (Option δ)} (h : Holds q l) (d : Option δ) {e : ℕ}
    (he : q.mem e = none) : Holds (push q d (some e)).1 (d :: l) := by
  obtain ⟨cs, hc, rfl⟩ := h
  have hout : e ∉ cs.map Prod.fst := fun hmem => seg_allocated hc hmem he
  have hcs : ∀ c, Seg (Function.update q.mem e c) q.head cs none := fun c => seg_update hout hc
  refine ⟨(e, d) :: cs, ?_, rfl⟩
  cases hh : q.head with
  | none =>
      have hp : push q d (some e) = (⟨Function.update q.mem e (some ⟨d, none⟩), some e⟩, 0) := by
        simp [push, hh]
      rw [hp]
      exact ⟨rfl, none, by simp, by simpa only [hh] using hcs (some ⟨d, none⟩)⟩
  | some tmp =>
      have hp : push q d (some e) = (⟨Function.update q.mem e (some ⟨d, some tmp⟩), some e⟩, 0) := by
        simp [push, hh]
      rw [hp]
      exact ⟨rfl, some tmp, by simp, by simpa only [hh] using hcs (some ⟨d, some tmp⟩)⟩

theorem push_code {q : QueueT δ} (d : Option δ) (e : ℕ) : (push q d (some e)).2 = 0 := by
  unfold push
  cases q.head <;> rfl

/-- Unlinking the cell after `b` and freeing it. -/
theorem unlink_chain {m : Mem (Option δ)} {p n : Option ℕ} {a b : ℕ} {d db : Option δ}
    {cs ds : List (ℕ × Option δ)} (h : Chain m p (cs ++ (b, db) :: (a, d) :: ds))
    (ha : m a = some ⟨d, n⟩) :
    Chain (free (Function.update m b (some ⟨db, n⟩)) a) p (cs ++ (b, db) :: ds) := by
  have hnd := chain_nodup h
  simp only [List.map_append, List.map_cons, List.nodup_append, List.nodup_cons, List.mem_cons,
    not_or] at hnd
  obtain ⟨-, ⟨⟨hba, hbd⟩, had, -⟩, hdisj⟩ := hnd
  have hbc : b ∉ cs.map Prod.fst := fun hb => hdisj b hb b (by simp) rfl
  have hac : a ∉ cs.map Prod.fst := fun hb => hdisj a hb a (by simp) rfl
  have h' : Seg m p ((cs ++ [(b, db)]) ++ (a, d) :: ds) none := by simpa [chain_iff] using h
  obtain ⟨r, h₁, rfl, n', hn', h₂⟩ := seg_append.mp h'
  rw [ha] at hn'
  cases hn'
  have hseg : Seg (Function.update m b (some ⟨db, n⟩)) p ((cs ++ [(b, db)]) ++ ds) none :=
    seg_append.mpr ⟨n, seg_relink hbc h₁, seg_update hbd h₂⟩
  have hfree := seg_update (a := a) (c := none) (by simp [hac, had, Ne.symm hba]) hseg
  simpa [chain_iff, free] using hfree

/-- Freeing the first cell. -/
theorem unlink_first {m : Mem (Option δ)} {p n : Option ℕ} {a : ℕ} {d : Option δ}
    {ds : List (ℕ × Option δ)} (h : Chain m p ((a, d) :: ds)) (ha : m a = some ⟨d, n⟩) :
    Chain (free m a) n ds := by
  have hnd := chain_nodup h
  rw [List.map_cons, List.nodup_cons] at hnd
  obtain ⟨-, n', hn', h⟩ := h
  rw [ha] at hn'
  cases hn'
  exact seg_update hnd.1 h

/-- The cell in the middle of a chain. -/
theorem chain_cell {m : Mem (Option δ)} {p : Option ℕ} {a : ℕ} {d : Option δ}
    {cs ds : List (ℕ × Option δ)} (h : Chain m p (cs ++ (a, d) :: ds)) :
    ∃ n, m a = some ⟨d, n⟩ ∧ Chain m n ds := by
  obtain ⟨r, -, rfl, n, hn, hd⟩ := seg_append.mp h
  exact ⟨n, hn, hd⟩

/-- The head of a chain with a cell. -/
theorem chain_head {m : Mem (Option δ)} {p : Option ℕ} {x : ℕ × Option δ} {cs ds : List (ℕ × Option δ)}
    (h : Chain m p (cs ++ x :: ds)) : ∃ e, p = some e := by
  cases cs with
  | nil =>
      exact ⟨_, h.1⟩
  | cons c cs =>
      exact ⟨_, h.1⟩

theorem head_of_holds_nil {q : QueueT δ} (h : Holds q []) : q.head = none := by
  obtain ⟨cs, hc, hl⟩ := h
  rw [List.map_eq_nil_iff] at hl
  subst hl
  exact hc

/-- The cell of an index, with those before and behind it. -/
theorem holds_split {q : QueueT δ} {l : List (Option δ)} {i : ℕ} (h : Holds q l) (hlt : i < l.length) :
    ∃ c₁ a d c₂, Chain q.mem q.head (c₁ ++ (a, d) :: c₂) ∧ l = (c₁ ++ (a, d) :: c₂).map Prod.snd ∧
      c₁.length = i := by
  obtain ⟨cs, hc, rfl⟩ := h
  rw [List.length_map] at hlt
  have hsplit : cs = cs.take i ++ (cs[i].1, cs[i].2) :: cs.drop (i + 1) := by simp
  exact ⟨cs.take i, cs[i].1, cs[i].2, cs.drop (i + 1), hsplit ▸ hc, congrArg (List.map Prod.snd) hsplit,
    List.length_take_of_le hlt.le⟩

/-- `queue_pop` takes the last datum. -/
theorem pop_holds {q : QueueT δ} {l : List (Option δ)} {fuel : ℕ} (h : Holds q l)
    (hf : l.length < fuel) :
    ∃ q', pop fuel q = some (q', l.getLast?.join) ∧ Holds q' l.dropLast := by
  obtain ⟨cs, hc, rfl⟩ := h
  rw [List.length_map] at hf
  rcases List.eq_nil_or_concat' cs with rfl | ⟨cs, ⟨a, d⟩, rfl⟩
  · have hh : q.head = none := hc
    exact ⟨q, by simp [pop, hh], [], hc, rfl⟩
  · obtain ⟨n, ha, hn⟩ := chain_cell hc
    have hnone : n = none := hn
    subst hnone
    obtain ⟨e, he⟩ := chain_head hc
    have hf' : cs.length < fuel := by
      simp only [List.length_append, List.length_cons] at hf
      omega
    have hloop := popLoop_eq (he ▸ hc) hf' none
    rcases List.eq_nil_or_concat' cs with rfl | ⟨cs, ⟨b, db⟩, rfl⟩
    · -- the only cell: `tmp` is null and the head is cleared
      refine ⟨⟨free q.mem a, none⟩, ?_, [], rfl, rfl⟩
      simp only [pop, he, hloop, lastAddr, ha]
      simp
    · rw [List.append_assoc, List.singleton_append] at hc
      obtain ⟨nb, hb, -⟩ := chain_cell hc
      refine ⟨⟨free (Function.update q.mem b (some ⟨db, none⟩)) a, q.head⟩, ?_, cs ++ [(b, db)],
        unlink_chain hc ha, ?_⟩
      · simp only [pop, he, hloop, lastAddr_concat, ha, setNext, hb]
        simp
      · simp

/-- `queue_remove` takes the datum at an index that passes the bound test. -/
theorem remove_holds {q : QueueT δ} {l : List (Option δ)} {fuel : ℕ} (h : Holds q l)
    (hf : l.length < fuel) (index : BitVec 32) :
    ∃ q', remove fuel q index = some (q', if InBound l index then l[index.toNat]?.join else none) ∧
      Holds q' (if InBound l index then l.eraseIdx index.toNat else l) := by
  have hcount := count_eq h hf
  by_cases hb : InBound l index
  · have hgt : ¬index > listCount l - 1 := BitVec.not_lt.mpr hb
    simp only [if_pos hb]
    by_cases hne : l = []
    · subst hne
      have hh := head_of_holds_nil h
      exact ⟨q, by simp only [remove, hcount, hgt, if_false, hh]; rfl, h⟩
    · have hlt := lt_length_of_inBound hne hb
      obtain ⟨c₁, a, d, c₂, hc, rfl, hlen⟩ := holds_split h hlt
      obtain ⟨n, ha, hn⟩ := chain_cell hc
      have hf' : c₁.length < fuel := by
        omega
      have hloop : removeLoop q.mem index fuel q.head none 0 = some (some a, lastAddr c₁ none) :=
        removeLoop_eq hc hf' (by simpa using hlen) none
      obtain ⟨e, he⟩ := chain_head hc
      have hdata : ((c₁ ++ (a, d) :: c₂).map Prod.snd)[index.toNat]?.join = d := by
        simp [← hlen]
      have herase : ((c₁ ++ (a, d) :: c₂).map Prod.snd).eraseIdx index.toNat =
          (c₁ ++ c₂).map Prod.snd := by
        simp [← hlen, List.eraseIdx_append_of_length_le]
      rw [hdata, herase]
      rcases List.eq_nil_or_concat' c₁ with rfl | ⟨c₀, ⟨b, db⟩, rfl⟩
      · refine ⟨⟨free q.mem a, n⟩, ?_, c₂, unlink_first hc ha, rfl⟩
        simp only [remove, hcount, hgt, if_false, he]
        rw [he] at hloop
        simp only [hloop, lastAddr, ha]
      · rw [List.append_assoc, List.singleton_append] at hc
        obtain ⟨nb, hmb, -⟩ := chain_cell hc
        refine ⟨⟨free (Function.update q.mem b (some ⟨db, n⟩)) a, q.head⟩, ?_,
          c₀ ++ (b, db) :: c₂, unlink_chain hc ha, by simp⟩
        simp only [remove, hcount, hgt, if_false, he]
        rw [he] at hloop
        simp only [hloop, lastAddr_concat, ha, setNext, hmb]
  · have hgt : index > listCount l - 1 := BitVec.not_le.mp hb
    simp only [if_neg hb]
    exact ⟨q, by simp only [remove, hcount, hgt, if_true], h⟩

/-- `queue_peek` reads the datum at an index that passes the bound test. -/
theorem peek_eq {q : QueueT δ} {l : List (Option δ)} {fuel : ℕ} (h : Holds q l)
    (hf : l.length < fuel) (index : BitVec 32) :
    peek fuel q index = some (if InBound l index then l[index.toNat]?.join else none) := by
  have hcount := count_eq h hf
  by_cases hb : InBound l index
  · have hgt : ¬index > listCount l - 1 := BitVec.not_lt.mpr hb
    rw [if_pos hb]
    by_cases hne : l = []
    · subst hne
      have hh := head_of_holds_nil h
      simp only [peek, hcount, hgt, if_false, hh]
      rfl
    · have hlt := lt_length_of_inBound hne hb
      obtain ⟨c₁, a, d, c₂, hc, rfl, hlen⟩ := holds_split h hlt
      obtain ⟨n, ha, -⟩ := chain_cell hc
      have hf' : c₁.length < fuel := by
        omega
      have hloop : peekLoop q.mem index fuel q.head 0 = some (some a) :=
        peekLoop_eq hc hf' (by simpa using hlen)
      obtain ⟨e, he⟩ := chain_head hc
      rw [he] at hloop
      simp only [peek, hcount, hgt, if_false, he, hloop, ha]
      simp [← hlen]
  · have hgt : index > listCount l - 1 := BitVec.not_le.mp hb
    simp only [peek, hcount, hgt, if_true, if_neg hb]

/-- **One call refines the list machine**, for every queue and every index: it returns, with the
list machine's answer, and the queue then holds the list machine's list. -/
theorem step_refines_list {fuel : ℕ} {q : QueueT δ} {l : List (Option δ)} {op : Op δ}
    (h : Holds q l) (hf : l.length < fuel) (hfresh : Fresh q op) :
    ∃ q', step fuel q op = some (q', (listStep l op).2) ∧ Holds q' (listStep l op).1 := by
  cases op with
  | push data e =>
      cases e with
      | none =>
          exact ⟨q, rfl, h⟩
      | some e =>
          exact ⟨_, by rw [step, push_code]; rfl, push_holds h data hfresh⟩
  | pop =>
      obtain ⟨q', hq, hh⟩ := pop_holds h hf
      exact ⟨q', by simp only [step, hq, Option.map_some, listStep], hh⟩
  | remove index =>
      obtain ⟨q', hq, hh⟩ := remove_holds h hf index
      refine ⟨q', ?_, ?_⟩
      · simp only [step, hq, Option.map_some, listStep]
        split_ifs <;> rfl
      · simp only [listStep]
        split_ifs with hb <;> simpa [hb] using hh
  | peek index =>
      exact ⟨q, by simp only [step, peek_eq h hf, Option.map_some, listStep], h⟩
  | count =>
      exact ⟨q, by simp only [step, count_eq h hf, Option.map_some, listStep], h⟩

theorem listStep_length_le (l : List (Option δ)) (op : Op δ) :
    (listStep l op).1.length ≤ l.length + 1 := by
  cases op with
  | push data e =>
      cases e <;> simp [listStep]
  | pop =>
      simp [listStep]
      omega
  | remove index =>
      have := List.length_eraseIdx_le l index.toNat
      simp only [listStep]
      split_ifs <;> simp only <;> omega
  | peek index =>
      simp [listStep]
  | count =>
      simp [listStep]

/-- The allocator condition of a list of calls. -/
abbrev FreshCalls (fuel : ℕ) (ops : List (Op δ)) : Prop :=
  Meets (step fuel) listStep (fun q _ op => Fresh q op) create [] ops

/-- Every list of calls on a new queue runs as the list machine does, given fuel for one turn
more than there are calls. -/
theorem exec_refines_list {fuel : ℕ} {ops : List (Op δ)} (hf : ops.length < fuel)
    (hfresh : FreshCalls fuel ops) :
    ∃ q, exec (step fuel) create ops = some (q, (execTotal listStep [] ops).2) ∧
      Holds q (execTotal listStep [] ops).1 := by
  have hsim : ∀ n (q : QueueT δ) l op, (Holds q l ∧ l.length + (n + 1) < fuel) → Fresh q op →
      ∃ q', step fuel q op = some (q', (listStep l op).2) ∧
        (Holds q' (listStep l op).1 ∧ (listStep l op).1.length + n < fuel) := by
    rintro n q l op ⟨hq, hlen⟩ hop
    have hlt : l.length < fuel := by omega
    obtain ⟨q', h, hh⟩ := step_refines_list hq hlt hop
    have := listStep_length_le l op
    exact ⟨q', h, hh, by omega⟩
  obtain ⟨q, h, hq, -⟩ := exec_refines (R := fun n q l => Holds q l ∧ l.length + n < fuel) hsim
    (s := create) (t := []) ⟨holds_create, by simpa using hf⟩ hfresh
  exact ⟨q, h, hq⟩

end Refinement

/-! ### The queue is a FIFO list -/

section Fifo

variable {δ : Type}

/-- The queue holds fewer than `2 ^ 32` data before and after every call. -/
def FitCalls (ops : List (Op δ)) : Prop :=
  ∀ pre, pre <+: ops → (execTotal fifoStep [] pre).1.length < 2 ^ 32

/-- The datum that a call stores. -/
def given : Op δ → Option δ
  | .push data (some _) => data
  | _ => none

/-- The datum that a call takes out and returns. -/
def handed : Op δ → Out δ → Option δ
  | .pop, .data p => p
  | .remove _, .data p => p
  | _, _ => none

/-- The data other than null that went in. -/
def stored (ops : List (Op δ)) : List δ :=
  (ops.map given).reduceOption

/-- The data other than null that came out. -/
def returned (ops : List (Op δ)) (outs : List (Out δ)) : List δ :=
  (List.zipWith handed ops outs).reduceOption

theorem execTotal_list_eq_fifo {ops : List (Op δ)} {l : List (Option δ)}
    (h : ∀ pre, pre <+: ops → (execTotal fifoStep l pre).1.length < 2 ^ 32) :
    execTotal listStep l ops = execTotal fifoStep l ops := by
  induction ops generalizing l with
  | nil =>
      rfl
  | cons op ops ih =>
      have hl : l.length < 2 ^ 32 := h [] List.nil_prefix
      have hrest := ih (l := (fifoStep l op).1) fun pre hpre =>
        h (op :: pre) (List.cons_prefix_cons.mpr ⟨rfl, hpre⟩)
      simp only [execTotal, listStep_eq_fifoStep hl, hrest]

theorem reduceOption_perm_eraseIdx (l : List (Option δ)) (i : ℕ) :
    l.reduceOption.Perm ((l.eraseIdx i).reduceOption ++ l[i]?.join.toList) := by
  by_cases hi : i < l.length
  · have h := (List.getElem_cons_eraseIdx_perm hi).symm.filterMap id
    change List.Perm l.reduceOption (l[i] :: l.eraseIdx i).reduceOption at h
    cases hd : l[i] with
    | none =>
        rw [hd, List.reduceOption_cons_of_none] at h
        simpa [hi, hd] using h
    | some d =>
        rw [hd, List.reduceOption_cons_of_some] at h
        simpa [hi, hd] using h.trans (List.perm_append_singleton d _).symm
  · have hle : l.length ≤ i := by omega
    simp [List.eraseIdx_of_length_le hle, hle]

/-- One call moves a datum in, moves one out, or does neither. -/
theorem fifoStep_perm (l : List (Option δ)) (op : Op δ) :
    ((given op).toList ++ l.reduceOption).Perm
      ((fifoStep l op).1.reduceOption ++ (handed op (fifoStep l op).2).toList) := by
  cases op with
  | push data e =>
      cases e with
      | none =>
          simp [given, fifoStep, handed]
      | some e =>
          cases data with
          | none =>
              simp [given, fifoStep, handed, List.reduceOption_cons_of_none]
          | some d =>
              simp [given, fifoStep, handed, List.reduceOption_cons_of_some]
  | pop =>
      have h := reduceOption_perm_eraseIdx l (l.length - 1)
      rw [List.eraseIdx_length_sub_one, ← List.getLast?_eq_getElem?] at h
      simpa [given, fifoStep, handed] using h
  | remove index =>
      simpa [given, fifoStep, handed] using reduceOption_perm_eraseIdx l index.toNat
  | peek index =>
      simp [given, fifoStep, handed]
  | count =>
      simp [given, fifoStep, handed]

/-- What went in is what is still there and what came out: nothing is lost or returned twice. -/
theorem execTotal_fifo_perm (ops : List (Op δ)) (l : List (Option δ)) :
    (stored ops ++ l.reduceOption).Perm
      ((execTotal fifoStep l ops).1.reduceOption ++ returned ops (execTotal fifoStep l ops).2) := by
  induction ops generalizing l with
  | nil =>
      simp [stored, returned, execTotal]
  | cons op ops ih =>
      have hstep := fifoStep_perm l op
      have hrest := ih (fifoStep l op).1
      have hcons : ∀ (o : Option δ) (os : List (Option δ)),
          (o :: os).reduceOption = o.toList ++ os.reduceOption := fun o os => by
        cases o <;> rfl
      simp only [stored, returned, execTotal, List.map_cons, List.zipWith_cons_cons, hcons] at hrest ⊢
      calc
        List.Perm ((given op).toList ++ (ops.map given).reduceOption ++ l.reduceOption)
            ((ops.map given).reduceOption ++ ((given op).toList ++ l.reduceOption)) := by
          rw [← List.append_assoc]
          exact List.perm_append_comm.append_right _
        List.Perm _ ((ops.map given).reduceOption ++
            ((fifoStep l op).1.reduceOption ++ (handed op (fifoStep l op).2).toList)) :=
          hstep.append_left _
        List.Perm _ _ := by
          rw [← List.append_assoc]
          refine (hrest.append_right _).trans ?_
          rw [List.append_assoc]
          exact List.perm_append_comm.append_left _

/-- **The queue refines a FIFO list.** For every list of calls during which the queue holds fewer
than `2 ^ 32` data, every call returns, the answers are those of the FIFO list, the queue ends up
holding that list, and the data stored are the data still held and the data returned. -/
theorem queue_refines_fifo {fuel : ℕ} {ops : List (Op δ)} (hf : ops.length < fuel)
    (hfresh : FreshCalls fuel ops) (hfit : FitCalls ops) :
    ∃ q, exec (step fuel) create ops = some (q, (execTotal fifoStep [] ops).2) ∧
      Holds q (execTotal fifoStep [] ops).1 ∧
      (stored ops).Perm ((execTotal fifoStep [] ops).1.reduceOption ++
        returned ops (execTotal fifoStep [] ops).2) := by
  obtain ⟨q, hq, hh⟩ := exec_refines_list hf hfresh
  rw [execTotal_list_eq_fifo hfit] at hq hh
  have hperm := execTotal_fifo_perm ops []
  exact ⟨q, hq, hh, by simpa using hperm⟩

/-- A push, a pop of the only cell, an index out of range, a middle cell, a failed `malloc`. -/
def sampleCalls : List (Op ℕ) :=
  [.push (some 7) (some 1), .pop, .remove 0, .push (some 8) (some 1), .push none (some 2),
    .push (some 9) (some 3), .peek 5, .remove 1, .push (some 6) none, .count, .pop]

theorem queue_refines_fifo_sample :
    ∃ q, exec (step 12) create sampleCalls = some (q, [.code 0, .data (some 7), .data none, .code 0,
        .code 0, .code 0, .data none, .data none, .code (-1), .num 2, .data (some 8)]) ∧
      Holds q [some 9] ∧ (stored sampleCalls).Perm [9, 7, 8] := by
  have hfit : ∀ pre ∈ sampleCalls.inits, (execTotal fifoStep [] pre).1.length < 2 ^ 32 := by
    decide
  refine queue_refines_fifo (by decide) ?_ fun pre hpre => hfit pre ((List.mem_inits _ _).mpr hpre)
  unfold FreshCalls sampleCalls
  repeat' refine meets_cons rfl (by first | trivial | rfl) ?_
  trivial

/-! ### Where the 32-bit count gives way -/

/-- `n` pushes, at the addresses from `k` on, and a count. -/
def pushesThenCount : ℕ → ℕ → List (Op Unit)
  | _, 0 => [.count]
  | k, n + 1 => .push (some ()) (some k) :: pushesThenCount (k + 1) n

theorem pushesThenCount_length (k n : ℕ) : (pushesThenCount k n).length = n + 1 := by
  induction n generalizing k with
  | zero =>
      rfl
  | succ n ih =>
      simp [pushesThenCount, ih]

theorem pushesThenCount_list (k n : ℕ) (l : List (Option Unit)) :
    (execTotal listStep l (pushesThenCount k n)).2 =
      List.replicate n (.code 0) ++ [.num ((l.length + n) % 2 ^ 32)] := by
  induction n generalizing k l with
  | zero =>
      simp [pushesThenCount, execTotal, listStep, listCount]
  | succ n ih =>
      simp only [pushesThenCount, execTotal, listStep, ih, List.length_cons, List.replicate_succ,
        List.cons_append]
      congr 5
      omega

theorem pushesThenCount_fifo (k n : ℕ) (l : List (Option Unit)) :
    (execTotal fifoStep l (pushesThenCount k n)).2 =
      List.replicate n (.code 0) ++ [.num (l.length + n)] := by
  induction n generalizing k l with
  | zero =>
      simp [pushesThenCount, execTotal, fifoStep]
  | succ n ih =>
      simp only [pushesThenCount, execTotal, fifoStep, ih, List.length_cons, List.replicate_succ,
        List.cons_append]
      congr 4
      omega

theorem push_mem_of_ne (q : QueueT δ) (d : Option δ) {e a : ℕ} (h : a ≠ e) :
    (push q d (some e)).1.mem a = q.mem a := by
  unfold push
  cases q.head <;> exact Function.update_of_ne h _ _

theorem pushesThenCount_fresh (fuel k n : ℕ) (q : QueueT Unit) (l : List (Option Unit))
    (h : ∀ a, k ≤ a → q.mem a = none) :
    Meets (step fuel) listStep (fun q _ op => Fresh q op) q l (pushesThenCount k n) := by
  induction n generalizing k q l with
  | zero =>
      exact ⟨trivial, fun _ _ _ => trivial⟩
  | succ n ih =>
      refine ⟨h k le_rfl, ?_⟩
      rintro q' out hq
      obtain ⟨rfl, -⟩ := Prod.mk.inj (Option.some.inj hq)
      refine ih _ _ _ fun a ha => ?_
      rw [push_mem_of_ne q _ (by omega)]
      exact h a (by omega)

/-- With `2 ^ 32` data in the queue, `queue_count` returns 0, where the list has them all. -/
theorem count_wraps :
    FreshCalls (2 ^ 32 + 2) (pushesThenCount 0 (2 ^ 32)) ∧
    ∃ q, exec (step (2 ^ 32 + 2)) create (pushesThenCount 0 (2 ^ 32)) =
        some (q, List.replicate (2 ^ 32) (.code 0) ++ [.num 0]) ∧
      (execTotal fifoStep [] (pushesThenCount 0 (2 ^ 32))).2 =
        List.replicate (2 ^ 32) (.code 0) ++ [.num (2 ^ 32)] := by
  have hfresh : FreshCalls (2 ^ 32 + 2) (pushesThenCount 0 (2 ^ 32)) :=
    pushesThenCount_fresh _ _ _ _ _ fun _ _ => rfl
  have hlen : (pushesThenCount 0 (2 ^ 32)).length < 2 ^ 32 + 2 := by
    rw [pushesThenCount_length]
    omega
  obtain ⟨q, hq, -⟩ := exec_refines_list hlen hfresh
  refine ⟨hfresh, q, ?_, ?_⟩
  · rw [hq, pushesThenCount_list, List.length_nil, Nat.zero_add, Nat.mod_self]
  · rw [pushesThenCount_fifo, List.length_nil, Nat.zero_add]

end Fifo

end OneWifiTestSuite.Queue
