import Mathlib.Logic.Function.Basic
import Mathlib.Data.List.Nodup
import Mathlib.Tactic

/-!
# Circular doubly linked lists in a memory

The `list_head` of the Linux kernel: every node has a `next` and a `prev` pointer, the list is a
ring through a node of its own, its head, and insertion and removal relink the two neighbours.
`none` is an access to a node that is not allocated.

`Ring m h l` says that from the head `h` the pointers run through the nodes `l`, in this order,
and back to `h`, forwards and backwards. `ring_listAdd` and `ring_listDel` are the rules for an
insertion after the last node and for the removal of the last node.
-/

namespace OneWifiTestSuite.RingList

/-- `struct list_head`. -/
structure ListHead where
  next : ℕ
  prev : ℕ
deriving DecidableEq, Repr

/-- A memory of nodes; `none` is an address that is not allocated. -/
abbrev Mem := ℕ → Option ListHead

section Code

/-- `node->next = p`. -/
def setNext (m : Mem) (node p : ℕ) : Option Mem :=
  match m node with
  | none => none
  | some c => some (Function.update m node (some { c with next := p }))

/-- `node->prev = p`. -/
def setPrev (m : Mem) (node p : ℕ) : Option Mem :=
  match m node with
  | none => none
  | some c => some (Function.update m node (some { c with prev := p }))

/-- `INIT_LIST_HEAD`, of a node that is allocated. -/
def initListHead (m : Mem) (head : ℕ) : Mem :=
  Function.update m head (some ⟨head, head⟩)

/-- `list_add(new, head)`: between `head` and the node after it. -/
def listAdd (m : Mem) (new head : ℕ) : Option Mem := do
  let next := (← m head).next
  let m ← setPrev m next new
  let m ← setNext m new next
  let m ← setPrev m new head
  setNext m head new

/-- `LIST_POISON1` and `LIST_POISON2`. -/
def poison : ListHead := ⟨0x100, 0x122⟩

/-- `list_del(entry)`. -/
def listDel (m : Mem) (entry : ℕ) : Option Mem := do
  let c ← m entry
  let m ← setPrev m c.next c.prev
  let m ← setNext m c.prev c.next
  pure (Function.update m entry (some poison))

end Code

section Links

variable {m m' : Mem} {a b x y : ℕ} {l : List ℕ}

def nextOf (m : Mem) (a : ℕ) : Option ℕ := (m a).map ListHead.next

def prevOf (m : Mem) (a : ℕ) : Option ℕ := (m a).map ListHead.prev

theorem nextOf_eq_some : nextOf m a = some b ↔ ∃ c, m a = some c ∧ c.next = b := by
  simp [nextOf]

theorem prevOf_eq_some : prevOf m a = some b ↔ ∃ c, m a = some c ∧ c.prev = b := by
  simp [prevOf]

/-- A write to `next` changes that pointer alone. -/
theorem setNext_spec (h : m a ≠ none) :
    ∃ m', setNext m a b = some m' ∧ (∀ z, nextOf m' z = if z = a then some b else nextOf m z) ∧
      (∀ z, prevOf m' z = prevOf m z) ∧ ∀ z, m' z = none ↔ m z = none := by
  obtain ⟨c, hc⟩ := Option.ne_none_iff_exists'.mp h
  refine ⟨Function.update m a (some { c with next := b }), by simp only [setNext, hc], ?_, ?_, ?_⟩
  all_goals
    intro z
    by_cases hz : z = a
    · subst hz
      simp [nextOf, prevOf, hc]
    · simp [nextOf, prevOf, hz]

/-- A write to `prev` changes that pointer alone. -/
theorem setPrev_spec (h : m a ≠ none) :
    ∃ m', setPrev m a b = some m' ∧ (∀ z, prevOf m' z = if z = a then some b else prevOf m z) ∧
      (∀ z, nextOf m' z = nextOf m z) ∧ ∀ z, m' z = none ↔ m z = none := by
  obtain ⟨c, hc⟩ := Option.ne_none_iff_exists'.mp h
  refine ⟨Function.update m a (some { c with prev := b }), by simp only [setPrev, hc], ?_, ?_, ?_⟩
  all_goals
    intro z
    by_cases hz : z = a
    · subst hz
      simp [nextOf, prevOf, hc]
    · simp [nextOf, prevOf, hz]

/-- The four pointers that `list_add` writes. -/
theorem listAdd_spec {new head next : ℕ} (hnext : nextOf m head = some next) (hn : m next ≠ none)
    (hnew : m new ≠ none) :
    ∃ m', listAdd m new head = some m' ∧
      (∀ z, nextOf m' z = if z = head then some new else if z = new then some next else nextOf m z) ∧
      (∀ z, prevOf m' z = if z = new then some head else if z = next then some new else prevOf m z) ∧
      ∀ z, m' z = none ↔ m z = none := by
  obtain ⟨c, hc, rfl⟩ := nextOf_eq_some.mp hnext
  have hhead : m head ≠ none := by
    simp [hc]
  obtain ⟨m₁, h₁, hp₁, hn₁, ha₁⟩ := setPrev_spec (b := new) hn
  obtain ⟨m₂, h₂, hn₂, hp₂, ha₂⟩ := setNext_spec (m := m₁) (b := c.next) ((ha₁ new).not.mpr hnew)
  obtain ⟨m₃, h₃, hp₃, hn₃, ha₃⟩ :=
    setPrev_spec (m := m₂) (b := head) ((ha₂ new).not.mpr ((ha₁ new).not.mpr hnew))
  obtain ⟨m₄, h₄, hn₄, hp₄, ha₄⟩ := setNext_spec (m := m₃) (b := new)
    ((ha₃ head).not.mpr ((ha₂ head).not.mpr ((ha₁ head).not.mpr hhead)))
  refine ⟨m₄, ?_, ?_, ?_, ?_⟩
  · simp [listAdd, hc, h₁, h₂, h₃, h₄]
  · intro z
    rw [hn₄, hn₃, hn₂, hn₁]
  · intro z
    rw [hp₄, hp₃, hp₂, hp₁]
  · intro z
    rw [ha₄, ha₃, ha₂, ha₁]

/-- The pointers that `list_del` writes in the other nodes. -/
theorem listDel_spec {entry next prev : ℕ} (hnext : nextOf m entry = some next)
    (hprev : prevOf m entry = some prev) (hn : m next ≠ none) (hp : m prev ≠ none) :
    ∃ m', listDel m entry = some m' ∧
      (∀ z, z ≠ entry → nextOf m' z = if z = prev then some next else nextOf m z) ∧
      (∀ z, z ≠ entry → prevOf m' z = if z = next then some prev else prevOf m z) ∧
      ∀ z, m' z = none ↔ m z = none := by
  obtain ⟨c, hc, rfl⟩ := nextOf_eq_some.mp hnext
  obtain ⟨c', hc', rfl⟩ := prevOf_eq_some.mp hprev
  rw [hc] at hc'
  cases hc'
  obtain ⟨m₁, h₁, hp₁, hn₁, ha₁⟩ := setPrev_spec (b := c.prev) hn
  obtain ⟨m₂, h₂, hn₂, hp₂, ha₂⟩ := setNext_spec (m := m₁) (b := c.next) ((ha₁ c.prev).not.mpr hp)
  refine ⟨Function.update m₂ entry (some poison), ?_, ?_, ?_, ?_⟩
  · simp [listDel, hc, h₁, h₂]
  · intro z hz
    have hsame : nextOf (Function.update m₂ entry (some poison)) z = nextOf m₂ z := by
      simp [nextOf, hz]
    rw [hsame, hn₂, hn₁]
  · intro z hz
    have hsame : prevOf (Function.update m₂ entry (some poison)) z = prevOf m₂ z := by
      simp [prevOf, hz]
    rw [hsame, hp₂, hp₁]
  · intro z
    by_cases hz : z = entry
    · subst hz
      simp [hc]
    · rw [Function.update_of_ne hz, ha₂, ha₁]

end Links

section Rings

variable {m m' : Mem} {h x y : ℕ} {l : List ℕ}

/-- `y` comes after `x`, read forwards and backwards. -/
def Linked (m : Mem) (x y : ℕ) : Prop :=
  nextOf m x = some y ∧ prevOf m y = some x

/-- The pointers run from `x` through `l`. -/
def Walk (m : Mem) : ℕ → List ℕ → Prop
  | _, [] => True
  | x, y :: l => Linked m x y ∧ Walk m y l

/-- The node a walk from `x` through `l` arrives at. -/
def lastOf (x : ℕ) (l : List ℕ) : ℕ := l.getLast?.getD x

@[simp]
theorem lastOf_nil (x : ℕ) : lastOf x [] = x := rfl

@[simp]
theorem lastOf_concat (x y : ℕ) (l : List ℕ) : lastOf x (l ++ [y]) = y := by
  simp [lastOf]

theorem lastOf_mem (x : ℕ) (l : List ℕ) : lastOf x l ∈ x :: l := by
  rcases List.eq_nil_or_concat' l with rfl | ⟨l, y, rfl⟩
  · simp
  · simp

theorem lastOf_cons (x y : ℕ) (l : List ℕ) : lastOf x (y :: l) = lastOf y l := by
  rcases List.eq_nil_or_concat' l with rfl | ⟨l, z, rfl⟩
  · rfl
  · rw [← List.cons_append, lastOf_concat, lastOf_concat]

theorem walk_concat : Walk m x (l ++ [y]) ↔ Walk m x l ∧ Linked m (lastOf x l) y := by
  induction l generalizing x with
  | nil =>
      simp [Walk]
  | cons z l ih =>
      rw [List.cons_append, Walk, Walk, ih, lastOf_cons, and_assoc]

/-- A walk is kept by writes that spare the `next` pointers before its end and the `prev` pointers
after its start. -/
theorem Walk.congr (hnext : ∀ z ∈ x :: l, z ≠ lastOf x l → nextOf m' z = nextOf m z)
    (hprev : ∀ z ∈ l, prevOf m' z = prevOf m z) (hnd : (x :: l).Nodup) (hw : Walk m x l) :
    Walk m' x l := by
  induction l generalizing x with
  | nil =>
      trivial
  | cons y l ih =>
      obtain ⟨hlink, hw⟩ := hw
      rw [lastOf_cons] at hnext
      obtain ⟨hx, hnd⟩ := List.nodup_cons.mp hnd
      have hlast : x ≠ lastOf y l := fun e => hx (e ▸ lastOf_mem y l)
      refine ⟨⟨?_, ?_⟩, ?_⟩
      · rw [hnext x List.mem_cons_self hlast]
        exact hlink.1
      · rw [hprev y List.mem_cons_self]
        exact hlink.2
      · exact ih (fun z hz => hnext z (List.mem_cons_of_mem _ hz))
          (fun z hz => hprev z (List.mem_cons_of_mem _ hz)) hnd hw

/-- The ring of a head and its nodes. -/
structure Ring (m : Mem) (h : ℕ) (l : List ℕ) : Prop where
  nodup : (h :: l).Nodup
  walk : Walk m h l
  close : Linked m (lastOf h l) h
  alloc : ∀ a ∈ h :: l, m a ≠ none

theorem ring_init (m : Mem) (h : ℕ) : Ring (initListHead m h) h [] := by
  refine ⟨by simp, trivial, ⟨?_, ?_⟩, ?_⟩
  · simp [nextOf, initListHead]
  · simp [prevOf, initListHead]
  · simp [initListHead]

/-- A write to a node outside the ring keeps it. -/
theorem Ring.update {a : ℕ} {c : Option ListHead} (hr : Ring m h l) (ha : a ∉ h :: l) :
    Ring (Function.update m a c) h l := by
  have hsame : ∀ z ∈ h :: l, Function.update m a c z = m z := by
    intro z hz
    have hne : z ≠ a := fun e => ha (e ▸ hz)
    exact Function.update_of_ne hne _ _
  refine ⟨hr.nodup, ?_, ⟨?_, ?_⟩, ?_⟩
  · refine Walk.congr (fun z hz _ => ?_) (fun z hz => ?_) hr.nodup hr.walk
    · rw [nextOf, nextOf, hsame z hz]
    · rw [prevOf, prevOf, hsame z (List.mem_cons_of_mem _ hz)]
  · rw [nextOf, hsame _ (lastOf_mem h l)]
    exact hr.close.1
  · rw [prevOf, hsame h List.mem_cons_self]
    exact hr.close.2
  · intro z hz
    rw [hsame z hz]
    exact hr.alloc z hz

/-- `list_add` of a new node after the last one. -/
theorem ring_listAdd {new : ℕ} (hr : Ring m h l) (hnew : m new ≠ none) (hout : new ∉ h :: l) :
    ∃ m', listAdd m new (lastOf h l) = some m' ∧ Ring m' h (l ++ [new]) ∧
      ∀ z, m' z = none ↔ m z = none := by
  have hlast := lastOf_mem h l
  have hne : new ≠ lastOf h l := fun e => hout (e ▸ hlast)
  have hnh : new ≠ h := fun e => hout (e ▸ List.mem_cons_self)
  obtain ⟨m', hadd, hnext, hprev, halloc⟩ :=
    listAdd_spec hr.close.1 (hr.alloc h List.mem_cons_self) hnew
  have hh : h ∉ l := (List.nodup_cons.mp hr.nodup).1
  refine ⟨m', hadd, ⟨?_, ?_, ?_, ?_⟩, halloc⟩
  · have hperm : (h :: (l ++ [new])).Perm (new :: h :: l) :=
      (List.perm_append_singleton new (h :: l))
    exact hperm.nodup_iff.mpr (List.nodup_cons.mpr ⟨hout, hr.nodup⟩)
  · rw [walk_concat]
    constructor
    · refine hr.walk.congr (fun z hz hzl => ?_) (fun z hz => ?_) hr.nodup
      · have hzn : z ≠ new := fun e => hout (e ▸ hz)
        rw [hnext, if_neg hzl, if_neg hzn]
      · have hzn : z ≠ new := fun e => hout (e ▸ List.mem_cons_of_mem _ hz)
        have hzh : z ≠ h := fun e => hh (e ▸ hz)
        rw [hprev, if_neg hzn, if_neg hzh]
    · refine ⟨?_, ?_⟩
      · rw [hnext, if_pos rfl]
      · rw [hprev, if_pos rfl]
  · rw [lastOf_concat]
    refine ⟨?_, ?_⟩
    · rw [hnext, if_neg hne, if_pos rfl]
    · rw [hprev, if_neg hnh.symm, if_pos rfl]
  · intro z hz
    rw [Ne, halloc]
    rcases List.mem_append.mp (List.cons_append ▸ hz : z ∈ (h :: l) ++ [new]) with hz | hz
    · exact hr.alloc z hz
    · rw [List.mem_singleton.mp hz]
      exact hnew

/-- `list_del` of the last node, whose predecessor `prev` gives. -/
theorem ring_listDel {a : ℕ} (hr : Ring m h (l ++ [a])) :
    prevOf m a = some (lastOf h l) ∧ ∃ m', listDel m a = some m' ∧ Ring m' h l ∧
      ∀ z, m' z = none ↔ m z = none := by
  obtain ⟨hw, hlink⟩ := walk_concat.mp hr.walk
  have hclose := hr.close
  rw [lastOf_concat] at hclose
  have hlast : lastOf h l ∈ h :: (l ++ [a]) := by
    rw [← List.cons_append]
    exact List.mem_append_left _ (lastOf_mem h l)
  obtain ⟨m', hdel, hnext, hprev, halloc⟩ := listDel_spec hclose.1 hlink.2
    (hr.alloc h List.mem_cons_self) (hr.alloc _ hlast)
  have hperm : (h :: (l ++ [a])).Perm (a :: h :: l) := List.perm_append_singleton a (h :: l)
  obtain ⟨ha, hnd⟩ := List.nodup_cons.mp (hperm.nodup_iff.mp hr.nodup)
  have hne : ∀ z ∈ h :: l, z ≠ a := fun z hz e => ha (e ▸ hz)
  have hh : h ∉ l := (List.nodup_cons.mp hnd).1
  refine ⟨hlink.2, m', hdel, ⟨hnd, ?_, ⟨?_, ?_⟩, ?_⟩, halloc⟩
  · refine hw.congr (fun z hz hzl => ?_) (fun z hz => ?_) hnd
    · rw [hnext z (hne z hz), if_neg hzl]
    · have hzh : z ≠ h := fun e => hh (e ▸ hz)
      rw [hprev z (hne z (List.mem_cons_of_mem _ hz)), if_neg hzh]
  · rw [hnext _ (hne _ (lastOf_mem h l)), if_pos rfl]
  · rw [hprev _ (hne h List.mem_cons_self), if_pos rfl]
  · intro z hz
    rw [Ne, halloc]
    exact hr.alloc z (hperm.mem_iff.mpr (List.mem_cons_of_mem _ hz))

end Rings

end OneWifiTestSuite.RingList
