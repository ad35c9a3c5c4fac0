import OneWifiTestSuite.BusTree
import OneWifiTestSuite.Cells

/-!
# The shape of the bus tree

A `View` says what the pointers of the tree mean: the children that each node owns, in their order,
and for each node the owner of the children it shows, which is another node for a row that shares
the children of the row template. `Shape` is the invariant that ties a view to the memory.

Under it a lookup is a lookup in the view (`descend_eq`). The edits that the operations are made of keep it.
-/

namespace OneWifiTestSuite.BusTree

open Cells ByteRegion

/-! ### Views -/

section Views

/-- The sibling list that a memory of nodes contains. -/
def cells (m : ℕ → Option Node) : Mem Name :=
  fun a => (m a).map fun n => ⟨n.name, n.nextSibling⟩

structure View where
  kids : ℕ → List (ℕ × Name)
  owner : ℕ → ℕ

namespace View

def Linked (v : View) (a : ℕ) : Prop :=
  a = 0 ∨ ∃ p nm, (a, nm) ∈ v.kids p

/-- The children that a node shows. -/
def shown (v : View) (a : ℕ) : List (ℕ × Name) :=
  v.kids (v.owner a)

end View

/-- The view `v` describes the memory. -/
structure Shape (s : Bus) (v : View) : Prop where
  root : ∃ n, s.mem 0 = some n ∧ n.parent = none ∧ n.nextSibling = none ∧ n.reference = false
  bound : ∀ a n, s.mem a = some n → a < s.fresh
  holder : ∀ a, v.kids a ≠ [] → ∃ n, s.mem a = some n ∧ n.reference = false
  kid : ∀ a c, c ∈ v.kids a → a < c.1 ∧ ∃ n, s.mem c.1 = some n ∧ n.parent = some a
  sorted : ∀ a, ((v.kids a).map Prod.fst).Pairwise (· < ·)
  chain : ∀ a n, s.mem a = some n → n.reference = false ∨ v.Linked a → Chain (cells s.mem) n.child (v.shown a)
  owner : ∀ a, v.owner a = a ∨
    v.shown a ≠ [] ∧ (∃ n, s.mem a = some n ∧ n.reference = true) ∧
      ∃ p nm nm', (a, nm) ∈ v.kids p ∧ (v.owner a, nm') ∈ v.kids p
  template_owns : ∀ a n, s.mem a = some n → n.name = template → n.reference = false

def initView : View :=
  ⟨fun _ => [], id⟩

theorem initRoot_shape : Shape initRoot initView where
  root := ⟨emptyElemNode, by simp [initRoot], rfl, rfl, rfl⟩
  bound := by
    intro a n h
    by_cases ha : a = 0
    · simp [ha, initRoot]
    · simp [initRoot, Function.update_of_ne ha] at h
  holder := by simp [initView]
  kid := by simp [initView]
  sorted := by simp [initView]
  chain := by
    intro a n h _
    by_cases ha : a = 0
    · subst ha
      simp only [initRoot, Function.update_self, Option.some.injEq] at h
      subst h
      rfl
    · simp [initRoot, Function.update_of_ne ha] at h
  owner := fun _ => .inl rfl
  template_owns := by
    intro a n h hn
    by_cases ha : a = 0
    · subst ha
      simp only [initRoot, Function.update_self, Option.some.injEq] at h
      subst h
      rfl
    · simp [initRoot, Function.update_of_ne ha] at h

end Views

/-! ### Cells of nodes -/

section NodeCells

variable {m : ℕ → Option Node} {n n' : Node} {a : ℕ}

theorem cells_eq (h : m a = some n) : cells m a = some ⟨n.name, n.nextSibling⟩ := by
  simp [cells, h]

theorem cells_update (a : ℕ) (n : Node) :
    cells (Function.update m a (some n)) = Function.update (cells m) a (some ⟨n.name, n.nextSibling⟩) := by
  funext b
  by_cases h : b = a
  · subst h
    simp [cells]
  · simp [cells, Function.update_of_ne h]

/-- A write that keeps the name and the next sibling keeps the cells. -/
theorem cells_write (h : m a = some n) (hname : n'.name = n.name) (hnext : n'.nextSibling = n.nextSibling) :
    cells (Function.update m a (some n')) = cells m := by
  rw [cells_update, hname, hnext, ← cells_eq h, Function.update_eq_self]

theorem cells_of_mem {p q : Option ℕ} {l : List (ℕ × Name)} {c : ℕ} {nm : Name} (h : Seg (cells m) p l q)
    (hc : (c, nm) ∈ l) : ∃ n, m c = some n ∧ n.name = nm := by
  obtain ⟨l₁, l₂, rfl⟩ := List.append_of_mem hc
  obtain ⟨r, -, -, nx, hn, -⟩ := seg_append.mp h
  obtain ⟨n, hn, he⟩ := Option.map_eq_some_iff.mp hn
  exact ⟨n, hn, congrArg Cell.data he⟩

end NodeCells

/-! ### Consequences of the shape -/

namespace Shape

variable {s : Bus} {v : View} (h : Shape s v)

include h

theorem alive_of_linked {a : ℕ} (ha : v.Linked a) : ∃ n, s.mem a = some n := by
  obtain rfl | ⟨p, nm, hc⟩ := ha
  · obtain ⟨n, hn, -⟩ := h.root
    exact ⟨n, hn⟩
  · obtain ⟨-, n, hn, -⟩ := h.kid p _ hc
    exact ⟨n, hn⟩

theorem parent_eq {c a : ℕ} {nm : Name} {n : Node} (hc : (c, nm) ∈ v.kids a) (hn : s.mem c = some n) :
    n.parent = some a := by
  obtain ⟨-, n', hn', hp⟩ := h.kid a _ hc
  rw [hn] at hn'
  cases hn'
  exact hp

/-- A node is the child of one node only. -/
theorem parent_unique {c a b : ℕ} {nm nm' : Name} (ha : (c, nm) ∈ v.kids a) (hb : (c, nm') ∈ v.kids b) : a = b := by
  obtain ⟨-, n, hn, hp⟩ := h.kid a _ ha
  have := h.parent_eq hb hn
  rw [hp] at this
  exact Option.some.inj this

theorem kids_nodup (a : ℕ) : ((v.kids a).map Prod.fst).Nodup :=
  (h.sorted a).imp fun hlt => Nat.ne_of_lt hlt

theorem name_unique {c a : ℕ} {nm nm' : Name} (hc : (c, nm) ∈ v.kids a) (hc' : (c, nm') ∈ v.kids a) : nm = nm' :=
  congrArg Prod.snd (List.inj_on_of_nodup_map (h.kids_nodup a) hc hc' rfl)

theorem length_kids_le (a : ℕ) : (v.kids a).length ≤ s.fresh := by
  have hsub : (v.kids a).map Prod.fst ⊆ List.range s.fresh := by
    intro c hc
    obtain ⟨⟨c, nm⟩, hmem, rfl⟩ := List.mem_map.mp hc
    obtain ⟨-, n, hn, -⟩ := h.kid a _ hmem
    exact List.mem_range.mpr (h.bound _ _ hn)
  have hle := ((h.kids_nodup a).subperm hsub).length_le
  simpa using hle

theorem owner_of_own {a : ℕ} {n : Node} (hn : s.mem a = some n) (hr : n.reference = false) : v.owner a = a := by
  obtain ho | ⟨-, ⟨n', hn', hr'⟩, -⟩ := h.owner a
  · exact ho
  · rw [hn] at hn'
    cases hn'
    rw [hr] at hr'
    cases hr'

theorem owner_of_kids {a : ℕ} (ha : v.kids a ≠ []) : v.owner a = a := by
  obtain ⟨n, hn, hr⟩ := h.holder a ha
  exact h.owner_of_own hn hr

theorem linked_owner {a : ℕ} (ha : v.Linked a) : v.Linked (v.owner a) := by
  obtain ho | ⟨-, -, p, nm, nm', -, hc⟩ := h.owner a
  · rw [ho]
    exact ha
  · exact .inr ⟨p, nm', hc⟩

theorem chain_of_linked {a : ℕ} {n : Node} (ha : v.Linked a) (hn : s.mem a = some n) :
    Chain (cells s.mem) n.child (v.shown a) :=
  h.chain a n hn (.inr ha)

theorem child_eq_none {a : ℕ} {n : Node} (ha : v.Linked a) (hn : s.mem a = some n) :
    n.child = none ↔ v.shown a = [] := by
  have hc := h.chain_of_linked ha hn
  cases hl : v.shown a with
  | nil =>
      rw [hl] at hc
      have hnone : n.child = none := hc
      simp [hnone]
  | cons x l =>
      rw [hl] at hc
      obtain ⟨he, -⟩ := hc
      simp [he]

theorem name_of_kid {c a : ℕ} {nm : Name} {n : Node} (hc : (c, nm) ∈ v.kids a) (hn : s.mem c = some n) :
    n.name = nm := by
  have hne : v.kids a ≠ [] := List.ne_nil_of_mem hc
  obtain ⟨na, hna, hr⟩ := h.holder a hne
  have hchain := h.chain a na hna (.inl hr)
  rw [View.shown, h.owner_of_own hna hr] at hchain
  obtain ⟨n', hn', hnm⟩ := cells_of_mem hchain hc
  rw [hn] at hn'
  cases hn'
  exact hnm

end Shape

/-! ### Lookups in a view -/

section Lookups

/-- The child with a name. -/
def named (l : List (ℕ × Name)) (tok : Name) : Option ℕ :=
  (l.find? fun x => x.2 = tok).map Prod.fst

theorem mem_of_named {l : List (ℕ × Name)} {tok : Name} {c : ℕ} (hc : named l tok = some c) : (c, tok) ∈ l := by
  obtain ⟨⟨c', nm⟩, hf, rfl⟩ := Option.map_eq_some_iff.mp hc
  have hnm := List.find?_some hf
  rw [decide_eq_true_eq] at hnm
  exact hnm ▸ List.mem_of_find?_eq_some hf

theorem named_eq_none {l : List (ℕ × Name)} {tok : Name} : named l tok = none ↔ ∀ x ∈ l, x.2 ≠ tok := by
  simp [named]

/-- A child that comes behind is found under its name, unless the name was there before. -/
theorem named_append (l : List (ℕ × Name)) (c : ℕ) (nm tok : Name) :
    named (l ++ [(c, nm)]) tok = (named l tok).or (if nm = tok then some c else none) := by
  unfold named
  rw [List.find?_append]
  cases List.find? (fun x => decide (x.2 = tok)) l with
  | none =>
      by_cases hnm : nm = tok
      · simp [hnm]
      · simp [hnm]
  | some x =>
      simp

namespace View

/-- The walk along tokens through the children that nodes show, where `type` gives the nodes' types. -/
def descend (v : View) (type : ℕ → Option ElemType) : Bool → ℕ → List Name → Option ℕ
  | _, a, [] => some a
  | wild, a, tok :: toks =>
      let r := if type (v.owner a) = some .table then readWild wild tok else (tok, wild)
      (named (v.shown a) r.1).bind fun c => v.descend type r.2 c toks

theorem linked_of_named {v : View} {a c : ℕ} {tok : Name} (hc : named (v.shown a) tok = some c) : v.Linked c :=
  .inr ⟨v.owner a, tok, mem_of_named hc⟩

end View

def Bus.typeOf (s : Bus) (a : ℕ) : Option ElemType :=
  (s.mem a).bind Node.type

theorem typeOf_eq {s : Bus} {a : ℕ} {n : Node} (hn : s.mem a = some n) : s.typeOf a = n.type := by
  simp [Bus.typeOf, hn]

variable {s : Bus}

theorem searchSiblings_eq (tok : Name) {l : List (ℕ × Name)} {a : ℕ} {k : ℕ} (h : Chain (cells s.mem) (some a) l)
    (hk : l.length ≤ k) : ∃ b nm, l.getLast? = some (b, nm) ∧
      s.searchSiblings tok k a =
        some (match named l tok with | some c => (c, true) | none => (b, false)) := by
  induction l generalizing a k with
  | nil =>
      cases h
  | cons x l ih =>
      obtain ⟨c, nm⟩ := x
      obtain ⟨he, nx, hcell, hl⟩ := h
      cases he
      obtain ⟨n, hn, he⟩ := Option.map_eq_some_iff.mp hcell
      cases he
      obtain ⟨k, rfl⟩ : ∃ j, k = j + 1 := ⟨k - 1, by rw [List.length_cons] at hk; omega⟩
      rw [Bus.searchSiblings, hn]
      by_cases hname : n.name = tok
      · obtain ⟨⟨b, nm⟩, hb⟩ := Option.ne_none_iff_exists'.mp
          (fun e => by simpa using List.getLast?_eq_none_iff.mp e : ((a, n.name) :: l).getLast? ≠ none)
        exact ⟨b, nm, hb, by simp [named, hname]⟩
      · have hnamed : named ((a, n.name) :: l) tok = named l tok := by simp [named, hname]
        cases l with
        | nil =>
            have hnone : n.nextSibling = none := hl
            exact ⟨a, n.name, rfl, by simp [hname, hnone, named]⟩
        | cons y l =>
            have hsome : n.nextSibling = some y.1 := hl.1
            obtain ⟨b, nm, hlast, hsearch⟩ := ih (hsome ▸ hl) (by simpa using hk)
            refine ⟨b, nm, by simpa using hlast, ?_⟩
            simp only [hname, hsome, hnamed, if_false, Option.bind_eq_bind, Option.bind_some]
            exact hsearch

theorem lookup_eq (tok : Name) {l : List (ℕ × Name)} {p : Option ℕ} (h : Chain (cells s.mem) p l) (hl : l.length ≤ s.fresh) :
    s.lookup p tok = some (named l tok) := by
  cases l with
  | nil =>
      have hp : p = none := h
      subst hp
      rfl
  | cons x l =>
      have hp : p = some x.1 := h.1
      subst hp
      obtain ⟨b, nm, -, hsearch⟩ := searchSiblings_eq tok h (by omega : (x :: l).length ≤ s.fresh + 1)
      simp only [Bus.lookup, hsearch, Option.bind_eq_bind, Option.bind_some]
      cases named (x :: l) tok with
      | none =>
          rfl
      | some c =>
          rfl

namespace Shape

variable {v : View} (h : Shape s v)

include h

theorem lookup_eq {a : ℕ} {n : Node} (ha : v.Linked a) (hn : s.mem a = some n) (tok : Name) :
    s.lookup n.child tok = some (named (v.shown a) tok) :=
  BusTree.lookup_eq tok (h.chain_of_linked ha hn) (h.length_kids_le _)

/-- The search among the children that a node shows, which ends at the last of them. -/
theorem searchSiblings_shown {a : ℕ} {n : Node} (ha : v.Linked a) (hn : s.mem a = some n) (hne : v.shown a ≠ [])
    (tok : Name) : ∃ x b nm, n.child = some x ∧ (v.shown a).getLast? = some (b, nm) ∧
      s.searchSiblings tok (s.fresh + 1) x =
        some (match named (v.shown a) tok with | some c => (c, true) | none => (b, false)) := by
  have hchain := h.chain_of_linked ha hn
  obtain ⟨x, l, hshown⟩ := List.exists_cons_of_ne_nil hne
  have hlen : (v.shown a).length ≤ s.fresh + 1 := by
    have hle : (v.shown a).length ≤ s.fresh := h.length_kids_le (v.owner a)
    omega
  have hsome : n.child = some x.1 := by
    rw [hshown] at hchain
    exact hchain.1
  obtain ⟨b, nm, hlast, hsearch⟩ := searchSiblings_eq tok (hsome ▸ hchain) hlen
  exact ⟨x.1, b, nm, hsome, hlast, hsearch⟩

/-- The token is read below the owner of the children. -/
theorem adjust_eq {a : ℕ} {n : Node} (ha : v.Linked a) (hn : s.mem a = some n) (hne : v.shown a ≠ []) (wild : Bool)
    (tok : Name) : s.adjust wild n.child tok =
      some (if s.typeOf (v.owner a) = some .table then readWild wild tok else (tok, wild)) := by
  have hc := h.chain_of_linked ha hn
  obtain ⟨⟨c, nm⟩, l, hl⟩ := List.exists_cons_of_ne_nil hne
  rw [hl] at hc
  have hmem : (c, nm) ∈ v.kids (v.owner a) := by
    rw [← View.shown, hl]
    simp
  obtain ⟨-, nc, hnc, hparent⟩ := h.kid _ _ hmem
  obtain ⟨no, hno, -⟩ := h.holder _ (List.ne_nil_of_mem hmem)
  simp only [hc.1, Bus.adjust, hnc, hparent, hno, typeOf_eq hno, Option.bind_eq_bind, Option.bind_some]
  split_ifs <;> rfl

/-- **Lookups** in the tree are lookups in the view. -/
theorem descend_eq {a : ℕ} (ha : v.Linked a) (wild : Bool) (toks : List Name) :
    s.descend wild a toks = some (v.descend s.typeOf wild a toks) := by
  induction toks generalizing wild a with
  | nil =>
      rfl
  | cons tok toks ih =>
      obtain ⟨n, hn⟩ := h.alive_of_linked ha
      by_cases hne : v.shown a = []
      · have hnone := (h.child_eq_none ha hn).mpr hne
        simp [Bus.descend, View.descend, hn, hnone, hne, Bus.adjust, Bus.lookup, named]
      · simp only [Bus.descend, View.descend, hn, h.adjust_eq ha hn hne, h.lookup_eq ha hn, Option.bind_eq_bind,
          Option.bind_some]
        generalize (if s.typeOf (v.owner a) = some .table then readWild wild tok else (tok, wild)) = r
        cases hc : named (v.shown a) r.1 with
        | none =>
            rfl
        | some c =>
            exact ih (View.linked_of_named hc) _

theorem retrieveTokens_eq (tok : Name) (toks : List Name) :
    s.retrieveTokens (tok :: toks) =
      some ((named (v.shown 0) tok).bind fun c => v.descend s.typeOf false c toks) := by
  obtain ⟨n, hn⟩ := h.alive_of_linked (.inl rfl)
  simp only [Bus.retrieveTokens, hn, h.lookup_eq (.inl rfl) hn, Option.bind_eq_bind, Option.bind_some]
  cases hc : named (v.shown 0) tok with
  | none =>
      rfl
  | some c =>
      exact h.descend_eq (View.linked_of_named hc) _ _

end Shape

end Lookups

end OneWifiTestSuite.BusTree
