import OneWifiTestSuite.BusShape

/-!
# Edits of the bus tree

The operations on the tree are made of four edits: a node takes a type and data, a node gets a new
last child, a row comes to show the children of the row template, and a table gets a new row
template. Each keeps the shape of the tree, with a view that says what has changed.
-/

namespace OneWifiTestSuite.BusTree

open Cells ByteRegion

/-! ### Type and data -/

section Frame

/-- What the invariant reads of a node. -/
def Node.links (n : Node) : Name × Option ℕ × Option ℕ × Option ℕ × Bool :=
  (n.name, n.child, n.nextSibling, n.parent, n.reference)

/-- The element that a node carries. -/
def Node.info (n : Node) : Option ElemType × Option DataType × Option Bytes :=
  (n.type, n.dataType, n.data)

def Bus.infoOf (s : Bus) (a : ℕ) : Option (Option ElemType × Option DataType × Option Bytes) :=
  (s.mem a).map Node.info

variable {s s' : Bus} {v : View}

/-- The invariant does not look at types and data. -/
theorem Shape.of_links (h : Shape s v) (hfresh : s'.fresh = s.fresh)
    (hlinks : ∀ a, (s'.mem a).map Node.links = (s.mem a).map Node.links) : Shape s' v := by
  have hfwd : ∀ a n, s.mem a = some n → ∃ n', s'.mem a = some n' ∧ n'.links = n.links := by
    intro a n hn
    have := hlinks a
    rw [hn] at this
    exact Option.map_eq_some_iff.mp this
  have hback : ∀ a n', s'.mem a = some n' → ∃ n, s.mem a = some n ∧ n.links = n'.links := by
    intro a n' hn'
    have := (hlinks a).symm
    rw [hn'] at this
    exact Option.map_eq_some_iff.mp this
  have hcells : cells s'.mem = cells s.mem := by
    funext a
    have := congrArg (Option.map fun l => (⟨l.1, l.2.2.1⟩ : Cell Name)) (hlinks a)
    rw [Option.map_map, Option.map_map] at this
    exact this
  constructor
  · obtain ⟨n, hn, hp, hx, hr⟩ := h.root
    obtain ⟨n', hn', he⟩ := hfwd 0 n hn
    simp only [Node.links, Prod.mk.injEq] at he
    exact ⟨n', hn', he.2.2.2.1 ▸ hp, he.2.2.1 ▸ hx, he.2.2.2.2 ▸ hr⟩
  · intro a n' hn'
    obtain ⟨n, hn, -⟩ := hback a n' hn'
    exact hfresh ▸ h.bound a n hn
  · intro a ha
    obtain ⟨n, hn, hr⟩ := h.holder a ha
    obtain ⟨n', hn', he⟩ := hfwd a n hn
    simp only [Node.links, Prod.mk.injEq] at he
    exact ⟨n', hn', he.2.2.2.2 ▸ hr⟩
  · intro a c hc
    obtain ⟨hlt, n, hn, hp⟩ := h.kid a c hc
    obtain ⟨n', hn', he⟩ := hfwd _ n hn
    simp only [Node.links, Prod.mk.injEq] at he
    exact ⟨hlt, n', hn', he.2.2.2.1 ▸ hp⟩
  · exact h.sorted
  · intro a n' hn' ha
    obtain ⟨n, hn, he⟩ := hback a n' hn'
    simp only [Node.links, Prod.mk.injEq] at he
    rw [hcells, ← he.2.1]
    exact h.chain a n hn (he.2.2.2.2 ▸ ha)
  · intro a
    obtain ho | ⟨hne, ⟨n, hn, hr⟩, hp⟩ := h.owner a
    · exact .inl ho
    · obtain ⟨n', hn', he⟩ := hfwd a n hn
      simp only [Node.links, Prod.mk.injEq] at he
      exact .inr ⟨hne, ⟨n', hn', he.2.2.2.2 ▸ hr⟩, hp⟩
  · intro a n' hn' hname
    obtain ⟨n, hn, he⟩ := hback a n' hn'
    simp only [Node.links, Prod.mk.injEq] at he
    rw [← he.2.2.2.2]
    exact h.template_owns a n hn (he.1 ▸ hname)

/-- A write that keeps the links keeps the shape. -/
theorem Shape.write_of_links (h : Shape s v) {a : ℕ} {n : Node} (n' : Node) (hn : s.mem a = some n)
    (hlinks : n'.links = n.links) : Shape (s.write a n') v := by
  refine h.of_links rfl fun b => ?_
  by_cases hb : b = a
  · subst hb
    simp [Bus.write, hn, hlinks]
  · simp [Bus.write, Function.update_of_ne hb]

end Frame

/-! ### A new last child -/

section AddKid

namespace View

def addKid (v : View) (o : ℕ) (c : ℕ × Name) : View :=
  { v with kids := Function.update v.kids o (v.kids o ++ [c]) }

@[simp]
theorem addKid_owner (v : View) (o : ℕ) (c : ℕ × Name) : (v.addKid o c).owner = v.owner := rfl

theorem addKid_kids_self (v : View) (o : ℕ) (c : ℕ × Name) : (v.addKid o c).kids o = v.kids o ++ [c] := by
  simp [addKid]

theorem addKid_kids_of_ne (v : View) {o a : ℕ} (c : ℕ × Name) (ha : a ≠ o) : (v.addKid o c).kids a = v.kids a := by
  simp [addKid, Function.update_of_ne ha]

theorem mem_addKid {v : View} {o a : ℕ} {c x : ℕ × Name} :
    x ∈ (v.addKid o c).kids a ↔ x ∈ v.kids a ∨ a = o ∧ x = c := by
  by_cases ha : a = o
  · subst ha
    simp [addKid_kids_self]
  · simp [addKid_kids_of_ne v c ha, ha]

theorem linked_addKid {v : View} {o a c : ℕ} {nm : Name} :
    (v.addKid o (c, nm)).Linked a ↔ v.Linked a ∨ a = c := by
  constructor
  · rintro (rfl | ⟨p, nm', hc⟩)
    · exact .inl (.inl rfl)
    · obtain hc | ⟨-, hc⟩ := mem_addKid.mp hc
      · exact .inl (.inr ⟨p, nm', hc⟩)
      · exact .inr (congrArg Prod.fst hc)
  · rintro ((rfl | ⟨p, nm', hc⟩) | rfl)
    · exact .inl rfl
    · exact .inr ⟨p, nm', mem_addKid.mpr (.inl hc)⟩
    · exact .inr ⟨o, nm, mem_addKid.mpr (.inr ⟨rfl, rfl⟩)⟩

end View

variable {s s' : Bus} {v : View}

theorem Shape.fresh_dead (h : Shape s v) : s.mem s.fresh = none := by
  cases hn : s.mem s.fresh with
  | none =>
      rfl
  | some n =>
      exact absurd (h.bound _ n hn) (Nat.lt_irrefl _)

theorem Shape.kids_of_dead (h : Shape s v) {a : ℕ} (ha : s.mem a = none) : v.kids a = [] := by
  by_contra hne
  obtain ⟨n, hn, -⟩ := h.holder a hne
  rw [ha] at hn
  cases hn

theorem Shape.owner_of_dead (h : Shape s v) {a : ℕ} (ha : s.mem a = none) : v.owner a = a := by
  obtain ho | ⟨-, ⟨n, hn, -⟩, -⟩ := h.owner a
  · exact ho
  · rw [ha] at hn
    cases hn

theorem Shape.kid_lt_fresh (h : Shape s v) {a : ℕ} {c : ℕ × Name} (hc : c ∈ v.kids a) : c.1 < s.fresh := by
  obtain ⟨-, n, hn, -⟩ := h.kid a c hc
  exact h.bound _ n hn

/-- Parent, flag and name of a node. -/
def Node.kin (n : Node) : Option ℕ × Bool × Name :=
  (n.parent, n.reference, n.name)

/-- The new node for a child or a sibling. -/
def newNode (o : ℕ) (nm : Name) : Node :=
  { emptyElemNode with parent := some o, name := nm }

/-- A new last child of `o`, where the sibling lists in the new memory are given. -/
theorem Shape.addKid (h : Shape s v) {o : ℕ} {no : Node} {nm : Name} (ho : s.mem o = some no)
    (hown : no.reference = false) (hfresh : s'.fresh = s.fresh + 1)
    (hnew : s'.mem s.fresh = some (newNode o nm))
    (hkin : ∀ a, a ≠ s.fresh → (s'.mem a).map Node.kin = (s.mem a).map Node.kin)
    (hroot : ∀ n, s'.mem 0 = some n → n.nextSibling = none)
    (hchain : ∀ a n n', s.mem a = some n → s'.mem a = some n' → n.reference = false ∨ v.Linked a →
      Chain (cells s'.mem) n'.child ((v.addKid o (s.fresh, nm)).shown a)) :
    Shape s' (v.addKid o (s.fresh, nm)) := by
  have hlt : ∀ a n, s.mem a = some n → a ≠ s.fresh := fun a n hn => Nat.ne_of_lt (h.bound a n hn)
  have hfwd : ∀ a n, s.mem a = some n → ∃ n', s'.mem a = some n' ∧ n'.kin = n.kin := by
    intro a n hn
    have := hkin a (hlt a n hn)
    rw [hn] at this
    exact Option.map_eq_some_iff.mp this
  have hback : ∀ a n', s'.mem a = some n' → a ≠ s.fresh → ∃ n, s.mem a = some n ∧ n.kin = n'.kin := by
    intro a n' hn' ha
    have := (hkin a ha).symm
    rw [hn'] at this
    exact Option.map_eq_some_iff.mp this
  have hofresh : s.fresh ≠ o := fun e => hlt o no ho e.symm
  constructor
  · obtain ⟨n, hn, hp, -, hr⟩ := h.root
    obtain ⟨n', hn', he⟩ := hfwd 0 n hn
    simp only [Node.kin, Prod.mk.injEq] at he
    exact ⟨n', hn', he.1 ▸ hp, hroot n' hn', he.2.1 ▸ hr⟩
  · intro a n' hn'
    by_cases ha : a = s.fresh
    · omega
    · obtain ⟨n, hn, -⟩ := hback a n' hn' ha
      have := h.bound a n hn
      omega
  · intro a ha
    have hold : ∃ n, s.mem a = some n ∧ n.reference = false := by
      by_cases hao : a = o
      · exact ⟨no, hao ▸ ho, hown⟩
      · rw [View.addKid_kids_of_ne v _ hao] at ha
        exact h.holder a ha
    obtain ⟨n, hn, hr⟩ := hold
    obtain ⟨n', hn', he⟩ := hfwd a n hn
    simp only [Node.kin, Prod.mk.injEq] at he
    exact ⟨n', hn', he.2.1 ▸ hr⟩
  · intro a c hc
    obtain hc | ⟨rfl, rfl⟩ := View.mem_addKid.mp hc
    · obtain ⟨hac, n, hn, hp⟩ := h.kid a c hc
      obtain ⟨n', hn', he⟩ := hfwd _ n hn
      simp only [Node.kin, Prod.mk.injEq] at he
      exact ⟨hac, n', hn', he.1 ▸ hp⟩
    · exact ⟨h.bound a no ho, _, hnew, rfl⟩
  · intro a
    by_cases hao : a = o
    · subst hao
      rw [View.addKid_kids_self, List.map_append, List.pairwise_append]
      refine ⟨h.sorted a, by simp, ?_⟩
      intro x hx y hy
      obtain ⟨c, hc, rfl⟩ := List.mem_map.mp hx
      have hy' : y = s.fresh := by simpa using hy
      rw [hy']
      exact h.kid_lt_fresh hc
    · rw [View.addKid_kids_of_ne v _ hao]
      exact h.sorted a
  · intro a n' hn' ha
    by_cases haf : a = s.fresh
    · subst haf
      rw [hnew] at hn'
      cases hn'
      have hown : v.owner s.fresh = s.fresh := h.owner_of_dead h.fresh_dead
      rw [View.shown, View.addKid_owner, hown, View.addKid_kids_of_ne v _ hofresh, h.kids_of_dead h.fresh_dead]
      rfl
    · obtain ⟨n, hn, he⟩ := hback a n' hn' haf
      simp only [Node.kin, Prod.mk.injEq] at he
      refine hchain a n n' hn hn' ?_
      obtain ha | ha := ha
      · exact .inl (he.2.1 ▸ ha)
      · obtain ha | ha := View.linked_addKid.mp ha
        · exact .inr ha
        · exact absurd ha haf
  · intro a
    obtain hself | ⟨hne, ⟨n, hn, hr⟩, p, nm₁, nm₂, ha, ht⟩ := h.owner a
    · exact .inl hself
    · obtain ⟨n', hn', he⟩ := hfwd a n hn
      simp only [Node.kin, Prod.mk.injEq] at he
      obtain ⟨x, hx⟩ := List.exists_mem_of_ne_nil _ hne
      refine .inr ⟨List.ne_nil_of_mem (View.mem_addKid.mpr (.inl hx)), ⟨n', hn', he.2.1 ▸ hr⟩, p, nm₁, nm₂, ?_, ?_⟩
      · exact View.mem_addKid.mpr (.inl ha)
      · exact View.mem_addKid.mpr (.inl ht)
  · intro a n' hn' hname
    by_cases haf : a = s.fresh
    · subst haf
      rw [hnew] at hn'
      cases hn'
      rfl
    · obtain ⟨n, hn, he⟩ := hback a n' hn' haf
      simp only [Node.kin, Prod.mk.injEq] at he
      rw [← he.2.1]
      exact h.template_owns a n hn (he.2.2 ▸ hname)

/-- The memory behind a new sibling. -/
def Bus.withSibling (s : Bus) (o b : ℕ) (nb : Node) (nm : Name) : Bus :=
  (s.alloc (newNode o nm)).write b { nb with nextSibling := some s.fresh }

theorem Bus.write_alloc_mem {a x : ℕ} {n n' : Node} (hx : x < s.fresh) :
    ((s.alloc n).write x n').mem a = if a = x then some n' else if a = s.fresh then some n else s.mem a := by
  by_cases hax : a = x
  · simp [hax, Bus.write]
  · by_cases haf : a = s.fresh
    · simp [haf, Nat.ne_of_gt hx, Bus.write, Bus.alloc]
    · simp [hax, haf, Bus.write, Bus.alloc]

/-- The siblings of `o`'s children, seen from any node, get the new one at their end. -/
theorem Shape.withSibling (h : Shape s v) {o b : ℕ} {nb : Node} {nmb nm : Name} {l : List (ℕ × Name)}
    (hkids : v.kids o = l ++ [(b, nmb)]) (hnb : s.mem b = some nb) :
    Shape (s.withSibling o b nb nm) (v.addKid o (s.fresh, nm)) := by
  have hb : (b, nmb) ∈ v.kids o := by simp [hkids]
  have hne : v.kids o ≠ [] := List.ne_nil_of_mem hb
  obtain ⟨no, hno, hown⟩ := h.holder o hne
  have hlt : b < s.fresh := h.bound b nb hnb
  have hmem : ∀ a, (s.withSibling o b nb nm).mem a = _ := fun a => Bus.write_alloc_mem hlt
  have hcells : cells (s.withSibling o b nb nm).mem =
      Function.update (Function.update (cells s.mem) s.fresh (some ⟨nm, none⟩)) b (some ⟨nb.name, some s.fresh⟩) := by
    simp [Bus.withSibling, Bus.write, Bus.alloc, cells_update, newNode, emptyElemNode]
  refine h.addKid hno hown rfl ?_ ?_ ?_ ?_
  · simp [hmem, Nat.ne_of_gt hlt]
  · intro a ha
    by_cases hab : a = b
    · subst hab
      simp [hmem, hnb, Node.kin]
    · simp [hmem, hab, ha]
  · intro n hn
    obtain ⟨n₀, hn₀, -, hx, -⟩ := h.root
    have hb0 : 0 ≠ b := fun e => by
      have := (h.kid o _ hb).1
      omega
    have hf0 : 0 ≠ s.fresh := Nat.ne_of_lt (h.bound 0 n₀ hn₀)
    simp only [hmem, hb0, hf0, if_false, hn₀, Option.some.injEq] at hn
    exact hn ▸ hx
  · intro a n n' hn hn' ha
    have haf : a ≠ s.fresh := Nat.ne_of_lt (h.bound a n hn)
    have hchild : n'.child = n.child := by
      by_cases hab : a = b
      · subst hab
        rw [hnb] at hn
        simp only [hmem, if_true, Option.some.injEq] at hn'
        cases hn
        subst hn'
        rfl
      · simp only [hmem, hab, haf, if_false, hn, Option.some.injEq] at hn'
        rw [hn']
    have hold := h.chain a n hn ha
    rw [hchild, hcells, View.shown, View.addKid_owner]
    by_cases ho : v.owner a = o
    · rw [ho, View.addKid_kids_self]
      rw [View.shown, ho] at hold
      have hfresh : s.fresh ∉ (v.kids o).map Prod.fst := by
        intro hmem
        obtain ⟨c, hc, he⟩ := List.mem_map.mp hmem
        have := h.kid_lt_fresh hc
        omega
      have hname : nb.name = nmb := h.name_of_kid hb hnb
      have hbl : b ∉ l.map Prod.fst := by
        have hnd := h.kids_nodup o
        rw [hkids, List.map_append, List.nodup_append] at hnd
        exact fun hmem => hnd.2.2 b hmem b (by simp) rfl
      have hseg := seg_update (c := some ⟨nm, none⟩) hfresh hold
      rw [hkids] at hseg ⊢
      rw [hname]
      refine seg_append.mpr ⟨some s.fresh, seg_relink hbl hseg, rfl, none, ?_, rfl⟩
      simp [Nat.ne_of_gt hlt]
    · rw [View.addKid_kids_of_ne v _ ho]
      refine seg_update ?_ (seg_update ?_ hold)
      · intro hmem
        obtain ⟨⟨c, nmc⟩, hc, he⟩ := List.mem_map.mp hmem
        cases he
        exact ho (h.parent_unique hc hb)
      · intro hmem
        obtain ⟨c, hc, he⟩ := List.mem_map.mp hmem
        have := h.kid_lt_fresh hc
        omega

end AddKid

/-! ### Shared children -/

section Share

namespace View

/-- The node `b` shows the children of `t`. -/
def share (v : View) (b t : ℕ) : View :=
  { v with owner := if v.kids t = [] then v.owner else Function.update v.owner b t }

@[simp]
theorem share_kids (v : View) (b t : ℕ) : (v.share b t).kids = v.kids := rfl

@[simp]
theorem linked_share {v : View} {a b t : ℕ} : (v.share b t).Linked a ↔ v.Linked a := Iff.rfl

theorem share_owner_of_ne (v : View) {a b : ℕ} (t : ℕ) (hab : a ≠ b) : (v.share b t).owner a = v.owner a := by
  unfold share
  split_ifs <;> simp [Function.update_of_ne hab]

theorem share_owner_self (v : View) {b t : ℕ} (ht : v.kids t ≠ []) : (v.share b t).owner b = t := by
  simp [share, ht]

end View

variable {s s' : Bus} {v : View}

/-- A childless sibling of `t` comes to show the children of `t`. -/
theorem Shape.share (h : Shape s v) {p b t : ℕ} {nb nt : Node} (nb' : Node) {nmb nmt : Name} (hb : (b, nmb) ∈ v.kids p)
    (ht : (t, nmt) ∈ v.kids p) (hbt : b ≠ t) (hnb : s.mem b = some nb) (hnt : s.mem t = some nt)
    (hchild : nb.child = none) (hown : nt.reference = false) (hname : nmb ≠ template)
    (hnb' : nb'.links = (nb.name, nt.child, nb.nextSibling, nb.parent, true)) :
    Shape (s.write b nb') (v.share b t) := by
  simp only [Node.links, Prod.mk.injEq] at hnb'
  obtain ⟨h₁, h₂, h₃, h₄, h₅⟩ := hnb'
  have hlb : v.Linked b := .inr ⟨p, nmb, hb⟩
  have hshown : v.shown b = [] := (h.child_eq_none hlb hnb).mp hchild
  have howner : v.owner b = b := by
    obtain he | ⟨hne, -⟩ := h.owner b
    · exact he
    · exact absurd hshown hne
  have hkids : v.kids b = [] := by rw [← howner]; exact hshown
  have htown : v.owner t = t := h.owner_of_own hnt hown
  have hmem : ∀ a, (s.write b nb').mem a = if a = b then some nb' else s.mem a := by
    intro a
    by_cases ha : a = b
    · simp [ha, Bus.write]
    · simp [ha, Bus.write]
  have hcells : cells (s.write b nb').mem = cells s.mem := cells_write hnb h₁ h₃
  constructor
  · obtain ⟨n, hn, hrest⟩ := h.root
    have h0 : 0 ≠ b := fun e => by
      have := (h.kid p _ hb).1
      omega
    exact ⟨n, by simp [hmem, h0, hn], hrest⟩
  · intro a n hn
    by_cases ha : a = b
    · exact ha ▸ h.bound b nb hnb
    · simp only [hmem, ha, if_false] at hn
      exact h.bound a n hn
  · intro a hne
    have ha : a ≠ b := fun e => hne (e ▸ hkids)
    obtain ⟨n, hn, hr⟩ := h.holder a hne
    exact ⟨n, by simp [hmem, ha, hn], hr⟩
  · intro a c hc
    obtain ⟨hlt, n, hn, hp⟩ := h.kid a c hc
    refine ⟨hlt, ?_⟩
    by_cases hcb : c.1 = b
    · rw [hcb, hnb] at hn
      cases hn
      exact ⟨nb', by simp [hmem, hcb], h₄ ▸ hp⟩
    · exact ⟨n, by simp [hmem, hcb, hn], hp⟩
  · exact h.sorted
  · intro a n hn ha
    rw [hcells]
    by_cases hab : a = b
    · subst hab
      simp only [hmem, if_true, Option.some.injEq] at hn
      subst hn
      have hct := h.chain t nt hnt (.inl hown)
      rw [View.shown, htown] at hct
      rw [h₂]
      by_cases hk : v.kids t = []
      · rw [hk] at hct
        have hnone : nt.child = none := hct
        rw [hnone, View.shown, View.share, if_pos hk, howner, hkids]
        rfl
      · rw [View.shown, View.share_owner_self v hk]
        exact hct
    · simp only [hmem, hab, if_false] at hn
      rw [View.shown, View.share_owner_of_ne v t hab]
      exact h.chain a n hn ha
  · intro a
    by_cases hab : a = b
    · subst hab
      by_cases hk : v.kids t = []
      · exact .inl (by rw [View.share, if_pos hk, howner])
      · rw [View.shown, View.share_owner_self v hk]
        exact .inr ⟨hk, ⟨nb', by simp [hmem], h₅⟩, p, nmb, nmt, hb, ht⟩
    · rw [View.shown, View.share_owner_of_ne v t hab]
      obtain he | ⟨hne, ⟨n, hn, hr⟩, hp⟩ := h.owner a
      · exact .inl he
      · exact .inr ⟨hne, ⟨n, by simp [hmem, hab, hn], hr⟩, hp⟩
  · intro a n hn hnm
    by_cases hab : a = b
    · subst hab
      simp only [hmem, if_true, Option.some.injEq] at hn
      subst hn
      exact absurd (by rw [← h.name_of_kid hb hnb, ← h₁, hnm]) hname
    · simp only [hmem, hab, if_false] at hn
      exact h.template_owns a n hn hnm

end Share

/-! ### A new row template -/

section NewTemplate

namespace View

/-- The node `a` has only the child `c`; what it had before is not linked any more. -/
noncomputable def setKid (v : View) (a : ℕ) (c : ℕ × Name) : View where
  kids := Function.update v.kids a [c]
  owner := fun r =>
    haveI := Classical.propDecidable (∃ nm, (r, nm) ∈ v.kids a)
    if ∃ nm, (r, nm) ∈ v.kids a then r else v.owner r

theorem setKid_kids_self (v : View) (a : ℕ) (c : ℕ × Name) : (v.setKid a c).kids a = [c] := by
  simp [setKid]

theorem setKid_kids_of_ne (v : View) {a b : ℕ} (c : ℕ × Name) (hb : b ≠ a) : (v.setKid a c).kids b = v.kids b := by
  simp [setKid, Function.update_of_ne hb]

theorem setKid_owner_of_not_mem (v : View) {a r : ℕ} (c : ℕ × Name) (hr : ∀ nm, (r, nm) ∉ v.kids a) :
    (v.setKid a c).owner r = v.owner r := by
  simp [setKid, hr]

theorem setKid_owner_of_mem (v : View) {a r : ℕ} {nm : Name} (c : ℕ × Name) (hr : (r, nm) ∈ v.kids a) :
    (v.setKid a c).owner r = r := by
  have : ∃ nm, (r, nm) ∈ v.kids a := ⟨nm, hr⟩
  simp [setKid, this]

theorem setKid_of_nil {v : View} {a : ℕ} (c : ℕ × Name) (ha : v.kids a = []) : v.setKid a c = v.addKid a c := by
  simp [setKid, addKid, ha]

theorem mem_setKid {v : View} {a b : ℕ} {c x : ℕ × Name} :
    x ∈ (v.setKid a c).kids b ↔ b ≠ a ∧ x ∈ v.kids b ∨ b = a ∧ x = c := by
  by_cases hb : b = a
  · subst hb
    simp [setKid_kids_self]
  · simp [setKid_kids_of_ne v c hb, hb]

end View

variable {s s' : Bus} {v : View}

/-- A node gets a new child in the place of all that it had; no row may share those. -/
theorem Shape.setKid (h : Shape s v) {a : ℕ} {n : Node} (n' : Node) (nm : Name) (hn : s.mem a = some n)
    (hown : n.reference = false) (halone : ∀ r, v.owner r = a → r = a)
    (hn' : n'.links = (n.name, some s.fresh, n.nextSibling, n.parent, false)) :
    Shape ((s.alloc (newNode a nm)).write a n') (v.setKid a (s.fresh, nm)) := by
  simp only [Node.links, Prod.mk.injEq] at hn'
  obtain ⟨h₁, h₂, h₃, h₄, h₅⟩ := hn'
  have hlt : a < s.fresh := h.bound a n hn
  have haf : a ≠ s.fresh := Nat.ne_of_lt hlt
  have hmem : ∀ b, ((s.alloc (newNode a nm)).write a n').mem b = _ := fun b => Bus.write_alloc_mem hlt
  have hself : v.owner a = a := h.owner_of_own hn hown
  -- every old node but `a` is as it was
  have hold : ∀ b nb, s.mem b = some nb → b ≠ a → ((s.alloc (newNode a nm)).write a n').mem b = some nb := by
    intro b nb hnb hba
    have hbf := h.bound b nb hnb
    simp [hmem, hba, Nat.ne_of_lt hbf, hnb]
  have hcells : cells ((s.alloc (newNode a nm)).write a n').mem =
      Function.update (cells s.mem) s.fresh (some ⟨nm, none⟩) := by
    have hac : Function.update s.mem s.fresh (some (newNode a nm)) a = some n := by
      rw [Function.update_of_ne haf, hn]
    unfold Bus.write Bus.alloc
    rw [cells_write hac h₁ h₃, cells_update]
    rfl
  constructor
  · obtain ⟨n₀, hn₀, hp, hx, hr⟩ := h.root
    by_cases h0 : 0 = a
    · subst h0
      rw [hn] at hn₀
      cases hn₀
      exact ⟨n', by simp [hmem], h₄ ▸ hp, h₃ ▸ hx, h₅⟩
    · exact ⟨n₀, hold 0 n₀ hn₀ h0, hp, hx, hr⟩
  · intro b nb hnb
    simp only [hmem] at hnb
    change b < s.fresh + 1
    split_ifs at hnb with hba hbf
    · omega
    · omega
    · have := h.bound b nb hnb
      omega
  · intro b hb
    by_cases hba : b = a
    · exact ⟨n', by simp [hmem, hba], h₅⟩
    · rw [View.setKid_kids_of_ne v _ hba] at hb
      obtain ⟨nb, hnb, hr⟩ := h.holder b hb
      exact ⟨nb, hold b nb hnb hba, hr⟩
  · intro b c hc
    obtain ⟨hba, hc⟩ | ⟨rfl, rfl⟩ := View.mem_setKid.mp hc
    · obtain ⟨hbc, nc, hnc, hp⟩ := h.kid b c hc
      refine ⟨hbc, ?_⟩
      by_cases hca : c.1 = a
      · rw [hca, hn] at hnc
        cases hnc
        exact ⟨n', by simp [hmem, hca], h₄ ▸ hp⟩
      · exact ⟨nc, hold _ nc hnc hca, hp⟩
    · exact ⟨hlt, newNode b nm, by simp [hmem, Ne.symm haf], rfl⟩
  · intro b
    by_cases hba : b = a
    · subst hba
      simp [View.setKid_kids_self]
    · rw [View.setKid_kids_of_ne v _ hba]
      exact h.sorted b
  · intro b nb hnb hlinked
    rw [hcells]
    by_cases hbf : b = s.fresh
    · subst hbf
      simp only [hmem, Ne.symm haf, if_false, if_true, Option.some.injEq] at hnb
      subst hnb
      have hfresh : ∀ nm', (s.fresh, nm') ∉ v.kids a := by
        intro nm' hc
        exact Nat.lt_irrefl _ (h.kid_lt_fresh hc)
      rw [View.shown, View.setKid_owner_of_not_mem v _ hfresh, h.owner_of_dead h.fresh_dead,
        View.setKid_kids_of_ne v _ (Ne.symm haf), h.kids_of_dead h.fresh_dead]
      rfl
    by_cases hba : b = a
    · subst hba
      simp only [hmem, if_true, Option.some.injEq] at hnb
      subst hnb
      have hself' : ∀ nm', (b, nm') ∉ v.kids b := by
        intro nm' hc
        exact Nat.lt_irrefl _ (h.kid _ _ hc).1
      rw [View.shown, View.setKid_owner_of_not_mem v _ hself', hself, View.setKid_kids_self, h₂]
      exact ⟨rfl, none, by simp, rfl⟩
    · simp only [hmem, hba, hbf, if_false] at hnb
      have hlinked' : nb.reference = false ∨ v.Linked b := by
        obtain hr | (rfl | ⟨p, nmb, hp⟩) := hlinked
        · exact .inl hr
        · exact .inr (.inl rfl)
        · obtain ⟨-, hp⟩ | ⟨-, hp⟩ := View.mem_setKid.mp hp
          · exact .inr (.inr ⟨p, nmb, hp⟩)
          · exact absurd (congrArg Prod.fst hp) hbf
      have hchain := h.chain b nb hnb hlinked'
      -- `b` is no lost child that shows the children of another node
      have hshown : (v.setKid a (s.fresh, nm)).shown b = v.shown b := by
        by_cases hlost : ∃ nmb, (b, nmb) ∈ v.kids a
        · obtain ⟨nmb, hlost⟩ := hlost
          have hr : nb.reference = false := by
            obtain hr | (rfl | ⟨p, nmb', hp⟩) := hlinked
            · exact hr
            · exact absurd (h.kid _ _ hlost).1 (Nat.not_lt_zero _)
            · obtain ⟨hpa, hp⟩ | ⟨-, hp⟩ := View.mem_setKid.mp hp
              · exact absurd (h.parent_unique hp hlost) hpa
              · exact absurd (congrArg Prod.fst hp) hbf
          have hob := h.owner_of_own hnb hr
          rw [View.shown, View.setKid_owner_of_mem v _ hlost, View.setKid_kids_of_ne v _ hba, View.shown, hob]
        · rw [not_exists] at hlost
          have hoa : v.owner b ≠ a := fun e => hba (halone b e)
          rw [View.shown, View.setKid_owner_of_not_mem v _ hlost, View.setKid_kids_of_ne v _ hoa, View.shown]
      rw [hshown]
      refine seg_update ?_ hchain
      intro hc
      obtain ⟨c, hc, he⟩ := List.mem_map.mp hc
      have := h.kid_lt_fresh hc
      omega
  · intro b
    by_cases hlost : ∃ nmb, (b, nmb) ∈ v.kids a
    · obtain ⟨nmb, hlost⟩ := hlost
      exact .inl (View.setKid_owner_of_mem v _ hlost)
    · rw [not_exists] at hlost
      rw [View.shown, View.setKid_owner_of_not_mem v _ hlost]
      obtain he | ⟨hne, ⟨nb, hnb, hr⟩, p, nm₁, nm₂, hb, ht⟩ := h.owner b
      · exact .inl he
      · have hba : b ≠ a := by
          rintro rfl
          rw [hn] at hnb
          cases hnb
          rw [hown] at hr
          cases hr
        have hoa : v.owner b ≠ a := fun e => hba (halone b e)
        have hpa : p ≠ a := fun e => hlost nm₁ (e ▸ hb)
        refine .inr ⟨?_, ⟨nb, hold b nb hnb hba, hr⟩, p, nm₁, nm₂, ?_, ?_⟩
        · rw [View.setKid_kids_of_ne v _ hoa]
          exact hne
        · exact View.mem_setKid.mpr (.inl ⟨hpa, hb⟩)
        · exact View.mem_setKid.mpr (.inl ⟨hpa, ht⟩)
  · intro b nb hnb hname
    simp only [hmem] at hnb
    split_ifs at hnb with hba hbf
    · cases hnb
      exact h₅
    · cases hnb
      rfl
    · exact h.template_owns b nb hnb hname

end NewTemplate

/-! ### Linking -/

section Linking

variable {s : Bus} {v : View}

/-- The rows of a list that `link_tables_with_node` links. -/
def View.Linkable (v : View) (l : List (ℕ × Name)) (x : ℕ) : Prop :=
  ∃ nm, (x, nm) ∈ l ∧ isStringDigit nm = true ∧ v.shown x = []

theorem template_not_digit : isStringDigit template = false := by
  decide

/-- All rows of the list come to show the children of `t`, and nothing else changes. -/
theorem Shape.linkFrom (h : Shape s v) {p t : ℕ} {nt : Node} {nmt : Name} (ht : (t, nmt) ∈ v.kids p)
    (hnt : s.mem t = some nt) (hown : nt.reference = false) (hkids : v.kids t ≠ []) {l : List (ℕ × Name)}
    (hl : l.Sublist (v.kids p)) (htl : t ∉ l.map Prod.fst) {q : Option ℕ} (hq : Chain (cells s.mem) q l) {k : ℕ}
    (hk : l.length ≤ k) : ∃ s' v', Bus.linkFrom nt.child k q s = some s' ∧ Shape s' v' ∧ v'.kids = v.kids ∧
      (∀ x, v.Linkable l x → v'.owner x = t) ∧
      (∀ x, ¬ v.Linkable l x → v'.owner x = v.owner x ∧ s'.mem x = s.mem x) ∧
      s'.fresh = s.fresh ∧ s'.freed = s.freed ∧ ∀ a, s'.infoOf a = s.infoOf a := by
  induction l generalizing s v q k with
  | nil =>
      have hnone : q = none := hq
      subst hnone
      refine ⟨s, v, ?_, h, rfl, ?_, fun x _ => ⟨rfl, rfl⟩, rfl, rfl, fun a => rfl⟩
      · cases k <;> rfl
      · rintro x ⟨nm, hx, -⟩
        cases hx
  | cons x l ih =>
      obtain ⟨b, nmb⟩ := x
      obtain ⟨k, rfl⟩ : ∃ j, k = j + 1 := ⟨k - 1, by rw [List.length_cons] at hk; omega⟩
      obtain ⟨rfl, nx, hcell, hrest⟩ := hq
      obtain ⟨nb, hnb, he⟩ := Option.map_eq_some_iff.mp hcell
      cases he
      have hbp : (b, nb.name) ∈ v.kids p := hl.subset (by simp)
      have hlb : v.Linked b := .inr ⟨p, nb.name, hbp⟩
      have hlp : l.Sublist (v.kids p) := (List.sublist_cons_self _ _).trans hl
      have hbt : t ≠ b := fun e => htl (by simp [e])
      have htl' : t ∉ l.map Prod.fst := fun hm => htl (by simp [hm])
      have hbl : ∀ nm, (b, nm) ∉ l := by
        intro nm hm
        have hnd := (h.kids_nodup p).sublist (hl.map Prod.fst)
        rw [List.map_cons, List.nodup_cons] at hnd
        exact hnd.1 (List.mem_map.mpr ⟨(b, nm), hm, rfl⟩)
      have hlen : l.length ≤ k := by simpa using hk
      rw [Bus.linkFrom, hnb]
      by_cases hc : nb.child = none ∧ isStringDigit nb.name = true
      · have hshown : v.shown b = [] := (h.child_eq_none hlb hnb).mp hc.1
        have hname : nb.name ≠ template := fun e => by
          rw [e, template_not_digit] at hc
          exact absurd hc.2 (by simp)
        have hs := h.share { nb with child := nt.child, reference := true } hbp ht (Ne.symm hbt) hnb hnt hc.1 hown hname rfl
        have hcells : cells (s.write b { nb with child := nt.child, reference := true }).mem = cells s.mem :=
          cells_write hnb rfl rfl
        have hnt' : (s.write b { nb with child := nt.child, reference := true }).mem t = some nt := by
          simp [Bus.write, hbt, hnt]
        obtain ⟨s', v', hrun, hs', hk', hin, hout, hf, hfr, hinfo⟩ :=
          ih (k := k) hs ht hnt' hkids hlp htl' (hcells ▸ hrest) hlen
        have hmove : ∀ x, x ≠ b → ((v.share b t).Linkable l x ↔ v.Linkable ((b, nb.name) :: l) x) := by
          intro x hx
          unfold View.Linkable View.shown
          rw [View.share_kids, View.share_owner_of_ne v t hx]
          simp [hx]
        refine ⟨s', v', ?_, hs', hk', ?_, ?_, hf, hfr, ?_⟩
        · simpa [hc] using hrun
        · intro x hx
          by_cases hxb : x = b
          · subst hxb
            have hnot : ¬ (v.share x t).Linkable l x := fun ⟨nm, hm, _⟩ => hbl nm hm
            rw [(hout x hnot).1, View.share_owner_self v hkids]
          · exact hin x ((hmove x hxb).mpr hx)
        · intro x hx
          have hxb : x ≠ b := fun e => hx ⟨nb.name, by simp [e], hc.2, e ▸ hshown⟩
          obtain ⟨ho, hm⟩ := hout x fun hy => hx ((hmove x hxb).mp hy)
          rw [ho, hm, View.share_owner_of_ne v t hxb]
          simp [Bus.write, hxb]
        · intro a
          rw [hinfo a]
          by_cases hab : a = b
          · subst hab
            simp [Bus.infoOf, Bus.write, hnb, Node.info]
          · simp [Bus.infoOf, Bus.write, hab]
      · obtain ⟨s', v', hrun, hs', hk', hin, hout, hf, hfr, hinfo⟩ :=
          ih (k := k) h ht hnt hkids hlp htl' hrest hlen
        have hnot : ∀ x, v.Linkable ((b, nb.name) :: l) x ↔ v.Linkable l x := by
          intro x
          constructor
          · rintro ⟨nm, hm, hd, hsh⟩
            obtain hm | hm := List.mem_cons.mp hm
            · cases hm
              exact absurd ⟨(h.child_eq_none hlb hnb).mpr hsh, hd⟩ hc
            · exact ⟨nm, hm, hd, hsh⟩
          · rintro ⟨nm, hm, hrest⟩
            exact ⟨nm, List.mem_cons_of_mem _ hm, hrest⟩
        refine ⟨s', v', ?_, hs', hk', fun x hx => hin x ((hnot x).mp hx), fun x hx => hout x fun hy => hx ((hnot x).mpr hy),
          hf, hfr, hinfo⟩
        simpa [hc] using hrun

end Linking

end OneWifiTestSuite.BusTree
