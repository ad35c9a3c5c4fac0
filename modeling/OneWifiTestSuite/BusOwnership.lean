import OneWifiTestSuite.BusRuns

/-!
# Ownership of bus nodes

`OwnsAll` says that every node that can be reached from the root is allocated, and that
`bus_remove_all_elems` frees all allocated nodes, each once. It holds after every run whose calls
free nothing that rows share and lose no node (`ownsAll_of_run`). Unregistering an element of a row
template breaks it (`not_ownsAll_unregistered`).
-/

namespace OneWifiTestSuite.BusTree

open Cells Runs

section Property

/-- The nodes that the child and sibling pointers lead to from the root. -/
inductive Reach (s : Bus) : ℕ → Prop
  | root : Reach s 0
  | child {a b : ℕ} {n : Node} : Reach s a → s.mem a = some n → n.child = some b → Reach s b
  | sibling {a b : ℕ} {n : Node} : Reach s a → s.mem a = some n → n.nextSibling = some b → Reach s b

/-- No reachable node is freed, and removing all elements frees every allocated node once. -/
def OwnsAll (s : Bus) : Prop :=
  (∀ a, Reach s a → s.mem a ≠ none) ∧
    ∃ s' l, removeAllElems s = some s' ∧ s'.freed = l ++ s.freed ∧ l.Nodup ∧
      (∀ a, a ∈ l ↔ s.mem a ≠ none) ∧ ∀ a, s'.mem a = none

end Property

section Proof

variable {s : Bus} {v : View}

/-- What is reachable is linked in the view. -/
theorem Shape.linked_of_reach (h : Shape s v) {a : ℕ} (ha : Reach s a) : v.Linked a := by
  induction ha with
  | root =>
      exact .inl rfl
  | @child a b n _ hn hb ih =>
      have hchain := h.chain_of_linked ih hn
      cases hl : v.shown a with
      | nil =>
          rw [(h.child_eq_none ih hn).mpr hl] at hb
          cases hb
      | cons x l =>
          rw [hl, hb] at hchain
          have hx : b = x.1 := Option.some.inj hchain.1
          refine .inr ⟨v.owner a, x.2, ?_⟩
          rw [← View.shown, hl, hx]
          simp
  | @sibling a b n _ hn hb ih =>
      obtain rfl | ⟨p, nm, hp⟩ := ih
      · obtain ⟨n₀, hn₀, -, hnext, -⟩ := h.root
        rw [hn] at hn₀
        cases hn₀
        rw [hnext] at hb
        cases hb
      · obtain ⟨l, hsub, hchain, -⟩ := h.behind hp hn
        cases l with
        | nil =>
            have hnone : n.nextSibling = none := hchain
            rw [hnone] at hb
            cases hb
        | cons x l =>
            rw [hb] at hchain
            have hx : b = x.1 := Option.some.inj hchain.1
            exact .inr ⟨p, x.2, hx ▸ hsub.subset (List.mem_cons_self)⟩

/-- Where no node is lost, the allocated nodes are those below the root. -/
theorem Shape.below_root_iff (h : Shape s v) (ho : Owned s v) (a : ℕ) : v.Below 0 a ↔ s.mem a ≠ none := by
  constructor
  · intro ha
    have hl : v.Linked a := by
      obtain he | ⟨p, -, nm, hp⟩ := Relation.ReflTransGen.cases_tail ha
      · exact .inl he
      · exact .inr ⟨p, nm, hp⟩
    obtain ⟨n, hn⟩ := h.alive_of_linked hl
    simp [hn]
  · intro ha
    induction a using Nat.strong_induction_on with
    | _ a ih =>
        obtain ⟨n, hn⟩ := Option.ne_none_iff_exists'.mp ha
        obtain rfl | ⟨p, nm, hp⟩ := ho a n hn
        · exact .refl
        · obtain ⟨np, hnp, -⟩ := h.holder p (List.ne_nil_of_mem hp)
          have hlt := (h.kid p _ hp).1
          exact .tail (ih p hlt (by simp [hnp])) ⟨nm, hp⟩

theorem Shape.ownsAll (h : Shape s v) (ho : Owned s v) : OwnsAll s := by
  constructor
  · intro a ha
    obtain ⟨n, hn⟩ := h.alive_of_linked (h.linked_of_reach ha)
    simp [hn]
  · obtain ⟨n, hn, hparent, hnext, -⟩ := h.root
    obtain ⟨l, hrun, hnd, hl⟩ := freeBelow_spec h hn
    have h0 : 0 ∉ l := (List.nodup_cons.mp hnd).1
    have hmem : (s.without l).mem 0 = some n := by simp [Bus.without, h0, hn]
    have hiff : ∀ a, a ∈ 0 :: l ↔ s.mem a ≠ none := fun a => (hl a).trans (h.below_root_iff ho a)
    refine ⟨s.without (0 :: l), 0 :: l, ?_, rfl, hnd, hiff, fun a => ?_⟩
    · have htrav : s.elemTraversal 0 = some (s.without (0 :: l)) := by
        simp only [Bus.elemTraversal, hn, hrun, Bus.unlink, hmem, hparent, Option.bind_eq_bind, Option.bind_some]
        exact Bus.without_free hn h0
      simp only [removeAllElems, Bus.removeFrom, hn, htrav, hnext, Option.bind_eq_bind, Option.bind_some]
    · by_cases ha : a ∈ 0 :: l
      · simp only [Bus.without, ha, if_true]
      · simp only [Bus.without, ha, if_false]
        exact not_not.mp fun hne => ha ((hiff a).mpr hne)

/-- **Ownership**: after every run of calls that free nothing that rows share and lose no node, no
reachable node is freed and the final removal frees every node once. -/
theorem ownsAll_of_run {sz : Sizes} {s : Bus}
    (hrun : Run (Bus.next sz) (fun s op => s.keepsShape sz op = true ∧ s.keepsLinked op = true) initRoot s) :
    OwnsAll s := by
  obtain ⟨v, hs, ho⟩ := run_owned (fun _ _ h => h) hrun
  exact hs.ownsAll ho

end Proof

/-! ### Runs -/

section Examples

def sizes : Sizes :=
  ⟨64, 32, by decide⟩

def property (name : String) : Elem :=
  ⟨name.toList, .property, .regData, [1]⟩

def table (name : String) : Elem :=
  ⟨name.toList, .table, .regData, [2]⟩

/-- A table `T` with an element `X`, a nested table `U` and two rows. -/
def tableOps : List Op :=
  [.insert (table "T.{i}."), .insert (property "T.{i}.X"), .insert (table "T.{i}.U.{i}."),
    .addRow "T.".toList 1, .addRow "T.".toList 2, .remove "T.1".toList]

/-- Rows come and go, and every node is freed once in the end. -/
theorem ownsAll_of_run_tableOps : ∃ s, execTo (Bus.next sizes) initRoot tableOps = some s ∧ OwnsAll s := by
  have hsome : (execTo (guarded (Bus.next sizes) fun s op => s.keepsShape sizes op = true ∧ s.keepsLinked op = true)
      initRoot tableOps).isSome = true := by decide +kernel
  obtain ⟨s, hs⟩ := Option.isSome_iff_exists.mp hsome
  exact ⟨s, execTo_of_guarded hs, ownsAll_of_run (run_of_guarded hs)⟩

/-- The template's element `X` is freed while row 1 shows it. -/
def unregisterOps : List Op :=
  [.insert (table "T.{i}."), .insert (property "T.{i}.X"), .addRow "T.".toList 1,
    .remove "T.{i}.X".toList]

/-- Unregistering the first element of a row template leaves the rows a freed child. -/
theorem not_ownsAll_unregistered :
    ∃ s, execTo (Bus.next sizes) initRoot unregisterOps = some s ∧ ¬ OwnsAll s := by
  have hmem : (execTo (Bus.next sizes) initRoot unregisterOps).map (fun s =>
      [(s.mem 0).bind Node.child, (s.mem 1).bind Node.child, (s.mem 2).bind Node.nextSibling, (s.mem 4).bind Node.child,
        (s.mem 3).map fun _ => 0]) = some [some 1, some 2, some 4, some 3, none] := by decide +kernel
  obtain ⟨s, hs, hl⟩ := Option.map_eq_some_iff.mp hmem
  simp only [List.cons.injEq, and_true, Option.bind_eq_some_iff, Option.map_eq_none_iff] at hl
  obtain ⟨⟨n₀, h₀, hc₀⟩, ⟨n₁, h₁, hc₁⟩, ⟨n₂, h₂, hx₂⟩, ⟨n₄, h₄, hc₄⟩, h₃⟩ := hl
  refine ⟨s, hs, fun hown => hown.1 3 ?_ h₃⟩
  have hrow : Reach s 4 := .sibling (.child (.child .root h₀ hc₀) h₁ hc₁) h₂ hx₂
  exact .child hrow h₄ hc₄

end Examples

end OneWifiTestSuite.BusTree
