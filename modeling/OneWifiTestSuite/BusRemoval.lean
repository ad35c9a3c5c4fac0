import OneWifiTestSuite.BusInsert
import Mathlib.Logic.Relation

/-!
# Removal in the bus tree

`freeSiblings_spec` says that the recursion frees exactly the nodes below, each once: the subtrees
of siblings have no node in common. `elemTraversal_spec` gives the shape after a node was taken out
whose children, and whose place as first child, no row shares.
-/

namespace OneWifiTestSuite.BusTree

open Cells ByteRegion

/-! ### Subtrees -/

section Subtrees

/-- The node `c` is `a` or a child of a child of ... `a`. -/
def View.Below (v : View) : ℕ → ℕ → Prop :=
  Relation.ReflTransGen fun a c => ∃ nm, (c, nm) ∈ v.kids a

variable {s : Bus} {v : View}

theorem Shape.le_of_below (h : Shape s v) {a c : ℕ} (hc : v.Below a c) : a ≤ c := by
  induction hc with
  | refl =>
      exact Nat.le_refl _
  | tail _ hstep ih =>
      obtain ⟨nm, hmem⟩ := hstep
      have := (h.kid _ _ hmem).1
      exact ih.trans (Nat.le_of_lt this)

/-- A node below `a` is `a`, or its parent is below `a`. -/
theorem Shape.below_parent (h : Shape s v) {a p c : ℕ} {nm : Name} (hc : v.Below a c) (hne : c ≠ a)
    (hp : (c, nm) ∈ v.kids p) : v.Below a p := by
  obtain he | ⟨z, hz, nm', hmem⟩ := Relation.ReflTransGen.cases_tail hc
  · exact absurd he.symm (Ne.symm hne)
  · rw [h.parent_unique hp hmem]
    exact hz

/-- The nodes below a node are the node and those below its children. -/
theorem View.below_iff {a c : ℕ} : v.Below a c ↔ c = a ∨ ∃ x ∈ v.kids a, v.Below x.1 c := by
  constructor
  · intro hc
    obtain he | ⟨b, ⟨nm, hb⟩, hbc⟩ := Relation.ReflTransGen.cases_head hc
    · exact .inl he.symm
    · exact .inr ⟨(b, nm), hb, hbc⟩
  · rintro (rfl | ⟨x, hx, hxc⟩)
    · exact .refl
    · exact .head ⟨x.2, hx⟩ hxc

/-- The subtrees of two siblings have no node in common. -/
theorem Shape.below_disjoint (h : Shape s v) {p x y c : ℕ} {nmx nmy : Name} (hx : (x, nmx) ∈ v.kids p)
    (hy : (y, nmy) ∈ v.kids p) (hxy : x ≠ y) (hcx : v.Below x c) : ¬ v.Below y c := by
  intro hcy
  induction hcx with
  | refl =>
      have hle := h.le_of_below (h.below_parent hcy hxy hx)
      have := (h.kid p _ hy).1
      omega
  | @tail b d hb hstep ih =>
      obtain ⟨nm, hmem⟩ := hstep
      by_cases hdy : d = y
      · subst hdy
        rw [h.parent_unique hmem hy] at hb
        have hle := h.le_of_below hb
        have := (h.kid p _ hx).1
        omega
      · exact ih (h.below_parent hcy hdy hmem)

end Subtrees

/-! ### Freeing -/

section Freeing

/-- The memory without some nodes, which were freed last to first. -/
def Bus.without (s : Bus) (l : List ℕ) : Bus :=
  { s with mem := fun a => if a ∈ l then none else s.mem a, freed := l ++ s.freed }

variable {s : Bus} {v : View}

theorem Bus.without_free {a : ℕ} {n : Node} {l : List ℕ} (hn : s.mem a = some n) (ha : a ∉ l) :
    (s.without l).free a = some (s.without (a :: l)) := by
  have hmem : (s.without l).mem a = some n := by simp [Bus.without, ha, hn]
  rw [Bus.free, hmem]
  have hupdate : Function.update (s.without l).mem a none = (s.without (a :: l)).mem := by
    funext b
    by_cases hb : b = a
    · simp [hb, Bus.without]
    · simp [hb, Bus.without]
  rw [hupdate]
  rfl

/-- **The recursion** frees the nodes below the siblings, each once. -/
theorem freeSiblings_spec (h : Shape s v) {k : ℕ} {p : ℕ} {q : Option ℕ} {ks : List (ℕ × Name)} {d : List ℕ}
    (hsub : ks.Sublist (v.kids p)) (hq : Chain (cells s.mem) q ks) (hk : ∀ x ∈ ks, s.fresh ≤ k + x.1)
    (hd : ∀ x ∈ ks, ∀ c, v.Below x.1 c → c ∉ d) :
    ∃ l, Bus.freeSiblings k q (s.without d) = some (s.without (l ++ d)) ∧ l.Nodup ∧
      ∀ c, c ∈ l ↔ ∃ x ∈ ks, v.Below x.1 c := by
  induction k generalizing p q ks d with
  | zero =>
      cases ks with
      | nil =>
          have hnone : q = none := hq
          subst hnone
          exact ⟨[], rfl, List.nodup_nil, by simp⟩
      | cons x ks =>
          have hlt := h.kid_lt_fresh (hsub.subset (List.mem_cons_self (l := ks)))
          have := hk x (by simp)
          omega
  | succ k ih =>
      cases ks with
      | nil =>
          have hnone : q = none := hq
          subst hnone
          exact ⟨[], rfl, List.nodup_nil, by simp⟩
      | cons x ks =>
          obtain ⟨b, nmb⟩ := x
          obtain ⟨rfl, nx, hcell, hrest⟩ := hq
          obtain ⟨nb, hnb, he⟩ := Option.map_eq_some_iff.mp hcell
          cases he
          have hbp : (b, nb.name) ∈ v.kids p := hsub.subset (by simp)
          have hlb : v.Linked b := .inr ⟨p, nb.name, hbp⟩
          have hbd : ∀ c, v.Below b c → c ∉ d := hd (b, nb.name) (by simp)
          have hmem : (s.without d).mem b = some nb := by simp [Bus.without, hbd b .refl, hnb]
          have hkb := hk (b, nb.name) (by simp)
          -- the children go first
          have hchildren : ∃ l₁, (if nb.reference then some (s.without d) else
              Bus.freeSiblings k nb.child (s.without d)) = some (s.without (l₁ ++ d)) ∧ l₁.Nodup ∧
              ∀ c, c ∈ l₁ ↔ ∃ x ∈ v.kids b, v.Below x.1 c := by
            cases hr : nb.reference with
            | true =>
                have hnil : v.kids b = [] := by
                  by_contra hne
                  obtain ⟨n', hn', hr'⟩ := h.holder b hne
                  rw [hnb] at hn'
                  cases hn'
                  rw [hr] at hr'
                  cases hr'
                exact ⟨[], rfl, List.nodup_nil, by simp [hnil]⟩
            | false =>
                have hchain := h.chain b nb hnb (.inl hr)
                rw [View.shown, h.owner_of_own hnb hr] at hchain
                refine ih (List.Sublist.refl _) hchain (fun x hx => ?_) fun x hx c hc =>
                  hbd c (.head ⟨x.2, hx⟩ hc)
                have := (h.kid b x hx).1
                simp only at hkb
                omega
          obtain ⟨l₁, hrun₁, hnd₁, hl₁⟩ := hchildren
          have hbl₁ : b ∉ l₁ := by
            intro hb
            obtain ⟨x, hx, hxb⟩ := (hl₁ b).mp hb
            have := h.le_of_below hxb
            have := (h.kid b x hx).1
            omega
          have hfree : (s.without (l₁ ++ d)).free b = some (s.without (b :: (l₁ ++ d))) := by
            refine Bus.without_free hnb fun hb => ?_
            obtain hb | hb := List.mem_append.mp hb
            · exact hbl₁ hb
            · exact hbd b .refl hb
          have hbelow : ∀ c, c ∈ b :: l₁ ↔ v.Below b c := by
            intro c
            rw [List.mem_cons, hl₁, View.below_iff]
          -- then the siblings behind, whose subtrees are still there
          have hsub' : ks.Sublist (v.kids p) := (List.sublist_cons_self _ _).trans hsub
          have hsorted := (h.sorted p).sublist (hsub.map Prod.fst)
          rw [List.map_cons, List.pairwise_cons] at hsorted
          have hlater : ∀ x ∈ ks, b < x.1 := fun x hx => hsorted.1 x.1 (List.mem_map_of_mem hx)
          have hother : ∀ x ∈ ks, ∀ c, v.Below x.1 c → ¬ v.Below b c := by
            intro x hx c hc
            have hxp : (x.1, x.2) ∈ v.kids p := hsub'.subset hx
            exact h.below_disjoint hxp hbp (Nat.ne_of_gt (hlater x hx)) hc
          obtain ⟨l₂, hrun₂, hnd₂, hl₂⟩ := ih (d := b :: l₁ ++ d) hsub' hrest
            (fun x hx => by
              have := hlater x hx
              simp only at hkb
              omega)
            (fun x hx c hc => by
              rw [List.mem_append, hbelow]
              rintro (hbc | hcd)
              · exact hother x hx c hc hbc
              · exact hd x (List.mem_cons_of_mem _ hx) c hc hcd)
          refine ⟨l₂ ++ (b :: l₁), ?_, ?_, ?_⟩
          · simp only [Bus.freeSiblings, hmem, hrun₁, hfree, Option.bind_eq_bind, Option.bind_some]
            rw [List.append_assoc]
            exact hrun₂
          · refine List.nodup_append.mpr ⟨hnd₂, List.nodup_cons.mpr ⟨hbl₁, hnd₁⟩, ?_⟩
            rintro c hc c' hc' rfl
            obtain ⟨x, hx, hxc⟩ := (hl₂ c).mp hc
            exact hother x hx c hxc ((hbelow c).mp hc')
          · intro c
            rw [List.mem_append, hl₂, hbelow]
            simp only [List.mem_cons, exists_eq_or_imp]
            exact or_comm

end Freeing

/-! ### Unlinking -/

section Unlinking

variable {s : Bus} {v : View}

/-- The sibling before `x` is relinked. -/
theorem unlinkFrom_spec {x u : ℕ} (nx : Option ℕ) {q : Option ℕ} {l : List (ℕ × Name)} {nmu : Name} {k : ℕ}
    (hq : Seg (cells s.mem) q (l ++ [(u, nmu)]) (some x)) (hx : x ∉ (l ++ [(u, nmu)]).map Prod.fst)
    (hk : l.length < k) : ∃ nu, s.mem u = some nu ∧
      Bus.unlinkFrom x nx k q s = some (s.write u { nu with nextSibling := nx }) := by
  induction l generalizing q k with
  | nil =>
      obtain ⟨rfl, n₁, hcell, hnext⟩ := hq
      obtain ⟨nu, hnu, he⟩ := Option.map_eq_some_iff.mp hcell
      cases he
      obtain ⟨k, rfl⟩ : ∃ j, k = j + 1 := ⟨k - 1, by omega⟩
      have hnext' : nu.nextSibling = some x := hnext
      exact ⟨nu, hnu, by simp [Bus.unlinkFrom, hnu, hnext']⟩
  | cons y l ih =>
      obtain ⟨c, nmc⟩ := y
      obtain ⟨rfl, n₁, hcell, hrest⟩ := hq
      change Seg (cells s.mem) n₁ (l ++ [(u, nmu)]) (some x) at hrest
      obtain ⟨nc, hnc, he⟩ := Option.map_eq_some_iff.mp hcell
      cases he
      obtain ⟨k, rfl⟩ : ∃ j, k = j + 1 := ⟨k - 1, by rw [List.length_cons] at hk; omega⟩
      have hx' : x ∉ (l ++ [(u, nmu)]).map Prod.fst := fun hm => hx (List.mem_cons_of_mem _ hm)
      obtain ⟨nu, hnu, hrun⟩ := ih hrest hx' (by simpa using hk)
      have hne : nc.nextSibling ≠ some x := by
        intro e
        cases hl : l ++ [(u, nmu)] with
        | nil =>
            simp at hl
        | cons y l' =>
            rw [hl] at hrest hx'
            rw [e] at hrest
            exact hx' (by simp [Option.some.inj hrest.1])
      exact ⟨nu, hnu, by simpa [Bus.unlinkFrom, hnc, hne] using hrun⟩

/-- Where a node was taken out of its siblings: its parent, or the sibling before it, has changed. -/
inductive Unlinked (s : Bus) (v : View) (x : ℕ) (next : Option ℕ) : ℕ → Node → Prop
  | first {p : ℕ} {nm : Name} {l : List (ℕ × Name)} {np : Node} : v.kids p = (x, nm) :: l → s.mem p = some np →
      Unlinked s v x next p { np with child := next }
  | behind {p u : ℕ} {nm nmu : Name} {l₁ l₂ : List (ℕ × Name)} {nu : Node} :
      v.kids p = l₁ ++ (u, nmu) :: (x, nm) :: l₂ → s.mem u = some nu → Unlinked s v x next u { nu with nextSibling := next }

/-- A child is unlinked while the nodes `d`, among them no node that is not below it, are gone. -/
theorem unlink_spec (h : Shape s v) {p x : ℕ} {nm : Name} {n : Node} (hx : (x, nm) ∈ v.kids p) (hn : s.mem x = some n)
    {d : List ℕ} (hd : ∀ c ∈ d, v.Below x c) (hxd : x ∉ d) : ∃ u nu, Unlinked s v x n.nextSibling u nu ∧
      (s.without d).unlink x = some ((s.without d).write u nu) ∧ ¬ v.Below x u := by
  have hkeep : ∀ a, ¬ v.Below x a → (s.without d).mem a = s.mem a := by
    intro a ha
    have had : a ∉ d := fun hm => ha (hd a hm)
    simp [Bus.without, had]
  have hpx : p < x := (h.kid p _ hx).1
  have hpb : ¬ v.Below x p := fun hb => by
    have := h.le_of_below hb
    omega
  obtain ⟨np, hnp, hr⟩ := h.holder p (List.ne_nil_of_mem hx)
  have hchain := h.chain p np hnp (.inl hr)
  rw [View.shown, h.owner_of_own hnp hr] at hchain
  have hparent := h.parent_eq hx hn
  have hnd := h.kids_nodup p
  have hmemx : (s.without d).mem x = some n := by simp [Bus.without, hxd, hn]
  have hmemp : (s.without d).mem p = some np := by rw [hkeep p hpb, hnp]
  have hsib : ∀ y nmy, (y, nmy) ∈ v.kids p → y ≠ x → ¬ v.Below x y := fun y nmy hy hyx hb =>
    h.below_disjoint hy hx hyx .refl hb
  obtain ⟨la, lb, hl⟩ := List.append_of_mem hx
  cases hla : la.getLast? with
  | none =>
      have hnil := List.getLast?_eq_none_iff.mp hla
      subst hnil
      have hchild : np.child = some x := by
        rw [hl] at hchain
        exact hchain.1
      refine ⟨p, _, .first hl hnp, ?_, hpb⟩
      simp [Bus.unlink, hmemx, hparent, hmemp, hchild]
  | some y =>
      obtain ⟨u, nmu⟩ := y
      obtain ⟨l₁, rfl⟩ := List.getLast?_eq_some_iff.mp hla
      rw [hl] at hnd
      rw [List.map_append, List.nodup_append] at hnd
      have hux : x ∉ (l₁ ++ [(u, nmu)]).map Prod.fst := fun hm => hnd.2.2 x hm x (by simp) rfl
      have huk : (u, nmu) ∈ v.kids p := by simp [hl]
      have hune : u ≠ x := fun e => hux (by simp [e])
      have hub := hsib u nmu huk hune
      rw [hl] at hchain
      obtain ⟨r, hseg, hrx, -⟩ := seg_append.mp hchain
      subst hrx
      have hseg' : Seg (cells (s.without d).mem) np.child (l₁ ++ [(u, nmu)]) (some x) := by
        refine (seg_frame fun y hy => ?_).mpr hseg
        have hyk : y ∈ v.kids p := by
          rw [hl]
          exact List.mem_append_left _ hy
        have hyx : y.1 ≠ x := fun e => hux (e ▸ List.mem_map_of_mem hy)
        simp only [cells]
        rw [hkeep y.1 (hsib y.1 y.2 hyk hyx)]
      have hlen : l₁.length < (s.without d).fresh + 1 := by
        have := h.length_kids_le p
        simp only [hl, List.length_append, List.length_cons, Bus.without] at this ⊢
        omega
      obtain ⟨nu, hnu, hrun⟩ := unlinkFrom_spec n.nextSibling hseg' hux hlen
      have hchild : np.child ≠ some x := by
        intro e
        rw [e] at hseg
        cases l₁ with
        | nil =>
            exact hune (Option.some.inj hseg.1).symm
        | cons z l₁ =>
            exact hux (by simp [Option.some.inj hseg.1])
      have hsplit : v.kids p = l₁ ++ (u, nmu) :: (x, nm) :: lb := by
        rw [hl]
        simp
      have hnu' : s.mem u = some nu := by rw [← hkeep u hub, hnu]
      refine ⟨u, _, .behind hsplit hnu', ?_, hub⟩
      simp only [Bus.unlink, hmemx, hparent, hmemp, hchild, if_false, Option.bind_eq_bind, Option.bind_some]
      exact hrun

end Unlinking

/-! ### The tree without a subtree -/

section Removed

open Classical in
/-- The view without `x` and the nodes below it. -/
noncomputable def View.remove (v : View) (x : ℕ) : View where
  kids := fun a => if v.Below x a then [] else (v.kids a).filter fun c => c.1 ≠ x
  owner := fun a => if v.Below x a then a else v.owner a

/-- No row has `x` as the first child it shows. -/
def View.NotFirst (v : View) (s : Bus) (x : ℕ) : Prop :=
  ∀ r nr, v.Linked r → s.mem r = some nr → nr.reference = true → nr.child ≠ some x

/-- The memory `s'` has lost the nodes below `x` and has the node `nu` at `u`. -/
structure Removed (s : Bus) (v : View) (x u : ℕ) (nu : Node) (s' : Bus) : Prop where
  fresh : s'.fresh = s.fresh
  gone : ∀ a, v.Below x a → s'.mem a = none
  changed : s'.mem u = some nu
  kept : ∀ a, ¬ v.Below x a → a ≠ u → s'.mem a = s.mem a

variable {s s' : Bus} {v : View} {p x u : ℕ} {nm : Name} {n nu : Node}

theorem View.mem_remove {a : ℕ} {c : ℕ × Name} :
    c ∈ (v.remove x).kids a ↔ ¬ v.Below x a ∧ c ∈ v.kids a ∧ c.1 ≠ x := by
  unfold View.remove
  by_cases ha : v.Below x a
  · simp [ha]
  · simp [ha]

theorem View.remove_kids {a : ℕ} (ha : ¬ v.Below x a) (hx : ∀ c ∈ v.kids a, c.1 ≠ x) :
    (v.remove x).kids a = v.kids a := by
  simp only [View.remove, ha, if_false, List.filter_eq_self]
  exact fun c hc => by simpa using hx c hc

theorem View.remove_owner {a : ℕ} (ha : ¬ v.Below x a) : (v.remove x).owner a = v.owner a := by
  simp [View.remove, ha]

theorem Shape.not_below_of_kid (h : Shape s v) {a c : ℕ} {nmc : Name} (hc : (c, nmc) ∈ v.kids a)
    (ha : ¬ v.Below x a) (hne : c ≠ x) : ¬ v.Below x c :=
  fun hb => ha (h.below_parent hb hne hc)

theorem Unlinked.kin {nx : Option ℕ} (hu : Unlinked s v x nx u nu) :
    ∃ n₀, s.mem u = some n₀ ∧ nu.kin = n₀.kin := by
  cases hu with
  | first _ hnp =>
      exact ⟨_, hnp, rfl⟩
  | behind _ hnu =>
      exact ⟨_, hnu, rfl⟩

/-- The owner of children that a node outside shows is outside. -/
theorem Shape.owner_not_below (h : Shape s v) (halone : ∀ r, v.owner r = x → r = x) {a : ℕ} (ha : ¬ v.Below x a) :
    ¬ v.Below x (v.owner a) := by
  obtain he | ⟨-, -, q, nm₁, nm₂, hq, ho⟩ := h.owner a
  · rwa [he]
  · intro hb
    by_cases hx : v.owner a = x
    · exact ha (halone a hx ▸ .refl)
    · have hqb := h.below_parent hb hx ho
      exact ha (.tail hqb ⟨nm₁, hq⟩)

theorem Removed.lives (hr : Removed s v x u nu s') (hu : Unlinked s v x n.nextSibling u nu) {a : ℕ} {na' : Node}
    (ha : s'.mem a = some na') :
    ¬ v.Below x a ∧ ∃ na, s.mem a = some na ∧ na.kin = na'.kin ∧ (a ≠ u → na = na') := by
  have hb : ¬ v.Below x a := by
    intro hb
    rw [hr.gone a hb] at ha
    cases ha
  refine ⟨hb, ?_⟩
  by_cases hau : a = u
  · subst hau
    obtain ⟨n₀, hn₀, hkin⟩ := hu.kin
    rw [hr.changed] at ha
    cases ha
    exact ⟨n₀, hn₀, hkin.symm, fun hne => absurd rfl hne⟩
  · rw [hr.kept a hb hau] at ha
    exact ⟨na', ha, rfl, fun _ => rfl⟩

theorem Removed.survives (hr : Removed s v x u nu s') (hu : Unlinked s v x n.nextSibling u nu) {a : ℕ} {na : Node}
    (hna : s.mem a = some na) (ha : ¬ v.Below x a) : ∃ na', s'.mem a = some na' ∧ na'.kin = na.kin := by
  by_cases hau : a = u
  · subst hau
    obtain ⟨n₀, hn₀, hkin⟩ := hu.kin
    rw [hna] at hn₀
    cases hn₀
    exact ⟨nu, hr.changed, hkin⟩
  · exact ⟨na, by rw [hr.kept a ha hau, hna], rfl⟩

/-- Sibling lists that lack the changed cell are as before. -/
theorem Removed.seg_iff (hr : Removed s v x u nu s') {l : List (ℕ × Name)} {q q' : Option ℕ}
    (hl : ∀ c ∈ l, ¬ v.Below x c.1 ∧ c.1 ≠ u) : Seg (cells s'.mem) q l q' ↔ Seg (cells s.mem) q l q' := by
  refine seg_frame fun c hc => ?_
  obtain ⟨hb, hu⟩ := hl c hc
  simp only [cells]
  rw [hr.kept c.1 hb hu]

/-- The sibling lists after the removal. -/
theorem Removed.chain (hr : Removed s v x u nu s') (h : Shape s v) (hx : (x, nm) ∈ v.kids p) (hn : s.mem x = some n)
    (hu : Unlinked s v x n.nextSibling u nu) (hfirst : v.NotFirst s x)
    (halone : ∀ r, v.owner r = x → r = x) {a : ℕ} {na na' : Node} (hna : s.mem a = some na) (hna' : s'.mem a = some na')
    (hl : na.reference = false ∨ v.Linked a) : Chain (cells s'.mem) na'.child ((v.remove x).shown a) := by
  obtain ⟨ha, -⟩ := hr.lives hu hna'
  have hold := h.chain a na hna hl
  have ho := h.owner_not_below halone ha
  rw [View.shown, View.remove_owner ha]
  rw [View.shown] at hold
  have hkb : ∀ c ∈ v.kids (v.owner a), c.1 ≠ x → ¬ v.Below x c.1 := fun c hc => h.not_below_of_kid hc ho
  have hpu : ∀ {q : ℕ} (nm' : Name), (x, nm') ∈ v.kids q → q = p := fun _ hq => h.parent_unique hq hx
  have hxo : v.owner a ≠ p → ∀ c ∈ v.kids (v.owner a), c.1 ≠ x := by
    intro hne c hc e
    exact hne (hpu c.2 (e ▸ hc))
  cases hu with
  | @first p' nm' l np hl' hnp =>
      have hpp : u = p := hpu nm' (by rw [hl']; simp)
      subst hpp
      have hcu : cells s'.mem u = cells s.mem u := by
        rw [cells_eq hr.changed, cells_eq hnp]
      have hframe : ∀ {l : List (ℕ × Name)} {q q' : Option ℕ}, (∀ c ∈ l, ¬ v.Below x c.1) →
          Seg (cells s.mem) q l q' → Seg (cells s'.mem) q l q' := by
        intro l q q' hb hseg
        refine (seg_frame fun c hc => ?_).mpr hseg
        by_cases hcu' : c.1 = u
        · rw [hcu', hcu]
        · simp only [cells]
          rw [hr.kept c.1 (hb c hc) hcu']
      by_cases hou : v.owner a = u
      · -- only the parent shows the children, or `x` would be another row's first child
        have hau : a = u := by
          obtain he | ⟨-, ⟨n₁, hn₁, href⟩, -⟩ := h.owner a
          · exact he.symm.trans hou
          · rw [hna] at hn₁
            cases hn₁
            rw [hou, hl'] at hold
            obtain hown | hla := hl
            · rw [href] at hown
              cases hown
            · exact absurd hold.1 (hfirst a na hla hna href)
        subst hau
        rw [hr.changed] at hna'
        cases hna'
        have hnd := h.kids_nodup a
        rw [hou] at hold hkb ho ⊢
        rw [hl'] at hold hnd
        obtain ⟨-, nx, hcell, hrest⟩ := hold
        rw [cells_eq hn] at hcell
        cases hcell
        rw [List.map_cons, List.nodup_cons] at hnd
        have hlx : ∀ c ∈ l, c.1 ≠ x := fun c hc e => hnd.1 (List.mem_map.mpr ⟨c, hc, e⟩)
        have hkids : (v.remove x).kids a = l := by
          simp only [View.remove, ho, if_false, hl']
          rw [List.filter_cons_of_neg (by simp), List.filter_eq_self]
          exact fun c hc => by simpa using hlx c hc
        rw [hkids]
        exact hframe (fun c hc => hkb c (by rw [hl']; simp [hc]) (hlx c hc)) hrest
      · have hau : a ≠ u := by
          intro e
          subst e
          exact hou (h.owner_of_kids (by rw [hl']; simp))
        rw [hr.kept a ha hau, hna] at hna'
        cases hna'
        rw [View.remove_kids ho (hxo hou)]
        exact hframe (fun c hc => hkb c hc (hxo hou c hc)) hold
  | @behind p' u nm' nmu l₁ l₂ nu₀ hl' hnu =>
      have hpp : p' = p := hpu nm' (by rw [hl']; simp)
      subst hpp
      have huk : (u, nmu) ∈ v.kids p' := by rw [hl']; simp
      have hchild : na'.child = na.child := by
        by_cases hau : a = u
        · subst hau
          rw [hr.changed] at hna'
          rw [hnu] at hna
          cases hna
          cases hna'
          rfl
        · rw [hr.kept a ha hau, hna] at hna'
          cases hna'
          rfl
      rw [hchild]
      by_cases hop : v.owner a = p'
      · rw [hop] at hold hkb ho ⊢
        have hnd := h.kids_nodup p'
        rw [hl'] at hold hnd
        rw [List.map_append, List.map_cons, List.map_cons, List.nodup_append, List.nodup_cons, List.nodup_cons] at hnd
        obtain ⟨-, ⟨hu₁, hx₂, -⟩, hdisj⟩ := hnd
        rw [List.mem_cons, not_or] at hu₁
        have hl₁ : ∀ c ∈ l₁, c.1 ≠ x ∧ c.1 ≠ u := fun c hc =>
          ⟨hdisj c.1 (List.mem_map_of_mem hc) x (by simp), hdisj c.1 (List.mem_map_of_mem hc) u (by simp)⟩
        have hl₂ : ∀ c ∈ l₂, c.1 ≠ x ∧ c.1 ≠ u := fun c hc =>
          ⟨fun e => hx₂ (List.mem_map.mpr ⟨c, hc, e⟩), fun e => hu₁.2 (List.mem_map.mpr ⟨c, hc, e⟩)⟩
        have hkids : (v.remove x).kids p' = l₁ ++ (u, nmu) :: l₂ := by
          simp only [View.remove, ho, if_false, hl']
          rw [List.filter_append, List.filter_cons_of_pos (by simpa using hu₁.1), List.filter_cons_of_neg (by simp),
            List.filter_eq_self.mpr fun c hc => by simpa using (hl₁ c hc).1,
            List.filter_eq_self.mpr fun c hc => by simpa using (hl₂ c hc).1]
        rw [hkids]
        obtain ⟨r, hseg₁, rfl, nx, hcell, hrest⟩ := seg_append.mp hold
        rw [cells_eq hnu] at hcell
        cases hcell
        obtain ⟨hux, nx', hcellx, hrest⟩ := hrest
        rw [cells_eq hn] at hcellx
        cases hcellx
        refine seg_append.mpr ⟨some u, (hr.seg_iff fun c hc => ?_).mpr hseg₁, rfl, n.nextSibling, ?_,
          (hr.seg_iff fun c hc => ?_).mpr hrest⟩
        · exact ⟨hkb c (by rw [hl']; simp [hc]) (hl₁ c hc).1, (hl₁ c hc).2⟩
        · rw [cells_eq hr.changed]
        · exact ⟨hkb c (by rw [hl']; simp [hc]) (hl₂ c hc).1, (hl₂ c hc).2⟩
      · rw [View.remove_kids ho (hxo hop)]
        refine (hr.seg_iff fun c hc => ⟨hkb c hc (hxo hop c hc), ?_⟩).mpr hold
        intro e
        have hcu : (u, c.2) ∈ v.kids (v.owner a) := e ▸ hc
        exact hop (h.parent_unique hcu huk)

/-- **The shape** of the tree without `x` and the nodes below it. -/
theorem Removed.shape (hr : Removed s v x u nu s') (h : Shape s v) (hx : (x, nm) ∈ v.kids p) (hn : s.mem x = some n)
    (hu : Unlinked s v x n.nextSibling u nu) (hfirst : v.NotFirst s x)
    (halone : ∀ r, v.owner r = x → r = x) : Shape s' (v.remove x) := by
  have hx0 : ¬ v.Below x 0 := by
    intro hb
    have := h.le_of_below hb
    have := (h.kid p _ hx).1
    omega
  constructor
  · obtain ⟨n₀, hn₀, hp, hnext, href⟩ := h.root
    obtain ⟨n', hn', hkin⟩ := hr.survives hu hn₀ hx0
    simp only [Node.kin, Prod.mk.injEq] at hkin
    refine ⟨n', hn', hkin.1 ▸ hp, ?_, hkin.2.1 ▸ href⟩
    by_cases h0 : 0 = u
    · subst h0
      rw [hr.changed] at hn'
      cases hn'
      cases hu with
      | first _ hnp =>
          rw [hn₀] at hnp
          cases hnp
          exact hnext
      | @behind p' _ _ nmu l₁ l₂ nu₀ hl' hnu =>
          have huk : (0, nmu) ∈ v.kids p' := by rw [hl']; simp
          exact absurd (h.kid p' _ huk).1 (Nat.not_lt_zero _)
    · rw [hr.kept 0 hx0 h0, hn₀] at hn'
      cases hn'
      exact hnext
  · intro a na' hna'
    obtain ⟨-, na, hna, -⟩ := hr.lives hu hna'
    exact hr.fresh ▸ h.bound a na hna
  · intro a ha
    obtain ⟨c, hc⟩ := List.exists_mem_of_ne_nil _ ha
    obtain ⟨hb, hc, -⟩ := View.mem_remove.mp hc
    obtain ⟨na, hna, href⟩ := h.holder a (List.ne_nil_of_mem hc)
    obtain ⟨na', hna', hkin⟩ := hr.survives hu hna hb
    simp only [Node.kin, Prod.mk.injEq] at hkin
    exact ⟨na', hna', hkin.2.1 ▸ href⟩
  · intro a c hc
    obtain ⟨hb, hc, hcx⟩ := View.mem_remove.mp hc
    obtain ⟨hlt, nc, hnc, hp⟩ := h.kid a c hc
    have hcb : ¬ v.Below x c.1 := h.not_below_of_kid hc hb hcx
    obtain ⟨nc', hnc', hkin⟩ := hr.survives hu hnc hcb
    simp only [Node.kin, Prod.mk.injEq] at hkin
    exact ⟨hlt, nc', hnc', hkin.1 ▸ hp⟩
  · intro a
    by_cases ha : v.Below x a
    · simp [View.remove, ha]
    · simp only [View.remove, ha, if_false]
      exact (h.sorted a).sublist (List.filter_sublist.map _)
  · intro a na' hna' hl
    obtain ⟨-, na, hna, hkin, -⟩ := hr.lives hu hna'
    simp only [Node.kin, Prod.mk.injEq] at hkin
    refine hr.chain h hx hn hu hfirst halone hna hna' ?_
    obtain hl | (rfl | ⟨q, nmq, hq⟩) := hl
    · exact .inl (hkin.2.1 ▸ hl)
    · exact .inr (.inl rfl)
    · exact .inr (.inr ⟨q, nmq, (View.mem_remove.mp hq).2.1⟩)
  · intro a
    by_cases ha : v.Below x a
    · exact .inl (by simp [View.remove, ha])
    · rw [View.shown, View.remove_owner ha]
      obtain he | ⟨hne, ⟨na, hna, href⟩, q, nm₁, nm₂, hq, ho⟩ := h.owner a
      · exact .inl he
      · have hob := h.owner_not_below halone ha
        have hax : a ≠ x := fun e => ha (e ▸ .refl)
        have hox : v.owner a ≠ x := fun e => hob (e ▸ .refl)
        have hqb : ¬ v.Below x q := fun hb => ha (.tail hb ⟨nm₁, hq⟩)
        obtain ⟨na', hna', hkin⟩ := hr.survives hu hna ha
        simp only [Node.kin, Prod.mk.injEq] at hkin
        refine .inr ⟨?_, ⟨na', hna', hkin.2.1 ▸ href⟩, q, nm₁, nm₂, ?_, ?_⟩
        · -- the first child stays, as the row shows it
          obtain ⟨c, l, hl⟩ := List.exists_cons_of_ne_nil hne
          have hold := h.chain_of_linked (.inr ⟨q, nm₁, hq⟩) hna
          rw [hl] at hold
          have hcx : c.1 ≠ x := fun e =>
            hfirst a na (.inr ⟨q, nm₁, hq⟩) hna href (hold.1.trans (congrArg some e))
          refine List.ne_nil_of_mem (View.mem_remove.mpr ⟨hob, ?_, hcx⟩)
          rw [← View.shown, hl]
          simp
        · exact View.mem_remove.mpr ⟨hqb, hq, hax⟩
        · exact View.mem_remove.mpr ⟨hqb, ho, hox⟩
  · intro a na' hna' hname
    obtain ⟨-, na, hna, hkin, -⟩ := hr.lives hu hna'
    simp only [Node.kin, Prod.mk.injEq] at hkin
    rw [← hkin.2.1]
    exact h.template_owns a na hna (hkin.2.2 ▸ hname)

theorem Removed.owned (hr : Removed s v x u nu s') (hu : Unlinked s v x n.nextSibling u nu) (ho : Owned s v) :
    Owned s' (v.remove x) := by
  intro a na' hna'
  obtain ⟨hb, na, hna, -⟩ := hr.lives hu hna'
  obtain rfl | ⟨q, nmq, hq⟩ := ho a na hna
  · exact .inl rfl
  · have hax : a ≠ x := fun e => hb (e ▸ .refl)
    have hqb : ¬ v.Below x q := fun hqb => hb (.tail hqb ⟨nmq, hq⟩)
    exact .inr ⟨q, nmq, View.mem_remove.mpr ⟨hqb, hq, hax⟩⟩

end Removed

/-! ### Removing a node -/

section Traversal

variable {s : Bus} {v : View}

/-- No row shares the children of the node, nor has it as the first child. -/
def Bus.frees (s : Bus) (x : ℕ) : Bool :=
  !s.sharedAt (some x) && (s.mem x).all fun n => n.reference || !s.sharedAt n.child

theorem Shape.alone_of_frees (h : Shape s v) {x : ℕ} {n : Node} (hn : s.mem x = some n) (hf : s.frees x = true)
    (r : ℕ) (hr : v.owner r = x) : r = x := by
  by_cases href : n.reference = true
  · obtain he | ⟨hne, -⟩ := h.owner r
    · exact he.symm.trans hr
    · obtain ⟨n', hn', hown⟩ := h.holder _ hne
      rw [hr, hn] at hn'
      cases hn'
      rw [href] at hown
      cases hown
  · have hown : n.reference = false := by simpa using href
    simp only [Bus.frees, hn, Option.all_some, Bool.and_eq_true, hown, Bool.false_or, Bool.not_eq_true'] at hf
    exact h.alone hn hown hf.2 r hr

theorem Shape.notFirst_of_frees (h : Shape s v) {x : ℕ} (hf : s.frees x = true) : v.NotFirst s x := by
  intro r nr _ hnr href hchild
  simp only [Bus.frees, Bool.and_eq_true, Bool.not_eq_true'] at hf
  have hall : s.sharedAt (some x) = true := by
    simp only [Bus.sharedAt, ne_eq, reduceCtorEq, not_false_eq_true, decide_true, Bool.true_and,
      List.any_eq_true, List.mem_range]
    exact ⟨r, h.bound r nr hnr, by simp [hnr, href, hchild]⟩
  rw [hall] at hf
  cases hf.1

theorem Bus.without_nil (s : Bus) : s.without [] = s := by
  simp [Bus.without]

/-- The nodes below a node are freed before it. -/
theorem freeBelow_spec (h : Shape s v) {x : ℕ} {n : Node} (hn : s.mem x = some n) :
    ∃ l, (if n.reference then some s else Bus.freeSiblings s.fresh n.child s : Option Bus) = some (s.without l) ∧
      (x :: l).Nodup ∧ ∀ c, c ∈ x :: l ↔ v.Below x c := by
  have hchildren : ∃ l, (if n.reference then some s else Bus.freeSiblings s.fresh n.child s : Option Bus) =
      some (s.without l) ∧ l.Nodup ∧ ∀ c, c ∈ l ↔ ∃ y ∈ v.kids x, v.Below y.1 c := by
    cases hr : n.reference with
    | true =>
        have hnil : v.kids x = [] := by
          by_contra hne
          obtain ⟨n', hn', hr'⟩ := h.holder x hne
          rw [hn] at hn'
          cases hn'
          rw [hr] at hr'
          cases hr'
        exact ⟨[], by simp [s.without_nil], List.nodup_nil, by simp [hnil]⟩
    | false =>
        have hchain := h.chain x n hn (.inl hr)
        rw [View.shown, h.owner_of_own hn hr] at hchain
        obtain ⟨l, hrun, hnd, hl⟩ := freeSiblings_spec h (k := s.fresh) (d := []) (List.Sublist.refl _) hchain
          (fun y _ => Nat.le_add_right _ _) (by simp)
        rw [s.without_nil, List.append_nil] at hrun
        exact ⟨l, by simpa using hrun, hnd, hl⟩
  obtain ⟨l, hrun, hnd, hl⟩ := hchildren
  refine ⟨l, hrun, List.nodup_cons.mpr ⟨fun hx => ?_, hnd⟩, fun c => ?_⟩
  · obtain ⟨y, hy, hyx⟩ := (hl x).mp hx
    have := h.le_of_below hyx
    have := (h.kid x y hy).1
    omega
  · rw [List.mem_cons, hl, View.below_iff]

/-- **The removal** of a node frees it and the nodes below it. -/
theorem elemTraversal_spec (h : Shape s v) {p x : ℕ} {nm : Name} (hx : (x, nm) ∈ v.kids p) (hfirst : v.NotFirst s x)
    (halone : ∀ r, v.owner r = x → r = x) :
    ∃ s' u nu n, s.elemTraversal x = some s' ∧ s.mem x = some n ∧ Removed s v x u nu s' ∧
      Unlinked s v x n.nextSibling u nu ∧ Shape s' (v.remove x) := by
  obtain ⟨n, hn⟩ := h.alive_of_linked (.inr ⟨p, nm, hx⟩)
  obtain ⟨l, hrun, hnd, hl⟩ := freeBelow_spec h hn
  rw [List.nodup_cons] at hnd
  have hlx : ∀ c ∈ l, v.Below x c := fun c hc => (hl c).mp (List.mem_cons_of_mem _ hc)
  obtain ⟨u, nu, hu, hunlink, hub⟩ := unlink_spec h hx hn hlx hnd.1
  have hxu : x ≠ u := fun e => hub (e ▸ .refl)
  have hmem : ((s.without l).write u nu).mem x = some n := by
    simp [Bus.write, Bus.without, hxu, hnd.1, hn]
  have hr : Removed s v x u nu { (s.without l).write u nu with
      mem := Function.update ((s.without l).write u nu).mem x none, freed := x :: ((s.without l).write u nu).freed } := by
    refine ⟨rfl, fun a ha => ?_, ?_, fun a ha hau => ?_⟩
    · have hau : a ≠ u := fun e => hub (e ▸ ha)
      obtain rfl | hal := List.mem_cons.mp ((hl a).mpr ha)
      · simp
      · by_cases hax : a = x
        · simp [hax]
        · simp [Bus.write, Bus.without, hax, hau, hal]
    · simp [Bus.write, Ne.symm hxu]
    · have hax : a ≠ x := fun e => ha (e ▸ .refl)
      have hal : a ∉ l := fun hm => ha (hlx a hm)
      simp [Bus.write, Bus.without, hax, hau, hal]
  refine ⟨_, u, nu, n, ?_, hn, hr, hu, hr.shape h hx hn hu hfirst halone⟩
  simp only [Bus.elemTraversal, hn, hrun, hunlink, Option.bind_eq_bind, Option.bind_some]
  rw [Bus.free, hmem]

end Traversal

end OneWifiTestSuite.BusTree
