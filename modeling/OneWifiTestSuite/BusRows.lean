import OneWifiTestSuite.BusOwnership

/-!
# Rows of a table

A new row resolves below it what the row template resolves, every other name resolves as before, and
removing the row restores all (`actsAsRow_of_run`). A table below a template is one table for all rows of
the outer table, so a row added under one of them is there under the others (`not_isolated_nested`).
-/

namespace OneWifiTestSuite.BusTree

open Cells Runs

/-! ### Names of rows -/

section Names

theorem tokens_append (x y : Name) : tokens (x ++ '.' :: y) = tokens x ++ tokens y := by
  unfold tokens List.splitOn
  rw [List.splitOnP_append_cons x y (by simp), List.filter_append]

theorem tokens_word {w : Name} (hne : w ≠ []) (hdot : '.' ∉ w) : tokens w = [w] := by
  unfold tokens List.splitOn
  rw [List.splitOnP_eq_singleton]
  · simp [hne]
  · intro c hc
    simpa using fun e : c = '.' => hdot (e ▸ hc)

/-- The name of a row: its index as the unsigned number that it is. -/
def indexName (i : BitVec 32) : Name :=
  Nat.toDigits 10 i.toNat

theorem isDigit_of_mem_indexName {i : BitVec 32} {c : Char} (hc : c ∈ indexName i) : c.isDigit = true :=
  Nat.isDigit_of_mem_toDigits (by decide) (by decide) hc

theorem indexName_ne_nil (i : BitVec 32) : indexName i ≠ [] :=
  Nat.toDigits_ne_nil

theorem indexName_ne_star (i : BitVec 32) : indexName i ≠ ['*'] := by
  intro e
  have hc : '*' ∈ indexName i := by simp [e]
  have := isDigit_of_mem_indexName hc
  simp at this

theorem tokens_indexName (i : BitVec 32) : tokens (indexName i) = [indexName i] := by
  refine tokens_word (indexName_ne_nil i) fun hc => ?_
  have := isDigit_of_mem_indexName hc
  simp at this

theorem tokens_template : tokens template = [template] := by
  decide

/-- Seven characters hold every index below ten millions. -/
theorem printIndex_eq {i : BitVec 32} (hi : i.toNat < 10 ^ 7) : printIndex i = indexName i := by
  have hint : i.toInt = i.toNat := by
    rw [BitVec.toInt_eq_toNat_of_lt]
    omega
  have hlen : (Nat.toDigits 10 i.toNat).length ≤ 7 := Nat.toDigits_length 10 _ 7 (by decide) hi
  rw [printIndex, decimal, hint, if_neg (by omega), Int.natAbs_natCast, indexName]
  exact List.take_of_length_le hlen

end Names

/-! ### Walks -/

section Walks

variable {s s' : Bus} {v v' : View} {a : ℕ} {nm : Name}

/-- Without a `"*"`, a walk is a walk along its first part and then along the rest. -/
theorem View.descend_append {type : ℕ → Option ElemType} {xs : List Name} (hxs : ['*'] ∉ xs) (b : ℕ) (ys : List Name) :
    v.descend type false b (xs ++ ys) = (v.descend type false b xs).bind fun c => v.descend type false c ys := by
  induction xs generalizing b with
  | nil =>
      rfl
  | cons x xs ih =>
      rw [List.mem_cons, not_or] at hxs
      have hread : (if type (v.owner b) = some .table then readWild false x else (x, false)) = (x, false) := by
        have hx : x ≠ ['*'] := fun e => hxs.1 e.symm
        simp [readWild, hx]
      simp only [List.cons_append, View.descend, hread]
      cases named (v.shown b) x with
      | none =>
          rfl
      | some c =>
          exact ih hxs.2 c

theorem View.descend_cons {type : ℕ → Option ElemType} {x : Name} (hx : x ≠ ['*']) (b : ℕ) (ys : List Name) :
    v.descend type false b (x :: ys) = (named (v.shown b) x).bind fun c => v.descend type false c ys := by
  simp [View.descend, readWild, hx]

theorem RowAdded.typeOf (hr : RowAdded s v a nm s' v') {x : ℕ} (hx : x ≠ s.fresh) : s'.typeOf x = s.typeOf x := by
  obtain ⟨l, b, nmb, nb, -, hnb, hb, hkeep⟩ := hr.last
  by_cases hxb : x = b
  · subst hxb
    simp [Bus.typeOf, hb, hnb]
  · simp [Bus.typeOf, hkeep x hxb hx]

theorem RowAdded.shown (hr : RowAdded s v a nm s' v') {x : ℕ} (hx : x ≠ s.fresh) :
    v'.shown x = if v.owner x = v.owner a then v.shown a ++ [(s.fresh, nm)] else v.shown x := by
  rw [View.shown, hr.owner x hx, hr.kids]
  split_ifs with ho
  · rw [ho, View.addKid_kids_self, View.shown]
  · rw [View.addKid_kids_of_ne v _ ho, View.shown]

theorem Shape.ne_fresh (h : Shape s v) {x : ℕ} (hx : v.Linked x) : x ≠ s.fresh := by
  obtain ⟨n, hn⟩ := h.alive_of_linked hx
  exact Nat.ne_of_lt (h.bound x n hn)

/-- A walk ends where it did, unless it goes through the new row. -/
theorem RowAdded.descend (hr : RowAdded s v a nm s' v') (h : Shape s v) (hnm : nm ≠ template) {x : ℕ} (hx : v.Linked x) (wild : Bool) (toks : List Name) :
    v'.descend s'.typeOf wild x toks = v.descend s.typeOf wild x toks ∨
      v.descend s.typeOf wild x toks = none ∧ ∃ pre suf y, toks = pre ++ nm :: suf ∧
        v.descend s.typeOf wild x pre = some y ∧ v.Linked y ∧ v.owner y = v.owner a := by
  induction toks generalizing x wild with
  | nil =>
      exact .inl rfl
  | cons tok toks ih =>
      have hxf := h.ne_fresh hx
      have hof := h.ne_fresh (h.linked_owner hx)
      have htype : s'.typeOf (v'.owner x) = s.typeOf (v.owner x) := by rw [hr.owner x hxf, hr.typeOf hof]
      simp only [View.descend, htype, hr.shown hxf]
      have hread : ∀ r : Name × Bool, r = (if s.typeOf (v.owner x) = some .table then readWild wild tok else (tok, wild)) →
          r.1 = tok ∨ r.1 = template := by
        rintro r rfl
        unfold readWild
        split_ifs <;> simp
      generalize hr' : (if s.typeOf (v.owner x) = some .table then readWild wild tok else (tok, wild)) = r
      have hstep : ∀ c, named (v.shown x) r.1 = some c →
          v'.descend s'.typeOf r.2 c toks = v.descend s.typeOf r.2 c toks ∨
          v.descend s.typeOf r.2 c toks = none ∧ ∃ pre suf y, tok :: toks = pre ++ nm :: suf ∧
            v.descend s.typeOf wild x pre = some y ∧ v.Linked y ∧ v.owner y = v.owner a := by
        intro c hc
        obtain he | ⟨hnone, pre, suf, y, htoks, hpre, hy⟩ := ih (View.linked_of_named hc) r.2
        · exact .inl he
        · refine .inr ⟨hnone, tok :: pre, suf, y, by rw [htoks, List.cons_append], ?_, hy⟩
          simp only [View.descend, hr', hc, Option.bind_some, hpre]
      split_ifs with ho
      · have hshown : v.shown x = v.shown a := by rw [View.shown, ho, View.shown]
        rw [named_append, ← hshown]
        cases hc : named (v.shown x) r.1 with
        | some c =>
            exact hstep c hc
        | none =>
            by_cases he : nm = r.1
            · refine .inr ⟨rfl, [], toks, x, ?_, rfl, hx, ho⟩
              obtain ht | ht := hread r hr'.symm
              · rw [List.nil_append, he, ht]
              · exact absurd (he.trans ht) hnm
            · exact .inl (by simp [he])
      · cases hc : named (v.shown x) r.1 with
        | some c =>
            exact hstep c hc
        | none =>
            exact .inl rfl

theorem Shape.owner_pos (h : Shape s v) {p : ℕ} {nma : Name} (ha : (a, nma) ∈ v.kids p) : v.owner a ≠ 0 := by
  obtain he | ⟨-, -, q, nm₁, nm₂, -, ho⟩ := h.owner a
  · have := (h.kid p _ ha).1
    omega
  · have := (h.kid q _ ho).1
    omega

/-- A lookup ends where it did, unless it goes through the new row. -/
theorem RowAdded.retrieveTokens (hr : RowAdded s v a nm s' v') (h : Shape s v) (hnm : nm ≠ template)
    (ha : ∃ p nma, (a, nma) ∈ v.kids p) (toks : List Name) :
    s'.retrieveTokens toks = s.retrieveTokens toks ∨
      s.retrieveTokens toks = some none ∧ ∃ pre suf y, toks = pre ++ nm :: suf ∧
        s.retrieveTokens pre = some (some y) ∧ v.Linked y ∧ v.owner y = v.owner a := by
  obtain ⟨p, nma, ha⟩ := ha
  cases toks with
  | nil =>
      exact .inl rfl
  | cons tok toks =>
      have h0 : v.Linked 0 := .inl rfl
      obtain ⟨n₀, hn₀, -, -, hr₀⟩ := h.root
      have hown : v.owner 0 ≠ v.owner a := by
        rw [h.owner_of_own hn₀ hr₀]
        exact Ne.symm (h.owner_pos ha)
      rw [hr.shape.retrieveTokens_eq, h.retrieveTokens_eq, hr.shown (h.ne_fresh h0), if_neg hown]
      cases hc : named (v.shown 0) tok with
      | none =>
          exact .inl rfl
      | some c =>
          obtain he | ⟨hnone, pre, suf, y, htoks, hpre, hy⟩ := hr.descend h hnm (View.linked_of_named hc) false toks
          · exact .inl (congrArg some he)
          · refine .inr ⟨congrArg some hnone, tok :: pre, suf, y, by rw [htoks, List.cons_append], ?_, hy⟩
            rw [h.retrieveTokens_eq, hc]
            exact congrArg some hpre

/-- Types matter only where the walk goes. -/
theorem View.descend_congr (h : Shape s v) {type type' : ℕ → Option ElemType}
    (ht : ∀ x, v.Linked x → type x = type' x) {x : ℕ} (hx : v.Linked x) (wild : Bool) (toks : List Name) :
    v.descend type wild x toks = v.descend type' wild x toks := by
  induction toks generalizing x wild with
  | nil =>
      rfl
  | cons tok toks ih =>
      simp only [View.descend, ht _ (h.linked_owner hx)]
      generalize (if type' (v.owner x) = some .table then readWild wild tok else (tok, wild)) = r
      cases hc : named (v.shown x) r.1 with
      | none =>
          rfl
      | some c =>
          exact ih (View.linked_of_named hc) r.2

theorem Unlinked.type_eq {x u : ℕ} {nx : Option ℕ} {nu : Node} (hu : Unlinked s v x nx u nu) : s.typeOf u = nu.type := by
  cases hu with
  | first _ hnp =>
      rw [typeOf_eq hnp]
  | behind _ hnu =>
      rw [typeOf_eq hnu]

/-- Without the new row, the view is what it was. -/
theorem RowAdded.remove_eq (hr : RowAdded s v a nm s' v') (h : Shape s v) (hl : v.Linked a) : v'.remove s.fresh = v := by
  have hfo : s.fresh ≠ v.owner a := Ne.symm (h.ne_fresh (h.linked_owner hl))
  have hnil : v'.kids s.fresh = [] := by
    rw [hr.kids, View.addKid_kids_of_ne v _ hfo]
    exact h.kids_of_dead h.fresh_dead
  have hbelow : ∀ x, v'.Below s.fresh x ↔ x = s.fresh := by
    intro x
    rw [View.below_iff, hnil]
    simp
  have hkids : (v'.remove s.fresh).kids = v.kids := by
    funext x
    by_cases hx : x = s.fresh
    · subst hx
      simp [View.remove, hbelow, h.kids_of_dead h.fresh_dead]
    · have hold : ∀ y, (v.kids y).filter (fun c => c.1 ≠ s.fresh) = v.kids y := by
        intro y
        rw [List.filter_eq_self]
        intro c hc
        have := h.kid_lt_fresh hc
        simp only [ne_eq, decide_eq_true_eq]
        omega
      simp only [View.remove, hbelow, hx, if_false, hr.kids]
      by_cases hxo : x = v.owner a
      · subst hxo
        rw [View.addKid_kids_self, List.filter_append, hold]
        simp
      · rw [View.addKid_kids_of_ne v _ hxo, hold]
  have howner : (v'.remove s.fresh).owner = v.owner := by
    funext x
    by_cases hx : x = s.fresh
    · subst hx
      simp [View.remove, hbelow, h.owner_of_dead h.fresh_dead]
    · simp [View.remove, hbelow, hx, hr.owner x hx]
  cases hv : v'.remove s.fresh with
  | mk kids owner =>
      rw [hv] at hkids howner
      cases v
      exact congrArg₂ View.mk hkids howner

/-- **Removing the row** restores the shape and the types. -/
theorem RowAdded.removed (hr : RowAdded s v a nm s' v') (h : Shape s v) (hl : v.Linked a) :
    ∃ s'', s'.elemTraversal s.fresh = some s'' ∧ Shape s'' v ∧ ∀ x, v.Linked x → s''.typeOf x = s.typeOf x := by
  obtain ⟨l, b, nmb, nb, hshown, hnb, -⟩ := hr.last
  have hrow : (s.fresh, nm) ∈ v'.kids (v.owner a) := by
    rw [hr.kids, View.addKid_kids_self]
    simp
  have hfo : s.fresh ≠ v.owner a := Ne.symm (h.ne_fresh (h.linked_owner hl))
  have hnil : v'.kids s.fresh = [] := by
    rw [hr.kids, View.addKid_kids_of_ne v _ hfo]
    exact h.kids_of_dead h.fresh_dead
  have hb : (b, nmb) ∈ v.kids (v.owner a) := by
    rw [← View.shown, hshown]
    simp
  -- the row is the last child, and there was one before it
  have hfirst : v'.NotFirst s' s.fresh := by
    intro r nr hlr hnr _ hchild
    have hchain := hr.shape.chain_of_linked hlr hnr
    cases hs : v'.shown r with
    | nil =>
        rw [(hr.shape.child_eq_none hlr hnr).mpr hs] at hchild
        cases hchild
    | cons x l' =>
        rw [hs, hchild] at hchain
        have hx : s.fresh = x.1 := Option.some.inj hchain.1
        have hmem : (s.fresh, x.2) ∈ v'.kids (v'.owner r) := by
          rw [← View.shown, hs, hx]
          simp
        have ho := hr.shape.parent_unique hmem hrow
        have hsorted := hr.shape.sorted (v'.owner r)
        have hb' : (b, nmb) ∈ v'.kids (v'.owner r) := by
          rw [ho, hr.kids]
          exact View.mem_addKid.mpr (.inl hb)
        rw [← View.shown, hs] at hsorted hb'
        rw [List.map_cons, List.pairwise_cons] at hsorted
        have hlt := h.kid_lt_fresh hb
        obtain he | hm := List.mem_cons.mp hb'
        · rw [← he] at hx
          simp only at hx hlt
          omega
        · have := hsorted.1 b (List.mem_map.mpr ⟨(b, nmb), hm, rfl⟩)
          simp only at hlt
          omega
  have halone : ∀ r, v'.owner r = s.fresh → r = s.fresh := by
    intro r ho
    obtain he | ⟨hne, -⟩ := hr.shape.owner r
    · exact he.symm.trans ho
    · rw [View.shown, ho, hnil] at hne
      exact absurd rfl hne
  obtain ⟨s'', u, nu, n, hrun, hn, hrem, hu, hs''⟩ := elemTraversal_spec hr.shape hrow hfirst halone
  rw [hr.remove_eq h hl] at hs''
  refine ⟨s'', hrun, hs'', fun x hx => ?_⟩
  have hxf := h.ne_fresh hx
  have hb : ¬ v'.Below s.fresh x := by
    rw [View.below_iff, hnil]
    simpa using hxf
  rw [← hr.typeOf hxf]
  by_cases hxu : x = u
  · subst hxu
    rw [hu.type_eq, typeOf_eq hrem.changed]
  · simp only [Bus.typeOf, hrem.kept x hb hxu]

end Walks

/-! ### The semantics of a row -/

section Semantics

def Resolves (sz : Sizes) (s : Bus) (name : Name) : Prop :=
  ∃ x, getBusNodeInfo sz s name = some (some x)

/-- A first part of the name leads to a node with the children of `a`, and the next token is the row. -/
def GoesThrough (s : Bus) (a : ℕ) (row : Name) (name : Name) : Prop :=
  ∃ pre suf y, tokens name = pre ++ row :: suf ∧ s.retrieveTokens pre = some (some y) ∧
    (s.mem y).map Node.child = (s.mem a).map Node.child

/-- The name of what stands under a row or under the row template. -/
def under (t row suffix : Name) : Name :=
  t ++ '.' :: (row ++ '.' :: suffix)

/-- Adding the row to the table `t` with the node `a` makes a row of it, which changes nothing else and
can be taken back. -/
def ActsAsRow (sz : Sizes) (s : Bus) (t : Name) (a : ℕ) (index : BitVec 32) : Prop :=
  ∃ s', tableAddRow sz s t index = some (s', true) ∧
    (∀ suffix, fits sz (under t (indexName index) suffix) = true → fits sz (under t template suffix) = true →
      (Resolves sz s' (under t (indexName index) suffix) ↔ Resolves sz s' (under t template suffix))) ∧
    (∀ name, getBusNodeInfo sz s' name = getBusNodeInfo sz s name ∨ GoesThrough s a (indexName index) name) ∧
    ∃ s'', tableRemoveRow sz s' (t ++ '.' :: indexName index) = some (s'', true) ∧
      ∀ name, getBusNodeInfo sz s'' name = getBusNodeInfo sz s name

variable {sz : Sizes} {s s' : Bus} {v v' : View} {a : ℕ} {nm : Name}

theorem Shape.retrieveTokens_append (h : Shape s v) {xs : List Name} (hxs : ['*'] ∉ xs)
    (hres : s.retrieveTokens xs = some (some a)) (ys : List Name) :
    s.retrieveTokens (xs ++ ys) = some (v.descend s.typeOf false a ys) := by
  cases xs with
  | nil =>
      cases hres
  | cons x xs =>
      rw [List.mem_cons, not_or] at hxs
      rw [h.retrieveTokens_eq] at hres
      obtain ⟨c, hc, hd⟩ := Option.bind_eq_some_iff.mp (Option.some.inj hres)
      rw [List.cons_append, h.retrieveTokens_eq, hc, Option.bind_some, View.descend_append hxs.2, hd, Option.bind_some]

/-- Nodes that show the same children have the same child pointer. -/
theorem Shape.child_congr (h : Shape s v) {x y : ℕ} (hx : v.Linked x) (hy : v.Linked y) (ho : v.owner x = v.owner y) :
    (s.mem x).map Node.child = (s.mem y).map Node.child := by
  obtain ⟨nx, hnx⟩ := h.alive_of_linked hx
  obtain ⟨ny, hny⟩ := h.alive_of_linked hy
  have hcx := h.chain_of_linked hx hnx
  have hcy := h.chain_of_linked hy hny
  rw [View.shown, ho, ← View.shown] at hcx
  rw [hnx, hny, Option.map_some, Option.map_some]
  cases hl : v.shown y with
  | nil =>
      rw [hl] at hcx hcy
      have hnx' : nx.child = none := hcx
      have hny' : ny.child = none := hcy
      rw [hnx', hny']
  | cons c l =>
      rw [hl] at hcx hcy
      rw [hcx.1, hcy.1]

/-- The walk on from the new row is the walk on from the row template. -/
theorem RowAdded.descend_row (hr : RowAdded s v a nm s' v') (h : Shape s v) {t : ℕ}
    (ht : named (v.shown a) template = some t) (toks : List Name) :
    (v'.descend s'.typeOf false s.fresh toks).isSome = (v'.descend s'.typeOf false t toks).isSome := by
  have htk : (t, template) ∈ v.kids (v.owner a) := mem_of_named ht
  have hlt : v.Linked t := .inr ⟨_, _, htk⟩
  have htf := h.ne_fresh hlt
  obtain ⟨-, nt, hnt, -⟩ := h.kid _ _ htk
  have htown := h.owner_of_own hnt (h.template_owns t nt hnt (h.name_of_kid htk hnt))
  have hto : t ≠ v.owner a := Nat.ne_of_gt (h.kid _ _ htk).1
  have hshown : v'.shown s.fresh = v.kids t := hr.shares t ht
  have hshown' : v'.shown t = v.kids t := by rw [hr.shown htf, htown, if_neg hto, View.shown, htown]
  cases toks with
  | nil =>
      rfl
  | cons tok toks =>
      simp only [View.descend, hshown, hshown']
      by_cases hk : v.kids t = []
      · simp [hk, named]
      · have hown : v'.owner s.fresh = t := by
          obtain ⟨c, hc⟩ := List.exists_mem_of_ne_nil _ hk
          have hc₁ : (c.1, c.2) ∈ v'.kids (v'.owner s.fresh) := by
            rw [← View.shown, hshown]
            exact hc
          have hc₂ : (c.1, c.2) ∈ v'.kids t := by
            rw [hr.kids]
            exact View.mem_addKid.mpr (.inl hc)
          exact hr.shape.parent_unique hc₁ hc₂
        rw [hown, hr.owner t htf, htown]

theorem tokens_under {t row : Name} (hrow : tokens row = [row]) (suffix : Name) :
    tokens (under t row suffix) = tokens t ++ (row :: tokens suffix) := by
  rw [under, tokens_append, tokens_append, hrow]
  rfl

/-- **Rows**: in every tree that calls have built, a new row of a table acts as a row. -/
theorem actsAsRow_of_run (hrun : Run (Bus.next sz) (fun s op => s.keepsShape sz op = true) initRoot s) {t : Name}
    {index : BitVec 32} (htable : getBusNodeInfo sz s t = some (some a)) (hwild : ['*'] ∉ tokens t)
    (hindex : index.toNat < 10 ^ 7) (htemplate : Resolves sz s (t ++ '.' :: template))
    (hnew : getBusNodeInfo sz s (t ++ '.' :: indexName index) = some none) : ActsAsRow sz s t a index := by
  obtain ⟨v, h⟩ := run_shape (fun _ _ hk => hk) hrun
  have hfits : ∀ {name r}, getBusNodeInfo sz s name = some r → fits sz name = true := by
    intro name r hr
    by_contra hno
    rw [getBusNodeInfo_of_not_fits (by simpa using hno)] at hr
    cases hr
  have hprinted := printIndex_eq hindex
  have hidx := tokens_indexName index
  have hstar := indexName_ne_star index
  have hne : indexName index ≠ template := hprinted ▸ printIndex_ne_template index
  have hstar' : template ≠ ['*'] := by decide
  -- the table, its template and its row to be
  have hta := htable
  rw [getBusNodeInfo_of_fits (hfits htable)] at hta
  have hkid : ∃ p nma, (a, nma) ∈ v.kids p := by
    obtain ⟨r, hr, hkid⟩ := h.retrieveTokens_some (tokens t)
    rw [hta] at hr
    exact hkid a (Option.some.inj hr).symm
  have hl : v.Linked a := by
    obtain ⟨p, nma, hp⟩ := hkid
    exact .inr ⟨p, nma, hp⟩
  have happend := h.retrieveTokens_append hwild hta
  have hno : named (v.shown a) (printIndex index) = none := by
    have hfit := hfits hnew
    rw [getBusNodeInfo_of_fits hfit, tokens_append, hidx, happend, View.descend_cons hstar] at hnew
    rw [hprinted]
    simpa [View.descend] using hnew
  obtain ⟨it, hit⟩ : ∃ it, named (v.shown a) template = some it := by
    obtain ⟨x, hx⟩ := htemplate
    rw [getBusNodeInfo_of_fits (hfits hx), tokens_append, tokens_template, happend, View.descend_cons hstar'] at hx
    exact ⟨x, by simpa [View.descend] using hx⟩
  have hshown : v.shown a ≠ [] := List.ne_nil_of_mem (mem_of_named hit)
  obtain ⟨s', v', hadd, hr⟩ := addNewRow_spec sz h hl htable hshown hno
  rw [hprinted] at hr hno
  have hall := hr.retrieveTokens h hne hkid
  have hta' : s'.retrieveTokens (tokens t) = some (some a) := by
    obtain he | ⟨hnone, -⟩ := hall (tokens t)
    · rw [he, hta]
    · rw [hta] at hnone
      cases hnone
  have happend' := hr.shape.retrieveTokens_append hwild hta'
  have hshown' : v'.shown a = v.shown a ++ [(s.fresh, indexName index)] := by
    rw [hr.shown (h.ne_fresh hl), if_pos rfl]
  have hrow : named (v'.shown a) (indexName index) = some s.fresh := by
    rw [hshown', named_append, hno]
    simp
  have hit' : named (v'.shown a) template = some it := by
    rw [hshown', named_append, hit]
    rfl
  refine ⟨s', hadd, fun suffix hf₁ hf₂ => ?_, fun name => ?_, ?_⟩
  · unfold Resolves
    rw [getBusNodeInfo_of_fits hf₁, getBusNodeInfo_of_fits hf₂, tokens_under hidx, tokens_under tokens_template,
      happend', happend', View.descend_cons hstar, View.descend_cons hstar', hrow, hit', Option.bind_some, Option.bind_some]
    have := hr.descend_row h hit (tokens suffix)
    simp only [Option.some.injEq, ← Option.isSome_iff_exists, this]
  · by_cases hf : fits sz name = true
    · rw [getBusNodeInfo_of_fits hf, getBusNodeInfo_of_fits hf]
      obtain he | ⟨-, pre, suf, y, htoks, hpre, hy, ho⟩ := hall (tokens name)
      · exact .inl he
      · exact .inr ⟨pre, suf, y, htoks, hpre, h.child_congr hy hl ho⟩
    · have hf' : fits sz name = false := by simpa using hf
      exact .inl (by rw [getBusNodeInfo_of_not_fits hf', getBusNodeInfo_of_not_fits hf'])
  · obtain ⟨s'', hrem, hs'', htypes⟩ := hr.removed h hl
    refine ⟨s'', ?_, fun name => ?_⟩
    · have hfound : getBusNodeInfo sz s' (t ++ '.' :: indexName index) = some (some s.fresh) := by
        rw [getBusNodeInfo_of_fits (hfits hnew), tokens_append, hidx, happend', View.descend_cons hstar, hrow]
        rfl
      simp [tableRemoveRow, hfound, hrem]
    · by_cases hf : fits sz name = true
      · rw [getBusNodeInfo_of_fits hf, getBusNodeInfo_of_fits hf]
        cases tokens name with
        | nil =>
            rfl
        | cons tok toks =>
            rw [hs''.retrieveTokens_eq, h.retrieveTokens_eq]
            cases hc : named (v.shown 0) tok with
            | none =>
                rfl
            | some c =>
                rw [Option.bind_some, Option.bind_some, View.descend_congr h htypes (View.linked_of_named hc)]
      · have hf' : fits sz name = false := by simpa using hf
        rw [getBusNodeInfo_of_not_fits hf', getBusNodeInfo_of_not_fits hf']

/-- The table `T` of the example run gets row 3. -/
theorem actsAsRow_of_run_tableOps :
    ∃ s, execTo (Bus.next sizes) initRoot tableOps = some s ∧ ActsAsRow sizes s "T.".toList 1 3 := by
  have hsome : (execTo (guarded (Bus.next sizes) fun s op => s.keepsShape sizes op = true) initRoot tableOps).map
      (fun s => (getBusNodeInfo sizes s "T.".toList, getBusNodeInfo sizes s ("T.".toList ++ '.' :: template),
        getBusNodeInfo sizes s ("T.".toList ++ '.' :: indexName 3))) = some (some (some 1), some (some 2), some none) := by
    decide +kernel
  obtain ⟨s, hs, hres⟩ := Option.map_eq_some_iff.mp hsome
  simp only [Prod.mk.injEq] at hres
  exact ⟨s, execTo_of_guarded hs,
    actsAsRow_of_run (run_of_guarded hs) hres.1 (by decide +kernel) (by decide) ⟨2, hres.2.1⟩ hres.2.2⟩

/-- Two rows of `T` share its nested table `U`. -/
def nestedOps : List Op :=
  [.insert (table "T.{i}."), .insert (table "T.{i}.U.{i}."), .addRow "T.".toList 1, .addRow "T.".toList 2]

/-- A row added to the nested table under row 1 is there under row 2, where it was not before. -/
theorem not_isolated_nested :
    ∃ s s', execTo (Bus.next sizes) initRoot nestedOps = some s ∧ tableAddRow sizes s "T.1.U.".toList 5 = some (s', true) ∧
      getBusNodeInfo sizes s "T.2.U.5".toList = some none ∧ Resolves sizes s' "T.2.U.5".toList := by
  have hsome : (execTo (Bus.next sizes) initRoot nestedOps).bind (fun s =>
      (tableAddRow sizes s "T.1.U.".toList 5).map fun r =>
        (r.2, getBusNodeInfo sizes s "T.2.U.5".toList, getBusNodeInfo sizes r.1 "T.2.U.5".toList)) =
      some (true, some none, some (some 7)) := by
    decide +kernel
  obtain ⟨s, hs, hrest⟩ := Option.bind_eq_some_iff.mp hsome
  obtain ⟨⟨s', b⟩, hadd, hres⟩ := Option.map_eq_some_iff.mp hrest
  simp only [Prod.mk.injEq] at hres
  obtain ⟨rfl, hbefore, hafter⟩ := hres
  exact ⟨s, s', hs, hadd, hbefore, 7, hafter⟩

end Semantics

end OneWifiTestSuite.BusTree
