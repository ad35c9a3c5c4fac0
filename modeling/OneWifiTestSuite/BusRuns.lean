import OneWifiTestSuite.BusRemoval
import OneWifiTestSuite.Runs

/-!
# Runs of the bus tree

The calls on the tree are registrations, row additions and removals, of rows and of registered
elements. `next_shape` is the step lemma: a call that meets `keepsShape` returns and keeps the shape,
and one that drops no children keeps every node linked. `run_shape` is the run lemma.
-/

namespace OneWifiTestSuite.BusTree

open Cells ByteRegion Runs

/-! ### Calls -/

section Calls

/-- A call on the tree; `bus_unreg_data_elements` removes the name of every element. -/
inductive Op
  | insert (e : Elem)
  | addRow (name : Name) (index : BitVec 32)
  | remove (name : Name)
deriving DecidableEq, Repr

def Bus.next (sz : Sizes) (s : Bus) : Op → Option Bus
  | .insert e => (insertElemNode sz s e).map Prod.fst
  | .addRow name index => (tableAddRow sz s name index).map Prod.fst
  | .remove name => (tableRemoveRow sz s name).map Prod.fst

/-- The name ends inside its buffer. -/
def fits (sz : Sizes) (name : Name) : Bool :=
  name.length + 1 < sz.nameString

/-- The call gives no row children of its own, and takes or frees nothing that rows share. -/
def Bus.keepsShape (sz : Sizes) (s : Bus) : Op → Bool
  | .insert e => fits sz e.fullName && s.takes e
  | .addRow name _ => fits sz name
  | .remove name => fits sz name &&
      match s.retrieveTokens (tokens name) with
      | some (some x) => s.frees x
      | _ => true

/-- The call drops no children. -/
def Bus.keepsLinked (s : Bus) : Op → Bool
  | .insert e => s.dropsNone e
  | _ => true

end Calls

/-! ### Names -/

section Resolution

variable {sz : Sizes} {s s' : Bus} {v : View} {name : Name}

theorem retrieve_of_fits (hf : fits sz name = true) :
    retrieveInstanceElemNode sz s name = s.retrieveTokens (tokens name) := by
  have hlt : name.length + 1 < sz.nameString := by simpa [fits] using hf
  simp [retrieveInstanceElemNode, copyName, hlt]

theorem getBusNodeInfo_of_fits (hf : fits sz name = true) :
    getBusNodeInfo sz s name = s.retrieveTokens (tokens name) := by
  have hlt : name.length + 1 < sz.nameString := by simpa [fits] using hf
  have htake : name.take (sz.nameString - 1) = name := List.take_of_length_le (by omega)
  rw [getBusNodeInfo, htake, retrieve_of_fits hf]

/-- A name that is too long leaves its buffer. -/
theorem getBusNodeInfo_of_not_fits (hf : fits sz name = false) : getBusNodeInfo sz s name = none := by
  have hle : sz.nameString ≤ name.length + 1 := by simpa [fits] using hf
  have hno : ¬ (name.take (sz.nameString - 1)).length + 1 < sz.nameString := by
    rw [List.length_take]
    omega
  rw [getBusNodeInfo, retrieveInstanceElemNode, copyName, if_neg hno]
  rfl

/-- The walk ends at a child, when it starts at one. -/
theorem View.kid_of_descend {type : ℕ → Option ElemType} {wild : Bool} {a c : ℕ} {toks : List Name}
    (hc : v.descend type wild a toks = some c) (ha : ∃ p nm, (a, nm) ∈ v.kids p) : ∃ p nm, (c, nm) ∈ v.kids p := by
  induction toks generalizing wild a with
  | nil =>
      cases hc
      exact ha
  | cons tok toks ih =>
      obtain ⟨b, hb, hc⟩ := Option.bind_eq_some_iff.mp hc
      exact ih hc ⟨_, _, mem_of_named hb⟩

/-- Every lookup returns, with a child or with nothing. -/
theorem Shape.retrieveTokens_some (h : Shape s v) (toks : List Name) :
    ∃ r, s.retrieveTokens toks = some r ∧ ∀ x, r = some x → ∃ p nm, (x, nm) ∈ v.kids p := by
  cases toks with
  | nil =>
      exact ⟨none, rfl, by simp⟩
  | cons tok toks =>
      refine ⟨_, h.retrieveTokens_eq tok toks, fun x hx => ?_⟩
      obtain ⟨b, hb, hc⟩ := Option.bind_eq_some_iff.mp hx
      exact View.kid_of_descend hc ⟨_, _, mem_of_named hb⟩

end Resolution

/-! ### Rows -/

section Rows

variable (sz : Sizes) {s : Bus} {v : View}

theorem printIndex_ne_template (i : BitVec 32) : printIndex i ≠ template := by
  intro e
  have hprinted : '{' ∈ (decimal i).take 7 := by
    rw [← printIndex, e]
    simp [template]
  have hmem : '{' ∈ decimal i := List.mem_of_mem_take hprinted
  have hdig : ∀ m, '{' ∉ Nat.toDigits 10 m := by
    intro m hm
    have := Nat.isDigit_of_mem_toDigits (by decide) (by decide) hm
    simp at this
  unfold decimal at hmem
  split_ifs at hmem
  · obtain he | hm := List.mem_cons.mp hmem
    · cases he
    · exact hdig _ hm
  · exact hdig _ hmem

theorem Node.takeData_links (rn tn : Node) : (rn.takeData tn).links = rn.links := by
  unfold Node.takeData
  split <;> rfl

theorem Node.takeData_type (rn tn : Node) : (rn.takeData tn).type = rn.type := by
  unfold Node.takeData
  split <;> rfl

/-- A row comes to show the children of the row template when it has none. -/
theorem duplicateNodeRef_spec (h : Shape s v) {a r : ℕ} {nmr : Name} {nr : Node} (ha : v.Linked a)
    (hr : (r, nmr) ∈ v.shown a) (hname : nmr ≠ template) (hnr : s.mem r = some nr) :
    ∃ s' v' nr', s.duplicateNodeRef r a = some s' ∧ Shape s' v' ∧ v'.kids = v.kids ∧ s'.fresh = s.fresh ∧
      s'.freed = s.freed ∧ (∀ x, x ≠ r → s'.mem x = s.mem x ∧ v'.owner x = v.owner x) ∧ s'.mem r = some nr' ∧
      nr'.name = nr.name ∧ nr'.nextSibling = nr.nextSibling ∧ nr'.type = nr.type ∧
      ∀ t, named (v.shown a) template = some t → v.shown r = [] → v'.shown r = v.kids t := by
  obtain ⟨na, hna⟩ := h.alive_of_linked ha
  have hlookup := h.lookup_eq ha hna template
  cases ht : named (v.shown a) template with
  | none =>
      rw [ht] at hlookup
      refine ⟨s, v, nr, ?_, h, rfl, rfl, rfl, fun x _ => ⟨rfl, rfl⟩, hnr, rfl, rfl, rfl, ?_⟩
      · simp [Bus.duplicateNodeRef, hna, hlookup]
      · intro t ht'
        cases ht'
  | some t =>
      rw [ht] at hlookup
      have htk : (t, template) ∈ v.kids (v.owner a) := mem_of_named ht
      obtain ⟨-, nt, hnt, -⟩ := h.kid _ _ htk
      have htown : nt.reference = false := h.template_owns t nt hnt (h.name_of_kid htk hnt)
      have hrt : r ≠ t := fun e => hname (h.name_unique (e ▸ hr) htk)
      have hlr : v.Linked r := .inr ⟨_, nmr, hr⟩
      have hnmr : nr.name = nmr := h.name_of_kid hr hnr
      obtain ⟨n₁, hn₁⟩ : ∃ n₁, nr.takeData na = n₁ := ⟨_, rfl⟩
      have hlinks : n₁.links = nr.links := hn₁ ▸ nr.takeData_links na
      have htype : n₁.type = nr.type := hn₁ ▸ nr.takeData_type na
      have hl := hlinks
      simp only [Node.links, Prod.mk.injEq] at hl
      obtain ⟨hnm₁, hc₁, hx₁, hp₁, hr₁⟩ := hl
      have hrun : ∀ n₂, n₁.showChildren nt = n₂ → s.duplicateNodeRef r a = some (s.write r n₂) := by
        intro n₂ hn₂
        simp only [Bus.duplicateNodeRef, hna, hlookup, hnr, hnt, Option.bind_eq_bind, Option.bind_some]
        rw [hn₁, hn₂]
      have hmem : ∀ n₂ : Node, (s.write r n₂).mem r = some n₂ := fun n₂ => by simp [Bus.write]
      have hkeep : ∀ (n₂ : Node) x, x ≠ r → (s.write r n₂).mem x = s.mem x := fun n₂ x hx => by simp [Bus.write, hx]
      by_cases hchild : nr.child = none
      · have hs := h.share { n₁ with child := nt.child, reference := true } hr htk hrt hnr hnt hchild htown hname
          (by simp only [Node.links, hnm₁, hx₁, hp₁])
        refine ⟨_, _, _, hrun _ (if_pos (hc₁.trans hchild)), hs, rfl, rfl, rfl,
          fun x hx => ⟨hkeep _ x hx, View.share_owner_of_ne v t hx⟩, hmem _, hnm₁, hx₁, htype, ?_⟩
        intro t' ht' hshown
        cases ht'
        by_cases hk : v.kids t = []
        · rw [View.shown, View.share, if_pos hk, hk]
          exact hshown
        · rw [View.shown, View.share_owner_self v hk, View.share_kids]
      · have hs := h.write_of_links n₁ hnr hlinks
        refine ⟨_, v, _, hrun _ (if_neg (hc₁ ▸ hchild)), hs, rfl, rfl, rfl, fun x hx => ⟨hkeep _ x hx, rfl⟩, hmem _, hnm₁, hx₁,
          htype, ?_⟩
        intro t' _ hshown
        exact absurd ((h.child_eq_none hlr hnr).mpr hshown) hchild

theorem take_printIndex (i : BitVec 32) : (printIndex i).take (sz.nodeName - 1) = printIndex i := by
  have hfits := sz.index_fits
  refine List.take_of_length_le ?_
  rw [printIndex, List.length_take]
  omega

/-- What a new row at the table's node `a` changes: the last child has a new sibling, which shows the
children of the row template. -/
structure RowAdded (s : Bus) (v : View) (a : ℕ) (nm : Name) (s' : Bus) (v' : View) : Prop where
  shape : Shape s' v'
  kids : v'.kids = (v.addKid (v.owner a) (s.fresh, nm)).kids
  owner : ∀ x, x ≠ s.fresh → v'.owner x = v.owner x
  fresh : s'.fresh = s.fresh + 1
  last : ∃ l b nmb nb, v.shown a = l ++ [(b, nmb)] ∧ s.mem b = some nb ∧
    s'.mem b = some { nb with nextSibling := some s.fresh } ∧ ∀ x, x ≠ b → x ≠ s.fresh → s'.mem x = s.mem x
  row : ∃ nr, s'.mem s.fresh = some nr ∧ nr.nextSibling = none ∧ nr.type = none
  shares : ∀ t, named (v.shown a) template = some t → v'.shown s.fresh = v.kids t

theorem addNewRow_spec (h : Shape s v) {name : Name} {index : BitVec 32} {a : ℕ} (hl : v.Linked a)
    (hres : getBusNodeInfo sz s name = some (some a)) (hne : v.shown a ≠ [])
    (hno : named (v.shown a) (printIndex index) = none) :
    ∃ s' v', tableAddRow sz s name index = some (s', true) ∧ RowAdded s v a (printIndex index) s' v' := by
  obtain ⟨na, hna⟩ := h.alive_of_linked hl
  obtain ⟨x, b, nmb, hsome, hlast, hsearch⟩ := h.searchSiblings_shown hl hna hne (printIndex index)
  rw [hno] at hsearch
  obtain ⟨nb, hnb, hrun₁, hc₁⟩ := createSibling_spec sz h (printIndex index) hlast
  rw [take_printIndex] at hrun₁ hc₁
  obtain ⟨l', hl'⟩ := List.getLast?_eq_some_iff.mp hlast
  have hlt : b < s.fresh := h.bound b nb hnb
  have hl₁ := (hc₁.linked_iff a).mpr (.inl hl)
  generalize hv₁ : v.addKid (v.owner a) (s.fresh, printIndex index) = v₁ at hc₁ hl₁
  generalize hs₁ : s.withSibling (v.owner a) b nb (printIndex index) = s₁ at hrun₁ hc₁
  have hshown₁ : v₁.shown a = v.shown a ++ [(s.fresh, printIndex index)] := by
    rw [View.shown, ← hv₁, View.addKid_owner, View.addKid_kids_self, View.shown]
  have hmem₁ : ∀ y, s₁.mem y = if y = b then some { nb with nextSibling := some s.fresh } else
      if y = s.fresh then some (newNode (v.owner a) (printIndex index)) else s.mem y := by
    intro y
    rw [← hs₁]
    exact Bus.write_alloc_mem hlt
  have hrow₁ : s₁.mem s.fresh = some (newNode (v.owner a) (printIndex index)) := by simp [hmem₁, Nat.ne_of_gt hlt]
  have hmemr : (s.fresh, printIndex index) ∈ v₁.shown a := by
    rw [hshown₁]
    simp
  obtain ⟨s', v', nr', hrun₂, hs', hk', hf', -, hkeep, hnr', -, hnext, htype, hshares⟩ :=
    duplicateNodeRef_spec hc₁.shape hl₁ hmemr (printIndex_ne_template index) hrow₁
  refine ⟨s', v', ?_, ?_⟩
  · simp [tableAddRow, hres, Bus.insertTableRow, hna, hsome, hsearch, hrun₁, hrun₂]
  · refine ⟨hs', by rw [hk', ← hv₁], fun y hy => ?_, by rw [hf', hc₁.fresh], ?_, ⟨nr', hnr', hnext, htype⟩, fun t ht => ?_⟩
    · rw [(hkeep y hy).2, ← hv₁, View.addKid_owner]
    · refine ⟨l', b, nmb, nb, hl', hnb, ?_, fun y hyb hyf => ?_⟩
      · rw [(hkeep b (Nat.ne_of_lt hlt)).1]
        simp [hmem₁]
      · rw [(hkeep y hyf).1]
        simp [hmem₁, hyb, hyf]
    · have hto : t ≠ v.owner a := by
        have := (h.kid _ _ (mem_of_named ht)).1
        simp only at this
        omega
      have hnil : v₁.shown s.fresh = [] := hc₁.shown_new h hl
      rw [hshares t ?_ hnil, ← hv₁, View.addKid_kids_of_ne v _ hto]
      rw [hshown₁, named_append, ht]
      rfl

/-- **A row addition** returns and keeps the shape. -/
theorem tableAddRow_spec (h : Shape s v) {name : Name} (hf : fits sz name = true) (index : BitVec 32) :
    ∃ s' b v', tableAddRow sz s name index = some (s', b) ∧ Shape s' v' ∧ (Owned s v → Owned s' v') := by
  obtain ⟨r, hres, hkid⟩ := h.retrieveTokens_some (tokens name)
  rw [← getBusNodeInfo_of_fits hf] at hres
  cases r with
  | none =>
      exact ⟨s, false, v, by simp [tableAddRow, hres], h, id⟩
  | some a =>
      obtain ⟨p, nma, hpa⟩ := hkid a rfl
      have hl : v.Linked a := .inr ⟨p, nma, hpa⟩
      obtain ⟨na, hna⟩ := h.alive_of_linked hl
      by_cases hne : v.shown a = []
      · have hnone := (h.child_eq_none hl hna).mpr hne
        exact ⟨s, false, v, by simp [tableAddRow, hres, Bus.insertTableRow, hna, hnone], h, id⟩
      cases hnamed : named (v.shown a) (printIndex index) with
      | none =>
          obtain ⟨s', v', hrun, hadd⟩ := addNewRow_spec sz h hl hres hne hnamed
          refine ⟨s', true, v', hrun, hadd.shape, fun ho y n hn => ?_⟩
          have hiff : v'.Linked y ↔ v.Linked y ∨ y = s.fresh := by
            unfold View.Linked
            rw [hadd.kids]
            exact View.linked_addKid
          obtain ⟨l, b, nmb, nb, hl', hnb, -, hkeep⟩ := hadd.last
          by_cases hyf : y = s.fresh
          · exact hiff.mpr (.inr hyf)
          · by_cases hyb : y = b
            · exact hiff.mpr (.inl (hyb ▸ ho b nb hnb))
            · rw [hkeep y hyb hyf] at hn
              exact hiff.mpr (.inl (ho y n hn))
      | some c =>
          -- the row is there already
          obtain ⟨x, b, nmb, hsome, -, hsearch⟩ := h.searchSiblings_shown hl hna hne (printIndex index)
          rw [hnamed] at hsearch
          have hc : (c, printIndex index) ∈ v.shown a := mem_of_named hnamed
          obtain ⟨-, nc, hnc, -⟩ := h.kid _ _ hc
          obtain ⟨s', v', nr', hrun, hs', hk', -, -, hkeep, -⟩ :=
            duplicateNodeRef_spec h hl hc (printIndex_ne_template index) hnc
          refine ⟨s', true, v', ?_, hs', fun ho y n hn => ?_⟩
          · simp [tableAddRow, hres, Bus.insertTableRow, hna, hsome, hsearch, hrun]
          · unfold View.Linked
            rw [hk']
            by_cases hyc : y = c
            · exact hyc ▸ .inr ⟨_, _, hc⟩
            · rw [(hkeep y hyc).1] at hn
              exact ho y n hn

end Rows

/-! ### Steps and runs -/

section Steps

variable {sz : Sizes} {s s' : Bus} {v : View}

/-- **One call** returns and keeps the shape, and with it that every node is linked. -/
theorem next_shape (h : Shape s v) {op : Op} (hk : s.keepsShape sz op = true) :
    ∃ s' v', s.next sz op = some s' ∧ Shape s' v' ∧ (Owned s v → s.keepsLinked op = true → Owned s' v') := by
  cases op with
  | insert e =>
      obtain ⟨hf, ht⟩ := Bool.and_eq_true_iff.mp hk
      have hcopy : (copyName sz e.fullName).isSome = true := by
        have hlt : e.fullName.length + 1 < sz.nameString := by simpa [fits] using hf
        simp [copyName, hlt]
      obtain ⟨s', c, v', hrun, hs', ho⟩ := insertElemNode_spec sz h hcopy ht
      exact ⟨s', v', by simp [Bus.next, hrun], hs', ho⟩
  | addRow name index =>
      obtain ⟨s', b, v', hrun, hs', ho⟩ := tableAddRow_spec sz h hk index
      exact ⟨s', v', by simp [Bus.next, hrun], hs', fun hs _ => ho hs⟩
  | remove name =>
      obtain ⟨hf, hx⟩ := Bool.and_eq_true_iff.mp hk
      obtain ⟨r, hres, hkid⟩ := h.retrieveTokens_some (tokens name)
      rw [hres] at hx
      rw [← getBusNodeInfo_of_fits hf] at hres
      cases r with
      | none =>
          exact ⟨s, v, by simp [Bus.next, tableRemoveRow, hres], h, fun ho _ => ho⟩
      | some x =>
          obtain ⟨p, nm, hxp⟩ := hkid x rfl
          obtain ⟨n, hn⟩ := h.alive_of_linked (.inr ⟨p, nm, hxp⟩)
          obtain ⟨s', u, nu, n, hrun, -, hr, hu, hs'⟩ :=
            elemTraversal_spec h hxp (h.notFirst_of_frees hx) (h.alone_of_frees hn hx)
          exact ⟨s', _, by simp [Bus.next, tableRemoveRow, hres, hrun], hs', fun ho _ => hr.owned hu ho⟩

/-- **Runs** of calls that keep the shape. -/
theorem run_shape {C : Bus → Op → Prop} (hC : ∀ s op, C s op → s.keepsShape sz op = true)
    (hrun : Run (Bus.next sz) C initRoot s) : ∃ v, Shape s v := by
  refine run_invariant (I := fun s => ∃ v, Shape s v) ?_ hrun ⟨initView, initRoot_shape⟩
  rintro s op t ⟨v, hv⟩ hc hnext
  obtain ⟨t', v', hrun', ht', -⟩ := next_shape hv (hC s op hc)
  rw [hnext] at hrun'
  cases hrun'
  exact ⟨v', ht'⟩

theorem initRoot_owned : Owned initRoot initView := by
  intro a n hn
  by_cases ha : a = 0
  · exact .inl ha
  · simp [initRoot, Function.update_of_ne ha] at hn

/-- Runs of calls that also drop no children. -/
theorem run_owned {C : Bus → Op → Prop} (hC : ∀ s op, C s op → s.keepsShape sz op = true ∧ s.keepsLinked op = true)
    (hrun : Run (Bus.next sz) C initRoot s) : ∃ v, Shape s v ∧ Owned s v := by
  refine run_invariant (I := fun s => ∃ v, Shape s v ∧ Owned s v) ?_ hrun ⟨initView, initRoot_shape, initRoot_owned⟩
  rintro s op t ⟨v, hv, ho⟩ hc hnext
  obtain ⟨hk, hl⟩ := hC s op hc
  obtain ⟨t', v', hrun', ht', ho'⟩ := next_shape hv hk
  rw [hnext] at hrun'
  cases hrun'
  exact ⟨v', ht', ho' ho hl⟩

end Steps

end OneWifiTestSuite.BusTree
