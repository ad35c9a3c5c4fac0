import OneWifiTestSuite.BusEdits

/-!
# Registrations in the bus tree

What `bus_insert_elem_node` does to the shape of the tree: a token is found or creates a node
(`insertToken_spec`), and the element's data and row template are set in the end.
-/

namespace OneWifiTestSuite.BusTree

open Cells ByteRegion

/-! ### One token -/

section Token

variable (sz : Sizes) {s : Bus} {v : View}

/-- The rows that come to show the children of `cur` when it gets its first child: `cur` is in a
table, and they are childless and behind it. -/
def Links (s : Bus) (v : View) (cur x : ℕ) : Prop :=
  v.shown cur = [] ∧ ∃ p nm nm', s.typeOf p = some .table ∧ (cur, nm) ∈ v.kids p ∧ (x, nm') ∈ v.kids p ∧
    cur < x ∧ isStringDigit nm' = true ∧ v.shown x = []

/-- What the creation of a node for a token at `cur` changes. -/
structure Created (s : Bus) (v : View) (cur : ℕ) (nm : Name) (s' : Bus) (v' : View) : Prop where
  shape : Shape s' v'
  kids : v'.kids = (v.addKid (v.owner cur) (s.fresh, nm)).kids
  linked : ∀ x, Links s v cur x → v'.owner x = cur
  others : ∀ x, ¬ Links s v cur x → v'.owner x = v.owner x
  fresh : s'.fresh = s.fresh + 1
  freed : s'.freed = s.freed
  own_new : ∀ n, s'.mem s.fresh = some n → n.reference = false
  own_old : ∀ a n', a ≠ s.fresh → s'.mem a = some n' → n'.reference = true →
    v'.owner a ≠ a ∨ ∃ n, s.mem a = some n ∧ n.reference = true
  info_new : s'.infoOf s.fresh = some (none, none, none)
  info_old : ∀ a, a ≠ s.fresh → s'.infoOf a = s.infoOf a

theorem typeOf_eq_infoOf (s : Bus) (a : ℕ) : s.typeOf a = (s.infoOf a).bind Prod.fst := by
  cases hn : s.mem a with
  | none =>
      simp [Bus.typeOf, Bus.infoOf, hn]
  | some n =>
      simp [Bus.typeOf, Bus.infoOf, hn, Node.info]

/-- The siblings behind a child. -/
theorem Shape.behind (h : Shape s v) {p c : ℕ} {nm : Name} {n : Node} (hc : (c, nm) ∈ v.kids p)
    (hn : s.mem c = some n) : ∃ l, l.Sublist (v.kids p) ∧ Chain (cells s.mem) n.nextSibling l ∧
      (∀ x, x ∈ l ↔ x ∈ v.kids p ∧ c < x.1) := by
  obtain ⟨np, hnp, hr⟩ := h.holder p (List.ne_nil_of_mem hc)
  have hchain := h.chain p np hnp (.inl hr)
  rw [View.shown, h.owner_of_own hnp hr] at hchain
  have hsorted := h.sorted p
  obtain ⟨l₁, l₂, hl⟩ := List.append_of_mem hc
  rw [hl] at hchain hsorted
  obtain ⟨r, -, -, nx, hcell, hrest⟩ := seg_append.mp hchain
  rw [cells_eq hn] at hcell
  cases hcell
  rw [List.map_append, List.map_cons, List.pairwise_append, List.pairwise_cons] at hsorted
  obtain ⟨-, ⟨hafter, -⟩, hbefore⟩ := hsorted
  refine ⟨l₂, ?_, hrest, ?_⟩
  · rw [hl]
    exact (List.sublist_cons_self _ _).trans (List.sublist_append_right _ _)
  · intro x
    rw [hl]
    constructor
    · intro hx
      exact ⟨by simp [hx], hafter x.1 (List.mem_map_of_mem hx)⟩
    · rintro ⟨hx, hlt⟩
      obtain hx | hx := List.mem_append.mp hx
      · have := hbefore x.1 (List.mem_map_of_mem hx) c (by simp)
        omega
      · obtain rfl | hx := List.mem_cons.mp hx
        · exact absurd hlt (Nat.lt_irrefl _)
        · exact hx

theorem createSibling_spec (h : Shape s v) {cur b : ℕ} (tok : Name) {nmb : Name}
    (hlast : (v.shown cur).getLast? = some (b, nmb)) :
    ∃ nb, s.mem b = some nb ∧
      s.createSibling sz b tok = some (s.withSibling (v.owner cur) b nb (tok.take (sz.nodeName - 1)), s.fresh) ∧
      Created s v cur (tok.take (sz.nodeName - 1)) (s.withSibling (v.owner cur) b nb (tok.take (sz.nodeName - 1)))
        (v.addKid (v.owner cur) (s.fresh, tok.take (sz.nodeName - 1))) := by
  obtain ⟨l, hl⟩ := List.getLast?_eq_some_iff.mp hlast
  have hb : (b, nmb) ∈ v.kids (v.owner cur) := by
    rw [← View.shown, hl]
    simp
  obtain ⟨-, nb, hnb, hparent⟩ := h.kid _ _ hb
  obtain ⟨no, hno, hown⟩ := h.holder _ (List.ne_nil_of_mem hb)
  have hlt : b < s.fresh := h.bound b nb hnb
  have hmem : ∀ a, (s.withSibling (v.owner cur) b nb (tok.take (sz.nodeName - 1))).mem a = _ :=
    fun a => Bus.write_alloc_mem hlt
  have hno' : ∀ x, ¬ Links s v cur x := fun x hx => by
    rw [hx.1] at hlast
    cases hlast
  refine ⟨nb, hnb, ?_, h.withSibling hl hnb, rfl,
    fun x hx => absurd hx (hno' x), fun x _ => rfl, rfl, rfl, ?_, ?_, ?_, ?_⟩
  · simp only [Bus.createSibling, Bus.withSibling, newNode, hnb, hparent, hno, Option.bind_eq_bind, Option.bind_some]
  · intro n hn
    simp only [hmem, Nat.ne_of_gt hlt, if_false, if_true, Option.some.injEq] at hn
    rw [← hn]
    rfl
  · intro a n' ha hn' hr
    by_cases hab : a = b
    · subst hab
      simp only [hmem, if_true, Option.some.injEq] at hn'
      exact .inr ⟨nb, hnb, by rw [← hr, ← hn']⟩
    · simp only [hmem, hab, ha, if_false] at hn'
      exact .inr ⟨n', hn', hr⟩
  · simp [Bus.infoOf, hmem, Nat.ne_of_gt hlt, newNode, emptyElemNode, Node.info]
  · intro a ha
    by_cases hab : a = b
    · subst hab
      simp [Bus.infoOf, hmem, hnb, Node.info]
    · simp [Bus.infoOf, hmem, hab, ha]

theorem createChild_spec (h : Shape s v) {cur : ℕ} {n : Node} (tok : Name) (hl : v.Linked cur)
    (hn : s.mem cur = some n) (hshown : v.shown cur = []) (hown : n.reference = false) :
    ∃ s' v', s.createChild sz cur tok = some (s', s.fresh) ∧ Created s v cur (tok.take (sz.nodeName - 1)) s' v' := by
  have hself : v.owner cur = cur := h.owner_of_own hn hown
  have hkids : v.kids cur = [] := by rw [View.shown, hself] at hshown; exact hshown
  have hlt : cur < s.fresh := h.bound cur n hn
  have hcf : cur ≠ s.fresh := Nat.ne_of_lt hlt
  -- no row shows an empty list of another node
  have halone : ∀ r, v.owner r = cur → r = cur := by
    intro r hr
    obtain he | ⟨hne, -⟩ := h.owner r
    · exact he.symm.trans hr
    · exact absurd (by rw [View.shown, hr, hkids]) hne
  have hs₁ := h.setKid { n with child := some s.fresh } (tok.take (sz.nodeName - 1)) hn hown halone
    (by rw [← hown]; rfl)
  rw [View.setKid_of_nil _ hkids] at hs₁
  generalize hnm : tok.take (sz.nodeName - 1) = nm at *
  generalize hs₁e : (s.alloc (newNode cur nm)).write cur { n with child := some s.fresh } = s₁ at hs₁
  have hmem : ∀ a, s₁.mem a = if a = cur then some { n with child := some s.fresh } else
      if a = s.fresh then some (newNode cur nm) else s.mem a := by
    intro a
    rw [← hs₁e]
    exact Bus.write_alloc_mem hlt
  have hfresh₁ : s₁.fresh = s.fresh + 1 := by rw [← hs₁e]; rfl
  have hfreed₁ : s₁.freed = s.freed := by rw [← hs₁e]; rfl
  have hmem₁ : s₁.mem cur = some { n with child := some s.fresh } := by simp [hmem]
  have hown_new : ∀ n, s₁.mem s.fresh = some n → n.reference = false := by
    intro n' hn'
    simp only [hmem, Ne.symm hcf, if_false, if_true, Option.some.injEq] at hn'
    rw [← hn']
    rfl
  have hown_old : ∀ a n', a ≠ s.fresh → s₁.mem a = some n' → n'.reference = true →
      ∃ n, s.mem a = some n ∧ n.reference = true := by
    intro a n' ha hn' hr
    by_cases hac : a = cur
    · subst hac
      rw [hmem₁] at hn'
      cases hn'
      exact ⟨n, hn, hr⟩
    · simp only [hmem, hac, ha, if_false] at hn'
      exact ⟨n', hn', hr⟩
  have hinfo_new : s₁.infoOf s.fresh = some (none, none, none) := by
    simp [Bus.infoOf, hmem, Ne.symm hcf, newNode, emptyElemNode, Node.info]
  have hinfo_old : ∀ a, a ≠ s.fresh → s₁.infoOf a = s.infoOf a := by
    intro a ha
    by_cases hac : a = cur
    · subst hac
      simp [Bus.infoOf, hmem, hn, Node.info]
    · simp [Bus.infoOf, hmem, hac, ha]
  have hcode : s.createChild sz cur tok = (s₁.isGrandparentTable cur).bind fun g =>
      if g then (s₁.linkTablesWithNode cur).bind fun s' => some (s', s.fresh) else some (s₁, s.fresh) := by
    have hcur : (s.alloc (newNode cur nm)).mem cur = some n := by simp [Bus.alloc, hcf, hn]
    rw [← hs₁e, ← hnm]
    rw [← hnm] at hcur
    simp only [newNode] at hcur
    simp only [Bus.createChild, hcur, newNode, Option.bind_eq_bind, Option.bind_some]
  have hkids₁ : ∀ {a x}, x ∈ v.kids a → x ∈ (v.addKid cur (s.fresh, nm)).kids a :=
    fun hx => View.mem_addKid.mpr (.inl hx)
  have hplain : (∀ x, ¬ Links s v cur x) → Created s v cur nm s₁ (v.addKid cur (s.fresh, nm)) := fun hno =>
    ⟨hs₁, by rw [hself], fun x hx => absurd hx (hno x), fun x _ => rfl, hfresh₁, hfreed₁, hown_new,
      fun a n' ha hn' hr => .inr (hown_old a n' ha hn' hr), hinfo_new, hinfo_old⟩
  obtain rfl | ⟨p, nmc, hc⟩ := hl
  · -- the root is in no table
    obtain ⟨n₀, hn₀, hp₀, -⟩ := h.root
    rw [hn] at hn₀
    cases hn₀
    refine ⟨s₁, _, ?_, hplain ?_⟩
    · rw [hcode]
      simp [Bus.isGrandparentTable, hmem₁, hp₀]
    · rintro x ⟨-, p, nm₁, nm₂, -, hc, -⟩
      exact absurd (h.kid _ _ hc).1 (Nat.not_lt_zero _)
  · have hpc : p < cur := (h.kid p _ hc).1
    obtain ⟨np, hnp, -⟩ := h.holder p (List.ne_nil_of_mem hc)
    have hp₁ : s₁.mem p = some np := by
      have hpf : p ≠ s.fresh := by omega
      simp [hmem, Nat.ne_of_lt hpc, hpf, hnp]
    have hparent := h.parent_eq hc hn
    have hg : s₁.isGrandparentTable cur = some (decide (np.type = some .table)) := by
      simp [Bus.isGrandparentTable, hmem₁, hparent, hp₁]
    by_cases htable : np.type = some .table
    · -- the rows behind are linked
      have hc₁ : (cur, nmc) ∈ (v.addKid cur (s.fresh, nm)).kids p := hkids₁ hc
      obtain ⟨l, hsub, hchain, hl⟩ := hs₁.behind hc₁ hmem₁
      have hnotin : cur ∉ l.map Prod.fst := by
        intro hm
        obtain ⟨x, hx, he⟩ := List.mem_map.mp hm
        have := ((hl x).mp hx).2
        omega
      have hlen : l.length ≤ s₁.fresh + 1 := by
        have := hsub.length_le
        have := hs₁.length_kids_le p
        omega
      have hne : (v.addKid cur (s.fresh, nm)).kids cur ≠ [] := by
        rw [View.addKid_kids_self]
        simp
      obtain ⟨s₂, v₂, hrun, hs₂, hk₂, hin, hout, hf₂, hfr₂, hinfo₂⟩ :=
        hs₁.linkFrom hc₁ hmem₁ hown hne hsub hnotin hchain hlen
      have hlinks : ∀ x, (v.addKid cur (s.fresh, nm)).Linkable l x ↔ Links s v cur x := by
        intro x
        have hshownx : cur < x → ((v.addKid cur (s.fresh, nm)).shown x = [] ↔ v.shown x = []) := by
          intro hx
          have hox : v.owner x ≠ cur := fun e => by
            have := halone x e
            omega
          rw [View.shown, View.addKid_owner, View.addKid_kids_of_ne v _ hox, View.shown]
        have hpcur : p ≠ cur := Nat.ne_of_lt hpc
        constructor
        · rintro ⟨nmx, hx, hd, hsh⟩
          obtain ⟨hx, hlt'⟩ := (hl _).mp hx
          rw [View.addKid_kids_of_ne v _ hpcur] at hx
          exact ⟨hshown, p, nmc, nmx, by rw [typeOf_eq hnp, htable], hc, hx, hlt', hd, (hshownx hlt').mp hsh⟩
        · rintro ⟨-, p', nm₁, nmx, -, hc', hx, hlt', hd, hsh⟩
          have hpp : p' = p := h.parent_unique hc' hc
          subst hpp
          exact ⟨nmx, (hl _).mpr ⟨hkids₁ hx, hlt'⟩, hd, (hshownx hlt').mpr hsh⟩
      have hfresh_out : ¬ Links s v cur s.fresh := by
        rintro ⟨-, p', -, nmx, -, -, hx, -⟩
        exact Nat.lt_irrefl _ (h.kid_lt_fresh hx)
      have hfresh₂ : s₂.mem s.fresh = s₁.mem s.fresh := (hout _ fun hx => hfresh_out ((hlinks _).mp hx)).2
      refine ⟨s₂, v₂, ?_, hs₂, by rw [hk₂, hself], ?_, ?_, by omega, hfr₂.trans hfreed₁,
        fun n' hn' => hown_new n' (hfresh₂ ▸ hn'), fun a n' ha hn' hr => ?_, (hinfo₂ _).trans hinfo_new,
        fun a ha => (hinfo₂ a).trans (hinfo_old a ha)⟩
      · have hlink : s₁.linkTablesWithNode cur = some s₂ := by
          simp only [Bus.linkTablesWithNode, hmem₁, Option.bind_eq_bind, Option.bind_some]
          exact hrun
        rw [hcode, hg, hlink]
        simp [htable]
      · exact fun x hx => hin x ((hlinks x).mpr hx)
      · exact fun x hx => (hout x fun hy => hx ((hlinks x).mp hy)).1
      · by_cases hlink : (v.addKid cur (s.fresh, nm)).Linkable l a
        · refine .inl ?_
          rw [hin a hlink]
          obtain ⟨-, _, _, _, -, -, -, hlt', -⟩ := (hlinks a).mp hlink
          exact Nat.ne_of_lt hlt'
        · rw [(hout a hlink).2] at hn'
          exact .inr (hown_old a n' ha hn' hr)
    · refine ⟨s₁, _, ?_, hplain ?_⟩
      · rw [hcode, hg]
        simp [htable]
      · rintro x ⟨-, p', nm₁, nm₂, ht, hc', -⟩
        have hpp : p' = p := h.parent_unique hc' hc
        subst hpp
        rw [typeOf_eq hnp] at ht
        exact htable ht

/-- **One token** is found among the children shown or creates a node there. -/
theorem insertToken_spec (h : Shape s v) {cur : ℕ} (tok : Name) (hl : v.Linked cur)
    (hown : v.shown cur = [] → ∀ n, s.mem cur = some n → n.reference = false) :
    (∃ c, named (v.shown cur) tok = some c ∧ s.insertToken sz cur tok = some (s, c)) ∨
    named (v.shown cur) tok = none ∧ ∃ s' v', s.insertToken sz cur tok = some (s', s.fresh) ∧
      Created s v cur (tok.take (sz.nodeName - 1)) s' v' := by
  obtain ⟨n, hn⟩ := h.alive_of_linked hl
  by_cases hshown : v.shown cur = []
  · have hnone : n.child = none := (h.child_eq_none hl hn).mpr hshown
    obtain ⟨s', v', hrun, hcreated⟩ := createChild_spec sz h tok hl hn hshown (hown hshown n hn)
    refine .inr ⟨by simp [named, hshown], s', v', ?_, hcreated⟩
    simp only [Bus.insertToken, hn, hnone, Option.bind_eq_bind, Option.bind_some]
    exact hrun
  · obtain ⟨x, b, nmb, hsome, hlast, hsearch⟩ := h.searchSiblings_shown hl hn hshown tok
    cases hnamed : named (v.shown cur) tok with
    | some c =>
        rw [hnamed] at hsearch
        refine .inl ⟨c, rfl, ?_⟩
        simp [Bus.insertToken, hn, hsome, hsearch]
    | none =>
        rw [hnamed] at hsearch
        obtain ⟨nb, -, hrun, hcreated⟩ := createSibling_spec sz h tok hlast
        refine .inr ⟨rfl, _, _, ?_, hcreated⟩
        simp only [Bus.insertToken, hn, hsome, hsearch, Option.bind_eq_bind, Option.bind_some]
        exact hrun

end Token

/-! ### All tokens -/

section Tokens

/-- Every allocated node is linked. -/
def Owned (s : Bus) (v : View) : Prop :=
  ∀ a n, s.mem a = some n → v.Linked a

/-- The deepest node for a name, and the tokens behind it. -/
def Bus.deepest (s : Bus) : ℕ → List Name → Option (ℕ × List Name)
  | cur, [] => some (cur, [])
  | cur, tok :: toks => do
      let n ← s.mem cur
      match ← s.lookup n.child tok with
      | none => some (cur, tok :: toks)
      | some c => s.deepest c toks

variable (sz : Sizes) {s s' : Bus} {v v' : View} {cur : ℕ} {nm : Name}

theorem Created.shown_new (hc : Created s v cur nm s' v') (h : Shape s v) (hl : v.Linked cur) :
    v'.shown s.fresh = [] := by
  have hout : ¬ Links s v cur s.fresh := by
    rintro ⟨-, p, -, nmx, -, -, hx, -⟩
    exact Nat.lt_irrefl _ (h.kid_lt_fresh hx)
  obtain ⟨n, hn⟩ := h.alive_of_linked (h.linked_owner hl)
  have hne : s.fresh ≠ v.owner cur := by
    have := h.bound _ n hn
    omega
  rw [View.shown, hc.others _ hout, h.owner_of_dead h.fresh_dead, hc.kids, View.addKid_kids_of_ne v _ hne]
  exact h.kids_of_dead h.fresh_dead

theorem Created.linked_iff (hc : Created s v cur nm s' v') (a : ℕ) : v'.Linked a ↔ v.Linked a ∨ a = s.fresh := by
  unfold View.Linked
  rw [hc.kids]
  exact View.linked_addKid

theorem Created.linked_new (hc : Created s v cur nm s' v') : v'.Linked s.fresh :=
  (hc.linked_iff _).mpr (.inr rfl)

theorem Created.owned (hc : Created s v cur nm s' v') (ho : Owned s v) : Owned s' v' := by
  intro a n hn
  rw [hc.linked_iff]
  by_cases ha : a = s.fresh
  · exact .inr ha
  · have hinfo := hc.info_old a ha
    rw [Bus.infoOf, hn] at hinfo
    obtain ⟨n₀, hn₀, -⟩ := Option.map_eq_some_iff.mp hinfo.symm
    exact .inl (ho a n₀ hn₀)

theorem Shape.deepest_cons (h : Shape s v) {tok : Name} (toks : List Name) (hl : v.Linked cur) :
    s.deepest cur (tok :: toks) =
      match named (v.shown cur) tok with
      | none => some (cur, tok :: toks)
      | some c => s.deepest c toks := by
  obtain ⟨n, hn⟩ := h.alive_of_linked hl
  simp only [Bus.deepest, hn, h.lookup_eq hl hn, Option.bind_eq_bind, Option.bind_some]

/-- **All tokens**: the nodes behind the deepest one are created. -/
theorem insertTokens_spec (h : Shape s v) (hl : v.Linked cur) {toks : List Name} {a : ℕ} {rest : List Name}
    (hd : s.deepest cur toks = some (a, rest))
    (hown : rest ≠ [] → ∀ n, s.mem a = some n → n.child = none → n.reference = false) :
    ∃ s' c v', s.insertTokens sz cur toks = some (s', c) ∧ Shape s' v' ∧ v'.Linked c ∧ (Owned s v → Owned s' v') ∧
      (rest = [] → s' = s ∧ c = a ∧ v' = v) ∧
      (rest ≠ [] → v'.shown c = [] ∧ ∀ n, s'.mem c = some n → n.reference = false) := by
  induction toks generalizing s v cur a rest with
  | nil =>
      cases hd
      exact ⟨s, _, v, rfl, h, hl, id, fun _ => ⟨rfl, rfl, rfl⟩, fun e => absurd rfl e⟩
  | cons tok toks ih =>
      rw [h.deepest_cons toks hl] at hd
      have hown' : v.shown cur = [] → ∀ n, s.mem cur = some n → n.reference = false := by
        intro hsh n hn
        rw [hsh] at hd
        cases hd
        exact hown (by simp) n hn ((h.child_eq_none hl hn).mpr hsh)
      obtain ⟨c, hnamed, hrun⟩ | ⟨hnamed, s₁, v₁, hrun, hc⟩ := insertToken_spec sz h tok hl hown'
      · rw [hnamed] at hd
        obtain ⟨s', c', v', hrun', hrest⟩ := ih h (View.linked_of_named hnamed) hd hown
        exact ⟨s', c', v', by simp [Bus.insertTokens, hrun, hrun'], hrest⟩
      · rw [hnamed] at hd
        cases hd
        have hshown := hc.shown_new h hl
        -- from the new node on, every token creates one
        have hd₁ : s₁.deepest s.fresh toks = some (s.fresh, toks) := by
          cases toks with
          | nil =>
              rfl
          | cons t ts =>
              rw [hc.shape.deepest_cons ts hc.linked_new, hshown]
              rfl
        obtain ⟨s', c', v', hrun', hs', hl', ho', hnil, hcons⟩ :=
          ih hc.shape hc.linked_new hd₁ fun _ n hn _ => hc.own_new n hn
        refine ⟨s', c', v', by simp [Bus.insertTokens, hrun, hrun'], hs', hl', fun ho => ho' (hc.owned ho), by simp, ?_⟩
        intro _
        by_cases htoks : toks = []
        · obtain ⟨rfl, rfl, rfl⟩ := hnil htoks
          exact ⟨hshown, hc.own_new⟩
        · exact hcons htoks

end Tokens

/-! ### The element -/

section Element

/-- A row shares the children at a pointer. -/
def Bus.sharedAt (s : Bus) (p : Option ℕ) : Bool :=
  p ≠ none && (List.range s.fresh).any fun r => (s.mem r).any fun n => n.reference && n.child = p

/-- Registering the element neither gives a row children of its own nor takes children away that
rows share. -/
def Bus.takes (s : Bus) (e : Elem) : Bool :=
  match s.deepest 0 e.tokens with
  | none => false
  | some (a, rest) =>
      match s.mem a with
      | none => false
      | some n =>
          if rest = [] then e.type ≠ .table || !n.reference && !s.sharedAt n.child
          else n.child ≠ none || !n.reference

/-- Registering the element drops no children. -/
def Bus.dropsNone (s : Bus) (e : Elem) : Bool :=
  match s.deepest 0 e.tokens with
  | none => false
  | some (a, rest) => rest ≠ [] || e.type ≠ .table || (s.mem a).all fun n => n.child = none

variable (sz : Sizes) {s : Bus} {v : View}

/-- Children that no row shares are shown by their owner alone. -/
theorem Shape.alone (h : Shape s v) {a : ℕ} {n : Node} (hn : s.mem a = some n) (hown : n.reference = false)
    (hshared : s.sharedAt n.child = false) (r : ℕ) (hr : v.owner r = a) : r = a := by
  obtain he | ⟨hne, ⟨nr, hnr, href⟩, p, nm, nm', hp, -⟩ := h.owner r
  · exact he.symm.trans hr
  · exfalso
    have hchain := h.chain_of_linked (.inr ⟨p, nm, hp⟩) hnr
    have hchain' := h.chain a n hn (.inl hown)
    rw [View.shown, h.owner_of_own hn hown, ← hr, ← View.shown] at hchain'
    obtain ⟨x, l, hl⟩ := List.exists_cons_of_ne_nil hne
    rw [hl] at hchain hchain'
    have hrn : nr.child = n.child := hchain.1.trans hchain'.1.symm
    have hall : s.sharedAt n.child = true := by
      have hsome : n.child ≠ none := by simp [hchain'.1]
      simp only [Bus.sharedAt, hsome, ne_eq, not_false_eq_true, decide_true, Bool.true_and, List.any_eq_true,
        List.mem_range]
      exact ⟨r, h.bound r nr hnr, by simp [hnr, href, hrn]⟩
    rw [hall] at hshared
    cases hshared

theorem setElem_spec (h : Shape s v) (e : Elem) {a : ℕ} (hl : v.Linked a)
    (hown : e.type = .table → ∀ n, s.mem a = some n → n.reference = false)
    (halone : e.type = .table → ∀ r, v.owner r = a → r = a) :
    ∃ s' v', s.setElem a e = some s' ∧ Shape s' v' ∧ (Owned s v → (e.type = .table → v.kids a = []) → Owned s' v') := by
  obtain ⟨n, hn⟩ := h.alive_of_linked hl
  have hs₁ := h.write_of_links { n with type := some e.type, dataType := some e.dataType, data := some e.cfgData } hn rfl
  generalize hs₁e : s.write a { n with type := some e.type, dataType := some e.dataType, data := some e.cfgData } = s₁ at hs₁
  have hmem : ∀ b, s₁.mem b = if b = a then
      some { n with type := some e.type, dataType := some e.dataType, data := some e.cfgData } else s.mem b := by
    intro b
    rw [← hs₁e]
    by_cases hb : b = a
    · simp [hb, Bus.write]
    · simp [hb, Bus.write]
  have ho₁ : Owned s v → Owned s₁ v := by
    intro ho b nb hnb
    by_cases hb : b = a
    · exact hb ▸ hl
    · simp only [hmem, hb, if_false] at hnb
      exact ho b nb hnb
  by_cases htable : e.type = .table
  · have hn₁ : s₁.mem a = some { n with type := some e.type, dataType := some e.dataType, data := some e.cfgData } := by
      simp [hmem]
    have hr := hown htable n hn
    have hs₂ := hs₁.setKid
      { n with type := some e.type, dataType := some e.dataType, data := some e.cfgData, child := some s₁.fresh }
      template hn₁ hr (halone htable) (by rw [← hr]; rfl)
    refine ⟨_, _, ?_, hs₂, ?_⟩
    · simp only [Bus.setElem, hn, htable, if_true, Option.bind_eq_bind, Option.bind_some]
      rw [htable] at hs₁e
      rw [hs₁e]
      rfl
    · intro ho hnil b nb hnb
      rw [View.setKid_of_nil _ (hnil htable), View.linked_addKid]
      have hlt : a < s₁.fresh := hs₁.bound a _ hn₁
      rw [Bus.write_alloc_mem hlt] at hnb
      split_ifs at hnb with hba hbf
      · exact .inl (hba ▸ hl)
      · exact .inr hbf
      · exact .inl (ho₁ ho b nb hnb)
  · refine ⟨s₁, v, ?_, hs₁, fun ho _ => ho₁ ho⟩
    simp [Bus.setElem, hn, htable, hs₁e]

/-- **A registration** that takes its place keeps the shape of the tree, and when it drops no
children every node stays linked. -/
theorem insertElemNode_spec (h : Shape s v) {e : Elem} (hfits : (copyName sz e.fullName).isSome = true)
    (htakes : s.takes e = true) :
    ∃ s' c v', insertElemNode sz s e = some (s', c) ∧ Shape s' v' ∧
      (Owned s v → s.dropsNone e = true → Owned s' v') := by
  obtain ⟨nm, hnm⟩ := Option.isSome_iff_exists.mp hfits
  unfold Bus.takes at htakes
  cases hd : s.deepest 0 e.tokens with
  | none =>
      simp [hd] at htakes
  | some x =>
      obtain ⟨a, rest⟩ := x
      simp only [hd] at htakes
      cases hn : s.mem a with
      | none =>
          simp [hn] at htakes
      | some n =>
          simp only [hn] at htakes
          have hown : rest ≠ [] → ∀ n', s.mem a = some n' → n'.child = none → n'.reference = false := by
            intro hrest n' hn' hchild
            rw [hn] at hn'
            cases hn'
            simpa [hrest, hchild] using htakes
          obtain ⟨s₁, c, v₁, hrun, hs₁, hl₁, ho₁, hnil, hcons⟩ := insertTokens_spec sz h (.inl rfl) hd hown
          have hset : (e.type = .table → ∀ n, s₁.mem c = some n → n.reference = false) ∧
              (e.type = .table → ∀ r, v₁.owner r = c → r = c) := by
            by_cases hrest : rest = []
            · obtain ⟨rfl, rfl, rfl⟩ := hnil hrest
              have hfree : e.type = .table → n.reference = false ∧ s₁.sharedAt n.child = false := by
                intro ht
                simpa [hrest, ht] using htakes
              refine ⟨fun ht n' hn' => ?_, fun ht => hs₁.alone hn (hfree ht).1 (hfree ht).2⟩
              rw [hn] at hn'
              cases hn'
              exact (hfree ht).1
            · obtain ⟨hshown, hr⟩ := hcons hrest
              refine ⟨fun _ => hr, fun _ r hr' => ?_⟩
              obtain ⟨nc, hnc⟩ := hs₁.alive_of_linked hl₁
              obtain he | ⟨hne, -⟩ := hs₁.owner r
              · exact he.symm.trans hr'
              · rw [View.shown, hr', ← hs₁.owner_of_own hnc (hr nc hnc), ← View.shown] at hne
                exact absurd hshown hne
          obtain ⟨s₂, v₂, hrun₂, hs₂, ho₂⟩ := setElem_spec hs₁ e hl₁ hset.1 hset.2
          refine ⟨s₂, c, v₂, ?_, hs₂, fun ho hdrop => ho₂ (ho₁ ho) fun ht => ?_⟩
          · simp [insertElemNode, hnm, hrun, hrun₂]
          · by_cases hrest : rest = []
            · obtain ⟨rfl, rfl, rfl⟩ := hnil hrest
              have hchild : n.child = none := by
                simpa [Bus.dropsNone, hd, hrest, ht, hn] using hdrop
              have hshown := (hs₁.child_eq_none hl₁ hn).mp hchild
              rw [View.shown, hs₁.owner_of_own hn (hset.1 ht n hn)] at hshown
              exact hshown
            · obtain ⟨hshown, hr⟩ := hcons hrest
              obtain ⟨nc, hnc⟩ := hs₁.alive_of_linked hl₁
              rw [View.shown, hs₁.owner_of_own hnc (hr nc hnc)] at hshown
              exact hshown

end Element

end OneWifiTestSuite.BusTree
