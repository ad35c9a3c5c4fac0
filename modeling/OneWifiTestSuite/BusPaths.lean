import OneWifiTestSuite.BusRegistry
import OneWifiTestSuite.BusRows

/-!
# The paths of bus nodes

`Rep` ties a tree to the known paths, their information and the rows: every linked node has its path,
and the walk of a lookup ends at the node of the path that it reads (`Rep.descend_eq`). The edits of a
registration keep it: new nodes (`Rep.insertTokens`), a new row template and new data.
-/

namespace OneWifiTestSuite.BusTree

open Cells Runs ByteRegion

/-! ### Paths -/

section Paths

variable {rows : Path → Prop} {p q : Path}

theorem basePath_of_not (h : ¬ rows p) : basePath rows p = p := by
  simp [basePath, h]

theorem basePath_of_row (h : rows p) : basePath rows p = p.dropLast ++ [template] := by
  simp [basePath, h]

/-- Below a path without rows, tokens are just appended. -/
theorem placePath_of_no_rows {toks : List Name} (h : ∀ q, ¬ rows (p ++ q)) : placePath rows p toks = p ++ toks := by
  induction toks generalizing p with
  | nil =>
      simp [placePath]
  | cons tok toks ih =>
      have hp : ¬ rows p := by simpa using h []
      rw [placePath, basePath_of_not hp, ih fun q => by simpa using h ([tok] ++ q)]
      simp

theorem readPath_ne_nil {I : Path → Info} {wild : Bool} (hp : p ≠ []) (toks : List Name) :
    readPath rows I wild p toks ≠ [] := by
  induction toks generalizing p wild with
  | nil =>
      exact hp
  | cons tok toks ih =>
      exact ih (by simp)

theorem readPath_cons_ne_nil (I : Path → Info) (wild : Bool) (tok : Name) (toks : List Name) :
    readPath rows I wild p (tok :: toks) ≠ [] :=
  readPath_ne_nil (by simp) toks

end Paths

/-! ### The tree and its paths -/

section Represents

/-- The tree stands for the known paths `K` with the information `I` and the rows; `path` gives each
node its path. -/
structure Rep (s : Bus) (v : View) (path : ℕ → Path) (K : Path → Prop) (I : Path → Info) (rows : Path → Prop) :
    Prop where
  shape : Shape s v
  path_root : path 0 = []
  path_kid : ∀ a c nm, (c, nm) ∈ v.kids a → path c = path a ++ [nm]
  names : ∀ a, ((v.kids a).map Prod.snd).Nodup
  rooted : ∀ a, v.kids a ≠ [] → v.Linked a
  known : ∀ p, K p ↔ p ≠ [] ∧ ∃ c, v.Linked c ∧ path c = p
  info : ∀ c, v.Linked c → s.infoOf c = some (I (path c))
  info_unknown : ∀ p, ¬ K p → I p = (none, none, none)
  row_iff : ∀ c, v.Linked c → (v.owner c ≠ c ↔ rows (path c))
  row_known : ∀ p, rows p → K p
  row_owner : ∀ c, v.Linked c → v.owner c ≠ c → path (v.owner c) = (path c).dropLast ++ [template]
  ref_row : ∀ c n, v.Linked c → s.mem c = some n → n.reference = true → v.owner c ≠ c
  template_first : ∀ p, v.Linked p → s.typeOf p = some .table → ∃ t l, v.kids p = (t, template) :: l

variable {s s' : Bus} {v v' : View} {path : ℕ → Path} {K : Path → Prop} {I : Path → Info} {rows : Path → Prop}

namespace Rep

variable (h : Rep s v path K I rows)

include h

/-- Different nodes have different paths. -/
theorem path_inj {a b : ℕ} (ha : v.Linked a) (hb : v.Linked b) (he : path a = path b) : a = b := by
  induction a using Nat.strong_induction_on generalizing b with
  | _ a ih =>
      obtain rfl | ⟨p, nm, hp⟩ := ha
      · obtain rfl | ⟨q, nm', hq⟩ := hb
        · rfl
        · rw [h.path_root, h.path_kid _ _ _ hq] at he
          simp at he
      · obtain rfl | ⟨q, nm', hq⟩ := hb
        · rw [h.path_root, h.path_kid _ _ _ hp] at he
          simp at he
        · rw [h.path_kid _ _ _ hp, h.path_kid _ _ _ hq] at he
          obtain ⟨hpq, hnm⟩ := List.append_inj' he rfl
          have hpe := ih p (h.shape.kid p _ hp).1 (h.rooted p (List.ne_nil_of_mem hp))
            (h.rooted q (List.ne_nil_of_mem hq)) hpq
          subst hpe
          have hnm' : nm = nm' := by simpa using hnm
          subst hnm'
          exact congrArg Prod.fst (List.inj_on_of_nodup_map (h.names p) hp hq rfl)

theorem base_eq {a : ℕ} (ha : v.Linked a) : basePath rows (path a) = path (v.owner a) := by
  by_cases ho : v.owner a = a
  · rw [basePath_of_not fun hr => (h.row_iff a ha).mpr hr ho, ho]
  · rw [basePath_of_row ((h.row_iff a ha).mp ho), h.row_owner a ha ho]

/-- The child that a node shows under a name is the node of the path. -/
theorem named_iff {a c : ℕ} (ha : v.Linked a) (tok : Name) :
    named (v.shown a) tok = some c ↔ v.Linked c ∧ path c = path (v.owner a) ++ [tok] := by
  constructor
  · intro hc
    exact ⟨View.linked_of_named hc, h.path_kid _ _ _ (mem_of_named hc)⟩
  · rintro ⟨hc, hp⟩
    obtain rfl | ⟨q, nm, hq⟩ := hc
    · rw [h.path_root] at hp
      simp at hp
    · rw [h.path_kid _ _ _ hq] at hp
      obtain ⟨hqo, hnm⟩ := List.append_inj' hp rfl
      have hqe := h.path_inj (h.rooted q (List.ne_nil_of_mem hq)) (h.shape.linked_owner ha) hqo
      have hnm' : nm = tok := by simpa using hnm
      rw [hqe, hnm', ← View.shown] at hq
      cases hn : named (v.shown a) tok with
      | none =>
          exact absurd rfl (named_eq_none.mp hn _ hq)
      | some d =>
          have hd := mem_of_named hn
          have he : (d, tok) = (c, tok) := List.inj_on_of_nodup_map (h.names _) hd hq rfl
          rw [(Prod.mk.inj he).1]

theorem named_eq_none_iff {a : ℕ} (ha : v.Linked a) (tok : Name) :
    named (v.shown a) tok = none ↔ ¬ K (path (v.owner a) ++ [tok]) := by
  rw [h.known]
  constructor
  · rintro hn ⟨-, c, hc, hp⟩
    rw [(h.named_iff ha tok).mpr ⟨hc, hp⟩] at hn
    cases hn
  · intro hk
    cases hn : named (v.shown a) tok with
    | none =>
        rfl
    | some c =>
        exact absurd ⟨by simp, c, (h.named_iff ha tok).mp hn⟩ hk

/-- The first parts of a known path are known. -/
theorem known_parent {p : Path} {nm : Name} (hk : K (p ++ [nm])) (hp : p ≠ []) : K p := by
  obtain ⟨-, c, hc, he⟩ := (h.known _).mp hk
  obtain rfl | ⟨q, nm', hq⟩ := hc
  · rw [h.path_root] at he
    simp at he
  · rw [h.path_kid _ _ _ hq] at he
    obtain ⟨hqp, -⟩ := List.append_inj' he rfl
    exact (h.known p).mpr ⟨hp, q, h.rooted q (List.ne_nil_of_mem hq), hqp⟩

theorem known_prefix {p : Path} (q : Path) (hk : K (p ++ q)) (hp : p ≠ []) : K p := by
  induction q using List.reverseRecOn with
  | nil =>
      simpa using hk
  | append_singleton q nm ih =>
      rw [← List.append_assoc] at hk
      exact ih (h.known_parent hk (by simp [hp]))

theorem typeOf_eq {a : ℕ} (ha : v.Linked a) : s.typeOf a = (I (path a)).1 := by
  rw [typeOf_eq_infoOf, h.info a ha]
  rfl

/-- What tokens read below an unknown path is unknown. -/
theorem read_unknown {wild : Bool} {p : Path} (hp : ¬ K p) (hne : p ≠ []) (toks : List Name) :
    ¬ K (readPath rows I wild p toks) := by
  induction toks generalizing wild p with
  | nil =>
      exact hp
  | cons tok toks ih =>
      have hrow : ¬ rows p := fun hr => hp (h.row_known p hr)
      simp only [readPath, basePath_of_not hrow]
      exact ih (fun hk => hp (h.known_parent hk hne)) (by simp)

/-- **A walk** ends at the node of the path that is read, if it is known. -/
theorem descend_eq {a : ℕ} (ha : v.Linked a) (wild : Bool) (toks : List Name) (c : ℕ) :
    v.descend s.typeOf wild a toks = some c ↔ v.Linked c ∧ path c = readPath rows I wild (path a) toks := by
  induction toks generalizing wild a with
  | nil =>
      constructor
      · intro hc
        cases hc
        exact ⟨ha, rfl⟩
      · rintro ⟨hc, hp⟩
        exact congrArg some (h.path_inj ha hc hp.symm)
  | cons tok toks ih =>
      have hto : s.typeOf (v.owner a) = (I (basePath rows (path a))).1 := by
        rw [h.typeOf_eq (h.shape.linked_owner ha), h.base_eq ha]
      have hread : (if s.typeOf (v.owner a) = some .table then readWild wild tok else (tok, wild)) =
          if (I (basePath rows (path a))).1 = some .table then readWild wild tok else (tok, wild) := by
        simp only [hto]
      simp only [View.descend, readPath, hread]
      generalize (if (I (basePath rows (path a))).1 = some .table then readWild wild tok else (tok, wild)) = r
      rw [h.base_eq ha]
      cases hn : named (v.shown a) r.1 with
      | none =>
          have hk := (h.named_eq_none_iff ha r.1).mp hn
          have hno := @read_unknown _ _ _ _ _ _ h r.2 _ hk (by simp) toks
          rw [h.known] at hno
          constructor
          · intro hc
            cases hc
          · rintro ⟨hc, hp⟩
            exact absurd ⟨readPath_ne_nil (by simp) toks, c, hc, hp⟩ hno
      | some b =>
          obtain ⟨hb, hpb⟩ := (h.named_iff ha r.1).mp hn
          rw [Option.bind_some, ih hb, hpb]

omit h in
/-- The empty tree. -/
theorem init : Rep initRoot initView (fun _ => []) (fun _ => False) (fun _ => (none, none, none)) (fun _ => False) where
  shape := initRoot_shape
  path_root := rfl
  path_kid := by simp [initView]
  names := by simp [initView]
  rooted := by simp [initView]
  known := by
    intro p
    constructor
    · exact False.elim
    · rintro ⟨hp, c, -, he⟩
      exact hp he.symm
  info := by
    rintro c (rfl | ⟨p, nm, hc⟩)
    · simp [Bus.infoOf, initRoot, emptyElemNode, Node.info]
    · simp [initView] at hc
  info_unknown := fun _ _ => rfl
  row_iff := by simp [initView]
  row_known := fun _ hr => hr
  row_owner := by simp [initView]
  ref_row := by
    rintro c n (rfl | ⟨p, nm, hc⟩) hn hr
    · simp only [initRoot, Function.update_self, Option.some.injEq] at hn
      subst hn
      cases hr
    · simp [initView] at hc
  template_first := by
    rintro p (rfl | ⟨q, nm, hc⟩) ht
    · simp [Bus.typeOf, initRoot, emptyElemNode] at ht
    · simp [initView] at hc

/-- **A new node** stands for a new path; rows that are linked are rows from then on. -/
theorem created {cur : ℕ} {tok : Name} (hl : v.Linked cur) (hc : Created s v cur tok s' v')
    (hno : named (v.shown cur) tok = none) (hlink : ∀ y, Links s v cur y → ∃ p, (cur, template) ∈ v.kids p) :
    Rep s' v' (Function.update path s.fresh (path (v.owner cur) ++ [tok]))
      (fun p => K p ∨ p = path (v.owner cur) ++ [tok]) I (fun x => rows x ∨ ∃ y, Links s v cur y ∧ path y = x) := by
  have hfresh : ∀ {a}, v.Linked a → a ≠ s.fresh := fun ha => h.shape.ne_fresh ha
  have hpath : ∀ {a}, v.Linked a → Function.update path s.fresh (path (v.owner cur) ++ [tok]) a = path a :=
    fun ha => Function.update_of_ne (hfresh ha) _ _
  have hlo := h.shape.linked_owner hl
  have hnew : ¬ K (path (v.owner cur) ++ [tok]) := (h.named_eq_none_iff hl tok).mp hno
  have hlinked : ∀ {y}, Links s v cur y → v.Linked y := by
    rintro y ⟨-, p, -, nm', -, -, hy, -⟩
    exact .inr ⟨p, nm', hy⟩
  have hnlf : ¬ Links s v cur s.fresh := fun hx => hfresh (hlinked hx) rfl
  have hmem : ∀ {a x}, x ∈ v'.kids a ↔ x ∈ v.kids a ∨ a = v.owner cur ∧ x = (s.fresh, tok) := by
    intro a x
    rw [hc.kids]
    exact View.mem_addKid
  have hparent : ∀ {a x}, x ∈ v.kids a → v.Linked a := fun hx => h.rooted _ (List.ne_nil_of_mem hx)
  constructor
  · exact hc.shape
  · rw [hpath (.inl rfl), h.path_root]
  · intro a c nm hk
    obtain hold | ⟨rfl, he⟩ := hmem.mp hk
    · rw [hpath (.inr ⟨a, nm, hold⟩), hpath (hparent hold), h.path_kid a c nm hold]
    · obtain ⟨rfl, rfl⟩ := Prod.mk.inj he
      rw [Function.update_self, hpath hlo]
  · intro a
    rw [hc.kids]
    by_cases ha : a = v.owner cur
    · subst ha
      rw [View.addKid_kids_self, List.map_append, List.nodup_append]
      refine ⟨h.names _, by simp, ?_⟩
      intro x hx y hy hxy
      obtain ⟨z, hz, rfl⟩ := List.mem_map.mp hx
      have hy' : y = tok := by simpa using hy
      exact named_eq_none.mp hno z hz (hxy.trans hy')
    · rw [View.addKid_kids_of_ne v _ ha]
      exact h.names a
  · intro a ha
    obtain ⟨x, hx⟩ := List.exists_mem_of_ne_nil _ ha
    obtain hx | ⟨rfl, -⟩ := hmem.mp hx
    · exact (hc.linked_iff a).mpr (.inl (hparent hx))
    · exact (hc.linked_iff _).mpr (.inl hlo)
  · intro p
    constructor
    · rintro (hk | rfl)
      · obtain ⟨hp, c, hcl, he⟩ := (h.known p).mp hk
        exact ⟨hp, c, (hc.linked_iff c).mpr (.inl hcl), (hpath hcl).trans he⟩
      · exact ⟨by simp, s.fresh, hc.linked_new, Function.update_self _ _ _⟩
    · rintro ⟨hp, c, hcl, he⟩
      obtain hcl | rfl := (hc.linked_iff c).mp hcl
      · exact .inl ((h.known p).mpr ⟨hp, c, hcl, (hpath hcl).symm.trans he⟩)
      · rw [Function.update_self] at he
        exact .inr he.symm
  · intro c hcl
    obtain hcl | rfl := (hc.linked_iff c).mp hcl
    · rw [hpath hcl, hc.info_old c (hfresh hcl), h.info c hcl]
    · rw [Function.update_self, hc.info_new, h.info_unknown _ hnew]
  · exact fun p hp => h.info_unknown p fun hk => hp (.inl hk)
  · intro c hcl
    obtain hcl | rfl := (hc.linked_iff c).mp hcl
    · rw [hpath hcl]
      by_cases hx : Links s v cur c
      · rw [hc.linked c hx]
        have hlt : cur ≠ c := by
          obtain ⟨-, _, _, _, -, -, -, hlt, -⟩ := hx
          exact Nat.ne_of_lt hlt
        exact ⟨fun _ => .inr ⟨c, hx, rfl⟩, fun _ => hlt⟩
      · rw [hc.others c hx, h.row_iff c hcl]
        refine ⟨.inl, ?_⟩
        rintro (hr | ⟨y, hy, he⟩)
        · exact hr
        · exact absurd (h.path_inj (hlinked hy) hcl he ▸ hy) hx
    · rw [Function.update_self, hc.others _ hnlf, h.shape.owner_of_dead h.shape.fresh_dead]
      refine ⟨fun hne => absurd rfl hne, ?_⟩
      rintro (hr | ⟨y, hy, he⟩)
      · exact absurd (h.row_known _ hr) hnew
      · exact absurd ((h.known _).mpr ⟨by simp, y, hlinked hy, he⟩) hnew
  · rintro p (hr | ⟨y, hy, rfl⟩)
    · exact .inl (h.row_known p hr)
    · refine .inl ((h.known _).mpr ⟨?_, y, hlinked hy, rfl⟩)
      obtain ⟨-, q, -, nm', -, -, hyq, -⟩ := hy
      rw [h.path_kid _ _ _ hyq]
      simp
  · intro c hcl hne
    obtain hcl | rfl := (hc.linked_iff c).mp hcl
    · rw [hpath hcl]
      by_cases hx : Links s v cur c
      · rw [hc.linked c hx, hpath hl]
        obtain ⟨p, hp⟩ := hlink c hx
        obtain ⟨-, q, nm, nm', -, hq, hcq, -⟩ := hx
        rw [h.path_kid _ _ _ hp, h.path_kid _ _ _ hcq, h.shape.parent_unique hq hp]
        simp
      · rw [hc.others c hx] at hne ⊢
        rw [hpath (h.shape.linked_owner hcl), h.row_owner c hcl hne]
    · rw [hc.others _ hnlf, h.shape.owner_of_dead h.shape.fresh_dead] at hne
      exact absurd rfl hne
  · intro c n hcl hn hr
    obtain hcl | rfl := (hc.linked_iff c).mp hcl
    · obtain hne | ⟨n₀, hn₀, hr₀⟩ := hc.own_old c n (hfresh hcl) hn hr
      · exact hne
      · have hold := h.ref_row c n₀ hcl hn₀ hr₀
        by_cases hx : Links s v cur c
        · obtain ⟨-, _, _, _, -, -, -, -, -, hsh⟩ := hx
          obtain he | ⟨hne, -⟩ := h.shape.owner c
          · exact absurd he hold
          · exact absurd hsh hne
        · rw [hc.others c hx]
          exact hold
    · rw [hc.own_new n hn] at hr
      cases hr
  · intro p hp ht
    obtain hp | rfl := (hc.linked_iff p).mp hp
    · rw [typeOf_eq_infoOf, hc.info_old p (hfresh hp), ← typeOf_eq_infoOf] at ht
      obtain ⟨t, l, hk⟩ := h.template_first p hp ht
      rw [hc.kids]
      by_cases hpo : p = v.owner cur
      · subst hpo
        exact ⟨t, l ++ [(s.fresh, tok)], by rw [View.addKid_kids_self, hk, List.cons_append]⟩
      · exact ⟨t, l, by rw [View.addKid_kids_of_ne v _ hpo, hk]⟩
    · rw [typeOf_eq_infoOf, hc.info_new] at ht
      cases ht

/-- No row template is a row. -/
theorem template_no_row {a : ℕ} (ha : v.Linked a) (hself : v.owner a = a) : ¬ rows (path a ++ [template]) := by
  intro hr
  obtain ⟨-, c, hc, he⟩ := (h.known _).mp (h.row_known _ hr)
  have hn : named (v.shown a) template = some c := (h.named_iff ha template).mpr ⟨hc, by rw [hself, he]⟩
  have hck := mem_of_named hn
  obtain ho | ⟨-, ⟨n, hn, href⟩, -⟩ := h.shape.owner c
  · exact (h.row_iff c hc).mpr (he ▸ hr) ho
  · rw [h.shape.template_owns c n hn (h.shape.name_of_kid hck hn)] at href
    cases href

/-- A node gets a new row template, in the place of an old one without elements or where it had no
children. -/
theorem setTemplate {a : ℕ} {n : Node} (ha : v.Linked a) (hn : s.mem a = some n) (hown : n.reference = false)
    (halone : ∀ r, v.owner r = a → r = a)
    (hold : v.kids a = [] ∨
      ∃ t, v.kids a = [(t, template)] ∧ v.kids t = [] ∧ s.infoOf t = some (none, none, none)) :
    Rep ((s.alloc (newNode a template)).write a { n with child := some s.fresh }) (v.setKid a (s.fresh, template))
      (Function.update path s.fresh (path a ++ [template])) (fun p => K p ∨ p = path a ++ [template]) I rows := by
  have hlt : a < s.fresh := h.shape.bound a n hn
  have hmem : ∀ b, ((s.alloc (newNode a template)).write a { n with child := some s.fresh }).mem b = _ :=
    fun b => Bus.write_alloc_mem hlt
  have hself : v.owner a = a := h.shape.owner_of_own hn hown
  have hdead := h.shape.fresh_dead
  have hfresh : ∀ {b}, v.Linked b → b ≠ s.fresh := fun hb => h.shape.ne_fresh hb
  have hpath : ∀ {b}, v.Linked b → Function.update path s.fresh (path a ++ [template]) b = path b :=
    fun hb => Function.update_of_ne (hfresh hb) _ _
  have hkid : ∀ c nm, (c, nm) ∈ v.kids a → nm = template ∧ v.kids c = [] ∧ s.infoOf c = some (none, none, none) := by
    intro c nm hc
    obtain hnil | ⟨t, ht, hleaf, hinfo⟩ := hold
    · rw [hnil] at hc
      cases hc
    · rw [ht, List.mem_singleton] at hc
      obtain ⟨rfl, rfl⟩ := Prod.mk.inj hc
      exact ⟨rfl, hleaf, hinfo⟩
  have hanot : ∀ nm, (a, nm) ∉ v.kids a := fun nm hc => Nat.lt_irrefl _ (h.shape.kid a _ hc).1
  have hlinked : ∀ c, (v.setKid a (s.fresh, template)).Linked c ↔
      (v.Linked c ∧ ∀ nm, (c, nm) ∉ v.kids a) ∨ c = s.fresh := by
    intro c
    constructor
    · rintro (rfl | ⟨p, nm, hc⟩)
      · exact .inl ⟨.inl rfl, fun nm hc => Nat.not_lt_zero _ (h.shape.kid a _ hc).1⟩
      · obtain ⟨hpa, hc⟩ | ⟨-, hc⟩ := View.mem_setKid.mp hc
        · exact .inl ⟨.inr ⟨p, nm, hc⟩, fun nm' hc' => hpa (h.shape.parent_unique hc hc')⟩
        · exact .inr (congrArg Prod.fst hc)
    · rintro (⟨rfl | ⟨p, nm, hc⟩, hnot⟩ | rfl)
      · exact .inl rfl
      · exact .inr ⟨p, nm, View.mem_setKid.mpr (.inl ⟨fun e => hnot nm (e ▸ hc), hc⟩)⟩
      · exact .inr ⟨a, template, View.mem_setKid.mpr (.inr ⟨rfl, rfl⟩)⟩
  have hla : (v.setKid a (s.fresh, template)).Linked a := (hlinked a).mpr (.inl ⟨ha, hanot⟩)
  have howner : ∀ {c}, (∀ nm, (c, nm) ∉ v.kids a) → (v.setKid a (s.fresh, template)).owner c = v.owner c :=
    fun hc => View.setKid_owner_of_not_mem v _ hc
  have hownf : (v.setKid a (s.fresh, template)).owner s.fresh = s.fresh := by
    rw [howner fun nm hc => Nat.lt_irrefl _ (h.shape.kid_lt_fresh hc), h.shape.owner_of_dead hdead]
  have hparent : ∀ {b x}, x ∈ v.kids b → v.Linked b := fun hx => h.rooted _ (List.ne_nil_of_mem hx)
  have hinfo_new : I (path a ++ [template]) = (none, none, none) := by
    by_cases hk : K (path a ++ [template])
    · obtain ⟨-, c, hc, he⟩ := (h.known _).mp hk
      have hnm : named (v.shown a) template = some c := (h.named_iff ha template).mpr ⟨hc, by rw [hself, he]⟩
      have hck := mem_of_named hnm
      rw [View.shown, hself] at hck
      have := (hkid c template hck).2.2
      rw [h.info c hc, he] at this
      exact Option.some.inj this
    · exact h.info_unknown _ hk
  have hinfo_old : ∀ b, b ≠ s.fresh →
      ((s.alloc (newNode a template)).write a { n with child := some s.fresh }).infoOf b = s.infoOf b := by
    intro b hb
    by_cases hba : b = a
    · subst hba
      simp [Bus.infoOf, hmem, hn, Node.info]
    · simp [Bus.infoOf, hmem, hba, hb]
  have hinfo_fresh : ((s.alloc (newNode a template)).write a { n with child := some s.fresh }).infoOf s.fresh =
      some (none, none, none) := by
    rw [Bus.infoOf, hmem, if_neg (Nat.ne_of_gt hlt), if_pos rfl]
    rfl
  constructor
  · exact h.shape.setKid { n with child := some s.fresh } template hn hown halone (by rw [← hown]; rfl)
  · rw [hpath (.inl rfl), h.path_root]
  · intro b c nm hc
    obtain ⟨hba, hc⟩ | ⟨rfl, he⟩ := View.mem_setKid.mp hc
    · rw [hpath (.inr ⟨b, nm, hc⟩), hpath (hparent hc), h.path_kid b c nm hc]
    · obtain ⟨rfl, rfl⟩ := Prod.mk.inj he
      rw [Function.update_self, hpath ha]
  · intro b
    by_cases hba : b = a
    · subst hba
      simp [View.setKid_kids_self]
    · rw [View.setKid_kids_of_ne v _ hba]
      exact h.names b
  · intro b hb
    by_cases hba : b = a
    · exact hba ▸ hla
    · rw [View.setKid_kids_of_ne v _ hba] at hb
      exact (hlinked b).mpr (.inl ⟨h.rooted b hb, fun nm hc => hb (hkid b nm hc).2.1⟩)
  · intro p
    constructor
    · rintro (hk | rfl)
      · obtain ⟨hp, c, hc, he⟩ := (h.known p).mp hk
        by_cases hlost : ∃ nm, (c, nm) ∈ v.kids a
        · obtain ⟨nm, hlost⟩ := hlost
          refine ⟨hp, s.fresh, (hlinked _).mpr (.inr rfl), ?_⟩
          rw [Function.update_self, ← he, h.path_kid a c nm hlost, (hkid c nm hlost).1]
        · exact ⟨hp, c, (hlinked c).mpr (.inl ⟨hc, not_exists.mp hlost⟩), (hpath hc).trans he⟩
      · exact ⟨by simp, s.fresh, (hlinked _).mpr (.inr rfl), Function.update_self _ _ _⟩
    · rintro ⟨hp, c, hc, he⟩
      obtain ⟨hc, -⟩ | rfl := (hlinked c).mp hc
      · exact .inl ((h.known p).mpr ⟨hp, c, hc, (hpath hc).symm.trans he⟩)
      · rw [Function.update_self] at he
        exact .inr he.symm
  · intro c hc
    obtain ⟨hc, -⟩ | rfl := (hlinked c).mp hc
    · rw [hpath hc, hinfo_old c (hfresh hc), h.info c hc]
    · rw [Function.update_self, hinfo_fresh, hinfo_new]
  · exact fun p hp => h.info_unknown p fun hk => hp (.inl hk)
  · intro c hc
    obtain ⟨hc, hnot⟩ | rfl := (hlinked c).mp hc
    · rw [hpath hc, howner hnot, h.row_iff c hc]
    · rw [Function.update_self, hownf]
      exact ⟨fun hne => absurd rfl hne, fun hr => absurd hr (h.template_no_row ha hself)⟩
  · exact fun p hr => .inl (h.row_known p hr)
  · intro c hc hne
    obtain ⟨hc, hnot⟩ | rfl := (hlinked c).mp hc
    · rw [howner hnot] at hne ⊢
      rw [hpath hc, hpath (h.shape.linked_owner hc), h.row_owner c hc hne]
    · exact absurd hownf hne
  · intro c nc hc hnc hr
    obtain ⟨hc, hnot⟩ | rfl := (hlinked c).mp hc
    · rw [howner hnot]
      by_cases hca : c = a
      · subst hca
        simp only [hmem, if_true, Option.some.injEq] at hnc
        rw [← hnc] at hr
        rw [hown] at hr
        cases hr
      · simp only [hmem, hca, hfresh hc, if_false] at hnc
        exact h.ref_row c nc hc hnc hr
    · simp only [hmem, Nat.ne_of_gt hlt, if_false, if_true, Option.some.injEq] at hnc
      rw [← hnc] at hr
      cases hr
  · intro p hp ht
    by_cases hpa : p = a
    · subst hpa
      exact ⟨s.fresh, [], View.setKid_kids_self _ _ _⟩
    · obtain ⟨hp, -⟩ | rfl := (hlinked p).mp hp
      · rw [typeOf_eq_infoOf, hinfo_old p (hfresh hp), ← typeOf_eq_infoOf] at ht
        rw [View.setKid_kids_of_ne v _ hpa]
        exact h.template_first p hp ht
      · rw [typeOf_eq_infoOf, hinfo_fresh] at ht
        cases ht

/-- A node takes new type and data. -/
theorem writeInfo {a : ℕ} {n : Node} (n' : Node) (ha : v.Linked a) (ha0 : a ≠ 0) (hn : s.mem a = some n)
    (hlinks : n'.links = n.links) (ht : n'.type = some .table → ∃ t l, v.kids a = (t, template) :: l) :
    Rep (s.write a n') v path K (Function.update I (path a) n'.info) rows := by
  have hmem : ∀ b, (s.write a n').mem b = if b = a then some n' else s.mem b := by
    intro b
    by_cases hb : b = a
    · simp [hb, Bus.write]
    · simp [hb, Bus.write]
  have hka : K (path a) := by
    refine (h.known _).mpr ⟨?_, a, ha, rfl⟩
    obtain rfl | ⟨p, nm, hp⟩ := ha
    · exact absurd rfl ha0
    · rw [h.path_kid _ _ _ hp]
      simp
  refine { h with
    shape := h.shape.write_of_links n' hn hlinks
    info := ?_, info_unknown := ?_, ref_row := ?_, template_first := ?_ }
  · intro c hc
    by_cases hca : c = a
    · subst hca
      simp [Bus.infoOf, hmem]
    · have hne : path c ≠ path a := fun e => hca (h.path_inj hc ha e)
      rw [Function.update_of_ne hne, ← h.info c hc]
      simp [Bus.infoOf, hmem, hca]
  · intro p hp
    have hne : p ≠ path a := fun e => hp (e ▸ hka)
    rw [Function.update_of_ne hne]
    exact h.info_unknown p hp
  · intro c nc hc hnc hr
    by_cases hca : c = a
    · subst hca
      simp only [hmem, if_true, Option.some.injEq] at hnc
      subst hnc
      simp only [Node.links, Prod.mk.injEq] at hlinks
      exact h.ref_row c n hc hn (hlinks.2.2.2.2 ▸ hr)
    · simp only [hmem, hca, if_false] at hnc
      exact h.ref_row c nc hc hnc hr
  · intro p hp hpt
    by_cases hpa : p = a
    · subst hpa
      exact ht (by simpa [Bus.typeOf, hmem] using hpt)
    · refine h.template_first p hp ?_
      simpa [Bus.typeOf, hmem, hpa] using hpt

omit h in
theorem congr {K' rows' : Path → Prop} (h : Rep s v path K I rows) (hK : ∀ p, K p ↔ K' p) (hr : ∀ p, rows p ↔ rows' p) :
    Rep s v path K' I rows' := by
  rw [← funext fun p => propext (hK p), ← funext fun p => propext (hr p)]
  exact h

theorem owner_of_shown_nil {a : ℕ} (hs : v.shown a = []) : v.owner a = a := by
  obtain ho | ⟨hne, -⟩ := h.shape.owner a
  · exact ho
  · exact absurd hs hne

theorem not_ref_of_shown_nil {a : ℕ} {n : Node} (ha : v.Linked a) (hs : v.shown a = []) (hn : s.mem a = some n) :
    n.reference = false := by
  cases hr : n.reference with
  | false =>
      rfl
  | true =>
      exact absurd (h.owner_of_shown_nil hs) (h.ref_row a n ha hn hr)

/-- The first parts of a node's path are known. -/
theorem known_of_prefix {a : ℕ} {p : Path} (ha : v.Linked a) (hp : p <+: path a) (hne : p ≠ []) : K p := by
  obtain ⟨q, hq⟩ := hp
  refine h.known_prefix q ?_ hne
  rw [hq]
  refine (h.known _).mpr ⟨fun e => ?_, a, ha, rfl⟩
  rw [← hq] at e
  exact hne (List.append_eq_nil_iff.mp e).1

end Rep

variable (sz : Sizes)

/-- Tokens below a new node create a node each. -/
theorem Rep.createAll (h : Rep s v path K I rows) {cur : ℕ} (hl : v.Linked cur) (hshown : v.shown cur = [])
    (hnl : ∀ x, ¬ Links s v cur x) {toks : List Name} (hlen : ∀ tok ∈ toks, tok.length < sz.nodeName) :
    ∃ s' c v' path', s.insertTokens sz cur toks = some (s', c) ∧
      Rep s' v' path' (fun p => K p ∨ p ≠ [] ∧ p <+: path cur ++ toks) I rows ∧ v'.Linked c ∧
      path' c = path cur ++ toks ∧ v'.shown c = [] := by
  induction toks generalizing s v path K cur with
  | nil =>
      refine ⟨s, cur, v, path, rfl, h.congr (fun p => ⟨.inl, ?_⟩) fun p => Iff.rfl, hl, by simp, hshown⟩
      rintro (hk | ⟨hp, hpre⟩)
      · exact hk
      · exact h.known_of_prefix hl (by simpa using hpre) hp
  | cons tok toks ih =>
      have hself := h.owner_of_shown_nil hshown
      obtain ⟨c, hnamed, -⟩ | ⟨hnamed, s₁, v₁, hrun, hc⟩ := insertToken_spec sz h.shape tok hl
        fun hs n hn => h.not_ref_of_shown_nil hl hs hn
      · rw [hshown] at hnamed
        cases hnamed
      · have htake : tok.take (sz.nodeName - 1) = tok := by
          have := hlen tok (by simp)
          exact List.take_of_length_le (by omega)
        rw [htake] at hc
        have hrows : ∀ p, (rows p ∨ ∃ y, Links s v cur y ∧ path y = p) ↔ rows p := fun p =>
          ⟨fun hr => hr.resolve_right fun ⟨y, hy, _⟩ => hnl y hy, .inl⟩
        have h₁ := (h.created hl hc hnamed fun y hy => absurd hy (hnl y)).congr (fun _ => Iff.rfl) hrows
        have hlf := hc.linked_new
        have hpf : Function.update path s.fresh (path (v.owner cur) ++ [tok]) s.fresh = path cur ++ [tok] := by
          rw [Function.update_self, hself]
        -- the new node is the last one, so that no row is behind it
        have hnl₁ : ∀ x, ¬ Links s₁ v₁ s.fresh x := by
          rintro x ⟨-, p, nm, nm', -, -, hx, hlt, -⟩
          have := hc.shape.kid_lt_fresh hx
          rw [hc.fresh] at this
          simp only at this
          omega
        obtain ⟨s', c, v', path', hrun', hR', hl', hp', hs'⟩ :=
          ih h₁ hlf (hc.shown_new h.shape hl) hnl₁ fun t ht => hlen t (by simp [ht])
        rw [hpf, List.append_assoc] at hR' hp'
        refine ⟨s', c, v', path', by simp [Bus.insertTokens, hrun, hrun'], hR'.congr (fun p => ?_) fun _ => Iff.rfl, hl', hp', hs'⟩
        · rw [hself]
          constructor
          · rintro ((hk | rfl) | hp)
            · exact .inl hk
            · exact .inr ⟨by simp, List.prefix_append_right_inj _ |>.mpr (by simp)⟩
            · exact .inr hp
          · rintro (hk | hp)
            · exact .inl (.inl hk)
            · exact .inr hp

/-- **All tokens** of a registration: the path that they mean is known in the end. -/
theorem Rep.insertTokens (h : Rep s v path K I rows) {cur : ℕ} (hl : v.Linked cur) {toks : List Name}
    (hlen : ∀ tok ∈ toks, tok.length < sz.nodeName) {d : ℕ} {rest : List Name}
    (hd : s.deepest cur toks = some (d, rest)) (hlink : rest ≠ [] → ∀ y, Links s v d y → ∃ p, (d, template) ∈ v.kids p) :
    ∃ s' c v' path', s.insertTokens sz cur toks = some (s', c) ∧
      Rep s' v' path' (fun p => K p ∨ p ≠ [] ∧ p <+: placePath rows (path cur) toks) I
        (fun x => rows x ∨ rest ≠ [] ∧ ∃ y, Links s v d y ∧ path y = x) ∧
      v'.Linked c ∧ path' c = placePath rows (path cur) toks ∧ v.Linked d ∧
      (rest = [] → s' = s ∧ c = d ∧ v' = v ∧ path' = path) ∧
      (rest ≠ [] → v'.shown c = [] ∧ placePath rows (path cur) toks = path (v.owner d) ++ rest ∧
        ∀ tok, rest.head? = some tok → ¬ K (path (v.owner d) ++ [tok])) := by
  induction toks generalizing cur with
  | nil =>
      cases hd
      refine ⟨s, _, v, path, rfl, h.congr (fun p => ⟨.inl, ?_⟩) fun p => ⟨.inl, ?_⟩, hl, rfl, hl,
        fun _ => ⟨rfl, rfl, rfl, rfl⟩, fun hne => absurd rfl hne⟩
      · rintro (hk | ⟨hp, hpre⟩)
        · exact hk
        · exact h.known_of_prefix hl hpre hp
      · rintro (hr | ⟨hne, -⟩)
        · exact hr
        · exact absurd rfl hne
  | cons tok toks ih =>
      have hlen' : ∀ t ∈ toks, t.length < sz.nodeName := fun t ht => hlen t (by simp [ht])
      rw [h.shape.deepest_cons toks hl] at hd
      rw [placePath, h.base_eq hl]
      obtain ⟨c, hnamed, hrun⟩ | ⟨hnamed, s₁, v₁, hrun, hc⟩ := insertToken_spec sz h.shape tok hl
        fun hs n hn => h.not_ref_of_shown_nil hl hs hn
      · rw [hnamed] at hd
        obtain ⟨hlc, hpc⟩ := (h.named_iff hl tok).mp hnamed
        obtain ⟨s', c', v', path', hrun', hrest⟩ := ih hlc hlen' hd
        rw [hpc] at hrest
        exact ⟨s', c', v', path', by simp [Bus.insertTokens, hrun, hrun'], hrest⟩
      · rw [hnamed] at hd
        cases hd
        have htake : tok.take (sz.nodeName - 1) = tok := by
          have := hlen tok (by simp)
          exact List.take_of_length_le (by omega)
        rw [htake] at hc
        have h₁ := h.created hl hc hnamed (hlink (by simp))
        have hnew := (h.named_eq_none_iff hl tok).mp hnamed
        have hnl₁ : ∀ x, ¬ Links s₁ v₁ s.fresh x := by
          rintro x ⟨-, p, nm, nm', -, -, hx, hlt, -⟩
          have := hc.shape.kid_lt_fresh hx
          rw [hc.fresh] at this
          simp only at this
          omega
        obtain ⟨s', c, v', path', hrun', hR', hl', hp', hs'⟩ :=
          h₁.createAll sz hc.linked_new (hc.shown_new h.shape hl) hnl₁ hlen'
        rw [Function.update_self] at hR' hp'
        -- below the new path there are no rows
        have hplace : placePath rows (path (v.owner d) ++ [tok]) toks = path (v.owner d) ++ [tok] ++ toks :=
          placePath_of_no_rows fun q hr => hnew (h.known_prefix q (h.row_known _ hr) (by simp))
        rw [hplace]
        refine ⟨s', c, v', path', by simp [Bus.insertTokens, hrun, hrun'], hR'.congr (fun p => ?_) fun p => ?_, hl', hp', hl,
          fun e => absurd e (by simp), fun _ => ⟨hs', by simp, fun t ht => ?_⟩⟩
        · constructor
          · rintro ((hk | rfl) | hp)
            · exact .inl hk
            · exact .inr ⟨by simp, List.prefix_append _ _⟩
            · exact .inr hp
          · rintro (hk | hp)
            · exact .inl (.inl hk)
            · exact .inr hp
        · simp
        · cases ht
          exact hnew

end Represents

end OneWifiTestSuite.BusTree
