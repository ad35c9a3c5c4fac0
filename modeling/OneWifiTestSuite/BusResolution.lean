import OneWifiTestSuite.BusOwnership
import OneWifiTestSuite.BusPaths

/-!
# Resolution in the bus tree

After any list of plain registrations the tree resolves names as the registry does: a node is found
exactly for the names whose path is known, and it carries the type and data of the last registration of
that path (`resolves_of_registrations`). A `"*"` below a table is found by design
(`not_resolves_wildcard`).
-/

namespace OneWifiTestSuite.BusTree

open Cells Runs ByteRegion

/-! ### Plain registrations -/

section Plain

/-- The node is a row template without siblings, elements and data. -/
def Node.bare (n : Node) : Bool :=
  n.name = template && n.child = none && n.nextSibling = none && n.info = (none, none, none)

/-- A new row template for the node drops no elements. -/
def Bus.keepsKids (s : Bus) (a : ℕ) : Bool :=
  (s.mem a).all fun n => n.child.all fun c => (s.mem c).all Node.bare

/-- The first child of the node is shared with numbered siblings, although it is no row template. -/
def Bus.linksOther (s : Bus) (a : ℕ) : Bool :=
  (s.mem a).any fun n => n.name ≠ template && n.child = none && n.parent.bind s.typeOf = some .table &&
    (List.range s.fresh).any fun x => (s.mem x).any fun m =>
      m.parent = n.parent && a < x && isStringDigit m.name && m.child = none

/-- The element's name fits its buffers, and registering it shares or drops children only as the row
templates of tables do. -/
def Bus.plain (sz : Sizes) (s : Bus) (e : Elem) : Bool :=
  fits sz e.fullName && e.tokens ≠ [] && e.tokens.all (fun tok => tok.length < sz.nodeName) && s.takes e &&
    match s.deepest 0 e.tokens with
    | none => false
    | some (a, rest) => if rest = [] then e.type ≠ .table || s.keepsKids a else !s.linksOther a

end Plain

/-! ### One registration -/

section Registration

variable {s : Bus} {v : View} {path : ℕ → Path} {K : Path → Prop} {I : Path → Info} {rows : Path → Prop}

/-- Only a row template links rows. -/
theorem Shape.links_template (h : Shape s v) {d y : ℕ} (hno : s.linksOther d = false) (hy : Links s v d y) :
    ∃ p, (d, template) ∈ v.kids p := by
  obtain ⟨hshown, p, nm, nm', ht, hd, hyp, hlt, hdig, hy⟩ := hy
  obtain ⟨-, n, hn, hpar⟩ := h.kid _ _ hd
  obtain ⟨-, m, hm, hparm⟩ := h.kid _ _ hyp
  have hnm := h.name_of_kid hd hn
  by_cases he : nm = template
  · exact ⟨p, he ▸ hd⟩
  · have hchild := (h.child_eq_none (.inr ⟨p, nm, hd⟩) hn).mpr hshown
    have hchild' := (h.child_eq_none (.inr ⟨p, nm', hyp⟩) hm).mpr hy
    have hall : s.linksOther d = true := by
      simp only [Bus.linksOther, hn, Option.any_some, hnm, he, hchild, hpar, ht, Option.bind_some, ne_eq,
        not_false_eq_true, decide_true, Bool.true_and, List.any_eq_true, List.mem_range]
      exact ⟨y, h.bound y m hm, by simp [hm, hparm, hlt, h.name_of_kid hyp hm, hdig, hchild']⟩
    rw [hno] at hall
    cases hall

namespace Rep

variable (h : Rep s v path K I rows)

include h

/-- A node whose children may go has none, or a bare row template. -/
theorem kids_of_keeps {a : ℕ} (ha : v.Linked a) (hself : v.owner a = a) (hk : s.keepsKids a = true) :
    v.kids a = [] ∨ ∃ t, v.kids a = [(t, template)] ∧ v.kids t = [] ∧ s.infoOf t = some (none, none, none) := by
  obtain ⟨n, hn⟩ := h.shape.alive_of_linked ha
  have hchain := h.shape.chain_of_linked ha hn
  rw [View.shown, hself] at hchain
  cases hkids : v.kids a with
  | nil =>
      exact .inl rfl
  | cons x l =>
      obtain ⟨t, nm⟩ := x
      have hx : (t, nm) ∈ v.kids a := by simp [hkids]
      obtain ⟨-, nt, hnt, -⟩ := h.shape.kid _ _ hx
      rw [hkids] at hchain
      obtain ⟨hc, nx, hcell, hl⟩ := hchain
      have hbare : nt.bare = true := by simpa [Bus.keepsKids, hn, hc, hnt] using hk
      simp only [Node.bare, Bool.and_eq_true, decide_eq_true_eq] at hbare
      obtain ⟨⟨⟨hname, hchild⟩, hnext⟩, hinfo⟩ := hbare
      rw [cells_eq hnt, hnext] at hcell
      cases hcell
      have hnil : l = [] := by
        cases l with
        | nil =>
            rfl
        | cons y l =>
            exact absurd hl.1 (by simp)
      have hlt : v.Linked t := .inr ⟨a, _, hx⟩
      have hshown := (h.shape.child_eq_none hlt hnt).mp hchild
      refine .inr ⟨t, by rw [hnil, hname], ?_, by rw [Bus.infoOf, hnt, Option.map_some, hinfo]⟩
      rwa [View.shown, h.owner_of_shown_nil hshown] at hshown

/-- **The end of a registration**: the node takes the type and data, and a table a row template. -/
theorem setElem {a : ℕ} (e : Elem) (ha : v.Linked a) (ha0 : a ≠ 0)
    (hown : e.type = .table → ∀ n, s.mem a = some n → n.reference = false)
    (halone : e.type = .table → ∀ r, v.owner r = a → r = a)
    (hold : e.type = .table → v.kids a = [] ∨
      ∃ t, v.kids a = [(t, template)] ∧ v.kids t = [] ∧ s.infoOf t = some (none, none, none)) :
    ∃ s' v' path', s.setElem a e = some s' ∧
      Rep s' v' path' (fun p => K p ∨ e.type = .table ∧ p = path a ++ [template])
        (Function.update I (path a) e.info) rows := by
  obtain ⟨n, hn⟩ := h.shape.alive_of_linked ha
  obtain ⟨n', hn'⟩ : ∃ n' : Node, n' = { n with type := some e.type, dataType := some e.dataType, data := some e.cfgData } :=
    ⟨_, rfl⟩
  have hinfo : n'.info = e.info := by
    rw [hn']
    rfl
  by_cases htable : e.type = .table
  · have hlt : a < s.fresh := h.shape.bound a n hn
    have h₁ := h.setTemplate ha hn (hown htable n hn) (halone htable) (hold htable)
    have hpath : Function.update path s.fresh (path a ++ [template]) a = path a :=
      Function.update_of_ne (Nat.ne_of_lt hlt) _ _
    have hn₁ : ((s.alloc (newNode a template)).write a { n with child := some s.fresh }).mem a =
        some { n with child := some s.fresh } := by simp [Bus.write]
    have hanot : ∀ nm, (a, nm) ∉ v.kids a := fun nm hc => Nat.lt_irrefl _ (h.shape.kid a _ hc).1
    have ha₁ : (v.setKid a (s.fresh, template)).Linked a := by
      obtain rfl | ⟨p, nm, hp⟩ := ha
      · exact .inl rfl
      · exact .inr ⟨p, nm, View.mem_setKid.mpr (.inl ⟨fun e => hanot nm (e ▸ hp), hp⟩)⟩
    have h₂ := h₁.writeInfo { n' with child := some s.fresh } ha₁ ha0 hn₁ (by rw [hn']; rfl) fun _ =>
      ⟨s.fresh, [], View.setKid_kids_self _ _ _⟩
    have hinfo' : ({ n' with child := some s.fresh } : Node).info = e.info := hinfo
    rw [hpath, hinfo'] at h₂
    refine ⟨_, _, _, ?_, h₂.congr (fun p => ?_) fun _ => Iff.rfl⟩
    · have hrun : s.setElem a e =
          some (((s.write a n').alloc (newNode a template)).write a { n' with child := some s.fresh }) := by
        simp only [Bus.setElem, hn, htable, if_true, Option.bind_eq_bind, Option.bind_some, hn']
        rfl
      rw [hrun]
      simp only [Bus.write, Bus.alloc]
      congr 2
      rw [Function.update_comm (Nat.ne_of_lt hlt)]
      simp
    · simp [htable]
  · refine ⟨s.write a n', v, path, ?_, ?_⟩
    · simp [Bus.setElem, hn, htable, hn']
    · have h₁ := h.writeInfo n' ha ha0 hn (by rw [hn']; rfl) fun ht => absurd (by simpa [hn'] using ht) htable
      rw [hinfo] at h₁
      exact h₁.congr (fun p => by simp [htable]) fun _ => Iff.rfl

/-- **A registration** makes the path known that its tokens mean, with the element's type and data. -/
theorem insertElem (sz : Sizes) {e : Elem} {d : ℕ} {rest : List Name} (hp : s.plain sz e = true)
    (hd : s.deepest 0 e.tokens = some (d, rest)) :
    ∃ s' c v' path', insertElemNode sz s e = some (s', c) ∧
      Rep s' v' path' (fun p => (K p ∨ p ≠ [] ∧ p <+: placePath rows [] e.tokens) ∨
        e.type = .table ∧ p = placePath rows [] e.tokens ++ [template])
        (Function.update I (placePath rows [] e.tokens) e.info)
        (fun x => rows x ∨ rest ≠ [] ∧ ∃ y, Links s v d y ∧ path y = x) ∧
      v.Linked d ∧ (rest = [] → path d = placePath rows [] e.tokens) ∧
      (rest ≠ [] → placePath rows [] e.tokens = path (v.owner d) ++ rest ∧
        ∀ tok, rest.head? = some tok → ¬ K (path (v.owner d) ++ [tok])) := by
  simp only [Bus.plain, hd, Bool.and_eq_true, decide_eq_true_eq, List.all_eq_true] at hp
  obtain ⟨⟨⟨⟨hfits, hne⟩, hlen⟩, htakes⟩, hcond⟩ := hp
  have hlink : rest ≠ [] → ∀ y, Links s v d y → ∃ p, (d, template) ∈ v.kids p := by
    intro hrest y hy
    rw [if_neg hrest] at hcond
    exact h.shape.links_template (by simpa using hcond) hy
  obtain ⟨s₁, c, v₁, path₁, hrun, h₁, hc, hpc, hld, hnil, hcons⟩ :=
    h.insertTokens sz (.inl rfl) hlen hd hlink
  rw [h.path_root] at h₁ hpc hcons
  have hc0 : c ≠ 0 := by
    rintro rfl
    rw [h₁.path_root] at hpc
    exact placePath_ne_nil hne hpc.symm
  have hset : e.type = .table → (∀ n, s₁.mem c = some n → n.reference = false) ∧ (∀ r, v₁.owner r = c → r = c) ∧
      (v₁.kids c = [] ∨ ∃ t, v₁.kids c = [(t, template)] ∧ v₁.kids t = [] ∧ s₁.infoOf t = some (none, none, none)) := by
    intro ht
    by_cases hrest : rest = []
    · obtain ⟨rfl, rfl, rfl, rfl⟩ := hnil hrest
      obtain ⟨n, hn⟩ := h.shape.alive_of_linked hld
      have hfree : n.reference = false ∧ s₁.sharedAt n.child = false := by
        simpa [Bus.takes, hd, hn, hrest, ht] using htakes
      refine ⟨fun n' hn' => ?_, h.shape.alone hn hfree.1 hfree.2, h.kids_of_keeps hld (h.shape.owner_of_own hn hfree.1) ?_⟩
      · rw [hn] at hn'
        cases hn'
        exact hfree.1
      · simpa [hrest, ht] using hcond
    · obtain ⟨hshown, -⟩ := hcons hrest
      have hself := h₁.owner_of_shown_nil hshown
      refine ⟨fun n hn => h₁.not_ref_of_shown_nil hc hshown hn, fun r hr => ?_, .inl ?_⟩
      · obtain he | ⟨hne, -⟩ := h₁.shape.owner r
        · exact he.symm.trans hr
        · rw [View.shown, hr, ← hself, ← View.shown] at hne
          exact absurd hshown hne
      · rwa [View.shown, hself] at hshown
  obtain ⟨s₂, v₂, path₂, hrun₂, h₂⟩ := h₁.setElem e hc hc0 (fun ht => (hset ht).1) (fun ht => (hset ht).2.1)
    fun ht => (hset ht).2.2
  rw [hpc] at h₂
  have hcopy : copyName sz e.fullName = some e.fullName := by
    have hlt : e.fullName.length + 1 < sz.nameString := by simpa [fits] using hfits
    simp [copyName, hlt]
  refine ⟨s₂, c, v₂, path₂, by simp [insertElemNode, hcopy, hrun, hrun₂], h₂, hld, fun hrest => ?_, fun hrest => (hcons hrest).2⟩
  obtain ⟨-, rfl, -, rfl⟩ := hnil hrest
  exact hpc

end Rep

end Registration

/-! ### The registry -/

section Registry

variable {s s' : Bus} {v : View} {path : ℕ → Path} {R : Registry}

/-- The paths that become rows are those of the nodes that the new row template's children are
shared with. -/
theorem Rep.newRow_iff (h : Rep s v path R.Known R.info R.rows) {w : Path} {d : ℕ} {rest : List Name}
    (hd : v.Linked d) (hno : rest ≠ [] → s.linksOther d = false) (hnil : rest = [] → path d = w)
    (hcons : rest ≠ [] → w = path (v.owner d) ++ rest ∧
      ∀ tok, rest.head? = some tok → ¬ R.Known (path (v.owner d) ++ [tok])) (x : Path) :
    R.NewRow w x ↔ rest ≠ [] ∧ ∃ y, Links s v d y ∧ path y = x := by
  constructor
  · rintro ⟨t, dg, rfl, hdig, hx, hleaf, ht, htpl, htleaf, ⟨r, hr⟩, hne⟩
    obtain ⟨-, y, hy, hpy⟩ := (h.known _).mp hx
    obtain ⟨-, z, hz, hpz⟩ := (h.known _).mp htpl
    have hrne : r ≠ [] := by
      rintro rfl
      exact hne (by simpa using hr.symm)
    -- a node without known paths below it shows no children
    have hnokids : ∀ a, v.Linked a → R.Leaf (path a) → v.kids a = [] := by
      intro a ha hl
      by_contra hk
      obtain ⟨c, hc⟩ := List.exists_mem_of_ne_nil _ hk
      refine hl c.2 ((h.known _).mpr ⟨by simp, c.1, .inr ⟨a, c.2, hc⟩, h.path_kid a c.1 c.2 hc⟩)
    have hlinkt : v.kids z = [] := hnokids z hz (hpz ▸ htleaf)
    have hrest : rest ≠ [] := by
      intro hrest
      obtain ⟨b, r, rfl⟩ := List.exists_cons_of_ne_nil hrne
      refine htleaf b (h.known_of_prefix hd ?_ (by simp))
      rw [hnil hrest, ← hr]
      exact ⟨r, by simp⟩
    obtain ⟨hw, hnew⟩ := hcons hrest
    have hlo := h.shape.linked_owner hd
    -- the deepest node is the row template
    have hdz : v.owner d = z := by
      refine h.path_inj hlo hz ?_
      have hpre₁ : path (v.owner d) <+: w := ⟨rest, hw.symm⟩
      have hpre₂ : path z <+: w := ⟨r, by rw [hpz]; exact hr⟩
      obtain ⟨u, hu⟩ | ⟨u, hu⟩ := List.prefix_or_prefix_of_prefix hpre₁ hpre₂
      · cases u with
        | nil =>
            simpa using hu
        | cons b u =>
            rw [hw, ← hpz, ← hu, List.append_assoc, List.append_cancel_left_eq] at hr
            refine absurd (h.known_of_prefix hz ⟨u, ?_⟩ (by simp)) (hnew b (by simp [← hr]))
            simpa using hu
      · cases u with
        | nil =>
            simpa using hu.symm
        | cons b u =>
            refine absurd (h.known_of_prefix hlo ⟨u, ?_⟩ (by simp)) (htleaf b)
            rw [← hpz]
            simpa using hu
    have hself : v.owner d = d := by
      obtain ho | ⟨hne, -⟩ := h.shape.owner d
      · exact ho
      · rw [View.shown, hdz] at hne
        exact absurd hlinkt hne
    have hdz' : d = z := hself.symm.trans hdz
    subst hdz'
    obtain ⟨p, hdp, hyp⟩ : ∃ p, (d, template) ∈ v.kids p ∧ (y, dg) ∈ v.kids p := by
      obtain rfl | ⟨p, nm, hp⟩ := hz
      · rw [h.path_root] at hpz
        simp at hpz
      · obtain rfl | ⟨q, nm', hq⟩ := hy
        · rw [h.path_root] at hpy
          simp at hpy
        · rw [h.path_kid _ _ _ hp] at hpz
          rw [h.path_kid _ _ _ hq] at hpy
          obtain ⟨hpt, hnm⟩ := List.append_inj' hpz rfl
          obtain ⟨hqt, hnm'⟩ := List.append_inj' hpy rfl
          have hpq := h.path_inj (h.rooted p (List.ne_nil_of_mem hp)) (h.rooted q (List.ne_nil_of_mem hq))
            (hpt.trans hqt.symm)
          subst hpq
          cases hnm
          cases hnm'
          exact ⟨p, hp, hq⟩
    have hlp := h.rooted p (List.ne_nil_of_mem hdp)
    have hpt : path p = t := by
      rw [h.path_kid _ _ _ hdp] at hpz
      exact (List.append_inj' hpz rfl).1
    have htype : s.typeOf p = some .table := by rw [h.typeOf_eq hlp, hpt, ht]
    have hlt : d < y := by
      obtain ⟨t₀, l, hk⟩ := h.template_first p hlp htype
      have hsorted := h.shape.sorted p
      have ht₀ : t₀ = d := by
        have hin : (t₀, template) ∈ v.kids p := by simp [hk]
        exact congrArg Prod.fst (List.inj_on_of_nodup_map (h.names p) hin hdp rfl)
      subst ht₀
      rw [hk, List.map_cons, List.pairwise_cons] at hsorted
      rw [hk] at hyp
      obtain he | hyl := List.mem_cons.mp hyp
      · rw [(Prod.mk.inj he).2] at hdig
        rw [template_not_digit] at hdig
        cases hdig
      · exact hsorted.1 y (List.mem_map_of_mem (f := Prod.fst) hyl)
    have hys : v.shown y = [] := by
      by_contra hsh
      by_cases ho : v.owner y = y
      · rw [View.shown, ho] at hsh
        exact hsh (hnokids y hy (hpy ▸ hleaf))
      · have hpo := h.row_owner y hy ho
        rw [hpy, List.dropLast_concat, ← hpz] at hpo
        rw [View.shown, h.path_inj (h.shape.linked_owner hy) hz hpo] at hsh
        exact hsh hlinkt
    refine ⟨hrest, y, ⟨?_, p, template, dg, htype, hdp, hyp, hlt, hdig, hys⟩, hpy⟩
    rw [View.shown, hself]
    exact hlinkt
  · rintro ⟨hrest, y, hlinks, rfl⟩
    obtain ⟨p, hdp⟩ := h.shape.links_template (hno hrest) hlinks
    obtain ⟨hshown, q, nm, nm', ht, hdq, hyq, hlt, hdig, hys⟩ := hlinks
    have hqp := h.shape.parent_unique hdq hdp
    subst hqp
    obtain ⟨hw, -⟩ := hcons hrest
    have hself := h.owner_of_shown_nil hshown
    have hselfy := h.owner_of_shown_nil hys
    have hyl : v.Linked y := .inr ⟨q, nm', hyq⟩
    have hlq := h.rooted q (List.ne_nil_of_mem hyq)
    have hpd := h.path_kid q d template hdp
    have hleaf : ∀ a, v.Linked a → v.owner a = a → v.shown a = [] → R.Leaf (path a) := by
      intro a ha hs hsh nm
      have hnone := (h.named_eq_none_iff ha nm).mp (by rw [hsh]; rfl)
      rwa [hs] at hnone
    refine ⟨path q, nm', h.path_kid q y nm' hyq, hdig, (h.known _).mpr ⟨?_, y, hyl, rfl⟩, hleaf y hyl hselfy hys, ?_,
      (h.known _).mpr ⟨by simp, d, hd, hpd⟩, ?_, ?_, ?_⟩
    · rw [h.path_kid q y nm' hyq]
      simp
    · rw [← h.typeOf_eq hlq, ht]
    · rw [← hpd]
      exact hleaf d hd hself hshown
    · rw [hw, hself, hpd]
      exact List.prefix_append _ _
    · rw [hw, hself, hpd]
      simpa using hrest

/-- The tree stands for the registry. -/
def Represents (s : Bus) (R : Registry) : Prop :=
  ∃ v path, Rep s v path R.Known R.info R.rows

theorem represents_empty : Represents initRoot Registry.empty := by
  refine ⟨initView, fun _ => [], ?_⟩
  have hK : ∀ p, False ↔ Registry.empty.Known p := by
    simp [Registry.Known, Registry.empty]
  exact Rep.init.congr hK fun _ => Iff.rfl

/-- **One registration** at the tree is one at the registry. -/
theorem Represents.register (h : Represents s R) {sz : Sizes} {e : Elem} (hp : s.plain sz e = true) :
    ∃ s' c, insertElemNode sz s e = some (s', c) ∧ Represents s' (R.register e) := by
  obtain ⟨v, path, h⟩ := h
  cases hd : s.deepest 0 e.tokens with
  | none =>
      simp [Bus.plain, hd] at hp
  | some x =>
      obtain ⟨d, rest⟩ := x
      obtain ⟨s', c, v', path', hrun, h', hld, hnil, hcons⟩ := h.insertElem sz hp hd
      refine ⟨s', c, hrun, v', path', ?_⟩
      have hno : rest ≠ [] → s.linksOther d = false := by
        intro hrest
        simp only [Bus.plain, hd, Bool.and_eq_true] at hp
        simpa [hrest] using hp.2
      rw [R.info_register e]
      exact h'.congr (fun p => (R.known_register e p).symm) fun x =>
        or_congr_right (h.newRow_iff hld hno hnil hcons x).symm

/-- **A lookup** at the tree is one at the registry. -/
theorem Represents.retrieve (h : Represents s R) {toks : List Name} (hne : toks ≠ []) :
    ∃ r, s.retrieveTokens toks = some r ∧ (r.isSome ↔ R.Known (R.read toks)) ∧
      ∀ c, r = some c → s.infoOf c = some (R.info (R.read toks)) := by
  obtain ⟨v, path, h⟩ := h
  obtain ⟨tok, toks, rfl⟩ := List.exists_cons_of_ne_nil hne
  have hroot : v.descend s.typeOf false 0 (tok :: toks) =
      (named (v.shown 0) tok).bind fun c => v.descend s.typeOf false c toks := by
    have ht : s.typeOf (v.owner 0) ≠ some .table := by
      have hno : ¬ R.Known [] := fun hk => hk.1 rfl
      rw [h.typeOf_eq (h.shape.linked_owner (.inl rfl)), ← h.base_eq (.inl rfl), h.path_root,
        basePath_of_not fun hr => hno (h.row_known [] hr), h.info_unknown [] hno]
      simp
    simp [View.descend, ht]
  have heq := h.descend_eq (.inl rfl) false (tok :: toks)
  rw [h.path_root] at heq
  refine ⟨v.descend s.typeOf false 0 (tok :: toks), ?_, ?_, fun c hc => ?_⟩
  · rw [hroot]
    exact h.shape.retrieveTokens_eq tok toks
  · rw [h.known, Option.isSome_iff_exists]
    constructor
    · rintro ⟨c, hc⟩
      obtain ⟨hl, hpath⟩ := (heq c).mp hc
      refine ⟨readPath_cons_ne_nil _ _ _ _, c, hl, hpath⟩
    · rintro ⟨-, c, hl, hpath⟩
      exact ⟨c, (heq c).mpr ⟨hl, hpath⟩⟩
  · obtain ⟨hl, hpath⟩ := (heq c).mp hc
    rw [h.info c hl, hpath]
    rfl

end Registry

/-! ### Lists of registrations -/

section Lists

/-- Names resolve as the registry of the elements says: a name is found when its reading is known, at a
node with the information of that path, and a registered name is, with the data of its last
registration. -/
structure ResolvesNames (sz : Sizes) (es : List Elem) (s : Bus) : Prop where
  found_iff : ∀ name, fits sz name = true → tokens name ≠ [] →
    ∃ r, retrieveInstanceElemNode sz s name = some r ∧
      (r.isSome ↔ (Registry.ofElems es).Known ((Registry.ofElems es).read (tokens name))) ∧
      ∀ c, r = some c → s.infoOf c = some ((Registry.ofElems es).info ((Registry.ofElems es).read (tokens name)))
  registered : ∀ l₁ e l₂, es = l₁ ++ e :: l₂ → ['*'] ∉ e.tokens →
    (∀ e' ∈ l₂, (Registry.ofElems es).place e' ≠ (Registry.ofElems es).place e) →
    ∀ name, fits sz name = true → tokens name = e.tokens →
      ∃ c, retrieveInstanceElemNode sz s name = some (some c) ∧ s.infoOf c = some e.info

/-- Registrations in their order. -/
def registerAll (sz : Sizes) : Bus → List Elem → Option Bus :=
  execTo fun s e => (insertElemNode sz s e).map Prod.fst

/-- The same, where each has to be plain. -/
def registerPlain (sz : Sizes) : Bus → List Elem → Option Bus :=
  execTo (guarded (fun s e => (insertElemNode sz s e).map Prod.fst) fun s e => s.plain sz e = true)

variable {sz : Sizes} {s : Bus} {es : List Elem}

/-- The tree after plain registrations stands for their registry. -/
theorem represents_of_registerPlain (hrun : registerPlain sz initRoot es = some s) :
    Represents s (Registry.ofElems es) ∧ ∀ e ∈ es, e.tokens ≠ [] := by
  induction es using List.reverseRecOn generalizing s with
  | nil =>
      cases hrun
      exact ⟨represents_empty, by simp⟩
  | append_singleton es e ih =>
      rw [registerPlain, execTo_append] at hrun
      obtain ⟨s₁, h₁, h₂⟩ := Option.bind_eq_some_iff.mp hrun
      obtain ⟨hR, hne⟩ := ih h₁
      rw [execTo_cons, guarded] at h₂
      split_ifs at h₂ with hp
      · obtain ⟨s', c, hins, hR'⟩ := hR.register hp
        rw [hins] at h₂
        cases h₂
        refine ⟨by rwa [Registry.ofElems_concat], fun e' he' => ?_⟩
        obtain he' | he' := List.mem_append.mp he'
        · exact hne e' he'
        · rw [List.mem_singleton.mp he']
          simp only [Bus.plain, Bool.and_eq_true, decide_eq_true_eq] at hp
          exact hp.1.1.1.2
      · cases h₂

/-- **Resolution**: after any list of plain registrations exactly the names whose reading is known are
found, and they carry their last registration. -/
theorem resolves_of_registrations (hrun : registerPlain sz initRoot es = some s) : ResolvesNames sz es s := by
  obtain ⟨hR, hne⟩ := represents_of_registerPlain hrun
  constructor
  · intro name hf htok
    rw [retrieve_of_fits hf]
    exact hR.retrieve htok
  · intro l₁ e l₂ hes hstar hlast name hf htok
    have he : e ∈ es := by simp [hes]
    rw [retrieve_of_fits hf, htok]
    obtain ⟨r, hr, hsome, hinfo⟩ := hR.retrieve (hne e he)
    have hread : (Registry.ofElems es).read e.tokens = (Registry.ofElems es).place e :=
      Registry.readPath_eq_placePath hstar []
    rw [hread] at hsome hinfo
    obtain ⟨c, rfl⟩ := Option.isSome_iff_exists.mp (hsome.mpr (Registry.known_place he (hne e he)))
    exact ⟨c, hr, (hinfo c rfl).trans (by rw [Registry.info_last hes hlast])⟩

/-- A table with elements of its row template, a nested table and a repeated registration. -/
def plainElems : List Elem :=
  [table "T.{i}.", property "T.{i}.X", property "T.1", table "T.{i}.U.{i}.",
    property "A.B.C", ⟨"A.B".toList, .event, .subData, [7]⟩, property "T.{i}.U.{i}.Y",
    ⟨"T.{i}.X".toList, .method, .regData, [9]⟩]

theorem resolves_of_registrations_plainElems :
    ∃ s, registerAll sizes initRoot plainElems = some s ∧ ResolvesNames sizes plainElems s := by
  have hsome : (registerPlain sizes initRoot plainElems).isSome = true := by decide +kernel
  obtain ⟨s, hs⟩ := Option.isSome_iff_exists.mp hsome
  exact ⟨s, execTo_of_guarded hs, resolves_of_registrations hs⟩

/-- The name is registered, or the first part of a registered one, or the row template or a row of a
table. -/
def Listed (es : List Elem) (toks : List Name) : Prop :=
  (∃ e ∈ es, toks <+: e.tokens) ∨
    ∃ e ∈ es, e.type = .table ∧ ∃ d, toks = e.tokens ++ [d] ∧ (d = template ∨ isStringDigit d = true)

/-- A table's `"*"` is found, although it is neither registered nor the row template or a row. -/
theorem not_resolves_wildcard :
    ∃ s c, registerAll sizes initRoot [table "T.{i}."] = some s ∧
      retrieveInstanceElemNode sizes s "T.*".toList = some (some c) ∧
      ¬ Listed [table "T.{i}."] (tokens "T.*".toList) := by
  have hfound : ((registerAll sizes initRoot [table "T.{i}."]).bind fun s =>
      retrieveInstanceElemNode sizes s "T.*".toList) = some (some 2) := by decide +kernel
  obtain ⟨s, hs, hc⟩ := Option.bind_eq_some_iff.mp hfound
  refine ⟨s, 2, hs, hc, ?_⟩
  have htoks : tokens "T.*".toList = [['T'], ['*']] := by decide +kernel
  have helem : (table "T.{i}.").tokens = [['T']] := by decide +kernel
  rw [Listed, htoks]
  rintro (⟨e, he, hpre⟩ | ⟨e, he, -, d, hd, hrow⟩)
  · rw [List.mem_singleton.mp he, helem] at hpre
    simp at hpre
  · rw [List.mem_singleton.mp he, helem] at hd
    obtain rfl : ['*'] = d := by simpa using hd
    revert hrow
    decide

end Lists

end OneWifiTestSuite.BusTree
