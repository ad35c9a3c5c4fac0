import OneWifiTestSuite.BusTree

/-!
# The registry of bus elements

What the bus tree is for, without nodes: a registry keeps the elements under their paths, the last
registration first, and the rows. A row is a numbered element of a table that had no elements of its
own when the first element below the row template was registered: from then on it stands for the
template. `Registry.read` says which path a name means, and `Registry.Known` which paths there are.
-/

namespace OneWifiTestSuite.BusTree

open ByteRegion

abbrev Path := List Name

abbrev Info := Option ElemType × Option DataType × Option Bytes

structure Registry where
  entries : List (Path × Elem)
  rows : Path → Prop

def Elem.info (e : Elem) : Info :=
  (some e.type, some e.dataType, some e.cfgData)

/-! ### Reading names -/

section Reading

open Classical in
/-- Where the elements below a path stand: those of a row stand below its row template. -/
noncomputable def basePath (rows : Path → Prop) (p : Path) : Path :=
  if rows p then p.dropLast ++ [template] else p

/-- The path that tokens mean from a path on. -/
noncomputable def placePath (rows : Path → Prop) : Path → List Name → Path
  | p, [] => p
  | p, tok :: toks => placePath rows (basePath rows p ++ [tok]) toks

open Classical in
/-- The path that tokens mean in a lookup, where a `"*"` below a table means the row template. -/
noncomputable def readPath (rows : Path → Prop) (info : Path → Info) : Bool → Path → List Name → Path
  | _, p, [] => p
  | wild, p, tok :: toks =>
      let r := if (info (basePath rows p)).1 = some .table then readWild wild tok else (tok, wild)
      readPath rows info r.2 (basePath rows p ++ [r.1]) toks

theorem placePath_ne_nil {rows : Path → Prop} {p : Path} {toks : List Name} (h : toks ≠ []) :
    placePath rows p toks ≠ [] := by
  induction toks generalizing p with
  | nil =>
      exact absurd rfl h
  | cons tok toks ih =>
      cases toks with
      | nil =>
          simp [placePath]
      | cons t ts =>
          exact ih (by simp)

end Reading

namespace Registry

/-- A path is registered, the first part of a registered one, or the row template of a table. -/
def Known (R : Registry) (p : Path) : Prop :=
  p ≠ [] ∧ ((∃ x ∈ R.entries, p <+: x.1) ∨ ∃ x ∈ R.entries, x.2.type = .table ∧ p = x.1 ++ [template])

/-- Type and data of the last registration of a path. -/
def info (R : Registry) (p : Path) : Info :=
  match R.entries.find? fun x => x.1 = p with
  | none => (none, none, none)
  | some x => x.2.info

def Leaf (R : Registry) (p : Path) : Prop :=
  ∀ nm, ¬ R.Known (p ++ [nm])

noncomputable def place (R : Registry) (e : Elem) : Path :=
  placePath R.rows [] e.tokens

noncomputable def read (R : Registry) (toks : List Name) : Path :=
  readPath R.rows R.info false [] toks

/-- The path `x` becomes a row when an element is registered at `w`. -/
def NewRow (R : Registry) (w x : Path) : Prop :=
  ∃ t d, x = t ++ [d] ∧ isStringDigit d = true ∧ R.Known x ∧ R.Leaf x ∧ (R.info t).1 = some .table ∧
    R.Known (t ++ [template]) ∧ R.Leaf (t ++ [template]) ∧ t ++ [template] <+: w ∧ w ≠ t ++ [template]

/-- A registration. -/
noncomputable def register (R : Registry) (e : Elem) : Registry where
  entries := (R.place e, e) :: R.entries
  rows := fun x => R.rows x ∨ R.NewRow (R.place e) x

def empty : Registry :=
  ⟨[], fun _ => False⟩

/-- The registry after a list of registrations. -/
noncomputable def ofElems (es : List Elem) : Registry :=
  es.foldl register empty

theorem known_of_entry {R : Registry} {x : Path × Elem} (hx : x ∈ R.entries) (hne : x.1 ≠ []) : R.Known x.1 :=
  ⟨hne, .inl ⟨x, hx, List.prefix_rfl⟩⟩

theorem known_parent {R : Registry} {p : Path} {nm : Name} (hk : R.Known (p ++ [nm])) (hp : p ≠ []) : R.Known p := by
  obtain ⟨-, ⟨x, hx, hpre⟩ | ⟨x, hx, -, he⟩⟩ := hk
  · exact ⟨hp, .inl ⟨x, hx, (List.prefix_append _ _).trans hpre⟩⟩
  · obtain ⟨rfl, -⟩ := List.append_inj' he rfl
    exact known_of_entry hx hp

theorem known_register (R : Registry) (e : Elem) (p : Path) :
    (R.register e).Known p ↔
      (R.Known p ∨ p ≠ [] ∧ p <+: R.place e) ∨ e.type = .table ∧ p = R.place e ++ [template] := by
  simp only [Registry.Known, Registry.register, List.exists_mem_cons_iff]
  constructor
  · rintro ⟨hp, (hpre | hx) | (⟨ht, he⟩ | hx)⟩
    · exact .inl (.inr ⟨hp, hpre⟩)
    · exact .inl (.inl ⟨hp, .inl hx⟩)
    · exact .inr ⟨ht, he⟩
    · exact .inl (.inl ⟨hp, .inr hx⟩)
  · rintro ((⟨hp, hx | hx⟩ | ⟨hp, hpre⟩) | ⟨ht, he⟩)
    · exact ⟨hp, .inl (.inr hx)⟩
    · exact ⟨hp, .inr (.inr hx)⟩
    · exact ⟨hp, .inl (.inl hpre)⟩
    · exact ⟨by simp [he], .inr (.inl ⟨ht, he⟩)⟩

theorem info_register (R : Registry) (e : Elem) :
    (R.register e).info = Function.update R.info (R.place e) e.info := by
  funext p
  by_cases hp : p = R.place e
  · subst hp
    simp [Registry.info, Registry.register]
  · have hne : R.place e ≠ p := fun he => hp he.symm
    rw [Function.update_of_ne hp]
    simp [Registry.info, Registry.register, hne]

/-- Rows are known, and every element is still found under the path where it was placed. -/
structure Sound (R : Registry) : Prop where
  row_known : ∀ p, R.rows p → R.Known p
  placed : ∀ x ∈ R.entries, R.place x.2 = x.1

/-- A path that becomes a row has no elements below it, neither before nor after. -/
theorem NewRow.leaf_register {R : Registry} {e : Elem} {x : Path} (h : R.NewRow (R.place e) x) :
    (R.register e).Leaf x := by
  obtain ⟨t, d, rfl, hdig, -, hleaf, -, -, -, hpre, -⟩ := h
  -- the element's path goes through the row template
  have hno : ¬ t ++ [d] <+: R.place e := by
    intro hd
    have he := List.prefix_of_prefix_length_le hd hpre (by simp)
    have hdt : d = template := by
      have := he.eq_of_length (by simp)
      simpa using this
    rw [hdt] at hdig
    exact absurd hdig (by decide)
  intro nm hk
  obtain (hk | ⟨-, hw⟩) | ⟨-, hw⟩ := (R.known_register e _).mp hk
  · exact hleaf nm hk
  · exact hno ((List.prefix_append _ _).trans hw)
  · obtain ⟨hw, -⟩ := List.append_inj' hw rfl
    exact hno (hw ▸ List.prefix_rfl)

theorem known_register_of_known {R : Registry} {p : Path} (hk : R.Known p) (e : Elem) : (R.register e).Known p :=
  (R.known_register e p).mpr (.inl (.inl hk))

/-- A walk to a known path starts at a known path. -/
theorem known_of_place {R : Registry} {rows : Path → Prop} (hrow : ∀ p, rows p → R.Known p) {p : Path} (hp : p ≠ [])
    {toks : List Name} (hk : R.Known (placePath rows p toks)) : R.Known p := by
  induction toks generalizing p with
  | nil =>
      exact hk
  | cons tok toks ih =>
      have hb := ih (by simp) hk
      by_cases hr : rows p
      · exact hrow p hr
      · rw [basePath, if_neg hr] at hb
        exact known_parent hb hp

/-- New rows without elements below them are not on the way to a known path. -/
theorem place_eq_of_leaf {R : Registry} {rows rows' : Path → Prop} (hrow : ∀ p, rows p → R.Known p)
    (hsub : ∀ p, rows p → rows' p) (hnew : ∀ p, rows' p → rows p ∨ R.Leaf p) {p : Path} {toks : List Name}
    (hk : toks ≠ [] → R.Known (placePath rows p toks)) : placePath rows' p toks = placePath rows p toks := by
  induction toks generalizing p with
  | nil =>
      rfl
  | cons tok toks ih =>
      have hk := hk (by simp)
      have hnext : R.Known (basePath rows p ++ [tok]) := known_of_place hrow (by simp) hk
      have hbase : basePath rows' p = basePath rows p := by
        by_cases hr : rows p
        · simp [basePath, hr, hsub p hr]
        · rw [basePath, if_neg hr] at hnext
          have hr' : ¬ rows' p := fun hr' => (hnew p hr').elim hr fun hl => hl tok hnext
          simp [basePath, hr, hr']
      rw [placePath, placePath, hbase]
      exact ih fun _ => hk

theorem Sound.register {R : Registry} (h : R.Sound) (e : Elem) : (R.register e).Sound := by
  have hrow : ∀ p, R.rows p → (R.register e).Known p := fun p hr => known_register_of_known (h.row_known p hr) e
  have hnew : ∀ p, (R.register e).rows p → R.rows p ∨ (R.register e).Leaf p := by
    rintro p (hr | hr)
    · exact .inl hr
    · exact .inr hr.leaf_register
  constructor
  · rintro p (hr | ⟨t, d, rfl, -, hk, -⟩)
    · exact hrow p hr
    · exact known_register_of_known hk e
  · intro x hx
    have hold : placePath R.rows [] x.2.tokens = x.1 := by
      obtain rfl | hx := List.mem_cons.mp hx
      · rfl
      · exact h.placed x hx
    rw [← hold]
    refine place_eq_of_leaf hrow (fun p hr => .inl hr) hnew fun hne => ?_
    rw [hold]
    refine known_of_entry hx ?_
    rw [← hold]
    exact placePath_ne_nil hne

theorem ofElems_concat (es : List Elem) (e : Elem) : ofElems (es ++ [e]) = (ofElems es).register e := by
  simp [ofElems]

theorem ofElems_sound (es : List Elem) : (ofElems es).Sound := by
  induction es using List.reverseRecOn with
  | nil =>
      exact ⟨fun _ hr => hr.elim, fun _ hx => absurd hx (by simp [ofElems, empty])⟩
  | append_singleton es e ih =>
      rw [ofElems_concat]
      exact ih.register e

theorem ofElems_elems (es : List Elem) : (ofElems es).entries.map Prod.snd = es.reverse := by
  induction es using List.reverseRecOn with
  | nil =>
      rfl
  | append_singleton es e ih =>
      rw [ofElems_concat, List.reverse_concat, ← ih]
      rfl

/-- The registry keeps every element under its place. -/
theorem entries_ofElems (es : List Elem) :
    (ofElems es).entries = es.reverse.map fun e => ((ofElems es).place e, e) := by
  rw [← ofElems_elems, List.map_map]
  refine (List.map_id _).symm.trans (List.map_congr_left fun x hx => ?_)
  simp [(ofElems_sound es).placed x hx]

theorem known_place {es : List Elem} {e : Elem} (he : e ∈ es) (hne : e.tokens ≠ []) :
    (ofElems es).Known ((ofElems es).place e) := by
  refine @known_of_entry _ ((ofElems es).place e, e) ?_ (placePath_ne_nil hne)
  rw [entries_ofElems]
  exact List.mem_map_of_mem (List.mem_reverse.mpr he)

/-- The last registration of a path counts. -/
theorem info_last {es l₁ l₂ : List Elem} {e : Elem} (hes : es = l₁ ++ e :: l₂)
    (hlast : ∀ e' ∈ l₂, (ofElems es).place e' ≠ (ofElems es).place e) :
    (ofElems es).info ((ofElems es).place e) = e.info := by
  have hfind : (ofElems es).entries.find? (fun x => x.1 = (ofElems es).place e) = some ((ofElems es).place e, e) := by
    rw [entries_ofElems]
    generalize ofElems es = R at hlast ⊢
    have hnone : (l₂.reverse.map fun e => (R.place e, e)).find? (fun x => x.1 = R.place e) = none := by
      simpa using hlast
    rw [hes, List.reverse_append, List.reverse_cons, List.append_assoc, List.map_append, List.find?_append, hnone]
    simp
  simp [info, hfind]

/-- Without a `"*"` a name reads as it is placed. -/
theorem readPath_eq_placePath {rows : Path → Prop} {I : Path → Info} {toks : List Name} (hno : ['*'] ∉ toks) (p : Path) :
    readPath rows I false p toks = placePath rows p toks := by
  induction toks generalizing p with
  | nil =>
      rfl
  | cons tok toks ih =>
      obtain ⟨htok, hno⟩ := not_or.mp (List.mem_cons.not.mp hno)
      have hr : (if (I (basePath rows p)).1 = some .table then readWild false tok else (tok, false)) = (tok, false) := by
        simp [readWild, Ne.symm htok]
      rw [readPath, hr, placePath]
      exact ih hno _

end Registry

end OneWifiTestSuite.BusTree
