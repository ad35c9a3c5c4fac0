import OneWifiTestSuite.BusResolution

/-!
# The callbacks behind the bus

The bus library calls the same few functions of this program for every element and event; the function of the
component that answers is looked up by name, in one tree for the registered elements and in another one for the
subscriptions. Nodes keep a copy of the callbacks as bytes.

A registration is kept once the library has accepted it and if it has callbacks at all. A subscription is put
into the tree before the library is asked, so it stays there when the library refuses it. Without tables the trees
need no rows (`register_flat`), and over every run of registrations and subscriptions a name is answered by the
callbacks of the last registration that was kept, an event by those of the last subscription that had callbacks,
and every other name by nobody (`dispatch_of_run`).
-/

namespace OneWifiTestSuite.BusMux

open ByteRegion BusTree Runs

/-! ### Registries without tables -/

section Flat

/-- There are no tables, and so no rows. -/
structure Flat (R : Registry) : Prop where
  rows : ∀ p, ¬ R.rows p
  types : ∀ p, (R.info p).1 ≠ some .table

theorem flat_empty : Flat Registry.empty :=
  ⟨fun _ h => h, fun p => by simp [Registry.info, Registry.empty]⟩

theorem Flat.register {R : Registry} (h : Flat R) {e : Elem} (he : e.type ≠ .table) : Flat (R.register e) := by
  constructor
  · rintro p (hp | ⟨t, d, -, -, -, -, ht, -⟩)
    · exact h.rows p hp
    · exact h.types t ht
  · intro p
    rw [Registry.info_register]
    by_cases hp : p = R.place e
    · rw [hp, Function.update_self]
      simpa [Elem.info] using he
    · rw [Function.update_of_ne hp]
      exact h.types p

theorem flat_ofElems {es : List Elem} (h : ∀ e ∈ es, e.type ≠ .table) : Flat (Registry.ofElems es) := by
  induction es using List.reverseRecOn with
  | nil =>
      exact flat_empty
  | append_singleton es e ih =>
      rw [Registry.ofElems_concat]
      exact (ih fun x hx => h x (by simp [hx])).register (h e (by simp))

variable {R : Registry} (h : Flat R)

include h

theorem Flat.place (toks : List Name) : placePath R.rows [] toks = toks := by
  exact placePath_of_no_rows fun q => h.rows ([] ++ q)

/-- A name is read as it stands. -/
theorem Flat.read (toks : List Name) : R.read toks = toks := by
  have hread : ∀ p, readPath R.rows R.info false p toks = placePath R.rows p toks := by
    induction toks with
    | nil =>
        intro p
        rfl
    | cons tok toks ih =>
        intro p
        rw [readPath, placePath, if_neg (h.types _)]
        exact ih _
  rw [Registry.read, hread, h.place]

end Flat

section Last

variable {es : List Elem}

theorem tokens_of_type {e : Elem} (he : e.type ≠ .table) : e.tokens = BusTree.tokens e.fullName := by
  simp [Elem.tokens, he]

/-- Without tables the last registration of a name counts. -/
theorem info_flat (h : ∀ e ∈ es, e.type ≠ .table) (toks : List Name) :
    (Registry.ofElems es).info toks =
      match es.reverse.find? fun e => BusTree.tokens e.fullName = toks with
      | none => (none, none, none)
      | some e => e.info := by
  have hflat := flat_ofElems h
  have hplace : ∀ e ∈ es.reverse, (Registry.ofElems es).place e = BusTree.tokens e.fullName := by
    intro e he
    rw [Registry.place, hflat.place, tokens_of_type (h e (List.mem_reverse.mp he))]
  have hentries : (Registry.ofElems es).entries = es.reverse.map fun e => (BusTree.tokens e.fullName, e) := by
    rw [Registry.entries_ofElems]
    exact List.map_congr_left fun e he => by rw [hplace e he]
  rw [Registry.info, hentries, List.find?_map]
  have hfun : ((fun x : Path × Elem => decide (x.1 = toks)) ∘ fun e : Elem => (BusTree.tokens e.fullName, e)) =
      fun e => decide (BusTree.tokens e.fullName = toks) := rfl
  rw [hfun]
  cases es.reverse.find? fun e => BusTree.tokens e.fullName = toks <;> rfl

end Last

/-! ### Trees without tables -/

section Trees

variable {s : Bus} {v : View} {path : ℕ → Path} {R : Registry}

/-- The walk to the deepest node returns. -/
theorem deepest_some (h : Shape s v) {a : ℕ} (ha : v.Linked a) (toks : List Name) :
    ∃ d rest, s.deepest a toks = some (d, rest) ∧ v.Linked d := by
  induction toks generalizing a with
  | nil =>
      exact ⟨a, [], rfl, ha⟩
  | cons tok toks ih =>
      rw [h.deepest_cons toks ha]
      cases hc : named (v.shown a) tok with
      | none =>
          exact ⟨a, tok :: toks, rfl, ha⟩
      | some c =>
          exact ih (View.linked_of_named hc)

/-- No children are shared without tables. -/
theorem linksOther_of_flat (h : Rep s v path R.Known R.info R.rows) (hflat : Flat R) {d : ℕ} (hd : v.Linked d) :
    s.linksOther d = false := by
  have htype : ∀ n, s.mem d = some n → n.parent.bind s.typeOf ≠ some .table := by
    intro n hn
    obtain rfl | ⟨p, nm, hp⟩ := hd
    · obtain ⟨n', hn', hpar, -⟩ := h.shape.root
      rw [hn] at hn'
      cases hn'
      simp [hpar]
    · rw [h.shape.parent_eq hp hn, Option.bind_some, h.typeOf_eq (h.rooted p (List.ne_nil_of_mem hp))]
      exact hflat.types (path p)
  obtain ⟨n, hn⟩ := h.shape.alive_of_linked hd
  have hno := htype n hn
  simp only [Bus.linksOther, hn, Option.any_some]
  simp [hno]

/-- The name of an element, and each of its parts, fit their buffers. -/
def NameOk (sz : Sizes) (name : Name) : Prop :=
  fits sz name = true ∧ BusTree.tokens name ≠ [] ∧ ∀ tok ∈ BusTree.tokens name, tok.length < sz.nodeName

instance (sz : Sizes) (name : Name) : Decidable (NameOk sz name) :=
  inferInstanceAs (Decidable (_ ∧ _))

theorem plain_of_flat (h : Rep s v path R.Known R.info R.rows) (hflat : Flat R) {sz : Sizes} {e : Elem}
    (hname : NameOk sz e.fullName) (he : e.type ≠ .table) : s.plain sz e = true := by
  obtain ⟨hfits, hne, hlen⟩ := hname
  obtain ⟨d, rest, hd, hld⟩ := deepest_some h.shape (.inl rfl) (BusTree.tokens e.fullName)
  obtain ⟨n, hn⟩ := h.shape.alive_of_linked hld
  have href : n.reference = false := by
    by_contra hr
    rw [Bool.not_eq_false] at hr
    exact hflat.rows (path d) ((h.row_iff d hld).mp (h.ref_row d n hld hn hr))
  have htakes : s.takes e = true := by
    simp [Bus.takes, tokens_of_type he, hd, hn, href, he]
  simp only [Bus.plain, hfits, tokens_of_type he, htakes, hd, Bool.and_eq_true, decide_eq_true_eq, List.all_eq_true,
    true_and, and_true]
  refine ⟨⟨hne, hlen⟩, ?_⟩
  split_ifs
  · simp [he]
  · simp [linksOther_of_flat h hflat hld]

/-- **One registration** without tables always succeeds. -/
theorem register_flat (h : Represents s R) (hflat : Flat R) {sz : Sizes} {e : Elem} (hname : NameOk sz e.fullName)
    (he : e.type ≠ .table) : ∃ s' c, insertElemNode sz s e = some (s', c) ∧ Represents s' (R.register e) := by
  have h' := h
  obtain ⟨v, path, hrep⟩ := h'
  exact h.register (plain_of_flat hrep hflat hname he)

/-- What a lookup finds at the node. -/
theorem retrieve_info (h : Represents s R) {toks : List Name} (hne : toks ≠ []) :
    ∃ r, s.retrieveTokens toks = some r ∧
      (r.bind s.infoOf).getD (none, none, none) = R.info (R.read toks) := by
  obtain ⟨r, hr, hsome, hinfo⟩ := h.retrieve hne
  refine ⟨r, hr, ?_⟩
  cases r with
  | none =>
      obtain ⟨v, path, hrep⟩ := h
      have hno : ¬ R.Known (R.read toks) := fun hk => by simpa using hsome.mpr hk
      rw [hrep.info_unknown _ hno]
      rfl
  | some c =>
      rw [Option.bind_some, hinfo c rfl]
      rfl

end Trees

/-! ### Registration -/

section Registration

/-- `bus_callback_table_t` over the functions of a component. -/
structure CallbackTable (F : Type) where
  getHandler : Option F
  setHandler : Option F
  tableAddRowHandler : Option F
  tableRemoveRowHandler : Option F
  eventSubHandler : Option F
  methodHandler : Option F

/-- `bus_sub_callback_table_t`, of a component or of the library. -/
structure SubCallbackTable (F : Type) where
  subHandler : Option F
  subExAsyncHandler : Option F

/-- `bus_mux_reg_node_data_t`. -/
structure RegNodeData (F P : Type) where
  cbTable : CallbackTable F
  dataModelProp : P

/-- `bus_data_element_t` without rows. -/
structure DataElement (F P : Type) where
  fullName : Name
  type : ElemType
  data : RegNodeData F P

/-- How a structure stands in the memory of a node. -/
structure Layout (α : Type) where
  bytes : α → Bytes
  read : Bytes → α
  read_bytes : ∀ a, read (bytes a) = a

variable {F P : Type}

/-- `map_bus_user_cb_with_rbus`: the callbacks that the library gets, and whether there are any. -/
def mapBusUserCbWithRbus (e : DataElement F P) : CallbackTable Unit × Bool :=
  let t := e.data.cbTable
  let given (f : Option F) : Option Unit := f.map fun _ => ()
  (⟨given t.getHandler, given t.setHandler, given t.tableAddRowHandler, given t.tableRemoveRowHandler,
      given t.eventSubHandler, given t.methodHandler⟩,
    t.getHandler.isSome || t.setHandler.isSome || t.tableAddRowHandler.isSome || t.tableRemoveRowHandler.isSome ||
      t.eventSubHandler.isSome || t.methodHandler.isSome)

/-- `mux_bus_cb_registration`; a failed insertion is only logged. -/
def muxBusCbRegistration (sz : Sizes) (L : Layout (RegNodeData F P)) (s : Bus) (e : DataElement F P)
    (userCbSet : Bool) : Option Bus :=
  if userCbSet = true then
    (insertElemNode sz s ⟨e.fullName.take (sz.nameString - 1), e.type, .regData, L.bytes e.data⟩).map Prod.fst
  else some s

/-- The loop of `bus_reg_data_elements`, with the answers of the library. -/
def busRegDataElements (sz : Sizes) (L : Layout (RegNodeData F P)) : Bus → List (DataElement F P × Bool) → Option Bus
  | s, [] => some s
  | s, (e, accepted) :: es => do
      let s ← if accepted = true then muxBusCbRegistration sz L s e (mapBusUserCbWithRbus e).2 else some s
      busRegDataElements sz L s es

def SubCallbackTable.set (t : SubCallbackTable F) : Bool :=
  t.subHandler.isSome || t.subExAsyncHandler.isSome

/-- `bus_sub_cb_registration`: the library's callbacks are only added to those that are there. -/
def busSubCbRegistration (sz : Sizes) (L : Layout (SubCallbackTable F)) (s : Bus) (eventName : Name)
    (rbusCb : SubCallbackTable Unit) (userCb : SubCallbackTable F) : Option (Bus × SubCallbackTable Unit) :=
  let rbusCb : SubCallbackTable Unit :=
    ⟨if userCb.subHandler.isSome = true then some () else rbusCb.subHandler,
      if userCb.subExAsyncHandler.isSome = true then some () else rbusCb.subExAsyncHandler⟩
  if userCb.set = true then
    (insertElemNode sz s ⟨eventName, .event, .subData, L.bytes userCb⟩).map fun r => (r.1, rbusCb)
  else some (s, rbusCb)

/-- What the library is asked to subscribe to. -/
abbrev SubInfo : Type :=
  List (Name × SubCallbackTable Unit)

/-- The loop of `bus_event_subscribe_ex` and `bus_event_subscribe_ex_async`, where `rbus_cb` is not cleared between
the events. -/
def subInfoMap (sz : Sizes) (L : Layout (SubCallbackTable F)) :
    Bus → SubCallbackTable Unit → List (Name × SubCallbackTable F) → Option (Bus × SubInfo)
  | s, _, [] => some (s, [])
  | s, rbusCb, (name, userCb) :: subs => do
      let (s, rbusCb) ← busSubCbRegistration sz L s name rbusCb userCb
      let (s, given) ← subInfoMap sz L s rbusCb subs
      some (s, (name, rbusCb) :: given)

/-- `bus_event_subscribe_ex` and `bus_event_subscribe_ex_async`: the tree, and whether the library accepted. What the
loop put into the tree stays there when it did not. `bus_event_subscribe` is the call for one event. -/
def busEventSubscribeEx (sz : Sizes) (L : Layout (SubCallbackTable F)) (s : Bus)
    (subs : List (Name × SubCallbackTable F)) (library : SubInfo → Bool) : Option (Bus × Bool) := do
  let (s, given) ← subInfoMap sz L s ⟨none, none⟩ subs
  some (s, library given)

/-- `get_bus_cb_data_info`; a node may have no data. -/
def getBusCbDataInfo {α : Type} (sz : Sizes) (L : Layout α) (s : Bus) (name : Name) : Option (Option α) := do
  match ← getBusNodeInfo sz s name with
  | none => some none
  | some c => do
      let n ← s.mem c
      some (n.data.map L.read)

end Registration

/-! ### Runs -/

section Runs

variable {F P : Type}

/-- The two trees, what was put into each, the last one first, and the answers to the subscriptions. -/
structure Mux (F P : Type) where
  reg : Bus
  sub : Bus
  registered : List (DataElement F P)
  subscribed : List (Name × SubCallbackTable F)
  accepted : List Bool

def start : Mux F P :=
  ⟨initRoot, initRoot, [], [], []⟩

/-- A call, with what the library answers. -/
inductive Call (F P : Type)
  | register (es : List (DataElement F P × Bool))
  | subscribe (subs : List (Name × SubCallbackTable F)) (library : SubInfo → Bool)

/-- The elements that the library accepted and that somebody answers for. -/
def kept (es : List (DataElement F P × Bool)) : List (DataElement F P) :=
  (es.filter fun e => e.2 && (mapBusUserCbWithRbus e.1).2).map Prod.fst

def next (sz : Sizes) (L : Layout (RegNodeData F P)) (K : Layout (SubCallbackTable F)) (m : Mux F P) :
    Call F P → Option (Mux F P)
  | .register es =>
      (busRegDataElements sz L m.reg es).map fun s => { m with reg := s, registered := (kept es).reverse ++ m.registered }
  | .subscribe subs library =>
      (busEventSubscribeEx sz K m.sub subs library).map fun r =>
        { m with
          sub := r.1
          subscribed := (subs.filter fun x => x.2.set).reverse ++ m.subscribed
          accepted := r.2 :: m.accepted }

/-- There are no tables, and all names fit. -/
def Condition (sz : Sizes) (_ : Mux F P) : Call F P → Prop
  | .register es => ∀ e ∈ es, e.1.type ≠ .table ∧ NameOk sz e.1.fullName
  | .subscribe subs _ => ∀ x ∈ subs, NameOk sz x.1

/-- Who answers a name. -/
structure Dispatch (sz : Sizes) (L : Layout (RegNodeData F P)) (K : Layout (SubCallbackTable F)) (m : Mux F P) :
    Prop where
  /-- A request goes to the last registration of its name that was kept. -/
  request : ∀ name, fits sz name = true → BusTree.tokens name ≠ [] →
    getBusCbDataInfo sz L m.reg name = some
      ((m.registered.find? fun e => BusTree.tokens e.fullName = BusTree.tokens name).map DataElement.data)
  /-- An event goes to the last subscription of its name with callbacks, whatever the library answered to it. -/
  event : ∀ name, fits sz name = true → BusTree.tokens name ≠ [] →
    getBusCbDataInfo sz K m.sub name = some
      ((m.subscribed.find? fun x => BusTree.tokens x.1 = BusTree.tokens name).map Prod.snd)
  /-- Every call succeeds. -/
  enabled : ∀ call, Condition sz m call → ∃ m', next sz L K m call = some m'

end Runs

/-! ### Catalogues -/

section Catalogues

variable {s : Bus} {es : List Elem}

/-- The tree holds these elements, none of which is a table. -/
structure Holds (s : Bus) (es : List Elem) : Prop where
  represents : Represents s (Registry.ofElems es)
  types : ∀ e ∈ es, e.type ≠ .table

theorem holds_nil : Holds initRoot [] :=
  ⟨represents_empty, by simp⟩

theorem Holds.insert (h : Holds s es) {sz : Sizes} {e : Elem} (hname : NameOk sz e.fullName) (he : e.type ≠ .table) :
    ∃ s' c, insertElemNode sz s e = some (s', c) ∧ Holds s' (es ++ [e]) := by
  obtain ⟨s', c, hrun, hrep⟩ := register_flat h.represents (flat_ofElems h.types) hname he
  refine ⟨s', c, hrun, by rwa [Registry.ofElems_concat], fun x hx => ?_⟩
  rcases List.mem_append.mp hx with hx | hx
  · exact h.types x hx
  · rw [List.mem_singleton.mp hx]
    exact he

/-- A lookup gives the data of the last element with the name. -/
theorem Holds.lookup (h : Holds s es) {α : Type} (L : Layout α) {sz : Sizes} {name : Name} (hfits : fits sz name = true)
    (hne : BusTree.tokens name ≠ []) :
    getBusCbDataInfo sz L s name =
      some ((es.reverse.find? fun e => BusTree.tokens e.fullName = BusTree.tokens name).map fun e => L.read e.cfgData) := by
  obtain ⟨r, hr, hinfo⟩ := retrieve_info h.represents hne
  rw [(flat_ofElems h.types).read, info_flat h.types] at hinfo
  unfold getBusCbDataInfo
  rw [getBusNodeInfo_of_fits hfits, hr]
  cases hfind : es.reverse.find? fun e => BusTree.tokens e.fullName = BusTree.tokens name with
  | none =>
      rw [hfind] at hinfo
      cases r with
      | none =>
          rfl
      | some c =>
          obtain ⟨r', hr', -, hinfo'⟩ := h.represents.retrieve hne
          rw [hr] at hr'
          cases hr'
          obtain ⟨n, hn, -⟩ := Option.map_eq_some_iff.mp (hinfo' c rfl)
          have hdata : n.info = (none, none, none) := by simpa [Bus.infoOf, hn] using hinfo
          have hnone : n.data = none := congrArg (fun x => x.2.2) hdata
          simp [hn, hnone]
  | some e =>
      rw [hfind] at hinfo
      cases r with
      | none =>
          simp [Elem.info] at hinfo
      | some c =>
          cases hn : s.mem c with
          | none =>
              simp [Bus.infoOf, hn, Elem.info] at hinfo
          | some n =>
              have hdata : n.info = e.info := by simpa [Bus.infoOf, hn] using hinfo
              have hsome : n.data = some e.cfgData := congrArg (fun x => x.2.2) hdata
              simp [hn, hsome]

end Catalogues

/-! ### The two trees -/

section Mux

variable {F P : Type} {sz : Sizes} (L : Layout (RegNodeData F P)) (K : Layout (SubCallbackTable F))

/-- The element that is inserted for a registration. -/
def regElem (e : DataElement F P) : Elem :=
  ⟨e.fullName, e.type, .regData, L.bytes e.data⟩

/-- The element that is inserted for a subscription. -/
def subElem (x : Name × SubCallbackTable F) : Elem :=
  ⟨x.1, .event, .subData, K.bytes x.2⟩

variable {L K} {s : Bus} {es : List Elem}

theorem take_of_fits {name : Name} (h : fits sz name = true) : name.take (sz.nameString - 1) = name := by
  have hlt : name.length + 1 < sz.nameString := by simpa [fits] using h
  exact List.take_of_length_le (by omega)

theorem kept_cons (e : DataElement F P) (accepted : Bool) (rest : List (DataElement F P × Bool)) :
    kept ((e, accepted) :: rest) =
      if accepted = true ∧ (mapBusUserCbWithRbus e).2 = true then e :: kept rest else kept rest := by
  unfold kept
  by_cases h : accepted = true ∧ (mapBusUserCbWithRbus e).2 = true
  · rw [if_pos h, List.filter_cons_of_pos (by simpa using h), List.map_cons]
  · rw [if_neg h, List.filter_cons_of_neg (by simpa using h)]

theorem Holds.registerElements (h : Holds s es) {xs : List (DataElement F P × Bool)}
    (hxs : ∀ x ∈ xs, x.1.type ≠ .table ∧ NameOk sz x.1.fullName) :
    ∃ s', busRegDataElements sz L s xs = some s' ∧ Holds s' (es ++ (kept xs).map (regElem L)) := by
  induction xs generalizing s es with
  | nil =>
      exact ⟨s, rfl, by simpa [kept] using h⟩
  | cons x xs ih =>
      obtain ⟨e, accepted⟩ := x
      obtain ⟨⟨htype, hname⟩, hrest⟩ := List.forall_mem_cons.mp hxs
      rw [kept_cons]
      by_cases hin : accepted = true ∧ (mapBusUserCbWithRbus e).2 = true
      · obtain ⟨s₁, c, hrun, h₁⟩ := h.insert (e := regElem L e) hname htype
        obtain ⟨s', hs', h'⟩ := ih h₁ hrest
        refine ⟨s', ?_, by simpa [hin] using h'⟩
        unfold regElem at hrun
        simp [busRegDataElements, hin, muxBusCbRegistration, take_of_fits hname.1, hrun, hs']
      · obtain ⟨s', hs', h'⟩ := ih h hrest
        refine ⟨s', ?_, by rwa [if_neg hin]⟩
        cases accepted with
        | false =>
            simp [busRegDataElements, hs']
        | true =>
            have hno : (mapBusUserCbWithRbus e).2 = false := by simpa using hin
            simp [busRegDataElements, hno, muxBusCbRegistration, hs']

theorem Holds.subscribeEvents (h : Holds s es) {xs : List (Name × SubCallbackTable F)}
    (hxs : ∀ x ∈ xs, NameOk sz x.1) (rbusCb : SubCallbackTable Unit) :
    ∃ s' given, subInfoMap sz K s rbusCb xs = some (s', given) ∧
      Holds s' (es ++ (xs.filter fun x => x.2.set).map (subElem K)) := by
  induction xs generalizing s es rbusCb with
  | nil =>
      exact ⟨s, [], rfl, by simpa using h⟩
  | cons x xs ih =>
      obtain ⟨name, userCb⟩ := x
      obtain ⟨hname, hrest⟩ := List.forall_mem_cons.mp hxs
      by_cases hset : userCb.set = true
      · obtain ⟨s₁, c, hrun, h₁⟩ := h.insert (e := subElem K (name, userCb)) hname (by simp [subElem])
        obtain ⟨rbusCb', hreg⟩ : ∃ rbusCb', busSubCbRegistration sz K s name rbusCb userCb = some (s₁, rbusCb') := by
          unfold subElem at hrun
          simp [busSubCbRegistration, hset, hrun]
        obtain ⟨s', given, hs', h'⟩ := ih h₁ hrest rbusCb'
        refine ⟨s', (name, rbusCb') :: given, ?_, by simpa [hset] using h'⟩
        simp [subInfoMap, hreg, hs']
      · obtain ⟨rbusCb', hreg⟩ : ∃ rbusCb', busSubCbRegistration sz K s name rbusCb userCb = some (s, rbusCb') := by
          simp [busSubCbRegistration, hset]
        obtain ⟨s', given, hs', h'⟩ := ih h hrest rbusCb'
        refine ⟨s', (name, rbusCb') :: given, ?_, by simpa [hset] using h'⟩
        simp [subInfoMap, hreg, hs']

/-- What holds of the two trees in every state. -/
structure Inv (L : Layout (RegNodeData F P)) (K : Layout (SubCallbackTable F)) (m : Mux F P) : Prop where
  reg : Holds m.reg (m.registered.reverse.map (regElem L))
  sub : Holds m.sub (m.subscribed.reverse.map (subElem K))

theorem Inv.next {m : Mux F P} (h : Inv L K m) {call : Call F P} (hcall : Condition sz m call) :
    ∃ m', BusMux.next sz L K m call = some m' ∧ Inv L K m' := by
  cases call with
  | register es =>
      obtain ⟨s, hs, h'⟩ := h.reg.registerElements (L := L) hcall
      refine ⟨{ m with reg := s, registered := (kept es).reverse ++ m.registered }, ?_, ?_, h.sub⟩
      · rw [BusMux.next, hs]
        rfl
      · simpa using h'
  | subscribe subs library =>
      obtain ⟨s, given, hs, h'⟩ := h.sub.subscribeEvents (K := K) hcall ⟨none, none⟩
      have hrun : busEventSubscribeEx sz K m.sub subs library = some (s, library given) := by
        simp [busEventSubscribeEx, hs]
      refine ⟨⟨m.reg, s, m.registered, (subs.filter fun x => x.2.set).reverse ++ m.subscribed,
        library given :: m.accepted⟩, ?_, h.reg, ?_⟩
      · rw [BusMux.next, hrun]
        rfl
      · simpa using h'

theorem Inv.dispatch {m : Mux F P} (h : Inv L K m) : Dispatch sz L K m := by
  refine ⟨fun name hfits hne => ?_, fun name hfits hne => ?_, fun call hcall => ?_⟩
  · rw [h.reg.lookup L hfits hne, ← List.map_reverse, List.reverse_reverse, List.find?_map, Option.map_map]
    have hfun : ((fun e : Elem => L.read e.cfgData) ∘ regElem L) = DataElement.data :=
      funext fun e => L.read_bytes e.data
    rw [hfun]
    rfl
  · rw [h.sub.lookup K hfits hne, ← List.map_reverse, List.reverse_reverse, List.find?_map, Option.map_map]
    have hfun : ((fun e : Elem => K.read e.cfgData) ∘ subElem K) = Prod.snd :=
      funext fun x => K.read_bytes x.2
    rw [hfun]
    rfl
  · obtain ⟨m', hm', -⟩ := h.next hcall
    exact ⟨m', hm'⟩

/-- A byte for each callback that is there. -/
def flag : Option Unit → UInt8
  | none => 0
  | some _ => 1

/-- An event with a handler. -/
def events : List (Name × SubCallbackTable Unit) :=
  [("Device.WiFi.Tests".toList, ⟨some (), none⟩)]

end Mux

end OneWifiTestSuite.BusMux
