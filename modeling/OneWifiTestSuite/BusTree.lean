import OneWifiTestSuite.ByteRegion
import Mathlib.Data.BitVec

/-!
# The tree of bus elements

The nodes of the tree live in a memory with identities: an address is never used twice, so that a
pointer to a freed node stays visible. A node points to its first child, to its next sibling and to
its parent. A row of a table shares the children of the row template; its `reference` flag says so.

A function is `none` when it reads or frees a node that is not allocated, follows a null pointer or
never ends, and when a name does not end inside its buffer.
-/

namespace OneWifiTestSuite.BusTree

open ByteRegion

/-! ### Nodes and memory -/

section Memory

/-- The characters of a C string. -/
abbrev Name := List Char

/-- `bus_element_type_t`. -/
inductive ElemType
  | property
  | table
  | event
  | method
deriving DecidableEq, Repr

/-- The node data is a registration or a subscription. -/
inductive DataType
  | regData
  | subData
deriving DecidableEq, Repr

/-- `elem_node_map_t`. The type of a node from `calloc` is none of the enumerators. -/
structure Node where
  name : Name
  type : Option ElemType
  dataType : Option DataType
  data : Option Bytes
  child : Option ℕ
  nextSibling : Option ℕ
  parent : Option ℕ
  reference : Bool
deriving DecidableEq, Repr

/-- `bus_mux_data_elem_t`. -/
structure Elem where
  fullName : Name
  type : ElemType
  dataType : DataType
  cfgData : Bytes
deriving DecidableEq, Repr

/-- The sizes of `bus_name_string_t` and of the `name` of a node, which has room for a printed row
index. -/
structure Sizes where
  nameString : ℕ
  nodeName : ℕ
  index_fits : 8 ≤ nodeName

/-- The memory of nodes; the root is at address 0. -/
structure Bus where
  mem : ℕ → Option Node
  fresh : ℕ
  freed : List ℕ

/-- `get_empty_elem_node`. -/
def emptyElemNode : Node :=
  ⟨[], none, none, none, none, none, none, false⟩

/-- `init_bus_mux_root`. -/
def initRoot : Bus :=
  ⟨Function.update (fun _ => none) 0 (some emptyElemNode), 1, []⟩

namespace Bus

def write (s : Bus) (a : ℕ) (n : Node) : Bus :=
  { s with mem := Function.update s.mem a (some n) }

/-- A new node at the fresh address. -/
def alloc (s : Bus) (n : Node) : Bus :=
  { s with mem := Function.update s.mem s.fresh (some n), fresh := s.fresh + 1 }

/-- `node_elems_free`; `none` frees a node twice. -/
def free (s : Bus) (a : ℕ) : Option Bus :=
  match s.mem a with
  | none => none
  | some _ => some { s with mem := Function.update s.mem a none, freed := a :: s.freed }

end Bus

end Memory

/-! ### Names -/

section Names

/-- `"{i}"`. -/
def template : Name := ['{', 'i', '}']

/-- The tokens that `strtok_r` finds between the dots. -/
def tokens (name : Name) : List Name :=
  (name.splitOn '.').filter (· ≠ [])

/-- `strncpy(name, full_name, sizeof(name) - 1)` into an array that was not cleared. -/
def copyName (sz : Sizes) (name : Name) : Option Name :=
  if name.length + 1 < sz.nameString then some name else none

/-- A table's name without its `".{i}."` or `".{i}"`. -/
def stripTable (name : Name) : Name :=
  if 4 < name.length then
    if name.drop (name.length - 5) = '.' :: template ++ ['.'] then name.take (name.length - 5)
    else if name.drop (name.length - 4) = '.' :: template then name.take (name.length - 4)
    else name
  else name

def isStringDigit (name : Name) : Bool :=
  name ≠ [] && name.all fun c => '0' ≤ c && c ≤ '9'

/-- `"%d"` of a row index. -/
def decimal (i : BitVec 32) : Name :=
  if i.toInt < 0 then '-' :: Nat.toDigits 10 i.toInt.natAbs else Nat.toDigits 10 i.toInt.natAbs

/-- `snprintf(str_table_name, 8, "%d", table_index)`. -/
def printIndex (i : BitVec 32) : Name :=
  (decimal i).take 7

/-- A token below a table, where `wild` says that a `"*"` came before. -/
def readWild (wild : Bool) (tok : Name) : Name × Bool :=
  if wild || tok = ['*'] then (template, true) else (tok, false)

/-- The tokens of an element's name. -/
def Elem.tokens (e : Elem) : List Name :=
  BusTree.tokens (if e.type = .table then stripTable e.fullName else e.fullName)

end Names

/-! ### Looking up -/

section Lookup

namespace Bus

/-- The loop over siblings from node `a`: the node with the name, or else the last one. -/
def searchSiblings (s : Bus) (tok : Name) : ℕ → ℕ → Option (ℕ × Bool)
  | 0, _ => none
  | k + 1, a => do
      let n ← s.mem a
      if n.name = tok then
        some (a, true)
      else
        match n.nextSibling with
        | none => some (a, false)
        | some b => s.searchSiblings tok k b

/-- The node with the name among the siblings from a pointer. -/
def lookup (s : Bus) (next : Option ℕ) (tok : Name) : Option (Option ℕ) :=
  match next with
  | none => some none
  | some h => do
      let (a, found) ← s.searchSiblings tok (s.fresh + 1) h
      some (if found then some a else none)

/-- Below a table, a `"*"` and every token behind it read as `"{i}"`. -/
def adjust (s : Bus) (wild : Bool) (next : Option ℕ) (tok : Name) : Option (Name × Bool) :=
  match next with
  | none => some (tok, wild)
  | some h => do
      let n ← s.mem h
      match n.parent with
      | none => some (tok, wild)
      | some p => do
          let pn ← s.mem p
          if pn.type = some .table then some (readWild wild tok) else some (tok, wild)

/-- The loop of `retrieve_instance_elem_node` from its second token on. -/
def descend (s : Bus) : Bool → ℕ → List Name → Option (Option ℕ)
  | _, cur, [] => some (some cur)
  | wild, cur, tok :: toks => do
      let n ← s.mem cur
      let (tok', wild') ← s.adjust wild n.child tok
      match ← s.lookup n.child tok' with
      | none => some none
      | some c => s.descend wild' c toks

def retrieveTokens (s : Bus) : List Name → Option (Option ℕ)
  | [] => some none
  | tok :: toks => do
      let n ← s.mem 0
      match ← s.lookup n.child tok with
      | none => some none
      | some c => s.descend false c toks

end Bus

/-- `retrieve_instance_elem_node`. -/
def retrieveInstanceElemNode (sz : Sizes) (s : Bus) (name : Name) : Option (Option ℕ) := do
  let name ← copyName sz name
  s.retrieveTokens (tokens name)

/-- `get_bus_node_info`. -/
def getBusNodeInfo (sz : Sizes) (s : Bus) (name : Name) : Option (Option ℕ) :=
  retrieveInstanceElemNode sz s (name.take (sz.nameString - 1))

end Lookup

/-! ### Registration -/

section Insert

namespace Bus

/-- The loop of `link_tables_with_node`. -/
def linkFrom (child : Option ℕ) : ℕ → Option ℕ → Bus → Option Bus
  | _, none, s => some s
  | 0, some _, _ => none
  | k + 1, some b, s => do
      let n ← s.mem b
      let s := if n.child = none ∧ isStringDigit n.name then
          s.write b { n with child := child, reference := true }
        else s
      linkFrom child k n.nextSibling s

def linkTablesWithNode (s : Bus) (a : ℕ) : Option Bus := do
  let n ← s.mem a
  linkFrom n.child (s.fresh + 1) n.nextSibling s

def isGrandparentTable (s : Bus) (curParent : ℕ) : Option Bool := do
  let n ← s.mem curParent
  match n.parent with
  | none => some false
  | some g => do
      let gn ← s.mem g
      some (gn.type = some .table)

/-- The first child of a node. -/
def createChild (sz : Sizes) (s : Bus) (cur : ℕ) (tok : Name) : Option (Bus × ℕ) := do
  let a := s.fresh
  let s := s.alloc { emptyElemNode with parent := some cur, name := tok.take (sz.nodeName - 1) }
  let n ← s.mem cur
  let s := s.write cur { n with child := some a }
  if ← s.isGrandparentTable cur then
    let s ← s.linkTablesWithNode cur
    some (s, a)
  else
    some (s, a)

/-- A new sibling behind the last one. Its full name is built from that of the parent. -/
def createSibling (sz : Sizes) (s : Bus) (last : ℕ) (tok : Name) : Option (Bus × ℕ) := do
  let n ← s.mem last
  let p ← n.parent
  let _ ← s.mem p
  let a := s.fresh
  let s := s.alloc { emptyElemNode with parent := n.parent, name := tok.take (sz.nodeName - 1) }
  some (s.write last { n with nextSibling := some a }, a)

/-- One token of `bus_insert_elem_node`: `create_child` is set whenever the loop is entered. -/
def insertToken (sz : Sizes) (s : Bus) (cur : ℕ) (tok : Name) : Option (Bus × ℕ) := do
  let n ← s.mem cur
  match n.child with
  | none => s.createChild sz cur tok
  | some h => do
      let (b, found) ← s.searchSiblings tok (s.fresh + 1) h
      if found then some (s, b) else s.createSibling sz b tok

def insertTokens (sz : Sizes) : Bus → ℕ → List Name → Option (Bus × ℕ)
  | s, cur, [] => some (s, cur)
  | s, cur, tok :: toks => do
      let (s, cur) ← s.insertToken sz cur tok
      insertTokens sz s cur toks

/-- The last part of `bus_insert_elem_node`: the node takes the element's type and data, and a
table a new row template as its child. -/
def setElem (s : Bus) (a : ℕ) (e : Elem) : Option Bus := do
  let n ← s.mem a
  let n := { n with type := some e.type, dataType := some e.dataType, data := some e.cfgData }
  let s := s.write a n
  if e.type = .table then
    let t := s.fresh
    let s := s.alloc { emptyElemNode with parent := some a, name := template }
    some (s.write a { n with child := some t })
  else
    some s

end Bus

/-- `bus_insert_elem_node`. -/
def insertElemNode (sz : Sizes) (s : Bus) (e : Elem) : Option (Bus × ℕ) := do
  let _ ← copyName sz e.fullName
  let (s, a) ← s.insertTokens sz 0 e.tokens
  let s ← s.setElem a e
  some (s, a)

end Insert

/-! ### Rows -/

section Rows

/-- A row without data takes a copy of the table's. -/
def Node.takeData (rn tn : Node) : Node :=
  match tn.data, rn.data with
  | some (b :: bs), none => { rn with dataType := tn.dataType, data := some (b :: bs) }
  | _, _ => rn

/-- A row without children shows those of the row template. -/
def Node.showChildren (rn cn : Node) : Node :=
  if rn.child = none then { rn with child := cn.child, reference := true } else rn

namespace Bus

/-- `insert_table_row`. -/
def insertTableRow (sz : Sizes) (s : Bus) (table : ℕ) (name : Name) : Option (Bus × Option ℕ) := do
  let n ← s.mem table
  match n.child with
  | none => some (s, none)
  | some h => do
      let (b, found) ← s.searchSiblings name (s.fresh + 1) h
      if found then
        some (s, some b)
      else
        let (s, a) ← s.createSibling sz b name
        some (s, some a)

/-- `duplicate_node_ref`. -/
def duplicateNodeRef (s : Bus) (row table : ℕ) : Option Bus := do
  let tn ← s.mem table
  match ← s.lookup tn.child template with
  | none => some s
  | some t => do
      let rn ← s.mem row
      let cn ← s.mem t
      some (s.write row ((rn.takeData tn).showChildren cn))

end Bus

/-- `bus_table_add_row`; the answer says whether it succeeded. -/
def tableAddRow (sz : Sizes) (s : Bus) (name : Name) (index : BitVec 32) : Option (Bus × Bool) := do
  match ← getBusNodeInfo sz s name with
  | none => some (s, false)
  | some table => do
      let (s, row) ← s.insertTableRow sz table (printIndex index)
      match row with
      | none => some (s, false)
      | some row => do
          let s ← s.duplicateNodeRef row table
          some (s, true)

end Rows

/-! ### Removal -/

section Remove

namespace Bus

/-- `node_elem_recurse_traversal` with `node_elems_free`, for a node and all siblings behind it: the
children go before their node, but a reference node does not own any. -/
def freeSiblings : ℕ → Option ℕ → Bus → Option Bus
  | _, none, s => some s
  | 0, some _, _ => none
  | k + 1, some a, s => do
      let n ← s.mem a
      let s ← (if n.reference then some s else freeSiblings k n.child s : Option Bus)
      let s ← s.free a
      freeSiblings k n.nextSibling s

/-- The loop that takes a node out of the siblings from a pointer. -/
def unlinkFrom (v : ℕ) (next : Option ℕ) : ℕ → Option ℕ → Bus → Option Bus
  | _, none, s => some s
  | 0, some _, _ => none
  | k + 1, some c, s => do
      let n ← s.mem c
      if n.nextSibling = some v then
        some (s.write c { n with nextSibling := next })
      else
        unlinkFrom v next k n.nextSibling s

def unlink (s : Bus) (v : ℕ) : Option Bus := do
  let n ← s.mem v
  match n.parent with
  | none => some s
  | some p => do
      let pn ← s.mem p
      if pn.child = some v then
        some (s.write p { pn with child := n.nextSibling })
      else
        unlinkFrom v n.nextSibling (s.fresh + 1) pn.child s

/-- `node_elem_traversal` with `node_elems_free`. -/
def elemTraversal (s : Bus) (v : ℕ) : Option Bus := do
  let n ← s.mem v
  let s ← (if n.reference then some s else freeSiblings s.fresh n.child s : Option Bus)
  let s ← s.unlink v
  s.free v

/-- The loop of `bus_remove_all_elems`. -/
def removeFrom : ℕ → Option ℕ → Bus → Option Bus
  | _, none, s => some s
  | 0, some _, _ => none
  | k + 1, some a, s => do
      let n ← s.mem a
      let s ← s.elemTraversal a
      removeFrom k n.nextSibling s

end Bus

/-- `bus_table_remove_row`. -/
def tableRemoveRow (sz : Sizes) (s : Bus) (name : Name) : Option (Bus × Bool) := do
  match ← getBusNodeInfo sz s name with
  | none => some (s, false)
  | some v => do
      let s ← s.elemTraversal v
      some (s, true)

/-- `bus_remove_all_elems` on the root. -/
def removeAllElems (s : Bus) : Option Bus :=
  Bus.removeFrom (s.fresh + 1) (some 0) s

end Remove

end OneWifiTestSuite.BusTree
