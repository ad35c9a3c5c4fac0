import OneWifiTestSuite.AgentJson
import OneWifiTestSuite.CStrings
import Mathlib.Data.List.Forall2

/-!
# Properties of an rbus object

`set_rbus_object_data` makes an rbus object from a list of typed properties and
`get_rbus_object_data` makes such a list from an object. The lengths of the list are `unsigned int` and
those of rbus `int`. `correct_iff_fits` is the round trip: it holds exactly when the lengths survive
this conversion. `getRbusObjectData_error` says what a failed conversion leaves.
-/

namespace OneWifiTestSuite.RbusProps

open ByteRegion AgentJson CStrings

/-! ### Data -/

section Data

/-- `bus_error_t`, as far as the conversions return it. -/
inductive BusError
  | success
  | invalidInput
  | outOfResources
deriving DecidableEq, Repr

/-- `rbusValueType_t`, as far as the conversions tell the types apart. -/
inductive ValueType
  | none
  | boolean
  | int32
  | uint32
  | string
  | bytes
  | other
deriving DecidableEq, Repr

/-- The values of the rbus library. A length is an `int`, and a pointer is what it points to, or null. -/
structure RbusLib where
  Value : Type
  setString : CText → Value
  setBytes : Option Bytes → BitVec 32 → Value
  setInt32 : BitVec 32 → Value
  setUInt32 : BitVec 32 → Value
  setBoolean : Bool → Value
  getType : Value → ValueType
  getString : Value → Option Bytes × BitVec 32
  getBytes : Value → Option Bytes × BitVec 32
  getInt32 : Value → BitVec 32
  getUInt32 : Value → BitVec 32
  getBoolean : Value → Bool

/-- A value gives back what was put into it, as long as its length is an `int`; `counted` tells whether
the length of a string counts its terminator. -/
structure RbusLib.Lawful (lib : RbusLib) (counted : Bool) : Prop where
  type_string : ∀ s : CText, s.1.length < 2 ^ 31 → lib.getType (lib.setString s) = .string
  get_string : ∀ s : CText, s.1.length < 2 ^ 31 → ∃ m, lib.getString (lib.setString s) =
    (some (s.1 ++ 0 :: m), BitVec.ofNat 32 (s.1.length + counted.toNat))
  type_bytes : ∀ p n, 0 ≤ n.toInt → lib.getType (lib.setBytes p n) = .bytes
  get_bytes : ∀ p n, 0 ≤ n.toInt → ∃ q, lib.getBytes (lib.setBytes p n) = (q, n) ∧
    (n.toNat ≤ (p.getD []).length → 0 < n.toNat → ∃ m, q = some m ∧ m.take n.toNat = (p.getD []).take n.toNat)
  type_int32 : ∀ x, lib.getType (lib.setInt32 x) = .int32
  get_int32 : ∀ x, lib.getInt32 (lib.setInt32 x) = x
  type_uint32 : ∀ x, lib.getType (lib.setUInt32 x) = .uint32
  get_uint32 : ∀ x, lib.getUInt32 (lib.setUInt32 x) = x
  type_boolean : ∀ b, lib.getType (lib.setBoolean b) = .boolean
  get_boolean : ∀ b, lib.getBoolean (lib.setBoolean b) = b

/-- `rbusObject_t`: its properties in list order, or a single unnamed value. -/
structure RbusObject (V : Type) where
  properties : List (Option CText × Option V)
  value : Option V

/-- The union of `raw_data_t` with its `data_type`. -/
inductive RawValue
  | zero
  | boolean (b : Bool)
  | int32 (x : BitVec 32)
  | uint32 (x : BitVec 32)
  | string (p : Option Bytes)
  | bytes (p : Option Bytes)
  | other
deriving DecidableEq, Repr

/-- `raw_data_t`. -/
structure RawData where
  rawData : RawValue
  rawDataLen : BitVec 32
deriving DecidableEq, Repr

/-- `bus_data_prop_t`; the array of its name has room for `cap` characters and the terminator. -/
structure BusDataProp (cap : ℕ) where
  name : { s : CText // s.1.length ≤ cap }
  nameLen : ℕ
  value : RawData
  isDataSet : Bool
  status : BusError
  refCount : ℕ
deriving DecidableEq

/-- The record that a caller passes, and what hangs on its `next_data`. -/
structure BusData (cap : ℕ) where
  head : BusDataProp cap
  next : List (BusDataProp cap)
deriving DecidableEq

theorem zero_notMem_nil : (0 : UInt8) ∉ ([] : Bytes) :=
  List.not_mem_nil

/-- A record after `memset`. -/
def BusDataProp.zero (cap : ℕ) : BusDataProp cap where
  name := ⟨⟨[], zero_notMem_nil⟩, Nat.zero_le cap⟩
  nameLen := 0
  value := ⟨.zero, 0⟩
  isDataSet := false
  status := .success
  refCount := 0

def BusData.zero (cap : ℕ) : BusData cap :=
  ⟨BusDataProp.zero cap, []⟩

/-- A block as a string; a null pointer stands for the empty one. -/
def cText (p : Option Bytes) : CText :=
  ⟨cStr (p.getD []), fun h => by simpa using List.mem_takeWhile_imp h⟩

end Data

/-! ### The code -/

section Code

variable {cap : ℕ} (lib : RbusLib)

/-- `rbusObject_SetProperty` on the list of an object: by name, behind the others. -/
def setProperty {V : Type} (name : CText) (value : V) :
    List (Option CText × Option V) → List (Option CText × Option V)
  | [] => [(some name, some value)]
  | p :: ps => if p.1 = some name then (some name, some value) :: ps else p :: setProperty name value ps

/-- The `switch` of `set_rbus_object_data`; `none` is an unsupported type. -/
def toRbusValue (v : RawData) : Option lib.Value :=
  match v.rawData with
  | .string p => some (lib.setString (cText p))
  | .bytes p => some (lib.setBytes p v.rawDataLen)
  | .int32 x => some (lib.setInt32 x)
  | .uint32 x => some (lib.setUInt32 x)
  | .boolean b => some (lib.setBoolean b)
  | .zero => none
  | .other => none

/-- The name that a property gets. -/
def propName (name : Option CText) (p : BusDataProp cap) : CText :=
  if 0 < p.nameLen then p.name.1
  else
    match name with
    | some s => if s.1 ≠ [] then s else ⟨text "value", by decide⟩
    | none => ⟨text "value", by decide⟩

/-- The loop of `set_rbus_object_data`. -/
def setLoop (name : Option CText) : List (BusDataProp cap) → RbusObject lib.Value →
    BusError × RbusObject lib.Value
  | [], obj => (.success, obj)
  | p :: ps, obj =>
      if p.isDataSet = false then setLoop name ps obj
      else
        match toRbusValue lib p.value with
        | none => (.invalidInput, obj)
        | some v => setLoop name ps { obj with properties := setProperty (propName name p) v obj.properties }

/-- `set_rbus_object_data`. -/
def setRbusObjectData (name : Option CText) (outParams : RbusObject lib.Value) (d : BusData cap) :
    BusError × RbusObject lib.Value :=
  if d.head.isDataSet = false ∧ d.next = [] then (.success, outParams)
  else setLoop lib name (d.head :: d.next) outParams

/-- The `switch` of `rbus_value_to_bus_prop`; `alloc` answers the allocation of the block. -/
def toRawData (alloc : Bool) (value : lib.Value) : Except BusError RawData :=
  match lib.getType value with
  | .string =>
      match lib.getString value with
      | (none, _) => .error .invalidInput
      | (some m, len) =>
          if len.toInt < 0 then .error .invalidInput
          else if alloc = false then .error .outOfResources
          else .ok ⟨.string (some (m.take len.toNat ++ [0])), len⟩
  | .bytes =>
      match lib.getBytes value with
      | (p, len) =>
          if len.toInt < 0 ∨ 0 < len.toInt ∧ p = none then .error .invalidInput
          else if 0 < len.toInt then
            if alloc = false then .error .outOfResources
            else .ok ⟨.bytes (some ((p.getD []).take len.toNat)), len⟩
          else .ok ⟨.bytes none, len⟩
  | .boolean => .ok ⟨.boolean (lib.getBoolean value), 1⟩
  | .int32 => .ok ⟨.int32 (lib.getInt32 value), 4⟩
  | .uint32 => .ok ⟨.uint32 (lib.getUInt32 value), 4⟩
  | .none => .error .invalidInput
  | .other => .error .invalidInput

/-- The record that `rbus_value_to_bus_prop` fills. -/
def toProp (cap : ℕ) (alloc : Bool) (name : Option CText) (value : lib.Value) :
    Except BusError (BusDataProp cap) :=
  let filled (s : { s : CText // s.1.length ≤ cap }) (len : ℕ) : Except BusError (BusDataProp cap) :=
    match toRawData lib alloc value with
    | .error e => .error e
    | .ok v => .ok ⟨s, len, v, true, .success, 1⟩
  match name with
  | none => filled (BusDataProp.zero cap).name 0
  | some s => if h : s.1.length ≤ cap then filled ⟨s, h⟩ s.1.length else .error .invalidInput

/-- The record itself is filled, not a new one behind it. -/
def BusData.usesHead (d : BusData cap) : Bool :=
  !d.head.isDataSet && d.next.isEmpty

/-- Where a filled record goes. -/
def BusData.add (d : BusData cap) (p : BusDataProp cap) : BusData cap :=
  if d.usesHead then ⟨p, []⟩ else ⟨d.head, p :: d.next⟩

/-- `rbus_value_to_bus_prop`; `alloc` answers the allocation of the record and that of the block. -/
def rbusValueToBusProp (alloc : Bool × Bool) (d : BusData cap) (name : Option CText) (value : Option lib.Value) :
    BusError × BusData cap :=
  match value with
  | none => (.invalidInput, d)
  | some v =>
      if d.usesHead = false ∧ alloc.1 = false then (.outOfResources, d)
      else
        match toProp lib cap alloc.2 name v with
        | .error e => (e, if d.usesHead then BusData.zero cap else d)
        | .ok p => (.success, d.add p)

/-- The loop of `get_rbus_object_data`; `n` counts the properties behind it. -/
def getLoop (alloc : ℕ → Bool × Bool) : ℕ → List (Option CText × Option lib.Value) → BusData cap →
    BusError × BusData cap
  | _, [], d => (.success, d)
  | n, q :: qs, d =>
      if q.1 = none ∨ q.2.isNone then (.invalidInput, d)
      else
        match rbusValueToBusProp lib (alloc n) d q.1 q.2 with
        | (.success, d') => getLoop alloc (n + 1) qs d'
        | (e, d') => (e, d')

/-- `get_rbus_object_data`; `free_bus_data_prop` clears the record after a failed loop. -/
def getRbusObjectData (alloc : ℕ → Bool × Bool) (inParams : Option (RbusObject lib.Value)) (d : BusData cap) :
    BusError × BusData cap :=
  match inParams with
  | none => (.invalidInput, d)
  | some obj =>
      if obj.properties ≠ [] then
        match getLoop lib alloc 0 obj.properties d with
        | (.success, d') => (.success, d')
        | (e, _) => (e, BusData.zero cap)
      else
        match obj.value with
        | none => (.invalidInput, d)
        | some v =>
            if lib.getType v = .none then (.success, d) else rbusValueToBusProp lib (alloc 0) d none (some v)

end Code

/-! ### The purpose -/

section Spec

variable {cap : ℕ}

/-- The type and the value of a property. -/
inductive Content
  | boolean (b : Bool)
  | int32 (x : BitVec 32)
  | uint32 (x : BitVec 32)
  | string (s : CText)
  | bytes (bs : Bytes)
deriving DecidableEq

def RawData.content (v : RawData) : Option Content :=
  match v.rawData with
  | .string p => some (.string (cText p))
  | .bytes p => some (.bytes ((p.getD []).take v.rawDataLen.toNat))
  | .int32 x => some (.int32 x)
  | .uint32 x => some (.uint32 x)
  | .boolean b => some (.boolean b)
  | .zero => none
  | .other => none

/-- A value of a supported type: a string ends in its block, and a block has its length. -/
def RawData.Supported (v : RawData) : Prop :=
  match v.rawData with
  | .string p => ∀ m, p = some m → 0 ∈ m
  | .bytes p => v.rawDataLen.toNat ≤ (p.getD []).length
  | .zero | .other => False
  | _ => True

/-- The properties in a list: its records that are set. -/
def BusData.entries (d : BusData cap) : List (BusDataProp cap) :=
  (d.head :: d.next).filter (·.isDataSet)

/-- The triples of a list: a name, with a type and a value. -/
def BusData.triples (d : BusData cap) : List (CText × Option Content) :=
  d.entries.map fun p => (p.name.1, p.value.content)

/-- A list of properties with distinct names and supported values; it is not empty. -/
structure Input (d : BusData cap) : Prop where
  nonempty : d.entries ≠ []
  named : ∀ p ∈ d.entries, p.nameLen = p.name.1.1.length ∧ 0 < p.nameLen
  distinct : (d.entries.map fun p => p.name.1).Nodup
  supported : ∀ p ∈ d.entries, p.value.Supported

/-- The object is made; it is read back when there is memory, and whenever it is read back the triples
are those of the list. -/
def RoundTrips (lib : RbusLib) (name : Option CText) (d : BusData cap) : Prop :=
  ∃ obj, setRbusObjectData lib name ⟨[], none⟩ d = (.success, obj) ∧
    (∀ alloc, (∀ n, alloc n = (true, true)) →
      (getRbusObjectData lib alloc (some obj) (BusData.zero cap)).1 = .success) ∧
    ∀ alloc, (getRbusObjectData lib alloc (some obj) (BusData.zero cap)).1 = .success →
      (getRbusObjectData lib alloc (some obj) (BusData.zero cap)).2.triples.Perm d.triples

/-- A failed conversion leaves the list as it was, or empty. -/
def CleanOnError (lib : RbusLib) (cap : ℕ) : Prop :=
  ∀ alloc inParams (d : BusData cap), (getRbusObjectData lib alloc inParams d).1 ≠ .success →
    (getRbusObjectData lib alloc inParams d).2 = d ∨ (getRbusObjectData lib alloc inParams d).2 = BusData.zero cap

/-- One list comes back as it was, and a failed conversion leaves nothing half done. -/
def Correct (lib : RbusLib) (name : Option CText) (d : BusData cap) : Prop :=
  RoundTrips lib name d ∧ CleanOnError lib cap

/-- The length that rbus gives back is an `int`. -/
def RawData.Fits (counted : Bool) (v : RawData) : Prop :=
  match v.content with
  | some (.string s) => s.1.length + counted.toNat < 2 ^ 31
  | some (.bytes bs) => bs.length < 2 ^ 31
  | _ => True

end Spec

/-! ### One value -/

section Values

variable {lib : RbusLib} {counted alloc : Bool} {v v' : RawData} {w : lib.Value}

theorem toNat_eq_toInt {x : BitVec 32} (h : ¬ x.toInt < 0) : (x.toNat : ℤ) = x.toInt ∧ x.toNat < 2 ^ 31 := by
  have hlt := x.isLt
  rw [BitVec.toInt_eq_toNat_cond] at h ⊢
  split_ifs at h ⊢ <;> omega

theorem toInt_ofNat_nonneg {n : ℕ} (h : n < 2 ^ 31) :
    ¬ (BitVec.ofNat 32 n).toInt < 0 ∧ (BitVec.ofNat 32 n).toNat = n := by
  have hmod : n % 2 ^ 32 = n := Nat.mod_eq_of_lt (by omega)
  rw [BitVec.toInt_eq_toNat_cond, BitVec.toNat_ofNat, hmod]
  refine ⟨?_, rfl⟩
  split_ifs <;> omega

theorem cStr_append_zero (l : Bytes) : cStr (l ++ [0]) = cStr l := by
  unfold cStr
  rw [List.takeWhile_append]
  split_ifs with hall
  · have hself := (List.takeWhile_prefix (p := (· != (0 : UInt8))) (l := l)).eq_of_length hall
    rw [hself]
    simp
  · rfl

theorem length_cStr_le (l : Bytes) : (cStr l).length ≤ l.length :=
  (List.takeWhile_prefix _).length_le

/-- A string that was cut behind its end is still that string. -/
theorem cStr_take {s : Bytes} (hs : 0 ∉ s) (t : Bytes) {k : ℕ} (hk : s.length ≤ k) :
    cStr ((s ++ 0 :: t).take k) = s := by
  have htake : (s ++ 0 :: t).take k = s ++ (0 :: t).take (k - s.length) := by
    rw [List.take_append, List.take_of_length_le hk]
  rw [htake]
  cases k - s.length with
  | zero =>
      rw [List.take_zero, List.append_nil]
      exact cStr_eq_self hs
  | succ j =>
      exact takeWhile_append_zero hs _

theorem toRawData_string (htype : lib.getType w = .string) : toRawData lib alloc w = .ok v ↔
    ∃ m len, lib.getString w = (some m, len) ∧ ¬ len.toInt < 0 ∧ alloc = true ∧
      v = ⟨.string (some (m.take len.toNat ++ [0])), len⟩ := by
  simp only [toRawData, htype]
  obtain ⟨p, len⟩ := lib.getString w
  cases p with
  | none =>
      simp
  | some m =>
      cases alloc with
      | false =>
          by_cases hneg : len.toInt < 0 <;> simp [hneg]
      | true =>
          by_cases hneg : len.toInt < 0
          · simp [hneg]
          · simp [hneg, not_lt.mp hneg, eq_comm]

theorem toRawData_bytes (htype : lib.getType w = .bytes) : toRawData lib alloc w = .ok v ↔
    ∃ p len, lib.getBytes w = (p, len) ∧ ¬ len.toInt < 0 ∧
      (0 < len.toInt ∧ p ≠ none ∧ alloc = true ∧ v = ⟨.bytes (some ((p.getD []).take len.toNat)), len⟩ ∨
        len.toInt = 0 ∧ v = ⟨.bytes none, len⟩) := by
  obtain ⟨⟨p, len⟩, hget⟩ : ∃ r, lib.getBytes w = r := ⟨_, rfl⟩
  simp only [toRawData, htype, hget, Prod.mk.injEq]
  obtain hneg | hzero | hpos := lt_trichotomy len.toInt 0
  · refine iff_of_false (by simp [hneg]) ?_
    rintro ⟨p', len', ⟨-, rfl⟩, hle, -⟩
    exact hle hneg
  · simp only [hzero, lt_irrefl, false_or, false_and, if_false, Except.ok.injEq]
    constructor
    · rintro rfl
      exact ⟨p, len, ⟨rfl, rfl⟩, by simp [hzero], Or.inr ⟨hzero, rfl⟩⟩
    · rintro ⟨p', len', ⟨-, rfl⟩, -, ⟨hpos, -⟩ | ⟨-, rfl⟩⟩
      · rw [hzero] at hpos
        exact absurd hpos (lt_irrefl _)
      · rfl
  · have hle : ¬ len.toInt < 0 := by omega
    have hne : len.toInt ≠ 0 := by omega
    cases p with
    | none =>
        refine iff_of_false (by simp [hpos]) ?_
        rintro ⟨p', len', ⟨rfl, rfl⟩, -, ⟨-, hp, -⟩ | ⟨hzero, -⟩⟩
        · exact hp rfl
        · exact hne hzero
    | some m =>
        cases alloc with
        | false =>
            refine iff_of_false (by simp [hpos, hle]) ?_
            rintro ⟨p', len', ⟨-, rfl⟩, -, ⟨-, -, halloc, -⟩ | ⟨hzero, -⟩⟩
            · cases halloc
            · exact hne hzero
        | true =>
            simp only [hle, hpos, false_or, and_false, if_false, if_true, Except.ok.injEq, reduceCtorEq]
            constructor
            · rintro rfl
              exact ⟨_, _, ⟨rfl, rfl⟩, hle, Or.inl ⟨hpos, by simp, trivial, rfl⟩⟩
            · rintro ⟨p', len', ⟨rfl, rfl⟩, -, ⟨-, -, -, rfl⟩ | ⟨hzero, -⟩⟩
              · rfl
              · exact absurd hzero hne

/-- With more memory a conversion does not change. -/
theorem toRawData_mono (h : toRawData lib alloc w = .ok v) : toRawData lib true w = .ok v := by
  cases htype : lib.getType w with
  | string =>
      obtain ⟨m, len, hget, hlen, -, hv⟩ := (toRawData_string htype).mp h
      exact (toRawData_string htype).mpr ⟨m, len, hget, hlen, rfl, hv⟩
  | bytes =>
      obtain ⟨p, len, hget, hlen, ⟨hpos, hp, -, hv⟩ | hzero⟩ := (toRawData_bytes htype).mp h
      · exact (toRawData_bytes htype).mpr ⟨p, len, hget, hlen, Or.inl ⟨hpos, hp, rfl, hv⟩⟩
      · exact (toRawData_bytes htype).mpr ⟨p, len, hget, hlen, Or.inr hzero⟩
  | _ =>
      simpa only [toRawData, htype] using h

/-- What is converted has a length that is an `int`. -/
theorem fits_of_toRawData (h : toRawData lib alloc w = .ok v) : v.Fits false := by
  cases htype : lib.getType w with
  | string =>
      obtain ⟨m, len, -, hlen, -, rfl⟩ := (toRawData_string htype).mp h
      have hshort := (toNat_eq_toInt hlen).2
      have hle := length_cStr_le (m.take len.toNat)
      rw [List.length_take] at hle
      simp only [RawData.Fits, RawData.content, cText, Option.getD_some, cStr_append_zero, Bool.toNat_false]
      omega
  | bytes =>
      obtain ⟨p, len, -, hlen, ⟨-, -, -, rfl⟩ | ⟨-, rfl⟩⟩ := (toRawData_bytes htype).mp h
      · have hshort := (toNat_eq_toInt hlen).2
        simp only [RawData.Fits, RawData.content, Option.getD_some, List.length_take]
        omega
      · simp [RawData.Fits, RawData.content]
  | none | other =>
      simp [toRawData, htype] at h
  | boolean | int32 | uint32 =>
      simp only [toRawData, htype, Except.ok.injEq] at h
      subst h
      trivial

/-- **A value comes back exactly when its length is an `int`.** -/
theorem toRawData_toRbusValue (hlib : lib.Lawful counted) (hv : v.Supported) (hw : toRbusValue lib v = some w) :
    (∃ v', toRawData lib true w = .ok v' ∧ v'.content = v.content) ↔ v.Fits counted := by
  obtain ⟨data, n⟩ := v
  cases data with
  | zero | other =>
      cases hv
  | boolean b =>
      obtain rfl : lib.setBoolean b = w := Option.some.inj hw
      refine iff_of_true ⟨⟨.boolean b, 1⟩, ?_, rfl⟩ trivial
      simp only [toRawData, hlib.type_boolean, hlib.get_boolean]
  | int32 x =>
      obtain rfl : lib.setInt32 x = w := Option.some.inj hw
      refine iff_of_true ⟨⟨.int32 x, 4⟩, ?_, rfl⟩ trivial
      simp only [toRawData, hlib.type_int32, hlib.get_int32]
  | uint32 x =>
      obtain rfl : lib.setUInt32 x = w := Option.some.inj hw
      refine iff_of_true ⟨⟨.uint32 x, 4⟩, ?_, rfl⟩ trivial
      simp only [toRawData, hlib.type_uint32, hlib.get_uint32]
  | string p =>
      obtain rfl : lib.setString (cText p) = w := Option.some.inj hw
      have hcontent : ∀ v' : RawData, v'.content = some (.string (cText p)) → v'.Fits false →
          (cText p).1.length < 2 ^ 31 := by
        intro v' hv' hfits
        simpa only [RawData.Fits, hv', Bool.toNat_false, Nat.add_zero] using hfits
      change (∃ v' : RawData, _ ∧ v'.content = some (Content.string (cText p))) ↔
        (cText p).1.length + counted.toNat < 2 ^ 31
      constructor
      · rintro ⟨v', hv', hsame⟩
        have hlen := hcontent v' hsame (fits_of_toRawData hv')
        obtain ⟨m, hget⟩ := hlib.get_string _ hlen
        obtain ⟨m', len, hget', hneg, -⟩ := (toRawData_string (hlib.type_string _ hlen)).mp hv'
        rw [hget, Prod.mk.injEq] at hget'
        obtain ⟨-, rfl⟩ := hget'
        by_contra hlong
        have hint := (toNat_eq_toInt hneg).2
        have hbit := counted.toNat_le
        rw [BitVec.toNat_ofNat] at hint
        omega
      · intro hlen
        obtain ⟨m, hget⟩ := hlib.get_string (cText p) (by omega)
        obtain ⟨hneg, hnat⟩ := toInt_ofNat_nonneg hlen
        refine ⟨_, (toRawData_string (hlib.type_string _ (by omega))).mpr ⟨_, _, hget, hneg, rfl, rfl⟩, ?_⟩
        have htake := cStr_take (cText p).2 m (Nat.le_add_right (cText p).1.length counted.toNat)
        simp only [RawData.content, Option.some.injEq, Content.string.injEq]
        apply Subtype.ext
        change cStr (_ ++ [0]) = _
        rw [cStr_append_zero, hnat, htake]
  | bytes p =>
      obtain rfl : lib.setBytes p n = w := Option.some.inj hw
      have hlen : ((p.getD []).take n.toNat).length = n.toNat := by
        rw [List.length_take]
        exact min_eq_left hv
      change (∃ v' : RawData, _ ∧ v'.content = some (Content.bytes ((p.getD []).take n.toNat))) ↔
        ((p.getD []).take n.toNat).length < 2 ^ 31
      constructor
      · rintro ⟨v', hv', hsame⟩
        have hfits := fits_of_toRawData hv'
        simpa only [RawData.Fits, hsame] using hfits
      · intro hshort
        have hneg : ¬ n.toInt < 0 := by
          rw [BitVec.toInt_eq_toNat_cond]
          split_ifs <;> omega
        obtain ⟨q, hget, hsame⟩ := hlib.get_bytes p n (not_lt.mp hneg)
        have hnat := (toNat_eq_toInt hneg).1
        have htype := hlib.type_bytes p n (not_lt.mp hneg)
        by_cases hzero : n.toNat = 0
        · refine ⟨_, (toRawData_bytes htype).mpr ⟨q, n, hget, hneg, Or.inr ⟨by omega, rfl⟩⟩, ?_⟩
          simp [RawData.content, hzero]
        · obtain ⟨m, rfl, htake⟩ := hsame hv (by omega)
          refine ⟨_, (toRawData_bytes htype).mpr ⟨_, n, hget, hneg, Or.inl ⟨by omega, by simp, rfl, rfl⟩⟩, ?_⟩
          simp only [RawData.content, Option.getD_some, List.take_take, min_self, htake]

end Values

/-! ### From the list to the object -/

section Set

variable {cap : ℕ} {lib : RbusLib}

/-- A new name is set behind the others. -/
theorem setProperty_new {V : Type} {name : CText} {value : V} {l : List (Option CText × Option V)}
    (h : some name ∉ l.map Prod.fst) : setProperty name value l = l ++ [(some name, some value)] := by
  induction l with
  | nil =>
      rfl
  | cons q qs ih =>
      rw [List.map_cons, List.mem_cons, not_or] at h
      rw [setProperty, if_neg (Ne.symm h.1), ih h.2, List.cons_append]

/-- Every supported value becomes a value of the library. -/
theorem exists_toRbusValue (lib : RbusLib) {v : RawData} (hv : v.Supported) : ∃ w, toRbusValue lib v = some w := by
  obtain ⟨data, n⟩ := v
  cases data with
  | zero | other =>
      cases hv
  | _ =>
      exact ⟨_, rfl⟩

/-- A property of the object: the name and the value of a record. -/
def IsProperty (lib : RbusLib) (p : BusDataProp cap) (q : Option CText × Option lib.Value) : Prop :=
  q.1 = some p.name.1 ∧ ∃ w, toRbusValue lib p.value = some w ∧ q.2 = some w

/-- The loop sets the records one after another. -/
theorem setLoop_eq (lib : RbusLib) (name : Option CText) (ps : List (BusDataProp cap)) (obj : RbusObject lib.Value)
    (hnamed : ∀ p ∈ ps.filter (·.isDataSet), 0 < p.nameLen)
    (hsupp : ∀ p ∈ ps.filter (·.isDataSet), p.value.Supported)
    (hnew : (obj.properties.map Prod.fst ++
      (ps.filter (·.isDataSet)).map fun p => some p.name.1).Nodup) :
    ∃ qs, List.Forall₂ (IsProperty lib) (ps.filter (·.isDataSet)) qs ∧
      setLoop lib name ps obj = (.success, { obj with properties := obj.properties ++ qs }) := by
  induction ps generalizing obj with
  | nil =>
      exact ⟨[], List.Forall₂.nil, by simp [setLoop]⟩
  | cons p ps ih =>
      cases hset : p.isDataSet with
      | false =>
          rw [List.filter_cons_of_neg (by simp [hset])] at hnamed hsupp hnew ⊢
          rw [setLoop, if_pos hset]
          exact ih obj hnamed hsupp hnew
      | true =>
          rw [List.filter_cons_of_pos hset] at hnamed hsupp hnew ⊢
          rw [List.forall_mem_cons] at hnamed hsupp
          obtain ⟨w, hw⟩ := exists_toRbusValue lib hsupp.1
          have hname : propName name p = p.name.1 := if_pos hnamed.1
          have hfresh : some p.name.1 ∉ obj.properties.map Prod.fst := by
            rw [List.map_cons, List.nodup_append] at hnew
            exact fun hmem => hnew.2.2 _ hmem _ List.mem_cons_self rfl
          rw [setLoop, if_neg (by simp [hset])]
          simp only [hw, hname, setProperty_new hfresh]
          obtain ⟨qs, hqs, hrun⟩ := ih { obj with properties := obj.properties ++ [(some p.name.1, some w)] }
            hnamed.2 hsupp.2 (by simpa using hnew)
          refine ⟨(some p.name.1, some w) :: qs, List.Forall₂.cons ⟨rfl, w, hw, rfl⟩ hqs, ?_⟩
          rw [hrun, List.append_assoc, List.singleton_append]

/-- A list of properties becomes the object that has them in its order. -/
theorem setRbusObjectData_eq (lib : RbusLib) (name : Option CText) {d : BusData cap} (hd : Input d) :
    ∃ qs, List.Forall₂ (IsProperty lib) d.entries qs ∧
      setRbusObjectData lib name ⟨[], none⟩ d = (.success, ⟨qs, none⟩) := by
  have hne : ¬ (d.head.isDataSet = false ∧ d.next = []) := by
    rintro ⟨hset, hnext⟩
    apply hd.nonempty
    simp [BusData.entries, hset, hnext]
  have hnodup : (d.entries.map fun p => some p.name.1).Nodup := by
    have hsome := hd.distinct.map (Option.some_injective CText)
    rwa [List.map_map] at hsome
  obtain ⟨qs, hqs, hrun⟩ := setLoop_eq lib name (d.head :: d.next) ⟨[], none⟩
    (fun p hp => (hd.named p hp).2) hd.supported hnodup
  refine ⟨qs, hqs, ?_⟩
  rw [setRbusObjectData, if_neg hne, hrun, List.nil_append]

end Set

/-! ### From the object to the list -/

section Get

variable {cap : ℕ} {lib : RbusLib} {d : BusData cap} {p : BusDataProp cap}

/-- A record is added once, and nothing is lost. -/
theorem entries_add (hp : p.isDataSet = true) : (d.add p).entries.Perm (p :: d.entries) := by
  unfold BusData.add
  split_ifs with huse
  · obtain ⟨hhead, hnext⟩ : d.head.isDataSet = false ∧ d.next = [] := by
      simpa [BusData.usesHead] using huse
    simp [BusData.entries, hp, hhead, hnext]
  · cases hhead : d.head.isDataSet with
    | false =>
        simp [BusData.entries, hp, hhead]
    | true =>
        simp only [BusData.entries, List.filter_cons, hhead, hp, if_true]
        exact List.Perm.swap _ _ _

theorem toProp_eq_ok {alloc : Bool} {s : CText} {w : lib.Value} : toProp lib cap alloc (some s) w = .ok p ↔
    ∃ (h : s.1.length ≤ cap) (v : RawData), toRawData lib alloc w = .ok v ∧
      p = ⟨⟨s, h⟩, s.1.length, v, true, .success, 1⟩ := by
  unfold toProp
  by_cases h : s.1.length ≤ cap
  · simp only [dif_pos h]
    cases toRawData lib alloc w with
    | error e =>
        simp
    | ok v =>
        simp [h, eq_comm]
  · simp [h]

theorem toRawData_ne_success (alloc : Bool) (w : lib.Value) : toRawData lib alloc w ≠ .error .success := by
  cases htype : lib.getType w with
  | string =>
      obtain ⟨⟨_ | m, len⟩, hget⟩ : ∃ r, lib.getString w = r := ⟨_, rfl⟩
      · simp [toRawData, htype, hget]
      · simp only [toRawData, htype, hget]
        split_ifs <;> simp
  | bytes =>
      obtain ⟨⟨p, len⟩, hget⟩ : ∃ r, lib.getBytes w = r := ⟨_, rfl⟩
      simp only [toRawData, htype, hget]
      split_ifs <;> simp
  | _ =>
      simp [toRawData, htype]

theorem toProp_ne_success {alloc : Bool} {name : Option CText} {w : lib.Value} :
    toProp lib cap alloc name w ≠ .error .success := by
  have hvalue := toRawData_ne_success alloc w
  unfold toProp
  cases hrun : toRawData lib alloc w with
  | error e =>
      rw [hrun] at hvalue
      cases name with
      | none =>
          simpa using hvalue
      | some s =>
          simp only
          split_ifs
          · simpa using hvalue
          · simp
  | ok v =>
      cases name with
      | none =>
          simp
      | some s =>
          simp only
          split_ifs <;> simp

/-- The three ways a conversion can end. -/
theorem rbusValueToBusProp_cases (lib : RbusLib) (alloc : Bool × Bool) (d : BusData cap) (name : Option CText)
    (value : Option lib.Value) :
    (∃ p w, value = some w ∧ toProp lib cap alloc.2 name w = .ok p ∧
        rbusValueToBusProp lib alloc d name value = (.success, d.add p)) ∨
      ∃ e, e ≠ .success ∧ (rbusValueToBusProp lib alloc d name value = (e, d) ∨
        rbusValueToBusProp lib alloc d name value = (e, BusData.zero cap)) := by
  cases value with
  | none =>
      exact Or.inr ⟨.invalidInput, by simp, Or.inl rfl⟩
  | some w =>
      unfold rbusValueToBusProp
      by_cases hmem : d.usesHead = false ∧ alloc.1 = false
      · exact Or.inr ⟨.outOfResources, by simp, Or.inl (if_pos hmem)⟩
      · simp only [if_neg hmem]
        cases hrun : toProp lib cap alloc.2 name w with
        | error e =>
            refine Or.inr ⟨e, fun he => toProp_ne_success (he ▸ hrun), ?_⟩
            cases d.usesHead with
            | true =>
                exact Or.inr rfl
            | false =>
                exact Or.inl rfl
        | ok p =>
            exact Or.inl ⟨p, w, rfl, hrun, rfl⟩

/-- With memory what can be read is added. -/
theorem rbusValueToBusProp_of_ok {name : Option CText} {w : lib.Value} (h : toProp lib cap true name w = .ok p)
    (d : BusData cap) : rbusValueToBusProp lib (true, true) d name (some w) = (.success, d.add p) := by
  simp [rbusValueToBusProp, h]

/-- A property is read as a record. -/
def IsRecord (lib : RbusLib) (alloc : Bool) (q : Option CText × Option lib.Value) (p : BusDataProp cap) : Prop :=
  ∃ s w, q = (some s, some w) ∧ toProp lib cap alloc (some s) w = .ok p

theorem IsRecord.isDataSet {alloc : Bool} {q : Option CText × Option lib.Value} (h : IsRecord lib alloc q p) :
    p.isDataSet = true := by
  obtain ⟨s, w, -, hread⟩ := h
  obtain ⟨_, v, -, rfl⟩ := toProp_eq_ok.mp hread
  rfl

/-- **What a successful run of the loop did**: every property was read, and its record added once. -/
theorem getLoop_success {alloc : ℕ → Bool × Bool} (n : ℕ) (qs : List (Option CText × Option lib.Value))
    {d d' : BusData cap} (h : getLoop lib alloc n qs d = (.success, d')) :
    ∃ ps, List.Forall₂ (fun q p => ∃ a, IsRecord lib a q p) qs ps ∧ d'.entries.Perm (ps ++ d.entries) := by
  induction qs generalizing n d with
  | nil =>
      obtain rfl : d = d' := congrArg Prod.snd h
      exact ⟨[], List.Forall₂.nil, List.Perm.refl _⟩
  | cons q qs ih =>
      obtain ⟨_ | s, _ | w⟩ := q
      · simp [getLoop] at h
      · simp [getLoop] at h
      · simp [getLoop] at h
      · rw [getLoop, if_neg (by simp)] at h
        obtain ⟨p, _, ⟨⟩, hread, hstep⟩ | ⟨e, hne, hstep | hstep⟩ :=
          rbusValueToBusProp_cases lib (alloc n) d (some s) (some w)
        · rw [hstep] at h
          obtain ⟨ps, hps, hperm⟩ := ih (n + 1) h
          have hrecord : IsRecord lib (alloc n).2 (some s, some w) p := ⟨s, w, rfl, hread⟩
          refine ⟨p :: ps, List.Forall₂.cons ⟨_, hrecord⟩ hps, hperm.trans ?_⟩
          exact ((entries_add hrecord.isDataSet).append_left ps).trans List.perm_middle
        · rw [hstep] at h
          cases e <;> simp_all
        · rw [hstep] at h
          cases e <;> simp_all

/-- With memory the loop reads all that can be read. -/
theorem getLoop_of_records {alloc : ℕ → Bool × Bool} (halloc : ∀ n, alloc n = (true, true)) (n : ℕ)
    {qs : List (Option CText × Option lib.Value)}
    (h : ∀ q ∈ qs, ∃ p : BusDataProp cap, IsRecord lib true q p) (d : BusData cap) :
    (getLoop lib alloc n qs d).1 = .success := by
  induction qs generalizing n d with
  | nil =>
      rfl
  | cons q qs ih =>
      rw [List.forall_mem_cons] at h
      obtain ⟨⟨p, s, w, rfl, hread⟩, hrest⟩ := h
      have hstep : rbusValueToBusProp lib (alloc n) d (some s) (some w) = (.success, d.add p) := by
        rw [halloc n]
        exact rbusValueToBusProp_of_ok hread d
      rw [getLoop, if_neg (by simp), hstep]
      exact ih (n + 1) hrest _

/-- **A failed conversion leaves the list as it was, or empty.** -/
theorem cleanOnError (lib : RbusLib) (cap : ℕ) : CleanOnError lib cap := by
  rintro alloc (_ | obj) d h
  · exact Or.inl rfl
  · simp only [getRbusObjectData] at h ⊢
    split_ifs at h ⊢ with hprops
    · obtain ⟨⟨e, d'⟩, hrun⟩ : ∃ r, getLoop lib alloc 0 obj.properties d = r := ⟨_, rfl⟩
      rw [hrun] at h ⊢
      cases e with
      | success =>
          exact absurd rfl h
      | invalidInput | outOfResources =>
          exact Or.inr rfl
    · cases hvalue : obj.value with
      | none =>
          exact Or.inl rfl
      | some w =>
          simp only [hvalue] at h ⊢
          split_ifs at h ⊢ with hnone
          · exact absurd rfl h
          · obtain ⟨p, _, -, -, hstep⟩ | ⟨e, -, hstep | hstep⟩ :=
              rbusValueToBusProp_cases lib (alloc 0) d none (some w)
            · rw [hstep] at h
              exact absurd rfl h
            · exact Or.inl (congrArg Prod.snd hstep)
            · exact Or.inr (congrArg Prod.snd hstep)

end Get

/-! ### The round trip -/

section RoundTrip

variable {cap : ℕ} {lib : RbusLib} {counted : Bool} {d : BusData cap}

/-- What is read from the object of a list: the names of the list, each with the value that is read for
it. -/
theorem triples_of_records {ps rs : List (BusDataProp cap)} {qs : List (Option CText × Option lib.Value)}
    (hqs : List.Forall₂ (IsProperty lib) ps qs)
    (hrs : List.Forall₂ (fun q r => ∃ a, IsRecord lib a q r) qs rs) :
    List.Forall₂ (fun p r : BusDataProp cap => r.name.1 = p.name.1 ∧
      ∃ w, toRbusValue lib p.value = some w ∧ toRawData lib true w = .ok r.value) ps rs := by
  induction hqs generalizing rs with
  | nil =>
      cases hrs
      exact List.Forall₂.nil
  | @cons p q ps qs hq _ ih =>
      obtain ⟨⟩ | ⟨hr, hrest⟩ := hrs
      refine List.Forall₂.cons ?_ (ih hrest)
      obtain ⟨hname, w, hw, hvalue⟩ := hq
      obtain ⟨a, s, w', rfl, hread⟩ := hr
      obtain rfl : s = p.name.1 := Option.some.inj hname
      obtain rfl : w' = w := Option.some.inj hvalue
      obtain ⟨_, v, hv, rfl⟩ := toProp_eq_ok.mp hread
      exact ⟨rfl, w', hw, toRawData_mono hv⟩

theorem exists_of_forall₂ {α β : Type} {R : α → β → Prop} {as : List α} {bs : List β}
    (h : List.Forall₂ R as bs) {a : α} (ha : a ∈ as) : ∃ b ∈ bs, R a b := by
  induction h with
  | nil =>
      cases ha
  | @cons a' b as bs hab _ ih =>
      obtain rfl | ha := List.mem_cons.mp ha
      · exact ⟨b, List.mem_cons_self, hab⟩
      · obtain ⟨b', hmem, hab'⟩ := ih ha
        exact ⟨b', List.mem_cons_of_mem b hmem, hab'⟩

/-- What a successful conversion of the object gives: a record for each property of the list. -/
theorem getRbusObjectData_success {alloc : ℕ → Bool × Bool} {qs : List (Option CText × Option lib.Value)}
    (hd : d.entries ≠ []) (hqs : List.Forall₂ (IsProperty lib) d.entries qs)
    (h : (getRbusObjectData lib alloc (some ⟨qs, none⟩) (BusData.zero cap)).1 = .success) :
    ∃ rs : List (BusDataProp cap), List.Forall₂ (fun p r : BusDataProp cap => r.name.1 = p.name.1 ∧
        ∃ w, toRbusValue lib p.value = some w ∧ toRawData lib true w = .ok r.value) d.entries rs ∧
      (getRbusObjectData lib alloc (some ⟨qs, none⟩) (BusData.zero cap)).2.triples.Perm
        (rs.map fun r => (r.name.1, r.value.content)) := by
  have hne : qs ≠ [] := by
    rintro rfl
    exact hd (List.forall₂_nil_right_iff.mp hqs)
  simp only [getRbusObjectData, if_pos hne] at h ⊢
  obtain ⟨⟨e, d'⟩, hrun⟩ : ∃ r, getLoop lib alloc 0 qs (BusData.zero cap) = r := ⟨_, rfl⟩
  rw [hrun] at h ⊢
  cases e with
  | invalidInput | outOfResources =>
      cases h
  | success =>
      obtain ⟨rs, hrs, hperm⟩ := getLoop_success 0 qs hrun
      refine ⟨rs, triples_of_records hqs hrs, ?_⟩
      have hzero : (BusData.zero cap).entries = [] := rfl
      rw [hzero, List.append_nil] at hperm
      exact hperm.map _

/-- A list whose lengths are kept comes back. -/
theorem roundTrips_of_fits (hlib : lib.Lawful counted) (name : Option CText) (hd : Input d)
    (hfits : ∀ p ∈ d.entries, p.value.Fits counted) : RoundTrips lib name d := by
  obtain ⟨qs, hqs, hset⟩ := setRbusObjectData_eq lib name hd
  have hboth := (List.forall₂_and_left d.entries qs).mpr ⟨fun p hp => And.intro (hd.supported p hp) (hfits p hp), hqs⟩
  refine ⟨_, hset, fun alloc halloc => ?_, fun alloc hok => ?_⟩
  · have hrecords : ∀ q ∈ qs, ∃ r : BusDataProp cap, IsRecord lib true q r := by
      intro q hq
      obtain ⟨p, -, ⟨hsupp, hfit⟩, hname, w, hw, hvalue⟩ := exists_of_forall₂ (List.Forall₂.flip hboth) hq
      obtain ⟨v, hv, -⟩ := (toRawData_toRbusValue hlib hsupp hw).mpr hfit
      exact ⟨_, p.name.1, w, Prod.ext hname hvalue, toProp_eq_ok.mpr ⟨p.name.2, v, hv, rfl⟩⟩
    have hloop := getLoop_of_records halloc 0 hrecords (BusData.zero cap)
    have hne : qs ≠ [] := by
      rintro rfl
      exact hd.nonempty (List.forall₂_nil_right_iff.mp hqs)
    simp only [getRbusObjectData, if_pos hne]
    obtain ⟨⟨e, d'⟩, hrun⟩ : ∃ r, getLoop lib alloc 0 qs (BusData.zero cap) = r := ⟨_, rfl⟩
    rw [hrun] at hloop ⊢
    obtain rfl : e = .success := hloop
    rfl
  · obtain ⟨rs, hrs, hperm⟩ := getRbusObjectData_success hd.nonempty hqs hok
    refine hperm.trans (List.Perm.of_eq ?_)
    have hall := (List.forall₂_and_left d.entries rs).mpr ⟨fun p hp => And.intro (hd.supported p hp) (hfits p hp), hrs⟩
    have hsame : List.Forall₂ (fun p r : BusDataProp cap =>
        (r.name.1, r.value.content) = (p.name.1, p.value.content)) d.entries rs := by
      refine hall.imp ?_
      rintro p r ⟨⟨hsupp, hfit⟩, hname, w, hw, hread⟩
      obtain ⟨v, hv, hcontent⟩ := (toRawData_toRbusValue hlib hsupp hw).mpr hfit
      obtain rfl : r.value = v := Except.ok.inj (hread.symm.trans hv)
      rw [hname, hcontent]
    rw [BusData.triples, ← List.forall₂_eq_eq_eq, List.forall₂_map_left_iff, List.forall₂_map_right_iff]
    exact hsame.flip

/-- A list that comes back has lengths that are kept. -/
theorem fits_of_roundTrips (hlib : lib.Lawful counted) {name : Option CText} (hd : Input d)
    (h : RoundTrips lib name d) : ∀ p ∈ d.entries, p.value.Fits counted := by
  obtain ⟨qs, hqs, hset⟩ := setRbusObjectData_eq lib name hd
  obtain ⟨obj, hset', hok, hperm⟩ := h
  obtain rfl : ⟨qs, none⟩ = obj := congrArg Prod.snd (hset.symm.trans hset')
  have hok := hok (fun _ => (true, true)) fun _ => rfl
  obtain ⟨rs, hrs, hread⟩ := getRbusObjectData_success hd.nonempty hqs hok
  have hsame := hread.symm.trans (hperm _ hok)
  intro p hp
  obtain ⟨r, hr, hname, w, hw, hvalue⟩ := exists_of_forall₂ hrs hp
  -- the triple of the record is one of the list, and its name tells which
  obtain ⟨p', hp', htriple⟩ := List.mem_map.mp (hsame.subset (List.mem_map_of_mem hr))
  rw [Prod.mk.injEq] at htriple
  obtain rfl : p' = p := List.inj_on_of_nodup_map hd.distinct hp' hp (htriple.1.trans hname)
  exact (toRawData_toRbusValue hlib (hd.supported p' hp) hw).mp ⟨_, hvalue, htriple.2.symm⟩

/-- **The two conversions are a round trip exactly when every length is an `int` of rbus**: for every
list of properties and every library that gives back what was put into it. -/
theorem correct_iff_fits (hlib : lib.Lawful counted) (name : Option CText) (hd : Input d) :
    Correct lib name d ↔ ∀ p ∈ d.entries, p.value.Fits counted :=
  ⟨fun h => fits_of_roundTrips hlib hd h.1, fun h => ⟨roundTrips_of_fits hlib name hd h, cleanOnError lib cap⟩⟩

/-- A library that keeps what is put into a value. -/
inductive PlainValue
  | boolean (b : Bool)
  | int32 (x : BitVec 32)
  | uint32 (x : BitVec 32)
  | string (s : CText)
  | bytes (p : Option Bytes) (n : BitVec 32)

def plainLib : RbusLib where
  Value := PlainValue
  setString := .string
  setBytes := .bytes
  setInt32 := .int32
  setUInt32 := .uint32
  setBoolean := .boolean
  getType
    | .boolean _ => .boolean
    | .int32 _ => .int32
    | .uint32 _ => .uint32
    | .string _ => .string
    | .bytes _ _ => .bytes
  getString
    | .string s => (some (s.1 ++ [0]), BitVec.ofNat 32 s.1.length)
    | _ => (none, 0)
  getBytes
    | .bytes p n => (p, n)
    | _ => (none, 0)
  getInt32
    | .int32 x => x
    | _ => 0
  getUInt32
    | .uint32 x => x
    | _ => 0
  getBoolean
    | .boolean b => b
    | _ => false

theorem plainLib_lawful : plainLib.Lawful false where
  type_string := fun _ _ => rfl
  get_string := fun _ _ => ⟨[], rfl⟩
  type_bytes := fun _ _ _ => rfl
  get_bytes := by
    intro p n _
    refine ⟨p, rfl, fun hlen hpos => ?_⟩
    cases p with
    | none =>
        simp at hlen
        omega
    | some m =>
        exact ⟨m, rfl, rfl⟩
  type_int32 := fun _ => rfl
  get_int32 := fun _ => rfl
  type_uint32 := fun _ => rfl
  get_uint32 := fun _ => rfl
  type_boolean := fun _ => rfl
  get_boolean := fun _ => rfl

/-- A record with a name of one character. -/
def record (c : UInt8) (hc : (0 : UInt8) ≠ c) (v : RawData) : BusDataProp 8 :=
  ⟨⟨⟨[c], by simpa using hc⟩, by simp⟩, 1, v, true, .success, 1⟩

/-- A string and an empty block behind a boolean. -/
def mixed : BusData 8 :=
  ⟨record 97 (by decide) ⟨.boolean true, 1⟩,
    [record 98 (by decide) ⟨.string (some [104, 105, 0]), 2⟩, record 99 (by decide) ⟨.bytes none, 0⟩]⟩

theorem correct_mixed : Correct plainLib none mixed := by
  refine (correct_iff_fits plainLib_lawful none ⟨by decide, by decide, by decide, ?_⟩).mpr ?_
  · intro p hp
    fin_cases hp
    · trivial
    · rintro m ⟨⟩
      simp
    · exact Nat.le_refl 0
  · intro p hp
    fin_cases hp
    · trivial
    · change (cText (some [104, 105, 0])).1.length + 0 < 2 ^ 31
      decide
    · change ([] : Bytes).length < 2 ^ 31
      decide

/-- A block of 2 ^ 31 bytes. -/
def long : BusData 8 :=
  ⟨record 97 (by decide) ⟨.bytes (some (List.replicate (2 ^ 31) 0)), BitVec.ofNat 32 (2 ^ 31)⟩, []⟩

/-- Its length is negative as an `int`, and it is not read back. -/
theorem not_correct_long : Input long ∧ ¬ Correct plainLib none long := by
  have hentries : long.entries = [long.head] := rfl
  have hlen : (List.replicate (2 ^ 31) (0 : UInt8)).length = 2 ^ 31 := List.length_replicate
  have hinput : Input long := by
    refine ⟨by simp [hentries], ?_, ?_, ?_⟩
    · rw [hentries, List.forall_mem_singleton]
      exact ⟨rfl, Nat.one_pos⟩
    · rw [hentries]
      exact List.nodup_singleton _
    · rw [hentries, List.forall_mem_singleton]
      exact hlen.ge
  refine ⟨hinput, fun h => ?_⟩
  have hfits := fits_of_roundTrips plainLib_lawful hinput h.1
  rw [hentries, List.forall_mem_singleton] at hfits
  have hcontent : ((List.replicate (2 ^ 31) (0 : UInt8)).take (2 ^ 31)).length < 2 ^ 31 := hfits
  rw [List.length_take, hlen, min_self] at hcontent
  exact lt_irrefl _ hcontent

end RoundTrip

end OneWifiTestSuite.RbusProps
