import OneWifiTestSuite.BusMux
import OneWifiTestSuite.CStrings
import OneWifiTestSuite.DataModelCheck
import OneWifiTestSuite.Stdio

/-!
# The parameters under `Device.WiFi.Tests`

A test is configured and started over the bus: `bus_register_handlers` registers six properties, and a set or a
get request goes through the tree of callbacks and the check of the data model to `set_cci_handler` or
`get_cci_handler`, which find the parameter once more in the name and copy strings from or into fixed arrays.

`serves_iff`: over every order of requests for any names and values, of changes of the test state and of
downloads, the requests are answered as by a plain record of six parameters, exactly when no one sets an
interface or a URL of 128 bytes while no test runs. The copy of an interface always writes 128 bytes into an
array of 16, and an URL of 128 bytes leaves its array without an end.
-/

namespace OneWifiTestSuite.CciParameters

open ByteRegion BusTree BusMux CStrings Runs
open AgentJson (CText text)
open DataModelCheck (RawData DataModelProperties validateDmSetParameters)

/-! ### Names -/

section Names

inductive Param
  | testConfigURL
  | resultsFileName
  | interface
  | simulatedClientDevices
  | start
  | status
deriving DecidableEq

def Param.key : Param → Name
  | .testConfigURL => "TestConfigURL".toList
  | .resultsFileName => "ResultsFileName".toList
  | .interface => "Interface".toList
  | .simulatedClientDevices => "SimulatedClientDevices".toList
  | .start => "Start".toList
  | .status => "Status".toList

/-- What stands before every parameter. -/
def testsPrefix : Name :=
  "Device.WiFi.Tests.".toList

def Param.fullName (p : Param) : Name :=
  testsPrefix ++ p.key

/-- The order of the registrations, and of the branches of `get_cci_handler`. -/
def params : List Param :=
  [.testConfigURL, .resultsFileName, .interface, .simulatedClientDevices, .start, .status]

/-- The branches of `set_cci_handler`. -/
def setParams : List Param :=
  [.testConfigURL, .resultsFileName, .interface, .simulatedClientDevices, .start]

def isSpace (c : Char) : Bool :=
  c = ' ' || '\t' ≤ c && c ≤ '\r'

/-- `sscanf(name, "Device.WiFi.Tests.%<width>s", parameter)` into a cleared array of `room` characters; `none`
writes past its end. -/
def scanParameter (width room : ℕ) (name : Name) : Option Name :=
  if testsPrefix.isPrefixOf name then
    let word := (((name.drop testsPrefix.length).dropWhile isSpace).takeWhile fun c => !isSpace c).take width
    if word.length < room then some word else none
  else some []

/-- The first branch whose `strstr` finds its key. -/
def branch (ps : List Param) (parameter : Name) : Option Param :=
  ps.find? fun p => p.key <:+: parameter

end Names

/-! ### The component -/

section Component

/-- `wlan_emu_dml_tests_state_t`. -/
inductive DmlState
  | idle
  | running
  | completeSuccess
  | completeFailure
deriving DecidableEq

def DmlState.toNat : DmlState → ℕ
  | .idle => 0
  | .running => 1
  | .completeSuccess => 2
  | .completeFailure => 3

/-- The fields of the UI manager, the state of the tests, the file with the server's address, the saved number of
clients, and how often a test was requested. -/
structure Cci where
  tdaUrl : CharArray 128
  cciOutFileList : CharArray 128
  interface : CharArray 16
  simulatedClients : ℤ
  isLocalHostEnabled : Bool
  dmlState : DmlState
  urlFile : Option Bytes
  syscfg : Option ℤ
  inputs : ℕ

/-- The answers of the file system and of `syscfg_set_commit`; a failed write leaves something in the file. -/
structure Answers where
  fopen : Bool
  failedWrite : Option Bytes
  commit : Bool

/-- `copy_string`. -/
def copyString {n : ℕ} (a : CharArray n) (source : Option CText) (len : ℕ) : Option (CharArray n) :=
  match source with
  | none => some ⟨a.1.set 0 0, by rw [List.length_set]; exact a.2⟩
  | some s => strncpy a s.1 len

def slash : UInt8 := 47

/-- The part of an URL up to the first slash behind `"://"`. -/
def serverOf (url : Bytes) : Option Bytes :=
  (strstr (text "://") url).bind fun rest =>
    ((rest.drop 3).findIdx? (· = slash)).map fun i => url.take (url.length - rest.length + 3 + i + 1)

/-- The file with the server's address after an URL. -/
def written (url : Bytes) (file : Option Bytes) (o : Answers) : Option Bytes :=
  match serverOf url with
  | none => file
  | some server => if o.fopen = true then some (o.failedWrite.getD server) else file

/-- `update_tda_url_to_file`: the file afterwards. Reading the URL is `none` past the end of its array. -/
def updateTdaUrlToFile (tdaUrl : CharArray 128) (file : Option Bytes) (o : Answers) : Option (Option Bytes) :=
  (cstr tdaUrl).map fun url => written url file o

/-- The branches of `set_cci_handler`, where `none` is none of them; the flag is `bus_error_success`. -/
def setBranch (c : Cci) (data : RawData) (o : Answers) (p : Option Param) : Option (Cci × Bool) :=
  match p, data with
  | some .testConfigURL, .string s => do
      let tdaUrl ← copyString c.tdaUrl s 128
      let urlFile ← updateTdaUrlToFile tdaUrl c.urlFile o
      some ({ c with tdaUrl := tdaUrl, urlFile := urlFile }, true)
  | some .resultsFileName, .string s => do
      let cciOutFileList ← copyString c.cciOutFileList s 128
      some ({ c with cciOutFileList := cciOutFileList }, true)
  | some .interface, .string s => do
      let interface ← copyString c.interface s 128
      some ({ c with interface := interface }, true)
  | some .simulatedClientDevices, .checked .uint32 v _ =>
      let count := v.bmod (2 ^ 32)
      if count ≤ 0 ∨ count > 300 then some (c, false)
      else some ({ c with simulatedClients := count, syscfg := if o.commit then some count else c.syscfg }, true)
  | some .start, .checked .boolean v _ => some (if v = 0 then c else { c with inputs := c.inputs + 1 }, true)
  | some _, _ => some (c, false)
  | none, _ => some (c, true)

/-- `set_cci_handler`. -/
def setCciHandler (c : Cci) (eventName : Name) (data : RawData) (o : Answers) : Option (Cci × Bool) :=
  if c.dmlState = .running then some (c, false)
  else (scanParameter 200 128 eventName).bind fun parameter => setBranch c data o (branch setParams parameter)

/-- What a get request is answered with. -/
inductive Value
  | string (s : Bytes)
  | uint32 (v : BitVec 32)
  | boolean (b : Bool)
deriving DecidableEq

/-- A field into a cleared array, or the default when the field is empty. -/
def copyOut {n : ℕ} (len : ℕ) (a : CharArray n) (default : Bytes) : Value :=
  .string (if content a = [] then default else (content a).take len)

/-- `get_cci_handler`; without a branch the data stays cleared. -/
def getCciHandler (c : Cci) (eventName : Name) : Option (Option Value) := do
  let extension ← scanParameter 63 64 eventName
  match branch params extension with
  | some .testConfigURL => some (some (copyOut 127 c.tdaUrl []))
  | some .resultsFileName => some (some (copyOut 63 c.cciOutFileList (text "results.txt")))
  | some .interface => some (some (copyOut 15 c.interface (text "erouter0")))
  | some .simulatedClientDevices => some (some (.uint32 (BitVec.ofInt 32 c.simulatedClients)))
  | some .start => some (some (.boolean false))
  | some .status => some (some (.uint32 (BitVec.ofNat 32 c.dmlState.toNat)))
  | none => some none

/-- `process_input_request` up to the download: the address of a local server is cut off. -/
def checkLocal (c : Cci) : Cci :=
  match strstr (text "localhost") ((content c.tdaUrl).take 127) with
  | some rest => { c with tdaUrl := printed 128 (rest.drop 9), isLocalHostEnabled := true }
  | none => { c with isLocalHostEnabled := false }

end Component

/-! ### The bus -/

section Requests

/-- `bus_data_type_t` of a registered element. -/
inductive DataFormat
  | string
  | uint32
  | boolean
deriving DecidableEq

/-- `data_model_properties_t` with its format. -/
structure Props where
  dataFormat : DataFormat
  checks : DataModelProperties

def Param.format : Param → DataFormat
  | .testConfigURL | .resultsFileName | .interface => .string
  | .simulatedClientDevices | .status => .uint32
  | .start => .boolean

/-- An entry of `dataElements`; the functions of `wlan_emu_t` are the only ones. -/
def dataElement (p : Param) : DataElement Unit Props :=
  ⟨p.fullName, .property, ⟨⟨some (), some (), none, none, none, none⟩, ⟨p.format, ⟨true, 0, 0, none⟩⟩⟩⟩

/-- `bus_register_handlers` when the library accepts all elements. -/
def busRegisterHandlers (sz : Sizes) (L : Layout (RegNodeData Unit Props)) : Option Bus :=
  busRegDataElements sz L initRoot (params.map fun p => (dataElement p, true))

/-- `rbusError_t`, as far as it is returned here. -/
inductive RbusError
  | success
  | invalidInput
  | invalidOperation
  | elementDoesNotExist
deriving DecidableEq

/-- A value in a set request. -/
inductive RbusValue
  | string (s : Option CText)
  | uint32 (v : BitVec 32)
  | int32 (v : BitVec 32)
  | boolean (b : Bool)
  | bytes
  | other

open DataModelCheck (Kind) in
theorem uint32_mem (v : BitVec 32) : Kind.uint32.lo ≤ v.toNat ∧ (v.toNat : ℤ) ≤ Kind.uint32.hi := by
  have hlt := v.isLt
  simp only [Kind.lo, Kind.hi]
  omega

open DataModelCheck (Kind) in
theorem int32_mem (v : BitVec 32) : Kind.int32.lo ≤ v.toInt ∧ v.toInt ≤ Kind.int32.hi := by
  have hlt := v.toInt_lt
  have hle := v.le_toInt
  simp only [Kind.lo, Kind.hi]
  omega

open DataModelCheck (Kind) in
theorem boolean_mem (b : Bool) : Kind.boolean.lo ≤ b.toInt ∧ b.toInt ≤ Kind.boolean.hi := by
  cases b <;> decide

/-- `get_rbus_property_data`. -/
def getRbusPropertyData : RbusValue → Option RawData
  | .string s => some (.string s)
  | .uint32 v => some (.checked .uint32 v.toNat (uint32_mem v))
  | .int32 v => some (.checked .int32 v.toInt (int32_mem v))
  | .boolean b => some (.checked .boolean b.toInt (boolean_mem b))
  | .bytes => some .other
  | .other => none

def errorOf (ok : Bool) : RbusError :=
  if ok = true then .success else .invalidInput

variable (sz : Sizes) (L : Layout (RegNodeData Unit Props))

/-- `rbus_set_handler`. -/
def rbusSetHandler (reg : Bus) (c : Cci) (eventName : Option Name) (value : RbusValue) (o : Answers) :
    Option (Cci × RbusError) :=
  match eventName with
  | none => some (c, .invalidInput)
  | some eventName => do
      match ← getBusCbDataInfo sz L reg eventName with
      | none => some (c, .elementDoesNotExist)
      | some d =>
          match d.cbTable.setHandler with
          | none => some (c, .success)
          | some () =>
              match getRbusPropertyData value with
              | none => some (c, .invalidInput)
              | some data =>
                  if validateDmSetParameters (some d.dataModelProp.checks) data = false then some (c, .invalidOperation)
                  else (setCciHandler c eventName data o).map fun r => (r.1, errorOf r.2)

/-- `rbus_get_handler`, with the value that it puts into the property. -/
def rbusGetHandler (reg : Bus) (c : Cci) (eventName : Option Name) : Option (RbusError × Option Value) :=
  match eventName with
  | none => some (.invalidInput, none)
  | some eventName => do
      match ← getBusCbDataInfo sz L reg eventName with
      | none => some (.elementDoesNotExist, none)
      | some d =>
          match d.cbTable.getHandler with
          | none => some (.success, none)
          | some () =>
              match ← getCciHandler c eventName with
              | none => some (.invalidInput, none)
              | some v => some (.success, some v)

/-- A request over the bus, or what the main thread does meanwhile. -/
inductive Label
  | set (eventName : Option Name) (value : RbusValue) (o : Answers)
  | get (eventName : Option Name)
  | dml (state : DmlState)
  | download

inductive Response
  | set (error : RbusError)
  | get (error : RbusError) (value : Option Value)
  | none
deriving DecidableEq

def step (reg : Bus) (c : Cci) : Label → Option (Cci × Response)
  | .set eventName value o => (rbusSetHandler sz L reg c eventName value o).map fun r => (r.1, .set r.2)
  | .get eventName => (rbusGetHandler sz L reg c eventName).map fun r => (c, .get r.1 r.2)
  | .dml state => some ({ c with dmlState := state }, .none)
  | .download => some (checkLocal c, .none)

end Requests

/-! ### The parameters themselves -/

section Settings

/-- The parameters, without names, arrays and trees. -/
structure Settings where
  url : Bytes
  resultsFile : Bytes
  interface : Bytes
  clients : ℤ
  localHost : Bool
  state : DmlState
  urlFile : Option Bytes
  syscfg : Option ℤ
  inputs : ℕ

def Cci.settings (c : Cci) : Settings :=
  ⟨content c.tdaUrl, content c.cciOutFileList, content c.interface, c.simulatedClients, c.isLocalHostEnabled,
    c.dmlState, c.urlFile, c.syscfg, c.inputs⟩

/-- A null pointer is an empty string. -/
def bytesOf : Option CText → Bytes
  | none => []
  | some s => s.1

/-- A set request. A string replaces the old one, results are cut to 128 bytes, and the status takes every value
without effect. -/
def Settings.set (S : Settings) (p : Param) (value : RbusValue) (o : Answers) : Settings × RbusError :=
  if S.state = .running then (S, .invalidInput)
  else
    match p, value with
    | _, .other => (S, .invalidInput)
    | .testConfigURL, .string s =>
        ({ S with url := bytesOf s, urlFile := written (bytesOf s) S.urlFile o }, .success)
    | .resultsFileName, .string s => ({ S with resultsFile := (bytesOf s).take 128 }, .success)
    | .interface, .string s => ({ S with interface := bytesOf s }, .success)
    | .simulatedClientDevices, .uint32 v =>
        if 0 < v.toInt ∧ v.toInt ≤ 300 then
          ({ S with clients := v.toInt, syscfg := if o.commit then some v.toInt else S.syscfg }, .success)
        else (S, .invalidInput)
    | .start, .boolean b => (if b = true then { S with inputs := S.inputs + 1 } else S, .success)
    | .status, _ => (S, .success)
    | _, _ => (S, .invalidInput)

def orDefault (len : ℕ) (s default : Bytes) : Value :=
  .string (if s = [] then default else s.take len)

def Settings.get (S : Settings) : Param → Value
  | .testConfigURL => .string S.url
  | .resultsFileName => orDefault 63 S.resultsFile (text "results.txt")
  | .interface => orDefault 15 S.interface (text "erouter0")
  | .simulatedClientDevices => .uint32 (BitVec.ofInt 32 S.clients)
  | .start => .boolean false
  | .status => .uint32 (BitVec.ofNat 32 S.state.toNat)

/-- A download: the address of a local server is cut off. -/
def Settings.download (S : Settings) : Settings :=
  match strstr (text "localhost") S.url with
  | some rest => { S with url := rest.drop 9, localHost := true }
  | none => { S with localHost := false }

def ofName (name : Name) : Option Param :=
  params.find? fun p => p.fullName = name

/-- The parameters as a machine. -/
def Settings.step (S : Settings) : Label → Settings × Response
  | .set none _ _ => (S, .set .invalidInput)
  | .set (some name) value o =>
      match ofName name with
      | none => (S, .set .elementDoesNotExist)
      | some p => ((S.set p value o).1, .set (S.set p value o).2)
  | .get none => (S, .get .invalidInput none)
  | .get (some name) =>
      match ofName name with
      | none => (S, .get .elementDoesNotExist none)
      | some p => (S, .get .success (some (S.get p)))
  | .dml state => ({ S with state := state }, .none)
  | .download => (S.download, .none)

/-- No interface, and no URL of 128 bytes or more, is set while no test runs. -/
def Fits (S : Settings) : Label → Prop
  | .set (some name) (.string (some s)) _ =>
      S.state ≠ .running → name ≠ Param.interface.fullName ∧ (name = Param.testConfigURL.fullName → s.1.length < 128)
  | _ => True

/-- All labels fit in their turn. -/
def Admissible : Settings → List Label → Prop
  | _, [] => True
  | S, l :: ls => Fits S l ∧ Admissible (S.step l).1 ls

/-- A name that has the parts of a registered one is that one. -/
def CanonicalName (sz : Sizes) (name : Name) : Prop :=
  fits sz name = true ∧ BusTree.tokens name ≠ [] ∧
    ∀ p : Param, BusTree.tokens name = BusTree.tokens p.fullName → name = p.fullName

def Canonical (sz : Sizes) : Label → Prop
  | .set (some name) _ _ => CanonicalName sz name
  | .get (some name) => CanonicalName sz name
  | _ => True

/-- The requests are answered, and as by the parameters themselves. -/
def Serves (sz : Sizes) (L : Layout (RegNodeData Unit Props)) (reg : Bus) (c : Cci) (ls : List Label) : Prop :=
  ∃ c', exec (step sz L reg) c ls = some (c', (execTotal Settings.step c.settings ls).2) ∧
    c'.settings = (execTotal Settings.step c.settings ls).1

end Settings

/-! ### Names and branches -/

section Branches

theorem scan_set (p : Param) : scanParameter 200 128 p.fullName = some p.key := by
  cases p <;> decide +kernel

theorem scan_get (p : Param) : scanParameter 63 64 p.fullName = some p.key := by
  cases p <;> decide +kernel

theorem branch_set (p : Param) : branch setParams p.key = if p = .status then none else some p := by
  cases p <;> decide +kernel

theorem branch_get (p : Param) : branch params p.key = some p := by
  cases p <;> decide +kernel

theorem find_tokens (p : Param) :
    params.reverse.find? (fun q => BusTree.tokens q.fullName = BusTree.tokens p.fullName) = some p := by
  cases p <;> decide +kernel

theorem ofName_fullName (p : Param) : ofName p.fullName = some p := by
  cases p <;> decide +kernel

theorem ofName_some {name : Name} {p : Param} (h : ofName name = some p) : name = p.fullName := by
  have heq := List.find?_some h
  exact (of_decide_eq_true heq).symm

/-- A canonical name is found in the tree exactly when it is a parameter's. -/
theorem find_canonical {sz : Sizes} {name : Name} (h : CanonicalName sz name) :
    params.reverse.find? (fun p => BusTree.tokens p.fullName = BusTree.tokens name) = ofName name := by
  cases hname : ofName name with
  | some p =>
      rw [ofName_some hname]
      exact find_tokens p
  | none =>
      refine List.find?_eq_none.mpr fun p _ => ?_
      intro htok
      have heq := h.2.2 p ((of_decide_eq_true htok).symm)
      rw [heq, ofName_fullName] at hname
      cases hname

variable {sz : Sizes} {L : Layout (RegNodeData Unit Props)}

/-- The tree with the six elements. -/
theorem registered (hsz : ∀ p : Param, NameOk sz p.fullName) :
    ∃ reg, busRegisterHandlers sz L = some reg ∧ ∀ name, CanonicalName sz name →
      getBusCbDataInfo sz L reg name = some ((ofName name).map fun p => (dataElement p).data) := by
  have hxs : ∀ x ∈ params.map fun p => (dataElement p, true), x.1.type ≠ .table ∧ NameOk sz x.1.fullName := by
    intro x hx
    obtain ⟨p, -, rfl⟩ := List.mem_map.mp hx
    exact ⟨by simp [dataElement], hsz p⟩
  obtain ⟨reg, hreg, hholds⟩ := holds_nil.registerElements (L := L) hxs
  refine ⟨reg, hreg, fun name hname => ?_⟩
  have hkept : kept (params.map fun p => (dataElement p, true)) = params.map dataElement := rfl
  rw [hholds.lookup L hname.1 hname.2.1, List.nil_append, hkept, List.map_map, ← List.map_reverse, List.find?_map,
    Option.map_map]
  have hfun : ((fun e : Elem => L.read e.cfgData) ∘ (regElem L ∘ dataElement)) = fun p => (dataElement p).data :=
    funext fun p => L.read_bytes (dataElement p).data
  have hpred : ((fun e : Elem => decide (BusTree.tokens e.fullName = BusTree.tokens name)) ∘ (regElem L ∘ dataElement)) =
      fun p : Param => decide (BusTree.tokens p.fullName = BusTree.tokens name) := rfl
  rw [hfun, hpred, find_canonical hname]

end Branches

/-! ### Fields -/

section Fields

variable {n : ℕ}

theorem content_of_cstr {a : CharArray n} {s : Bytes} (h : cstr a = some s) : content a = s :=
  (cstr_spec h).1

/-- The bytes of a copy over the whole array. -/
theorem strncpy_bytes (a : CharArray n) (s : Bytes) :
    ∃ a', strncpy a s n = some a' ∧ a'.1 = s.take n ++ List.replicate (n - s.length) 0 := by
  have hdrop : a.1.drop n = [] := List.drop_eq_nil_of_le (by rw [a.2])
  refine ⟨_, dif_pos le_rfl, ?_⟩
  show s.take n ++ List.replicate (n - s.length) 0 ++ a.1.drop n = _
  rw [hdrop, List.append_nil]

/-- A short string ends in its array, a long one fills it. -/
theorem strncpy_all (a : CharArray n) (s : CText) :
    ∃ a', strncpy a s.1 n = some a' ∧ content a' = s.1.take n ∧ cstr a' = if s.1.length < n then some s.1 else none := by
  obtain ⟨a', ha', hbytes⟩ := strncpy_bytes a s.1
  refine ⟨a', ha', ?_⟩
  by_cases hlt : s.1.length < n
  · obtain ⟨k, hk⟩ : ∃ k, n - s.1.length = k + 1 := ⟨n - s.1.length - 1, by omega⟩
    have htake : s.1.take n = s.1 := List.take_of_length_le hlt.le
    have hcstr : cstr a' = some s.1 := by
      refine cstr_of_eq (t := List.replicate k 0) s.2 ?_
      rw [hbytes, hk, List.replicate_succ, htake]
    rw [if_pos hlt, htake]
    exact ⟨content_of_cstr hcstr, hcstr⟩
  · have hzero : n - s.1.length = 0 := by omega
    rw [hzero, List.replicate_zero, List.append_nil] at hbytes
    have hno : (0 : UInt8) ∉ a'.1 := by
      rw [hbytes]
      exact fun h0 => s.2 (List.mem_of_mem_take h0)
    rw [if_neg hlt, cstr, if_neg hno, ← hbytes]
    refine ⟨List.takeWhile_eq_self_iff.mpr fun b hb => bne_iff_ne.mpr ?_, rfl⟩
    rintro rfl
    exact hno hb

/-- A null pointer clears the first byte. -/
theorem content_cleared (a : CharArray n) (hn : 0 < n) (h : (a.1.set 0 0).length = n) :
    content ⟨a.1.set 0 0, h⟩ = [] ∧ cstr ⟨a.1.set 0 0, h⟩ = some [] := by
  obtain ⟨bs, hbs⟩ := a
  cases bs with
  | nil =>
      simp at hbs
      omega
  | cons b bs =>
      simp [content, cstr]

end Fields

/-! ### One request -/

section Requests

variable {c : Cci}

/-- What the component makes of a set request: the parameters' answer, with an end in the URL. -/
structure Sets (c : Cci) (p : Param) (value : RbusValue) (o : Answers) (r : Option (Cci × Bool)) : Prop where
  fits : Fits c.settings (.set (some p.fullName) value o) →
    ∃ c' ok, r = some (c', ok) ∧ errorOf ok = (c.settings.set p value o).2 ∧
      c'.settings = (c.settings.set p value o).1 ∧ cstr c'.tdaUrl ≠ none
  leaves : ¬ Fits c.settings (.set (some p.fullName) value o) → r = none

theorem sets_of_eq {p : Param} {value : RbusValue} {o : Answers} {c' : Cci} {ok : Bool}
    (hfits : Fits c.settings (.set (some p.fullName) value o)) (hok : errorOf ok = (c.settings.set p value o).2)
    (hset : c'.settings = (c.settings.set p value o).1) (hurl : cstr c'.tdaUrl ≠ none) :
    Sets c p value o (some (c', ok)) :=
  ⟨fun _ => ⟨c', ok, rfl, hok, hset, hurl⟩, fun hno => absurd hfits hno⟩

/-- A request that a running test refuses. -/
theorem sets_running (hrun : c.dmlState = .running) (hurl : cstr c.tdaUrl ≠ none) (p : Param) (value : RbusValue)
    (data : RawData) (o : Answers) : Sets c p value o (setCciHandler c p.fullName data o) := by
  have hset : c.settings.set p value o = (c.settings, .invalidInput) := if_pos hrun
  rw [setCciHandler, if_pos hrun]
  refine sets_of_eq ?_ (by rw [hset]; rfl) (by rw [hset]) hurl
  cases value with
  | string s =>
      cases s with
      | none =>
          trivial
      | some s =>
          exact fun hno => absurd hrun hno
  | _ =>
      trivial

/-- A string that a request sets while no test runs. -/
theorem fits_iff (hrun : c.dmlState ≠ .running) (p : Param) (s : CText) (o : Answers) :
    Fits c.settings (.set (some p.fullName) (.string (some s)) o) ↔
      p ≠ .interface ∧ (p = .testConfigURL → s.1.length < 128) := by
  have hname : ∀ q : Param, p.fullName = q.fullName ↔ p = q := by
    intro q
    refine ⟨fun heq => ?_, fun heq => by rw [heq]⟩
    have h := ofName_fullName p
    rw [heq, ofName_fullName] at h
    exact (Option.some.inj h).symm
  constructor
  · intro h
    obtain ⟨hne, hlen⟩ := h hrun
    exact ⟨fun hp => hne ((hname _).mpr hp), fun hp => hlen ((hname _).mpr hp)⟩
  · rintro ⟨hne, hlen⟩ -
    exact ⟨fun hp => hne ((hname _).mp hp), fun hp => hlen ((hname _).mp hp)⟩

/-- A request with a value of the wrong type. -/
theorem sets_refused (hurl : cstr c.tdaUrl ≠ none) {p : Param} {value : RbusValue} {o : Answers}
    (hfits : Fits c.settings (.set (some p.fullName) value o))
    (hset : c.settings.set p value o = (c.settings, .invalidInput)) : Sets c p value o (some (c, false)) :=
  sets_of_eq hfits (by rw [hset]; rfl) (by rw [hset]) hurl

/-- A request whose copy ends in the array. -/
theorem sets_stored {p : Param} {value : RbusValue} {o : Answers} {d : Cci}
    (hfits : Fits c.settings (.set (some p.fullName) value o))
    (hset : c.settings.set p value o = (d.settings, .success)) (hurl : cstr d.tdaUrl ≠ none) :
    Sets c p value o (some (d, true)) :=
  sets_of_eq hfits (by rw [hset]; rfl) (by rw [hset]) hurl

section Idle

variable (hrun : c.dmlState ≠ .running) (hurl : cstr c.tdaUrl ≠ none) (o : Answers)

/-- A copy of an URL that ends in its array. -/
theorem sets_url_copied (hrun : c.dmlState ≠ .running) (o : Answers) {s : Option CText} {a : CharArray 128}
    (hcopy : copyString c.tdaUrl s 128 = some a) (hcstr : cstr a = some (bytesOf s))
    (hfits : Fits c.settings (.set (some Param.testConfigURL.fullName) (.string s) o)) :
    Sets c .testConfigURL (.string s) o (setBranch c (.string s) o (some .testConfigURL)) := by
  have hfile : updateTdaUrlToFile a c.urlFile o = some (written (bytesOf s) c.urlFile o) := by
    rw [updateTdaUrlToFile, hcstr]
    rfl
  have hbranch : setBranch c (.string s) o (some .testConfigURL) =
      some ({ c with tdaUrl := a, urlFile := written (bytesOf s) c.urlFile o }, true) := by
    simp only [setBranch, hcopy, hfile, Option.bind_eq_bind, Option.bind_some]
  have hset : c.settings.set .testConfigURL (.string s) o =
      ({ c.settings with url := bytesOf s, urlFile := written (bytesOf s) c.urlFile o }, .success) := if_neg hrun
  rw [hbranch]
  refine sets_stored hfits ?_ (by rw [hcstr]; exact Option.some_ne_none _)
  rw [hset, ← content_of_cstr hcstr]
  rfl

include hrun hurl

theorem sets_url {value : RbusValue} {data : RawData} (hdata : getRbusPropertyData value = some data) :
    Sets c .testConfigURL value o (setBranch c data o (some .testConfigURL)) := by
  cases value with
  | string s =>
      cases hdata
      cases s with
      | none =>
          obtain ⟨-, hcstr⟩ := content_cleared c.tdaUrl (by decide) (by rw [List.length_set]; exact c.tdaUrl.2)
          exact sets_url_copied hrun o rfl hcstr trivial
      | some s =>
          obtain ⟨a, hcopy, -, hcstr⟩ := strncpy_all c.tdaUrl s
          have hiff := fits_iff hrun .testConfigURL s o
          by_cases hlt : s.1.length < 128
          · rw [if_pos hlt] at hcstr
            exact sets_url_copied hrun o hcopy hcstr (hiff.mpr ⟨by decide, fun _ => hlt⟩)
          · rw [if_neg hlt] at hcstr
            have hfile : updateTdaUrlToFile a c.urlFile o = none := by
              rw [updateTdaUrlToFile, hcstr]
              rfl
            have hleaves : setBranch c (.string (some s)) o (some .testConfigURL) = none := by
              simp only [setBranch, copyString, hcopy, hfile, Option.bind_eq_bind, Option.bind_some, Option.bind_none]
            rw [hleaves]
            exact ⟨fun hfits => absurd ((hiff.mp hfits).2 rfl) hlt, fun _ => rfl⟩
  | other =>
      cases hdata
  | _ =>
      cases hdata
      exact sets_refused hurl trivial (if_neg hrun)

theorem sets_results {value : RbusValue} {data : RawData} (hdata : getRbusPropertyData value = some data) :
    Sets c .resultsFileName value o (setBranch c data o (some .resultsFileName)) := by
  cases value with
  | string s =>
      cases hdata
      have hset : c.settings.set .resultsFileName (.string s) o =
          ({ c.settings with resultsFile := (bytesOf s).take 128 }, .success) := if_neg hrun
      obtain ⟨a, hcopy, hcontent⟩ : ∃ a, copyString c.cciOutFileList s 128 = some a ∧
          content a = (bytesOf s).take 128 := by
        cases s with
        | none =>
            exact ⟨_, rfl, (content_cleared _ (by decide) _).1⟩
        | some s =>
            obtain ⟨a, hcopy, hcontent, -⟩ := strncpy_all c.cciOutFileList s
            exact ⟨a, hcopy, hcontent⟩
      have hbranch : setBranch c (.string s) o (some .resultsFileName) =
          some ({ c with cciOutFileList := a }, true) := by
        simp only [setBranch, hcopy, Option.bind_eq_bind, Option.bind_some]
      have hfits : Fits c.settings (.set (some Param.resultsFileName.fullName) (.string s) o) := by
        cases s with
        | none =>
            trivial
        | some s =>
            exact (fits_iff hrun _ s o).mpr ⟨by decide, fun hp => absurd hp (by decide)⟩
      rw [hbranch]
      refine sets_stored hfits ?_ hurl
      rw [hset, ← hcontent]
      rfl
  | other =>
      cases hdata
  | _ =>
      cases hdata
      exact sets_refused hurl trivial (if_neg hrun)

theorem sets_interface {value : RbusValue} {data : RawData} (hdata : getRbusPropertyData value = some data) :
    Sets c .interface value o (setBranch c data o (some .interface)) := by
  cases value with
  | string s =>
      cases hdata
      cases s with
      | none =>
          have hset : c.settings.set .interface (.string none) o =
              ({ c.settings with interface := [] }, .success) := if_neg hrun
          have hlen : (c.interface.1.set 0 0).length = 16 := by rw [List.length_set, c.interface.2]
          refine sets_stored (d := { c with interface := ⟨c.interface.1.set 0 0, hlen⟩ }) trivial ?_ hurl
          rw [hset, ← (content_cleared c.interface (by decide) hlen).1]
          rfl
      | some s =>
          have hleaves : setBranch c (.string (some s)) o (some .interface) = none := by
            have hcopy : strncpy c.interface s.1 128 = none := dif_neg (by decide)
            simp only [setBranch, copyString, hcopy, Option.bind_eq_bind, Option.bind_none]
          rw [hleaves]
          exact ⟨fun hfits => absurd rfl ((fits_iff hrun .interface s o).mp hfits).1, fun _ => rfl⟩
  | other =>
      cases hdata
  | _ =>
      cases hdata
      exact sets_refused hurl trivial (if_neg hrun)

/-- The saved number is the one in the request. -/
theorem sets_clients {value : RbusValue} {data : RawData} (hdata : getRbusPropertyData value = some data) :
    Sets c .simulatedClientDevices value o (setBranch c data o (some .simulatedClientDevices)) := by
  cases value with
  | uint32 v =>
      cases hdata
      have hcount : ((v.toNat : ℤ)).bmod (2 ^ 32) = v.toInt := (BitVec.toInt_eq_toNat_bmod v).symm
      have hset : c.settings.set .simulatedClientDevices (.uint32 v) o =
          if 0 < v.toInt ∧ v.toInt ≤ 300 then
            ({ c.settings with
              clients := v.toInt
              syscfg := if o.commit then some v.toInt else c.settings.syscfg }, .success)
          else (c.settings, .invalidInput) := if_neg hrun
      by_cases hin : 0 < v.toInt ∧ v.toInt ≤ 300
      · have hout : ¬ (v.toInt ≤ 0 ∨ v.toInt > 300) := by omega
        rw [if_pos hin] at hset
        simp only [setBranch, hcount, if_neg hout]
        exact sets_stored trivial hset hurl
      · have hout : v.toInt ≤ 0 ∨ v.toInt > 300 := by omega
        rw [if_neg hin] at hset
        simp only [setBranch, hcount, if_pos hout]
        exact sets_refused hurl trivial hset
  | string s =>
      cases hdata
      refine sets_refused hurl ?_ (if_neg hrun)
      cases s with
      | none =>
          trivial
      | some s =>
          exact (fits_iff hrun _ s o).mpr ⟨by decide, fun hp => absurd hp (by decide)⟩
  | other =>
      cases hdata
  | _ =>
      cases hdata
      exact sets_refused hurl trivial (if_neg hrun)

theorem sets_start {value : RbusValue} {data : RawData} (hdata : getRbusPropertyData value = some data) :
    Sets c .start value o (setBranch c data o (some .start)) := by
  cases value with
  | boolean b =>
      cases hdata
      have hset : c.settings.set .start (.boolean b) o =
          (if b = true then { c.settings with inputs := c.settings.inputs + 1 } else c.settings, .success) := if_neg hrun
      cases b with
      | true =>
          exact sets_stored (d := { c with inputs := c.inputs + 1 }) trivial hset hurl
      | false =>
          exact sets_stored (d := c) trivial hset hurl
  | string s =>
      cases hdata
      refine sets_refused hurl ?_ (if_neg hrun)
      cases s with
      | none =>
          trivial
      | some s =>
          exact (fits_iff hrun _ s o).mpr ⟨by decide, fun hp => absurd hp (by decide)⟩
  | other =>
      cases hdata
  | _ =>
      cases hdata
      exact sets_refused hurl trivial (if_neg hrun)

/-- The status has no branch. -/
theorem sets_status {value : RbusValue} {data : RawData} (hdata : getRbusPropertyData value = some data) :
    Sets c .status value o (setBranch c data o none) := by
  cases value with
  | string s =>
      cases hdata
      refine sets_stored (d := c) ?_ (if_neg hrun) hurl
      cases s with
      | none =>
          trivial
      | some s =>
          exact (fits_iff hrun _ s o).mpr ⟨by decide, fun hp => absurd hp (by decide)⟩
  | other =>
      cases hdata
  | _ =>
      cases hdata
      exact sets_stored (d := c) trivial (if_neg hrun) hurl

end Idle

/-- **A set request** that reaches the component. -/
theorem setCciHandler_sets (hurl : cstr c.tdaUrl ≠ none) (p : Param) {value : RbusValue} {data : RawData}
    (hdata : getRbusPropertyData value = some data) (o : Answers) :
    Sets c p value o (setCciHandler c p.fullName data o) := by
  by_cases hrun : c.dmlState = .running
  · exact sets_running hrun hurl p value data o
  · rw [setCciHandler, if_neg hrun, scan_set, Option.bind_some, branch_set]
    cases p with
    | testConfigURL =>
        exact sets_url hrun hurl o hdata
    | resultsFileName =>
        exact sets_results hrun hurl o hdata
    | interface =>
        exact sets_interface hrun hurl o hdata
    | simulatedClientDevices =>
        exact sets_clients hrun hurl o hdata
    | start =>
        exact sets_start hrun hurl o hdata
    | status =>
        exact sets_status hrun hurl o hdata

/-- A get request that reaches the component. -/
theorem getCciHandler_eq (hurl : cstr c.tdaUrl ≠ none) (p : Param) :
    getCciHandler c p.fullName = some (some (c.settings.get p)) := by
  have hscan : getCciHandler c p.fullName = match some p with
      | some .testConfigURL => some (some (copyOut 127 c.tdaUrl []))
      | some .resultsFileName => some (some (copyOut 63 c.cciOutFileList (text "results.txt")))
      | some .interface => some (some (copyOut 15 c.interface (text "erouter0")))
      | some .simulatedClientDevices => some (some (.uint32 (BitVec.ofInt 32 c.simulatedClients)))
      | some .start => some (some (.boolean false))
      | some .status => some (some (.uint32 (BitVec.ofNat 32 c.dmlState.toNat)))
      | none => some none := by
    unfold getCciHandler
    rw [scan_get, Option.bind_eq_bind, Option.bind_some, branch_get]
  rw [hscan]
  cases p with
  | testConfigURL =>
      obtain ⟨s, hs⟩ := Option.ne_none_iff_exists'.mp hurl
      obtain ⟨hcontent, -, hlen⟩ := cstr_spec hs
      have htake : s.take 127 = s := List.take_of_length_le (by omega)
      have hout : copyOut 127 c.tdaUrl [] = .string s := by
        unfold copyOut
        rw [hcontent, htake]
        by_cases hnil : s = []
        · rw [if_pos hnil, hnil]
        · rw [if_neg hnil]
      rw [hout, ← hcontent]
      rfl
  | _ =>
      rfl

/-- A download changes the URL as intended, and its array keeps an end. -/
theorem checkLocal_settings (hurl : cstr c.tdaUrl ≠ none) :
    (checkLocal c).settings = c.settings.download ∧ cstr (checkLocal c).tdaUrl ≠ none := by
  obtain ⟨s, hs⟩ := Option.ne_none_iff_exists'.mp hurl
  obtain ⟨hcontent, hzero, hlen⟩ := cstr_spec hs
  have htake : (content c.tdaUrl).take 127 = content c.tdaUrl := by
    rw [hcontent]
    exact List.take_of_length_le (by omega)
  unfold checkLocal Settings.download
  rw [htake]
  cases hfound : strstr (text "localhost") (content c.tdaUrl) with
  | none =>
      have hfound' : strstr (text "localhost") c.settings.url = none := hfound
      rw [hfound']
      exact ⟨rfl, hurl⟩
  | some rest =>
      have hfound' : strstr (text "localhost") c.settings.url = some rest := hfound
      obtain ⟨before, behind, hfirst, hrest⟩ := Stdio.first_of_strstr hfound
      have hsub : rest.drop 9 <:+ s := by
        rw [← hcontent, hfirst.eq, List.append_assoc, ← hrest]
        exact (List.drop_suffix 9 rest).trans (List.suffix_append before rest)
      have hfits : (rest.drop 9).take 127 = rest.drop 9 :=
        List.take_of_length_le (by have := hsub.length_le; omega)
      have hcstr := cstr_printed (n := 128) (fun h0 => hzero (hsub.subset h0)) (by decide)
      rw [hfits] at hcstr
      rw [hfound']
      refine ⟨?_, by rw [hcstr]; exact Option.some_ne_none _⟩
      show Settings.mk (content (printed 128 (rest.drop 9))) _ _ _ _ _ _ _ _ = _
      rw [content_of_cstr hcstr]
      rfl

end Requests

/-! ### Over the bus -/

section Runs

variable {sz : Sizes} {L : Layout (RegNodeData Unit Props)} {reg : Bus} {c : Cci}

/-- The tree of the six elements finds what a name stands for. -/
def Finds (sz : Sizes) (L : Layout (RegNodeData Unit Props)) (reg : Bus) : Prop :=
  ∀ name, CanonicalName sz name →
    getBusCbDataInfo sz L reg name = some ((ofName name).map fun p => (dataElement p).data)

/-- The data model of the parameters refuses no value. -/
theorem validate_true (data : RawData) : validateDmSetParameters (some ⟨true, 0, 0, none⟩) data = true :=
  DataModelCheck.validateDmSetParameters_iff.mpr ⟨rfl, fun _ _ _ _ => .inl ⟨rfl, rfl⟩, fun _ _ _ hno => nomatch hno⟩

/-- What a step makes of a label: the parameters' answer, or an access outside an array. -/
structure Steps (sz : Sizes) (L : Layout (RegNodeData Unit Props)) (reg : Bus) (c : Cci) (l : Label) : Prop where
  fits : Fits c.settings l → ∃ c', step sz L reg c l = some (c', (c.settings.step l).2) ∧
    c'.settings = (c.settings.step l).1 ∧ cstr c'.tdaUrl ≠ none
  leaves : ¬ Fits c.settings l → step sz L reg c l = none

theorem rbusSetHandler_none (hfinds : Finds sz L reg) {name : Name} (hname : CanonicalName sz name)
    (hno : ofName name = none) (value : RbusValue) (o : Answers) :
    rbusSetHandler sz L reg c (some name) value o = some (c, .elementDoesNotExist) := by
  unfold rbusSetHandler
  simp only [hfinds name hname, hno, Option.map_none, Option.bind_eq_bind, Option.bind_some]

theorem rbusSetHandler_some (hfinds : Finds sz L reg) {p : Param} (hname : CanonicalName sz p.fullName)
    {value : RbusValue} {data : RawData} (hdata : getRbusPropertyData value = some data) (o : Answers) :
    rbusSetHandler sz L reg c (some p.fullName) value o =
      (setCciHandler c p.fullName data o).map fun r => (r.1, errorOf r.2) := by
  unfold rbusSetHandler
  simp only [hfinds _ hname, ofName_fullName, Option.map_some, Option.bind_eq_bind, Option.bind_some, dataElement,
    hdata, validate_true, Bool.true_eq_false, if_false]

/-- A value that the bus cannot convert. -/
theorem rbusSetHandler_other (hfinds : Finds sz L reg) {p : Param} (hname : CanonicalName sz p.fullName) (o : Answers) :
    rbusSetHandler sz L reg c (some p.fullName) .other o = some (c, .invalidInput) := by
  unfold rbusSetHandler
  simp only [hfinds _ hname, ofName_fullName, Option.map_some, Option.bind_eq_bind, Option.bind_some, dataElement,
    getRbusPropertyData]

theorem rbusGetHandler_eq (hfinds : Finds sz L reg) (hurl : cstr c.tdaUrl ≠ none) {name : Name}
    (hname : CanonicalName sz name) : rbusGetHandler sz L reg c (some name) =
      match ofName name with
      | none => some (.elementDoesNotExist, none)
      | some p => some (.success, some (c.settings.get p)) := by
  unfold rbusGetHandler
  cases hof : ofName name with
  | none =>
      simp only [hfinds name hname, hof, Option.map_none, Option.bind_eq_bind, Option.bind_some]
  | some p =>
      rw [ofName_some hof] at hname ⊢
      simp only [hfinds _ hname, ofName_fullName, Option.map_some, Option.bind_eq_bind, Option.bind_some, dataElement,
        getCciHandler_eq hurl]

theorem settings_other (S : Settings) (p : Param) (o : Answers) : S.set p .other o = (S, .invalidInput) := by
  unfold Settings.set
  by_cases hrun : S.state = .running
  · rw [if_pos hrun]
  · rw [if_neg hrun]

theorem step_set (eventName : Option Name) (value : RbusValue) (o : Answers) :
    step sz L reg c (.set eventName value o) =
      (rbusSetHandler sz L reg c eventName value o).map fun r => (r.1, .set r.2) :=
  rfl

theorem step_get (eventName : Option Name) :
    step sz L reg c (.get eventName) = (rbusGetHandler sz L reg c eventName).map fun r => (c, .get r.1 r.2) :=
  rfl

/-- A set request of a parameter. -/
theorem steps_set (hfinds : Finds sz L reg) (hurl : cstr c.tdaUrl ≠ none) {p : Param}
    (hname : CanonicalName sz p.fullName) (value : RbusValue) (o : Answers) :
    Steps sz L reg c (.set (some p.fullName) value o) := by
  have hastep : c.settings.step (.set (some p.fullName) value o) =
      ((c.settings.set p value o).1, .set (c.settings.set p value o).2) := by
    unfold Settings.step
    simp only [ofName_fullName]
  cases hdata : getRbusPropertyData value with
  | none =>
      cases value with
      | other =>
          rw [settings_other] at hastep
          refine ⟨fun _ => ⟨c, ?_, by rw [hastep], hurl⟩, fun hno => absurd trivial hno⟩
          rw [step_set, rbusSetHandler_other hfinds hname, hastep]
          rfl
      | _ =>
          cases hdata
  | some data =>
      have hsets := setCciHandler_sets hurl p hdata o
      have hstep : step sz L reg c (.set (some p.fullName) value o) =
          ((setCciHandler c p.fullName data o).map fun r => (r.1, errorOf r.2)).map fun r => (r.1, .set r.2) := by
        rw [step_set, rbusSetHandler_some hfinds hname hdata]
      constructor
      · intro hfits
        obtain ⟨c', ok, hrun, herr, hset, hurl'⟩ := hsets.fits hfits
        rw [hstep, hrun, hastep, ← herr]
        exact ⟨c', rfl, hset, hurl'⟩
      · intro hno
        rw [hstep, hsets.leaves hno]
        rfl

/-- **One step**: a label is answered as by the parameters, exactly when it fits. -/
theorem steps_of_canonical (hfinds : Finds sz L reg) (hurl : cstr c.tdaUrl ≠ none) {l : Label}
    (hl : Canonical sz l) : Steps sz L reg c l := by
  cases l with
  | set eventName value o =>
      cases eventName with
      | none =>
          exact ⟨fun _ => ⟨c, rfl, rfl, hurl⟩, fun hno => absurd trivial hno⟩
      | some name =>
          cases hof : ofName name with
          | some p =>
              rw [ofName_some hof] at hl ⊢
              exact steps_set hfinds hurl hl value o
          | none =>
              have hne : ∀ p : Param, name ≠ p.fullName := by
                rintro p rfl
                rw [ofName_fullName] at hof
                cases hof
              have hastep : c.settings.step (.set (some name) value o) = (c.settings, .set .elementDoesNotExist) := by
                unfold Settings.step
                simp only [hof]
              have hfits : Fits c.settings (.set (some name) value o) := by
                cases value with
                | string s =>
                    cases s with
                    | none =>
                        trivial
                    | some s =>
                        exact fun _ => ⟨hne .interface, fun heq => absurd heq (hne .testConfigURL)⟩
                | _ =>
                    trivial
              refine ⟨fun _ => ⟨c, ?_, by rw [hastep], hurl⟩, fun hno => absurd hfits hno⟩
              rw [step_set, rbusSetHandler_none hfinds hl hof, hastep]
              rfl
  | get eventName =>
      cases eventName with
      | none =>
          exact ⟨fun _ => ⟨c, rfl, rfl, hurl⟩, fun hno => absurd trivial hno⟩
      | some name =>
          have hget := rbusGetHandler_eq hfinds hurl hl
          cases hof : ofName name with
          | none =>
              have hastep : c.settings.step (.get (some name)) = (c.settings, .get .elementDoesNotExist none) := by
                simp only [Settings.step, hof]
              refine ⟨fun _ => ⟨c, ?_, by rw [hastep], hurl⟩, fun hno => absurd trivial hno⟩
              rw [step_get, hget, hof, hastep]
              rfl
          | some p =>
              have hastep : c.settings.step (.get (some name)) =
                  (c.settings, .get .success (some (c.settings.get p))) := by
                simp only [Settings.step, hof]
              refine ⟨fun _ => ⟨c, ?_, by rw [hastep], hurl⟩, fun hno => absurd trivial hno⟩
              rw [step_get, hget, hof, hastep]
              rfl
  | dml state =>
      exact ⟨fun _ => ⟨_, rfl, rfl, hurl⟩, fun hno => absurd trivial hno⟩
  | download =>
      obtain ⟨hset, hurl'⟩ := checkLocal_settings hurl
      exact ⟨fun _ => ⟨_, rfl, hset, hurl'⟩, fun hno => absurd trivial hno⟩

/-- A run after its first step. -/
theorem serves_cons {c' : Cci} {l : Label} {ls : List Label}
    (hstep : step sz L reg c l = some (c', (c.settings.step l).2)) (hset : c'.settings = (c.settings.step l).1) :
    Serves sz L reg c (l :: ls) ↔ Serves sz L reg c' ls := by
  unfold Serves
  rw [execTotal, ← hset]
  refine exists_congr fun c'' => and_congr_left fun _ => ?_
  cases hrun : exec (step sz L reg) c' ls with
  | none =>
      simp [exec, hstep, hrun]
  | some r =>
      simp [exec, hstep, hrun, Prod.ext_iff]

/-- Every run, from any contents with an end in the URL. -/
theorem serves_of_finds (hfinds : Finds sz L reg) {ls : List Label} (hcanon : ∀ l ∈ ls, Canonical sz l)
    (hurl : cstr c.tdaUrl ≠ none) : Serves sz L reg c ls ↔ Admissible c.settings ls := by
  induction ls generalizing c with
  | nil =>
      exact iff_of_true ⟨c, rfl, rfl⟩ trivial
  | cons l ls ih =>
      have hl := steps_of_canonical hfinds hurl (hcanon l (List.mem_cons_self ..))
      by_cases hfits : Fits c.settings l
      · obtain ⟨c', hstep, hset, hurl'⟩ := hl.fits hfits
        have hrest := ih (fun x hx => hcanon x (List.mem_cons_of_mem l hx)) hurl'
        rw [serves_cons hstep hset, hrest, hset]
        exact (and_iff_right hfits).symm
      · refine iff_of_false ?_ fun h => hfits h.1
        rintro ⟨c', hexec, -⟩
        rw [exec, hl.leaves hfits] at hexec
        cases hexec

/-- **The parameters over the bus**: from any contents of the component with an end in the URL, requests are
answered as by the six parameters, exactly when all strings fit where they are copied. -/
theorem serves_iff (L : Layout (RegNodeData Unit Props)) (hsz : ∀ p : Param, NameOk sz p.fullName)
    (hurl : cstr c.tdaUrl ≠ none) {ls : List Label} (hcanon : ∀ l ∈ ls, Canonical sz l) :
    ∃ reg, busRegisterHandlers sz L = some reg ∧ (Serves sz L reg c ls ↔ Admissible c.settings ls) := by
  obtain ⟨reg, hreg, hfinds⟩ := registered (L := L) hsz
  exact ⟨reg, hreg, serves_of_finds hfinds hcanon hurl⟩

instance instEncodableByte : Encodable UInt8 :=
  Encodable.ofEquiv (Fin 256) ⟨UInt8.toFin, UInt8.ofFin, fun _ => rfl, fun _ => rfl⟩

/-- The fields of a registration one after the other. -/
abbrev Fields :=
  List (Option Unit) × ℕ × Bool × ℤ × ℤ × Option (List (Option CText))

def fields (d : RegNodeData Unit Props) : Fields :=
  ([d.cbTable.getHandler, d.cbTable.setHandler, d.cbTable.tableAddRowHandler, d.cbTable.tableRemoveRowHandler,
      d.cbTable.eventSubHandler, d.cbTable.methodHandler],
    match d.dataModelProp.dataFormat with
      | .string => 0
      | .uint32 => 1
      | .boolean => 2,
    d.dataModelProp.checks.dataPermission, d.dataModelProp.checks.minDataRange, d.dataModelProp.checks.maxDataRange,
    d.dataModelProp.checks.strValidation)

/-- A layout: as many bytes as the number of the fields says. -/
def layout : Layout (RegNodeData Unit Props) where
  bytes d := List.replicate (Encodable.encode (fields d)) 0
  read bs :=
    match (Encodable.decode bs.length : Option Fields) with
    | some (handlers, format, permission, min, max, validation) =>
        ⟨⟨handlers[0]?.join, handlers[1]?.join, handlers[2]?.join, handlers[3]?.join, handlers[4]?.join,
            handlers[5]?.join⟩,
          ⟨if format = 0 then .string else if format = 1 then .uint32 else .boolean,
            ⟨permission, min, max, validation⟩⟩⟩
    | none => ⟨⟨none, none, none, none, none, none⟩, ⟨.string, ⟨true, 0, 0, none⟩⟩⟩
  read_bytes := by
    rintro ⟨⟨_, _, _, _, _, _⟩, ⟨format, _, _, _, _⟩⟩
    simp only [List.length_replicate, Encodable.encodek]
    cases format <;> rfl

def cci : Cci :=
  ⟨zeros 128, zeros 128, zeros 16, 0, false, .idle, none, none, 0⟩

def answers : Answers :=
  ⟨true, none, true⟩

def url : CText :=
  ⟨text "http://localhost/tests", by decide⟩

/-- A test is configured and started, and the last request is refused. -/
def requests : List Label :=
  [.set (some Param.testConfigURL.fullName) (.string (some url)) answers,
    .set (some Param.simulatedClientDevices.fullName) (.uint32 5) answers, .get (some "Device.WiFi.Tests".toList),
    .set (some Param.start.fullName) (.boolean true) answers, .download, .dml .running,
    .set (some Param.interface.fullName) (.string (some url)) answers, .get (some Param.testConfigURL.fullName)]

theorem canonical_requests : ∀ l ∈ requests, Canonical sizes l := by
  have hparam : ∀ p : Param, CanonicalName sizes p.fullName := by
    intro p
    refine ⟨by cases p <;> decide +kernel, by cases p <;> decide +kernel, fun q => ?_⟩
    cases p <;> cases q <;> decide +kernel
  have hother : CanonicalName sizes "Device.WiFi.Tests".toList :=
    ⟨by decide +kernel, by decide +kernel, fun q => by cases q <;> decide +kernel⟩
  simp only [requests, List.forall_mem_cons, List.not_mem_nil, false_imp_iff, implies_true, and_true]
  exact ⟨hparam _, hparam _, hother, hparam _, trivial, trivial, hparam _, hparam _⟩

theorem serves_requests : ∃ reg, busRegisterHandlers sizes layout = some reg ∧ Serves sizes layout reg cci requests := by
  have hurl : cstr cci.tdaUrl ≠ none := by decide +kernel
  have hsz : ∀ p : Param, NameOk sizes p.fullName := by
    intro p
    cases p <;> decide +kernel
  obtain ⟨reg, hreg, hiff⟩ := serves_iff layout hsz hurl canonical_requests
  refine ⟨reg, hreg, hiff.mpr ⟨?_, trivial, trivial, trivial, trivial, trivial, ?_, trivial, trivial⟩⟩
  · exact fun _ => ⟨by decide +kernel, fun _ => by decide +kernel⟩
  · exact fun hno => absurd rfl hno

end Runs

end OneWifiTestSuite.CciParameters
