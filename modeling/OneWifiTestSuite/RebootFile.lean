import OneWifiTestSuite.CStrings
import OneWifiTestSuite.Queue

/-!
# The file of a reboot step

`create_reboot_case_json` writes the state of a run to a file, and after the reboot
`decode_reboot_case_json` and `process_input_request` read it into a new process. The printer and the
parser of the JSON library are a parameter.

`RoundTrips` says that nothing is read or written outside an array and that all values come back.
`rebootFile_iff` is the exact condition on the run.
-/

namespace OneWifiTestSuite.RebootFile

open ByteRegion CStrings Queue

/-! ### JSON -/

section Json

/-- A tree of the JSON library. Of a number there is the part in front of the point: every reader cuts
the `double` to an integer. -/
inductive Json
  | null
  | string (s : Bytes)
  | number (n : ℤ)
  | bool (b : Bool)
  | array (items : List Json)
  | object (items : List (String × Json))

/-- The library compares keys without regard to case, as `strcasecmp` does. -/
@[simp] def sameKey (a b : String) : Bool :=
  a.toList.map Char.toLower == b.toList.map Char.toLower

/-- `cJSON_GetObjectItem`: the first item with the key. -/
def Json.getObjectItem : Json → String → Option Json
  | .object items, key => (items.find? fun item => sameKey item.1 key).map Prod.snd
  | _, _ => none

@[simp] theorem Json.getObjectItem_nil (key : String) : (Json.object []).getObjectItem key = none := rfl

@[simp] theorem Json.getObjectItem_cons (k key : String) (v : Json) (items : List (String × Json)) :
    (Json.object ((k, v) :: items)).getObjectItem key =
      if sameKey k key = true then some v else (Json.object items).getObjectItem key := by
  cases h : sameKey k key <;> simp [Json.getObjectItem, h, -sameKey]

/-- The `valueint` of a number: it stops at the bounds of an `int`. -/
def valueint (n : ℤ) : BitVec 32 :=
  if 2 ^ 31 - 1 ≤ n then BitVec.ofInt 32 (2 ^ 31 - 1)
  else if n ≤ -2 ^ 31 then BitVec.ofInt 32 (-2 ^ 31)
  else BitVec.ofInt 32 n

/-- `cJSON_GetArraySize`, as the bound of a loop from 0. -/
def getArraySize (items : List Json) : ℕ :=
  (BitVec.ofNat 32 items.length).toInt.toNat

/-- The library: `cJSON_Print` and `cJSON_Parse`. -/
structure CJson where
  print : Json → Bytes
  parse : Bytes → Option Json

end Json

/-! ### The code -/

section Code

/-- How a call goes wrong: memory outside an object, or `RETURN_ERR`. -/
inductive Fault
  | outside
  | failed
deriving DecidableEq, Repr

def inside {α : Type} : Option α → Except Fault α
  | some a => .ok a
  | none => .error .outside

/-- `wlan_emu_ui_mgr_t`. -/
structure UiMgr where
  tdaUrl : CharArray 128
  cciOutFileList : CharArray 128
  interface : CharArray 16
  simulatedClients : BitVec 32
  serverAddress : CharArray 128
  isLocalHostEnabled : Bool
  pausedLoggingStepsCount : BitVec 32
  pausedLoggingSteps : Option (List (BitVec 32))
  lastExecutedStepNum : BitVec 32
deriving DecidableEq

/-- `"localhost"`. -/
def localhost : Bytes := [108, 111, 99, 97, 108, 104, 111, 115, 116]

/-- `"http://localhost"`. -/
def httpLocalhost : Bytes := [104, 116, 116, 112, 58, 47, 47] ++ localhost

def slash : UInt8 := 47

/-- The loop over the paused logging steps: entries are popped while `queue_count` is not 0. -/
def popEntries (fuel : ℕ) : ℕ → QueueT (BitVec 32) → Except Fault (List (BitVec 32))
  | 0, _ => .error .failed
  | turns + 1, q =>
      match count fuel q with
      | none => .error .outside
      | some n =>
          if n = 0 then .ok []
          else
            match pop fuel q with
            | some (q', some stepNumber) => (popEntries fuel turns q').map (stepNumber :: ·)
            | _ => .error .outside

/-- The tree that is written. -/
def rebootCase (configFile serverAddress interface resultsFileName : Bytes) (clients count : BitVec 32)
    (entries : List (BitVec 32)) (stepNumber : BitVec 32) : Json :=
  .object [("config file", .string configFile), ("server_address", .string serverAddress),
    ("interface", .string interface), ("simulated_client_count", .number clients.toInt),
    ("ResultsFileName", .string resultsFileName), ("is_logging_enabled", .bool (count ≠ 0)),
    ("count_logging_step_numbers", .number count.toNat),
    ("logging_step_numbers", .array (entries.map fun n => .object [("step_number", .number n.toNat)])),
    ("last_executed_step_number", .number stepNumber.toNat)]

/-- `create_reboot_case_json`; `q` is the queue of the step, if there is one. -/
def createRebootCaseJson (fuel : ℕ) (u : UiMgr) (q : Option (QueueT (BitVec 32))) (stepNumber : BitVec 32) :
    Except Fault Json := do
  let url ← inside (cstr u.tdaUrl)
  let serverAddress ← inside (cstr u.serverAddress)
  let interface ← inside (cstr u.interface)
  let resultsFileName ← inside (cstr u.cciOutFileList)
  let count ← q.elim (.ok 0) fun q => inside (count fuel q)
  let entries ← q.elim (.ok []) fun q => popEntries fuel fuel q
  pure (rebootCase (if u.isLocalHostEnabled then httpLocalhost ++ url else url) serverAddress interface
    resultsFileName u.simulatedClients count entries stepNumber)

def strLen : ℕ := 127

def interfaceLen : ℕ := 15

/-- A string of the tree is copied into an array. -/
def decodeString {n : ℕ} (root : Json) (key : String) (k : ℕ) (a : CharArray n) : Except Fault (CharArray n) :=
  match root.getObjectItem key with
  | some (.string s) => inside (strncpy a s k)
  | _ => .ok a

/-- A number of the tree replaces `x`. -/
def decodeNumber (root : Json) (key : String) (x : BitVec 32) : BitVec 32 :=
  match root.getObjectItem key with
  | some (.number n) => valueint n
  | _ => x

def decodeConfigFile (root : Json) (u : UiMgr) : Except Fault UiMgr :=
  match root.getObjectItem "config file" with
  | some (.string s) => do
      let url ← inside (strncpy u.tdaUrl s strLen)
      let temp ← inside (strncpy (zeros (strLen + 1)) (content url) strLen)
      pure { u with tdaUrl := url, isLocalHostEnabled := (strstr localhost (content temp)).isSome }
  | _ => .ok u

/-- The test of `server_address` looks at the string of `config file`. -/
def decodeServerAddress (root : Json) (u : UiMgr) : Except Fault UiMgr :=
  match root.getObjectItem "server_address", root.getObjectItem "config file" with
  | some (.string s), some (.string _) => do
      let a ← inside (strncpy u.serverAddress s strLen)
      pure { u with serverAddress := a }
  | some (.string _), none => .error .outside
  | _, _ => .ok u

/-- `alloc_paused_logging_steps`; a negative count is too large for `malloc`. -/
def allocPausedLoggingSteps (count : BitVec 32) : Except Fault (List (BitVec 32)) :=
  if count.toInt < 0 then .error .failed else .ok (List.replicate count.toNat 0)

/-- The loop that fills `paused_logging_steps`. -/
def fillSteps : ℕ → List Json → List (BitVec 32) → Except Fault (List (BitVec 32))
  | _, [], steps => .ok steps
  | i, item :: items, steps =>
      match item.getObjectItem "step_number" with
      | some (.number n) =>
          if i < steps.length then fillSteps (i + 1) items (steps.set i (valueint n)) else .error .outside
      | _ => fillSteps (i + 1) items steps

def decodeCount (root : Json) (u : UiMgr) : Except Fault UiMgr :=
  match root.getObjectItem "count_logging_step_numbers" with
  | some (.number n) => do
      let steps ← allocPausedLoggingSteps (valueint n)
      pure { u with pausedLoggingSteps := some steps, pausedLoggingStepsCount := valueint n }
  | _ => .ok u

def decodeSteps (root : Json) (u : UiMgr) : Except Fault UiMgr :=
  match root.getObjectItem "logging_step_numbers" with
  | some (.array items) =>
      match u.pausedLoggingSteps with
      | none => .error .failed
      | some steps => do
          let steps ← fillSteps 0 (items.take (getArraySize items)) steps
          pure { u with pausedLoggingSteps := some steps }
  | _ => .ok u

def decodeLogging (root : Json) (u : UiMgr) : Except Fault UiMgr :=
  match root.getObjectItem "is_logging_enabled" with
  | some (.bool true) => (decodeCount root u).bind (decodeSteps root)
  | _ => .ok u

/-- `decode_reboot_case_json`. -/
def decodeRebootCaseJson (lib : CJson) (file : Bytes) (u : UiMgr) : Except Fault UiMgr :=
  match lib.parse file with
  | none => .error .failed
  | some root => do
      let u ← decodeConfigFile root u
      let u ← decodeServerAddress root u
      let interface ← decodeString root "interface" interfaceLen u.interface
      let clients := decodeNumber root "simulated_client_count" u.simulatedClients
      let out ← decodeString root "ResultsFileName" strLen u.cciOutFileList
      let u ← decodeLogging root { u with interface, simulatedClients := clients, cciOutFileList := out }
      pure { u with lastExecutedStepNum := decodeNumber root "last_executed_step_number" u.lastExecutedStepNum }

/-- The test of the address: what stands behind `localhost` becomes the URL. -/
def checkLocal (u : UiMgr) : Except Fault UiMgr := do
  let temp ← inside (strncpy (zeros 128) (content u.tdaUrl) 127)
  match strstr localhost (content temp) with
  | some found => pure { u with isLocalHostEnabled := true, tdaUrl := printed 128 (found.drop 9) }
  | none => pure { u with isLocalHostEnabled := false }

/-- `get_last_substring_after_slash` into `len` bytes. -/
def getLastSubstringAfterSlash (url : Bytes) (len : ℕ) : Except Fault Bytes :=
  match strrchr slash url with
  | some (_, sub) => if sub.length < len then .ok sub else .error .failed
  | none => .error .failed

/-- What `decode_json_config` does with the server address: that of the file, or the directory of
the URL. -/
def serverAddressOf (remote url : Bytes) (isLocal : Bool) : Bytes :=
  if isLocal then ((strrchr slash url).map Prod.fst).getD url else remote

/-- `process_input_request` whose downloads succeed: the configuration file that it gets has the
server address `remote`. -/
def processInputRequest (remote : Bytes) (u : UiMgr) : Except Fault UiMgr := do
  let u ← checkLocal u
  let url ← inside (cstr u.tdaUrl)
  let _ ← getLastSubstringAfterSlash url 64
  let a ← inside (strncpy u.serverAddress (serverAddressOf remote url u.isLocalHostEnabled) 127)
  pure { u with serverAddress := a }

/-- The user interface manager of a new process after `init`. -/
def boot : UiMgr where
  tdaUrl := zeros 128
  cciOutFileList := zeros 128
  interface := printed 16 [101, 114, 111, 117, 116, 101, 114, 48]
  simulatedClients := 0
  serverAddress := zeros 128
  isLocalHostEnabled := false
  pausedLoggingStepsCount := 0
  pausedLoggingSteps := none
  lastExecutedStepNum := 0

end Code

/-! ### The round trip -/

section Spec

/-- A run at a reboot step: the configuration was processed, and the queue of the step holds the
paused logging steps in their order. -/
structure RunState where
  before : UiMgr
  remote : Bytes
  remote_string : 0 ∉ remote
  ui : UiMgr
  ran : processInputRequest remote before = .ok ui
  logging : List (BitVec 32)
  queue : Option (QueueT (BitVec 32))
  holds : queue.elim (logging = []) fun q => Holds q (logging.reverse.map some)
  stepNumber : BitVec 32

/-- `create_reboot_case_json` in the run. -/
def RunState.written (s : RunState) : Except Fault Json :=
  createRebootCaseJson (s.logging.length + 1) s.ui s.queue s.stepNumber

/-- The strings and the number of clients of a manager. -/
structure SameSettings (u u' : UiMgr) : Prop where
  serverAddress : cstr u'.serverAddress = cstr u.serverAddress
  interface : cstr u'.interface = cstr u.interface
  simulatedClients : u'.simulatedClients = u.simulatedClients
  cciOutFileList : cstr u'.cciOutFileList = cstr u.cciOutFileList

/-- All values come back: the steps when the file is decoded, the address when the request is
processed again. -/
def RoundTrips (lib : CJson) (s : RunState) : Prop :=
  ∃ json u u', s.written = .ok json ∧ decodeRebootCaseJson lib (lib.print json) boot = .ok u ∧
    processInputRequest s.remote u = .ok u' ∧ SameSettings s.ui u ∧ SameSettings s.ui u' ∧
    u.pausedLoggingStepsCount.toNat = s.logging.length ∧ u.pausedLoggingSteps.getD [] = s.logging ∧
    u.lastExecutedStepNum = s.stepNumber ∧
    cstr u'.tdaUrl = cstr s.ui.tdaUrl ∧ u'.isLocalHostEnabled = s.ui.isLocalHostEnabled

/-- The condition on a run: the strings end in their arrays, a local URL fits behind its prefix, and
the number of paused steps and the step numbers fit an `int`. -/
structure Fits (s : RunState) : Prop where
  serverAddress : (cstr s.ui.serverAddress).isSome
  interface : (cstr s.ui.interface).isSome
  cciOutFileList : (cstr s.ui.cciOutFileList).isSome
  tdaUrl : s.ui.isLocalHostEnabled → 16 + (content s.ui.tdaUrl).length ≤ 127
  logging_length : s.logging.length < 2 ^ 31
  logging_int : ∀ n ∈ s.logging, n.toNat < 2 ^ 31
  stepNumber_int : s.stepNumber.toNat < 2 ^ 31

end Spec

/-! ### The list of paused steps -/

section Logging

variable {fuel turns : ℕ} {q : QueueT (BitVec 32)} {l : List (BitVec 32)}

/-- The loop takes as many entries as the 32-bit count says, the first one first. -/
theorem popEntries_eq (hq : Holds q (l.reverse.map some)) (hfuel : l.length < fuel) (hturns : l.length < turns) :
    popEntries fuel turns q = .ok (l.take (BitVec.ofNat 32 l.length).toNat) := by
  induction l generalizing q turns with
  | nil =>
      obtain ⟨turns, rfl⟩ : ∃ t, turns = t + 1 := ⟨turns - 1, by simp at hturns; omega⟩
      have hcount : count fuel q = some _ := count_eq hq (by simpa using hfuel)
      simp [popEntries, hcount, listCount]
  | cons n l ih =>
      obtain ⟨turns, rfl⟩ : ∃ t, turns = t + 1 := ⟨turns - 1, by omega⟩
      have hcount : count fuel q = some _ := count_eq hq (by simpa using hfuel)
      obtain ⟨q', hpop, hq'⟩ : ∃ q', pop fuel q = some (q', _) ∧ _ := pop_holds hq (by simpa using hfuel)
      have hlast : (((n :: l).reverse.map some).getLast?).join = some n := by simp
      have hrest : ((n :: l).reverse.map some).dropLast = l.reverse.map some := by simp
      rw [hlast] at hpop
      rw [hrest] at hq'
      simp only [List.length_cons] at hfuel hturns
      have hlen : (((n :: l).reverse.map some).length) = l.length + 1 := by simp
      unfold popEntries
      rw [hcount, listCount, hlen, List.length_cons]
      by_cases hzero : BitVec.ofNat 32 (l.length + 1) = 0
      · simp [hzero]
      · have hmod : (BitVec.ofNat 32 (l.length + 1)).toNat = (BitVec.ofNat 32 l.length).toNat + 1 := by
          have hne : (l.length + 1) % 2 ^ 32 ≠ 0 := fun h => hzero (BitVec.eq_of_toNat_eq (by simpa using h))
          simp only [BitVec.toNat_ofNat]
          omega
        have hloop : popEntries fuel turns q' = _ := ih hq' (by omega) (by omega)
        simp only [if_neg hzero, hpop, hloop, hmod, List.take_succ_cons]
        rfl

def entry (n : BitVec 32) : Json :=
  .object [("step_number", .number n.toNat)]

theorem fillSteps_eq (i : ℕ) (steps : List (BitVec 32)) (h : i + l.length ≤ steps.length) :
    fillSteps i (l.map entry) steps =
      .ok (steps.take i ++ l.map (fun n => valueint n.toNat) ++ steps.drop (i + l.length)) := by
  induction l generalizing i steps with
  | nil =>
      simp [fillSteps]
  | cons n l ih =>
      simp only [List.length_cons] at h
      have hi : i < steps.length := by omega
      have hitem : (entry n).getObjectItem "step_number" = some (.number n.toNat) := by
        simp [entry]
      simp only [List.map_cons, fillSteps, hitem, if_pos hi]
      rw [ih (i + 1) _ (by simp; omega)]
      have htake : (steps.set i (valueint n.toNat)).take (i + 1) = steps.take i ++ [valueint n.toNat] := by
        rw [List.take_add_one, List.take_set_of_le (Nat.le_refl i)]
        simp [hi]
      have hdrop : (steps.set i (valueint n.toNat)).drop (i + 1 + l.length) = steps.drop (i + (l.length + 1)) := by
        rw [List.drop_set_of_lt (by omega)]
        congr 1
        omega
      rw [htake, hdrop]
      simp

/-- A number comes back exactly when it fits an `int`. -/
theorem valueint_eq_iff (n : BitVec 32) : valueint n.toNat = n ↔ n.toNat < 2 ^ 31 := by
  have hlt := n.isLt
  unfold valueint
  by_cases hbig : (2 ^ 31 - 1 : ℤ) ≤ n.toNat
  · rw [if_pos hbig]
    have hmax : (BitVec.ofInt 32 (2 ^ 31 - 1)).toNat = 2 ^ 31 - 1 := by decide
    constructor
    · intro h
      rw [← h, hmax]
      omega
    · intro h
      apply BitVec.eq_of_toNat_eq
      omega
  · have hneg : ¬ (n.toNat : ℤ) ≤ -2 ^ 31 := by omega
    rw [if_neg hbig, if_neg hneg]
    refine iff_of_true ?_ (by omega)
    simp

theorem map_valueint_eq_iff (l : List (BitVec 32)) :
    l.map (fun n => valueint n.toNat) = l ↔ ∀ n ∈ l, n.toNat < 2 ^ 31 := by
  induction l with
  | nil =>
      simp
  | cons n l ih =>
      simp only [List.map_cons, List.cons.injEq, ih, valueint_eq_iff, List.forall_mem_cons]

theorem valueint_toInt (n : BitVec 32) : valueint n.toInt = n := by
  have hlo := BitVec.le_toInt n
  have hhi := BitVec.toInt_lt (x := n)
  unfold valueint
  split_ifs with h₁ h₂
  · have heq : n.toInt = 2 ^ 31 - 1 := by omega
    rw [← heq, BitVec.ofInt_toInt]
  · have heq : n.toInt = -2 ^ 31 := by omega
    rw [← heq, BitVec.ofInt_toInt]
  · exact BitVec.ofInt_toInt

end Logging

/-! ### The request -/

section Request

variable {α β : Type} {remote : Bytes} {u u' v : UiMgr}

theorem bind_eq_ok {x : Except Fault α} {f : α → Except Fault β} {b : β} :
    (x >>= f) = .ok b ↔ ∃ a, x = .ok a ∧ f a = .ok b := by
  cases x with
  | ok a =>
      simp [bind, Except.bind]
  | error e =>
      simp [bind, Except.bind]

theorem inside_eq_ok {x : Option α} {a : α} : inside x = .ok a ↔ x = some a := by
  cases x with
  | some b =>
      simp [inside]
  | none =>
      simp [inside]

theorem not_mem_content {n : ℕ} (a : CharArray n) : (0 : UInt8) ∉ content a := by
  intro h
  have := List.mem_takeWhile_imp h
  simp at this

theorem zeros_end (n : ℕ) : (zeros (n + 1)).1[n]? = some 0 := by
  simp [zeros]

/-- A copy into an array that ends with a NUL. -/
theorem strncpy_end {n k : ℕ} {a : CharArray n} {s : Bytes} (hs : 0 ∉ s) (hk : k + 1 = n) (ha : a.1[k]? = some 0) :
    ∃ a', strncpy a s k = some a' ∧ cstr a' = some (s.take k) ∧ a'.1[k]? = some 0 := by
  obtain ⟨a', hrun, hcstr⟩ := cstr_strncpy (a := a) hs hk
  rw [if_pos (Or.inr ha)] at hcstr
  refine ⟨a', hrun, hcstr, ?_⟩
  have hle : k ≤ n := by omega
  rw [strncpy, dif_pos hle] at hrun
  cases hrun
  have hlen : (s.take k ++ List.replicate (k - s.length) (0 : UInt8)).length = k := by
    simp only [List.length_append, List.length_take, List.length_replicate]
    omega
  simp only
  rw [List.getElem?_append_right (by omega), hlen, Nat.sub_self, List.getElem?_drop]
  exact ha

theorem checkLocal_eq (u : UiMgr) : checkLocal u = .ok (match strstr localhost ((content u.tdaUrl).take 127) with
    | some found => { u with isLocalHostEnabled := true, tdaUrl := printed 128 (found.drop 9) }
    | none => { u with isLocalHostEnabled := false }) := by
  obtain ⟨a, hrun, hcstr, -⟩ := strncpy_end (not_mem_content u.tdaUrl) rfl (zeros_end 127)
  unfold checkLocal
  rw [hrun]
  simp only [inside, bind, Except.bind]
  rw [(cstr_spec hcstr).1]
  cases strstr localhost ((content u.tdaUrl).take 127) with
  | some found =>
      rfl
  | none =>
      rfl

theorem processInputRequest_eq_ok : processInputRequest remote u = .ok u' ↔ ∃ v url sub a, checkLocal u = .ok v ∧
    cstr v.tdaUrl = some url ∧ getLastSubstringAfterSlash url 64 = .ok sub ∧
    strncpy v.serverAddress (serverAddressOf remote url v.isLocalHostEnabled) 127 = some a ∧
    { v with serverAddress := a } = u' := by
  simp only [processInputRequest, bind_eq_ok, inside_eq_ok, pure, Except.pure, Except.ok.injEq]
  constructor
  · rintro ⟨v, hv, url, hurl, sub, hsub, a, ha, rfl⟩
    exact ⟨v, url, sub, a, hv, hurl, hsub, ha, rfl⟩
  · rintro ⟨v, url, sub, a, hv, hurl, hsub, ha, rfl⟩
    exact ⟨v, hv, url, hurl, sub, hsub, a, ha, rfl⟩

/-- The request keeps the settings that it does not set. -/
theorem checkLocal_keeps (h : checkLocal u = .ok v) : v.serverAddress = u.serverAddress ∧ v.interface = u.interface ∧
    v.simulatedClients = u.simulatedClients ∧ v.cciOutFileList = u.cciOutFileList := by
  rw [checkLocal_eq] at h
  cases hs : strstr localhost ((content u.tdaUrl).take 127) with
  | some found =>
      rw [hs] at h
      cases h
      exact ⟨rfl, rfl, rfl, rfl⟩
  | none =>
      rw [hs] at h
      cases h
      exact ⟨rfl, rfl, rfl, rfl⟩

/-- What a request leaves: a URL that was tested, and the server address that belongs to it. -/
theorem processInputRequest_spec (h : processInputRequest remote u = .ok u') : ∃ url sub,
    cstr u'.tdaUrl = some url ∧ (u'.isLocalHostEnabled = false → strstr localhost url = none) ∧
    getLastSubstringAfterSlash url 64 = .ok sub ∧
    strncpy u.serverAddress (serverAddressOf remote url u'.isLocalHostEnabled) 127 = some u'.serverAddress := by
  obtain ⟨v, url, sub, a, hv, hurl, hsub, ha, rfl⟩ := processInputRequest_eq_ok.mp h
  rw [(checkLocal_keeps hv).1] at ha
  refine ⟨url, sub, hurl, fun hflag => ?_, hsub, ha⟩
  rw [checkLocal_eq] at hv
  cases hs : strstr localhost ((content u.tdaUrl).take 127) with
  | some found =>
      rw [hs] at hv
      cases hv
      cases hflag
  | none =>
      rw [hs] at hv
      cases hv
      obtain ⟨hcontent, -, hlen⟩ := cstr_spec hurl
      rw [hcontent, List.take_of_length_le (by omega)] at hs
      exact hs

end Request

/-! ### The new process -/

section Decode

variable {lib : CJson} {file : Bytes} {configFile serverAddress interface resultsFileName : Bytes}
  {clients count stepNumber : BitVec 32} {entries : List (BitVec 32)} {root : Json} {u u' : UiMgr}

theorem count_lt_of_decodeLogging (h : decodeLogging root u = .ok u') (hu : u.pausedLoggingStepsCount.toNat < 2 ^ 31) :
    u'.pausedLoggingStepsCount.toNat < 2 ^ 31 := by
  unfold decodeLogging at h
  split at h
  · obtain ⟨v, hv, hsteps⟩ := bind_eq_ok.mp h
    have hcount : v.pausedLoggingStepsCount.toNat < 2 ^ 31 := by
      unfold decodeCount at hv
      split at hv
      · obtain ⟨steps, halloc, hv⟩ := bind_eq_ok.mp hv
        cases hv
        unfold allocPausedLoggingSteps at halloc
        split_ifs at halloc with hneg
        simp only [BitVec.toInt_eq_toNat_cond] at hneg
        simp only
        split_ifs at hneg <;> omega
      · cases hv
        exact hu
    unfold decodeSteps at hsteps
    split at hsteps
    · split at hsteps
      · cases hsteps
      · obtain ⟨steps, -, hu'⟩ := bind_eq_ok.mp hsteps
        cases hu'
        exact hcount
    · cases hsteps
      exact hcount
  · cases h
    exact hu

/-- The count that is read is never larger than an `int`. -/
theorem count_lt_of_decode (h : decodeRebootCaseJson lib file boot = .ok u) :
    u.pausedLoggingStepsCount.toNat < 2 ^ 31 := by
  unfold decodeRebootCaseJson at h
  cases hparse : lib.parse file with
  | none =>
      rw [hparse] at h
      cases h
  | some root =>
      rw [hparse] at h
      obtain ⟨u₁, h₁, h⟩ := bind_eq_ok.mp h
      obtain ⟨u₂, h₂, h⟩ := bind_eq_ok.mp h
      obtain ⟨i, -, h⟩ := bind_eq_ok.mp h
      obtain ⟨o, -, h⟩ := bind_eq_ok.mp h
      obtain ⟨u₃, h₃, h⟩ := bind_eq_ok.mp h
      cases h
      have hc₁ : u₁.pausedLoggingStepsCount = 0 := by
        unfold decodeConfigFile at h₁
        split at h₁
        · obtain ⟨a, -, h₁⟩ := bind_eq_ok.mp h₁
          obtain ⟨b, -, h₁⟩ := bind_eq_ok.mp h₁
          cases h₁
          rfl
        · cases h₁
          rfl
      have hc₂ : u₂.pausedLoggingStepsCount = 0 := by
        unfold decodeServerAddress at h₂
        split at h₂
        · obtain ⟨a, -, h₂⟩ := bind_eq_ok.mp h₂
          cases h₂
          exact hc₁
        · cases h₂
        · cases h₂
          exact hc₁
      have hlt : u₂.pausedLoggingStepsCount.toNat < 2 ^ 31 := by
        rw [hc₂]
        decide
      have hmain := count_lt_of_decodeLogging h₃ hlt
      exact hmain

theorem decodeLogging_rebootCase (configFile serverAddress interface resultsFileName : Bytes)
    (clients stepNumber : BitVec 32) (hcount : entries.length = count.toNat) (hlt : entries.length < 2 ^ 31)
    (hnone : u.pausedLoggingSteps = none) (hzero : u.pausedLoggingStepsCount = 0) :
    ∃ steps, decodeLogging (rebootCase configFile serverAddress interface resultsFileName clients count entries
        stepNumber) u = .ok { u with pausedLoggingSteps := steps, pausedLoggingStepsCount := count } ∧
      steps.getD [] = entries.map fun n => valueint n.toNat := by
  have henabled : (rebootCase configFile serverAddress interface resultsFileName clients count entries
      stepNumber).getObjectItem "is_logging_enabled" = some (.bool (count ≠ 0)) := by
    simp [rebootCase]
  have hnumber : (rebootCase configFile serverAddress interface resultsFileName clients count entries
      stepNumber).getObjectItem "count_logging_step_numbers" = some (.number count.toNat) := by
    simp [rebootCase]
  have harray : (rebootCase configFile serverAddress interface resultsFileName clients count entries
      stepNumber).getObjectItem "logging_step_numbers" = some (.array (entries.map entry)) := by
    simp [rebootCase, entry]
  unfold decodeLogging
  rw [henabled]
  by_cases h0 : count = 0
  · subst h0
    have hnil : entries = [] := List.length_eq_zero_iff.mp hcount
    refine ⟨none, ?_, by simp [hnil]⟩
    have hsame : { u with pausedLoggingSteps := none, pausedLoggingStepsCount := 0 } = u := by
      rw [← hnone, ← hzero]
    rw [hsame]
    rfl
  · have hval : valueint count.toNat = count := (valueint_eq_iff count).mpr (by omega)
    have hpos : ¬ count.toInt < 0 := by
      rw [BitVec.toInt_eq_toNat_cond]
      split_ifs <;> omega
    have hsize : getArraySize (entries.map entry) = (entries.map entry).length := by
      rw [getArraySize, List.length_map, hcount, BitVec.ofNat_toNat, BitVec.setWidth_eq, BitVec.toInt_eq_toNat_cond]
      split_ifs <;> omega
    have hfill := fillSteps_eq (l := entries) 0 (List.replicate count.toNat 0) (by simp; omega)
    refine ⟨some (entries.map fun n => valueint n.toNat), ?_, rfl⟩
    simp only [decide_eq_true h0, ne_eq, decodeCount, decodeSteps, hnumber, harray, hval, allocPausedLoggingSteps,
      if_neg hpos, bind, Except.bind, pure, Except.pure, hsize, List.take_length, hfill]
    simp [hcount]

/-- What is read of the tree that was written. -/
theorem decode_rebootCase (hparse : lib.parse file = some (rebootCase configFile serverAddress interface
      resultsFileName clients count entries stepNumber))
    (hconfig : 0 ∉ configFile) (hserver : 0 ∉ serverAddress) (hiface : 0 ∉ interface) (hout : 0 ∉ resultsFileName)
    (hcount : entries.length = count.toNat) (hlt : entries.length < 2 ^ 31) :
    ∃ u, decodeRebootCaseJson lib file boot = .ok u ∧ cstr u.tdaUrl = some (configFile.take 127) ∧
      cstr u.serverAddress = some (serverAddress.take 127) ∧ u.serverAddress.1[127]? = some 0 ∧
      cstr u.interface = some (interface.take 15) ∧ cstr u.cciOutFileList = some (resultsFileName.take 127) ∧
      u.simulatedClients = clients ∧ u.pausedLoggingStepsCount = count ∧
      u.pausedLoggingSteps.getD [] = entries.map (fun n => valueint n.toNat) ∧
      u.lastExecutedStepNum = valueint stepNumber.toNat := by
  obtain ⟨url, hurl, hurl', -⟩ := strncpy_end hconfig rfl (zeros_end 127)
  obtain ⟨temp, htemp, -, -⟩ := strncpy_end (not_mem_content url) rfl (zeros_end 127)
  obtain ⟨server, hs, hs', hsend⟩ := strncpy_end hserver rfl (zeros_end 127)
  obtain ⟨i, hi, hi', -⟩ := strncpy_end (a := boot.interface) hiface (k := 15) rfl (by decide)
  obtain ⟨out, ho, ho', -⟩ := strncpy_end hout rfl (zeros_end 127)
  obtain ⟨root, hroot⟩ : ∃ root, root = rebootCase configFile serverAddress interface resultsFileName clients count
    entries stepNumber := ⟨_, rfl⟩
  have hget₁ : root.getObjectItem "config file" = some (.string configFile) := by
    simp [hroot, rebootCase]
  have hget₂ : root.getObjectItem "server_address" = some (.string serverAddress) := by
    simp [hroot, rebootCase]
  have hget₃ : root.getObjectItem "interface" = some (.string interface) := by
    simp [hroot, rebootCase]
  have hget₄ : root.getObjectItem "simulated_client_count" = some (.number clients.toInt) := by
    simp [hroot, rebootCase]
  have hget₅ : root.getObjectItem "ResultsFileName" = some (.string resultsFileName) := by
    simp [hroot, rebootCase]
  have hget₆ : root.getObjectItem "last_executed_step_number" = some (.number stepNumber.toNat) := by
    simp [hroot, rebootCase]
  obtain ⟨steps, hsteps, hlist⟩ := decodeLogging_rebootCase configFile serverAddress interface resultsFileName clients
    stepNumber hcount hlt
    (u := { boot with tdaUrl := url, isLocalHostEnabled := (strstr localhost (content temp)).isSome,
                      serverAddress := server, interface := i, simulatedClients := clients, cciOutFileList := out })
    rfl rfl
  rw [← hroot] at hparse hsteps
  refine ⟨{ boot with tdaUrl := url, isLocalHostEnabled := (strstr localhost (content temp)).isSome,
                      serverAddress := server, interface := i, simulatedClients := clients, cciOutFileList := out,
                      pausedLoggingSteps := steps, pausedLoggingStepsCount := count,
                      lastExecutedStepNum := valueint stepNumber.toNat },
    ?_, hurl', hs', hsend, hi', ho', rfl, rfl, hlist, rfl⟩
  have hfirst : decodeConfigFile root boot =
      .ok { boot with tdaUrl := url, isLocalHostEnabled := (strstr localhost (content temp)).isSome } := by
    have hboot : strncpy boot.tdaUrl configFile 127 = some url := hurl
    simp only [decodeConfigFile, hget₁, strLen, hboot, htemp, inside, bind, Except.bind, pure, Except.pure]
  have hsecond : ∀ v : UiMgr, v.serverAddress = zeros 128 →
      decodeServerAddress root v = .ok { v with serverAddress := server } := by
    intro v hv
    have hcopy : strncpy v.serverAddress serverAddress 127 = some server := by
      rw [hv]
      exact hs
    simp only [decodeServerAddress, hget₁, hget₂, strLen, hcopy, inside, bind, Except.bind, pure, Except.pure]
  have hthird : decodeString root "interface" interfaceLen boot.interface = .ok i := by
    simp only [decodeString, hget₃, interfaceLen, hi, inside]
  have hfourth : decodeString root "ResultsFileName" strLen boot.cciOutFileList = .ok out := by
    have hboot : strncpy boot.cciOutFileList resultsFileName 127 = some out := ho
    simp only [decodeString, hget₅, strLen, hboot, inside]
  have hclients : ∀ x, decodeNumber root "simulated_client_count" x = clients := by
    intro x
    rw [decodeNumber, hget₄]
    exact valueint_toInt clients
  have hlast : ∀ x, decodeNumber root "last_executed_step_number" x = valueint stepNumber.toNat := by
    intro x
    rw [decodeNumber, hget₆]
  simp only [decodeRebootCaseJson, hparse, hfirst, bind, Except.bind]
  rw [hsecond _ rfl]
  simp only [hthird, hfourth, hclients, hlast, hsteps, pure, Except.pure]

end Decode

/-! ### Both together -/

section Main

variable {lib : CJson} {s : RunState} {u v : UiMgr} {url : Bytes} {isLocal : Bool}

def configFileOf (isLocal : Bool) (url : Bytes) : Bytes :=
  if isLocal then httpLocalhost ++ url else url

theorem strstr_httpLocalhost (t : Bytes) : strstr localhost (httpLocalhost ++ t) = some (localhost ++ t) := by
  simp [httpLocalhost, localhost, strstr]

theorem not_mem_configFileOf (h : 0 ∉ url) : 0 ∉ configFileOf isLocal url := by
  cases isLocal with
  | true =>
      simpa [configFileOf, httpLocalhost, localhost] using h
  | false =>
      simpa [configFileOf] using h

/-- The address that the new process makes of the file. -/
theorem checkLocal_restored (hu : cstr u.tdaUrl = some ((configFileOf isLocal url).take 127)) (h0 : 0 ∉ url)
    (hlen : url.length < 128) (hremote : isLocal = false → strstr localhost url = none) :
    ∃ v, checkLocal u = .ok v ∧ cstr v.tdaUrl = some (if isLocal then url.take 111 else url) ∧
      v.isLocalHostEnabled = isLocal := by
  rw [checkLocal_eq, (cstr_spec hu).1, List.take_take, Nat.min_self]
  cases isLocal with
  | true =>
      have hcut : (configFileOf true url).take 127 = httpLocalhost ++ url.take 111 := by
        simp [configFileOf, httpLocalhost, localhost]
      rw [hcut, strstr_httpLocalhost]
      refine ⟨_, rfl, ?_, rfl⟩
      have hdrop : (localhost ++ url.take 111).drop 9 = url.take 111 := by
        simp [localhost]
      simp only [hdrop]
      rw [cstr_printed (fun h => h0 (List.mem_of_mem_take h)) (by decide), List.take_take]
      rfl
  | false =>
      have hcut : (configFileOf false url).take 127 = url := by
        rw [configFileOf, if_neg Bool.false_ne_true, List.take_of_length_le (by omega)]
      rw [hcut] at hu ⊢
      rw [hremote rfl]
      exact ⟨_, rfl, hu, rfl⟩

/-- The tree that a run writes, if its strings end in their arrays. -/
theorem written_eq_ok {json : Json} : s.written = .ok json ↔ ∃ url server iface out,
    cstr s.ui.tdaUrl = some url ∧ cstr s.ui.serverAddress = some server ∧ cstr s.ui.interface = some iface ∧
    cstr s.ui.cciOutFileList = some out ∧
    rebootCase (configFileOf s.ui.isLocalHostEnabled url) server iface out s.ui.simulatedClients
      (BitVec.ofNat 32 s.logging.length) (s.logging.take (BitVec.ofNat 32 s.logging.length).toNat) s.stepNumber = json := by
  have hcount : (s.queue.elim (.ok 0) fun q => inside (count (s.logging.length + 1) q)) =
      .ok (BitVec.ofNat 32 s.logging.length) := by
    have hq := s.holds
    cases h : s.queue with
    | none =>
        rw [h, Option.elim_none] at hq
        simp [hq]
    | some q =>
        rw [h, Option.elim_some] at hq
        rw [Option.elim_some, count_eq hq (by simp)]
        simp [inside, listCount]
  have hentries : (s.queue.elim (.ok []) fun q => popEntries (s.logging.length + 1) (s.logging.length + 1) q) =
      .ok (s.logging.take (BitVec.ofNat 32 s.logging.length).toNat) := by
    have hq := s.holds
    cases h : s.queue with
    | none =>
        rw [h, Option.elim_none] at hq
        simp [hq]
    | some q =>
        rw [h, Option.elim_some] at hq
        exact popEntries_eq hq (by omega) (by omega)
  simp only [RunState.written, createRebootCaseJson, bind_eq_ok, inside_eq_ok, hcount, hentries, pure, Except.pure,
    Except.ok.injEq, exists_eq_left', configFileOf]
  constructor
  · rintro ⟨url, hurl, server, hserver, iface, hiface, out, hout, h⟩
    exact ⟨url, server, iface, out, hurl, hserver, hiface, hout, h⟩
  · rintro ⟨url, server, iface, out, hurl, hserver, hiface, hout, h⟩
    exact ⟨url, hurl, server, hserver, iface, hiface, out, hout, h⟩

theorem take_all (h : s.logging.length < 2 ^ 31) :
    s.logging.take (BitVec.ofNat 32 s.logging.length).toNat = s.logging := by
  apply List.take_of_length_le
  rw [BitVec.toNat_ofNat]
  omega

/-- What the new process reads of a run whose strings end and whose list fits. -/
theorem read_of_written {url server iface out : Bytes} {json : Json} (hw : s.written = .ok json)
    (hlib : lib.parse (lib.print json) = some json) (hlt : s.logging.length < 2 ^ 31)
    (hurl : cstr s.ui.tdaUrl = some url) (hserver : cstr s.ui.serverAddress = some server)
    (hiface : cstr s.ui.interface = some iface) (hout : cstr s.ui.cciOutFileList = some out) :
    ∃ u, decodeRebootCaseJson lib (lib.print json) boot = .ok u ∧ SameSettings s.ui u ∧
      cstr u.tdaUrl = some ((configFileOf s.ui.isLocalHostEnabled url).take 127) ∧
      u.serverAddress.1[127]? = some 0 ∧ u.pausedLoggingStepsCount.toNat = s.logging.length ∧
      u.pausedLoggingSteps.getD [] = s.logging.map (fun n => valueint n.toNat) ∧
      u.lastExecutedStepNum = valueint s.stepNumber.toNat := by
  obtain ⟨url', server', iface', out', hurl', hserver', hiface', hout', rfl⟩ := written_eq_ok.mp hw
  rw [hurl] at hurl'
  rw [hserver] at hserver'
  rw [hiface] at hiface'
  rw [hout] at hout'
  cases hurl'
  cases hserver'
  cases hiface'
  cases hout'
  have hcount : (BitVec.ofNat 32 s.logging.length).toNat = s.logging.length := by
    rw [BitVec.toNat_ofNat]
    omega
  rw [take_all hlt] at hlib ⊢
  obtain ⟨-, hurl0, -⟩ := cstr_spec hurl
  obtain ⟨-, hserver0, hserverlen⟩ := cstr_spec hserver
  obtain ⟨-, hiface0, hifacelen⟩ := cstr_spec hiface
  obtain ⟨-, hout0, houtlen⟩ := cstr_spec hout
  obtain ⟨u, hrun, hu, hs, hend, hi, ho, hclients, hpaused, hlist, hlast⟩ := decode_rebootCase hlib
    (not_mem_configFileOf hurl0) hserver0 hiface0 hout0 hcount.symm hlt
  rw [List.take_of_length_le (by omega)] at hs hi ho
  refine ⟨u, hrun, ⟨?_, ?_, hclients, ?_⟩, hu, hend, ?_, hlist, hlast⟩
  · rw [hs, hserver]
  · rw [hi, hiface]
  · rw [ho, hout]
  · rw [hpaused, hcount]

theorem fits_of_roundTrips (hlib : ∀ json, s.written = .ok json → lib.parse (lib.print json) = some json) :
    RoundTrips lib s → Fits s := by
  obtain ⟨url, sub, hurl, hremote, -, -⟩ := processInputRequest_spec s.ran
  obtain ⟨hcontent, hurl0, hurllen⟩ := cstr_spec hurl
  rintro ⟨json, u, u', hw, hdec, hreq, -, -, hcount, hlist, hlast, haddr, -⟩
  have hlt : s.logging.length < 2 ^ 31 := by
    rw [← hcount]
    exact count_lt_of_decode hdec
  obtain ⟨url', server, iface, out, hurl', hserver, hiface, hout, -⟩ := written_eq_ok.mp hw
  obtain ⟨u₀, hdec₀, -, haddr₀, -, -, hlist₀, hlast₀⟩ := read_of_written hw (hlib _ hw) hlt hurl hserver hiface hout
  rw [hdec] at hdec₀
  cases hdec₀
  obtain ⟨v, hv, hvurl, -⟩ := checkLocal_restored haddr₀ hurl0 hurllen hremote
  obtain ⟨v', _, _, a, hv', -, -, -, rfl⟩ := processInputRequest_eq_ok.mp hreq
  rw [hv] at hv'
  cases hv'
  refine ⟨by simp [hserver], by simp [hiface], by simp [hout], fun hlocal => ?_, hlt, ?_, ?_⟩
  · rw [hlocal, if_pos rfl] at hvurl
    have hcut : some (url.take 111) = some url := by
      rw [← hvurl, ← hurl]
      exact haddr
    have hlen := congrArg List.length (Option.some.inj hcut)
    rw [List.length_take] at hlen
    rw [hcontent]
    omega
  · rw [hlist₀] at hlist
    exact (map_valueint_eq_iff _).mp hlist
  · rw [hlast₀] at hlast
    exact (valueint_eq_iff _).mp hlast

theorem roundTrips_of_fits (hlib : ∀ json, s.written = .ok json → lib.parse (lib.print json) = some json) :
    Fits s → RoundTrips lib s := by
  obtain ⟨url, sub, hurl, hremote, hsub, hserverAddress⟩ := processInputRequest_spec s.ran
  obtain ⟨hcontent, hurl0, hurllen⟩ := cstr_spec hurl
  rintro ⟨hs, hi, ho, hlocal, hlt, hint, hstep⟩
  obtain ⟨server, hserver⟩ := Option.isSome_iff_exists.mp hs
  obtain ⟨iface, hiface⟩ := Option.isSome_iff_exists.mp hi
  obtain ⟨out, hout⟩ := Option.isSome_iff_exists.mp ho
  obtain ⟨json, hw⟩ : ∃ json, s.written = .ok json :=
    ⟨_, written_eq_ok.mpr ⟨url, server, iface, out, hurl, hserver, hiface, hout, rfl⟩⟩
  obtain ⟨u, hdec, hsame, haddr, hend, hcount, hlist, hlast⟩ :=
    read_of_written hw (hlib _ hw) hlt hurl hserver hiface hout
  obtain ⟨v, hv, hvurl, hvlocal⟩ := checkLocal_restored haddr hurl0 hurllen hremote
  obtain ⟨hkeep₁, hkeep₂, hkeep₃, hkeep₄⟩ := checkLocal_keeps hv
  have hrest : (if s.ui.isLocalHostEnabled then url.take 111 else url) = url := by
    cases hflag : s.ui.isLocalHostEnabled with
    | true =>
        have := hlocal hflag
        rw [hcontent] at this
        rw [if_pos rfl, List.take_of_length_le (by omega)]
    | false =>
        rfl
  rw [hrest] at hvurl
  -- the same server address is computed again, and its copy ends in the array
  have hsrc : 0 ∉ serverAddressOf s.remote url s.ui.isLocalHostEnabled := by
    unfold serverAddressOf
    split_ifs
    · cases hdir : strrchr slash url with
      | none =>
          exact hurl0
      | some r =>
          obtain ⟨before, behind⟩ := r
          have hsplit := strrchr_spec hdir
          intro h
          rw [hsplit] at hurl0
          exact hurl0 (List.mem_append_left _ h)
    · exact s.remote_string
  rw [← hkeep₁] at hend
  obtain ⟨a, ha, hcstr, -⟩ := strncpy_end hsrc rfl hend
  obtain ⟨a', ha', hcstr'⟩ := cstr_strncpy (a := s.before.serverAddress) hsrc (k := 127) rfl
  rw [hserverAddress] at ha'
  cases ha'
  have hsame' : cstr a = cstr s.ui.serverAddress := by
    rw [hserver] at hcstr'
    split_ifs at hcstr' with hfit
    rw [hcstr, hserver, hcstr']
  refine ⟨json, u, { v with serverAddress := a }, hw, hdec, ?_, hsame, ⟨hsame', ?_, ?_, ?_⟩, hcount, ?_, ?_, ?_, hvlocal⟩
  · rw [← hvlocal] at ha
    exact processInputRequest_eq_ok.mpr ⟨v, url, sub, a, hv, hvurl, hsub, ha, rfl⟩
  · rw [hkeep₂]
    exact hsame.interface
  · rw [hkeep₃]
    exact hsame.simulatedClients
  · rw [hkeep₄]
    exact hsame.cciOutFileList
  · rw [hlist]
    exact (map_valueint_eq_iff _).mpr hint
  · rw [hlast]
    exact (valueint_eq_iff _).mpr hstep
  · rw [hurl]
    exact hvurl

/-- **The reboot file**: with a library that reads back what it printed, all values come back exactly
when the strings of the run end in their arrays, a local URL fits behind its prefix and the numbers
fit an `int`. -/
theorem rebootFile_iff (lib : CJson) (s : RunState)
    (hlib : ∀ json, s.written = .ok json → lib.parse (lib.print json) = some json) :
    RoundTrips lib s ↔ Fits s :=
  ⟨fits_of_roundTrips hlib, roundTrips_of_fits hlib⟩

/-- A library that prints one tree as `text`, and reads it back. -/
def libOf (json : Json) (text : String) : CJson where
  print := fun _ => text.toUTF8.toList
  parse := fun file => if file = text.toUTF8.toList then some json else none

theorem libOf_reads {json : Json} {text : String} (h : s.written = .ok json) :
    ∀ json', s.written = .ok json' → (libOf json text).parse ((libOf json text).print json') = some json' := by
  intro json' h'
  rw [h] at h'
  cases h'
  exact if_pos rfl

/-- The text of an object. -/
def braces (s : String) : String :=
  "\x7b" ++ s ++ "\x7d"

/-- `erouter0`. -/
def erouter0 : Bytes := [101, 114, 111, 117, 116, 101, 114, 48]

/-- `http://tda/t.json`. -/
def remoteUrl : Bytes := [104, 116, 116, 112, 58, 47, 47, 116, 100, 97, 47, 116, 46, 106, 115, 111, 110]

/-- `http://tda`. -/
def remoteAddress : Bytes := [104, 116, 116, 112, 58, 47, 47, 116, 100, 97]

/-- A run with a remote server, and the logging step 3 paused at step 5. -/
def remoteRun : RunState where
  before := { boot with tdaUrl := printed 128 remoteUrl }
  remote := remoteAddress
  remote_string := by decide
  ui := { boot with tdaUrl := printed 128 remoteUrl, serverAddress := printed 128 remoteAddress }
  ran := by decide +kernel
  logging := [3]
  queue := some (push create (some 3) (some 1)).1
  holds := push_holds holds_create (some 3) rfl
  stepNumber := 5

def remoteCase : Json := rebootCase remoteUrl remoteAddress erouter0 [] 0 1 [3] 5

def remoteText : String :=
  braces (
    "\n\t\"config file\":\t\"http://tda/t.json\",\n\t\"server_address\":\t\"http://tda\",\n" ++
    "\t\"interface\":\t\"erouter0\",\n\t\"simulated_client_count\":\t0,\n\t\"ResultsFileName\":\t\"\",\n" ++
    "\t\"is_logging_enabled\":\ttrue,\n\t\"count_logging_step_numbers\":\t1,\n" ++
    "\t\"logging_step_numbers\":\t[" ++ braces "\n\t\t\t\"step_number\":\t3\n\t\t" ++ "],\n" ++
    "\t\"last_executed_step_number\":\t5\n")

theorem remoteRun_written : remoteRun.written = .ok remoteCase := by
  refine written_eq_ok.mpr ⟨remoteUrl, remoteAddress, erouter0, [], ?_, ?_, ?_, ?_, rfl⟩ <;> decide +kernel

theorem roundTrips_remoteRun : RoundTrips (libOf remoteCase remoteText) remoteRun :=
  (rebootFile_iff _ _ (libOf_reads remoteRun_written)).mpr
    ⟨by decide +kernel, by decide +kernel, by decide +kernel, by decide +kernel, by simp [remoteRun],
      by simp [remoteRun], by simp [remoteRun]⟩

/-- A directory of 60 letters and a file of 54. -/
def localPath : Bytes := 47 :: List.replicate 60 97 ++ 47 :: List.replicate 54 98

/-- A run of the local URL `localhost` and `localPath`, at step 5. -/
def localRun : RunState where
  before := { boot with tdaUrl := printed 128 (localhost ++ localPath) }
  remote := []
  remote_string := by decide
  ui := { boot with
          tdaUrl := printed 128 localPath
          isLocalHostEnabled := true
          serverAddress := printed 128 (localPath.take 61) }
  ran := by decide +kernel
  logging := []
  queue := none
  holds := rfl
  stepNumber := 5

def localCase : Json := rebootCase (httpLocalhost ++ localPath) (localPath.take 61) erouter0 [] 0 0 [] 5

def localText : String :=
  braces (
    "\n\t\"config file\":\t\"http://localhost/" ++ "".pushn 'a' 60 ++ "/" ++ "".pushn 'b' 54 ++
    "\",\n\t\"server_address\":\t\"/" ++ "".pushn 'a' 60 ++ "\",\n" ++
    "\t\"interface\":\t\"erouter0\",\n\t\"simulated_client_count\":\t0,\n\t\"ResultsFileName\":\t\"\",\n" ++
    "\t\"is_logging_enabled\":\tfalse,\n\t\"count_logging_step_numbers\":\t0,\n" ++
    "\t\"logging_step_numbers\":\t[],\n\t\"last_executed_step_number\":\t5\n")

theorem localRun_written : localRun.written = .ok localCase := by
  refine written_eq_ok.mpr ⟨localPath, localPath.take 61, erouter0, [], ?_, ?_, ?_, ?_, rfl⟩ <;> decide +kernel

/-- The URL of 125 characters comes back without its last five. -/
theorem not_roundTrips_localRun : ¬ RoundTrips (libOf localCase localText) localRun := by
  intro h
  have hfits := (fits_of_roundTrips (libOf_reads localRun_written) h).tdaUrl
  revert hfits
  decide +kernel

end Main

end OneWifiTestSuite.RebootFile
