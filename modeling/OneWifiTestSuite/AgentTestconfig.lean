import OneWifiTestSuite.StaSubdoc
import OneWifiTestSuite.IperfSubdoc

/-!
# The agent's Testconfig endpoint

`agent_endpoint_testconfig` saves a posted body, reports ok, decodes the saved document into a step and
hands the step over. `agentEndpointTestconfig` follows all its early returns and the writes through null
pointers; `run_eq_ok_iff` and `run_eq_crash_iff` say what the decoders of the four classes make of a
document, and `sound_iff` when the endpoint hands over exactly a step that was decoded from the body.
-/

namespace OneWifiTestSuite.AgentTestconfig

open ByteRegion CStrings RebootFile AgentJson StepSubdoc

/-! ### The decoders -/

section Code

/-- The agent's step for an Ethernet client. -/
structure EthStep where
  common : Common
  interfaceName : Bytes
  ipAddress : Bytes
  interfaceMac : Mac
  duration : BitVec 32

/-- A step object by its class. -/
inductive StepObject (ssidSize keySize : ℕ)
  | sta (step : StaSubdoc.AgentStep ssidSize keySize)
  | iperf (role : IperfSubdoc.Role) (step : IperfSubdoc.AgentStep)
  | eth (step : EthStep)

/-- What `new` finds in the memory of a step object. -/
structure Memory (ssidSize keySize : ℕ) where
  sta : StaSubdoc.AgentStep ssidSize keySize
  common : Common

/-- The answers of one request: the file is saved and opened again, the step object and the records of
its constructor are allocated, and the message with its pointer is sent. -/
structure Answers where
  saved : Bool
  reopened : Bool
  object : Bool
  records : Bool
  sent : Bool

/-- An error is reported; a write through a null pointer ends the agent. -/
inductive Fault
  | err
  | crash
deriving DecidableEq, Repr

def orErr {α : Type} : Option α → Except Fault α
  | some a => .ok a
  | none => .error .err

/-- The loop over `TestCaptureFrame`; an entry without a name is read through a null pointer. -/
def decodeFramesRun : List Json → FrameRequest → Except Fault FrameRequest
  | [], r => .ok r
  | entry :: entries, r =>
      match entry.getObjectItem "FrameType" with
      | some (.string s) =>
          match decodePcapFrameType s r with
          | none => .error .err
          | some r => decodeFramesRun entries r
      | _ => .error .crash

def decodeCaptureRun (captureFrames : Bool) (root : Json) : Except Fault (Bool × FrameRequest) :=
  match root.getObjectItem "TestCapture" with
  | some (.bool true) =>
      match root.getObjectItem "TestCaptureFrame" with
      | some list => (decodeFramesRun (children list) noFrames).map fun r => (true, r)
      | none => .ok (true, noFrames)
  | some (.bool false) => .ok (false, noFrames)
  | _ => .ok (captureFrames, noFrames)

/-- `decode_step_param_common`; the step number is the first write to the object. -/
def decodeStepParamCommonRun (object : Bool) (root : Json) (step : Common) : Except Fault Common := do
  let number ← orErr (decodeParamInteger root "StepNumber")
  if object = false then .error .crash
  else
    let name ← orErr (decodeParamString root "TestCaseName")
    let id ← orErr (decodeParamString root "TestCaseID")
    let fork ← orErr (decodeParamBool root "Fork")
    let (captureFrames, frameRequest) ← decodeCaptureRun step.captureFrames root
    .ok ⟨valueint number, copyString step.testCaseName name, copyString step.testCaseId id, fork, captureFrames,
      frameRequest⟩

variable {ssidSize keySize : ℕ} (macs : MacLib) (mem : Memory ssidSize keySize)

/-- `wlan_ext_step_decode_subdocument` of the Ethernet client. -/
def decodeEthSubdocument (root : Json) (common : Common) : Option EthStep := do
  let name ← decodeParamString root "EthInterfaceName"
  let ip ← decodeParamString root "EthIpAddress"
  let mac ← decodeParamString root "EthMacAddress"
  let duration ← decodeParamInteger root "Duration"
  some ⟨common, name, ip, macs.read mac, valuedouble duration⟩

/-- `decode_step_param_ext_ethernet_client`. -/
def decodeStepParamExtEthernetClient (root : Json) : Option EthStep := do
  let common ← decodeStepParamCommon root { mem.common with captureFrames := false }
  decodeEthSubdocument macs root common

/-- The common part of a new object of the class. -/
def newCommon : StepClass → Common
  | .staManagement => mem.sta.common
  | _ => { mem.common with captureFrames := false }

/-- The subdocument of a class on a new object. -/
def decodeSubdocument (c : StepClass) (root : Json) (common : Common) : Option (StepObject ssidSize keySize) :=
  match c with
  | .staManagement =>
      (StaSubdoc.decodeSubdocument macs root { StaSubdoc.newStep mem.sta with common := common }).map .sta
  | .iperfServer => (IperfSubdoc.decodeSubdocument .server root (IperfSubdoc.newStep common)).map (.iperf .server)
  | .iperfClient => (IperfSubdoc.decodeSubdocument .client root (IperfSubdoc.newStep common)).map (.iperf .client)
  | .ethLanClient => (decodeEthSubdocument macs root common).map .eth

/-- The first parameter of a class's subdocument, which is written into the records. The Ethernet client
checks its record before. -/
def writesRecords (c : StepClass) (root : Json) : Bool :=
  match c with
  | .staManagement => (decodeParamString root "StationType").isSome
  | .iperfServer => (decodeParamInteger root (IperfSubdoc.Role.operationKey .server)).isSome
  | .iperfClient => (decodeParamInteger root (IperfSubdoc.Role.operationKey .client)).isSome
  | .ethLanClient => false

/-- The `decode_step_param_ext_*` functions: the common part, then the subdocument. -/
def decodeStepParamExt (a : Answers) (c : StepClass) (root : Json) : Except Fault (StepObject ssidSize keySize) := do
  let common ← decodeStepParamCommonRun a.object root (newCommon mem c)
  if a.records = false ∧ writesRecords c root = true then .error .crash
  else if a.records = false then .error .err
  else orErr (decodeSubdocument macs mem c root common)

/-- `step_param` of the endpoint: not yet set, or an object. -/
inductive Pointer (ssidSize keySize : ℕ)
  | unset
  | object (step : StepObject ssidSize keySize)

/-- `decode_step_param`; another name is no error, and the pointer keeps its value. -/
def decodeStepParam (a : Answers) (lib : CJson) (text : Bytes) : Except Fault (Pointer ssidSize keySize) := do
  let root ← orErr (lib.parse (cStr text))
  let name ← orErr (decodeParamString root "SubDocName")
  match stepClass name with
  | some c => (decodeStepParamExt macs mem a c root).map .object
  | none => .ok .unset

/-- The status of the response, and the pointers that the test gets. -/
structure Reply (ssidSize keySize : ℕ) where
  status : ℕ
  handed : List (Pointer ssidSize keySize)

/-- `agent_endpoint_testconfig`; `none` is the end of the agent. -/
def agentEndpointTestconfig (a : Answers) (lib : CJson) (body : Bytes) : Option (Reply ssidSize keySize) :=
  if a.saved = false then some ⟨500, []⟩
  else if a.reopened = false then some ⟨500, []⟩
  else
    match decodeStepParam macs mem a lib body with
    | .error .crash => none
    | .error .err => some ⟨400, []⟩
    | .ok p => some ⟨200, if a.sent then [p] else []⟩

end Code

/-! ### What a request must do -/

section Spec

variable {ssidSize keySize : ℕ} (macs : MacLib) (mem : Memory ssidSize keySize)

/-- The step that the class's decoder makes of a document, complete or not at all. -/
def decoded (c : StepClass) (root : Json) : Option (StepObject ssidSize keySize) :=
  match c with
  | .staManagement => (StaSubdoc.decodeStepParamExtStaManagement macs mem.sta root).map .sta
  | .iperfServer => (IperfSubdoc.decodeStepParamExtStaIperf .server mem.common root).map (.iperf .server)
  | .iperfClient => (IperfSubdoc.decodeStepParamExtStaIperf .client mem.common root).map (.iperf .client)
  | .ethLanClient => (decodeStepParamExtEthernetClient macs mem root).map .eth

/-- The step was decoded from the body, by the decoder of its name. -/
def DecodedFrom (lib : CJson) (body : Bytes) (step : StepObject ssidSize keySize) : Prop :=
  ∃ root name c, lib.parse (cStr body) = some root ∧ decodeParamString root "SubDocName" = some name ∧
    stepClass name = some c ∧ decoded macs mem c root = some step

/-- An error is reported and nothing is handed over, or ok is reported and one step is handed over, which
was decoded from the body. -/
def Sound (a : Answers) (lib : CJson) (body : Bytes) : Prop :=
  ∃ r, agentEndpointTestconfig macs mem a lib body = some r ∧
    (r.status ≠ 200 ∧ r.handed = [] ∨
      r.status = 200 ∧ ∃ step, r.handed = [.object step] ∧ DecodedFrom macs mem lib body step)

/-- The loop over the frames to capture comes to an entry without a name. -/
def nameless : List Json → Bool
  | [] => false
  | entry :: entries =>
      match entry.getObjectItem "FrameType" with
      | some (.string s) => (frames.any fun f => f.name = s) && nameless entries
      | _ => true

/-- A frame to capture has no name. -/
def namelessFrame (root : Json) : Bool :=
  match root.getObjectItem "TestCapture" with
  | some (.bool true) =>
      match root.getObjectItem "TestCaptureFrame" with
      | some list => nameless (children list)
      | none => false
  | _ => false

/-- The parameters in front of the capture request are there. -/
def HasCommon (root : Json) : Prop :=
  (decodeParamInteger root "StepNumber").isSome ∧ (decodeParamString root "TestCaseName").isSome ∧
    (decodeParamString root "TestCaseID").isSome ∧ (decodeParamBool root "Fork").isSome

/-- The document makes its decoder write through a null pointer: the object is missing when the step
number is there, a frame to capture has no name, or the records are missing when their first parameter
is there. -/
def Crashes (a : Answers) (c : StepClass) (root : Json) : Prop :=
  if a.object = false then (decodeParamInteger root "StepNumber").isSome = true
  else HasCommon root ∧ (namelessFrame root = true ∨
    (decodeStepParamCommon root (newCommon mem c)).isSome ∧ a.records = false ∧ writesRecords c root = true)

/-- The condition on the answers and the body: a document with a name has that of one of the classes, its
decoder does not crash, and a step that is decoded is sent. -/
def Proper (a : Answers) (lib : CJson) (body : Bytes) : Prop :=
  a.saved = true → a.reopened = true → ∀ root name, lib.parse (cStr body) = some root →
    decodeParamString root "SubDocName" = some name →
      ∃ c, stepClass name = some c ∧ ¬ Crashes mem a c root ∧
        (a.object = true → a.records = true → (decoded macs mem c root).isSome → a.sent = true)

end Spec

/-! ### The decoders of the classes -/

section Decoders

variable {ssidSize keySize : ℕ} {macs : MacLib} {mem : Memory ssidSize keySize} {a : Answers} {root : Json}

/-- The loop over the frames has a result where `decodeFrames` has, and crashes at a nameless entry. -/
theorem decodeFramesRun_eq (entries : List Json) (r : FrameRequest) :
    decodeFramesRun entries r =
      bif nameless entries then .error .crash else orErr (decodeFrames entries r) := by
  induction entries generalizing r with
  | nil =>
      rfl
  | cons entry entries ih =>
      simp only [decodeFramesRun, nameless, decodeFrames]
      cases hitem : entry.getObjectItem "FrameType" with
      | none =>
          rfl
      | some item =>
          cases item with
          | string s =>
              simp only [decodePcapFrameType]
              cases hfind : frames.find? fun f => f.name = s with
              | none =>
                  have hany : (frames.any fun f => decide (f.name = s)) = false := by
                    simpa using hfind
                  simp [hany, orErr]
              | some f =>
                  have hname : f.name = s := by simpa using List.find?_some hfind
                  have hany : (frames.any fun f => decide (f.name = s)) = true :=
                    List.any_eq_true.mpr ⟨f, List.mem_of_find?_eq_some hfind, by simp [hname]⟩
                  simp [hany, ih]
          | _ =>
              rfl

theorem decodeCaptureRun_eq (captureFrames : Bool) (root : Json) :
    decodeCaptureRun captureFrames root =
      bif namelessFrame root then .error .crash else orErr (decodeCapture captureFrames root) := by
  simp only [decodeCaptureRun, namelessFrame, decodeCapture]
  cases hcapture : root.getObjectItem "TestCapture" with
  | none =>
      rfl
  | some item =>
      cases item with
      | bool b =>
          cases b with
          | false =>
              rfl
          | true =>
              cases hlist : root.getObjectItem "TestCaptureFrame" with
              | none =>
                  rfl
              | some list =>
                  simp only [decodeFramesRun_eq]
                  cases nameless (children list) with
                  | true =>
                      rfl
                  | false =>
                      cases decodeFrames (children list) noFrames <;> rfl
      | _ =>
          rfl

/-- The common part: a crash, or the result of `decodeStepParamCommon`. -/
theorem decodeStepParamCommonRun_eq (object : Bool) (root : Json) (step : Common) :
    decodeStepParamCommonRun object root step =
      if object = false then
        if (decodeParamInteger root "StepNumber").isSome = true then .error .crash else .error .err
      else
        match decodeParamInteger root "StepNumber", decodeParamString root "TestCaseName",
            decodeParamString root "TestCaseID", decodeParamBool root "Fork" with
        | some _, some _, some _, some _ =>
            bif namelessFrame root then .error .crash else orErr (decodeStepParamCommon root step)
        | _, _, _, _ => .error .err := by
  unfold decodeStepParamCommonRun decodeStepParamCommon
  cases hnumber : decodeParamInteger root "StepNumber" with
  | none =>
      cases object <;> rfl
  | some number =>
      cases object with
      | false =>
          rfl
      | true =>
          cases hname : decodeParamString root "TestCaseName" with
          | none =>
              rfl
          | some name =>
              cases hid : decodeParamString root "TestCaseID" with
              | none =>
                  rfl
              | some id =>
                  cases hfork : decodeParamBool root "Fork" with
                  | none =>
                      rfl
                  | some fork =>
                      simp only [decodeCaptureRun_eq]
                      cases namelessFrame root with
                      | true =>
                          rfl
                      | false =>
                          cases decodeCapture step.captureFrames root <;> rfl

theorem decodeFrames_of_nameless {entries : List Json} (h : nameless entries = true) (r : FrameRequest) :
    decodeFrames entries r = none := by
  induction entries generalizing r with
  | nil =>
      cases h
  | cons entry entries ih =>
      by_cases hitem : ∃ s, entry.getObjectItem "FrameType" = some (.string s)
      · obtain ⟨s, hs⟩ := hitem
        simp only [nameless, hs, Bool.and_eq_true] at h
        simp only [decodeFrames, hs]
        cases decodePcapFrameType s r with
        | none =>
            rfl
        | some r' =>
            exact ih h.2 r'
      · unfold decodeFrames
        split
        · rename_i s hs
          exact absurd ⟨s, hs⟩ hitem
        · rfl

/-- A nameless frame leaves no capture request. -/
theorem decodeCapture_of_nameless (captureFrames : Bool) (h : namelessFrame root = true) :
    decodeCapture captureFrames root = none := by
  have htest : root.getObjectItem "TestCapture" = some (.bool true) := by
    by_contra htest
    unfold namelessFrame at h
    split at h
    · exact htest ‹_›
    · cases h
  simp only [namelessFrame, htest] at h
  simp only [decodeCapture, htest]
  cases hlist : root.getObjectItem "TestCaptureFrame" with
  | none =>
      simp [hlist] at h
  | some list =>
      simp only [hlist] at h
      simp [decodeFrames_of_nameless h]

theorem orErr_eq_ok_iff {α : Type} {o : Option α} {x : α} : orErr o = .ok x ↔ o = some x := by
  cases o <;> simp [orErr]

theorem orErr_ne_crash {α : Type} (o : Option α) : orErr o ≠ .error .crash := by
  cases o <;> simp [orErr]

theorem decodeStepParamCommonRun_eq_crash_iff (object : Bool) (root : Json) (step : Common) :
    decodeStepParamCommonRun object root step = .error .crash ↔
      if object = false then (decodeParamInteger root "StepNumber").isSome = true
      else HasCommon root ∧ namelessFrame root = true := by
  rw [decodeStepParamCommonRun_eq]
  cases object with
  | false =>
      by_cases hnumber : (decodeParamInteger root "StepNumber").isSome = true
      · simp [hnumber]
      · simp [hnumber]
  | true =>
      simp only [Bool.true_eq_false, if_false]
      split
      · rename_i hnumber hname hid hfork
        cases hnameless : namelessFrame root with
        | true =>
            simp [HasCommon, hnumber, hname, hid, hfork]
        | false =>
            simp [orErr_ne_crash]
      · rename_i hsome
        refine iff_of_false (by simp) ?_
        rintro ⟨⟨hnumber, hname, hid, hfork⟩, -⟩
        obtain ⟨number, hnumber⟩ := Option.isSome_iff_exists.mp hnumber
        obtain ⟨name, hname⟩ := Option.isSome_iff_exists.mp hname
        obtain ⟨id, hid⟩ := Option.isSome_iff_exists.mp hid
        obtain ⟨fork, hfork⟩ := Option.isSome_iff_exists.mp hfork
        exact hsome number name id fork hnumber hname hid hfork

theorem decodeStepParamCommonRun_eq_ok_iff (object : Bool) (root : Json) (step common : Common) :
    decodeStepParamCommonRun object root step = .ok common ↔
      object = true ∧ decodeStepParamCommon root step = some common := by
  rw [decodeStepParamCommonRun_eq]
  cases object with
  | false =>
      simp only [if_true, Bool.false_eq_true, false_and, iff_false]
      split_ifs <;> simp
  | true =>
      simp only [Bool.true_eq_false, if_false, true_and]
      split
      · cases hnameless : namelessFrame root with
        | true =>
            have hcapture := decodeCapture_of_nameless step.captureFrames hnameless
            simp [decodeStepParamCommon, hcapture]
        | false =>
            exact orErr_eq_ok_iff
      · rename_i hsome
        refine iff_of_false (by simp) fun hdec => ?_
        simp only [decodeStepParamCommon, Option.bind_eq_bind, Option.bind_eq_some_iff] at hdec
        obtain ⟨number, hnumber, name, hname, id, hid, fork, hfork, -⟩ := hdec
        exact hsome number name id fork hnumber hname hid hfork

/-- A class's decoder is the common part and the subdocument. -/
theorem decoded_eq (c : StepClass) (root : Json) : decoded macs mem c root =
    (decodeStepParamCommon root (newCommon mem c)).bind (decodeSubdocument macs mem c root) := by
  cases c with
  | staManagement =>
      unfold decoded StaSubdoc.decodeStepParamExtStaManagement newCommon
      cases decodeStepParamCommon root mem.sta.common <;> rfl
  | ethLanClient =>
      unfold decoded decodeStepParamExtEthernetClient newCommon
      cases decodeStepParamCommon root { mem.common with captureFrames := false } <;> rfl
  | _ =>
      unfold decoded IperfSubdoc.decodeStepParamExtStaIperf newCommon
      cases decodeStepParamCommon root { mem.common with captureFrames := false } <;> rfl

/-- **A decoder returns a step** exactly when the object was allocated and the document is complete. -/
theorem run_eq_ok_iff (macs : MacLib) (mem : Memory ssidSize keySize) (a : Answers) (root : Json) (c : StepClass)
    (step : StepObject ssidSize keySize) :
    decodeStepParamExt macs mem a c root = .ok step ↔
      a.object = true ∧ a.records = true ∧ decoded macs mem c root = some step := by
  have hok := decodeStepParamCommonRun_eq_ok_iff a.object root (newCommon mem c)
  rw [decoded_eq, decodeStepParamExt]
  cases hrun : decodeStepParamCommonRun a.object root (newCommon mem c) with
  | error fault =>
      refine iff_of_false (by rintro ⟨⟩) ?_
      rintro ⟨hobject, -, hstep⟩
      obtain ⟨common, hcommon, -⟩ := Option.bind_eq_some_iff.mp hstep
      have hno := (hok common).mpr ⟨hobject, hcommon⟩
      rw [hrun] at hno
      cases hno
  | ok common =>
      obtain ⟨hobject, hcommon⟩ := (hok common).mp hrun
      rw [hcommon, Option.bind_some]
      show (if a.records = false ∧ writesRecords c root = true then Except.error Fault.crash
        else if a.records = false then Except.error Fault.err
        else orErr (decodeSubdocument macs mem c root common)) = _ ↔ _
      cases hrecords : a.records with
      | false =>
          refine iff_of_false ?_ (by simp)
          split_ifs with hwrites hmissing
          · simp
          · simp
          · exact absurd rfl hmissing
      | true =>
          simp [hobject, orErr_eq_ok_iff]

/-- **A decoder crashes** exactly on the documents that make it write through a null pointer. -/
theorem run_eq_crash_iff (macs : MacLib) (mem : Memory ssidSize keySize) (a : Answers) (root : Json)
    (c : StepClass) :
    decodeStepParamExt macs mem a c root = .error .crash ↔ Crashes mem a c root := by
  have hcrash := decodeStepParamCommonRun_eq_crash_iff a.object root (newCommon mem c)
  have hok := decodeStepParamCommonRun_eq_ok_iff a.object root (newCommon mem c)
  rw [Crashes, decodeStepParamExt]
  cases hrun : decodeStepParamCommonRun a.object root (newCommon mem c) with
  | error fault =>
      have hnone : a.object = true → decodeStepParamCommon root (newCommon mem c) = none := by
        intro hobject
        cases hdec : decodeStepParamCommon root (newCommon mem c) with
        | none =>
            rfl
        | some common =>
            rw [(hok common).mpr ⟨hobject, hdec⟩] at hrun
            cases hrun
      rw [hrun] at hcrash
      refine Iff.trans ⟨fun h => by cases h; rfl, fun h => by cases h; rfl⟩ (hcrash.trans ?_)
      cases hobject : a.object with
      | false =>
          rfl
      | true =>
          simp [hnone hobject]
  | ok common =>
      obtain ⟨hobject, hcommon⟩ := (hok common).mp hrun
      have hfine : ¬ (HasCommon root ∧ namelessFrame root = true) := by
        rw [hrun] at hcrash
        simpa [hobject] using hcrash
      have hhas : HasCommon root := by
        simp only [decodeStepParamCommon, Option.bind_eq_bind, Option.bind_eq_some_iff] at hcommon
        obtain ⟨number, hnumber, name, hname, id, hid, fork, hfork, -⟩ := hcommon
        simp [HasCommon, hnumber, hname, hid, hfork]
      have hnameless : namelessFrame root = false := by
        simpa [hhas] using hfine
      show (if a.records = false ∧ writesRecords c root = true then Except.error Fault.crash
        else if a.records = false then Except.error Fault.err
        else orErr (decodeSubdocument macs mem c root common)) = _ ↔ _
      simp only [hobject, Bool.true_eq_false, if_false, hhas, hnameless, Bool.false_eq_true, hcommon, Option.isSome_some,
        true_and, false_or]
      by_cases hmissing : a.records = false ∧ writesRecords c root = true
      · rw [if_pos hmissing]
        exact iff_of_true rfl hmissing
      · rw [if_neg hmissing]
        refine iff_of_false ?_ hmissing
        split_ifs
        · simp
        · exact orErr_ne_crash _

end Decoders

/-! ### The endpoint -/

section Endpoint

variable {ssidSize keySize : ℕ} {macs : MacLib} {mem : Memory ssidSize keySize} {a : Answers} {lib : CJson}
  {body : Bytes}

theorem decodeStepParam_eq : decodeStepParam macs mem a lib body =
    match lib.parse (cStr body) with
    | none => .error .err
    | some root =>
        match decodeParamString root "SubDocName" with
        | none => .error .err
        | some name =>
            match stepClass name with
            | some c => (decodeStepParamExt macs mem a c root).map .object
            | none => .ok .unset := by
  unfold decodeStepParam
  cases lib.parse (cStr body) with
  | none =>
      rfl
  | some root =>
      cases hname : decodeParamString root "SubDocName" with
      | none =>
          show (orErr (decodeParamString root "SubDocName") >>= _) = _
          simp only [hname]
          rfl
      | some name =>
          show (orErr (decodeParamString root "SubDocName") >>= _) = _
          simp only [hname]
          rfl

/-- A reported error with nothing handed over. -/
theorem sound_of_error {status : ℕ} (hrun : agentEndpointTestconfig macs mem a lib body = some ⟨status, []⟩)
    (hstatus : status ≠ 200) : Sound macs mem a lib body :=
  ⟨⟨status, []⟩, hrun, Or.inl ⟨hstatus, rfl⟩⟩

/-- A document of one of the classes. -/
theorem sound_of_class {root : Json} {name : Bytes} {c : StepClass} (hsaved : a.saved = true)
    (hreopened : a.reopened = true) (hparse : lib.parse (cStr body) = some root)
    (hname : decodeParamString root "SubDocName" = some name) (hclass : stepClass name = some c) :
    Sound macs mem a lib body ↔ ¬ Crashes mem a c root ∧
      (a.object = true → a.records = true → (decoded macs mem c root).isSome = true → a.sent = true) := by
  have hcrash := run_eq_crash_iff macs mem a root c
  have hok := run_eq_ok_iff macs mem a root c
  have hstep : decodeStepParam macs mem a lib body = (decodeStepParamExt macs mem a c root).map .object := by
    rw [decodeStepParam_eq, hparse]
    simp only [hname, hclass]
  unfold Sound agentEndpointTestconfig
  rw [hsaved, hreopened, hstep]
  simp only [Bool.true_eq_false, if_false]
  cases hrun : decodeStepParamExt macs mem a c root with
  | error fault =>
      have hnone : a.object = true → a.records = true → decoded macs mem c root = none := by
        intro hobject hrecords
        cases hdec : decoded macs mem c root with
        | none =>
            rfl
        | some step =>
            rw [(hok step).mpr ⟨hobject, hrecords, hdec⟩] at hrun
            cases hrun
      rw [hrun] at hcrash
      cases fault with
      | crash =>
          have hcrashes := hcrash.mp rfl
          simp [Except.map, hcrashes]
      | err =>
          have hcalm : ¬ Crashes mem a c root := fun h => by
            have hno := hcrash.mpr h
            cases hno
          refine iff_of_true ⟨⟨400, []⟩, rfl, Or.inl ⟨Nat.ne_of_beq_eq_false rfl, rfl⟩⟩
            ⟨hcalm, fun hobject hrecords hsome => ?_⟩
          rw [hnone hobject hrecords] at hsome
          cases hsome
  | ok step =>
      obtain ⟨hobject, hrecords, hdec⟩ := (hok step).mp hrun
      rw [hrun] at hcrash
      have hcalm : ¬ Crashes mem a c root := fun h => by
        have hno := hcrash.mpr h
        cases hno
      simp only [Except.map, Option.some.injEq, exists_eq_left', ne_eq, not_true_eq_false, false_and, false_or, true_and,
        hcalm, not_false_eq_true, hobject, hrecords, hdec, Option.isSome_some, forall_const]
      cases hsent : a.sent with
      | false =>
          simp
      | true =>
          simp only [if_true, List.cons.injEq, and_true, iff_true]
          exact ⟨step, rfl, root, name, c, hparse, hname, hclass, hdec⟩

/-- **The endpoint**: it reports an error and hands over nothing, or ok and hands over one step that was
decoded from the body, exactly when the body and the answers are proper. -/
theorem sound_iff (macs : MacLib) (mem : Memory ssidSize keySize) (a : Answers) (lib : CJson) (body : Bytes) :
    Sound macs mem a lib body ↔ Proper macs mem a lib body := by
  cases hsaved : a.saved with
  | false =>
      have hrun : agentEndpointTestconfig macs mem a lib body = some ⟨500, []⟩ := if_pos hsaved
      refine iff_of_true (sound_of_error hrun (by decide)) ?_
      intro hno
      rw [hsaved] at hno
      cases hno
  | true =>
      cases hreopened : a.reopened with
      | false =>
          have hrun : agentEndpointTestconfig macs mem a lib body = some ⟨500, []⟩ := by
            rw [agentEndpointTestconfig, if_neg (by simp [hsaved]), if_pos hreopened]
          refine iff_of_true (sound_of_error hrun (by decide)) fun _ hno => ?_
          rw [hreopened] at hno
          cases hno
      | true =>
          cases hparse : lib.parse (cStr body) with
          | none =>
              have hrun : agentEndpointTestconfig macs mem a lib body = some ⟨400, []⟩ := by
                simp only [agentEndpointTestconfig, hsaved, hreopened, decodeStepParam_eq, hparse, Bool.true_eq_false,
                  if_false]
              refine iff_of_true (sound_of_error hrun (by decide)) fun _ _ root name hroot => ?_
              rw [hparse] at hroot
              cases hroot
          | some root =>
              cases hname : decodeParamString root "SubDocName" with
              | none =>
                  have hrun : agentEndpointTestconfig macs mem a lib body = some ⟨400, []⟩ := by
                    simp only [agentEndpointTestconfig, hsaved, hreopened, decodeStepParam_eq, hparse, hname,
                      Bool.true_eq_false, if_false]
                  refine iff_of_true (sound_of_error hrun (by decide)) fun _ _ root' name hroot hname' => ?_
                  rw [hparse, Option.some.injEq] at hroot
                  rw [← hroot, hname] at hname'
                  cases hname'
              | some name =>
                  cases hclass : stepClass name with
                  | none =>
                      refine iff_of_false ?_ fun hproper => ?_
                      · rintro ⟨r, hr, hsound⟩
                        simp only [agentEndpointTestconfig, hsaved, hreopened, decodeStepParam_eq, hparse, hname, hclass,
                          Bool.true_eq_false, if_false, Option.some.injEq] at hr
                        subst hr
                        cases hsent : a.sent <;> simp [hsent] at hsound
                      · obtain ⟨c, hc, -⟩ := hproper hsaved hreopened root name hparse hname
                        rw [hclass] at hc
                        cases hc
                  | some c =>
                      rw [sound_of_class hsaved hreopened hparse hname hclass]
                      constructor
                      · rintro ⟨hcalm, hsent⟩ - - root' name' hroot hname'
                        rw [hparse, Option.some.injEq] at hroot
                        rw [← hroot, hname, Option.some.injEq] at hname'
                        rw [← hroot, ← hname']
                        exact ⟨c, hclass, hcalm, hsent⟩
                      · intro hproper
                        obtain ⟨c', hc, hrest⟩ := hproper hsaved hreopened root name hparse hname
                        rw [hclass, Option.some.injEq] at hc
                        rw [hc]
                        exact hrest

end Endpoint

/-! ### A document of another name -/

section Examples

def otherJson : Json :=
  .object [("SubDocName", .string (text "Other"))]

def otherText : Bytes :=
  braced (text "\"SubDocName\":\"Other\"")

def clearMemory : Memory 33 256 :=
  ⟨StaSubdoc.clearStep, StaSubdoc.clearStep.common⟩

/-- Ok is reported, and the pointer that was never set is handed over. -/
theorem not_sound_other :
    agentEndpointTestconfig hexMacs clearMemory ⟨true, true, true, true, true⟩ (bytesLib otherJson otherText) otherText =
        some ⟨200, [.unset]⟩ ∧
      ¬ Sound hexMacs clearMemory ⟨true, true, true, true, true⟩ (bytesLib otherJson otherText) otherText := by
  have hparse : (bytesLib otherJson otherText).parse (cStr otherText) = some otherJson := by
    rw [cStr_eq_self (by decide +kernel)]
    exact bytesLib_reads otherJson otherText
  have hname : decodeParamString otherJson "SubDocName" = some (text "Other") := by decide +kernel
  have hclass : stepClass (text "Other") = none := by decide +kernel
  have hrun : agentEndpointTestconfig hexMacs clearMemory ⟨true, true, true, true, true⟩
      (bytesLib otherJson otherText) otherText = some ⟨200, [.unset]⟩ := by
    simp only [agentEndpointTestconfig, decodeStepParam_eq, hparse, hname, hclass, Bool.true_eq_false, if_false, if_true]
  refine ⟨hrun, ?_⟩
  rintro ⟨r, hr, hsound⟩
  rw [hrun, Option.some.injEq] at hr
  subst hr
  simp at hsound

end Examples

end OneWifiTestSuite.AgentTestconfig
