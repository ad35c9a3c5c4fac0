import OneWifiTestSuite.AgentJson
import OneWifiTestSuite.CStrings

/-!
# The subdocument of a step

The gateway sends a step to an external agent as a document, and the agent's `decode_step_param` makes a
step object of it. This is what all steps share: the tables of `wlan_common_utils` and the lookups in them
(`stringEnum_enumString`), the copy of a string into an object of the agent, the capture request, the common
keys and the choice of the class by `SubDocName`.
-/

namespace OneWifiTestSuite.StepSubdoc

open ByteRegion CStrings RebootFile AgentJson

/-! ### Tables -/

section Tables

variable {α : Type} [DecidableEq α] {table : List (α × Bytes)} {e : α} {s : Bytes}

/-- `ENUM_STRING_CONV_LOOKUP`. -/
def enumString (table : List (α × Bytes)) (e : α) : Option Bytes :=
  (table.find? fun entry => entry.1 = e).map Prod.snd

/-- `STRING_ENUM_CONV_LOOKUP`; `none` is its −1. -/
def stringEnum (table : List (α × Bytes)) (s : Bytes) : Option α :=
  (table.find? fun entry => entry.2 = s).map Prod.fst

theorem mem_of_enumString (h : enumString table e = some s) : (e, s) ∈ table := by
  obtain ⟨⟨e', s'⟩, hfind, rfl⟩ := Option.map_eq_some_iff.mp h
  have he : e' = e := by simpa using List.find?_some hfind
  exact he ▸ List.mem_of_find?_eq_some hfind

/-- **Lookups**: a name reads back as the enumerator it was written for. -/
theorem stringEnum_enumString (hnodup : (table.map Prod.snd).Nodup) (h : enumString table e = some s) :
    stringEnum table s = some e := by
  have hmem := mem_of_enumString h
  cases hfind : table.find? fun entry => entry.2 = s with
  | none =>
      have := List.find?_eq_none.mp hfind (e, s) hmem
      simp at this
  | some entry =>
      have hs : entry.2 = s := by simpa using List.find?_some hfind
      have heq := List.inj_on_of_nodup_map hnodup (List.mem_of_find?_eq_some hfind) hmem hs
      rw [stringEnum, hfind, heq]
      rfl

end Tables

/-! ### Strings -/

section Strings

variable {n : ℕ} {s : Bytes}

/-- The string in a `char[n]`. -/
abbrev Text (n : ℕ) := { s : Bytes // 0 ∉ s ∧ s.length < n }

/-- A string that is not empty, in a `char[n]`. -/
abbrev Name (n : ℕ) := { s : Bytes // 0 ∉ s ∧ s.length < n ∧ s ≠ [] }

/-- `copy_string(a, s, sizeof(a) - 1)`. -/
def copyString (a : CharArray n) (s : Bytes) : CharArray n :=
  ⟨s.take (n - 1) ++ List.replicate (n - 1 - s.length) 0 ++ a.1.drop (n - 1), length_padded (Nat.sub_le n 1)⟩

theorem strncpy_copyString (a : CharArray n) (s : Bytes) : strncpy a s (n - 1) = some (copyString a s) :=
  dif_pos (Nat.sub_le n 1)

/-- What is read back: a string of `n - 1` bytes needs the NUL that was there before. -/
theorem cstr_copyString (a : CharArray n) (hs : 0 ∉ s) (hn : 0 < n) : cstr (copyString a s) =
    if s.length < n - 1 ∨ a.1[n - 1]? = some 0 then some (s.take (n - 1)) else none := by
  obtain ⟨a', ha', hcstr⟩ := cstr_strncpy (a := a) (s := s) (k := n - 1) hs (by omega)
  rw [strncpy_copyString] at ha'
  cases ha'
  exact hcstr

theorem cstr_copyString_eq_iff (a : CharArray n) (hs : 0 ∉ s) (hlen : s.length < n) :
    cstr (copyString a s) = some s ↔ s.length < n - 1 ∨ a.1[n - 1]? = some 0 := by
  rw [cstr_copyString a hs (by omega), List.take_of_length_le (by omega)]
  split_ifs with h
  · exact iff_of_true rfl h
  · exact iff_of_false (by simp) h

theorem cstr_copyString_zeros (hs : 0 ∉ s) (hn : 0 < n) : cstr (copyString (zeros n) s) = some (s.take (n - 1)) := by
  have hlast : (zeros n).1[n - 1]? = some 0 := by
    show (List.replicate n 0)[n - 1]? = _
    rw [List.getElem?_replicate, if_pos (by omega)]
  rw [cstr_copyString _ hs hn, if_pos (.inr hlast)]

end Strings

/-! ### Numbers -/

section Numbers

/-- `param->valuedouble`, stored as an `unsigned int`. -/
def valuedouble (n : ℤ) : BitVec 32 :=
  BitVec.ofInt 32 n

theorem valuedouble_toNat (x : BitVec 32) : valuedouble x.toNat = x := by
  rw [valuedouble, BitVec.ofInt_natCast, BitVec.ofNat_toNat, BitVec.setWidth_eq]

end Numbers

/-! ### Frames to capture -/

section Frames

/-- `frame_capture_request_t`. -/
structure FrameRequest where
  msgType : BitVec 32
  frm80211Ops : BitVec 32
  cfg80211Ops : BitVec 32
deriving DecidableEq

/-- The frames of `decode_pcap_frame_type`, in the order of `encode_pcap_frame_type`. -/
inductive Frame
  | beacon
  | prbResp
  | prbReq
  | assocResp
  | assocReq
  | auth
  | deauth
  | disassoc
  | eapol
  | reassocReq
  | reassocResp
  | action
deriving DecidableEq

def frames : List Frame :=
  [.beacon, .prbResp, .prbReq, .assocResp, .assocReq, .auth, .deauth, .disassoc, .eapol, .reassocReq, .reassocResp,
    .action]

def Frame.name : Frame → Bytes
  | .beacon => text "Beacon"
  | .prbResp => text "ProbeResponse"
  | .prbReq => text "ProbeRequest"
  | .assocResp => text "AssociationResponse"
  | .assocReq => text "AssociationRequest"
  | .auth => text "Authentication"
  | .deauth => text "Deauthentication"
  | .disassoc => text "Disassociation"
  | .eapol => text "Eapol"
  | .reassocReq => text "ReassociationRequest"
  | .reassocResp => text "ReassociationResponse"
  | .action => text "Action"

/-- The bits of a frame: `wlan_emu_msg_type_cfg80211` is 2, `wlan_emu_msg_type_frm80211` is 4. -/
def Frame.bits : Frame → FrameRequest
  | .beacon => ⟨1 <<< 2, 0, 1 <<< 4⟩
  | .prbResp => ⟨1 <<< 4, 1 <<< 0, 0⟩
  | .prbReq => ⟨1 <<< 4, 1 <<< 1, 0⟩
  | .assocResp => ⟨1 <<< 4, 1 <<< 2, 0⟩
  | .assocReq => ⟨1 <<< 4, 1 <<< 3, 0⟩
  | .auth => ⟨1 <<< 4, 1 <<< 4, 0⟩
  | .deauth => ⟨1 <<< 4, 1 <<< 5, 0⟩
  | .disassoc => ⟨1 <<< 4, 1 <<< 6, 0⟩
  | .eapol => ⟨1 <<< 4, 1 <<< 7, 0⟩
  | .reassocReq => ⟨1 <<< 4, 1 <<< 8, 0⟩
  | .reassocResp => ⟨1 <<< 4, 1 <<< 9, 0⟩
  | .action => ⟨1 <<< 4, 1 <<< 10, 0⟩

/-- The request asks for the frame. -/
def FrameRequest.has (r : FrameRequest) (f : Frame) : Bool :=
  r.msgType &&& f.bits.msgType ≠ 0 ∧ (r.frm80211Ops &&& f.bits.frm80211Ops ≠ 0 ∨ r.cfg80211Ops &&& f.bits.cfg80211Ops ≠ 0)

def FrameRequest.add (r : FrameRequest) (f : Frame) : FrameRequest :=
  ⟨r.msgType ||| f.bits.msgType, r.frm80211Ops ||| f.bits.frm80211Ops, r.cfg80211Ops ||| f.bits.cfg80211Ops⟩

def noFrames : FrameRequest :=
  ⟨0, 0, 0⟩

/-- `encode_pcap_frame_type`. -/
def encodePcapFrameType (r : FrameRequest) : List Json :=
  (frames.filter r.has).map fun f => .object [("FrameType", .string f.name)]

/-- `decode_pcap_frame_type`. -/
def decodePcapFrameType (s : Bytes) (r : FrameRequest) : Option FrameRequest :=
  (frames.find? fun f => f.name = s).map r.add

/-- The items that `cJSON_ArrayForEach` goes through. -/
def children : Json → List Json
  | .array items => items
  | .object items => items.map Prod.snd
  | _ => []

/-- The loop over `TestCaptureFrame`; `none` is also the crash on an entry without a name. -/
def decodeFrames : List Json → FrameRequest → Option FrameRequest
  | [], r => some r
  | entry :: entries, r =>
      match entry.getObjectItem "FrameType" with
      | some (.string s) => (decodePcapFrameType s r).bind (decodeFrames entries)
      | _ => none

theorem decodePcapFrameType_name (f : Frame) (r : FrameRequest) : decodePcapFrameType f.name r = some (r.add f) := by
  have hfind : frames.find? (fun g => g.name = f.name) = some f := by
    cases f <;> decide +kernel
  rw [decodePcapFrameType, hfind]
  rfl

/-- The frames of a request are added one by one. -/
theorem decodeFrames_map (fs : List Frame) (r : FrameRequest) :
    decodeFrames (fs.map fun f => .object [("FrameType", .string f.name)]) r = some (fs.foldl FrameRequest.add r) := by
  induction fs generalizing r with
  | nil =>
      rfl
  | cons f fs ih =>
      have hitem : (Json.object [("FrameType", .string f.name)]).getObjectItem "FrameType" = some (.string f.name) := by
        simp
      simp only [List.map_cons, decodeFrames, hitem, decodePcapFrameType_name, Option.bind_some, ih, List.foldl_cons]

end Frames

/-! ### What all steps share -/

section Common

/-- The classes of the agent's step objects. -/
inductive StepClass
  | staManagement
  | iperfServer
  | iperfClient
  | ethLanClient

/-- The fields of a step object that `decode_step_param_common` sets. -/
structure Common where
  stepNumber : BitVec 32
  testCaseName : CharArray 128
  testCaseId : CharArray 8
  fork : Bool
  captureFrames : Bool
  frameRequest : FrameRequest

/-- The capture request; without `TestCapture` the flag keeps its value. -/
def decodeCapture (captureFrames : Bool) (root : Json) : Option (Bool × FrameRequest) :=
  match root.getObjectItem "TestCapture" with
  | some (.bool true) =>
      match root.getObjectItem "TestCaptureFrame" with
      | some list => (decodeFrames (children list) noFrames).map fun r => (true, r)
      | none => some (true, noFrames)
  | some (.bool false) => some (false, noFrames)
  | _ => some (captureFrames, noFrames)

/-- `decode_step_param_common`. -/
def decodeStepParamCommon (root : Json) (step : Common) : Option Common := do
  let number ← decodeParamInteger root "StepNumber"
  let name ← decodeParamString root "TestCaseName"
  let id ← decodeParamString root "TestCaseID"
  let fork ← decodeParamBool root "Fork"
  let (captureFrames, frameRequest) ← decodeCapture step.captureFrames root
  some ⟨valueint number, copyString step.testCaseName name, copyString step.testCaseId id, fork, captureFrames,
    frameRequest⟩

def subDocName : StepClass → Bytes
  | .staManagement => text "ExternalStationManagement"
  | .iperfServer => text "ExternalIperfServer"
  | .iperfClient => text "ExternalIperfClient"
  | .ethLanClient => text "EthernetLanClient"

def stepClass (s : Bytes) : Option StepClass :=
  [.staManagement, .iperfServer, .iperfClient, .ethLanClient].find? fun c => subDocName c = s

theorem stepClass_subDocName (c : StepClass) : stepClass (subDocName c) = some c := by
  cases c <;> rfl

/-- `decode_step_param`, with the `decoders` of the classes. Another name is no error: the pointer of the caller
keeps its value, here the object `left`. -/
def decodeStepParam {α : Type} (lib : CJson) (decoders : StepClass → Json → Option α) (left : α) (file : Bytes) :
    Option α := do
  let root ← lib.parse (cStr file)
  let name ← decodeParamString root "SubDocName"
  match stepClass name with
  | some c => decoders c root
  | none => some left

/-- A document with a class's name is left to its decoder. -/
theorem decodeStepParam_print {α : Type} {lib : CJson} {json : Json} (decoders : StepClass → Json → Option α)
    (left : α) (c : StepClass) (hlib : Reads lib json) (hnul : 0 ∉ lib.print json)
    (hname : json.getObjectItem "SubDocName" = some (.string (subDocName c))) :
    decodeStepParam lib decoders left (lib.print json) = decoders c json := by
  have hne : subDocName c ≠ [] := by cases c <;> decide +kernel
  rw [decodeStepParam, cStr_eq_self hnul, hlib, Option.bind_eq_bind, Option.bind_some, decodeParamString_of_item hname,
    if_neg hne, Option.bind_eq_bind, Option.bind_some]
  simp only [stepClass_subDocName]

end Common

end OneWifiTestSuite.StepSubdoc
