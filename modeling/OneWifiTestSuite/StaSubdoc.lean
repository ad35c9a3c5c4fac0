import OneWifiTestSuite.StepSubdoc

/-!
# The subdocument of a station step

`encode_external_sta_management_subdoc` of the gateway against the agent's decoder. Every string must be there
and must not be empty, so an open network without a passphrase is not accepted, and the band and the operating
modes of the radio are not part of the document. `transfers_iff` is the exact condition under which the agent's
step has the gateway's parameters.
-/

namespace OneWifiTestSuite.StaSubdoc

open ByteRegion CStrings RebootFile AgentJson StepSubdoc

/-! ### Enumerations -/

section Enumerations

/-- `sta_model_type_t`. -/
inductive StaModel
  | iphone
  | pixel
  | android
  | ios
  | windows
deriving DecidableEq

/-- `wifi_mfp_cfg_t`; `other` is a value that the tables do not have. -/
inductive Mfp
  | disabled
  | optional
  | required
  | other (value : ℤ)
deriving DecidableEq

/-- `wifi_security_modes_t`. -/
inductive SecurityMode
  | none
  | wep64
  | wep128
  | wpaPersonal
  | wpa2Personal
  | wpaWpa2Personal
  | wpaEnterprise
  | wpa2Enterprise
  | wpaWpa2Enterprise
  | wpa3Personal
  | wpa3Transition
  | wpa3Enterprise
  | enhancedOpen
  | other (value : ℤ)
deriving DecidableEq

/-- `wifi_encryption_method_t`. -/
inductive Encryption
  | none
  | tkip
  | aes
  | aesTkip
  | aesGcmp256
  | gcmp256
  | other (value : ℤ)
deriving DecidableEq

def clientModel : List (StaModel × Bytes) :=
  [(.iphone, text "Iphone"), (.pixel, text "Pixel"), (.android, text "Android"), (.ios, text "iOS"),
    (.windows, text "Windows")]

def mfpConfig : List (Mfp × Bytes) :=
  [(.disabled, text "Disabled"), (.optional, text "Optional"), (.required, text "Required")]

def secuMode : List (SecurityMode × Bytes) :=
  [(.none, text "None"), (.wep64, text "WEP64"), (.wep128, text "WEP128"), (.wpaPersonal, text "WPA-Personal"),
    (.wpa2Personal, text "WPA2-Personal"), (.wpaWpa2Personal, text "WPA-WPA2-Personal"),
    (.wpaEnterprise, text "WPA-Enterprise"), (.wpa2Enterprise, text "WPA2-Enterprise"),
    (.wpaWpa2Enterprise, text "WPA-WPA2-Enterprise"), (.wpa3Personal, text "WPA3-Personal"),
    (.wpa3Transition, text "WPA3-Personal-Transition"), (.wpa3Enterprise, text "WPA3-Enterprise"),
    (.enhancedOpen, text "Enhanced-Open")]

def encryption : List (Encryption × Bytes) :=
  [(.none, text "None"), (.tkip, text "TKIP"), (.aes, text "AES"), (.aesTkip, text "AES+TKIP"),
    (.aesGcmp256, text "AES+GCMP256"), (.gcmp256, text "GCMP256")]

/-- The modes in which `update_sta_config` fills `u.radius`, and not `u.key`. -/
def SecurityMode.usesRadius : SecurityMode → Bool
  | .wpa2Enterprise => true
  | .wpa3Enterprise => true
  | _ => false

theorem clientModel_name (t : StaModel) : ∃ s, enumString clientModel t = some s ∧ s ≠ [] := by
  cases t <;> exact ⟨_, rfl, by decide +kernel⟩

theorem mfpConfig_nodup : (mfpConfig.map Prod.snd).Nodup ∧ ∀ entry ∈ mfpConfig, entry.2 ≠ [] := by
  decide +kernel

theorem secuMode_nodup : (secuMode.map Prod.snd).Nodup ∧ ∀ entry ∈ secuMode, entry.2 ≠ [] := by
  decide +kernel

theorem encryption_nodup : (encryption.map Prod.snd).Nodup ∧ ∀ entry ∈ encryption, entry.2 ≠ [] := by
  decide +kernel

end Enumerations

/-! ### The gateway -/

section Gateway

/-- The RADIUS settings of `u.radius` that `update_sta_config` sets. -/
structure Radius where
  identity : Bytes
  key : Bytes
  eapType : ℤ
  phase2 : ℤ

/-- `wifi_vap_security_t` of a station; the union `u` as `u.key.key` and as `u.radius` reads it. -/
structure Security (keySize : ℕ) where
  mode : SecurityMode
  mfp : Mfp
  encr : Encryption
  wpa3TransitionDisable : Bool
  key : Text keySize
  radius : Radius

/-- A station step for an external client, as `decode_step_sta_management_config` leaves it; `radioIndex` is the
answer of `convert_vap_name_to_radio_array_index`, and the sizes are those of the HAL's character arrays. -/
structure Step (ssidSize keySize : ℕ) where
  stepNumber : BitVec 32
  fork : Bool
  testCaseId : Name 8
  testCaseName : Name 64
  staType : StaModel
  staName : Name 32
  testDuration : BitVec 32
  customMac : Mac
  vapName : Name 32
  radioIndex : BitVec 32
  ssid : Text ssidSize
  bssid : Mac
  security : Security keySize
  captureFrames : Bool
  frameRequest : FrameRequest
  band : BitVec 32
  variant : BitVec 32
  opModes : BitVec 32
  channel : BitVec 32

variable {ssidSize keySize : ℕ} (macs : MacLib)

/-- `cJSON_AddStringToObject`, which adds nothing for a NULL string. -/
def addString (key : String) : Option Bytes → List (String × Json)
  | some s => [(key, .string s)]
  | none => []

def encodeSecurity (sec : Security keySize) : Json :=
  .object (addString "SecurityMode" (enumString secuMode sec.mode) ++
    (addString "MFPConfig" (enumString mfpConfig sec.mfp) ++
    (addString "EncryptionMethod" (enumString encryption sec.encr) ++
    [("Wpa3_transition_disabled", .bool sec.wpa3TransitionDisable), ("Passphrase", .string sec.key.1)])))

def encodeVap (step : Step ssidSize keySize) : Json :=
  .object [("VapName", .string step.vapName.1), ("RadioIndex", .number step.radioIndex.toInt),
    ("SSID", .string step.ssid.1), ("BSSID", .string (macs.print step.bssid)),
    ("Security", encodeSecurity step.security)]

def encodeCapture (step : Step ssidSize keySize) : List (String × Json) :=
  if step.captureFrames then
    [("TestCapture", .bool true), ("TestCaptureFrame", .array (encodePcapFrameType step.frameRequest))]
  else [("TestCapture", .bool false)]

/-- The document of `encode_external_sta_management_subdoc`. -/
def encodeExternalStaManagement (step : Step ssidSize keySize) : Json :=
  .object (("SubDocName", .string (subDocName .staManagement)) ::
    (addString "StationType" (enumString clientModel step.staType) ++
    ("StationName", .string step.staName.1) :: ("StepNumber", .number step.stepNumber.toNat) ::
    ("Fork", .bool step.fork) :: ("StationName", .string step.staName.1) ::
    ("TestCaseID", .string step.testCaseId.1) :: ("TestCaseName", .string step.testCaseName.1) ::
    ("TestDuration", .number step.testDuration.toNat) ::
    ("CustomStationMac", .string (macs.print step.customMac)) :: ("WifiVapConfig", encodeVap macs step) ::
    (encodeCapture step ++ [("RadioOperatingParams", .object [("Channel", .number step.channel.toNat)])])))

end Gateway

/-! ### The agent -/

section Agent

/-- The agent's step object; `none` is the −1 of a name that is in no table. -/
structure AgentStep (ssidSize keySize : ℕ) where
  common : Common
  staType : Option StaModel
  staName : CharArray 32
  testDuration : BitVec 32
  customMac : Mac
  vapName : CharArray 32
  radioIndex : BitVec 32
  ssid : CharArray ssidSize
  bssid : Mac
  mode : Option SecurityMode
  mfp : Option Mfp
  encr : Option Encryption
  wpa3TransitionDisable : Bool
  key : CharArray keySize
  band : BitVec 32
  variant : BitVec 32
  opModes : BitVec 32
  channel : BitVec 32

variable {ssidSize keySize : ℕ} (macs : MacLib)

/-- The constructor clears the VAP and radio records; the rest of the object has what was in its memory. -/
def newStep (memory : AgentStep ssidSize keySize) : AgentStep ssidSize keySize :=
  { memory with
    ssid := zeros ssidSize
    wpa3TransitionDisable := false
    key := zeros keySize
    band := 0
    variant := 0
    channel := 0 }

def decodeSecurity (sec : Json) (step : AgentStep ssidSize keySize) : Option (AgentStep ssidSize keySize) := do
  let mode ← decodeParamString sec "SecurityMode"
  let mfp ← decodeParamString sec "MFPConfig"
  let encr ← decodeParamString sec "EncryptionMethod"
  let disabled ← decodeParamBool sec "Wpa3_transition_disabled"
  let key ← decodeParamString sec "Passphrase"
  some { step with
    mode := stringEnum secuMode mode
    mfp := stringEnum mfpConfig mfp
    encr := stringEnum encryption encr
    wpa3TransitionDisable := disabled
    key := copyString step.key key }

def decodeVap (vap : Json) (step : AgentStep ssidSize keySize) : Option (AgentStep ssidSize keySize) := do
  let vapName ← decodeParamString vap "VapName"
  let radioIndex ← decodeParamInteger vap "RadioIndex"
  let ssid ← decodeParamString vap "SSID"
  let bssid ← decodeParamString vap "BSSID"
  let sec ← decodeParamObject vap "Security"
  decodeSecurity sec { step with
    vapName := copyString step.vapName vapName
    radioIndex := valueint radioIndex
    ssid := copyString step.ssid ssid
    bssid := macs.read bssid }

/-- `wlan_ext_step_decode_subdocument`. -/
def decodeSubdocument (root : Json) (step : AgentStep ssidSize keySize) : Option (AgentStep ssidSize keySize) := do
  let type ← decodeParamString root "StationType"
  let name ← decodeParamString root "StationName"
  let duration ← decodeParamInteger root "TestDuration"
  let custom ← decodeParamString root "CustomStationMac"
  let vap ← decodeParamObject root "WifiVapConfig"
  let step ← decodeVap macs vap { step with
    staType := stringEnum clientModel type
    staName := copyString step.staName name
    testDuration := valuedouble duration
    customMac := macs.read custom }
  let radio ← decodeParamObject root "RadioOperatingParams"
  let channel ← decodeParamInteger radio "Channel"
  some { step with channel := valuedouble channel }

/-- `decode_step_param_ext_sta_management` with a new object. -/
def decodeStepParamExtStaManagement (memory : AgentStep ssidSize keySize) (root : Json) :
    Option (AgentStep ssidSize keySize) := do
  let common ← decodeStepParamCommon root memory.common
  decodeSubdocument macs root { newStep memory with common := common }

/-- The agent: what its memory holds, its other classes and what the caller's pointer points to. -/
structure Agent (ssidSize keySize : ℕ) where
  memory : AgentStep ssidSize keySize
  others : StepClass → Json → Option (AgentStep ssidSize keySize)
  pointer : AgentStep ssidSize keySize

def Agent.decoders (agent : Agent ssidSize keySize) : StepClass → Json → Option (AgentStep ssidSize keySize)
  | .staManagement => decodeStepParamExtStaManagement macs agent.memory
  | c => agent.others c

end Agent

/-! ### The round trip -/

section RoundTrip

variable {ssidSize keySize : ℕ} (macs : MacLib)

/-- The step number, VAP, security and radio parameters are the gateway's. `radiusOf` is what `u.radius` reads in
a cleared union whose `u.key.key` was written. -/
structure Same (radiusOf : CharArray keySize → Radius) (step : Step ssidSize keySize)
    (s : AgentStep ssidSize keySize) : Prop where
  stepNumber : s.common.stepNumber = step.stepNumber
  customMac : s.customMac = step.customMac
  vapName : cstr s.vapName = some step.vapName.1
  radioIndex : s.radioIndex = step.radioIndex
  ssid : cstr s.ssid = some step.ssid.1
  bssid : s.bssid = step.bssid
  mode : s.mode = some step.security.mode
  mfp : s.mfp = some step.security.mfp
  encr : s.encr = some step.security.encr
  wpa3TransitionDisable : s.wpa3TransitionDisable = step.security.wpa3TransitionDisable
  credentials : if step.security.mode.usesRadius then radiusOf s.key = step.security.radius
    else cstr s.key = some step.security.key.1
  band : s.band = step.band
  variant : s.variant = step.variant
  opModes : s.opModes = step.opModes
  channel : s.channel = step.channel

/-- The agent accepts the gateway's document, and its step has the same parameters. -/
def Transfers (lib : CJson) (agent : Agent ssidSize keySize) (radiusOf : CharArray keySize → Radius)
    (step : Step ssidSize keySize) : Prop :=
  ∃ s, decodeStepParam lib (agent.decoders macs) agent.pointer (lib.print (encodeExternalStaManagement macs step)) =
    some s ∧ Same radiusOf step s

/-- The SSID and the passphrase are not empty and the security values have names, the step number is an `int`,
a VAP name of 31 bytes finds a NUL behind it, and the parameters that are not sent are what the agent's new
object has. -/
structure Transferable (agent : Agent ssidSize keySize) (radiusOf : CharArray keySize → Radius)
    (step : Step ssidSize keySize) : Prop where
  ssid : step.ssid.1 ≠ []
  passphrase : step.security.key.1 ≠ []
  mode : (enumString secuMode step.security.mode).isSome
  mfp : (enumString mfpConfig step.security.mfp).isSome
  encr : (enumString encryption step.security.encr).isSome
  stepNumber : step.stepNumber.toNat < 2 ^ 31
  vapName : step.vapName.1.length < 31 ∨ agent.memory.vapName.1[31]? = some 0
  radius : step.security.mode.usesRadius = true →
    radiusOf (copyString (zeros keySize) step.security.key.1) = step.security.radius
  band : step.band = 0
  variant : step.variant = 0
  opModes : step.opModes = agent.memory.opModes

theorem item_addString_of_ne {key key' : String} (h : sameKey key' key = false) (o : Option Bytes)
    (rest : List (String × Json)) :
    (Json.object (addString key' o ++ rest)).getObjectItem key = (Json.object rest).getObjectItem key := by
  cases o with
  | none =>
      rfl
  | some s =>
      rw [addString, List.cons_append, List.nil_append, Json.getObjectItem_cons, h, if_neg Bool.false_ne_true]

theorem item_addString_self (key : String) (s : Bytes) (rest : List (String × Json)) :
    (Json.object (addString key (some s) ++ rest)).getObjectItem key = some (.string s) := by
  rw [addString, List.cons_append, List.nil_append, Json.getObjectItem_cons, if_pos (by simp)]

/-- The three names of the security object; a missing one is not found. -/
theorem securityNames (sec : Security keySize) :
    decodeParamString (encodeSecurity sec) "SecurityMode" = enumString secuMode sec.mode ∧
      decodeParamString (encodeSecurity sec) "MFPConfig" = enumString mfpConfig sec.mfp ∧
      decodeParamString (encodeSecurity sec) "EncryptionMethod" = enumString encryption sec.encr := by
  unfold encodeSecurity
  refine ⟨?_, ?_, ?_⟩
  · cases h : enumString secuMode sec.mode with
    | none =>
        unfold decodeParamString
        rw [addString, List.nil_append, item_addString_of_ne (by decide), item_addString_of_ne (by decide)]
        simp
    | some name =>
        rw [decodeParamString_of_item (item_addString_self ..), if_neg (secuMode_nodup.2 _ (mem_of_enumString h))]
  · cases h : enumString mfpConfig sec.mfp with
    | none =>
        unfold decodeParamString
        rw [item_addString_of_ne (by decide), addString, List.nil_append, item_addString_of_ne (by decide)]
        simp
    | some name =>
        rw [decodeParamString_of_item ((item_addString_of_ne (by decide) ..).trans (item_addString_self ..)),
          if_neg (mfpConfig_nodup.2 _ (mem_of_enumString h))]
  · cases h : enumString encryption sec.encr with
    | none =>
        unfold decodeParamString
        rw [item_addString_of_ne (by decide), item_addString_of_ne (by decide), addString, List.nil_append]
        simp
    | some name =>
        rw [decodeParamString_of_item ((item_addString_of_ne (by decide) ..).trans
          ((item_addString_of_ne (by decide) ..).trans (item_addString_self ..))),
          if_neg (encryption_nodup.2 _ (mem_of_enumString h))]

theorem security_flag (sec : Security keySize) :
    decodeParamBool (encodeSecurity sec) "Wpa3_transition_disabled" = some sec.wpa3TransitionDisable ∧
      decodeParamString (encodeSecurity sec) "Passphrase" = if sec.key.1 = [] then none else some sec.key.1 := by
  constructor
  · refine decodeParamBool_of_item ?_
    unfold encodeSecurity
    rw [item_addString_of_ne (by decide), item_addString_of_ne (by decide), item_addString_of_ne (by decide)]
    simp
  · refine decodeParamString_of_item ?_
    unfold encodeSecurity
    rw [item_addString_of_ne (by decide), item_addString_of_ne (by decide), item_addString_of_ne (by decide)]
    simp

/-- The agent reads the security object. -/
def Security.Readable (sec : Security keySize) : Prop :=
  sec.key.1 ≠ [] ∧ (enumString secuMode sec.mode).isSome ∧ (enumString mfpConfig sec.mfp).isSome ∧
    (enumString encryption sec.encr).isSome

instance (sec : Security keySize) : Decidable sec.Readable :=
  inferInstanceAs (Decidable (_ ∧ _))

/-- The agent's step with the security parameters. -/
def AgentStep.secure (s : AgentStep ssidSize keySize) (sec : Security keySize) : AgentStep ssidSize keySize :=
  { s with
    mode := some sec.mode
    mfp := some sec.mfp
    encr := some sec.encr
    wpa3TransitionDisable := sec.wpa3TransitionDisable
    key := copyString s.key sec.key.1 }

/-- **The security object**: a readable one gives the gateway's parameters, and any other is refused. -/
theorem decodeSecurity_encodeSecurity (sec : Security keySize) (s : AgentStep ssidSize keySize) :
    decodeSecurity (encodeSecurity sec) s = if sec.Readable then some (s.secure sec) else none := by
  obtain ⟨hmode, hmfp, hencr⟩ := securityNames sec
  obtain ⟨hflag, hkey⟩ := security_flag sec
  unfold decodeSecurity
  simp only [hmode, hmfp, hencr, hflag, hkey, Option.bind_eq_bind, Option.bind_some]
  by_cases h : sec.Readable
  · rw [if_pos h]
    obtain ⟨hne, hm, hf, he⟩ := h
    obtain ⟨mode, hm⟩ := Option.isSome_iff_exists.mp hm
    obtain ⟨mfp, hf⟩ := Option.isSome_iff_exists.mp hf
    obtain ⟨encr, he⟩ := Option.isSome_iff_exists.mp he
    rw [hm, hf, he, if_neg hne]
    simp only [Option.bind_some, stringEnum_enumString secuMode_nodup.1 hm,
      stringEnum_enumString mfpConfig_nodup.1 hf, stringEnum_enumString encryption_nodup.1 he]
    rfl
  · rw [if_neg h]
    by_contra hsome
    -- each name and the passphrase are read on the way to a result
    obtain ⟨s', hs'⟩ := Option.ne_none_iff_exists'.mp hsome
    obtain ⟨mode, hm, hs'⟩ := Option.bind_eq_some_iff.mp hs'
    obtain ⟨mfp, hf, hs'⟩ := Option.bind_eq_some_iff.mp hs'
    obtain ⟨encr, he, hs'⟩ := Option.bind_eq_some_iff.mp hs'
    obtain ⟨key, hk, -⟩ := Option.bind_eq_some_iff.mp hs'
    have hne : sec.key.1 ≠ [] := fun hnil => by simp [hnil] at hk
    exact h ⟨hne, by rw [hm]; rfl, by rw [hf]; rfl, by rw [he]; rfl⟩

variable {macs : MacLib}

/-- The agent's step with the VAP parameters. -/
def AgentStep.withVap (s : AgentStep ssidSize keySize) (step : Step ssidSize keySize) :
    AgentStep ssidSize keySize :=
  { s with
    vapName := copyString s.vapName step.vapName.1
    radioIndex := step.radioIndex
    ssid := copyString s.ssid step.ssid.1
    bssid := step.bssid }

theorem decodeVap_encodeVap (hmacs : macs.Lawful) (step : Step ssidSize keySize) (s : AgentStep ssidSize keySize) :
    decodeVap macs (encodeVap macs step) s =
      if step.ssid.1 ≠ [] ∧ step.security.Readable then some ((s.withVap step).secure step.security) else none := by
  have hname : decodeParamString (encodeVap macs step) "VapName" = some step.vapName.1 := by
    rw [decodeParamString_of_item (s := step.vapName.1) (by simp [encodeVap]), if_neg step.vapName.2.2.2]
  have hindex : decodeParamInteger (encodeVap macs step) "RadioIndex" = some step.radioIndex.toInt :=
    decodeParamInteger_of_item (by simp [encodeVap])
  have hssid : decodeParamString (encodeVap macs step) "SSID" =
      if step.ssid.1 = [] then none else some step.ssid.1 := decodeParamString_of_item (by simp [encodeVap])
  have hbssid : decodeParamString (encodeVap macs step) "BSSID" = some (macs.print step.bssid) := by
    rw [decodeParamString_of_item (s := macs.print step.bssid) (by simp [encodeVap]), if_neg (hmacs.ne_nil _)]
  have hsec : decodeParamObject (encodeVap macs step) "Security" = some (encodeSecurity step.security) := by
    simp [decodeParamObject, encodeVap, encodeSecurity]
  unfold decodeVap
  simp only [hname, hindex, hssid, hbssid, hsec, Option.bind_eq_bind, Option.bind_some, valueint_toInt,
    hmacs.read_print]
  by_cases hnil : step.ssid.1 = []
  · rw [if_pos hnil, if_neg fun h => h.1 hnil]
    rfl
  · rw [if_neg hnil, Option.bind_some, decodeSecurity_encodeSecurity]
    by_cases hread : step.security.Readable
    · rw [if_pos hread, if_pos ⟨hnil, hread⟩]
      rfl
    · rw [if_neg hread, if_neg fun h => hread h.2]

/-- The agent's step as decoding leaves it. -/
def received (memory : AgentStep ssidSize keySize) (step : Step ssidSize keySize) : AgentStep ssidSize keySize :=
  { (({ newStep memory with
        common := ⟨valueint step.stepNumber.toNat, copyString memory.common.testCaseName step.testCaseName.1,
          copyString memory.common.testCaseId step.testCaseId.1, step.fork, step.captureFrames,
          if step.captureFrames then (frames.filter step.frameRequest.has).foldl FrameRequest.add noFrames
          else noFrames⟩
        staType := some step.staType
        staName := copyString memory.staName step.staName.1
        testDuration := step.testDuration
        customMac := step.customMac } : AgentStep ssidSize keySize).withVap step).secure step.security with
    channel := step.channel }

theorem clientModel_nodup : (clientModel.map Prod.snd).Nodup := by
  decide +kernel

/-- The lookups of `decode_step_param_common` in the gateway's document. -/
theorem decodeCommon_encode (step : Step ssidSize keySize) (c : Common) :
    decodeStepParamCommon (encodeExternalStaManagement macs step) c =
      some ⟨valueint step.stepNumber.toNat, copyString c.testCaseName step.testCaseName.1,
        copyString c.testCaseId step.testCaseId.1, step.fork, step.captureFrames,
        if step.captureFrames then (frames.filter step.frameRequest.has).foldl FrameRequest.add noFrames
        else noFrames⟩ := by
  obtain ⟨type, htype, -⟩ := clientModel_name step.staType
  have hnumber : decodeParamInteger (encodeExternalStaManagement macs step) "StepNumber" =
      some (step.stepNumber.toNat : ℤ) := decodeParamInteger_of_item (by rw [encodeExternalStaManagement, htype]; simp [addString])
  have hname : decodeParamString (encodeExternalStaManagement macs step) "TestCaseName" =
      some step.testCaseName.1 := by
    rw [decodeParamString_of_item (s := step.testCaseName.1)
      (by rw [encodeExternalStaManagement, htype]; simp [addString]), if_neg step.testCaseName.2.2.2]
  have hid : decodeParamString (encodeExternalStaManagement macs step) "TestCaseID" = some step.testCaseId.1 := by
    rw [decodeParamString_of_item (s := step.testCaseId.1)
      (by rw [encodeExternalStaManagement, htype]; simp [addString]), if_neg step.testCaseId.2.2.2]
  have hfork : decodeParamBool (encodeExternalStaManagement macs step) "Fork" = some step.fork :=
    decodeParamBool_of_item (by rw [encodeExternalStaManagement, htype]; simp [addString])
  have hcapture : decodeCapture c.captureFrames (encodeExternalStaManagement macs step) =
      some (step.captureFrames, if step.captureFrames then
        (frames.filter step.frameRequest.has).foldl FrameRequest.add noFrames else noFrames) := by
    unfold decodeCapture encodeExternalStaManagement encodeCapture
    rw [htype]
    cases step.captureFrames with
    | false =>
        simp [addString]
    | true =>
        simp [addString, children, encodePcapFrameType, decodeFrames_map]
  unfold decodeStepParamCommon
  simp only [hnumber, hname, hid, hfork, hcapture, Option.bind_eq_bind, Option.bind_some]

/-- **Decoding**: a document with an SSID, a passphrase and known security values is accepted, and no other. -/
theorem decode_encode (hmacs : macs.Lawful) (memory : AgentStep ssidSize keySize) (step : Step ssidSize keySize) :
    decodeStepParamExtStaManagement macs memory (encodeExternalStaManagement macs step) =
      if step.ssid.1 ≠ [] ∧ step.security.Readable then some (received memory step) else none := by
  obtain ⟨type, htype, hne⟩ := clientModel_name step.staType
  have hstation : decodeParamString (encodeExternalStaManagement macs step) "StationType" = some type := by
    rw [decodeParamString_of_item (s := type) (by rw [encodeExternalStaManagement, htype]; simp [addString]), if_neg hne]
  have hname : decodeParamString (encodeExternalStaManagement macs step) "StationName" = some step.staName.1 := by
    rw [decodeParamString_of_item (s := step.staName.1)
      (by rw [encodeExternalStaManagement, htype]; simp [addString]), if_neg step.staName.2.2.2]
  have hduration : decodeParamInteger (encodeExternalStaManagement macs step) "TestDuration" =
      some (step.testDuration.toNat : ℤ) :=
    decodeParamInteger_of_item (by rw [encodeExternalStaManagement, htype]; simp [addString])
  have hcustom : decodeParamString (encodeExternalStaManagement macs step) "CustomStationMac" =
      some (macs.print step.customMac) := by
    rw [decodeParamString_of_item (s := macs.print step.customMac)
      (by rw [encodeExternalStaManagement, htype]; simp [addString]), if_neg (hmacs.ne_nil _)]
  have hvap : decodeParamObject (encodeExternalStaManagement macs step) "WifiVapConfig" =
      some (encodeVap macs step) := by
    rw [encodeExternalStaManagement, htype]
    simp [decodeParamObject, addString, encodeVap]
  have hradio : decodeParamObject (encodeExternalStaManagement macs step) "RadioOperatingParams" =
      some (.object [("Channel", .number step.channel.toNat)]) := by
    rw [encodeExternalStaManagement, htype, encodeCapture]
    cases step.captureFrames <;> simp [decodeParamObject, addString]
  unfold decodeStepParamExtStaManagement decodeSubdocument
  simp only [decodeCommon_encode, hstation, hname, hduration, hcustom, hvap, decodeVap_encodeVap hmacs,
    Option.bind_eq_bind, Option.bind_some, stringEnum_enumString clientModel_nodup htype, valuedouble_toNat,
    hmacs.read_print]
  by_cases h : step.ssid.1 ≠ [] ∧ step.security.Readable
  · rw [if_pos h, if_pos h, Option.bind_some, hradio, Option.bind_some,
      decodeParamInteger_of_item (n := step.channel.toNat) (by simp), Option.bind_some, valuedouble_toNat]
    rfl
  · rw [if_neg h, if_neg h]
    rfl

/-- A text that its field can hold is copied as it is into a cleared array. -/
theorem cstr_zeros_text {n : ℕ} (s : Text n) : cstr (copyString (zeros n) s.1) = some s.1 := by
  obtain ⟨s, hs, hlen⟩ := s
  rw [cstr_copyString_zeros hs (by omega), List.take_of_length_le (by omega)]

/-- Which of the parameters can differ. -/
theorem same_received_iff (radiusOf : CharArray keySize → Radius) (memory : AgentStep ssidSize keySize)
    (step : Step ssidSize keySize) : Same radiusOf step (received memory step) ↔
      step.stepNumber.toNat < 2 ^ 31 ∧ (step.vapName.1.length < 31 ∨ memory.vapName.1[31]? = some 0) ∧
        (step.security.mode.usesRadius = true →
          radiusOf (copyString (zeros keySize) step.security.key.1) = step.security.radius) ∧
        step.band = 0 ∧ step.variant = 0 ∧ step.opModes = memory.opModes := by
  have hvap := cstr_copyString_eq_iff memory.vapName step.vapName.2.1 step.vapName.2.2.1
  constructor
  · intro h
    refine ⟨(valueint_eq_iff _).mp h.stepNumber, hvap.mp h.vapName, fun hr => ?_, h.band.symm, h.variant.symm,
      h.opModes.symm⟩
    have := h.credentials
    rwa [if_pos hr] at this
  · rintro ⟨hnumber, hname, hradius, hband, hvariant, hmodes⟩
    refine ⟨(valueint_eq_iff _).mpr hnumber, rfl, hvap.mpr hname, rfl, cstr_zeros_text step.ssid, rfl, rfl, rfl, rfl,
      rfl, ?_, hband.symm, hvariant.symm, hmodes.symm, rfl⟩
    split_ifs with hr
    · exact hradius hr
    · exact cstr_zeros_text step.security.key

/-- What the agent makes of the gateway's document. -/
theorem decodeStepParam_encode {lib : CJson} (agent : Agent ssidSize keySize) {step : Step ssidSize keySize}
    (hmacs : macs.Lawful) (hlib : Reads lib (encodeExternalStaManagement macs step))
    (hnul : 0 ∉ lib.print (encodeExternalStaManagement macs step)) :
    decodeStepParam lib (agent.decoders macs) agent.pointer (lib.print (encodeExternalStaManagement macs step)) =
      if step.ssid.1 ≠ [] ∧ step.security.Readable then some (received agent.memory step) else none :=
  (decodeStepParam_print (agent.decoders macs) agent.pointer .staManagement hlib hnul rfl).trans
    (decode_encode hmacs agent.memory step)

/-- **Station subdocuments**: the agent's step has the parameters of the gateway's step exactly when no string of
the document is empty or unknown, the step number and the VAP name fit, and the radio is as the agent's cleared
record says. -/
theorem transfers_iff {lib : CJson} {agent : Agent ssidSize keySize} {radiusOf : CharArray keySize → Radius}
    {step : Step ssidSize keySize} (hmacs : macs.Lawful) (hlib : Reads lib (encodeExternalStaManagement macs step))
    (hnul : 0 ∉ lib.print (encodeExternalStaManagement macs step)) :
    Transfers macs lib agent radiusOf step ↔ Transferable agent radiusOf step := by
  have hdecode := decodeStepParam_encode agent hmacs hlib hnul
  constructor
  · rintro ⟨s, hs, hsame⟩
    rw [hdecode] at hs
    split_ifs at hs with hread
    cases hs
    obtain ⟨hnumber, hname, hradius, hband, hvariant, hmodes⟩ := (same_received_iff ..).mp hsame
    obtain ⟨hssid, hkey, hmode, hmfp, hencr⟩ := hread
    exact ⟨hssid, hkey, hmode, hmfp, hencr, hnumber, hname, hradius, hband, hvariant, hmodes⟩
  · intro h
    refine ⟨received agent.memory step, ?_, (same_received_iff ..).mpr
      ⟨h.stepNumber, h.vapName, h.radius, h.band, h.variant, h.opModes⟩⟩
    rw [hdecode, if_pos ⟨h.ssid, h.passphrase, h.mode, h.mfp, h.encr⟩]

end RoundTrip

/-! ### Two stations -/

section Examples

/-- A station step with the passphrase and the security of its network. -/
def lanStep (mode : SecurityMode) (encr : Encryption) (key : Text 256) : Step 33 256 where
  stepNumber := 2
  fork := false
  testCaseId := ⟨text "TC1", by decide⟩
  testCaseName := ⟨text "NC1-Private", by decide⟩
  staType := .iphone
  staName := ⟨text "sta1", by decide⟩
  testDuration := 60
  customMac := macOf 2 0 0 0 0 1
  vapName := ⟨text "private_ssid_2g", by decide⟩
  radioIndex := 0
  ssid := ⟨text "home", by decide⟩
  bssid := macOf 2 0 0 0 0 9
  security := ⟨mode, .disabled, encr, false, key, ⟨[], [], 0, 0⟩⟩
  captureFrames := false
  frameRequest := noFrames
  band := 0
  variant := 0
  opModes := 0
  channel := 6

def lanStepHead : Bytes :=
  lbrace ++ text "\n\t\"SubDocName\":\t\"ExternalStationManagement\",\n\t\"StationType\":\t\"Iphone\",\n" ++
  text "\t\"StationName\":\t\"sta1\",\n\t\"StepNumber\":\t2,\n\t\"Fork\":\tfalse,\n" ++
  text "\t\"StationName\":\t\"sta1\",\n\t\"TestCaseID\":\t\"TC1\",\n" ++
  text "\t\"TestCaseName\":\t\"NC1-Private\",\n\t\"TestDuration\":\t60,\n" ++
  text "\t\"CustomStationMac\":\t\"02:00:00:00:00:01\",\n\t\"WifiVapConfig\":\t" ++
  lbrace ++ text "\n\t\t\"VapName\":\t\"private_ssid_2g\",\n\t\t\"RadioIndex\":\t0,\n\t\t\"SSID\":\t\"home\",\n" ++
  text "\t\t\"BSSID\":\t\"02:00:00:00:00:09\",\n\t\t\"Security\":\t" ++ lbrace ++ text "\n"

def lanStepTail : Bytes :=
  text "\"\n\t\t" ++ rbrace ++ text "\n\t" ++ rbrace ++ text ",\n\t\"TestCapture\":\tfalse,\n" ++
  text "\t\"RadioOperatingParams\":\t" ++ braced (text "\n\t\t\"Channel\":\t6\n\t") ++ text "\n" ++ rbrace

def lanSecurityText (mode encr key : Bytes) : Bytes :=
  text "\t\t\t\"SecurityMode\":\t\"" ++ mode ++ text "\",\n\t\t\t\"MFPConfig\":\t\"Disabled\",\n" ++
  text "\t\t\t\"EncryptionMethod\":\t\"" ++ encr ++
  text "\",\n\t\t\t\"Wpa3_transition_disabled\":\tfalse,\n\t\t\t\"Passphrase\":\t\"" ++ key

/-- What the library prints for a `lanStep`. -/
def lanStepText (mode encr key : Bytes) : Bytes :=
  lanStepHead ++ lanSecurityText mode encr key ++ lanStepTail

theorem lanStep_no_nul : 0 ∉ lanStepHead ∧ 0 ∉ lanStepTail ∧ 0 ∉ lanSecurityText [] [] [] := by
  simp only [lanStepHead, lanStepTail, lanSecurityText, braced, List.mem_append, List.not_mem_nil, or_false, not_or]
  repeat' apply And.intro
  all_goals exact notMem_text rfl

theorem lanStepText_no_nul {mode encr key : Bytes} (hmode : 0 ∉ mode) (hencr : 0 ∉ encr) (hkey : 0 ∉ key) :
    0 ∉ lanStepText mode encr key := by
  obtain ⟨hhead, htail, hsec⟩ := lanStep_no_nul
  unfold lanStepText
  simp only [lanSecurityText, List.mem_append, List.not_mem_nil, or_false, not_or] at hsec ⊢
  obtain ⟨⟨⟨h₁, h₂⟩, h₃⟩, h₄⟩ := hsec
  exact ⟨⟨hhead, ⟨⟨⟨⟨⟨h₁, hmode⟩, h₂⟩, h₃⟩, hencr⟩, h₄⟩, hkey⟩, htail⟩

def personal : Step 33 256 :=
  lanStep .wpa2Personal .aes ⟨text "passphrase", by decide +kernel⟩

def openNetwork : Step 33 256 :=
  lanStep .none .none ⟨[], by decide⟩

def personalLib : CJson :=
  bytesLib (encodeExternalStaManagement hexMacs personal)
    (lanStepText (text "WPA2-Personal") (text "AES") (text "passphrase"))

def openLib : CJson :=
  bytesLib (encodeExternalStaManagement hexMacs openNetwork) (lanStepText (text "None") (text "None") [])

/-- An object in cleared memory. -/
def clearStep : AgentStep 33 256 where
  common := ⟨0, zeros 128, zeros 8, false, false, noFrames⟩
  staType := none
  staName := zeros 32
  testDuration := 0
  customMac := #v[0, 0, 0, 0, 0, 0]
  vapName := zeros 32
  radioIndex := 0
  ssid := zeros 33
  bssid := #v[0, 0, 0, 0, 0, 0]
  mode := none
  mfp := none
  encr := none
  wpa3TransitionDisable := false
  key := zeros 256
  band := 0
  variant := 0
  opModes := 0
  channel := 0

def lanAgent : Agent 33 256 :=
  ⟨clearStep, fun _ _ => none, clearStep⟩

def noRadius (_ : CharArray 256) : Radius :=
  ⟨[], [], 0, 0⟩

theorem personalLib_no_nul : 0 ∉ personalLib.print (encodeExternalStaManagement hexMacs personal) :=
  lanStepText_no_nul (by decide +kernel) (by decide +kernel) (by decide +kernel)

theorem openLib_no_nul : 0 ∉ openLib.print (encodeExternalStaManagement hexMacs openNetwork) :=
  lanStepText_no_nul (by decide +kernel) (by decide +kernel) (by decide)

theorem transfers_personal : Transfers hexMacs personalLib lanAgent noRadius personal :=
  (transfers_iff hexMacs_lawful (bytesLib_reads _ _) personalLib_no_nul).mpr
    ⟨by decide +kernel, by decide +kernel, by decide +kernel, by decide +kernel, by decide +kernel, by decide,
      .inl (by decide +kernel), fun _ => rfl, rfl, rfl, rfl⟩

/-- An open network has no passphrase, and the agent refuses its document. -/
theorem not_transfers_openNetwork : Reads openLib (encodeExternalStaManagement hexMacs openNetwork) ∧
    decodeStepParam openLib (lanAgent.decoders hexMacs) lanAgent.pointer
      (openLib.print (encodeExternalStaManagement hexMacs openNetwork)) = none ∧
    ¬ Transfers hexMacs openLib lanAgent noRadius openNetwork := by
  have hnone := decodeStepParam_encode lanAgent hexMacs_lawful (bytesLib_reads _ _) openLib_no_nul
  rw [if_neg fun h => h.2.1 rfl] at hnone
  refine ⟨bytesLib_reads _ _, hnone, ?_⟩
  rintro ⟨s, hs, -⟩
  have := hnone.symm.trans hs
  cases this

end Examples

end OneWifiTestSuite.StaSubdoc
