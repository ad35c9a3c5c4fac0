import OneWifiTestSuite.StepSubdoc

/-!
# Updating the security of an access point

`update_vap_security_object` changes a security value key by key, checks the parts as it goes, and returns at the
first check that fails. The types and sizes of the value are those of the HAL, so where the members of its union
lie is a parameter. `meets_iff_whole` says for which documents and stored values an update is all or nothing and
leaves a consistent value: the check for 6 GHz and the key type are bound to a mode that is given, and nothing that
was written before a failed check is taken back. A key that was never given is what an earlier mode has left in the
union, so a stored value comes with what its union was last used for.
-/

namespace OneWifiTestSuite.SecurityObject

open ByteRegion CStrings RebootFile AgentJson StepSubdoc

/-! ### The value -/

section Values

/-- `wifi_security_modes_t`; the function does not name the other modes. -/
inductive Mode
  | none
  | enhancedOpen
  | wpaPersonal
  | wpa2Personal
  | wpaWpa2Personal
  | wpa3Personal
  | wpa3Transition
  | wpaEnterprise
  | wpa2Enterprise
  | wpaWpa2Enterprise
  | wpa3Enterprise
  | other (n : ℕ)
deriving DecidableEq, Repr

/-- `wifi_encryption_method_t`. -/
inductive Encryption
  | tkip
  | aes
  | aesTkip
  | other (n : ℕ)
deriving DecidableEq, Repr

/-- `wifi_mfp_cfg_t`. -/
inductive Mfp
  | disabled
  | optional
  | required
deriving DecidableEq, Repr

/-- The modes that are allowed on 6 GHz, and that need MFP and AES. -/
def Mode.strong : Mode → Bool
  | .enhancedOpen | .wpa3Personal | .wpa3Enterprise => true
  | _ => false

def Mode.enterprise : Mode → Bool
  | .wpaEnterprise | .wpa2Enterprise | .wpaWpa2Enterprise | .wpa3Enterprise => true
  | _ => false

/-- The modes whose RADIUS settings are read. -/
def Mode.radius : Mode → Bool
  | .wpa2Enterprise | .wpa3Enterprise => true
  | _ => false

/-- The personal modes whose key is no SAE key. -/
def Mode.psk : Mode → Bool
  | .wpaPersonal | .wpa2Personal | .wpaWpa2Personal => true
  | _ => false

def Mode.personal (m : Mode) : Bool :=
  m.psk || m = .wpa3Personal || m = .wpa3Transition

/-- Where the members of the union lie, the enumerators that are written there, which key types are those of a WPA
or WPA2 personal mode, and the bounds of a passphrase. The type of a key lies before the key. -/
structure Layout where
  keyType : ℕ
  key : ℕ
  keySize : ℕ
  identity : ℕ
  identitySize : ℕ
  radiusKey : ℕ
  radiusKeySize : ℕ
  phase2 : ℕ
  eapType : ℕ
  keyIdSize : ℕ
  sae : Bytes
  pskSae : Bytes
  pap : Bytes
  ttls : Bytes
  tls : Bytes
  IsPsk : Bytes → Prop
  minPwdLen : ℕ
  maxPwdLen : ℕ
  typeBeforeKey : keyType + 4 ≤ key
  length_sae : sae.length = 4
  length_pskSae : pskSae.length = 4

/-- The settings of the timers. -/
structure Timers where
  rekeyInterval : BitVec 32
  strictRekey : Bool
  eapolKeyTimeout : BitVec 32
  eapolKeyRetries : BitVec 32
  eapIdentityReqTimeout : BitVec 32
  eapIdentityReqRetries : BitVec 32
  eapReqTimeout : BitVec 32
  eapReqRetries : BitVec 32
  disablePmksaCaching : Bool
deriving DecidableEq

/-- `wifi_vap_security_t`, whose union `u` holds a key or RADIUS settings. -/
structure Security where
  mode : Mode
  encr : Encryption
  mfp : Mfp
  wpa3TransitionDisable : Bool
  timers : Timers
  keyId : Region
  u : Region

/-- `webconfig_error_t`. -/
inductive WebconfigError
  | none
  | decode
  | encode
deriving DecidableEq, Repr

end Values

/-! ### The document -/

section Document

/-- The names of the modes. -/
def modeNames : List (String × Mode) :=
  [("None", .none), ("Enhanced-Open", .enhancedOpen), ("WPA-Personal", .wpaPersonal), ("WPA2-Personal", .wpa2Personal),
    ("WPA-WPA2-Personal", .wpaWpa2Personal), ("WPA3-Personal", .wpa3Personal),
    ("WPA3-Personal-Transition", .wpa3Transition), ("WPA-Enterprise", .wpaEnterprise),
    ("WPA2-Enterprise", .wpa2Enterprise), ("WPA-WPA2-Enterprise", .wpaWpa2Enterprise),
    ("WPA3-Enterprise", .wpa3Enterprise)]

def modeOf (s : Bytes) : Option Mode :=
  (modeNames.find? fun entry => text entry.1 = s).map Prod.snd

def mfpOf (s : Bytes) : Option Mfp :=
  if (strstr (text "Disabled") s).isSome then some .disabled
  else if (strstr (text "Required") s).isSome then some .required
  else if (strstr (text "Optional") s).isSome then some .optional
  else none

def encrOf (s : Bytes) : Option Encryption :=
  if s = text "TKIP" then some .tkip
  else if s = text "AES" then some .aes
  else if s = text "AES+TKIP" then some .aesTkip
  else none

/-- What a document gives for a key, and whether it is a name. -/
def requestedMode (doc : Json) : Option (Option Mode) :=
  (decodeParamString doc "Mode").map modeOf

def requestedMfp (doc : Json) : Option (Option Mfp) :=
  (decodeParamString doc "MFPConfig").map mfpOf

def requestedEncr (doc : Json) : Option (Option Encryption) :=
  (decodeParamString doc "EncryptionMethod").map encrOf

/-- What a document asks for, or what is there. -/
def newMode (doc : Json) (s : Security) : Mode :=
  ((requestedMode doc).bind id).getD s.mode

def newMfp (doc : Json) (s : Security) : Mfp :=
  ((requestedMfp doc).bind id).getD s.mfp

def newEncr (doc : Json) (s : Security) : Encryption :=
  ((requestedEncr doc).bind id).getD s.encr

/-- The passphrase is given and has a length that its mode does not allow. -/
def badPassphrase (L : Layout) (doc : Json) (mode : Mode) : Bool :=
  match decodeParamString doc "Passphrase" with
  | none => false
  | some p => mode ≠ .none ∧ (p.length < L.minPwdLen ∨ L.maxPwdLen < p.length)

end Document

/-! ### The update -/

section Update

/-- The bytes that `strncpy` writes for a size. -/
def padded (n : ℕ) (s : Bytes) : Bytes :=
  s.take n ++ List.replicate (n - s.length) 0

/-- A string of the document is copied to a place. -/
def copyParam (doc : Json) (key : String) (off n : ℕ) (m : Region) : Region :=
  match decodeParamString doc key with
  | none => m
  | some s => store m off (padded n s)

def applyMode (L : Layout) (doc : Json) (s : Security) : Security :=
  match (requestedMode doc).bind id with
  | none => s
  | some .wpa3Personal => { s with mode := .wpa3Personal, u := store s.u L.keyType L.sae }
  | some .wpa3Transition => { s with mode := .wpa3Transition, u := store s.u L.keyType L.pskSae }
  | some m => { s with mode := m }

def applyMfp (doc : Json) (s : Security) : Security :=
  { s with mfp := newMfp doc s }

def applyEncr (doc : Json) (s : Security) : Security :=
  { s with encr := newEncr doc s }

/-- `phase2`, which is always PAP, and `eap_type`. -/
def copyPhase2 (L : Layout) (doc : Json) (m : Region) : Region :=
  match decodeParamString doc "RadiusPhase2" with
  | none => m
  | some _ => store m L.phase2 L.pap

def copyEapType (L : Layout) (doc : Json) (m : Region) : Region :=
  match decodeParamString doc "RadiusEAPMethod" with
  | none => m
  | some s =>
      if (strstr (text "TTLS") s).isSome then store m L.eapType L.ttls
      else if (strstr (text "TLS") s).isSome then store m L.eapType L.tls
      else store m L.eapType L.ttls

def applyRadius (L : Layout) (doc : Json) (s : Security) : Security :=
  if s.mode.radius then
    let u := copyParam doc "RadiusIdentity" L.identity (L.identitySize - 1) s.u
    let u := copyParam doc "RadiusPassword" L.radiusKey (L.radiusKeySize - 1) u
    { s with u := copyEapType L doc (copyPhase2 L doc u) }
  else s

def applyKey (L : Layout) (doc : Json) (s : Security) : Security :=
  { s with u := copyParam doc "Passphrase" L.key (L.keySize - 1) s.u }

/-- A number or a boolean of the document, or what is there. -/
def newNumber (doc : Json) (key : String) (x : BitVec 32) : BitVec 32 :=
  ((decodeParamInteger doc key).map valuedouble).getD x

def newBool (doc : Json) (key : String) (b : Bool) : Bool :=
  (decodeParamBool doc key).getD b

/-- The settings of an enterprise mode. -/
def applyTimers (doc : Json) (s : Security) : Security :=
  { s with timers :=
    { rekeyInterval := newNumber doc "RekeyInterval" s.timers.rekeyInterval
      strictRekey := newBool doc "StrictRekey" s.timers.strictRekey
      eapolKeyTimeout := newNumber doc "EapolKeyTimeout" s.timers.eapolKeyTimeout
      eapolKeyRetries := newNumber doc "EapolKeyRetries" s.timers.eapolKeyRetries
      eapIdentityReqTimeout := newNumber doc "EapIdentityReqTimeout" s.timers.eapIdentityReqTimeout
      eapIdentityReqRetries := newNumber doc "EapIdentityReqRetries" s.timers.eapIdentityReqRetries
      eapReqTimeout := newNumber doc "EapReqTimeout" s.timers.eapReqTimeout
      eapReqRetries := newNumber doc "EapReqRetries" s.timers.eapReqRetries
      disablePmksaCaching := newBool doc "DisablePmksaCaching" s.timers.disablePmksaCaching } }

/-- The settings of the other modes. -/
def applyRest (L : Layout) (doc : Json) (s : Security) : Security :=
  { s with
    wpa3TransitionDisable := newBool doc "Wpa3_transition_disable" s.wpa3TransitionDisable
    timers := { s.timers with rekeyInterval := newNumber doc "RekeyInterval" s.timers.rekeyInterval }
    keyId := copyParam doc "KeyId" 0 (L.keyIdSize - 1) s.keyId }

/-- `update_vap_security_object`; `band6` says whether the band is `WIFI_FREQUENCY_6_BAND`. -/
def updateVapSecurityObject (L : Layout) (doc : Json) (s : Security) (band6 : Bool) : Security × WebconfigError :=
  if requestedMode doc = some none then (s, .decode)
  else
    let s := applyMode L doc s
    if requestedMode doc ≠ none ∧ band6 = true ∧ s.mode.strong = false then (s, .decode)
    else if requestedMfp doc = some none then (s, .decode)
    else
      let s := applyMfp doc s
      if s.mfp ≠ .optional ∧ s.mode = .wpa3Transition then (s, .encode)
      else if s.mfp ≠ .required ∧ s.mode.strong = true then (s, .decode)
      else if requestedEncr doc = some none then (s, .decode)
      else
        let s := applyRadius L doc (applyEncr doc s)
        if s.encr ≠ .aes ∧ s.mode.strong = true then (s, .decode)
        else if s.encr = .tkip ∧ s.mode = .wpaWpa2Personal then (s, .decode)
        else if s.mode.enterprise then (applyTimers doc s, .none)
        else
          let s := applyKey L doc s
          if badPassphrase L doc s.mode then (s, .decode) else (applyRest L doc s, .none)

end Update

/-! ### All or nothing -/

section Whole

/-- The key type is one of the mode. -/
def KeyTypeOk (L : Layout) (mode : Mode) (u : Region) : Prop :=
  match mode with
  | .wpa3Personal => slice u L.keyType 4 = L.sae
  | .wpa3Transition => slice u L.keyType 4 = L.pskSae
  | .wpaPersonal | .wpa2Personal | .wpaWpa2Personal => L.IsPsk (slice u L.keyType 4)
  | _ => True

/-- A value that an update may leave: it keeps the rules of its mode, its key type is one of its mode, and the key of a
personal mode whose union held the settings of an enterprise mode is the passphrase of the document. -/
structure Consistent (L : Layout) (doc : Json) (band6 radius : Bool) (s : Security) : Prop where
  band : band6 = true → s.mode.strong = true
  transition : s.mode = .wpa3Transition → s.mfp = .optional
  strong : s.mode.strong = true → s.mfp = .required ∧ s.encr = .aes
  noTkip : s.mode = .wpaWpa2Personal → s.encr ≠ .tkip
  keyType : KeyTypeOk L s.mode s.u
  key : radius = true → s.mode.personal = true → ∃ p, decodeParamString doc "Passphrase" = some p ∧
    slice s.u L.key (L.keySize - 1) = padded (L.keySize - 1) p

/-- A stored value. Its union holds the settings of an enterprise mode when it is that of one, and may hold those of an
earlier one. -/
structure Stored where
  value : Security
  radius : Bool
  held : value.mode.enterprise = true → radius = true

/-- An update succeeds with a consistent value, or leaves the stored one. -/
def Meets (L : Layout) (doc : Json) (band6 : Bool) (prev : Stored) : Prop :=
  match updateVapSecurityObject L doc prev.value band6 with
  | (s, .none) => Consistent L doc band6 prev.radius s
  | (s, _) => s = prev.value

/-- The checks, in their order. -/
inductive Check
  | modeName
  | band
  | mfpName
  | mfp
  | encrName
  | encr
  | passphrase
deriving DecidableEq, Repr

/-- The check that a document fails first, from what it asks for. -/
def rejectedBy (L : Layout) (doc : Json) (band6 : Bool) (prev : Security) : Option Check :=
  if requestedMode doc = some none then some .modeName
  else if requestedMode doc ≠ none ∧ band6 = true ∧ (newMode doc prev).strong = false then some .band
  else if requestedMfp doc = some none then some .mfpName
  else if newMfp doc prev ≠ .optional ∧ newMode doc prev = .wpa3Transition then some .mfp
  else if newMfp doc prev ≠ .required ∧ (newMode doc prev).strong = true then some .mfp
  else if requestedEncr doc = some none then some .encrName
  else if newEncr doc prev ≠ .aes ∧ (newMode doc prev).strong = true then some .encr
  else if newEncr doc prev = .tkip ∧ newMode doc prev = .wpaWpa2Personal then some .encr
  else if (newMode doc prev).enterprise then none
  else if badPassphrase L doc (newMode doc prev) then some .passphrase
  else none

/-- What is written before a check. -/
def writtenBefore (L : Layout) (doc : Json) : Check → List (Security → Security)
  | .modeName => []
  | .band | .mfpName => [applyMode L doc]
  | .mfp | .encrName => [applyMode L doc, applyMfp doc]
  | .encr => [applyMode L doc, applyMfp doc, applyEncr doc, applyRadius L doc]
  | .passphrase => [applyMode L doc, applyMfp doc, applyEncr doc, applyRadius L doc, applyKey L doc]

/-- A rejected document gives, up to the check that rejects it, what is stored already. An accepted one gives a
mode on 6 GHz unless the stored one is allowed there; the stored key type is one of its mode, unless the mode is a
WPA3 personal mode that it gives; and it gives a passphrase when it leads to a personal mode while the union holds the
settings of an enterprise mode. -/
def Whole (L : Layout) (doc : Json) (band6 : Bool) (prev : Stored) : Prop :=
  match rejectedBy L doc band6 prev.value with
  | some check => ∀ f ∈ writtenBefore L doc check, f prev.value = prev.value
  | none => (band6 = true → requestedMode doc = none → prev.value.mode.strong = true) ∧
      (requestedMode doc = none ∨ (newMode doc prev.value).psk = true →
        KeyTypeOk L (newMode doc prev.value) prev.value.u) ∧
      (prev.radius = true → (newMode doc prev.value).personal = true → decodeParamString doc "Passphrase" ≠ none)

/-- The document's passphrase comes into the union. -/
def copiesKey (L : Layout) (doc : Json) (band6 : Bool) (prev : Security) : Bool :=
  (rejectedBy L doc band6 prev = none ∨ rejectedBy L doc band6 prev = some .passphrase) ∧
    (newMode doc prev).enterprise = false ∧ decodeParamString doc "Passphrase" ≠ none

theorem held_update {s : Security} {radius copied : Bool} (h : s.mode.enterprise = true) :
    (s.mode.enterprise || radius && !copied) = true := by
  rw [h, Bool.true_or]

/-- The stored value behind an update. -/
def Stored.update (L : Layout) (prev : Stored) (doc : Json) (band6 : Bool) : Stored where
  value := (updateVapSecurityObject L doc prev.value band6).1
  radius := (updateVapSecurityObject L doc prev.value band6).1.mode.enterprise ||
    prev.radius && !copiesKey L doc band6 prev.value
  held := held_update

variable {L : Layout} {doc : Json} {band6 : Bool} {prev s : Security} {check : Check}

@[simp]
theorem mode_applyMode : (applyMode L doc s).mode = newMode doc s := by
  unfold applyMode newMode
  cases (requestedMode doc).bind id with
  | none => rfl
  | some m => cases m <;> rfl

@[simp]
theorem mfp_applyMode : (applyMode L doc s).mfp = s.mfp := by
  unfold applyMode
  split <;> rfl

@[simp]
theorem encr_applyMode : (applyMode L doc s).encr = s.encr := by
  unfold applyMode
  split <;> rfl

@[simp]
theorem mode_applyRadius : (applyRadius L doc s).mode = s.mode := by
  unfold applyRadius
  split <;> rfl

@[simp]
theorem mfp_applyRadius : (applyRadius L doc s).mfp = s.mfp := by
  unfold applyRadius
  split <;> rfl

@[simp]
theorem encr_applyRadius : (applyRadius L doc s).encr = s.encr := by
  unfold applyRadius
  split <;> rfl

@[simp]
theorem mode_applyMfp : (applyMfp doc s).mode = s.mode := rfl

@[simp]
theorem mfp_applyMfp : (applyMfp doc s).mfp = newMfp doc s := rfl

@[simp]
theorem encr_applyMfp : (applyMfp doc s).encr = s.encr := rfl

@[simp]
theorem mode_applyEncr : (applyEncr doc s).mode = s.mode := rfl

@[simp]
theorem mfp_applyEncr : (applyEncr doc s).mfp = s.mfp := rfl

@[simp]
theorem encr_applyEncr : (applyEncr doc s).encr = newEncr doc s := rfl

@[simp]
theorem mode_applyKey : (applyKey L doc s).mode = s.mode := rfl

@[simp]
theorem newMfp_applyMode : newMfp doc (applyMode L doc s) = newMfp doc s := by
  simp [newMfp]

@[simp]
theorem newEncr_applyMode : newEncr doc (applyMfp doc (applyMode L doc s)) = newEncr doc s := by
  simp [newEncr]

/-- The value before the last part of an update. -/
def checkedValue (L : Layout) (doc : Json) (prev : Security) : Security :=
  applyRadius L doc (applyEncr doc (applyMfp doc (applyMode L doc prev)))

/-- The value of an accepted document. -/
def acceptedValue (L : Layout) (doc : Json) (prev : Security) : Security :=
  if (newMode doc prev).enterprise then applyTimers doc (checkedValue L doc prev)
  else applyRest L doc (applyKey L doc (checkedValue L doc prev))

/-- An update and its first failed check, side by side. -/
theorem update_cases :
    rejectedBy L doc band6 prev = none ∧ updateVapSecurityObject L doc prev band6 = (acceptedValue L doc prev, .none) ∨
      ∃ check error, rejectedBy L doc band6 prev = some check ∧ error ≠ .none ∧
        updateVapSecurityObject L doc prev band6 =
          ((writtenBefore L doc check).foldl (fun s f => f s) prev, error) := by
  unfold rejectedBy updateVapSecurityObject acceptedValue
  simp only [mode_applyMode, mode_applyMfp, mfp_applyMfp, newMfp_applyMode, mode_applyRadius, encr_applyRadius,
    mode_applyEncr, encr_applyEncr, newEncr_applyMode, mode_applyKey]
  by_cases hname : requestedMode doc = some none
  · rw [if_pos hname, if_pos hname]
    exact .inr ⟨.modeName, .decode, rfl, nofun, rfl⟩
  rw [if_neg hname, if_neg hname]
  by_cases hband : requestedMode doc ≠ none ∧ band6 = true ∧ (newMode doc prev).strong = false
  · rw [if_pos hband, if_pos hband]
    exact .inr ⟨.band, .decode, rfl, nofun, rfl⟩
  rw [if_neg hband, if_neg hband]
  by_cases hmfpName : requestedMfp doc = some none
  · rw [if_pos hmfpName, if_pos hmfpName]
    exact .inr ⟨.mfpName, .decode, rfl, nofun, rfl⟩
  rw [if_neg hmfpName, if_neg hmfpName]
  by_cases htransition : newMfp doc prev ≠ .optional ∧ newMode doc prev = .wpa3Transition
  · rw [if_pos htransition, if_pos htransition]
    exact .inr ⟨.mfp, .encode, rfl, nofun, rfl⟩
  rw [if_neg htransition, if_neg htransition]
  by_cases hstrong : newMfp doc prev ≠ .required ∧ (newMode doc prev).strong = true
  · rw [if_pos hstrong, if_pos hstrong]
    exact .inr ⟨.mfp, .decode, rfl, nofun, rfl⟩
  rw [if_neg hstrong, if_neg hstrong]
  by_cases hencrName : requestedEncr doc = some none
  · rw [if_pos hencrName, if_pos hencrName]
    exact .inr ⟨.encrName, .decode, rfl, nofun, rfl⟩
  rw [if_neg hencrName, if_neg hencrName]
  by_cases haes : newEncr doc prev ≠ .aes ∧ (newMode doc prev).strong = true
  · rw [if_pos haes, if_pos haes]
    exact .inr ⟨.encr, .decode, rfl, nofun, rfl⟩
  rw [if_neg haes, if_neg haes]
  by_cases htkip : newEncr doc prev = .tkip ∧ newMode doc prev = .wpaWpa2Personal
  · rw [if_pos htkip, if_pos htkip]
    exact .inr ⟨.encr, .decode, rfl, nofun, rfl⟩
  rw [if_neg htkip, if_neg htkip]
  by_cases henterprise : (newMode doc prev).enterprise = true
  · rw [if_pos henterprise, if_pos henterprise, if_pos henterprise]
    exact .inl ⟨rfl, rfl⟩
  rw [if_neg henterprise, if_neg henterprise, if_neg henterprise]
  by_cases hbad : badPassphrase L doc (newMode doc prev) = true
  · rw [if_pos hbad, if_pos hbad]
    exact .inr ⟨.passphrase, .decode, rfl, nofun, rfl⟩
  rw [if_neg hbad, if_neg hbad]
  exact .inl ⟨rfl, rfl⟩

/-- An update is rejected by the first failed check, with what was written before. -/
theorem update_of_rejected (h : rejectedBy L doc band6 prev = some check) :
    (updateVapSecurityObject L doc prev band6).1 = (writtenBefore L doc check).foldl (fun s f => f s) prev ∧
      (updateVapSecurityObject L doc prev band6).2 ≠ .none := by
  obtain ⟨hnone, -⟩ | ⟨check', error, hsome, herror, hupdate⟩ := @update_cases L doc band6 prev
  · rw [hnone] at h
    cases h
  · obtain rfl : check' = check := Option.some.inj (hsome.symm.trans h)
    rw [hupdate]
    exact ⟨rfl, herror⟩

theorem update_of_accepted (h : rejectedBy L doc band6 prev = none) :
    updateVapSecurityObject L doc prev band6 = (acceptedValue L doc prev, .none) := by
  obtain ⟨-, hupdate⟩ | ⟨check, error, hsome, -⟩ := @update_cases L doc band6 prev
  · exact hupdate
  · rw [hsome] at h
    cases h

theorem store_eq_self_iff {m : Region} {off : ℕ} {bs : Bytes} :
    store m off bs = m ↔ slice m off bs.length = bs := by
  constructor
  · intro h
    rw [← h, slice_store_self rfl]
  · intro h
    funext i
    unfold store
    split_ifs with hin
    · have hlt : i - off < bs.length := by omega
      have hget : (slice m off bs.length)[i - off]? = bs[i - off]? := by rw [h]
      have hrange : (List.range bs.length)[i - off]? = some (i - off) := by
        rw [List.getElem?_range hlt]
      have hidx : off + (i - off) = i := by omega
      simp only [slice, List.getElem?_map, hrange, Option.map_some, hidx] at hget
      rw [List.getD_eq_getElem?_getD, ← hget]
      rfl
    · rfl

@[simp]
theorem length_padded (n : ℕ) (t : Bytes) : (padded n t).length = n := by
  simp only [padded, List.length_append, List.length_take, List.length_replicate]
  omega

/-- A copy of the key keeps its type. -/
theorem slice_copyKey (L : Layout) (doc : Json) (n : ℕ) (m : Region) :
    slice (copyParam doc "Passphrase" L.key n m) L.keyType 4 = slice m L.keyType 4 := by
  unfold copyParam
  cases decodeParamString doc "Passphrase" with
  | none => rfl
  | some p => exact slice_store_of_le L.typeBeforeKey

/-- What a mode writes into the union. -/
theorem u_applyMode (L : Layout) (doc : Json) (s : Security) :
    (applyMode L doc s).u = s.u ∨
      newMode doc s = .wpa3Personal ∧ (applyMode L doc s).u = store s.u L.keyType L.sae ∨
      newMode doc s = .wpa3Transition ∧ (applyMode L doc s).u = store s.u L.keyType L.pskSae := by
  unfold applyMode newMode
  cases (requestedMode doc).bind id with
  | none => exact Or.inl rfl
  | some m =>
      cases m with
      | wpa3Personal => exact Or.inr (Or.inl ⟨rfl, rfl⟩)
      | wpa3Transition => exact Or.inr (Or.inr ⟨rfl, rfl⟩)
      | _ => exact Or.inl rfl

theorem applyMode_eq_self (hmode : newMode doc s = s.mode) (hu : (applyMode L doc s).u = s.u) :
    applyMode L doc s = s := by
  unfold applyMode newMode at *
  cases h : (requestedMode doc).bind id with
  | none => rfl
  | some m =>
      rw [h] at hmode hu
      have hmode : m = s.mode := hmode
      subst hmode
      cases hm : s.mode <;> simp only [hm] at hu ⊢ <;> first | rw [hu] | skip
      all_goals rw [← hm]

theorem applyRadius_of_not (h : s.mode.radius = false) : applyRadius L doc s = s := by
  unfold applyRadius
  rw [if_neg (by simp [h])]

theorem radius_eq_false_of_enterprise {m : Mode} (h : m.enterprise = false) : m.radius = false := by
  cases m <;> simp_all [Mode.enterprise, Mode.radius]

theorem foldl_fixed {α : Type} {fs : List (α → α)} {a : α} (h : ∀ f ∈ fs, f a = a) :
    fs.foldl (fun a f => f a) a = a := by
  induction fs with
  | nil => rfl
  | cons f fs ih =>
      rw [List.foldl_cons, h f (by simp)]
      exact ih fun g hg => h g (List.mem_cons_of_mem f hg)

/-- The parts that are checked together change nothing only if none of them does. -/
theorem checkedValue_eq_self (h : checkedValue L doc prev = prev) :
    applyMode L doc prev = prev ∧ applyMfp doc prev = prev ∧ applyEncr doc prev = prev ∧
      applyRadius L doc prev = prev := by
  have hmode : newMode doc prev = prev.mode := by
    have := congrArg Security.mode h
    simpa [checkedValue] using this
  have hmfp : newMfp doc prev = prev.mfp := by
    have := congrArg Security.mfp h
    simpa [checkedValue] using this
  have hencr : newEncr doc prev = prev.encr := by
    have := congrArg Security.encr h
    simpa [checkedValue] using this
  have happlyMfp : applyMfp doc prev = prev := by rw [applyMfp, hmfp]
  have happlyEncr : applyEncr doc prev = prev := by rw [applyEncr, hencr]
  have happlyMode : applyMode L doc prev = prev := by
    refine applyMode_eq_self hmode ?_
    by_cases hradius : prev.mode.radius = true
    · rcases u_applyMode L doc prev with hu | ⟨hm, -⟩ | ⟨hm, -⟩
      · exact hu
      · rw [← hmode, hm] at hradius
        cases hradius
      · rw [← hmode, hm] at hradius
        cases hradius
    · have hu := congrArg Security.u h
      rw [checkedValue, applyRadius_of_not (by simpa [hmode] using hradius)] at hu
      exact hu
  refine ⟨happlyMode, happlyMfp, happlyEncr, ?_⟩
  rw [checkedValue, happlyMode, happlyMfp, happlyEncr] at h
  exact h

/-- A key and its type change nothing only if neither does. -/
theorem applyKey_checkedValue_eq_self (hmode : (newMode doc prev).enterprise = false)
    (h : applyKey L doc (checkedValue L doc prev) = prev) : checkedValue L doc prev = prev := by
  have hradius := radius_eq_false_of_enterprise hmode
  have hchecked : checkedValue L doc prev = applyEncr doc (applyMfp doc (applyMode L doc prev)) :=
    applyRadius_of_not (by simpa using hradius)
  have hkeep : (applyMode L doc prev).u = prev.u := by
    have hu : copyParam doc "Passphrase" L.key (L.keySize - 1) (applyMode L doc prev).u = prev.u := by
      have := congrArg Security.u h
      rw [hchecked] at this
      exact this
    have htype := congrArg (fun m => slice m L.keyType 4) hu
    simp only [slice_copyKey] at htype
    rcases u_applyMode L doc prev with hsame | ⟨-, hstore⟩ | ⟨-, hstore⟩
    · exact hsame
    · rw [hstore, slice_store_self L.length_sae.symm] at htype
      rw [hstore, store_eq_self_iff, L.length_sae]
      exact htype.symm
    · rw [hstore, slice_store_self L.length_pskSae.symm] at htype
      rw [hstore, store_eq_self_iff, L.length_pskSae]
      exact htype.symm
  have hfields : newMode doc prev = prev.mode ∧ newMfp doc prev = prev.mfp ∧ newEncr doc prev = prev.encr := by
    refine ⟨?_, ?_, ?_⟩
    · simpa [applyKey, checkedValue] using congrArg Security.mode h
    · simpa [applyKey, checkedValue] using congrArg Security.mfp h
    · simpa [applyKey, checkedValue] using congrArg Security.encr h
  obtain ⟨hm, hmfp, hencr⟩ := hfields
  rw [hchecked, applyMode_eq_self hm hkeep]
  simp only [applyMfp, applyEncr, hmfp]
  have hagain : newEncr doc prev = prev.encr := hencr
  rw [hagain]

theorem ite_some_eq_none_iff {α : Type} {c : Prop} [Decidable c] {x : α} {o : Option α} :
    (if c then some x else o) = none ↔ ¬ c ∧ o = none := by
  by_cases hc : c <;> simp [hc]

theorem ite_some_eq_some_iff {α : Type} {c : Prop} [Decidable c] {x y : α} {o : Option α} :
    (if c then some x else o) = some y ↔ c ∧ x = y ∨ ¬ c ∧ o = some y := by
  by_cases hc : c <;> simp [hc]

theorem enterprise_of_passphrase (h : rejectedBy L doc band6 prev = some .passphrase) :
    (newMode doc prev).enterprise = false := by
  simp only [rejectedBy, ite_some_eq_some_iff, reduceCtorEq, and_false, false_or] at h
  obtain ⟨-, -, -, -, -, -, -, -, h⟩ := h
  by_contra henterprise
  rw [if_pos (Bool.not_eq_false _ ▸ henterprise)] at h
  cases h

/-- What is written before the failed check is the previous value only if each part of it is. -/
theorem written_eq_self_iff (h : rejectedBy L doc band6 prev = some check) :
    (writtenBefore L doc check).foldl (fun s f => f s) prev = prev ↔ ∀ f ∈ writtenBefore L doc check, f prev = prev := by
  refine ⟨fun heq => ?_, foldl_fixed⟩
  have hpair : applyMfp doc (applyMode L doc prev) = prev → applyMode L doc prev = prev ∧ applyMfp doc prev = prev := by
    intro heq
    have hmode : newMode doc prev = prev.mode := by simpa using congrArg Security.mode heq
    have hmfp : newMfp doc prev = prev.mfp := by simpa using congrArg Security.mfp heq
    have hu : (applyMfp doc (applyMode L doc prev)).u = prev.u := congrArg Security.u heq
    exact ⟨applyMode_eq_self hmode hu, by rw [applyMfp, hmfp]⟩
  cases check with
  | modeName => simp [writtenBefore]
  | band => simpa [writtenBefore] using heq
  | mfpName => simpa [writtenBefore] using heq
  | mfp => simpa [writtenBefore] using hpair heq
  | encrName => simpa [writtenBefore] using hpair heq
  | encr => simpa [writtenBefore] using checkedValue_eq_self heq
  | passphrase =>
      have hchecked := applyKey_checkedValue_eq_self (enterprise_of_passphrase h) heq
      have hkey : applyKey L doc prev = prev := by
        have heq' : applyKey L doc (checkedValue L doc prev) = prev := heq
        rwa [hchecked] at heq'
      obtain ⟨hmode, hmfp, hencr, hradius⟩ := checkedValue_eq_self hchecked
      simp [writtenBefore, hmode, hmfp, hencr, hradius, hkey]

/-- The checks that an accepted document has passed. -/
theorem passed_of_accepted (h : rejectedBy L doc band6 prev = none) :
    requestedMode doc ≠ some none ∧
      (requestedMode doc ≠ none → band6 = true → (newMode doc prev).strong = true) ∧
      (newMode doc prev = .wpa3Transition → newMfp doc prev = .optional) ∧
      ((newMode doc prev).strong = true → newMfp doc prev = .required ∧ newEncr doc prev = .aes) ∧
      (newMode doc prev = .wpaWpa2Personal → newEncr doc prev ≠ .tkip) := by
  simp only [rejectedBy, ite_some_eq_none_iff] at h
  obtain ⟨hname, hband, -, htransition, hstrong, -, haes, htkip, -⟩ := h
  refine ⟨hname, fun hgiven hband6 => ?_, fun hmode => ?_, fun hmode => ⟨?_, ?_⟩, fun hmode hencr => ?_⟩
  · by_contra hweak
    exact hband ⟨hgiven, hband6, Bool.eq_false_iff.mpr hweak⟩
  · by_contra hmfp
    exact htransition ⟨hmfp, hmode⟩
  · by_contra hmfp
    exact hstrong ⟨hmfp, hmode⟩
  · by_contra hencr
    exact haes ⟨hencr, hmode⟩
  · exact htkip ⟨hencr, hmode⟩

theorem acceptedValue_fields (L : Layout) (doc : Json) (prev : Security) :
    (acceptedValue L doc prev).mode = newMode doc prev ∧ (acceptedValue L doc prev).mfp = newMfp doc prev ∧
      (acceptedValue L doc prev).encr = newEncr doc prev := by
  unfold acceptedValue
  split_ifs <;> simp [applyTimers, applyRest, applyKey, checkedValue]

/-- The union of a personal mode that was accepted. -/
theorem u_acceptedValue (h : (newMode doc prev).enterprise = false) : (acceptedValue L doc prev).u =
    copyParam doc "Passphrase" L.key (L.keySize - 1) (applyMode L doc prev).u := by
  have hchecked : checkedValue L doc prev = applyEncr doc (applyMfp doc (applyMode L doc prev)) :=
    applyRadius_of_not (by simpa using radius_eq_false_of_enterprise h)
  rw [acceptedValue, if_neg (by simp [h]), hchecked]
  rfl

theorem enterprise_of_personal {m : Mode} (h : m.personal = true) : m.enterprise = false := by
  cases m <;> simp_all [Mode.personal, Mode.psk, Mode.enterprise]

/-- The key type of an accepted document is the stored one, or that of the WPA3 personal mode that it gives. -/
theorem keyTypeOk_acceptedValue_iff (h : requestedMode doc ≠ some none) :
    KeyTypeOk L (newMode doc prev) (acceptedValue L doc prev).u ↔
      (requestedMode doc = none ∨ (newMode doc prev).psk = true → KeyTypeOk L (newMode doc prev) prev.u) := by
  by_cases hpersonal : (newMode doc prev).personal = true
  · have htype : slice (acceptedValue L doc prev).u L.keyType 4 = slice (applyMode L doc prev).u L.keyType 4 := by
      rw [u_acceptedValue (enterprise_of_personal hpersonal), slice_copyKey]
    have hcongr : ∀ {u u' : Region}, slice u L.keyType 4 = slice u' L.keyType 4 →
        (KeyTypeOk L (newMode doc prev) u ↔ KeyTypeOk L (newMode doc prev) u') := by
      intro u u' heq
      unfold KeyTypeOk
      rw [heq]
    rw [hcongr htype]
    cases hrequest : requestedMode doc with
    | none =>
        have hsame : (applyMode L doc prev).u = prev.u := by simp [applyMode, hrequest]
        simp [hsame]
    | some m =>
        cases m with
        | none => exact absurd hrequest h
        | some m =>
            have hmode : newMode doc prev = m := by simp [newMode, hrequest]
            rw [hmode] at hpersonal ⊢
            simp only [applyMode, hrequest, Option.bind_some, id, reduceCtorEq, false_or]
            cases m with
            | wpa3Personal => simp [KeyTypeOk, Mode.psk, slice_store_self L.length_sae.symm]
            | wpa3Transition => simp [KeyTypeOk, Mode.psk, slice_store_self L.length_pskSae.symm]
            | wpaPersonal => simp [Mode.psk]
            | wpa2Personal => simp [Mode.psk]
            | wpaWpa2Personal => simp [Mode.psk]
            | _ => simp [Mode.personal, Mode.psk] at hpersonal
  · have htrue : ∀ u, KeyTypeOk L (newMode doc prev) u := by
      intro u
      cases hm : newMode doc prev <;> simp_all [Mode.personal, Mode.psk, KeyTypeOk]
    simp [htrue]

/-- The key of a personal mode is the passphrase when there is one. -/
theorem key_acceptedValue_iff (h : (newMode doc prev).personal = true) :
    (∃ p, decodeParamString doc "Passphrase" = some p ∧
      slice (acceptedValue L doc prev).u L.key (L.keySize - 1) = padded (L.keySize - 1) p) ↔
      decodeParamString doc "Passphrase" ≠ none := by
  rw [u_acceptedValue (enterprise_of_personal h)]
  unfold copyParam
  cases decodeParamString doc "Passphrase" with
  | none => simp
  | some p => simp [slice_store_self]

/-- A rejected document leaves the value exactly when it gives what is stored. -/
theorem meets_of_rejected_iff {prev : Stored} (h : rejectedBy L doc band6 prev.value = some check) :
    Meets L doc band6 prev ↔ ∀ f ∈ writtenBefore L doc check, f prev.value = prev.value := by
  obtain ⟨hvalue, herror⟩ := update_of_rejected h
  have hiff := written_eq_self_iff h
  rw [← hvalue] at hiff
  unfold Meets
  cases hupdate : updateVapSecurityObject L doc prev.value band6 with
  | mk s error =>
      rw [hupdate] at hiff herror
      cases error with
      | none => exact absurd rfl herror
      | decode => exact hiff
      | encode => exact hiff

theorem newMode_of_none (h : requestedMode doc = none) : newMode doc prev = prev.mode := by
  simp [newMode, h]

/-- The value of an accepted document is consistent when the band, the key type and the key are, which no check sees. -/
theorem consistent_acceptedValue_iff (h : rejectedBy L doc band6 prev = none) (radius : Bool) :
    Consistent L doc band6 radius (acceptedValue L doc prev) ↔
      (band6 = true → requestedMode doc = none → prev.mode.strong = true) ∧
        (requestedMode doc = none ∨ (newMode doc prev).psk = true → KeyTypeOk L (newMode doc prev) prev.u) ∧
        (radius = true → (newMode doc prev).personal = true → decodeParamString doc "Passphrase" ≠ none) := by
  obtain ⟨hname, hband, htransition, hstrong, htkip⟩ := passed_of_accepted h
  obtain ⟨hmode, hmfp, hencr⟩ := acceptedValue_fields L doc prev
  constructor
  · intro hs
    refine ⟨fun hsix hnone => ?_, ?_, fun hfrom hto => ?_⟩
    · rw [← newMode_of_none hnone, ← hmode]
      exact hs.band hsix
    · have htype := hs.keyType
      rw [hmode] at htype
      exact (keyTypeOk_acceptedValue_iff hname).mp htype
    · exact (key_acceptedValue_iff hto).mp (hs.key hfrom (by rw [hmode]; exact hto))
  · rintro ⟨hsix, htype, hkey⟩
    refine ⟨fun hband6 => ?_, ?_, ?_, ?_, ?_, fun hfrom hto => ?_⟩
    · rw [hmode]
      by_cases hnone : requestedMode doc = none
      · rw [newMode_of_none hnone]
        exact hsix hband6 hnone
      · exact hband hnone hband6
    · rw [hmode, hmfp]
      exact htransition
    · rw [hmode, hmfp, hencr]
      exact hstrong
    · rw [hmode, hencr]
      exact htkip
    · rw [hmode]
      exact (keyTypeOk_acceptedValue_iff hname).mpr htype
    · rw [hmode] at hto
      exact (key_acceptedValue_iff hto).mpr (hkey hfrom hto)

/-- **An update is all or nothing, and consistent, exactly for the documents that are whole for the stored value.** -/
theorem meets_iff_whole (L : Layout) (doc : Json) (band6 : Bool) (prev : Stored) :
    Meets L doc band6 prev ↔ Whole L doc band6 prev := by
  unfold Whole
  cases hreject : rejectedBy L doc band6 prev.value with
  | some check =>
      exact meets_of_rejected_iff hreject
  | none =>
      rw [Meets, update_of_accepted hreject]
      exact consistent_acceptedValue_iff hreject prev.radius

/-- Every one of some updates, each of what the ones before it have left, has a property. -/
def Throughout (P : Stored → Json → Bool → Prop) (L : Layout) : Stored → List (Json × Bool) → Prop
  | _, [] => True
  | prev, (doc, band6) :: rest => P prev doc band6 ∧ Throughout P L (prev.update L doc band6) rest

/-- So it is for any number of updates in turn. -/
theorem meets_throughout_iff (L : Layout) (prev : Stored) (updates : List (Json × Bool)) :
    Throughout (fun s doc band6 => Meets L doc band6 s) L prev updates ↔
      Throughout (fun s doc band6 => Whole L doc band6 s) L prev updates := by
  induction updates generalizing prev with
  | nil =>
      exact Iff.rfl
  | cons update rest ih =>
      exact and_congr (meets_iff_whole L update.1 update.2 prev) (ih _)

end Whole

/-! ### From WPA3 to WPA2 -/

section Example

/-- A union whose key follows its type, beside the RADIUS settings. -/
def gatewayLayout : Layout where
  keyType := 0
  key := 4
  keySize := 256
  identity := 116
  identitySize := 64
  radiusKey := 52
  radiusKeySize := 64
  phase2 := 184
  eapType := 180
  keyIdSize := 64
  sae := [2, 0, 0, 0]
  pskSae := [3, 0, 0, 0]
  pap := [1, 0, 0, 0]
  ttls := [21, 0, 0, 0]
  tls := [13, 0, 0, 0]
  IsPsk := fun t => t = [0, 0, 0, 0] ∨ t = [1, 0, 0, 0]
  minPwdLen := 8
  maxPwdLen := 63
  typeBeforeKey := Nat.le_refl 4
  length_sae := rfl
  length_pskSae := rfl

def wpa3Value : Security where
  mode := .wpa3Personal
  encr := .aes
  mfp := .required
  wpa3TransitionDisable := false
  timers := ⟨0, false, 0, 0, 0, 0, 0, 0, false⟩
  keyId := fun _ => 0
  u := store (fun _ => 0) 0 [2, 0, 0, 0]

/-- The value without any history of an enterprise mode. -/
def wpa3Stored : Stored where
  value := wpa3Value
  radius := false
  held := fun h => nomatch h

/-- A document for WPA2 that is accepted, and one with a name that MFP does not have. -/
def toWpa2 (mfp : String) : Json :=
  .object [("Mode", .string (text "WPA2-Personal")), ("MFPConfig", .string (text mfp)),
    ("Passphrase", .string (text "test-test"))]

/-- The accepted document leaves the key type of WPA3, and the rejected one its mode. -/
theorem not_meets_toWpa2 : ¬ Meets gatewayLayout (toWpa2 "Optional") false wpa3Stored ∧
    ¬ Meets gatewayLayout (toWpa2 "Sometimes") false wpa3Stored := by
  constructor
  · have haccept : rejectedBy gatewayLayout (toWpa2 "Optional") false wpa3Value = none := by decide +kernel
    have hname : requestedMode (toWpa2 "Optional") = some (some .wpa2Personal) := by decide +kernel
    have hmode : newMode (toWpa2 "Optional") wpa3Value = .wpa2Personal := by simp [newMode, hname]
    intro h
    simp only [Meets, wpa3Stored, update_of_accepted haccept] at h
    have htype := h.keyType
    rw [(acceptedValue_fields _ _ _).1, keyTypeOk_acceptedValue_iff (by simp [hname]), hmode] at htype
    have hleft : gatewayLayout.IsPsk (slice wpa3Value.u 0 4) := htype (Or.inr rfl)
    have hsae : slice wpa3Value.u 0 4 = [2, 0, 0, 0] := slice_store_self rfl
    rw [hsae] at hleft
    simp [gatewayLayout] at hleft
  · have hreject : rejectedBy gatewayLayout (toWpa2 "Sometimes") false wpa3Value = some .mfpName := by decide +kernel
    obtain ⟨hvalue, herror⟩ := update_of_rejected hreject
    have hmode : newMode (toWpa2 "Sometimes") wpa3Value = .wpa2Personal := by decide +kernel
    intro h
    unfold Meets wpa3Stored at h
    dsimp only at h
    cases hupdate : updateVapSecurityObject gatewayLayout (toWpa2 "Sometimes") wpa3Value false with
    | mk s error =>
        rw [hupdate] at h hvalue herror
        have hkept : s.mode = .wpa2Personal := by
          show (s, error).1.mode = _
          rw [hvalue]
          simpa [writtenBefore] using hmode
        cases error with
        | none => exact absurd rfl herror
        | decode => exact absurd (hkept.symm.trans (congrArg Security.mode h)) (by decide)
        | encode => exact absurd (hkept.symm.trans (congrArg Security.mode h)) (by decide)

/-- A value that was an enterprise one before it had no security. -/
def openStored : Stored where
  value := { wpa3Value with mode := .none }
  radius := true
  held := fun _ => rfl

/-- A document for WPA3 without a passphrase is accepted for it, and its key is what RADIUS has left. -/
example : rejectedBy gatewayLayout (.object [("Mode", .string (text "WPA3-Personal"))]) false openStored.value = none ∧
    ¬ Whole gatewayLayout (.object [("Mode", .string (text "WPA3-Personal"))]) false openStored := by
  have haccept : rejectedBy gatewayLayout (.object [("Mode", .string (text "WPA3-Personal"))]) false
      openStored.value = none := by decide +kernel
  refine ⟨haccept, fun hwhole => ?_⟩
  unfold Whole at hwhole
  rw [haccept] at hwhole
  exact hwhole.2.2 rfl (by decide +kernel) (by decide +kernel)

end Example

end OneWifiTestSuite.SecurityObject
