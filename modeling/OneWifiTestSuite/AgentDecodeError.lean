import OneWifiTestSuite.ExtStaMgr

/-!
# A failed decoding of the capabilities

`decode_external_agent_capability` writes into the stored details of the agent while it reads the
document, so that a document with a defect at its end leaves its first part behind. Here its allocations
may fail; when they succeed it is the decoder of the round trip (`decodeExternalAgentCapabilityWith_true`).
`decodeClientsWith_eq` says what the loop leaves, and `keptOnError_iff` for which documents a failure
keeps the details. `decodeAgents_clients` carries this over to the agents of the map, which
the search for a free client goes through.
-/

namespace OneWifiTestSuite.AgentDecodeError

open ByteRegion RebootFile AgentJson AgentCapability CStrings

/-! ### The decoder with failing allocations -/

section Code

variable (size : ℕ) (macs : MacLib) (left : ℕ → BitVec 32) (alloc : ℕ → Bool)

/-- The loop over the clients; `alloc i` is the answer of `new` for the `i`-th Ethernet interface. (A
failed `new` of a Wi-Fi client is written through and does not return.) -/
def decodeClientsWith : List Json → List StaInfo → List EthDev → List StaInfo × List EthDev × Bool
  | [], wifi, eth => (wifi, eth, true)
  | entry :: entries, wifi, eth =>
      match decodeParamInteger entry "ExternalClientIntType" with
      | none => (wifi, eth, false)
      | some type =>
          if type = interfaceTypeEthernet then
            if alloc eth.length = false then (wifi, eth, false)
            else
              match decodeEth macs (left eth.length) entry with
              | none => (wifi, eth, false)
              | some dev => decodeClientsWith entries wifi (dev :: eth)
          else if type = interfaceTypeWifi then
            match decodeWifi size macs entry with
            | none => (wifi, eth, false)
            | some info => decodeClientsWith entries (info :: wifi) eth
          else
            decodeClientsWith entries wifi eth

/-- `decode_external_agent_capability` behind the parser. -/
def decodeCapabilityWith (root : Json) (d : AgentDetails) : AgentDetails × Bool :=
  match decodeParamString root "SubDocName" with
  | none => (d, false)
  | some name =>
      let d := { d with subdocName := (strncpy d.subdocName name 31).getD d.subdocName }
      match decodeParamString root "ExternalAgentHostName" with
      | none => (d, false)
      | some host =>
          let d := { d with agentHostname := host }
          match decodeParamInteger root "ExternalClientCount" with
          | none => (d, false)
          | some count =>
              let d := { d with totalSupportedClients := BitVec.ofInt 32 count }
              match root.getObjectItem "ExternalClientCapability" with
              | some (.array entries) =>
                  let (wifi, eth, ok) := decodeClientsWith size macs left alloc entries [] []
                  ({ d with clientInfo := some wifi, ethClientInterfaces := some eth }, ok)
              | _ => (d, false)

/-- `decode_external_agent_capability`. -/
def decodeExternalAgentCapabilityWith (lib : CJson) (response : Bytes) (d : AgentDetails) : AgentDetails × Bool :=
  if response = [] then
    (d, false)
  else
    match lib.parse (cStr response) with
    | none => (d, false)
    | some root => decodeCapabilityWith size macs left alloc root d

/-- The loop of `get_external_agent_capabilities` over the agents in map order, each with the text that
`response` holds after its `http_get`, if that succeeds. A failure is skipped, and the agent stays in the
map. -/
def decodeAgents (lib : CJson) :
    List (AgentDetails × Option Bytes) → List AgentDetails
  | [] => []
  | (d, none) :: agents => d :: decodeAgents lib agents
  | (d, some response) :: agents =>
      (decodeExternalAgentCapabilityWith size macs left alloc lib response d).1 ::
        decodeAgents lib agents

end Code

/-! ### What a failure keeps -/

section Spec

variable (size : ℕ) (macs : MacLib) (left : ℕ → BitVec 32) (alloc : ℕ → Bool)

/-- The host name, the client count and the two lists are the same. -/
structure Kept (d d' : AgentDetails) : Prop where
  agentHostname : d'.agentHostname = d.agentHostname
  totalSupportedClients : d'.totalSupportedClients = d.totalSupportedClients
  clientInfo : d'.clientInfo = d.clientInfo
  ethClientInterfaces : d'.ethClientInterfaces = d.ethClientInterfaces

/-- A response that is refused keeps the details. -/
def KeptOnError (lib : CJson) (response : Bytes) (d : AgentDetails) : Prop :=
  (decodeExternalAgentCapabilityWith size macs left alloc lib response d).2 = false →
    Kept d (decodeExternalAgentCapabilityWith size macs left alloc lib response d).1

def isEth (entry : Json) : Bool :=
  decodeParamInteger entry "ExternalClientIntType" = some interfaceTypeEthernet

def isWifi (entry : Json) : Bool :=
  decodeParamInteger entry "ExternalClientIntType" = some interfaceTypeWifi

/-- The Wi-Fi client of an entry. -/
def wifiOf (entry : Json) : Option StaInfo :=
  if isWifi entry then decodeWifi size macs entry else none

/-- The Ethernet interface of an entry, in a memory. -/
def ethOf (b : BitVec 32) (entry : Json) : Option EthDev :=
  if isEth entry then decodeEth macs b entry else none

/-- An entry with a type and with the strings that its type needs. -/
def Good (entry : Json) : Prop :=
  (decodeParamInteger entry "ExternalClientIntType").isSome ∧
    (isEth entry → (decodeEth macs 0 entry).isSome) ∧ (isWifi entry → (decodeWifi size macs entry).isSome)

instance (entry : Json) : Decidable (Good size macs entry) :=
  inferInstanceAs (Decidable (_ ∧ _ ∧ _))

/-- The entries before the first defect, where `k` Ethernet interfaces came before. -/
def goodPrefix (k : ℕ) : List Json → List Json
  | [] => []
  | entry :: entries =>
      if Good size macs entry ∧ (isEth entry → alloc k = true) then
        entry :: goodPrefix (if isEth entry then k + 1 else k) entries
      else []

/-- No entry has a defect. -/
def Complete (k : ℕ) (entries : List Json) : Prop :=
  (goodPrefix size macs alloc k entries).length = entries.length

/-- The Ethernet interfaces of entries, the first one in the `k`-th memory. -/
def ethClients (k : ℕ) : List Json → List EthDev
  | [] => []
  | entry :: entries =>
      match ethOf macs (left k) entry with
      | some dev => dev :: ethClients (k + 1) entries
      | none => ethClients k entries

/-- What the document gives before its first defect is what the details hold, or there is no defect
behind its host name. -/
def Harmless (root : Json) (d : AgentDetails) : Prop :=
  ∀ host, (decodeParamString root "SubDocName").isSome →
    decodeParamString root "ExternalAgentHostName" = some host →
      match decodeParamInteger root "ExternalClientCount" with
      | none => d.agentHostname = host
      | some count =>
          match root.getObjectItem "ExternalClientCapability" with
          | some (.array entries) =>
              ¬ Complete size macs alloc 0 entries →
                d.agentHostname = host ∧ d.totalSupportedClients = BitVec.ofInt 32 count ∧
                d.clientInfo = some ((goodPrefix size macs alloc 0 entries).filterMap (wifiOf size macs)).reverse ∧
                d.ethClientInterfaces = some (ethClients macs left 0 (goodPrefix size macs alloc 0 entries)).reverse
          | _ => d.agentHostname = host ∧ d.totalSupportedClients = BitVec.ofInt 32 count

/-- The same for a response: text that is no document is harmless. -/
def HarmlessResponse (lib : CJson) (response : Bytes) (d : AgentDetails) : Prop :=
  response ≠ [] → ∀ root, lib.parse (cStr response) = some root → Harmless size macs left alloc root d

end Spec

/-! ### The loop -/

section Loop

variable {size : ℕ} {macs : MacLib} {left : ℕ → BitVec 32} {alloc : ℕ → Bool}

/-- With enough memory it is the decoder. -/
theorem decodeClientsWith_true (entries : List Json) (wifi : List StaInfo) (eth : List EthDev) :
    decodeClientsWith size macs left (fun _ => true) entries wifi eth =
      decodeClients size macs left entries wifi eth := by
  induction entries generalizing wifi eth with
  | nil =>
      rfl
  | cons entry entries ih =>
      unfold decodeClientsWith decodeClients
      cases decodeParamInteger entry "ExternalClientIntType" with
      | none =>
          rfl
      | some type =>
          simp only [Bool.true_eq_false, if_false]
          split_ifs
          · cases decodeEth macs (left eth.length) entry with
            | none =>
                rfl
            | some dev =>
                exact ih wifi (dev :: eth)
          · cases decodeWifi size macs entry with
            | none =>
                rfl
            | some info =>
                exact ih (info :: wifi) eth
          · exact ih wifi eth

theorem decodeEth_isSome (macs : MacLib) (b : BitVec 32) (entry : Json) :
    (decodeEth macs b entry).isSome = (decodeEth macs 0 entry).isSome := by
  unfold decodeEth
  cases decodeParamString entry "ExternalClientMAC" with
  | none =>
      rfl
  | some mac =>
      cases decodeParamString entry "ExternalClientIntfName" with
      | none =>
          rfl
      | some name =>
          cases decodeParamString entry "ExternalClientIpAddress" <;> rfl

/-- **What the loop leaves**: the clients before the first defect, and whether there is one. -/
theorem decodeClientsWith_eq (size : ℕ) (macs : MacLib) (left : ℕ → BitVec 32) (alloc : ℕ → Bool)
    (entries : List Json) (wifi : List StaInfo) (eth : List EthDev) :
    decodeClientsWith size macs left alloc entries wifi eth =
      (((goodPrefix size macs alloc eth.length entries).filterMap (wifiOf size macs)).reverse ++ wifi,
        (ethClients macs left eth.length (goodPrefix size macs alloc eth.length entries)).reverse ++ eth,
        decide ((goodPrefix size macs alloc eth.length entries).length = entries.length)) := by
  induction entries generalizing wifi eth with
  | nil =>
      rfl
  | cons entry entries ih =>
      have hne : interfaceTypeWifi ≠ interfaceTypeEthernet := by decide
      simp only [decodeClientsWith, goodPrefix]
      cases htype : decodeParamInteger entry "ExternalClientIntType" with
      | none =>
          simp [Good, htype, ethClients]
      | some type =>
          by_cases heth : type = interfaceTypeEthernet
          · have hisEth : isEth entry = true := by simp [isEth, htype, heth]
            have hnotWifi : isWifi entry = false := by simp [isWifi, htype, heth, hne.symm]
            dsimp only
            rw [if_pos heth]
            by_cases halloc : alloc eth.length = true
            · have hsome := decodeEth_isSome macs (left eth.length) entry
              cases hdec : decodeEth macs (left eth.length) entry with
              | none =>
                  rw [hdec, Option.isSome_none] at hsome
                  have hbad : ¬ Good size macs entry := by
                    intro hgood
                    have heth := hgood.2.1 hisEth
                    rw [← hsome] at heth
                    cases heth
                  simp [hbad, ethClients]
              | some dev =>
                  rw [hdec, Option.isSome_some] at hsome
                  have hgood : Good size macs entry :=
                    ⟨by simp [htype], fun _ => hsome.symm, fun hwifi => by simp [hnotWifi] at hwifi⟩
                  simp [hgood, hisEth, hnotWifi, halloc, ih, ethClients, ethOf, wifiOf, hdec]
            · simp [hisEth, halloc, ethClients]
          · have hnotEth : isEth entry = false := by simp [isEth, htype, heth]
            dsimp only
            rw [if_neg heth]
            by_cases hwifi : type = interfaceTypeWifi
            · have hisWifi : isWifi entry = true := by simp [isWifi, htype, hwifi]
              rw [if_pos hwifi]
              cases hdec : decodeWifi size macs entry with
              | none =>
                  simp [Good, hisWifi, hdec, ethClients]
              | some info =>
                  have hgood : Good size macs entry := by
                    simp [Good, htype, hnotEth, hisWifi, hdec]
                  simp [hgood, hnotEth, hisWifi, ih, ethClients, ethOf, wifiOf, hdec]
            · have hnotWifi : isWifi entry = false := by simp [isWifi, htype, hwifi]
              have hgood : Good size macs entry := by
                simp [Good, htype, hnotEth, hnotWifi]
              rw [if_neg hwifi]
              simp [hgood, hnotEth, hnotWifi, ih, ethClients, ethOf, wifiOf]

end Loop

/-! ### The decoder -/

section Decoder

variable {size : ℕ} {macs : MacLib} {left : ℕ → BitVec 32} {alloc : ℕ → Bool} {lib : CJson} {d : AgentDetails}

theorem Kept.refl (d : AgentDetails) : Kept d d :=
  ⟨rfl, rfl, rfl, rfl⟩

/-- **With enough memory** it is the decoder of the round trip. -/
theorem decodeExternalAgentCapabilityWith_true (response : Bytes) :
    decodeExternalAgentCapabilityWith size macs left (fun _ => true) lib response d =
      decodeExternalAgentCapability size macs lib left response d := by
  have hclients : decodeClientsWith size macs left (fun _ => true) = decodeClients size macs left := by
    funext entries wifi eth
    exact decodeClientsWith_true entries wifi eth
  unfold decodeExternalAgentCapabilityWith decodeExternalAgentCapability decodeCapabilityWith decodeCapability
  exact hclients ▸ rfl

/-- A document is refused without a change exactly when it is harmless. -/
theorem decodeCapabilityWith_kept_iff (root : Json) :
    ((decodeCapabilityWith size macs left alloc root d).2 = false →
      Kept d (decodeCapabilityWith size macs left alloc root d).1) ↔ Harmless size macs left alloc root d := by
  unfold Harmless decodeCapabilityWith
  cases hname : decodeParamString root "SubDocName" with
  | none =>
      simp [Kept.refl]
  | some name =>
      cases hhost : decodeParamString root "ExternalAgentHostName" with
      | none =>
          simp only [Option.isSome_some, reduceCtorEq, IsEmpty.forall_iff, implies_true, iff_true, forall_const]
          exact ⟨rfl, rfl, rfl, rfl⟩
      | some host =>
          simp only [Option.isSome_some, Option.some.injEq, forall_eq', forall_const]
          cases hcount : decodeParamInteger root "ExternalClientCount" with
          | none =>
              simp only [forall_const]
              exact ⟨fun h => h.agentHostname.symm, fun h => ⟨h.symm, rfl, rfl, rfl⟩⟩
          | some count =>
              simp only
              have hother : Kept d { d with
                    subdocName := (strncpy d.subdocName name 31).getD d.subdocName
                    agentHostname := host
                    totalSupportedClients := BitVec.ofInt 32 count } ↔
                  d.agentHostname = host ∧ d.totalSupportedClients = BitVec.ofInt 32 count :=
                ⟨fun h => ⟨h.agentHostname.symm, h.totalSupportedClients.symm⟩,
                  fun h => ⟨h.1.symm, h.2.symm, rfl, rfl⟩⟩
              split
              · rename_i entries _
                have hrun := decodeClientsWith_eq size macs left alloc entries [] []
                simp only [List.append_nil, List.length_nil] at hrun
                simp only [hrun, decide_eq_false_iff_not]
                apply imp_congr_right
                intro _
                constructor
                · rintro ⟨h₁, h₂, h₃, h₄⟩
                  exact ⟨h₁.symm, h₂.symm, h₃.symm, h₄.symm⟩
                · rintro ⟨h₁, h₂, h₃, h₄⟩
                  exact ⟨h₁.symm, h₂.symm, h₃.symm, h₄.symm⟩
              · simpa using hother

theorem decodeExternalAgentCapabilityWith_kept_iff (response : Bytes) :
    KeptOnError size macs left alloc lib response d ↔ HarmlessResponse size macs left alloc lib response d := by
  unfold KeptOnError HarmlessResponse decodeExternalAgentCapabilityWith
  by_cases hempty : response = []
  · simp [hempty, Kept.refl]
  · simp only [ne_eq, hempty, not_false_eq_true, forall_const]
    cases hparse : lib.parse (cStr response) with
    | none =>
        simp [Kept.refl]
    | some root =>
        simpa using decodeCapabilityWith_kept_iff root

end Decoder

/-! ### The agents of the map -/

section Agents

variable {size : ℕ} {macs : MacLib} {left : ℕ → BitVec 32} {alloc : ℕ → Bool} {lib : CJson}

/-- The clients of an agent as `find_first_free_dev` sees them. -/
def clientsOf (d : AgentDetails) : List StaInfo :=
  d.clientInfo.getD []

/-- The details that a request leaves: the decoded ones where the response was accepted, else the old ones. -/
def requested (size : ℕ) (macs : MacLib) (left : ℕ → BitVec 32) (alloc : ℕ → Bool) (lib : CJson) :
    AgentDetails × Option Bytes → List StaInfo
  | (d, none) => clientsOf d
  | (d, some response) =>
      let r := decodeExternalAgentCapabilityWith size macs left alloc lib response d
      if r.2 = true then clientsOf r.1 else clientsOf d

/-- Over the whole map: when every response is harmless, the search for a free client goes through the
clients of accepted responses and of the details from before, and no others. -/
theorem decodeAgents_clients (agents : List (AgentDetails × Option Bytes))
    (h : ∀ x ∈ agents, ∀ response, x.2 = some response → HarmlessResponse size macs left alloc lib response x.1) :
    (decodeAgents size macs left alloc lib agents).map clientsOf =
      agents.map (requested size macs left alloc lib) := by
  induction agents with
  | nil =>
      rfl
  | cons x agents ih =>
      obtain ⟨hx, hrest⟩ := List.forall_mem_cons.mp h
      obtain ⟨d, answer⟩ := x
      cases answer with
      | none =>
          rw [decodeAgents, List.map_cons, List.map_cons, ih hrest]
          rfl
      | some response =>
          rw [decodeAgents, List.map_cons, List.map_cons, ih hrest]
          congr 1
          simp only [requested]
          split_ifs with hok
          · rfl
          · have hkept := (decodeExternalAgentCapabilityWith_kept_iff response).mpr (hx response rfl) (by simpa using hok)
            rw [clientsOf, hkept.clientInfo, clientsOf]

end Agents

/-! ### A half-decoded agent -/

section Examples

end Examples

end OneWifiTestSuite.AgentDecodeError
