import OneWifiTestSuite.AgentJson
import OneWifiTestSuite.StaMgr

/-!
# The capabilities of the external agent

`encode_external_agent_capability` writes the agent's clients into one array, and
`decode_external_agent_capability` makes the gateway's two queues of them. The decoder sets the status
of a Wi-Fi client, but not the state of an Ethernet interface, whose memory keeps what the allocator
left in it. `restores_iff` is the exact condition for the round trip.
-/

namespace OneWifiTestSuite.AgentCapability

open ByteRegion RebootFile AgentJson CStrings
open StaMgr (Status)

/-! ### The agent -/

section Agent

/-- `sta_info_t` on the agent, whose `wifi_interface_name_t` has `size` bytes. -/
structure WifiClient (size : ℕ) where
  mac : Mac
  interfaceName : CText
  fits : interfaceName.1.length < size
deriving DecidableEq

/-- `eth_dev_info_t` on the agent. -/
structure EthClient where
  mac : Mac
  interfaceName : CText
  ipAddress : CText
deriving DecidableEq

/-- The agent's `wlan_emu_ext_agent_interface_t`; the queues hold the counted clients. -/
structure Agent (size : ℕ) where
  version : CText
  agentMac : Mac
  agentHostname : CText
  agentIpAddress : CText
  clientInfo : List (WifiClient size)
  ethClientInterfaces : List EthClient

variable {size : ℕ} (macs : MacLib)

def Agent.totalSupportedClients (a : Agent size) : BitVec 32 :=
  BitVec.ofNat 32 a.clientInfo.length

def Agent.totalSupportedEthClients (a : Agent size) : BitVec 32 :=
  BitVec.ofNat 32 a.ethClientInterfaces.length

def interfaceTypeEthernet : ℤ := 1

def interfaceTypeWifi : ℤ := 2

def encodeWifi (c : WifiClient size) : Json :=
  .object [("ExternalClientMAC", .string (macs.print c.mac)), ("ExternalClientIntfName", .string c.interfaceName.1),
    ("ExternalClientIntType", .number interfaceTypeWifi)]

def encodeEth (e : EthClient) : Json :=
  .object [("ExternalClientMAC", .string (macs.print e.mac)), ("ExternalClientIntfName", .string e.interfaceName.1),
    ("ExternalClientIntType", .number interfaceTypeEthernet), ("ExternalClientIpAddress", .string e.ipAddress.1)]

/-- The array of `encode_external_agent_capability`: each loop goes up to its count. -/
def encodeClients (a : Agent size) : List Json :=
  (a.clientInfo.take a.totalSupportedClients.toNat).map (encodeWifi macs) ++
    (a.ethClientInterfaces.take a.totalSupportedEthClients.toNat).map (encodeEth macs)

/-- The document of `encode_external_agent_capability`. -/
def encodeCapability (a : Agent size) : Json :=
  .object [("Version", .string a.version.1), ("SubDocName", .string (text "Agent Capability")),
    ("ExternalAgentMACAddress", .string (macs.print a.agentMac)),
    ("ExternalAgentHostName", .string a.agentHostname.1), ("ExternalAgentIPAddress", .string a.agentIpAddress.1),
    ("ExternalClientCount", .number a.totalSupportedClients.toNat),
    ("ExternalClientCapability", .array (encodeClients macs a))]

end Agent

/-! ### The gateway -/

section Gateway

/-- `sta_info_t` on the gateway. -/
structure StaInfo where
  mac : Mac
  interfaceName : Bytes
  status : Status
deriving DecidableEq

/-- `eth_dev_info_t` on the gateway; the state is the number in its memory. -/
structure EthDev where
  interfaceName : Bytes
  mac : Mac
  ipAddress : Bytes
  isIpAssigned : Bool
  state : BitVec 32
deriving DecidableEq

/-- `eth_interface_state_free`. -/
def ethStateFree : BitVec 32 := 0

/-- The gateway's `wlan_emu_ext_agent_interface_t` of an agent. -/
structure AgentDetails where
  subdocName : CharArray 32
  agentHostname : Bytes
  totalSupportedClients : BitVec 32
  clientInfo : Option (List StaInfo)
  ethClientInterfaces : Option (List EthDev)
deriving DecidableEq

variable (size : ℕ) (macs : MacLib)

def decodeEth (left : BitVec 32) (entry : Json) : Option EthDev := do
  let mac ← decodeParamString entry "ExternalClientMAC"
  let name ← decodeParamString entry "ExternalClientIntfName"
  let ip ← decodeParamString entry "ExternalClientIpAddress"
  some ⟨name, macs.read mac, ip, true, left⟩

def decodeWifi (entry : Json) : Option StaInfo := do
  let mac ← decodeParamString entry "ExternalClientMAC"
  let name ← decodeParamString entry "ExternalClientIntfName"
  some ⟨macs.read mac, name.take (size - 1), .free⟩

/-- The loop over the clients; each is pushed onto its queue. The `state` of the `i`-th Ethernet
interface is `left i`, which `new` left in its memory. The flag is false at an early return. -/
def decodeClients (left : ℕ → BitVec 32) : List Json → List StaInfo → List EthDev →
    List StaInfo × List EthDev × Bool
  | [], wifi, eth => (wifi, eth, true)
  | entry :: entries, wifi, eth =>
      match decodeParamInteger entry "ExternalClientIntType" with
      | none => (wifi, eth, false)
      | some type =>
          if type = interfaceTypeEthernet then
            match decodeEth macs (left eth.length) entry with
            | none => (wifi, eth, false)
            | some dev => decodeClients left entries wifi (dev :: eth)
          else if type = interfaceTypeWifi then
            match decodeWifi size macs entry with
            | none => (wifi, eth, false)
            | some info => decodeClients left entries (info :: wifi) eth
          else
            decodeClients left entries wifi eth

/-- `decode_external_agent_capability` behind the parser: the details afterwards, and whether it
succeeded. -/
def decodeCapability (left : ℕ → BitVec 32) (root : Json) (d : AgentDetails) : AgentDetails × Bool :=
  match decodeParamString root "SubDocName" with
  | none => (d, false)
  | some name =>
      let d := { d with subdocName := (strncpy d.subdocName name 31).getD d.subdocName }
      match decodeParamString root "ExternalAgentHostName" with
      | none => (d, false)
      | some host =>
          let d := { d with agentHostname := host }
          match decodeParamInteger root "ExternalClientCount" with
          | none => (d, false)
          | some count =>
              let d := { d with totalSupportedClients := BitVec.ofInt 32 count }
              match root.getObjectItem "ExternalClientCapability" with
              | some (.array entries) =>
                  let (wifi, eth, ok) := decodeClients size macs left entries [] []
                  ({ d with clientInfo := some wifi, ethClientInterfaces := some eth }, ok)
              | _ => (d, false)

/-- `decode_external_agent_capability`. -/
def decodeExternalAgentCapability (lib : CJson) (left : ℕ → BitVec 32) (response : Bytes) (d : AgentDetails) :
    AgentDetails × Bool :=
  if response = [] then
    (d, false)
  else
    match lib.parse (cStr response) with
    | none => (d, false)
    | some root => decodeCapability size macs left root d

end Gateway

/-! ### The round trip -/

section RoundTrip

variable {size : ℕ} (macs : MacLib)

/-- What the gateway must know of an agent: its name, the number of clients and all clients, each free. -/
structure Restored (a : Agent size) (d : AgentDetails) : Prop where
  agentHostname : d.agentHostname = a.agentHostname.1
  total : d.totalSupportedClients.toNat = a.clientInfo.length
  wifi : ∃ infos, d.clientInfo = some infos ∧
    (infos.map fun c => (c.mac, c.interfaceName)).Perm (a.clientInfo.map fun c => (c.mac, c.interfaceName.1)) ∧
    ∀ c ∈ infos, c.status = .free
  eth : ∃ devs, d.ethClientInterfaces = some devs ∧
    (devs.map fun e => (e.mac, e.interfaceName, e.ipAddress)).Perm
      (a.ethClientInterfaces.map fun e => (e.mac, e.interfaceName.1, e.ipAddress.1)) ∧
    ∀ e ∈ devs, e.state = ethStateFree

/-- The decoder accepts what the encoder wrote, and restores the agent. -/
def Restores (lib : CJson) (left : ℕ → BitVec 32) (a : Agent size) (d : AgentDetails) : Prop :=
  (decodeExternalAgentCapability size macs lib left (lib.print (encodeCapability macs a)) d).2 = true ∧
    Restored a (decodeExternalAgentCapability size macs lib left (lib.print (encodeCapability macs a)) d).1

/-- No string is empty, the numbers of clients fit 32 bits, and the memory of the Ethernet interfaces
happened to hold the free state. -/
structure Fits (left : ℕ → BitVec 32) (a : Agent size) : Prop where
  agentHostname : a.agentHostname.1 ≠ []
  wifi_name : ∀ c ∈ a.clientInfo, c.interfaceName.1 ≠ []
  eth_name : ∀ e ∈ a.ethClientInterfaces, e.interfaceName.1 ≠ []
  eth_ip : ∀ e ∈ a.ethClientInterfaces, e.ipAddress.1 ≠ []
  wifi_count : a.clientInfo.length < 2 ^ 32
  eth_count : a.ethClientInterfaces.length < 2 ^ 32
  left_free : ∀ i < a.ethClientInterfaces.length, left i = ethStateFree

end RoundTrip

/-! ### Decoding -/

section Decoding

variable {size : ℕ} {macs : MacLib} {left : ℕ → BitVec 32}

/-- The gateway's copy of a Wi-Fi client. -/
def WifiClient.info (c : WifiClient size) : StaInfo :=
  ⟨c.mac, c.interfaceName.1, .free⟩

/-- The gateway's copies of Ethernet clients, the first one in the `k`-th memory. -/
def ethDevs (left : ℕ → BitVec 32) (k : ℕ) (es : List EthClient) : List EthDev :=
  (es.zipIdx k).map fun x => ⟨x.1.interfaceName.1, x.1.mac, x.1.ipAddress.1, true, left x.2⟩

theorem decodeWifi_encodeWifi (hmacs : macs.Lawful) (c : WifiClient size) :
    decodeWifi size macs (encodeWifi macs c) = if c.interfaceName.1 = [] then none else some c.info := by
  have hmac : decodeParamString (encodeWifi macs c) "ExternalClientMAC" = some (macs.print c.mac) := by
    rw [decodeParamString_of_item (s := macs.print c.mac) (by simp [encodeWifi]), if_neg (hmacs.ne_nil _)]
  have hname : decodeParamString (encodeWifi macs c) "ExternalClientIntfName" =
      if c.interfaceName.1 = [] then none else some c.interfaceName.1 :=
    decodeParamString_of_item (by simp [encodeWifi])
  have htake : c.interfaceName.1.take (size - 1) = c.interfaceName.1 := by
    have := c.fits
    exact List.take_of_length_le (by omega)
  rw [decodeWifi, hmac, hname]
  split_ifs with h
  · rfl
  · simp [WifiClient.info, htake, hmacs.read_print]

theorem decodeEth_encodeEth (hmacs : macs.Lawful) (b : BitVec 32) (e : EthClient) :
    decodeEth macs b (encodeEth macs e) = if e.interfaceName.1 = [] ∨ e.ipAddress.1 = [] then none
      else some ⟨e.interfaceName.1, e.mac, e.ipAddress.1, true, b⟩ := by
  have hmac : decodeParamString (encodeEth macs e) "ExternalClientMAC" = some (macs.print e.mac) := by
    rw [decodeParamString_of_item (s := macs.print e.mac) (by simp [encodeEth]), if_neg (hmacs.ne_nil _)]
  have hname : decodeParamString (encodeEth macs e) "ExternalClientIntfName" =
      if e.interfaceName.1 = [] then none else some e.interfaceName.1 :=
    decodeParamString_of_item (by simp [encodeEth])
  have hip : decodeParamString (encodeEth macs e) "ExternalClientIpAddress" =
      if e.ipAddress.1 = [] then none else some e.ipAddress.1 :=
    decodeParamString_of_item (by simp [encodeEth])
  rw [decodeEth, hmac, hname, hip]
  by_cases h₁ : e.interfaceName.1 = []
  · simp [h₁]
  · by_cases h₂ : e.ipAddress.1 = []
    · simp [h₁, h₂]
    · simp [h₁, h₂, hmacs.read_print]

/-- The loop over the Wi-Fi clients. -/
theorem decodeClients_wifi (left : ℕ → BitVec 32) (hmacs : macs.Lawful) (cs : List (WifiClient size)) (rest : List Json)
    (infos : List StaInfo) (devs : List EthDev) :
    ((∀ c ∈ cs, c.interfaceName.1 ≠ []) → decodeClients size macs left (cs.map (encodeWifi macs) ++ rest) infos devs =
      decodeClients size macs left rest ((cs.map WifiClient.info).reverse ++ infos) devs) ∧
    ((decodeClients size macs left (cs.map (encodeWifi macs) ++ rest) infos devs).2.2 = true →
      ∀ c ∈ cs, c.interfaceName.1 ≠ []) := by
  induction cs generalizing infos with
  | nil =>
      simp
  | cons c cs ih =>
      have htype : decodeParamInteger (encodeWifi macs c) "ExternalClientIntType" = some interfaceTypeWifi :=
        decodeParamInteger_of_item (by simp [encodeWifi])
      have hne : interfaceTypeWifi ≠ interfaceTypeEthernet := by decide
      rw [List.map_cons, List.cons_append]
      simp only [decodeClients, htype, if_neg hne, if_true, decodeWifi_encodeWifi hmacs]
      by_cases hnil : c.interfaceName.1 = []
      · rw [if_pos hnil]
        refine ⟨fun h => absurd hnil (h c (by simp)), fun h => ?_⟩
        cases h
      · rw [if_neg hnil]
        obtain ⟨hrun, hok⟩ := ih (c.info :: infos)
        refine ⟨fun h => ?_, fun h => List.forall_mem_cons.mpr ⟨hnil, hok h⟩⟩
        refine (hrun fun x hx => h x (by simp [hx])).trans ?_
        simp

/-- The loop over the Ethernet clients. -/
theorem decodeClients_eth (hmacs : macs.Lawful) (es : List EthClient) (infos : List StaInfo) (devs : List EthDev) :
    ((∀ e ∈ es, e.interfaceName.1 ≠ [] ∧ e.ipAddress.1 ≠ []) →
      decodeClients size macs left (es.map (encodeEth macs)) infos devs =
        (infos, (ethDevs left devs.length es).reverse ++ devs, true)) ∧
    ((decodeClients size macs left (es.map (encodeEth macs)) infos devs).2.2 = true →
      ∀ e ∈ es, e.interfaceName.1 ≠ [] ∧ e.ipAddress.1 ≠ []) := by
  induction es generalizing devs with
  | nil =>
      simp [decodeClients, ethDevs]
  | cons e es ih =>
      have htype : decodeParamInteger (encodeEth macs e) "ExternalClientIntType" = some interfaceTypeEthernet :=
        decodeParamInteger_of_item (by simp [encodeEth])
      rw [List.map_cons]
      simp only [decodeClients, htype, if_true, decodeEth_encodeEth hmacs]
      by_cases hnil : e.interfaceName.1 = [] ∨ e.ipAddress.1 = []
      · rw [if_pos hnil]
        refine ⟨fun h => absurd hnil (not_or.mpr (h e (by simp))), fun h => ?_⟩
        cases h
      · rw [if_neg hnil]
        obtain ⟨hrun, hok⟩ := ih (⟨e.interfaceName.1, e.mac, e.ipAddress.1, true, left devs.length⟩ :: devs)
        refine ⟨fun h => ?_, fun h => List.forall_mem_cons.mpr ⟨not_or.mp hnil, hok h⟩⟩
        refine (hrun fun x hx => h x (by simp [hx])).trans ?_
        simp [ethDevs, List.zipIdx_cons]

theorem ethDevs_clients (k : ℕ) (es : List EthClient) :
    (ethDevs left k es).map (fun e => (e.mac, e.interfaceName, e.ipAddress)) =
      es.map fun e => (e.mac, e.interfaceName.1, e.ipAddress.1) := by
  induction es generalizing k with
  | nil =>
      rfl
  | cons e es ih =>
      simpa [ethDevs, List.zipIdx_cons] using ih (k + 1)

/-- The interfaces are free when their memory was. -/
theorem ethDevs_free_iff (left : ℕ → BitVec 32) (k : ℕ) (es : List EthClient) :
    (∀ e ∈ ethDevs left k es, e.state = ethStateFree) ↔ ∀ i < es.length, left (k + i) = ethStateFree := by
  induction es generalizing k with
  | nil =>
      simp [ethDevs]
  | cons e es ih =>
      have hcons : ethDevs left k (e :: es) =
          ⟨e.interfaceName.1, e.mac, e.ipAddress.1, true, left k⟩ :: ethDevs left (k + 1) es := rfl
      rw [hcons, List.forall_mem_cons, ih, List.length_cons]
      constructor
      · rintro ⟨h₀, h⟩ i hi
        cases i with
        | zero =>
            exact h₀
        | succ i =>
            have := h i (by omega)
            rwa [show k + (i + 1) = k + 1 + i by omega]
      · intro h
        refine ⟨h 0 (by omega), fun i hi => ?_⟩
        have := h (i + 1) (by omega)
        rwa [show k + 1 + i = k + (i + 1) by omega]

theorem toNat_count_eq_iff (n : ℕ) : (BitVec.ofNat 32 n).toNat = n ↔ n < 2 ^ 32 := by
  rw [BitVec.toNat_ofNat]
  constructor
  · intro h
    rw [← h]
    exact Nat.mod_lt _ (by decide)
  · exact Nat.mod_eq_of_lt

theorem length_take_count {α : Type} {l : List α} (h : (l.take (BitVec.ofNat 32 l.length).toNat).length = l.length) :
    l.length < 2 ^ 32 := by
  rw [← toNat_count_eq_iff]
  rw [List.length_take] at h
  have := Nat.mod_le l.length (2 ^ 32)
  rw [BitVec.toNat_ofNat] at h ⊢
  omega

theorem take_count {α : Type} {l : List α} (h : l.length < 2 ^ 32) : l.take (BitVec.ofNat 32 l.length).toNat = l := by
  rw [(toNat_count_eq_iff _).mpr h, List.take_length]

end Decoding

/-! ### The condition -/

section Condition

variable {size : ℕ} {macs : MacLib} {lib : CJson} {left : ℕ → BitVec 32} {a : Agent size} {d : AgentDetails}

/-- What the decoder makes of the encoded document. -/
theorem decodeCapability_encodeCapability (macs : MacLib) (left : ℕ → BitVec 32) (a : Agent size) (d : AgentDetails) :
    ∃ name, decodeCapability size macs left (encodeCapability macs a) d =
      if a.agentHostname.1 = [] then ({ d with subdocName := name }, false)
      else
        ({ subdocName := name, agentHostname := a.agentHostname.1, totalSupportedClients := a.totalSupportedClients,
           clientInfo := some (decodeClients size macs left (encodeClients macs a) [] []).1,
           ethClientInterfaces := some (decodeClients size macs left (encodeClients macs a) [] []).2.1 },
          (decodeClients size macs left (encodeClients macs a) [] []).2.2) := by
  have hsub : decodeParamString (encodeCapability macs a) "SubDocName" = some (text "Agent Capability") := by
    rw [decodeParamString_of_item (s := text "Agent Capability") (by simp [encodeCapability]), if_neg (by decide)]
  have hhost : decodeParamString (encodeCapability macs a) "ExternalAgentHostName" =
      if a.agentHostname.1 = [] then none else some a.agentHostname.1 :=
    decodeParamString_of_item (by simp [encodeCapability])
  have hcount : decodeParamInteger (encodeCapability macs a) "ExternalClientCount" =
      some (a.totalSupportedClients.toNat : ℤ) := decodeParamInteger_of_item (by simp [encodeCapability])
  have harr : (encodeCapability macs a).getObjectItem "ExternalClientCapability" =
      some (.array (encodeClients macs a)) := by simp [encodeCapability]
  refine ⟨(strncpy d.subdocName (text "Agent Capability") 31).getD d.subdocName, ?_⟩
  unfold decodeCapability
  rw [hsub]
  dsimp only
  rw [hhost]
  split_ifs with h
  · rfl
  · simp [hcount, harr]

theorem restores_of_fits (hmacs : macs.Lawful) (hlib : Reads lib (encodeCapability macs a))
    (hne : lib.print (encodeCapability macs a) ≠ []) (hnul : 0 ∉ lib.print (encodeCapability macs a)) (h : Fits left a) :
    Restores macs lib left a d := by
  obtain ⟨name, hdec⟩ := decodeCapability_encodeCapability macs left a d
  have hrun : decodeClients size macs left (encodeClients macs a) [] [] =
      ((a.clientInfo.map WifiClient.info).reverse, (ethDevs left 0 a.ethClientInterfaces).reverse, true) := by
    unfold encodeClients Agent.totalSupportedClients Agent.totalSupportedEthClients
    rw [take_count h.wifi_count, take_count h.eth_count, (decodeClients_wifi _ hmacs _ _ _ _).1 h.wifi_name,
      (decodeClients_eth hmacs _ _ _).1 fun e he => ⟨h.eth_name e he, h.eth_ip e he⟩]
    simp
  rw [if_neg h.agentHostname, hrun] at hdec
  unfold Restores decodeExternalAgentCapability
  rw [if_neg hne, cStr_eq_self hnul, hlib]
  simp only [hdec, true_and]
  refine ⟨rfl, (toNat_count_eq_iff _).mpr h.wifi_count, ⟨_, rfl, ?_, ?_⟩, ⟨_, rfl, ?_, ?_⟩⟩
  · rw [List.map_reverse, List.map_map]
    exact List.reverse_perm _
  · intro c hc
    obtain ⟨x, -, rfl⟩ := List.mem_map.mp (List.mem_reverse.mp hc)
    rfl
  · rw [List.map_reverse, ethDevs_clients]
    exact List.reverse_perm _
  · intro e he
    have hfree := (ethDevs_free_iff left 0 a.ethClientInterfaces).mpr (by simpa using h.left_free)
    exact hfree e (List.mem_reverse.mp he)

theorem fits_of_restores (hmacs : macs.Lawful) (hlib : Reads lib (encodeCapability macs a))
    (hne : lib.print (encodeCapability macs a) ≠ []) (hnul : 0 ∉ lib.print (encodeCapability macs a))
    (h : Restores macs lib left a d) : Fits left a := by
  obtain ⟨name, hdec⟩ := decodeCapability_encodeCapability macs left a d
  unfold Restores decodeExternalAgentCapability at h
  rw [if_neg hne, cStr_eq_self hnul, hlib] at h
  simp only [hdec] at h
  obtain ⟨hok, hres⟩ := h
  split_ifs at hok hres with hhost
  have hwifi := (decodeClients_wifi _ hmacs _ _ _ _).2 hok
  have hrun := (decodeClients_wifi left hmacs _ ((a.ethClientInterfaces.take
    a.totalSupportedEthClients.toNat).map (encodeEth macs)) [] []).1 hwifi
  rw [encodeClients, hrun] at hok hres
  have heth := (decodeClients_eth hmacs _ _ _).2 hok
  rw [(decodeClients_eth hmacs _ _ _).1 heth] at hres
  obtain ⟨-, -, ⟨infos, hinfos, hperm, -⟩, devs, hdevs, hperm', hfree⟩ := hres
  cases hinfos
  cases hdevs
  have hcount : a.clientInfo.length < 2 ^ 32 := by
    apply length_take_count
    have := hperm.length_eq
    simpa [Agent.totalSupportedClients] using this
  have hcount' : a.ethClientInterfaces.length < 2 ^ 32 := by
    apply length_take_count
    have := hperm'.length_eq
    simpa [Agent.totalSupportedEthClients, ethDevs] using this
  rw [Agent.totalSupportedClients, take_count hcount] at hwifi
  rw [Agent.totalSupportedEthClients, take_count hcount'] at heth hfree
  refine ⟨hhost, hwifi, fun e he => (heth e he).1, fun e he => (heth e he).2, hcount, hcount', ?_⟩
  have := (ethDevs_free_iff left 0 a.ethClientInterfaces).mp fun e he => hfree e (by simpa using he)
  simpa using this

/-- **The capability round trip**: the gateway restores an agent exactly when no string is empty, the
counts fit 32 bits and the memory of the Ethernet interfaces held the free state before. -/
theorem restores_iff (hmacs : macs.Lawful) (hlib : Reads lib (encodeCapability macs a))
    (hne : lib.print (encodeCapability macs a) ≠ []) (hnul : 0 ∉ lib.print (encodeCapability macs a)) :
    Restores macs lib left a d ↔ Fits left a :=
  ⟨fits_of_restores hmacs hlib hne hnul, restores_of_fits hmacs hlib hne hnul⟩

end Condition

/-! ### Agents -/

section Examples

def newDetails : AgentDetails :=
  ⟨zeros 32, [], 0, none, none⟩

/-- An agent with a Wi-Fi and an Ethernet client. -/
def lanAgent : Agent 16 where
  version := ⟨text "1.0", by decide⟩
  agentMac := #v[0x11, 0x11, 0x11, 0x11, 0x11, 1]
  agentHostname := ⟨text "ots_ext_agent", by decide⟩
  agentIpAddress := ⟨text "10.0.0.2", by decide⟩
  clientInfo := [⟨#v[2, 0, 0, 0, 0, 1], ⟨text "wlan0", by decide⟩, by decide⟩]
  ethClientInterfaces := [⟨#v[2, 0, 0, 0, 0, 9], ⟨text "lan3", by decide⟩, ⟨text "10.0.0.3", by decide⟩⟩]

/-- What the library prints for `lanAgent`. -/
def lanText : Bytes :=
  braced (
    text "\n\t\"Version\":\t\"1.0\",\n\t\"SubDocName\":\t\"Agent Capability\",\n" ++
    text "\t\"ExternalAgentMACAddress\":\t\"11:11:11:11:11:01\",\n" ++
    text "\t\"ExternalAgentHostName\":\t\"ots_ext_agent\",\n\t\"ExternalAgentIPAddress\":\t\"10.0.0.2\",\n" ++
    text "\t\"ExternalClientCount\":\t1,\n\t\"ExternalClientCapability\":\t[" ++
    braced (text "\n\t\t\t\"ExternalClientMAC\":\t\"02:00:00:00:00:01\",\n" ++
      text "\t\t\t\"ExternalClientIntfName\":\t\"wlan0\",\n\t\t\t\"ExternalClientIntType\":\t2\n\t\t") ++ text ", " ++
    braced (text "\n\t\t\t\"ExternalClientMAC\":\t\"02:00:00:00:00:09\",\n" ++
      text "\t\t\t\"ExternalClientIntfName\":\t\"lan3\",\n\t\t\t\"ExternalClientIntType\":\t1,\n" ++
      text "\t\t\t\"ExternalClientIpAddress\":\t\"10.0.0.3\"\n\t\t") ++ text "]\n")

def lanLib : CJson :=
  bytesLib (encodeCapability hexMacs lanAgent) lanText

theorem lanLib_reads : Reads lanLib (encodeCapability hexMacs lanAgent) :=
  bytesLib_reads _ _

theorem lanLib_ne_nil : lanLib.print (encodeCapability hexMacs lanAgent) ≠ [] := by
  decide +kernel

theorem lanLib_no_nul : 0 ∉ lanLib.print (encodeCapability hexMacs lanAgent) := by
  simp only [lanLib, bytesLib, lanText, braced, List.mem_append, not_or]
  repeat' apply And.intro
  all_goals exact notMem_text rfl

theorem restores_lanAgent : Restores hexMacs lanLib (fun _ => 0) lanAgent newDetails :=
  (restores_iff hexMacs_lawful lanLib_reads lanLib_ne_nil lanLib_no_nul).mpr
    ⟨by decide, by decide, by decide, by decide, by decide, by decide, by simp [ethStateFree]⟩

/-- Memory that was not 0 makes an Ethernet interface that is not free. -/
theorem not_restores_lanAgent :
    Reads lanLib (encodeCapability hexMacs lanAgent) ∧ ¬ Restores hexMacs lanLib (fun _ => 1) lanAgent newDetails := by
  refine ⟨lanLib_reads, fun h => ?_⟩
  have hfits := fits_of_restores hexMacs_lawful lanLib_reads lanLib_ne_nil lanLib_no_nul h
  exact absurd (hfits.left_free 0 (by decide)) (by decide)

end Examples

end OneWifiTestSuite.AgentCapability
