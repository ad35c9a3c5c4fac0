import OneWifiTestSuite.AgentCapability

/-!
# Asking all agents for their capabilities

`get_external_agent_capabilities` asks one agent after the other. Its `response` is one string for the
whole loop: `write_callback` appends to it, and nothing clears it. `isolated_iff` says when every agent's
capabilities come from its own response only.
-/

namespace OneWifiTestSuite.AgentRequests

open ByteRegion RebootFile AgentJson AgentCapability CStrings

/-! ### The requests -/

section Requests

/-- A request of `http_get`: what curl passes to the callback, and whether `RETURN_OK` comes back. -/
structure Request where
  chunks : List Bytes
  ok : Bool

/-- The body of the response, as far as it came. -/
def Request.body (r : Request) : Bytes :=
  r.chunks.flatten

def writeCallback (output contents : Bytes) : Bytes :=
  output ++ contents

/-- `http_get`: the string afterwards, and whether it succeeded. -/
def httpGet (response : Bytes) (r : Request) : Bytes × Bool :=
  (r.chunks.foldl writeCallback response, r.ok)

/-- An agent of the map: its details before, the memory that `new` returns for its Ethernet interfaces
and its request. -/
structure Entry where
  details : AgentDetails
  left : ℕ → BitVec 32
  request : Request

/-- An agent afterwards: its details, and the text they were decoded from. -/
structure Stored where
  details : AgentDetails
  decoded : Option Bytes
deriving DecidableEq

variable (size : ℕ) (macs : MacLib) (lib : CJson)

/-- The loop over the agents; a request that fails leaves its agent as it was. -/
def loop : Bytes → List Entry → List Stored
  | _, [] => []
  | response, a :: agents =>
      let (response, ok) := httpGet response a.request
      if ok then
        ⟨(decodeExternalAgentCapability size macs lib a.left response a.details).1, some response⟩ :: loop response agents
      else
        ⟨a.details, none⟩ :: loop response agents

/-- `get_external_agent_capabilities`. -/
def getExternalAgentCapabilities (agents : List Entry) : List Stored :=
  loop size macs lib [] agents

/-- What an agent's own response makes of it. -/
def own (a : Entry) : Stored :=
  if a.request.ok then
    ⟨(decodeExternalAgentCapability size macs lib a.left a.request.body a.details).1, some a.request.body⟩
  else
    ⟨a.details, none⟩

/-- The details of every agent are decoded from its own response. -/
def Isolated (agents : List Entry) : Prop :=
  getExternalAgentCapabilities size macs lib agents = agents.map (own size macs lib)

/-- No bytes came before a request that succeeds. -/
def Clean (agents : List Entry) : Prop :=
  agents.Pairwise fun earlier a => a.request.ok → earlier.request.body = []

end Requests

/-! ### The string -/

section Response

variable {size : ℕ} {macs : MacLib} {lib : CJson}

theorem foldl_writeCallback (response : Bytes) (chunks : List Bytes) :
    chunks.foldl writeCallback response = response ++ chunks.flatten := by
  induction chunks generalizing response with
  | nil =>
      simp
  | cons chunk chunks ih =>
      rw [List.foldl_cons, ih, writeCallback, List.flatten_cons, List.append_assoc]

theorem httpGet_eq (response : Bytes) (r : Request) : httpGet response r = (response ++ r.body, r.ok) := by
  rw [httpGet, foldl_writeCallback]
  rfl

/-- The loop with the bytes of earlier requests: each agent must stand alone. -/
theorem loop_eq_own_iff (response : Bytes) (agents : List Entry) :
    loop size macs lib response agents = agents.map (own size macs lib) ↔
      (∀ a ∈ agents, a.request.ok → response = []) ∧ Clean agents := by
  induction agents generalizing response with
  | nil =>
      simp [loop, Clean]
  | cons a agents ih =>
      rw [List.map_cons, List.forall_mem_cons, Clean, List.pairwise_cons]
      simp only [loop, httpGet_eq]
      cases hok : a.request.ok with
      | false =>
          have hown : own size macs lib a = ⟨a.details, none⟩ := by simp [own, hok]
          rw [if_neg (by simp), hown, List.cons_inj_right, ih]
          constructor
          · rintro ⟨h, hclean⟩
            have hnil : ∀ b ∈ agents, b.request.ok → response = [] ∧ a.request.body = [] := fun b hb hbok =>
              List.append_eq_nil_iff.mp (h b hb hbok)
            exact ⟨⟨by simp, fun b hb hbok => (hnil b hb hbok).1⟩, fun b hb hbok => (hnil b hb hbok).2, hclean⟩
          · rintro ⟨⟨-, h⟩, h', hclean⟩
            exact ⟨fun b hb hbok => List.append_eq_nil_iff.mpr ⟨h b hb hbok, h' b hb hbok⟩, hclean⟩
      | true =>
          have hown : own size macs lib a = ⟨(decodeExternalAgentCapability size macs lib a.left a.request.body
              a.details).1, some a.request.body⟩ := by simp [own, hok]
          rw [if_pos rfl, hown, List.cons.injEq, ih]
          constructor
          · rintro ⟨h₀, h, hclean⟩
            have hnil : response = [] := by
              have := congrArg Stored.decoded h₀
              simpa using this
            subst hnil
            exact ⟨⟨fun _ => rfl, fun _ _ _ => rfl⟩, fun b hb hbok => by simpa using h b hb hbok, hclean⟩
          · rintro ⟨⟨h₀, h⟩, h', hclean⟩
            have hnil : response = [] := h₀ rfl
            subst hnil
            exact ⟨rfl, fun b hb hbok => by simpa using h' b hb hbok, hclean⟩

/-- **Response isolation** holds exactly when no bytes came before a request that succeeds. -/
theorem isolated_iff (agents : List Entry) : Isolated size macs lib agents ↔ Clean agents := by
  unfold Isolated getExternalAgentCapabilities
  rw [loop_eq_own_iff]
  simp

end Response

/-! ### Two agents -/

section Examples

/-- An agent without clients. -/
def quietAgent (host : CText) : Agent 16 :=
  { lanAgent with agentHostname := host, clientInfo := [], ethClientInterfaces := [] }

def agentA : CText := ⟨text "agent-a", by decide⟩

def agentB : CText := ⟨text "agent-b", by decide⟩

/-- What the library prints for `quietAgent`. -/
def quietText (host : CText) : Bytes :=
  braced (
    text "\n\t\"Version\":\t\"1.0\",\n\t\"SubDocName\":\t\"Agent Capability\",\n" ++
    text "\t\"ExternalAgentMACAddress\":\t\"11:11:11:11:11:01\",\n\t\"ExternalAgentHostName\":\t\"" ++ host.1 ++
    text "\",\n\t\"ExternalAgentIPAddress\":\t\"10.0.0.2\",\n\t\"ExternalClientCount\":\t0,\n" ++
    text "\t\"ExternalClientCapability\":\t[]\n")

/-- The parser reads one document, and ignores what follows it. -/
def firstLib : CJson where
  print := fun _ => []
  parse := fun response =>
    if quietText agentA <+: response then some (encodeCapability hexMacs (quietAgent agentA))
    else if quietText agentB <+: response then some (encodeCapability hexMacs (quietAgent agentB))
    else none

/-- Both agents answer. -/
def twoAgents : List Entry :=
  [⟨newDetails, fun _ => 0, ⟨[quietText agentA], true⟩⟩, ⟨newDetails, fun _ => 0, ⟨[quietText agentB], true⟩⟩]

/-- The names that the two agents answered with, and those that are stored. -/
theorem twoAgents_names :
    (twoAgents.map (own 16 hexMacs firstLib)).map (·.details.agentHostname) = [agentA.1, agentB.1] ∧
      (getExternalAgentCapabilities 16 hexMacs firstLib twoAgents).map (·.details.agentHostname) =
        [agentA.1, agentA.1] := by
  refine ⟨?_, ?_⟩ <;> decide +kernel

/-- The second agent gets the name of the first. -/
theorem not_isolated_twoAgents : ¬ Isolated 16 hexMacs firstLib twoAgents := by
  intro h
  have hnames := twoAgents_names
  rw [h] at hnames
  have heq := hnames.1.symm.trans hnames.2
  revert heq
  decide

end Examples

end OneWifiTestSuite.AgentRequests
