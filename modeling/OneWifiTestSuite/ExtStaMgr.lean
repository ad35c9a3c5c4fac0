import OneWifiTestSuite.AgentCapability

/-!
# The manager of the external stations

`add_sta` marks the first free interface of all agents, asks that agent to run the step, and gives the
step the address of the agent's first interface as its key. `remove_sta` finds the agent by that address
and compares its interfaces with the text of the key. `holds_iff_meets` says for which runs the interfaces
in use are those of the live steps.
-/

namespace OneWifiTestSuite.ExtStaMgr

open ByteRegion AgentJson AgentCapability
open StaMgr (Status)

/-! ### The calls -/

section Calls

/-- `ext_agent_map` in map order, with the `client_info` of each agent in queue order (a missing queue
counts 0), the key of each step's `sta_test_t`, and the steps that were added and not removed. -/
structure State where
  agents : List (List StaInfo)
  key : ℕ → Bytes
  live : List ℕ

/-- What `add_sta` gets from the agent and from the files. -/
structure Answers where
  startCommand : Bool
  testStatus : Bool
  fopen : Bool
  fwrite : Bool
  postFile : Bool

def Answers.ok (o : Answers) : Bool :=
  o.startCommand && o.testStatus && o.fopen && o.fwrite && o.postFile

def StaInfo.set (c : StaInfo) (status : Status) : StaInfo :=
  { c with status := status }

/-- The inner loop of `find_first_free_dev`. -/
def markFirstFree : List StaInfo → Option (List StaInfo)
  | [] => none
  | c :: cs => if c.status = .free then some (StaInfo.set c .inUse :: cs) else (markFirstFree cs).map (c :: ·)

/-- `find_first_free_dev`: the index of the agent, and the agents with its interface in use. -/
def findFirstFreeDev : List (List StaInfo) → Option (ℕ × List (List StaInfo))
  | [] => none
  | cs :: agents =>
      match markFirstFree cs with
      | some cs' => some (0, cs' :: agents)
      | none => (findFirstFreeDev agents).map fun (i, agents') => (i + 1, cs :: agents')

variable (macs : MacLib)

/-- The end of `add_sta`: `queue_peek(client_info, 0)` is in use, and the step has its address. -/
def take (σ : State) (s i : ℕ) : State :=
  match (σ.agents.getD i []).head? with
  | none => σ
  | some c =>
      { agents := σ.agents.modify i fun cs => cs.modify 0 fun c => StaInfo.set c .inUse
        key := Function.update σ.key s (macs.print c.mac)
        live := s :: σ.live }

/-- `add_sta` for the step `s`. -/
def addSta (σ : State) (s : ℕ) (o : Answers) : State :=
  match findFirstFreeDev σ.agents with
  | none => σ
  | some (i, agents) =>
      if o.startCommand = false then { σ with agents := agents }
      else if o.testStatus = false then { σ with agents := agents }
      else if o.fopen = false then { σ with agents := agents }
      else if o.fwrite = false then { σ with agents := agents }
      else if o.postFile = false then { σ with agents := agents }
      else take macs { σ with agents := agents } s i

/-- `get_ext_agent`. -/
def getExtAgent (agents : List (List StaInfo)) (key : Bytes) : Option ℕ :=
  agents.findIdx? fun cs => cs.any fun c => c.mac = macs.read key

/-- The bytes of the key that `memcmp` compares with an address. -/
def firstSix (key : Bytes) : Mac :=
  Vector.ofFn fun i => key.getD i 0

/-- The loop of `remove_sta`. -/
def freeFirst (mac : Mac) : List StaInfo → List StaInfo
  | [] => []
  | c :: cs => if c.mac = mac then StaInfo.set c .free :: cs else c :: freeFirst mac cs

/-- `remove_sta` for the step `s`. -/
def removeSta (σ : State) (s : ℕ) : State :=
  let live := σ.live.filter (· ≠ s)
  match getExtAgent macs σ.agents (σ.key s) with
  | none => { σ with live := live }
  | some i => { σ with agents := σ.agents.modify i (freeFirst (firstSix (σ.key s))), live := live }

inductive Call
  | add (s : ℕ) (o : Answers)
  | remove (s : ℕ)

def step (σ : State) : Call → State
  | .add s o => addSta macs σ s o
  | .remove s => removeSta macs σ s

/-- The manager after `init`: all interfaces are free. -/
def start (agents : List (List (Mac × Bytes))) (key : ℕ → Bytes) : State where
  agents := agents.map fun cs => cs.map fun c => ⟨c.1, c.2, .free⟩
  key := key
  live := []

end Calls

/-! ### Pairing -/

section Pairing

variable (macs : MacLib)

def State.clients (σ : State) : List StaInfo :=
  σ.agents.flatten

/-- An interface is in use if and only if a live step has its address as key, and no two live steps have
the same key. -/
structure Paired (σ : State) : Prop where
  in_use_iff : ∀ c ∈ σ.clients, c.status = .inUse ↔ ∃ s ∈ σ.live, σ.key s = macs.print c.mac
  key_inj : ∀ s ∈ σ.live, ∀ t ∈ σ.live, σ.key s = σ.key t → s = t

/-- An interface once the step `s` gave up its own. -/
def freeOwn (σ : State) (s : ℕ) (c : StaInfo) : StaInfo :=
  if s ∈ σ.live ∧ σ.key s = macs.print c.mac then StaInfo.set c .free else c

/-- A removal frees the interface of its own step, and no other. -/
def Exact (σ : State) : Call → Prop
  | .add _ _ => True
  | .remove s => (removeSta macs σ s).clients = σ.clients.map (freeOwn macs σ s)

/-- Every state of the run is paired, and every removal exact. -/
def Holds (σ : State) : List Call → Prop
  | [] => Paired macs σ
  | call :: calls => Paired macs σ ∧ Exact macs σ call ∧ Holds (step macs σ call) calls

/-- The interface that `remove_sta` frees for a key. -/
def target (σ : State) (key : Bytes) : Option StaInfo :=
  (getExtAgent macs σ.agents key).bind fun i => (σ.agents.getD i []).find? fun c => c.mac = firstSix key

/-- A step may be added when no interface is free, or when nothing fails, the step is not live and the first
free interface is the first one of its agent and has an address of its own. A live step may be removed when
the text of its key starts with the bytes of its address, any other step when its key hits no interface in
use. -/
def Condition (σ : State) : Call → Prop
  | .add s o => ∀ i agents, findFirstFreeDev σ.agents = some (i, agents) →
      o.ok = true ∧ s ∉ σ.live ∧ ∃ c, (σ.agents.getD i []).head? = some c ∧ c.status = .free ∧
        (σ.clients.map StaInfo.mac).count c.mac = 1
  | .remove s =>
      if s ∈ σ.live then firstSix (σ.key s) = macs.read (σ.key s)
      else ∀ c, target macs σ (σ.key s) = some c → c.status = .free

/-- Every call of the run meets the condition. -/
def Meets (σ : State) : List Call → Prop
  | [] => True
  | call :: calls => Condition macs σ call ∧ Meets (step macs σ call) calls

/-- The key of a live step is the address of exactly one interface. -/
structure Inv (σ : State) : Prop where
  paired : Paired macs σ
  key_mac : ∀ s ∈ σ.live, ∃ m, σ.key s = macs.print m ∧ (σ.clients.map StaInfo.mac).count m = 1

end Pairing

/-! ### The lookups -/

section Lookups

theorem markFirstFree_spec {cs cs' : List StaInfo} (h : markFirstFree cs = some cs') :
    ∃ pre c post, cs = pre ++ c :: post ∧ (∀ x ∈ pre, x.status = .inUse) ∧ c.status = .free ∧
      cs' = pre ++ StaInfo.set c .inUse :: post := by
  induction cs generalizing cs' with
  | nil =>
      cases h
  | cons c cs ih =>
      unfold markFirstFree at h
      split_ifs at h with hfree
      · cases h
        exact ⟨[], c, cs, rfl, by simp, hfree, rfl⟩
      · obtain ⟨cs₁, h₁, rfl⟩ := Option.map_eq_some_iff.mp h
        obtain ⟨pre, x, post, rfl, hpre, hx, rfl⟩ := ih h₁
        have huse : c.status = .inUse := by
          cases hc : c.status with
          | free =>
              exact absurd hc hfree
          | inUse =>
              rfl
        exact ⟨c :: pre, x, post, rfl, List.forall_mem_cons.mpr ⟨huse, hpre⟩, hx, rfl⟩

/-- The interface that `find_first_free_dev` marks: those before it in its agent are in use. -/
theorem findFirstFreeDev_spec {agents agents' : List (List StaInfo)} {i : ℕ}
    (h : findFirstFreeDev agents = some (i, agents')) :
    ∃ front pre c post back, agents = front ++ (pre ++ c :: post) :: back ∧ front.length = i ∧
      (∀ x ∈ pre, x.status = .inUse) ∧ c.status = .free ∧
      agents' = front ++ (pre ++ StaInfo.set c .inUse :: post) :: back := by
  induction agents generalizing i agents' with
  | nil =>
      cases h
  | cons cs agents ih =>
      unfold findFirstFreeDev at h
      cases hmark : markFirstFree cs with
      | some cs' =>
          rw [hmark] at h
          cases h
          obtain ⟨pre, c, post, rfl, hpre, hc, rfl⟩ := markFirstFree_spec hmark
          exact ⟨[], pre, c, post, agents, rfl, rfl, hpre, hc, rfl⟩
      | none =>
          rw [hmark] at h
          obtain ⟨⟨j, agents₁⟩, h₁, heq⟩ := Option.map_eq_some_iff.mp h
          cases heq
          obtain ⟨front, pre, c, post, back, rfl, rfl, hpre, hc, rfl⟩ := ih h₁
          exact ⟨cs :: front, pre, c, post, back, rfl, rfl, hpre, hc, rfl⟩

theorem getD_append_length {α : Type} (front : List (List α)) (cs : List α) (back : List (List α)) :
    (front ++ cs :: back).getD front.length [] = cs := by
  simp

theorem modify_append_length {α : Type} (front : List α) (a : α) (back : List α) (f : α → α) :
    (front ++ a :: back).modify front.length f = front ++ f a :: back := by
  induction front with
  | nil =>
      rfl
  | cons x front ih =>
      simpa using ih

variable {macs : MacLib}

theorem getExtAgent_spec {agents : List (List StaInfo)} {key : Bytes} {i : ℕ}
    (h : getExtAgent macs agents key = some i) :
    ∃ front cs back, agents = front ++ cs :: back ∧ front.length = i ∧ ∃ c ∈ cs, c.mac = macs.read key := by
  obtain ⟨hi, hany, -⟩ := List.findIdx?_eq_some_iff_getElem.mp h
  obtain ⟨front, cs, back, heq, hlen, -⟩ := List.exists_of_modify id hi
  refine ⟨front, cs, back, heq, hlen, ?_⟩
  have hcs : agents[i] = cs := by
    subst hlen
    simp [heq]
  rw [hcs] at hany
  simpa using hany

theorem getExtAgent_ne_none {agents : List (List StaInfo)} {key : Bytes} {c : StaInfo} (hc : c ∈ agents.flatten)
    (hmac : c.mac = macs.read key) : getExtAgent macs agents key ≠ none := by
  intro h
  obtain ⟨cs, hcs, hccs⟩ := List.mem_flatten.mp hc
  have := List.findIdx?_eq_none_iff.mp h cs hcs
  rw [List.any_eq_false] at this
  exact this c hccs (by simpa using hmac)

end Lookups

/-! ### Removing -/

section Removing

variable {macs : MacLib} {σ : State}

theorem freeFirst_eq_self_iff (m : Mac) (cs : List StaInfo) :
    freeFirst m cs = cs ↔ ∀ c, cs.find? (fun c => c.mac = m) = some c → c.status = .free := by
  induction cs with
  | nil =>
      simp [freeFirst]
  | cons x cs ih =>
      unfold freeFirst
      by_cases hx : x.mac = m
      · rw [if_pos hx, List.cons.injEq, and_iff_left rfl, List.find?_cons_of_pos (by simpa using hx)]
        constructor
        · intro h c hc
          cases hc
          rw [← h]
          rfl
        · intro h
          have := h x rfl
          cases x
          cases this
          rfl
      · rw [if_neg hx, List.cons_inj_right, ih, List.find?_cons_of_neg (by simpa using hx)]

theorem mem_freeFirst {m : Mac} {cs : List StaInfo} {c : StaInfo} (hc : c ∈ cs) (hne : c.mac ≠ m) :
    c ∈ freeFirst m cs := by
  induction cs with
  | nil =>
      cases hc
  | cons x cs ih =>
      unfold freeFirst
      obtain rfl | hc := List.mem_cons.mp hc
      · rw [if_neg hne]
        exact List.mem_cons_self
      · split_ifs
        · exact List.mem_cons_of_mem _ hc
        · exact List.mem_cons_of_mem _ (ih hc)

/-- An address that no interface has changes nothing. -/
theorem map_free_of_not_mem {m : Mac} {cs : List StaInfo} (h : m ∉ cs.map StaInfo.mac) :
    cs.map (fun c => if c.mac = m then StaInfo.set c .free else c) = cs := by
  refine (List.map_congr_left fun c hc => if_neg ?_).trans (List.map_id cs)
  rintro rfl
  exact h (List.mem_map_of_mem hc)

/-- The first interface with an address is the only one when the address is its own. -/
theorem freeFirst_eq_map {m : Mac} {cs : List StaInfo} (h : (cs.map StaInfo.mac).count m ≤ 1) :
    freeFirst m cs = cs.map fun c => if c.mac = m then StaInfo.set c .free else c := by
  induction cs with
  | nil =>
      rfl
  | cons x cs ih =>
      rw [List.map_cons, List.count_cons] at h
      unfold freeFirst
      by_cases hx : x.mac = m
      · have hnot : m ∉ cs.map StaInfo.mac := by
          refine List.count_eq_zero.mp ?_
          simp only [hx, beq_self_eq_true, if_true] at h
          omega
        rw [if_pos hx, List.map_cons, if_pos hx, map_free_of_not_mem hnot]
      · rw [if_neg hx, List.map_cons, if_neg hx, ih (by omega)]

theorem freeOwn_mac (s : ℕ) (c : StaInfo) : (freeOwn macs σ s c).mac = c.mac := by
  unfold freeOwn
  split_ifs <;> rfl

theorem map_freeOwn_of_not_live {s : ℕ} (hs : s ∉ σ.live) (cs : List StaInfo) : cs.map (freeOwn macs σ s) = cs :=
  (List.map_congr_left fun _ _ => if_neg fun h => hs h.1).trans (List.map_id cs)

theorem removeSta_key (s : ℕ) : (removeSta macs σ s).key = σ.key := by
  unfold removeSta
  dsimp only
  split <;> rfl

theorem removeSta_live (s : ℕ) : (removeSta macs σ s).live = σ.live.filter (· ≠ s) := by
  unfold removeSta
  dsimp only
  split <;> rfl

/-- The agent's part of the interfaces, which `remove_sta` goes through. -/
theorem removeSta_clients (macs : MacLib) (σ : State) (s : ℕ) :
    (getExtAgent macs σ.agents (σ.key s) = none ∧ (removeSta macs σ s).clients = σ.clients) ∨
    ∃ front cs back, σ.clients = front ++ (cs ++ back) ∧ (∃ c ∈ cs, c.mac = macs.read (σ.key s)) ∧
      target macs σ (σ.key s) = cs.find? (fun c => c.mac = firstSix (σ.key s)) ∧
      (removeSta macs σ s).clients = front ++ (freeFirst (firstSix (σ.key s)) cs ++ back) := by
  unfold removeSta State.clients target
  cases hget : getExtAgent macs σ.agents (σ.key s) with
  | none =>
      exact .inl ⟨rfl, rfl⟩
  | some i =>
      obtain ⟨front, cs, back, heq, rfl, hcs⟩ := getExtAgent_spec hget
      refine .inr ⟨front.flatten, cs, back.flatten, ?_, hcs, ?_, ?_⟩
      · rw [heq, List.flatten_append, List.flatten_cons]
      · rw [heq, Option.bind_some, getD_append_length]
      · show (σ.agents.modify front.length (freeFirst (firstSix (σ.key s)))).flatten = _
        rw [heq, modify_append_length, List.flatten_append, List.flatten_cons]

/-- A live step loses its interface exactly when its key also names it as text. -/
theorem exact_live_iff (hmacs : macs.Lawful) (h : Inv macs σ) {s : ℕ} (hs : s ∈ σ.live) :
    Exact macs σ (.remove s) ↔ firstSix (σ.key s) = macs.read (σ.key s) := by
  obtain ⟨m, hkey, hcount⟩ := h.key_mac s hs
  have hread : macs.read (σ.key s) = m := by rw [hkey, hmacs.read_print]
  have hinj : ∀ c : StaInfo, σ.key s = macs.print c.mac ↔ c.mac = m := by
    intro c
    rw [hkey]
    constructor
    · intro he
      rw [← hmacs.read_print c.mac, ← he, hmacs.read_print]
    · rintro rfl
      rfl
  have hown : σ.clients.map (freeOwn macs σ s) =
      σ.clients.map fun c => if c.mac = m then StaInfo.set c .free else c :=
    List.map_congr_left fun c _ => by simp [freeOwn, hs, hinj]
  obtain ⟨c, hc, hcm⟩ := List.mem_map.mp (List.count_pos_iff.mp (by omega : 0 < (σ.clients.map StaInfo.mac).count m))
  obtain ⟨hnone, -⟩ | ⟨front, cs, back, hcl, ⟨x, hx, hxm⟩, -, hrem⟩ := removeSta_clients macs σ s
  · exact absurd hnone (getExtAgent_ne_none hc (hcm.trans hread.symm))
  rw [hread] at hxm
  show (removeSta macs σ s).clients = σ.clients.map (freeOwn macs σ s) ↔ _
  rw [hown, hrem, hread]
  constructor
  · intro heq
    by_contra hne
    have huse : x.status = .inUse :=
      (h.paired.in_use_iff x (by simp [hcl, hx])).mpr ⟨s, hs, (hinj x).mpr hxm⟩
    have hmem : x ∈ front ++ (freeFirst (firstSix (σ.key s)) cs ++ back) := by
      have := mem_freeFirst hx fun e => hne (e.symm.trans hxm)
      simp [this]
    rw [heq] at hmem
    obtain ⟨y, -, rfl⟩ := List.mem_map.mp hmem
    split_ifs at hxm huse with hy
    · cases huse
    · exact hy hxm
  · intro hsix
    rw [hcl, List.map_append, List.map_append, List.count_append, List.count_append] at hcount
    have hpos : 0 < (cs.map StaInfo.mac).count m := List.count_pos_iff.mpr (List.mem_map.mpr ⟨x, hx, hxm⟩)
    rw [hcl, hsix, freeFirst_eq_map (by omega), List.map_append, List.map_append,
      map_free_of_not_mem (List.count_eq_zero.mp (by omega : (front.map StaInfo.mac).count m = 0)),
      map_free_of_not_mem (List.count_eq_zero.mp (by omega : (back.map StaInfo.mac).count m = 0))]

/-- A step that is not live must not hit an interface in use. -/
theorem exact_not_live_iff {s : ℕ} (hs : s ∉ σ.live) :
    Exact macs σ (.remove s) ↔ ∀ c, target macs σ (σ.key s) = some c → c.status = .free := by
  show (removeSta macs σ s).clients = σ.clients.map (freeOwn macs σ s) ↔ _
  rw [map_freeOwn_of_not_live hs]
  obtain ⟨hnone, hrem⟩ | ⟨front, cs, back, hcl, -, htarget, hrem⟩ := removeSta_clients macs σ s
  · simp [hrem, target, hnone]
  · rw [hrem, hcl, htarget, List.append_right_inj, List.append_left_inj, freeFirst_eq_self_iff]

/-- An exact removal keeps the invariant. -/
theorem Inv.remove (h : Inv macs σ) {s : ℕ} (hexact : Exact macs σ (.remove s)) :
    Inv macs (removeSta macs σ s) := by
  have hlive : ∀ t, t ∈ (removeSta macs σ s).live ↔ t ∈ σ.live ∧ t ≠ s := by
    intro t
    simp [removeSta_live]
  refine ⟨⟨?_, ?_⟩, ?_⟩
  · intro c' hc'
    rw [show (removeSta macs σ s).clients = σ.clients.map (freeOwn macs σ s) from hexact] at hc'
    obtain ⟨c, hc, rfl⟩ := List.mem_map.mp hc'
    rw [freeOwn_mac, removeSta_key]
    by_cases hown : s ∈ σ.live ∧ σ.key s = macs.print c.mac
    · have hfree : (freeOwn macs σ s c).status = .free := by simp [freeOwn, hown, StaInfo.set]
      rw [hfree]
      constructor
      · intro h'
        cases h'
      · rintro ⟨t, ht, hkt⟩
        obtain ⟨ht, hne⟩ := (hlive t).mp ht
        exact absurd (h.paired.key_inj t ht s hown.1 (hkt.trans hown.2.symm)) hne
    · rw [freeOwn, if_neg hown, h.paired.in_use_iff c hc]
      constructor
      · rintro ⟨t, ht, hkt⟩
        refine ⟨t, (hlive t).mpr ⟨ht, ?_⟩, hkt⟩
        rintro rfl
        exact hown ⟨ht, hkt⟩
      · rintro ⟨t, ht, hkt⟩
        exact ⟨t, ((hlive t).mp ht).1, hkt⟩
  · intro t ht u hu heq
    rw [removeSta_key] at heq
    exact h.paired.key_inj t ((hlive t).mp ht).1 u ((hlive u).mp hu).1 heq
  · intro t ht
    have hmacs : (removeSta macs σ s).clients.map StaInfo.mac = σ.clients.map StaInfo.mac := by
      rw [show (removeSta macs σ s).clients = σ.clients.map (freeOwn macs σ s) from hexact, List.map_map]
      exact List.map_congr_left fun c _ => freeOwn_mac s c
    rw [removeSta_key, hmacs]
    exact h.key_mac t ((hlive t).mp ht).1

end Removing

/-! ### Adding -/

section Adding

variable {macs : MacLib} {σ : State}

theorem addSta_failed {s i : ℕ} {o : Answers} {agents : List (List StaInfo)}
    (hfind : findFirstFreeDev σ.agents = some (i, agents)) (hok : o.ok = false) :
    addSta macs σ s o = { σ with agents := agents } := by
  obtain ⟨o₁, o₂, o₃, o₄, o₅⟩ := o
  unfold addSta
  rw [hfind]
  simp only [Answers.ok, Bool.and_eq_false_iff] at hok
  simp only
  split_ifs <;> simp_all

theorem addSta_ok {s i : ℕ} {o : Answers} {agents : List (List StaInfo)}
    (hfind : findFirstFreeDev σ.agents = some (i, agents)) (hok : o.ok = true) :
    addSta macs σ s o = take macs { σ with agents := agents } s i := by
  simp only [Answers.ok, Bool.and_eq_true] at hok
  obtain ⟨⟨⟨⟨h₁, h₂⟩, h₃⟩, h₄⟩, h₅⟩ := hok
  simp [addSta, hfind, h₁, h₂, h₃, h₄, h₅]

/-- The first interface of the agent becomes the step's. -/
theorem take_eq (s : ℕ) {front back : List (List StaInfo)} {c : StaInfo} (cs : List StaInfo)
    (h : σ.agents = front ++ (c :: cs) :: back) :
    take macs σ s front.length =
      { agents := front ++ (StaInfo.set c .inUse :: cs) :: back
        key := Function.update σ.key s (macs.print c.mac)
        live := s :: σ.live } := by
  unfold take
  rw [h, getD_append_length]
  simp only [List.head?_cons, modify_append_length]
  rfl

theorem clients_append (key : ℕ → Bytes) (live : List ℕ) (front : List (List StaInfo)) (pre : List StaInfo)
    (c : StaInfo) (post : List StaInfo) (back : List (List StaInfo)) :
    (State.mk (front ++ (pre ++ c :: post) :: back) key live).clients =
      (front.flatten ++ pre) ++ c :: (post ++ back.flatten) := by
  simp [State.clients]

theorem count_mac_eq_one {m : Mac} {front back : List StaInfo} {c : StaInfo} (hc : c.mac = m) :
    ((front ++ c :: back).map StaInfo.mac).count m = 1 ↔ ∀ x ∈ front ++ back, x.mac ≠ m := by
  have hcount : ((front ++ c :: back).map StaInfo.mac).count m = ((front ++ back).map StaInfo.mac).count m + 1 := by
    simp only [List.map_append, List.map_cons, List.count_append, List.count_cons, hc, beq_self_eq_true, if_true]
    omega
  have hzero : ((front ++ back).map StaInfo.mac).count m = 0 ↔ ∀ x ∈ front ++ back, x.mac ≠ m := by
    rw [List.count_eq_zero]
    constructor
    · rintro h x hx rfl
      exact h (List.mem_map_of_mem hx)
    · intro h hm
      obtain ⟨x, hx, rfl⟩ := List.mem_map.mp hm
      exact h x hx rfl
  rw [hcount, ← hzero]
  omega

/-- A step that gets a free interface with an address of its own. -/
theorem Inv.take (hmacs : macs.Lawful) (h : Inv macs σ) {s : ℕ} (hs : s ∉ σ.live) {front back : List StaInfo}
    {c : StaInfo} (hcl : σ.clients = front ++ c :: back) (hfree : c.status = .free)
    (hown : ∀ x ∈ front ++ back, x.mac ≠ c.mac) {τ : State} (hcl' : τ.clients = front ++ StaInfo.set c .inUse :: back)
    (hkey : τ.key = Function.update σ.key s (macs.print c.mac)) (hlive : τ.live = s :: σ.live) : Inv macs τ := by
  have hnone : ¬ ∃ t ∈ σ.live, σ.key t = macs.print c.mac := by
    rw [← h.paired.in_use_iff c (by simp [hcl]), hfree]
    exact fun e => by cases e
  have hkey_self : τ.key s = macs.print c.mac := by rw [hkey, Function.update_self]
  have hkey_of_live : ∀ t ∈ σ.live, τ.key t = σ.key t := by
    intro t ht
    rw [hkey, Function.update_of_ne]
    rintro rfl
    exact hs ht
  refine ⟨⟨?_, ?_⟩, ?_⟩
  · intro x hx
    have hx' : x = StaInfo.set c .inUse ∨ x ∈ front ++ back := by
      rw [hcl'] at hx
      simp only [List.mem_append, List.mem_cons] at hx ⊢
      tauto
    rw [hlive]
    obtain rfl | hx' := hx'
    · exact iff_of_true rfl ⟨s, List.mem_cons_self, hkey_self⟩
    · have hmem : x ∈ σ.clients := by
        rw [hcl]
        simp only [List.mem_append, List.mem_cons] at hx' ⊢
        tauto
      rw [h.paired.in_use_iff x hmem]
      constructor
      · rintro ⟨t, ht, hkt⟩
        exact ⟨t, List.mem_cons_of_mem _ ht, (hkey_of_live t ht).trans hkt⟩
      · rintro ⟨t, ht, hkt⟩
        obtain rfl | ht := List.mem_cons.mp ht
        · rw [hkey_self] at hkt
          have hmac : macs.read (macs.print x.mac) = macs.read (macs.print c.mac) := by rw [hkt]
          rw [hmacs.read_print, hmacs.read_print] at hmac
          exact absurd hmac (hown x hx')
        · exact ⟨t, ht, (hkey_of_live t ht).symm.trans hkt⟩
  · intro t ht u hu heq
    rw [hlive] at ht hu
    obtain rfl | ht' := List.mem_cons.mp ht
    · obtain rfl | hu' := List.mem_cons.mp hu
      · rfl
      · rw [hkey_self, hkey_of_live u hu'] at heq
        exact absurd ⟨u, hu', heq.symm⟩ hnone
    · obtain rfl | hu' := List.mem_cons.mp hu
      · rw [hkey_self, hkey_of_live t ht'] at heq
        exact absurd ⟨t, ht', heq⟩ hnone
      · rw [hkey_of_live t ht', hkey_of_live u hu'] at heq
        exact h.paired.key_inj t ht' u hu' heq
  · intro t ht
    have hmap : τ.clients.map StaInfo.mac = σ.clients.map StaInfo.mac := by
      simp [hcl, hcl', StaInfo.set]
    rw [hmap]
    rw [hlive] at ht
    obtain rfl | ht := List.mem_cons.mp ht
    · exact ⟨c.mac, hkey_self, by rw [hcl]; exact (count_mac_eq_one rfl).mpr hown⟩
    · rw [hkey_of_live t ht]
      exact h.key_mac t ht

/-- A free interface is nobody's. -/
theorem Paired.no_key (h : Paired macs σ) {c : StaInfo} (hc : c ∈ σ.clients) (hfree : c.status = .free) :
    ¬ ∃ t ∈ σ.live, σ.key t = macs.print c.mac := by
  rw [← h.in_use_iff c hc, hfree]
  exact fun e => by cases e

/-- A step that gets the first interface of an agent when that one is in use. -/
theorem not_paired_of_in_use (h : Inv macs σ) {s : ℕ} {front back : List StaInfo} {p c : StaInfo}
    (hcl : σ.clients = front ++ c :: back) (hp : p ∈ front) (huse : p.status = .inUse) (hfree : c.status = .free)
    {τ : State} (hc : StaInfo.set c .inUse ∈ τ.clients) (hkey : τ.key = Function.update σ.key s (macs.print p.mac))
    (hlive : τ.live = s :: σ.live) : ¬ Paired macs τ := by
  intro hpaired
  have hnone := h.paired.no_key (c := c) (by simp [hcl]) hfree
  obtain ⟨u, hu, hku⟩ := (hpaired.in_use_iff _ hc).mp rfl
  rw [hkey, show (StaInfo.set c .inUse).mac = c.mac from rfl] at hku
  by_cases hus : u = s
  · rw [hus, Function.update_self] at hku
    obtain ⟨t, ht, hkt⟩ := (h.paired.in_use_iff p (by simp [hcl, hp])).mp huse
    exact hnone ⟨t, ht, hkt.trans hku⟩
  · rw [Function.update_of_ne hus] at hku
    rw [hlive] at hu
    obtain rfl | hu' := List.mem_cons.mp hu
    · exact hus rfl
    · exact hnone ⟨u, hu', hku⟩

/-- A step that gets a free interface was not live, and the address is the interface's own. -/
theorem own_of_paired (h : Inv macs σ) {s : ℕ} {front back : List StaInfo} {c : StaInfo}
    (hcl : σ.clients = front ++ c :: back) (hfree : c.status = .free) {τ : State}
    (hcl' : τ.clients = front ++ StaInfo.set c .inUse :: back)
    (hkey : τ.key = Function.update σ.key s (macs.print c.mac)) (hlive : τ.live = s :: σ.live)
    (hpaired : Paired macs τ) : s ∉ σ.live ∧ ∀ x ∈ front ++ back, x.mac ≠ c.mac := by
  have hnone := h.paired.no_key (c := c) (by simp [hcl]) hfree
  have hmem : ∀ x ∈ front ++ back, x ∈ σ.clients ∧ x ∈ τ.clients := by
    intro x hx
    simp only [hcl, hcl', List.mem_append, List.mem_cons] at hx ⊢
    tauto
  constructor
  · intro hs
    obtain ⟨m, hm, hcount⟩ := h.key_mac s hs
    obtain ⟨d, hd, hdm⟩ := List.mem_map.mp (List.count_pos_iff.mp (by omega : 0 < (σ.clients.map StaInfo.mac).count m))
    have hduse := (h.paired.in_use_iff d hd).mpr ⟨s, hs, by rw [hm, hdm]⟩
    have hdne : d ∈ front ++ back := by
      rw [hcl] at hd
      simp only [List.mem_append, List.mem_cons] at hd ⊢
      obtain hd | rfl | hd := hd
      · exact .inl hd
      · rw [hfree] at hduse
        cases hduse
      · exact .inr hd
    obtain ⟨u, hu, hku⟩ := (hpaired.in_use_iff d (hmem d hdne).2).mp hduse
    rw [hdm, ← hm, hkey] at hku
    by_cases hus : u = s
    · rw [hus, Function.update_self] at hku
      exact hnone ⟨s, hs, hku.symm⟩
    · rw [Function.update_of_ne hus] at hku
      rw [hlive] at hu
      exact hus (h.paired.key_inj u (List.mem_of_ne_of_mem hus hu) s hs hku)
  · intro x hx hxm
    have huse : x.status = .inUse := by
      refine (hpaired.in_use_iff x (hmem x hx).2).mpr ⟨s, by simp [hlive], ?_⟩
      rw [hkey, Function.update_self, hxm]
    have := (h.paired.in_use_iff x (hmem x hx).1).mp huse
    rw [hxm] at this
    exact hnone this

/-- An addition that leaves the pairing intact meets the condition. -/
theorem condition_of_paired (h : Inv macs σ) {s : ℕ} {o : Answers}
    (hpaired : Paired macs (addSta macs σ s o)) : Condition macs σ (.add s o) := by
  intro i agents hfind
  obtain ⟨front, pre, c, post, back, hagents, rfl, hpre, hfree, rfl⟩ := findFirstFreeDev_spec hfind
  have hcl : σ.clients = (front.flatten ++ pre) ++ c :: (post ++ back.flatten) := by
    rw [← clients_append σ.key σ.live, ← hagents]
  cases hok : o.ok with
  | false =>
      -- the marked interface has no step
      rw [addSta_failed hfind hok] at hpaired
      have huse := (hpaired.in_use_iff (StaInfo.set c .inUse) (by simp [clients_append])).mp rfl
      exact absurd huse (h.paired.no_key (c := c) (by simp [hcl]) hfree)
  | true =>
      rw [addSta_ok hfind hok] at hpaired
      cases pre with
      | cons p pre =>
          rw [take_eq s (pre ++ StaInfo.set c .inUse :: post) rfl] at hpaired
          have huse := hpre p (by simp)
          refine absurd hpaired (not_paired_of_in_use h (p := p) hcl (by simp) huse hfree ?_ rfl rfl)
          simp [State.clients]
      | nil =>
          rw [take_eq s post rfl] at hpaired
          obtain ⟨hs, hown⟩ := own_of_paired h hcl hfree (by simp [State.clients, StaInfo.set]) rfl rfl hpaired
          refine ⟨rfl, hs, c, ?_, hfree, ?_⟩
          · rw [hagents, getD_append_length]
            rfl
          · rw [hcl]
            exact (count_mac_eq_one rfl).mpr hown

/-- An addition that meets the condition keeps the invariant. -/
theorem Inv.add (hmacs : macs.Lawful) (h : Inv macs σ) {s : ℕ} {o : Answers}
    (hcond : Condition macs σ (.add s o)) : Inv macs (addSta macs σ s o) := by
  cases hfind : findFirstFreeDev σ.agents with
  | none =>
      unfold addSta
      rw [hfind]
      exact h
  | some found =>
      obtain ⟨i, agents⟩ := found
      obtain ⟨hok, hs, c', hhead, hfree', hcount⟩ := hcond i agents hfind
      obtain ⟨front, pre, c, post, back, hagents, rfl, hpre, hfree, rfl⟩ := findFirstFreeDev_spec hfind
      have hcl : σ.clients = (front.flatten ++ pre) ++ c :: (post ++ back.flatten) := by
        rw [← clients_append σ.key σ.live, ← hagents]
      rw [hagents, getD_append_length] at hhead
      cases pre with
      | cons p pre =>
          cases hhead
          rw [hpre c' (by simp)] at hfree'
          cases hfree'
      | nil =>
          cases hhead
          rw [addSta_ok hfind hok, take_eq s post rfl]
          rw [hcl] at hcount
          have hown := (count_mac_eq_one rfl).mp hcount
          exact h.take hmacs hs hcl hfree hown (by simp [State.clients, StaInfo.set]) rfl rfl

end Adding

/-! ### Runs -/

section Runs

variable {macs : MacLib} {σ : State}

/-- The condition of a call is exactly what its result needs. -/
theorem condition_iff (hmacs : macs.Lawful) (h : Inv macs σ) (call : Call) :
    Condition macs σ call ↔ Exact macs σ call ∧ Inv macs (step macs σ call) := by
  cases call with
  | add s o =>
      exact ⟨fun hcond => ⟨trivial, h.add hmacs hcond⟩, fun hinv => condition_of_paired h hinv.2.paired⟩
  | remove s =>
      have hexact : Condition macs σ (.remove s) ↔ Exact macs σ (.remove s) := by
        by_cases hs : s ∈ σ.live
        · rw [exact_live_iff hmacs h hs]
          simp [Condition, hs]
        · rw [exact_not_live_iff hs]
          simp [Condition, hs]
      rw [hexact]
      exact ⟨fun he => ⟨he, h.remove he⟩, fun he => he.1⟩

theorem Holds.paired {calls : List Call} (h : Holds macs σ calls) : Paired macs σ := by
  cases calls with
  | nil =>
      exact h
  | cons call calls =>
      exact h.1

/-- From every state that keeps the invariant, a run holds exactly when its calls meet the condition. -/
theorem Inv.holds_iff (hmacs : macs.Lawful) (h : Inv macs σ) (calls : List Call) :
    Holds macs σ calls ↔ Meets macs σ calls := by
  induction calls generalizing σ with
  | nil =>
      exact iff_of_true h.paired trivial
  | cons call calls ih =>
      constructor
      · rintro ⟨-, hexact, hrest⟩
        have hcond : Condition macs σ call := by
          cases call with
          | add s o =>
              exact condition_of_paired h hrest.paired
          | remove s =>
              exact (condition_iff hmacs h _).mpr ⟨hexact, h.remove hexact⟩
        exact ⟨hcond, (ih ((condition_iff hmacs h call).mp hcond).2).mp hrest⟩
      · rintro ⟨hcond, hrest⟩
        obtain ⟨hexact, hinv⟩ := (condition_iff hmacs h call).mp hcond
        exact ⟨h.paired, hexact, (ih hinv).mpr hrest⟩

theorem inv_start (agents : List (List (Mac × Bytes))) (key : ℕ → Bytes) : Inv macs (start agents key) := by
  refine ⟨⟨fun c hc => ?_, fun s hs => by cases hs⟩, fun s hs => by cases hs⟩
  obtain ⟨cs, hcs, hccs⟩ := List.mem_flatten.mp hc
  obtain ⟨as, -, rfl⟩ := List.mem_map.mp hcs
  obtain ⟨a, -, rfl⟩ := List.mem_map.mp hccs
  constructor
  · intro h
    cases h
  · rintro ⟨s, hs, -⟩
    cases hs

/-- **The pool of external stations**: in a run of `add_sta` and `remove_sta` calls the interfaces in use
are always those of the live steps, and each removal frees its own, exactly when every call meets the
condition. -/
theorem holds_iff_meets (hmacs : macs.Lawful) (agents : List (List (Mac × Bytes))) (key : ℕ → Bytes)
    (calls : List Call) : Holds macs (start agents key) calls ↔ Meets macs (start agents key) calls :=
  (inv_start agents key).holds_iff hmacs calls

end Runs

/-! ### Two runs -/

section Examples

/-- Two agents with one interface each. -/
def twoAgents : List (List (Mac × Bytes)) :=
  [[(macOf 2 0 0 0 0 1, text "wlan0")], [(macOf 2 0 0 0 0 2, text "wlan0")]]

def noKey : ℕ → Bytes :=
  fun _ => []

def allOk : Answers :=
  ⟨true, true, true, true, true⟩

/-- An address whose text begins with its own six bytes, and another one. -/
def mirrored : List (List (Mac × Bytes)) :=
  [[(macOf 0x33 0x33 0x3a 0x33 0x33 0x3a, text "wlan0")], [(macOf 2 0 0 0 0 2, text "wlan0")]]

/-- Steps 1 and 2 are added, and no interface is left for step 3 until step 1 is removed; step 4 was never added. -/
theorem holds_addRemove :
    Holds hexMacs (start mirrored noKey)
      [.add 1 allOk, .add 2 allOk, .add 3 allOk, .remove 4, .remove 1, .add 3 allOk] := by
  refine (holds_iff_meets hexMacs_lawful mirrored noKey _).mpr ⟨?_, ?_, ?_, ?_, ?_, ?_, trivial⟩
  · rintro i agents h
    cases h
    exact ⟨rfl, by decide, _, rfl, rfl, by decide⟩
  · rintro i agents h
    cases h
    exact ⟨rfl, by decide, _, rfl, rfl, by decide⟩
  · rintro i agents h
    cases h
  · rintro c h
    cases h
  · unfold Condition
    decide +kernel
  · rintro i agents h
    cases h
    exact ⟨rfl, by decide, _, rfl, rfl, by decide⟩

/-- A step that was added and removed leaves its interface in use. -/
theorem not_holds_remove : ¬ Holds hexMacs (start twoAgents noKey) [.add 1 allOk, .remove 1] := by
  rintro ⟨-, -, -, -, h⟩
  have huse := (h.in_use_iff ⟨macOf 2 0 0 0 0 1, text "wlan0", .inUse⟩ (by decide +kernel)).mp rfl
  obtain ⟨s, hs, -⟩ := huse
  revert hs
  exact List.not_mem_nil

end Examples

end OneWifiTestSuite.ExtStaMgr
