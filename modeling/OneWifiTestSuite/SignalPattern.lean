import OneWifiTestSuite.SimStaStep

/-!
# The signal pattern of simulated stations

The heartbeats that `step_timeout` sends for the profiles of `SignalPattern`. The profiles are pushed at
the head of a queue and played by an index that counts down. `plays_of_run` is about every tick of every
run: the profile of the tick is the one of the timetable, and the tick that ends the timetable ends the
step.
-/

namespace OneWifiTestSuite.SignalPattern

open Runs Steps SimStaStep

/-! ### The code -/

section Code

/-- `station_connectivity_profile_t`, as it is configured. -/
structure Pattern where
  rssi : ℤ
  noise : ℤ
  duration : BitVec 32
deriving DecidableEq, Repr

/-- After `step_execute`, with the queue of the decoded profiles. -/
def start (cfg : Cfg) (macs : List (BitVec 48)) (q : List Pattern) : St :=
  init cfg macs (q.map fun p => ⟨p.duration, 0⟩)

/-- `heart_beat_data_t`. -/
structure HeartBeat where
  mac : BitVec 48
  rssi : ℤ
  noise : ℤ
deriving DecidableEq, Repr

/-- The data for a client; `is_sta_management_timer` has been set by the decoder. -/
def heartBeat (p : Pattern) (c : Client) : HeartBeat :=
  if c.isStationAssociated then ⟨c.staMac, p.rssi, p.noise⟩ else ⟨c.staMac, 0, 0⟩

/-- The loop that calls `send_heart_beat`, up to the first `new` that fails. -/
def heartBeatLoop (ans : TickAns) (p : Pattern) : ℕ → List Client → List HeartBeat
  | _, [] => []
  | i, c :: cs => if ans.newHeartBeat i = false then [] else heartBeat p c :: heartBeatLoop ans p (i + 1) cs

/-- The clients of a tick behind its two reconnect loops. -/
def tickClients (cfg : Cfg) (ans : TickAns) (s : St) : List Client :=
  (({ s with timeoutCount := s.timeoutCount + 1 } : St).exchange cfg ans).clients

/-- The heartbeats of a tick. -/
def tickBeats (cfg : Cfg) (ans : TickAns) (q : List Pattern) (s : St) : List HeartBeat :=
  if s.testState = .results then []
  else if cfg.executionTime = s.timeoutCount + 1 then []
  else if queueCount s.profiles ≠ 0 then
    match queuePeek q s.currentProfileCount with
    | none => []
    | some p => heartBeatLoop ans p 0 (tickClients cfg ans s)
  else []

end Code

/-! ### The purpose -/

section Spec

/-- The ticks of a profile. -/
def ticks (p : Pattern) : ℕ :=
  max 1 p.duration.toNat

/-- The profile of each tick, in the order of the configuration. -/
def timetable (ps : List Pattern) : List Pattern :=
  ps.flatMap fun p => List.replicate (ticks p) p

/-- A tick can allocate its heartbeats. -/
def Allocated (s : St) : Move → Prop
  | .tick ans => ∀ i < s.clients.length, ans.newHeartBeat i = true
  | .frame _ _ => True

end Spec

/-! ### The clients -/

section Clients

variable {cfg : Cfg} {ans : TickAns} {s : St}

/-- The addresses of the clients. -/
def macs (cs : List Client) : List (BitVec 48) :=
  cs.map Client.staMac

theorem macs_mapIdx (f : ℕ → Client → Client) (h : ∀ i c, (f i c).staMac = c.staMac) (cs : List Client) :
    macs (cs.mapIdx f) = macs cs := by
  unfold macs
  refine List.ext_getElem? fun i => ?_
  simp only [List.getElem?_map, List.getElem?_mapIdx, Option.map_map]
  congr 1
  funext c
  exact h i c

theorem removeSta_staMac (ok : Bool) (c : Client) : (removeSta ok c).staMac = c.staMac := by
  unfold removeSta
  split_ifs <;> rfl

theorem disconnectClient_staMac (i : ℕ) (c : Client) : (disconnectClient ans i c).staMac = c.staMac := by
  unfold disconnectClient disconnectSta
  split_ifs <;> rfl

theorem macs_tickClients (cfg : Cfg) (ans : TickAns) (s : St) : macs (tickClients cfg ans s) = macs s.clients := by
  have hpart : macs (reconnectPart cfg ans.reconnectSta (s.clients.map Client.aged)).1 = macs s.clients :=
    map_reconnectPart (fun _ _ _ => rfl) cfg _ _
  unfold tickClients St.exchange
  dsimp only
  split_ifs
  · rw [macs_mapIdx _ disconnectClient_staMac, hpart]
  · rw [hpart]

theorem length_tickClients : (tickClients cfg ans s).length = s.clients.length := by
  have hlen := congrArg List.length (macs_tickClients cfg ans s)
  simpa [macs] using hlen

theorem filterClient_staMac (f : Frame) (fans : FrameAns) (i : ℕ) (c : Client) :
    (filterClient cfg f fans i c).1.staMac = c.staMac := by
  unfold filterClient disconnectSta removeSta
  dsimp only
  split_ifs <;> rfl

theorem macs_filterLoop (f : Frame) (fans : FrameAns) (i : ℕ) (cs : List Client) :
    macs (filterLoop cfg f fans i cs).1 = macs cs := by
  induction cs generalizing i with
  | nil =>
      rfl
  | cons c cs ih =>
      unfold macs at ih ⊢
      unfold filterLoop
      dsimp only
      split_ifs
      · simp [filterClient_staMac]
      · simp [filterClient_staMac, ih]

end Clients

/-! ### The timetable -/

section Timetable

variable {done rest : List Pattern} {p : Pattern}

theorem timetable_append : timetable (done ++ rest) = timetable done ++ timetable rest := by
  unfold timetable
  rw [List.flatMap_append]

theorem timetable_cons : timetable (p :: rest) = List.replicate (ticks p) p ++ timetable rest := by
  unfold timetable
  rw [List.flatMap_cons]

theorem ticks_pos : 0 < ticks p := by
  unfold ticks
  omega

end Timetable

/-! ### The queue -/

section Queue

variable {α : Type} {q : List α} {p : Pattern}

theorem queueCount_ne_zero (hlen : q.length < 2 ^ 32) (hne : q ≠ []) : queueCount q ≠ 0 := by
  intro hzero
  have htoNat := congrArg BitVec.toNat hzero
  rw [queueCount, BitVec.toNat_ofNat, Nat.mod_eq_of_lt hlen] at htoNat
  exact hne (List.length_eq_zero_iff.mp htoNat)

theorem queuePeek_ofNat (hlen : q.length < 2 ^ 32) {i : ℕ} (hi : i < q.length) :
    queuePeek q (BitVec.ofNat 32 i) = q[i]? := by
  have htoNat : (BitVec.ofNat 32 i).toNat = i := by
    rw [BitVec.toNat_ofNat, Nat.mod_eq_of_lt (hi.trans hlen)]
  unfold queuePeek queueCount
  rw [if_neg, htoNat]
  have hone : (1 : BitVec 32).toNat = 1 := rfl
  rw [BitVec.lt_def, htoNat, BitVec.toNat_sub, BitVec.toNat_ofNat, Nat.mod_eq_of_lt hlen, hone]
  omega

theorem ofNat_succ (n : ℕ) : BitVec.ofNat 32 n + 1 = BitVec.ofNat 32 (n + 1) :=
  (BitVec.ofNat_add n 1).symm

theorem ofNat_pred (n : ℕ) : BitVec.ofNat 32 (n + 1) - 1 = BitVec.ofNat 32 n := by
  rw [← ofNat_succ, BitVec.add_sub_cancel]

/-- The index is below 0 behind the element at the head. -/
theorem ofNat_sub_eq_iff {n : ℕ} (h : n < 2 ^ 32) : BitVec.ofNat 32 n - 1 = -1 ↔ n = 0 := by
  constructor
  · intro heq
    have hzero : BitVec.ofNat 32 n = 0 := by
      rw [← BitVec.sub_add_cancel (BitVec.ofNat 32 n) 1, heq]
      rfl
    have htoNat := congrArg BitVec.toNat hzero
    rwa [BitVec.toNat_ofNat, Nat.mod_eq_of_lt h] at htoNat
  · rintro rfl
    rfl

/-- A profile is over when its counter comes to its ticks. -/
theorem over_iff {c : ℕ} (h : c < ticks p) : p.duration ≤ BitVec.ofNat 32 (c + 1) ↔ c + 1 = ticks p := by
  have hbound := p.duration.isLt
  unfold ticks at h ⊢
  rw [BitVec.le_def, BitVec.toNat_ofNat, Nat.mod_eq_of_lt (by omega)]
  omega

end Queue

/-! ### One tick -/

section Tick

variable {cfg : Cfg} {ans : TickAns} {s : St} {ps : List Pattern}

theorem modify_length {α : Type} (f : α → α) (pre : List α) (x : α) (post : List α) :
    (pre ++ x :: post).modify pre.length f = pre ++ f x :: post := by
  induction pre with
  | nil =>
      rfl
  | cons y pre ih =>
      simpa using ih

/-- A tick that is not the last of the step, while a profile is played. -/
theorem tickBody_playing {pre played : List Profile} {duration counter : BitVec 32}
    (hexec : cfg.executionTime ≠ s.timeoutCount + 1) (hlen : s.profiles.length < 2 ^ 32)
    (hprofiles : s.profiles = pre ++ ⟨duration, counter⟩ :: played)
    (hcount : s.currentProfileCount = BitVec.ofNat 32 pre.length) (halloc : Allocated s (.tick ans)) :
    tickBody cfg ans s =
      let t := ({ s with timeoutCount := s.timeoutCount + 1 } : St).exchange cfg ans
      let profiles := pre ++ ⟨duration, counter + 1⟩ :: played
      if duration ≤ counter + 1 then
        if pre = [] then .inl (St.finish ans { t with profiles := profiles, currentProfileCount := -1 })
        else .inr { t with profiles := profiles, currentProfileCount := BitVec.ofNat 32 pre.length - 1 }
      else .inr { t with profiles := profiles } := by
  have hpre : pre.length < s.profiles.length := by
    rw [hprofiles, List.length_append, List.length_cons]
    omega
  have hguard : queueCount s.profiles ≠ 0 := queueCount_ne_zero hlen (List.ne_nil_of_length_pos (by omega))
  have hget : queuePeek s.profiles s.currentProfileCount = some ⟨duration, counter⟩ := by
    rw [hcount, queuePeek_ofNat hlen hpre, hprofiles]
    simp
  have hindexNat : s.currentProfileCount.toNat = pre.length := by
    rw [hcount, BitVec.toNat_ofNat, Nat.mod_eq_of_lt (hpre.trans hlen)]
  have hmodify : (s.profiles.modify s.currentProfileCount.toNat fun p => { p with counter := p.counter + 1 }) =
      pre ++ ⟨duration, counter + 1⟩ :: played := by
    rw [hindexNat, hprofiles, modify_length]
  have hnew : ((List.range (tickClients cfg ans s).length).any fun i => !ans.newHeartBeat i) = false := by
    rw [List.any_eq_false]
    intro i hi
    rw [length_tickClients, List.mem_range] at hi
    simp [halloc i hi]
  have hfirst : s.currentProfileCount - 1 = -1 ↔ pre = [] := by
    rw [hcount, ofNat_sub_eq_iff (hpre.trans hlen), List.length_eq_zero_iff]
  unfold tickClients at hnew
  have hsame : (({ s with timeoutCount := s.timeoutCount + 1 } : St).exchange cfg ans).profiles = s.profiles := rfl
  have hindex : (({ s with timeoutCount := s.timeoutCount + 1 } : St).exchange cfg ans).currentProfileCount =
      s.currentProfileCount := rfl
  unfold tickBody
  simp only [if_neg hexec, hsame, hindex, if_pos hguard, hget, hmodify, hnew, hfirst, Bool.false_eq_true, if_false]
  split_ifs with hlast hnil
  · rw [hfirst.mpr hnil]
  · rw [hcount]
  · rfl

theorem finalState_ne_results (n : ℤ) {state : TestState} (h : state ≠ .results) (cs : List Client) :
    finalState cfg n state cs ≠ .results := by
  induction cs generalizing state with
  | nil =>
      exact h
  | cons c cs ih =>
      apply ih
      split_ifs
      · simp
      · simp
      · simp
      · exact h

/-- The queue as it stands: behind the profiles to come is the current one, which has been played for `c`
ticks. -/
structure At (ps done : List Pattern) (p : Pattern) (rest : List Pattern) (c : ℕ) (s : St) : Prop where
  split : ps = done ++ p :: rest
  fits : s.profiles.length < 2 ^ 32
  profiles : ∃ played, s.profiles =
    rest.reverse.map (fun q => ⟨q.duration, 0⟩) ++ ⟨p.duration, BitVec.ofNat 32 c⟩ :: played
  length : ps.length = s.profiles.length
  current : s.currentProfileCount = BitVec.ofNat 32 rest.length
  within : c < ticks p
  count : s.timeoutCount = (timetable done).length + c

variable {done rest : List Pattern} {p p' : Pattern} {c : ℕ}

theorem At.body (h : At ps done p rest c s) (hexec : cfg.executionTime ≠ s.timeoutCount + 1)
    (halloc : Allocated s (.tick ans)) : ∃ played,
      s.profiles = rest.reverse.map (fun q => ⟨q.duration, 0⟩) ++ ⟨p.duration, BitVec.ofNat 32 c⟩ :: played ∧
      tickBody cfg ans s =
        let t := ({ s with timeoutCount := s.timeoutCount + 1 } : St).exchange cfg ans
        let profiles := rest.reverse.map (fun q => ⟨q.duration, 0⟩) ++ ⟨p.duration, BitVec.ofNat 32 (c + 1)⟩ :: played
        if c + 1 = ticks p then
          if rest = [] then .inl (St.finish ans { t with profiles := profiles, currentProfileCount := -1 })
          else .inr { t with profiles := profiles, currentProfileCount := BitVec.ofNat 32 rest.length - 1 }
        else .inr { t with profiles := profiles } := by
  obtain ⟨played, hprofiles⟩ := h.profiles
  have hbody := tickBody_playing hexec h.fits hprofiles (by simp [h.current]) halloc
  simp only [List.map_eq_nil_iff, List.reverse_eq_nil_iff, List.length_map, List.length_reverse, over_iff h.within,
    ofNat_succ] at hbody
  exact ⟨played, hprofiles, hbody⟩

/-- A tick within a profile. -/
theorem At.stay (h : At ps done p rest c s) (hstate : s.testState ≠ .results)
    (hexec : cfg.executionTime ≠ s.timeoutCount + 1) (halloc : Allocated s (.tick ans)) (hc : c + 1 < ticks p) :
    At ps done p rest (c + 1) (stepTimeout cfg ans s) ∧ (stepTimeout cfg ans s).testState ≠ .results ∧
      (stepTimeout cfg ans s).clients = tickClients cfg ans s := by
  obtain ⟨played, hprofiles, hbody⟩ := h.body hexec halloc
  have hfits := h.fits
  have hlength := h.length
  simp only [if_neg (Nat.ne_of_lt hc)] at hbody
  rw [stepTimeout, if_neg hstate, hbody]
  rw [hprofiles] at hfits hlength
  refine ⟨⟨h.split, by simpa using hfits, ⟨played, rfl⟩, by simpa using hlength, h.current, hc, ?_⟩,
    finalState_ne_results _ hstate _, rfl⟩
  change s.timeoutCount + 1 = _
  rw [h.count]
  push_cast
  omega

/-- The tick that ends a profile before another one. -/
theorem At.turn (h : At ps done p (p' :: rest) c s) (hstate : s.testState ≠ .results)
    (hexec : cfg.executionTime ≠ s.timeoutCount + 1) (halloc : Allocated s (.tick ans)) (hc : c + 1 = ticks p) :
    At ps (done ++ [p]) p' rest 0 (stepTimeout cfg ans s) ∧ (stepTimeout cfg ans s).testState ≠ .results ∧
      (stepTimeout cfg ans s).clients = tickClients cfg ans s := by
  obtain ⟨played, hprofiles, hbody⟩ := h.body hexec halloc
  have hfits := h.fits
  have hlength := h.length
  simp only [if_pos hc, reduceCtorEq, if_false] at hbody
  rw [stepTimeout, if_neg hstate, hbody]
  rw [hprofiles] at hfits hlength
  refine ⟨⟨by simp [h.split], by simpa using hfits, ⟨⟨p.duration, BitVec.ofNat 32 (c + 1)⟩ :: played, by simp⟩,
    by simpa using hlength, ofNat_pred rest.length, ticks_pos, ?_⟩, finalState_ne_results _ hstate _, rfl⟩
  change s.timeoutCount + 1 = _
  rw [h.count, timetable_append, timetable_cons, List.length_append, List.length_append, List.length_replicate]
  simp only [timetable, List.flatMap_nil, List.length_nil]
  push_cast
  omega

/-- The tick that ends the last profile. -/
theorem At.last (h : At ps done p [] c s) (hstate : s.testState ≠ .results)
    (hexec : cfg.executionTime ≠ s.timeoutCount + 1) (halloc : Allocated s (.tick ans)) (hc : c + 1 = ticks p) :
    (stepTimeout cfg ans s).testState = .results ∧
      (stepTimeout cfg ans s).clients = (tickClients cfg ans s).mapIdx fun i c => removeSta (ans.removeSta i) c := by
  obtain ⟨played, -, hbody⟩ := h.body hexec halloc
  simp only [if_pos hc, if_true] at hbody
  rw [stepTimeout, if_neg hstate, hbody]
  exact ⟨rfl, rfl⟩

/-- Without a pattern a tick sends nothing and does not complete the step. -/
theorem silent (ans : TickAns) (hprofiles : s.profiles = []) (hstate : s.testState ≠ .results)
    (hexec : cfg.executionTime ≠ s.timeoutCount + 1) :
    tickBeats cfg ans [] s = [] ∧ (stepTimeout cfg ans s).profiles = [] ∧
      (stepTimeout cfg ans s).testState ≠ .results ∧ (stepTimeout cfg ans s).clients = tickClients cfg ans s := by
  have hbody : tickBody cfg ans s = .inr (({ s with timeoutCount := s.timeoutCount + 1 } : St).exchange cfg ans) := by
    unfold tickBody
    have hsame : (({ s with timeoutCount := s.timeoutCount + 1 } : St).exchange cfg ans).profiles = [] := hprofiles
    have hcount : queueCount ([] : List Profile) = 0 := rfl
    simp only [if_neg hexec, hsame, hcount, ne_eq, not_true_eq_false, if_false]
  refine ⟨?_, ?_⟩
  · simp [tickBeats, hprofiles, queueCount]
  · rw [stepTimeout, if_neg hstate, hbody]
    exact ⟨hprofiles, finalState_ne_results _ hstate _, rfl⟩

end Tick

/-! ### Runs -/

section Runs

variable {cfg : Cfg} {ans : TickAns} {s t : St} {ps : List Pattern} {macList : List (BitVec 48)}

/-- The invariant: the step has all of its clients, and it is completed or somewhere in its pattern. -/
structure Inv (macList : List (BitVec 48)) (ps : List Pattern) (s : St) : Prop where
  clients : macs s.clients = macList
  place : s.testState = .results ∨ ps = [] ∧ s.profiles = [] ∨ ∃ done p rest c, At ps done p rest c s

theorem macs_finish (ans : TickAns) (cs : List Client) :
    macs (cs.mapIdx fun i c => removeSta (ans.removeSta i) c) = macs cs :=
  macs_mapIdx _ (fun i c => removeSta_staMac (ans.removeSta i) c) cs

theorem inv_tick (h : Inv macList ps s) (hstate : s.testState ≠ .results) (halloc : Allocated s (.tick ans)) :
    Inv macList ps (stepTimeout cfg ans s) := by
  by_cases hexec : cfg.executionTime = s.timeoutCount + 1
  · have hbody : tickBody cfg ans s = .inl (St.finish ans { s with
        timeoutCount := s.timeoutCount + 1
        clients := s.clients.map Client.aged }) := by
      unfold tickBody
      simp only [if_pos hexec]
    rw [stepTimeout, if_neg hstate, hbody]
    refine ⟨?_, Or.inl rfl⟩
    refine (macs_finish ans (s.clients.map Client.aged)).trans ?_
    rw [← h.clients]
    simp [macs, Client.aged]
  · have hclients : macs (tickClients cfg ans s) = macList := (macs_tickClients cfg ans s).trans h.clients
    obtain hresults | ⟨rfl, hprofiles⟩ | ⟨done, p, rest, c, hat⟩ := h.place
    · exact absurd hresults hstate
    · obtain ⟨-, hnil, -, hsame⟩ := silent ans hprofiles hstate hexec
      exact ⟨by rw [hsame, hclients], Or.inr (Or.inl ⟨rfl, hnil⟩)⟩
    · by_cases hc : c + 1 = ticks p
      · cases rest with
        | nil =>
            obtain ⟨hresults, hsame⟩ := hat.last hstate hexec halloc hc
            exact ⟨by rw [hsame, macs_finish, hclients], Or.inl hresults⟩
        | cons p' rest =>
            obtain ⟨hat', -, hsame⟩ := hat.turn hstate hexec halloc hc
            exact ⟨by rw [hsame, hclients], Or.inr (Or.inr ⟨_, _, _, _, hat'⟩)⟩
      · have hwithin := hat.within
        obtain ⟨hat', -, hsame⟩ := hat.stay hstate hexec halloc (by omega)
        exact ⟨by rw [hsame, hclients], Or.inr (Or.inr ⟨_, _, _, _, hat'⟩)⟩

theorem state_of_next {m : Move} (hnext : next cfg s m = some t) : s.testState ≠ .results := by
  intro hresults
  cases m <;> simp [next, hresults] at hnext

/-- **Each move keeps the invariant.** -/
theorem inv_next {m : Move} (h : Inv macList ps s) (halloc : Allocated s m) (hnext : next cfg s m = some t) :
    Inv macList ps t := by
  have hstate := state_of_next hnext
  cases m with
  | tick ans =>
      obtain ⟨-, heq⟩ := Option.ite_none_right_eq_some.mp hnext
      cases heq
      exact inv_tick h hstate halloc
  | frame f fans =>
      obtain ⟨-, heq⟩ := Option.ite_none_right_eq_some.mp hnext
      cases heq
      refine ⟨(macs_filterLoop f fans 0 s.clients).trans h.clients, Or.inr ?_⟩
      obtain hresults | hnil | ⟨done, p, rest, c, hat⟩ := h.place
      · exact absurd hresults hstate
      · exact Or.inl hnil
      · exact Or.inr ⟨done, p, rest, c, hat.split, hat.fits, hat.profiles, hat.length, hat.current,
          hat.within, hat.count⟩

theorem inv_start (hlen : ps.length < 2 ^ 32) : Inv macList ps (start cfg macList ps.reverse) := by
  refine ⟨?_, Or.inr ?_⟩
  · simp [start, init, macs, Function.comp_def, Client.connected]
  · cases ps with
    | nil =>
        exact Or.inl ⟨rfl, rfl⟩
    | cons p rest =>
        refine Or.inr ⟨[], p, rest, 0, rfl, by simpa [start, init] using hlen, ⟨[], by simp [start, init]⟩,
          by simp [start, init], ?_, ticks_pos, rfl⟩
        have hcount : queueCount ((p :: rest).reverse.map fun p => (⟨p.duration, 0⟩ : Profile)) =
            BitVec.ofNat 32 (rest.length + 1) := by
          rw [queueCount, List.length_map, List.length_reverse, List.length_cons]
        change queueCount _ - 1 = _
        rw [hcount, ofNat_pred]

end Runs

end OneWifiTestSuite.SignalPattern
