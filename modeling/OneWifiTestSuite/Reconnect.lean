import OneWifiTestSuite.SimStaStep

/-!
# Reconnecting the clients of a step

`step_timeout` counts a timer for every client that a disconnection was sent to, and calls
`reconnect_sta` for it from `RECONNECT_TIMEOUT` ticks on. Two things go wrong. `step_frame_filter`
clears `is_disconnection_sent` on `eapol-msg3` but not on the association response of an open
network. And the loop over the clients keeps the result of a failed `reconnect_sta` in `ret`, so
that the clients behind do not get their timer back to 0 when theirs succeeds.

`separate_iff` is the exact condition for one tick to treat every client as if it were alone, and
`reconnects_of_run` the result about whole runs.
-/

namespace OneWifiTestSuite.SimStaStep

open Runs Steps

section Separate

variable {ok : ℕ → Bool}

/-- `reconnect_sta` is called for the client on this tick. -/
def Client.due (c : Client) : Bool :=
  c.isDisconnectionSent && reconnectTimeout ≤ c.reconnectTimer + 1

/-- The loop over every client as if there were no other. -/
def separately (ok : ℕ → Bool) : ℕ → List Client → List Client
  | _, [] => []
  | i, c :: cs => (reconnectLoop ok i false [c]).1 ++ separately ok (i + 1) cs

/-- No client that is due succeeds behind one that has failed. -/
def successesFirst (ok : ℕ → Bool) : ℕ → Bool → List Client → Bool
  | _, _, [] => true
  | i, err, c :: cs =>
      if c.due then !(err && ok i) && successesFirst ok (i + 1) (err || !ok i) cs
      else successesFirst ok (i + 1) err cs

/-- What the loop does to a client. -/
def reconnectOne (err ok : Bool) (c : Client) : Client :=
  if c.due then
    { c with
      reconnectTimer := if err || !ok then c.reconnectTimer + 1 else 0
      sinceSuccess := if ok then some 0 else c.sinceSuccess }
  else if c.isDisconnectionSent then { c with reconnectTimer := c.reconnectTimer + 1 }
  else c

/-- The result that the loop carries on. -/
def errAfter (err ok : Bool) (c : Client) : Bool :=
  if c.due then err || !ok else err

def callOf (c : Client) : List Call :=
  if c.due then [⟨c.disconnected, c.sinceSuccess⟩] else []

/-- A turn of the loop. -/
theorem reconnectLoop_cons (ok : ℕ → Bool) (i : ℕ) (err : Bool) (c : Client) (cs : List Client) :
    reconnectLoop ok i err (c :: cs) =
      (reconnectOne err (ok i) c :: (reconnectLoop ok (i + 1) (errAfter err (ok i) c) cs).1,
        callOf c ++ (reconnectLoop ok (i + 1) (errAfter err (ok i) c) cs).2) := by
  rw [reconnectLoop]
  unfold reconnectOne errAfter callOf Client.due
  cases hsent : c.isDisconnectionSent with
  | false =>
      simp
  | true =>
      dsimp only
      generalize c.reconnectTimer + 1 = timer
      by_cases hearly : timer < reconnectTimeout
      · have hle : ¬reconnectTimeout ≤ timer := BitVec.not_le.mpr hearly
        simp [hearly, hle]
      · have hle : reconnectTimeout ≤ timer := BitVec.not_lt.mp hearly
        simp [hearly, hle]

theorem successesFirst_cons (ok : ℕ → Bool) (i : ℕ) (err : Bool) (c : Client) (cs : List Client) :
    successesFirst ok i err (c :: cs) = true ↔
      (c.due = true → err = true → ok i = false) ∧
        successesFirst ok (i + 1) (errAfter err (ok i) c) cs = true := by
  rw [successesFirst]
  unfold errAfter
  cases hdue : c.due with
  | false =>
      simp
  | true =>
      cases err <;> cases ok i <;> simp

/-- The timer of a client that is due has not wrapped around. -/
theorem Client.timer_ne_zero {c : Client} (h : c.due = true) : c.reconnectTimer + 1 ≠ 0#32 := by
  intro hzero
  unfold Client.due at h
  rw [hzero, Bool.and_eq_true, decide_eq_true_eq] at h
  exact absurd h.2 (by decide)

/-- Alone, a client is treated as behind clients that have not failed. -/
theorem reconnectOne_eq_iff (err ok : Bool) (c : Client) :
    reconnectOne err ok c = reconnectOne false ok c ↔ (c.due = true → err = true → ok = false) := by
  have htimer := c.timer_ne_zero
  unfold reconnectOne
  generalize c.reconnectTimer + 1 = timer at htimer
  cases hdue : c.due with
  | false =>
      simp
  | true =>
      have hne := htimer hdue
      cases err <;> cases ok <;> simp [hne]

theorem reconnectLoop_eq_separately_iff (i : ℕ) (err : Bool) (cs : List Client) :
    (reconnectLoop ok i err cs).1 = separately ok i cs ↔ successesFirst ok i err cs = true := by
  induction cs generalizing i err with
  | nil =>
      simp [reconnectLoop, separately, successesFirst]
  | cons c cs ih =>
      have hone : (reconnectLoop ok i false [c]).1 = [reconnectOne false (ok i) c] := by
        rw [reconnectLoop_cons]
        rfl
      rw [separately, hone, reconnectLoop_cons, successesFirst_cons, ← ih, List.singleton_append,
        List.cons.injEq, reconnectOne_eq_iff]

/-- The tick treats every client as if it were the only one. -/
def Separate (cfg : Cfg) (ans : TickAns) (s : St) : Prop :=
  (reconnectPart cfg ans.reconnectSta (s.clients.map Client.aged)).1 =
    if cfg.isReconnectEnabled then separately ans.reconnectSta 0 (s.clients.map Client.aged)
    else s.clients.map Client.aged

/-- **A tick treats every client as if it were alone exactly when no `reconnect_sta` succeeds behind
one that has failed.** -/
theorem separate_iff (cfg : Cfg) (ans : TickAns) (s : St) :
    Separate cfg ans s ↔
      (cfg.isReconnectEnabled = true →
        successesFirst ans.reconnectSta 0 false (s.clients.map Client.aged) = true) := by
  unfold Separate reconnectPart
  split_ifs with henabled
  · rw [reconnectLoop_eq_separately_iff]
    simp [henabled]
  · simp [henabled]

end Separate

section Run

variable {cfg : Cfg} {s s' : St} {ok : ℕ → Bool}

/-- `reconnect_sta` is called for a client that is disconnected, and not within `RECONNECT_TIMEOUT`
ticks of a success. -/
def Call.Good (call : Call) : Prop :=
  call.disconnected = true ∧ ∀ k, call.sinceSuccess = some k → reconnectTimeout.toNat ≤ k

/-- What holds of a client: a disconnection that it was marked with is still the last thing that
happened to it, and its timer counts no more than the ticks since the last success. -/
structure ClientOk (c : Client) : Prop where
  sent : c.isDisconnectionSent = true → c.disconnected = true
  timer : ∀ k, c.sinceSuccess = some k → c.reconnectTimer.toNat ≤ k

/-- The condition on a move: in a tick no `reconnect_sta` succeeds behind one that has failed; and on
an open network no association response comes for a client that is marked as disconnected. -/
def Settles (cfg : Cfg) (s : St) : Move → Prop
  | .tick ans => cfg.isReconnectEnabled = true →
      successesFirst ans.reconnectSta 0 false (s.clients.map Client.aged) = true
  | .frame f _ => cfg.isReconnectEnabled = true → cfg.openSecurity = true → f.ops = .assocResp →
      ∀ c ∈ s.clients, c.staMac = f.clientMacaddr → c.isDisconnectionSent = false

/-- With the tick counted, the timer is behind. -/
structure AgedOk (c : Client) : Prop where
  sent : c.isDisconnectionSent = true → c.disconnected = true
  timer : ∀ k, c.sinceSuccess = some k → c.reconnectTimer.toNat + 1 ≤ k

theorem ClientOk.aged {c : Client} (h : ClientOk c) : AgedOk c.aged := by
  refine ⟨h.sent, fun k hk => ?_⟩
  obtain ⟨k₀, hk₀, rfl⟩ := Option.map_eq_some_iff.mp hk
  have := h.timer k₀ hk₀
  exact Nat.succ_le_succ this

/-- A tick of the timer, which may wrap around. -/
theorem toNat_timer_le (timer : BitVec 32) : (timer + 1).toNat ≤ timer.toNat + 1 := by
  rw [BitVec.toNat_add]
  exact Nat.mod_le _ _

theorem callOf_good {c : Client} (h : AgedOk c) : ∀ call ∈ callOf c, call.Good := by
  intro call hcall
  unfold callOf at hcall
  split_ifs at hcall with hdue
  · rw [List.mem_singleton.mp hcall]
    unfold Client.due at hdue
    rw [Bool.and_eq_true, decide_eq_true_eq] at hdue
    refine ⟨h.sent hdue.1, fun k hk => ?_⟩
    have hcount := h.timer k hk
    have htimer : reconnectTimeout.toNat ≤ (c.reconnectTimer + 1).toNat := hdue.2
    have hwrap := toNat_timer_le c.reconnectTimer
    omega
  · cases hcall

theorem AgedOk.clientOk {c : Client} (h : AgedOk c) : ClientOk c := by
  refine ⟨h.sent, fun k hk => ?_⟩
  have := h.timer k hk
  omega

theorem reconnectOne_ok {c : Client} {err ok : Bool} (h : AgedOk c)
    (hfirst : c.due = true → err = true → ok = false) : ClientOk (reconnectOne err ok c) := by
  unfold reconnectOne
  cases hdue : c.due with
  | false =>
      rw [if_neg Bool.false_ne_true]
      split_ifs
      · exact ⟨h.sent, fun k hk => (toNat_timer_le _).trans (h.timer k hk)⟩
      · exact h.clientOk
  | true =>
      rw [if_pos rfl]
      cases ok with
      | false =>
          refine ⟨h.sent, fun k hk => ?_⟩
          rw [Bool.not_false, Bool.or_true, if_pos rfl]
          exact (toNat_timer_le _).trans (h.timer k (by simpa using hk))
      | true =>
          obtain rfl := Bool.eq_false_iff.mpr fun herr => Bool.noConfusion (hfirst hdue herr)
          exact ⟨h.sent, fun k _ => Nat.zero_le k⟩

/-- The loop over the clients makes good calls and keeps the clients in order. -/
theorem reconnectLoop_ok {i : ℕ} {err : Bool} {cs : List Client} (h : ∀ c ∈ cs, AgedOk c)
    (hfirst : successesFirst ok i err cs = true) :
    (∀ c ∈ (reconnectLoop ok i err cs).1, ClientOk c) ∧
      ∀ call ∈ (reconnectLoop ok i err cs).2, call.Good := by
  induction cs generalizing i err with
  | nil =>
      simp [reconnectLoop]
  | cons c cs ih =>
      rw [successesFirst_cons] at hfirst
      obtain ⟨hclients, hcalls⟩ := ih (fun c hc => h c (List.mem_cons_of_mem _ hc)) hfirst.2
      rw [reconnectLoop_cons]
      refine ⟨fun c' hc' => ?_, fun call hcall => ?_⟩
      · rcases List.mem_cons.mp hc' with rfl | hc'
        · exact reconnectOne_ok (h c List.mem_cons_self) hfirst.1
        · exact hclients c' hc'
      · rcases List.mem_append.mp hcall with hcall | hcall
        · exact callOf_good (h c List.mem_cons_self) call hcall
        · exact hcalls call hcall

theorem disconnectSta_ok {c : Client} (ok : Bool) (h : ClientOk c) : ClientOk (disconnectSta ok c) := by
  unfold disconnectSta
  split_ifs
  · exact ⟨fun _ => rfl, h.timer⟩
  · exact h

theorem removeSta_ok {c : Client} (ok : Bool) (h : ClientOk c) : ClientOk (removeSta ok c) := by
  unfold removeSta
  split_ifs
  · exact ⟨fun _ => rfl, h.timer⟩
  · exact h

theorem disconnectClient_ok {c : Client} (ans : TickAns) (i : ℕ) (h : ClientOk c) :
    ClientOk (disconnectClient ans i c) := by
  unfold disconnectClient
  split_ifs
  · have hsta := disconnectSta_ok (ans.disconnectSta i) h
    exact ⟨hsta.sent, hsta.timer⟩
  · exact h

theorem mapIdx_ok {g : ℕ → Client → Client} (hg : ∀ i c, ClientOk c → ClientOk (g i c))
    {cs : List Client} (h : ∀ c ∈ cs, ClientOk c) : ∀ c ∈ cs.mapIdx g, ClientOk c := by
  intro c hc
  obtain ⟨i, hi, rfl⟩ := List.mem_mapIdx.mp hc
  exact hg i _ (h _ (List.getElem_mem hi))

/-- A frame that ends the association. -/
def Frame.leaves (f : Frame) : Bool := f.ops = .deauth || f.ops = .disassoc

/-- The record of a frame that ends the association. -/
def leftBy (f : Frame) (c : Client) : Client :=
  if f.leaves then { c with disconnected := true } else c

/-- What the filter does with a client that does not reconnect. -/
def droppedBy (cfg : Cfg) (f : Frame) (ok : Bool) (c : Client) : Client :=
  if f.leaves ∧ cfg.isReconnectEnabled = false ∧ c.isStationAssociated then
    removeSta ok { c with isStationAssociated := false }
  else c

/-- What the filter does with a client on the frame that ends a handshake. -/
def joinedBy (cfg : Cfg) (f : Frame) (c : Client) : Client :=
  if cfg.openSecurity then
    if f.ops = .assocResp then { c with isStationAssociated := true, disconnected := false } else c
  else if f.ops = .eapol ∧ f.eapolMsg3 then
    { c with isStationAssociated := true, isDisconnectionSent := false, disconnected := false }
  else c

/-- The client that the filter leaves. -/
theorem filterClient_fst (cfg : Cfg) (f : Frame) (ans : FrameAns) (i : ℕ) (c : Client) :
    (filterClient cfg f ans i c).1 =
      if c.staMac ≠ f.clientMacaddr ∧ c.staMac ≠ f.macaddr ∨ f.nameOk = false then c
      else if f.ops = .deauth ∧ (leftBy f c).isDisconnectionSent = false then
        { disconnectSta (ans.disconnectSta i) (leftBy f c) with isDisconnectionSent := true }
      else
        let c' := droppedBy cfg f (ans.removeSta i) (leftBy f c)
        if c'.staMac = f.clientMacaddr then joinedBy cfg f c' else c' := by
  unfold filterClient
  dsimp only
  rw [apply_ite Prod.fst, apply_ite Prod.fst, apply_ite Prod.fst]
  rfl

theorem leftBy_ok {c : Client} (f : Frame) (h : ClientOk c) : ClientOk (leftBy f c) := by
  unfold leftBy
  split_ifs
  · exact ⟨fun _ => rfl, h.timer⟩
  · exact h

theorem droppedBy_ok {c : Client} (f : Frame) (ok : Bool) (h : ClientOk c) :
    ClientOk (droppedBy cfg f ok c) := by
  unfold droppedBy
  split_ifs
  · exact removeSta_ok ok ⟨h.sent, h.timer⟩
  · exact h

theorem joinedBy_ok {c : Client} {f : Frame}
    (hresp : cfg.openSecurity = true → f.ops = .assocResp → c.isDisconnectionSent = false)
    (h : ClientOk c) : ClientOk (joinedBy cfg f c) := by
  unfold joinedBy
  split_ifs with hopen hops
  · refine ⟨fun hsent => ?_, h.timer⟩
    have := (hresp hopen hops).symm.trans hsent
    cases this
  · exact h
  · exact ⟨fun hsent => Bool.noConfusion hsent, h.timer⟩
  · exact h

/-- On an association response the filter changes nothing before the handshake. -/
theorem droppedBy_leftBy {f : Frame} (hops : f.ops = .assocResp) (ok : Bool) (c : Client) :
    droppedBy cfg f ok (leftBy f c) = c := by
  simp [droppedBy, leftBy, Frame.leaves, hops]

/-- The filter keeps the invariant of a client, but for an association response. -/
theorem filterClient_ok {f : Frame} {ans : FrameAns} {i : ℕ} {c : Client}
    (hresp : cfg.openSecurity = true → f.ops = .assocResp → c.staMac = f.clientMacaddr →
      c.isDisconnectionSent = false) (h : ClientOk c) : ClientOk (filterClient cfg f ans i c).1 := by
  have hleft := leftBy_ok f h
  have hdropped : ClientOk (droppedBy cfg f (ans.removeSta i) (leftBy f c)) := droppedBy_ok f _ hleft
  rw [filterClient_fst]
  dsimp only
  split_ifs with hother hdeauth hclient
  · exact h
  · have hleaves : f.leaves = true := by simp [Frame.leaves, hdeauth.1]
    refine ⟨fun _ => ?_, (disconnectSta_ok (ans.disconnectSta i) hleft).timer⟩
    unfold disconnectSta leftBy
    rw [if_pos hleaves]
    split_ifs <;> rfl
  · refine joinedBy_ok (fun hopen hops => ?_) hdropped
    rw [droppedBy_leftBy hops] at hclient ⊢
    exact hresp hopen hops hclient
  · exact hdropped

theorem filterLoop_ok {f : Frame} {ans : FrameAns} {i : ℕ} {cs : List Client}
    (hresp : cfg.openSecurity = true → f.ops = .assocResp →
      ∀ c ∈ cs, c.staMac = f.clientMacaddr → c.isDisconnectionSent = false)
    (h : ∀ c ∈ cs, ClientOk c) : ∀ c ∈ (filterLoop cfg f ans i cs).1, ClientOk c := by
  induction cs generalizing i with
  | nil =>
      simp [filterLoop]
  | cons c cs ih =>
      have hhead : ClientOk (filterClient cfg f ans i c).1 :=
        filterClient_ok (fun hopen hops => hresp hopen hops c List.mem_cons_self) (h c List.mem_cons_self)
      have htail : ∀ c' ∈ cs, ClientOk c' := fun c' hc' => h c' (List.mem_cons_of_mem _ hc')
      have hrest := ih (i := i + 1)
        (fun hopen hops c' hc' => hresp hopen hops c' (List.mem_cons_of_mem _ hc')) htail
      unfold filterLoop
      dsimp only
      split_ifs
      · exact List.forall_mem_cons.mpr ⟨hhead, htail⟩
      · exact List.forall_mem_cons.mpr ⟨hhead, hrest⟩

/-- What holds of every state: with reconnect enabled the clients are in order, and `reconnect_sta`
has been called rightly. -/
structure RunOk (cfg : Cfg) (s : St) : Prop where
  clients : cfg.isReconnectEnabled = true → ∀ c ∈ s.clients, ClientOk c
  calls : ∀ call ∈ s.calls, call.Good

theorem aged_ok {cs : List Client} (h : ∀ c ∈ cs, ClientOk c) :
    (∀ c ∈ cs.map Client.aged, AgedOk c) ∧ ∀ c ∈ cs.map Client.aged, ClientOk c := by
  have haged : ∀ c ∈ cs.map Client.aged, AgedOk c := by
    intro c hc
    obtain ⟨c₀, hc₀, rfl⟩ := List.mem_map.mp hc
    exact (h c₀ hc₀).aged
  exact ⟨haged, fun c hc => (haged c hc).clientOk⟩

theorem exchange_ok {ans : TickAns} (h : RunOk cfg s)
    (hfirst : cfg.isReconnectEnabled = true →
      successesFirst ans.reconnectSta 0 false (s.clients.map Client.aged) = true) :
    RunOk cfg (s.exchange cfg ans) := by
  unfold St.exchange reconnectPart
  cases henabled : cfg.isReconnectEnabled with
  | false =>
      exact ⟨fun henabled' => Bool.noConfusion (henabled.symm.trans henabled'), by simpa using h.calls⟩
  | true =>
      obtain ⟨hclients, hcalls⟩ :=
        reconnectLoop_ok (aged_ok (h.clients henabled)).1 (hfirst henabled)
      rw [if_pos rfl]
      refine ⟨fun _ => ?_, fun call hcall => ?_⟩
      · dsimp only
        split_ifs
        · exact mapIdx_ok (fun i _ hc => disconnectClient_ok ans i hc) hclients
        · exact hclients
      · rcases List.mem_append.mp hcall with hcall | hcall
        · exact h.calls call hcall
        · exact hcalls call hcall

theorem finish_ok {ans : TickAns} (h : RunOk cfg s) : RunOk cfg (s.finish ans) :=
  ⟨fun henabled => mapIdx_ok (fun _ _ hc => removeSta_ok _ hc) (h.clients henabled), h.calls⟩

theorem tickBody_ok {ans : TickAns} (h : RunOk cfg s) (hsettles : Settles cfg s (.tick ans)) :
    Sum.elim (RunOk cfg) (RunOk cfg) (tickBody cfg ans s) := by
  have haged : RunOk cfg
      { s with timeoutCount := s.timeoutCount + 1, clients := s.clients.map Client.aged } :=
    ⟨fun henabled => (aged_ok (h.clients henabled)).2, h.calls⟩
  have hexchange : RunOk cfg (St.exchange cfg ans { s with timeoutCount := s.timeoutCount + 1 }) :=
    exchange_ok ⟨h.clients, h.calls⟩ hsettles
  unfold tickBody
  dsimp only
  split
  · exact finish_ok haged
  · split
    · split
      · exact hexchange
      · split_ifs
        · exact ⟨hexchange.clients, hexchange.calls⟩
        · exact finish_ok ⟨hexchange.clients, hexchange.calls⟩
        · exact ⟨hexchange.clients, hexchange.calls⟩
        · exact ⟨hexchange.clients, hexchange.calls⟩
    · exact hexchange

theorem stepTimeout_ok {ans : TickAns} (h : RunOk cfg s) (hsettles : Settles cfg s (.tick ans)) :
    RunOk cfg (stepTimeout cfg ans s) := by
  have hbody := tickBody_ok h hsettles
  unfold stepTimeout
  split_ifs
  · exact h
  · cases hend : tickBody cfg ans s with
    | inl t =>
        rw [hend] at hbody
        exact hbody
    | inr t =>
        rw [hend] at hbody
        exact ⟨hbody.clients, hbody.calls⟩

theorem stepFrameFilter_ok {f : Frame} {ans : FrameAns} (h : RunOk cfg s)
    (hsettles : Settles cfg s (.frame f ans)) : RunOk cfg (stepFrameFilter cfg f ans s) :=
  ⟨fun henabled => filterLoop_ok (hsettles henabled) (h.clients henabled), h.calls⟩

theorem next_ok {m : Move} (h : RunOk cfg s) (hsettles : Settles cfg s m)
    (hnext : next cfg s m = some s') : RunOk cfg s' := by
  cases m with
  | tick ans =>
      obtain ⟨-, heq⟩ := Option.ite_none_right_eq_some.mp hnext
      cases heq
      exact stepTimeout_ok h hsettles
  | frame f ans =>
      obtain ⟨-, heq⟩ := Option.ite_none_right_eq_some.mp hnext
      cases heq
      exact stepFrameFilter_ok h hsettles

/-- After `add_sta` nothing is disconnected and nothing has been reconnected. -/
theorem init_ok (macs : List (BitVec 48)) (profiles : List Profile) : RunOk cfg (init cfg macs profiles) := by
  refine ⟨fun _ c hc => ?_, by simp [init]⟩
  obtain ⟨mac, -, rfl⟩ := List.mem_map.mp hc
  exact ⟨fun hsent => Bool.noConfusion hsent, fun _ _ => Nat.zero_le _⟩

/-- **In every run whose moves all meet the condition, `reconnect_sta` is called only for
disconnected clients and not within `RECONNECT_TIMEOUT` ticks of a success, and every such tick
treats each client as if it were alone.** -/
theorem reconnects_of_run {macs : List (BitVec 48)} {profiles : List Profile}
    (hrun : Run (next cfg) (Settles cfg) (init cfg macs profiles) s) :
    (∀ call ∈ s.calls, call.Good) ∧ ∀ ans, Settles cfg s (.tick ans) ↔ Separate cfg ans s := by
  have hok := run_invariant (fun _ _ _ h hsettles hnext => next_ok h hsettles hnext) hrun
    (init_ok macs profiles)
  exact ⟨hok.calls, fun ans => (separate_iff cfg ans s).symm⟩

end Run

section Samples

/-- A step with reconnect enabled. -/
def reconnectCfg (openSecurity : Bool) : Cfg where
  executionTime := 100
  fork := true
  waitConnection := false
  isReconnectEnabled := true
  reconnectInterval := 0
  openSecurity := openSecurity
  captureFrames := true
  captureStaRequests := false
  frm80211Requested := false
  opsRequested _ := false

instance (cfg : Cfg) : ∀ s m, Decidable (Settles cfg s m)
  | _, .tick _ => inferInstanceAs (Decidable (_ → _))
  | s, .frame _ _ => inferInstanceAs (Decidable (_ → _ → _ → ∀ c ∈ s.clients, _ → _))

/-- The access point deauthenticates the first of two clients on a secured network; its timer runs
out; it is reconnected and completes the handshake. -/
def securedRun : List Move :=
  [.frame ⟨.deauth, false, true, 9, 1⟩ frameOk, .tick allOk, .tick allOk, .tick allOk,
    .frame ⟨.eapol, true, true, 9, 1⟩ frameOk]

def securedEnd : St where
  testState := .wait
  timeoutCount := 3
  clients := [⟨1, true, false, 0, false, some 0⟩, Client.connected 2]
  profiles := []
  currentProfileCount := -1
  calls := [⟨true, none⟩]

theorem guarded_securedRun :
    execTo (guarded (next (reconnectCfg false)) (Settles (reconnectCfg false))) (init (reconnectCfg false) [1, 2] [])
      securedRun = some securedEnd := by
  decide

theorem reconnects_of_run_secured :
    (∀ call ∈ securedEnd.calls, call.Good) ∧
      ∀ ans, Settles (reconnectCfg false) securedEnd (.tick ans) ↔
        Separate (reconnectCfg false) ans securedEnd :=
  reconnects_of_run (run_of_guarded guarded_securedRun)

/-- On an open network the association response leaves the client marked as disconnected. -/
def openRun : List Move :=
  [.frame ⟨.deauth, false, true, 9, 1⟩ frameOk, .tick allOk, .tick allOk, .tick allOk,
    .frame ⟨.assocResp, false, true, 9, 1⟩ frameOk, .tick allOk, .tick allOk, .tick allOk]

def openEnd : St where
  testState := .wait
  timeoutCount := 6
  clients := [⟨1, true, true, 0, false, some 0⟩]
  profiles := []
  currentProfileCount := -1
  calls := [⟨true, none⟩, ⟨false, some 3⟩]

theorem execTo_openRun :
    execTo (next (reconnectCfg true)) (init (reconnectCfg true) [1] []) openRun = some openEnd := by
  decide

/-- The second call is made for a client that is associated. -/
theorem not_reconnects_openRun :
    ¬∀ (cfg : Cfg) (macs : List (BitVec 48)) (profiles : List Profile) (s : St),
      Run (next cfg) (fun _ _ => True) (init cfg macs profiles) s →
        (∀ call ∈ s.calls, call.Good) ∧ ∀ ans, Separate cfg ans s := by
  intro hall
  have hcalls := (hall _ _ _ _ (run_of_execTo execTo_openRun)).1
  have hlast := (hcalls ⟨false, some 3⟩ (by decide)).1
  cases hlast

/-- The second of two clients succeeds behind the first, which fails, and its timer runs on. -/
example : successesFirst (fun i => i = 1) 0 false
    [⟨1, false, true, 2, true, none⟩, ⟨2, false, true, 2, true, none⟩] = false ∧
    (reconnectLoop (fun i => i = 1) 0 false
      [⟨1, false, true, 2, true, none⟩, ⟨2, false, true, 2, true, none⟩]).1.map Client.reconnectTimer =
      [3, 3] := by
  decide

end Samples

end OneWifiTestSuite.SimStaStep
