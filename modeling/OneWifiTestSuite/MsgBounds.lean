import OneWifiTestSuite.StaleData

/-!
# The bounds of the message parsers

The number of bytes that `read` returned is not kept, so no parser knows how long the message is.
The parsers of `MsgHdlr` are repeated here with a record of what each `memcpy` reads of `f_tmp`,
writes into its destination, and how much that destination holds (`Access`); `dispatchT_erase` ties
them to the ones without.

No copy is longer than its destination, and the copies take the bytes one after another
(`keeps_dispatchT`), as many as the message claims to have (`dispatch_cur`).
`bounded_iff` is the condition on the bytes.
-/

namespace OneWifiTestSuite.MsgBounds

open ByteRegion MsgHdlr StaleData

section Code

/-- A `memcpy` out of `f_tmp`: from where, how many bytes, and how many the destination holds. -/
structure Access where
  src : ℕ
  len : ℕ
  cap : ℕ
deriving DecidableEq, Repr

/-- The handler with the copies of this message so far. -/
structure Traced where
  h : Handler
  log : List Access

/-- `memcpy` into a field of `cap` bytes. -/
def copyT (f : Field) (cap : ℕ) (t : Traced) : Option Traced :=
  (copy f t.h).map fun h => ⟨h, t.log ++ [⟨t.h.cur, f.len, cap⟩]⟩

/-- `malloc` of `n` bytes and `memcpy` into them. -/
def copyBlockT (f : Field) (n : ℕ) (addr : BitVec 64) (t : Traced) : Option Traced :=
  (copyBlock f n addr t.h).map fun h => ⟨h, t.log ++ [⟨t.h.cur, n, n⟩]⟩

/-- `head->bssid` is not in `f_tmp`. -/
def copyBssidT (addr : BitVec 64) (t : Traced) : Option Traced :=
  (copyBssid addr t.h).map fun h => ⟨h, t.log⟩

/-- A field that is copied whole. -/
def fieldT (f : Field) (t : Traced) : Option Traced :=
  copyT f f.len t

/-- `handle_cfg80211_start_ap`; `ssid` holds 32 bytes. -/
def handleCfg80211StartApT (a : Addrs) (t : Traced) : Option Traced := do
  let t ← fieldT ifindex t
  let t ← fieldT phyIndex t
  let t ← fieldT ssidLen t
  if 32 < t.h.num ssidLen then pure t
  else
    let t ← copyT ⟨ssidOff, t.h.num ssidLen⟩ 32 t
    let t ← fieldT headLen t
    let t ← fieldT tailLen t
    let t ← copyBlockT beaconHead (t.h.num headLen) a.first t
    let t ← copyBlockT beaconTail (t.h.num tailLen) a.second t
    copyBssidT a.first t

/-- `handle_cfg80211_msg`. -/
def handleCfg80211MsgT (a : Addrs) (t : Traced) : Option Traced := do
  let t ← fieldT ops t
  match CfgOps.ofCode (t.h.num ops) with
  | .startAp => handleCfg80211StartApT a t
  | _ => pure t

/-- `handle_frm80211_msg`. -/
def handleFrm80211MsgT (a : Addrs) (t : Traced) : Option Traced := do
  let t ← fieldT ops t
  let t ← fieldT frameLen t
  let t ← copyBlockT frame (t.h.num frameLen) a.first t
  let t ← fieldT macaddr t
  fieldT clientMacaddr t

/-- `handle_emu80211_msg`, with its two cases. -/
def handleEmu80211MsgT (t : Traced) : Option Traced := do
  let t ← fieldT ops t
  match EmuOps.ofCode (t.h.num ops) with
  | .tctrl => do
      let t ← fieldT ctrl t
      let t ← fieldT coverage t
      fieldT testType t
  | .close => fieldT closeFd t
  | _ => pure t

/-- `handle_agent_msg`. -/
def handleAgentMsgT (t : Traced) : Option Traced := do
  let t ← fieldT ops t
  match AgentOps.ofCode (t.h.num ops) with
  | .cmd => fieldT cmd t
  | .data => fieldT agentBuf t
  | .notification => do
      let t ← fieldT subOpsType t
      let t ← fieldT staState t
      let t ← fieldT staMacAddr t
      fieldT bssidMacAddr t
  | .other => pure t

/-- The decoding of what is in `f_tmp`; its type is the first copy. -/
def dispatchT (a : Addrs) (h : Handler) : Option Traced :=
  let t : Traced := ⟨h.begin, [⟨0, 4, 4⟩]⟩
  match MsgType.ofCode (leNat h.begin.type) with
  | .cfg80211 => handleCfg80211MsgT a t
  | .emu80211 => handleEmu80211MsgT t
  | .frm80211 => handleFrm80211MsgT a t
  | .webconfig => fieldT ops t
  | .agent => handleAgentMsgT t
  | _ => some t

end Code

section Erasure

variable {a : Addrs} {t : Traced}

theorem bind_erase {x : Option Traced} {y : Option Handler} {f : Traced → Option Traced}
    {g : Handler → Option Handler} (hx : x.map Traced.h = y) (hf : ∀ t, (f t).map Traced.h = g t.h) :
    (x.bind f).map Traced.h = y.bind g := by
  subst hx
  cases x with
  | none =>
      rfl
  | some t =>
      exact hf t

@[simp]
theorem copyT_erase (f : Field) (cap : ℕ) (t : Traced) : (copyT f cap t).map Traced.h = copy f t.h := by
  simp [copyT, Function.comp_def]

@[simp]
theorem fieldT_erase (f : Field) (t : Traced) : (fieldT f t).map Traced.h = copy f t.h :=
  copyT_erase f f.len t

@[simp]
theorem copyBlockT_erase (f : Field) (n : ℕ) (addr : BitVec 64) (t : Traced) :
    (copyBlockT f n addr t).map Traced.h = copyBlock f n addr t.h := by
  simp [copyBlockT, Function.comp_def]

@[simp]
theorem copyBssidT_erase (addr : BitVec 64) (t : Traced) :
    (copyBssidT addr t).map Traced.h = copyBssid addr t.h := by
  simp [copyBssidT, Function.comp_def]

theorem handleCfg80211StartApT_erase (a : Addrs) (t : Traced) :
    (handleCfg80211StartApT a t).map Traced.h = handleCfg80211StartAp a t.h := by
  refine bind_erase (fieldT_erase _ _) fun t => bind_erase (fieldT_erase _ _) fun t =>
    bind_erase (fieldT_erase _ _) fun t => ?_
  by_cases hlong : 32 < t.h.num ssidLen
  · simp only [if_pos hlong]
    rfl
  · simp only [if_neg hlong]
    exact bind_erase (copyT_erase _ _ _) fun t => bind_erase (fieldT_erase _ _) fun t =>
      bind_erase (fieldT_erase _ _) fun t => bind_erase (copyBlockT_erase _ _ _ _) fun t =>
        bind_erase (copyBlockT_erase _ _ _ _) fun t => copyBssidT_erase _ _

theorem handleCfg80211MsgT_erase (a : Addrs) (t : Traced) :
    (handleCfg80211MsgT a t).map Traced.h = handleCfg80211Msg a t.h := by
  refine bind_erase (fieldT_erase _ _) fun t => ?_
  cases CfgOps.ofCode (t.h.num ops) with
  | startAp => exact handleCfg80211StartApT_erase a t
  | _ => rfl

theorem handleFrm80211MsgT_erase (a : Addrs) (t : Traced) :
    (handleFrm80211MsgT a t).map Traced.h = handleFrm80211Msg a t.h :=
  bind_erase (fieldT_erase _ _) fun _ => bind_erase (fieldT_erase _ _) fun _ =>
    bind_erase (copyBlockT_erase _ _ _ _) fun _ => bind_erase (fieldT_erase _ _) fun _ => fieldT_erase _ _

theorem handleEmu80211MsgT_erase (t : Traced) :
    (handleEmu80211MsgT t).map Traced.h = handleEmu80211Msg t.h := by
  refine bind_erase (fieldT_erase _ _) fun t => ?_
  cases EmuOps.ofCode (t.h.num ops) with
  | tctrl =>
      exact bind_erase (fieldT_erase _ _) fun _ => bind_erase (fieldT_erase _ _) fun _ => fieldT_erase _ _
  | close => exact fieldT_erase _ _
  | _ => rfl

theorem handleAgentMsgT_erase (t : Traced) : (handleAgentMsgT t).map Traced.h = handleAgentMsg t.h := by
  refine bind_erase (fieldT_erase _ _) fun t => ?_
  cases AgentOps.ofCode (t.h.num ops) with
  | cmd => exact fieldT_erase _ _
  | data => exact fieldT_erase _ _
  | notification =>
      exact bind_erase (fieldT_erase _ _) fun _ => bind_erase (fieldT_erase _ _) fun _ =>
        bind_erase (fieldT_erase _ _) fun _ => fieldT_erase _ _
  | other => rfl

/-- Without the record, the parsers are those of the message handler. -/
theorem dispatchT_erase (a : Addrs) (h : Handler) : (dispatchT a h).map Traced.h = dispatch a h := by
  unfold dispatchT dispatch
  cases MsgType.ofCode (leNat h.begin.type) with
  | cfg80211 => exact handleCfg80211MsgT_erase a _
  | emu80211 => exact handleEmu80211MsgT_erase _
  | frm80211 => exact handleFrm80211MsgT_erase a _
  | webconfig => exact fieldT_erase _ _
  | agent => exact handleAgentMsgT_erase _
  | _ => rfl

end Erasure

section Record

variable {a : Addrs} {t : Traced}

/-- What holds of the record at any time: no copy is longer than its destination, and the copies
take the bytes of `f_tmp` one after another up to the cursor. -/
structure Ok (t : Traced) : Prop where
  fits : ∀ x ∈ t.log, x.len ≤ x.cap
  inside : ∀ n, (∀ x ∈ t.log, x.src + x.len ≤ n) ↔ t.h.cur ≤ n

/-- The record is in order when the parser has come this far. -/
def Keeps (x : Option Traced) : Prop :=
  ∀ t, x = some t → Ok t

theorem keeps_pure (ht : Ok t) : Keeps (some t) := by
  rintro _ ⟨⟩
  exact ht

theorem keeps_bind {x : Option Traced} {f : Traced → Option Traced} (hx : Keeps x)
    (hf : ∀ t, Ok t → Keeps (f t)) : Keeps (x.bind f) := by
  intro t' ht'
  obtain ⟨t, ht, hrest⟩ := Option.bind_eq_some_iff.mp ht'
  exact hf t (hx t ht) t' hrest

/-- A copy of the next bytes. -/
theorem Ok.append (ht : Ok t) {h : Handler} {len cap : ℕ} (hcur : h.cur = t.h.cur + len) (hcap : len ≤ cap) :
    Ok ⟨h, t.log ++ [⟨t.h.cur, len, cap⟩]⟩ := by
  refine ⟨fun x hx => ?_, fun n => ?_⟩
  · rcases List.mem_append.mp hx with hx | hx
    · exact ht.fits x hx
    · rw [List.mem_singleton.mp hx]
      exact hcap
  · simp only [List.forall_mem_append, List.forall_mem_singleton, ht.inside n, hcur]
    omega

theorem keeps_copyT (ht : Ok t) {f : Field} {cap : ℕ} (hcap : f.len ≤ cap) : Keeps (copyT f cap t) := by
  intro t' ht'
  unfold copyT copy at ht'
  split_ifs at ht'
  · cases ht'
    exact ht.append rfl hcap
  · cases ht'

theorem keeps_fieldT (ht : Ok t) (f : Field) : Keeps (fieldT f t) :=
  keeps_copyT ht le_rfl

theorem keeps_copyBlockT (ht : Ok t) (f : Field) (n : ℕ) (addr : BitVec 64) :
    Keeps (copyBlockT f n addr t) := by
  intro t' ht'
  unfold copyBlockT copyBlock at ht'
  split_ifs at ht'
  · cases ht'
    exact ht.append rfl le_rfl
  · cases ht'

theorem keeps_copyBssidT (ht : Ok t) (addr : BitVec 64) : Keeps (copyBssidT addr t) := by
  intro t' ht'
  unfold copyBssidT copyBssid at ht'
  split_ifs at ht'
  · cases ht'
    exact ⟨ht.fits, ht.inside⟩
  · cases ht'

theorem keeps_handleCfg80211StartApT (a : Addrs) (ht : Ok t) : Keeps (handleCfg80211StartApT a t) := by
  refine keeps_bind (keeps_fieldT ht _) fun t ht => keeps_bind (keeps_fieldT ht _) fun t ht =>
    keeps_bind (keeps_fieldT ht _) fun t ht => ?_
  by_cases hlong : 32 < t.h.num ssidLen
  · simp only [if_pos hlong]
    exact keeps_pure ht
  · simp only [if_neg hlong]
    exact keeps_bind (keeps_copyT ht (Nat.le_of_not_lt hlong)) fun t ht =>
      keeps_bind (keeps_fieldT ht _) fun t ht => keeps_bind (keeps_fieldT ht _) fun t ht =>
        keeps_bind (keeps_copyBlockT ht _ _ _) fun t ht => keeps_bind (keeps_copyBlockT ht _ _ _) fun t ht =>
          keeps_copyBssidT ht _

theorem keeps_handleCfg80211MsgT (a : Addrs) (ht : Ok t) : Keeps (handleCfg80211MsgT a t) := by
  refine keeps_bind (keeps_fieldT ht _) fun t ht => ?_
  cases CfgOps.ofCode (t.h.num ops) with
  | startAp => exact keeps_handleCfg80211StartApT a ht
  | _ => exact keeps_pure ht

theorem keeps_handleFrm80211MsgT (a : Addrs) (ht : Ok t) : Keeps (handleFrm80211MsgT a t) :=
  keeps_bind (keeps_fieldT ht _) fun _ ht => keeps_bind (keeps_fieldT ht _) fun _ ht =>
    keeps_bind (keeps_copyBlockT ht _ _ _) fun _ ht => keeps_bind (keeps_fieldT ht _) fun _ ht =>
      keeps_fieldT ht _

theorem keeps_handleEmu80211MsgT (ht : Ok t) : Keeps (handleEmu80211MsgT t) := by
  refine keeps_bind (keeps_fieldT ht _) fun t ht => ?_
  cases EmuOps.ofCode (t.h.num ops) with
  | tctrl =>
      exact keeps_bind (keeps_fieldT ht _) fun _ ht => keeps_bind (keeps_fieldT ht _) fun _ ht =>
        keeps_fieldT ht _
  | close => exact keeps_fieldT ht _
  | _ => exact keeps_pure ht

theorem keeps_handleAgentMsgT (ht : Ok t) : Keeps (handleAgentMsgT t) := by
  refine keeps_bind (keeps_fieldT ht _) fun t ht => ?_
  cases AgentOps.ofCode (t.h.num ops) with
  | cmd => exact keeps_fieldT ht _
  | data => exact keeps_fieldT ht _
  | notification =>
      exact keeps_bind (keeps_fieldT ht _) fun _ ht => keeps_bind (keeps_fieldT ht _) fun _ ht =>
        keeps_bind (keeps_fieldT ht _) fun _ ht => keeps_fieldT ht _
  | other => exact keeps_pure ht

/-- **The record of every message is in order**, whatever its bytes are. -/
theorem keeps_dispatchT (a : Addrs) (h : Handler) : Keeps (dispatchT a h) := by
  have hbegin : Ok ⟨h.begin, [⟨0, 4, 4⟩]⟩ :=
    ⟨by simp, fun n => by simp [Handler.begin]⟩
  unfold dispatchT
  cases MsgType.ofCode (leNat h.begin.type) with
  | cfg80211 => exact keeps_handleCfg80211MsgT a hbegin
  | emu80211 => exact keeps_handleEmu80211MsgT hbegin
  | frm80211 => exact keeps_handleFrm80211MsgT a hbegin
  | webconfig => exact keeps_fieldT hbegin _
  | agent => exact keeps_handleAgentMsgT hbegin
  | _ => exact keeps_pure hbegin

end Record

section Cursor

variable {a : Addrs} {h h' : Handler}

theorem copied_of_copy {f : Field} (hrun : copy f h = some h') :
    Copied f f.len h h' ∧ h'.get f = slice h.buf h.cur f.len := by
  by_cases hle : h.cur + f.len ≤ bufSize
  · obtain ⟨h₁, hc₁, hd₁, -, hg₁⟩ := copy_spec hle
    rw [hrun, Option.some.injEq] at hc₁
    subst hc₁
    exact ⟨hd₁, hg₁⟩
  · rw [copy_eq_none hle] at hrun
    cases hrun

theorem copied_of_copyBlock {f : Field} {n : ℕ} {addr : BitVec 64} (hf : f.len = 8)
    (hrun : copyBlock f n addr h = some h') : Copied f n h h' := by
  by_cases hle : h.cur + n ≤ bufSize
  · obtain ⟨h₁, hc₁, hd₁, -⟩ := copyBlock_spec addr hf hle
    rw [hrun, Option.some.injEq] at hc₁
    exact hc₁ ▸ hd₁
  · rw [copyBlock_eq_none hle] at hrun
    cases hrun

theorem copyBssid_cur {addr : BitVec 64} (hrun : copyBssid addr h = some h') : h'.cur = h.cur := by
  unfold copyBssid at hrun
  split_ifs at hrun
  cases hrun
  rfl

/-- The number of bytes that the parser takes; a close message is not delivered, but its descriptor is
read. -/
def takenSize (m : Region) : ℕ :=
  if kindOf m = .emu80211 .close then 12 else wireSize m

/-- The first copy of every parser. -/
theorem copied_ops {next : Handler → Option Handler} (hcur : h.cur = 4)
    (hrun : ((copy ops h).bind next) = some h') :
    ∃ h₁, next h₁ = some h' ∧ Copied ops 4 h h₁ ∧ h₁.cur = 8 ∧ h₁.num ops = leNat (slice h.buf 4 4) := by
  obtain ⟨h₁, hc₁, hrest⟩ := Option.bind_eq_some_iff.mp hrun
  obtain ⟨hd₁, hg₁⟩ := copied_of_copy hc₁
  refine ⟨h₁, hrest, hd₁, ?_, ?_⟩
  · rw [hd₁.cur, hcur]
    rfl
  · rw [Handler.num, hg₁, hcur]
    rfl

theorem handleWebconfigMsg_cur (hcur : h.cur = 4) (hkind : kindOf h.buf = .webconfig)
    (hrun : handleWebconfigMsg h = some h') : h'.cur = takenSize h.buf := by
  rw [(copied_of_copy hrun).1.cur, hcur, takenSize, wireSize, hkind]
  rfl

theorem handleEmu80211Msg_cur (hcur : h.cur = 4)
    (hkind : kindOf h.buf = .emu80211 (.ofCode (leNat (slice h.buf 4 4))))
    (hrun : handleEmu80211Msg h = some h') : h'.cur = takenSize h.buf := by
  obtain ⟨h₁, hrest, -, hcur₁, hnum⟩ := copied_ops hcur hrun
  rw [hnum] at hrest
  rw [takenSize, wireSize, hkind]
  cases hops : EmuOps.ofCode (leNat (slice h.buf 4 4)) with
  | tctrl =>
      simp only [hops, handleEmu80211TypeMsgTctrl, Option.bind_eq_bind, Option.bind_eq_some_iff] at hrest
      obtain ⟨h₂, hc₂, h₃, hc₃, hc₄⟩ := hrest
      rw [(copied_of_copy hc₄).1.cur, (copied_of_copy hc₃).1.cur, (copied_of_copy hc₂).1.cur, hcur₁]
      rfl
  | close =>
      simp only [hops] at hrest
      rw [(copied_of_copy hrest).1.cur, hcur₁]
      rfl
  | _ =>
      simp only [hops] at hrest
      cases hrest
      exact hcur₁

theorem handleAgentMsg_cur (hcur : h.cur = 4)
    (hkind : kindOf h.buf = .agent (.ofCode (leNat (slice h.buf 4 4))))
    (hrun : handleAgentMsg h = some h') : h'.cur = takenSize h.buf := by
  obtain ⟨h₁, hrest, -, hcur₁, hnum⟩ := copied_ops hcur hrun
  rw [hnum] at hrest
  rw [takenSize, wireSize, hkind]
  cases hops : AgentOps.ofCode (leNat (slice h.buf 4 4)) with
  | notification =>
      simp only [hops, Option.bind_eq_bind, Option.bind_eq_some_iff] at hrest
      obtain ⟨h₂, hc₂, h₃, hc₃, h₄, hc₄, hc₅⟩ := hrest
      rw [(copied_of_copy hc₅).1.cur, (copied_of_copy hc₄).1.cur, (copied_of_copy hc₃).1.cur,
        (copied_of_copy hc₂).1.cur, hcur₁]
      rfl
  | other =>
      simp only [hops] at hrest
      cases hrest
      exact hcur₁
  | _ =>
      simp only [hops] at hrest
      rw [(copied_of_copy hrest).1.cur, hcur₁]
      rfl

theorem handleFrm80211Msg_cur (hcur : h.cur = 4) (hkind : kindOf h.buf = .frm80211)
    (hrun : handleFrm80211Msg a h = some h') : h'.cur = takenSize h.buf := by
  obtain ⟨h₁, hrest, hd₁, hcur₁, -⟩ := copied_ops hcur hrun
  simp only [Option.bind_eq_bind, Option.bind_eq_some_iff] at hrest
  obtain ⟨h₂, hc₂, h₃, hc₃, h₄, hc₄, hc₅⟩ := hrest
  obtain ⟨hd₂, hg₂⟩ := copied_of_copy hc₂
  have hlen : h₂.num frameLen = leNat (slice h.buf 8 4) := by
    rw [Handler.num, hg₂, hcur₁, hd₁.buf]
    rfl
  rw [(copied_of_copy hc₅).1.cur, (copied_of_copy hc₄).1.cur, (copied_of_copyBlock rfl hc₃).cur, hd₂.cur,
    hcur₁, hlen, takenSize, wireSize, hkind]
  simp only [frameLen, macaddr, clientMacaddr, reduceCtorEq, if_false]
  omega

theorem handleCfg80211StartAp_cur (hcur : h.cur = 8) (hkind : kindOf h.buf = .cfg80211 .startAp)
    (hrun : handleCfg80211StartAp a h = some h') : h'.cur = takenSize h.buf := by
  rw [takenSize, wireSize, hkind]
  by_cases hlong : 32 < ssidLenOf h.buf
  · simp only [handleCfg80211StartAp, Option.bind_eq_bind, Option.bind_eq_some_iff] at hrun
    obtain ⟨h₁, hc₁, h₂, hc₂, h₃, hc₃, hrest⟩ := hrun
    obtain ⟨hd₁, -⟩ := copied_of_copy hc₁
    obtain ⟨hd₂, -⟩ := copied_of_copy hc₂
    obtain ⟨hd₃, hg₃⟩ := copied_of_copy hc₃
    have hcur₂ : h₂.cur = 16 := by
      rw [hd₂.cur, hd₁.cur, hcur]
      rfl
    have hnum : h₃.num ssidLen = ssidLenOf h.buf := by
      rw [Handler.num, hg₃, hcur₂, hd₂.buf, hd₁.buf]
      rfl
    rw [hnum, if_pos hlong] at hrest
    cases hrest
    rw [hd₃.cur, hcur₂]
    simp [hlong, ssidLen]
  · obtain ⟨h₁, hd, heq⟩ := handleCfg80211StartAp_head (a := a) hcur hlong
    rw [heq] at hrun
    obtain ⟨h₂, hc₂, hrest⟩ := Option.bind_eq_some_iff.mp hrun
    obtain ⟨h₃, hc₃, hc₄⟩ := Option.bind_eq_some_iff.mp hrest
    have hd₂ := copied_of_copyBlock (f := beaconHead) rfl hc₂
    have hhead : h₁.num headLen = headLenOf h.buf := by
      rw [Handler.num, hd.headLen]
      rfl
    have htail : h₂.num tailLen = tailLenOf h.buf := by
      rw [Handler.num, hd₂.frame _ (by decide), hd.tailLen]
      rfl
    rw [copyBssid_cur hc₄, (copied_of_copyBlock (f := beaconTail) rfl hc₃).cur, hd₂.cur, hd.cur, hhead, htail]
    simp [hlong]

theorem handleCfg80211Msg_cur (hcur : h.cur = 4)
    (hkind : kindOf h.buf = .cfg80211 (.ofCode (leNat (slice h.buf 4 4))))
    (hrun : handleCfg80211Msg a h = some h') : h'.cur = takenSize h.buf := by
  obtain ⟨h₁, hrest, hd₁, hcur₁, hnum⟩ := copied_ops hcur hrun
  rw [hnum] at hrest
  cases hops : CfgOps.ofCode (leNat (slice h.buf 4 4)) with
  | startAp =>
      simp only [hops] at hrest hkind
      rw [← hd₁.buf] at hkind ⊢
      exact handleCfg80211StartAp_cur hcur₁ hkind hrest
  | _ =>
      simp only [hops] at hrest
      cases hrest
      rw [hcur₁, takenSize, wireSize, hkind, hops]
      rfl

/-- **The parser takes the bytes that the message claims to have.** -/
theorem dispatch_cur (hrun : dispatch a h = some h') : h'.cur = takenSize h.buf := by
  unfold dispatch at hrun
  have hkind : kindOf h.buf = .of h.begin.type (slice h.buf 4 4) := by
    simp only [kindOf, Handler.begin]
  cases hk : MsgType.ofCode (leNat h.begin.type) with
  | cfg80211 =>
      rw [hk] at hrun
      rw [Kind.of, hk] at hkind
      exact handleCfg80211Msg_cur (h := h.begin) rfl hkind hrun
  | emu80211 =>
      rw [hk] at hrun
      rw [Kind.of, hk] at hkind
      exact handleEmu80211Msg_cur (h := h.begin) rfl hkind hrun
  | frm80211 =>
      rw [hk] at hrun
      rw [Kind.of, hk] at hkind
      exact handleFrm80211Msg_cur (h := h.begin) rfl hkind hrun
  | webconfig =>
      rw [hk] at hrun
      rw [Kind.of, hk] at hkind
      exact handleWebconfigMsg_cur (h := h.begin) rfl hkind hrun
  | agent =>
      rw [hk] at hrun
      rw [Kind.of, hk] at hkind
      exact handleAgentMsg_cur (h := h.begin) rfl hkind hrun
  | _ =>
      rw [hk] at hrun
      cases hrun
      rw [Kind.of, hk] at hkind
      rw [takenSize, wireSize, hkind]
      rfl

end Cursor

section Bounds

variable {a : Addrs} {h : Handler} {m m' : Region} {bs : Bytes}

theorem wireSize_le_takenSize (m : Region) : wireSize m ≤ takenSize m := by
  unfold takenSize
  split_ifs with hclose
  · simp only [wireSize, hclose]
    omega
  · exact le_rfl

/-- The lengths of a message are read from the bytes that it takes. -/
theorem takenSize_congr (hagree : ∀ i < takenSize m, m i = m' i) :
    takenSize m' = takenSize m ∧ kindOf m' = kindOf m ∧
      (kindOf m = .cfg80211 .startAp →
        ssidLenOf m' = ssidLenOf m ∧ (ssidLenOf m ≤ 32 → headLenOf m' = headLenOf m)) := by
  have hslice : ∀ off len, off + len ≤ wireSize m → slice m off len = slice m' off len := fun off len hle =>
    slice_congr fun i _ hi => hagree i (by have := wireSize_le_takenSize m; omega)
  have hkind := kindOf_congr hslice
  have hstart : kindOf m = .cfg80211 .startAp →
      ssidLenOf m' = ssidLenOf m ∧ (ssidLenOf m ≤ 32 →
        headLenOf m' = headLenOf m ∧ tailLenOf m' = tailLenOf m) := by
    intro hk
    have hsize : wireSize m =
        if 32 < ssidLenOf m then 24 else 40 + ssidLenOf m + headLenOf m + tailLenOf m := by
      rw [wireSize, hk]
    have hssid : ssidLenOf m' = ssidLenOf m := by
      rw [ssidLenOf, ssidLenOf, hslice 16 8 (by rw [hsize]; split_ifs <;> omega)]
    refine ⟨hssid, fun hle => ?_⟩
    rw [if_neg (Nat.not_lt.mpr hle)] at hsize
    rw [headLenOf, headLenOf, tailLenOf, tailLenOf, hssid, hslice _ 8 (by omega), hslice _ 8 (by omega)]
    exact ⟨rfl, rfl⟩
  refine ⟨?_, hkind, fun hk => ⟨(hstart hk).1, fun hle => ((hstart hk).2 hle).1⟩⟩
  have hwire : wireSize m' = wireSize m := by
    cases hk : kindOf m with
    | frm80211 =>
        have hsize : 12 ≤ wireSize m := by
          simp only [wireSize, hk]
          omega
        simp only [wireSize, hkind, hk, hslice 8 4 hsize]
    | cfg80211 ops =>
        cases ops with
        | startAp =>
            obtain ⟨hssid, hrest⟩ := hstart hk
            simp only [wireSize, hkind, hk, hssid]
            split_ifs with hlong
            · rfl
            · rw [(hrest (Nat.not_lt.mp hlong)).1, (hrest (Nat.not_lt.mp hlong)).2]
        | none | addIntf | delIntf | changeIntf | changeBeacon | stopAp | setWiphy | other =>
            simp only [wireSize, hkind, hk]
    | emu80211 ops | agent ops =>
        cases ops <;> simp only [wireSize, hkind, hk]
    | bare | mac80211 | webconfig =>
        simp only [wireSize, hkind, hk]
  rw [takenSize, takenSize, hwire, hkind]

/-- The bytes hold the message that they claim to hold: they are no fewer than its lengths say, the
SSID of a `start_ap` fits its field, and its beacon head is long enough for its BSSID. -/
def Holds (m : Region) (n : ℕ) : Prop :=
  takenSize m ≤ n ∧ (kindOf m = .cfg80211 .startAp → ssidLenOf m ≤ 32 ∧ 22 ≤ headLenOf m)

/-- What stands in the buffer behind the received bytes does not matter for it. -/
theorem holds_congr {n : ℕ} (hagree : ∀ i < n, m i = m' i) (h : Holds m n) : Holds m' n := by
  obtain ⟨hsize, hstart⟩ := h
  obtain ⟨htaken, hkind, hlens⟩ := takenSize_congr fun i hi => hagree i (Nat.lt_of_lt_of_le hi hsize)
  refine ⟨?_, fun hk => ?_⟩
  · rw [htaken]
    exact hsize
  · rw [hkind] at hk
    obtain ⟨hssid, hhead⟩ := hlens hk
    obtain ⟨hle, hlong⟩ := hstart hk
    rw [hssid, hhead hle]
    exact ⟨hle, hlong⟩

/-- The parsers stay inside the bytes `bs` that a read delivers, and inside every destination, and a
message with a length that does not fit its field is not handed on. -/
def Bounded (h : Handler) (a : Addrs) (bs : Bytes) : Prop :=
  bs = [] ∨ ∃ t, dispatchT a { h with buf := store h.buf 0 bs } = some t ∧
    (∀ x ∈ t.log, x.src + x.len ≤ bs.length ∧ x.len ≤ x.cap) ∧
    (t.h.kind = .cfg80211 .startAp → t.h.num ssidLen ≤ 32)

/-- The SSID length of a decoded `start_ap`. -/
theorem num_ssidLen {h' : Handler} (hrun : dispatch a h = some h') (hkind : kindOf h.buf = .cfg80211 .startAp) :
    h'.kind = .cfg80211 .startAp ∧ h'.num ssidLen = ssidLenOf h.buf := by
  have hspec := dispatch_spec a h
  unfold Spec at hspec
  split_ifs at hspec
  · obtain ⟨h'', hrun', hk, hview⟩ := hspec
    rw [hrun, Option.some.injEq] at hrun'
    subst hrun'
    rw [hkind] at hk
    have hfields := congrArg View.fields hview
    rw [Handler.view, hk, viewOf, hkind] at hfields
    have hget : (Kind.fields h'.u (.cfg80211 .startAp)).map h'.get =
        [h'.get ops, h'.get ifindex, h'.get phyIndex, h'.get apMacaddr, h'.get ssidLen,
          h'.get ⟨ssidOff, min 32 (leNat (slice h'.u ssidLen.off ssidLen.len))⟩, h'.get headLen,
          h'.get tailLen] := rfl
    refine ⟨hk, ?_⟩
    rw [Handler.num, ssidLenOf]
    simp only [hget] at hfields
    split_ifs at hfields <;>
      · simp only [List.cons.injEq] at hfields
        rw [hfields.2.2.2.2.1]
  · rw [hrun] at hspec
    cases hspec

/-- A message that is parsed inside its bytes holds what it claims. -/
theorem holds_of_bounded (hne : bs ≠ []) (hbounded : Bounded h a bs) : Holds (pad bs) bs.length := by
  obtain hnil | ⟨t, ht, hlog, hssid⟩ := hbounded
  · exact absurd hnil hne
  have hrun : dispatch a { h with buf := store h.buf 0 bs } = some t.h := by
    rw [← dispatchT_erase, ht, Option.map_some]
  have hagree : ∀ i < bs.length, store h.buf 0 bs i = pad bs i := fun i hi => (pad_agree h.buf bs hi).symm
  refine holds_congr hagree ⟨?_, fun hk => ?_⟩
  · have hcur := ((keeps_dispatchT a _ t ht).inside bs.length).mp fun x hx => (hlog x hx).1
    rwa [dispatch_cur hrun] at hcur
  · obtain ⟨hkind, hnum⟩ := num_ssidLen hrun hk
    have hle : ssidLenOf (store h.buf 0 bs) ≤ 32 := hnum ▸ hssid hkind
    refine ⟨hle, ?_⟩
    have hspec := dispatch_spec a { h with buf := store h.buf 0 bs }
    unfold Spec at hspec
    split_ifs at hspec with hdec
    · exact hdec.2 hk hle
    · rw [hrun] at hspec
      cases hspec

/-- A message that holds what it claims is parsed inside its bytes. -/
theorem bounded_of_holds (hfits : bs.length ≤ bufSize) (hholds : Holds (pad bs) bs.length) :
    Bounded h a bs := by
  have hagree : ∀ i < bs.length, pad bs i = store h.buf 0 bs i := fun i hi => pad_agree h.buf bs hi
  obtain ⟨hsize, hstart⟩ : Holds (store h.buf 0 bs) bs.length := holds_congr hagree hholds
  have hwire := wireSize_le_takenSize (store h.buf 0 bs)
  have hdec : Decodes (store h.buf 0 bs) :=
    ⟨(hwire.trans hsize).trans hfits, fun hk _ => (hstart hk).2⟩
  have hspec := dispatch_spec a { h with buf := store h.buf 0 bs }
  rw [Spec, if_pos hdec, ← dispatchT_erase] at hspec
  obtain ⟨h', hmap, hkind, -⟩ := hspec
  obtain ⟨t, ht, rfl⟩ := Option.map_eq_some_iff.mp hmap
  have hrun : dispatch a { h with buf := store h.buf 0 bs } = some t.h := by
    rw [← dispatchT_erase, ht, Option.map_some]
  obtain ⟨hcaps, hinside⟩ := keeps_dispatchT a _ t ht
  refine Or.inr ⟨t, ht, fun x hx => ⟨(hinside bs.length).mpr ?_ x hx, hcaps x hx⟩, fun hk => ?_⟩
  · rw [dispatch_cur hrun]
    exact hsize
  · rw [hkind] at hk
    rw [(num_ssidLen hrun hk).2]
    exact (hstart hk).1

/-- **The parsers are bounded exactly on the messages that hold what they claim**, whatever the
buffer and the message object hold from before. -/
theorem bounded_iff (h : Handler) (a : Addrs) (bs : Bytes) (hfits : bs.length ≤ bufSize) :
    Bounded h a bs ↔ bs = [] ∨ Holds (pad bs) bs.length := by
  constructor
  · intro hbounded
    by_cases hne : bs = []
    · exact Or.inl hne
    · exact Or.inr (holds_of_bounded hne hbounded)
  · rintro (hnil | hholds)
    · exact Or.inl hnil
    · exact bounded_of_holds hfits hholds

/-- A webconfig message. -/
def webconfigBytes : Bytes :=
  [5, 0, 0, 0, 1, 0, 0, 0]

theorem bounded_iff_webconfig : Bounded init ⟨0, 1, by decide⟩ webconfigBytes :=
  (bounded_iff init ⟨0, 1, by decide⟩ webconfigBytes (by decide)).mpr
    (Or.inr ⟨by decide, fun hk => by cases hk⟩)

/-- A frame message of twelve bytes whose `frame_len` says a hundred. -/
def lyingFrame : Bytes :=
  [4, 0, 0, 0, 0, 0, 0, 0, 100, 0, 0, 0]

theorem not_bounded_lyingFrame :
    ¬∀ (h : Handler) (a : Addrs) (bs : Bytes), bs.length ≤ bufSize → Bounded h a bs := by
  intro hall
  have hbounded := hall init ⟨0, 1, by decide⟩ lyingFrame (by decide)
  have hsize := (holds_of_bounded (by decide) hbounded).1
  have htaken : takenSize (pad lyingFrame) = 124 := by decide
  rw [htaken] at hsize
  exact absurd hsize (by decide)

end Bounds

end OneWifiTestSuite.MsgBounds
