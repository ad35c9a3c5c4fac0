import OneWifiTestSuite.Accesses
import OneWifiTestSuite.KernelCodec

/-!
# The lengths in the character device

`rdkfmac_read` copies a queued message into a buffer of the size that the reader asked for, and from
there to the reader as many bytes as its encoder counted; `rdkfmac_write` parses a buffer of the bytes
that the writer passed. Neither compares a length with the size, nor looks at the pointers that `kmalloc`
gave them. `readInside_iff` is the size that a message needs in a read, `readsInside_iff` are the bytes
that a write needs, and `deviceBounds_iff` is both.
-/

namespace OneWifiTestSuite.KernelBounds

open ByteRegion KernelCodec Accesses

/-! ### The read side -/

section Read

/-- What can be in the queue; `unhandled` is a type or an operation that no encoder handles. -/
inductive Queued
  | msg (m : Msg)
  | agentOther (ops : BitVec 32) (other : 2 < ops.toNat)
  | unhandled

/-- `send_buff` after `memset`. -/
def sendBuff : Enc :=
  ⟨fun _ => 0, 0, 0, 0⟩

/-- What `handle_cfg80211_msg_start_ap` copies in front of the crypto settings. -/
def frontParts (ap : StartAp) : List Bytes :=
  [le32 2, le32 4, le32 ap.ifindex, le32 ap.phyIndex, le64 ap.chan] ++
    [ap.chandefRest, [ap.ftmResponder], sizeT ap.head.length, sizeT ap.tail.length, sizeT ap.beaconIes.length,
      sizeT ap.proberespIes.length, sizeT ap.assocrespIes.length, sizeT ap.probeResp.length, sizeT ap.lci.length,
      sizeT ap.civicloc.length, ap.head, ap.tail, ap.beaconIes, ap.proberespIes, ap.assocrespIes, ap.probeResp,
      ap.lci, ap.civicloc, le32 ap.beaconInterval ++ le32 ap.dtimPeriod, sizeT ap.ssid.length, ap.ssid,
      le32 ap.hiddenSsid]

/-- What it copies between the access list and the capabilities. -/
def backParts (ap : StartAp) : List Bytes :=
  [[ap.privacy], le32 ap.authType, le32 ap.inactivityTimeout, [ap.p2pCtwindow], [ap.p2pOppPs], [ap.pbss],
    ap.beaconRate]

/-- `handle_cfg80211_msg_start_ap` up to the access list. -/
def startApFront (size : ℕ) (ap : StartAp) (e : Enc) : Option Enc :=
  (puts size (frontParts ap) e).bind (fillCfg80211Crypto size ap.crypto)

/-- `handle_cfg80211_msg_start_ap` behind the access list. -/
def startApBack (size : ℕ) (ap : StartAp) (e : Enc) : Option Enc :=
  (puts size (backParts ap) e).bind fun e =>
    (putCap size ap.htCapSize ap.htCap e).bind fun e =>
      (putCap size ap.vhtCapSize ap.vhtCap e).bind fun e =>
        (putCap size ap.heCapSize ap.heCap e).bind (puts size [[ap.htRequired, ap.vhtRequired]])

/-- No encoder writes past the end of the buffer. Without an access list the encoder of a `start_ap`
stops at the null pointer, after the writes before it. -/
def WritesInside (size : ℕ) : Queued → Prop
  | .msg (.startAp ap) =>
      (startApFront size ap sendBuff).isSome ∧
        (ap.acl.isSome → (rdkfmacRead size (.startAp ap)).isSome)
  | .msg m => (rdkfmacRead size m).isSome
  | .agentOther ops _ => (puts size [le32 6, le32 ops] sendBuff).isSome
  | .unhandled => True

/-- `copy_to_user` takes the counted bytes from the buffer, and writes them to the reader's. -/
def TransfersInside (size : ℕ) : Queued → Prop
  | .msg m => ∀ e, rdkfmacRead size m = some e → e.len ≤ size
  | .agentOther ops _ => ∀ e, puts size [le32 6, le32 ops] sendBuff = some e → e.len ≤ size
  | .unhandled => True

/-- A read stays inside `send_buff` and the reader's buffer; `alloc` is the answer of `kmalloc`, and a
buffer that is not there can only be cleared over no bytes. -/
def ReadInside (alloc : Bool) (size : ℕ) (q : Queued) : Prop :=
  (alloc = true ∨ size = 0) ∧ WritesInside size q ∧ TransfersInside size q

def beaconSize (ap : StartAp) : ℕ :=
  ap.head.length + ap.tail.length + ap.beaconIes.length + ap.proberespIes.length + ap.assocrespIes.length +
    ap.probeResp.length + ap.lci.length + ap.civicloc.length

/-- The bytes of a `start_ap` in front of the crypto settings. -/
def frontSize (ap : StartAp) : ℕ :=
  24 + ap.chandefRest.length + 1 + 64 + beaconSize ap + 8 + 8 + ap.ssid.length + 4

def cryptoSize (c : Crypto) : ℕ :=
  4 + 4 + 4 + 4 * c.ciphersPairwise.length + 4 + 4 * c.akmSuites.length + 1 + 2 + 1 + 1 + c.psk.length + 1 +
    c.saePwd.length

def capSize (n : ℕ) : Option Bytes → ℕ
  | some bs => bs.length
  | none => n

def backSize (ap : StartAp) : ℕ :=
  1 + 4 + 4 + 1 + 1 + 1 + ap.beaconRate.length + capSize ap.htCapSize ap.htCap + capSize ap.vhtCapSize ap.vhtCap +
    capSize ap.heCapSize ap.heCap + 2

/-- The bytes of the buffer that a message takes. The crypto settings, the access list and the rest
of a `start_ap` are all written from the same place. -/
def extent : Queued → ℕ
  | .msg (.startAp ap) =>
      frontSize ap + max (cryptoSize ap.crypto) (match ap.acl with
        | some acl => max (8 + acl.length) (backSize ap)
        | none => 0)
  | .msg (.frm80211 _ frame _ _ _) => 24 + frame.length
  | .msg (.tctrl _ _ _) => 20
  | .msg (.close _) => 12
  | .msg (.webconfig _) => 8
  | .msg (.agentCmd _) => 12
  | .msg (.agentData _) => 16
  | .msg (.agentNotification subOpsType _ _ _) => if subOpsType = 1 then 28 else 12
  | .agentOther _ _ => 8
  | .unhandled => 0

/-- The bytes that the encoder of a message counts; of an access list only its size is counted. -/
def counted : Queued → ℕ
  | .msg (.startAp ap) =>
      match ap.acl with
      | some _ => frontSize ap + cryptoSize ap.crypto + 8 + backSize ap
      | none => 0
  | q => extent q

end Read

section ReadBounds

variable {size n k : ℕ} {f g : Enc → Option Enc} {e e' : Enc}

/-- A part of the encoder that moves the cursor by `n` and fits when the cursor does. -/
structure Advances (size n : ℕ) (f : Enc → Option Enc) : Prop where
  cur : ∀ {e e'}, f e = some e' → e'.cur = e.cur + n
  fits : ∀ e, e.cur + n ≤ size → (f e).isSome

/-- A part of the encoder that fits exactly when `n` bytes do. -/
def Needs (size n : ℕ) (f : Enc → Option Enc) : Prop :=
  ∀ e, (f e).isSome ↔ e.cur + n ≤ size

theorem advances_put (size : ℕ) (bs : Bytes) : Advances size bs.length (put size bs) := by
  constructor
  · intro e e' h
    unfold put at h
    split_ifs at h
    cases h
    rfl
  · intro e hfit
    rw [put, if_pos hfit]
    rfl

theorem needs_put (size : ℕ) (bs : Bytes) : Needs size bs.length (put size bs) := by
  intro e
  unfold put
  split_ifs with hfit
  · simp [hfit]
  · simp [hfit]

theorem Advances.bind (hf : Advances size n f) (hg : Advances size k g) :
    Advances size (n + k) fun e => (f e).bind g := by
  constructor
  · intro e e' h
    obtain ⟨e₁, h₁, h₂⟩ := Option.bind_eq_some_iff.mp h
    rw [hg.cur h₂, hf.cur h₁, Nat.add_assoc]
  · intro e hfit
    obtain ⟨e₁, h₁⟩ := Option.isSome_iff_exists.mp (hf.fits e (by omega))
    have hcur := hf.cur h₁
    rw [h₁, Option.bind_some]
    exact hg.fits e₁ (by omega)

theorem Needs.after (hf : Advances size n f) (hg : Needs size k g) :
    Needs size (n + k) fun e => (f e).bind g := by
  intro e
  constructor
  · intro h
    obtain ⟨e', h'⟩ := Option.isSome_iff_exists.mp h
    obtain ⟨e₁, h₁, h₂⟩ := Option.bind_eq_some_iff.mp h'
    have hneeds := (hg e₁).mp (by rw [h₂]; rfl)
    rw [hf.cur h₁] at hneeds
    omega
  · intro hfit
    obtain ⟨e₁, h₁⟩ := Option.isSome_iff_exists.mp (hf.fits e (by omega))
    have hcur := hf.cur h₁
    beta_reduce
    rw [h₁, Option.bind_some]
    exact (hg e₁).mpr (by omega)

theorem advances_puts (size : ℕ) (l : List Bytes) : Advances size l.flatten.length (puts size l) := by
  induction l with
  | nil =>
      exact ⟨fun h => by cases h; rfl, fun _ _ => rfl⟩
  | cons bs l ih =>
      rw [List.flatten_cons, List.length_append]
      exact (advances_put size bs).bind ih

theorem puts_append (l l' : List Bytes) (e : Enc) : puts size (l ++ l') e = (puts size l e).bind (puts size l') := by
  induction l generalizing e with
  | nil =>
      rfl
  | cons bs l ih =>
      simp only [List.cons_append, puts, Option.bind_assoc]
      congr 1
      funext e'
      exact ih e'

/-- The last of several copies needs the room of all of them. -/
theorem needs_puts (size : ℕ) (bs : Bytes) (l : List Bytes) :
    Needs size (bs :: l).flatten.length (puts size (bs :: l)) := by
  induction l generalizing bs with
  | nil =>
      intro e
      have hput := needs_put size bs e
      simpa [puts] using hput
  | cons bs' l ih =>
      rw [List.flatten_cons, List.length_append]
      exact Needs.after (advances_put size bs) (ih bs')

theorem advances_putCap (size n : ℕ) (cap : Option Bytes) : Advances size (capSize n cap) (putCap size n cap) := by
  cases cap with
  | some bs =>
      exact advances_put size bs
  | none =>
      exact ⟨fun h => by cases h; rfl, fun _ _ => rfl⟩

theorem length_flatMap_le32 (l : List (BitVec 32)) : (l.flatMap le32).length = 4 * l.length := by
  induction l with
  | nil =>
      rfl
  | cons x l ih =>
      simp only [List.flatMap_cons, List.length_append, length_le32, List.length_cons, ih]
      omega

theorem needs_fillCfg80211Crypto (size : ℕ) (c : Crypto) : Needs size (cryptoSize c) (fillCfg80211Crypto size c) := by
  intro e
  have hputs := needs_puts size (le32 c.wpaVersions) [le32 c.cipherGroup, leBytes 4 c.ciphersPairwise.length,
    c.ciphersPairwise.flatMap le32, leBytes 4 c.akmSuites.length, c.akmSuites.flatMap le32, [c.controlPort],
    leBytes 2 c.controlPortEthertype.toNat, [c.controlPortNoEncrypt], [c.controlPortOverNl80211], c.psk,
    leBytes 1 c.saePwd.length, c.saePwd] e
  rw [fillCfg80211Crypto, Option.isSome_map, hputs]
  simp only [List.flatten_cons, List.flatten_nil, List.length_append, length_le32, length_leBytes,
    length_flatMap_le32, List.length_cons, List.length_nil, cryptoSize]
  omega

theorem fillCfg80211Crypto_cur {c : Crypto} (h : fillCfg80211Crypto size c e = some e') : e'.cur = e.cur := by
  obtain ⟨e₁, -, rfl⟩ := Option.map_eq_some_iff.mp h
  rfl

theorem fillCfg80211AclData_isSome (size : ℕ) (acl : Bytes) (e : Enc) :
    (fillCfg80211AclData size (some acl) e).isSome ↔ e.cur + (8 + acl.length) ≤ size := by
  have hneeds := Needs.after (advances_puts size [sizeT acl.length]) (needs_puts size acl [])
  have hiff := hneeds e
  simp only [List.flatten_cons, List.flatten_nil, List.append_nil, sizeT, length_leBytes] at hiff
  rw [← hiff]
  simp only [fillCfg80211AclData, sizeT]
  cases h : puts size [leBytes 8 acl.length] e with
  | none =>
      simp [h]
  | some e₁ =>
      cases h' : puts size [acl] e₁ <;> simp [h, h']

theorem fillCfg80211AclData_cur {acl : Option Bytes} (h : fillCfg80211AclData size acl e = some e') :
    e'.cur = e.cur := by
  obtain ⟨bs, -, h⟩ := Option.bind_eq_some_iff.mp h
  obtain ⟨e₁, -, h⟩ := Option.bind_eq_some_iff.mp h
  obtain ⟨e₂, -, h⟩ := Option.bind_eq_some_iff.mp h
  cases h
  rfl

theorem length_frontParts (ap : StartAp) : (frontParts ap).flatten.length = frontSize ap := by
  simp only [frontParts, List.flatten_append, List.flatten_cons, List.flatten_nil, List.length_append, length_le32,
    length_le64, sizeT, length_leBytes, List.length_cons, List.length_nil, frontSize, beaconSize]
  omega

theorem needs_startApFront (size : ℕ) (ap : StartAp) :
    Needs size (frontSize ap + cryptoSize ap.crypto) (startApFront size ap) := by
  rw [← length_frontParts]
  exact Needs.after (advances_puts size (frontParts ap)) (needs_fillCfg80211Crypto size ap.crypto)

/-- The part in front of the access list leaves the cursor in front of the crypto settings. -/
theorem startApFront_cur {ap : StartAp} (h : startApFront size ap e = some e') : e'.cur = e.cur + frontSize ap := by
  obtain ⟨e₁, h₁, h₂⟩ := Option.bind_eq_some_iff.mp h
  rw [fillCfg80211Crypto_cur h₂, (advances_puts _ _).cur h₁, length_frontParts]

theorem needs_startApBack (size : ℕ) (ap : StartAp) : Needs size (backSize ap) (startApBack size ap) := by
  have hcaps := Needs.after (advances_putCap size ap.htCapSize ap.htCap)
    (Needs.after (advances_putCap size ap.vhtCapSize ap.vhtCap)
      (Needs.after (advances_putCap size ap.heCapSize ap.heCap)
        (needs_puts size [ap.htRequired, ap.vhtRequired] [])))
  have hall := Needs.after (advances_puts size (backParts ap)) hcaps
  have hlen : (backParts ap).flatten.length + (capSize ap.htCapSize ap.htCap + (capSize ap.vhtCapSize ap.vhtCap +
      (capSize ap.heCapSize ap.heCap + [[ap.htRequired, ap.vhtRequired]].flatten.length))) = backSize ap := by
    simp only [backParts, List.flatten_cons, List.flatten_nil, List.length_append, length_le32, List.length_cons,
      List.length_nil, backSize]
    omega
  rw [hlen] at hall
  exact hall

/-- The encoder of a `start_ap` in its three parts. -/
theorem handleCfg80211MsgStartAp_eq (size : ℕ) (ap : StartAp) (e : Enc) :
    handleCfg80211MsgStartAp size ap e =
      (startApFront size ap e).bind fun e₁ => (fillCfg80211AclData size ap.acl e₁).bind (startApBack size ap) := by
  rw [startApFront, frontParts, puts_append, Option.bind_assoc, Option.bind_assoc]
  rfl

theorem startAp_isSome_iff (size : ℕ) (ap : StartAp) {acl : Bytes} (hacl : ap.acl = some acl) :
    (rdkfmacRead size (.startAp ap)).isSome ↔
      frontSize ap + cryptoSize ap.crypto ≤ size ∧ frontSize ap + (8 + acl.length) ≤ size ∧
        frontSize ap + backSize ap ≤ size := by
  have hfront := needs_startApFront size ap sendBuff
  have hstart : sendBuff.cur = 0 := rfl
  rw [hstart, Nat.zero_add] at hfront
  rw [← hfront]
  have hrun : rdkfmacRead size (.startAp ap) = handleCfg80211MsgStartAp size ap sendBuff := rfl
  rw [hrun, handleCfg80211MsgStartAp_eq, hacl]
  cases h₁ : startApFront size ap sendBuff with
  | none =>
      simp
  | some e₁ =>
      have hcur : e₁.cur = frontSize ap := by
        rw [startApFront_cur h₁, hstart, Nat.zero_add]
      have hlist := fillCfg80211AclData_isSome size acl e₁
      rw [hcur] at hlist
      rw [← hlist, Option.bind_some]
      cases h₂ : fillCfg80211AclData size (some acl) e₁ with
      | none =>
          simp
      | some e₂ =>
          have hback := needs_startApBack size ap e₂
          rw [fillCfg80211AclData_cur h₂, hcur] at hback
          simpa using hback

theorem puts_isSome_iff (size : ℕ) (l : List Bytes) : (puts size l sendBuff).isSome ↔ l.flatten.length ≤ size := by
  rw [show sendBuff = ⟨fun _ => 0, 0, 0, 0⟩ from rfl, puts_eq l _ 0 (Nat.zero_le _), Nat.zero_add]
  split_ifs with hfit
  · simp only [Option.isSome_some, hfit]
  · simp only [Option.isSome_none, hfit, Bool.false_eq_true]

/-- **The encoders stay inside the buffer of the reader exactly when the message fits it.** -/
theorem writesInside_iff (size : ℕ) (q : Queued) : WritesInside size q ↔ extent q ≤ size := by
  cases q with
  | unhandled =>
      simp [WritesInside, extent]
  | agentOther ops other =>
      rw [WritesInside, puts_isSome_iff]
      simp [extent]
  | msg m =>
      cases m with
      | startAp ap =>
          have hfront := needs_startApFront size ap sendBuff
          rw [show sendBuff.cur = 0 from rfl, Nat.zero_add] at hfront
          rw [WritesInside, hfront, extent]
          cases hacl : ap.acl with
          | none =>
              simp
          | some acl =>
              have hiff := startAp_isSome_iff size ap hacl
              simp only [Option.isSome_some, forall_const, hiff]
              omega
      | agentNotification subOpsType staState sta bssid =>
          have hiff := puts_isSome_iff size (parts (.agentNotification subOpsType staState sta bssid))
          refine hiff.trans ?_
          by_cases hsub : subOpsType = 1#32
          · simp [parts, extent, hsub]
          · simp [parts, extent, hsub]
      | frm80211 ops frame len macaddr clientMacaddr =>
          have hiff := puts_isSome_iff size (parts (.frm80211 ops frame len macaddr clientMacaddr))
          refine hiff.trans ?_
          simp only [parts, extent, List.flatten_cons, List.flatten_nil, List.length_append, length_le32,
            length_leBytes, length_mac, List.length_nil]
          omega
      | _ =>
          refine (puts_isSome_iff size (parts _)).trans ?_
          simp [parts, extent]

theorem puts_len {l : List Bytes} (h : puts size l e = some e') : e'.len = e.len + l.flatten.length := by
  induction l generalizing e with
  | nil =>
      cases h
      rfl
  | cons bs l ih =>
      obtain ⟨e₁, hput, hrest⟩ := Option.bind_eq_some_iff.mp h
      unfold put at hput
      split_ifs at hput
      cases hput
      rw [ih hrest, List.flatten_cons, List.length_append, Nat.add_assoc]

theorem putCap_len {cap : Option Bytes} (h : putCap size n cap e = some e') : e'.len = e.len + capSize n cap := by
  cases cap with
  | some bs =>
      have hputs : puts size [bs] e = some e' := by
        rw [puts, show put size bs e = some e' from h]
        rfl
      simpa [capSize] using puts_len hputs
  | none =>
      cases h
      rfl

theorem fillCfg80211Crypto_len {c : Crypto} (h : fillCfg80211Crypto size c e = some e') :
    e'.len = e.len + cryptoSize c := by
  obtain ⟨e₁, hputs, rfl⟩ := Option.map_eq_some_iff.mp h
  rw [show ({ e₁ with cur := e.cur } : Enc).len = e₁.len from rfl, puts_len hputs]
  simp only [List.flatten_cons, List.flatten_nil, List.length_append, length_le32, length_leBytes,
    length_flatMap_le32, List.length_cons, List.length_nil, cryptoSize]
  omega

theorem fillCfg80211AclData_len {acl : Option Bytes} (h : fillCfg80211AclData size acl e = some e') :
    e'.len = e.len + 8 := by
  obtain ⟨bs, -, h⟩ := Option.bind_eq_some_iff.mp h
  obtain ⟨e₁, hsize, h⟩ := Option.bind_eq_some_iff.mp h
  obtain ⟨e₂, -, h⟩ := Option.bind_eq_some_iff.mp h
  cases h
  simpa [sizeT] using puts_len hsize

theorem startApFront_len {ap : StartAp} (h : startApFront size ap e = some e') :
    e'.len = e.len + frontSize ap + cryptoSize ap.crypto := by
  obtain ⟨e₁, h₁, h₂⟩ := Option.bind_eq_some_iff.mp h
  rw [fillCfg80211Crypto_len h₂, puts_len h₁, length_frontParts]

theorem startApBack_len {ap : StartAp} (h : startApBack size ap e = some e') : e'.len = e.len + backSize ap := by
  obtain ⟨e₁, h₁, h⟩ := Option.bind_eq_some_iff.mp h
  obtain ⟨e₂, h₂, h⟩ := Option.bind_eq_some_iff.mp h
  obtain ⟨e₃, h₃, h⟩ := Option.bind_eq_some_iff.mp h
  obtain ⟨e₄, h₄, h₅⟩ := Option.bind_eq_some_iff.mp h
  rw [puts_len h₅, putCap_len h₄, putCap_len h₃, putCap_len h₂, puts_len h₁]
  simp only [backParts, List.flatten_cons, List.flatten_nil, List.length_append, length_le32, List.length_cons,
    List.length_nil, backSize]
  omega

/-- The encoder counts every part of a `start_ap` but the entries of its access list. -/
theorem startAp_len {ap : StartAp} (h : rdkfmacRead size (.startAp ap) = some e) :
    e.len = frontSize ap + cryptoSize ap.crypto + 8 + backSize ap := by
  have hrun : handleCfg80211MsgStartAp size ap sendBuff = some e := h
  rw [handleCfg80211MsgStartAp_eq] at hrun
  obtain ⟨e₁, h₁, hrun⟩ := Option.bind_eq_some_iff.mp hrun
  obtain ⟨e₂, h₂, h₃⟩ := Option.bind_eq_some_iff.mp hrun
  rw [startApBack_len h₃, fillCfg80211AclData_len h₂, startApFront_len h₁]
  simp [sendBuff]

/-- A message of consecutive parts counts what it writes. -/
theorem puts_len_le {l : List Bytes} (h : puts size l sendBuff = some e) : e.len ≤ size := by
  have hfit := (puts_isSome_iff size l).mp (by rw [h]; rfl)
  rw [puts_len h]
  simpa [sendBuff] using hfit

theorem extent_eq_counted {m : Msg} (hm : ∀ ap, m ≠ .startAp ap) : counted (.msg m) = extent (.msg m) := by
  cases m with
  | startAp ap =>
      exact absurd rfl (hm ap)
  | frm80211 | tctrl | close | webconfig | agentCmd | agentData | agentNotification =>
      rfl

/-- What is written decides, unless the message is a `start_ap` with an access list. -/
theorem transfersInside_iff {q : Queued} (hwrites : WritesInside size q) :
    TransfersInside size q ↔ counted q ≤ size := by
  have hextent := (writesInside_iff size q).mp hwrites
  cases q with
  | unhandled =>
      simp [TransfersInside, counted, extent]
  | agentOther ops other =>
      exact iff_of_true (fun e he => puts_len_le he) hextent
  | msg m =>
      by_cases hm : ∃ ap, m = .startAp ap
      · obtain ⟨ap, rfl⟩ := hm
        simp only [TransfersInside, counted]
        cases hacl : ap.acl with
        | none =>
            have hstop : rdkfmacRead size (.startAp ap) = none := by
              rw [show rdkfmacRead size (.startAp ap) = handleCfg80211MsgStartAp size ap sendBuff from rfl,
                handleCfg80211MsgStartAp_eq, hacl]
              exact Option.bind_eq_none_iff.mpr fun _ _ => rfl
            simp [hstop]
        | some acl =>
            obtain ⟨e, he⟩ := Option.isSome_iff_exists.mp (hwrites.2 (by rw [hacl]; rfl))
            rw [← startAp_len he]
            exact ⟨fun h => h e he, fun h e' he' => by rw [he] at he'; cases he'; exact h⟩
      · have hne : ∀ ap, m ≠ .startAp ap := fun ap h => hm ⟨ap, h⟩
        rw [extent_eq_counted hne]
        refine iff_of_true (fun e he => ?_) hextent
        cases m with
        | startAp ap =>
            exact absurd rfl (hne ap)
        | frm80211 | tctrl | close | webconfig | agentCmd | agentData | agentNotification =>
            exact puts_len_le he

/-- **A read stays inside its buffers exactly when there is one and the message fits it, with what is
written of it and with what is counted.** -/
theorem readInside_iff (alloc : Bool) (size : ℕ) (q : Queued) :
    ReadInside alloc size q ↔ (alloc = true ∨ size = 0) ∧ extent q ≤ size ∧ counted q ≤ size := by
  unfold ReadInside
  rw [← writesInside_iff]
  refine and_congr_right fun _ => and_congr_right fun hwrites => ?_
  exact transfersInside_iff hwrites

end ReadBounds

/-! ### The write side -/

section Write

/-- The buffers of a write: the bytes from the user, the record, the copy of a frame and that of a
command. -/
inductive Buf
  | readBuff
  | spec
  | frame
  | cmdBuffer
deriving DecidableEq, Repr

/-- The answers of the kernel to one write, and what it does not take from the bytes: the layout of
`wlan_emu_msg_data_t`, the length of an 802.11 header, and the memory behind the two buffers. -/
structure Kernel where
  specAlloc : Bool
  readAlloc : Bool
  copied : Bool
  msgAlloc : Bool
  frameAlloc : Bool
  cmdAlloc : Bool
  dataSize : ℕ
  type_le : 4 ≤ dataSize
  hdrlen : ℕ → ℕ
  behind : Region
  behindFrame : Region

/-- What is handed to `push_to_char_device`: a copy of the bytes, or a frame message. -/
inductive Pushed
  | data (spec : Bytes)
  | frame (ops : FrmOps) (frameLen : ℕ) (macaddr clientMacaddr frame : Bytes)
deriving DecidableEq, Repr

/-- The accesses of a handler and the message that it pushes. -/
structure Handled where
  log : List (Access Buf)
  pushed : Option Pushed

def rfc1042Hdr : Bytes :=
  [0xaa, 0xaa, 0x03, 0x00, 0x00, 0x00]

/-- The operation of a management frame, by its subtype. -/
def mgmtOps : ℕ → Option FrmOps
  | 0 => some .assocReq
  | 1 => some .assocResp
  | 2 => some .reassocReq
  | 3 => some .reassocResp
  | 4 => some .prbReq
  | 5 => some .prbResp
  | 10 => some .disassoc
  | 11 => some .auth
  | 12 => some .deauth
  | 13 => some .action
  | _ => none

/-- The end of `handle_frm80211_msg_w`: the reads of the copied frame and its operation. A frame that
is neither management nor data keeps the operation 0. -/
def frameOps (k : Kernel) (frameLen : ℕ) (frame : Region) : List (Access Buf) × Option FrmOps :=
  let fc := leNat (slice frame 0 2)
  match fc / 4 % 4 with
  | 0 => ([⟨.frame, 0, 2⟩], mgmtOps (fc / 16 % 16))
  | 2 =>
      let off := k.hdrlen fc
      if frameLen < off + 6 + 2 then ([⟨.frame, 0, 2⟩], none)
      else if slice frame off 6 ≠ rfc1042Hdr then ([⟨.frame, 0, 2⟩, ⟨.frame, off, 6⟩], none)
      else
        ([⟨.frame, 0, 2⟩, ⟨.frame, off, 6⟩, ⟨.frame, off + 6, 1⟩, ⟨.frame, off + 7, 1⟩],
          if (frame (off + 6)).toNat * 256 + (frame (off + 7)).toNat = 0x888e then some .eapol else none)
  | _ => ([⟨.frame, 0, 2⟩], some .prbResp)

/-- `handle_frm80211_msg_w`. -/
def handleFrm80211MsgW (k : Kernel) (m : Region) : Handled :=
  if k.msgAlloc = false then ⟨[], none⟩
  else if MsgHdlr.MsgType.ofCode (leNat (slice m 0 4)) ≠ .frm80211 then ⟨[⟨.readBuff, 0, 4⟩], none⟩
  else
    let frameLen := leNat (slice m 8 4)
    let reads : List (Access Buf) :=
      [⟨.readBuff, 0, 4⟩, ⟨.readBuff, 8, 4⟩, ⟨.readBuff, 12, 6⟩, ⟨.readBuff, 18, 6⟩]
    if k.frameAlloc = false then ⟨reads, none⟩
    else
      let bytes := slice m 24 frameLen
      let ops := frameOps k frameLen (store k.behindFrame 0 bytes)
      ⟨reads ++ ⟨.readBuff, 24, frameLen⟩ :: ops.1,
        ops.2.map fun ops => .frame ops frameLen (slice m 12 6) (slice m 18 6) bytes⟩

/-- `push_to_rdkfmac_device`: the reads of the copied command buffer; the updates do nothing. -/
def pushToRdkfmacDevice (k : Kernel) (spec : Region) : List (Access Buf) :=
  if k.cmdAlloc = false then []
  else
    match leNat (slice spec 12 4) with
    | 0 => [⟨.cmdBuffer, 0, 6⟩, ⟨.cmdBuffer, 6, 4⟩, ⟨.cmdBuffer, 10, 4⟩, ⟨.cmdBuffer, 14, 4⟩]
    | 1 => [⟨.cmdBuffer, 0, 6⟩, ⟨.cmdBuffer, 6, 6⟩, ⟨.cmdBuffer, 12, 4⟩, ⟨.cmdBuffer, 16, 32⟩]
    | _ => []

/-- `handle_emu80211_msg_w`. -/
def handleEmu80211MsgW (k : Kernel) (spec : Region) : Handled :=
  match MsgHdlr.EmuOps.ofCode (leNat (slice spec 8 4)) with
  | .tctrl | .close => ⟨[], some (.data (slice spec 0 k.dataSize))⟩
  | .cmnd => ⟨pushToRdkfmacDevice k spec, none⟩
  | _ => ⟨[], none⟩

/-- `handle_agent_msg_w`; of the commands only start and stop are pushed. -/
def handleAgentMsgW (k : Kernel) (spec : Region) : Handled :=
  match MsgHdlr.AgentOps.ofCode (leNat (slice spec 8 4)) with
  | .cmd =>
      if leNat (slice spec 16 4) ≤ 1 then ⟨[], some (.data (slice spec 0 k.dataSize))⟩ else ⟨[], none⟩
  | .data | .notification => ⟨[], some (.data (slice spec 0 k.dataSize))⟩
  | .other => ⟨[], none⟩

/-- The kernel's copy of the bytes, with the memory behind it. -/
def readBuff (k : Kernel) (bs : Bytes) : Region :=
  store k.behind 0 bs

/-- `memcpy` of `len` bytes from the user's bytes into the record. -/
def toSpec (len : ℕ) : List (Access Buf) :=
  [⟨.readBuff, 0, len⟩, ⟨.spec, 0, len⟩]

/-- The dispatch of `rdkfmac_write`, behind the copy from the user. -/
def dispatch (k : Kernel) (bs : Bytes) : Handled × ℕ :=
  let m := readBuff k bs
  match MsgHdlr.MsgType.ofCode (leNat (slice m 0 4)) with
  | .frm80211 => (handleFrm80211MsgW k m, bs.length)
  | .emu80211 =>
      let h := handleEmu80211MsgW k m
      (⟨toSpec k.dataSize ++ h.log, h.pushed⟩, k.dataSize)
  | .webconfig => (⟨toSpec k.dataSize, some (.data (slice m 0 k.dataSize))⟩, k.dataSize)
  | .agent =>
      let h := handleAgentMsgW k m
      (⟨toSpec k.dataSize ++ h.log, h.pushed⟩, k.dataSize)
  | _ => (⟨[], none⟩, 0)

/-- `rdkfmac_write`: its accesses, what is pushed and the result. The first one is `memset`. -/
def rdkfmacWrite (k : Kernel) (bs : Bytes) : Handled × ℕ :=
  let clear : Access Buf := ⟨.readBuff, 0, bs.length⟩
  if k.copied = false then (⟨[clear], none⟩, 0)
  else
    let r := dispatch k bs
    (⟨clear :: (toSpec 4 ++ r.1.log), r.1.pushed⟩, r.2)

/-- The sizes of the buffers; one that `kmalloc` did not give has no bytes. -/
def capacity (k : Kernel) (bs : Bytes) : Buf → ℕ
  | .readBuff => if k.readAlloc then bs.length else 0
  | .spec => if k.specAlloc then k.dataSize else 0
  | .frame => leNat (slice (readBuff k bs) 8 4)
  | .cmdBuffer => 1024

/-- No handler reads beyond the bytes from the user, and none uses a buffer that is not there. -/
def ReadsInside (k : Kernel) (bs : Bytes) : Prop :=
  Inside (capacity k bs) (rdkfmacWrite k bs).1.log

/-- What the handler of a type takes: a frame message its 24 bytes and, when there is memory for it, a
frame of its length and of two bytes at least; the others a whole `wlan_emu_msg_data_t`. -/
def Handles (k : Kernel) (bs : Bytes) : Prop :=
  match MsgHdlr.MsgType.ofCode (leNat (bs.take 4)) with
  | .frm80211 =>
      k.msgAlloc = true → 24 ≤ bs.length ∧
        (k.frameAlloc = true → 2 ≤ leNat ((bs.drop 8).take 4) ∧ 24 + leNat ((bs.drop 8).take 4) ≤ bs.length)
  | .emu80211 | .webconfig | .agent => k.dataSize ≤ bs.length
  | _ => True

/-- There is a buffer for the bytes; and when they could be copied there is a record too, and the bytes
have a type and what the handler of that type takes. -/
def WellFormed (k : Kernel) (bs : Bytes) : Prop :=
  (k.readAlloc = true ∨ bs = []) ∧
    (k.copied = true → k.readAlloc = true ∧ k.specAlloc = true ∧ 4 ≤ bs.length ∧ Handles k bs)

end Write

section WriteBounds

variable {k : Kernel} {m : Region} {bs : Bytes}

/-- The copied frame is read within its length once its frame control is. -/
theorem inside_frameOps (cap : Buf → ℕ) (k : Kernel) (frame : Region) :
    Inside cap (frameOps k (cap .frame) frame).1 ↔ 2 ≤ cap .frame := by
  simp only [frameOps]
  split
  · simp
  · split_ifs with hshort hllc hpae
    · simp
    all_goals
      simp
      omega
  · simp

theorem inside_handleEmu80211MsgW (k : Kernel) (bs : Bytes) :
    Inside (capacity k bs) (handleEmu80211MsgW k m).log := by
  unfold handleEmu80211MsgW pushToRdkfmacDevice
  split
  · simp
  · simp
  · split_ifs
    · simp
    · split <;> simp [capacity]
  · simp

theorem handleAgentMsgW_log (k : Kernel) (m : Region) : (handleAgentMsgW k m).log = [] := by
  unfold handleAgentMsgW
  split
  · split_ifs <;> rfl
  all_goals rfl

theorem inside_handleFrm80211MsgW (hread : k.readAlloc = true) (hmsg : k.msgAlloc = true)
    (htype : MsgHdlr.MsgType.ofCode (leNat (slice (readBuff k bs) 0 4)) = .frm80211) :
    Inside (capacity k bs) (handleFrm80211MsgW k (readBuff k bs)).log ↔ 24 ≤ bs.length ∧
      (k.frameAlloc = true → 2 ≤ capacity k bs .frame ∧ 24 + capacity k bs .frame ≤ bs.length) := by
  have hreads : Inside (capacity k bs)
      [⟨.readBuff, 0, 4⟩, ⟨.readBuff, 8, 4⟩, ⟨.readBuff, 12, 6⟩, ⟨.readBuff, 18, 6⟩] ↔ 24 ≤ bs.length := by
    simp only [inside_cons, inside_nil, and_true, capacity, hread, if_true]
    omega
  unfold handleFrm80211MsgW
  rw [if_neg (by simp [hmsg]), if_neg (by simp [htype])]
  cases hframe : k.frameAlloc with
  | false =>
      simpa using hreads
  | true =>
      have hops := inside_frameOps (capacity k bs) k
        (store k.behindFrame 0 (slice (readBuff k bs) 24 (capacity k bs .frame)))
      simp only [Bool.true_eq_false, if_false, inside_append, inside_cons, hreads, forall_const]
      have hcap : leNat (slice (readBuff k bs) 8 4) = capacity k bs .frame := rfl
      rw [hcap, hops]
      simp only [capacity, hread, if_true]
      omega

/-- A field inside the bytes is read from them. -/
theorem slice_readBuff {off len : ℕ} (h : off + len ≤ bs.length) :
    slice (readBuff k bs) off len = (bs.drop off).take len :=
  slice_store_sub (Nat.zero_le _) (by omega)

/-- The copy of the type and of what is in the record. -/
theorem inside_toSpec (hread : k.readAlloc = true) (hspec : k.specAlloc = true) {n : ℕ} (hn : n ≤ k.dataSize) :
    Inside (capacity k bs) (toSpec n) ↔ n ≤ bs.length := by
  simp [toSpec, capacity, hread, hspec, hn]

/-- The dispatch, for bytes with a type. -/
theorem inside_dispatch_iff (hread : k.readAlloc = true) (hspec : k.specAlloc = true) (hlen : 4 ≤ bs.length) :
    Inside (capacity k bs) (dispatch k bs).1.log ↔ Handles k bs := by
  have htype : slice (readBuff k bs) 0 4 = bs.take 4 := by
    rw [slice_readBuff (by omega), List.drop_zero]
  have hrecord : Inside (capacity k bs) (toSpec k.dataSize) ↔ k.dataSize ≤ bs.length :=
    inside_toSpec hread hspec (Nat.le_refl _)
  simp only [dispatch, Handles, htype]
  cases hof : MsgHdlr.MsgType.ofCode (leNat (bs.take 4)) with
  | frm80211 =>
      cases hmsg : k.msgAlloc with
      | false =>
          simp [handleFrm80211MsgW, hmsg]
      | true =>
          rw [inside_handleFrm80211MsgW hread hmsg (by rw [htype, hof])]
          simp only [forall_const]
          refine and_congr_right fun hlong => ?_
          rw [capacity, slice_readBuff (by omega)]
  | emu80211 =>
      have hhandled := inside_handleEmu80211MsgW (m := readBuff k bs) k bs
      simp [hhandled, hrecord]
  | agent =>
      simp [handleAgentMsgW_log, hrecord]
  | webconfig =>
      exact hrecord
  | none | cfg80211 | mac80211 | other =>
      simp

/-- **A write stays inside its buffers exactly when these are there and the bytes of the user are well
formed.** -/
theorem readsInside_iff (k : Kernel) (bs : Bytes) : ReadsInside k bs ↔ WellFormed k bs := by
  have hclear : bs.length ≤ capacity k bs .readBuff ↔ k.readAlloc = true ∨ bs = [] := by
    cases hread : k.readAlloc <;> simp [capacity, hread]
  unfold ReadsInside WellFormed rdkfmacWrite
  cases hcopied : k.copied with
  | false =>
      simp [hclear]
  | true =>
      simp only [Bool.true_eq_false, if_false, forall_const, inside_cons, inside_append, Nat.zero_add, hclear]
      refine and_congr_right fun _ => ?_
      by_cases halloc : k.readAlloc = true ∧ k.specAlloc = true
      · obtain ⟨hread, hspec⟩ := halloc
        rw [inside_toSpec hread hspec k.type_le]
        simp only [hread, hspec, true_and]
        exact and_congr_right fun hlen => inside_dispatch_iff hread hspec hlen
      · -- the type is read through a null pointer, or written through one
        refine iff_of_false (fun h => ?_) fun h => halloc ⟨h.1, h.2.1⟩
        have htype := h.1
        simp only [toSpec, inside_cons, capacity, Nat.zero_add] at htype
        obtain ⟨hread, hspec, -⟩ := htype
        refine halloc ⟨?_, ?_⟩
        · by_contra hno
          simp [hno] at hread
        · by_contra hno
          simp [hno] at hspec

/-- **The lengths in the character device**: for every message in the queue, every size of a read and
every answer of the allocators a read stays inside its buffers, and for every write the handlers stay
inside its bytes, exactly when the message fits the read and the bytes are well formed. -/
theorem deviceBounds_iff (alloc : Bool) (size : ℕ) (q : Queued) (k : Kernel) (bs : Bytes) :
    (ReadInside alloc size q ↔ (alloc = true ∨ size = 0) ∧ extent q ≤ size ∧ counted q ≤ size) ∧
      (ReadsInside k bs ↔ WellFormed k bs) :=
  ⟨readInside_iff alloc size q, readsInside_iff k bs⟩

/-- A kernel with enough memory. -/
def idle : Kernel :=
  ⟨true, true, true, true, true, true, 1100, by decide, fun _ => 24, fun _ => 0, fun _ => 0⟩

/-- A frame of 2030 bytes in the queue. -/
def longFrame : Queued :=
  .msg (.frm80211 .prbResp (List.replicate 2030 0) (by rw [List.length_replicate]; decide)
    ⟨List.replicate 6 0, rfl⟩ ⟨List.replicate 6 0, rfl⟩)

/-- A frame message that ends behind its `frame_len` of a hundred. -/
def cutFrame : Bytes :=
  [4, 0, 0, 0, 0, 0, 0, 0, 100, 0, 0, 0]

/-- A read of 2048 bytes meets the frame, and a write ends in the head of its frame. -/
theorem not_deviceBounds : ¬ ReadInside true 2048 longFrame ∧ ¬ ReadsInside idle cutFrame := by
  constructor
  · rw [readInside_iff, longFrame, extent, List.length_replicate]
    rintro ⟨-, hfit, -⟩
    exact absurd hfit (by decide)
  · rw [readsInside_iff]
    intro hform
    have hlong := (hform.2 rfl).2.2.2
    simp [Handles, cutFrame, idle, leNat, MsgHdlr.MsgType.ofCode] at hlong

end WriteBounds

end OneWifiTestSuite.KernelBounds
