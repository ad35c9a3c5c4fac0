import OneWifiTestSuite.MsgHdlr

/-!
# The encoder in the kernel and the decoder in user space

`rdkfmac_read` encodes a message into a buffer of the size that the reader asks for, with a cursor
`s_tmp` and a length `len` that its helpers advance by hand. `RoundTrips` says that the length is the
number of bytes written and that the message handler, whatever it held before, decodes all that was
transferred. `roundTrips_iff` is the exact condition on the message.
-/

namespace OneWifiTestSuite.KernelCodec

open ByteRegion MsgHdlr

/-! ### Messages in the kernel -/

section Messages

abbrev Mac := { bs : Bytes // bs.length = 6 }

def le32 (x : BitVec 32) : Bytes := leBytes 4 x.toNat

def le64 (x : BitVec 64) : Bytes := leBytes 8 x.toNat

/-- A `size_t`. -/
def sizeT (n : ℕ) : Bytes := leBytes 8 n

/-- `spec->u.cfg80211.u.start_ap.ap_params.crypto`; `psk` and `saePwd` are the bytes that are copied
from the place of these pointers. -/
structure Crypto where
  wpaVersions : BitVec 32
  cipherGroup : BitVec 32
  ciphersPairwise : List (BitVec 32)
  akmSuites : List (BitVec 32)
  controlPort : UInt8
  controlPortEthertype : BitVec 16
  controlPortNoEncrypt : UInt8
  controlPortOverNl80211 : UInt8
  psk : Bytes
  saePwd : Bytes

/-- `spec->u.cfg80211.u.start_ap`. The channel of `chandef` is a pointer into the kernel, and the
buffers of the beacon have their lengths beside them. -/
structure StartAp where
  ifindex : BitVec 32
  phyIndex : BitVec 32
  chan : BitVec 64
  chan_kernel : 2 ^ 63 ≤ chan.toNat
  chandefRest : Bytes
  ftmResponder : UInt8
  head : Bytes
  tail : Bytes
  beaconIes : Bytes
  proberespIes : Bytes
  assocrespIes : Bytes
  probeResp : Bytes
  lci : Bytes
  civicloc : Bytes
  beaconInterval : BitVec 32
  dtimPeriod : BitVec 32
  ssid : Bytes
  ssid_fits : ssid.length ≤ 32
  hiddenSsid : BitVec 32
  crypto : Crypto
  acl : Option Bytes
  privacy : UInt8
  authType : BitVec 32
  inactivityTimeout : BitVec 32
  p2pCtwindow : UInt8
  p2pOppPs : UInt8
  pbss : UInt8
  beaconRate : Bytes
  htCap : Option Bytes
  htCapSize : ℕ
  vhtCap : Option Bytes
  vhtCapSize : ℕ
  heCap : Option Bytes
  heCapSize : ℕ
  htRequired : UInt8
  vhtRequired : UInt8

/-- `wlan_emu_frm80211_ops_type_t`. -/
inductive FrmOps
  | prbResp | prbReq | assocResp | assocReq | auth | deauth | disassoc | eapol | reassocReq | reassocResp | action
deriving DecidableEq, Repr

def FrmOps.code : FrmOps → BitVec 32
  | .prbResp => 0
  | .prbReq => 1
  | .assocResp => 2
  | .assocReq => 3
  | .auth => 4
  | .deauth => 5
  | .disassoc => 6
  | .eapol => 7
  | .reassocReq => 8
  | .reassocResp => 9
  | .action => 10

/-- A message of a kind that both sides handle. -/
inductive Msg
  | startAp (ap : StartAp)
  | frm80211 (ops : FrmOps) (frame : Bytes) (len : frame.length < 2 ^ 32) (macaddr clientMacaddr : Mac)
  | tctrl (ctrl coverage type : BitVec 32)
  | close (fd : BitVec 32)
  | webconfig (subdocType : BitVec 32)
  | agentCmd (cmd : BitVec 32)
  | agentData (buf : BitVec 64)
  | agentNotification (subOpsType staState : BitVec 32) (sta bssid : Mac)

end Messages

/-! ### The encoder -/

section Code

/-- `send_buff` with `s_tmp`, `*len` and the end of the bytes written so far. -/
structure Enc where
  buf : Region
  cur : ℕ
  len : ℕ
  top : ℕ

/-- `memcpy`, then `s_tmp` and `*len` advance; `none` writes past the end of the buffer. -/
def put (size : ℕ) (bs : Bytes) (e : Enc) : Option Enc :=
  if e.cur + bs.length ≤ size then
    some ⟨store e.buf e.cur bs, e.cur + bs.length, e.len + bs.length, max e.top (e.cur + bs.length)⟩
  else none

def puts (size : ℕ) : List Bytes → Enc → Option Enc
  | [], e => some e
  | bs :: l, e => (put size bs e).bind (puts size l)

/-- A capability that is copied if it is there; the cursor advances in any case. -/
def putCap (size n : ℕ) (cap : Option Bytes) (e : Enc) : Option Enc :=
  match cap with
  | some bs => put size bs e
  | none => some { e with cur := e.cur + n, len := e.len + n }

/-- `fill_cfg80211_crypto`: the cursor is a copy, the length is the caller's. -/
def fillCfg80211Crypto (size : ℕ) (c : Crypto) (e : Enc) : Option Enc :=
  (puts size [le32 c.wpaVersions, le32 c.cipherGroup, leBytes 4 c.ciphersPairwise.length,
      c.ciphersPairwise.flatMap le32, leBytes 4 c.akmSuites.length, c.akmSuites.flatMap le32, [c.controlPort],
      leBytes 2 c.controlPortEthertype.toNat, [c.controlPortNoEncrypt], [c.controlPortOverNl80211], c.psk,
      leBytes 1 c.saePwd.length, c.saePwd] e).map fun e' => { e' with cur := e.cur }

/-- `fill_cfg80211_acl_data`: the size is added to the pointer `push_len`, not to the length; without
an access list its count is read through a null pointer. -/
def fillCfg80211AclData (size : ℕ) (acl : Option Bytes) (e : Enc) : Option Enc := do
  let acl ← acl
  let e' ← puts size [sizeT acl.length] e
  let e'' ← puts size [acl] e'
  pure { e'' with cur := e.cur, len := e'.len }

/-- `handle_cfg80211_msg_start_ap`. -/
def handleCfg80211MsgStartAp (size : ℕ) (ap : StartAp) (e : Enc) : Option Enc := do
  let e ← puts size [le32 2, le32 4, le32 ap.ifindex, le32 ap.phyIndex, le64 ap.chan] e
  let e ← puts size [ap.chandefRest, [ap.ftmResponder], sizeT ap.head.length, sizeT ap.tail.length,
    sizeT ap.beaconIes.length, sizeT ap.proberespIes.length, sizeT ap.assocrespIes.length, sizeT ap.probeResp.length,
    sizeT ap.lci.length, sizeT ap.civicloc.length, ap.head, ap.tail, ap.beaconIes, ap.proberespIes, ap.assocrespIes,
    ap.probeResp, ap.lci, ap.civicloc, le32 ap.beaconInterval ++ le32 ap.dtimPeriod, sizeT ap.ssid.length, ap.ssid,
    le32 ap.hiddenSsid] e
  let e ← fillCfg80211Crypto size ap.crypto e
  let e ← fillCfg80211AclData size ap.acl e
  let e ← puts size [[ap.privacy], le32 ap.authType, le32 ap.inactivityTimeout, [ap.p2pCtwindow], [ap.p2pOppPs],
    [ap.pbss], ap.beaconRate] e
  let e ← putCap size ap.htCapSize ap.htCap e
  let e ← putCap size ap.vhtCapSize ap.vhtCap e
  let e ← putCap size ap.heCapSize ap.heCap e
  puts size [[ap.htRequired, ap.vhtRequired]] e

/-- The bytes of the other messages, each copied behind the one before it: `handle_frame`,
`handle_emu80211_msg_tctrl`, `handle_emu80211_msg_close`, `handle_webconfig_msg` and `handle_agent_msg`. -/
def parts : Msg → List Bytes
  | .startAp _ => []
  | .frm80211 ops frame _ mac client =>
      [le32 4, le32 ops.code, leBytes 4 frame.length, frame, mac.1, client.1]
  | .tctrl ctrl coverage type => [le32 1, le32 1, le32 ctrl, le32 coverage, le32 type]
  | .close fd => [le32 1, le32 2, le32 fd]
  | .webconfig subdocType => [le32 5, le32 subdocType]
  | .agentCmd cmd => [le32 6, le32 0, le32 cmd]
  | .agentData buf => [le32 6, le32 1, le64 buf]
  | .agentNotification subOpsType staState sta bssid =>
      [le32 6, le32 2, le32 subOpsType] ++ if subOpsType = 1 then [le32 staState, sta.1, bssid.1] else []

/-- `rdkfmac_read` with a popped message, up to `copy_to_user`. -/
def rdkfmacRead (size : ℕ) (m : Msg) : Option Enc :=
  let e : Enc := ⟨fun _ => 0, 0, 0, 0⟩
  match m with
  | .startAp ap => handleCfg80211MsgStartAp size ap e
  | m => puts size (parts m) e

end Code

/-! ### The round trip -/

section Spec

/-- Type and operation. -/
def head : Msg → BitVec 32 × BitVec 32
  | .startAp _ => (2, 4)
  | .frm80211 ops _ _ _ _ => (4, ops.code)
  | .tctrl _ _ _ => (1, 1)
  | .close _ => (1, 2)
  | .webconfig subdocType => (5, subdocType)
  | .agentCmd _ => (6, 0)
  | .agentData _ => (6, 1)
  | .agentNotification _ _ _ _ => (6, 2)

/-- The fields that are transferred, with their values. -/
def fields : Msg → List (Field × Bytes)
  | .startAp ap =>
      [(ifindex, le32 ap.ifindex), (phyIndex, le32 ap.phyIndex), (ssidLen, sizeT ap.ssid.length),
        (⟨ssidOff, ap.ssid.length⟩, ap.ssid), (headLen, sizeT ap.head.length), (tailLen, sizeT ap.tail.length)]
  | .frm80211 _ frame _ mac client =>
      [(macaddr, mac.1), (clientMacaddr, client.1), (frameLen, leBytes 4 frame.length)]
  | .tctrl c cov type => [(ctrl, le32 c), (coverage, le32 cov), (testType, le32 type)]
  | .close fd => [(closeFd, le32 fd)]
  | .webconfig _ => []
  | .agentCmd c => [(cmd, le32 c)]
  | .agentData buf => [(agentBuf, le64 buf)]
  | .agentNotification sub state sta bssid =>
      (subOpsType, le32 sub) ::
        if sub = 1 then [(staState, le32 state), (staMacAddr, sta.1), (bssidMacAddr, bssid.1)] else []

/-- The buffers that are transferred. -/
def buffers : Msg → List (Field × Bytes)
  | .startAp ap => [(beaconHead, ap.head), (beaconTail, ap.tail)]
  | .frm80211 _ bs _ _ _ => [(MsgHdlr.frame, bs)]
  | _ => []

/-- The object holds what was transferred. -/
structure Holds (h : Handler) (m : Msg) : Prop where
  type_eq : h.type = le32 (head m).1
  ops_eq : h.get ops = le32 (head m).2
  fields_eq : ∀ x ∈ fields m, h.get x.1 = x.2
  buffers_eq : ∀ x ∈ buffers m, (h.heap (BitVec.ofNat 64 (h.num x.1))).take x.2.length = x.2

/-- The kernel encodes the message inside its buffer, with the right length, and every handler decodes
these bytes. -/
def RoundTrips (m : Msg) : Prop :=
  ∃ e, rdkfmacRead bufSize m = some e ∧ e.len = e.top ∧ e.len ≤ bufSize ∧
    ∀ (a : Addrs) (h : Handler),
      ∃ h', dispatch a { h with buf := store h.buf 0 (slice e.buf 0 e.len) } = some h' ∧ Holds h' m

/-- The condition on a message. -/
def Fits : Msg → Prop
  | .startAp _ => False
  | .frm80211 _ frame _ _ _ => 24 + frame.length ≤ bufSize
  | _ => True

end Spec

section Simple

variable {size : ℕ} {h h' : Handler}

@[simp]
theorem length_le32 (x : BitVec 32) : (le32 x).length = 4 := by
  simp [le32]

@[simp]
theorem length_le64 (x : BitVec 64) : (le64 x).length = 8 := by
  simp [le64]

@[simp]
theorem length_mac (x : Mac) : x.1.length = 6 := x.2

/-- Copies one behind the other, from a cursor at the end of what was written. -/
theorem puts_eq (l : List Bytes) (m : Region) (k : ℕ) (hk : k ≤ size) :
    puts size l ⟨m, k, k, k⟩ = if k + l.flatten.length ≤ size then
      some ⟨store m k l.flatten, k + l.flatten.length, k + l.flatten.length, k + l.flatten.length⟩ else none := by
  induction l generalizing m k with
  | nil =>
      have hempty : store m k [] = m := by
        funext i
        have hout : ¬ (k ≤ i ∧ i < k + 0) := by omega
        simp only [store, List.length_nil, if_neg hout]
      simp [puts, hk, hempty]
  | cons bs l ih =>
      simp only [puts, put, List.flatten_cons, List.length_append]
      by_cases hfit : k + bs.length ≤ size
      · have hmax : max k (k + bs.length) = k + bs.length := by omega
        rw [if_pos hfit, Option.bind_some, hmax, ih _ _ hfit, store_append]
        simp only [Nat.add_assoc]
      · have hno : ¬ k + (bs.length + l.flatten.length) ≤ size := by omega
        rw [if_neg hfit, if_neg hno]
        rfl

theorem slice_store_all (m : Region) (bs : Bytes) : slice (store m 0 bs) 0 bs.length = bs :=
  slice_store_self rfl

theorem roundTrips_iff_of_parts {m : Msg} (hm : rdkfmacRead bufSize m = puts bufSize (parts m) ⟨fun _ => 0, 0, 0, 0⟩) :
    RoundTrips m ↔ (parts m).flatten.length ≤ bufSize ∧ ∀ (a : Addrs) (h : Handler),
      ∃ h', dispatch a { h with buf := store h.buf 0 (parts m).flatten } = some h' ∧ Holds h' m := by
  rw [RoundTrips, hm, puts_eq _ _ 0 (Nat.zero_le _), Nat.zero_add]
  by_cases hfit : (parts m).flatten.length ≤ bufSize
  · rw [if_pos hfit]
    constructor
    · rintro ⟨e, ⟨⟩, -, -, hdec⟩
      refine ⟨hfit, fun a h => ?_⟩
      have hrun := hdec a h
      rw [slice_store_all] at hrun
      exact hrun
    · rintro ⟨-, hdec⟩
      refine ⟨_, rfl, rfl, hfit, fun a h => ?_⟩
      rw [slice_store_all]
      exact hdec a h
  · rw [if_neg hfit]
    constructor
    · rintro ⟨e, hnone, -⟩
      cases hnone
    · rintro ⟨hfit', -⟩
      exact absurd hfit' hfit

/-- The object that the decoder makes of a buffer. -/
theorem dispatch_view (a : Addrs) {m : Region} (hd : Decodes m) :
    ∃ h', dispatch a { h with buf := m } = some h' ∧ h'.kind = kindOf m ∧ h'.view = viewOf h.u h.heap m := by
  have hspec := dispatch_spec a { h with buf := m }
  rw [Spec, if_pos hd] at hspec
  exact hspec

/-- Enough for a round trip: over every buffer, the bytes decode to a view that shows the fields. -/
theorem roundTrips_of_view {m : Msg} (hm : rdkfmacRead bufSize m = puts bufSize (parts m) ⟨fun _ => 0, 0, 0, 0⟩)
    (hlen : (parts m).flatten.length ≤ bufSize)
    (hview : ∀ base B, B = store base 0 (parts m).flatten → Decodes B ∧ ∀ u heap (h' : Handler),
      h'.kind = kindOf B → h'.view = viewOf u heap B → Holds h' m) : RoundTrips m := by
  rw [roundTrips_iff_of_parts hm]
  refine ⟨hlen, fun a h => ?_⟩
  obtain ⟨hd, hholds⟩ := hview h.buf _ rfl
  obtain ⟨h', hrun, hk, hv⟩ := dispatch_view (h := h) a hd
  exact ⟨h', hrun, hholds _ _ h' hk hv⟩

/-- The same for a message without buffers: the decoder shows its fields and no others. -/
theorem roundTrips_of_shown {m : Msg} (k : Kind)
    (hm : rdkfmacRead bufSize m = puts bufSize (parts m) ⟨fun _ => 0, 0, 0, 0⟩)
    (hlen : (parts m).flatten.length ≤ bufSize) (hbuffers : buffers m = [])
    (hfields : ∀ u, k.fields u = ops :: (fields m).map Prod.fst)
    (hshown : ∀ base B, B = store base 0 (parts m).flatten → kindOf B = k ∧ Decodes B ∧ ∀ u heap,
      viewOf u heap B = ⟨le32 (head m).1, le32 (head m).2 :: (fields m).map Prod.snd, []⟩) : RoundTrips m := by
  apply roundTrips_of_view hm hlen
  intro base B hB
  obtain ⟨hkind, hd, hview⟩ := hshown base B hB
  refine ⟨hd, fun u heap h' hk hshow => ?_⟩
  rw [hview, Handler.view, hk, hkind, hfields] at hshow
  simp only [List.map_cons, List.map_map, View.mk.injEq, List.cons.injEq] at hshow
  obtain ⟨htype, ⟨hops, hrest⟩, -⟩ := hshow
  refine ⟨htype, hops, ?_, ?_⟩
  · exact List.map_inj_left.mp hrest
  · simp [hbuffers]

theorem roundTrips_tctrl (c cov type : BitVec 32) : RoundTrips (.tctrl c cov type) := by
  apply roundTrips_of_shown (.emu80211 .tctrl) rfl (by simp [parts, bufSize]) rfl (fun _ => rfl)
  intro base B hB
  have hslices : slice B 0 4 = le32 1 ∧ slice B 4 4 = le32 1 ∧ slice B 8 4 = le32 c ∧ slice B 12 4 = le32 cov ∧
      slice B 16 4 = le32 type := by
    simp (disch := simp) [hB, parts, store_append, slice_store_self, slice_store_of_le]
  obtain ⟨h₀, h₄, h₈, h₁₂, h₁₆⟩ := hslices
  have hkind : kindOf B = .emu80211 .tctrl := by
    rw [kindOf, h₀, h₄]
    rfl
  refine ⟨hkind, by simp [Decodes, wireSize, hkind, bufSize], fun u heap => ?_⟩
  simp only [viewOf, hkind, h₀, h₄, h₈, h₁₂, h₁₆]
  rfl

theorem roundTrips_close (fd : BitVec 32) : RoundTrips (.close fd) := by
  apply roundTrips_of_shown (.emu80211 .close) rfl (by simp [parts, bufSize]) rfl (fun _ => rfl)
  intro base B hB
  have hslices : slice B 0 4 = le32 1 ∧ slice B 4 4 = le32 2 ∧ slice B 8 4 = le32 fd := by
    simp (disch := simp) [hB, parts, store_append, slice_store_self, slice_store_of_le]
  obtain ⟨h₀, h₄, h₈⟩ := hslices
  have hkind : kindOf B = .emu80211 .close := by
    rw [kindOf, h₀, h₄]
    rfl
  refine ⟨hkind, by simp [Decodes, wireSize, hkind, bufSize], fun u heap => ?_⟩
  simp only [viewOf, hkind, h₀, h₄, h₈]
  rfl

theorem roundTrips_webconfig (subdocType : BitVec 32) : RoundTrips (.webconfig subdocType) := by
  apply roundTrips_of_shown .webconfig rfl (by simp [parts, bufSize]) rfl (fun _ => rfl)
  intro base B hB
  have hslices : slice B 0 4 = le32 5 ∧ slice B 4 4 = le32 subdocType := by
    simp (disch := simp) [hB, parts, store_append, slice_store_self, slice_store_of_le]
  obtain ⟨h₀, h₄⟩ := hslices
  have hkind : kindOf B = .webconfig := by
    rw [kindOf, h₀]
    rfl
  refine ⟨hkind, by simp [Decodes, wireSize, hkind, bufSize], fun u heap => ?_⟩
  simp only [viewOf, hkind, h₀, h₄]
  rfl

theorem roundTrips_agentCmd (c : BitVec 32) : RoundTrips (.agentCmd c) := by
  apply roundTrips_of_shown (.agent .cmd) rfl (by simp [parts, bufSize]) rfl (fun _ => rfl)
  intro base B hB
  have hslices : slice B 0 4 = le32 6 ∧ slice B 4 4 = le32 0 ∧ slice B 8 4 = le32 c := by
    simp (disch := simp) [hB, parts, store_append, slice_store_self, slice_store_of_le]
  obtain ⟨h₀, h₄, h₈⟩ := hslices
  have hkind : kindOf B = .agent .cmd := by
    rw [kindOf, h₀, h₄]
    rfl
  refine ⟨hkind, by simp [Decodes, wireSize, hkind, bufSize], fun u heap => ?_⟩
  simp only [viewOf, hkind, h₀, h₄, h₈]
  rfl

theorem roundTrips_agentData (buf : BitVec 64) : RoundTrips (.agentData buf) := by
  apply roundTrips_of_shown (.agent .data) rfl (by simp [parts, bufSize]) rfl (fun _ => rfl)
  intro base B hB
  have hslices : slice B 0 4 = le32 6 ∧ slice B 4 4 = le32 1 ∧ slice B 8 8 = le64 buf := by
    simp (disch := simp) [hB, parts, store_append, slice_store_self, slice_store_of_le]
  obtain ⟨h₀, h₄, h₈⟩ := hslices
  have hkind : kindOf B = .agent .data := by
    rw [kindOf, h₀, h₄]
    rfl
  refine ⟨hkind, by simp [Decodes, wireSize, hkind, bufSize], fun u heap => ?_⟩
  simp only [viewOf, hkind, h₀, h₄, h₈]
  rfl

/-- A notification of another sub type transfers the sub type alone. -/
theorem roundTrips_agentNotification (sub state : BitVec 32) (sta bssid : Mac) :
    RoundTrips (.agentNotification sub state sta bssid) := by
  apply roundTrips_of_view rfl
  · by_cases hsub : sub = 1#32 <;> simp [parts, hsub, bufSize]
  intro base B hB
  have hslices : slice B 0 4 = le32 6 ∧ slice B 4 4 = le32 2 ∧ slice B 8 4 = le32 sub ∧ (sub = 1 →
      slice B 12 4 = le32 state ∧ slice B 16 6 = sta.1 ∧ slice B 22 6 = bssid.1) := by
    by_cases hsub : sub = 1#32
    · simp (disch := simp) [hB, parts, hsub, store_append, slice_store_self, slice_store_of_le]
    · simp (disch := simp) [hB, parts, hsub, store_append, slice_store_self, slice_store_of_le]
  obtain ⟨h₀, h₄, h₈, hrest⟩ := hslices
  have hkind : kindOf B = .agent .notification := by
    rw [kindOf, h₀, h₄]
    rfl
  refine ⟨by simp [Decodes, wireSize, hkind, bufSize], fun u heap h' hk hview => ?_⟩
  rw [Handler.view, hk, viewOf, hkind] at hview
  simp only [Kind.fields, Kind.buffers, List.map_cons, List.map_nil, View.mk.injEq, List.cons.injEq, and_true, h₀, h₄,
    h₈] at hview
  obtain ⟨htype, hops, hsubop, hstate, hsta, hbssid⟩ := hview
  refine ⟨htype, hops, ?_, ?_⟩
  · by_cases hsub : sub = 1#32
    · obtain ⟨h₁₂, h₁₆, h₂₂⟩ := hrest hsub
      rw [h₁₂] at hstate
      rw [h₁₆] at hsta
      rw [h₂₂] at hbssid
      simp [fields, hsub, hsubop, hstate, hsta, hbssid]
    · simp [fields, hsub, hsubop]
  · simp [buffers]

theorem roundTrips_frm80211_iff (ops : FrmOps) (bs : Bytes) (len : bs.length < 2 ^ 32) (mac client : Mac) :
    RoundTrips (.frm80211 ops bs len mac client) ↔ 24 + bs.length ≤ bufSize := by
  have hlen : (parts (.frm80211 ops bs len mac client)).flatten.length = 24 + bs.length := by
    simp [parts]
    omega
  constructor
  · intro hr
    rw [roundTrips_iff_of_parts rfl, hlen] at hr
    exact hr.1
  · intro hfit
    apply roundTrips_of_view rfl (by rw [hlen]; exact hfit)
    intro base B hB
    have hslices : slice B 0 4 = le32 4 ∧ slice B 4 4 = le32 ops.code ∧ slice B 8 4 = leBytes 4 bs.length ∧
        slice B 12 bs.length = bs ∧ slice B (12 + bs.length) 6 = mac.1 ∧ slice B (12 + bs.length + 6) 6 = client.1 := by
      simp (disch := (simp <;> omega)) [hB, parts, store_append, slice_store_self, slice_store_of_le]
    obtain ⟨h₀, h₄, h₈, h₁₂, hmac, hclient⟩ := hslices
    have hF : leNat (leBytes 4 bs.length) = bs.length := leNat_leBytes (by omega)
    have hkind : kindOf B = .frm80211 := by
      rw [kindOf, h₀]
      rfl
    refine ⟨by simpa [Decodes, wireSize, hkind, h₈, hF] using hfit, fun u heap h' hk hview => ?_⟩
    rw [Handler.view, hk, viewOf, hkind] at hview
    simp only [Kind.fields, Kind.buffers, List.map_cons, List.map_nil, View.mk.injEq, List.cons.injEq, and_true, h₀, h₄,
      h₈, hF, h₁₂, hmac, hclient] at hview
    obtain ⟨htype, ⟨hops, hmac', hclient', hlen'⟩, hframe⟩ := hview
    refine ⟨htype, hops, ?_, ?_⟩
    · simp [fields, hmac', hclient', hlen']
    · have hnum : h'.num frameLen = bs.length := by
        rw [Handler.num, hlen', hF]
      rw [hnum] at hframe
      simpa [buffers] using hframe

end Simple

section StartAp

variable {size : ℕ} {e e' : Enc} {k : ℕ}

/-- A part of the encoder that writes and counts beyond `k` alone. -/
structure Beyond (k : ℕ) (e e' : Enc) : Prop where
  buf : ∀ i < k, e'.buf i = e.buf i
  cur : e.cur ≤ e'.cur
  len : e.len ≤ e'.len

theorem Beyond.refl (k : ℕ) (e : Enc) : Beyond k e e :=
  ⟨fun _ _ => rfl, Nat.le_refl _, Nat.le_refl _⟩

theorem Beyond.trans {e'' : Enc} (h : Beyond k e e') (h' : Beyond k e' e'') : Beyond k e e'' :=
  ⟨fun i hi => (h'.buf i hi).trans (h.buf i hi), h.cur.trans h'.cur, h.len.trans h'.len⟩

theorem put_beyond {bs : Bytes} (hk : k ≤ e.cur) (h : put size bs e = some e') : Beyond k e e' := by
  unfold put at h
  split_ifs at h
  cases h
  refine ⟨fun i hi => ?_, Nat.le_add_right _ _, Nat.le_add_right _ _⟩
  have hout : ¬ (e.cur ≤ i ∧ i < e.cur + bs.length) := by omega
  simp only [store, if_neg hout]

theorem puts_beyond {l : List Bytes} (hk : k ≤ e.cur) (h : puts size l e = some e') : Beyond k e e' := by
  induction l generalizing e with
  | nil =>
      cases h
      exact Beyond.refl _ _
  | cons bs l ih =>
      obtain ⟨e₁, h₁, h₂⟩ := Option.bind_eq_some_iff.mp h
      have hb := put_beyond hk h₁
      exact hb.trans (ih (hk.trans hb.cur) h₂)

theorem putCap_beyond {n : ℕ} {cap : Option Bytes} (hk : k ≤ e.cur) (h : putCap size n cap e = some e') :
    Beyond k e e' := by
  cases cap with
  | some bs =>
      exact put_beyond hk h
  | none =>
      cases h
      exact ⟨fun _ _ => rfl, Nat.le_add_right _ _, Nat.le_add_right _ _⟩

theorem fillCfg80211Crypto_beyond {c : Crypto} (hk : k ≤ e.cur) (h : fillCfg80211Crypto size c e = some e') :
    Beyond k e e' := by
  obtain ⟨e₁, h₁, rfl⟩ := Option.map_eq_some_iff.mp h
  have hb := puts_beyond hk h₁
  exact ⟨hb.buf, Nat.le_refl _, hb.len⟩

theorem fillCfg80211AclData_beyond {acl : Option Bytes} (hk : k ≤ e.cur)
    (h : fillCfg80211AclData size acl e = some e') : Beyond k e e' := by
  obtain ⟨bs, -, h⟩ := Option.bind_eq_some_iff.mp h
  obtain ⟨e₁, h₁, h⟩ := Option.bind_eq_some_iff.mp h
  obtain ⟨e₂, h₂, h⟩ := Option.bind_eq_some_iff.mp h
  cases h
  have hb₁ := puts_beyond hk h₁
  have hb₂ := puts_beyond (hk.trans hb₁.cur) h₂
  exact ⟨(hb₁.trans hb₂).buf, Nat.le_refl _, hb₁.len⟩

/-- The start of an encoded `start_ap`: behind the indices comes the pointer to the channel. -/
theorem startAp_start {ap : StartAp} (h : rdkfmacRead size (.startAp ap) = some e) :
    24 ≤ e.len ∧ slice e.buf 0 4 = le32 2 ∧ slice e.buf 4 4 = le32 4 ∧ slice e.buf 16 8 = le64 ap.chan := by
  simp only [rdkfmacRead, handleCfg80211MsgStartAp, Option.bind_eq_bind] at h
  obtain ⟨e₁, h₁, h⟩ := Option.bind_eq_some_iff.mp h
  rw [puts_eq _ _ 0 (Nat.zero_le _)] at h₁
  split_ifs at h₁
  cases h₁
  obtain ⟨e₂, h₂, h⟩ := Option.bind_eq_some_iff.mp h
  obtain ⟨e₃, h₃, h⟩ := Option.bind_eq_some_iff.mp h
  obtain ⟨e₄, h₄, h⟩ := Option.bind_eq_some_iff.mp h
  obtain ⟨e₅, h₅, h⟩ := Option.bind_eq_some_iff.mp h
  obtain ⟨e₆, h₆, h⟩ := Option.bind_eq_some_iff.mp h
  obtain ⟨e₇, h₇, h⟩ := Option.bind_eq_some_iff.mp h
  obtain ⟨e₈, h₈, h⟩ := Option.bind_eq_some_iff.mp h
  have hb₂ := puts_beyond (k := 24) (by simp) h₂
  have hb₃ := hb₂.trans (fillCfg80211Crypto_beyond (le_trans (by simp) hb₂.cur) h₃)
  have hb₄ := hb₃.trans (fillCfg80211AclData_beyond (le_trans (by simp) hb₃.cur) h₄)
  have hb₅ := hb₄.trans (puts_beyond (le_trans (by simp) hb₄.cur) h₅)
  have hb₆ := hb₅.trans (putCap_beyond (le_trans (by simp) hb₅.cur) h₆)
  have hb₇ := hb₆.trans (putCap_beyond (le_trans (by simp) hb₆.cur) h₇)
  have hb₈ := hb₇.trans (putCap_beyond (le_trans (by simp) hb₇.cur) h₈)
  have hb := hb₈.trans (puts_beyond (le_trans (by simp) hb₈.cur) h)
  have hkeep : ∀ off len, off + len ≤ 24 → slice e.buf off len = slice (store (fun _ => 0) 0 [le32 2, le32 4,
      le32 ap.ifindex, le32 ap.phyIndex, le64 ap.chan].flatten) off len := fun off len hle =>
    slice_congr fun i _ hi => hb.buf i (by omega)
  have hlen := hb.len
  refine ⟨le_trans (by simp) hlen, ?_, ?_, ?_⟩
  · rw [hkeep _ _ (by decide)]
    simp (disch := simp) [store_append, slice_store_self, slice_store_of_le]
  · rw [hkeep _ _ (by decide)]
    simp (disch := simp) [store_append, slice_store_self, slice_store_of_le]
  · rw [hkeep _ _ (by decide)]
    simp (disch := simp) [store_append, slice_store_self]

/-- The decoder takes the pointer for the length of the SSID. -/
theorem not_roundTrips_startAp (ap : StartAp) : ¬ RoundTrips (.startAp ap) := by
  rintro ⟨e, hrun, -, hsize, hdec⟩
  obtain ⟨hlen, h₀, h₄, h₁₆⟩ := startAp_start hrun
  have hread : ∀ off len, off + len ≤ 24 → slice (store (fun _ => 0) 0 (slice e.buf 0 e.len)) off len =
      slice e.buf off len := by
    intro off len hle
    rw [slice_store_sub (Nat.zero_le _) (by simp; omega), Nat.sub_zero, slice_sub _ (by omega), Nat.zero_add]
  obtain ⟨B, hB⟩ : ∃ B, B = store (fun _ => 0) 0 (slice e.buf 0 e.len) := ⟨_, rfl⟩
  rw [← hB] at hread
  have hkind : kindOf B = .cfg80211 .startAp := by
    rw [kindOf, hread 0 4 (by decide), hread 4 4 (by decide), h₀, h₄]
    rfl
  have hchan := ap.chan_kernel
  have hlong : 32 < ssidLenOf B := by
    rw [ssidLenOf, hread 16 8 (by decide), h₁₆, le64, leNat_leBytes (by have := ap.chan.isLt; omega)]
    omega
  have hd : Decodes B := ⟨by simp [wireSize, hkind, hlong, bufSize], fun _ hle => by omega⟩
  obtain ⟨h₁, hrun₁, hk, hview⟩ := dispatch_view (h := MsgHdlr.init) ⟨0, 1, by decide⟩ hd
  obtain ⟨h₂, hrun₂, hholds⟩ := hdec ⟨0, 1, by decide⟩ MsgHdlr.init
  have hinit : (MsgHdlr.init).buf = fun _ => 0 := rfl
  rw [hinit, ← hB, hrun₁] at hrun₂
  cases hrun₂
  have hssid := hholds.fields_eq (ssidLen, sizeT ap.ssid.length) (by simp [fields])
  rw [Handler.view, hk, viewOf, hkind] at hview
  simp only [Kind.fields, if_pos hlong, List.map_cons, View.mk.injEq, List.cons.injEq] at hview
  have hgot := hview.2.1.2.2.2.2.1
  rw [hssid, hread 16 8 (by decide), h₁₆] at hgot
  have hnum := congrArg leNat hgot
  have hfits := ap.ssid_fits
  rw [le64, sizeT, leNat_leBytes (by omega), leNat_leBytes (by have := ap.chan.isLt; omega)] at hnum
  omega

/-- **The round trip from the kernel to user space**: for every message of a kind that both sides
handle, the encoder reports the number of bytes it wrote and the decoder restores what was
transferred, over every earlier message, exactly when the message is no `start_ap` and a frame fits
the buffer of the reader. -/
theorem roundTrips_iff (m : Msg) : RoundTrips m ↔ Fits m := by
  cases m with
  | startAp ap =>
      exact iff_of_false (not_roundTrips_startAp ap) id
  | frm80211 ops bs len mac client =>
      exact roundTrips_frm80211_iff ops bs len mac client
  | tctrl c cov type =>
      exact iff_of_true (roundTrips_tctrl c cov type) trivial
  | close fd =>
      exact iff_of_true (roundTrips_close fd) trivial
  | webconfig subdocType =>
      exact iff_of_true (roundTrips_webconfig subdocType) trivial
  | agentCmd c =>
      exact iff_of_true (roundTrips_agentCmd c) trivial
  | agentData buf =>
      exact iff_of_true (roundTrips_agentData buf) trivial
  | agentNotification sub state sta bssid =>
      exact iff_of_true (roundTrips_agentNotification sub state sta bssid) trivial

/-- An open access point with the SSID `ap` and an empty access list. -/
def openAp : StartAp where
  ifindex := 3
  phyIndex := 0
  chan := 18446612682702848000#64
  chan_kernel := by norm_num
  chandefRest := List.replicate 24 0
  ftmResponder := 0
  head := [128, 0]
  tail := []
  beaconIes := []
  proberespIes := []
  assocrespIes := []
  probeResp := []
  lci := []
  civicloc := []
  beaconInterval := 100
  dtimPeriod := 1
  ssid := [97, 112]
  ssid_fits := by decide
  hiddenSsid := 0
  crypto := ⟨0, 0, [], [], 0, 0, 0, 0, [], []⟩
  acl := some (List.replicate 8 0)
  privacy := 0
  authType := 0
  inactivityTimeout := 0
  p2pCtwindow := 0
  p2pOppPs := 0
  pbss := 0
  beaconRate := []
  htCap := none
  htCapSize := 26
  vhtCap := none
  vhtCapSize := 12
  heCap := none
  heCapSize := 54
  htRequired := 0
  vhtRequired := 0

theorem not_roundTrips_openAp : ¬ RoundTrips (.startAp openAp) :=
  not_roundTrips_startAp openAp

end StartAp

end OneWifiTestSuite.KernelCodec
