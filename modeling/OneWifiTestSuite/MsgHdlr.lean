import OneWifiTestSuite.ByteRegion
import OneWifiTestSuite.Runs

/-!
# The message handler

`msg_hdlr_thread_func` reads from the device into one buffer and decodes it into one message object,
both kept over all of its turns, and queues a copy of the object. The object is a union; its fields
are given by their offsets in the union on a 64-bit machine, where every `ops` is at offset 0.

`dispatch_spec` says what the decoder makes of every buffer over every object that is left from the
message before, and `wire_viewOf` that a message shows all the bytes it was decoded from.
-/

namespace OneWifiTestSuite.MsgHdlr

open ByteRegion

/-! ### The message object -/

section Fields

/-- `wlan_emu_msg_type_t`. -/
inductive MsgType
  | none | emu80211 | cfg80211 | mac80211 | frm80211 | webconfig | agent | other
deriving DecidableEq, Repr

def MsgType.ofCode : ℕ → MsgType
  | 0 => .none
  | 1 => .emu80211
  | 2 => .cfg80211
  | 3 => .mac80211
  | 4 => .frm80211
  | 5 => .webconfig
  | 6 => .agent
  | _ => .other

/-- `wlan_emu_cfg80211_ops_type_t`. -/
inductive CfgOps
  | none | addIntf | delIntf | changeIntf | startAp | changeBeacon | stopAp | setWiphy | other
deriving DecidableEq, Repr

def CfgOps.ofCode : ℕ → CfgOps
  | 0 => .none
  | 1 => .addIntf
  | 2 => .delIntf
  | 3 => .changeIntf
  | 4 => .startAp
  | 5 => .changeBeacon
  | 6 => .stopAp
  | 7 => .setWiphy
  | _ => .other

/-- `wlan_emu_emu80211_ops_type_t`. -/
inductive EmuOps
  | tctrl | close | cmnd | other
deriving DecidableEq, Repr

def EmuOps.ofCode : ℕ → EmuOps
  | 1 => .tctrl
  | 2 => .close
  | 3 => .cmnd
  | _ => .other

/-- `wlan_emu_msg_agent_ops_t`. -/
inductive AgentOps
  | cmd | data | notification | other
deriving DecidableEq, Repr

def AgentOps.ofCode : ℕ → AgentOps
  | 0 => .cmd
  | 1 => .data
  | 2 => .notification
  | _ => .other

/-- The type of a message together with its operation. -/
inductive Kind
  | bare
  | mac80211
  | cfg80211 (ops : CfgOps)
  | emu80211 (ops : EmuOps)
  | frm80211
  | webconfig
  | agent (ops : AgentOps)
deriving DecidableEq, Repr

def Kind.of (type ops : Bytes) : Kind :=
  match MsgType.ofCode (leNat type) with
  | .none | .other => .bare
  | .mac80211 => .mac80211
  | .cfg80211 => .cfg80211 (.ofCode (leNat ops))
  | .emu80211 => .emu80211 (.ofCode (leNat ops))
  | .frm80211 => .frm80211
  | .webconfig => .webconfig
  | .agent => .agent (.ofCode (leNat ops))

/-- A field of the union. -/
structure Field where
  off : ℕ
  len : ℕ
deriving DecidableEq, Repr

/-- The first field of every member: `ops`, or the `subdoc_type` of a webconfig message. -/
def ops : Field := ⟨0, 4⟩

/-! `u.cfg80211.u.start_ap` -/

def ifindex : Field := ⟨8, 4⟩
def phyIndex : Field := ⟨12, 4⟩
def apMacaddr : Field := ⟨16, 6⟩
def ssidOff : ℕ := 22
def ssidLen : Field := ⟨56, 8⟩
def beaconHead : Field := ⟨64, 8⟩
def headLen : Field := ⟨72, 8⟩
def beaconTail : Field := ⟨80, 8⟩
def tailLen : Field := ⟨88, 8⟩

/-! `u.frm80211.u.frame` -/

def macaddr : Field := ⟨8, 6⟩
def clientMacaddr : Field := ⟨14, 6⟩
def frame : Field := ⟨24, 8⟩
def frameLen : Field := ⟨32, 4⟩

/-! `u.emu80211.u` and `u.agent_msg.u` -/

def ctrl : Field := ⟨4, 4⟩
def coverage : Field := ⟨8, 4⟩
def testType : Field := ⟨12, 4⟩
def closeFd : Field := ⟨4, 4⟩
def cmd : Field := ⟨8, 4⟩
def agentBuf : Field := ⟨8, 8⟩
def subOpsType : Field := ⟨8, 4⟩
def staState : Field := ⟨12, 4⟩
def staMacAddr : Field := ⟨16, 6⟩
def bssidMacAddr : Field := ⟨22, 6⟩

/-- The fields of a kind of message; `u` gives the length of the SSID. -/
def Kind.fields (u : Region) : Kind → List Field
  | .bare => []
  | .mac80211 => [ops, ⟨4, 64⟩]
  | .cfg80211 .addIntf =>
      [ops, ifindex, phyIndex, ⟨16, 64⟩, ⟨80, 8⟩, ⟨88, 4⟩, ⟨92, 6⟩, ⟨100, 4⟩, ⟨104, 1⟩, ⟨108, 4⟩, ⟨112, 4⟩, ⟨116, 4⟩]
  | .cfg80211 .delIntf | .cfg80211 .changeBeacon => [ops, ifindex, phyIndex]
  | .cfg80211 .changeIntf => [ops, ifindex, phyIndex, ⟨16, 4⟩]
  | .cfg80211 .startAp =>
      [ops, ifindex, phyIndex, apMacaddr, ssidLen, ⟨ssidOff, min 32 (leNat (slice u ssidLen.off ssidLen.len))⟩,
        headLen, tailLen]
  | .cfg80211 .stopAp => [ops, ifindex]
  | .cfg80211 .setWiphy => [ops, ifindex, phyIndex, ⟨16, 4⟩, ⟨20, 4⟩, ⟨24, 4⟩, ⟨28, 4⟩]
  | .cfg80211 _ => [ops]
  | .emu80211 .tctrl => [ops, ctrl, coverage, testType]
  | .emu80211 .close => [ops, closeFd]
  | .emu80211 .cmnd => [ops, ⟨4, 4⟩, ⟨8, 1024⟩, ⟨1032, 4⟩]
  | .emu80211 .other => [ops]
  | .frm80211 => [ops, macaddr, clientMacaddr, frameLen]
  | .webconfig => [ops]
  | .agent .cmd => [ops, cmd]
  | .agent .data => [ops, agentBuf]
  | .agent .notification => [ops, subOpsType, staState, staMacAddr, bssidMacAddr]
  | .agent .other => [ops]

/-- The heap buffers of a kind of message: pointer and length. -/
def Kind.buffers : Kind → List (Field × Field)
  | .cfg80211 .startAp => [(beaconHead, headLen), (beaconTail, tailLen)]
  | .frm80211 => [(frame, frameLen)]
  | _ => []

end Fields

/-! ### The thread -/

section Code

/-- The size of `f_tmp` and of every read. -/
def bufSize : ℕ := 2048

/-- What the thread keeps: the type and the union of `f_data`, `f_tmp` with the cursor `p_f_tmp`, and
the blocks that `malloc` gave it. -/
structure Handler where
  type : Bytes
  u : Region
  buf : Region
  cur : ℕ
  heap : BitVec 64 → Bytes

def init : Handler := ⟨[0, 0, 0, 0], fun _ => 0, fun _ => 0, 0, fun _ => []⟩

/-- Two answers of `malloc`. -/
structure Addrs where
  first : BitVec 64
  second : BitVec 64
  ne : first ≠ second

/-- A `read`: an error, or bytes, at most as many as were asked for. -/
inductive Read
  | failed
  | bytes (bs : Bytes) (fits : bs.length ≤ bufSize)

def Handler.get (h : Handler) (f : Field) : Bytes := slice h.u f.off f.len

def Handler.num (h : Handler) (f : Field) : ℕ := leNat (h.get f)

/-- `memcpy` of the next bytes into a field; `none` reads past the end of `f_tmp`. -/
def copy (f : Field) (h : Handler) : Option Handler :=
  if h.cur + f.len ≤ bufSize then
    some { h with u := store h.u f.off (slice h.buf h.cur f.len), cur := h.cur + f.len }
  else none

/-- `malloc` of `n` bytes for the pointer `f` and `memcpy` of the next bytes into them. -/
def copyBlock (f : Field) (n : ℕ) (addr : BitVec 64) (h : Handler) : Option Handler :=
  if h.cur + n ≤ bufSize then
    some { h with u := store h.u f.off (leBytes 8 addr.toNat), cur := h.cur + n,
                  heap := Function.update h.heap addr (slice h.buf h.cur n) }
  else none

/-- `head->bssid` of the beacon head; `none` reads past the end of its block. -/
def copyBssid (addr : BitVec 64) (h : Handler) : Option Handler :=
  if 22 ≤ (h.heap addr).length then
    some { h with u := store h.u apMacaddr.off (((h.heap addr).drop 16).take 6) }
  else none

/-- `handle_cfg80211_start_ap`. -/
def handleCfg80211StartAp (a : Addrs) (h : Handler) : Option Handler := do
  let h ← copy ifindex h
  let h ← copy phyIndex h
  let h ← copy ssidLen h
  if 32 < h.num ssidLen then pure h
  else
    let h ← copy ⟨ssidOff, h.num ssidLen⟩ h
    let h ← copy headLen h
    let h ← copy tailLen h
    let h ← copyBlock beaconHead (h.num headLen) a.first h
    let h ← copyBlock beaconTail (h.num tailLen) a.second h
    copyBssid a.first h

/-- `handle_cfg80211_msg`. -/
def handleCfg80211Msg (a : Addrs) (h : Handler) : Option Handler := do
  let h ← copy ops h
  match CfgOps.ofCode (h.num ops) with
  | .startAp => handleCfg80211StartAp a h
  | _ => pure h

/-- `handle_frm80211_msg`. -/
def handleFrm80211Msg (a : Addrs) (h : Handler) : Option Handler := do
  let h ← copy ops h
  let h ← copy frameLen h
  let h ← copyBlock frame (h.num frameLen) a.first h
  let h ← copy macaddr h
  copy clientMacaddr h

/-- `handle_emu80211_type_msg_tctrl`. -/
def handleEmu80211TypeMsgTctrl (h : Handler) : Option Handler := do
  let h ← copy ctrl h
  let h ← copy coverage h
  copy testType h

/-- `handle_emu80211_type_msg_close`. -/
def handleEmu80211TypeMsgClose (h : Handler) : Option Handler :=
  copy closeFd h

/-- `handle_emu80211_msg`. -/
def handleEmu80211Msg (h : Handler) : Option Handler := do
  let h ← copy ops h
  match EmuOps.ofCode (h.num ops) with
  | .tctrl => handleEmu80211TypeMsgTctrl h
  | .close => handleEmu80211TypeMsgClose h
  | _ => pure h

/-- `handle_webconfig_msg`. -/
def handleWebconfigMsg (h : Handler) : Option Handler :=
  copy ops h

/-- `handle_agent_msg`. -/
def handleAgentMsg (h : Handler) : Option Handler := do
  let h ← copy ops h
  match AgentOps.ofCode (h.num ops) with
  | .cmd => copy cmd h
  | .data => copy agentBuf h
  | .notification => do
      let h ← copy subOpsType h
      let h ← copy staState h
      let h ← copy staMacAddr h
      copy bssidMacAddr h
  | .other => pure h

/-- The cursor at the start of `f_tmp`, and the type taken. -/
def Handler.begin (h : Handler) : Handler :=
  { h with type := slice h.buf 0 4, cur := 4 }

/-- The decoding of what is in `f_tmp`. -/
def dispatch (a : Addrs) (h : Handler) : Option Handler :=
  match MsgType.ofCode (leNat h.begin.type) with
  | .cfg80211 => handleCfg80211Msg a h.begin
  | .emu80211 => handleEmu80211Msg h.begin
  | .frm80211 => handleFrm80211Msg a h.begin
  | .webconfig => handleWebconfigMsg h.begin
  | .agent => handleAgentMsg h.begin
  | _ => some h.begin

/-- The fields of the message in `f_data`, its buffers with their content. -/
structure View where
  type : Bytes
  fields : List Bytes
  buffers : List Bytes
deriving DecidableEq, Repr

def Handler.kind (h : Handler) : Kind := .of h.type (h.get ops)

def Handler.view (h : Handler) : View :=
  ⟨h.type, (h.kind.fields h.u).map h.get,
    h.kind.buffers.map fun x => (h.heap (BitVec.ofNat 64 (h.num x.1))).take (h.num x.2)⟩

inductive Out
  | skipped
  | exited
  | delivered (v : View)
deriving DecidableEq, Repr

/-- What is in `f_tmp` after a read; a failed one leaves it as it was, and its result is not checked. -/
def receive : Read → Region → Region
  | .failed, buf => buf
  | .bytes bs _, buf => store buf 0 bs

/-- A turn of `msg_hdlr_thread_func`. -/
def turn (h : Handler) (a : Addrs) (r : Read) : Option (Handler × Out) :=
  match r with
  | .bytes [] _ => some (h, .skipped)
  | r =>
      (dispatch a { h with buf := receive r h.buf }).map fun h =>
        (h, if h.kind = .emu80211 .close then .exited else .delivered h.view)

end Code

/-! ### What the decoder makes of the buffer -/

section Decoding

variable {h : Handler} {a : Addrs}

/-- The kind of the message in a buffer. -/
def kindOf (m : Region) : Kind := .of (slice m 0 4) (slice m 4 4)

/-- The lengths in an encoded `start_ap`. -/
def ssidLenOf (m : Region) : ℕ := leNat (slice m 16 8)
def headLenOf (m : Region) : ℕ := leNat (slice m (24 + ssidLenOf m) 8)
def tailLenOf (m : Region) : ℕ := leNat (slice m (32 + ssidLenOf m) 8)

/-- The number of bytes that the decoder takes for what it delivers. -/
def wireSize (m : Region) : ℕ :=
  match kindOf m with
  | .bare | .mac80211 => 4
  | .cfg80211 .startAp => if 32 < ssidLenOf m then 24 else 40 + ssidLenOf m + headLenOf m + tailLenOf m
  | .emu80211 .tctrl => 20
  | .frm80211 => 24 + leNat (slice m 8 4)
  | .agent .cmd => 12
  | .agent .data => 16
  | .agent .notification => 28
  | _ => 8

/-- The decoder stays inside `f_tmp` and inside the beacon head. -/
def Decodes (m : Region) : Prop :=
  wireSize m ≤ bufSize ∧ (kindOf m = .cfg80211 .startAp → ssidLenOf m ≤ 32 → 22 ≤ headLenOf m)

instance (m : Region) : Decidable (Decodes m) := inferInstanceAs (Decidable (_ ∧ _))

/-- The message that is decoded from `m`, over an object with the union `u` and the blocks `heap`. -/
def viewOf (u : Region) (heap : BitVec 64 → Bytes) (m : Region) : View :=
  match kindOf m with
  | .bare => ⟨slice m 0 4, [], []⟩
  | .mac80211 => ⟨slice m 0 4, [slice u 0 4, slice u 4 64], []⟩
  | .cfg80211 .startAp =>
      if 32 < ssidLenOf m then
        ⟨slice m 0 4, [slice m 4 4, slice m 8 4, slice m 12 4, slice u 16 6, slice m 16 8, slice u 22 32,
            slice u 72 8, slice u 88 8],
          [(heap (BitVec.ofNat 64 (leNat (slice u 64 8)))).take (leNat (slice u 72 8)),
            (heap (BitVec.ofNat 64 (leNat (slice u 80 8)))).take (leNat (slice u 88 8))]⟩
      else
        ⟨slice m 0 4, [slice m 4 4, slice m 8 4, slice m 12 4, slice m (40 + ssidLenOf m + 16) 6, slice m 16 8,
            slice m 24 (ssidLenOf m), slice m (24 + ssidLenOf m) 8, slice m (32 + ssidLenOf m) 8],
          [slice m (40 + ssidLenOf m) (headLenOf m), slice m (40 + ssidLenOf m + headLenOf m) (tailLenOf m)]⟩
  | .emu80211 .tctrl => ⟨slice m 0 4, [slice m 4 4, slice m 8 4, slice m 12 4, slice m 16 4], []⟩
  | .emu80211 .close => ⟨slice m 0 4, [slice m 4 4, slice m 8 4], []⟩
  | .frm80211 =>
      ⟨slice m 0 4, [slice m 4 4, slice m (12 + leNat (slice m 8 4)) 6, slice m (12 + leNat (slice m 8 4) + 6) 6, slice m 8 4],
        [slice m 12 (leNat (slice m 8 4))]⟩
  | .webconfig => ⟨slice m 0 4, [slice m 4 4], []⟩
  | .agent .cmd => ⟨slice m 0 4, [slice m 4 4, slice m 8 4], []⟩
  | .agent .data => ⟨slice m 0 4, [slice m 4 4, slice m 8 8], []⟩
  | .agent .notification =>
      ⟨slice m 0 4, [slice m 4 4, slice m 8 4, slice m 12 4, slice m 16 6, slice m 22 6], []⟩
  -- the other operations have fields that nothing decodes
  | k => ⟨slice m 0 4, slice m 4 4 :: (k.fields u).tail.map fun f => slice u f.off f.len, []⟩

@[simp]
theorem ofNat_leNat_addr (a : BitVec 64) : BitVec.ofNat 64 (leNat (leBytes 8 a.toNat)) = a := by
  have hlt := a.isLt
  rw [leNat_leBytes (by omega), BitVec.ofNat_toNat, BitVec.setWidth_eq]

/-- What the handler of a kind has to do, from the cursor after the type on. -/
def Spec (h : Handler) (r : Option Handler) : Prop :=
  if Decodes h.buf then ∃ h', r = some h' ∧ h'.kind = kindOf h.buf ∧ h'.view = viewOf h.u h.heap h.buf
  else r = none

theorem handleWebconfigMsg_spec (hcur : h.cur = 4) (htype : h.type = slice h.buf 0 4)
    (hk : MsgType.ofCode (leNat h.type) = .webconfig) : Spec h (handleWebconfigMsg h) := by
  have hkind : kindOf h.buf = .webconfig := by
    rw [kindOf, Kind.of, ← htype, hk]
  have hd : Decodes h.buf := by
    simp [Decodes, wireSize, hkind, bufSize]
  rw [Spec, if_pos hd]
  simp (disch := simp) [handleWebconfigMsg, copy, hcur, bufSize, ops, Handler.kind, Handler.view, Kind.of, hk, Handler.get,
    slice_store_self, Kind.fields, Kind.buffers, viewOf, hkind, htype.symm]

theorem handleEmu80211Msg_spec (hcur : h.cur = 4) (htype : h.type = slice h.buf 0 4)
    (hk : MsgType.ofCode (leNat h.type) = .emu80211) : Spec h (handleEmu80211Msg h) := by
  have hkind : kindOf h.buf = .emu80211 (.ofCode (leNat (slice h.buf 4 4))) := by
    rw [kindOf, Kind.of, ← htype, hk]
  cases hops : EmuOps.ofCode (leNat (slice h.buf 4 4)) with
  | _ =>
      rw [hops] at hkind
      have hd : Decodes h.buf := by
        simp [Decodes, wireSize, hkind, bufSize]
      rw [Spec, if_pos hd]
      simp (disch := simp) [handleEmu80211Msg, handleEmu80211TypeMsgTctrl, handleEmu80211TypeMsgClose, copy, hcur, bufSize, ops,
        ctrl, coverage, testType, closeFd, Handler.kind, Handler.view, Handler.num, Handler.get, Kind.of, hk, hops,
        slice_store_self, slice_store_of_le, slice_store_of_ge, Kind.fields, Kind.buffers, viewOf, hkind, htype.symm]

theorem handleAgentMsg_spec (hcur : h.cur = 4) (htype : h.type = slice h.buf 0 4)
    (hk : MsgType.ofCode (leNat h.type) = .agent) : Spec h (handleAgentMsg h) := by
  have hkind : kindOf h.buf = .agent (.ofCode (leNat (slice h.buf 4 4))) := by
    rw [kindOf, Kind.of, ← htype, hk]
  cases hops : AgentOps.ofCode (leNat (slice h.buf 4 4)) with
  | _ =>
      rw [hops] at hkind
      have hd : Decodes h.buf := by
        simp [Decodes, wireSize, hkind, bufSize]
      rw [Spec, if_pos hd]
      simp (disch := simp) [handleAgentMsg, copy, hcur, bufSize, ops, cmd, agentBuf, subOpsType, staState,
        staMacAddr, bssidMacAddr, Handler.kind, Handler.view, Handler.num, Handler.get, Kind.of, hk, hops,
        slice_store_self, slice_store_of_le, Kind.fields, Kind.buffers, viewOf, hkind, htype.symm]

theorem handleFrm80211Msg_spec (hcur : h.cur = 4) (htype : h.type = slice h.buf 0 4)
    (hk : MsgType.ofCode (leNat h.type) = .frm80211) : Spec h (handleFrm80211Msg a h) := by
  have hkind : kindOf h.buf = .frm80211 := by
    rw [kindOf, Kind.of, ← htype, hk]
  have hsize : wireSize h.buf = 24 + leNat (slice h.buf 8 4) := by
    simp [wireSize, hkind]
  by_cases hd : Decodes h.buf
  · have hle := hd.1
    rw [hsize, bufSize] at hle
    have h₁ : 12 + leNat (slice h.buf 8 4) ≤ 2048 := by omega
    have h₂ : 12 + leNat (slice h.buf 8 4) ≤ 2042 := by omega
    have h₃ : 12 + leNat (slice h.buf 8 4) + 6 ≤ 2042 := by omega
    have htake : ∀ n, (slice h.buf 12 n).take n = slice h.buf 12 n := fun n => List.take_of_length_le (by simp)
    rw [Spec, if_pos hd]
    simp (disch := simp) [handleFrm80211Msg, copy, copyBlock, hcur, bufSize, ops, frame, frameLen, macaddr,
      clientMacaddr, h₁, h₂, h₃, Handler.kind, Handler.view, Handler.num, Handler.get, Kind.of, hk, htake,
      slice_store_self, slice_store_of_le, slice_store_of_ge, Kind.fields, Kind.buffers, viewOf, hkind, htype.symm]
  · have hgt : ¬ 24 + leNat (slice h.buf 8 4) ≤ 2048 := by
      intro hle
      exact hd ⟨by rwa [hsize], by simp [hkind]⟩
    rw [Spec, if_neg hd]
    by_cases h₁ : 12 + leNat (slice h.buf 8 4) ≤ 2048
    · by_cases h₂ : 12 + leNat (slice h.buf 8 4) ≤ 2042
      · have h₃ : ¬ 12 + leNat (slice h.buf 8 4) + 6 ≤ 2042 := by omega
        simp (disch := simp) [handleFrm80211Msg, copy, copyBlock, hcur, bufSize, ops, frame, frameLen, macaddr,
          clientMacaddr, h₁, h₂, h₃, Handler.num, Handler.get, slice_store_self]
      · simp (disch := simp) [handleFrm80211Msg, copy, copyBlock, hcur, bufSize, ops, frame, frameLen, macaddr,
          clientMacaddr, h₁, h₂, Handler.num, Handler.get, slice_store_self]
    · simp (disch := simp) [handleFrm80211Msg, copy, copyBlock, hcur, bufSize, ops, frame, frameLen, h₁,
        Handler.num, Handler.get, slice_store_self]

/-- Beyond the SSID length, `start_ap` with a length that is too long takes nothing. -/
theorem handleCfg80211StartAp_long (hcur : h.cur = 8) (htype : h.type = slice h.buf 0 4)
    (hops : h.get ops = slice h.buf 4 4) (hkind : kindOf h.buf = .cfg80211 .startAp) (hlong : 32 < ssidLenOf h.buf) :
    Spec h (handleCfg80211StartAp a h) := by
  have hd : Decodes h.buf := by
    refine ⟨?_, fun _ hle => by omega⟩
    simp [wireSize, hkind, hlong, bufSize]
  have hmin : min 32 (ssidLenOf h.buf) = 32 := by omega
  rw [Spec, if_pos hd]
  simp only [ssidLenOf] at hlong hmin
  rw [Handler.get, ops] at hops
  have hk : Kind.of h.type (slice h.buf 4 4) = .cfg80211 .startAp := by
    rw [htype]
    exact hkind
  simp (disch := simp) [handleCfg80211StartAp, copy, hcur, bufSize, ifindex, phyIndex, ssidLen, Handler.num, Handler.get,
    slice_store_self, slice_store_of_le, slice_store_of_ge, hlong, Handler.kind, Handler.view, ops, hops, hk, hkind, hmin,
    Kind.fields, Kind.buffers, viewOf, ssidLenOf, apMacaddr, ssidOff, headLen, tailLen, beaconHead, beaconTail, htype.symm]

/-- What a copy of `len` bytes into the field `f` changes. -/
structure Copied (f : Field) (len : ℕ) (h h' : Handler) : Prop where
  cur : h'.cur = h.cur + len
  buf : h'.buf = h.buf
  type : h'.type = h.type
  frame : ∀ g : Field, g.off + g.len ≤ f.off ∨ f.off + f.len ≤ g.off → h'.get g = h.get g

theorem copy_eq_none {f : Field} (hle : ¬ h.cur + f.len ≤ bufSize) : copy f h = none := by
  rw [copy, if_neg hle]

theorem copy_spec {f : Field} (hle : h.cur + f.len ≤ bufSize) :
    ∃ h', copy f h = some h' ∧ Copied f f.len h h' ∧ h'.heap = h.heap ∧ h'.get f = slice h.buf h.cur f.len := by
  rw [copy, if_pos hle]
  refine ⟨_, rfl, ⟨rfl, rfl, rfl, ?_⟩, rfl, ?_⟩
  · rintro g (hbefore | hafter)
    · exact slice_store_of_le hbefore
    · apply slice_store_of_ge
      simpa using hafter
  · apply slice_store_self
    simp

theorem copyBlock_eq_none {f : Field} {n : ℕ} {addr : BitVec 64} (hle : ¬ h.cur + n ≤ bufSize) :
    copyBlock f n addr h = none := by
  rw [copyBlock, if_neg hle]

theorem copyBlock_spec {f : Field} {n : ℕ} (addr : BitVec 64) (hf : f.len = 8) (hle : h.cur + n ≤ bufSize) :
    ∃ h', copyBlock f n addr h = some h' ∧ Copied f n h h' ∧
      h'.heap = Function.update h.heap addr (slice h.buf h.cur n) ∧ h'.get f = leBytes 8 addr.toNat := by
  rw [copyBlock, if_pos hle]
  refine ⟨_, rfl, ⟨rfl, rfl, rfl, ?_⟩, rfl, ?_⟩
  · rintro g (hbefore | hafter)
    · exact slice_store_of_le hbefore
    · apply slice_store_of_ge
      simpa [hf] using hafter
  · apply slice_store_self
    simp [hf]

theorem copyBssid_spec (addr : BitVec 64) {n : ℕ} (hheap : h.heap addr = slice h.buf n (h.num headLen))
    (hle : 22 ≤ h.num headLen) :
    ∃ h', copyBssid addr h = some h' ∧ Copied apMacaddr 0 h h' ∧ h'.heap = h.heap ∧
      h'.get apMacaddr = slice h.buf (n + 16) 6 := by
  have hlen : 22 ≤ (h.heap addr).length := by
    rw [hheap, length_slice]
    exact hle
  have hbssid : ((h.heap addr).drop 16).take 6 = slice h.buf (n + 16) 6 := by
    rw [hheap]
    exact slice_sub h.buf (by omega)
  rw [copyBssid, if_pos hlen]
  refine ⟨_, rfl, ⟨rfl, rfl, rfl, ?_⟩, rfl, ?_⟩
  · rintro g (hbefore | hafter)
    · exact slice_store_of_le hbefore
    · apply slice_store_of_ge
      rw [hbssid, length_slice]
      exact hafter
  · rw [← hbssid]
    apply slice_store_self
    rw [hbssid]
    simp [apMacaddr]

/-- The object after the lengths and the SSID of `start_ap`. -/
structure HeadDecoded (h h' : Handler) : Prop where
  cur : h'.cur = 40 + ssidLenOf h.buf
  buf : h'.buf = h.buf
  type : h'.type = h.type
  ops : h'.get ops = h.get ops
  ifindex : h'.get ifindex = slice h.buf 8 4
  phyIndex : h'.get phyIndex = slice h.buf 12 4
  ssidLen : h'.get ssidLen = slice h.buf 16 8
  ssid : h'.get ⟨ssidOff, ssidLenOf h.buf⟩ = slice h.buf 24 (ssidLenOf h.buf)
  headLen : h'.get headLen = slice h.buf (24 + ssidLenOf h.buf) 8
  tailLen : h'.get tailLen = slice h.buf (32 + ssidLenOf h.buf) 8

theorem handleCfg80211StartAp_head (hcur : h.cur = 8) (hshort : ¬ 32 < ssidLenOf h.buf) :
    ∃ h', HeadDecoded h h' ∧ handleCfg80211StartAp a h =
      (copyBlock beaconHead (h'.num headLen) a.first h').bind fun h =>
        (copyBlock beaconTail (h.num tailLen) a.second h).bind fun h => copyBssid a.first h := by
  have hlen : headLen.len = 8 ∧ tailLen.len = 8 := ⟨rfl, rfl⟩
  obtain ⟨h₁, hc₁, hd₁, hp₁, hg₁⟩ := copy_spec (h := h) (f := ifindex) (by simp [hcur, ifindex, bufSize])
  obtain ⟨h₂, hc₂, hd₂, hp₂, hg₂⟩ :=
    copy_spec (h := h₁) (f := phyIndex) (by simp [hd₁.cur, hcur, ifindex, phyIndex, bufSize])
  obtain ⟨h₃, hc₃, hd₃, hp₃, hg₃⟩ :=
    copy_spec (h := h₂) (f := ssidLen) (by simp [hd₂.cur, hd₁.cur, hcur, ifindex, phyIndex, ssidLen, bufSize])
  rw [hcur] at hg₁
  rw [hd₁.buf, hd₁.cur, hcur] at hg₂
  rw [hd₂.buf, hd₁.buf, hd₂.cur, hd₁.cur, hcur] at hg₃
  have hcur₃ : h₃.cur = 24 := by rw [hd₃.cur, hd₂.cur, hd₁.cur, hcur]; rfl
  have hbuf₃ : h₃.buf = h.buf := by rw [hd₃.buf, hd₂.buf, hd₁.buf]
  have hL : h₃.num ssidLen = ssidLenOf h.buf := by rw [Handler.num, hg₃]; rfl
  obtain ⟨h₄, hc₄, hd₄, hp₄, hg₄⟩ :=
    copy_spec (h := h₃) (f := ⟨ssidOff, ssidLenOf h.buf⟩) (by simp only [hcur₃, bufSize]; omega)
  have hcur₄ : h₄.cur = 24 + ssidLenOf h.buf := by rw [hd₄.cur, hcur₃]
  obtain ⟨h₅, hc₅, hd₅, hp₅, hg₅⟩ := copy_spec (h := h₄) (f := headLen) (by simp only [hcur₄, bufSize]; omega)
  have hcur₅ : h₅.cur = 32 + ssidLenOf h.buf := by rw [hd₅.cur, hcur₄]; omega
  obtain ⟨h₆, hc₆, hd₆, hp₆, hg₆⟩ := copy_spec (h := h₅) (f := tailLen) (by simp only [hcur₅, bufSize]; omega)
  rw [hbuf₃, hcur₃] at hg₄
  rw [hd₄.buf, hbuf₃, hcur₄] at hg₅
  rw [hd₅.buf, hd₄.buf, hbuf₃, hcur₅] at hg₆
  have hframe : ∀ g : Field, g.off + g.len ≤ 22 ∨ (54 ≤ g.off ∧ g.off + g.len ≤ 72) → h₆.get g = h₃.get g := by
    intro g hg
    rw [hd₆.frame g (by simp only [tailLen]; omega), hd₅.frame g (by simp only [headLen]; omega),
      hd₄.frame g (by simp only [ssidOff]; omega)]
  refine ⟨h₆, ⟨?_, ?_, ?_, ?_, ?_, ?_, ?_, ?_, ?_, ?_⟩, ?_⟩
  · rw [hd₆.cur, hcur₅]
    omega
  · rw [hd₆.buf, hd₅.buf, hd₄.buf, hbuf₃]
  · rw [hd₆.type, hd₅.type, hd₄.type, hd₃.type, hd₂.type, hd₁.type]
  · rw [hframe _ (by decide), hd₃.frame _ (by decide), hd₂.frame _ (by decide), hd₁.frame _ (by decide)]
  · rw [hframe _ (by decide), hd₃.frame _ (by decide), hd₂.frame _ (by decide), hg₁]
    rfl
  · rw [hframe _ (by decide), hd₃.frame _ (by decide), hg₂]
    rfl
  · rw [hframe _ (by decide), hg₃]
    rfl
  · rw [hd₆.frame _ (by simp only [ssidOff, tailLen]; omega), hd₅.frame _ (by simp only [ssidOff, headLen]; omega), hg₄]
  · rw [hd₆.frame _ (by decide), hg₅]
    rfl
  · exact hg₆
  · simp only [handleCfg80211StartAp, hc₁, hc₂, hc₃, Option.bind_eq_bind, Option.bind_some, hL, if_neg hshort, hc₄,
      hc₅, hc₆]

theorem handleCfg80211StartAp_short (hcur : h.cur = 8) (htype : h.type = slice h.buf 0 4)
    (hops : h.get ops = slice h.buf 4 4) (hkind : kindOf h.buf = .cfg80211 .startAp) (hshort : ¬ 32 < ssidLenOf h.buf) :
    Spec h (handleCfg80211StartAp a h) := by
  have hdec : Decodes h.buf ↔
      40 + ssidLenOf h.buf + headLenOf h.buf + tailLenOf h.buf ≤ 2048 ∧ 22 ≤ headLenOf h.buf := by
    rw [Decodes, wireSize, hkind]
    simp only [if_neg hshort, bufSize, true_imp_iff]
    exact and_congr_right fun _ => ⟨fun himp => himp (by omega), fun hle _ => hle⟩
  obtain ⟨h₁, hd, hrun⟩ := handleCfg80211StartAp_head (a := a) hcur hshort
  have hH : h₁.num headLen = headLenOf h.buf := by rw [Handler.num, hd.headLen]; rfl
  rw [hrun, hH, Spec]
  by_cases hroom : h₁.cur + headLenOf h.buf ≤ bufSize
  · obtain ⟨h₂, hc₂, hd₂, hp₂, hg₂⟩ := copyBlock_spec (f := beaconHead) a.first rfl hroom
    have hT : h₂.num tailLen = tailLenOf h.buf := by
      rw [Handler.num, hd₂.frame _ (by decide), hd.tailLen]
      rfl
    rw [hc₂, Option.bind_some, hT]
    by_cases hroom' : h₂.cur + tailLenOf h.buf ≤ bufSize
    · obtain ⟨h₃, hc₃, hd₃, hp₃, hg₃⟩ := copyBlock_spec (f := beaconTail) a.second rfl hroom'
      rw [hc₃, Option.bind_some]
      have hH₃ : h₃.num headLen = headLenOf h.buf := by
        rw [Handler.num, hd₃.frame _ (by decide), hd₂.frame _ (by decide), hd.headLen]
        rfl
      have hbuf₃ : h₃.buf = h.buf := by rw [hd₃.buf, hd₂.buf, hd.buf]
      have hhead : h₃.heap a.first = slice h.buf (40 + ssidLenOf h.buf) (headLenOf h.buf) := by
        rw [hp₃, Function.update_of_ne a.ne, hp₂, Function.update_self, hd.buf, hd.cur]
      have htail : h₃.heap a.second =
          slice h.buf (40 + ssidLenOf h.buf + headLenOf h.buf) (tailLenOf h.buf) := by
        rw [hp₃, Function.update_self, hd₂.buf, hd.buf, hd₂.cur, hd.cur]
      by_cases hbssid : 22 ≤ headLenOf h.buf
      · obtain ⟨h₄, hc₄, hd₄, hp₄, hg₄⟩ := copyBssid_spec (h := h₃) a.first (n := 40 + ssidLenOf h.buf)
          (by rw [hhead, hH₃, hbuf₃]) (by rw [hH₃]; exact hbssid)
        have hfits : Decodes h.buf := by
          rw [hdec]
          simp only [hd₂.cur, hd.cur, bufSize] at hroom'
          exact ⟨hroom', hbssid⟩
        have hframe : ∀ g : Field, g.off + g.len ≤ 16 ∨ 22 ≤ g.off ∧ (g.off + g.len ≤ 64 ∨ 72 ≤ g.off ∧ g.off + g.len ≤ 80 ∨
            88 ≤ g.off) → h₄.get g = h₁.get g := by
          intro g hg
          rw [hd₄.frame g (by simp only [apMacaddr]; omega), hd₃.frame g (by simp only [beaconTail]; omega),
            hd₂.frame g (by simp only [beaconHead]; omega)]
        have hmin : min 32 (leNat (slice h₄.u ssidLen.off ssidLen.len)) = ssidLenOf h.buf := by
          have hlen : slice h₄.u ssidLen.off ssidLen.len = slice h.buf 16 8 := by
            have := hframe ssidLen (by decide)
            rw [hd.ssidLen] at this
            exact this
          rw [hlen]
          simp only [ssidLenOf] at hshort ⊢
          omega
        have hssid : h₄.get ⟨ssidOff, ssidLenOf h.buf⟩ = slice h.buf 24 (ssidLenOf h.buf) := by
          rw [hframe _ (by simp only [ssidOff]; omega), hd.ssid]
        have hptr : h₄.get beaconHead = leBytes 8 a.first.toNat := by
          rw [hd₄.frame _ (by decide), hd₃.frame _ (by decide), hg₂]
        have hptr' : h₄.get beaconTail = leBytes 8 a.second.toNat := by
          rw [hd₄.frame _ (by decide), hg₃]
        have hkind₄ : h₄.kind = .cfg80211 .startAp := by
          rw [Handler.kind, hd₄.type, hd₃.type, hd₂.type, hd.type, hframe _ (by decide), hd.ops, htype, hops]
          exact hkind
        rw [hc₄, if_pos hfits]
        refine ⟨h₄, rfl, by rw [hkind₄, hkind], ?_⟩
        rw [Handler.view, hkind₄, viewOf, hkind]
        simp only [Kind.fields, Kind.buffers, hmin, if_neg hshort, List.map_cons, List.map_nil, Handler.num, hssid, hptr,
          hptr', ofNat_leNat_addr, hp₄, hhead, htail, hg₄, hbuf₃, hframe ops (by decide), hframe ifindex (by decide),
          hframe phyIndex (by decide), hframe ssidLen (by decide), hframe headLen (by decide), hframe tailLen (by decide),
          hd.ops, hops, hd.ifindex, hd.phyIndex, hd.ssidLen, hd.headLen, hd.tailLen, hd₄.type, hd₃.type, hd₂.type, hd.type,
          htype]
        rw [List.take_of_length_le (by rw [length_slice]; exact Nat.le_refl _),
          List.take_of_length_le (by rw [length_slice]; exact Nat.le_refl _)]
      · have hnone : copyBssid a.first h₃ = none := by
          rw [copyBssid, hhead, length_slice, if_neg hbssid]
        rw [if_neg (by rw [hdec]; exact fun h => hbssid h.2), hnone]
    · rw [copyBlock_eq_none hroom', if_neg]
      · rfl
      · rw [hdec]
        simp only [hd₂.cur, hd.cur, bufSize] at hroom'
        omega
  · rw [copyBlock_eq_none hroom, if_neg]
    · rfl
    · rw [hdec]
      simp only [hd.cur, bufSize] at hroom
      omega

theorem handleCfg80211Msg_spec (hcur : h.cur = 4) (htype : h.type = slice h.buf 0 4)
    (hk : MsgType.ofCode (leNat h.type) = .cfg80211) : Spec h (handleCfg80211Msg a h) := by
  have hkind : kindOf h.buf = .cfg80211 (.ofCode (leNat (slice h.buf 4 4))) := by
    rw [kindOf, Kind.of, ← htype, hk]
  cases hops : CfgOps.ofCode (leNat (slice h.buf 4 4)) with
  | startAp =>
      rw [hops] at hkind
      obtain ⟨h₁, hc₁, hd₁, hp₁, hg₁⟩ := copy_spec (h := h) (f := ops) (by simp [hcur, ops, bufSize])
      rw [hcur] at hg₁
      have hcur₁ : h₁.cur = 8 := by rw [hd₁.cur, hcur]; rfl
      have hrun : handleCfg80211Msg a h = handleCfg80211StartAp a h₁ := by
        have hnum : h₁.num ops = leNat (slice h.buf 4 4) := by rw [Handler.num, hg₁]; rfl
        simp only [handleCfg80211Msg, hc₁, Option.bind_eq_bind, Option.bind_some, hnum, hops]
      have hspec : Spec h₁ (handleCfg80211StartAp a h₁) := by
        have htype₁ : h₁.type = slice h₁.buf 0 4 := by rw [hd₁.type, hd₁.buf, htype]
        have hops₁ : h₁.get ops = slice h₁.buf 4 4 := by rw [hg₁, hd₁.buf]; rfl
        have hkind₁ : kindOf h₁.buf = .cfg80211 .startAp := by rw [hd₁.buf, hkind]
        by_cases hlong : 32 < ssidLenOf h₁.buf
        · exact handleCfg80211StartAp_long hcur₁ htype₁ hops₁ hkind₁ hlong
        · exact handleCfg80211StartAp_short hcur₁ htype₁ hops₁ hkind₁ hlong
      have hview : viewOf h₁.u h₁.heap h₁.buf = viewOf h.u h.heap h.buf := by
        have hold : ∀ off len, 4 ≤ off → slice h₁.u off len = slice h.u off len := fun off len hoff =>
          hd₁.frame ⟨off, len⟩ (Or.inr hoff)
        rw [viewOf, viewOf, hd₁.buf, hkind, hp₁]
        simp only [hold 16 6 (by decide), hold 22 32 (by decide), hold 72 8 (by decide), hold 88 8 (by decide),
          hold 64 8 (by decide), hold 80 8 (by decide)]
      rw [Spec, hview, hd₁.buf] at hspec
      rw [hrun]
      exact hspec
  | none | addIntf | delIntf | changeIntf | changeBeacon | stopAp | setWiphy | other =>
      rw [hops] at hkind
      have hd : Decodes h.buf := by
        simp [Decodes, wireSize, hkind, bufSize]
      rw [Spec, if_pos hd]
      simp (disch := simp) [handleCfg80211Msg, copy, hcur, bufSize, ops, ifindex, phyIndex, Handler.kind, Handler.view,
        Handler.num, Handler.get, Kind.of, hk, hops, slice_store_self, slice_store_of_ge, Kind.fields, Kind.buffers,
        viewOf, hkind, htype.symm]

/-- **What the decoder makes of `f_tmp`**, for every content of it and every object left by the
message before. -/
theorem dispatch_spec (a : Addrs) (h : Handler) : Spec h (dispatch a h) := by
  have hbegin : ∀ r, Spec h.begin r → Spec h r := fun r hs => hs
  apply hbegin
  unfold dispatch
  cases hk : MsgType.ofCode (leNat h.begin.type) with
  | cfg80211 =>
      exact handleCfg80211Msg_spec rfl rfl hk
  | emu80211 =>
      exact handleEmu80211Msg_spec rfl rfl hk
  | frm80211 =>
      exact handleFrm80211Msg_spec rfl rfl hk
  | webconfig =>
      exact handleWebconfigMsg_spec rfl rfl hk
  | agent =>
      exact handleAgentMsg_spec rfl rfl hk
  | none | mac80211 | other =>
      have hkind : ∀ b, Kind.of h.begin.type b = Kind.of (slice h.begin.buf 0 4) b := fun b => rfl
      have hd : Decodes h.begin.buf := by
        rw [Decodes, wireSize, kindOf, ← hkind]
        simp [Kind.of, hk, bufSize]
      rw [Spec, if_pos hd]
      refine ⟨_, rfl, ?_, ?_⟩
      · rw [Handler.kind, kindOf, ← hkind, Kind.of, Kind.of, hk]
      · rw [Handler.view, Handler.kind, viewOf, kindOf, ← hkind]
        simp only [Kind.of, hk, Kind.fields, Kind.buffers, List.map_nil, List.map_cons]
        rfl

end Decoding

/-! ### A delivered message shows the bytes it was decoded from -/

section Wire

/-- The bytes that a message shows, in the order of the buffer. -/
def wire (v : View) : Bytes :=
  match Kind.of v.type (v.fields.headD []), v.fields, v.buffers with
  | .cfg80211 .startAp, [ops, ifx, phy, _, len, ssid, headLen, tailLen], [head, tail] =>
      if 32 < leNat len then v.type ++ ops ++ ifx ++ phy ++ len
      else v.type ++ ops ++ ifx ++ phy ++ len ++ ssid ++ headLen ++ tailLen ++ head ++ tail
  | .emu80211 .tctrl, [ops, ctrl, coverage, type], _ => v.type ++ ops ++ ctrl ++ coverage ++ type
  | .frm80211, [ops, mac, client, len], [frame] => v.type ++ ops ++ len ++ frame ++ mac ++ client
  | .agent .cmd, [ops, cmd], _ => v.type ++ ops ++ cmd
  | .agent .data, [ops, buf], _ => v.type ++ ops ++ buf
  | .agent .notification, [ops, sub, state, sta, bssid], _ => v.type ++ ops ++ sub ++ state ++ sta ++ bssid
  | .bare, _, _ | .mac80211, _, _ => v.type
  | _, ops :: _, _ => v.type ++ ops
  | _, [], _ => v.type

/-- The operation decides nothing for a message without fields. -/
theorem kind_bare {t o : Bytes} (h : Kind.of t o = .bare) (o' : Bytes) : Kind.of t o' = .bare := by
  unfold Kind.of at h ⊢
  cases hk : MsgType.ofCode (leNat t) <;> simp [hk] at h ⊢

theorem kind_mac80211 {t o : Bytes} (h : Kind.of t o = .mac80211) (o' : Bytes) : Kind.of t o' = .mac80211 := by
  unfold Kind.of at h ⊢
  cases hk : MsgType.ofCode (leNat t) <;> simp [hk] at h ⊢

theorem wire_viewOf (u : Region) (heap : BitVec 64 → Bytes) (m : Region) :
    wire (viewOf u heap m) = slice m 0 (wireSize m) := by
  have hof : Kind.of (slice m 0 4) (slice m 4 4) = kindOf m := rfl
  have h₈ : slice m 0 4 ++ slice m 4 4 = slice m 0 8 := slice_append m 0 4 4
  have h₁₂ : slice m 0 8 ++ slice m 8 4 = slice m 0 12 := slice_append m 0 8 4
  have h₁₆ : slice m 0 12 ++ slice m 12 4 = slice m 0 16 := slice_append m 0 12 4
  cases hk : kindOf m with
  | bare =>
      simp [viewOf, wire, wireSize, hk, kind_bare (hof.trans hk)]
  | mac80211 =>
      simp [viewOf, wire, wireSize, hk, kind_mac80211 (hof.trans hk)]
  | webconfig =>
      simp only [viewOf, wire, wireSize, hk, hof, List.headD_cons, h₈]
  | frm80211 =>
      simp only [viewOf, wire, wireSize, hk, hof, List.headD_cons, h₈, h₁₂]
      generalize leNat (slice m 8 4) = F
      have hframe : slice m 0 12 ++ slice m 12 F = slice m 0 (12 + F) := slice_append m 0 12 F
      have hmac : slice m 0 (12 + F) ++ slice m (12 + F) 6 = slice m 0 (12 + F + 6) :=
        slice_append_of_eq (by omega)
      have hclient : slice m 0 (12 + F + 6) ++ slice m (12 + F + 6) 6 = slice m 0 (12 + F + 6 + 6) :=
        slice_append_of_eq (by omega)
      rw [hframe, hmac, hclient]
      congr 1
      omega
  | emu80211 ops =>
      cases ops with
      | tctrl =>
          simp only [viewOf, wire, wireSize, hk, hof, List.headD_cons, h₈, h₁₂, h₁₆, slice_append m 0 16 4]
      | close | cmnd | other =>
          simp only [viewOf, wire, wireSize, hk, hof, List.headD_cons, h₈]
  | agent ops =>
      cases ops with
      | cmd =>
          simp only [viewOf, wire, wireSize, hk, hof, List.headD_cons, h₈, h₁₂]
      | data =>
          simp only [viewOf, wire, wireSize, hk, hof, List.headD_cons, h₈, slice_append m 0 8 8]
      | notification =>
          simp only [viewOf, wire, wireSize, hk, hof, List.headD_cons, h₈, h₁₂, h₁₆, slice_append m 0 16 6,
            slice_append m 0 22 6]
      | other =>
          simp only [viewOf, wire, wireSize, hk, hof, List.headD_cons, h₈]
  | cfg80211 ops =>
      cases ops with
      | startAp =>
          by_cases hlong : 32 < ssidLenOf m
          · simp only [viewOf, wire, wireSize, hk, hof, if_pos hlong, List.headD_cons, h₈, h₁₂, h₁₆, slice_append m 0 16 8]
            simp only [ssidLenOf] at hlong
            rw [if_pos hlong]
          · simp only [viewOf, wire, wireSize, hk, hof, if_neg hlong, List.headD_cons, h₈, h₁₂, h₁₆, slice_append m 0 16 8]
            have hlen : ¬ 32 < leNat (slice m 16 8) := hlong
            rw [if_neg hlen]
            generalize ssidLenOf m = L
            have hssid : slice m 0 24 ++ slice m 24 L = slice m 0 (24 + L) := slice_append m 0 24 L
            have hhl : slice m 0 (24 + L) ++ slice m (24 + L) 8 = slice m 0 (32 + L) := by
              rw [slice_append_of_eq (by omega)]
              congr 1
              omega
            have htl : slice m 0 (32 + L) ++ slice m (32 + L) 8 = slice m 0 (40 + L) := by
              rw [slice_append_of_eq (by omega)]
              congr 1
              omega
            have hhead : slice m 0 (40 + L) ++ slice m (40 + L) (headLenOf m) = slice m 0 (40 + L + headLenOf m) :=
              slice_append_of_eq (by omega)
            have htail : slice m 0 (40 + L + headLenOf m) ++ slice m (40 + L + headLenOf m) (tailLenOf m) =
                slice m 0 (40 + L + headLenOf m + tailLenOf m) :=
              slice_append_of_eq (by omega)
            rw [hssid, hhl, htl, hhead, htail]
      | none | addIntf | delIntf | changeIntf | changeBeacon | stopAp | setWiphy | other =>
          simp only [viewOf, wire, wireSize, hk, hof, List.headD_cons, h₈]

end Wire

end OneWifiTestSuite.MsgHdlr
