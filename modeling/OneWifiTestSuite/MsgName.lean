import OneWifiTestSuite.Accesses
import OneWifiTestSuite.KernelCodec

/-!
# The name of a message

`get_msgname_from_msgtype` names a frame by its operation, and an authentication or EAPOL frame by
fields inside it. It does not look at `frame_len`. `inside_getMsgname_iff` is the exact length that a
frame needs, and `getMsgname_congr` says that the name of such a frame depends on its bytes alone.
-/

namespace OneWifiTestSuite.MsgName

open ByteRegion KernelCodec Accesses MsgHdlr

section Code

/-- The operations of the frames that are named; the others are invalid. -/
def frmOpsOfCode : ℕ → Option FrmOps
  | 0 => some .prbResp
  | 1 => some .prbReq
  | 2 => some .assocResp
  | 3 => some .assocReq
  | 4 => some .auth
  | 5 => some .deauth
  | 6 => some .disassoc
  | 7 => some .eapol
  | 8 => some .reassocReq
  | 9 => some .reassocResp
  | 10 => some .action
  | _ => none

/-- `ieee_frame_hdr_len`. -/
def ieeeFrameHdrLen (fc : BitVec 16) : ℕ :=
  let order := if (fc &&& 0xf000) &&& 0x8000 ≠ 0 then 4 else 0
  match ((fc &&& 0x000c) >>> 2).toNat with
  | 0 => 24 + order
  | 1 =>
      -- the mask leaves no bit of the subtype, so that an ACK or a CTS is not told apart
      if (fc &&& 0xff00) &&& 0x00e0 = 0x000c then 10 else 16
  | 2 =>
      let hdrlen := if fc &&& 0x0300 = 0x0300 then 30 else 24
      if (fc &&& 0x00f0) &&& 0x80 = 0x80 then hdrlen + 2 + order else hdrlen
  | _ => 24

/-- The name of an authentication frame by its algorithm, transaction and status. -/
def authName (authAlg authTransaction statusCode : ℕ) : String :=
  if authAlg = 0 then
    if authTransaction = 1 ∧ statusCode = 0 then "auth-request"
    else if authTransaction = 2 ∧ statusCode = 0 then "auth-response"
    else ""
  else if authAlg = 3 then
    if authTransaction = 1 then "auth-commit" else if authTransaction = 2 then "auth-confirm" else ""
  else ""

/-- The name of a key frame by its key information: the bits of the key type, install, acknowledge,
MIC and secure are `0x008`, `0x040`, `0x080`, `0x100` and `0x200`. -/
def eapolName (keyInfo : BitVec 16) : String :=
  if keyInfo &&& 0x008 ≠ 0 then
    if keyInfo &&& 0x3c8 = 0x3c8 then "eapol-msg3"
    else if keyInfo &&& 0x308 = 0x308 then "eapol-msg4"
    else if keyInfo &&& 0x108 = 0x108 then "eapol-msg2"
    else if keyInfo &&& 0x088 = 0x088 then "eapol-msg1"
    else ""
  else ""

/-- The messages by what their names depend on; the region is the memory at `frame`. -/
inductive Named
  | frm80211 (ops : ℕ) (frame : Region)
  | cfg80211 (ops : ℕ)
  | other

/-- The reads of the frame with the name that is found. -/
structure Found where
  log : List (Access Unit)
  name : String

/-- The frame control is read for every frame. -/
def frameControl (frame : Region) : BitVec 16 :=
  BitVec.ofNat 16 (leNat (slice frame 0 2))

/-- The frames of `get_msgname_from_msgtype`. -/
def frameName (ops : ℕ) (frame : Region) : Found :=
  let frameHdrLen := ieeeFrameHdrLen (frameControl frame)
  let fc : Access Unit := ⟨(), 0, 2⟩
  match frmOpsOfCode ops with
  | some .assocReq => ⟨[fc], "assoc-request"⟩
  | some .prbReq => ⟨[fc], "probe-request"⟩
  | some .prbResp => ⟨[fc], "probe-response"⟩
  | some .assocResp => ⟨[fc], "assoc-response"⟩
  | some .auth =>
      ⟨[fc, ⟨(), 24, 2⟩, ⟨(), 26, 2⟩, ⟨(), 28, 2⟩],
        authName (leNat (slice frame 24 2)) (leNat (slice frame 26 2)) (leNat (slice frame 28 2))⟩
  | some .deauth => ⟨[fc], "deauthentication"⟩
  | some .disassoc => ⟨[fc], "disassoc"⟩
  | some .eapol =>
      let off := frameHdrLen + 8 + 1 + 4
      ⟨[fc, ⟨(), off, 2⟩], eapolName (BitVec.ofNat 16 (leNat (slice frame off 2).reverse))⟩
  | some .reassocReq => ⟨[fc], "reassoc-request"⟩
  | some .reassocResp => ⟨[fc], "reassoc-response"⟩
  | some .action => ⟨[fc], "action"⟩
  | none => ⟨[fc], "INVALID"⟩

/-- `get_msgname_from_msgtype`: the reads, and the name; an empty one is an error. -/
def getMsgnameFromMsgtype : Named → Found × Except String String
  | .frm80211 ops frame =>
      let found := frameName ops frame
      (found, if found.name = "" then .error "Invalid msg type" else .ok found.name)
  | .cfg80211 ops => (⟨[], if ops = 4 then "beacon" else "INVALID"⟩, .ok (if ops = 4 then "beacon" else "INVALID"))
  | .other => (⟨[], "INVALID"⟩, .ok "INVALID")

end Code

section Spec

/-- A frame of the bytes `bs`, with other memory behind it. -/
def frameAt (behind : Region) (bs : Bytes) : Region :=
  store behind 0 bs

/-- The name is found without a read at or beyond the length of the frame. -/
def ReadsInside (ops : ℕ) (behind : Region) (bs : Bytes) : Prop :=
  Inside (fun _ => bs.length) (getMsgnameFromMsgtype (.frm80211 ops (frameAt behind bs))).1.log

instance (ops : ℕ) (behind : Region) (bs : Bytes) : Decidable (ReadsInside ops behind bs) :=
  inferInstanceAs (Decidable (Inside _ _))

/-- The frame holds its frame control, an authentication frame its three fields, and a key frame its
key information behind the header that its frame control gives. -/
def Whole (ops : ℕ) (bs : Bytes) : Prop :=
  2 ≤ bs.length ∧ (frmOpsOfCode ops = some .auth → 30 ≤ bs.length) ∧
    (frmOpsOfCode ops = some .eapol → ieeeFrameHdrLen (BitVec.ofNat 16 (leNat (bs.take 2))) + 15 ≤ bs.length)

end Spec

section Bounds

variable {ops : ℕ} {bs : Bytes} {behind behind' : Region}

theorem slice_frameAt {off len : ℕ} (h : off + len ≤ bs.length) :
    slice (frameAt behind bs) off len = (bs.drop off).take len :=
  slice_store_sub (Nat.zero_le _) (by omega)

theorem frameControl_frameAt (h : 2 ≤ bs.length) :
    frameControl (frameAt behind bs) = BitVec.ofNat 16 (leNat (bs.take 2)) := by
  rw [frameControl, slice_frameAt (by omega), List.drop_zero]

/-- **A frame is named inside its length exactly when it holds the fields of its operation**, whatever
its bytes and whatever stands behind it. -/
theorem inside_getMsgname_iff (ops : ℕ) (behind : Region) (bs : Bytes) :
    ReadsInside ops behind bs ↔ Whole ops bs := by
  simp only [ReadsInside, Whole, getMsgnameFromMsgtype, frameName]
  by_cases hlen : 2 ≤ bs.length
  · rw [frameControl_frameAt hlen]
    cases hops : frmOpsOfCode ops with
    | none =>
        simp
    | some op =>
        cases op with
        | auth =>
            simp
            omega
        | _ =>
            simp
  · have hany : ∀ log, ¬ Inside (fun _ => bs.length) (⟨(), 0, 2⟩ :: log) := by
      intro log hlog
      exact hlen (by simpa using (inside_cons.mp hlog).1)
    simp only [hlen, false_and, iff_false]
    split <;> exact hany _

/-- The name of a whole frame depends on its bytes alone. -/
theorem getMsgname_congr (h : Whole ops bs) : (getMsgnameFromMsgtype (.frm80211 ops (frameAt behind bs))).2 =
    (getMsgnameFromMsgtype (.frm80211 ops (frameAt behind' bs))).2 := by
  obtain ⟨hlen, hauth, heapol⟩ := h
  have hname : frameName ops (frameAt behind bs) = frameName ops (frameAt behind' bs) := by
    simp only [frameName, frameControl_frameAt hlen]
    cases hops : frmOpsOfCode ops with
    | none =>
        rfl
    | some op =>
        cases op with
        | auth =>
            have hlong := hauth hops
            simp only
            rw [slice_frameAt (by omega), slice_frameAt (by omega), slice_frameAt (by omega), slice_frameAt (by omega),
              slice_frameAt (by omega), slice_frameAt (by omega)]
        | eapol =>
            have hlong := heapol hops
            simp only
            rw [slice_frameAt (by omega), slice_frameAt (by omega)]
        | _ =>
            rfl
  simp only [getMsgnameFromMsgtype, hname]

/-- A key frame of a header of 24 bytes and an LLC header, as the kernel passes on. -/
def cutEapol : Bytes :=
  [8, 0] ++ List.replicate 22 0 ++ [0xaa, 0xaa, 0x03, 0, 0, 0, 0x88, 0x8e]

theorem not_readsInside_cutEapol : ¬ ReadsInside 7 (fun _ => 0) cutEapol := by
  decide

end Bounds

end OneWifiTestSuite.MsgName
