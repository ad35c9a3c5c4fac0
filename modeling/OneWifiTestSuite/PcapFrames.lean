import OneWifiTestSuite.Accesses
import OneWifiTestSuite.Radiotap

/-!
# Frames of capture files

`send_proto_pcap` and `parse_mgmt_frame_from_pcap` cut the first frame of a capture file out of its radiotap
header and its frame check sequence. Both compute the length in 32 bits. The first starts from the length on the
air, which a truncated capture does not have, and checks nothing; the second starts from the captured length and
forgets the frame check sequence in its check. `lengthsSound_iff` says for which files the lengths are sound. Both
let the radiotap iterator load `_next_ns_data` uninitialised, so that what it held before is an argument here.
-/

namespace OneWifiTestSuite.PcapFrames

open ByteRegion Accesses Radiotap

/-! ### The two functions -/

section Functions

/-- What `pcap_next` returns: `header.len` and the `header.caplen` captured bytes. -/
structure Packet where
  len : BitVec 32
  bytes : Bytes
  caplen_lt : bytes.length < 2 ^ 32

/-- `header.caplen`. -/
def Packet.caplen (p : Packet) : BitVec 32 :=
  BitVec.ofNat 32 p.bytes.length

/-- The answers of `pcap_open_offline` and `pcap_next` for a file. -/
inductive Capture
  | unopened
  | empty
  | first (p : Packet)

/-- How a function ends: with an error, by reading outside the captured bytes, or with its result. -/
inductive Outcome (α : Type)
  | error
  | fault
  | done (a : α)
deriving DecidableEq, Repr

def Outcome.bind {α β : Type} (o : Outcome α) (f : α → Outcome β) : Outcome β :=
  match o with
  | .error => .error
  | .fault => .fault
  | .done a => f a

/-- `IEEE80211_RADIOTAP_F_FCS` of the flags at an argument. -/
def fcsBit (bytes : Bytes) (a : Arg) : Bool :=
  (bytes.getD a.off.toNat 0).toNat.testBit 4

/-- The loop over the arguments: the flags are read where the argument lies. `first` says whether the loop ends
with the first flags that announce a frame check sequence. -/
def readFlags (first : Bool) (bytes : Bytes) (faults : Bool) : Bool → List Arg → Outcome Bool
  | fcs, [] => if faults then .fault else .done fcs
  | fcs, a :: as =>
      if a.index ≠ 1 then readFlags first bytes faults fcs as
      else if bytes.length ≤ a.off.toNat then .fault
      else if first && fcsBit bytes a then .done true
      else readFlags first bytes faults (fcs || fcsBit bytes a) as

/-- The first frame with its `is_fcs_present`. -/
def openFrame (first : Bool) (nextNsData : BitVec 64) : Capture → Outcome (Packet × Bool)
  | .unopened => .error
  | .empty => .error
  | .first p =>
      match init nextNsData p.bytes p.caplen.toInt with
      | none => .error
      | some it =>
          match args p.bytes it with
          | none => .fault
          | some r => (readFlags first p.bytes r.faults false r.list).bind fun fcs => .done (p, fcs)

/-- `radiotap_len`. -/
def Packet.radiotapLen (p : Packet) : BitVec 32 :=
  BitVec.ofNat 32 (itLen p.bytes)

/-- The bytes of a frame check sequence. -/
def fcsLen (fcs : Bool) : ℕ :=
  if fcs then 4 else 0

/-- A frame whose length was computed, and what is handed on: the length of the message, or of the frame. -/
structure Frame where
  packet : Packet
  fcs : Bool
  frameLen : ℕ
  stored : ℕ

/-- `send_proto_pcap`, up to `send_ctrl_msg`, which gets the frame behind a MAC address. -/
def sendProtoPcap (nextNsData : BitVec 64) (c : Capture) : Outcome Frame :=
  (openFrame false nextNsData c).bind fun (p, fcs) =>
    let buffLen := if fcs then p.len - p.radiotapLen - 4 else p.len - p.radiotapLen
    .done ⟨p, fcs, buffLen.toNat, (buffLen + 6).toNat⟩

/-- `parse_mgmt_frame_from_pcap`; `calloc` says for which sizes there is memory. -/
def parseMgmtFrameFromPcap (nextNsData : BitVec 64) (calloc : ℕ → Bool) (c : Capture) : Outcome Frame :=
  (openFrame true nextNsData c).bind fun (p, fcs) =>
    if p.caplen ≤ p.radiotapLen then .error
    else
      let mgmtLen := (p.caplen - p.radiotapLen - (if fcs then 4 else 0)).toNat
      if calloc mgmtLen then .done ⟨p, fcs, mgmtLen, mgmtLen⟩ else .error

/-- `sizeof(cmd_buffer)`. -/
def cmdBufferSize : ℕ := 1024

inductive Buf
  | macAddr
  | packet
  | buff
  | cmdBuffer
deriving DecidableEq, Repr

/-- The buffers that `send_proto_pcap` and `send_ctrl_msg` have for a frame. -/
def Frame.capacity (f : Frame) : Buf → ℕ
  | .macAddr => 6
  | .packet => f.packet.bytes.length
  | .buff => f.stored
  | .cmdBuffer => cmdBufferSize

/-- The copies of `send_proto_pcap` and `send_ctrl_msg`, each one as what it reads and what it writes. -/
def Frame.copies (f : Frame) : List (Access Buf) :=
  [⟨.macAddr, 0, 6⟩, ⟨.buff, 0, 6⟩, ⟨.packet, itLen f.packet.bytes, f.frameLen⟩, ⟨.buff, 6, f.frameLen⟩,
    ⟨.buff, 0, cmdBufferSize⟩, ⟨.cmdBuffer, 0, cmdBufferSize⟩]

end Functions

/-! ### The lengths -/

section Lengths

variable {p : Packet} {c : Capture} {fcs : Bool} {calloc : ℕ → Bool} {nextNsData : BitVec 64}

/-- The length is what `total` bytes have between the radiotap header and the frame check sequence, all of it was
captured, and it fits, with what is sent before it, the buffer of `send_ctrl_msg`. -/
structure Frame.Sound (f : Frame) (total : ℕ) : Prop where
  exact : f.frameLen + itLen f.packet.bytes + fcsLen f.fcs = total
  captured : itLen f.packet.bytes + f.frameLen ≤ f.packet.bytes.length
  fits : f.frameLen ≤ f.stored ∧ f.stored ≤ cmdBufferSize

/-- `send_proto_pcap` returns an error or computes a sound length. -/
def SendSound (nextNsData : BitVec 64) (c : Capture) : Prop :=
  match sendProtoPcap nextNsData c with
  | .error => True
  | .fault => False
  | .done f => f.Sound f.packet.len.toNat

/-- `parse_mgmt_frame_from_pcap` returns an error or computes a sound length. -/
def ParseSound (nextNsData : BitVec 64) (calloc : ℕ → Bool) (c : Capture) : Prop :=
  match parseMgmtFrameFromPcap nextNsData calloc c with
  | .error => True
  | .fault => False
  | .done f => f.Sound f.packet.bytes.length

/-- The arguments are read inside the captured bytes. The frame has its header and its frame check sequence, was
captured up to the latter, and is not longer than a message has room for. -/
def SendFits (nextNsData : BitVec 64) (c : Capture) : Prop :=
  match openFrame false nextNsData c with
  | .error => True
  | .fault => False
  | .done (p, fcs) => itLen p.bytes + fcsLen fcs ≤ p.len.toNat ∧ p.len.toNat ≤ p.bytes.length + fcsLen fcs ∧
      p.len.toNat + 6 ≤ itLen p.bytes + fcsLen fcs + cmdBufferSize

/-- The arguments are read inside the captured bytes. When something was captured behind the header, the frame
check sequence was, and the frame is not too long; or there is no memory for the length that comes out. -/
def ParseFits (nextNsData : BitVec 64) (calloc : ℕ → Bool) (c : Capture) : Prop :=
  match openFrame true nextNsData c with
  | .error => True
  | .fault => False
  | .done (p, fcs) => itLen p.bytes < p.bytes.length →
      (itLen p.bytes + fcsLen fcs ≤ p.bytes.length ∧
          p.bytes.length ≤ itLen p.bytes + fcsLen fcs + cmdBufferSize) ∨
        calloc ((2 ^ 32 + p.bytes.length - itLen p.bytes - fcsLen fcs) % 2 ^ 32) = false

theorem toNat_caplen (p : Packet) : p.caplen.toNat = p.bytes.length := by
  unfold Packet.caplen
  rw [BitVec.toNat_ofNat, Nat.mod_eq_of_lt p.caplen_lt]

theorem toInt_caplen_le (p : Packet) : p.caplen.toInt ≤ p.bytes.length := by
  rw [BitVec.toInt_eq_toNat_cond, toNat_caplen]
  split <;> omega

/-- From flags inside the packet the loop ends as the walk does. -/
theorem readFlags_ne_fault {first : Bool} {bytes : Bytes} {list : List Arg}
    (h : ∀ a ∈ list, a.index = 1 → a.off.toNat < bytes.length) (fcs : Bool) :
    readFlags first bytes false fcs list ≠ .fault := by
  induction list generalizing fcs with
  | nil =>
      simp [readFlags]
  | cons a as ih =>
      have hrest := ih fun b hb => h b (List.mem_cons_of_mem a hb)
      unfold readFlags
      split_ifs with hother houtside
      · exact hrest fcs
      · have := h a List.mem_cons_self (not_not.mp hother)
        omega
      · simp
      · exact hrest _

theorem readFlags_ne_error (first : Bool) (bytes : Bytes) (faults fcs : Bool) (list : List Arg) :
    readFlags first bytes faults fcs list ≠ .error := by
  induction list generalizing fcs with
  | nil =>
      unfold readFlags
      split_ifs <;> simp
  | cons a as ih =>
      unfold readFlags
      split_ifs
      · exact ih fcs
      · simp
      · simp
      · exact ih _

/-- How a frame is opened: its header lies inside the captured bytes. -/
theorem openFrame_cases (first : Bool) (nextNsData : BitVec 64) (c : Capture) :
    openFrame first nextNsData c = .error ∨ openFrame first nextNsData c = .fault ∨
      ∃ p fcs, openFrame first nextNsData c = .done (p, fcs) ∧ itLen p.bytes ≤ p.bytes.length := by
  cases c with
  | unopened => exact Or.inl rfl
  | empty => exact Or.inl rfl
  | first p =>
      cases hinit : init nextNsData p.bytes p.caplen.toInt with
      | none => exact Or.inl (by simp [openFrame, hinit])
      | some it =>
          obtain ⟨r, hr, -⟩ := args_spec hinit (toInt_caplen_le p)
          refine Or.inr ?_
          cases hflags : readFlags first p.bytes r.faults false r.list with
          | error => exact absurd hflags (readFlags_ne_error _ _ _ _ _)
          | fault => exact Or.inl (by simp [openFrame, hinit, hr, hflags, Outcome.bind])
          | done fcs =>
              refine Or.inr ⟨p, fcs, by simp [openFrame, hinit, hr, hflags, Outcome.bind], ?_⟩
              have hlen := itLen_le_of_init hinit
              have hcap := toInt_caplen_le p
              omega

/-- A frame is opened without a fault when `_next_ns_data` did not point far away from the header. -/
theorem openFrame_ne_fault (first : Bool) (h : nextNsData.toNat < 2 ^ 32) (c : Capture) :
    openFrame first nextNsData c ≠ .fault := by
  cases c with
  | unopened => simp [openFrame]
  | empty => simp [openFrame]
  | first p =>
      cases hinit : init nextNsData p.bytes p.caplen.toInt with
      | none => simp [openFrame, hinit]
      | some it =>
          obtain ⟨r, hr, hin⟩ := args_spec hinit (toInt_caplen_le p)
          obtain ⟨hends, hlist⟩ := hin h
          cases hflags : readFlags first p.bytes r.faults false r.list with
          | error => exact absurd hflags (readFlags_ne_error _ _ _ _ _)
          | fault =>
              rw [hends] at hflags
              exact absurd hflags (readFlags_ne_fault hlist false)
          | done fcs => simp [openFrame, hinit, hr, hflags, Outcome.bind]

theorem toNat_radiotapLen (h : itLen p.bytes ≤ p.bytes.length) : p.radiotapLen.toNat = itLen p.bytes := by
  have hlt := p.caplen_lt
  unfold Packet.radiotapLen
  rw [BitVec.toNat_ofNat, Nat.mod_eq_of_lt (by omega)]

theorem fcsLen_le (fcs : Bool) : fcsLen fcs ≤ 4 := by
  cases fcs <;> simp [fcsLen]

/-- The difference of a length, the header and the frame check sequence in 32 bits. -/
theorem toNat_frameLen (h : itLen p.bytes ≤ p.bytes.length) (total : BitVec 32) (fcs : Bool) :
    (total - p.radiotapLen - (if fcs then 4 else 0)).toNat =
      if itLen p.bytes + fcsLen fcs ≤ total.toNat then total.toNat - itLen p.bytes - fcsLen fcs
      else (2 ^ 32 + total.toNat - itLen p.bytes - fcsLen fcs) % 2 ^ 32 := by
  have hradiotap := toNat_radiotapLen h
  have hlt := itLen_lt p.bytes
  have htotal := total.isLt
  cases fcs <;> simp only [fcsLen, BitVec.toNat_sub, hradiotap, if_true, if_false, Bool.false_eq_true] <;>
    split_ifs <;> simp <;> omega

/-- A length that is computed is what lies between the header and the frame check sequence exactly when it does
not go below zero. -/
theorem exact_iff (h : itLen p.bytes ≤ p.bytes.length) (total : BitVec 32) (fcs : Bool) :
    (total - p.radiotapLen - (if fcs then 4 else 0)).toNat + itLen p.bytes + fcsLen fcs = total.toNat ↔
      itLen p.bytes + fcsLen fcs ≤ total.toNat := by
  rw [toNat_frameLen h]
  have hlt := itLen_lt p.bytes
  have hfcs := fcsLen_le fcs
  have htotal := total.isLt
  split_ifs <;> omega

/-- The length of `send_proto_pcap` is sound exactly for a frame that was captured whole and has room. -/
theorem sendSound_iff (nextNsData : BitVec 64) (c : Capture) : SendSound nextNsData c ↔ SendFits nextNsData c := by
  rcases openFrame_cases false nextNsData c with herror | hfault | ⟨p, fcs, hdone, hbound⟩
  · simp [SendSound, SendFits, sendProtoPcap, herror, Outcome.bind]
  · simp [SendSound, SendFits, sendProtoPcap, hfault, Outcome.bind]
  · have hbuff : (if fcs then p.len - p.radiotapLen - 4 else p.len - p.radiotapLen) =
        p.len - p.radiotapLen - (if fcs then 4 else 0) := by
      cases fcs <;> simp
    have hexact := exact_iff hbound p.len fcs
    simp only [SendSound, SendFits, sendProtoPcap, hdone, Outcome.bind, hbuff]
    generalize p.len - p.radiotapLen - (if fcs then 4 else 0) = buffLen at hexact ⊢
    have hsix : (buffLen + 6).toNat = (buffLen.toNat + 6) % 2 ^ 32 := by
      simp [BitVec.toNat_add]
    have hlt := p.caplen_lt
    constructor
    · rintro ⟨heq, hcaptured, hmono, hfits⟩
      have hhead := hexact.mp heq
      simp only [cmdBufferSize] at *
      omega
    · rintro ⟨hhead, hcaptured, hroom⟩
      have heq := hexact.mpr hhead
      refine ⟨heq, ?_, ?_, ?_⟩ <;> simp only [cmdBufferSize] at * <;> omega

/-- The length of `parse_mgmt_frame_from_pcap` is sound exactly when the frame check sequence was captured and the frame is not
too long, or when the length is refused. -/
theorem parseSound_iff (nextNsData : BitVec 64) (calloc : ℕ → Bool) (c : Capture) :
    ParseSound nextNsData calloc c ↔ ParseFits nextNsData calloc c := by
  rcases openFrame_cases true nextNsData c with herror | hfault | ⟨p, fcs, hdone, hbound⟩
  · simp [ParseSound, ParseFits, parseMgmtFrameFromPcap, herror, Outcome.bind]
  · simp [ParseSound, ParseFits, parseMgmtFrameFromPcap, hfault, Outcome.bind]
  · have hexact := exact_iff hbound p.caplen fcs
    have hlen := toNat_frameLen hbound p.caplen fcs
    have hle : p.caplen ≤ p.radiotapLen ↔ p.bytes.length ≤ itLen p.bytes := by
      rw [BitVec.le_def, toNat_caplen, toNat_radiotapLen hbound]
    rw [toNat_caplen] at hexact hlen
    simp only [ParseSound, ParseFits, parseMgmtFrameFromPcap, hdone, Outcome.bind, hle]
    generalize (p.caplen - p.radiotapLen - (if fcs then 4 else 0)).toNat = mgmtLen at hexact hlen ⊢
    by_cases hhead : p.bytes.length ≤ itLen p.bytes
    · simp only [if_pos hhead, true_iff]
      intro hlt
      omega
    · rw [if_neg hhead]
      have hmod : mgmtLen = (2 ^ 32 + p.bytes.length - itLen p.bytes - fcsLen fcs) % 2 ^ 32 := by
        have hlt := p.caplen_lt
        have hfcs := fcsLen_le fcs
        rw [hlen]
        split_ifs <;> omega
      rw [← hmod]
      have hlt : itLen p.bytes < p.bytes.length := by omega
      simp only [hlt, true_implies]
      cases hcalloc : calloc mgmtLen with
      | false => simp
      | true =>
          simp only [if_true, Bool.true_eq_false, or_false]
          constructor
          · rintro ⟨heq, -, -, hfits⟩
            have hbelow := hexact.mp heq
            simp only at heq hfits
            omega
          · rintro ⟨hbelow, hroom⟩
            have heq := hexact.mpr hbelow
            refine ⟨heq, ?_, ?_, ?_⟩ <;> simp only <;> omega

/-- **The lengths of both functions are sound exactly for frames that fit.** -/
theorem lengthsSound_iff (nextNsData : BitVec 64) (calloc : ℕ → Bool) (c : Capture) :
    (SendSound nextNsData c ↔ SendFits nextNsData c) ∧
      (ParseSound nextNsData calloc c ↔ ParseFits nextNsData calloc c) :=
  ⟨sendSound_iff nextNsData c, parseSound_iff nextNsData calloc c⟩

/-- A frame of 92 bytes of which 4 were captured. -/
def truncated : Packet where
  len := 100
  bytes := [0, 0, 8, 0, 0, 0, 0, 0, 0xb0, 0, 0, 0]
  caplen_lt := by decide

/-- A header that announces a frame check sequence, and one byte behind it. -/
def tooShort : Packet where
  len := 10
  bytes := [0, 0, 9, 0, 2, 0, 0, 0, 0x10, 0xb0]
  caplen_lt := by decide

theorem not_lengthsSound :
    ¬ SendSound 0 (.first truncated) ∧ ¬ SendSound 0 (.first tooShort) ∧
      ¬ ParseSound 0 (fun _ => true) (.first tooShort) := by
  have htruncated : openFrame false 0 (.first truncated) = .done (truncated, false) := by rfl
  have hshort : ∀ first, openFrame first 0 (.first tooShort) = .done (tooShort, true) := by
    intro first
    cases first <;> rfl
  rw [sendSound_iff, sendSound_iff, parseSound_iff]
  simp only [SendFits, ParseFits, htruncated, hshort]
  decide

/-- A header whose first bitmap announces an argument that is not defined, and the second one the flags, on which
the frame check sequence of the frame depends. -/
def undefinedArg : Packet where
  len := 26
  bytes := [0, 0, 13, 0, 0, 0, 4, 0xa0, 2, 0, 0, 0, 0x10, 0xb0, 0, 0, 0, 0, 0, 0, 0, 0]
  caplen_lt := by decide

/-- What `_next_ns_data` held before decides whether the flags are found. -/
example : openFrame false 12 (.first undefinedArg) = .done (undefinedArg, true) ∧
    openFrame false 64 (.first undefinedArg) = .done (undefinedArg, false) :=
  ⟨rfl, rfl⟩

end Lengths

/-! ### The copies -/

section Copies

/-- A frame is copied inside its buffers exactly when it was captured and fills the buffer of the message, which
is copied whole. -/
theorem copies_inside_iff (f : Frame) :
    Inside f.capacity f.copies ↔
      itLen f.packet.bytes + f.frameLen ≤ f.packet.bytes.length ∧ 6 + f.frameLen ≤ f.stored ∧
        cmdBufferSize ≤ f.stored := by
  simp only [Frame.copies, Frame.capacity, inside_cons, inside_nil, and_true, cmdBufferSize]
  omega

end Copies

end OneWifiTestSuite.PcapFrames
