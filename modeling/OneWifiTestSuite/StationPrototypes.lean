import OneWifiTestSuite.StationDecode

/-!
# Replaying captures on a station

For every frame that a station replays, `decode_step_station_management_config` sets a bit in a summary
and queues the capture, without a look at what `queue_push` answers. `configure_proto_types_on_sta` asks
the summary what to send and searches the queue for it. The two agree when a capture of each frame gets
its place in the queue (`agrees_iff`), and the search ends.

But without anything to send the result is the error that the variable starts with: `consistent_iff`.
-/

namespace OneWifiTestSuite.StationPrototypes

open ByteRegion RebootFile AgentJson StepSubdoc StatsDecode StationDecode

/-! ### The code -/

section Code

/-- `sta_test_t` after the constructor of the step. -/
def newStaTest : StaTest where
  testStationConfig := []
  captureStaRequests := false
  waitConnection := false
  isStationPrototypeEnabled := false
  fcRequestSummary := noFrames
  fcPrototypeQ := []

/-- `RETURN_OK` and `RETURN_ERR`. -/
inductive Ret
  | ok
  | err
deriving DecidableEq, Repr

/-- `wlan_emu_emu80211_cmd_frame_auth_req` and `wlan_emu_emu80211_cmd_frame_assoc_req`. -/
inductive Cmd
  | authReq
  | assocReq
deriving DecidableEq, Repr

/-- The loop of `get_frm80211_proto_pcap`, from `current`: an element without data is looked at again. The outer `none`
is no end within the fuel. -/
def getFrm80211ProtoPcap (type : BitVec 32) : ℕ → List (Option Pcap) → Option (Option Pcap)
  | 0, _ => none
  | _ + 1, [] => some none
  | fuel + 1, none :: current => getFrm80211ProtoPcap type fuel (none :: current)
  | fuel + 1, some pcap :: current =>
      if pcap.fcRequest.msgType = frm80211 ∧ pcap.fcRequest.frm80211Ops = type then some (some pcap)
      else getFrm80211ProtoPcap type fuel current

/-- The request of one type, with `ret` from before; the inner `none` is `return RETURN_ERR`. -/
def configureType (send : Cmd → Bytes → Ret) (fuel : ℕ) (c : StaTest) (cmd : Cmd) (type : BitVec 32) (ret : Ret) :
    Option (Option Ret) :=
  if c.fcRequestSummary.frm80211Ops &&& type ≠ 0 then
    (getFrm80211ProtoPcap type fuel c.fcPrototypeQ).map fun found =>
      found.bind fun pcap => if send cmd pcap.fileLocation = .err then none else some .ok
  else some (some ret)

/-- `configure_proto_types_on_sta`; `send` is what `send_proto_pcap` returns for a command and a file. -/
def configureProtoTypesOnSta (send : Cmd → Bytes → Ret) (fuel : ℕ) (c : StaTest) : Option Ret :=
  if c.fcRequestSummary.msgType &&& frm80211 ≠ 0 then
    (configureType send fuel c .authReq auth .err).bind fun
      | none => some .err
      | some ret => (configureType send fuel c .assocReq assocReq ret).map fun
          | none => .err
          | some ret => ret
  else some .err

end Code

/-! ### What a station should do -/

section Meaning

/-- An entry of the queue. -/
def Queued (c : StaTest) (pcap : Pcap) : Prop :=
  some pcap ∈ c.fcPrototypeQ

/-- A bit is set in the summary exactly when there is an entry of that type and operation. -/
structure Agrees (c : StaTest) : Prop where
  msgType : ∀ i, c.fcRequestSummary.msgType.getLsbD i = true ↔ ∃ p, Queued c p ∧ p.fcRequest.msgType.getLsbD i = true
  frm80211Ops : ∀ i, c.fcRequestSummary.frm80211Ops.getLsbD i = true ↔
    ∃ p, Queued c p ∧ p.fcRequest.msgType = frm80211 ∧ p.fcRequest.frm80211Ops.getLsbD i = true
  cfg80211Ops : ∀ i, c.fcRequestSummary.cfg80211Ops.getLsbD i = true ↔
    ∃ p, Queued c p ∧ p.fcRequest.cfg80211Ops.getLsbD i = true

/-- The summary asks for the frames of a type. -/
def Requested (c : StaTest) (type : BitVec 32) : Prop :=
  c.fcRequestSummary.msgType &&& frm80211 ≠ 0 ∧ c.fcRequestSummary.frm80211Ops &&& type ≠ 0

/-- Summary and queue agree, the search ends and finds every requested type, and an error comes from a capture that
could not be sent. -/
structure Consistent (c : StaTest) : Prop where
  agrees : Agrees c
  ends : ∀ type, ∃ fuel, getFrm80211ProtoPcap type fuel c.fcPrototypeQ ≠ none
  finds : ∀ type, type = auth ∨ type = assocReq → Requested c type →
    ∃ fuel p, getFrm80211ProtoPcap type fuel c.fcPrototypeQ = some (some p)
  result : ∀ send, ∃ fuel ret, configureProtoTypesOnSta send fuel c = some ret ∧
    (ret = .err → ∃ cmd p, Queued c p ∧ send cmd p.fileLocation = .err)

/-- An element of the list is this frame, and the frame is replayed. -/
def Replays (list : List Json) (f : Frame) : Prop :=
  isPrototype f = true ∧ ∃ entry ∈ list, Names entry f

/-- The same for an element with a place in the queue, `n` being the position of the first. -/
def Places (memory : Memory) : ℕ → List Json → Frame → Prop
  | _, [], _ => False
  | n, entry :: list, f => isPrototype f = true ∧ Names entry f ∧ memory.push n = true ∨ Places memory (n + 1) list f

/-- There is a frame to replay, and of each such frame a capture gets its place. -/
structure Placed (memory : Memory) (list : List Json) : Prop where
  some : ∃ f, Replays list f
  all : ∀ f, Replays list f → Places memory 0 list f

end Meaning

/-! ### The search -/

section Search

variable {type : BitVec 32} {fuel : ℕ} {q : List (Option Pcap)}

/-- The first entry of a type. -/
def firstOf (type : BitVec 32) (q : List (Option Pcap)) : Option Pcap :=
  (q.filterMap id).find? fun p => p.fcRequest.msgType = frm80211 ∧ p.fcRequest.frm80211Ops = type

/-- **The search** ends with the first entry of the type, since every element has data. -/
theorem search_eq (hdata : none ∉ q) (hfuel : q.length < fuel) :
    getFrm80211ProtoPcap type fuel q = some (firstOf type q) := by
  induction q generalizing fuel with
  | nil =>
      obtain ⟨fuel, rfl⟩ := Nat.exists_eq_add_one_of_ne_zero (Nat.ne_of_gt hfuel)
      rfl
  | cons e q ih =>
      obtain ⟨fuel, rfl⟩ := Nat.exists_eq_add_one_of_ne_zero (Nat.ne_of_gt (Nat.zero_lt_of_lt hfuel))
      rw [List.length_cons] at hfuel
      rw [List.mem_cons, not_or] at hdata
      cases e with
      | none => exact absurd rfl hdata.1
      | some p =>
          have hrest : getFrm80211ProtoPcap type fuel q = some (firstOf type q) := ih hdata.2 (by omega)
          unfold getFrm80211ProtoPcap firstOf
          rw [List.filterMap_cons_some (by rfl), List.find?_cons]
          by_cases hp : p.fcRequest.msgType = frm80211 ∧ p.fcRequest.frm80211Ops = type
          · simp only [hp, and_self, if_true, decide_true]
          · simp only [hp, if_false, decide_false]
            exact hrest

theorem firstOf_isSome {p : Pcap} (hp : some p ∈ q) (hmsg : p.fcRequest.msgType = frm80211)
    (hops : p.fcRequest.frm80211Ops = type) : (firstOf type q).isSome = true := by
  rw [firstOf, List.find?_isSome]
  exact ⟨p, List.mem_filterMap.mpr ⟨some p, hp, rfl⟩, by simp [hmsg, hops]⟩

theorem mem_of_firstOf {p : Pcap} (h : firstOf type q = some p) : some p ∈ q := by
  obtain ⟨e, he, rfl⟩ := List.mem_filterMap.mp (List.mem_of_find?_eq_some h)
  exact he

end Search

/-! ### What the decoder leaves -/

section Decoded

variable {memory : Memory} {n : ℕ} {list : List Json} {c d : StaTest} {f : Frame} {entry : Json} {file : Bytes}

/-- The entries of the queue are captures of frames to replay. -/
def Captures (c : StaTest) : Prop :=
  ∀ e ∈ c.fcPrototypeQ, ∃ f file, isPrototype f = true ∧ e = some ⟨f.bits, file⟩

theorem msgType_bits (h : isPrototype f = true) : f.bits.msgType = frm80211 := by
  cases f <;> first | rfl | cases h

theorem cfg80211Ops_bits (h : isPrototype f = true) : f.bits.cfg80211Ops = 0 := by
  cases f <;> first | rfl | cases h

/-- The operation of a frame to replay is its own. -/
theorem frame_unique {g : Frame} (hf : isPrototype f = true) (hg : isPrototype g = true) {i : ℕ}
    (hfi : f.bits.frm80211Ops.getLsbD i = true) (hgi : g.bits.frm80211Ops.getLsbD i = true) : f = g := by
  have hbit : ∀ k, (1#32 <<< k).getLsbD i = true → i = k := by
    intro k h
    rw [← BitVec.twoPow_eq, BitVec.getLsbD_twoPow] at h
    simp at h
    omega
  have hop : ∀ f : Frame, isPrototype f = true → f.bits.frm80211Ops.getLsbD i = true →
      f = .assocReq ∧ i = 3 ∨ f = .auth ∧ i = 4 := by
    intro f hf hfi
    cases f <;> first | exact .inl ⟨rfl, hbit 3 hfi⟩ | exact .inr ⟨rfl, hbit 4 hfi⟩ | cases hf
  rcases hop f hf hfi with ⟨rfl, hi⟩ | ⟨rfl, hi⟩ <;> rcases hop g hg hgi with ⟨rfl, hi'⟩ | ⟨rfl, hi'⟩ <;>
    first | rfl | omega

theorem exists_bit (h : isPrototype f = true) : ∃ i, f.bits.frm80211Ops.getLsbD i = true := by
  cases f <;> first | exact ⟨3, rfl⟩ | exact ⟨4, rfl⟩ | cases h

theorem replays_cons : Replays (entry :: list) f ↔ isPrototype f = true ∧ Names entry f ∨ Replays list f := by
  simp only [Replays, List.exists_mem_cons_iff, and_or_left]

theorem Places.replays (h : Places memory n list f) : Replays list f := by
  induction list generalizing n with
  | nil => exact h.elim
  | cons entry list ih =>
      rw [replays_cons]
      exact h.imp (fun ⟨hf, hname, _⟩ => ⟨hf, hname⟩) ih

/-- The summary after one more capture. -/
theorem summary_addPrototype {m : Bool} : (c.addPrototype m f file).fcRequestSummary =
    { c.fcRequestSummary with
      msgType := c.fcRequestSummary.msgType ||| frm80211
      frm80211Ops := c.fcRequestSummary.frm80211Ops ||| f.bits.frm80211Ops } := by
  unfold StaTest.addPrototype StaTest.push
  split_ifs <;> rfl

/-- The frame of one more capture. -/
theorem queued_addPrototype {m : Bool} {p : Pcap} :
    Queued (c.addPrototype m f file) p ↔ m = true ∧ p = ⟨f.bits, file.take 255⟩ ∨ Queued c p := by
  unfold Queued StaTest.addPrototype StaTest.push
  cases m with
  | true => simp [StaTest.addSummary]
  | false => simp [StaTest.addSummary]

/-- **The summary** has the bits of the frames in the list. -/
theorem summary_of_framesFrom (h : FramesFrom memory n list c d) (i : ℕ) :
    (d.fcRequestSummary.msgType.getLsbD i = true ↔
      c.fcRequestSummary.msgType.getLsbD i = true ∨ ∃ f, Replays list f ∧ f.bits.msgType.getLsbD i = true) ∧
    (d.fcRequestSummary.frm80211Ops.getLsbD i = true ↔
      c.fcRequestSummary.frm80211Ops.getLsbD i = true ∨ ∃ f, Replays list f ∧ f.bits.frm80211Ops.getLsbD i = true) ∧
    d.fcRequestSummary.cfg80211Ops = c.fcRequestSummary.cfg80211Ops := by
  induction h with
  | nil => simp [Replays]
  | @other n entry list c d f hname hother _ ih =>
      have hskip : ∀ g, Replays (entry :: list) g ↔ Replays list g := by
        intro g
        rw [replays_cons, or_iff_right]
        rintro ⟨hproto, hg⟩
        rw [name_unique hg hname, hother] at hproto
        cases hproto
      simpa only [hskip] using ih
  | @prototype n entry list c d f file hname hproto _ _ _ ih =>
      have hfirst : ∀ P : Frame → Prop,
          (∃ g, Replays (entry :: list) g ∧ P g) ↔ P f ∨ ∃ g, Replays list g ∧ P g := by
        intro P
        have hone : ∀ g, isPrototype g = true ∧ Names entry g ↔ g = f :=
          fun g => ⟨fun h => name_unique h.2 hname, fun h => h ▸ ⟨hproto, hname⟩⟩
        simp only [replays_cons, hone, or_and_right, exists_or, exists_eq_left]
      obtain ⟨hmsg, hfrm, hcfg⟩ := ih
      rw [summary_addPrototype] at hmsg hfrm hcfg
      refine ⟨?_, ?_, hcfg⟩
      · rw [hmsg, hfirst, BitVec.getLsbD_or, Bool.or_eq_true, msgType_bits hproto, or_assoc]
      · rw [hfrm, hfirst, BitVec.getLsbD_or, Bool.or_eq_true, or_assoc]

/-- **The queue** has captures of the frames that get a place. -/
theorem queued_of_framesFrom (h : FramesFrom memory n list c d) (P : FrameRequest → Prop) :
    (∃ p, Queued d p ∧ P p.fcRequest) ↔
      (∃ p, Queued c p ∧ P p.fcRequest) ∨ ∃ f, Places memory n list f ∧ P f.bits := by
  induction h with
  | nil => simp [Places]
  | @other n entry list c d f hname hother _ ih =>
      have hskip : ∀ g, Places memory n (entry :: list) g ↔ Places memory (n + 1) list g := by
        refine fun g => or_iff_right ?_
        rintro ⟨hproto, hg, -⟩
        rw [name_unique hg hname, hother] at hproto
        cases hproto
      simpa only [hskip] using ih
  | @prototype n entry list c d f file hname hproto _ _ _ ih =>
      have hone : ∀ g, Places memory n (entry :: list) g ↔ memory.push n = true ∧ g = f ∨ Places memory (n + 1) list g :=
        fun g => or_congr_left ⟨fun h => ⟨h.2.2, name_unique h.2.1 hname⟩, fun h => h.2 ▸ ⟨hproto, hname, h.1⟩⟩
      simp only [ih, queued_addPrototype, hone, or_and_right, exists_or, and_assoc, exists_and_left, exists_eq_left]
      rw [or_comm (a := _ ∧ _), or_assoc]

theorem captures_of_framesFrom (h : FramesFrom memory n list c d) (hcaptures : Captures c) : Captures d := by
  induction h with
  | nil => exact hcaptures
  | other _ _ _ ih => exact ih hcaptures
  | prototype _ hproto _ _ _ ih =>
      refine ih ?_
      unfold StaTest.addPrototype StaTest.push
      split_ifs
      · exact List.forall_mem_cons.mpr ⟨⟨_, _, hproto, rfl⟩, hcaptures⟩
      · exact hcaptures

/-- Nothing is in the summary and the queue. -/
def Fresh (c : StaTest) : Prop :=
  c.fcRequestSummary = noFrames ∧ c.fcPrototypeQ = []

/-- **Summary and queue** agree exactly when every frame to replay has a capture with a place in the queue. -/
theorem agrees_iff (h : FramesFrom memory n list c d) (hfresh : Fresh c) :
    Agrees d ↔ ∀ f, Replays list f → Places memory n list f := by
  obtain ⟨hsummary, hqueue⟩ := hfresh
  have hbits := summary_of_framesFrom h
  have hqueued := queued_of_framesFrom h
  simp only [hsummary, noFrames, BitVec.ofNat_eq_ofNat, BitVec.getLsbD_zero, Bool.false_eq_true, false_or, Queued, hqueue,
    List.not_mem_nil, false_and, exists_false] at hbits hqueued
  constructor
  · intro hagrees f hf
    obtain ⟨i, hi⟩ := exists_bit hf.1
    have hbit := (hbits i).2.1.mpr ⟨f, hf, hi⟩
    obtain ⟨p, hp, hmsg, hpi⟩ := (hagrees.frm80211Ops i).mp hbit
    obtain ⟨g, hg, -, hgi⟩ := (hqueued fun req => req.msgType = frm80211 ∧ req.frm80211Ops.getLsbD i = true).mp
      ⟨p, hp, hmsg, hpi⟩
    exact frame_unique hf.1 hg.replays.1 hi hgi ▸ hg
  · intro hall
    have hsame : ∀ f, Replays list f ↔ Places memory n list f := fun f => ⟨hall f, Places.replays⟩
    simp only [hsame] at hbits
    refine ⟨fun i => ?_, fun i => ?_, fun i => ?_⟩
    · rw [(hbits i).1]
      exact (hqueued fun req => req.msgType.getLsbD i = true).symm
    · rw [(hbits i).2.1]
      refine Iff.trans ?_ (hqueued fun req => req.msgType = frm80211 ∧ req.frm80211Ops.getLsbD i = true).symm
      exact exists_congr fun f => and_congr_right fun hf => (and_iff_right (msgType_bits hf.replays.1)).symm
    · rw [(hbits i).2.2]
      refine Iff.trans ?_ (hqueued fun req => req.cfg80211Ops.getLsbD i = true).symm
      refine iff_of_false (by simp) ?_
      rintro ⟨f, hf, hbit⟩
      rw [cfg80211Ops_bits hf.replays.1] at hbit
      simp at hbit

/-- The queue stays empty exactly when no frame gets a place. -/
theorem queue_eq_nil_iff (h : FramesFrom memory n list c d) (hfresh : Fresh c) (hcaptures : Captures d) :
    d.fcPrototypeQ = [] ↔ ¬ ∃ f, Places memory n list f := by
  have hqueued := queued_of_framesFrom h fun _ => True
  simp only [and_true, Queued, hfresh.2, List.not_mem_nil, exists_false, false_or] at hqueued
  rw [← hqueued, List.eq_nil_iff_forall_not_mem]
  constructor
  · rintro hnil ⟨p, hp⟩
    exact hnil _ hp
  · rintro hnone e he
    obtain ⟨f, file, -, rfl⟩ := hcaptures e he
    exact hnone ⟨_, he⟩

end Decoded

/-! ### Sending the captures -/

section Sending

variable {c : StaTest} {send : Cmd → Bytes → Ret} {fuel : ℕ}

/-- A test of one bit. -/
theorem and_shiftLeft_ne_zero_iff (x : BitVec 32) {i : ℕ} (hi : i < 32) :
    x &&& 1#32 <<< i ≠ 0 ↔ x.getLsbD i = true := by
  rw [← BitVec.twoPow_eq, BitVec.and_twoPow]
  split_ifs with h
  · simp only [h, iff_true]
    intro hzero
    have hbit := congrArg (fun y => y.getLsbD i) hzero
    simp [hi] at hbit
  · simp [h]

/-- The operation of a frame is one bit. -/
theorem ops_eq_of_and_ne_zero {f : Frame} {type : BitVec 32} (htype : type = auth ∨ type = assocReq)
    (h : f.bits.frm80211Ops &&& type ≠ 0) : f.bits.frm80211Ops = type := by
  rcases htype with rfl | rfl <;> cases f <;> first | rfl | exact absurd (by decide) h

theorem none_notMem (h : Captures c) : none ∉ c.fcPrototypeQ := by
  intro hmem
  obtain ⟨f, file, -, he⟩ := h none hmem
  cases he

/-- The summary asks for a type only when its capture is there. -/
theorem exists_firstOf (hagrees : Agrees c) (hcaptures : Captures c) {type : BitVec 32}
    (htype : type = auth ∨ type = assocReq) (hops : c.fcRequestSummary.frm80211Ops &&& type ≠ 0) :
    ∃ p, firstOf type c.fcPrototypeQ = some p := by
  obtain ⟨i, hi, hshift⟩ : ∃ i < 32, type = 1#32 <<< i := by
    rcases htype with rfl | rfl
    · exact ⟨4, by omega, rfl⟩
    · exact ⟨3, by omega, rfl⟩
  rw [hshift, and_shiftLeft_ne_zero_iff _ hi, hagrees.frm80211Ops] at hops
  obtain ⟨p, hp, hmsg, hbit⟩ := hops
  obtain ⟨f, file, hf, he⟩ := hcaptures _ hp
  cases he
  rw [← and_shiftLeft_ne_zero_iff _ hi, ← hshift] at hbit
  exact Option.isSome_iff_exists.mp (firstOf_isSome hp hmsg (ops_eq_of_and_ne_zero htype hbit))

/-- One type: nothing is asked for, its capture is sent, or an error comes from its capture. -/
theorem configureType_eq (send : Cmd → Bytes → Ret) (cmd : Cmd) (hagrees : Agrees c) (hcaptures : Captures c)
    (hfuel : c.fcPrototypeQ.length < fuel) {type : BitVec 32} (htype : type = auth ∨ type = assocReq) (ret : Ret) :
    (c.fcRequestSummary.frm80211Ops &&& type = 0 ∧ configureType send fuel c cmd type ret = some (some ret)) ∨
      configureType send fuel c cmd type ret = some (some .ok) ∨
        configureType send fuel c cmd type ret = some none ∧ ∃ p, Queued c p ∧ send cmd p.fileLocation = .err := by
  unfold configureType
  split_ifs with hops
  · obtain ⟨p, hp⟩ := exists_firstOf hagrees hcaptures htype hops
    rw [search_eq (none_notMem hcaptures) hfuel, hp, Option.map_some, Option.bind_some]
    split_ifs with hsend
    · exact .inr (.inr ⟨rfl, p, mem_of_firstOf hp, hsend⟩)
    · exact .inr (.inl rfl)
  · exact .inl ⟨not_not.mp hops, rfl⟩

/-- With a capture the summary asks for a type. -/
theorem requested_of_ne_nil (hagrees : Agrees c) (hcaptures : Captures c) (hne : c.fcPrototypeQ ≠ []) :
    c.fcRequestSummary.msgType &&& frm80211 ≠ 0 ∧
      (c.fcRequestSummary.frm80211Ops &&& auth ≠ 0 ∨ c.fcRequestSummary.frm80211Ops &&& assocReq ≠ 0) := by
  obtain ⟨e, he⟩ := List.exists_mem_of_ne_nil _ hne
  obtain ⟨f, file, hf, rfl⟩ := hcaptures e he
  have hmsg := msgType_bits hf
  refine ⟨?_, ?_⟩
  · rw [show frm80211 = 1#32 <<< 4 from rfl, and_shiftLeft_ne_zero_iff _ (by omega), hagrees.msgType]
    exact ⟨_, he, by rw [hmsg]; rfl⟩
  · rw [show auth = 1#32 <<< 4 from rfl, show assocReq = 1#32 <<< 3 from rfl, and_shiftLeft_ne_zero_iff _ (by omega),
      and_shiftLeft_ne_zero_iff _ (by omega), hagrees.frm80211Ops, hagrees.frm80211Ops]
    have hbit : f.bits.frm80211Ops.getLsbD 4 = true ∨ f.bits.frm80211Ops.getLsbD 3 = true := by
      cases f <;> first | decide | cases hf
    exact hbit.imp (fun h => ⟨_, he, hmsg, h⟩) (fun h => ⟨_, he, hmsg, h⟩)

/-- **The result**: with a capture to send, an error comes from one that could not be sent. -/
theorem configure_spec (hagrees : Agrees c) (hcaptures : Captures c) (hfuel : c.fcPrototypeQ.length < fuel)
    (hne : c.fcPrototypeQ ≠ []) : ∃ ret, configureProtoTypesOnSta send fuel c = some ret ∧
      (ret = .err → ∃ cmd p, Queued c p ∧ send cmd p.fileLocation = .err) := by
  obtain ⟨hmsg, hops⟩ := requested_of_ne_nil hagrees hcaptures hne
  have hsecond := fun ret => configureType_eq send .assocReq hagrees hcaptures hfuel (.inr rfl) ret
  rw [configureProtoTypesOnSta, if_pos hmsg]
  rcases configureType_eq send .authReq hagrees hcaptures hfuel (.inl rfl) .err with
    ⟨hauth, hfirst⟩ | hfirst | ⟨hfirst, hsent⟩
  · -- without an authentication the association is asked for, and sets the result
    simp only [hfirst, Option.bind_some]
    rcases hsecond .err with ⟨hassoc, -⟩ | hassoc | ⟨hassoc, hsent⟩
    · exact absurd hops (by simp [hauth, hassoc])
    · exact ⟨.ok, by rw [hassoc]; rfl, by simp⟩
    · exact ⟨.err, by rw [hassoc]; rfl, fun _ => ⟨_, hsent⟩⟩
  · simp only [hfirst, Option.bind_some]
    rcases hsecond .ok with ⟨-, hassoc⟩ | hassoc | ⟨hassoc, hsent⟩
    · exact ⟨.ok, by rw [hassoc]; rfl, by simp⟩
    · exact ⟨.ok, by rw [hassoc]; rfl, by simp⟩
    · exact ⟨.err, by rw [hassoc]; rfl, fun _ => ⟨_, hsent⟩⟩
  · exact ⟨.err, by rw [hfirst]; rfl, fun _ => ⟨_, hsent⟩⟩

/-- Without a capture nothing is sent, and the result is the error that the variable starts with. -/
theorem configure_of_nil (hagrees : Agrees c) (hnil : c.fcPrototypeQ = []) :
    configureProtoTypesOnSta send fuel c = some .err := by
  have hmsg : ¬ c.fcRequestSummary.msgType &&& frm80211 ≠ 0 := by
    rw [show frm80211 = 1#32 <<< 4 from rfl, and_shiftLeft_ne_zero_iff _ (by omega), hagrees.msgType]
    simp [Queued, hnil]
  rw [configureProtoTypesOnSta, if_neg hmsg]

end Sending

/-! ### From the document to the captures -/

section Consistency

variable {memory : Memory} {json list : Json} {d : StaTest}

/-- The loop over the frames of a new step. -/
theorem framesFrom_of_ok (h : decodeStepStationManagementConfig memory json newStaTest = .ok d)
    (hlist : Prototypes json list) : ∃ c, FramesFrom memory 0 (children list) c d ∧ Fresh c := by
  obtain ⟨s, -, hframes⟩ := (decodeStep_eq_ok_iff hlist).mp h
  exact ⟨_, hframes, rfl, rfl⟩

/-- Without a place in the queue nothing is sent, and the result is an error that no capture explains. -/
theorem not_consistent_of_nil (hnil : d.fcPrototypeQ = []) : ¬ Consistent d := by
  intro h
  obtain ⟨fuel, ret, hret, herr⟩ := h.result fun _ _ => .ok
  rw [configure_of_nil h.agrees hnil] at hret
  obtain ⟨cmd, p, -, hsend⟩ := herr (Option.some.inj hret).symm
  cases hsend

/-- **Prototypes**: a list that has been accepted is replayed as it should be exactly when it names a frame to replay,
and a capture of each such frame gets its place in the queue. -/
theorem consistent_iff (h : decodeStepStationManagementConfig memory json newStaTest = .ok d)
    (hlist : Prototypes json list) : Consistent d ↔ Placed memory (children list) := by
  obtain ⟨c, hframes, hfresh⟩ := framesFrom_of_ok h hlist
  have hcaptures : Captures d := captures_of_framesFrom hframes (by simp [Captures, hfresh.2])
  have hagrees := agrees_iff hframes hfresh
  have hqueue := queue_eq_nil_iff hframes hfresh hcaptures
  constructor
  · intro hcons
    refine ⟨?_, hagrees.mp hcons.agrees⟩
    by_contra hnone
    refine not_consistent_of_nil (hqueue.mpr ?_) hcons
    rintro ⟨f, hf⟩
    exact hnone ⟨f, hf.replays⟩
  · rintro ⟨⟨f, hf⟩, hall⟩
    have hne : d.fcPrototypeQ ≠ [] := fun hnil => hqueue.mp hnil ⟨f, hall f hf⟩
    have hdata := none_notMem hcaptures
    have hfuel : d.fcPrototypeQ.length < d.fcPrototypeQ.length + 1 := Nat.lt_succ_self _
    refine ⟨hagrees.mpr hall, fun type => ⟨d.fcPrototypeQ.length + 1, ?_⟩, fun type htype hreq => ?_,
      fun send => ⟨d.fcPrototypeQ.length + 1, configure_spec (hagrees.mpr hall) hcaptures hfuel hne⟩⟩
    · rw [search_eq hdata hfuel]
      exact Option.some_ne_none _
    · obtain ⟨p, hp⟩ := exists_firstOf (hagrees.mpr hall) hcaptures htype hreq.2
      exact ⟨_, p, by rw [search_eq hdata hfuel, hp]⟩

end Consistency

/-! ### With and without captures -/

section Example

/-- A step with prototypes and a list of frames. -/
def stationStep (list : List Json) : Json :=
  .object [("StationManagement", .string (text "station.json")), ("StationPrototypes", .bool true),
    ("StationPrototypeFrames", .array list)]

/-- An authentication with its capture. -/
def authentication : Json :=
  .object [("FrameType", .string (text "Authentication")), ("PcapLocation", .string (text "auth.pcap"))]

/-- There is memory for everything. -/
def enough : Memory where
  calloc := fun _ => true
  push := fun _ => true

/-- The capture of an authentication is replayed. -/
theorem consistent_iff_authentication :
    ∃ d, decodeStepStationManagementConfig enough (stationStep [authentication]) newStaTest = .ok d ∧
      (Consistent d ↔ Placed enough [authentication]) := by
  have hlist : Prototypes (stationStep [authentication]) (.array [authentication]) := ⟨rfl, rfl⟩
  obtain ⟨d, hd⟩ : ∃ d, decodeStepStationManagementConfig enough (stationStep [authentication]) newStaTest = .ok d :=
    ⟨_, rfl⟩
  exact ⟨d, hd, consistent_iff hd hlist⟩

/-- The empty list is accepted, and the station fails although nothing was to be sent. -/
theorem not_consistent_empty :
    ∃ d, decodeStepStationManagementConfig enough (stationStep []) newStaTest = .ok d ∧ ¬ Consistent d :=
  ⟨_, rfl, not_consistent_of_nil rfl⟩

end Example

end OneWifiTestSuite.StationPrototypes
