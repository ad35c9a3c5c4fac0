import OneWifiTestSuite.StatsDecode

/-!
# Decoding the station step

`decode_step_station_management_config` reads the configuration of a station and, when prototypes are
enabled, a list of frames with their captures. It takes the `valuestring` of `FrameType` without looking
whether there is one, and the message for an unknown name prints the `valuestring` of a boolean.

`FramesFrom` is what the loop over the frames makes of a list. `decoders_sound_iff` puts this decoder
beside those of the statistics.
-/

namespace OneWifiTestSuite.StationDecode

open ByteRegion RebootFile AgentJson StepSubdoc StatsDecode
open StatsGet (DataType Limits)

/-! ### The code -/

section Code

/-- `station_prototype_pcaps_t`. -/
structure Pcap where
  fcRequest : FrameRequest
  fileLocation : Bytes
deriving DecidableEq

/-- The fields of `sta_test_t` that the decoder sets; a queue holds pointers. -/
structure StaTest where
  testStationConfig : Bytes
  captureStaRequests : Bool
  waitConnection : Bool
  isStationPrototypeEnabled : Bool
  fcRequestSummary : FrameRequest
  fcPrototypeQ : List (Option Pcap)
deriving DecidableEq

/-- `1 << wlan_emu_msg_type_frm80211`. -/
def frm80211 : BitVec 32 := 1 <<< 4

/-- `1 << wlan_emu_frm80211_ops_type_assoc_req`. -/
def assocReq : BitVec 32 := 1 <<< 3

/-- `1 << wlan_emu_frm80211_ops_type_auth`. -/
def auth : BitVec 32 := 1 <<< 4

/-- The update of `fc_request_summary`. -/
def StaTest.addSummary (c : StaTest) (ops : BitVec 32) : StaTest :=
  { c with
    fcRequestSummary := { c.fcRequestSummary with
      msgType := c.fcRequestSummary.msgType ||| frm80211
      frm80211Ops := c.fcRequestSummary.frm80211Ops ||| ops } }

/-- Whether there is memory at a position of the list: for the capture, and for the element of the queue. -/
structure Memory where
  calloc : ℕ → Bool
  push : ℕ → Bool

/-- `queue_push(fc_prototype_q, pcap)`; `memory` says whether `malloc` finds any for the element, and the answer is not
looked at. -/
def StaTest.push (c : StaTest) (memory : Bool) (pcap : Option Pcap) : StaTest :=
  if memory = true then { c with fcPrototypeQ := pcap :: c.fcPrototypeQ } else c

/-- The loop over `StationPrototypeFrames`; `param` is the item `StationPrototypes`. -/
def decodePrototypes (memory : Memory) (param : Json) : ℕ → List Json → StaTest → Except Stop StaTest
  | _, [], c => .ok c
  | n, frameType :: list, c => do
      let name ← valuestring (frameType.getObjectItem "FrameType")
      match decodePcapFrameType name noFrames with
      | none => do
          let _ ← valuestring (some param)
          .error .failed
      | some req =>
          if req.msgType &&& frm80211 ≠ 0 then
            if req.frm80211Ops &&& assocReq ≠ 0 ∨ req.frm80211Ops &&& auth ≠ 0 then do
              let c := c.addSummary req.frm80211Ops
              if memory.calloc n = false then .error .failed
              else do
                let file ← orFail (decodeParamString frameType "PcapLocation")
                decodePrototypes memory param (n + 1) list (c.push (memory.push n) (some ⟨req, file.take 255⟩))
            else decodePrototypes memory param (n + 1) list c
          else decodePrototypes memory param (n + 1) list c

/-- The second half of `decode_step_station_management_config`: the prototypes. -/
def decodeStationPrototypes (memory : Memory) (json : Json) (c : StaTest) : Except Stop StaTest :=
  match json.getObjectItem "StationPrototypes" with
  | some (.bool true) =>
      let c := { c with isStationPrototypeEnabled := true }
      match json.getObjectItem "StationPrototypeFrames" with
      | some list => decodePrototypes memory (.bool true) 0 (children list) c
      | none => .ok c
  | some (.bool false) => .ok { c with isStationPrototypeEnabled := false }
  | _ => .ok c

/-- `decode_step_station_management_config`. -/
def decodeStepStationManagementConfig (memory : Memory) (json : Json) (c : StaTest) : Except Stop StaTest := do
  let config ← orFail (decodeParamString json "StationManagement")
  decodeStationPrototypes memory json { c with
    testStationConfig := config.take 127
    captureStaRequests := (decodeParamBool json "CaptureStationRequests").getD c.captureStaRequests
    waitConnection := (decodeParamBool json "WaitConnection").getD c.waitConnection }

end Code

/-! ### What a list of frames says -/

section Meaning

/-- The frames that a station replays. -/
def isPrototype : Frame → Bool
  | .assocReq | .auth => true
  | _ => false

/-- An element names a frame. -/
def Names (entry : Json) (f : Frame) : Prop :=
  entry.getObjectItem "FrameType" = some (.string f.name)

/-- An element has a capture. -/
def Captured (entry : Json) (file : Bytes) : Prop :=
  entry.getObjectItem "PcapLocation" = some (.string file) ∧ file ≠ []

/-- What one frame to replay adds. -/
def StaTest.addPrototype (c : StaTest) (memory : Bool) (f : Frame) (file : Bytes) : StaTest :=
  (c.addSummary f.bits.frm80211Ops).push memory (some ⟨f.bits, file.take 255⟩)

/-- What the loop makes of a list: the frames to replay are added and the others passed over. -/
inductive FramesFrom (memory : Memory) : ℕ → List Json → StaTest → StaTest → Prop
  | nil {n : ℕ} {c : StaTest} : FramesFrom memory n [] c c
  | other {n : ℕ} {entry : Json} {list : List Json} {c d : StaTest} {f : Frame} (hname : Names entry f)
      (hother : isPrototype f = false) (hlist : FramesFrom memory (n + 1) list c d) :
      FramesFrom memory n (entry :: list) c d
  | prototype {n : ℕ} {entry : Json} {list : List Json} {c d : StaTest} {f : Frame} {file : Bytes}
      (hname : Names entry f) (hproto : isPrototype f = true) (hcalloc : memory.calloc n = true)
      (hfile : Captured entry file)
      (hlist : FramesFrom memory (n + 1) list (c.addPrototype (memory.push n) f file) d) :
      FramesFrom memory n (entry :: list) c d

/-- Every element up to the one that ends the loop names a frame. -/
def FramesRead (memory : Memory) : ℕ → List Json → Prop
  | _, [] => True
  | n, entry :: list => ∃ f, Names entry f ∧
      ((isPrototype f = true → memory.calloc n = true ∧ ∃ file, Captured entry file) → FramesRead memory (n + 1) list)

end Meaning

/-! ### The loop -/

section Loop

variable {memory : Memory} {n : ℕ} {list : List Json} {c d : StaTest} {entry : Json}

/-- A name is decoded to the bits of its frame. -/
theorem decodePcapFrameType_eq_some_iff {s : Bytes} {req : FrameRequest} :
    decodePcapFrameType s noFrames = some req ↔ ∃ f : Frame, s = f.name ∧ req = f.bits := by
  have hadd : ∀ f : Frame, noFrames.add f = f.bits := by
    intro f
    cases f <;> rfl
  constructor
  · intro h
    obtain ⟨f, hf, rfl⟩ := Option.map_eq_some_iff.mp h
    exact ⟨f, by simpa [eq_comm] using List.find?_some hf, hadd f⟩
  · rintro ⟨f, rfl, rfl⟩
    rw [decodePcapFrameType_name, hadd]

/-- The tests of the bits find the frames that a station replays. -/
theorem bits_isPrototype (f : Frame) :
    (f.bits.msgType &&& frm80211 ≠ 0 ∧ (f.bits.frm80211Ops &&& assocReq ≠ 0 ∨ f.bits.frm80211Ops &&& auth ≠ 0)) ↔
      isPrototype f = true := by
  cases f <;> decide

/-- An element that names a frame. -/
theorem decodePrototypes_cons {f : Frame} (h : Names entry f) :
    decodePrototypes memory (.bool true) n (entry :: list) c =
      if isPrototype f = true then
        if memory.calloc n = false then .error .failed
        else orFail (decodeParamString entry "PcapLocation") >>= fun file =>
          decodePrototypes memory (.bool true) (n + 1) list (c.addPrototype (memory.push n) f file)
      else decodePrototypes memory (.bool true) (n + 1) list c := by
  have hdecode : decodePcapFrameType f.name noFrames = some f.bits := decodePcapFrameType_eq_some_iff.mpr ⟨f, rfl, rfl⟩
  rw [decodePrototypes, h]
  simp only [valuestring, bind, Except.bind, hdecode]
  by_cases hproto : isPrototype f = true
  · obtain ⟨hmsg, hops⟩ := (bits_isPrototype f).mpr hproto
    rw [if_pos hmsg, if_pos hops, if_pos hproto]
    rfl
  · have hnot := mt (bits_isPrototype f).mp hproto
    rw [if_neg hproto, ← ite_and, if_neg hnot]

/-- An element that names none: its `valuestring` is no string, or the message reads one. -/
theorem decodePrototypes_of_nameless (h : ∀ f, ¬ Names entry f) :
    decodePrototypes memory (.bool true) n (entry :: list) c = .error .badRead := by
  unfold decodePrototypes
  cases hitem : entry.getObjectItem "FrameType" with
  | none => rfl
  | some item =>
      cases item with
      | string s =>
          have hnone : decodePcapFrameType s noFrames = none := by
            refine Option.eq_none_iff_forall_ne_some.mpr fun req hreq => ?_
            obtain ⟨f, rfl, -⟩ := decodePcapFrameType_eq_some_iff.mp hreq
            exact h f hitem
          simp only [valuestring, bind, Except.bind, hnone]
      | _ => rfl

theorem name_unique {f g : Frame} (hf : Names entry f) (hg : Names entry g) : f = g := by
  have hname : f.name = g.name := by
    simpa using hf.symm.trans hg
  have hinj : ∀ f g : Frame, f.name = g.name → f = g := by
    intro f g h
    have hf := decodePcapFrameType_name f noFrames
    rw [h, decodePcapFrameType_name] at hf
    cases f <;> cases g <;> first | rfl | exact absurd hf (by decide)
  exact hinj f g hname

/-- **The loop** ends with a step exactly when the list says it. -/
theorem decodePrototypes_eq_ok_iff :
    decodePrototypes memory (.bool true) n list c = .ok d ↔ FramesFrom memory n list c d := by
  constructor
  · intro h
    induction list generalizing n c with
    | nil =>
        cases h
        exact .nil
    | cons entry list ih =>
        by_cases hname : ∃ f, Names entry f
        · obtain ⟨f, hname⟩ := hname
          rw [decodePrototypes_cons hname] at h
          split_ifs at h with hproto hcalloc
          · obtain ⟨file, hfile, h⟩ := bind_eq_ok_iff.mp h
            rw [orFail_eq_ok_iff, decodeParamString_eq_some_iff] at hfile
            exact .prototype hname hproto (by simpa using hcalloc) hfile (ih h)
          · exact .other hname (by simpa using hproto) (ih h)
        · rw [decodePrototypes_of_nameless (not_exists.mp hname)] at h
          cases h
  · intro h
    induction h with
    | nil => rfl
    | other hname hother _ ih => rw [decodePrototypes_cons hname, hother, if_neg (by simp), ih]
    | prototype hname hproto hcalloc hfile _ ih =>
        rw [decodePrototypes_cons hname, if_pos hproto, hcalloc, if_neg (by simp)]
        exact bind_eq_ok_iff.mpr ⟨_, orFail_eq_ok_iff.mpr (decodeParamString_eq_some_iff.mpr hfile), ih⟩

/-- The reads of the loop. -/
theorem decodePrototypes_eq_badRead_iff :
    decodePrototypes memory (.bool true) n list c = .error .badRead ↔ ¬ FramesRead memory n list := by
  induction list generalizing n c with
  | nil => simp [decodePrototypes, FramesRead]
  | cons entry list ih =>
      by_cases hname : ∃ f, Names entry f
      · obtain ⟨f, hname⟩ := hname
        have hread : FramesRead memory n (entry :: list) ↔
            ((isPrototype f = true → memory.calloc n = true ∧ ∃ file, Captured entry file) → FramesRead memory (n + 1) list) :=
          ⟨fun ⟨g, hg, h⟩ => name_unique hg hname ▸ h, fun h => ⟨f, hname, h⟩⟩
        rw [decodePrototypes_cons hname, hread]
        split_ifs with hproto hcalloc
        · simp [hproto, hcalloc]
        · simp only [bind_eq_badRead_iff, orFail_ne_badRead, orFail_eq_ok_iff, decodeParamString_eq_some_iff, ih,
            false_or, hproto, true_implies, Bool.not_eq_false] at hcalloc ⊢
          simp only [hcalloc, true_and, Classical.not_imp, exists_and_right]
          rfl
        · simp [hproto, ih]
      · have hread : ¬ FramesRead memory n (entry :: list) := fun ⟨f, hf, _⟩ => hname ⟨f, hf⟩
        exact iff_of_true (decodePrototypes_of_nameless (not_exists.mp hname)) hread

end Loop

/-! ### The step -/

section Station

variable {memory : Memory} {n : ℕ} {list : List Json} {json : Json} {c d : StaTest}

/-- The document enables prototypes and gives an item for their frames. -/
def Prototypes (json list : Json) : Prop :=
  json.getObjectItem "StationPrototypes" = some (.bool true) ∧ json.getObjectItem "StationPrototypeFrames" = some list

/-- An element names a frame, and `r` is its capture if it has to be replayed. -/
def ElementOf (entry : Json) (r : Option Pcap) : Prop :=
  ∃ f, Names entry f ∧
    if isPrototype f = true then ∃ file, Captured entry file ∧ r = some ⟨f.bits, file.take 255⟩ else r = none

/-- The captures in the queue, the last in front. -/
def addCaptures (rs q : List (Option Pcap)) : List (Option Pcap) :=
  (rs.filter Option.isSome).reverse ++ q

/-- The step is what the document says: its configuration, and a capture for every frame to replay. -/
structure StationFrom (json : Json) (c d : StaTest) : Prop where
  config : ∃ s, json.getObjectItem "StationManagement" = some (.string s) ∧ s ≠ [] ∧ d.testStationConfig = s.take 127
  prototypes : ∀ list, Prototypes json list →
    ∃ rs, List.Forall₂ ElementOf (children list) rs ∧ d.fcPrototypeQ = addCaptures rs c.fcPrototypeQ

/-- The captures from position `n` on get memory. -/
def Roomy (answer : ℕ → Bool) (n : ℕ) (rs : List (Option Pcap)) : Prop :=
  ∀ k r, rs[k]? = some r → r.isSome = true → answer (n + k) = true

/-- The document gives a configuration and a list of frames to look at. -/
def ListGiven (json list : Json) : Prop :=
  (∃ s, json.getObjectItem "StationManagement" = some (.string s) ∧ s ≠ []) ∧ Prototypes json list

/-- The items that the decoder comes to read as strings are strings and name frames, and when the list is accepted each
capture gets its place in the queue. -/
structure StationReads (memory : Memory) (json : Json) : Prop where
  reads : ∀ list, ListGiven json list → FramesRead memory 0 (children list)
  memory : ∀ list rs, ListGiven json list → List.Forall₂ ElementOf (children list) rs → Roomy memory.calloc 0 rs →
    Roomy memory.push 0 rs

theorem ElementOf.unique {entry : Json} {r r' : Option Pcap} (h : ElementOf entry r) (h' : ElementOf entry r') :
    r = r' := by
  obtain ⟨f, hf, hr⟩ := h
  obtain ⟨g, hg, hr'⟩ := h'
  obtain rfl := name_unique hf hg
  split_ifs at hr hr' with hproto
  · obtain ⟨file, hfile, rfl⟩ := hr
    obtain ⟨file', hfile', rfl⟩ := hr'
    obtain rfl : file = file' := by simpa using hfile.1.symm.trans hfile'.1
    rfl
  · rw [hr, hr']

theorem elements_unique {rs rs' : List (Option Pcap)} (h : List.Forall₂ ElementOf list rs)
    (h' : List.Forall₂ ElementOf list rs') : rs = rs' :=
  forall₂_unique (R := ElementOf) (fun _ _ _ => ElementOf.unique) h h'

theorem roomy_cons {answer : ℕ → Bool} {r : Option Pcap} {rs : List (Option Pcap)} :
    Roomy answer n (r :: rs) ↔ (r.isSome = true → answer n = true) ∧ Roomy answer (n + 1) rs := by
  have hsucc : ∀ k, n + 1 + k = n + (k + 1) := fun k => by omega
  unfold Roomy
  rw [← Nat.and_forall_add_one]
  simp only [List.getElem?_cons_zero, List.getElem?_cons_succ, Option.some.injEq, forall_eq', Nat.add_zero, hsucc]

/-- **The list** is accepted exactly when its elements are complete, with memory for their captures, and those with a
place in the queue are in it. -/
theorem FramesFrom.captures (h : FramesFrom memory n list c d) :
    d.testStationConfig = c.testStationConfig ∧ ∃ rs, List.Forall₂ ElementOf list rs ∧ Roomy memory.calloc n rs ∧
      d.fcPrototypeQ = addCaptures (withMemory memory.push n rs) c.fcPrototypeQ := by
  induction h with
  | nil => exact ⟨rfl, [], .nil, by simp [Roomy], rfl⟩
  | other hname hother _ ih =>
      obtain ⟨hconfig, rs, hrs, hroomy, hqueue⟩ := ih
      refine ⟨hconfig, none :: rs, .cons ⟨_, hname, by rw [hother]; rfl⟩ hrs, roomy_cons.mpr ⟨nofun, hroomy⟩, ?_⟩
      rw [hqueue, withMemory]
      split_ifs <;> simp [addCaptures]
  | prototype hname hproto hcalloc hfile _ ih =>
      obtain ⟨hconfig, rs, hrs, hroomy, hqueue⟩ := ih
      refine ⟨?_, _ :: rs, .cons ⟨_, hname, by rw [if_pos hproto]; exact ⟨_, hfile, rfl⟩⟩ hrs,
        roomy_cons.mpr ⟨fun _ => hcalloc, hroomy⟩, ?_⟩
      · rw [hconfig, StaTest.addPrototype, StaTest.push]
        split_ifs <;> rfl
      · rw [hqueue, withMemory, StaTest.addPrototype, StaTest.push]
        split_ifs <;> simp [addCaptures, StaTest.addSummary]

/-- Complete elements with memory for their captures are accepted. -/
theorem exists_framesFrom {rs : List (Option Pcap)} (h : List.Forall₂ ElementOf list rs) (hroomy : Roomy memory.calloc n rs) :
    ∃ d, FramesFrom memory n list c d := by
  induction h generalizing n c with
  | nil => exact ⟨c, .nil⟩
  | cons hentry _ ih =>
      obtain ⟨f, hname, hr⟩ := hentry
      obtain ⟨hfirst, hrest⟩ := roomy_cons.mp hroomy
      split_ifs at hr with hproto
      · obtain ⟨file, hfile, rfl⟩ := hr
        obtain ⟨d, hd⟩ := ih hrest
        exact ⟨d, .prototype hname hproto (hfirst rfl) hfile hd⟩
      · obtain ⟨d, hd⟩ := ih hrest
        exact ⟨d, .other hname (by simpa using hproto) hd⟩

theorem decodeStationPrototypes_of (memory : Memory) (hlist : ∀ list, ¬ Prototypes json list) :
    ∃ enabled, decodeStationPrototypes memory json c = .ok { c with isStationPrototypeEnabled := enabled } := by
  unfold decodeStationPrototypes
  split
  · rename_i hproto
    cases hitem : json.getObjectItem "StationPrototypeFrames" with
    | none => exact ⟨true, rfl⟩
    | some list => exact absurd ⟨hproto, hitem⟩ (hlist list)
  · exact ⟨false, rfl⟩
  · exact ⟨_, rfl⟩

theorem decodeStationPrototypes_eq {list : Json} (h : Prototypes json list) :
    decodeStationPrototypes memory json c =
      decodePrototypes memory (.bool true) 0 (children list) { c with isStationPrototypeEnabled := true } := by
  unfold decodeStationPrototypes
  rw [h.1, h.2]

/-- The decoder of the step, when there is a list of frames. -/
theorem decodeStep_eq_ok_iff {list : Json} (hproto : Prototypes json list) :
    decodeStepStationManagementConfig memory json c = .ok d ↔
      ∃ s, (json.getObjectItem "StationManagement" = some (.string s) ∧ s ≠ []) ∧
        FramesFrom memory 0 (children list) { c with
          testStationConfig := s.take 127
          captureStaRequests := (decodeParamBool json "CaptureStationRequests").getD c.captureStaRequests
          waitConnection := (decodeParamBool json "WaitConnection").getD c.waitConnection
          isStationPrototypeEnabled := true } d := by
  simp only [decodeStepStationManagementConfig, bind_eq_ok_iff, orFail_eq_ok_iff, decodeParamString_eq_some_iff,
    decodeStationPrototypes_eq hproto, decodePrototypes_eq_ok_iff]

/-- A step that comes out is what the document says when its captures have their places in the queue. -/
theorem stationFrom_of_ok (hreads : StationReads memory json)
    (h : decodeStepStationManagementConfig memory json c = .ok d) : StationFrom json c d := by
  by_cases hproto : ∃ list, Prototypes json list
  · obtain ⟨list, hlist⟩ := hproto
    obtain ⟨s, hs, hframes⟩ := (decodeStep_eq_ok_iff hlist).mp h
    obtain ⟨hconfig, rs, hrs, hroomy, hqueue⟩ := hframes.captures
    refine ⟨⟨s, hs.1, hs.2, hconfig⟩, fun list' hlist' => ?_⟩
    obtain rfl : list = list' := Option.some.inj (hlist.2.symm.trans hlist'.2)
    have hplaces := hreads.memory list rs ⟨⟨s, hs⟩, hlist⟩ hrs hroomy
    refine ⟨rs, hrs, ?_⟩
    rw [hqueue, addCaptures, (filter_withMemory_eq_iff _ _ _ _).mpr hplaces]
    rfl
  · obtain ⟨s, hs, h⟩ := bind_eq_ok_iff.mp h
    rw [orFail_eq_ok_iff, decodeParamString_eq_some_iff] at hs
    obtain ⟨enabled, hok⟩ := decodeStationPrototypes_of memory (not_exists.mp hproto)
    rw [hok] at h
    cases h
    exact ⟨⟨s, hs.1, hs.2, rfl⟩, fun list hlist => absurd ⟨list, hlist⟩ hproto⟩

/-- A step that comes out as the document says has its captures in the queue. -/
theorem roomy_of_stationFrom {list : Json} {rs : List (Option Pcap)} (hlist : Prototypes json list)
    (hok : decodeStepStationManagementConfig memory json c = .ok d) (h : StationFrom json c d)
    (hrs : List.Forall₂ ElementOf (children list) rs) : Roomy memory.push 0 rs := by
  obtain ⟨s, -, hframes⟩ := (decodeStep_eq_ok_iff hlist).mp hok
  obtain ⟨-, rs', hrs', -, hqueue⟩ := hframes.captures
  obtain ⟨rs'', hrs'', hfrom⟩ := h.prototypes list hlist
  obtain rfl := elements_unique hrs hrs'
  obtain rfl := elements_unique hrs hrs''
  rw [hfrom] at hqueue
  exact (filter_withMemory_eq_iff _ _ _ _).mp (List.reverse_injective (List.append_cancel_right hqueue)).symm

/-- The reads of the decoder. -/
theorem station_eq_badRead_iff : decodeStepStationManagementConfig memory json c = .error .badRead ↔
    ¬ ∀ list, ListGiven json list → FramesRead memory 0 (children list) := by
  simp only [decodeStepStationManagementConfig, bind_eq_badRead_iff, orFail_ne_badRead, orFail_eq_ok_iff,
    decodeParamString_eq_some_iff, false_or, not_forall, exists_prop]
  constructor
  · rintro ⟨s, hs, h⟩
    by_cases hproto : ∃ list, Prototypes json list
    · obtain ⟨list, hlist⟩ := hproto
      rw [decodeStationPrototypes_eq hlist, decodePrototypes_eq_badRead_iff] at h
      exact ⟨list, ⟨⟨s, hs⟩, hlist⟩, h⟩
    · obtain ⟨enabled, hok⟩ := decodeStationPrototypes_of memory (not_exists.mp hproto)
      rw [hok] at h
      cases h
  · rintro ⟨list, ⟨⟨s, hs⟩, hproto⟩, h⟩
    refine ⟨s, hs, ?_⟩
    rw [decodeStationPrototypes_eq hproto, decodePrototypes_eq_badRead_iff]
    exact h

/-- The decoder makes no bad read, and a step that comes out is what the document says. -/
def StationSound (memory : Memory) (json : Json) (c : StaTest) : Prop :=
  decodeStepStationManagementConfig memory json c ≠ .error .badRead ∧
    ∀ d, decodeStepStationManagementConfig memory json c = .ok d → StationFrom json c d

/-- **The decoder of the station** is sound exactly on the documents whose items are strings where they are read, with
a place in the queue for every capture. -/
theorem station_sound_iff : StationSound memory json c ↔ StationReads memory json := by
  unfold StationSound
  rw [ne_eq, station_eq_badRead_iff, not_not]
  constructor
  · rintro ⟨hreads, hfrom⟩
    refine ⟨hreads, fun list rs ⟨⟨s, hs⟩, hlist⟩ hrs hroomy => ?_⟩
    obtain ⟨d, hd⟩ := exists_framesFrom hrs hroomy
    have hok := (decodeStep_eq_ok_iff (c := c) hlist).mpr ⟨s, hs, hd⟩
    exact roomy_of_stationFrom hlist hok (hfrom d hok) hrs
  · exact fun h => ⟨h.reads, fun d => stationFrom_of_ok h⟩

end Station

/-! ### All decoders -/

section Decoders

/-- The decoders of the statistics and of the station, with the step that they write to. -/
inductive Decoder
  | statsGet (t : DataType)
  | statsSet (t : DataType) (memory : ℕ → Bool) (c : WifiStatsSet)
  | station (memory : Memory) (c : StaTest)

/-- The decoder reads no `valuestring` of an item that is absent or no string, and a step that comes out is what the
document says. -/
def Sound (l : Limits) (json : Json) : Decoder → Prop
  | .statsGet t => GetSound t l json
  | .statsSet t memory c => SetSound t memory l json c
  | .station memory c => StationSound memory json c

/-- The items are strings where the decoder comes to read them as strings, and what it stores gets its memory. -/
def Reads (l : Limits) (json : Json) : Decoder → Prop
  | .statsGet t => GetReads t l json
  | .statsSet t memory _ => SetReads t memory l json
  | .station memory _ => StationReads memory json

/-- **All decoders** are sound exactly on the documents whose items are strings where they are read, with the memory to
queue what they store. -/
theorem decoders_sound_iff (l : Limits) (json : Json) (d : Decoder) : Sound l json d ↔ Reads l json d := by
  cases d with
  | statsGet t => exact statsGet_sound_iff
  | statsSet t memory c => exact statsSet_sound_iff
  | station memory c => exact station_sound_iff

end Decoders

/-! ### A number for a string -/

section Example

/-- A step that gives its index as a number. -/
def numberIndex : Json :=
  .object [("RadioIndex", .number 0), ("Operation", .string (text "Start"))]

/-- The number has no `valuestring`. -/
theorem not_sound_numberIndex : ¬ ∀ (l : Limits) (json : Json) (d : Decoder), Sound l json d := by
  intro h
  exact (h ⟨2, 8, by decide⟩ numberIndex (.statsGet .radioChannelStats)).1 rfl

end Example

end OneWifiTestSuite.StationDecode
