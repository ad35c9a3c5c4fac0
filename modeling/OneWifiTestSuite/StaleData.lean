import OneWifiTestSuite.MsgHdlr

/-!
# One message after another

The handler keeps its buffer and its message object over all turns. A read is `SelfContained` when
the message takes no more bytes than were read and is of a kind whose fields are all decoded.
`function_of_read_iff` says that exactly then what is delivered is a function of the bytes of the
read: for every two histories of reads before it, the same message.
-/

namespace OneWifiTestSuite.StaleData

open ByteRegion MsgHdlr Runs

section Runs

/-- A turn of the thread that goes on. -/
def next (h : Handler) (l : Addrs × Read) : Option Handler :=
  match turn h l.1 l.2 with
  | some (h', .skipped) | some (h', .delivered _) => some h'
  | _ => none

/-- The thread after some reads. -/
def Reachable (h : Handler) : Prop :=
  Run next (fun _ _ => True) MsgHdlr.init h

/-- What the turn for the read `r` puts out depends on the read alone. -/
def FunctionOfRead (r : Read) : Prop :=
  ∃ out, ∀ h a, Reachable h → ∃ h', turn h a r = some (h', out)

/-- A buffer that holds `bs` and zeros. -/
def pad (bs : Bytes) : Region :=
  store (fun _ => 0) 0 bs

/-- All fields of the message are decoded. -/
def Complete (m : Region) : Prop :=
  match kindOf m with
  | .cfg80211 .startAp => ssidLenOf m ≤ 32 ∧ 22 ≤ headLenOf m
  | .mac80211 | .emu80211 .cmnd => False
  | .cfg80211 ops => ops = .none ∨ ops = .other
  | _ => True

/-- The condition on a read. -/
def SelfContained : Read → Prop
  | .failed => False
  | .bytes bs _ => bs = [] ∨ wireSize (pad bs) ≤ bs.length ∧ Complete (pad bs)

end Runs

section Sufficient

variable {m m' : Region} {n : ℕ}

theorem eight_le_wireSize (hb : kindOf m ≠ .bare) (hm : kindOf m ≠ .mac80211) : 8 ≤ wireSize m := by
  cases hk : kindOf m with
  | bare =>
      exact absurd hk hb
  | mac80211 =>
      exact absurd hk hm
  | webconfig =>
      simp [wireSize, hk]
  | frm80211 =>
      simp only [wireSize, hk]
      omega
  | emu80211 ops | agent ops =>
      cases ops <;> simp [wireSize, hk]
  | cfg80211 ops =>
      cases ops with
      | startAp =>
          simp only [wireSize, hk]
          split_ifs <;> omega
      | none | addIntf | delIntf | changeIntf | changeBeacon | stopAp | setWiphy | other =>
          simp [wireSize, hk]

theorem four_le_wireSize (m : Region) : 4 ≤ wireSize m := by
  by_cases hb : kindOf m = .bare
  · simp [wireSize, hb]
  · by_cases hm : kindOf m = .mac80211
    · simp [wireSize, hm]
    · have := eight_le_wireSize hb hm
      omega

/-- The kind is read from the bytes that the message takes. -/
theorem kindOf_congr (hslice : ∀ off len, off + len ≤ wireSize m → slice m off len = slice m' off len) :
    kindOf m' = kindOf m := by
  have htype := hslice 0 4 (four_le_wireSize m)
  by_cases hb : kindOf m = .bare
  · rw [hb, kindOf, ← htype]
    exact kind_bare hb _
  · by_cases hm : kindOf m = .mac80211
    · rw [hm, kindOf, ← htype]
      exact kind_mac80211 hm _
    · rw [kindOf, kindOf, htype, hslice 4 4 (eight_le_wireSize hb hm)]

/-- A complete message is the same over every buffer with its bytes and over every object. -/
theorem viewOf_congr (hc : Complete m) (hagree : ∀ i < wireSize m, m i = m' i) (u u' : Region)
    (heap heap' : BitVec 64 → Bytes) :
    wireSize m' = wireSize m ∧ kindOf m' = kindOf m ∧ Complete m' ∧
      (kindOf m ≠ .emu80211 .close → viewOf u heap m = viewOf u' heap' m') := by
  have hslice : ∀ off len, off + len ≤ wireSize m → slice m off len = slice m' off len := fun off len hle =>
    slice_congr fun i _ hi => hagree i (by omega)
  have hkind := kindOf_congr hslice
  cases hk : kindOf m with
  | bare =>
      rw [hk] at hkind
      have hsize : wireSize m = 4 := by simp [wireSize, hk]
      simp (disch := omega) [Complete, viewOf, hk, hkind, hslice, wireSize]
  | mac80211 =>
      simp [Complete, hk] at hc
  | webconfig =>
      rw [hk] at hkind
      have hsize : wireSize m = 8 := by simp [wireSize, hk]
      simp (disch := omega) [Complete, viewOf, hk, hkind, hslice, wireSize]
  | emu80211 ops =>
      rw [hk] at hkind
      cases ops with
      | tctrl =>
          have hsize : wireSize m = 20 := by simp [wireSize, hk]
          simp (disch := omega) [Complete, viewOf, hk, hkind, hslice, wireSize]
      | close =>
          simp [Complete, hk, hkind, wireSize]
      | cmnd =>
          simp [Complete, hk] at hc
      | other =>
          have hsize : wireSize m = 8 := by simp [wireSize, hk]
          simp (disch := omega) [Complete, viewOf, hk, hkind, hslice, wireSize, Kind.fields]
  | agent ops =>
      rw [hk] at hkind
      cases ops with
      | cmd =>
          have hsize : wireSize m = 12 := by simp [wireSize, hk]
          simp (disch := omega) [Complete, viewOf, hk, hkind, hslice, wireSize]
      | data =>
          have hsize : wireSize m = 16 := by simp [wireSize, hk]
          simp (disch := omega) [Complete, viewOf, hk, hkind, hslice, wireSize]
      | notification =>
          have hsize : wireSize m = 28 := by simp [wireSize, hk]
          simp (disch := omega) [Complete, viewOf, hk, hkind, hslice, wireSize]
      | other =>
          have hsize : wireSize m = 8 := by simp [wireSize, hk]
          simp (disch := omega) [Complete, viewOf, hk, hkind, hslice, wireSize, Kind.fields]
  | frm80211 =>
      rw [hk] at hkind
      have hsize : wireSize m = 24 + leNat (slice m 8 4) := by simp [wireSize, hk]
      have hlen := hslice 8 4 (by omega)
      rw [hlen] at hsize
      simp (disch := omega) [Complete, viewOf, hk, hkind, hslice, wireSize]
  | cfg80211 ops =>
      rw [hk] at hkind
      cases ops with
      | startAp =>
          simp only [Complete, hk] at hc
          have hshort : ¬ 32 < ssidLenOf m := by omega
          have hsize : wireSize m = 40 + ssidLenOf m + headLenOf m + tailLenOf m := by simp [wireSize, hk, hshort]
          have hL : ssidLenOf m = ssidLenOf m' := by rw [ssidLenOf, ssidLenOf, hslice 16 8 (by omega)]
          have hH : headLenOf m = headLenOf m' := by rw [headLenOf, headLenOf, ← hL, hslice _ 8 (by omega)]
          have hT : tailLenOf m = tailLenOf m' := by rw [tailLenOf, tailLenOf, ← hL, hslice _ 8 (by omega)]
          rw [hL, hH, hT] at hsize
          rw [hL] at hshort hc
          rw [hH] at hc
          simp (disch := omega) [Complete, viewOf, hk, hkind, hslice, wireSize, hL, hH, hT, hshort, hc]
      | none | other =>
          have hsize : wireSize m = 8 := by simp [wireSize, hk]
          simp (disch := omega) [Complete, viewOf, hk, hkind, hslice, wireSize, Kind.fields]
      | addIntf | delIntf | changeIntf | changeBeacon | stopAp | setWiphy =>
          simp [Complete, hk] at hc

/-- What a turn puts out over a buffer that decodes. -/
def outOf (u : Region) (heap : BitVec 64 → Bytes) (m : Region) : Out :=
  if kindOf m = .emu80211 .close then .exited else .delivered (viewOf u heap m)

theorem turn_dispatch {h : Handler} {a : Addrs} {r : Read} (hne : ∀ hfits, r ≠ .bytes [] hfits) :
    turn h a r = (dispatch a { h with buf := receive r h.buf }).map fun h =>
      (h, if h.kind = .emu80211 .close then .exited else .delivered h.view) := by
  unfold turn
  split
  · exact absurd rfl (hne _)
  · rfl

/-- A turn with a read that is not empty. -/
theorem turn_eq {h : Handler} {a : Addrs} {r : Read} (hne : ∀ hfits, r ≠ .bytes [] hfits) :
    if Decodes (receive r h.buf) then
      ∃ h', turn h a r = some (h', outOf h.u h.heap (receive r h.buf))
    else turn h a r = none := by
  have hspec := dispatch_spec a { h with buf := receive r h.buf }
  rw [turn_dispatch hne]
  by_cases hd : Decodes (receive r h.buf)
  · rw [Spec, if_pos hd] at hspec
    obtain ⟨h', hrun, hkind, hview⟩ := hspec
    rw [if_pos hd, hrun]
    exact ⟨h', by rw [Option.map_some, hkind, hview]; rfl⟩
  · rw [Spec, if_neg hd] at hspec
    rw [if_neg hd, hspec]
    rfl

theorem pad_agree (buf : Region) (bs : Bytes) {i : ℕ} (hi : i < bs.length) : pad bs i = store buf 0 bs i := by
  simp [pad, store, hi]

/-- A self-contained read is delivered alike whatever came before it. -/
theorem functionOfRead_of_selfContained {r : Read} (h : SelfContained r) : FunctionOfRead r := by
  cases r with
  | failed =>
      exact absurd h id
  | bytes bs hfits =>
      by_cases hne : bs = []
      · subst hne
        exact ⟨.skipped, fun h a _ => ⟨h, rfl⟩⟩
      · obtain ⟨hsize, hc⟩ := h.resolve_left hne
        refine ⟨outOf (fun _ => 0) (fun _ => []) (pad bs), fun h a _ => ?_⟩
        have hagree : ∀ i < wireSize (pad bs), pad bs i = store h.buf 0 bs i := fun i hi =>
          pad_agree h.buf bs (by omega)
        obtain ⟨hsize', hkind, hc', hview⟩ := viewOf_congr hc hagree (fun _ => 0) h.u (fun _ => []) h.heap
        have hd : Decodes (store h.buf 0 bs) := by
          refine ⟨by omega, fun hk _ => ?_⟩
          simp only [Complete, hk] at hc'
          exact hc'.2
        have hturn := turn_eq (h := h) (a := a) (r := .bytes bs hfits) fun _ heq => hne (by cases heq; rfl)
        rw [receive, if_pos hd] at hturn
        obtain ⟨h', hrun⟩ := hturn
        refine ⟨h', ?_⟩
        rw [hrun, outOf, outOf, hkind]
        by_cases hclose : kindOf (pad bs) = .emu80211 .close
        · rw [if_pos hclose, if_pos hclose]
        · rw [if_neg hclose, if_neg hclose, hview hclose]

end Sufficient

section Necessary

variable {bs : Bytes} {hfits : bs.length ≤ bufSize} {r : Read}

theorem kind_close {t o : Bytes} (h : Kind.of t o = .emu80211 .close) : leNat t = 1 ∧ leNat o = 2 := by
  have htype : ∀ n, MsgType.ofCode n = .emu80211 → n = 1 := by
    intro n hn
    unfold MsgType.ofCode at hn
    split at hn <;> simp_all
  have hops : ∀ n, EmuOps.ofCode n = .close → n = 2 := by
    intro n hn
    unfold EmuOps.ofCode at hn
    split at hn <;> simp_all
  unfold Kind.of at h
  cases hk : MsgType.ofCode (leNat t) <;> simp only [hk, reduceCtorEq, Kind.emu80211.injEq] at h
  exact ⟨htype _ hk, hops _ h⟩

/-- Two buffers that give the same output agree on the bytes that the message takes. -/
theorem slice_eq_of_outOf {u u' : Region} {heap heap' : BitVec 64 → Bytes} {m m' : Region}
    (h : outOf u heap m = outOf u' heap' m') :
    slice m 0 (wireSize m) = slice m' 0 (wireSize m') := by
  unfold outOf at h
  by_cases hc : kindOf m = .emu80211 .close <;> by_cases hc' : kindOf m' = .emu80211 .close
  · have htype : slice m 0 4 = slice m' 0 4 :=
      leNat_injective (by simp) ((kind_close hc).1.trans (kind_close hc').1.symm)
    have hops : slice m 4 4 = slice m' 4 4 :=
      leNat_injective (by simp) ((kind_close hc).2.trans (kind_close hc').2.symm)
    have hsplit : ∀ m, slice m 0 8 = slice m 0 4 ++ slice m 4 4 := fun m => (slice_append m 0 4 4).symm
    simp only [wireSize, hc, hc', hsplit, htype, hops]
  · simp [hc, hc'] at h
  · simp [hc, hc'] at h
  · rw [if_neg hc, if_neg hc', Out.delivered.injEq] at h
    rw [← wire_viewOf u heap m, ← wire_viewOf u' heap' m', h]

/-- Every run before a function of the read decodes it alike. -/
theorem outOf_of_functionOfRead (hf : FunctionOfRead r) (hne : ∀ hfits, r ≠ .bytes [] hfits) :
    ∃ out, ∀ h, Reachable h → Decodes (receive r h.buf) ∧ outOf h.u h.heap (receive r h.buf) = out := by
  obtain ⟨out, hout⟩ := hf
  refine ⟨out, fun h hr => ?_⟩
  obtain ⟨h', hrun⟩ := hout h ⟨0, 1, by decide⟩ hr
  have hturn := turn_eq (h := h) (a := ⟨0, 1, by decide⟩) hne
  by_cases hd : Decodes (receive r h.buf)
  · rw [if_pos hd] at hturn
    obtain ⟨h'', hrun'⟩ := hturn
    rw [hrun, Option.some.injEq, Prod.mk.injEq] at hrun'
    exact ⟨hd, hrun'.2.symm⟩
  · rw [if_neg hd, hrun] at hturn
    cases hturn

theorem kindOf_first {m : Region} (h : m 0 = 9) : kindOf m = .bare := by
  have hslice : slice m 0 4 = [m 0, m 1, m 2, m 3] := rfl
  have hlow : ∀ n, 9 ≤ n → MsgType.ofCode n = .other := by
    intro n hn
    unfold MsgType.ofCode
    split <;> first | omega | rfl
  rw [kindOf, hslice, h, Kind.of, leNat, hlow]
  have hnine : (9 : UInt8).toNat = 9 := rfl
  omega

/-- Every content can be left in the buffer, if its first byte is 9. -/
theorem reachable_fill (hb : bs.length ≤ bufSize) (hfirst : bs.head? = some 9) :
    ∃ h, Reachable h ∧ h.buf = pad bs := by
  have hpad : pad bs 0 = 9 := by
    cases bs with
    | nil =>
        cases hfirst
    | cons b bs =>
        cases hfirst
        simp [pad, store]
  have hne : ∀ hfits, Read.bytes bs hb ≠ .bytes [] hfits := by
    intro _ heq
    cases heq
    cases hfirst
  have hkind := kindOf_first hpad
  obtain ⟨h', hh'⟩ : ∃ h' : Handler, h' = Handler.begin { MsgHdlr.init with buf := pad bs } := ⟨_, rfl⟩
  have hrun : dispatch ⟨0, 1, by decide⟩ { MsgHdlr.init with buf := pad bs } = some h' := by
    rw [hh']
    unfold dispatch
    rw [kindOf, Kind.of] at hkind
    split at hkind <;> simp_all [Handler.begin]
  have hopen : h'.kind ≠ .emu80211 .close := by
    rw [hh', Handler.kind]
    have hbare : ∀ o, Kind.of (slice (pad bs) 0 4) o = .bare := kind_bare hkind
    simp [Handler.begin, hbare]
  have hturn : turn MsgHdlr.init ⟨0, 1, by decide⟩ (.bytes bs hb) = some (h', .delivered h'.view) := by
    have hbuf : receive (.bytes bs hb) MsgHdlr.init.buf = pad bs := rfl
    rw [turn_dispatch hne, hbuf, hrun, Option.map_some, if_neg hopen]
  refine ⟨h', Run.single (a := (⟨0, 1, by decide⟩, .bytes bs hb)) trivial ?_, by rw [hh']; rfl⟩
  rw [next, hturn]

/-- A buffer of which byte `n` is left from before. -/
theorem exists_stale {n : ℕ} (hn : 0 < n) (hlt : n < bufSize) (x : UInt8) (hlen : bs.length = n) :
    ∃ h, Reachable h ∧ (∀ i < n, store h.buf 0 bs i = pad bs i) ∧ store h.buf 0 bs n = x ∧
      ∀ i, n < i → store h.buf 0 bs i = 0 := by
  have hfill : (List.replicate n (9 : UInt8) ++ [x]).length ≤ bufSize := by
    simp
    omega
  have hfirst : (List.replicate n (9 : UInt8) ++ [x]).head? = some 9 := by
    cases n with
    | zero =>
        omega
    | succ n =>
        rfl
  obtain ⟨h, hr, hbuf⟩ := reachable_fill hfill hfirst
  refine ⟨h, hr, fun i hi => (pad_agree h.buf bs (by omega)).symm, ?_, ?_⟩
  · rw [hbuf]
    simp [store, pad, hlen]
  · intro i hi
    have hout : ¬ i < n + 1 := by omega
    rw [hbuf]
    simp [store, pad, hlen, hout]
    omega

/-- The message takes no more bytes than were read. -/
theorem wireSize_le_of_functionOfRead (hf : FunctionOfRead (.bytes bs hfits)) (hne : bs ≠ []) :
    wireSize (pad bs) ≤ bs.length := by
  obtain ⟨out, hout⟩ := outOf_of_functionOfRead hf fun _ heq => hne (by cases heq; rfl)
  by_contra hgt
  have hpos : 0 < bs.length := List.length_pos_iff.mpr hne
  have hd := (hout _ (.refl _)).1
  have hlt : bs.length < bufSize := by
    have hle : wireSize (pad bs) ≤ bufSize := hd.1
    omega
  obtain ⟨h₀, hr₀, hlow₀, hat₀, hhigh₀⟩ := exists_stale hpos hlt 0 rfl
  obtain ⟨h₁, hr₁, hlow₁, hat₁, hhigh₁⟩ := exists_stale hpos hlt 1 rfl
  have hpad : store h₀.buf 0 bs = pad bs := by
    funext i
    by_cases hi : i < bs.length
    · exact hlow₀ i hi
    · have hzero : pad bs i = 0 := by
        simp [pad, store, hi]
      by_cases heq : i = bs.length
      · rw [heq, hat₀, ← heq, hzero]
      · rw [hhigh₀ i (by omega), hzero]
  have hsame := slice_eq_of_outOf ((hout h₀ hr₀).2.trans (hout h₁ hr₁).2.symm)
  simp only [receive, hpad] at hsame
  have hlen := congrArg List.length hsame
  rw [length_slice, length_slice] at hlen
  rw [← hlen, slice_eq_iff] at hsame
  have hbyte := hsame bs.length (by omega)
  rw [Nat.zero_add, hat₁, ← hpad, hat₀] at hbyte
  cases hbyte

/-- A notification for an address of sevens. -/
def notification : Bytes :=
  [6, 0, 0, 0, 2, 0, 0, 0, 1, 0, 0, 0, 1, 0, 0, 0, 7, 7, 7, 7, 7, 7, 0, 0, 0, 0, 0, 0]

/-- An object whose fields at 0, 8 and 16 are left from before. -/
theorem exists_staleObject : ∃ h, Reachable h ∧ h.u 0 = 2 ∧ h.u 8 = 1 ∧ h.u 16 = 7 := by
  refine ⟨_, Run.single (a := (⟨0, 1, by decide⟩, .bytes notification (by decide))) trivial rfl, ?_, ?_, ?_⟩
  all_goals rfl

theorem slice_ne {m m' : Region} {off len : ℕ} (hlen : 0 < len) (h : m off ≠ m' off) :
    slice m off len ≠ slice m' off len := by
  intro heq
  exact h (by simpa using slice_eq_iff.mp heq 0 hlen)

/-- A kind with a field that is not decoded shows the object left by the message before. -/
theorem complete_of_outOf {u : Region} (u' : Region) {heap heap' : BitVec 64 → Bytes} {m m' : Region} (hd : Decodes m)
    (hagree : ∀ i < wireSize m, m i = m' i) (h₀ : u 0 ≠ u' 0) (h₈ : u 8 ≠ u' 8) (h₁₆ : u 16 ≠ u' 16)
    (h : outOf u heap m = outOf u' heap' m') : Complete m := by
  have hslice : ∀ off len, off + len ≤ wireSize m → slice m off len = slice m' off len := fun off len hle =>
    slice_congr fun i _ hi => hagree i (by omega)
  have hkind := kindOf_congr hslice
  have hifindex : slice u 8 4 ≠ slice u' 8 4 := slice_ne (by decide) h₈
  cases hk : kindOf m with
  | bare | webconfig | frm80211 =>
      simp [Complete, hk]
  | agent ops =>
      simp [Complete, hk]
  | mac80211 =>
      rw [hk] at hkind
      have hops : slice u 0 4 ≠ slice u' 0 4 := slice_ne (by decide) h₀
      simp [outOf, hk, hkind, viewOf, hops] at h
  | emu80211 ops =>
      rw [hk] at hkind
      cases ops with
      | cmnd =>
          have hbuffer : slice u 8 1024 ≠ slice u' 8 1024 := slice_ne (by decide) h₈
          simp [outOf, hk, hkind, viewOf, Kind.fields, hbuffer] at h
      | tctrl | close | other =>
          simp [Complete, hk]
  | cfg80211 ops =>
      rw [hk] at hkind
      cases ops with
      | none | other =>
          simp [Complete, hk]
      | startAp =>
          by_cases hlong : 32 < ssidLenOf m
          · have hL : ssidLenOf m' = ssidLenOf m := by
              have hsize : wireSize m = 24 := by simp [wireSize, hk, hlong]
              rw [ssidLenOf, ssidLenOf, hslice 16 8 (by omega)]
            have hmac : slice u 16 6 ≠ slice u' 16 6 := slice_ne (by decide) h₁₆
            simp [outOf, hk, hkind, viewOf, hL, hlong, hmac] at h
          · have hshort : ssidLenOf m ≤ 32 := by omega
            simp only [Complete, hk]
            exact ⟨hshort, hd.2 hk hshort⟩
      | addIntf | delIntf | changeIntf | changeBeacon | stopAp | setWiphy =>
          simp [outOf, hk, hkind, viewOf, Kind.fields, ifindex, hifindex] at h

/-- A failed read delivers what the one before left in the buffer. -/
theorem not_functionOfRead_failed : ¬ FunctionOfRead .failed := by
  intro hf
  obtain ⟨out, hout⟩ := outOf_of_functionOfRead hf (by simp)
  obtain ⟨h, hr, hbuf⟩ : ∃ h, Reachable h ∧ h.buf = pad [9] := reachable_fill (by decide) rfl
  have hsame := slice_eq_of_outOf ((hout _ (.refl _)).2.trans (hout h hr).2.symm)
  simp only [receive, hbuf] at hsame
  have hlen := congrArg List.length hsame
  rw [length_slice, length_slice] at hlen
  rw [← hlen, slice_eq_iff] at hsame
  have hbyte := hsame 0 (by have := four_le_wireSize MsgHdlr.init.buf; omega)
  revert hbyte
  decide

theorem selfContained_of_functionOfRead (hf : FunctionOfRead r) : SelfContained r := by
  cases r with
  | failed =>
      exact absurd hf not_functionOfRead_failed
  | bytes bs hfits =>
      by_cases hne : bs = []
      · exact Or.inl hne
      · right
        have hsize := wireSize_le_of_functionOfRead hf hne
        obtain ⟨out, hout⟩ := outOf_of_functionOfRead hf fun _ heq => hne (by cases heq; rfl)
        obtain ⟨h, hr, h₀, h₈, h₁₆⟩ := exists_staleObject
        have hinit := hout _ (.refl _)
        refine ⟨hsize, complete_of_outOf h.u hinit.1 (fun i hi => pad_agree h.buf bs (by omega)) ?_ ?_ ?_
          (hinit.2.trans (hout h hr).2.symm)⟩
        · rw [h₀]
          decide
        · rw [h₈]
          decide
        · rw [h₁₆]
          decide

end Necessary

section Reads

/-- **What is delivered for a read is a function of its bytes alone exactly when the read is
self-contained**: for every history of reads before it and every answer of `malloc`. -/
theorem function_of_read_iff (r : Read) : FunctionOfRead r ↔ SelfContained r :=
  ⟨selfContained_of_functionOfRead, functionOfRead_of_selfContained⟩

/-- A `start_ap` whose SSID length is 33 is delivered with the address of the notification before it. -/
theorem not_functionOfRead_longSsid :
    ¬ FunctionOfRead (.bytes [2, 0, 0, 0, 4, 0, 0, 0, 0, 0, 0, 0, 0, 0, 0, 0, 33, 0, 0, 0, 0, 0, 0, 0] (by decide)) := by
  rintro ⟨out, hout⟩
  obtain ⟨h₁, hrun₁⟩ := hout _ ⟨0, 1, by decide⟩ (.refl _)
  obtain ⟨h₂, hrun₂⟩ := hout _ ⟨0, 1, by decide⟩
    (Run.single (a := (⟨0, 1, by decide⟩, .bytes notification (by decide))) trivial rfl)
  have hsame := (congrArg (Option.map Prod.snd) hrun₁).trans (congrArg (Option.map Prod.snd) hrun₂).symm
  revert hsame
  decide +kernel

end Reads

end OneWifiTestSuite.StaleData
