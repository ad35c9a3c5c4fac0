import OneWifiTestSuite.ByteRegion

/-!
# The radiotap iterator

`ieee80211_radiotap_iterator_init` and `ieee80211_radiotap_iterator_next`, which walk over the arguments of a
radiotap header. Pointers are offsets from the header in 64 bits; no vendor namespaces are registered. `init`
accepts only headers that end inside the captured bytes (`itLen_le_of_init`) and whose chain of bitmaps does
too, so that from there the walk ends. It does not set `_next_ns_data`, which the walk loads behind an argument
that is not defined: only with a value of it far outside the header are other bytes read (`args_spec`).
-/

namespace OneWifiTestSuite.Radiotap

open ByteRegion

/-! ### The iterator -/

section Iterator

/-- `get_unaligned_le16`. -/
def le16 (packet : Bytes) (off : ℕ) : ℕ :=
  leNat ((packet.drop off).take 2)

/-- `get_unaligned_le32`. -/
def le32 (packet : Bytes) (off : ℕ) : ℕ :=
  leNat ((packet.drop off).take 4)

/-- Bit 31 of a bitmap, `IEEE80211_RADIOTAP_EXT`. -/
def HasExt (bitmap : ℕ) : Prop :=
  (bitmap >>> 31) % 2 = 1

instance (bitmap : ℕ) : Decidable (HasExt bitmap) :=
  inferInstanceAs (Decidable (_ = _))

/-- `it_version`, `it_len` and `it_present` of the header. -/
def itVersion (packet : Bytes) : ℕ :=
  leNat (packet.take 1)

def itLen (packet : Bytes) : ℕ :=
  le16 packet 2

def itPresent (packet : Bytes) : ℕ :=
  le32 packet 4

/-- `sizeof(struct ieee80211_radiotap_header)`. -/
def headerSize : ℕ := 8

/-- `rtap_namespace_sizes`: alignment and size of each argument, zero for one that is not defined. -/
def rtapNamespaceSizes : List (ℕ × ℕ) :=
  [(8, 8), (1, 1), (1, 1), (2, 4), (2, 2), (1, 1), (1, 1), (2, 2), (2, 2), (2, 2), (1, 1), (1, 1), (1, 1), (1, 1),
    (2, 2), (2, 2), (1, 1), (1, 1), (0, 0), (1, 3), (4, 8), (2, 12), (8, 12)]

/-- `struct ieee80211_radiotap_iterator`. The current namespace is the radiotap one or `NULL`. -/
structure Iterator where
  maxLength : ℕ
  argIndex : ℕ
  bitmapShifter : ℕ
  arg : BitVec 64
  nextNsData : BitVec 64
  nextBitmap : ℕ
  resetOnExt : Bool
  radiotapNs : Bool
deriving DecidableEq, Repr

/-- `this_arg_index` and `this_arg`. -/
structure Arg where
  index : ℕ
  off : BitVec 64
deriving DecidableEq, Repr

/-- The start of the payload behind the extended bitmaps, with the number of bitmaps that there is room for. -/
def skipBitmaps (packet : Bytes) : (room arg : ℕ) → Option ℕ
  | 0, _ => none
  | room + 1, arg => if HasExt (le32 packet arg) then skipBitmaps packet room (arg + 4) else some (arg + 4)

def payloadStart (packet : Bytes) : Option ℕ :=
  if HasExt (itPresent packet) then skipBitmaps packet ((itLen packet - headerSize) / 4) headerSize
  else some headerSize

/-- `ieee80211_radiotap_iterator_init`, whose `max_length` is an `int`; `_next_ns_data` keeps its value. -/
def init (nextNsData : BitVec 64) (packet : Bytes) (maxLength : ℤ) : Option Iterator :=
  if maxLength < headerSize then none
  else if itVersion packet ≠ 0 then none
  else if maxLength < itLen packet then none
  else (payloadStart packet).map fun arg =>
    { maxLength := itLen packet, argIndex := 0, bitmapShifter := itPresent packet, arg := BitVec.ofNat 64 arg,
      nextNsData := nextNsData, nextBitmap := headerSize, resetOnExt := false, radiotapNs := true }

/-- `next_entry`. -/
def Iterator.nextEntry (it : Iterator) : Iterator :=
  { it with bitmapShifter := it.bitmapShifter / 2, argIndex := it.argIndex + 1 }

/-- What the bit of an argument says of its data: nothing more is known, it is skipped, or how it lies. -/
inductive Layout
  | stop
  | skip
  | data (align size : ℕ)
deriving DecidableEq, Repr

def Iterator.layout (it : Iterator) : Layout :=
  if it.argIndex % 32 = 29 ∨ it.argIndex % 32 = 31 then .data 1 0
  else if it.argIndex % 32 = 30 then .data 2 6
  else if it.radiotapNs = false then .skip
  else
    match rtapNamespaceSizes[it.argIndex]? with
    | none => .stop
    | some (align, size) => if align = 0 then .skip else .data align size

/-- The end of one turn of the loop of `ieee80211_radiotap_iterator_next`: it returns an error, or an argument,
or goes on. A read outside the captured bytes is a fault. -/
inductive Turn
  | stop
  | hit (a : Arg) (it : Iterator)
  | again (it : Iterator)
  | fault
deriving DecidableEq, Repr

/-- The data of a present argument, at its aligned place. -/
def Iterator.data (packet : Bytes) (it : Iterator) (arg : BitVec 64) (size : ℕ) : Turn :=
  if it.maxLength < (arg + BitVec.ofNat 64 size).toNat then .stop
  else if it.argIndex % 32 = 30 then
    if packet.length < arg.toNat + size then .fault
    else
      let nextNsData := arg + BitVec.ofNat 64 (size + le16 packet (arg.toNat + 4))
      if it.maxLength < nextNsData.toNat then .stop
      else
        .hit ⟨30, arg⟩
          { it with arg := nextNsData, nextNsData := nextNsData, radiotapNs := false, resetOnExt := true }.nextEntry
  else
    let next := arg + BitVec.ofNat 64 size
    if it.argIndex % 32 = 29 then .again { it with arg := next, radiotapNs := true, resetOnExt := true }.nextEntry
    else if it.argIndex % 32 = 31 then
      if packet.length < it.nextBitmap + 4 then .fault
      else
        .again
          { it with
            arg := next
            bitmapShifter := le32 packet it.nextBitmap
            nextBitmap := it.nextBitmap + 4
            argIndex := if it.resetOnExt then 0 else it.argIndex + 1
            resetOnExt := false }
    else .hit ⟨it.argIndex, arg⟩ { it with arg := next }.nextEntry

/-- The place of an argument. -/
def Iterator.aligned (it : Iterator) (align : ℕ) : BitVec 64 :=
  it.arg + BitVec.ofNat 64 ((align - it.arg.toNat % align) % align)

/-- One turn of the loop of `ieee80211_radiotap_iterator_next`. -/
def Iterator.turn (packet : Bytes) (it : Iterator) : Turn :=
  if it.bitmapShifter % 2 = 0 then
    if it.argIndex % 32 = 31 then .stop else .again it.nextEntry
  else
    match it.layout with
    | .stop => .stop
    | .skip => .again { it with arg := it.nextNsData, radiotapNs := false }.nextEntry
    | .data align size => it.data packet (it.aligned align) size

/-- The turns that are left before the bitmaps leave the captured bytes. -/
def Iterator.turnsLeft (packet : Bytes) (it : Iterator) : ℕ :=
  32 * (packet.length - it.nextBitmap) + (32 - it.argIndex % 32)

/-- The arguments that the calls return, and whether a fault ends them or a call that returns an error. -/
structure Args where
  list : List Arg
  faults : Bool
deriving DecidableEq, Repr

/-- The calls, for some turns of their loops. -/
def argsFrom (packet : Bytes) : ℕ → Iterator → Option Args
  | 0, _ => none
  | fuel + 1, it =>
      match it.turn packet with
      | .stop => some ⟨[], false⟩
      | .hit a it => (argsFrom packet fuel it).map fun r => { r with list := a :: r.list }
      | .again it => argsFrom packet fuel it
      | .fault => some ⟨[], true⟩

def args (packet : Bytes) (it : Iterator) : Option Args :=
  argsFrom packet (it.turnsLeft packet + 1) it

end Iterator

/-! ### The walk -/

section Walk

variable {packet : Bytes} {it : Iterator}

/-- From the bitmap before `nextBitmap` on, each one that announces another is followed by one inside `stop`. -/
inductive Chain (packet : Bytes) (stop : ℕ) : ℕ → Prop
  | last {nextBitmap : ℕ} : ¬ HasExt (le32 packet (nextBitmap - 4)) → Chain packet stop nextBitmap
  | more {nextBitmap : ℕ} : nextBitmap + 4 ≤ stop → Chain packet stop (nextBitmap + 4) →
      Chain packet stop nextBitmap

/-- The iterator stands in a bitmap whose chain ends inside the header, and the header inside the packet. -/
structure Iterator.Placed (packet : Bytes) (it : Iterator) : Prop where
  maxLength : it.maxLength ≤ packet.length
  maxLength_lt : it.maxLength < 2 ^ 32
  chain : Chain packet it.maxLength it.nextBitmap
  shifter : it.bitmapShifter = le32 packet (it.nextBitmap - 4) >>> (it.argIndex % 32)

theorem Chain.room {stop nextBitmap : ℕ} (h : Chain packet stop nextBitmap)
    (hext : HasExt (le32 packet (nextBitmap - 4))) :
    nextBitmap + 4 ≤ stop ∧ Chain packet stop (nextBitmap + 4) := by
  cases h with
  | last hlast => exact absurd hext hlast
  | more hroom hchain => exact ⟨hroom, hchain⟩

/-- The pointers do not wrap around within an argument. -/
structure Iterator.Near (it : Iterator) : Prop where
  arg : it.arg.toNat < 2 ^ 32
  nextNsData : it.nextNsData.toNat < 2 ^ 32

/-- What a turn leaves: a placed iterator with fewer turns left. From near pointers it reads captured bytes, and
leaves near pointers and arguments inside the header. -/
def Turn.Good (packet : Bytes) (it : Iterator) : Turn → Prop
  | .stop => True
  | .fault => ¬ it.Near
  | .again it' => (it'.Placed packet ∧ it'.turnsLeft packet < it.turnsLeft packet) ∧ (it.Near → it'.Near)
  | .hit a it' => (it'.Placed packet ∧ it'.turnsLeft packet < it.turnsLeft packet) ∧
      (it.Near → it'.Near ∧ (a.index = 1 → a.off.toNat < packet.length))

/-- Near the header an argument ends where its size says. -/
theorem toNat_add_size {arg : BitVec 64} (h : arg.toNat < 2 ^ 33) {size : ℕ} (hsize : size < 2 ^ 33) :
    (arg + BitVec.ofNat 64 size).toNat = arg.toNat + size := by
  rw [BitVec.toNat_add, BitVec.toNat_ofNat]
  omega

theorem Iterator.Near.aligned (h : it.Near) {align : ℕ} (halign : 0 < align) (hle : align ≤ 8) :
    (it.aligned align).toNat < 2 ^ 33 := by
  have hpad := Nat.mod_lt (align - it.arg.toNat % align) halign
  have harg := h.arg
  rw [Iterator.aligned, toNat_add_size (by omega) (by omega)]
  omega

theorem layout_bounds {align size : ℕ} (h : it.layout = .data align size) :
    0 < align ∧ align ≤ 8 ∧ size < 16 := by
  have htable : ∀ e ∈ rtapNamespaceSizes, e.1 ≤ 8 ∧ e.2 < 16 := by decide
  unfold Iterator.layout at h
  split_ifs at h
  · cases h
    omega
  · cases h
    omega
  · cases hget : rtapNamespaceSizes[it.argIndex]? with
    | none =>
        rw [hget] at h
        cases h
    | some e =>
        obtain ⟨a, z⟩ := e
        have hbound := htable _ (List.mem_of_getElem? hget)
        simp only [hget] at h
        split_ifs at h
        cases h
        exact ⟨by omega, hbound⟩

theorem Iterator.Placed.nextEntry (h : it.Placed packet) (hlast : it.argIndex % 32 ≠ 31)
    (it' : Iterator) (hmax : it'.maxLength = it.maxLength) (hindex : it'.argIndex = it.argIndex)
    (hshifter : it'.bitmapShifter = it.bitmapShifter) (hnext : it'.nextBitmap = it.nextBitmap) :
    it'.nextEntry.Placed packet ∧ it'.nextEntry.turnsLeft packet < it.turnsLeft packet := by
  have hsucc : (it.argIndex + 1) % 32 = it.argIndex % 32 + 1 := by omega
  refine ⟨⟨?_, ?_, ?_, ?_⟩, ?_⟩
  · show it'.maxLength ≤ packet.length
    rw [hmax]
    exact h.maxLength
  · show it'.maxLength < 2 ^ 32
    rw [hmax]
    exact h.maxLength_lt
  · show Chain packet it'.maxLength it'.nextBitmap
    rw [hmax, hnext]
    exact h.chain
  · show it'.bitmapShifter / 2 = le32 packet (it'.nextBitmap - 4) >>> ((it'.argIndex + 1) % 32)
    rw [hshifter, hnext, hindex, hsucc, h.shifter, Nat.shiftRight_succ]
  · show 32 * (packet.length - it'.nextBitmap) + (32 - (it'.argIndex + 1) % 32) < it.turnsLeft packet
    unfold Iterator.turnsLeft
    rw [hnext, hindex, hsucc]
    omega

theorem size_of_flags {it : Iterator} (h : it.argIndex = 1) {align size : ℕ} (hlayout : it.layout = .data align size) :
    size = 1 := by
  unfold Iterator.layout at hlayout
  rw [h] at hlayout
  cases hns : it.radiotapNs with
  | false => simp [hns] at hlayout
  | true =>
      simp [hns, rtapNamespaceSizes] at hlayout
      exact hlayout.2.symm

theorem data_good (h : it.Placed packet) (hbit : it.bitmapShifter % 2 = 1) {align size : ℕ}
    (hlayout : it.layout = .data align size) : (it.data packet (it.aligned align) size).Good packet it := by
  obtain ⟨halign, hle, hsize⟩ := layout_bounds hlayout
  have hfits : it.Near → (it.aligned align + BitVec.ofNat 64 size).toNat = (it.aligned align).toNat + size :=
    fun hnear => toNat_add_size (hnear.aligned halign hle) (by omega)
  generalize it.aligned align = arg at hfits
  unfold Iterator.data
  by_cases hmax : it.maxLength < (arg + BitVec.ofNat 64 size).toNat
  · rw [if_pos hmax]
    trivial
  rw [if_neg hmax]
  have hbound := h.maxLength
  have hshort := h.maxLength_lt
  have hnext : it.Near → (arg + BitVec.ofNat 64 size).toNat < 2 ^ 32 := fun _ => by omega
  by_cases hvendor : it.argIndex % 32 = 30
  · rw [if_pos hvendor]
    by_cases houtside : packet.length < arg.toNat + size
    · rw [if_pos houtside]
      intro hnear
      have := hfits hnear
      omega
    rw [if_neg houtside]
    by_cases hns : it.maxLength < (arg + BitVec.ofNat 64 (size + le16 packet (arg.toNat + 4))).toNat
    · simp only [if_pos hns]
      trivial
    · simp only [if_neg hns]
      refine ⟨h.nextEntry (by omega) _ rfl rfl rfl rfl, fun _ => ⟨⟨?_, ?_⟩, by simp⟩⟩
      · exact (Nat.le_of_not_lt hns).trans_lt hshort
      · exact (Nat.le_of_not_lt hns).trans_lt hshort
  rw [if_neg hvendor]
  dsimp only
  by_cases hradiotap : it.argIndex % 32 = 29
  · rw [if_pos hradiotap]
    exact ⟨h.nextEntry (by omega) _ rfl rfl rfl rfl, fun hnear => ⟨hnext hnear, hnear.nextNsData⟩⟩
  rw [if_neg hradiotap]
  by_cases hlast : it.argIndex % 32 = 31
  · rw [if_pos hlast]
    have hext : HasExt (le32 packet (it.nextBitmap - 4)) := by
      unfold HasExt
      rw [← hlast, ← h.shifter]
      exact hbit
    obtain ⟨hroom, hchain⟩ := h.chain.room hext
    rw [if_neg (by omega)]
    have hindex : (if it.resetOnExt then 0 else it.argIndex + 1) % 32 = 0 := by
      split <;> omega
    refine ⟨⟨⟨hbound, hshort, hchain, ?_⟩, ?_⟩, fun hnear => ⟨hnext hnear, hnear.nextNsData⟩⟩
    · simp [hindex]
    · unfold Iterator.turnsLeft
      simp only [hindex]
      omega
  · rw [if_neg hlast]
    refine ⟨h.nextEntry hlast _ rfl rfl rfl rfl, fun hnear => ⟨⟨hnext hnear, hnear.nextNsData⟩, fun hflags => ?_⟩⟩
    have hone := size_of_flags hflags hlayout
    have := hfits hnear
    show arg.toNat < packet.length
    omega

theorem turn_good (h : it.Placed packet) : (it.turn packet).Good packet it := by
  unfold Iterator.turn
  by_cases hbit : it.bitmapShifter % 2 = 0
  · rw [if_pos hbit]
    by_cases hlast : it.argIndex % 32 = 31
    · rw [if_pos hlast]
      trivial
    · rw [if_neg hlast]
      exact ⟨h.nextEntry hlast _ rfl rfl rfl rfl, fun hnear => ⟨hnear.arg, hnear.nextNsData⟩⟩
  · rw [if_neg hbit]
    cases hlayout : it.layout with
    | stop => trivial
    | skip =>
        have hlast : it.argIndex % 32 ≠ 31 := by
          intro hlast
          simp [Iterator.layout, hlast] at hlayout
        exact ⟨h.nextEntry hlast _ rfl rfl rfl rfl, fun hnear => ⟨hnear.nextNsData, hnear.nextNsData⟩⟩
    | data align size => exact data_good h (by omega) hlayout

/-- The walk ends. From near pointers it ends without a fault, and its flags lie inside the packet. -/
theorem argsFrom_eq_some (fuel : ℕ) (h : it.Placed packet) (hfuel : it.turnsLeft packet < fuel) :
    ∃ r, argsFrom packet fuel it = some r ∧
      (it.Near → r.faults = false ∧ ∀ a ∈ r.list, a.index = 1 → a.off.toNat < packet.length) := by
  induction fuel generalizing it with
  | zero => omega
  | succ fuel ih =>
      have hgood := turn_good h
      unfold argsFrom
      cases hturn : it.turn packet with
      | stop => exact ⟨⟨[], false⟩, rfl, fun _ => ⟨rfl, by simp⟩⟩
      | fault =>
          rw [hturn] at hgood
          exact ⟨⟨[], true⟩, rfl, fun hnear => absurd hnear hgood⟩
      | again it' =>
          rw [hturn] at hgood
          obtain ⟨⟨hplaced, hless⟩, hkeeps⟩ := hgood
          obtain ⟨r, hr, hin⟩ := ih hplaced (by omega)
          exact ⟨r, hr, fun hnear => hin (hkeeps hnear)⟩
      | hit a it' =>
          rw [hturn] at hgood
          obtain ⟨⟨hplaced, hless⟩, hkeeps⟩ := hgood
          obtain ⟨r, hr, hin⟩ := ih hplaced (by omega)
          refine ⟨{ r with list := a :: r.list }, by simp [hr], fun hnear => ?_⟩
          obtain ⟨hnear', hoff⟩ := hkeeps hnear
          obtain ⟨hends, hlist⟩ := hin hnear'
          refine ⟨hends, fun b hb => ?_⟩
          rcases List.mem_cons.mp hb with rfl | hb
          · exact hoff
          · exact hlist b hb

end Walk

/-! ### The start -/

section Start

variable {packet : Bytes} {it : Iterator} {maxLength : ℤ} {nextNsData : BitVec 64}

theorem chain_of_skipBitmaps {room arg start : ℕ} (h : skipBitmaps packet room arg = some start) (stop : ℕ)
    (hroom : arg + 4 * room ≤ stop) : Chain packet stop arg := by
  induction room generalizing arg with
  | zero => simp [skipBitmaps] at h
  | succ room ih =>
      refine .more (by omega) ?_
      unfold skipBitmaps at h
      by_cases hext : HasExt (le32 packet arg)
      · rw [if_pos hext] at h
        exact ih h (by omega)
      · exact .last hext

theorem chain_of_payloadStart {start : ℕ} (h : payloadStart packet = some start) :
    Chain packet (itLen packet) headerSize := by
  unfold payloadStart at h
  by_cases hext : HasExt (itPresent packet)
  · rw [if_pos hext] at h
    apply chain_of_skipBitmaps h
    have hne : (itLen packet - headerSize) / 4 ≠ 0 := by
      intro hzero
      rw [hzero] at h
      simp [skipBitmaps] at h
    omega
  · exact .last hext

theorem init_cases (h : init nextNsData packet maxLength = some it) :
    (headerSize : ℤ) ≤ maxLength ∧ itVersion packet = 0 ∧ (itLen packet : ℤ) ≤ maxLength ∧
      ∃ start, payloadStart packet = some start ∧
        it = ⟨itLen packet, 0, itPresent packet, BitVec.ofNat 64 start, nextNsData, headerSize, false, true⟩ := by
  unfold init at h
  split_ifs at h with hsize hversion hlen
  obtain ⟨start, hstart, rfl⟩ := Option.map_eq_some_iff.mp h
  exact ⟨by omega, by simpa using hversion, by omega, start, hstart, rfl⟩

theorem itLen_le_of_init (h : init nextNsData packet maxLength = some it) : (itLen packet : ℤ) ≤ maxLength :=
  (init_cases h).2.2.1

theorem itLen_lt (packet : Bytes) : itLen packet < 2 ^ 16 := by
  unfold itLen le16
  have hlen : ((packet.drop 2).take 2).length ≤ 2 := List.length_take_le _ _
  match hbytes : (packet.drop 2).take 2 with
  | [] => simp [leNat]
  | [a] =>
      have ha := a.toNat_lt
      simp only [leNat]
      omega
  | [a, b] =>
      have ha := a.toNat_lt
      have hb := b.toNat_lt
      simp only [leNat]
      omega
  | a :: b :: d :: rest => simp [hbytes] at hlen

theorem skipBitmaps_le {room arg start : ℕ} (h : skipBitmaps packet room arg = some start) :
    start ≤ arg + 4 * room := by
  induction room generalizing arg with
  | zero => simp [skipBitmaps] at h
  | succ room ih =>
      unfold skipBitmaps at h
      split_ifs at h
      · have := ih h
        omega
      · cases h
        omega

theorem payloadStart_lt {start : ℕ} (h : payloadStart packet = some start) : start < 2 ^ 32 := by
  have hlen := itLen_lt packet
  unfold payloadStart at h
  split_ifs at h
  · have := skipBitmaps_le h
    simp only [headerSize] at this
    omega
  · cases h
    decide

theorem placed_of_init (h : init nextNsData packet maxLength = some it) (hmax : maxLength ≤ packet.length) :
    it.Placed packet := by
  obtain ⟨-, -, hlen, start, hstart, rfl⟩ := init_cases h
  have hlt := itLen_lt packet
  refine ⟨?_, ?_, chain_of_payloadStart hstart, rfl⟩
  · show itLen packet ≤ packet.length
    omega
  · show itLen packet < 2 ^ 32
    omega

theorem near_of_init (h : init nextNsData packet maxLength = some it) (hnear : nextNsData.toNat < 2 ^ 32) :
    it.Near := by
  obtain ⟨-, -, -, start, hstart, rfl⟩ := init_cases h
  have hlt := payloadStart_lt hstart
  refine ⟨?_, hnear⟩
  show (BitVec.ofNat 64 start).toNat < 2 ^ 32
  rw [BitVec.toNat_ofNat]
  omega

/-- **From an accepted header the walk over the arguments ends. It reads only captured bytes when the old value
of `_next_ns_data` is not far behind the header.** -/
theorem args_spec (h : init nextNsData packet maxLength = some it) (hmax : maxLength ≤ packet.length) :
    ∃ r, args packet it = some r ∧ (nextNsData.toNat < 2 ^ 32 →
      r.faults = false ∧ ∀ a ∈ r.list, a.index = 1 → a.off.toNat < packet.length) := by
  obtain ⟨r, hr, hin⟩ := argsFrom_eq_some (it.turnsLeft packet + 1) (placed_of_init h hmax) (Nat.lt_succ_self _)
  exact ⟨r, hr, fun hnear => hin (near_of_init h hnear)⟩

end Start

end OneWifiTestSuite.Radiotap
