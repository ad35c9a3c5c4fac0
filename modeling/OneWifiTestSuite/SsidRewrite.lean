import OneWifiTestSuite.Buffers
import OneWifiTestSuite.Elements

/-!
# A new SSID for a request

`construct_assoc_request` and `construct_probe_request` put the SSID of an access point into a captured
frame. Both walk over the elements behind the fixed part of the frame to the first SSID element, and copy
the frame around it into a new buffer; only the length of the fixed part differs.

Sizes are `size_t` with its wrap, and every access is checked. `Outcome` says what a call comes to in terms
of the elements of the frame; that every call comes to its outcome is `constructs_replace`.
-/

namespace OneWifiTestSuite.SsidRewrite

open ByteRegion Buffers Elements

/-! ### The code -/

section Code

abbrev SizeT := BitVec 64

/-- A conversion to `size_t`. -/
def size (n : ℕ) : SizeT :=
  BitVec.ofNat 64 n

/-- The objects of a call: the frame, the new SSID, `updated_mgmt_bytes`, and the frame that replaces the
old one. -/
inductive Buf
  | frame
  | newSsid
  | updated
  | replaced
deriving DecidableEq

inductive Error
  | null
  | ssidTooLong
  | tooShort
  | malformed
  | ssidNotFound
  | noMemory
deriving DecidableEq

/-- The memory and the two variables of the caller, `*mgmt_ptr` and `*mgmt_len`. -/
structure State where
  heap : Heap Buf
  mgmt : Option Buf
  mgmtLen : SizeT

/-- The answers of `malloc`, with what it leaves in the memory, and of `calloc`. -/
structure Memory where
  malloc : Bool
  calloc : Bool
  junk : ℕ → UInt8

/-- How the walk ends. -/
inductive Walk
  | malformed
  | ended
  | found (cursor : SizeT)
deriving DecidableEq

/-- The loop over the elements at `ie_ptr`, in at most `fuel` turns. -/
def walk (iePtr : SizeT → Option UInt8) (remainingLen : SizeT) : ℕ → SizeT → Option Walk
  | 0, _ => none
  | fuel + 1, cursor =>
      if cursor + 2 ≤ remainingLen then do
        let eid ← iePtr cursor
        let len ← iePtr (cursor + 1)
        if remainingLen < cursor + 2 + size len.toNat then some .malformed
        else if eid = 0 then some (.found cursor)
        else walk iePtr remainingLen fuel (cursor + (2 + size len.toNat))
      else some .ended

/-- The frame is copied around its SSID element at `cursor`. -/
def replace (offset : SizeT) (mem : Memory) (s : State) (mgmt ssid : Buf) (newSsidLen cursor : SizeT) :
    Option (State × Except Error Unit) := do
  let remainingLen := s.mgmtLen - offset
  let oldLen ← load s.heap mgmt (offset + (cursor + 1)).toNat
  let originalSsidIeLen := 2 + size oldLen.toNat
  let newIeLen := 2 + newSsidLen
  let newMgmtLen := s.mgmtLen - originalSsidIeLen + newIeLen
  if mem.malloc = false then some (s, .error .noMemory)
  else
    let heap := alloc s.heap .updated ((List.range newMgmtLen.toNat).map mem.junk)
    let heap ← memcpy heap .updated 0 mgmt 0 (offset + cursor).toNat
    let heap ← put heap .updated (offset + cursor).toNat [0]
    let heap ← put heap .updated (offset + cursor + 1).toNat [UInt8.ofNat newSsidLen.toNat]
    let heap ← memcpy heap .updated (offset + cursor + 2).toNat ssid 0 newSsidLen.toNat
    let tailStart := cursor + originalSsidIeLen
    let tailLen := remainingLen - tailStart
    let heap ← memcpy heap .updated (offset + cursor + 2 + newSsidLen).toNat mgmt (offset + tailStart).toNat
      tailLen.toNat
    let heap ← free heap mgmt
    if mem.calloc = false then
      let heap ← free heap .updated
      some ({ s with heap, mgmt := none }, .error .noMemory)
    else
      let heap := alloc heap .replaced (List.replicate newMgmtLen.toNat 0)
      let heap ← memcpy heap .replaced 0 .updated 0 newMgmtLen.toNat
      let heap ← free heap .updated
      some ({ heap, mgmt := some .replaced, mgmtLen := newMgmtLen }, .ok ())

/-- What follows the walk. -/
def conclude (offset : SizeT) (mem : Memory) (s : State) (mgmt ssid : Buf) (newSsidLen : SizeT) :
    Walk → Option (State × Except Error Unit)
  | .malformed => some (s, .error .malformed)
  | .ended => some (s, .error .ssidNotFound)
  | .found cursor => replace offset mem s mgmt ssid newSsidLen cursor

/-- What the two functions share; `none` is an access outside a buffer, or a walk of more than `fuel`
turns. -/
def construct (offset : SizeT) (maxSsidLen : ℕ) (mem : Memory) (fuel : ℕ) (s : State) (newSsid : Option Buf) :
    Option (State × Except Error Unit) :=
  match s.mgmt, newSsid with
  | some mgmt, some ssid => do
      let newSsidLen := size (← strlen s.heap ssid)
      if size maxSsidLen < newSsidLen then some (s, .error .ssidTooLong)
      else if s.mgmtLen < offset then some (s, .error .tooShort)
      else
        let stop ← walk (fun i => load s.heap mgmt (offset + i).toNat) (s.mgmtLen - offset) fuel 0
        conclude offset mem s mgmt ssid newSsidLen stop
  | _, _ => some (s, .error .null)

/-- `construct_assoc_request`; `assocVariable` is the offset of `u.assoc_req.variable`. -/
def constructAssocRequest (assocVariable : SizeT) (maxSsidLen : ℕ) (mem : Memory) :
    ℕ → State → Option Buf → Option (State × Except Error Unit) :=
  construct assocVariable maxSsidLen mem

/-- `construct_probe_request`. -/
def constructProbeRequest (maxSsidLen : ℕ) (mem : Memory) :
    ℕ → State → Option Buf → Option (State × Except Error Unit) :=
  construct 24 maxSsidLen mem

end Code

/-! ### What a call comes to -/

section Outcomes

/-- What a call is given: a frame, and a string in an array. No object is longer than `PTRDIFF_MAX`. -/
structure Call where
  frame : Bytes
  frame_lt : frame.length < 2 ^ 63
  ssid : Bytes
  zero_notMem : 0 ∉ ssid
  behind : Bytes
  array_lt : (ssid ++ 0 :: behind).length < 2 ^ 63

/-- The memory of a call, apart from its frame. -/
def Call.around (c : Call) : Heap Buf
  | .newSsid => some (c.ssid ++ 0 :: c.behind)
  | _ => none

def Call.start (c : Call) : State :=
  ⟨alloc c.around .frame c.frame, some .frame, size c.frame.length⟩

/-- After an error all is as before; else only the new frame is left of it, with its length. -/
def Call.after (c : Call) : Except Error Bytes → State × Except Error Unit
  | .error e => (c.start, .error e)
  | .ok frame => (⟨alloc c.around .replaced frame, some .replaced, size frame.length⟩, .ok ())

/-- What a call comes to: the frame with its first SSID element replaced, or an error. -/
inductive Outcome (offset maxSsidLen : ℕ) (c : Call) : Except Error Bytes → Prop
  | ssidTooLong (h : maxSsidLen < c.ssid.length) : Outcome offset maxSsidLen c (.error .ssidTooLong)
  | tooShort (h : c.ssid.length ≤ maxSsidLen) (hshort : c.frame.length < offset) :
      Outcome offset maxSsidLen c (.error .tooShort)
  | malformed (fixed : Bytes) (es : List Element) (id len : UInt8) (rest : Bytes)
      (h : c.ssid.length ≤ maxSsidLen) (hfixed : fixed.length = offset) (hes : ∀ e ∈ es, e.id ≠ 0)
      (hcut : rest.length < len.toNat) (hframe : c.frame = fixed ++ bytesOf es ++ id :: len :: rest) :
      Outcome offset maxSsidLen c (.error .malformed)
  | ssidNotFound (fixed : Bytes) (es : List Element) (rest : Bytes)
      (h : c.ssid.length ≤ maxSsidLen) (hfixed : fixed.length = offset) (hes : ∀ e ∈ es, e.id ≠ 0)
      (hend : rest.length < 2) (hframe : c.frame = fixed ++ bytesOf es ++ rest) :
      Outcome offset maxSsidLen c (.error .ssidNotFound)
  | replaced (fixed : Bytes) (es : List Element) (old new : Element) (post : Bytes)
      (h : c.ssid.length ≤ maxSsidLen) (hfixed : fixed.length = offset) (hes : ∀ e ∈ es, e.id ≠ 0)
      (hold : old.id = 0) (hframe : c.frame = fixed ++ bytesOf es ++ old.bytes ++ post)
      (hnew : new.id = 0) (hbody : new.body = c.ssid) :
      Outcome offset maxSsidLen c (.ok (fixed ++ bytesOf es ++ new.bytes ++ post))

/-- The call has an outcome, and comes to it within any number of turns beyond the length of the frame. -/
structure Replaces (construct : ℕ → State → Option Buf → Option (State × Except Error Unit))
    (offset maxSsidLen : ℕ) (c : Call) : Prop where
  total : ∃ out, Outcome offset maxSsidLen c out
  agrees : ∀ out, Outcome offset maxSsidLen c out → ∀ fuel, c.frame.length < fuel →
    construct fuel c.start (some .newSsid) = some (c.after out)

end Outcomes

/-! ### Sizes -/

section Sizes

variable {a b : SizeT} {m n : ℕ}

theorem toNat_size (h : n < 2 ^ 64) : (size n).toNat = n :=
  (BitVec.toNat_ofNat n 64).trans (Nat.mod_eq_of_lt h)

theorem size_toNat (a : SizeT) : size a.toNat = a := by
  rw [size, BitVec.ofNat_toNat, BitVec.setWidth_eq]

theorem toNat_add_of_lt (ha : a.toNat = m) (hb : b.toNat = n) (h : m + n < 2 ^ 64) : (a + b).toNat = m + n := by
  rw [BitVec.toNat_add, ha, hb, Nat.mod_eq_of_lt h]

theorem toNat_sub_of_le (ha : a.toNat = m) (hb : b.toNat = n) (h : n ≤ m) : (a - b).toNat = m - n := by
  rw [BitVec.toNat_sub_of_le (BitVec.le_def.mpr (by omega)), ha, hb]

end Sizes

/-! ### The walk -/

section Walks

/-- The walk reads these bytes. -/
structure Reads (iePtr : SizeT → Option UInt8) (remainingLen : SizeT) (ies : Bytes) : Prop where
  read : ∀ front c back (i : SizeT), ies = front ++ c :: back → i.toNat = front.length → iePtr i = some c
  length_eq : remainingLen.toNat = ies.length
  length_lt : ies.length < 2 ^ 63

variable {iePtr : SizeT → Option UInt8} {remainingLen cursor : SizeT} {ies front rest : Bytes}

/-- One turn at two bytes that begin an element. -/
theorem walk_turn {id len : UInt8} (r : Reads iePtr remainingLen (front ++ id :: len :: rest))
    (hc : cursor.toNat = front.length) (fuel : ℕ) : walk iePtr remainingLen (fuel + 1) cursor =
      if rest.length < len.toNat then some .malformed
      else if id = 0 then some (.found cursor)
      else walk iePtr remainingLen fuel (cursor + (2 + size len.toNat)) := by
  have hrem := r.length_eq
  have hlt := r.length_lt
  simp only [List.length_append, List.length_cons] at hrem hlt
  have hlen := len.toNat_lt
  have hnext : (cursor + 1).toNat = front.length + 1 := toNat_add_of_lt hc rfl (by omega)
  have hbody : (cursor + 2).toNat = front.length + 2 := toNat_add_of_lt hc rfl (by omega)
  have hend : (cursor + 2 + size len.toNat).toNat = front.length + 2 + len.toNat :=
    toNat_add_of_lt hbody (toNat_size (by omega)) (by omega)
  have hid : iePtr cursor = some id := r.read front id (len :: rest) cursor rfl hc
  have hlen' : iePtr (cursor + 1) = some len :=
    r.read (front ++ [id]) len rest (cursor + 1) (by simp) (by rw [hnext, List.length_append, List.length_singleton])
  have hin : cursor + 2 ≤ remainingLen := by
    rw [BitVec.le_def, hbody, hrem]
    omega
  have hcut : remainingLen < cursor + 2 + size len.toNat ↔ rest.length < len.toNat := by
    rw [BitVec.lt_def, hend, hrem]
    omega
  simp only [walk, if_pos hin, hid, hlen', Option.bind_eq_bind, Option.bind_some, hcut]

/-- A turn at the end. -/
theorem walk_ended (r : Reads iePtr remainingLen (front ++ rest)) (hc : cursor.toNat = front.length)
    (hrest : rest.length < 2) (fuel : ℕ) : walk iePtr remainingLen (fuel + 1) cursor = some .ended := by
  have hrem := r.length_eq
  have hlt := r.length_lt
  rw [List.length_append] at hrem hlt
  have hbody : (cursor + 2).toNat = front.length + 2 := toNat_add_of_lt hc rfl (by omega)
  have hout : ¬ cursor + 2 ≤ remainingLen := by
    rw [BitVec.le_def, hbody, hrem]
    omega
  rw [walk, if_neg hout]

/-- The walk passes an element that is no SSID. -/
theorem walk_element {e : Element} (r : Reads iePtr remainingLen (front ++ e.bytes ++ rest))
    (hc : cursor.toNat = front.length) (he : e.id ≠ 0) (fuel : ℕ) :
    ∃ cursor' : SizeT, cursor'.toNat = (front ++ e.bytes).length ∧
      walk iePtr remainingLen (fuel + 1) cursor = walk iePtr remainingLen fuel cursor' := by
  have hlt := r.length_lt
  simp only [List.length_append, length_bytes] at hlt
  have hshape : front ++ e.bytes ++ rest = front ++ e.id :: UInt8.ofNat e.body.length :: (e.body ++ rest) := by
    simp [Element.bytes]
  rw [hshape] at r
  have hbody : ¬ (e.body ++ rest).length < (UInt8.ofNat e.body.length).toNat := by
    rw [toNat_length, List.length_append]
    omega
  refine ⟨cursor + (2 + size (UInt8.ofNat e.body.length).toNat), ?_, ?_⟩
  · have hstep : (2 + size (UInt8.ofNat e.body.length).toNat).toNat = 2 + e.body.length := by
      rw [toNat_length]
      exact toNat_add_of_lt rfl (toNat_size (by omega)) (by omega)
    rw [toNat_add_of_lt hc hstep (by omega), List.length_append, length_bytes]
    omega
  · rw [walk_turn r hc fuel, if_neg hbody, if_neg he]

/-- The walk passes all elements that are no SSID. -/
theorem walk_elements {es : List Element} (r : Reads iePtr remainingLen (front ++ bytesOf es ++ rest))
    (hc : cursor.toNat = front.length) (hes : ∀ e ∈ es, e.id ≠ 0) (fuel : ℕ) :
    ∃ cursor' : SizeT, cursor'.toNat = (front ++ bytesOf es).length ∧
      walk iePtr remainingLen (fuel + es.length) cursor = walk iePtr remainingLen fuel cursor' := by
  induction es generalizing front cursor with
  | nil =>
      exact ⟨cursor, by simpa using hc, rfl⟩
  | cons e es ih =>
      rw [bytesOf_cons, ← List.append_assoc] at r
      have rhead : Reads iePtr remainingLen (front ++ e.bytes ++ (bytesOf es ++ rest)) := by
        rwa [← List.append_assoc]
      obtain ⟨next, hnext, hwalk⟩ := walk_element rhead hc (hes e List.mem_cons_self) (fuel + es.length)
      obtain ⟨cursor', hcursor', hwalk'⟩ := ih r hnext fun x hx => hes x (List.mem_cons_of_mem e hx)
      refine ⟨cursor', ?_, hwalk.trans hwalk'⟩
      rw [hcursor', bytesOf_cons, List.append_assoc]

end Walks

/-! ### The copy -/

section Copies

variable {offset cursor oldIe : SizeT} {mem : Memory} {c : Call} {front post : Bytes} {old new : Element}

/-- The sizes that the code computes are the places and lengths of the parts of the frames. -/
structure Sized (c : Call) (offset cursor oldIe : SizeT) (front post : Bytes) (old : Element) : Prop where
  newSsidLen : (size c.ssid.length).toNat = c.ssid.length
  idAt : (offset + cursor).toNat = front.length
  lenAt : (offset + cursor + 1).toNat = front.length + 1
  bodyAt : (offset + cursor + 2).toNat = front.length + 2
  postAt : (offset + cursor + 2 + size c.ssid.length).toNat = front.length + 2 + c.ssid.length
  oldLenAt : (offset + (cursor + 1)).toNat = front.length + 1
  oldPostAt : (offset + (cursor + oldIe)).toNat = front.length + old.bytes.length
  tailLen : (c.start.mgmtLen - offset - (cursor + oldIe)).toNat = post.length
  newMgmtLen : (c.start.mgmtLen - oldIe + (2 + size c.ssid.length)).toNat =
    front.length + (c.ssid.length + 2) + post.length

theorem sized (hframe : c.frame = front ++ old.bytes ++ post) (hssid : c.ssid.length < 256)
    (hle : offset.toNat ≤ front.length) (hcursor : cursor.toNat = front.length - offset.toNat)
    (hold : oldIe.toNat = old.bytes.length) : Sized c offset cursor oldIe front post old := by
  have hlt := c.frame_lt
  have hlen := congrArg List.length hframe
  have hshort := old.length_lt
  simp only [List.length_append, length_bytes] at hlen hold
  have hnew : (size c.ssid.length).toNat = c.ssid.length := toNat_size (by omega)
  have hmgmt : c.start.mgmtLen.toNat = c.frame.length := toNat_size (by omega)
  have hid : (offset + cursor).toNat = front.length := by
    rw [toNat_add_of_lt rfl hcursor (by omega)]
    omega
  have hbody : (offset + cursor + 2).toNat = front.length + 2 := toNat_add_of_lt hid rfl (by omega)
  have hnext : (cursor + 1).toNat = front.length - offset.toNat + 1 := toNat_add_of_lt hcursor rfl (by omega)
  have htail : (cursor + oldIe).toNat = front.length - offset.toNat + (old.body.length + 2) :=
    toNat_add_of_lt hcursor hold (by omega)
  have hrem : (c.start.mgmtLen - offset).toNat = c.frame.length - offset.toNat :=
    toNat_sub_of_le hmgmt rfl (by omega)
  have hrest : (c.start.mgmtLen - oldIe).toNat = c.frame.length - (old.body.length + 2) :=
    toNat_sub_of_le hmgmt hold (by omega)
  have hie : (2 + size c.ssid.length).toNat = 2 + c.ssid.length := toNat_add_of_lt rfl hnew (by omega)
  refine ⟨hnew, hid, toNat_add_of_lt hid rfl (by omega), hbody, toNat_add_of_lt hbody hnew (by omega), ?_, ?_, ?_, ?_⟩
  · rw [toNat_add_of_lt rfl hnext (by omega)]
    omega
  · rw [toNat_add_of_lt rfl htail (by omega), length_bytes]
    omega
  · rw [toNat_sub_of_le hrem htail (by omega)]
    omega
  · rw [toNat_add_of_lt hrest hie (by omega)]
    omega

/-- The five pieces fill the new buffer. -/
theorem exists_copied (junk : Bytes) (sz : Sized c offset cursor oldIe front post old)
    (hframe : c.start.heap .frame = some (front ++ old.bytes ++ post)) (hnew : new.id = 0) (hbody : new.body = c.ssid)
    (hjunk : junk.length = front.length + (c.ssid.length + 2) + post.length) :
    ∃ h₁ h₂ h₃ h₄,
      memcpy (alloc c.start.heap .updated junk) .updated 0 .frame 0 (offset + cursor).toNat = some h₁ ∧
      put h₁ .updated (offset + cursor).toNat [0] = some h₂ ∧
      put h₂ .updated (offset + cursor + 1).toNat [UInt8.ofNat (size c.ssid.length).toNat] = some h₃ ∧
      memcpy h₃ .updated (offset + cursor + 2).toNat .newSsid 0 (size c.ssid.length).toNat = some h₄ ∧
      memcpy h₄ .updated (offset + cursor + 2 + size c.ssid.length).toNat .frame (offset + (cursor + oldIe)).toNat
        (c.start.mgmtLen - offset - (cursor + oldIe)).toNat =
          some (alloc c.start.heap .updated (front ++ new.bytes ++ post)) := by
  rw [sz.newSsidLen, sz.idAt, sz.lenAt, sz.bodyAt, sz.postAt, sz.oldPostAt, sz.tailLen]
  have f₀ : Filled c.start.heap .updated [] (front.length +
      (([0] : Bytes).length + ([UInt8.ofNat c.ssid.length].length + (c.ssid.length + (post.length + 0)))))
      (alloc c.start.heap .updated junk) := by
    refine ⟨junk, ?_, rfl⟩
    simp only [List.length_singleton]
    omega
  have hfront : c.start.heap .frame = some ([] ++ front ++ (old.bytes ++ post)) := by
    rw [hframe, List.nil_append, List.append_assoc]
  have hssid : c.start.heap .newSsid = some ([] ++ c.ssid ++ 0 :: c.behind) := rfl
  have hpost : c.start.heap .frame = some (front ++ old.bytes ++ post ++ []) := by
    rw [hframe, List.append_nil]
  have at₃ : front.length + 1 = ([] ++ front ++ [(0 : UInt8)]).length := by simp
  have at₄ : front.length + 2 = ([] ++ front ++ [0] ++ [UInt8.ofNat c.ssid.length]).length := by simp
  have at₅ : front.length + 2 + c.ssid.length =
      ([] ++ front ++ [0] ++ [UInt8.ofNat c.ssid.length] ++ c.ssid).length := by
    simp
    omega
  obtain ⟨h₁, e₁, f₁⟩ := f₀.memcpy (by decide) hfront rfl rfl rfl
  obtain ⟨h₂, e₂, f₂⟩ := f₁.put rfl
  obtain ⟨h₃, e₃, f₃⟩ := f₂.put at₃
  obtain ⟨h₄, e₄, f₄⟩ := f₃.memcpy (by decide) hssid at₄ rfl rfl
  obtain ⟨h₅, e₅, f₅⟩ := f₄.memcpy (by decide) hpost at₅ (List.length_append).symm rfl
  refine ⟨h₁, h₂, h₃, h₄, e₁, e₂, e₃, e₄, e₅.trans (congrArg some (f₅.full.trans ?_))⟩
  simp [Element.bytes, hnew, hbody]

/-- The new buffer replaces the frame, and is freed. -/
theorem exists_replaced (c : Call) (frame : Bytes) : ∃ h₁ h₂ h₃,
    free (alloc c.start.heap .updated frame) .frame = some h₁ ∧
      memcpy (alloc h₁ .replaced (List.replicate frame.length 0)) .replaced 0 .updated 0 frame.length = some h₂ ∧
      free h₂ .updated = some h₃ ∧ h₃ = alloc c.around .replaced frame := by
  have hframe : (alloc c.start.heap .updated frame) .frame = some c.frame := rfl
  have f : Filled (Function.update (alloc c.start.heap .updated frame) .frame none) .replaced [] (frame.length + 0)
      (alloc (Function.update (alloc c.start.heap .updated frame) .frame none) .replaced
        (List.replicate frame.length 0)) :=
    ⟨_, List.length_replicate, rfl⟩
  have hupdated : Function.update (alloc c.start.heap .updated frame) .frame none .updated =
      some ([] ++ frame ++ []) := by
    simp [alloc, Function.update]
  obtain ⟨h₂, e₂, f₂⟩ := f.memcpy (by decide) hupdated rfl rfl rfl
  have hlive : h₂ .updated = some ([] ++ frame ++ []) := (f₂.of_ne (by decide)).trans hupdated
  refine ⟨_, h₂, _, free_eq hframe, e₂, free_eq hlive, ?_⟩
  rw [f₂.full]
  funext b
  cases b <;> simp [alloc, Function.update, Call.around, Call.start]

/-- With the first SSID element found at `cursor`, the frame is copied around it. -/
theorem replace_found (hmalloc : mem.malloc = true) (hcalloc : mem.calloc = true)
    (hframe : c.frame = front ++ old.bytes ++ post) (hle : offset.toNat ≤ front.length)
    (hcursor : cursor.toNat = front.length - offset.toNat) (hnew : new.id = 0) (hbody : new.body = c.ssid) :
    replace offset mem c.start .frame .newSsid (size c.ssid.length) cursor =
      some (c.after (.ok (front ++ new.bytes ++ post))) := by
  obtain ⟨oldIe, holdIe, hold⟩ : ∃ oldIe : SizeT, oldIe = 2 + size (UInt8.ofNat old.body.length).toNat ∧
      oldIe.toNat = old.bytes.length := by
    have hlt := old.length_lt
    refine ⟨_, rfl, ?_⟩
    rw [toNat_length, toNat_add_of_lt rfl (toNat_size (by omega)) (by simp; omega), length_bytes, Nat.add_comm]
    rfl
  have sz := sized hframe (hbody ▸ new.length_lt) hle hcursor hold
  have hstart : c.start.heap .frame = some (front ++ old.bytes ++ post) := by
    rw [← hframe]
    exact alloc_self c.around .frame c.frame
  have holdLen : load c.start.heap .frame (offset + (cursor + 1)).toNat = some (UInt8.ofNat old.body.length) := by
    have hshape : front ++ old.bytes ++ post =
        front ++ [old.id] ++ UInt8.ofNat old.body.length :: (old.body ++ post) := by
      simp [Element.bytes]
    apply load_append (hstart.trans (congrArg some hshape))
    rw [sz.oldLenAt, List.length_append, List.length_singleton]
  have hlen : front.length + (c.ssid.length + 2) + post.length = (front ++ new.bytes ++ post).length := by
    simp only [List.length_append, length_bytes, hbody]
  obtain ⟨h₁, h₂, h₃, h₄, e₁, e₂, e₃, e₄, e₅⟩ := exists_copied
    ((List.range (c.start.mgmtLen - oldIe + (2 + size c.ssid.length)).toNat).map mem.junk) sz hstart hnew hbody
    (((List.length_map _).trans List.length_range).trans sz.newMgmtLen)
  obtain ⟨h₆, h₇, h₈, e₆, e₇, e₈, hheap⟩ := exists_replaced c (front ++ new.bytes ++ post)
  rw [← hlen, ← sz.newMgmtLen] at e₇
  have hnewLen : c.start.mgmtLen - oldIe + (2 + size c.ssid.length) = size (front ++ new.bytes ++ post).length := by
    rw [← hlen, ← sz.newMgmtLen, size_toNat]
  simp only [replace, holdLen, ← holdIe, hmalloc, hcalloc, Option.bind_eq_bind, Option.bind_some, Bool.true_eq_false,
    if_false, e₁, e₂, e₃, e₄, e₅, e₆, e₇, e₈, hheap]
  rw [hnewLen, Call.after]

end Copies

/-! ### The functions -/

section Functions

variable {offset : SizeT} {maxSsidLen : ℕ} {mem : Memory} {c : Call} {fixed ies rest : Bytes} {es : List Element}

/-- Every call has an outcome. -/
theorem exists_outcome (offset : ℕ) (hmax : maxSsidLen < 256) (c : Call) :
    ∃ out, Outcome offset maxSsidLen c out := by
  by_cases hssid : maxSsidLen < c.ssid.length
  · exact ⟨_, .ssidTooLong hssid⟩
  by_cases hshort : c.frame.length < offset
  · exact ⟨_, .tooShort (not_lt.mp hssid) hshort⟩
  have hfixed : (c.frame.take offset).length = offset := by
    rw [List.length_take]
    omega
  obtain ⟨es, rest, hes, hsplit, hrest⟩ := exists_rest 0 (c.frame.drop offset)
  have hframe : c.frame = c.frame.take offset ++ bytesOf es ++ rest := by
    rw [List.append_assoc, ← hsplit, List.take_append_drop]
  cases hrest with
  | ended _ h =>
      exact ⟨_, .ssidNotFound _ es rest (not_lt.mp hssid) hfixed hes h hframe⟩
  | cut id len rest h =>
      exact ⟨_, .malformed _ es id len rest (not_lt.mp hssid) hfixed hes h hframe⟩
  | found old post h =>
      refine ⟨_, .replaced _ es old ⟨0, c.ssid, by omega⟩ post (not_lt.mp hssid) hfixed hes h ?_ rfl rfl⟩
      rw [List.append_assoc _ old.bytes]
      exact hframe

theorem reads_start (hframe : c.frame = fixed ++ ies) (hfixed : fixed.length = offset.toNat) :
    Reads (fun i => load c.start.heap .frame (offset + i).toNat) (c.start.mgmtLen - offset) ies := by
  have hlt := c.frame_lt
  have hlen := congrArg List.length hframe
  rw [List.length_append] at hlen
  have hmgmt : c.start.mgmtLen.toNat = c.frame.length := toNat_size (by omega)
  refine ⟨fun front b back i hies hi => ?_, ?_, by omega⟩
  · have hfront := congrArg List.length hies
    simp only [List.length_append, List.length_cons] at hfront
    have hstart : c.start.heap .frame = some (fixed ++ front ++ b :: back) := by
      rw [List.append_assoc, ← hies, ← hframe]
      exact alloc_self c.around .frame c.frame
    apply load_append hstart
    rw [toNat_add_of_lt hfixed.symm hi (by omega), List.length_append]
  · rw [toNat_sub_of_le hmgmt hfixed.symm (by omega)]
    omega

theorem strlen_start (c : Call) : strlen c.start.heap .newSsid = some c.ssid.length :=
  strlen_append rfl c.zero_notMem

/-- What `construct` does with an SSID that is not too long and a frame that is not too short. -/
theorem construct_eq (hmax : maxSsidLen < 256) (hssid : c.ssid.length ≤ maxSsidLen)
    (hlong : offset.toNat ≤ c.frame.length) (fuel : ℕ) :
    construct offset maxSsidLen mem fuel c.start (some .newSsid) =
      (walk (fun i => load c.start.heap .frame (offset + i).toNat) (c.start.mgmtLen - offset) fuel 0).bind
        (conclude offset mem c.start .frame .newSsid (size c.ssid.length)) := by
  have hlt := c.frame_lt
  have hfits : ¬ size maxSsidLen < size c.ssid.length := by
    rw [BitVec.lt_def, toNat_size (by omega), toNat_size (by omega)]
    omega
  have hmgmt : ¬ c.start.mgmtLen < offset := by
    have hlen : c.start.mgmtLen.toNat = c.frame.length := toNat_size (by omega)
    rw [BitVec.lt_def, hlen]
    omega
  have hptr : c.start.mgmt = some Buf.frame := rfl
  simp only [construct, hptr, strlen_start, Option.bind_eq_bind, Option.bind_some, if_neg hfits, if_neg hmgmt]

/-- The walk behind the elements that are no SSID. -/
theorem exists_cursor (hframe : c.frame = fixed ++ bytesOf es ++ rest) (hfixed : fixed.length = offset.toNat)
    (hes : ∀ e ∈ es, e.id ≠ 0) (hmax : maxSsidLen < 256) (hssid : c.ssid.length ≤ maxSsidLen) (mem : Memory)
    {fuel : ℕ} (hfuel : c.frame.length < fuel) : ∃ (cursor : SizeT) (turns : ℕ), cursor.toNat = (bytesOf es).length ∧
      Reads (fun i => load c.start.heap .frame (offset + i).toNat) (c.start.mgmtLen - offset) (bytesOf es ++ rest) ∧
      construct offset maxSsidLen mem fuel c.start (some .newSsid) =
        (walk (fun i => load c.start.heap .frame (offset + i).toNat) (c.start.mgmtLen - offset) (turns + 1) cursor).bind
          (conclude offset mem c.start .frame .newSsid (size c.ssid.length)) := by
  have hlen := congrArg List.length hframe
  have htwo := length_le_bytesOf es
  simp only [List.length_append] at hlen
  have r := reads_start (hframe.trans (List.append_assoc _ _ _)) hfixed
  obtain ⟨turns, rfl⟩ : ∃ turns, fuel = turns + 1 + es.length := ⟨fuel - es.length - 1, by omega⟩
  have rfront : Reads _ _ ([] ++ bytesOf es ++ rest) := r
  have hzero : (0 : SizeT).toNat = ([] : Bytes).length := rfl
  obtain ⟨cursor, hcursor, hwalk⟩ := walk_elements rfront hzero hes (turns + 1)
  refine ⟨cursor, turns, hcursor, r, ?_⟩
  rw [construct_eq hmax hssid (by omega), hwalk]

/-- A call comes to its outcome. -/
theorem construct_outcome (hmax : maxSsidLen < 256) (hmalloc : mem.malloc = true) (hcalloc : mem.calloc = true)
    {out : Except Error Bytes} (h : Outcome offset.toNat maxSsidLen c out) {fuel : ℕ}
    (hfuel : c.frame.length < fuel) :
    construct offset maxSsidLen mem fuel c.start (some .newSsid) = some (c.after out) := by
  have hlt := c.frame_lt
  have hmgmt : c.start.mgmt = some Buf.frame := rfl
  cases h with
  | ssidTooLong h =>
      have harray := c.array_lt
      rw [List.length_append] at harray
      have hlong : size maxSsidLen < size c.ssid.length := by
        rw [BitVec.lt_def, toNat_size (by omega), toNat_size (by omega)]
        exact h
      simp only [construct, hmgmt, strlen_start, Option.bind_eq_bind, Option.bind_some, if_pos hlong]
      rfl
  | tooShort h hshort =>
      have hfits : ¬ size maxSsidLen < size c.ssid.length := by
        rw [BitVec.lt_def, toNat_size (by omega), toNat_size (by omega)]
        omega
      have hless : c.start.mgmtLen < offset := by
        have hlen : c.start.mgmtLen.toNat = c.frame.length := toNat_size (by omega)
        rw [BitVec.lt_def, hlen]
        exact hshort
      simp only [construct, hmgmt, strlen_start, Option.bind_eq_bind, Option.bind_some, if_neg hfits, if_pos hless]
      rfl
  | malformed fixed es id len rest h hfixed hes hcut hframe =>
      obtain ⟨cursor, turns, hcursor, r, heq⟩ := exists_cursor hframe hfixed hes hmax h mem hfuel
      rw [heq, walk_turn r hcursor, if_pos hcut]
      rfl
  | ssidNotFound fixed es rest h hfixed hes hend hframe =>
      obtain ⟨cursor, turns, hcursor, r, heq⟩ := exists_cursor hframe hfixed hes hmax h mem hfuel
      rw [heq, walk_ended r hcursor hend]
      rfl
  | replaced fixed es old new post h hfixed hes hold hframe hnew hbody =>
      have hrest : c.frame = fixed ++ bytesOf es ++ (old.id :: UInt8.ofNat old.body.length :: (old.body ++ post)) := by
        rw [hframe, List.append_assoc _ old.bytes]
        rfl
      have hwhole : ¬ (old.body ++ post).length < (UInt8.ofNat old.body.length).toNat := by
        rw [toNat_length, List.length_append]
        omega
      obtain ⟨cursor, turns, hcursor, r, heq⟩ := exists_cursor hrest hfixed hes hmax h mem hfuel
      rw [heq, walk_turn r hcursor, if_neg hwhole, if_pos hold, Option.bind_some, conclude]
      apply replace_found hmalloc hcalloc hframe
      · rw [List.length_append, hfixed]
        exact Nat.le_add_right _ _
      · rw [hcursor, List.length_append, hfixed, Nat.add_sub_cancel_left]
      · exact hnew
      · exact hbody

theorem construct_replaces (offset : SizeT) (hmax : maxSsidLen < 256) (hmalloc : mem.malloc = true)
    (hcalloc : mem.calloc = true) (c : Call) : Replaces (construct offset maxSsidLen mem) offset.toNat maxSsidLen c :=
  ⟨exists_outcome offset.toNat hmax c, fun _ h _ hfuel => construct_outcome hmax hmalloc hcalloc h hfuel⟩

/-- **A new SSID for a request**: when the allocations succeed, both functions replace the first SSID element
of every frame or leave everything as it was, with an error, without an access outside of a buffer. -/
theorem constructs_replace (assocVariable : SizeT) (maxSsidLen : ℕ) (hmax : maxSsidLen < 256) (mem : Memory)
    (hmalloc : mem.malloc = true) (hcalloc : mem.calloc = true) (c : Call) :
    Replaces (constructAssocRequest assocVariable maxSsidLen mem) assocVariable.toNat maxSsidLen c ∧
      Replaces (constructProbeRequest maxSsidLen mem) 24 maxSsidLen c :=
  ⟨construct_replaces assocVariable hmax hmalloc hcalloc c, construct_replaces 24 hmax hmalloc hcalloc c⟩

/-- A frame whose SSID is `"ab"`, between its rates and its channel, and a longer SSID. -/
def captured : Call where
  frame := List.replicate 28 0 ++ [1, 2, 130, 132] ++ [0, 2, 97, 98] ++ [3, 1, 6]
  frame_lt := by decide
  ssid := [110, 101, 119]
  zero_notMem := by decide
  behind := [0, 0]
  array_lt := by decide

theorem constructs_replace_captured :
    Replaces (constructAssocRequest 28 33 ⟨true, true, fun _ => 170⟩) 28 33 captured ∧
      Replaces (constructProbeRequest 33 ⟨true, true, fun _ => 170⟩) 24 33 captured :=
  constructs_replace 28 33 (by decide) ⟨true, true, fun _ => 170⟩ rfl rfl captured

example : ((constructAssocRequest 28 33 ⟨true, true, fun _ => 170⟩ 40 captured.start (some .newSsid)).bind fun r =>
    r.1.heap .replaced) =
      some (List.replicate 28 0 ++ [1, 2, 130, 132] ++ [0, 3, 110, 101, 119] ++ [3, 1, 6]) := by
  decide +kernel

end Functions

end OneWifiTestSuite.SsidRewrite
