import OneWifiTestSuite.CStrings

/-!
# Buffers

A heap gives each live buffer its bytes. Every access names a buffer and an offset and is checked: `none`
is an access outside of a buffer, or to one that is not live. A part of a buffer is read back by its place
(`load_append`, `fetch_append`), and a new buffer is filled from its start, piece by piece (`Filled.put`,
`Filled.memcpy`), until no room is left (`Filled.full`).
-/

namespace OneWifiTestSuite.Buffers

open ByteRegion CStrings

/-- The live buffers and their bytes. -/
abbrev Heap (β : Type*) := β → Option Bytes

section Reads

variable {β : Type*} {h : Heap β} {b : β} {off len : ℕ} {front bs back : Bytes}

/-- One byte. -/
def load (h : Heap β) (b : β) (off : ℕ) : Option UInt8 :=
  (h b).bind fun bs => bs[off]?

/-- `len` bytes. -/
def fetch (h : Heap β) (b : β) (off len : ℕ) : Option Bytes :=
  (h b).bind fun bs => if off + len ≤ bs.length then some ((bs.drop off).take len) else none

/-- The length of the string at the start of the buffer; `none` runs past its end. -/
def strlen (h : Heap β) (b : β) : Option ℕ :=
  (h b).bind fun bs => if 0 ∈ bs then some (bs.takeWhile (· != 0)).length else none

theorem load_append {c : UInt8} (hb : h b = some (front ++ c :: back)) (hoff : off = front.length) :
    load h b off = some c := by
  simp [load, hb, hoff]

theorem fetch_append (hb : h b = some (front ++ bs ++ back)) (hoff : off = front.length) (hlen : len = bs.length) :
    fetch h b off len = some bs := by
  have hin : off + len ≤ (front ++ bs ++ back).length := by
    simp only [List.length_append]
    omega
  rw [fetch, hb, Option.bind_some, if_pos hin, hoff, hlen, List.append_assoc, List.drop_left, List.take_left]

theorem strlen_append {s : Bytes} (hb : h b = some (s ++ 0 :: back)) (hs : 0 ∉ s) : strlen h b = some s.length := by
  have hmem : 0 ∈ s ++ 0 :: back := by simp
  rw [strlen, hb, Option.bind_some, if_pos hmem, takeWhile_append_zero hs]

end Reads

section Writes

variable {β : Type*} [DecidableEq β] {h h' : Heap β} {b b' src : β} {off len room : ℕ} {front new bs back : Bytes}

/-- The heap in which the buffer has these bytes. -/
def alloc (h : Heap β) (b : β) (bs : Bytes) : Heap β :=
  Function.update h b (some bs)

/-- The bytes are written over what stands there. -/
def put (h : Heap β) (b : β) (off : ℕ) (new : Bytes) : Option (Heap β) :=
  (h b).bind fun bs =>
    if off + new.length ≤ bs.length then some (alloc h b (bs.take off ++ new ++ bs.drop (off + new.length)))
    else none

def memcpy (h : Heap β) (dst : β) (dstOff : ℕ) (src : β) (srcOff len : ℕ) : Option (Heap β) :=
  (fetch h src srcOff len).bind (put h dst dstOff)

/-- The buffer must be live. -/
def free (h : Heap β) (b : β) : Option (Heap β) :=
  (h b).map fun _ => Function.update h b none

@[simp]
theorem alloc_self (h : Heap β) (b : β) (bs : Bytes) : alloc h b bs b = some bs :=
  Function.update_self _ _ _

theorem alloc_of_ne (hne : b' ≠ b) (h : Heap β) (bs : Bytes) : alloc h b bs b' = h b' :=
  Function.update_of_ne hne _ _

@[simp]
theorem alloc_alloc (h : Heap β) (b : β) (bs bs' : Bytes) : alloc (alloc h b bs) b bs' = alloc h b bs' :=
  Function.update_idem _ _ _

theorem free_eq (hb : h b = some bs) : free h b = some (Function.update h b none) := by
  rw [free, hb, Option.map_some]

/-! ### Filling a buffer -/

/-- The heap `h` with a buffer that is filled up to the last `room` bytes. -/
def Filled (h : Heap β) (b : β) (front : Bytes) (room : ℕ) (h' : Heap β) : Prop :=
  ∃ space : Bytes, space.length = room ∧ h' = alloc h b (front ++ space)

theorem Filled.of_ne (f : Filled h b front room h') (hne : b' ≠ b) : h' b' = h b' := by
  obtain ⟨space, -, rfl⟩ := f
  exact alloc_of_ne hne h _

theorem Filled.full (f : Filled h b front 0 h') : h' = alloc h b front := by
  obtain ⟨space, hspace, rfl⟩ := f
  rw [List.length_eq_zero_iff.mp hspace, List.append_nil]

/-- The next bytes go behind what is there. -/
theorem Filled.put (f : Filled h b front (new.length + room) h') (hoff : off = front.length) :
    ∃ h'', put h' b off new = some h'' ∧ Filled h b (front ++ new) room h'' := by
  obtain ⟨space, hspace, rfl⟩ := f
  have hin : off + new.length ≤ (front ++ space).length := by
    rw [List.length_append]
    omega
  refine ⟨alloc h b (front ++ new ++ space.drop new.length), ?_, space.drop new.length, ?_, rfl⟩
  · rw [Buffers.put, alloc_self, Option.bind_some, if_pos hin, alloc_alloc, hoff, List.take_left, List.drop_append,
      List.drop_eq_nil_of_le (by omega), Nat.add_sub_cancel_left, List.nil_append]
  · rw [List.length_drop]
    omega

/-- A part of another buffer is copied behind what is there. -/
theorem Filled.memcpy {srcOff : ℕ} {before : Bytes} (f : Filled h b front (bs.length + room) h') (hne : src ≠ b)
    (hsrc : h src = some (before ++ bs ++ back)) (hoff : off = front.length) (hsrcOff : srcOff = before.length)
    (hlen : len = bs.length) :
    ∃ h'', memcpy h' b off src srcOff len = some h'' ∧ Filled h b (front ++ bs) room h'' := by
  rw [Buffers.memcpy, fetch_append ((f.of_ne hne).trans hsrc) hsrcOff hlen, Option.bind_some]
  exact f.put hoff

end Writes

end OneWifiTestSuite.Buffers
