import OneWifiTestSuite.AgentJson
import OneWifiTestSuite.Stdio

/-!
# Reading a parameter of the data model

`dmcli_get` runs a command, appends the lines of its output to an array of 1024 bytes, and copies what
stands behind "value: " to its caller. The lines are appended at the sum of what `snprintf` returned, and
the size that is left is a difference of unsigned numbers.

The array is left exactly when more than 1024 characters stand before the last piece that is read
(`meets_iff_fits`); otherwise the array holds the start of the output (`accumulate_eq`).
-/

namespace OneWifiTestSuite.DmcliGet

open ByteRegion CStrings Buffers Stdio
open AgentJson (text cStr)

/-! ### The code -/

section Code

/-- The array `str` and the buffer of the caller. -/
inductive Buf
  | str
  | value
deriving DecidableEq, Repr

inductive Error
  | null
  | popen
  | notFound
deriving DecidableEq, Repr

/-- The loop over what `fgets` reads into `ptr`; `none` is a write outside `str`. -/
def accumulate (heap : Heap Buf) : List Bytes → BitVec 32 → Option (Heap Buf)
  | [], _ => some heap
  | ptr :: rest, bytesWritten =>
      if bytesWritten.toInt < 0 then none
      else do
        let (heap, written) ←
          snprintf heap .str bytesWritten.toNat (1024 - bytesWritten.signExtend 64).toNat (cStr ptr)
        accumulate heap rest (bytesWritten + BitVec.ofNat 32 written)

/-- Where the value ends: a blank, a line feed or a carriage return. -/
def isEnd (b : UInt8) : Bool :=
  b = 32 ∨ b = 10 ∨ b = 13

/-- The loop that puts a NUL where the value ends. -/
def cutAtEnd (heap : Heap Buf) (tempStr : ℕ) : Option (Heap Buf) := do
  let found ← stringAt heap .str tempStr
  match found.findIdx? isEnd with
  | none => some heap
  | some i => put heap .str (tempStr + i) [0]

/-- The string at `temp_str` is cut and copied to the caller. -/
def copyValue (heap : Heap Buf) (tempStr : ℕ) (valLen : BitVec 32) : Option (Heap Buf) := do
  let heap ← cutAtEnd heap tempStr
  let found ← stringAt heap .str tempStr
  let (heap, _) ← snprintf heap .value 0 valLen.toNat found
  some heap

/-- What follows `pclose`. -/
def findValue (heap : Heap Buf) (valLen : BitVec 32) : Option (Heap Buf × Except Error Unit) := do
  let str ← stringAt heap .str 0
  match strstr (text "value: ") str with
  | none => some (heap, .error .notFound)
  | some found =>
      (copyValue heap (str.length - found.length + (text "value: ").length) valLen).map fun heap => (heap, .ok ())

/-- The memory at the start: `str` is cleared, and `value` may be null. -/
def memory (value : Option Bytes) : Heap Buf
  | .str => some (List.replicate 1024 0)
  | .value => value

/-- `dmcli_get`; `popen` gives the output of the command up to its end or a read error. The result `none` is an access
outside a buffer. -/
def dmcliGet (popen : Bytes → Option Bytes) (cmd value : Option Bytes) (valLen : BitVec 32) :
    Option (Heap Buf × Except Error Unit) :=
  match cmd, value with
  | some cmd, some _ =>
      match popen cmd with
      | none => some (memory value, .error .popen)
      | some output => do
          let heap ← accumulate (memory value) (pieces 128 output) 0
          findValue heap valLen
  | _, _ => some (memory value, .error .null)

end Code

/-! ### What a call is for -/

section Meaning

/-- A call with a command that can be run, and the buffer its caller promises. -/
structure Call where
  popen : Bytes → Option Bytes
  cmd : Bytes
  output : Bytes
  opened : popen cmd = some output
  value : Bytes
  valLen : BitVec 32
  room : valLen.toNat ≤ value.length

/-- The characters of the pieces, without what stands behind a NUL in its piece. -/
def texts (ptrs : List Bytes) : Bytes :=
  ptrs.flatMap cStr

/-- The part of the output that the array can hold. -/
def accumulated (output : Bytes) : Bytes :=
  (texts (pieces 128 output)).take 1023

/-- The text up to the first blank or line end. -/
def field (s : Bytes) : Bytes :=
  s.takeWhile fun b => !isEnd b

/-- Every write stays in its buffer, and when "value: " is in the accumulated part, what stands behind its first
occurrence is returned up to its end, cut to the length of the caller. -/
def Meets (c : Call) : Prop :=
  ∃ heap ret, dmcliGet c.popen (some c.cmd) (some c.value) c.valLen = some (heap, ret) ∧
    (text "value: " <:+: accumulated c.output → ret = .ok () ∧ ∃ before behind,
      FirstOccurrence (text "value: ") (accumulated c.output) before behind ∧
        (0 < c.valLen.toNat →
          stringAt heap .value 0 = some ((field behind).take (c.valLen.toNat - 1))))

/-- Before the last piece that is read, there are at most 1024 characters. -/
def Fits (output : Bytes) : Prop :=
  (texts (pieces 128 output).dropLast).length ≤ 1024

instance (output : Bytes) : Decidable (Fits output) :=
  inferInstanceAs (Decidable (_ ≤ _))

end Meaning

/-! ### The array -/

section Array

variable {heap : Heap Buf} {s : Bytes} {ptr : Bytes} {ptrs : List Bytes}

theorem texts_cons (ptr : Bytes) (ptrs : List Bytes) : texts (ptr :: ptrs) = cStr ptr ++ texts ptrs :=
  List.flatMap_cons

theorem zero_notMem_cStr (s : Bytes) : 0 ∉ cStr s := by
  intro h
  have hne := List.mem_takeWhile_imp h
  simp at hne

theorem zero_notMem_texts (ptrs : List Bytes) : 0 ∉ texts ptrs := by
  intro h
  obtain ⟨ptr, -, hmem⟩ := List.mem_flatMap.mp h
  exact zero_notMem_cStr ptr hmem

theorem length_cStr_le (s : Bytes) : (cStr s).length ≤ s.length :=
  (List.takeWhile_prefix _).length_le

/-- A turn of the loop: it appends while the position is in the array or just behind it, and leaves the array
otherwise. -/
theorem accumulate_cons (hs : heap .str = some (held 1024 s)) (hlen : s.length ≤ 1024 + 127) :
    accumulate heap (ptr :: ptrs) (BitVec.ofNat 32 s.length) =
      if s.length ≤ 1024 then
        accumulate (alloc heap .str (held 1024 (s ++ cStr ptr))) ptrs (BitVec.ofNat 32 (s ++ cStr ptr).length)
      else none := by
  have hnat : (BitVec.ofNat 32 s.length).toNat = s.length := by
    rw [BitVec.toNat_ofNat]
    omega
  have hint : (BitVec.ofNat 32 s.length).toInt = s.length := by
    rw [BitVec.toInt_eq_toNat_of_lt (by omega), hnat]
  rw [accumulate, if_neg (by omega), hnat, List.length_append, BitVec.ofNat_add]
  have hext : ((BitVec.ofNat 32 s.length).signExtend 64).toNat = s.length := by
    have hmsb : (BitVec.ofNat 32 s.length).msb = false := by
      rw [BitVec.msb_eq_false_iff_two_mul_lt, hnat]
      omega
    rw [BitVec.signExtend_eq_setWidth_of_msb_false hmsb, BitVec.toNat_setWidth, hnat]
    omega
  have hsub : (1024 - (BitVec.ofNat 32 s.length).signExtend 64).toNat = (2 ^ 64 - s.length + 1024) % 2 ^ 64 := by
    rw [BitVec.toNat_sub, hext]
    rfl
  split_ifs with hle
  · have hsize : (1024 - (BitVec.ofNat 32 s.length).signExtend 64).toNat = 1024 - s.length := by
      rw [hsub]
      omega
    rw [hsize, snprintf_held hs hle]
    rfl
  · have hsize : 0 < (1024 - (BitVec.ofNat 32 s.length).signExtend 64).toNat := by
      rw [hsub]
      omega
    have hout : (held 1024 s).length ≤ s.length := by
      rw [length_held]
      omega
    rw [snprintf_outside hs hout hsize]
    rfl

/-- **The loop**: it appends all pieces, unless one comes when more than 1024 characters are already there. -/
theorem accumulate_eq (hs : heap .str = some (held 1024 s)) (hlen : s.length ≤ 1024 + 127)
    (hptrs : ∀ ptr ∈ ptrs, ptr.length ≤ 127) :
    accumulate heap ptrs (BitVec.ofNat 32 s.length) =
      if ptrs = [] ∨ s.length + (texts ptrs.dropLast).length ≤ 1024 then
        some (alloc heap .str (held 1024 (s ++ texts ptrs)))
      else none := by
  induction ptrs generalizing heap s with
  | nil =>
      rw [if_pos (.inl rfl), texts, List.flatMap_nil, List.append_nil, alloc, ← hs, Function.update_eq_self]
      rfl
  | cons ptr ptrs ih =>
      rw [accumulate_cons hs hlen]
      by_cases hle : s.length ≤ 1024
      · have hptr : (cStr ptr).length ≤ 127 := (length_cStr_le ptr).trans (hptrs ptr List.mem_cons_self)
        have hlen' : (s ++ cStr ptr).length ≤ 1024 + 127 := by
          rw [List.length_append]
          omega
        rw [if_pos hle, ih (alloc_self _ _ _) hlen' fun p hp => hptrs p (List.mem_cons_of_mem _ hp), alloc_alloc,
          List.append_assoc, texts_cons]
        refine if_congr ?_ rfl rfl
        cases ptrs with
        | nil =>
            simp [texts, hle]
        | cons next ptrs =>
            simp [texts_cons, Nat.add_assoc]
      · have hno : ¬ (ptr :: ptrs = [] ∨ s.length + (texts (ptr :: ptrs).dropLast).length ≤ 1024) := by
          rintro (h | h)
          · cases h
          · omega
        rw [if_neg hle, if_neg hno]

/-- What the calls of `fgets` leave in the array. -/
theorem accumulate_pieces (value : Option Bytes) (output : Bytes) :
    accumulate (memory value) (pieces 128 output) 0 =
      if Fits output then some (alloc (memory value) .str (held 1024 (texts (pieces 128 output)))) else none := by
  have hstart : memory value .str = some (held 1024 []) := congrArg some (held_nil 1024).symm
  have hshort : ∀ ptr ∈ pieces 128 output, ptr.length ≤ 127 := fun ptr hptr =>
    Nat.le_of_lt_succ (length_le_of_mem_pieces (by decide) hptr)
  have hloop := accumulate_eq hstart (Nat.zero_le _) hshort
  rw [List.nil_append, List.length_nil, Nat.zero_add] at hloop
  refine hloop.trans (if_congr ⟨?_, .inr⟩ rfl rfl)
  rintro (hnil | hfits)
  · simp [Fits, hnil, texts]
  · exact hfits

end Array

/-! ### The value -/

section Value

variable {heap : Heap Buf} {front found back : Bytes} {tempStr : ℕ} {valLen : BitVec 32}

/-- The loop over the text stops at the first end. -/
theorem field_eq (found : Bytes) :
    (found.findIdx? isEnd = none ∧ field found = found) ∨
      ∃ e rest, found.findIdx? isEnd = some (field found).length ∧ found = field found ++ e :: rest := by
  induction found with
  | nil =>
      exact .inl ⟨rfl, rfl⟩
  | cons b found ih =>
      by_cases hb : isEnd b = true
      · exact .inr ⟨b, found, by simp [field, hb, List.findIdx?_cons]⟩
      · obtain ⟨hnone, hfield⟩ | ⟨e, rest, hsome, hfound⟩ := ih
        · refine .inl ⟨by simp [hb, hnone, List.findIdx?_cons], ?_⟩
          rw [field, List.takeWhile_cons_of_pos (by simp [hb])]
          exact congrArg (b :: ·) hfield
        · have hfield : field (b :: found) = b :: field found := List.takeWhile_cons_of_pos (by simp [hb])
          refine .inr ⟨e, rest, ?_, ?_⟩
          · simp [hb, hsome, hfield, List.findIdx?_cons]
          · rw [hfield, List.cons_append, ← hfound]

theorem zero_notMem_field (h : 0 ∉ found) : 0 ∉ field found :=
  fun hmem => h ((List.takeWhile_prefix _).subset hmem)

/-- The string at `temp_str` is cut in its place. -/
theorem cutAtEnd_spec (hstr : heap .str = some (front ++ found ++ 0 :: back)) (htemp : tempStr = front.length)
    (hfound : 0 ∉ found) :
    ∃ heap', cutAtEnd heap tempStr = some heap' ∧ stringAt heap' .str tempStr = some (field found) ∧
      heap' .value = heap .value := by
  have hread := stringAt_append hstr htemp hfound
  rw [cutAtEnd, hread, Option.bind_eq_bind, Option.bind_some]
  obtain ⟨hnone, hfield⟩ | ⟨e, rest, hsome, hsplit⟩ := field_eq found
  · rw [hnone, hfield]
    exact ⟨heap, rfl, hread, rfl⟩
  · have hcut : heap .str = some (front ++ field found ++ [e] ++ (rest ++ 0 :: back)) := by
      rw [hstr]
      nth_rewrite 1 [hsplit]
      simp
    have hplace : tempStr + (field found).length = (front ++ field found).length := by
      rw [List.length_append, htemp]
    have hnew : alloc heap .str (front ++ field found ++ [0] ++ (rest ++ 0 :: back)) .str =
        some (front ++ field found ++ 0 :: (rest ++ 0 :: back)) := by
      rw [alloc_self, List.append_assoc _ [0] _, List.singleton_append]
    rw [hsome]
    exact ⟨_, put_append hcut hplace rfl, stringAt_append hnew htemp (zero_notMem_field hfound),
      alloc_of_ne (by decide) _ _⟩

/-- **The copy**: the caller gets the text up to its end, cut to the length of the buffer. -/
theorem copyValue_spec {value : Bytes} (hstr : heap .str = some (front ++ found ++ 0 :: back))
    (htemp : tempStr = front.length) (hfound : 0 ∉ found) (hvalue : heap .value = some value)
    (hroom : valLen.toNat ≤ value.length) :
    ∃ heap', copyValue heap tempStr valLen = some heap' ∧
      (0 < valLen.toNat → stringAt heap' .value 0 = some ((field found).take (valLen.toNat - 1))) := by
  obtain ⟨heap', hcut, hread, hsame⟩ := cutAtEnd_spec hstr htemp hfound
  obtain ⟨heap'', hprint, htext⟩ := snprintf_whole (hsame.trans hvalue) hroom (zero_notMem_field hfound)
  refine ⟨heap'', ?_, htext⟩
  rw [copyValue, hcut, Option.bind_eq_bind, Option.bind_some, hread, Option.bind_eq_bind, Option.bind_some, hprint]
  rfl

end Value

/-! ### Calls -/

section Calls

variable (c : Call)

theorem zero_notMem_accumulated (output : Bytes) : 0 ∉ accumulated output :=
  fun h => zero_notMem_texts _ (List.mem_of_mem_take h)

/-- The array as a string: the start of the output. -/
theorem held_texts (output : Bytes) :
    ∃ back, held 1024 (texts (pieces 128 output)) = accumulated output ++ 0 :: back := by
  obtain ⟨n, hn⟩ : ∃ n, 1024 - min (1024 - 1) (texts (pieces 128 output)).length = n + 1 :=
    ⟨1023 - min 1023 (texts (pieces 128 output)).length, by omega⟩
  exact ⟨List.replicate n 0, by rw [held, hn, List.replicate_succ, accumulated]⟩

theorem dmcliGet_eq : dmcliGet c.popen (some c.cmd) (some c.value) c.valLen =
    if Fits c.output then
      findValue (alloc (memory c.value) .str (held 1024 (texts (pieces 128 c.output)))) c.valLen
    else none := by
  simp only [dmcliGet, c.opened]
  rw [accumulate_pieces]
  split_ifs with hfits
  · rfl
  · rfl

/-- The value is found behind the first "value: ". -/
theorem findValue_spec {heap : Heap Buf} {back : Bytes} (hstr : heap .str = some (accumulated c.output ++ 0 :: back))
    (hvalue : heap .value = some c.value) :
    ∃ heap' ret, findValue heap c.valLen = some (heap', ret) ∧
      (text "value: " <:+: accumulated c.output → ret = .ok () ∧ ∃ before behind,
        FirstOccurrence (text "value: ") (accumulated c.output) before behind ∧
          (0 < c.valLen.toNat →
            stringAt heap' .value 0 = some ((field behind).take (c.valLen.toNat - 1)))) := by
  have hwhole : heap .str = some ([] ++ accumulated c.output ++ 0 :: back) := hstr
  have hread := stringAt_append hwhole rfl (zero_notMem_accumulated c.output)
  rw [findValue]
  rw [List.length_nil] at hread
  rw [hread, Option.bind_eq_bind, Option.bind_some]
  cases hfound : strstr (text "value: ") (accumulated c.output) with
  | none =>
      exact ⟨heap, _, rfl, fun hin => absurd hin (strstr_eq_none_iff.mp hfound)⟩
  | some r =>
      obtain ⟨before, behind, hfirst, rfl⟩ := first_of_strstr hfound
      have htemp : (accumulated c.output).length - (text "value: " ++ behind).length + (text "value: ").length =
          (before ++ text "value: ").length := by
        rw [hfirst.eq]
        simp only [List.length_append]
        omega
      have hbehind : 0 ∉ behind := by
        intro hmem
        apply zero_notMem_accumulated c.output
        rw [hfirst.eq]
        exact List.mem_append_right _ hmem
      rw [hfirst.eq] at hstr
      obtain ⟨heap', hcopy, htext⟩ := copyValue_spec hstr htemp hbehind hvalue c.room
      exact ⟨heap', .ok (), by simp only [hcopy, Option.map_some], fun _ => ⟨rfl, before, behind, hfirst, htext⟩⟩

/-- **When the writes stay in the array**: exactly when it is not full before the last piece, and then the value is
the one of the accumulated part. -/
theorem meets_iff_fits : Meets c ↔ Fits c.output := by
  rw [Meets, dmcliGet_eq]
  split_ifs with hfits
  · obtain ⟨back, hheld⟩ := held_texts c.output
    rw [hheld]
    exact iff_of_true (findValue_spec c (alloc_self _ _ _) rfl) hfits
  · refine iff_of_false ?_ hfits
    rintro ⟨heap, ret, hrun, -⟩
    cases hrun

/-- An output of 1144 characters without a line end: the last one is read on its own. -/
def longOutput : Call where
  popen := fun _ => some (List.replicate 1144 120)
  cmd := text "dmcli eRT getv Device.WiFi."
  output := List.replicate 1144 120
  opened := rfl
  value := List.replicate 64 0
  valLen := 64
  room := by decide

/-- **The defect**: the tenth piece is written at 1143, where the size that is left has wrapped. -/
theorem not_meets_longOutput : ¬ Meets longOutput := by
  have hfull : ¬ Fits longOutput.output := by decide +kernel
  rintro ⟨heap, ret, hrun, -⟩
  rw [dmcliGet_eq, if_neg hfull] at hrun
  cases hrun

end Calls

end OneWifiTestSuite.DmcliGet
