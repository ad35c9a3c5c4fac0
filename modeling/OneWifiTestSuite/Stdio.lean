import OneWifiTestSuite.Buffers

/-!
# Reading lines and printing strings

`fgets` cuts what a stream gives into lines, and long lines into pieces that fit its array; `pieces` is
the result of calling it up to the end (`pieces_of_fgets`). `snprintf` writes a string into a buffer and returns
the length that was asked for, whether or not it was cut; behind a string it appends (`snprintf_held`).

`stringAt` reads the string at a place of a buffer. What `strstr` finds is the first occurrence
(`first_of_strstr`), and it finds every one (`strstr_eq_none_iff`).
-/

namespace OneWifiTestSuite.Stdio

open ByteRegion CStrings Buffers

section Streams

/-- The bytes up to a line end, but at most `room`, and what is left of the stream. -/
def takeLine : ℕ → Bytes → Bytes × Bytes
  | 0, s => ([], s)
  | _ + 1, [] => ([], [])
  | room + 1, b :: s =>
      if b = 10 then ([b], s) else (b :: (takeLine room s).1, (takeLine room s).2)

/-- `fgets(a, size, fp)`; `none` is the null pointer at the end of the stream. -/
def fgets (size : ℕ) : Bytes → Option (Bytes × Bytes)
  | [] => none
  | b :: s => some (takeLine (size - 1) (b :: s))

/-- What at most `fuel` calls of `fgets` read. -/
def piecesUpTo (size : ℕ) : ℕ → Bytes → List Bytes
  | 0, _ => []
  | fuel + 1, s =>
      match fgets size s with
      | none => []
      | some (piece, rest) => piece :: piecesUpTo size fuel rest

/-- What `fgets` reads before it meets the end of the stream. -/
def pieces (size : ℕ) (s : Bytes) : List Bytes :=
  piecesUpTo size s.length s

variable {size fuel room : ℕ} {s piece rest : Bytes}

theorem takeLine_append (room : ℕ) (s : Bytes) : (takeLine room s).1 ++ (takeLine room s).2 = s := by
  induction room generalizing s with
  | zero =>
      rfl
  | succ room ih =>
      cases s with
      | nil =>
          rfl
      | cons b s =>
          unfold takeLine
          split_ifs with hb
          · rfl
          · rw [List.cons_append, ih]

theorem length_takeLine_le (room : ℕ) (s : Bytes) : (takeLine room s).1.length ≤ room := by
  induction room generalizing s with
  | zero =>
      exact le_rfl
  | succ room ih =>
      cases s with
      | nil =>
          exact Nat.zero_le _
      | cons b s =>
          unfold takeLine
          split_ifs with hb
          · exact Nat.succ_le_succ (Nat.zero_le room)
          · exact Nat.succ_le_succ (ih s)

theorem fgets_append (h : fgets size s = some (piece, rest)) : piece ++ rest = s := by
  cases s with
  | nil =>
      cases h
  | cons b s =>
      have hline := takeLine_append (size - 1) (b :: s)
      rw [Option.some.inj h] at hline
      exact hline

/-- A call that reads something comes closer to the end. -/
theorem length_fgets_lt (hsize : 2 ≤ size) (h : fgets size s = some (piece, rest)) : rest.length < s.length := by
  cases s with
  | nil =>
      cases h
  | cons b s =>
      obtain ⟨room, rfl⟩ : ∃ room, size = room + 2 := ⟨size - 2, by omega⟩
      have hne : piece ≠ [] := by
        have hpiece : (takeLine (room + 1) (b :: s)).1 = piece := congrArg Prod.fst (Option.some.inj h)
        rw [← hpiece, takeLine]
        split_ifs <;> exact List.cons_ne_nil _ _
      have hlen := congrArg List.length (fgets_append h)
      have hpos := List.length_pos_of_ne_nil hne
      rw [List.length_append] at hlen
      omega

@[simp]
theorem piecesUpTo_nil (size fuel : ℕ) : piecesUpTo size fuel [] = [] := by
  cases fuel with
  | zero | succ fuel =>
      rfl

/-- Calls behind the end of the stream read nothing. -/
theorem piecesUpTo_eq_of_le {fuel' : ℕ} (hsize : 2 ≤ size) (h : s.length ≤ fuel) (h' : s.length ≤ fuel') :
    piecesUpTo size fuel s = piecesUpTo size fuel' s := by
  induction fuel generalizing fuel' s with
  | zero =>
      rw [List.eq_nil_of_length_eq_zero (Nat.le_zero.mp h), piecesUpTo_nil, piecesUpTo_nil]
  | succ fuel ih =>
      cases fuel' with
      | zero =>
          rw [List.eq_nil_of_length_eq_zero (Nat.le_zero.mp h'), piecesUpTo_nil, piecesUpTo_nil]
      | succ fuel' =>
          rw [piecesUpTo, piecesUpTo]
          cases hread : fgets size s with
          | none =>
              rfl
          | some r =>
              have hlt := length_fgets_lt hsize hread
              exact congrArg (r.1 :: ·) (ih (by omega) (by omega))

/-- **All calls of `fgets`**: one, and those on what it leaves. -/
theorem pieces_of_fgets (hsize : 2 ≤ size) (h : fgets size s = some (piece, rest)) :
    pieces size s = piece :: pieces size rest := by
  have hlt := length_fgets_lt hsize h
  obtain ⟨n, hn⟩ : ∃ n, s.length = n + 1 := ⟨s.length - 1, by omega⟩
  rw [pieces, hn, piecesUpTo, h]
  exact congrArg (piece :: ·) (piecesUpTo_eq_of_le hsize (by omega) le_rfl)

/-- A property of what is read, by induction on the calls. -/
theorem pieces_induction {P : Bytes → List Bytes → Prop} (hsize : 2 ≤ size) (hnil : P [] [])
    (hcons : ∀ s piece rest, fgets size s = some (piece, rest) → P rest (pieces size rest) →
      P s (piece :: pieces size rest)) (s : Bytes) : P s (pieces size s) := by
  induction hn : s.length using Nat.strong_induction_on generalizing s with
  | h n ih =>
      cases hread : fgets size s with
      | none =>
          cases s with
          | nil =>
              exact hnil
          | cons b s =>
              cases hread
      | some r =>
          have hlt := length_fgets_lt hsize hread
          rw [pieces_of_fgets hsize hread]
          exact hcons s r.1 r.2 hread (ih r.2.length (by omega) r.2 rfl)

theorem length_le_of_mem_pieces (hsize : 2 ≤ size) (h : piece ∈ pieces size s) : piece.length + 1 ≤ size := by
  induction s using pieces_induction hsize with
  | hnil =>
      cases h
  | hcons s first rest hread ih =>
      rcases List.mem_cons.mp h with rfl | hmem
      · cases s with
        | nil =>
            cases hread
        | cons b s =>
            have hpiece : (takeLine (size - 1) (b :: s)).1 = piece := congrArg Prod.fst (Option.some.inj hread)
            have hle := length_takeLine_le (size - 1) (b :: s)
            rw [hpiece] at hle
            omega
      · exact ih hmem

end Streams

section Strings

variable {β : Type*} {h : Heap β} {b : β} {off size : ℕ} {s front space back : Bytes}

/-- The string in the buffer from a place on; `none` runs past its end. -/
def stringAt (h : Heap β) (b : β) (off : ℕ) : Option Bytes :=
  (h b).bind fun bs => if 0 ∈ bs.drop off then some ((bs.drop off).takeWhile (· != 0)) else none

theorem stringAt_append (hb : h b = some (front ++ s ++ 0 :: back)) (hoff : off = front.length) (hs : 0 ∉ s) :
    stringAt h b off = some s := by
  have hdrop : (front ++ s ++ 0 :: back).drop off = s ++ 0 :: back := by
    rw [hoff, List.append_assoc, List.drop_left]
  have hmem : 0 ∈ s ++ 0 :: back := by simp
  rw [stringAt, hb, Option.bind_some, hdrop, if_pos hmem, takeWhile_append_zero hs]

variable [DecidableEq β]

/-- `snprintf(&b[off], size, "%s", s)`: the string is cut to the size, and the length of all of it is returned. -/
def snprintf (h : Heap β) (b : β) (off size : ℕ) (s : Bytes) : Option (Heap β × ℕ) :=
  if size = 0 then some (h, s.length) else (put h b off (s.take (size - 1) ++ [0])).map (·, s.length)

@[simp]
theorem snprintf_zero (h : Heap β) (b : β) (off : ℕ) (s : Bytes) : snprintf h b off 0 s = some (h, s.length) :=
  if_pos rfl

theorem put_append {old new : Bytes} (hb : h b = some (front ++ old ++ back)) (hoff : off = front.length)
    (hlen : new.length = old.length) : put h b off new = some (alloc h b (front ++ new ++ back)) := by
  have hin : off + new.length ≤ (front ++ old ++ back).length := by
    rw [hlen, hoff, List.length_append, List.length_append]
    omega
  rw [put, hb, Option.bind_some, if_pos hin, hlen, hoff]
  simp

/-- The string and its NUL replace as many bytes as they have. -/
theorem snprintf_append (hb : h b = some (front ++ space ++ back)) (hoff : off = front.length) (hsize : 0 < size)
    (hspace : space.length = min (size - 1) s.length + 1) :
    snprintf h b off size s = some (alloc h b (front ++ s.take (size - 1) ++ 0 :: back), s.length) := by
  have hlen : (s.take (size - 1) ++ [0]).length = space.length := by
    rw [List.length_append, List.length_take, hspace, List.length_singleton]
  rw [snprintf, if_neg (Nat.ne_of_gt hsize), put_append hb hoff hlen]
  simp

/-- Printing into a buffer that has at least the size that is given. -/
theorem snprintf_whole {bs : Bytes} (hb : h b = some bs) (hsize : size ≤ bs.length) (hs : 0 ∉ s) :
    ∃ h', snprintf h b 0 size s = some (h', s.length) ∧
      (0 < size → stringAt h' b 0 = some (s.take (size - 1))) := by
  rcases Nat.eq_zero_or_pos size with rfl | hpos
  · exact ⟨h, snprintf_zero h b 0 s, fun hlt => absurd hlt (Nat.lt_irrefl 0)⟩
  · have hsplit : bs = [] ++ bs.take (min (size - 1) s.length + 1) ++ bs.drop (min (size - 1) s.length + 1) :=
      (List.take_append_drop _ bs).symm
    have hspace : (bs.take (min (size - 1) s.length + 1)).length = min (size - 1) s.length + 1 := by
      rw [List.length_take]
      omega
    refine ⟨_, snprintf_append (hb.trans (congrArg some hsplit)) rfl hpos hspace, fun _ => ?_⟩
    exact stringAt_append (alloc_self _ _ _) rfl fun hmem => hs (List.mem_of_mem_take hmem)

/-- A place outside the buffer is not written. -/
theorem snprintf_outside {bs : Bytes} (hb : h b = some bs) (hoff : bs.length ≤ off) (hsize : 0 < size) :
    snprintf h b off size s = none := by
  have hout : ¬ off + (s.take (size - 1) ++ [0]).length ≤ bs.length := by
    rw [List.length_append, List.length_singleton]
    omega
  rw [snprintf, if_neg (Nat.ne_of_gt hsize), put, hb, Option.bind_some, if_neg hout, Option.map_none]

/-! ### Appending -/

variable {n : ℕ} {t : Bytes}

/-- What an array of `n` cleared bytes holds when a string was printed into it. -/
def held (n : ℕ) (s : Bytes) : Bytes :=
  s.take (n - 1) ++ List.replicate (n - min (n - 1) s.length) 0

@[simp]
theorem held_nil (n : ℕ) : held n [] = List.replicate n 0 := by
  simp [held]

@[simp]
theorem length_held (n : ℕ) (s : Bytes) : (held n s).length = n := by
  rw [held, List.length_append, List.length_take, List.length_replicate]
  omega

/-- **Appending with `snprintf`**: behind a string that is in the buffer, with the room that is left, it makes the
longer string. -/
theorem snprintf_held (hb : h b = some (held n s)) (hle : s.length ≤ n) :
    snprintf h b s.length (n - s.length) t = some (alloc h b (held n (s ++ t)), t.length) := by
  rcases Nat.eq_or_lt_of_le hle with heq | hlt
  · have hsame : held n (s ++ t) = held n s := by
      have hmin : min (n - 1) (s ++ t).length = min (n - 1) s.length := by
        rw [List.length_append]
        omega
      rw [held, held, hmin, List.take_append_of_le_length (by omega)]
    rw [heq, Nat.sub_self, snprintf_zero, hsame, alloc, ← hb, Function.update_eq_self]
  · have hfit : s.take (n - 1) = s := List.take_of_length_le (by omega)
    have hmin : min (n - 1) s.length = s.length := by omega
    have hsplit : n - s.length =
        min (n - s.length - 1) t.length + 1 + (n - s.length - (min (n - s.length - 1) t.length + 1)) := by omega
    rw [held, hfit, hmin, hsplit, List.replicate_add, ← List.append_assoc] at hb
    have hroom : n - 1 - s.length = n - s.length - 1 := by omega
    have hzeros : n - min (n - 1) (s ++ t).length =
        n - s.length - (min (n - s.length - 1) t.length + 1) + 1 := by
      rw [List.length_append]
      omega
    rw [snprintf_append hb rfl (by omega) List.length_replicate, held, List.take_append, hfit, hroom, hzeros,
      List.replicate_succ]

end Strings

section Search

/-- `s` is `before`, `t` and `behind`, and `t` does not start earlier in it. -/
structure FirstOccurrence (t s before behind : Bytes) : Prop where
  eq : s = before ++ t ++ behind
  first : ∀ before' behind', s = before' ++ t ++ behind' → before.length ≤ before'.length

variable {t s before behind : Bytes}

/-- An occurrence behind the first byte. -/
theorem FirstOccurrence.cons {b : UInt8} (h : FirstOccurrence t s before behind) (hb : ¬ t <+: b :: s) :
    FirstOccurrence t (b :: s) (b :: before) behind := by
  refine ⟨by simp [h.eq], fun before' behind' heq => ?_⟩
  cases before' with
  | nil =>
      exact absurd ⟨behind', heq.symm⟩ hb
  | cons b' before' =>
      exact Nat.succ_le_succ (h.first before' behind' (List.cons.inj heq).2)

/-- **`strstr` finds the first occurrence**. -/
theorem first_of_strstr {r : Bytes} (h : strstr t s = some r) :
    ∃ before behind, FirstOccurrence t s before behind ∧ r = t ++ behind := by
  induction s with
  | nil =>
      unfold strstr at h
      split_ifs at h with ht
      cases h
      subst ht
      exact ⟨[], [], ⟨rfl, fun before' behind' _ => Nat.zero_le _⟩, rfl⟩
  | cons b s ih =>
      unfold strstr at h
      split_ifs at h with hstart
      · cases h
        obtain ⟨behind, hbehind⟩ := hstart
        exact ⟨[], behind, ⟨hbehind.symm, fun before' behind' _ => Nat.zero_le _⟩, hbehind.symm⟩
      · obtain ⟨before, behind, hfirst, hr⟩ := ih h
        exact ⟨b :: before, behind, hfirst.cons hstart, hr⟩

theorem strstr_eq_none_iff : strstr t s = none ↔ ¬ t <:+: s := by
  induction s with
  | nil =>
      simp [strstr]
  | cons b s ih =>
      rw [strstr, List.infix_cons_iff]
      split_ifs with hstart
      · simp [hstart]
      · simp [hstart, ih]

end Search

end OneWifiTestSuite.Stdio
