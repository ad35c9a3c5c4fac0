import OneWifiTestSuite.HashMap

/-!
# Walking the hash map of `collection.c`

`hash_map_get_first` and `hash_map_get_next` have no iterator: the next datum is found by searching
the queue for the current data pointer from the head. The callers walk a map in a `while` loop, and
some of them remove entries on the way: they fetch the next datum first and then remove the current
entry by its key.

* `getNext_eq` says what the search does for every list of entries, of `2 ^ 32` and more as well.
* `walk_eq` and `sweepLoop_eq` are what the two loops visit, and what the second one leaves.
* `wellBehaved_iff` is the exact condition under which both loops do what their callers expect: the
  visits are complete while the count fits 32 bits, but `hash_map_remove` takes a newer entry whose
  key begins with the current key.
-/

namespace OneWifiTestSuite.HashMap

open Queue

/-! ### The code -/

section Code

variable {δ : Type} [DecidableEq δ]

/-- The data of the element at an index, as `hash_map_get_first` and `hash_map_get_next` end. -/
def dataAt (fuel : ℕ) (m : HashMapT δ) (index : BitVec 32) : Option (Option δ) :=
  match peek fuel m.queue index with
  | none => none
  | some none => some none
  | some (some e) =>
      match m.elems e with
      | none => none
      | some el => some el.data

/-- `hash_map_get_first`. -/
def getFirst (fuel : ℕ) (m : HashMapT δ) : Option (Option δ) :=
  dataAt fuel m 0

/-- The loop of `hash_map_get_next`: the index of the first element that holds `data`. -/
def findData (fuel : ℕ) (m : HashMapT δ) (data : Option δ) (count : BitVec 32) :
    ℕ → BitVec 32 → Option (Option (BitVec 32))
  | 0, _ => none
  | n + 1, i =>
      if i < count then
        match peek fuel m.queue i with
        | none => none
        | some none => findData fuel m data count n (i + 1)
        | some (some e) =>
            match m.elems e with
            | none => none
            | some el => if el.data = data then some (some i) else findData fuel m data count n (i + 1)
      else some none

/-- `hash_map_get_next`. -/
def getNext (fuel : ℕ) (m : HashMapT δ) (data : Option δ) : Option (Option δ) :=
  match count fuel m with
  | none => none
  | some count =>
      match findData fuel m data count fuel 0 with
      | none => none
      | some none => some none
      | some (some i) => dataAt fuel m (i + 1)

/-- The callers' loop from the datum `cur` on: it fetches the next datum and then removes the
current entry by its key, when the caller wants it removed. The answer is what was visited, and the
map at the end; `turns` bounds the passes. -/
def sweepLoop (fuel : ℕ) (key : δ → CString) (rm : δ → Bool) :
    ℕ → HashMapT δ → Option δ → Option (List δ × HashMapT δ)
  | _, m, none => some ([], m)
  | 0, _, some _ => none
  | turns + 1, m, some d =>
      match getNext fuel m (some d) with
      | none => none
      | some next =>
          if rm d then
            match remove fuel m (key d) with
            | none => none
            | some (m', _) => (sweepLoop fuel key rm turns m' next).map fun r => (d :: r.1, r.2)
          else (sweepLoop fuel key rm turns m next).map fun r => (d :: r.1, r.2)

/-- The loop of a caller that removes what `rm` chooses, from `hash_map_get_first` on. -/
def sweepMap (fuel : ℕ) (key : δ → CString) (rm : δ → Bool) (m : HashMapT δ) :
    Option (List δ × HashMapT δ) :=
  match getFirst fuel m with
  | none => none
  | some cur => sweepLoop fuel key rm fuel m cur

/-- The loop of a caller that only looks, `while (cur != NULL) cur = hash_map_get_next(map, cur)`. -/
def walkLoop (fuel : ℕ) (m : HashMapT δ) : ℕ → Option δ → Option (List δ)
  | _, none => some []
  | 0, some _ => none
  | turns + 1, some d =>
      match getNext fuel m (some d) with
      | none => none
      | some next => (walkLoop fuel m turns next).map (d :: ·)

/-- The walk from `hash_map_get_first` on. -/
def walkMap (fuel : ℕ) (m : HashMapT δ) : Option (List δ) :=
  match getFirst fuel m with
  | none => none
  | some cur => walkLoop fuel m fuel cur

end Code

/-! ### One call on the list of entries -/

section Calls

variable {δ : Type} [DecidableEq δ]

/-- The datum behind the first entry that holds `data`. -/
def nextData : List (HashElem δ) → Option δ → Option δ
  | [], _ => none
  | e :: l, data => if e.data = data then l.head?.bind HashElem.data else nextData l data

theorem nextData_eq_none {l : List (HashElem δ)} {data : Option δ} (h : ∀ e ∈ l, e.data ≠ data) :
    nextData l data = none := by
  induction l with
  | nil =>
      rfl
  | cons e l ih =>
      rw [nextData, if_neg (h e (by simp)), ih fun e' he' => h e' (by simp [he'])]

theorem nextData_append {s t : List (HashElem δ)} {e : HashElem δ} (h : ∀ e' ∈ s, e'.data ≠ e.data) :
    nextData (s ++ e :: t) e.data = t.head?.bind HashElem.data := by
  induction s with
  | nil =>
      simp [nextData]
  | cons e' s ih =>
      have hne : e'.data ≠ e.data := h e' (by simp)
      have htail : ∀ e₁ ∈ s, e₁.data ≠ e.data := fun e₁ he₁ => h e₁ (by simp [he₁])
      rw [List.cons_append, nextData, if_neg hne, ih htail]

variable {m : HashMapT δ} {l : List (HashElem δ)} {fuel : ℕ}

omit [DecidableEq δ] in
/-- The address of the element of an entry. -/
theorem exists_elem {as : List ℕ} (hm : as.map m.elems = l.map some) {i : ℕ} {e : HashElem δ}
    (he : l[i]? = some e) : ∃ a, as[i]? = some a ∧ m.elems a = some e := by
  have hget : (as.map m.elems)[i]? = some (some e) := by
    rw [hm, List.getElem?_map, he, Option.map_some]
  rwa [List.getElem?_map, Option.map_eq_some_iff] at hget

omit [DecidableEq δ] in
/-- The bound test of `queue_peek` lets every index through while the 32-bit count is 0. -/
theorem dataAt_eq (h : Holds m l) (hf : l.length < fuel) (i : BitVec 32) :
    dataAt fuel m i = some (if i.toNat ≤ (l.length + (2 ^ 32 - 1)) % 2 ^ 32
      then l[i.toNat]?.bind HashElem.data else none) := by
  obtain ⟨as, hq, -, hm⟩ := h
  have hll : as.length = l.length := by simpa using congrArg List.length hm
  have hb : InBound (as.map some) i ↔ i.toNat ≤ (l.length + (2 ^ 32 - 1)) % 2 ^ 32 := by
    rw [InBound, BitVec.le_def, toNat_listCount_sub_one, List.length_map, hll]
  rw [dataAt, peek_eq hq (by simpa [hll] using hf)]
  by_cases hi : i.toNat ≤ (l.length + (2 ^ 32 - 1)) % 2 ^ 32
  · rw [if_pos hi, if_pos (hb.mpr hi), List.getElem?_map]
    cases he : l[i.toNat]? with
    | none =>
        have ha : as[i.toNat]? = none := by
          rw [List.getElem?_eq_none_iff] at he ⊢
          omega
        simp [ha]
    | some e =>
        obtain ⟨a, ha, helem⟩ := exists_elem hm he
        simp [ha, helem]
  · rw [if_neg hi, if_neg (mt hb.mp hi)]

omit [DecidableEq δ] in
theorem getFirst_eq (h : Holds m l) (hf : l.length < fuel) :
    getFirst fuel m = some (l.head?.bind HashElem.data) := by
  rw [getFirst, dataAt_eq h hf, if_pos (by simp), List.head?_eq_getElem?]
  rfl

/-- One turn of the search for a data pointer. -/
theorem findData_turn (h : Holds m l) (hf : l.length < fuel) (data : Option δ) (n : ℕ)
    {i : BitVec 32} (hi : i.toNat < l.length % 2 ^ 32) {e : HashElem δ} (he : l[i.toNat]? = some e) :
    findData fuel m data (BitVec.ofNat 32 l.length) (n + 1) i =
      if e.data = data then some (some i)
      else findData fuel m data (BitVec.ofNat 32 l.length) n (i + 1) := by
  obtain ⟨as, hq, -, hm⟩ := h
  have hll : as.length = l.length := by simpa using congrArg List.length hm
  have hlt : i < BitVec.ofNat 32 l.length := by
    rw [BitVec.lt_def, BitVec.toNat_ofNat]
    exact hi
  obtain ⟨a, ha, helem⟩ := exists_elem hm he
  have hb : InBound (as.map some) i := by
    rw [InBound, BitVec.le_def, toNat_listCount_sub_one, List.length_map, hll]
    omega
  have hpeek : peek fuel m.queue i = some (some a) := by
    rw [peek_eq hq (by simpa [hll] using hf), if_pos hb, List.getElem?_map, ha]
    rfl
  simp only [findData, hlt, if_true, hpeek, helem]

/-- The search passes over the entries that hold other data. -/
theorem findData_skip (h : Holds m l) (hf : l.length < fuel) (data : Option δ) (n : ℕ)
    (s₁ s₂ : List (HashElem δ)) (hl : l.take (l.length % 2 ^ 32) = s₁ ++ s₂)
    (hno : ∀ e ∈ s₁, e.data ≠ data) :
    findData fuel m data (BitVec.ofNat 32 l.length) (n + s₁.length) 0 =
      findData fuel m data (BitVec.ofNat 32 l.length) n (BitVec.ofNat 32 s₁.length) := by
  induction s₁ using List.reverseRecOn generalizing n s₂ with
  | nil =>
      rfl
  | append_singleton s₁ e ih =>
      have hlen : s₁.length < l.length % 2 ^ 32 := by
        have := congrArg List.length hl
        simp only [List.length_take, List.length_append, List.length_singleton] at this
        omega
      have hk : (BitVec.ofNat 32 s₁.length).toNat = s₁.length := by
        rw [BitVec.toNat_ofNat, Nat.mod_eq_of_lt (by omega)]
      have he : l[(BitVec.ofNat 32 s₁.length).toNat]? = some e := by
        rw [hk, ← List.getElem?_take_of_lt hlen, hl]
        simp
      have hne : e.data ≠ data := hno e (by simp)
      have hskip := ih (n + 1) (e :: s₂) (by rw [hl, List.append_assoc, List.singleton_append])
        fun e' he' => hno e' (by simp [he'])
      rw [List.length_append, List.length_singleton, ← Nat.add_assoc, Nat.add_right_comm, hskip,
        findData_turn h hf data n (by omega) he, if_neg hne, BitVec.ofNat_add]
      rfl

/-- No entry that the count covers holds the data. -/
theorem findData_none (h : Holds m l) (hf : l.length < fuel) {data : Option δ}
    (hno : ∀ e ∈ l.take (l.length % 2 ^ 32), e.data ≠ data) :
    findData fuel m data (BitVec.ofNat 32 l.length) fuel 0 = some none := by
  have hlen : (l.take (l.length % 2 ^ 32)).length = l.length % 2 ^ 32 := by
    rw [List.length_take, min_eq_left (Nat.mod_le _ _)]
  have hmod : l.length % 2 ^ 32 ≤ l.length := Nat.mod_le _ _
  obtain ⟨n, hn⟩ : ∃ n, fuel = (n + 1) + (l.take (l.length % 2 ^ 32)).length :=
    ⟨fuel - l.length % 2 ^ 32 - 1, by omega⟩
  have hskip := findData_skip h hf data (n + 1) _ [] (List.append_nil _).symm hno
  have hend : ¬BitVec.ofNat 32 (l.length % 2 ^ 32) < BitVec.ofNat 32 l.length := by
    rw [BitVec.lt_def, BitVec.toNat_ofNat, BitVec.toNat_ofNat, Nat.mod_mod]
    omega
  rw [← hn, hlen] at hskip
  rw [hskip, findData, if_neg hend]

section Found

variable {s₁ s₂ : List (HashElem δ)} {e : HashElem δ}

omit [DecidableEq δ] in
theorem lt_of_take (hl : l.take (l.length % 2 ^ 32) = s₁ ++ e :: s₂) :
    s₁.length < l.length % 2 ^ 32 := by
  have := congrArg List.length hl
  simp only [List.length_take, List.length_append, List.length_cons] at this
  omega

/-- The first entry with the data is found, at its index. -/
theorem findData_some (h : Holds m l) (hf : l.length < fuel)
    (hl : l.take (l.length % 2 ^ 32) = s₁ ++ e :: s₂) (hno : ∀ e' ∈ s₁, e'.data ≠ e.data) :
    findData fuel m e.data (BitVec.ofNat 32 l.length) fuel 0 = some (some (BitVec.ofNat 32 s₁.length)) := by
  have hlt := lt_of_take hl
  have hmod : l.length % 2 ^ 32 ≤ l.length := Nat.mod_le _ _
  have hk : (BitVec.ofNat 32 s₁.length).toNat = s₁.length := by
    rw [BitVec.toNat_ofNat, Nat.mod_eq_of_lt (by omega)]
  have hget : l[(BitVec.ofNat 32 s₁.length).toNat]? = some e := by
    rw [hk, ← List.getElem?_take_of_lt hlt, hl]
    simp
  obtain ⟨n, hn⟩ : ∃ n, fuel = (n + 1) + s₁.length := ⟨fuel - s₁.length - 1, by omega⟩
  have hskip := findData_skip h hf e.data (n + 1) s₁ (e :: s₂) hl hno
  rw [← hn] at hskip
  rw [hskip, findData_turn h hf e.data n (by omega) hget, if_pos rfl]

omit [DecidableEq δ] in
/-- The element behind it is read when the count covers it. -/
theorem dataAt_succ (h : Holds m l) (hf : l.length < fuel)
    (hl : l.take (l.length % 2 ^ 32) = s₁ ++ e :: s₂) :
    dataAt fuel m (BitVec.ofNat 32 s₁.length + 1) = some (s₂.head?.bind HashElem.data) := by
  have hlt := lt_of_take hl
  have hk : (BitVec.ofNat 32 s₁.length + 1).toNat = s₁.length + 1 := by
    have hadd : BitVec.ofNat 32 s₁.length + 1 = BitVec.ofNat 32 (s₁.length + 1) :=
      (BitVec.ofNat_add _ _).symm
    rw [hadd, BitVec.toNat_ofNat, Nat.mod_eq_of_lt (by omega)]
  have hhead : s₂.head? = if s₁.length + 1 < l.length % 2 ^ 32 then l[s₁.length + 1]? else none := by
    rw [← List.getElem?_take, hl, List.getElem?_append_right (by omega), List.head?_eq_getElem?]
    simp
  rw [dataAt_eq h hf, hk, hhead]
  by_cases hin : s₁.length + 1 < l.length % 2 ^ 32
  · rw [if_pos hin, if_pos (by omega)]
  · rw [if_neg hin, if_neg (by omega), Option.bind_none]

end Found

/-- **`hash_map_get_next` on every list of entries**: the search sees as many of them as the 32-bit
count says. -/
theorem getNext_eq (h : Holds m l) (hf : l.length < fuel) (data : Option δ) :
    getNext fuel m data = some (nextData (l.take (l.length % 2 ^ 32)) data) := by
  have hcount : count fuel m = some (BitVec.ofNat 32 l.length) := by
    obtain ⟨as, hq, -, hm⟩ := h
    have hll : as.length = l.length := by simpa using congrArg List.length hm
    rw [count, count_eq hq (by simpa [hll] using hf), listCount, List.length_map, hll]
  simp only [getNext, hcount]
  cases hfind : (l.take (l.length % 2 ^ 32)).find? (fun e => e.data = data) with
  | none =>
      have hno : ∀ e ∈ l.take (l.length % 2 ^ 32), e.data ≠ data := by simpa using hfind
      rw [findData_none h hf hno, nextData_eq_none hno]
  | some e =>
      obtain ⟨hmatch, s₁, s₂, hl, hno⟩ := List.find?_eq_some_iff_append.mp hfind
      obtain rfl : e.data = data := by simpa using hmatch
      have hno' : ∀ e' ∈ s₁, e'.data ≠ e.data := by simpa using hno
      simp only [findData_some h hf hl hno']
      rw [dataAt_succ h hf hl, hl, nextData_append hno']

end Calls

/-! ### Maps with distinct data -/

section Walks

variable {δ : Type}

/-- The entry of a datum. -/
def entry (key : δ → CString) (d : δ) : HashElem δ :=
  ⟨some d, key d⟩

/-- A map whose stored data are distinct and not NULL: the data, newest first, and the key stored
with each of them. -/
structure DistinctMap (δ : Type) where
  map : HashMapT δ
  data : List δ
  key : δ → CString
  nodup : data.Nodup
  holds : Holds map (data.map (entry key))

/-- The map that the entries `l` make, when their data are distinct and not NULL. -/
theorem exists_entries {l : List (HashElem δ)} (hnull : ∀ e ∈ l, e.data ≠ none)
    (hnd : (l.map HashElem.data).Nodup) :
    ∃ (data : List δ) (key : δ → CString), data.Nodup ∧ data.map (entry key) = l := by
  classical
  induction l with
  | nil =>
      exact ⟨[], fun _ => ⟨[], by simp⟩, List.nodup_nil, rfl⟩
  | cons e l ih =>
      rw [List.map_cons, List.nodup_cons] at hnd
      obtain ⟨data, key, hdata, rfl⟩ := ih (fun e' he' => hnull e' (by simp [he'])) hnd.2
      obtain ⟨d, hd⟩ := Option.ne_none_iff_exists'.mp (hnull e (by simp))
      have hout : d ∉ data := by
        intro hmem
        exact hnd.1 (List.mem_map.mpr ⟨entry key d, List.mem_map_of_mem hmem, hd.symm⟩)
      have hkeep : data.map (entry (Function.update key d e.key)) = data.map (entry key) := by
        refine List.map_congr_left fun d' hd' => ?_
        have hne : d' ≠ d := fun h => hout (h ▸ hd')
        rw [entry, entry, Function.update_of_ne hne]
      refine ⟨d :: data, Function.update key d e.key, List.nodup_cons.mpr ⟨hout, hdata⟩, ?_⟩
      rw [List.map_cons, hkeep, entry, Function.update_self, ← hd]

/-- Every map with distinct data other than NULL is a `DistinctMap`. -/
theorem exists_distinctMap {m : HashMapT δ} {l : List (HashElem δ)} (h : Holds m l)
    (hnull : ∀ e ∈ l, e.data ≠ none) (hnd : (l.map HashElem.data).Nodup) :
    ∃ u : DistinctMap δ, u.map = m ∧ u.data.map (entry u.key) = l := by
  obtain ⟨data, key, hdata, rfl⟩ := exists_entries hnull hnd
  exact ⟨⟨m, data, key, hdata, h⟩, rfl, rfl⟩

/-- A removal by the key of `d` takes the entry of `d'` when it meets it. -/
def hits (key : δ → CString) (d d' : δ) : Bool :=
  keyMatches (key d) (entry key d')

/-- What a removal by the key of `d` does to the data the loop has behind it and to `d`. -/
def unlink (key : δ → CString) (left : List δ) (d : δ) : List δ :=
  (left ++ [d]).eraseP (hits key d)

/-- What the loop leaves when it has `left` behind it and the second list before it. -/
def remains (key : δ → CString) (rm : δ → Bool) : List δ → List δ → List δ
  | left, [] => left
  | left, d :: post =>
      if rm d then remains key rm (unlink key left d) post else remains key rm (left ++ [d]) post

variable {key : δ → CString} {rm : δ → Bool}

theorem hits_iff {d d' : δ} : hits key d d' = true ↔ (key d).1 <+: (key d').1 :=
  keyMatches_iff _ _

theorem hits_self (key : δ → CString) (d : δ) : hits key d d = true :=
  hits_iff.mpr (List.prefix_refl _)

/-- The removal finds its entry at the latest in `d` itself, so the data before the loop stay. -/
theorem eraseP_eq_unlink (key : δ → CString) (left post : List δ) (d : δ) :
    ((left ++ d :: post).map (entry key)).eraseP (keyMatches (key d)) =
      (unlink key left d ++ post).map (entry key) := by
  have hsplit : left ++ d :: post = (left ++ [d]) ++ post := by simp
  have hcomp : keyMatches (key d) ∘ entry key = hits key d := rfl
  rw [List.eraseP_map, hcomp, hsplit, List.eraseP_append_left (hits_self key d) post (by simp)]
  rfl

theorem unlink_sublist (key : δ → CString) (left : List δ) (d : δ) :
    (unlink key left d).Sublist (left ++ [d]) :=
  List.eraseP_sublist

variable [DecidableEq δ]

/-- The datum behind `d` among the first data of the list. -/
theorem nextData_entries {data s t : List δ} {d : δ} (hnd : data.Nodup) (n : ℕ)
    (h : data.take n = s ++ d :: t) :
    nextData ((data.map (entry key)).take n) (some d) = t.head? := by
  have hnd' : (s ++ d :: t).Nodup := h ▸ hnd.sublist (List.take_sublist _ _)
  have hout : ∀ e ∈ s.map (entry key), e.data ≠ (entry key d).data := by
    intro e he heq
    obtain ⟨d', hd', rfl⟩ := List.mem_map.mp he
    obtain rfl : d' = d := Option.some.inj heq
    exact (List.nodup_append.mp hnd').2.2 d' hd' d' (by simp) rfl
  have hnext := nextData_append (t := t.map (entry key)) hout
  rw [← List.map_take, h, List.map_append, List.map_cons]
  refine hnext.trans ?_
  cases t <;> rfl

/-- **The loop that removes** visits every datum that is before it, whatever the removals take. -/
theorem sweepLoop_eq {fuel turns : ℕ} {m : HashMapT δ} (left post : List δ)
    (h : Holds m ((left ++ post).map (entry key))) (hnd : (left ++ post).Nodup)
    (hf : (left ++ post).length < fuel) (hlen : (left ++ post).length < 2 ^ 32)
    (hturns : post.length ≤ turns) :
    ∃ m', sweepLoop fuel key rm turns m post.head? = some (post, m') ∧
      Holds m' ((remains key rm left post).map (entry key)) := by
  induction post generalizing left m turns with
  | nil =>
      refine ⟨m, by cases turns <;> rfl, by simpa [remains] using h⟩
  | cons d post ih =>
      cases turns with
      | zero =>
          simp at hturns
      | succ turns =>
          have hturns' : post.length ≤ turns := by simpa using hturns
          have hsplit : left ++ d :: post = (left ++ [d]) ++ post := by simp
          have hnext : getNext fuel m (some d) = some post.head? := by
            rw [getNext_eq h (by simpa using hf), List.length_map, Nat.mod_eq_of_lt hlen]
            rw [nextData_entries hnd _ (List.take_length)]
          cases hrm : rm d with
          | false =>
              obtain ⟨m', hloop, hm'⟩ := ih (left ++ [d]) (hsplit ▸ h) (hsplit ▸ hnd)
                (hsplit ▸ hf) (hsplit ▸ hlen) hturns'
              refine ⟨m', ?_, by simpa [remains, hrm] using hm'⟩
              simp only [List.head?_cons, sweepLoop, hnext, hrm, hloop, Option.map_some]
              rfl
          | true =>
              obtain ⟨m₁, hremove, hm₁⟩ := remove_holds h (by simpa using hlen) (by simpa using hf) (key d)
              rw [eraseP_eq_unlink] at hm₁
              have hsub : (unlink key left d ++ post).Sublist (left ++ d :: post) := by
                rw [hsplit]
                exact (unlink_sublist key left d).append_right post
              have hle := hsub.length_le
              obtain ⟨m', hloop, hm'⟩ := ih _ hm₁ (hnd.sublist hsub) (by omega) (by omega) hturns'
              refine ⟨m', ?_, by simpa only [remains, hrm, if_true] using hm'⟩
              simp only [List.head?_cons, sweepLoop, hnext, hrm, if_true, hremove, hloop, Option.map_some]

/-- The data that a walk reaches: as many as the 32-bit count says, but always the newest. -/
def reached (data : List δ) : List δ :=
  data.take (max (data.length % 2 ^ 32) 1)

omit [DecidableEq δ] in
theorem reached_perm_iff (data : List δ) : (reached data).Perm data ↔ data.length < 2 ^ 32 := by
  constructor
  · intro h
    have hlen := h.length_eq
    rw [reached, List.length_take] at hlen
    omega
  · intro h
    have hle : data.length ≤ max (data.length % 2 ^ 32) 1 := by omega
    rw [reached, List.take_of_length_le hle]

/-- One step of the walk, of a map of any size. -/
theorem getNext_reached {fuel : ℕ} {m : HashMapT δ} {data s t : List δ} {d : δ}
    (h : Holds m (data.map (entry key))) (hnd : data.Nodup) (hf : data.length < fuel)
    (hr : reached data = s ++ d :: t) : getNext fuel m (some d) = some t.head? := by
  rw [getNext_eq h (by simpa using hf), List.length_map]
  by_cases hzero : data.length % 2 ^ 32 = 0
  · have hlen := congrArg List.length hr
    rw [reached, hzero, List.length_take, List.length_append, List.length_cons] at hlen
    have ht : t = [] := List.length_eq_zero_iff.mp (by omega)
    rw [hzero, List.take_zero, ht]
    rfl
  · have hmax : max (data.length % 2 ^ 32) 1 = data.length % 2 ^ 32 := by omega
    rw [reached, hmax] at hr
    rw [nextData_entries hnd _ hr]

theorem walkLoop_eq {fuel turns : ℕ} {m : HashMapT δ} {data s t : List δ}
    (h : Holds m (data.map (entry key))) (hnd : data.Nodup) (hf : data.length < fuel)
    (hr : reached data = s ++ t) (hturns : t.length ≤ turns) :
    walkLoop fuel m turns t.head? = some t := by
  induction t generalizing s turns with
  | nil =>
      cases turns <;> rfl
  | cons d t ih =>
      cases turns with
      | zero =>
          simp at hturns
      | succ turns =>
          have hrest := ih (s := s ++ [d]) (by simp [hr]) (by simpa using hturns)
          simp only [List.head?_cons, walkLoop, getNext_reached h hnd hf hr, hrest, Option.map_some]

/-- **The walk**: it ends with NULL, and visits the data that the 32-bit count says. -/
theorem walk_eq (u : DistinctMap δ) {fuel : ℕ} (hf : u.data.length < fuel) :
    walkMap fuel u.map = some (reached u.data) := by
  have hfirst : getFirst fuel u.map = some (reached u.data).head? := by
    have hpos : max (u.data.length % 2 ^ 32) 1 ≠ 0 := by omega
    rw [getFirst_eq u.holds (by simpa using hf), reached, List.head?_take, if_neg hpos]
    cases u.data <;> rfl
  have hlen : (reached u.data).length ≤ fuel := by
    rw [reached, List.length_take]
    omega
  simp only [walkMap, hfirst]
  exact walkLoop_eq u.holds u.nodup hf (List.nil_append _).symm hlen

/-! ### What the loop leaves -/

omit [DecidableEq δ] in
theorem mem_of_mem_remains {left post : List δ} {d : δ} (h : d ∈ remains key rm left post) :
    d ∈ left ++ post := by
  induction post generalizing left with
  | nil =>
      simpa [remains] using h
  | cons d' post ih =>
      have hmem : d ∈ (left ++ [d']) ++ post := by
        cases hrm : rm d' with
        | false =>
            exact ih (by simpa [remains, hrm] using h)
        | true =>
            have := ih (by simpa [remains, hrm] using h)
            exact ((unlink_sublist key left d').append_right post).mem this
      simpa using hmem

omit [DecidableEq δ] in
/-- A removal that finds no entry behind the loop takes its own. -/
theorem unlink_eq_self {left : List δ} {d : δ} (h : ∀ d' ∈ left, ¬(key d).1 <+: (key d').1) :
    unlink key left d = left := by
  have hno : ∀ d' ∈ left, ¬hits key d d' = true := fun d' hd' => mt hits_iff.mp (h d' hd')
  rw [unlink, List.eraseP_append_right _ hno, List.eraseP_cons_of_pos (hits_self key d), List.append_nil]

omit [DecidableEq δ] in
/-- A removal that finds an entry behind the loop takes one of those. -/
theorem exists_notMem_unlink {left : List δ} {d d' : δ} (hnd : (left ++ [d]).Nodup) (hd' : d' ∈ left)
    (h : (key d).1 <+: (key d').1) : ∃ v ∈ left, v ∉ unlink key left d := by
  obtain ⟨v, s, t, -, hv, hleft, herase⟩ := List.exists_of_eraseP hd' (hits_iff.mpr h)
  refine ⟨v, by simp [hleft], ?_⟩
  rw [unlink, List.eraseP_append_left (hits_iff.mpr h) _ hd', herase]
  rw [hleft, List.append_assoc, List.cons_append, List.nodup_middle, List.nodup_cons] at hnd
  simpa using hnd.1

/-- The removal of `d` does not hit `d'`, which is newer and to be kept. -/
def Spared (key : δ → CString) (rm : δ → Bool) (d' d : δ) : Prop :=
  rm d = true → rm d' = false → ¬(key d).1 <+: (key d').1

omit [DecidableEq δ] in
/-- The first removal that hits another entry loses one that was to be kept. -/
theorem remains_perm_iff (left post : List δ) (hleft : ∀ d ∈ left, rm d = false)
    (hnd : (left ++ post).Nodup) :
    (remains key rm left post).Perm (left ++ post.filter fun d => !rm d) ↔
      (left ++ post).Pairwise (Spared key rm) := by
  induction post generalizing left with
  | nil =>
      have hp : left.Pairwise (Spared key rm) := by
        rw [List.pairwise_iff_forall_sublist]
        intro d' d hsub hrm
        rw [hleft d (hsub.mem (by simp))] at hrm
        cases hrm
      simp [remains, hp]
  | cons d post ih =>
      have hsplit : left ++ d :: post = (left ++ [d]) ++ post := by simp
      cases hrm : rm d with
      | false =>
          have hleft' : ∀ d' ∈ left ++ [d], rm d' = false := by
            intro d' hd'
            rcases List.mem_append.mp hd' with hd' | hd'
            · exact hleft d' hd'
            · rwa [List.mem_singleton.mp hd']
          have := ih (left ++ [d]) hleft' (hsplit ▸ hnd)
          rw [hsplit, ← this]
          simp [remains, hrm]
      | true =>
          have hpair : (left ++ d :: post).Pairwise (Spared key rm) ↔
              (∀ d' ∈ left, ¬(key d).1 <+: (key d').1) ∧ (left ++ post).Pairwise (Spared key rm) := by
            have hd : ∀ d' ∈ post, Spared key rm d d' := fun d' _ _ hkeep => by
              rw [hrm] at hkeep
              cases hkeep
            have hdl : (∀ d' ∈ left, Spared key rm d' d) ↔ ∀ d' ∈ left, ¬(key d).1 <+: (key d').1 :=
              forall₂_congr fun d' hd' => by simp [Spared, hrm, hleft d' hd']
            rw [List.pairwise_append, List.pairwise_append, List.pairwise_cons, ← hdl]
            simp only [List.mem_cons, forall_eq_or_imp, forall_and]
            tauto
          rw [hpair]
          by_cases hhit : ∀ d' ∈ left, ¬(key d).1 <+: (key d').1
          · have hnd' : (left ++ post).Nodup := hnd.sublist ((List.sublist_cons_self d post).append_left _)
            rw [← ih left hleft hnd', and_iff_right hhit]
            simp [remains, hrm, unlink_eq_self hhit]
          · have hnot : ¬(remains key rm left (d :: post)).Perm
                (left ++ (d :: post).filter fun d => !rm d) := by
              intro hperm
              push Not at hhit
              obtain ⟨d', hd', hpre⟩ := hhit
              rw [hsplit] at hnd
              obtain ⟨v, hv, hout⟩ := exists_notMem_unlink (List.nodup_append.mp hnd).1 hd' hpre
              have hmem : v ∈ remains key rm left (d :: post) := hperm.mem_iff.mpr (by simp [hv])
              rw [remains, if_pos hrm] at hmem
              have hbehind : v ∈ unlink key left d ++ post := mem_of_mem_remains hmem
              rcases List.mem_append.mp hbehind with hmem | hmem
              · exact hout hmem
              · exact (List.nodup_append.mp hnd).2.2 v (by simp [hv]) v hmem rfl
            exact iff_of_false hnot fun h => hhit h.1

/-! ### The two loops of the callers -/

omit [DecidableEq δ] in
/-- A map holds one list of entries. -/
theorem holds_unique {m : HashMapT δ} {l l' : List (HashElem δ)} (h : Holds m l) (h' : Holds m l') :
    l = l' := by
  obtain ⟨as, ⟨cs, hc, hcs⟩, -, hm⟩ := h
  obtain ⟨as', ⟨cs', hc', hcs'⟩, -, hm'⟩ := h'
  have has : as.map some = as'.map some := by
    rw [← hcs, ← hcs', Cells.chain_unique hc hc']
  rw [List.map_injective_iff.mpr (Option.some_injective _) has] at hm
  exact List.map_injective_iff.mpr (Option.some_injective _) (hm.symm.trans hm')

/-- The loop from the first datum on. -/
theorem sweepMap_eq (u : DistinctMap δ) (rm : δ → Bool) (hlen : u.data.length < 2 ^ 32) {fuel : ℕ}
    (hf : u.data.length < fuel) :
    ∃ m', sweepMap fuel u.key rm u.map = some (u.data, m') ∧
      Holds m' ((remains u.key rm [] u.data).map (entry u.key)) := by
  have hfirst : getFirst fuel u.map = some u.data.head? := by
    rw [getFirst_eq u.holds (by simpa using hf)]
    cases u.data <;> rfl
  simp only [sweepMap, hfirst]
  exact sweepLoop_eq [] u.data u.holds u.nodup hf hlen (by omega)

/-- A loop that removes every entry empties the map. -/
theorem sweepMap_all (u : DistinctMap δ) (hlen : u.data.length < 2 ^ 32) {fuel : ℕ}
    (hf : u.data.length < fuel) :
    ∃ m', sweepMap fuel u.key (fun _ => true) u.map = some (u.data, m') ∧ Holds m' [] := by
  have hnone : ∀ post, remains u.key (fun _ => true) [] post = [] := by
    intro post
    induction post with
    | nil => rfl
    | cons d post ih =>
        rw [remains, if_pos rfl, unlink_eq_self (by simp), ih]
  obtain ⟨m', hloop, hm'⟩ := sweepMap_eq u (fun _ => true) hlen hf
  rw [hnone] at hm'
  exact ⟨m', hloop, hm'⟩

/-- What the callers expect, given turns enough: both loops end with NULL and visit every datum
once, and the entries left are those that were not to be removed. -/
def WellBehaved (u : DistinctMap δ) (rm : δ → Bool) : Prop :=
  ∀ fuel, u.data.length < fuel →
    (∃ visited, walkMap fuel u.map = some visited ∧ visited.Perm u.data) ∧
    ∃ (visited left : List δ) (m' : HashMapT δ),
      sweepMap fuel u.key rm u.map = some (visited, m') ∧ visited.Perm u.data ∧
      Holds m' (left.map (entry u.key)) ∧ left.Perm (u.data.filter fun d => !rm d)

/-- **The loops do what their callers expect** exactly when the count fits 32 bits and no entry that
is newer than a removed one and is to be kept has a key that begins with the removed one's. -/
theorem wellBehaved_iff (u : DistinctMap δ) (rm : δ → Bool) :
    WellBehaved u rm ↔ u.data.length < 2 ^ 32 ∧ u.data.Pairwise fun d' d =>
      rm d = true → rm d' = false → ¬(u.key d).1 <+: (u.key d').1 := by
  have hremains : (remains u.key rm [] u.data).Perm (u.data.filter fun d => !rm d) ↔
      u.data.Pairwise (Spared u.key rm) :=
    remains_perm_iff [] u.data (by simp) u.nodup
  constructor
  · intro h
    obtain ⟨⟨visited, hwalk, hperm⟩, visited', left, m', hsweep, -, hm', hleft⟩ :=
      h (u.data.length + 1) (by omega)
    rw [walk_eq u (by omega)] at hwalk
    obtain rfl := Option.some.inj hwalk
    have hlen := (reached_perm_iff u.data).mp hperm
    refine ⟨hlen, hremains.mp ?_⟩
    obtain ⟨m₁, hsweep₁, hm₁⟩ := sweepMap_eq u rm hlen (Nat.lt_succ_self _)
    obtain rfl : m₁ = m' := (Prod.mk.inj (Option.some.inj (hsweep₁.symm.trans hsweep))).2
    have hinj : Function.Injective (entry u.key) := fun d d' hd =>
      Option.some.inj (congrArg HashElem.data hd)
    rwa [List.map_injective_iff.mpr hinj (holds_unique hm₁ hm')]
  · rintro ⟨hlen, hspared⟩ fuel hf
    obtain ⟨m', hsweep, hm'⟩ := sweepMap_eq u rm hlen hf
    refine ⟨⟨_, walk_eq u hf, (reached_perm_iff _).mpr hlen⟩, ?_⟩
    exact ⟨u.data, _, m', hsweep, List.Perm.refl _, hm', hremains.mpr hspared⟩

end Walks

/-- A map to which "a" was added first and "ab" second. -/
def twoKeys : DistinctMap ℕ where
  map := (put (put create keyA (some 1) (some 1) (some 1)).1 keyAB (some 2) (some 2) (some 2)).1
  data := [2, 1]
  key d := if d = 1 then keyA else keyAB
  nodup := by decide
  holds := put_holds (put_holds holds_create keyA (some 1) rfl rfl) keyAB (some 2) rfl rfl

/-- A loop that removes the entry of "a" and keeps that of "ab" visits both, takes the entry of
"ab" and leaves that of "a". -/
theorem not_wellBehaved_twoKeys :
    ¬WellBehaved twoKeys (fun d => d = 1) ∧
      ∃ m', sweepMap 3 twoKeys.key (fun d => d = 1) twoKeys.map = some ([2, 1], m') ∧
        Holds m' [⟨some 1, keyA⟩] := by
  have hf : twoKeys.data.length < 3 := by decide
  obtain ⟨m', hsweep, hm'⟩ := sweepMap_eq twoKeys (fun d => d = 1) (by decide) hf
  have hleft : (remains twoKeys.key (fun d => d = 1) [] twoKeys.data).map (entry twoKeys.key) =
      [⟨some 1, keyA⟩] := rfl
  rw [hleft] at hm'
  refine ⟨fun h => ?_, m', hsweep, hm'⟩
  obtain ⟨-, visited, left, m₁, hsweep₁, -, hm₁, hperm⟩ := h 3 hf
  obtain rfl : m' = m₁ := (Prod.mk.inj (Option.some.inj (hsweep.symm.trans hsweep₁))).2
  have hkept : twoKeys.data.filter (fun d => !decide (d = 1)) = [2] := by decide
  rw [hkept, List.perm_singleton] at hperm
  have := holds_unique hm' hm₁
  rw [hperm] at this
  simp [entry] at this

end OneWifiTestSuite.HashMap
