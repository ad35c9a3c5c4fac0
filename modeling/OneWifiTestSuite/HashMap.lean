import OneWifiTestSuite.Queue
import Mathlib.Data.Finmap

/-!
# The hash map of `collection.c`

The map has no buckets: it is a queue of pointers to `hash_element_t`, searched from the head with
`strncmp(e->key, key, strlen(key))`, so an entry answers a request for every prefix of its key.
`put`, `get`, `remove` and `count` are translated over the queue of the `Queue` module, with the
memory of the elements beside it; `assert(tmp == e)` is a crash when it fails.

* `listStep` is what the calls do to the list of live entries, newest first
  (`step_refines_list`).
* `mapStep` is the purpose of the component, a finite map over whole strings.
* `find_prefix_eq_iff` says exactly for which lists the search by prefix finds the entry of the
  key itself, and `hash_map_refines_finmap` is the refinement under that condition.
-/

namespace OneWifiTestSuite.HashMap

open Runs Queue

/-! ### C strings -/

/-- A C string: its bytes up to the terminating NUL. -/
abbrev CString := { s : List UInt8 // (0 : UInt8) ∉ s }

/-- `strncmp(s, t, n)`, where the end of a list is the NUL that ends the string. -/
def strncmp : List UInt8 → List UInt8 → ℕ → ℤ
  | _, _, 0 => 0
  | [], [], _ + 1 => 0
  | [], b :: _, _ + 1 => -(b.toNat : ℤ)
  | a :: _, [], _ + 1 => a.toNat
  | a :: s, b :: t, n + 1 => if a = b then strncmp s t n else (a.toNat : ℤ) - b.toNat

/-- `strncmp(s, key, strlen(key)) == 0` is the test for a prefix. -/
theorem strncmp_eq_zero_iff (s : List UInt8) {t : List UInt8} (ht : (0 : UInt8) ∉ t) :
    strncmp s t t.length = 0 ↔ t <+: s := by
  induction t generalizing s with
  | nil =>
      cases s <;> simp [strncmp]
  | cons b t ih =>
      rw [List.mem_cons, not_or] at ht
      cases s with
      | nil =>
          have hb : b.toNat ≠ 0 := by
            intro h
            exact ht.1 (UInt8.toNat_inj.mp (by simpa using h.symm))
          simp [strncmp, hb]
      | cons a s =>
          rw [List.length_cons, strncmp, List.cons_prefix_cons]
          by_cases hab : a = b
          · simp [hab, ih s ht.2]
          · have hne : a.toNat ≠ b.toNat := fun h => hab (UInt8.toNat_inj.mp h)
            simp only [hab, if_false, Ne.symm hab, false_and, iff_false]
            omega

/-! ### The code -/

/-- `hash_element_t`. -/
structure HashElem (δ : Type) where
  data : Option δ
  key : CString

/-- `hash_map_t`: the queue of element pointers, and the memory of the elements. -/
structure HashMapT (δ : Type) where
  queue : QueueT ℕ
  elems : ℕ → Option (HashElem δ)

/-- The calls of the map interface; a put carries the answers of its two `malloc` calls, for the
element and for the queue cell. -/
inductive Op (δ : Type)
  | put (key : CString) (data : Option δ) (e cell : Option ℕ)
  | get (key : CString)
  | remove (key : CString)
  | count

section Code

variable {δ : Type}

/-- `hash_map_create`. -/
def create : HashMapT δ :=
  ⟨Queue.create, fun _ => none⟩

/-- The comparison of the search loops. -/
def keyMatches (key : CString) (e : HashElem δ) : Bool :=
  strncmp e.key.1 key.1 key.1.length = 0

/-- `hash_map_put`. -/
def put (m : HashMapT δ) (key : CString) (data : Option δ) (e cell : Option ℕ) : HashMapT δ × ℤ :=
  match e with
  | none => (m, -1)
  | some e =>
      (⟨(push m.queue (some e) cell).1, Function.update m.elems e (some ⟨data, key⟩)⟩,
        (push m.queue (some e) cell).2)

/-- The loop of `hash_map_get` and `hash_map_remove`: the index and the address of the first
element whose key matches. -/
def search (fuel : ℕ) (m : HashMapT δ) (key : CString) (count : BitVec 32) :
    ℕ → BitVec 32 → Option (Option (BitVec 32 × ℕ))
  | 0, _ => none
  | n + 1, i =>
      if i < count then
        match peek fuel m.queue i with
        | none => none
        | some none => search fuel m key count n (i + 1)
        | some (some e) =>
            match m.elems e with
            | none => none
            | some el => if keyMatches key el then some (some (i, e)) else search fuel m key count n (i + 1)
      else some none

/-- `hash_map_get`. -/
def get (fuel : ℕ) (m : HashMapT δ) (key : CString) : Option (Option δ) :=
  match Queue.count fuel m.queue with
  | none => none
  | some count =>
      if count = 0 then some none
      else
        match search fuel m key count fuel 0 with
        | none => none
        | some none => some none
        | some (some (_, e)) =>
            match m.elems e with
            | none => none
            | some el => some el.data

/-- `hash_map_remove`. -/
def remove (fuel : ℕ) (m : HashMapT δ) (key : CString) : Option (HashMapT δ × Option δ) :=
  match Queue.count fuel m.queue with
  | none => none
  | some count =>
      if count = 0 then some (m, none)
      else
        match search fuel m key count fuel 0 with
        | none => none
        | some none => some (m, none)
        | some (some (i, e)) =>
            match Queue.remove fuel m.queue i with
            | none => none
            | some (q, tmp) =>
                if tmp = some e then
                  match m.elems e with
                  | none => none
                  | some el => some (⟨q, Function.update m.elems e none⟩, el.data)
                else none

/-- `hash_map_count`. -/
def count (fuel : ℕ) (m : HashMapT δ) : Option (BitVec 32) :=
  Queue.count fuel m.queue

/-- One call of the interface. -/
def step (fuel : ℕ) (m : HashMapT δ) : Op δ → Option (HashMapT δ × Out δ)
  | .put key data e cell => some ((put m key data e cell).1, .code (put m key data e cell).2)
  | .get key => (get fuel m key).map fun r => (m, .data r)
  | .remove key => (remove fuel m key).map fun r => (r.1, .data r.2)
  | .count => (count fuel m).map fun n => (m, .num n.toNat)

end Code

/-! ### The list of live entries and the finite map -/

section Specs

variable {δ : Type}

/-- What a call does to the list of entries, newest first, while there are fewer than `2 ^ 32`. -/
def listStep (l : List (HashElem δ)) : Op δ → List (HashElem δ) × Out δ
  | .put key data (some _) (some _) => (⟨data, key⟩ :: l, .code 0)
  | .put .. => (l, .code (-1))
  | .get key => (l, .data ((l.find? (keyMatches key)).bind HashElem.data))
  | .remove key => (l.eraseP (keyMatches key), .data ((l.find? (keyMatches key)).bind HashElem.data))
  | .count => (l, .num l.length)

/-- The finite map over whole strings; a put whose allocation fails answers `-1` and changes
nothing. -/
def mapStep (f : Finmap fun _ : CString => Option δ) :
    Op δ → Finmap (fun _ : CString => Option δ) × Out δ
  | .put key data (some _) (some _) => (f.insert key data, .code 0)
  | .put .. => (f, .code (-1))
  | .get key => (f, .data (f.lookup key).join)
  | .remove key => (f.erase key, .data (f.lookup key).join)
  | .count => (f, .num f.keys.card)

theorem keyMatches_iff (key : CString) (e : HashElem δ) :
    keyMatches key e = true ↔ key.1 <+: e.key.1 := by
  simp [keyMatches, strncmp_eq_zero_iff e.key.1 key.2]

/-- The test for the whole key. -/
def isKey (key : CString) (e : HashElem δ) : Bool :=
  e.key = key

theorem keyMatches_of_isKey {key : CString} {e : HashElem δ} (h : isKey key e = true) :
    keyMatches key e = true := by
  have he : e.key = key := by simpa [isKey] using h
  rw [keyMatches_iff, he]

/-- Every live key that strictly extends `key` is older than a live entry of `key` itself. -/
def NoShadow (l : List (HashElem δ)) (key : CString) : Prop :=
  ∀ pre e post, l = pre ++ e :: post → key.1 <+: e.key.1 → e.key ≠ key →
    ∃ e' ∈ pre, e'.key = key

theorem NoShadow.head {l : List (HashElem δ)} {e : HashElem δ} {key : CString}
    (h : NoShadow (e :: l) key) (he : isKey key e = false) : keyMatches key e = false := by
  rw [← Bool.not_eq_true, keyMatches_iff]
  intro hpre
  obtain ⟨e', he', -⟩ := h [] e l rfl hpre (by simpa [isKey] using he)
  simp at he'

theorem NoShadow.tail {l : List (HashElem δ)} {e : HashElem δ} {key : CString}
    (h : NoShadow (e :: l) key) (he : isKey key e = false) : NoShadow l key := by
  intro pre e₁ post hl hpre hne
  obtain ⟨e', he', hk⟩ := h (e :: pre) e₁ post (by rw [hl]; rfl) hpre hne
  rcases List.mem_cons.mp he' with rfl | hmem
  · simp [isKey, hk] at he
  · exact ⟨e', hmem, hk⟩

/-- The search by prefix finds the entry of the key itself exactly when no newer entry shadows
it. -/
theorem find_prefix_eq_iff (l : List (HashElem δ)) (key : CString) :
    l.find? (keyMatches key) = l.find? (isKey key) ↔ NoShadow l key := by
  constructor
  · intro heq pre e post hl hpre hne
    by_contra hno
    push Not at hno
    have hnone : pre.find? (isKey key) = none := by
      rw [List.find?_eq_none]
      intro e' he'
      simpa [isKey] using hno e' he'
    obtain ⟨e₁, he₁⟩ : ∃ e₁, (pre ++ [e]).find? (keyMatches key) = some e₁ := by
      rw [← Option.isSome_iff_exists, List.find?_isSome]
      exact ⟨e, by simp, (keyMatches_iff key e).mpr hpre⟩
    have hl' : l = (pre ++ [e]) ++ post := by simp [hl]
    rw [hl', List.find?_append, he₁, Option.some_or] at heq
    have hkey : isKey key e₁ = true := List.find?_some heq.symm
    rcases List.mem_append.mp (List.mem_of_find?_eq_some he₁) with hmem | hmem
    · exact hno e₁ hmem (by simpa [isKey] using hkey)
    · rw [List.mem_singleton.mp hmem] at hkey
      exact hne (by simpa [isKey] using hkey)
  · intro h
    induction l with
    | nil =>
        rfl
    | cons e l ih =>
        cases he : isKey key e with
        | true =>
            simp [he, keyMatches_of_isKey he]
        | false =>
            simp [he, h.head he, ih (h.tail he)]

theorem eraseP_prefix_eq {l : List (HashElem δ)} {key : CString} (h : NoShadow l key) :
    l.eraseP (keyMatches key) = l.eraseP (isKey key) := by
  induction l with
  | nil =>
      rfl
  | cons e l ih =>
      cases he : isKey key e with
      | true =>
          simp [he, keyMatches_of_isKey he]
      | false =>
          simp [he, h.head he, ih (h.tail he)]

end Specs

/-! ### The memory refines the list -/

section Refinement

variable {δ : Type}

/-- The elements at the queued addresses are the entries `l`, newest first. -/
def Holds (m : HashMapT δ) (l : List (HashElem δ)) : Prop :=
  ∃ as : List ℕ, Queue.Holds m.queue (as.map some) ∧ as.Nodup ∧ as.map m.elems = l.map some

/-- `malloc` answers with addresses that are not in use. -/
def Fresh (m : HashMapT δ) : Op δ → Prop
  | .put _ _ e cell => (∀ a, e = some a → m.elems a = none) ∧ ∀ a, cell = some a → m.queue.mem a = none
  | _ => True

theorem fresh_put {m : HashMapT δ} {key : CString} {data : Option δ} {e c : ℕ} :
    Fresh m (.put key data (some e) (some c)) ↔ m.elems e = none ∧ m.queue.mem c = none := by
  simp [Fresh]

theorem holds_create : Holds (create : HashMapT δ) [] :=
  ⟨[], Queue.holds_create, List.nodup_nil, rfl⟩

section Search

variable {m : HashMapT δ} {as : List ℕ} {l : List (HashElem δ)} {fuel : ℕ}

theorem peek_elem (hq : Queue.Holds m.queue (as.map some)) (hlen : as.length < 2 ^ 32)
    (hf : as.length < fuel) {i : BitVec 32} {a : ℕ} (ha : as[i.toNat]? = some a) :
    peek fuel m.queue i = some (some a) := by
  obtain ⟨hi, -⟩ := List.getElem?_eq_some_iff.mp ha
  have hb : InBound (as.map some) i := by
    rw [inBound_iff (by simpa using hlen)]
    exact Or.inr (by simpa using hi)
  rw [peek_eq hq (by simpa using hf), if_pos hb, List.getElem?_map, ha]
  rfl

theorem lt_listCount (hlen : as.length < 2 ^ 32) {i : BitVec 32} :
    i < listCount (as.map some) ↔ i.toNat < as.length := by
  simp only [BitVec.lt_def, listCount, List.length_map, BitVec.toNat_ofNat, Nat.mod_eq_of_lt hlen]

/-- One turn of the search. -/
theorem search_turn (hq : Queue.Holds m.queue (as.map some)) (hm : as.map m.elems = l.map some)
    (hlen : as.length < 2 ^ 32) (hf : as.length < fuel) (key : CString) (n : ℕ) {i : BitVec 32}
    {a : ℕ} {e : HashElem δ} (ha : as[i.toNat]? = some a) (he : l[i.toNat]? = some e) :
    search fuel m key (listCount (as.map some)) (n + 1) i =
      if keyMatches key e then some (some (i, a))
      else search fuel m key (listCount (as.map some)) n (i + 1) := by
  have hlt : i < listCount (as.map some) :=
    (lt_listCount hlen).mpr (List.getElem?_eq_some_iff.mp ha).1
  have helem : m.elems a = some e := by
    have := congrArg (fun xs => xs[i.toNat]?) hm
    simpa [ha, he] using this
  simp only [search, hlt, if_true, peek_elem hq hlen hf ha, helem]

/-- The search passes over entries that do not match. -/
theorem search_skip (hq : Queue.Holds m.queue (as.map some)) (hm : as.map m.elems = l.map some)
    (hlen : as.length < 2 ^ 32) (hf : as.length < fuel) (key : CString) (n : ℕ)
    (s₁ s₂ : List (HashElem δ)) (hl : l = s₁ ++ s₂) (hno : ∀ e ∈ s₁, keyMatches key e = false) :
    search fuel m key (listCount (as.map some)) (n + s₁.length) 0 =
      search fuel m key (listCount (as.map some)) n (BitVec.ofNat 32 s₁.length) := by
  have hll : as.length = l.length := by simpa using congrArg List.length hm
  induction s₁ using List.reverseRecOn generalizing n s₂ with
  | nil =>
      rfl
  | append_singleton s₁ e ih =>
      have hk : (BitVec.ofNat 32 s₁.length).toNat = s₁.length := by
        rw [BitVec.toNat_ofNat, Nat.mod_eq_of_lt]
        rw [hll, hl] at hlen
        simp only [List.length_append] at hlen
        omega
      have he : l[(BitVec.ofNat 32 s₁.length).toNat]? = some e := by
        simp [hk, hl]
      obtain ⟨a, ha⟩ : ∃ a, as[(BitVec.ofNat 32 s₁.length).toNat]? = some a := by
        have hlt : (BitVec.ofNat 32 s₁.length).toNat < as.length := by
          rw [hk, hll, hl]
          simp
        exact ⟨_, List.getElem?_eq_getElem hlt⟩
      have hmiss : keyMatches key e = false := hno e (by simp)
      have hskip := ih (n + 1) (e :: s₂) (by simp [hl]) fun e' he' => hno e' (by simp [he'])
      rw [List.length_append, List.length_singleton, ← Nat.add_assoc, Nat.add_right_comm, hskip,
        search_turn hq hm hlen hf key n ha he, hmiss, if_neg (by simp), BitVec.ofNat_add]
      rfl

/-- No entry matches. -/
theorem search_none (hq : Queue.Holds m.queue (as.map some)) (hm : as.map m.elems = l.map some)
    (hlen : as.length < 2 ^ 32) (hf : as.length < fuel) {key : CString}
    (hno : l.find? (keyMatches key) = none) :
    search fuel m key (listCount (as.map some)) fuel 0 = some none := by
  have hll : as.length = l.length := by simpa using congrArg List.length hm
  obtain ⟨n, rfl⟩ : ∃ n, fuel = (n + 1) + l.length := ⟨fuel - l.length - 1, by omega⟩
  have hmiss : ∀ e ∈ l, keyMatches key e = false := by simpa using hno
  rw [search_skip hq hm hlen hf key (n + 1) l [] (by simp) hmiss]
  have hend : ¬BitVec.ofNat 32 l.length < listCount (as.map some) := by
    rw [lt_listCount hlen, BitVec.toNat_ofNat, Nat.mod_eq_of_lt (by omega)]
    omega
  simp only [search, hend, if_false]

/-- The first match is found, with its index and address. -/
theorem search_some (hq : Queue.Holds m.queue (as.map some)) (hm : as.map m.elems = l.map some)
    (hlen : as.length < 2 ^ 32) (hf : as.length < fuel) {key : CString} {s₁ s₂ : List (HashElem δ)}
    {e : HashElem δ} (hl : l = s₁ ++ e :: s₂) (hno : ∀ e ∈ s₁, keyMatches key e = false)
    (he : keyMatches key e = true) {t₁ t₂ : List ℕ} {a : ℕ} (has : as = t₁ ++ a :: t₂)
    (ht : t₁.length = s₁.length) :
    search fuel m key (listCount (as.map some)) fuel 0 =
      some (some (BitVec.ofNat 32 s₁.length, a)) := by
  have hll : as.length = l.length := by simpa using congrArg List.length hm
  have hlt : s₁.length < l.length := by simp [hl]
  have hk : (BitVec.ofNat 32 s₁.length).toNat = s₁.length := by
    rw [BitVec.toNat_ofNat, Nat.mod_eq_of_lt (by omega)]
  obtain ⟨n, hn⟩ : ∃ n, fuel = (n + 1) + s₁.length := ⟨fuel - s₁.length - 1, by omega⟩
  have hskip := search_skip hq hm hlen hf key (n + 1) s₁ (e :: s₂) hl hno
  rw [← hn] at hskip
  have ha : as[(BitVec.ofNat 32 s₁.length).toNat]? = some a := by
    rw [hk, has, ← ht]
    simp
  have he' : l[(BitVec.ofNat 32 s₁.length).toNat]? = some e := by
    rw [hk, hl]
    simp
  rw [hskip, search_turn hq hm hlen hf key n ha he', if_pos he]

end Search

/-- The first match splits the entries and their addresses at one place. -/
theorem exists_split {m : HashMapT δ} {as : List ℕ} {l : List (HashElem δ)}
    (hm : as.map m.elems = l.map some) {key : CString} {e : HashElem δ}
    (he : l.find? (keyMatches key) = some e) :
    ∃ s₁ s₂ t₁ a t₂, l = s₁ ++ e :: s₂ ∧ as = t₁ ++ a :: t₂ ∧ t₁.length = s₁.length ∧
      t₁.map m.elems = s₁.map some ∧ m.elems a = some e ∧ t₂.map m.elems = s₂.map some ∧
      (∀ e ∈ s₁, keyMatches key e = false) ∧ keyMatches key e = true := by
  obtain ⟨hmatch, s₁, s₂, rfl, hno⟩ := List.find?_eq_some_iff_append.mp he
  rw [List.map_append, List.map_cons] at hm
  obtain ⟨t₁, t, rfl, h₁, ht⟩ := List.map_eq_append_iff.mp hm
  obtain ⟨a, t₂, rfl, ha, h₂⟩ := List.map_eq_cons_iff.mp ht
  have hlen : t₁.length = s₁.length := by simpa using congrArg List.length h₁
  exact ⟨s₁, s₂, t₁, a, t₂, rfl, rfl, hlen, h₁, ha, h₂, by simpa using hno, hmatch⟩

theorem listCount_eq_zero_iff {l : List (Option ℕ)} (h : l.length < 2 ^ 32) :
    listCount l = 0 ↔ l = [] := by
  rw [← BitVec.toNat_inj, listCount, BitVec.toNat_ofNat, Nat.mod_eq_of_lt h]
  simp

/-- `hash_map_get` reads the first entry whose key has the requested one as a prefix. -/
theorem get_eq {m : HashMapT δ} {l : List (HashElem δ)} {fuel : ℕ} (h : Holds m l)
    (hlen : l.length < 2 ^ 32) (hf : l.length < fuel) (key : CString) :
    get fuel m key = some ((l.find? (keyMatches key)).bind HashElem.data) := by
  obtain ⟨as, hq, -, hm⟩ := h
  have hll : as.length = l.length := by simpa using congrArg List.length hm
  have hcount : Queue.count fuel m.queue = some (listCount (as.map some)) :=
    count_eq hq (by simpa [hll] using hf)
  unfold get
  by_cases hzero : listCount (as.map some) = 0
  · rw [listCount_eq_zero_iff (by simpa [hll] using hlen), List.map_eq_nil_iff] at hzero
    have hnil : l = [] := List.length_eq_zero_iff.mp (by simp [← hll, hzero])
    simp [hcount, hzero, hnil, listCount]
  · cases he : l.find? (keyMatches key) with
    | none =>
        simp only [hcount, hzero, if_false, search_none hq hm (hll ▸ hlen) (hll ▸ hf) he, Option.bind_none]
    | some e =>
        obtain ⟨s₁, s₂, t₁, a, t₂, hl, has, ht, -, ha, -, hno, hmatch⟩ := exists_split hm he
        simp only [hcount, hzero, if_false,
          search_some hq hm (hll ▸ hlen) (hll ▸ hf) hl hno hmatch has ht, ha, Option.bind_some]

theorem map_update_of_notMem {elems : ℕ → Option (HashElem δ)} {a : ℕ} {t : List ℕ} (h : a ∉ t)
    (x : Option (HashElem δ)) : t.map (Function.update elems a x) = t.map elems := by
  refine List.map_congr_left fun b hb => Function.update_of_ne ?_ _ _
  rintro rfl
  exact h hb

theorem notMem_of_free {elems : ℕ → Option (HashElem δ)} {as : List ℕ} {l : List (HashElem δ)}
    (hm : as.map elems = l.map some) {e : ℕ} (he : elems e = none) : e ∉ as := by
  intro hmem
  have : elems e ∈ l.map some := hm ▸ List.mem_map_of_mem hmem
  simp [he] at this

/-- Unlinking an element from the queue and freeing it takes its entry out. -/
theorem holds_unlink {q : QueueT ℕ} {elems : ℕ → Option (HashElem δ)} {t₁ t₂ : List ℕ} {a : ℕ}
    {s₁ s₂ : List (HashElem δ)} (hq : Queue.Holds q ((t₁ ++ t₂).map some))
    (hnd : (t₁ ++ a :: t₂).Nodup) (h₁ : t₁.map elems = s₁.map some) (h₂ : t₂.map elems = s₂.map some) :
    Holds ⟨q, Function.update elems a none⟩ (s₁ ++ s₂) := by
  obtain ⟨hnd', hout⟩ := List.nodup_middle.mp hnd |> List.nodup_cons.mp |>.symm
  rw [List.mem_append, not_or] at hout
  refine ⟨t₁ ++ t₂, hq, hnd', ?_⟩
  rw [List.map_append, List.map_append, map_update_of_notMem hout.1, map_update_of_notMem hout.2, h₁, h₂]

/-- `hash_map_remove` takes that entry out; its assertion holds. -/
theorem remove_holds {m : HashMapT δ} {l : List (HashElem δ)} {fuel : ℕ} (h : Holds m l)
    (hlen : l.length < 2 ^ 32) (hf : l.length < fuel) (key : CString) :
    ∃ m', remove fuel m key = some (m', (l.find? (keyMatches key)).bind HashElem.data) ∧
      Holds m' (l.eraseP (keyMatches key)) := by
  obtain ⟨as, hq, hnd, hm⟩ := h
  have hll : as.length = l.length := by simpa using congrArg List.length hm
  have hcount : Queue.count fuel m.queue = some (listCount (as.map some)) :=
    count_eq hq (by simpa [hll] using hf)
  unfold remove
  by_cases hzero : listCount (as.map some) = 0
  · have hnil : as = [] := by
      simpa using (listCount_eq_zero_iff (by simpa [hll] using hlen)).mp hzero
    subst hnil
    obtain rfl : l = [] := List.length_eq_zero_iff.mp (by simp [← hll])
    exact ⟨m, by simp [hcount, listCount], [], hq, hnd, rfl⟩
  · cases he : l.find? (keyMatches key) with
    | none =>
        rw [List.eraseP_of_forall_not (by simpa using he)]
        refine ⟨m, ?_, as, hq, hnd, hm⟩
        simp only [hcount, hzero, if_false, search_none hq hm (hll ▸ hlen) (hll ▸ hf) he, Option.bind_none]
    | some e =>
        obtain ⟨s₁, s₂, t₁, a, t₂, hl, has, ht, h₁, ha, h₂, hno, hmatch⟩ := exists_split hm he
        have hsearch := search_some hq hm (hll ▸ hlen) (hll ▸ hf) hl hno hmatch has ht
        have hk : (BitVec.ofNat 32 s₁.length).toNat = t₁.length := by
          rw [BitVec.toNat_ofNat, Nat.mod_eq_of_lt, ht]
          have : s₁.length < l.length := by simp [hl]
          omega
        obtain ⟨q, hrem, hq'⟩ := Queue.remove_holds hq (by simpa [hll] using hf)
          (BitVec.ofNat 32 s₁.length)
        have hb : InBound (as.map some) (BitVec.ofNat 32 s₁.length) := by
          rw [inBound_iff (by simpa [hll] using hlen), hk, has]
          simp
        rw [if_pos hb, hk, has] at hrem hq'
        have hdata : ((t₁ ++ a :: t₂).map some)[t₁.length]?.join = some a := by
          simp
        have herase : ((t₁ ++ a :: t₂).map some).eraseIdx t₁.length = (t₁ ++ t₂).map some := by
          simp [List.eraseIdx_append_of_length_le]
        rw [hdata] at hrem
        rw [herase] at hq'
        have herasel : l.eraseP (keyMatches key) = s₁ ++ s₂ := by
          rw [hl, List.eraseP_append_right _ (by simpa using hno), List.eraseP_cons_of_pos hmatch]
        rw [herasel]
        refine ⟨⟨q, Function.update m.elems a none⟩, ?_, holds_unlink hq' (has ▸ hnd) h₁ h₂⟩
        simp only [hcount, hzero, if_false, hsearch, hrem, if_true, ha, Option.bind_some]

/-- `hash_map_put` adds at the head, whatever keys are live. -/
theorem put_holds {m : HashMapT δ} {l : List (HashElem δ)} (h : Holds m l) (key : CString)
    (data : Option δ) {e c : ℕ} (he : m.elems e = none) (hc : m.queue.mem c = none) :
    Holds (put m key data (some e) (some c)).1 (⟨data, key⟩ :: l) := by
  obtain ⟨as, hq, hnd, hm⟩ := h
  have hout := notMem_of_free hm he
  refine ⟨e :: as, push_holds hq (some e) hc, List.nodup_cons.mpr ⟨hout, hnd⟩, ?_⟩
  rw [List.map_cons, List.map_cons, put, map_update_of_notMem hout, hm]
  simp

/-- A put whose cell cannot be allocated leaves the entries as they were. -/
theorem put_fails_holds {m : HashMapT δ} {l : List (HashElem δ)} (h : Holds m l) (key : CString)
    (data : Option δ) {e : ℕ} (he : m.elems e = none) :
    Holds (put m key data (some e) none).1 l := by
  obtain ⟨as, hq, hnd, hm⟩ := h
  exact ⟨as, hq, hnd, by rw [put, map_update_of_notMem (notMem_of_free hm he), hm]⟩

/-- **One call refines the list of entries**: it returns, with the list machine's answer, and the
map then holds the list machine's list. -/
theorem step_refines_list {fuel : ℕ} {m : HashMapT δ} {l : List (HashElem δ)} {op : Op δ}
    (h : Holds m l) (hlen : l.length < 2 ^ 32) (hf : l.length < fuel) (hfresh : Fresh m op) :
    ∃ m', step fuel m op = some (m', (listStep l op).2) ∧ Holds m' (listStep l op).1 := by
  cases op with
  | put key data e cell =>
      obtain ⟨he, hc⟩ := hfresh
      cases e with
      | none =>
          exact ⟨m, rfl, h⟩
      | some e =>
          cases cell with
          | none =>
              exact ⟨_, rfl, put_fails_holds h key data (he e rfl)⟩
          | some c =>
              refine ⟨_, ?_, put_holds h key data (he e rfl) (hc c rfl)⟩
              simp only [step, put, push_code, listStep]
  | get key =>
      exact ⟨m, by simp only [step, get_eq h hlen hf, Option.map_some, listStep], h⟩
  | remove key =>
      obtain ⟨m', hr, hh⟩ := remove_holds h hlen hf key
      exact ⟨m', by simp only [step, hr, Option.map_some, listStep], hh⟩
  | count =>
      obtain ⟨as, hq, hnd, hm⟩ := h
      have hll : as.length = l.length := by simpa using congrArg List.length hm
      refine ⟨m, ?_, as, hq, hnd, hm⟩
      rw [step, count, count_eq hq (by simpa [hll] using hf)]
      simp only [Option.map_some, listCount, List.length_map, hll, BitVec.toNat_ofNat,
        Nat.mod_eq_of_lt hlen, listStep]

end Refinement

/-! ### The map of whole strings -/

section Map

variable {δ : Type}

/-- The list of entries, with different keys, is the finite map. -/
def Represents (l : List (HashElem δ)) (f : Finmap fun _ : CString => Option δ) : Prop :=
  (l.map HashElem.key).Nodup ∧ ∀ k, f.lookup k = (l.find? (isKey k)).map HashElem.data

/-- The keys with which the map works as one of whole strings: a put only of a key that is not
live, a `get` or `remove` only of a key that no newer live key strictly extends (none at all when
it is not live itself). -/
def PlainKey (l : List (HashElem δ)) : Op δ → Prop
  | .put key _ (some _) (some _) => ∀ e ∈ l, e.key ≠ key
  | .put .. => True
  | .get key => NoShadow l key
  | .remove key => NoShadow l key
  | .count => True

theorem isKey_iff {key : CString} {e : HashElem δ} : isKey key e = true ↔ e.key = key := by
  simp [isKey]

theorem represents_nil : Represents ([] : List (HashElem δ)) ∅ :=
  ⟨List.nodup_nil, fun k => by simp⟩

theorem represents_card {l : List (HashElem δ)} {f : Finmap fun _ : CString => Option δ}
    (h : Represents l f) : f.keys.card = l.length := by
  have hkeys : f.keys = (l.map HashElem.key).toFinset := by
    ext k
    rw [Finmap.mem_keys, ← Finmap.lookup_isSome, h.2 k, Option.isSome_map, List.find?_isSome]
    simp [isKey]
  rw [hkeys, List.toFinset_card_of_nodup h.1, List.length_map]

theorem represents_put {l : List (HashElem δ)} {f : Finmap fun _ : CString => Option δ}
    (h : Represents l f) {key : CString} (hkey : ∀ e ∈ l, e.key ≠ key) (data : Option δ) :
    Represents (⟨data, key⟩ :: l) (f.insert key data) := by
  refine ⟨?_, fun k => ?_⟩
  · rw [List.map_cons, List.nodup_cons]
    refine ⟨?_, h.1⟩
    simpa using hkey
  · by_cases hk : k = key
    · subst hk
      simp [isKey]
    · have hk' : ¬key = k := fun e => hk e.symm
      rw [Finmap.lookup_insert_of_ne _ hk, h.2 k]
      simp [isKey, hk']

theorem find_eraseP_self {l : List (HashElem δ)} {key : CString} (h : (l.map HashElem.key).Nodup) :
    (l.eraseP (isKey key)).find? (isKey key) = none := by
  induction l with
  | nil =>
      rfl
  | cons e l ih =>
      rw [List.map_cons, List.nodup_cons] at h
      cases he : isKey key e with
      | true =>
          rw [List.eraseP_cons_of_pos he, List.find?_eq_none]
          intro e' he' hkey
          rw [isKey_iff] at he hkey
          exact h.1 (List.mem_map.mpr ⟨e', he', hkey.trans he.symm⟩)
      | false =>
          simp [he, ih h.2]

theorem find_eraseP_of_ne {k key : CString} (hk : k ≠ key) (l : List (HashElem δ)) :
    (l.eraseP (isKey key)).find? (isKey k) = l.find? (isKey k) := by
  induction l with
  | nil =>
      rfl
  | cons e l ih =>
      cases he : isKey key e with
      | true =>
          have hne : ¬isKey k e = true := by
            rw [isKey_iff] at he ⊢
            exact fun h => hk (h.symm.trans he)
          rw [List.eraseP_cons_of_pos he, List.find?_cons_of_neg hne]
      | false =>
          rw [List.eraseP_cons_of_neg (by simp [he]), List.find?_cons, List.find?_cons, ih]

theorem represents_remove {l : List (HashElem δ)} {f : Finmap fun _ : CString => Option δ}
    (h : Represents l f) (key : CString) : Represents (l.eraseP (isKey key)) (f.erase key) := by
  refine ⟨h.1.sublist (List.eraseP_sublist.map _), fun k => ?_⟩
  by_cases hk : k = key
  · subst hk
    rw [Finmap.lookup_erase, find_eraseP_self h.1]
    rfl
  · rw [Finmap.lookup_erase_ne hk, find_eraseP_of_ne hk, h.2 k]

/-- Under the condition the list of entries answers as the finite map and stays one. -/
theorem listStep_eq_mapStep {l : List (HashElem δ)} {f : Finmap fun _ : CString => Option δ}
    (h : Represents l f) {op : Op δ} (hp : PlainKey l op) :
    (listStep l op).2 = (mapStep f op).2 ∧ Represents (listStep l op).1 (mapStep f op).1 := by
  have hjoin : ∀ key, (f.lookup key).join = (l.find? (isKey key)).bind HashElem.data := by
    intro key
    rw [h.2 key]
    cases l.find? (isKey key) <;> rfl
  cases op with
  | put key data e cell =>
      cases e with
      | none =>
          exact ⟨rfl, h⟩
      | some e =>
          cases cell with
          | none =>
              exact ⟨rfl, h⟩
          | some c =>
              exact ⟨rfl, represents_put h hp data⟩
  | get key =>
      refine ⟨?_, h⟩
      simp only [listStep, mapStep, (find_prefix_eq_iff l key).mpr hp, hjoin]
  | remove key =>
      refine ⟨?_, ?_⟩
      · simp only [listStep, mapStep, (find_prefix_eq_iff l key).mpr hp, hjoin]
      · simp only [listStep, mapStep, eraseP_prefix_eq hp]
        exact represents_remove h key
  | count =>
      exact ⟨by simp only [listStep, mapStep, represents_card h], h⟩

theorem listStep_length_le (l : List (HashElem δ)) (op : Op δ) :
    (listStep l op).1.length ≤ l.length + 1 := by
  cases op with
  | put key data e cell =>
      cases e <;> cases cell <;> simp [listStep]
  | get key =>
      simp [listStep]
  | remove key =>
      have : (l.eraseP (keyMatches key)).length ≤ l.length := List.length_eraseP_le
      simp only [listStep]
      omega
  | count =>
      simp [listStep]

/-- The condition on the environment: `malloc` answers with addresses that are not in use, and
fewer than `2 ^ 32` entries are live before each call. -/
abbrev FitCalls (fuel : ℕ) (ops : List (Op δ)) : Prop :=
  Meets (step fuel) listStep (fun m l op => Fresh m op ∧ l.length < 2 ^ 32) create [] ops

/-- The condition on the keys, before each call. -/
abbrev PlainCalls (ops : List (Op δ)) : Prop :=
  Meets (total listStep) mapStep (fun l _ op => PlainKey l op) [] ∅ ops

theorem exec_refines_list {fuel : ℕ} {ops : List (Op δ)} (hf : ops.length < fuel)
    (hfit : FitCalls fuel ops) :
    ∃ m, exec (step fuel) create ops = some (m, (execTotal listStep [] ops).2) ∧
      Holds m (execTotal listStep [] ops).1 := by
  have hsim : ∀ n (m : HashMapT δ) l op, (Holds m l ∧ l.length + (n + 1) < fuel) →
      (Fresh m op ∧ l.length < 2 ^ 32) →
      ∃ m', step fuel m op = some (m', (listStep l op).2) ∧
        (Holds m' (listStep l op).1 ∧ (listStep l op).1.length + n < fuel) := by
    rintro n m l op ⟨hm, hlen⟩ ⟨hop, h32⟩
    have hlt : l.length < fuel := by omega
    obtain ⟨m', h, hh⟩ := step_refines_list hm h32 hlt hop
    have := listStep_length_le l op
    exact ⟨m', h, hh, by omega⟩
  obtain ⟨m, h, hm, -⟩ := exec_refines (R := fun n m l => Holds m l ∧ l.length + n < fuel) hsim
    (s := create) (t := []) ⟨holds_create, by simpa using hf⟩ hfit
  exact ⟨m, h, hm⟩

theorem execTotal_list_eq_map {ops : List (Op δ)} (hplain : PlainCalls ops) :
    (execTotal listStep [] ops).2 = (execTotal mapStep ∅ ops).2 ∧
      Represents (execTotal listStep [] ops).1 (execTotal mapStep ∅ ops).1 := by
  have hsim : ∀ (n : ℕ) (l : List (HashElem δ)) f op, Represents l f → PlainKey l op →
      ∃ l', total listStep l op = some (l', (mapStep f op).2) ∧ Represents l' (mapStep f op).1 := by
    intro n l f op hr hp
    obtain ⟨hout, hrep⟩ := listStep_eq_mapStep hr hp
    exact ⟨(listStep l op).1, by rw [← hout]; rfl, hrep⟩
  obtain ⟨l, h, hr⟩ := exec_refines (R := fun _ l f => Represents l f) hsim represents_nil hplain
  rw [exec_total] at h
  obtain ⟨hl, hout⟩ := Prod.mk.inj (Option.some.inj h)
  exact ⟨hout, hl ▸ hr⟩

/-- **The map refines a finite map over whole strings** on every list of calls that meets the
conditions: every call returns, with the finite map's answer. -/
theorem hash_map_refines_finmap {fuel : ℕ} {ops : List (Op δ)} (hf : ops.length < fuel)
    (hfit : FitCalls fuel ops) (hplain : PlainCalls ops) :
    ∃ m l, exec (step fuel) create ops = some (m, (execTotal mapStep ∅ ops).2) ∧ Holds m l ∧
      Represents l (execTotal mapStep ∅ ops).1 := by
  obtain ⟨m, h, hm⟩ := exec_refines_list hf hfit
  obtain ⟨hout, hr⟩ := execTotal_list_eq_map hplain
  exact ⟨m, _, by rw [h, hout], hm, hr⟩

/-- The strings "a" and "ab". -/
def keyA : CString := ⟨[97], by decide⟩

def keyAB : CString := ⟨[97, 98], by decide⟩

/-- The shorter key is the newer one, so both are found. -/
def plainCalls : List (Op ℕ) :=
  [.put keyAB (some 1) (some 1) (some 1), .put keyA (some 2) (some 2) (some 2), .get keyA,
    .remove keyA, .get keyAB, .count]

theorem hash_map_refines_finmap_plainCalls :
    ∃ m l, exec (step 7) create plainCalls = some (m, (execTotal mapStep ∅ plainCalls).2) ∧
      Holds m l ∧ Represents l (execTotal mapStep ∅ plainCalls).1 := by
  refine hash_map_refines_finmap (by decide) ?_ ?_
  · unfold FitCalls plainCalls
    refine meets_cons rfl ⟨fresh_put.mpr ⟨rfl, rfl⟩, by decide⟩ ?_
    refine meets_cons rfl ⟨fresh_put.mpr ⟨rfl, rfl⟩, by decide⟩ ?_
    repeat' refine meets_cons rfl ⟨trivial, by decide⟩ ?_
    trivial
  · unfold PlainCalls plainCalls
    refine meets_cons rfl (fun e he => absurd he List.not_mem_nil) ?_
    refine meets_cons rfl (fun e he => ?_) ?_
    · rw [List.mem_singleton.mp he]
      decide
    · refine meets_cons rfl ((find_prefix_eq_iff _ _).mp rfl) ?_
      refine meets_cons rfl ((find_prefix_eq_iff _ _).mp rfl) ?_
      refine meets_cons rfl ((find_prefix_eq_iff _ _).mp rfl) ?_
      exact meets_cons rfl trivial trivial

/-- A live key answers for its prefixes: after a put of "ab" alone, `get` of "a" returns that
value, and the finite map has nothing there. -/
theorem get_answers_prefix :
    (exec (step 3) create [.put keyAB (some 1) (some 1) (some 1), .get keyA]).map Prod.snd =
      some [Out.code 0, Out.data (some 1)] ∧
    (execTotal mapStep ∅ [.put keyAB (some 1) (some 1) (some 1), .get keyA]).2 =
      [Out.code 0, Out.data none] := by
  refine ⟨by decide, ?_⟩
  decide

end Map

end OneWifiTestSuite.HashMap
