import Mathlib.Data.List.Nodup
import Mathlib.Logic.Function.Basic
import Mathlib.Tactic

/-!
# Singly linked cells in a memory

A memory maps an address to a cell or to nothing, and a pointer is an address or `none` (the null
pointer). `Seg m p l q` says that from the pointer `p` the `next` fields run through the cells
listed in `l`, with their addresses and data, and arrive at `q`; `Chain` is a segment that ends in
the null pointer.

The rules a program over such cells needs are here once: segments split and join (`seg_append`),
a write or a free elsewhere leaves them alone (`seg_frame`, `seg_update`), the last
cell of a segment can be relinked (`seg_relink`), and the cells of a chain are pairwise different
(`chain_nodup`), so that a chain cannot be cyclic.
-/

namespace OneWifiTestSuite.Cells

/-- A list cell. -/
structure Cell (δ : Type*) where
  data : δ
  next : Option ℕ
deriving DecidableEq, Repr

/-- A memory of cells; `none` is an address that is not allocated. -/
abbrev Mem (δ : Type*) := ℕ → Option (Cell δ)

section Segments

variable {δ : Type*}

/-- The `next` fields run from `p` through the cells `l` to `q`. -/
def Seg (m : Mem δ) : Option ℕ → List (ℕ × δ) → Option ℕ → Prop
  | p, [], q => p = q
  | p, (a, d) :: l, q => p = some a ∧ ∃ n, m a = some ⟨d, n⟩ ∧ Seg m n l q

/-- A segment that ends in the null pointer. -/
def Chain (m : Mem δ) (p : Option ℕ) (l : List (ℕ × δ)) : Prop :=
  Seg m p l none

variable {m : Mem δ} {p q : Option ℕ} {l : List (ℕ × δ)}

@[simp]
theorem seg_nil : Seg m p [] q ↔ p = q := Iff.rfl

@[simp]
theorem seg_cons {a : ℕ} {d : δ} :
    Seg m p ((a, d) :: l) q ↔ p = some a ∧ ∃ n, m a = some ⟨d, n⟩ ∧ Seg m n l q := Iff.rfl

theorem chain_iff : Chain m p l ↔ Seg m p l none := Iff.rfl

/-- Segments split and join. -/
theorem seg_append {l₁ l₂ : List (ℕ × δ)} :
    Seg m p (l₁ ++ l₂) q ↔ ∃ r, Seg m p l₁ r ∧ Seg m r l₂ q := by
  induction l₁ generalizing p with
  | nil =>
      simp
  | cons x l₁ ih =>
      obtain ⟨a, d⟩ := x
      simp only [List.cons_append, seg_cons, ih]
      constructor
      · rintro ⟨rfl, n, hn, r, h₁, h₂⟩
        exact ⟨r, ⟨rfl, n, hn, h₁⟩, h₂⟩
      · rintro ⟨r, ⟨rfl, n, hn, h₁⟩, h₂⟩
        exact ⟨rfl, n, hn, r, h₁, h₂⟩

/-- Two memories that agree on the cells of a segment have it both or neither. -/
theorem seg_frame {m' : Mem δ} (h : ∀ x ∈ l, m' x.1 = m x.1) : Seg m' p l q ↔ Seg m p l q := by
  induction l generalizing p with
  | nil =>
      simp
  | cons x l ih =>
      obtain ⟨a, d⟩ := x
      have ha : m' a = m a := h (a, d) (by simp)
      have hl : ∀ n, Seg m' n l q ↔ Seg m n l q :=
        fun n => ih (fun y hy => h y (List.mem_cons_of_mem _ hy))
      simp only [seg_cons, ha, hl]

/-- A write to (or a free of) an address outside a segment keeps it. -/
theorem seg_update {a : ℕ} {c : Option (Cell δ)} (ha : a ∉ l.map Prod.fst) (h : Seg m p l q) :
    Seg (Function.update m a c) p l q := by
  refine (seg_frame fun x hx => ?_).mpr h
  have : x.1 ≠ a := fun e => ha (e ▸ List.mem_map_of_mem hx)
  exact Function.update_of_ne this _ _

/-- The addresses of a segment are allocated. -/
theorem seg_allocated (h : Seg m p l q) {a : ℕ} (ha : a ∈ l.map Prod.fst) : m a ≠ none := by
  induction l generalizing p with
  | nil =>
      simp at ha
  | cons x l ih =>
      obtain ⟨b, d⟩ := x
      obtain ⟨-, n, hn, h⟩ := h
      rcases List.mem_cons.mp ha with rfl | ha
      · simp [hn]
      · exact ih h ha

/-- A chain is determined by its first pointer. -/
theorem chain_unique {l' : List (ℕ × δ)} (h : Chain m p l) (h' : Chain m p l') : l = l' := by
  induction l generalizing p l' with
  | nil =>
      cases l' with
      | nil =>
          rfl
      | cons x l' =>
          obtain ⟨a, d⟩ := x
          rw [chain_iff, seg_nil] at h
          have := h'.1
          simp_all
  | cons x l ih =>
      obtain ⟨a, d⟩ := x
      obtain ⟨rfl, n, hn, h⟩ := h
      cases l' with
      | nil =>
          rw [chain_iff, seg_nil] at h'
          cases h'
      | cons x' l' =>
          obtain ⟨a', d'⟩ := x'
          obtain ⟨he, n', hn', h'⟩ := h'
          cases he
          rw [hn] at hn'
          cases hn'
          rw [ih h h']

/-- The cells of a chain are pairwise different: a repeated one would start two chains of
different lengths. -/
theorem chain_nodup (h : Chain m p l) : (l.map Prod.fst).Nodup := by
  induction l generalizing p with
  | nil =>
      simp
  | cons x l ih =>
      obtain ⟨a, d⟩ := x
      obtain ⟨rfl, n, hn, htail⟩ := h
      rw [List.map_cons, List.nodup_cons]
      refine ⟨fun ha => ?_, ih htail⟩
      obtain ⟨⟨a', d'⟩, hmem, rfl⟩ := List.mem_map.mp ha
      obtain ⟨l₁, l₂, rfl⟩ := List.append_of_mem hmem
      obtain ⟨r, -, h₂⟩ := seg_append.mp htail
      have hr : r = some a' := h₂.1
      subst hr
      have hself : Chain m (some a') ((a', d) :: (l₁ ++ (a', d') :: l₂)) := ⟨rfl, n, hn, htail⟩
      have := congrArg List.length (chain_unique hself h₂)
      simp at this
      omega

/-- Relinking the last cell of a segment moves the segment's end. -/
theorem seg_relink {a : ℕ} {d : δ} {q' : Option ℕ} (ha : a ∉ l.map Prod.fst)
    (h : Seg m p (l ++ [(a, d)]) q) :
    Seg (Function.update m a (some ⟨d, q'⟩)) p (l ++ [(a, d)]) q' := by
  obtain ⟨r, h₁, h₂⟩ := seg_append.mp h
  refine seg_append.mpr ⟨r, seg_update ha h₁, h₂.1, q', ?_, rfl⟩
  simp

end Segments

end OneWifiTestSuite.Cells
