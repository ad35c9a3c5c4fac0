import Mathlib.Data.List.Basic
import Mathlib.Tactic

/-!
# Accesses to memory

A run of a copying program leaves a list of accesses, each `len` bytes from `off` of some buffer.
`Inside` says that all of them stay within the capacities of their buffers; it splits over the parts
of the list (`inside_append`) and follows from smaller capacities (`Inside.mono`).
-/

namespace OneWifiTestSuite.Accesses

structure Access (β : Type*) where
  buf : β
  off : ℕ
  len : ℕ
deriving DecidableEq, Repr

/-- Every access ends within the capacity of its buffer. -/
def Inside {β : Type*} (cap : β → ℕ) (log : List (Access β)) : Prop :=
  ∀ x ∈ log, x.off + x.len ≤ cap x.buf

section Logs

variable {β : Type*} {cap cap' : β → ℕ} {x : Access β} {log log' : List (Access β)}

instance : Decidable (Inside cap log) :=
  inferInstanceAs (Decidable (∀ x ∈ log, x.off + x.len ≤ cap x.buf))

@[simp]
theorem inside_nil : Inside cap ([] : List (Access β)) := by
  simp [Inside]

@[simp]
theorem inside_cons : Inside cap (x :: log) ↔ x.off + x.len ≤ cap x.buf ∧ Inside cap log := by
  simp [Inside]

@[simp]
theorem inside_append : Inside cap (log ++ log') ↔ Inside cap log ∧ Inside cap log' := by
  simp only [Inside, List.mem_append]
  constructor
  · intro h
    exact ⟨fun x hx => h x (Or.inl hx), fun x hx => h x (Or.inr hx)⟩
  · rintro ⟨h, h'⟩ x (hx | hx)
    · exact h x hx
    · exact h' x hx

theorem Inside.mono (h : Inside cap log) (hcap : ∀ b, cap b ≤ cap' b) : Inside cap' log :=
  fun x hx => (h x hx).trans (hcap x.buf)

end Logs

end OneWifiTestSuite.Accesses
