import Mathlib.Data.List.Basic
import Mathlib.Tactic

/-!
# Runs of labelled machines

Two kinds of machine are used in this development, and both are deterministic once the label is
known: what a program leaves to its environment (which thread moves, what an allocator or a call
answers) is part of the label, so that quantifying over label lists quantifies over all of it.

* A **transition system** `next : σ → α → Option σ` steps from state to state; `none` says that
  the label is not enabled. `Run` is reachability by steps that all meet a condition `C` on the
  state before the step and the label, and `run_invariant` is the invariant rule. A measure that
  every step makes smaller bounds all runs (`length_le_of_measure`).
* An **operation machine** `step : σ → α → Option (σ × β)` answers every label with an output;
  `none` is a crash (or a loop without end). `exec` runs a list of labels, `Meets` says that the
  condition `C` holds before each of them, and `exec_refines` is the forward simulation rule
  against a total abstract machine.

`run_of_execTo` ties the relation `Run` to the executable `execTo`, so that a concrete run can be
given as a list of labels and evaluated.
-/

namespace OneWifiTestSuite.Runs

section Systems

variable {σ α : Type*}

/-- Reachability by enabled steps that all meet `C`. -/
inductive Run (next : σ → α → Option σ) (C : σ → α → Prop) : σ → σ → Prop
  | refl (s : σ) : Run next C s s
  | step {s t u : σ} {a : α} : Run next C s t → C t a → next t a = some u → Run next C s u

/-- The state reached by a list of labels, if each is enabled in its turn. -/
def execTo (next : σ → α → Option σ) : σ → List α → Option σ
  | s, [] => some s
  | s, a :: as =>
      match next s a with
      | none => none
      | some t => execTo next t as

variable {next : σ → α → Option σ} {C : σ → α → Prop}

@[simp]
theorem execTo_nil (s : σ) : execTo next s [] = some s := rfl

theorem execTo_cons (s : σ) (a : α) (as : List α) :
    execTo next s (a :: as) = (next s a).bind fun t => execTo next t as := by
  cases h : next s a with
  | none =>
      simp [execTo, h]
  | some t =>
      simp [execTo, h]

theorem execTo_append (s : σ) (as bs : List α) :
    execTo next s (as ++ bs) = (execTo next s as).bind fun t => execTo next t bs := by
  induction as generalizing s with
  | nil =>
      simp
  | cons a as ih =>
      rw [List.cons_append, execTo_cons, execTo_cons]
      cases h : next s a with
      | none =>
          simp
      | some t =>
          simpa using ih t

theorem Run.single {s t : σ} {a : α} (hC : C s a) (h : next s a = some t) : Run next C s t :=
  .step (.refl s) hC h

theorem Run.trans {s t u : σ} (h : Run next C s t) (h' : Run next C t u) : Run next C s u := by
  induction h' with
  | refl =>
      exact h
  | step _ hC hstep ih =>
      exact .step ih hC hstep

/-- A run that meets a condition also meets every weaker one. -/
theorem Run.mono {D : σ → α → Prop} (hCD : ∀ s a, C s a → D s a) {s t : σ}
    (h : Run next C s t) : Run next D s t := by
  induction h with
  | refl =>
      exact .refl _
  | step _ hC hstep ih =>
      exact .step ih (hCD _ _ hC) hstep

/-- **The invariant rule**: what every step under the condition preserves holds of every state of
a run that starts with it. -/
theorem run_invariant {I : σ → Prop}
    (hstep : ∀ s a t, I s → C s a → next s a = some t → I t)
    {s t : σ} (h : Run next C s t) (hs : I s) : I t := by
  induction h with
  | refl =>
      exact hs
  | step _ hC hnext ih =>
      exact hstep _ _ _ ih hC hnext

/-- An executed label list is a run (with no condition on the steps). -/
theorem run_of_execTo {s t : σ} {as : List α} (h : execTo next s as = some t) :
    Run next (fun _ _ => True) s t := by
  induction as generalizing s with
  | nil =>
      cases h
      exact .refl _
  | cons a as ih =>
      rw [execTo_cons] at h
      obtain ⟨u, hu, ht⟩ := Option.bind_eq_some_iff.mp h
      exact (Run.single trivial hu).trans (ih ht)

/-- Steps that do not meet the condition are not enabled. -/
def guarded (next : σ → α → Option σ) (C : σ → α → Prop) [∀ s a, Decidable (C s a)] (s : σ) (a : α) : Option σ :=
  if C s a then next s a else none

/-- An executed label list whose steps all meet the condition is a run under it. -/
theorem run_of_guarded [∀ s a, Decidable (C s a)] {s t : σ} {as : List α}
    (h : execTo (guarded next C) s as = some t) : Run next C s t := by
  induction as generalizing s with
  | nil =>
      cases h
      exact .refl _
  | cons a as ih =>
      rw [execTo_cons] at h
      obtain ⟨u, hu, ht⟩ := Option.bind_eq_some_iff.mp h
      unfold guarded at hu
      split_ifs at hu with hC
      exact (Run.single hC hu).trans (ih ht)

theorem execTo_of_guarded [∀ s a, Decidable (C s a)] {s t : σ} {as : List α}
    (h : execTo (guarded next C) s as = some t) : execTo next s as = some t := by
  induction as generalizing s with
  | nil =>
      exact h
  | cons a as ih =>
      rw [execTo_cons] at h ⊢
      obtain ⟨u, hu, ht⟩ := Option.bind_eq_some_iff.mp h
      unfold guarded at hu
      split_ifs at hu
      rw [hu]
      exact ih ht

/-- Where every step makes a measure smaller, the measure bounds the length of every run. -/
theorem length_le_of_measure {I : σ → Prop} {μ : σ → ℕ}
    (hstep : ∀ s a t, I s → next s a = some t → I t ∧ μ t < μ s)
    {s t : σ} {as : List α} (h : execTo next s as = some t) (hs : I s) : as.length ≤ μ s := by
  induction as generalizing s with
  | nil =>
      exact Nat.zero_le _
  | cons a as ih =>
      rw [execTo_cons] at h
      obtain ⟨u, hu, ht⟩ := Option.bind_eq_some_iff.mp h
      obtain ⟨hI, hlt⟩ := hstep s a u hs hu
      have hle := ih ht hI
      rw [List.length_cons]
      omega

/-- Where every step makes a measure smaller, every state runs into one that can move no more. -/
theorem exists_stuck_of_measure {I : σ → Prop} {μ : σ → ℕ}
    (hstep : ∀ s a t, I s → next s a = some t → I t ∧ μ t < μ s) {s : σ} (hs : I s) :
    ∃ t, Run next (fun _ _ => True) s t ∧ I t ∧ ∀ a, next t a = none := by
  induction hμ : μ s using Nat.strong_induction_on generalizing s with
  | _ n ih =>
      by_cases hstuck : ∀ a, next s a = none
      · exact ⟨s, .refl s, hs, hstuck⟩
      · rw [not_forall] at hstuck
        obtain ⟨a, ha⟩ := hstuck
        obtain ⟨u, hu⟩ := Option.ne_none_iff_exists'.mp ha
        obtain ⟨hI, hlt⟩ := hstep s a u hs hu
        obtain ⟨t, hrun, ht⟩ := ih (μ u) (by omega) hI rfl
        exact ⟨t, (Run.single trivial hu).trans hrun, ht⟩

end Systems

section Machines

variable {σ τ α β : Type*}

/-- The final state and the outputs of a list of labels; `none` when one of them crashes. -/
def exec (step : σ → α → Option (σ × β)) : σ → List α → Option (σ × List β)
  | s, [] => some (s, [])
  | s, a :: as =>
      match step s a with
      | none => none
      | some (t, b) =>
          match exec step t as with
          | none => none
          | some (u, bs) => some (u, b :: bs)

/-- The final state and the outputs of a list of labels on a total machine. -/
def execTotal (step : τ → α → τ × β) : τ → List α → τ × List β
  | s, [] => (s, [])
  | s, a :: as =>
      let r := step s a
      let r' := execTotal step r.1 as
      (r'.1, r.2 :: r'.2)

/-- The condition `C` holds before each label, along the executions of a concrete machine from `s`
and of an abstract one from `t`. -/
def Meets (step : σ → α → Option (σ × β)) (astep : τ → α → τ × β) (C : σ → τ → α → Prop) :
    σ → τ → List α → Prop
  | _, _, [] => True
  | s, t, a :: as => C s t a ∧ ∀ s' b, step s a = some (s', b) → Meets step astep C s' (astep t a).1 as

variable {step : σ → α → Option (σ × β)} {astep : τ → α → τ × β} {C : σ → τ → α → Prop}

theorem exec_cons {s t u : σ} {a : α} {as : List α} {b : β} {bs : List β}
    (h : step s a = some (t, b)) (h' : exec step t as = some (u, bs)) :
    exec step s (a :: as) = some (u, b :: bs) := by
  simp only [exec, h, h']

theorem meets_cons {s s' : σ} {t : τ} {a : α} {as : List α} {b : β} (h : step s a = some (s', b))
    (hC : C s t a) (hm : Meets step astep C s' (astep t a).1 as) :
    Meets step astep C s t (a :: as) := by
  refine ⟨hC, fun u c hu => ?_⟩
  rw [h] at hu
  cases hu
  exact hm

/-- A total machine, as a machine that never crashes. -/
def total (astep : τ → α → τ × β) : τ → α → Option (τ × β) :=
  fun t a => some (astep t a)

theorem exec_total (t : τ) (as : List α) :
    exec (total astep) t as = some (execTotal astep t as) := by
  induction as generalizing t with
  | nil =>
      rfl
  | cons a as ih =>
      exact exec_cons rfl (ih _)

/-- **The simulation rule**: if under the condition every operation of the concrete machine
returns, answers as the abstract machine does and keeps the relation, then so does every list of
operations whose members all meet the condition. The relation may depend on how many operations
are still to come (a budget, for loops that are given fuel). -/
theorem exec_refines {R : ℕ → σ → τ → Prop}
    (hsim : ∀ n s t a, R (n + 1) s t → C s t a →
      ∃ s', step s a = some (s', (astep t a).2) ∧ R n s' (astep t a).1)
    {s : σ} {t : τ} {as : List α} (hR : R as.length s t) (hm : Meets step astep C s t as) :
    ∃ s', exec step s as = some (s', (execTotal astep t as).2) ∧ R 0 s' (execTotal astep t as).1 := by
  induction as generalizing s t with
  | nil =>
      exact ⟨s, rfl, hR⟩
  | cons a as ih =>
      obtain ⟨hC, hrest⟩ := hm
      obtain ⟨s₁, hs₁, hR₁⟩ := hsim as.length s t a hR hC
      obtain ⟨s₂, hs₂, hR₂⟩ := ih hR₁ (hrest s₁ _ hs₁)
      exact ⟨s₂, exec_cons hs₁ hs₂, hR₂⟩

end Machines

end OneWifiTestSuite.Runs
