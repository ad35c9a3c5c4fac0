import OneWifiTestSuite.Runs

/-!
# Programs over a shared cell

A `Prog` is a program cut at its reads and writes of one cell that other programs read and write
too; what a call outside answers is left open. An `Object` has jobs, which one thread runs one
after the other on the data of the object, and agents: threads that a job spawns, or handlers that
an event starts while the object listens. `next` interleaves the reads and writes of all of them.

`Sat W G Q p s` is a rely-guarantee judgement. Run from a cell with value `s`, while others may
write values that meet `W`, every write of `p` meets `G` and the result meets `Q`. `May` is its
counterpart for single runs. The rules of the library are:

* `guarantee_of_run`: where every job satisfies its judgement, every change of the cell in every
  run is one the judgements allow.
* `ends_of_measure`: a tick job that makes a measure smaller is run finitely often (`Ends`).
* `exists_break`, `not_ends_of_may`: the two negative counterparts.
-/

namespace OneWifiTestSuite.SharedCell

open Runs

/-- A program over a cell of values in `σ` whose outside calls answer in `ρ`. -/
inductive Prog (σ ρ α : Type)
  | pure (a : α)
  | read (k : σ → Prog σ ρ α)
  | write (v : σ) (k : Prog σ ρ α)
  | call (k : ρ → Prog σ ρ α)
  | spawn (k : Prog σ ρ α)
  | listen (on : Bool) (k : Prog σ ρ α)
  | cancel (k : Prog σ ρ α)

variable {σ ρ δ ι α β : Type}

section Programs

def Prog.bind : Prog σ ρ α → (α → Prog σ ρ β) → Prog σ ρ β
  | .pure a, f => f a
  | .read k, f => .read fun s => (k s).bind f
  | .write v k, f => .write v (k.bind f)
  | .call k, f => .call fun r => (k r).bind f
  | .spawn k, f => .spawn (k.bind f)
  | .listen on k, f => .listen on (k.bind f)
  | .cancel k, f => .cancel (k.bind f)

instance : Monad (Prog σ ρ) where
  pure := .pure
  bind := Prog.bind

def readCell : Prog σ ρ σ := .read .pure

def writeCell (v : σ) : Prog σ ρ Unit := .write v (.pure ())

/-- A call outside. -/
def ask : Prog σ ρ ρ := .call .pure

/-- Starts an agent thread. -/
def spawn : Prog σ ρ Unit := .spawn (.pure ())

/-- From now on, or no longer, events start an agent. -/
def listen (on : Bool) : Prog σ ρ Unit := .listen on (.pure ())

/-- Lets the agents be cancelled. -/
def cancel : Prog σ ρ Unit := .cancel (.pure ())

end Programs

section Judgements

/-- The cell after others may have written a value that meets `W`. -/
def Env (W : σ → Prop) (s s' : σ) : Prop :=
  s' = s ∨ W s'

/-- Nobody else writes. -/
def Alone : σ → Prop := fun _ => False

@[simp]
theorem env_alone {s s' : σ} : Env Alone s s' ↔ s' = s := by
  simp [Env, Alone]

theorem Env.refl (W : σ → Prop) (s : σ) : Env W s s := .inl rfl

theorem Env.trans {W : σ → Prop} {s s' s'' : σ} (h : Env W s s') (h' : Env W s' s'') : Env W s s'' := by
  rcases h' with rfl | h'
  · exact h
  · exact .inr h'

/-- **The rely-guarantee judgement**: while others write only values that meet `W`, the writes meet
`G` and the result meets `Q`. -/
def Sat (W : σ → Prop) (G : σ → σ → Prop) (Q : α → σ → Prop) : Prog σ ρ α → σ → Prop
  | .pure a, s => ∀ s', Env W s s' → Q a s'
  | .read k, s => ∀ s', Env W s s' → Sat W G Q (k s') s'
  | .write v k, s => (∀ s', Env W s s' → G s' v) ∧ Sat W G Q k v
  | .call k, s => ∀ r, Sat W G Q (k r) s
  | .spawn k, s => Sat W G Q k s
  | .listen _ k, s => Sat W G Q k s
  | .cancel k, s => Sat W G Q k s

/-- Every value written meets `W`. -/
def Writes (W : σ → Prop) : Prog σ ρ α → Prop
  | .pure _ => True
  | .read k => ∀ s, Writes W (k s)
  | .write v k => W v ∧ Writes W k
  | .call k => ∀ r, Writes W (k r)
  | .spawn k => Writes W k
  | .listen _ k => Writes W k
  | .cancel k => Writes W k

/-- Some answers let the program, alone, end in `Q`. -/
def Plain (Q : α → σ → Prop) : Prog σ ρ α → σ → Prop
  | .pure a, s => Q a s
  | .read k, s => Plain Q (k s) s
  | .write v k, _ => Plain Q k v
  | .call k, s => ∃ r, Plain Q (k r) s
  | .spawn _, _ => False
  | .listen _ k, s => Plain Q k s
  | .cancel k, s => Plain Q k s

/-- Some answers let the program end in `Q` or make a write that meets `B`. An agent runs to its end
as soon as it can start. -/
def May (agent : Prog σ ρ Bool) (B : σ → σ → Prop) (Q : α → σ → Prop) : Prog σ ρ α → σ → Prop
  | .pure a, s => Q a s
  | .read k, s => May agent B Q (k s) s
  | .write v k, s => B s v ∨ May agent B Q k v
  | .call k, s => ∃ r, May agent B Q (k r) s
  | .spawn k, s => Plain (fun on s' => on = false ∧ May agent B Q k s') agent s
  | .listen on k, s =>
      May agent B Q k s ∨ on = true ∧ Plain (fun on s' => on = false ∧ May agent B Q k s') agent s
  | .cancel k, s => May agent B Q k s

variable {W : σ → Prop} {G : σ → σ → Prop} {Q : α → σ → Prop}

/-- A judgement survives what others may write. -/
theorem Sat.env {p : Prog σ ρ α} {s s' : σ} (h : Sat W G Q p s) (henv : Env W s s') : Sat W G Q p s' := by
  induction p generalizing s with
  | pure a =>
      exact fun t ht => h t (henv.trans ht)
  | read k =>
      exact fun t ht => h t (henv.trans ht)
  | write v k =>
      exact ⟨fun t ht => h.1 t (henv.trans ht), h.2⟩
  | call k ih =>
      exact fun r => ih r (h r) henv
  | spawn k ih =>
      exact ih h henv
  | listen on k ih =>
      exact ih h henv
  | cancel k ih =>
      exact ih h henv

theorem Sat.mono {Q' : α → σ → Prop} {p : Prog σ ρ α} {s : σ} (h : Sat W G Q p s)
    (hQ : ∀ a t, Q a t → Q' a t) : Sat W G Q' p s := by
  induction p generalizing s with
  | pure a =>
      exact fun t ht => hQ a t (h t ht)
  | read k ih =>
      exact fun t ht => ih t (h t ht)
  | write v k ih =>
      exact ⟨h.1, ih h.2⟩
  | call k ih =>
      exact fun r => ih r (h r)
  | spawn k ih =>
      exact ih h
  | listen on k ih =>
      exact ih h
  | cancel k ih =>
      exact ih h

/-- The result holds whatever others write after it. -/
theorem Sat.stable {p : Prog σ ρ α} {s : σ} (h : Sat W G Q p s) :
    Sat W G (fun a t => ∀ t', Env W t t' → Q a t') p s := by
  induction p generalizing s with
  | pure a =>
      exact fun t ht t' ht' => h t' (ht.trans ht')
  | read k ih =>
      exact fun t ht => ih t (h t ht)
  | write v k ih =>
      exact ⟨h.1, ih h.2⟩
  | call k ih =>
      exact fun r => ih r (h r)
  | spawn k ih =>
      exact ih h
  | listen on k ih =>
      exact ih h
  | cancel k ih =>
      exact ih h

@[simp]
theorem sat_true {p : Prog σ ρ α} {s : σ} : Sat W (fun _ _ => True) (fun _ _ => True) p s := by
  induction p generalizing s with
  | pure a =>
      exact fun _ _ => trivial
  | read k ih =>
      exact fun t _ => ih t
  | write v k ih =>
      exact ⟨fun _ _ => trivial, ih⟩
  | call k ih =>
      exact fun r => ih r
  | spawn k ih =>
      exact ih
  | listen on k ih =>
      exact ih
  | cancel k ih =>
      exact ih

@[simp]
theorem sat_pure {a : α} {s : σ} :
    Sat W G Q (Pure.pure a : Prog σ ρ α) s ↔ ∀ s', Env W s s' → Q a s' := Iff.rfl

@[simp]
theorem sat_bind {Q : β → σ → Prop} {p : Prog σ ρ α} {f : α → Prog σ ρ β} {s : σ} :
    Sat W G Q (p >>= f) s ↔ Sat W G (fun a t => Sat W G Q (f a) t) p s := by
  change Sat W G Q (p.bind f) s ↔ _
  induction p generalizing s with
  | pure a =>
      exact ⟨fun h t ht => h.env ht, fun h => h s (.refl W s)⟩
  | read k ih =>
      exact forall_congr' fun t => imp_congr_right fun _ => ih t
  | write v k ih =>
      exact and_congr_right fun _ => ih
  | call k ih =>
      exact forall_congr' fun r => ih r
  | spawn k ih =>
      exact ih
  | listen on k ih =>
      exact ih
  | cancel k ih =>
      exact ih

@[simp]
theorem sat_readCell {Q : σ → σ → Prop} {s : σ} :
    Sat W G Q (readCell : Prog σ ρ σ) s ↔ ∀ s', Env W s s' → ∀ s'', Env W s' s'' → Q s' s'' := Iff.rfl

@[simp]
theorem sat_writeCell {Q : Unit → σ → Prop} {v s : σ} :
    Sat W G Q (writeCell v : Prog σ ρ Unit) s ↔
      (∀ s', Env W s s' → G s' v) ∧ ∀ s', Env W v s' → Q () s' := Iff.rfl

@[simp]
theorem sat_ask {Q : ρ → σ → Prop} {s : σ} :
    Sat W G Q (ask : Prog σ ρ ρ) s ↔ ∀ r s', Env W s s' → Q r s' := Iff.rfl

@[simp]
theorem sat_spawn {Q : Unit → σ → Prop} {s : σ} :
    Sat W G Q (spawn : Prog σ ρ Unit) s ↔ ∀ s', Env W s s' → Q () s' := Iff.rfl

@[simp]
theorem sat_listen {Q : Unit → σ → Prop} {on : Bool} {s : σ} :
    Sat W G Q (listen on : Prog σ ρ Unit) s ↔ ∀ s', Env W s s' → Q () s' := Iff.rfl

@[simp]
theorem sat_cancel {Q : Unit → σ → Prop} {s : σ} :
    Sat W G Q (cancel : Prog σ ρ Unit) s ↔ ∀ s', Env W s s' → Q () s' := Iff.rfl

@[simp]
theorem sat_ite {c : Prop} [Decidable c] {p q : Prog σ ρ α} {s : σ} :
    Sat W G Q (if c then p else q) s ↔ (c → Sat W G Q p s) ∧ (¬c → Sat W G Q q s) := by
  by_cases hc : c <;> simp [hc]

@[simp]
theorem writes_pure {a : α} : Writes W (Pure.pure a : Prog σ ρ α) := trivial

@[simp]
theorem writes_bind {p : Prog σ ρ α} {f : α → Prog σ ρ β} (hp : Writes W p) (hf : ∀ a, Writes W (f a)) :
    Writes W (p >>= f) := by
  change Writes W (p.bind f)
  induction p with
  | pure a =>
      exact hf a
  | read k ih =>
      exact fun s => ih s (hp s)
  | write v k ih =>
      exact ⟨hp.1, ih hp.2⟩
  | call k ih =>
      exact fun r => ih r (hp r)
  | spawn k ih =>
      exact ih hp
  | listen on k ih =>
      exact ih hp
  | cancel k ih =>
      exact ih hp

@[simp]
theorem writes_readCell : Writes W (readCell : Prog σ ρ σ) := fun _ => trivial

@[simp]
theorem writes_writeCell {v : σ} : Writes W (writeCell v : Prog σ ρ Unit) ↔ W v := by
  simp [writeCell, Writes]

@[simp]
theorem writes_ask : Writes W (ask : Prog σ ρ ρ) := fun _ => trivial

theorem writes_ite {c : Prop} [Decidable c] {p q : Prog σ ρ α} (hp : Writes W p) (hq : Writes W q) :
    Writes W (if c then p else q) := by
  by_cases hc : c <;> simpa [hc]

@[simp]
theorem plain_pure {a : α} {s : σ} : Plain Q (Pure.pure a : Prog σ ρ α) s ↔ Q a s := Iff.rfl

@[simp]
theorem plain_bind {Q : β → σ → Prop} {p : Prog σ ρ α} {f : α → Prog σ ρ β} {s : σ} :
    Plain Q (p >>= f) s ↔ Plain (fun a t => Plain Q (f a) t) p s := by
  change Plain Q (p.bind f) s ↔ _
  induction p generalizing s with
  | pure a =>
      exact Iff.rfl
  | read k ih =>
      exact ih s
  | write v k ih =>
      exact ih
  | call k ih =>
      exact exists_congr fun r => ih r
  | spawn k ih =>
      exact Iff.rfl
  | listen on k ih =>
      exact ih
  | cancel k ih =>
      exact ih

@[simp]
theorem plain_readCell {Q : σ → σ → Prop} {s : σ} : Plain Q (readCell : Prog σ ρ σ) s ↔ Q s s := Iff.rfl

@[simp]
theorem plain_writeCell {Q : Unit → σ → Prop} {v s : σ} :
    Plain Q (writeCell v : Prog σ ρ Unit) s ↔ Q () v := Iff.rfl

@[simp]
theorem plain_ask {Q : ρ → σ → Prop} {s : σ} : Plain Q (ask : Prog σ ρ ρ) s ↔ ∃ r, Q r s := Iff.rfl

@[simp]
theorem plain_ite {c : Prop} [Decidable c] {p q : Prog σ ρ α} {s : σ} :
    Plain Q (if c then p else q) s ↔ (c → Plain Q p s) ∧ (¬c → Plain Q q s) := by
  by_cases hc : c <;> simp [hc]

theorem Plain.mono {Q' : α → σ → Prop} {p : Prog σ ρ α} {s : σ} (h : Plain Q p s)
    (hQ : ∀ a t, Q a t → Q' a t) : Plain Q' p s := by
  induction p generalizing s with
  | pure a =>
      exact hQ a s h
  | read k ih =>
      exact ih s h
  | write v k ih =>
      exact ih h
  | call k ih =>
      exact h.imp fun r hr => ih r hr
  | spawn k ih =>
      exact h
  | listen on k ih =>
      exact ih h
  | cancel k ih =>
      exact ih h

variable {agent : Prog σ ρ Bool} {B : σ → σ → Prop}

theorem May.mono {Q' : α → σ → Prop} {p : Prog σ ρ α} {s : σ} (h : May agent B Q p s)
    (hQ : ∀ a t, Q a t → Q' a t) : May agent B Q' p s := by
  induction p generalizing s with
  | pure a =>
      exact hQ a s h
  | read k ih =>
      exact ih s h
  | write v k ih =>
      exact h.imp_right ih
  | call k ih =>
      exact h.imp fun r hr => ih r hr
  | spawn k ih =>
      exact Plain.mono h fun on t ht => ⟨ht.1, ih ht.2⟩
  | listen on k ih =>
      exact h.imp ih fun hon => ⟨hon.1, hon.2.mono fun on t ht => ⟨ht.1, ih ht.2⟩⟩
  | cancel k ih =>
      exact ih h

@[simp]
theorem may_ite {c : Prop} [Decidable c] {p q : Prog σ ρ α} {s : σ} :
    May agent B Q (if c then p else q) s ↔ (c → May agent B Q p s) ∧ (¬c → May agent B Q q s) := by
  by_cases hc : c <;> simp [hc]

@[simp]
theorem may_pure {a : α} {s : σ} : May agent B Q (Pure.pure a : Prog σ ρ α) s ↔ Q a s := Iff.rfl

@[simp]
theorem may_bind {Q : β → σ → Prop} {p : Prog σ ρ α} {f : α → Prog σ ρ β} {s : σ} :
    May agent B Q (p >>= f) s ↔ May agent B (fun a t => May agent B Q (f a) t) p s := by
  change May agent B Q (p.bind f) s ↔ _
  induction p generalizing s with
  | pure a =>
      exact Iff.rfl
  | read k ih =>
      exact ih s
  | write v k ih =>
      exact or_congr_right ih
  | call k ih =>
      exact exists_congr fun r => ih r
  | spawn k ih =>
      simp only [Prog.bind, May, ih]
  | listen on k ih =>
      simp only [Prog.bind, May, ih]
  | cancel k ih =>
      exact ih

@[simp]
theorem may_readCell {Q : σ → σ → Prop} {s : σ} :
    May agent B Q (readCell : Prog σ ρ σ) s ↔ Q s s := Iff.rfl

@[simp]
theorem may_writeCell {Q : Unit → σ → Prop} {v s : σ} :
    May agent B Q (writeCell v : Prog σ ρ Unit) s ↔ B s v ∨ Q () v := Iff.rfl

@[simp]
theorem may_ask {Q : ρ → σ → Prop} {s : σ} :
    May agent B Q (ask : Prog σ ρ ρ) s ↔ ∃ r, Q r s := Iff.rfl

@[simp]
theorem may_spawn {Q : Unit → σ → Prop} {s : σ} :
    May agent B Q (spawn : Prog σ ρ Unit) s ↔ Plain (fun on s' => on = false ∧ Q () s') agent s := Iff.rfl

@[simp]
theorem may_listen {Q : Unit → σ → Prop} {on : Bool} {s : σ} :
    May agent B Q (listen on : Prog σ ρ Unit) s ↔
      Q () s ∨ on = true ∧ Plain (fun on s' => on = false ∧ Q () s') agent s := Iff.rfl

@[simp]
theorem may_cancel {Q : Unit → σ → Prop} {s : σ} :
    May agent B Q (cancel : Prog σ ρ Unit) s ↔ Q () s := Iff.rfl

end Judgements

section Machine

/-- An object: its jobs, the cell values under which a job is started, and the rounds of its
agents. A round that returns `true` is followed by the next one. -/
structure Object (σ ρ δ ι : Type) where
  job : ι → δ → Prog σ ρ δ
  ready : ι → σ → Bool
  agent : ℕ → Prog σ ρ Bool

structure State (σ ρ δ : Type) where
  cell : σ
  data : δ
  /-- what is left of the running job -/
  main : Option (Prog σ ρ δ)
  listening : Bool
  cancelled : Bool
  /-- the running agents, each with the number of its round -/
  agents : List (ℕ × Prog σ ρ Bool)

inductive Label (ρ ι : Type)
  | start (j : ι)
  | main (r : ρ)
  | event
  | agent (i : ℕ) (r : ρ)
  | drop (i : ℕ)

variable (O : Object σ ρ δ ι)

/-- The state once a job has been started. -/
def State.started (s : State σ ρ δ) (j : ι) : State σ ρ δ :=
  { s with main := some (O.job j s.data) }

def startStep (s : State σ ρ δ) (j : ι) : Option (State σ ρ δ) :=
  match s.main with
  | none => if O.ready j s.cell then some (s.started O j) else none
  | some _ => none

/-- One read, write or call of the running job. -/
def mainStep (s : State σ ρ δ) (r : ρ) : Option (State σ ρ δ) :=
  match s.main with
  | none => none
  | some (.pure d) => some { s with data := d, main := none }
  | some (.read k) => some { s with main := some (k s.cell) }
  | some (.write v k) => some { s with cell := v, main := some k }
  | some (.call k) => some { s with main := some (k r) }
  | some (.spawn k) => some { s with main := some k, agents := s.agents ++ [(0, O.agent 0)] }
  | some (.listen on k) => some { s with main := some k, listening := on }
  | some (.cancel k) => some { s with main := some k, cancelled := true }

/-- One read, write or call of an agent. -/
def agentStep (s : State σ ρ δ) (i : ℕ) (r : ρ) : Option (State σ ρ δ) :=
  match s.agents[i]? with
  | none => none
  | some (_, .pure false) => some { s with agents := s.agents.eraseIdx i }
  | some (n, .pure true) => some { s with agents := s.agents.set i (n + 1, O.agent (n + 1)) }
  | some (n, .read k) => some { s with agents := s.agents.set i (n, k s.cell) }
  | some (n, .write v k) => some { s with cell := v, agents := s.agents.set i (n, k) }
  | some (n, .call k) => some { s with agents := s.agents.set i (n, k r) }
  | some (n, .spawn k) => some { s with agents := s.agents.set i (n, k) }
  | some (n, .listen _ k) => some { s with agents := s.agents.set i (n, k) }
  | some (n, .cancel k) => some { s with agents := s.agents.set i (n, k) }

def next (s : State σ ρ δ) : Label ρ ι → Option (State σ ρ δ)
  | .start j => startStep O s j
  | .main r => mainStep O s r
  | .event => if s.listening then some { s with agents := s.agents ++ [(0, O.agent 0)] } else none
  | .agent i r => agentStep O s i r
  | .drop i => if s.cancelled then some { s with agents := s.agents.eraseIdx i } else none

/-- The labels that start no job. -/
def Label.IsMove : Label ρ ι → Prop
  | .start _ => False
  | _ => True

/-- A run that starts no job. -/
def Moves (s t : State σ ρ δ) : Prop :=
  Run (next O) (fun _ a => a.IsMove) s t

variable {O}

theorem Moves.trans {s t u : State σ ρ δ} (h : Moves O s t) (h' : Moves O t u) : Moves O s u :=
  Run.trans h h'

theorem Moves.of_main {s t : State σ ρ δ} {r : ρ} (h : mainStep O s r = some t) : Moves O s t :=
  .single (a := .main r) trivial h

theorem Moves.of_agent {s t : State σ ρ δ} {i : ℕ} {r : ρ} (h : agentStep O s i r = some t) :
    Moves O s t :=
  .single (a := .agent i r) trivial h

end Machine

section Guarantee

variable {O : Object σ ρ δ ι} {W : σ → Prop} {G : σ → σ → Prop} {Q : δ → σ → Prop}

/-- What is left of the running job satisfies its judgement. -/
def MainSat (W : σ → Prop) (G : σ → σ → Prop) (Q : δ → σ → Prop) (s : State σ ρ δ) : Prop :=
  match s.main with
  | none => ∀ t, Env W s.cell t → Q s.data t
  | some p => Sat W G Q p s.cell

/-- The invariant of the moves: agents write only what they may, and the job is on its way. -/
structure Holds (W : σ → Prop) (G : σ → σ → Prop) (Q : δ → σ → Prop) (s : State σ ρ δ) : Prop where
  agents : ∀ a ∈ s.agents, Writes W a.2
  main : MainSat W G Q s

theorem MainSat.env {s t : State σ ρ δ} (h : MainSat W G Q s) (hmain : t.main = s.main)
    (hdata : t.data = s.data) (henv : Env W s.cell t.cell) : MainSat W G Q t := by
  unfold MainSat at h ⊢
  rw [hmain, hdata]
  cases hp : s.main with
  | none =>
      rw [hp] at h
      exact fun u hu => h u (henv.trans hu)
  | some p =>
      rw [hp] at h
      exact h.env henv

theorem writes_append {agents : List (ℕ × Prog σ ρ Bool)} (hW : ∀ n, Writes W (O.agent n))
    (h : ∀ a ∈ agents, Writes W a.2) : ∀ a ∈ agents ++ [(0, O.agent 0)], Writes W a.2 := by
  intro a ha
  rcases List.mem_append.mp ha with ha | ha
  · exact h a ha
  · rw [List.mem_singleton.mp ha]
    exact hW 0

theorem writes_set {agents : List (ℕ × Prog σ ρ Bool)} {i n : ℕ} {p : Prog σ ρ Bool}
    (h : ∀ a ∈ agents, Writes W a.2) (hp : Writes W p) : ∀ a ∈ agents.set i (n, p), Writes W a.2 := by
  intro a ha
  rcases List.mem_or_eq_of_mem_set ha with ha | rfl
  · exact h a ha
  · exact hp

theorem holds_mainStep (hW : ∀ n, Writes W (O.agent n)) {s t : State σ ρ δ} {r : ρ}
    (hs : Holds W G Q s) (h : mainStep O s r = some t) :
    Holds W G Q t ∧ (t.cell = s.cell ∨ G s.cell t.cell) := by
  obtain ⟨hagents, hmain⟩ := hs
  unfold MainSat at hmain
  unfold mainStep at h
  cases hp : s.main with
  | none =>
      simp [hp] at h
  | some p =>
      rw [hp] at h hmain
      cases p with
      | pure d =>
          cases h
          exact ⟨⟨hagents, hmain⟩, .inl rfl⟩
      | read k =>
          cases h
          exact ⟨⟨hagents, hmain s.cell (.refl W _)⟩, .inl rfl⟩
      | write v k =>
          cases h
          exact ⟨⟨hagents, hmain.2⟩, .inr (hmain.1 s.cell (.refl W _))⟩
      | call k =>
          cases h
          exact ⟨⟨hagents, hmain r⟩, .inl rfl⟩
      | spawn k =>
          cases h
          exact ⟨⟨writes_append hW hagents, hmain⟩, .inl rfl⟩
      | listen on k =>
          cases h
          exact ⟨⟨hagents, hmain⟩, .inl rfl⟩
      | cancel k =>
          cases h
          exact ⟨⟨hagents, hmain⟩, .inl rfl⟩

theorem holds_agentStep (hW : ∀ n, Writes W (O.agent n)) {s t : State σ ρ δ} {i : ℕ} {r : ρ}
    (hs : Holds W G Q s) (h : agentStep O s i r = some t) :
    Holds W G Q t ∧ (t.cell = s.cell ∨ W t.cell) := by
  obtain ⟨hagents, hmain⟩ := hs
  unfold agentStep at h
  cases hp : s.agents[i]? with
  | none =>
      simp [hp] at h
  | some a =>
      obtain ⟨n, p⟩ := a
      have hwrites : Writes W p := hagents _ (List.mem_of_getElem? hp)
      rw [hp] at h
      cases p with
      | pure on =>
          cases on with
          | false =>
              cases h
              exact ⟨⟨fun a ha => hagents a (List.mem_of_mem_eraseIdx ha), hmain⟩, .inl rfl⟩
          | true =>
              cases h
              exact ⟨⟨writes_set hagents (hW _), hmain⟩, .inl rfl⟩
      | read k =>
          cases h
          exact ⟨⟨writes_set hagents (hwrites _), hmain⟩, .inl rfl⟩
      | write v k =>
          cases h
          exact ⟨⟨writes_set hagents hwrites.2, hmain.env rfl rfl (.inr hwrites.1)⟩, .inr hwrites.1⟩
      | call k =>
          cases h
          exact ⟨⟨writes_set hagents (hwrites _), hmain⟩, .inl rfl⟩
      | spawn k =>
          cases h
          exact ⟨⟨writes_set hagents hwrites, hmain⟩, .inl rfl⟩
      | listen on k =>
          cases h
          exact ⟨⟨writes_set hagents hwrites, hmain⟩, .inl rfl⟩
      | cancel k =>
          cases h
          exact ⟨⟨writes_set hagents hwrites, hmain⟩, .inl rfl⟩

/-- What a move keeps, and how it may change the cell. -/
theorem holds_move (hW : ∀ n, Writes W (O.agent n)) {s t : State σ ρ δ} {a : Label ρ ι}
    (hs : Holds W G Q s) (ha : a.IsMove) (h : next O s a = some t) :
    Holds W G Q t ∧ (t.cell = s.cell ∨ G s.cell t.cell ∨ W t.cell) := by
  cases a with
  | start j =>
      cases ha
  | main r =>
      obtain ⟨ht, hcell⟩ := holds_mainStep hW hs h
      exact ⟨ht, hcell.imp_right .inl⟩
  | event =>
      simp only [next] at h
      split at h
      · cases h
        exact ⟨⟨writes_append hW hs.agents, hs.main⟩, .inl rfl⟩
      · cases h
  | agent i r =>
      obtain ⟨ht, hcell⟩ := holds_agentStep hW hs h
      exact ⟨ht, hcell.imp_right .inr⟩
  | drop i =>
      simp only [next] at h
      split at h
      · cases h
        exact ⟨⟨fun a ha => hs.agents a (List.mem_of_mem_eraseIdx ha), hs.main⟩, .inl rfl⟩
      · cases h

theorem holds_moves (hW : ∀ n, Writes W (O.agent n)) {s t : State σ ρ δ} (h : Moves O s t)
    (hs : Holds W G Q s) : Holds W G Q t :=
  run_invariant (fun _ _ _ hs ha h => (holds_move hW hs ha h).1) h hs

theorem startStep_eq_some {s t : State σ ρ δ} {j : ι} (h : next O s (.start j) = some t) :
    s.main = none ∧ O.ready j s.cell = true ∧ t = s.started O j := by
  simp only [next, startStep] at h
  cases hp : s.main with
  | none =>
      rw [hp] at h
      by_cases hready : O.ready j s.cell = true
      · rw [if_pos hready] at h
        exact ⟨rfl, hready, (Option.some.inj h).symm⟩
      · rw [if_neg hready] at h
        cases h
  | some p =>
      simp [hp] at h

/-- **The rule for whole runs**: where every job that is started satisfies its judgement, the cell
changes only as the judgements of the jobs and the writes of the agents allow. -/
theorem guarantee_of_run (hW : ∀ n, Writes W (O.agent n)) {C : State σ ρ δ → Label ρ ι → Prop}
    (hjob : ∀ s j, C s (.start j) → O.ready j s.cell = true →
      Sat W G (fun _ _ => True) (O.job j s.data) s.cell)
    {s₀ s t : State σ ρ δ} {a : Label ρ ι} (hagents : s₀.agents = []) (hmain : s₀.main = none)
    (hrun : Run (next O) C s₀ s) (hC : C s a) (h : next O s a = some t) :
    t.cell = s.cell ∨ G s.cell t.cell ∨ W t.cell := by
  have hstep : ∀ s a t, Holds W G (fun _ _ => True) s → C s a → next O s a = some t →
      Holds W G (fun _ _ => True) t ∧ (t.cell = s.cell ∨ G s.cell t.cell ∨ W t.cell) := by
    intro s a t hs hC h
    cases a with
    | start j =>
        obtain ⟨_, hready, rfl⟩ := startStep_eq_some h
        exact ⟨⟨hs.agents, hjob s j hC hready⟩, .inl rfl⟩
    | main r | event | agent i r | drop i =>
        exact holds_move hW hs (by trivial) h
  have hinit : Holds W G (fun _ _ => True) s₀ := by
    refine ⟨?_, ?_⟩
    · simp [hagents]
    · simp [MainSat, hmain]
  have hs := run_invariant (fun s a t hs hC h => (hstep s a t hs hC h).1) hrun hinit
  exact (hstep s a t hs hC h).2

end Guarantee

section Progress

variable (O : Object σ ρ δ ι) (tick : ι) (done : σ → Prop) (due : State σ ρ δ → Prop)

/-- Ticks that come while the cell is not `done` come finitely often, and are never refused.
`due` says when a tick can come, apart from the job that must have returned. -/
inductive Ends : State σ ρ δ → Prop
  | intro (s : State σ ρ δ)
      (hready : ∀ t, Moves O s t → t.main = none → due t → ¬done t.cell → O.ready tick t.cell = true)
      (hnext : ∀ t, Moves O s t → t.main = none → due t → ¬done t.cell → Ends (t.started O tick)) :
      Ends s

variable {O tick done due} {W : σ → Prop} {I : δ → Prop} {μ : δ → ℕ}

/-- What a tick under a measure leaves: the cell is done, or the measure is below a bound. -/
def Below (O : Object σ ρ δ ι) (tick : ι) (done : σ → Prop) (I : δ → Prop) (μ : δ → ℕ) (n : ℕ) (d : δ)
    (s : σ) : Prop :=
  done s ∨ O.ready tick s = true ∧ I d ∧ μ d < n

/-- **The rule for completion**: a tick that completes or makes a measure smaller comes finitely
often, whatever the agents do meanwhile. -/
theorem ends_of_measure (hW : ∀ n, Writes W (O.agent n))
    (htick : ∀ d s, I d → O.ready tick s = true →
      Sat W (fun _ _ => True) (Below O tick done I μ (μ d)) (O.job tick d) s)
    {n : ℕ} {s : State σ ρ δ} (hs : Holds W (fun _ _ => True) (Below O tick done I μ n) s) :
    Ends O tick done due s := by
  induction n using Nat.strong_induction_on generalizing s with
  | _ n ih =>
      have hbelow : ∀ t, Moves O s t → t.main = none → ¬done t.cell →
          O.ready tick t.cell = true ∧ I t.data ∧ μ t.data < n ∧ ∀ a ∈ t.agents, Writes W a.2 := by
        intro t hmoves hmain hdone
        obtain ⟨hagents, ht⟩ := holds_moves hW hmoves hs
        unfold MainSat at ht
        rw [hmain] at ht
        obtain ⟨hready, hI, hlt⟩ := (ht t.cell (.refl W _)).resolve_left hdone
        exact ⟨hready, hI, hlt, hagents⟩
      constructor
      · intro t hmoves hmain _ hdone
        exact (hbelow t hmoves hmain hdone).1
      · intro t hmoves hmain _ hdone
        obtain ⟨hready, hI, hlt, hagents⟩ := hbelow t hmoves hmain hdone
        exact ih (μ t.data) hlt ⟨hagents, htick t.data t.cell hI hready⟩

end Progress

section Single

variable {O : Object σ ρ δ ι} {B : σ → σ → Prop}

/-- An agent that is alone on its way runs to its end. -/
theorem moves_of_plain [Inhabited ρ] {Q : Bool → σ → Prop} {p : Prog σ ρ Bool} {s : State σ ρ δ} {n : ℕ}
    (hagents : s.agents = [(n, p)]) (h : Plain (fun on t => on = false ∧ Q on t) p s.cell) :
    ∃ t v, Moves O s t ∧ t = { s with cell := v, agents := [] } ∧ Q false v := by
  have hget : s.agents[0]? = some (n, p) := by
    rw [hagents]
    rfl
  induction p generalizing s with
  | pure on =>
      obtain ⟨rfl, hQ⟩ := h
      refine ⟨{ s with agents := [] }, s.cell, ?_, rfl, hQ⟩
      apply Moves.of_agent (i := 0) (r := default)
      simp [agentStep, hagents]
  | read k ih =>
      have hmove : agentStep O s 0 default = some { s with agents := [(n, k s.cell)] } := by
        simp [agentStep, hagents]
      obtain ⟨t, v, hmoves, ht, hQ⟩ := ih s.cell (s := { s with agents := [(n, k s.cell)] }) rfl h rfl
      exact ⟨t, v, (Moves.of_agent hmove).trans hmoves, ht, hQ⟩
  | write v k ih =>
      have hmove : agentStep O s 0 default = some { s with cell := v, agents := [(n, k)] } := by
        simp [agentStep, hagents]
      obtain ⟨t, u, hmoves, ht, hQ⟩ := ih (s := { s with cell := v, agents := [(n, k)] }) rfl h rfl
      exact ⟨t, u, (Moves.of_agent hmove).trans hmoves, ht, hQ⟩
  | call k ih =>
      obtain ⟨r, h⟩ := h
      have hmove : agentStep O s 0 r = some { s with agents := [(n, k r)] } := by
        simp [agentStep, hagents]
      obtain ⟨t, u, hmoves, ht, hQ⟩ := ih r (s := { s with agents := [(n, k r)] }) rfl h rfl
      exact ⟨t, u, (Moves.of_agent hmove).trans hmoves, ht, hQ⟩
  | spawn k ih =>
      cases h
  | listen on k ih =>
      have hmove : agentStep O s 0 default = some { s with agents := [(n, k)] } := by
        simp [agentStep, hagents]
      obtain ⟨t, u, hmoves, ht, hQ⟩ := ih (s := { s with agents := [(n, k)] }) rfl h rfl
      exact ⟨t, u, (Moves.of_agent hmove).trans hmoves, ht, hQ⟩
  | cancel k ih =>
      have hmove : agentStep O s 0 default = some { s with agents := [(n, k)] } := by
        simp [agentStep, hagents]
      obtain ⟨t, u, hmoves, ht, hQ⟩ := ih (s := { s with agents := [(n, k)] }) rfl h rfl
      exact ⟨t, u, (Moves.of_agent hmove).trans hmoves, ht, hQ⟩

/-- From `s` without starting a job: a state at rest in `Q`, or a step that meets `B`. -/
def Leads (O : Object σ ρ δ ι) (B : σ → σ → Prop) (Q : δ → σ → Prop) (s : State σ ρ δ) : Prop :=
  (∃ t, Moves O s t ∧ t.main = none ∧ t.agents = [] ∧ Q t.data t.cell) ∨
    ∃ t u, ∃ a : Label ρ ι, Moves O s t ∧ a.IsMove ∧ next O t a = some u ∧ B t.cell u.cell

theorem Leads.of_moves {Q : δ → σ → Prop} {s t : State σ ρ δ} (hmoves : Moves O s t)
    (h : Leads O B Q t) : Leads O B Q s := by
  rcases h with ⟨u, hu, hrest⟩ | ⟨u, v, a, hu, hrest⟩
  · exact .inl ⟨u, hmoves.trans hu, hrest⟩
  · exact .inr ⟨u, v, a, hmoves.trans hu, hrest⟩

theorem leads_of_may [Inhabited ρ] {Q : δ → σ → Prop} {p : Prog σ ρ δ} {s : State σ ρ δ}
    (hmain : s.main = some p) (hagents : s.agents = []) (h : May (O.agent 0) B Q p s.cell) :
    Leads O B Q s := by
  induction p generalizing s with
  | pure d =>
      have hmove : mainStep O s default = some { s with data := d, main := none } := by
        simp [mainStep, hmain]
      exact .inl ⟨_, .of_main hmove, rfl, hagents, h⟩
  | read k ih =>
      have hmove : mainStep O s default = some { s with main := some (k s.cell) } := by
        simp [mainStep, hmain]
      exact (ih s.cell (s := { s with main := some (k s.cell) }) rfl hagents h).of_moves (.of_main hmove)
  | write v k ih =>
      have hmove : mainStep O s default = some { s with cell := v, main := some k } := by
        simp [mainStep, hmain]
      rcases h with h | h
      · exact .inr ⟨s, _, .main default, .refl s, trivial, hmove, h⟩
      · exact (ih (s := { s with cell := v, main := some k }) rfl hagents h).of_moves (.of_main hmove)
  | call k ih =>
      obtain ⟨r, h⟩ := h
      have hmove : mainStep O s r = some { s with main := some (k r) } := by
        simp [mainStep, hmain]
      exact (ih r (s := { s with main := some (k r) }) rfl hagents h).of_moves (.of_main hmove)
  | spawn k ih =>
      have hmove : mainStep O s default = some { s with main := some k, agents := [(0, O.agent 0)] } := by
        simp [mainStep, hmain, hagents]
      obtain ⟨t, v, hmoves, rfl, hk⟩ :=
        moves_of_plain (O := O) (s := { s with main := some k, agents := [(0, O.agent 0)] })
          (Q := fun _ t => May (O.agent 0) B Q k t) rfl h
      apply Leads.of_moves ((Moves.of_main hmove).trans hmoves)
      exact ih rfl rfl hk
  | listen on k ih =>
      have hmove : mainStep O s default = some { s with main := some k, listening := on } := by
        simp [mainStep, hmain]
      apply Leads.of_moves (.of_main hmove)
      rcases h with h | ⟨rfl, h⟩
      · exact ih rfl hagents h
      · let s₁ : State σ ρ δ := { s with main := some k, listening := true, agents := [(0, O.agent 0)] }
        have hevent : Moves O { s with main := some k, listening := true } s₁ := by
          apply Run.single (a := .event) trivial
          simp [next, s₁, hagents]
        obtain ⟨t, v, hmoves, rfl, hk⟩ :=
          moves_of_plain (O := O) (s := s₁) (Q := fun _ t => May (O.agent 0) B Q k t) rfl h
        apply Leads.of_moves (hevent.trans hmoves)
        exact ih rfl rfl hk
  | cancel k ih =>
      have hmove : mainStep O s default = some { s with main := some k, cancelled := true } := by
        simp [mainStep, hmain]
      exact (ih (s := { s with main := some k, cancelled := true }) rfl hagents h).of_moves (.of_main hmove)

/-- **The rule for a break**: a job that may write what it must not has a run in which it does. -/
theorem exists_break [Inhabited ρ] {p : Prog σ ρ δ} {s : State σ ρ δ} (hmain : s.main = some p)
    (hagents : s.agents = []) (h : May (O.agent 0) B (fun _ _ => False) p s.cell) :
    ∃ t u, ∃ a : Label ρ ι, Moves O s t ∧ a.IsMove ∧ next O t a = some u ∧ B t.cell u.cell := by
  rcases leads_of_may hmain hagents h with ⟨t, _, _, _, hfalse⟩ | hbreak
  · cases hfalse
  · exact hbreak

/-- A job that may end in `Q` has moves that do. -/
theorem exists_rest [Inhabited ρ] {Q : δ → σ → Prop} {p : Prog σ ρ δ} {s : State σ ρ δ}
    (hmain : s.main = some p) (hagents : s.agents = [])
    (h : May (O.agent 0) (fun _ _ => False) Q p s.cell) :
    ∃ t, Moves O s t ∧ t.main = none ∧ t.agents = [] ∧ Q t.data t.cell := by
  rcases leads_of_may hmain hagents h with hrest | ⟨t, u, a, _, _, _, hfalse⟩
  · exact hrest
  · cases hfalse

/-- **The rule against completion**: ticks that may lead from `K` to `K` again, with all agents at
their end, do not end. -/
theorem not_ends_of_may [Inhabited ρ] {tick : ι} {done : σ → Prop} {due : State σ ρ δ → Prop}
    {K : δ → σ → Prop} (hdue : ∀ t : State σ ρ δ, t.agents = [] → due t) (hdone : ∀ d s, K d s → ¬done s)
    (htick : ∀ d s, K d s → May (O.agent 0) (fun _ _ => False) K (O.job tick d) s)
    {p : Prog σ ρ δ} {s : State σ ρ δ} (hmain : s.main = some p) (hagents : s.agents = [])
    (h : May (O.agent 0) (fun _ _ => False) K p s.cell) : ¬Ends O tick done due s := by
  intro hends
  induction hends generalizing p with
  | intro s _ _ ih =>
      obtain ⟨t, hmoves, htmain, htagents, hK⟩ := exists_rest hmain hagents h
      exact ih t hmoves htmain (hdue t htagents) (hdone _ _ hK) rfl htagents (htick _ _ hK)

end Single

end OneWifiTestSuite.SharedCell
