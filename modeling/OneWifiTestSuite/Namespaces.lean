import OneWifiTestSuite.Runs

/-!
# Network namespaces of the agent's threads

`enter_namespace` keeps the descriptor of the namespace to come back to in `original_ns_fd`, which all threads of
the agent share; `get_mac_ip_from_ifname_ns` keeps it in a local variable. Both kinds of sections are followed
call by call over every interleaving of the threads, with every call that can fail. What they keep is
`/proc/self/ns/net`, the namespace of the main thread.

As long as no thread enters the shared kind of section while another is inside one, and none asks for the way back
while the main thread is inside a section, every thread outside is where it or the main thread started, and only
threads inside have descriptors open (`restored_of_run`). A `setns` that fails on the way back leaves its thread in
the target, and the others where they belong, unless it is the main thread's. The descriptor that the HTTP server
saved before it listens is lost to the first request and stays open. Sections that overlap leave a thread inside its
target and a descriptor open (`not_restored_overlap`).
-/

namespace OneWifiTestSuite.Namespaces

open Runs

/-! ### Sections -/

section Model

abbrev Fd := ℕ

/-- Where a section keeps the descriptor: `original_ns_fd`, or `orig_ns` of `get_mac_ip_from_ifname_ns`. -/
inductive Kind
  | shared
  | own
deriving DecidableEq

/-- The point that a thread has reached in a section. -/
inductive Pc
  | idle
  /-- Before `open_current_namespace`. -/
  | begun (k : Kind)
  | current (k : Kind) (orig : Fd)
  /-- Before `setns`, and after it. -/
  | both (k : Kind) (orig new : Fd)
  | entered (k : Kind) (orig new : Fd)
  /-- The descriptors to close after a failed call. -/
  | undoBoth (k : Kind) (orig new : Fd)
  | undo (k : Kind) (fd : Fd)
  /-- `switch_to_namespace` has returned; a negative value is `none`. -/
  | returned (r : Option Fd)
  /-- Inside, with what was kept. -/
  | body (k : Kind) (r : Option Fd)
  /-- `restore_original_namespace`, before its `setns` and before its `close`. -/
  | leaving (k : Kind) (fd : Fd)
  | closing (k : Kind) (fd : Fd)
  /-- Before `original_ns_fd` is reset. -/
  | left
deriving DecidableEq

variable (T Ns : Type)

/-- The open descriptors with what they refer to, the namespace and the point of each thread, and
`original_ns_fd`. That a way back of a thread has failed is recorded, and never read. -/
structure State where
  fds : Fd → Option Ns
  ns : T → Ns
  pc : T → Pc
  originalNsFd : Option Fd
  strayed : T → Bool

/-- How the next call of a thread goes: it begins a section, a descriptor is opened, the call succeeds, or fails. -/
inductive Move
  | begin (k : Kind)
  | opens (fd : Fd) (n : Ns)
  | ok
  | fail

variable {T Ns}

/-- A failed section of its own ends; a shared one returns to `enter_namespace`. -/
def Kind.failed : Kind → Pc
  | .shared => .returned none
  | .own => .idle

def Kind.entered (orig : Fd) : Kind → Pc
  | .shared => .returned (some orig)
  | .own => .body .own (some orig)

/-- The thread after `restore_original_namespace`. -/
def Kind.closed : Kind → Pc
  | .shared => .left
  | .own => .idle

variable [DecidableEq T]

/-- The thread goes to a point. -/
def State.goto (s : State T Ns) (t : T) (pc : Pc) : State T Ns :=
  { s with pc := Function.update s.pc t pc }

def State.openFd (s : State T Ns) (fd : Fd) (n : Ns) : State T Ns :=
  { s with fds := Function.update s.fds fd (some n) }

/-- `close`; a descriptor that is not open stays closed. -/
def State.closeFd (s : State T Ns) (fd : Fd) : State T Ns :=
  { s with fds := Function.update s.fds fd none }

/-- `setns`, which fails for a descriptor that is not open. -/
def State.setns (s : State T Ns) (t : T) (fd : Fd) : State T Ns :=
  { s with ns := Function.update s.ns t ((s.fds fd).getD (s.ns t)) }

/-- A way back of the thread has failed. -/
def State.stray (s : State T Ns) (t : T) : State T Ns :=
  { s with strayed := Function.update s.strayed t true }

/-- The descriptor that a section restores. -/
def State.kept (s : State T Ns) (r : Option Fd) : Kind → Option Fd
  | .shared => s.originalNsFd
  | .own => r

/-- The next call of thread `t` at `pc`; `main` is the thread that `/proc/self` stands for. -/
def call [DecidableEq Ns] (main : T) (s : State T Ns) (t : T) : Pc → Move Ns → Option (State T Ns)
  | .idle, .begin k => some (s.goto t (.begun k))
  | .begun k, .opens fd n =>
      if s.fds fd = none ∧ n = s.ns main then some ((s.openFd fd n).goto t (.current k fd)) else none
  | .begun k, .fail => some (s.goto t k.failed)
  | .current k orig, .opens fd n =>
      if s.fds fd = none then some ((s.openFd fd n).goto t (.both k orig fd)) else none
  | .current k orig, .fail => some (s.goto t (.undo k orig))
  | .both k orig new, .ok => some ((s.setns t new).goto t (.entered k orig new))
  | .both k orig new, .fail => some (s.goto t (.undoBoth k orig new))
  | .entered k orig new, .ok => some ((s.closeFd new).goto t (k.entered orig))
  | .undoBoth .shared orig new, .ok => some ((s.closeFd orig).goto t (.undo .shared new))
  | .undoBoth .own orig new, .ok => some ((s.closeFd new).goto t (.undo .own orig))
  | .undo k fd, .ok => some ((s.closeFd fd).goto t k.failed)
  | .returned r, .ok => some { s.goto t (.body .shared r) with originalNsFd := r }
  | .body k r, .ok =>
      match s.kept r k with
      | none => some (s.goto t .idle)
      | some fd => some (s.goto t (.leaving k fd))
  | .leaving k fd, .ok => some ((s.setns t fd).goto t (.closing k fd))
  | .leaving k fd, .fail => some ((s.stray t).goto t (.closing k fd))
  | .closing k fd, .ok => some ((s.closeFd fd).goto t k.closed)
  | .left, .ok => some { s.goto t .idle with originalNsFd := none }
  | _, _ => none

def next [DecidableEq Ns] (main : T) (s : State T Ns) : T × Move Ns → Option (State T Ns)
  | (t, m) => call main s t (s.pc t) m

/-- The thread is inside a shared section. -/
def Pc.inShared : Pc → Bool
  | .idle => false
  | .begun k | .current k _ | .both k _ _ | .entered k _ _ | .undoBoth k _ _ | .undo k _ | .body k _ | .leaving k _
  | .closing k _ => k = .shared
  | .returned _ | .left => true

/-- The thread is about to ask for the namespace to come back to. -/
def Pc.isBegun : Pc → Bool
  | .begun _ => true
  | _ => false

/-- Shared sections do not overlap, and the main thread is outside when another one asks for the namespace to come
back to. -/
def Condition (main : T) (s : State T Ns) : T × Move Ns → Prop
  | (t, .begin .shared) => ∀ u, u ≠ t → (s.pc u).inShared = false
  | (t, .opens _ _) => (s.pc t).isBegun = true → t ≠ main → s.pc main = .idle
  | _ => True

/-- The threads at their namespaces, with the descriptors that are open, and what the HTTP server left in
`original_ns_fd`. -/
def start (fds : Fd → Option Ns) (home : T → Ns) (saved : Option Fd) : State T Ns :=
  ⟨fds, home, fun _ => .idle, saved, fun _ => false⟩

end Model

/-! ### What a section restores -/

section Restored

variable {T Ns : Type}

/-- The descriptors that a thread has to close. -/
def Pc.owned : Pc → List Fd
  | .idle | .begun _ | .returned none | .body _ none | .left => []
  | .current _ a | .undo _ a | .returned (some a) | .body _ (some a) | .leaving _ a | .closing _ a => [a]
  | .both _ a b | .entered _ a b | .undoBoth _ a b => [a, b]

/-- No way back of the thread has failed, and none of the main thread. -/
def Sure (main : T) (s : State T Ns) (t : T) : Prop :=
  s.strayed t = false ∧ s.strayed main = false

/-- Threads outside are where they started or where the main thread did, unless a way back has failed, and the open
descriptors are those that were open before and those of threads inside. -/
structure Restored (main : T) (fds : Fd → Option Ns) (home : T → Ns) (s : State T Ns) : Prop where
  back : ∀ t, s.pc t = .idle → Sure main s t → s.ns t = home t ∨ s.ns t = home main
  same : ∀ fd, fds fd ≠ none → s.fds fd = fds fd
  inside : ∀ fd, fds fd = none → s.fds fd ≠ none → ∃ t, fd ∈ (s.pc t).owned

end Restored

/-! ### The invariant -/

section Invariant

variable {T Ns : Type}

/-- The thread is where it started, in `h`, or where the main thread did, in `l`. -/
def Back (sure : Prop) (h l n : Ns) : Prop :=
  sure → n = h ∨ n = l

/-- The descriptor is open, on the namespace `l`. -/
def Refers (sure : Prop) (fds : Fd → Option Ns) (l : Ns) (a : Fd) : Prop :=
  fds a ≠ none ∧ (sure → fds a = some l)

/-- What holds of a thread that started in `h`, with the main thread from `l`, and is now in `n`. -/
def Local (sure : Prop) (fds : Fd → Option Ns) (h l n : Ns) : Pc → Prop
  | .idle | .begun _ | .left | .returned none | .body _ none => Back sure h l n
  | .current _ a => Back sure h l n ∧ Refers sure fds l a
  | .both _ a b => Back sure h l n ∧ Refers sure fds l a ∧ fds b ≠ none ∧ a ≠ b
  | .undoBoth _ a b => Back sure h l n ∧ fds a ≠ none ∧ fds b ≠ none ∧ a ≠ b
  | .undo _ a | .closing _ a => Back sure h l n ∧ fds a ≠ none
  | .entered _ a b => Refers sure fds l a ∧ fds b ≠ none ∧ a ≠ b
  | .returned (some a) | .body _ (some a) | .leaving _ a => Refers sure fds l a

theorem Refers.congr {sure : Prop} {fds fds' : Fd → Option Ns} {l : Ns} {a : Fd} (h : Refers sure fds l a)
    (hsame : fds' a = fds a) : Refers sure fds' l a := by
  rwa [Refers, hsame]

/-- Only the descriptors of the thread matter, and less is known once a way back has failed. -/
theorem Local.congr {sure sure' : Prop} {fds fds' : Fd → Option Ns} {h l n : Ns} {pc : Pc}
    (hloc : Local sure fds h l n pc) (hsure : sure' → sure) (hsame : ∀ fd ∈ pc.owned, fds' fd = fds fd) :
    Local sure' fds' h l n pc := by
  have hback : Back sure h l n → Back sure' h l n := fun hn hs => hn (hsure hs)
  have hrefers : ∀ a ∈ pc.owned, Refers sure fds l a → Refers sure' fds' l a := fun a ha hr =>
    Refers.congr ⟨hr.1, fun hs => hr.2 (hsure hs)⟩ (hsame a ha)
  have hopen : ∀ a ∈ pc.owned, fds a ≠ none → fds' a ≠ none := fun a ha hne => by rwa [hsame a ha]
  cases pc with
  | idle => exact hback hloc
  | begun k => exact hback hloc
  | left => exact hback hloc
  | returned r =>
      cases r with
      | none => exact hback hloc
      | some a => exact hrefers a (by simp [Pc.owned]) hloc
  | body k r =>
      cases r with
      | none => exact hback hloc
      | some a => exact hrefers a (by simp [Pc.owned]) hloc
  | leaving k a => exact hrefers a (by simp [Pc.owned]) hloc
  | current k a => exact ⟨hback hloc.1, hrefers a (by simp [Pc.owned]) hloc.2⟩
  | undo k a => exact ⟨hback hloc.1, hopen a (by simp [Pc.owned]) hloc.2⟩
  | closing k a => exact ⟨hback hloc.1, hopen a (by simp [Pc.owned]) hloc.2⟩
  | both k a b =>
      obtain ⟨hn, ha, hb, hne⟩ := hloc
      exact ⟨hback hn, hrefers a (by simp [Pc.owned]) ha, hopen b (by simp [Pc.owned]) hb, hne⟩
  | undoBoth k a b =>
      obtain ⟨hn, ha, hb, hne⟩ := hloc
      exact ⟨hback hn, hopen a (by simp [Pc.owned]) ha, hopen b (by simp [Pc.owned]) hb, hne⟩
  | entered k a b =>
      obtain ⟨ha, hb, hne⟩ := hloc
      exact ⟨hrefers a (by simp [Pc.owned]) ha, hopen b (by simp [Pc.owned]) hb, hne⟩

/-- What a thread owns is open. -/
theorem Local.open {sure : Prop} {fds : Fd → Option Ns} {h l n : Ns} {pc : Pc} (hloc : Local sure fds h l n pc) {fd : Fd}
    (hfd : fd ∈ pc.owned) : fds fd ≠ none := by
  cases pc with
  | returned r =>
      cases r with
      | none => simp [Pc.owned] at hfd
      | some a =>
          obtain rfl : fd = a := by simpa [Pc.owned] using hfd
          exact And.left hloc
  | body k r =>
      cases r with
      | none => simp [Pc.owned] at hfd
      | some a =>
          obtain rfl : fd = a := by simpa [Pc.owned] using hfd
          exact And.left hloc
  | idle => simp [Pc.owned] at hfd
  | begun k => simp [Pc.owned] at hfd
  | left => simp [Pc.owned] at hfd
  | _ =>
      simp only [Pc.owned, List.mem_cons, List.not_mem_nil, or_false] at hfd
      simp only [Local, Refers] at hloc
      grind

structure Inv (main : T) (fds : Fd → Option Ns) (home : T → Ns) (s : State T Ns) : Prop where
  thread : ∀ t, Local (Sure main s t) s.fds (home t) (home main) (s.ns t) (s.pc t)
  disjoint : ∀ t u fd, fd ∈ (s.pc t).owned → fd ∈ (s.pc u).owned → t = u
  before : ∀ fd, fds fd ≠ none → s.fds fd = fds fd ∧ ∀ t, fd ∉ (s.pc t).owned
  inside : ∀ fd, fds fd = none → s.fds fd ≠ none → ∃ t, fd ∈ (s.pc t).owned
  excludes : ∀ t u, (s.pc t).inShared = true → (s.pc u).inShared = true → t = u
  kept : ∀ t r, s.pc t = .body .shared r → s.originalNsFd = r

theorem inv_start (main : T) (fds : Fd → Option Ns) (home : T → Ns) (saved : Option Fd) :
    Inv main fds home (start fds home saved) where
  thread _ _ := .inl rfl
  disjoint _ _ _ hfd := absurd hfd List.not_mem_nil
  before _ _ := ⟨rfl, fun _ => List.not_mem_nil⟩
  inside _ hnone hopen := absurd hnone hopen
  excludes _ _ hin := absurd hin Bool.false_ne_true
  kept _ _ hpc := absurd hpc (by simp [start])

variable {main t : T} {fds : Fd → Option Ns} {home : T → Ns} {s s' : State T Ns}

/-- The thread may be in a shared section afterwards where it was in one, or no other is. -/
def Enters (s : State T Ns) (t : T) (pc : Pc) : Prop :=
  pc.inShared = true → (s.pc t).inShared = true ∨ ∀ u, u ≠ t → (s.pc u).inShared = false

/-- Two threads that own one descriptor are one, also after a step that takes only descriptors that are new. -/
theorem Inv.disjoint_step (h : Inv main fds home s) (hpc : ∀ u, u ≠ t → s'.pc u = s.pc u)
    (howned : ∀ fd ∈ (s'.pc t).owned, fd ∈ (s.pc t).owned ∨ s.fds fd = none) (u v : T) (fd : Fd)
    (hu : fd ∈ (s'.pc u).owned) (hv : fd ∈ (s'.pc v).owned) : u = v := by
  have hforeign : ∀ u, u ≠ t → ∀ fd, fd ∈ (s'.pc t).owned → fd ∉ (s'.pc u).owned := by
    intro u hu fd hmine hfd
    rw [hpc u hu] at hfd
    rcases howned fd hmine with hold | hnone
    · exact hu (h.disjoint u t fd hfd hold)
    · exact (h.thread u).open hfd hnone
  by_cases hut : u = t
  · by_cases hvt : v = t
    · rw [hut, hvt]
    · exact absurd hv (hforeign v hvt fd (hut ▸ hu))
  · by_cases hvt : v = t
    · exact absurd hu (hforeign u hut fd (hvt ▸ hv))
    · rw [hpc u hut] at hu
      rw [hpc v hvt] at hv
      exact h.disjoint u v fd hu hv

/-- Two threads inside a shared section are one, also after a step that enters one alone. -/
theorem Inv.excludes_step (h : Inv main fds home s) (hpc : ∀ u, u ≠ t → s'.pc u = s.pc u)
    (henters : Enters s t (s'.pc t)) (u v : T) (hu : (s'.pc u).inShared = true) (hv : (s'.pc v).inShared = true) :
    u = v := by
  have hmeets : ∀ v, v ≠ t → (s'.pc t).inShared = true → (s'.pc v).inShared = true → False := by
    intro v hvt hin hv
    rw [hpc v hvt] at hv
    rcases henters hin with hold | halone
    · exact hvt (h.excludes v t hv hold)
    · rw [halone v hvt] at hv
      cases hv
  by_cases hut : u = t
  · by_cases hvt : v = t
    · rw [hut, hvt]
    · exact (hmeets v hvt (hut ▸ hu) hv).elim
  · by_cases hvt : v = t
    · exact (hmeets u hut (hvt ▸ hv) hu).elim
    · rw [hpc u hut] at hu
      rw [hpc v hvt] at hv
      exact h.excludes u v hu hv

/-- The descriptors from before belong to no thread after a step that takes only new ones. -/
theorem Inv.before_step (h : Inv main fds home s) (hpc : ∀ u, u ≠ t → s'.pc u = s.pc u)
    (howned : ∀ fd ∈ (s'.pc t).owned, fd ∈ (s.pc t).owned ∨ s.fds fd = none) {fd : Fd} (hfd : fds fd ≠ none) (u : T) :
    fd ∉ (s'.pc u).owned := by
  obtain ⟨hsame, hnot⟩ := h.before fd hfd
  intro hu
  by_cases hut : u = t
  · rw [hut] at hu
    rcases howned fd hu with hold | hnone
    · exact hnot t hold
    · rw [hsame] at hnone
      exact hfd hnone
  · rw [hpc u hut] at hu
    exact hnot u hu

/-- **A step of one thread** keeps the invariant when it changes only descriptors that are its own or new. -/
theorem Inv.step (h : Inv main fds home s) {pc : Pc} (hpct : s'.pc t = pc) (hpc : ∀ u, u ≠ t → s'.pc u = s.pc u)
    (hns : ∀ u, u ≠ t → s'.ns u = s.ns u) (hstrayed : ∀ u, s'.strayed u = false → s.strayed u = false)
    (hfds : ∀ fd, s'.fds fd = s.fds fd ∨ fd ∈ (s.pc t).owned ∨ (s.fds fd = none ∧ fd ∈ pc.owned))
    (hlocal : Local (Sure main s' t) s'.fds (home t) (home main) (s'.ns t) pc)
    (howned : ∀ fd ∈ pc.owned, fd ∈ (s.pc t).owned ∨ s.fds fd = none)
    (hclosed : ∀ fd ∈ (s.pc t).owned, fd ∉ pc.owned → s'.fds fd = none) (henters : Enters s t pc)
    (hcell : s'.originalNsFd = s.originalNsFd ∨ (s.pc t).inShared = true)
    (hkept : ∀ r, pc = .body .shared r → s'.originalNsFd = r) : Inv main fds home s' := by
  subst hpct
  have hother : ∀ u, u ≠ t → ∀ fd ∈ (s.pc u).owned, s'.fds fd = s.fds fd := by
    intro u hu fd hfd
    rcases hfds fd with hsame | hmine | ⟨hnone, -⟩
    · exact hsame
    · exact absurd (h.disjoint u t fd hfd hmine) hu
    · exact absurd hnone ((h.thread u).open hfd)
  refine ⟨fun u => ?_, h.disjoint_step hpc howned, fun fd hfd => ⟨?_, h.before_step hpc howned hfd⟩,
    fun fd hnone hopen => ?_, h.excludes_step hpc henters, fun u r hu => ?_⟩
  · by_cases hut : u = t
    · rw [hut]
      exact hlocal
    · rw [hpc u hut, hns u hut]
      exact (h.thread u).congr (And.imp (hstrayed u) (hstrayed main)) (hother u hut)
  · obtain ⟨hsame, hnot⟩ := h.before fd hfd
    rcases hfds fd with heq | hmine | ⟨hnone, -⟩
    · rw [heq, hsame]
    · exact absurd hmine (hnot t)
    · rw [hsame] at hnone
      exact absurd hnone hfd
  · have hmine : fd ∈ (s.pc t).owned → ∃ u, fd ∈ (s'.pc u).owned := by
      intro hold
      by_cases hnew : fd ∈ (s'.pc t).owned
      · exact ⟨t, hnew⟩
      · exact absurd (hclosed fd hold hnew) hopen
    rcases hfds fd with heq | hold | ⟨-, hnew⟩
    · rw [heq] at hopen
      obtain ⟨u, hu⟩ := h.inside fd hnone hopen
      by_cases hut : u = t
      · exact hmine (hut ▸ hu)
      · exact ⟨u, by rwa [hpc u hut]⟩
    · exact hmine hold
    · exact ⟨t, hnew⟩
  · by_cases hut : u = t
    · rw [hut] at hu
      exact hkept r hu
    · rw [hpc u hut] at hu
      have hin : (s.pc u).inShared = true := by
        rw [hu]
        rfl
      rcases hcell with hsame | hmine
      · rw [hsame]
        exact h.kept u r hu
      · exact absurd (h.excludes u t hin hmine) hut

/-! ### The calls -/

section Calls

variable {pc : Pc} {fd : Fd}

theorem enters_of_inShared {pc' : Pc} (hpc : s.pc t = pc') (hin : pc.inShared = true → pc'.inShared = true) :
    Enters s t pc := by
  intro h
  rw [hpc]
  exact .inl (hin h)

theorem Inv.main_home (h : Inv main fds home s) (hidle : s.pc main = .idle) (hmain : s.strayed main = false) :
    s.ns main = home main := by
  have hloc := h.thread main
  rw [hidle] at hloc
  exact (hloc ⟨hmain, hmain⟩).elim id id

/-- What `open_current_namespace` opens is the namespace that the main thread started in, unless a way back of it has
failed. -/
theorem Inv.ns_main (h : Inv main fds home s) {k : Kind} (hpc : s.pc t = .begun k)
    (houtside : t ≠ main → s.pc main = .idle) (hmain : s.strayed main = false) : s.ns main = home main := by
  by_cases ht : t = main
  · have hloc := h.thread t
    rw [hpc, ht] at hloc
    exact (hloc ⟨hmain, hmain⟩).elim id id
  · exact h.main_home (houtside ht) hmain

/-- What a section kept is what it restores. -/
theorem Inv.kept_eq (h : Inv main fds home s) {k : Kind} {r : Option Fd} (hpc : s.pc t = .body k r) : s.kept r k = r := by
  cases k with
  | shared =>
      exact h.kept t r hpc
  | own =>
      rfl

theorem Inv.restored (h : Inv main fds home s) : Restored main fds home s where
  back t hidle hsure := by
    have hloc := h.thread t
    rw [hidle] at hloc
    exact hloc hsure
  same fd hfd := (h.before fd hfd).1
  inside := h.inside

variable [DecidableEq T]

theorem goto_pc (s : State T Ns) (t : T) (pc : Pc) : (s.goto t pc).pc t = pc := by
  simp [State.goto]

theorem goto_pc_ne (s : State T Ns) {t u : T} (hu : u ≠ t) (pc : Pc) : (s.goto t pc).pc u = s.pc u := by
  simp [State.goto, hu]

theorem Inv.goto (h : Inv main fds home s) (hown : pc.owned = (s.pc t).owned)
    (hlocal : Local (Sure main s t) s.fds (home t) (home main) (s.ns t) pc) (henters : Enters s t pc)
    (hkept : ∀ r, pc ≠ .body .shared r) : Inv main fds home (s.goto t pc) :=
  h.step (goto_pc s t pc) (fun _ hu => goto_pc_ne s hu pc) (fun _ _ => rfl) (fun _ hu => hu) (fun _ => .inl rfl) hlocal
    (fun _ hf => .inl (hown ▸ hf)) (fun _ hf hnot => absurd (hown ▸ hf) hnot) henters (.inl rfl)
    fun r hr => absurd hr (hkept r)

theorem Inv.openFd (h : Inv main fds home s) {n : Ns} (hnone : s.fds fd = none)
    (hown : ∀ f, f ∈ pc.owned ↔ f ∈ (s.pc t).owned ∨ f = fd)
    (hlocal : Local (Sure main s t) (Function.update s.fds fd (some n)) (home t) (home main) (s.ns t) pc) (henters : Enters s t pc)
    (hkept : ∀ r, pc ≠ .body .shared r) : Inv main fds home ((s.openFd fd n).goto t pc) := by
  refine h.step (goto_pc _ t pc) (fun _ hu => goto_pc_ne _ hu pc) (fun _ _ => rfl) (fun _ hu => hu) (fun f => ?_) hlocal
    (fun f hf => ((hown f).mp hf).imp_right fun (heq : f = fd) => heq ▸ hnone)
    (fun f hf hnot => absurd ((hown f).mpr (.inl hf)) hnot) henters (.inl rfl) fun r hr => absurd hr (hkept r)
  by_cases hf : f = fd
  · exact .inr (.inr ⟨hf ▸ hnone, (hown f).mpr (.inr hf)⟩)
  · exact .inl (Function.update_of_ne hf _ _)

theorem Inv.closeFd (h : Inv main fds home s) (hmine : fd ∈ (s.pc t).owned)
    (hown : ∀ f, f ∈ pc.owned ↔ f ∈ (s.pc t).owned ∧ f ≠ fd)
    (hlocal : Local (Sure main s t) (Function.update s.fds fd none) (home t) (home main) (s.ns t) pc) (henters : Enters s t pc)
    (hkept : ∀ r, pc ≠ .body .shared r) : Inv main fds home ((s.closeFd fd).goto t pc) := by
  refine h.step (goto_pc _ t pc) (fun _ hu => goto_pc_ne _ hu pc) (fun _ _ => rfl) (fun _ hu => hu) (fun f => ?_) hlocal
    (fun f hf => .inl ((hown f).mp hf).1) (fun f hf hnot => ?_) henters (.inl rfl) fun r hr => absurd hr (hkept r)
  · by_cases hf : f = fd
    · exact .inr (.inl (hf ▸ hmine))
    · exact .inl (Function.update_of_ne hf _ _)
  · obtain rfl : f = fd := by_contra fun hne => hnot ((hown f).mpr ⟨hf, hne⟩)
    exact Function.update_self f none s.fds

theorem Inv.setns (h : Inv main fds home s) (hown : pc.owned = (s.pc t).owned)
    (hlocal : Local (Sure main s t) s.fds (home t) (home main) ((s.fds fd).getD (s.ns t)) pc) (henters : Enters s t pc)
    (hkept : ∀ r, pc ≠ .body .shared r) : Inv main fds home ((s.setns t fd).goto t pc) := by
  refine h.step (goto_pc _ t pc) (fun _ hu => goto_pc_ne _ hu pc) (fun _ hu => Function.update_of_ne hu _ _)
    (fun _ hu => hu) (fun _ => .inl rfl) ?_ (fun _ hf => .inl (hown ▸ hf)) (fun _ hf hnot => absurd (hown ▸ hf) hnot) henters
    (.inl rfl) fun r hr => absurd hr (hkept r)
  have hns : ((s.setns t fd).goto t pc).ns t = (s.fds fd).getD (s.ns t) := Function.update_self t _ s.ns
  rw [hns]
  exact hlocal

/-- `original_ns_fd` is written by the thread that is inside. -/
theorem Inv.write (h : Inv main fds home s) (hown : pc.owned = (s.pc t).owned)
    (hlocal : Local (Sure main s t) s.fds (home t) (home main) (s.ns t) pc) (hin : (s.pc t).inShared = true) {r : Option Fd}
    (hkept : ∀ r', pc = .body .shared r' → r = r') :
    Inv main fds home { s.goto t pc with originalNsFd := r } :=
  h.step (goto_pc s t pc) (fun _ hu => goto_pc_ne s hu pc) (fun _ _ => rfl) (fun _ hu => hu) (fun _ => .inl rfl) hlocal
    (fun _ hf => .inl (hown ▸ hf)) (fun _ hf hnot => absurd (hown ▸ hf) hnot) (fun _ => .inl hin) (.inr hin) hkept

/-- After a way back that failed nothing is known of where the thread is. -/
theorem Inv.stray (h : Inv main fds home s) {k : Kind} (hpc : s.pc t = .leaving k fd) :
    Inv main fds home ((s.stray t).goto t (.closing k fd)) := by
  have hstrayed : ((s.stray t).goto t (.closing k fd)).strayed t = true := Function.update_self ..
  have hother : ∀ u, u ≠ t → ((s.stray t).goto t (.closing k fd)).strayed u = s.strayed u :=
    fun u hu => Function.update_of_ne hu ..
  have howned : (Pc.closing k fd).owned = (s.pc t).owned := by
    rw [hpc]
    rfl
  refine h.step (goto_pc _ t _) (fun _ hu => goto_pc_ne _ hu _) (fun _ _ => rfl) (fun u hu => ?_) (fun _ => .inl rfl)
    ⟨fun hsure => ?_, ?_⟩ (fun _ hf => .inl (howned ▸ hf)) (fun _ hf hnot => absurd (howned ▸ hf) hnot)
    (enters_of_inShared hpc id) (.inl rfl) fun r hr => by cases hr
  · by_cases hut : u = t
    · rw [hut, hstrayed] at hu
      cases hu
    · rwa [hother u hut] at hu
  · exact absurd (hstrayed.symm.trans hsure.1) (by decide)
  · exact (h.thread t).open (howned ▸ List.mem_singleton_self fd)

/-- After a failed call a thread is where it was. -/
theorem Inv.failed (h : Inv main fds home s) {k : Kind} (hown : (s.pc t).owned = [])
    (hns : Back (Sure main s t) (home t) (home main) (s.ns t)) (hin : k = .shared → (s.pc t).inShared = true) :
    Inv main fds home (s.goto t k.failed) := by
  cases k with
  | shared =>
      exact h.goto (by rw [hown]; rfl) hns (fun _ => .inl (hin rfl)) (by simp [Kind.failed])
  | own =>
      exact h.goto (by rw [hown]; rfl) hns (fun hf => by cases hf) (by simp [Kind.failed])

variable [DecidableEq Ns] {m : Move Ns}

theorem Inv.next_idle (h : Inv main fds home s) (hpc : s.pc t = .idle) (hcond : Condition main s (t, m))
    (hnext : call main s t .idle m = some s') : Inv main fds home s' := by
  have hloc := h.thread t
  rw [hpc] at hloc
  cases m with
  | begin k =>
      cases hnext
      refine h.goto (by rw [hpc]; rfl) hloc (fun hin => ?_) (by simp)
      cases k with
      | shared =>
          exact .inr hcond
      | own =>
          cases hin
  | _ => cases hnext

theorem Inv.next_begun (h : Inv main fds home s) {k : Kind} (hpc : s.pc t = .begun k)
    (hcond : Condition main s (t, m)) (hnext : call main s t (.begun k) m = some s') : Inv main fds home s' := by
  have hloc := h.thread t
  rw [hpc] at hloc
  cases m with
  | opens fd n =>
      have hif : (if s.fds fd = none ∧ n = s.ns main then some ((s.openFd fd n).goto t (.current k fd)) else none) =
          some s' := hnext
      split_ifs at hif with hopen
      cases hif
      obtain ⟨hnone, rfl⟩ := hopen
      have houtside : t ≠ main → s.pc main = .idle := hcond (by rw [hpc]; rfl)
      refine h.openFd hnone (by simp [hpc, Pc.owned]) ⟨hloc, by simp, fun hsure => ?_⟩ (enters_of_inShared hpc id) (by simp)
      rw [Function.update_self, h.ns_main hpc houtside hsure.2]
  | fail =>
      cases hnext
      refine h.failed (by rw [hpc]; rfl) hloc fun hk => ?_
      rw [hpc, hk]
      rfl
  | _ => cases hnext

theorem Inv.next_current (h : Inv main fds home s) {k : Kind} {orig : Fd} (hpc : s.pc t = .current k orig)
    (hnext : call main s t (.current k orig) m = some s') : Inv main fds home s' := by
  have hloc := h.thread t
  rw [hpc] at hloc
  obtain ⟨hns, horig⟩ := hloc
  cases m with
  | opens fd n =>
      have hif : (if s.fds fd = none then some ((s.openFd fd n).goto t (.both k orig fd)) else none) = some s' := hnext
      split_ifs at hif with hnone
      cases hif
      have hne : orig ≠ fd := by
        rintro rfl
        exact horig.1 hnone
      exact h.openFd hnone (by simp [hpc, Pc.owned])
        ⟨hns, horig.congr (Function.update_of_ne hne _ _), by simp, hne⟩ (enters_of_inShared hpc id) (by simp)
  | fail =>
      cases hnext
      exact h.goto (by rw [hpc]; rfl) ⟨hns, horig.1⟩ (enters_of_inShared hpc id) (by simp)
  | _ => cases hnext

theorem Inv.next_both (h : Inv main fds home s) {k : Kind} {orig new : Fd} (hpc : s.pc t = .both k orig new)
    (hnext : call main s t (.both k orig new) m = some s') : Inv main fds home s' := by
  have hloc := h.thread t
  rw [hpc] at hloc
  obtain ⟨hns, horig, hnew, hne⟩ := hloc
  cases m with
  | ok =>
      cases hnext
      exact h.setns (by rw [hpc]; rfl) ⟨horig, hnew, hne⟩ (enters_of_inShared hpc id) (by simp)
  | fail =>
      cases hnext
      exact h.goto (by rw [hpc]; rfl) ⟨hns, horig.1, hnew, hne⟩ (enters_of_inShared hpc id) (by simp)
  | _ => cases hnext

theorem Inv.next_entered (h : Inv main fds home s) {k : Kind} {orig new : Fd} (hpc : s.pc t = .entered k orig new)
    (hnext : call main s t (.entered k orig new) m = some s') : Inv main fds home s' := by
  have hloc := h.thread t
  rw [hpc] at hloc
  obtain ⟨horig, -, hne⟩ := hloc
  cases m with
  | ok =>
      cases hnext
      have hkeep : Refers (Sure main s t) (Function.update s.fds new none) (home main) orig :=
        horig.congr (Function.update_of_ne hne _ _)
      cases k with
      | shared =>
          refine h.closeFd (by simp [hpc, Pc.owned]) (fun f => ?_) hkeep (enters_of_inShared hpc id) (by simp [Kind.entered])
          simp only [hpc, Kind.entered, Pc.owned, List.mem_cons, List.not_mem_nil, or_false]
          grind
      | own =>
          refine h.closeFd (by simp [hpc, Pc.owned]) (fun f => ?_) hkeep (enters_of_inShared hpc id) (by simp [Kind.entered])
          simp only [hpc, Kind.entered, Pc.owned, List.mem_cons, List.not_mem_nil, or_false]
          grind
  | _ => cases hnext

theorem Inv.next_undoBoth (h : Inv main fds home s) {k : Kind} {orig new : Fd} (hpc : s.pc t = .undoBoth k orig new)
    (hnext : call main s t (.undoBoth k orig new) m = some s') : Inv main fds home s' := by
  have hloc := h.thread t
  rw [hpc] at hloc
  obtain ⟨hns, horig, hnew, hne⟩ := hloc
  cases k with
  | shared =>
      cases m with
      | ok =>
          cases hnext
          refine h.closeFd (by simp [hpc, Pc.owned]) (fun f => ?_) ⟨hns, ?_⟩ (enters_of_inShared hpc id) (by simp)
          · simp only [hpc, Pc.owned, List.mem_cons, List.not_mem_nil, or_false]
            grind
          · rwa [Function.update_of_ne hne.symm]
      | _ => cases hnext
  | own =>
      cases m with
      | ok =>
          cases hnext
          refine h.closeFd (by simp [hpc, Pc.owned]) (fun f => ?_) ⟨hns, ?_⟩ (enters_of_inShared hpc id) (by simp)
          · simp only [hpc, Pc.owned, List.mem_cons, List.not_mem_nil, or_false]
            grind
          · rwa [Function.update_of_ne hne]
      | _ => cases hnext

theorem Inv.next_undo (h : Inv main fds home s) {k : Kind} {fd : Fd} (hpc : s.pc t = .undo k fd)
    (hnext : call main s t (.undo k fd) m = some s') : Inv main fds home s' := by
  have hloc := h.thread t
  rw [hpc] at hloc
  cases m with
  | ok =>
      cases hnext
      cases k with
      | shared =>
          exact h.closeFd (by simp [hpc, Pc.owned]) (by simp [hpc, Kind.failed, Pc.owned]) hloc.1
            (enters_of_inShared hpc id) (by simp [Kind.failed])
      | own =>
          exact h.closeFd (by simp [hpc, Pc.owned]) (by simp [hpc, Kind.failed, Pc.owned]) hloc.1
            (fun hf => by cases hf) (by simp [Kind.failed])
  | _ => cases hnext

theorem Inv.next_returned (h : Inv main fds home s) {r : Option Fd} (hpc : s.pc t = .returned r)
    (hnext : call main s t (.returned r) m = some s') : Inv main fds home s' := by
  have hloc := h.thread t
  rw [hpc] at hloc
  cases m with
  | ok =>
      cases hnext
      have hin : (s.pc t).inShared = true := by
        rw [hpc]
        rfl
      refine h.write ?_ ?_ hin fun r' hr => ?_
      · rw [hpc]
        cases r <;> rfl
      · cases r with
        | none =>
            exact hloc
        | some a =>
            exact hloc
      · cases hr
        rfl
  | _ => cases hnext

theorem Inv.next_body (h : Inv main fds home s) {k : Kind} {r : Option Fd} (hpc : s.pc t = .body k r)
    (hnext : call main s t (.body k r) m = some s') : Inv main fds home s' := by
  have hloc := h.thread t
  rw [hpc] at hloc
  cases m with
  | ok =>
      have hkept : (match s.kept r k with
          | none => some (s.goto t .idle)
          | some fd => some (s.goto t (.leaving k fd))) = some s' := hnext
      rw [h.kept_eq hpc] at hkept
      cases r with
      | none =>
          cases hkept
          exact h.goto (by rw [hpc]; rfl) hloc (fun hf => by cases hf) (by simp)
      | some fd =>
          cases hkept
          exact h.goto (by rw [hpc]; rfl) hloc (enters_of_inShared hpc id) (by simp)
  | _ => cases hnext

theorem Inv.next_leaving (h : Inv main fds home s) {k : Kind} {fd : Fd} (hpc : s.pc t = .leaving k fd)
    (hnext : call main s t (.leaving k fd) m = some s') : Inv main fds home s' := by
  have hloc := h.thread t
  rw [hpc] at hloc
  obtain ⟨hopen, hfd⟩ : Refers (Sure main s t) s.fds (home main) fd := hloc
  cases m with
  | ok =>
      cases hnext
      refine h.setns (by rw [hpc]; rfl) ⟨fun hsure => .inr ?_, hopen⟩ (enters_of_inShared hpc id) (by simp)
      rw [hfd hsure, Option.getD_some]
  | fail =>
      cases hnext
      exact h.stray hpc
  | _ => cases hnext

theorem Inv.next_closing (h : Inv main fds home s) {k : Kind} {fd : Fd} (hpc : s.pc t = .closing k fd)
    (hnext : call main s t (.closing k fd) m = some s') : Inv main fds home s' := by
  have hloc := h.thread t
  rw [hpc] at hloc
  cases m with
  | ok =>
      cases hnext
      cases k with
      | shared =>
          exact h.closeFd (by simp [hpc, Pc.owned]) (by simp [hpc, Kind.closed, Pc.owned]) hloc.1
            (enters_of_inShared hpc id) (by simp [Kind.closed])
      | own =>
          exact h.closeFd (by simp [hpc, Pc.owned]) (by simp [hpc, Kind.closed, Pc.owned]) hloc.1
            (fun hf => by cases hf) (by simp [Kind.closed])
  | _ => cases hnext

theorem Inv.next_left (h : Inv main fds home s) (hpc : s.pc t = .left) (hnext : call main s t .left m = some s') :
    Inv main fds home s' := by
  have hloc := h.thread t
  rw [hpc] at hloc
  cases m with
  | ok =>
      cases hnext
      have hin : (s.pc t).inShared = true := by
        rw [hpc]
        rfl
      have hout : Local (Sure main s t) s.fds (home t) (home main) (s.ns t) .idle := hloc
      exact h.write (by rw [hpc]; rfl) hout hin (by simp)
  | _ => cases hnext

/-- **Every call** keeps the invariant. -/
theorem Inv.next (h : Inv main fds home s) (hcond : Condition main s (t, m))
    (hnext : Namespaces.next main s (t, m) = some s') : Inv main fds home s' := by
  have hcall : call main s t (s.pc t) m = some s' := hnext
  cases hpc : s.pc t with
  | idle =>
      rw [hpc] at hcall
      exact h.next_idle hpc hcond hcall
  | begun k =>
      rw [hpc] at hcall
      exact h.next_begun hpc hcond hcall
  | current k orig =>
      rw [hpc] at hcall
      exact h.next_current hpc hcall
  | both k orig new =>
      rw [hpc] at hcall
      exact h.next_both hpc hcall
  | entered k orig new =>
      rw [hpc] at hcall
      exact h.next_entered hpc hcall
  | undoBoth k orig new =>
      rw [hpc] at hcall
      exact h.next_undoBoth hpc hcall
  | undo k fd =>
      rw [hpc] at hcall
      exact h.next_undo hpc hcall
  | returned r =>
      rw [hpc] at hcall
      exact h.next_returned hpc hcall
  | body k r =>
      rw [hpc] at hcall
      exact h.next_body hpc hcall
  | leaving k fd =>
      rw [hpc] at hcall
      exact h.next_leaving hpc hcall
  | closing k fd =>
      rw [hpc] at hcall
      exact h.next_closing hpc hcall
  | left =>
      rw [hpc] at hcall
      exact h.next_left hpc hcall

end Calls

end Invariant

/-! ### Runs -/

section Runs

variable {T Ns : Type} [DecidableEq T] [DecidableEq Ns]

/-- **Namespaces are restored**: over every run in which shared sections do not overlap, whatever call fails, threads
outside are where they or the main thread started unless a way back has failed, and no descriptor of a section stays
open behind it. -/
theorem restored_of_run {main : T} {fds : Fd → Option Ns} {home : T → Ns} {saved : Option Fd} {s : State T Ns}
    (h : Run (next main) (Condition main) (start fds home saved) s) : Restored main fds home s :=
  (run_invariant (I := Inv main fds home) (fun _ _ _ hI hC hn => hI.next hC hn) h
    (inv_start main fds home saved)).restored

instance [Fintype T] (main : T) (s : State T Ns) (a : T × Move Ns) : Decidable (Condition main s a) :=
  match a with
  | (t, .begin .shared) => inferInstanceAs (Decidable (∀ u, u ≠ t → (s.pc u).inShared = false))
  | (_, .begin .own) => isTrue trivial
  | (t, .opens _ _) => inferInstanceAs (Decidable ((s.pc t).isBegun = true → t ≠ main → s.pc main = .idle))
  | (_, .ok) => isTrue trivial
  | (_, .fail) => isTrue trivial

/-- The main thread and two others, which start in the namespace 1, with the server's descriptor 3. -/
def threads : State (Fin 3) ℕ :=
  start (fun fd => if fd = 3 then some 0 else none) (fun t => if t = 0 then 0 else 1) (some 3)

/-- A request, while another thread looks up an interface, whose namespace it cannot enter at first and not leave
then. -/
def requestCalls : List (Fin 3 × Move ℕ) :=
  [(1, .begin .shared), (1, .opens 4 0), (2, .begin .own), (2, .opens 5 0), (1, .opens 6 2), (1, .ok), (2, .opens 7 2),
    (1, .ok), (1, .ok), (2, .fail), (1, .ok), (2, .ok), (1, .ok), (1, .ok), (2, .ok), (1, .ok), (2, .begin .own),
    (2, .opens 5 0), (2, .opens 7 2), (2, .ok), (2, .ok), (2, .ok), (2, .fail), (2, .ok)]

theorem restored_of_run_request : ∃ s, Run (next 0) (Condition 0) threads s ∧ (∀ t, s.pc t = .idle) ∧ s.ns 1 = 0 ∧
    s.strayed 1 = false ∧ s.ns 2 = 2 ∧ s.strayed 2 = true ∧
    Restored 0 (fun fd => if fd = 3 then some 0 else none) (fun t => if t = 0 then 0 else 1) s := by
  have heval : ((execTo (guarded (next 0) (Condition 0)) threads requestCalls).map fun s =>
      ((s.pc 0, s.pc 1, s.pc 2), (s.ns 1, s.strayed 1), (s.ns 2, s.strayed 2))) =
        some ((.idle, .idle, .idle), (0, false), (2, true)) := by decide +kernel
  obtain ⟨s, hs, heq⟩ := Option.map_eq_some_iff.mp heval
  simp only [Prod.mk.injEq] at heq
  obtain ⟨⟨h0, h1, h2⟩, ⟨hns1, hsure1⟩, hns2, hsure2⟩ := heq
  have hrun := run_of_guarded hs
  refine ⟨s, hrun, fun t => ?_, hns1, hsure1, hns2, hsure2, restored_of_run hrun⟩
  fin_cases t
  · exact h0
  · exact h1
  · exact h2

/-- Two requests that overlap. -/
def overlapCalls : List (Fin 3 × Move ℕ) :=
  [(1, .begin .shared), (1, .opens 4 0), (1, .opens 5 2), (1, .ok), (1, .ok), (1, .ok), (2, .begin .shared), (2, .opens 5 0),
    (2, .opens 6 2), (2, .ok), (2, .ok), (2, .ok), (1, .ok), (1, .ok), (1, .ok), (1, .ok), (2, .ok)]

/-- The second one stays in its target, and the first one's descriptor stays open. -/
theorem not_restored_overlap : ∃ s, Run (next 0) (fun _ _ => True) threads s ∧ (∀ t, s.pc t = .idle) ∧ s.ns 2 = 2 ∧
    s.fds 4 = some 0 := by
  have heval : ((execTo (next 0) threads overlapCalls).map fun s =>
      (s.pc 0, s.pc 1, s.pc 2, s.ns 2, s.fds 4)) = some (.idle, .idle, .idle, 2, some 0) := by decide +kernel
  obtain ⟨s, hs, heq⟩ := Option.map_eq_some_iff.mp heval
  simp only [Prod.mk.injEq] at heq
  obtain ⟨h0, h1, h2, hns, hfd⟩ := heq
  refine ⟨s, run_of_execTo hs, fun t => ?_, hns, hfd⟩
  fin_cases t
  · exact h0
  · exact h1
  · exact h2

end Runs

end OneWifiTestSuite.Namespaces
