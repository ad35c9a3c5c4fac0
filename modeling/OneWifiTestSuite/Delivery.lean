import OneWifiTestSuite.CharDevice
import OneWifiTestSuite.KernelCodec

/-!
# From the kernel to the message handler

A message goes through three layers: `push_to_char_device` links it into the queue of the device,
`rdkfmac_read` pops and encodes it, and a turn of `msg_hdlr_thread_func` decodes the bytes into the
message object that it queues. `CharDevice`, `KernelCodec` and `MsgHdlr` are about one layer each;
here the kernel, the writers and the handler take their steps in any order.

`deliversOnce_of_run` is the conservation law of the whole way: no message is lost, none is delivered
twice, and every object shows the message that it was made from.
-/

namespace OneWifiTestSuite.Delivery

open ByteRegion Runs KernelCodec MsgHdlr
open CharDevice (Device Op Out popFromCharDevice pushed)

section Code

/-- A management frame that the driver hands over, with its header. -/
structure RxFrame where
  bytes : Bytes
  header : 24 ≤ bytes.length
  len : bytes.length < 2 ^ 32

/-- Six bytes of the header. -/
def RxFrame.mac (f : RxFrame) (off : ℕ) (h : off + 6 ≤ 24) : Mac :=
  ⟨(f.bytes.drop off).take 6, by
    have := f.header
    rw [List.length_take, List.length_drop]
    omega⟩

/-- The message of `handle_frame_auth` and `handle_frame_assoc_resp`: the frame with its `bssid` and
its `da`. -/
def handleFrame (ops : FrmOps) (f : RxFrame) : Msg :=
  .frm80211 ops f.bytes f.len (f.mac 16 (by decide)) (f.mac 4 (by decide))

/-- The message of `push_frame_to_char_dev`, by the subtype in the frame control. -/
def pushFrameToCharDev (f : RxFrame) : Option Msg :=
  match leNat (f.bytes.take 2) / 16 % 16 with
  | 1 => some (handleFrame .assocResp f)
  | 11 => some (handleFrame .auth f)
  | _ => none

/-- The device and the thread, with the messages that the device took and the message objects after
each decoding. -/
structure State where
  device : Device Msg
  handler : Handler
  exited : Bool
  accepted : List Msg
  objects : List Handler

def init : State := ⟨CharDevice.init, MsgHdlr.init, false, [], []⟩

/-- A call on the device, a received frame with the answers of the allocators, or a turn of the thread
after its `poll`, with the answers of `kmalloc` for the buffer and of `copy_to_user`. -/
inductive Label
  | call (op : Op Msg)
  | rx (f : RxFrame) (msgAlloc frameAlloc : Bool) (entry : Option ℕ) (spec : Bool)
  | read (a : Addrs) (alloc copied : Bool)

/-- The message of a push, if the device took it. -/
def took : Op Msg → Out Msg → List Msg
  | .push m _ _, .accepted => [m]
  | _, _ => []

/-- A call that takes nothing out of the device. -/
def call (s : State) (op : Op Msg) : Option State :=
  (CharDevice.step 0 s.device op).map fun r =>
    { s with device := r.1, accepted := s.accepted ++ took op r.2 }

/-- What `copy_to_user` transfers. -/
def reply (e : Enc) : Option Read :=
  if h : e.len ≤ bufSize then some (.bytes (slice e.buf 0 e.len) (by simpa using h)) else none

/-- `rdkfmac_read` and the turn for its bytes; the result of a read that failed is not checked. -/
def read (s : State) (a : Addrs) (alloc copied : Bool) : Option State := do
  let r ← popFromCharDevice s.device
  match r.2 with
  | none => some { s with device := r.1 }
  | some m => do
      let e ← if alloc then rdkfmacRead bufSize m else none
      let bs ← if copied then reply e else some .failed
      let t ← turn s.handler a bs
      match t.2 with
      | .skipped => some { s with device := r.1, handler := t.1 }
      | .exited => some { s with device := r.1, handler := t.1, exited := true, objects := s.objects ++ [t.1] }
      | .delivered _ => some { s with device := r.1, handler := t.1, objects := s.objects ++ [t.1] }

/-- A step; `none` is a crash, a label that has another form, or a turn of a thread that has ended. -/
def next (s : State) : Label → Option State
  | .call (.pop _) | .call .count => none
  | .call op => call s op
  | .rx f msgAlloc frameAlloc entry spec =>
      match pushFrameToCharDev f with
      | none => some s
      | some m =>
          if msgAlloc = false then some s
          else if frameAlloc = false then none
          else call s (.push m entry spec)
  | .read a alloc copied => if s.exited = true then none else read s a alloc copied

end Code

/-! ### Conservation -/

section Spec

/-- The messages that wait in the memory of the device, oldest first. -/
def Waits (d : Device Msg) (waiting : List Msg) : Prop :=
  ∃ a as, CharDevice.Holds d a as ∧ a.queue = waiting

/-- A push finds memory, and its message is one that the codec carries. -/
def PushFits (d : Device Msg) (m : Msg) (entry : Option ℕ) (spec : Bool) : Prop :=
  Fits m ∧ spec = true ∧ ∃ e, entry = some e ∧ d.links e = none

/-- The condition on a step. -/
def Cond (s : State) : Label → Prop
  | .call (.push m entry spec) => PushFits s.device m entry spec
  | .rx f msgAlloc frameAlloc entry spec =>
      ∀ m, pushFrameToCharDev f = some m → msgAlloc = true →
        frameAlloc = true ∧ PushFits s.device m entry spec
  | .read _ alloc copied => alloc = true ∧ copied = true
  | _ => True

/-- The labels that stand for a step of this system. -/
def Enabled (s : State) : Label → Prop
  | .call (.pop _) | .call .count => False
  | .read _ _ _ => s.exited = false
  | _ => True

/-- Every accepted message is in one of two places, and once: decoded into an object that holds it,
or waiting in the device. And no step crashes. -/
structure DeliversOnce (s : State) : Prop where
  once : ∃ decoded waiting, List.Forall₂ KernelCodec.Holds s.objects decoded ∧ Waits s.device waiting ∧
    (decoded ++ waiting).Perm s.accepted
  goesOn : ∀ l, Enabled s l → Cond s l → (next s l).isSome

end Spec

section Proof

variable {s t : State}

/-- The memory of the device is a queue of messages that all fit. -/
structure Inv (s : State) (a : CharDevice.Abs Msg) (as : List ℕ) (decoded : List Msg) : Prop where
  holds : CharDevice.Holds s.device a as
  fits : ∀ m ∈ a.queue, Fits m
  objects : List.Forall₂ KernelCodec.Holds s.objects decoded
  perm : (decoded ++ a.queue).Perm s.accepted

theorem inv_init : Inv init CharDevice.absInit [] [] :=
  ⟨CharDevice.holds_init, by simp [CharDevice.absInit], .nil, .refl _⟩

/-- A call other than `pop` and `count` leaves the waiting messages, and puts what it took behind them. -/
theorem stackStep_queue {a : CharDevice.Abs Msg} {op : Op Msg} (hpop : ∀ copied, op ≠ .pop copied) (hcount : op ≠ .count) :
    (CharDevice.stackStep a op).1.queue = a.queue ++ took op (CharDevice.stackStep a op).2 := by
  cases op with
  | pop copied =>
      exact absurd rfl (hpop copied)
  | count =>
      exact absurd rfl hcount
  | push m entry spec =>
      simp only [CharDevice.stackStep, CharDevice.absStep]
      split_ifs <;> simp [took]
  | release =>
      simp only [CharDevice.stackStep, CharDevice.absStep]
      split_ifs <;> simp [took]
  | «open» | start =>
      simp [CharDevice.stackStep, CharDevice.absStep, took]

theorem fits_of_took {op : Op Msg} {out : Out Msg} (hop : ∀ m, pushed op = some m → Fits m) :
    ∀ m ∈ took op out, Fits m := by
  intro m hm
  cases op <;> cases out <;> simp [took] at hm
  exact hop _ (by simp [pushed, hm])

/-- The step lemma for a call. -/
theorem call_spec {a : CharDevice.Abs Msg} {as : List ℕ} {decoded : List Msg} {op : Op Msg} (h : Inv s a as decoded)
    (hpop : ∀ copied, op ≠ .pop copied) (hcount : op ≠ .count)
    (hpush : ∀ m entry spec, op = .push m entry spec → PushFits s.device m entry spec) :
    ∃ t a' as', call s op = some t ∧ Inv t a' as' decoded := by
  have hfit : (pushed op).isSome = true → CharDevice.Fits a op := by
    intro hp
    cases op <;> simp only [pushed, Option.isSome_none, Bool.false_eq_true] at hp
    obtain ⟨-, hspec, e, he, -⟩ := hpush _ _ _ rfl
    exact fun _ _ => ⟨by simp [he], hspec⟩
  have halloc : CharDevice.Allocates s.device op := by
    cases op <;> try trivial
    obtain ⟨-, -, e, he, hfree⟩ := hpush _ _ _ rfl
    intro e' he'
    rw [he] at he'
    cases he'
    exact hfree
  -- the fuel is for `count` alone
  have hstep : ∃ d' as', CharDevice.step 0 s.device op = some (d', (CharDevice.stackStep a op).2) ∧
      CharDevice.Holds d' (CharDevice.stackStep a op).1 as' := by
    have hrefines := CharDevice.step_refines_stack h.holds (Nat.lt_succ_self _) hfit halloc
    cases op with
    | count =>
        exact absurd rfl hcount
    | «open» | release | start | push data entry spec | pop copied =>
        exact hrefines
  obtain ⟨d', as', hstep, hholds⟩ := hstep
  have hcall : call s op = some { s with
      device := d', accepted := s.accepted ++ took op (CharDevice.stackStep a op).2 } := by
    rw [call, hstep]
    rfl
  refine ⟨_, (CharDevice.stackStep a op).1, as', hcall, hholds, ?_, h.objects, ?_⟩
  · intro m hm
    rw [stackStep_queue hpop hcount] at hm
    rcases List.mem_append.mp hm with hm | hm
    · exact h.fits m hm
    · refine fits_of_took (fun m' hm' => ?_) m hm
      cases op <;> simp only [pushed, reduceCtorEq, Option.some.injEq] at hm'
      exact hm' ▸ (hpush _ _ _ rfl).1
  · rw [stackStep_queue hpop hcount, ← List.append_assoc]
    exact h.perm.append_right _

theorem turn_of_ne_nil {h : Handler} {a : Addrs} {bs : Bytes} (hne : bs ≠ []) (hfits : bs.length ≤ bufSize) :
    turn h a (.bytes bs hfits) = (dispatch a { h with buf := store h.buf 0 bs }).map fun h' =>
      (h', if h'.kind = .emu80211 .close then .exited else .delivered h'.view) := by
  cases bs with
  | nil =>
      exact absurd rfl hne
  | cons b bs =>
      rfl

theorem parts_flatten_length_pos {m : Msg} (hm : Fits m) : 0 < (parts m).flatten.length := by
  cases m with
  | startAp ap =>
      exact absurd hm id
  | frm80211 | tctrl | close | webconfig | agentCmd | agentData | agentNotification =>
      simp [parts]

theorem rdkfmacRead_len {m : Msg} {e : Enc} (hm : Fits m) (h : rdkfmacRead bufSize m = some e) :
    e.len = (parts m).flatten.length := by
  have hputs : rdkfmacRead bufSize m = puts bufSize (parts m) ⟨fun _ => 0, 0, 0, 0⟩ := by
    cases m with
    | startAp ap =>
        exact absurd hm id
    | frm80211 | tctrl | close | webconfig | agentCmd | agentData | agentNotification =>
        rfl
  rw [hputs, puts_eq _ _ 0 (Nat.zero_le _), Nat.zero_add] at h
  split_ifs at h
  cases h
  rfl

/-- A popped message is encoded, transferred and decoded into an object that holds it. -/
theorem turn_of_fits {m : Msg} (hm : Fits m) (h : Handler) (a : Addrs) :
    ∃ e bs h', rdkfmacRead bufSize m = some e ∧ reply e = some bs ∧ KernelCodec.Holds h' m ∧
      (turn h a bs = some (h', .exited) ∨ ∃ v, turn h a bs = some (h', .delivered v)) := by
  obtain ⟨e, hread, -, hle, hdecode⟩ := (roundTrips_iff m).mpr hm
  obtain ⟨h', hrun, hholds⟩ := hdecode a h
  have hne : slice e.buf 0 e.len ≠ [] := by
    have hpos := parts_flatten_length_pos hm
    rw [← rdkfmacRead_len hm hread, ← length_slice e.buf 0 e.len] at hpos
    exact List.ne_nil_of_length_pos hpos
  have hturn := turn_of_ne_nil (h := h) (a := a) hne (by simpa using hle)
  rw [hrun, Option.map_some] at hturn
  refine ⟨e, _, h', hread, dif_pos hle, hholds, ?_⟩
  rw [hturn]
  split_ifs
  · exact .inl rfl
  · exact .inr ⟨_, rfl⟩

/-- The step lemma for a turn of the thread. -/
theorem read_spec {a : CharDevice.Abs Msg} {as : List ℕ} {decoded : List Msg} (h : Inv s a as decoded) (x : Addrs) :
    ∃ t a' as' decoded', read s x true true = some t ∧ Inv t a' as' decoded' := by
  obtain ⟨d', as', hpop, hholds⟩ := CharDevice.pop_holds h.holds
  rcases List.eq_nil_or_concat' a.queue with hq | ⟨q, m, hq⟩
  · rw [hq] at hpop
    have hread : read s x true true = some { s with device := d' } := by
      rw [read, hpop]
      rfl
    refine ⟨_, _, as', decoded, hread, hholds, ?_, h.objects, ?_⟩
    · intro m hm
      exact h.fits m (List.mem_of_mem_dropLast hm)
    · have hperm := h.perm
      rw [hq] at hperm
      rwa [hq]
  · have hlast : a.queue.getLast? = some m := by
      rw [hq]
      simp
    have hm : Fits m := h.fits m (by simp [hq])
    obtain ⟨e, bs, h', hread, hreply, hobject, hturn⟩ := turn_of_fits hm s.handler x
    rw [hlast] at hpop
    have hfits : ∀ m ∈ a.queue.dropLast, Fits m := fun m hm => h.fits m (List.mem_of_mem_dropLast hm)
    have hobjects : List.Forall₂ KernelCodec.Holds (s.objects ++ [h']) (decoded ++ [m]) :=
      List.rel_append h.objects (.cons hobject .nil)
    have hperm : ((decoded ++ [m]) ++ a.queue.dropLast).Perm s.accepted := by
      have hmove : ((decoded ++ [m]) ++ q).Perm (decoded ++ (q ++ [m])) := by
        rw [List.append_assoc]
        exact List.Perm.append_left _ List.perm_append_comm
      have hperm := h.perm
      rw [hq] at hperm
      rw [hq, List.dropLast_concat]
      exact hmove.trans hperm
    rcases hturn with hturn | ⟨v, hturn⟩
    · have hnext : read s x true true = some { s with
          device := d', handler := h', exited := true, objects := s.objects ++ [h'] } := by
        simp only [read, hpop, if_true, hread, hreply, hturn, Option.bind_eq_bind, Option.bind_some]
      exact ⟨_, _, as', _, hnext, hholds, hfits, hobjects, hperm⟩
    · have hnext : read s x true true = some { s with
          device := d', handler := h', objects := s.objects ++ [h'] } := by
        simp only [read, hpop, if_true, hread, hreply, hturn, Option.bind_eq_bind, Option.bind_some]
      exact ⟨_, _, as', _, hnext, hholds, hfits, hobjects, hperm⟩

/-- The step lemma for a call of the kernel or of a writer. -/
theorem call_step {a : CharDevice.Abs Msg} {as : List ℕ} {decoded : List Msg} {op : Op Msg} (h : Inv s a as decoded)
    (hen : Enabled s (.call op)) (hcond : Cond s (.call op)) :
    ∃ t a' as', call s op = some t ∧ Inv t a' as' decoded := by
  refine call_spec h ?_ ?_ ?_
  · rintro copied rfl
    exact hen
  · rintro rfl
    exact hen
  · rintro m entry spec rfl
    exact hcond

/-- The step lemma for a received frame: it is ignored, or it is pushed. -/
theorem rx_step {a : CharDevice.Abs Msg} {as : List ℕ} {decoded : List Msg} {f : RxFrame}
    {msgAlloc frameAlloc : Bool} {entry : Option ℕ} {spec : Bool} (h : Inv s a as decoded)
    (hcond : Cond s (.rx f msgAlloc frameAlloc entry spec)) :
    ∃ t a' as', next s (.rx f msgAlloc frameAlloc entry spec) = some t ∧ Inv t a' as' decoded := by
  simp only [next]
  cases hm : pushFrameToCharDev f with
  | none =>
      exact ⟨s, a, as, rfl, h⟩
  | some m =>
      cases hmsg : msgAlloc with
      | false =>
          exact ⟨s, a, as, rfl, h⟩
      | true =>
          obtain ⟨rfl, hfits⟩ := hcond m hm hmsg
          have hpush : ∀ m' entry' spec', Op.push m entry spec = .push m' entry' spec' →
              PushFits s.device m' entry' spec' := by
            rintro _ _ _ ⟨⟩
            exact hfits
          exact call_spec h (by simp) (by simp) hpush

/-- **The step lemma**: an enabled step that meets the condition does not crash, and it keeps the
invariant. -/
theorem next_spec {a : CharDevice.Abs Msg} {as : List ℕ} {decoded : List Msg} {l : Label} (h : Inv s a as decoded)
    (hen : Enabled s l) (hcond : Cond s l) :
    ∃ t a' as' decoded', next s l = some t ∧ Inv t a' as' decoded' := by
  cases l with
  | call op =>
      obtain ⟨t, a', as', hcall, hinv⟩ := call_step h hen hcond
      refine ⟨t, a', as', decoded, ?_, hinv⟩
      cases op with
      | pop copied =>
          exact absurd hen id
      | count =>
          exact absurd hen id
      | «open» | release | start | push data entry spec =>
          exact hcall
  | rx f msgAlloc frameAlloc entry spec =>
      obtain ⟨t, a', as', hnext, hinv⟩ := rx_step h hcond
      exact ⟨t, a', as', decoded, hnext, hinv⟩
  | read x alloc copied =>
      obtain ⟨rfl, rfl⟩ := hcond
      obtain ⟨t, a', as', decoded', hread, hinv⟩ := read_spec h x
      refine ⟨t, a', as', decoded', ?_, hinv⟩
      have hlive : s.exited = false := hen
      simp only [next, hlive, Bool.false_eq_true, if_false, hread]

theorem enabled_of_next {l : Label} (h : next s l = some t) : Enabled s l := by
  cases l with
  | call op =>
      cases op <;> simp [next, Enabled] at h ⊢
  | rx =>
      trivial
  | read x alloc copied =>
      by_contra hlive
      simp [next, Enabled] at h hlive
      simp [hlive] at h

end Proof

/-- **The conservation law**: in every state of every interleaving, each message that the device
accepted either waits in it or is held by exactly one message object, and no enabled step crashes. -/
theorem deliversOnce_of_run {s : State} (h : Run next Cond init s) : DeliversOnce s := by
  have hinv : ∃ a as decoded, Inv s a as decoded := by
    refine run_invariant (I := fun s => ∃ a as decoded, Inv s a as decoded) ?_ h ⟨_, _, _, inv_init⟩
    rintro s l t ⟨a, as, decoded, hs⟩ hcond hnext
    obtain ⟨t', a', as', decoded', ht', ht⟩ := next_spec hs (enabled_of_next hnext) hcond
    rw [hnext] at ht'
    cases ht'
    exact ⟨a', as', decoded', ht⟩
  obtain ⟨a, as, decoded, hs⟩ := hinv
  refine ⟨⟨decoded, a.queue, hs.objects, ⟨a, as, hs.holds, rfl⟩, hs.perm⟩, fun l hen hcond => ?_⟩
  obtain ⟨t, -, -, -, ht, -⟩ := next_spec hs hen hcond
  simp [ht]

/-- An authentication frame of 30 bytes. -/
def authFrame : RxFrame :=
  ⟨0xb0 :: List.replicate 29 0, by decide, by decide⟩

theorem deliversOnce_of_auth_frame : ∃ s,
    execTo next init [.call .open, .call .start, .rx authFrame true true (some 1) true, .read ⟨4096, 8192, by decide⟩ true true] =
      some s ∧ s.objects.length = 1 ∧ DeliversOnce s := by
  have hopen : Run next Cond init _ := .single (a := .call .open) trivial rfl
  have hstart := Run.step (a := Label.call .start) hopen trivial rfl
  have hcond : ∀ m, pushFrameToCharDev authFrame = some m → Fits m := by
    rintro m ⟨⟩
    exact show 24 + 30 ≤ bufSize by decide
  have hrx := Run.step (a := Label.rx authFrame true true (some 1) true) hstart
    (fun m hm _ => ⟨rfl, hcond m hm, rfl, 1, rfl, rfl⟩) rfl
  have hread := Run.step (a := Label.read ⟨4096, 8192, by decide⟩ true true) hrx ⟨rfl, rfl⟩ rfl
  exact ⟨_, rfl, rfl, deliversOnce_of_run hread⟩

end OneWifiTestSuite.Delivery
