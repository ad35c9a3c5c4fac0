import OneWifiTestSuite.ByteRegion
import OneWifiTestSuite.RebootResume

/-!
# Checking the options of iperf

`validate_iperf_options` walks once over the options that `getopt_long` yields. It checks each argument
and keeps three variables: the role and whether an option of the client or of the server has come up.
The conflicts are tested after every option, against what has been seen so far.

`validateIperfOptions_iff` says that nothing depends on the order: the options are accepted exactly when
each of them is supported and passes its own check and no two of them are in conflict.
-/

namespace OneWifiTestSuite.IperfOptions

open ByteRegion RebootResume

section Code

/-- What `getopt_long` returns: the options with a case in the switch, named after the short option or the
`IPERF_OPT_` constant, and every other value (`'?'`, `'A'`, `'d'`, `'h'`, `'v'`, `IPERF_OPT_BIND_DEV`). -/
inductive Opt
  | p | f | i | D | one | V | J | jsonStream | s | c | u | sctp | numstreams | b | serverBitrateLimit | t | n | k | l
  | P | R | bidirectional | w | B | clientPort | M | N | four | six | S | dscp | extraData | L | X | Z
  | repeatingPayload | timestamps | O | F | idleTimeout | rcvTimeout | sndTimeout | cntlKa | T | C | I | logfile
  | forceflush | getServerOutput | udpCounters64bit | noFqSocketPacing | fqRate | dontFragment | clientUsername
  | clientRsaPublicKey | serverRsaPrivateKey | serverAuthorizedUsers | serverSkewThreshold | usePkcs1Padding
  | skipRxCopy | pacingTimer | connectTimeout | m
  | other (opt : ℤ)
deriving DecidableEq, Repr

/-- The options with `required_argument` in `longopts` or a colon in `optstring`. -/
def Opt.requiresArgument : Opt → Bool
  | .p | .f | .i | .c | .b | .serverBitrateLimit | .t | .n | .k | .l | .P | .w | .B | .clientPort | .M | .S | .dscp
  | .extraData | .L | .O | .F | .T | .C | .numstreams | .X | .I | .logfile | .clientUsername | .clientRsaPublicKey
  | .serverRsaPrivateKey | .serverAuthorizedUsers | .serverSkewThreshold | .fqRate | .pacingTimer | .connectTimeout
  | .idleTimeout | .rcvTimeout | .sndTimeout => true
  | _ => false

/-- `opt` and `optarg` after a call of `getopt_long`, which yields `'?'` when a required argument is missing. -/
structure Yielded where
  opt : Opt
  optarg : Option Bytes
  given : opt.requiresArgument = true → optarg.isSome = true

/-- The argument of an option that requires one. -/
def Yielded.arg (y : Yielded) : Bytes :=
  y.optarg.getD []

/-- What the C library answers: `atof` with the comparisons of its type, `inet_pton` for the two families and
`getaddrinfo`. -/
structure Libc where
  Double : Type
  atof : Bytes → Double
  lt : Double → Double → Bool
  isZero : Double → Bool
  minInterval : Double
  maxInterval : Double
  inetPton4 : Bytes → Bool
  inetPton6 : Bytes → Bool
  getaddrinfo : Bytes → Bool

inductive Role
  | unset
  | s
  | c
deriving DecidableEq, Repr

/-- The variables of the loop. -/
structure St where
  role : Role
  clientFlag : Bool
  serverFlag : Bool
deriving DecidableEq, Repr

def iperfMaxTime : ℤ := 86400

def iperfMaxStreams : ℤ := 128

def iperfMaxBurst : ℤ := 1000

def iperfMaxMss : ℤ := 9 * 1024

/-- The first letters that `'f'` takes. -/
def formats : Bytes :=
  [107, 75, 109, 77, 103, 71, 116, 84]

/-- What stands behind the slash that `strchr` finds. -/
def afterSlash : Bytes → Option Bytes
  | [] => none
  | b :: bs => if b = 47 then some bs else afterSlash bs

/-- `atof(arg) < IPERF_MIN_INTERVAL || atof(arg) > IPERF_MAX_INTERVAL`. -/
def Libc.outside (lib : Libc) (arg : Bytes) : Bool :=
  lib.lt (lib.atof arg) lib.minInterval || lib.lt lib.maxInterval (lib.atof arg)

/-- `is_valid_ip`. -/
def Libc.isValidIp (lib : Libc) (addr : Bytes) : Bool :=
  lib.inetPton4 addr || lib.inetPton6 addr

/-- `is_resolvable_hostname`. -/
def Libc.isResolvableHostname (lib : Libc) (hostname : Bytes) : Bool :=
  lib.getaddrinfo hostname

/-- `return RETURN_ERR` for a bad argument. -/
def errIf (bad : Bool) (st : St) : Option St :=
  if bad then none else some st

/-- The switch; `none` is `return RETURN_ERR`. -/
def switch (lib : Libc) (st : St) (y : Yielded) : Option St :=
  let client := { st with clientFlag := true }
  let server := { st with serverFlag := true }
  match y.opt with
  | .p | .clientPort => errIf ((atoi y.arg).toInt < 1 || (atoi y.arg).toInt > 65535) st
  | .f =>
      match y.optarg with
      | none => none
      | some [] => none
      | some (b :: _) => if b ∈ formats then some st else none
  | .i => errIf (lib.outside y.arg && !lib.isZero (lib.atof y.arg)) st
  | .s => if st.role = .c then none else some { st with role := .s }
  | .c =>
      if st.role = .s then none
      else
        match y.optarg with
        | none => none
        | some [] => none
        | some addr =>
            if lib.isValidIp addr then some { st with role := .c }
            else if lib.isResolvableHostname addr then some { st with role := .c }
            else none
  | .b =>
      match afterSlash y.arg with
      | none => some client
      | some slash => errIf ((atoi slash).toInt ≤ 0 || (atoi slash).toInt > iperfMaxBurst) client
  | .serverBitrateLimit =>
      match afterSlash y.arg with
      | none => some server
      | some slash => errIf (!lib.isZero (lib.atof slash) && lib.outside slash) server
  | .t => errIf ((atoi y.arg).toInt > iperfMaxTime || (atoi y.arg).toInt < 0) client
  | .P => errIf ((atoi y.arg).toInt > iperfMaxStreams) client
  | .M => errIf ((atoi y.arg).toInt > iperfMaxMss) client
  | .D | .one | .idleTimeout => some server
  | .u | .sctp | .numstreams | .n | .k | .l | .R | .bidirectional | .w | .N | .S | .dscp | .extraData | .L | .Z
  | .repeatingPayload | .O | .T | .C | .getServerOutput | .noFqSocketPacing | .fqRate | .dontFragment | .skipRxCopy
  | .pacingTimer | .connectTimeout => some client
  | .V | .J | .jsonStream | .B | .four | .six | .X | .timestamps | .F | .rcvTimeout | .sndTimeout | .cntlKa | .I
  | .logfile | .forceflush | .udpCounters64bit | .clientUsername | .clientRsaPublicKey | .serverRsaPrivateKey
  | .serverAuthorizedUsers | .serverSkewThreshold | .usePkcs1Padding | .m => some st
  | .other _ => none

/-- The tests behind the switch. -/
def conflictTests (st : St) : Option St :=
  if st.role = .c ∧ st.serverFlag = true then none
  else if st.role = .s ∧ st.clientFlag = true then none
  else some st

/-- The loop over the options; true is `RETURN_OK`. -/
def loop (lib : Libc) : St → List Yielded → Bool
  | _, [] => true
  | st, y :: ys =>
      match (switch lib st y).bind conflictTests with
      | none => false
      | some st => loop lib st ys

/-- `validate_iperf_options`, from the options that `getopt_long` yields. -/
def validateIperfOptions (lib : Libc) (ys : List Yielded) : Bool :=
  loop lib ⟨.unset, false, false⟩ ys

end Code

/-! ### What the options must meet -/

section Meaning

/-- The switch has a case for the option. -/
def Opt.Supported (o : Opt) : Prop :=
  ∀ n, o ≠ .other n

/-- The options that only a server takes. -/
def Opt.serverOnly : Opt → Bool
  | .D | .one | .serverBitrateLimit | .idleTimeout => true
  | _ => false

/-- The options that only a client takes. -/
def Opt.clientOnly : Opt → Bool
  | .u | .sctp | .numstreams | .b | .t | .n | .k | .l | .P | .R | .bidirectional | .w | .M | .N | .S | .dscp
  | .extraData | .L | .Z | .repeatingPayload | .O | .T | .C | .getServerOutput | .noFqSocketPacing | .fqRate
  | .dontFragment | .skipRxCopy | .pacingTimer | .connectTimeout => true
  | _ => false

/-- An interval is zero or lies inside the bounds. -/
def Libc.IntervalOk (lib : Libc) (arg : Bytes) : Prop :=
  lib.isZero (lib.atof arg) = true ∨ lib.outside arg = false

/-- The option's own check of its argument. -/
def ArgOk (lib : Libc) (y : Yielded) : Prop :=
  match y.opt with
  | .p | .clientPort => 1 ≤ (atoi y.arg).toInt ∧ (atoi y.arg).toInt ≤ 65535
  | .f => ∃ b ∈ formats, ∃ rest, y.optarg = some (b :: rest)
  | .i => lib.IntervalOk y.arg
  | .c => ∃ addr, y.optarg = some addr ∧ addr ≠ [] ∧ (lib.isValidIp addr = true ∨ lib.isResolvableHostname addr = true)
  | .b => ∀ slash, afterSlash y.arg = some slash → 0 < (atoi slash).toInt ∧ (atoi slash).toInt ≤ iperfMaxBurst
  | .serverBitrateLimit => ∀ slash, afterSlash y.arg = some slash → lib.IntervalOk slash
  | .t => 0 ≤ (atoi y.arg).toInt ∧ (atoi y.arg).toInt ≤ iperfMaxTime
  | .P => (atoi y.arg).toInt ≤ iperfMaxStreams
  | .M => (atoi y.arg).toInt ≤ iperfMaxMss
  | _ => True

/-- The options are acceptable: each of them by itself, and no two of them are in conflict. -/
structure Valid (lib : Libc) (ys : List Yielded) : Prop where
  supported : ∀ y ∈ ys, y.opt.Supported
  args : ∀ y ∈ ys, ArgOk lib y
  oneRole : ¬ ((∃ y ∈ ys, y.opt = .c) ∧ ∃ y ∈ ys, y.opt = .s)
  client : ¬ ((∃ y ∈ ys, y.opt = .c) ∧ ∃ y ∈ ys, y.opt.serverOnly = true)
  server : ¬ ((∃ y ∈ ys, y.opt = .s) ∧ ∃ y ∈ ys, y.opt.clientOnly = true)

end Meaning

/-! ### One option -/

section Step

variable {lib : Libc} {st : St} {y : Yielded} {ys : List Yielded}

/-- What a supported option with a good argument leaves. -/
def St.add (st : St) (o : Opt) : St where
  role := if o = .c then .c else if o = .s then .s else st.role
  clientFlag := st.clientFlag || o.clientOnly
  serverFlag := st.serverFlag || o.serverOnly

/-- The role that the option asks for is not the other one. -/
def St.Admits (st : St) (o : Opt) : Prop :=
  ¬ (o = .c ∧ st.role = .s) ∧ ¬ (o = .s ∧ st.role = .c)

/-- No conflict between what has been seen. -/
def St.Fine (st : St) : Prop :=
  ¬ (st.role = .c ∧ st.serverFlag = true) ∧ ¬ (st.role = .s ∧ st.clientFlag = true)

instance (o : Opt) : Decidable (st.Admits o) :=
  inferInstanceAs (Decidable (_ ∧ _))

theorem errIf_eq_some_iff {bad : Bool} {st' : St} : errIf bad st = some st' ↔ bad = false ∧ st = st' := by
  cases bad <;> simp [errIf]

/-- The test of an interval in the code. -/
theorem intervalOk_iff (arg : Bytes) :
    (lib.outside arg && !lib.isZero (lib.atof arg)) = false ↔ lib.IntervalOk arg := by
  unfold Libc.IntervalOk
  cases lib.outside arg <;> cases lib.isZero (lib.atof arg) <;> simp

/-- **One option**: the switch goes on exactly with a supported option, a good argument and no other role. -/
theorem switch_eq_some_iff {st' : St} :
    switch lib st y = some st' ↔ y.opt.Supported ∧ ArgOk lib y ∧ st.Admits y.opt ∧ st.add y.opt = st' := by
  obtain ⟨o, optarg, given⟩ := y
  obtain ⟨role, clientFlag, serverFlag⟩ := st
  cases o with
  | s =>
      simp [switch, ArgOk, Opt.Supported, St.Admits, St.add, Opt.clientOnly, Opt.serverOnly]
  | c =>
      cases optarg with
      | none => simp [switch, ArgOk]
      | some addr =>
          cases addr with
          | nil => simp [switch, ArgOk]
          | cons b rest =>
              simp only [switch, ArgOk, Opt.Supported, St.Admits, St.add, Opt.clientOnly, Opt.serverOnly]
              split_ifs <;> simp_all
  | f =>
      cases optarg with
      | none => simp [switch, ArgOk]
      | some arg => cases arg <;> simp [switch, ArgOk, Opt.Supported, St.Admits, St.add, Opt.clientOnly, Opt.serverOnly]
  | b =>
      simp only [switch, ArgOk]
      cases afterSlash (Yielded.arg ⟨.b, optarg, given⟩) <;>
        simp [errIf_eq_some_iff, Opt.Supported, St.Admits, St.add, Opt.clientOnly, Opt.serverOnly, and_assoc]
  | serverBitrateLimit =>
      simp only [switch, ArgOk]
      cases afterSlash (Yielded.arg ⟨.serverBitrateLimit, optarg, given⟩) with
      | none => simp [Opt.Supported, St.Admits, St.add, Opt.clientOnly, Opt.serverOnly]
      | some slash =>
          rw [errIf_eq_some_iff, Bool.and_comm, intervalOk_iff]
          simp [Opt.Supported, St.Admits, St.add, Opt.clientOnly, Opt.serverOnly]
  | i =>
      simp only [switch, ArgOk]
      rw [errIf_eq_some_iff, intervalOk_iff]
      simp [Opt.Supported, St.Admits, St.add, Opt.clientOnly, Opt.serverOnly]
  | _ =>
      simp [switch, ArgOk, Opt.Supported, St.Admits, St.add, Opt.clientOnly, Opt.serverOnly, errIf_eq_some_iff,
        and_comm]

end Step

/-! ### All options -/

section Loop

variable {lib : Libc} {st : St} {ys ys' : List Yielded}

/-- No conflict between what has been seen and what is still to come. -/
structure Compatible (st : St) (ys : List Yielded) : Prop where
  oneRole : ¬ ((st.role = .c ∨ ∃ y ∈ ys, y.opt = .c) ∧ (st.role = .s ∨ ∃ y ∈ ys, y.opt = .s))
  client : ¬ ((st.role = .c ∨ ∃ y ∈ ys, y.opt = .c) ∧ (st.serverFlag = true ∨ ∃ y ∈ ys, y.opt.serverOnly = true))
  server : ¬ ((st.role = .s ∨ ∃ y ∈ ys, y.opt = .s) ∧ (st.clientFlag = true ∨ ∃ y ∈ ys, y.opt.clientOnly = true))

theorem conflictTests_eq_some_iff {st' : St} : conflictTests st = some st' ↔ st.Fine ∧ st = st' := by
  unfold conflictTests St.Fine
  split_ifs with hc hs
  · simp [hc]
  · simp [hs]
  · simp [hc, hs]

theorem compatible_nil : Compatible st [] ↔ st.Fine := by
  have hrole : ¬ (st.role = .c ∧ st.role = .s) := by
    rintro ⟨hc, hs⟩
    cases hc.symm.trans hs
  constructor
  · intro h
    exact ⟨fun hc => h.client (by simpa using hc), fun hs => h.server (by simpa using hs)⟩
  · rintro ⟨hc, hs⟩
    exact ⟨by simpa using hrole, by simpa using hc, by simpa using hs⟩

theorem compatible_iff : Compatible st ys ↔
    ¬ ((st.role = .c ∨ ∃ y ∈ ys, y.opt = .c) ∧ (st.role = .s ∨ ∃ y ∈ ys, y.opt = .s)) ∧
      ¬ ((st.role = .c ∨ ∃ y ∈ ys, y.opt = .c) ∧ (st.serverFlag = true ∨ ∃ y ∈ ys, y.opt.serverOnly = true)) ∧
        ¬ ((st.role = .s ∨ ∃ y ∈ ys, y.opt = .s) ∧ (st.clientFlag = true ∨ ∃ y ∈ ys, y.opt.clientOnly = true)) :=
  ⟨fun h => ⟨h.oneRole, h.client, h.server⟩, fun h => ⟨h.1, h.2.1, h.2.2⟩⟩

/-- What one option changes: it moves from what is to come to what has been seen. -/
theorem compatible_cons {y : Yielded} : Compatible st (y :: ys) ↔ st.Admits y.opt ∧ Compatible (st.add y.opt) ys := by
  simp only [compatible_iff, List.exists_mem_cons_iff, St.add, St.Admits, Bool.or_eq_true]
  -- the options still to come matter by these four questions only
  generalize (∃ z ∈ ys, z.opt = .c) = clients
  generalize (∃ z ∈ ys, z.opt = .s) = servers
  generalize (∃ z ∈ ys, z.opt.serverOnly = true) = serverOnly
  generalize (∃ z ∈ ys, z.opt.clientOnly = true) = clientOnly
  by_cases hc : y.opt = .c
  · simp only [hc, Opt.serverOnly, Opt.clientOnly, reduceCtorEq, Bool.false_eq_true, if_true]
    grind
  · by_cases hs : y.opt = .s
    · simp only [hs, Opt.serverOnly, Opt.clientOnly, reduceCtorEq, Bool.false_eq_true, if_true, if_false]
      grind
    · simp only [hc, hs, if_false, or_assoc, false_and, false_or, not_false_eq_true, true_and]

theorem Compatible.fine (h : Compatible st ys) : st.Fine :=
  ⟨fun hc => h.client ⟨.inl hc.1, .inl hc.2⟩, fun hs => h.server ⟨.inl hs.1, .inl hs.2⟩⟩

/-- **The loop**, from any variables that are not in conflict already. -/
theorem loop_iff (hst : st.Fine) :
    loop lib st ys = true ↔ (∀ y ∈ ys, y.opt.Supported ∧ ArgOk lib y) ∧ Compatible st ys := by
  induction ys generalizing st with
  | nil => simp [loop, compatible_nil, hst]
  | cons y ys ih =>
      have hstep : ∀ st', (switch lib st y).bind conflictTests = some st' ↔
          (y.opt.Supported ∧ ArgOk lib y) ∧ st.Admits y.opt ∧ (st.add y.opt).Fine ∧ st.add y.opt = st' := by
        intro st'
        simp only [Option.bind_eq_some_iff, switch_eq_some_iff, conflictTests_eq_some_iff]
        constructor
        · rintro ⟨_, ⟨hsupp, harg, hadm, rfl⟩, hfine, rfl⟩
          exact ⟨⟨hsupp, harg⟩, hadm, hfine, rfl⟩
        · rintro ⟨⟨hsupp, harg⟩, hadm, hfine, rfl⟩
          exact ⟨_, ⟨hsupp, harg, hadm, rfl⟩, hfine, rfl⟩
      unfold loop
      cases hnext : (switch lib st y).bind conflictTests with
      | none =>
          have hno : ¬ ((∀ z ∈ y :: ys, z.opt.Supported ∧ ArgOk lib z) ∧ Compatible st (y :: ys)) := by
            rintro ⟨hall, hcomp⟩
            obtain ⟨hadm, hcomp⟩ := compatible_cons.mp hcomp
            have hsome := (hstep _).mpr ⟨hall y List.mem_cons_self, hadm, hcomp.fine, rfl⟩
            rw [hnext] at hsome
            cases hsome
          simp only [Bool.false_eq_true, hno]
      | some st' =>
          obtain ⟨hy, hadm, hfine, rfl⟩ := (hstep st').mp hnext
          rw [compatible_cons, List.forall_mem_cons]
          simp only [ih hfine, hy, hadm, true_and]

/-- Before the first option nothing has been seen. -/
theorem compatible_start : Compatible ⟨.unset, false, false⟩ ys ↔
    ¬ ((∃ y ∈ ys, y.opt = .c) ∧ ∃ y ∈ ys, y.opt = .s) ∧
      ¬ ((∃ y ∈ ys, y.opt = .c) ∧ ∃ y ∈ ys, y.opt.serverOnly = true) ∧
        ¬ ((∃ y ∈ ys, y.opt = .s) ∧ ∃ y ∈ ys, y.opt.clientOnly = true) := by
  constructor
  · intro h
    exact ⟨by simpa using h.oneRole, by simpa using h.client, by simpa using h.server⟩
  · rintro ⟨hrole, hclient, hserver⟩
    exact ⟨by simpa using hrole, by simpa using hclient, by simpa using hserver⟩

theorem valid_iff (lib : Libc) (ys : List Yielded) :
    Valid lib ys ↔ (∀ y ∈ ys, y.opt.Supported ∧ ArgOk lib y) ∧ Compatible ⟨.unset, false, false⟩ ys := by
  rw [compatible_start, forall₂_and]
  exact ⟨fun h => ⟨⟨h.supported, h.args⟩, h.oneRole, h.client, h.server⟩,
    fun ⟨⟨hsupp, hargs⟩, hrole, hclient, hserver⟩ => ⟨hsupp, hargs, hrole, hclient, hserver⟩⟩

/-- The conditions speak of members only. -/
theorem Valid.perm (hperm : ys.Perm ys') (h : Valid lib ys) : Valid lib ys' := by
  have hmem : ∀ y, y ∈ ys' ↔ y ∈ ys := fun y => hperm.mem_iff.symm
  constructor
  all_goals simp only [hmem]
  exacts [h.supported, h.args, h.oneRole, h.client, h.server]

/-- **`validate_iperf_options`** accepts exactly the sequences of supported options with good arguments in which no
two are in conflict, in whatever order they stand. -/
theorem validateIperfOptions_iff (lib : Libc) (ys : List Yielded) :
    (validateIperfOptions lib ys = true ↔ Valid lib ys) ∧
      ∀ ys', ys.Perm ys' → validateIperfOptions lib ys' = validateIperfOptions lib ys := by
  have hvalid : ∀ zs, validateIperfOptions lib zs = true ↔ Valid lib zs := fun zs =>
    (loop_iff ⟨by simp, by simp⟩).trans (valid_iff lib zs).symm
  refine ⟨hvalid ys, fun ys' hperm => Bool.eq_iff_iff.mpr ?_⟩
  rw [hvalid, hvalid]
  exact ⟨Valid.perm hperm.symm, Valid.perm hperm⟩

end Loop

end OneWifiTestSuite.IperfOptions
