import OneWifiTestSuite.RebootFile

/-!
# JSON parameters

The macros that the gateway and the external agent share for reading their documents: a parameter is
looked up by its key and must have its type, and a string must not be empty. `none` is `RETURN_ERR`.
`Reads` says that the library reads back a document that it printed.
-/

namespace OneWifiTestSuite.AgentJson

open ByteRegion RebootFile

/-! ### Text -/

section Text

/-- The bytes of a literal. -/
def text (s : String) : Bytes :=
  s.toList.map fun c => UInt8.ofNat c.toNat

/-- A literal is the text of its characters. -/
theorem text_ofList (l : List Char) : text (String.ofList l) = l.map fun c => UInt8.ofNat c.toNat := by
  rw [text, String.toList_ofList]

/-- The characters of a literal say whether it has a NUL. -/
theorem notMem_text {l : List Char} (h : (l.all fun c => Nat.blt 0 (c.toNat % 256)) = true) :
    0 ∉ text (String.ofList l) := by
  rw [text_ofList, List.mem_map]
  rintro ⟨c, hc, hzero⟩
  have hpos := List.all_eq_true.mp h c hc
  have hmod : (UInt8.ofNat c.toNat).toNat = c.toNat % 256 := UInt8.toNat_ofNat'
  rw [hzero] at hmod
  rw [Nat.blt_eq, ← hmod] at hpos
  simp at hpos

def lbrace : Bytes :=
  text "\x7b"

def rbrace : Bytes :=
  text "\x7d"

/-- The text of an object. -/
def braced (b : Bytes) : Bytes :=
  lbrace ++ b ++ rbrace

/-- `c_str()` of a C++ string: what stands before the first NUL. -/
def cStr (s : Bytes) : Bytes :=
  s.takeWhile (· != 0)

/-- The library reads back the document. -/
def Reads (lib : CJson) (json : Json) : Prop :=
  lib.parse (lib.print json) = some json

/-- A library that prints one document as `file`, and reads it back. -/
def bytesLib (json : Json) (file : Bytes) : CJson where
  print := fun _ => file
  parse := fun response => if response = file then some json else none

theorem bytesLib_reads (json : Json) (file : Bytes) : Reads (bytesLib json file) json :=
  if_pos rfl

theorem cStr_eq_self {s : Bytes} (h : 0 ∉ s) : cStr s = s := by
  refine List.takeWhile_eq_self_iff.mpr fun b hb => bne_iff_ne.mpr ?_
  rintro rfl
  exact h hb

end Text

/-! ### Addresses -/

section Addresses

/-- `mac_address_t`. -/
abbrev Mac := Vector UInt8 6

/-- The address of six bytes. -/
def macOf (a b c d e f : UInt8) : Mac :=
  #v[a, b, c, d, e, f]

/-- A C string. -/
abbrev CText := { s : Bytes // 0 ∉ s }

/-- `uint8_mac_to_string_mac` and `string_mac_to_uint8_mac`. -/
structure MacLib where
  print : Mac → Bytes
  read : Bytes → Mac

/-- An address is printed as a string that is not empty, and reads back. -/
structure MacLib.Lawful (macs : MacLib) : Prop where
  read_print : ∀ m, macs.read (macs.print m) = m
  ne_nil : ∀ m, macs.print m ≠ []

def hexDigit (d : UInt8) : UInt8 :=
  if d < 10 then 48 + d else 87 + d

def hexValue (c : UInt8) : UInt8 :=
  if c < 58 then c - 48 else c - 87

/-- The two digits of `"%02x"`. -/
def hexHigh (b : UInt8) : UInt8 :=
  hexDigit (b / 16)

def hexLow (b : UInt8) : UInt8 :=
  hexDigit (b % 16)

def colon : UInt8 := 58

/-- `"%02x:%02x:%02x:%02x:%02x:%02x"`, and reading it. -/
def hexMacs : MacLib where
  print m := [hexHigh m[0], hexLow m[0], colon, hexHigh m[1], hexLow m[1], colon, hexHigh m[2], hexLow m[2], colon,
    hexHigh m[3], hexLow m[3], colon, hexHigh m[4], hexLow m[4], colon, hexHigh m[5], hexLow m[5]]
  read s := Vector.ofFn fun i => 16 * hexValue (s.getD (3 * i) 48) + hexValue (s.getD (3 * i + 1) 48)

theorem byte_cases {P : UInt8 → Prop} (h : ∀ n, n < 256 → P (UInt8.ofNat n)) (b : UInt8) : P b := by
  have := h b.toNat b.toNat_lt
  rwa [UInt8.ofNat_toNat] at this

theorem hexValue_hex (b : UInt8) : 16 * hexValue (hexHigh b) + hexValue (hexLow b) = b := by
  refine byte_cases (P := fun b => 16 * hexValue (hexHigh b) + hexValue (hexLow b) = b) ?_ b
  decide +kernel

theorem hexMacs_lawful : hexMacs.Lawful where
  read_print m := by
    ext i hi
    simp only [hexMacs, Vector.getElem_ofFn]
    obtain rfl | rfl | rfl | rfl | rfl | rfl : i = 0 ∨ i = 1 ∨ i = 2 ∨ i = 3 ∨ i = 4 ∨ i = 5 := by omega
    all_goals exact congrArg UInt8.toNat (hexValue_hex _)
  ne_nil m := by simp [hexMacs]

end Addresses

/-! ### Parameters -/

section Params

/-- `decode_param_string` and `decode_param_string_fn`. -/
def decodeParamString (json : Json) (key : String) : Option Bytes :=
  match json.getObjectItem key with
  | some (.string s) => if s = [] then none else some s
  | _ => none

/-- `decode_param_allow_empty_string`. -/
def decodeParamAllowEmptyString (json : Json) (key : String) : Option Bytes :=
  match json.getObjectItem key with
  | some (.string s) => some s
  | _ => none

/-- `decode_param_integer`. -/
def decodeParamInteger (json : Json) (key : String) : Option ℤ :=
  match json.getObjectItem key with
  | some (.number n) => some n
  | _ => none

/-- `decode_param_bool`. -/
def decodeParamBool (json : Json) (key : String) : Option Bool :=
  match json.getObjectItem key with
  | some (.bool b) => some b
  | _ => none

/-- `decode_param_array`. -/
def decodeParamArray (json : Json) (key : String) : Option (List Json) :=
  match json.getObjectItem key with
  | some (.array items) => some items
  | _ => none

/-- `decode_param_object`. -/
def decodeParamObject (json : Json) (key : String) : Option Json :=
  match json.getObjectItem key with
  | some (.object items) => some (.object items)
  | _ => none

/-- `validate_param_string`. -/
def validateParamString : Json → Option Bytes
  | .string s => some s
  | _ => none

variable {json : Json} {key : String}

theorem decodeParamString_of_item {s : Bytes} (h : json.getObjectItem key = some (.string s)) :
    decodeParamString json key = if s = [] then none else some s := by
  simp [decodeParamString, h]

theorem decodeParamInteger_of_item {n : ℤ} (h : json.getObjectItem key = some (.number n)) :
    decodeParamInteger json key = some n := by
  simp [decodeParamInteger, h]

theorem decodeParamBool_of_item {b : Bool} (h : json.getObjectItem key = some (.bool b)) :
    decodeParamBool json key = some b := by
  simp [decodeParamBool, h]

theorem decodeParamArray_of_item {items : List Json} (h : json.getObjectItem key = some (.array items)) :
    decodeParamArray json key = some items := by
  simp [decodeParamArray, h]

/-- All items of an array of strings are strings. -/
theorem mapM_validate (files : List Bytes) : (files.map Json.string).mapM validateParamString = some files := by
  induction files with
  | nil =>
      rfl
  | cons f files ih =>
      simp [List.mapM_cons, validateParamString, ih]

end Params

end OneWifiTestSuite.AgentJson
