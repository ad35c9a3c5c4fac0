import OneWifiTestSuite.ByteRegion

/-!
# Information elements

An element is an identifier, the length of its body in one byte, and the body. Bytes that are read as
elements, up to the first with a wanted identifier, split in one of three ways (`exists_rest`): such an
element follows, or one whose body is cut off, or fewer than the two bytes that an element begins with.
-/

namespace OneWifiTestSuite.Elements

open ByteRegion

structure Element where
  id : UInt8
  body : Bytes
  length_lt : body.length < 256
deriving DecidableEq

def Element.bytes (e : Element) : Bytes :=
  e.id :: UInt8.ofNat e.body.length :: e.body

def bytesOf (es : List Element) : Bytes :=
  es.flatMap Element.bytes

/-- What follows the elements that are not wanted. -/
inductive Rest (wanted : UInt8) : Bytes → Prop
  | ended (rest : Bytes) (h : rest.length < 2) : Rest wanted rest
  | cut (id len : UInt8) (rest : Bytes) (h : rest.length < len.toNat) : Rest wanted (id :: len :: rest)
  | found (e : Element) (post : Bytes) (h : e.id = wanted) : Rest wanted (e.bytes ++ post)

section Bytes

variable {wanted : UInt8} {e : Element} {es : List Element}

@[simp]
theorem length_bytes (e : Element) : e.bytes.length = e.body.length + 2 := rfl

@[simp]
theorem bytesOf_nil : bytesOf [] = [] := rfl

@[simp]
theorem bytesOf_cons (e : Element) (es : List Element) : bytesOf (e :: es) = e.bytes ++ bytesOf es := rfl

theorem toNat_length (e : Element) : (UInt8.ofNat e.body.length).toNat = e.body.length :=
  UInt8.toNat_ofNat_of_lt e.length_lt

/-- Each element takes at least two bytes. -/
theorem length_le_bytesOf (es : List Element) : 2 * es.length ≤ (bytesOf es).length := by
  induction es with
  | nil =>
      simp
  | cons e es ih =>
      simp only [bytesOf_cons, List.length_append, length_bytes, List.length_cons]
      omega

/-- Bytes with a body of the announced length begin with an element. -/
theorem exists_element (id : UInt8) {len : UInt8} {rest : Bytes} (h : len.toNat ≤ rest.length) :
    ∃ e : Element, e.id = id ∧ id :: len :: rest = e.bytes ++ rest.drop len.toNat := by
  have hlen : (rest.take len.toNat).length = len.toNat := by
    rw [List.length_take]
    omega
  refine ⟨⟨id, rest.take len.toNat, by rw [hlen]; exact len.toNat_lt⟩, rfl, ?_⟩
  simp only [Element.bytes, hlen, UInt8.ofNat_toNat, List.cons_append, List.take_append_drop]

/-- **All bytes split** into elements that are not wanted and a rest. -/
theorem exists_rest (wanted : UInt8) (bs : Bytes) :
    ∃ es rest, (∀ e ∈ es, e.id ≠ wanted) ∧ bs = bytesOf es ++ rest ∧ Rest wanted rest := by
  induction hn : bs.length using Nat.strong_induction_on generalizing bs with
  | _ n ih =>
      match bs, hn with
      | [], _ =>
          exact ⟨[], [], by simp, rfl, .ended [] (by simp)⟩
      | [b], _ =>
          exact ⟨[], [b], by simp, rfl, .ended [b] (by simp)⟩
      | id :: len :: rest, hn =>
          by_cases hcut : rest.length < len.toNat
          · exact ⟨[], _, by simp, rfl, .cut id len rest hcut⟩
          obtain ⟨e, hid, hbytes⟩ := exists_element id (not_lt.mp hcut)
          by_cases hfound : e.id = wanted
          · exact ⟨[], _, by simp, rfl, hbytes ▸ .found e _ hfound⟩
          obtain ⟨es, rest', hes, hsplit, hrest⟩ := ih (rest.drop len.toNat).length
            (by simp only [← hn, List.length_drop, List.length_cons]; omega) _ rfl
          refine ⟨e :: es, rest', ?_, ?_, hrest⟩
          · intro x hx
            rcases List.mem_cons.mp hx with rfl | hx
            · exact hfound
            · exact hes x hx
          · rw [hbytes, hsplit, bytesOf_cons, List.append_assoc]

end Bytes

end OneWifiTestSuite.Elements
