import Coalesce.Key.Hasher
import Coalesce.Proofs.JsonText
import Coalesce.Proofs.MapOrder
/-! # Keys of content

Requests of one JSON value get one key, in whatever order their maps yield their entries; one key
for two values shows two messages of one digest. A request without a JSON form gets a key that no
other call gets, numbered by the calls before it that had no form either. -/
namespace Coalesce

namespace Text

def isLowerHex (c : Char) : Bool := '0' ≤ c && c ≤ '9' || 'a' ≤ c && c ≤ 'f'

theorem isLowerHex_digitChar {n : Nat} (h : n < 16) : isLowerHex (Nat.digitChar n) = true := by
  have hall : ∀ m < 16, isLowerHex (Nat.digitChar m) = true := by decide
  exact hall n h

theorem isLowerHex_hexByte (b : UInt8) : ∀ c ∈ hexByte b, isLowerHex c = true := by
  have hlt := b.toNat_lt
  intro c hc
  rcases List.mem_pair.mp hc with rfl | rfl
  · exact isLowerHex_digitChar (by omega)
  · exact isLowerHex_digitChar (by omega)

theorem readHexBytes_flatMap (bytes : List UInt8) :
    readHexBytes (bytes.flatMap hexByte) = some bytes := by
  induction bytes with
  | nil => rfl
  | cons b bytes ih =>
    have hlt := b.toNat_lt
    have hhigh := Json.hexDigit?_digitChar (n := b.toNat / 16) (by omega)
    have hlow := Json.hexDigit?_digitChar (n := b.toNat % 16) (by omega)
    have hbyte : b.toNat / 16 * 16 + b.toNat % 16 = b.toNat := by omega
    rw [List.flatMap_cons, hexByte, List.cons_append, List.cons_append, List.nil_append,
      readHexBytes, hhigh, hlow, ih]
    show some (UInt8.ofNat (b.toNat / 16 * 16 + b.toNat % 16) :: bytes) = some (b :: bytes)
    rw [hbyte, UInt8.ofNat_toNat]

theorem hexBytes_inj {bytes bytes' : List UInt8} (h : hexBytes bytes = hexBytes bytes') :
    bytes = bytes' := by
  have hread := readHexBytes_flatMap bytes
  rw [String.ofList_injective h, readHexBytes_flatMap] at hread
  exact (Option.some.inj hread).symm

theorem length_flatMap_hexByte (bytes : List UInt8) :
    (bytes.flatMap hexByte).length = 2 * bytes.length := by
  induction bytes with
  | nil => rfl
  | cons b bytes ih =>
    have hbyte : (hexByte b).length = 2 := rfl
    rw [List.flatMap_cons, List.length_append, ih, hbyte, List.length_cons]
    omega

theorem decimalText_inj {m n : Nat} (h : decimalText m = decimalText n) : m = n := by
  have hdigits : decimal m = decimal n := String.ofList_injective h
  rw [← Json.digitsValue_decimal m, hdigits, Json.digitsValue_decimal]

theorem toList_loop (bytes : ByteArray) (i : Nat) (done : List UInt8) :
    ByteArray.toList.loop bytes i done = done.reverse ++ bytes.data.toList.drop i := by
  induction i, done using ByteArray.toList.loop.induct bytes with
  | case1 i done hlt ih =>
    have hdrop : bytes.data.toList.drop i = bytes.get! i :: bytes.data.toList.drop (i + 1) := by
      rw [List.drop_eq_getElem_cons (by simpa using hlt)]
      simp [ByteArray.get!, hlt]
    rw [ByteArray.toList.loop, if_pos hlt, ih, hdrop, List.reverse_cons, List.append_assoc]
    rfl
  | case2 i done hge =>
    have hdrop : bytes.data.toList.drop i = [] := List.drop_of_length_le (by simpa using hge)
    rw [ByteArray.toList.loop, if_neg hge, hdrop, List.append_nil]

/-- The bytes of a text tell it. -/
theorem utf8_inj {s t : String} (h : s.toUTF8.toList = t.toUTF8.toList) : s = t := by
  rw [ByteArray.toList, ByteArray.toList, toList_loop, toList_loop] at h
  exact String.toByteArray_inj.mp (ByteArray.ext (Array.toList_inj.mp h))

end Text

namespace Sha256

theorem length_digest (message : List UInt8) : (digest message).length = 32 := by
  simp [digest, Words.toList, wordBytes]

/-- Two messages with one digest. -/
def Collide (a b : List UInt8) : Prop := a ≠ b ∧ digest a = digest b

end Sha256

namespace Key

def IsDigest (k : Key) : Prop :=
  k.text.length = 64 ∧ ∀ c ∈ k.text.toList, Text.isLowerHex c = true

theorem isDigest_ofContent (j : Json) : (ofContent j).IsDigest := by
  constructor
  · rw [ofContent, Text.hexBytes, String.length_ofList, Text.length_flatMap_hexByte,
      Sha256.length_digest]
  · rw [ofContent, Text.hexBytes, String.toList_ofList]
    intro c hc
    obtain ⟨b, -, hb⟩ := List.mem_flatMap.mp hc
    exact Text.isLowerHex_hexByte b c hb

theorem not_isDigest_unhashable (n : Nat) : ¬ (unhashable n).IsDigest := by
  intro h
  have hmem : 'u' ∈ (unhashable n).text.toList := by
    rw [unhashable, String.toList_append]
    exact List.mem_append_left _ (by decide)
  exact absurd (h.2 _ hmem) (by decide)

theorem unhashable_inj {m n : Nat} (h : unhashable m = unhashable n) : m = n := by
  have htext : "unhashable-" ++ Text.decimalText m = "unhashable-" ++ Text.decimalText n :=
    congrArg text h
  have hchars := congrArg String.toList htext
  rw [String.toList_append, String.toList_append] at hchars
  exact Text.decimalText_inj (String.toList_injective (List.append_cancel_left hchars))

/-- The messages whose digests the keys are. -/
theorem collide_of_ofContent_eq {j k : Json} (h : ofContent j = ofContent k) (hne : j ≠ k) :
    Sha256.Collide j.text.toUTF8.toList k.text.toUTF8.toList := by
  constructor
  · exact fun heq => hne (Json.text_inj.mp (Text.utf8_inj heq))
  · exact Text.hexBytes_inj (congrArg text h)

def formless (forms : List (Option Json)) : Nat := forms.countP (·.isNone)

theorem ofForms_getElem? (counter : Nat) (forms : List (Option Json)) (i : Nat) :
    (ofForms counter forms)[i]? =
      forms[i]?.map fun form => (ofForm (counter + formless (forms.take i)) form).1 := by
  induction forms generalizing counter i with
  | nil => simp [ofForms]
  | cons form rest ih =>
    cases i with
    | zero => simp [ofForms, formless]
    | succ i =>
      have hcounter : (ofForm counter form).2 = counter + formless [form] := by
        cases form <;> simp [ofForm, formless]
      have hcount : formless ((form :: rest).take (i + 1)) =
          formless [form] + formless (rest.take i) := by
        rw [List.take_succ_cons, ← List.singleton_append, formless, List.countP_append]
        rfl
      rw [ofForms, List.getElem?_cons_succ, ih, List.getElem?_cons_succ, hcounter, hcount]
      simp only [Nat.add_assoc]

theorem formless_take_lt {forms : List (Option Json)} {i j : Nat} (h : forms[i]? = some none)
    (hij : i < j) : formless (forms.take i) < formless (forms.take j) := by
  have hnext : formless (forms.take (i + 1)) = formless (forms.take i) + 1 := by
    rw [List.take_add_one, h, formless, List.countP_append]
    rfl
  have hmore : formless (forms.take (i + 1)) ≤ formless (forms.take j) :=
    (List.take_sublist_take_left hij).countP_le
  omega

def ofRequests (counter : Nat) (requests : List Datum) : List Key :=
  ofForms counter (requests.map Datum.toJson?)

section Requests
variable {counter i j : Nat} {requests : List Datum} {x y : Datum} {v w : Json}

def formlessBefore (requests : List Datum) (i : Nat) : Nat :=
  formless ((requests.map Datum.toJson?).take i)

theorem ofRequests_form (hx : requests[i]? = some x) (hv : x.toJson? = some v) :
    (ofRequests counter requests)[i]? = some (ofContent v) := by
  rw [ofRequests, ofForms_getElem?, List.getElem?_map, hx, Option.map_some, hv]
  rfl

theorem ofRequests_formless (hx : requests[i]? = some x) (hv : x.toJson? = none) :
    (ofRequests counter requests)[i]? =
      some (unhashable (counter + formlessBefore requests i)) := by
  rw [ofRequests, ofForms_getElem?, List.getElem?_map, hx, Option.map_some, hv]
  rfl

theorem formlessBefore_lt (hx : requests[i]? = some x) (hv : x.toJson? = none) (hij : i < j) :
    formlessBefore requests i < formlessBefore requests j := by
  refine formless_take_lt ?_ hij
  rw [List.getElem?_map, hx, Option.map_some, hv]

/-- The key of a call without a form is no other call's key. -/
theorem ofRequests_ne (hx : requests[i]? = some x) (hy : requests[j]? = some y) (hij : i ≠ j)
    (hv : x.toJson? = none) :
    (ofRequests counter requests)[i]? ≠ (ofRequests counter requests)[j]? := by
  rw [ofRequests_formless hx hv]
  cases hw : y.toJson? with
  | some w =>
    rw [ofRequests_form hy hw]
    intro heq
    exact not_isDigest_unhashable _ (Option.some.inj heq ▸ isDigest_ofContent w)
  | none =>
    rw [ofRequests_formless hy hw]
    intro heq
    have hsame := unhashable_inj (Option.some.inj heq)
    rcases Nat.lt_or_gt_of_ne hij with hlt | hgt
    · have hbefore := formlessBefore_lt hx hv hlt
      omega
    · have hbefore := formlessBefore_lt hy hw hgt
      omega

end Requests

end Key
end Coalesce
