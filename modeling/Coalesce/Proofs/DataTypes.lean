import Coalesce.Key.Datum
import Coalesce.Proofs.NumberText
import Coalesce.Proofs.Widening

/-! # Values of one data type

The type of a request says of which kind every part of its values is. Among the values of one type
the text of a map's key belongs to one key only, and so does the form of a finite number. -/
namespace Coalesce

/-- A data type. A variant of an enumeration is listed with the type of a structure of its shape: a
unit, a newtype, a tuple or a record. -/
inductive DataType where
  | bool
  | int
  | wide
  | single
  | double
  | char
  | string
  | bytes
  | option (value : DataType)
  | unit
  | newtype (value : DataType)
  | sequence (item : DataType)
  | tuple (items : List DataType)
  | map (key value : DataType)
  | record (fields : List (String × DataType))
  | enumeration (variants : List (String × DataType))

namespace Datum

/-- The values of a type. Neither two fields of a record nor two variants of an enumeration have one
name. -/
inductive HasType : DataType → Datum → Prop where
  | bool (value : Bool) : HasType .bool (.bool value)
  | int (value : Int) : HasType .int (.int value)
  | wide (value : Int) : HasType .wide (.wide value)
  | single (value : Single) : HasType .single (.single value)
  | double (value : Double) : HasType .double (.double value)
  | char (value : Char) : HasType .char (.char value)
  | string (value : String) : HasType .string (.string value)
  | bytes (value : List UInt8) : HasType .bytes (.bytes value)
  | none (t : DataType) : HasType (.option t) .none
  | some {t : DataType} {value : Datum} (h : HasType t value) : HasType (.option t) (.some value)
  | unit : HasType .unit .unit
  | newtype {t : DataType} {value : Datum} (h : HasType t value) :
      HasType (.newtype t) (.newtype value)
  | sequence {t : DataType} {items : List Datum} (h : ∀ item ∈ items, HasType t item) :
      HasType (.sequence t) (.sequence items)
  | tuple {ts : List DataType} {items : List Datum} (length : items.length = ts.length)
      (h : ∀ (i : Nat) (t : DataType) (item : Datum), ts[i]? = Option.some t →
        items[i]? = Option.some item → HasType t item) :
      HasType (.tuple ts) (.sequence items)
  | map {k v : DataType} {entries : List (Datum × Datum)}
      (keys : ∀ entry ∈ entries, HasType k entry.1)
      (values : ∀ entry ∈ entries, HasType v entry.2) : HasType (.map k v) (.map entries)
  | record {ts : List (String × DataType)} {fields : List (String × Datum)}
      (names : fields.map Prod.fst = ts.map Prod.fst) (distinct : (ts.map Prod.fst).Nodup)
      (h : ∀ (i : Nat) (t : String × DataType) (field : String × Datum), ts[i]? = Option.some t →
        fields[i]? = Option.some field → HasType t.2 field.2) :
      HasType (.record ts) (.record fields)
  | unitVariant {variants : List (String × DataType)} {name : String}
      (distinct : (variants.map Prod.fst).Nodup) (shape : (name, .unit) ∈ variants) :
      HasType (.enumeration variants) (.unitVariant name)
  | newtypeVariant {variants : List (String × DataType)} {name : String} {t : DataType}
      {value : Datum} (distinct : (variants.map Prod.fst).Nodup)
      (shape : (name, .newtype t) ∈ variants) (h : HasType t value) :
      HasType (.enumeration variants) (.newtypeVariant name value)
  | tupleVariant {variants : List (String × DataType)} {name : String} {ts : List DataType}
      {items : List Datum} (distinct : (variants.map Prod.fst).Nodup)
      (shape : (name, .tuple ts) ∈ variants) (h : HasType (.tuple ts) (.sequence items)) :
      HasType (.enumeration variants) (.tupleVariant name items)
  | recordVariant {variants : List (String × DataType)} {name : String}
      {ts : List (String × DataType)} {fields : List (String × Datum)}
      (distinct : (variants.map Prod.fst).Nodup) (shape : (name, .record ts) ∈ variants)
      (h : HasType (.record ts) (.record fields)) :
      HasType (.enumeration variants) (.recordVariant name fields)

/-- Nothing of the value is lost in its form: its numbers are finite, nothing that an option holds
has the form of nothing, and no two keys of a map have one text. -/
inductive Plain : Datum → Prop where
  | bool (value : Bool) : Plain (.bool value)
  | int (value : Int) : Plain (.int value)
  | wide (value : Int) : Plain (.wide value)
  | single {value : Single} (finite : value.isFinite = true) : Plain (.single value)
  | double {value : Double} (finite : value.isFinite = true) : Plain (.double value)
  | char (value : Char) : Plain (.char value)
  | string (value : String) : Plain (.string value)
  | bytes (value : List UInt8) : Plain (.bytes value)
  | none : Plain .none
  | some {value : Datum} (h : Plain value) (form : value.toJson? ≠ Option.some .null) :
      Plain (.some value)
  | unit : Plain .unit
  | newtype {value : Datum} (h : Plain value) : Plain (.newtype value)
  | sequence {items : List Datum} (h : ∀ item ∈ items, Plain item) : Plain (.sequence items)
  | map {entries : List (Datum × Datum)} (h : ∀ entry ∈ entries, Plain entry.2)
      (distinct : (entries.filterMap fun entry => entry.1.keyText?).Nodup) : Plain (.map entries)
  | record {fields : List (String × Datum)} (h : ∀ field ∈ fields, Plain field.2) :
      Plain (.record fields)
  | unitVariant (name : String) : Plain (.unitVariant name)
  | newtypeVariant {name : String} {value : Datum} (h : Plain value) :
      Plain (.newtypeVariant name value)
  | tupleVariant {name : String} {items : List Datum} (h : Plain (.sequence items)) :
      Plain (.tupleVariant name items)
  | recordVariant {name : String} {fields : List (String × Datum)} (h : Plain (.record fields)) :
      Plain (.recordVariant name fields)

theorem renderInteger_inj {m n : Int} (h : Json.renderInteger m = Json.renderInteger n) :
    m = n := by
  have heq : Json.renderNumber (.integer m) ++ [] = Json.renderNumber (.integer n) ++ [] :=
    congrArg (· ++ []) h
  exact JsonNumber.integer.inj (Json.renderNumber_inj Json.closes_nil Json.closes_nil heq).1

theorem ofBinary_inj {x y : Double} (hx : x.isFinite = true) (hy : y.isFinite = true)
    (h : Json.ofBinary x = Json.ofBinary y) : x = y := by
  rw [Json.ofBinary, Json.ofBinary, dif_pos hx, dif_pos hy, Json.number.injEq,
    JsonNumber.real.injEq] at h
  exact h

theorem ofBinary_convert_inj {x y : Single} (hx : x.isFinite = true) (hy : y.isFinite = true)
    (h : Json.ofBinary (x.convert .double) = Json.ofBinary (y.convert .double)) : x = y :=
  Binary.convert_single_inj hx hy
    (ofBinary_inj (Binary.convert_single x hx).2.1 (Binary.convert_single y hy).2.1 h)

theorem singleton_inj {c d : Char} (h : String.singleton c = String.singleton d) : c = d := by
  have hchars := congrArg String.toList h
  simpa using hchars

theorem eq_of_finite_text {f : FloatFormat} {layout : NumberLayout} {x y : Binary f}
    {text : String}
    (h : (if x.isFinite then Option.some (String.ofList (layout.renderBinary x)) else Option.none) =
      Option.some text)
    (h' : (if y.isFinite then Option.some (String.ofList (layout.renderBinary y)) else
      Option.none) = Option.some text) : x = y := by
  obtain ⟨-, hx⟩ := Option.ite_none_right_eq_some.mp h
  obtain ⟨-, hy⟩ := Option.ite_none_right_eq_some.mp h'
  exact Json.renderBinary_inj (String.ofList_injective (Option.some.inj (hx.trans hy.symm)))

/-- Keys of one type are told by their texts. -/
theorem HasType.eq_of_keyText? {k : DataType} {x y : Datum} (hx : HasType k x) (hy : HasType k y)
    {text : String} (h : x.keyText? = Option.some text) (h' : y.keyText? = Option.some text) :
    x = y := by
  induction hx generalizing y with
  | bool b =>
    cases hy with
    | bool b' =>
      have hsame := Option.some.inj (h.trans h'.symm)
      cases b <;> cases b' <;> simp at hsame <;> rfl
  | int n =>
    cases hy with
    | int n' =>
      rw [renderInteger_inj (String.ofList_injective (Option.some.inj (h.trans h'.symm)))]
  | wide n =>
    cases hy with
    | wide n' =>
      rw [renderInteger_inj (String.ofList_injective (Option.some.inj (h.trans h'.symm)))]
  | single v =>
    cases hy with
    | single v' => rw [eq_of_finite_text h h']
  | double v =>
    cases hy with
    | double v' => rw [eq_of_finite_text h h']
  | char c =>
    cases hy with
    | char c' => rw [singleton_inj (Option.some.inj (h.trans h'.symm))]
  | string s =>
    cases hy with
    | string s' => rw [Option.some.inj (h.trans h'.symm)]
  | newtype hv ih =>
    cases hy with
    | newtype hw => rw [ih hw h h']
  | unitVariant =>
    cases hy with
    | unitVariant => rw [Option.some.inj (h.trans h'.symm)]
    | _ => cases h'
  | _ => cases h

end Datum

end Coalesce
