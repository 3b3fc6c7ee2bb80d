import Coalesce.Proofs.JsonForm
/-! # Maps without order

A map yields its entries in any order, and another one each time. Two values that differ only in
the order of the entries of their maps, at any depth, have one JSON form, or none. -/
namespace Coalesce.Datum
open Json

/-- One value, but for the order in which its maps, at any depth, yield their entries. Those of one
map have keys of different texts. -/
inductive Reordered : Datum → Datum → Prop
  | refl (d : Datum) : Reordered d d
  | some {v w : Datum} (h : Reordered v w) : Reordered (.some v) (.some w)
  | newtype {v w : Datum} (h : Reordered v w) : Reordered (.newtype v) (.newtype w)
  | newtypeVariant (variantName : String) {v w : Datum} (h : Reordered v w) :
      Reordered (.newtypeVariant variantName v) (.newtypeVariant variantName w)
  | sequence {xs ys : List Datum} (length : xs.length = ys.length)
      (items : ∀ (i : Nat) (x y : Datum), xs[i]? = Option.some x → ys[i]? = Option.some y →
        Reordered x y) :
      Reordered (.sequence xs) (.sequence ys)
  | tupleVariant (variantName : String) {xs ys : List Datum} (length : xs.length = ys.length)
      (items : ∀ (i : Nat) (x y : Datum), xs[i]? = Option.some x → ys[i]? = Option.some y →
        Reordered x y) :
      Reordered (.tupleVariant variantName xs) (.tupleVariant variantName ys)
  | record {fs gs : List (String × Datum)} (names : fs.map Prod.fst = gs.map Prod.fst)
      (values : ∀ (i : Nat) (f g : String × Datum), fs[i]? = Option.some f →
        gs[i]? = Option.some g → Reordered f.2 g.2) :
      Reordered (.record fs) (.record gs)
  | recordVariant (variantName : String) {fs gs : List (String × Datum)}
      (names : fs.map Prod.fst = gs.map Prod.fst)
      (values : ∀ (i : Nat) (f g : String × Datum), fs[i]? = Option.some f →
        gs[i]? = Option.some g → Reordered f.2 g.2) :
      Reordered (.recordVariant variantName fs) (.recordVariant variantName gs)
  | map {es fs gs : List (Datum × Datum)} (keys : es.map Prod.fst = fs.map Prod.fst)
      (values : ∀ (i : Nat) (e f : Datum × Datum), es[i]? = Option.some e →
        fs[i]? = Option.some f → Reordered e.2 f.2)
      (order : fs.Perm gs) (distinct : (gs.filterMap fun e => e.1.keyText?).Nodup) :
      Reordered (.map es) (.map gs)

theorem itemsJson?_eq (items : List Datum) : itemsJson? items = (items.map toJson?).mapM id := by
  induction items with
  | nil => rfl
  | cons item rest ih => rw [itemsJson?, ih, List.map_cons, List.mapM_cons]; rfl

def fieldJson? (field : String × Datum) : Option (String × Json) :=
  field.2.toJson?.map fun j => (field.1, j)

theorem fieldsJson?_eq (fields : List (String × Datum)) :
    fieldsJson? fields = (fields.map fieldJson?).mapM id := by
  induction fields with
  | nil => rfl
  | cons field rest ih =>
    rw [fieldsJson?, ih, List.map_cons, List.mapM_cons, fieldJson?]
    cases field.2.toJson? <;> rfl

def entryJson? (entry : Datum × Datum) : Option (String × Json) :=
  entry.1.keyText?.bind fun text => entry.2.toJson?.map fun j => (text, j)

theorem entriesJson?_eq (entries : List (Datum × Datum)) :
    entriesJson? entries = (entries.map entryJson?).mapM id := by
  induction entries with
  | nil => rfl
  | cons entry rest ih =>
    rw [entriesJson?, ih, List.map_cons, List.mapM_cons, entryJson?]
    cases entry.1.keyText? <;> cases entry.2.toJson? <;> rfl

/-- The names of the members are among the texts of the keys, in the order of the entries. -/
theorem names_sublist (entries : List (Datum × Datum)) :
    ((entries.filterMap entryJson?).map Prod.fst).Sublist
      (entries.filterMap fun e => e.1.keyText?) := by
  induction entries with
  | nil => exact .slnil
  | cons entry rest ih =>
    cases hkey : entry.1.keyText? with
    | none =>
      have hentry : entryJson? entry = Option.none := by rw [entryJson?, hkey, Option.bind_none]
      simp only [List.filterMap_cons, hkey, hentry]
      exact ih
    | some text =>
      cases hvalue : entry.2.toJson? with
      | none =>
        have hentry : entryJson? entry = Option.none := by
          rw [entryJson?, hkey, Option.bind_some, hvalue, Option.map_none]
        simp only [List.filterMap_cons, hkey, hentry]
        exact ih.cons text
      | some j =>
        have hentry : entryJson? entry = Option.some (text, j) := by
          rw [entryJson?, hkey, Option.bind_some, hvalue, Option.map_some]
        simp only [List.filterMap_cons, hkey, hentry]
        exact ih.cons_cons text

theorem map_congr_getElem {α β : Type} {f : α → β} {xs ys : List α} (length : xs.length = ys.length)
    (h : ∀ (i : Nat) (x y : α), xs[i]? = Option.some x → ys[i]? = Option.some y → f x = f y) :
    xs.map f = ys.map f := by
  refine List.ext_getElem (by simpa using length) fun i hi hi' => ?_
  rw [List.getElem_map, List.getElem_map]
  exact h i _ _ (List.getElem?_eq_getElem _) (List.getElem?_eq_getElem _)

theorem length_eq_of_map {α β : Type} {f : α → β} {xs ys : List α} (h : xs.map f = ys.map f) :
    xs.length = ys.length := by
  have hlength := congrArg List.length h
  simpa using hlength

theorem eq_of_map {α β : Type} {f : α → β} {xs ys : List α} (h : xs.map f = ys.map f) {i : Nat}
    {x y : α} (hx : xs[i]? = Option.some x) (hy : ys[i]? = Option.some y) : f x = f y := by
  have hi : (xs.map f)[i]? = (ys.map f)[i]? := by rw [h]
  rw [List.getElem?_map, List.getElem?_map, hx, hy] at hi
  exact Option.some.inj hi

end Coalesce.Datum
