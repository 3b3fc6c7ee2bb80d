import Coalesce.Proofs.ContentKeys
import Coalesce.Proofs.DataTypes

/-! # Which requests share a key

The form of a value forgets its type, so values of different types may share one. Two values of one
type share a form only if they are one value, but for the order of the entries of their maps, as
long as nothing of them is lost: a number that is not finite, an option that holds nothing and a key
that comes twice in a map leave no trace of their own. -/
namespace Coalesce

namespace Json

/-- Objects whose members have different names hold the same members. -/
theorem perm_of_ofMembers_eq {ms ns : List (String × Json)} (hm : (ms.map Prod.fst).Nodup)
    (hn : (ns.map Prod.fst).Nodup) (h : ofMembers ms = ofMembers ns) : ms.Perm ns := by
  refine (List.perm_ext_iff_of_nodup hm.of_map hn.of_map).mpr ?_
  rintro ⟨name, x⟩
  have hfound : ∀ {l : List (String × Json)}, (l.map Prod.fst).Nodup →
      (member? name (ofMembers l) = some x ↔ (name, x) ∈ l) := by
    intro l nd
    rw [ofMembers_eq, member?_addMembers nd]
    simp [member?]
  rw [← hfound hm, ← hfound hn, h]

end Json

/-- Lists of one content, whose members are told by a name, are one list if the names stand in one
order. -/
theorem eq_of_perm_of_map {α β : Type} {f : α → β} {l l' : List α} (h : l.Perm l')
    (hmap : l.map f = l'.map f) (nd : (l.map f).Nodup) : l = l' := by
  refine List.ext_getElem (Datum.length_eq_of_map hmap) fun i hi hi' => ?_
  have hmem : l'[i] ∈ l := h.mem_iff.mpr (List.getElem_mem hi')
  refine List.inj_on_of_nodup_map nd (List.getElem_mem hi) hmem ?_
  exact Datum.eq_of_map hmap (List.getElem?_eq_getElem hi) (List.getElem?_eq_getElem hi')

/-- What permutes images comes from a permutation. -/
theorem exists_perm_of_map {α β : Type} {f : α → β} {l : List β} {fs : List α}
    (h : l.Perm (fs.map f)) : ∃ es : List α, es.Perm fs ∧ es.map f = l := by
  generalize hfs : fs.map f = r at h
  induction h generalizing fs with
  | nil => exact ⟨fs, .refl _, hfs⟩
  | cons b _ ih =>
    obtain ⟨a, rest, rfl, rfl, hrest⟩ := List.map_eq_cons_iff.mp hfs
    obtain ⟨es, hes, rfl⟩ := ih hrest
    exact ⟨a :: es, hes.cons a, rfl⟩
  | swap b c l =>
    obtain ⟨a, rest, rfl, rfl, hrest⟩ := List.map_eq_cons_iff.mp hfs
    obtain ⟨a', rest, rfl, rfl, rfl⟩ := List.map_eq_cons_iff.mp hrest
    exact ⟨a' :: a :: rest, .swap a a' rest, rfl⟩
  | trans _ _ ih ih' =>
    obtain ⟨es, hes, rfl⟩ := ih' hfs
    obtain ⟨es', hes', rfl⟩ := ih rfl
    exact ⟨es', hes'.trans hes, rfl⟩

namespace Datum
open Json

theorem mapM_id_eq_some {α : Type} {l : List (Option α)} {r : List α} :
    l.mapM id = Option.some r ↔ l = r.map Option.some := by
  induction l generalizing r with
  | nil => cases r <;> simp
  | cons x l ih =>
    rw [List.mapM_cons]
    cases x with
    | none => cases r <;> simp
    | some a =>
      cases r with
      | nil => cases hl : l.mapM id <;> simp
      | cons b r =>
        cases hl : l.mapM id with
        | none =>
          have hne : l ≠ r.map Option.some := fun heq => by
            rw [ih.mpr heq] at hl
            cases hl
          simp [hne]
        | some r' =>
          have hrest := ih.mp hl
          simp [hrest, List.map_inj_right]

theorem itemsJson?_eq_some {items : List Datum} {js : List Json} :
    itemsJson? items = Option.some js ↔ items.map toJson? = js.map Option.some := by
  rw [itemsJson?_eq, mapM_id_eq_some]

theorem fieldsJson?_eq_some {fields : List (String × Datum)} {ms : List (String × Json)} :
    fieldsJson? fields = Option.some ms ↔ fields.map fieldJson? = ms.map Option.some := by
  rw [fieldsJson?_eq, mapM_id_eq_some]

theorem entriesJson?_eq_some {entries : List (Datum × Datum)} {ms : List (String × Json)} :
    entriesJson? entries = Option.some ms ↔ entries.map entryJson? = ms.map Option.some := by
  rw [entriesJson?_eq, mapM_id_eq_some]

/-- What has the images of lists of one length, has them place by place. -/
theorem exists_image {α β : Type} {f : α → Option β} {l : List α} {r : List β}
    (h : l.map f = r.map Option.some) {i : Nat} {a : α} (ha : l[i]? = Option.some a) :
    ∃ b, r[i]? = Option.some b ∧ f a = Option.some b := by
  have hi : (l.map f)[i]? = (r.map Option.some)[i]? := by rw [h]
  rw [List.getElem?_map, List.getElem?_map, ha, Option.map_some] at hi
  obtain ⟨b, hb, hfb⟩ := Option.map_eq_some_iff.mp hi.symm
  exact ⟨b, hb, hfb.symm⟩

theorem exists_getElem? {α β : Type} {l : List α} {l' : List β} (h : l.length = l'.length) {i : Nat}
    {a : α} (ha : l[i]? = Option.some a) : ∃ b, l'[i]? = Option.some b := by
  refine ⟨_, List.getElem?_eq_getElem ?_⟩
  rw [← h]
  exact (List.getElem?_eq_some_iff.mp ha).1

/-- Items of one form have one form each. -/
theorem forms_of_items {xs ys : List Datum} {js : List Json} (hx : itemsJson? xs = Option.some js)
    (hy : itemsJson? ys = Option.some js) : xs.length = ys.length ∧
      ∀ (i : Nat) (x y : Datum), xs[i]? = Option.some x → ys[i]? = Option.some y →
        ∃ j, x.toJson? = Option.some j ∧ y.toJson? = Option.some j := by
  rw [itemsJson?_eq_some] at hx hy
  refine ⟨length_eq_of_map (hx.trans hy.symm), fun i x y hxi hyi => ?_⟩
  obtain ⟨j, hj, hxj⟩ := exists_image hx hxi
  obtain ⟨j', hj', hyj⟩ := exists_image hy hyi
  obtain rfl := Option.some.inj (hj.symm.trans hj')
  exact ⟨j, hxj, hyj⟩

theorem map_fst_fieldsJson? {fields : List (String × Datum)} {ms : List (String × Json)}
    (h : fieldsJson? fields = Option.some ms) : ms.map Prod.fst = fields.map Prod.fst := by
  rw [fieldsJson?_eq_some] at h
  have hlength : ms.length = fields.length := by simpa using (congrArg List.length h).symm
  refine List.ext_getElem (by simpa using hlength) fun i hi hi' => ?_
  rw [List.length_map] at hi hi'
  obtain ⟨m, hm, hform⟩ := exists_image h (List.getElem?_eq_getElem hi')
  obtain ⟨j, -, hmj⟩ := Option.map_eq_some_iff.mp hform
  rw [List.getElem?_eq_getElem hi, Option.some.injEq] at hm
  rw [List.getElem_map, List.getElem_map, hm, ← hmj]

/-- Fields of the same names in one order, and of one form, have one form each. -/
theorem forms_of_fields {fs gs : List (String × Datum)} {ms ns : List (String × Json)}
    (names : fs.map Prod.fst = gs.map Prod.fst) (distinct : (fs.map Prod.fst).Nodup)
    (hf : fieldsJson? fs = Option.some ms) (hg : fieldsJson? gs = Option.some ns)
    (h : ofMembers ms = ofMembers ns) :
    ∀ (i : Nat) (f g : String × Datum), fs[i]? = Option.some f → gs[i]? = Option.some g →
      ∃ j, f.2.toJson? = Option.some j ∧ g.2.toJson? = Option.some j := by
  have hms := map_fst_fieldsJson? hf
  have hns := map_fst_fieldsJson? hg
  have hm : (ms.map Prod.fst).Nodup := hms ▸ distinct
  have hn : (ns.map Prod.fst).Nodup := by
    rw [hns, ← names]
    exact distinct
  obtain rfl : ms = ns := eq_of_perm_of_map (perm_of_ofMembers_eq hm hn h)
    (hms.trans (names.trans hns.symm)) hm
  rw [fieldsJson?_eq_some] at hf hg
  intro i f g hfi hgi
  obtain ⟨m, hmi, hform⟩ := exists_image hf hfi
  obtain ⟨m', hmi', hform'⟩ := exists_image hg hgi
  obtain rfl := Option.some.inj (hmi.symm.trans hmi')
  obtain ⟨j, hj, hmj⟩ := Option.map_eq_some_iff.mp hform
  obtain ⟨j', hj', hmj'⟩ := Option.map_eq_some_iff.mp hform'
  obtain rfl : j = j' := (Prod.mk.inj (hmj.trans hmj'.symm)).2
  exact ⟨j, hj, hj'⟩

theorem entryJson?_eq_some {entry : Datum × Datum} {m : String × Json}
    (h : entryJson? entry = Option.some m) :
    entry.1.keyText? = Option.some m.1 ∧ entry.2.toJson? = Option.some m.2 := by
  obtain ⟨text, htext, h⟩ := Option.bind_eq_some_iff.mp h
  obtain ⟨j, hj, rfl⟩ := Option.map_eq_some_iff.mp h
  exact ⟨htext, hj⟩

theorem nodup_map_fst_entriesJson? {entries : List (Datum × Datum)} {ms : List (String × Json)}
    (h : entriesJson? entries = Option.some ms)
    (distinct : (entries.filterMap fun entry => entry.1.keyText?).Nodup) :
    (ms.map Prod.fst).Nodup := by
  have hms : entries.filterMap entryJson? = ms := by
    have hforms := congrArg (List.filterMap id) (entriesJson?_eq_some.mp h)
    simpa [List.filterMap_map] using hforms
  rw [← hms]
  exact distinct.sublist (names_sublist entries)

/-- The entries of maps of one form correspond: each has one with a key of the same text and a value
of the same form. -/
theorem exists_entries {es fs : List (Datum × Datum)} {ms ns : List (String × Json)}
    (he : entriesJson? es = Option.some ms) (hf : entriesJson? fs = Option.some ns)
    (hes : (es.filterMap fun entry => entry.1.keyText?).Nodup)
    (hfs : (fs.filterMap fun entry => entry.1.keyText?).Nodup)
    (h : ofMembers ms = ofMembers ns) :
    ∃ gs : List (Datum × Datum), gs.Perm fs ∧ es.length = gs.length ∧
      ∀ (i : Nat) (e g : Datum × Datum), es[i]? = Option.some e → gs[i]? = Option.some g →
        ∃ m : String × Json,
          (e.1.keyText? = Option.some m.1 ∧ e.2.toJson? = Option.some m.2) ∧
          g.1.keyText? = Option.some m.1 ∧ g.2.toJson? = Option.some m.2 := by
  have hperm := perm_of_ofMembers_eq (nodup_map_fst_entriesJson? he hes)
    (nodup_map_fst_entriesJson? hf hfs) h
  rw [entriesJson?_eq_some] at he hf
  have himages : (es.map entryJson?).Perm (fs.map entryJson?) := by
    rw [he, hf]
    exact hperm.map Option.some
  obtain ⟨gs, hgs, hmap⟩ := exists_perm_of_map himages
  refine ⟨gs, hgs, (length_eq_of_map hmap).symm, fun i e g hei hgi => ?_⟩
  obtain ⟨m, -, hem⟩ := exists_image he hei
  have hgm : entryJson? g = Option.some m := (eq_of_map hmap hgi hei).trans hem
  exact ⟨m, entryJson?_eq_some hem, entryJson?_eq_some hgm⟩

namespace Reordered

theorem of_items {xs ys : List Datum} {j : Json} (hx : (Datum.sequence xs).toJson? = Option.some j)
    (hy : (Datum.sequence ys).toJson? = Option.some j)
    (h : ∀ (i : Nat) (x y : Datum) (k : Json), xs[i]? = Option.some x → ys[i]? = Option.some y →
      x.toJson? = Option.some k → y.toJson? = Option.some k → Reordered x y) :
    Reordered (.sequence xs) (.sequence ys) := by
  obtain ⟨js, hjs, rfl⟩ := Option.map_eq_some_iff.mp hx
  obtain ⟨js', hjs', heq⟩ := Option.map_eq_some_iff.mp hy
  obtain rfl := Json.array.inj heq
  obtain ⟨length, hforms⟩ := forms_of_items hjs hjs'
  refine .sequence length fun i x y hxi hyi => ?_
  obtain ⟨k, hk, hk'⟩ := hforms i x y hxi hyi
  exact h i x y k hxi hyi hk hk'

theorem of_fields {fs gs : List (String × Datum)} {j : Json}
    (names : fs.map Prod.fst = gs.map Prod.fst) (distinct : (fs.map Prod.fst).Nodup)
    (hf : (Datum.record fs).toJson? = Option.some j)
    (hg : (Datum.record gs).toJson? = Option.some j)
    (h : ∀ (i : Nat) (f g : String × Datum) (k : Json), fs[i]? = Option.some f →
      gs[i]? = Option.some g → f.2.toJson? = Option.some k → g.2.toJson? = Option.some k →
      Reordered f.2 g.2) :
    Reordered (.record fs) (.record gs) := by
  obtain ⟨ms, hms, rfl⟩ := Option.map_eq_some_iff.mp hf
  obtain ⟨ns, hns, heq⟩ := Option.map_eq_some_iff.mp hg
  have hforms := forms_of_fields names distinct hms hns heq.symm
  refine .record names fun i f g hfi hgi => ?_
  obtain ⟨k, hk, hk'⟩ := hforms i f g hfi hgi
  exact h i f g k hfi hgi hk hk'

theorem of_entries {es fs : List (Datum × Datum)} {j : Json}
    (he : (Datum.map es).toJson? = Option.some j) (hf : (Datum.map fs).toJson? = Option.some j)
    (hes : (es.filterMap fun entry => entry.1.keyText?).Nodup)
    (hfs : (fs.filterMap fun entry => entry.1.keyText?).Nodup)
    (hkeys : ∀ e ∈ es, ∀ f ∈ fs, ∀ text, e.1.keyText? = Option.some text →
      f.1.keyText? = Option.some text → e.1 = f.1)
    (h : ∀ e ∈ es, ∀ f ∈ fs, ∀ k, e.2.toJson? = Option.some k → f.2.toJson? = Option.some k →
      Reordered e.2 f.2) :
    Reordered (.map es) (.map fs) := by
  obtain ⟨ms, hms, rfl⟩ := Option.map_eq_some_iff.mp he
  obtain ⟨ns, hns, heq⟩ := Option.map_eq_some_iff.mp hf
  obtain ⟨gs, hgs, length, hforms⟩ := exists_entries hms hns hes hfs heq.symm
  have hmem : ∀ {i : Nat} {g : Datum × Datum}, gs[i]? = Option.some g → g ∈ fs :=
    fun hgi => hgs.mem_iff.mp (List.mem_of_getElem? hgi)
  refine .map (map_congr_getElem length fun i e g hei hgi => ?_) (fun i e g hei hgi => ?_) hgs hfs
  · obtain ⟨m, ⟨hkey, -⟩, hkey', -⟩ := hforms i e g hei hgi
    exact hkeys e (List.mem_of_getElem? hei) g (hmem hgi) m.1 hkey hkey'
  · obtain ⟨m, ⟨-, hvalue⟩, -, hvalue'⟩ := hforms i e g hei hgi
    exact h e (List.mem_of_getElem? hei) g (hmem hgi) m.2 hvalue hvalue'

end Reordered

def content? : Datum → Option (String × Datum)
  | .newtypeVariant name value => Option.some (name, .newtype value)
  | .tupleVariant name items => Option.some (name, .sequence items)
  | .recordVariant name fields => Option.some (name, .record fields)
  | _ => Option.none

section Variants
variable {x y c d : Datum} {name name' : String} {t : DataType}
  {variants : List (String × DataType)} {j : Json}

theorem toJson?_of_content? (h : x.content? = Option.some (name, c)) :
    x.toJson? = c.toJson?.map fun form => .object [(name, form)] := by
  cases x with
  | newtypeVariant =>
    cases h
    rw [toJson?, toJson?]
  | tupleVariant =>
    cases h
    rw [toJson?, toJson?, Option.map_map]
    rfl
  | recordVariant =>
    cases h
    rw [toJson?, toJson?, Option.map_map]
    rfl
  | _ => cases h

theorem Plain.content (h : x.Plain) (hc : x.content? = Option.some (name, c)) : c.Plain := by
  cases h with
  | newtypeVariant h =>
    cases hc
    exact .newtype h
  | tupleVariant h =>
    cases hc
    exact h
  | recordVariant h =>
    cases hc
    exact h
  | _ => cases hc

theorem HasType.unit_or_content (h : HasType (.enumeration variants) x) :
    (∃ name, x = .unitVariant name) ∨
      ∃ name t c, x.content? = Option.some (name, c) ∧ (name, t) ∈ variants ∧ HasType t c := by
  cases h with
  | unitVariant => exact .inl ⟨_, rfl⟩
  | newtypeVariant _ shape h => exact .inr ⟨_, _, _, rfl, shape, .newtype h⟩
  | tupleVariant _ shape h => exact .inr ⟨_, _, _, rfl, shape, h⟩
  | recordVariant _ shape h => exact .inr ⟨_, _, _, rfl, shape, h⟩

theorem content?_eq_newtype {v : Datum} (h : y.content? = Option.some (name, .newtype v)) :
    y = .newtypeVariant name v := by
  cases y <;> cases h
  rfl

theorem content?_eq_sequence {xs : List Datum}
    (h : y.content? = Option.some (name, .sequence xs)) : y = .tupleVariant name xs := by
  cases y <;> cases h
  rfl

theorem content?_eq_record {fs : List (String × Datum)}
    (h : y.content? = Option.some (name, .record fs)) : y = .recordVariant name fs := by
  cases y <;> cases h
  rfl

theorem Reordered.of_content (hx : x.content? = Option.some (name, c))
    (hy : y.content? = Option.some (name, d)) (h : c.Reordered d) : x.Reordered y := by
  cases x with
  | newtypeVariant =>
    cases hx
    cases h with
    | refl => exact content?_eq_newtype hy ▸ .refl _
    | newtype h => exact content?_eq_newtype hy ▸ .newtypeVariant _ h
  | tupleVariant =>
    cases hx
    cases h with
    | refl => exact content?_eq_sequence hy ▸ .refl _
    | sequence length items => exact content?_eq_sequence hy ▸ .tupleVariant _ length items
  | recordVariant =>
    cases hx
    cases h with
    | refl => exact content?_eq_record hy ▸ .refl _
    | record names values => exact content?_eq_record hy ▸ .recordVariant _ names values
  | _ => cases hx

theorem unitVariant_ne_content (h : (unitVariant name).toJson? = Option.some j)
    (hc : y.content? = Option.some (name', d)) : y.toJson? ≠ Option.some j := by
  rw [toJson?_of_content? hc]
  intro hj
  cases h
  obtain ⟨k, -, hk⟩ := Option.map_eq_some_iff.mp hj
  cases hk

theorem shape_unique (distinct : (variants.map Prod.fst).Nodup) {t' : DataType}
    (h : (name, t) ∈ variants) (h' : (name, t') ∈ variants) : t = t' :=
  congrArg Prod.snd (List.inj_on_of_nodup_map distinct h h' rfl)

/-- Variants of one form have one name, so their contents are of one type and one form. -/
theorem reordered_of_content (hc : x.content? = Option.some (name, c))
    (distinct : (variants.map Prod.fst).Nodup) (shape : (name, t) ∈ variants)
    (hy : HasType (.enumeration variants) y) (py : y.Plain) (hj : x.toJson? = Option.some j)
    (hj' : y.toJson? = Option.some j)
    (h : ∀ d k, HasType t d → d.Plain → c.toJson? = Option.some k → d.toJson? = Option.some k →
      c.Reordered d) : x.Reordered y := by
  rcases hy.unit_or_content with ⟨name', rfl⟩ | ⟨name', t', d, hd, shape', td⟩
  · exact absurd hj (unitVariant_ne_content hj' hc)
  · rw [toJson?_of_content? hc] at hj
    rw [toJson?_of_content? hd] at hj'
    obtain ⟨k, hk, rfl⟩ := Option.map_eq_some_iff.mp hj
    obtain ⟨k', hk', heq⟩ := Option.map_eq_some_iff.mp hj'
    obtain ⟨rfl, rfl⟩ : name' = name ∧ k' = k := by simpa using heq
    obtain rfl := shape_unique distinct shape shape'
    exact .of_content hc hd (h d _ td (py.content hd) hk hk')

end Variants

theorem ofNat_toNat_inj {b c : UInt8} (h : Json.ofNat b.toNat = Json.ofNat c.toNat) : b = c := by
  rw [Json.ofNat, Json.ofNat, Json.number.injEq, JsonNumber.integer.injEq] at h
  exact UInt8.toNat_inj.mp (by exact_mod_cast h)

theorem eq_of_wideJson? {m n : Int} {j : Json} (h : wideJson? m = Option.some j)
    (h' : wideJson? n = Option.some j) : m = n := by
  obtain ⟨-, hm⟩ := Option.ite_none_right_eq_some.mp h
  obtain ⟨-, hn⟩ := Option.ite_none_right_eq_some.mp h'
  have hsame := Option.some.inj (hm.trans hn.symm)
  exact JsonNumber.integer.inj (Json.number.inj hsame)

/-- Among the values of the type of which nothing is lost in their form, those that have the form of
`x` are `x`, but for the order of the entries of their maps. -/
def Told (t : DataType) (x : Datum) : Prop :=
  x.Plain → ∀ {y : Datum} {j : Json}, HasType t y → y.Plain → x.toJson? = Option.some j →
    y.toJson? = Option.some j → x.Reordered y

namespace Told
variable {t k v : DataType} {variants : List (String × DataType)} {name : String}

theorem bool (b : Bool) : Told .bool (.bool b) := by
  intro _ y j hy _ hj hj'
  cases hy with
  | bool b' =>
    obtain rfl : b = b' := Json.bool.inj (Option.some.inj (hj.trans hj'.symm))
    exact .refl _

theorem int (n : Int) : Told .int (.int n) := by
  intro _ y j hy _ hj hj'
  cases hy with
  | int n' =>
    have hnumber := Json.number.inj (Option.some.inj (hj.trans hj'.symm))
    rw [JsonNumber.integer.inj hnumber]
    exact .refl _

theorem wide (n : Int) : Told .wide (.wide n) := by
  intro _ y j hy _ hj hj'
  cases hy with
  | wide n' =>
    rw [eq_of_wideJson? hj hj']
    exact .refl _

theorem single (x : Single) : Told .single (.single x) := by
  intro px y j hy py hj hj'
  cases hy with
  | single x' =>
    cases px with
    | single hx =>
    cases py with
    | single hx' =>
    rw [ofBinary_convert_inj hx hx' (Option.some.inj (hj.trans hj'.symm))]
    exact .refl _

theorem double (x : Double) : Told .double (.double x) := by
  intro px y j hy py hj hj'
  cases hy with
  | double x' =>
    cases px with
    | double hx =>
    cases py with
    | double hx' =>
    rw [ofBinary_inj hx hx' (Option.some.inj (hj.trans hj'.symm))]
    exact .refl _

theorem char (c : Char) : Told .char (.char c) := by
  intro _ y j hy _ hj hj'
  cases hy with
  | char c' =>
    rw [singleton_inj (Json.string.inj (Option.some.inj (hj.trans hj'.symm)))]
    exact .refl _

theorem string (s : String) : Told .string (.string s) := by
  intro _ y j hy _ hj hj'
  cases hy with
  | string s' =>
    rw [Json.string.inj (Option.some.inj (hj.trans hj'.symm))]
    exact .refl _

theorem bytes (l : List UInt8) : Told .bytes (.bytes l) := by
  intro _ y j hy _ hj hj'
  cases hy with
  | bytes l' =>
    have hitems := Json.array.inj (Option.some.inj (hj.trans hj'.symm))
    rw [List.map_injective_iff.mpr (fun b c => ofNat_toNat_inj) hitems]
    exact .refl _

theorem unit : Told .unit .unit := by
  intro _ y j hy _ _ _
  cases hy with
  | unit => exact .refl _

theorem none (t : DataType) : Told (.option t) .none := by
  intro _ y j hy py hj hj'
  cases hy with
  | none => exact .refl _
  | some =>
    cases py with
    | some _ hform =>
    cases hj
    exact absurd hj' hform

theorem some {x : Datum} (h : Told t x) : Told (.option t) (.some x) := by
  intro px y j hy py hj hj'
  cases px with
  | some px hform =>
  cases hy with
  | none =>
    cases hj'
    exact absurd hj hform
  | some hy =>
    cases py with
    | some py => exact .some (h px hy py hj hj')

theorem newtype {x : Datum} (h : Told t x) : Told (.newtype t) (.newtype x) := by
  intro px y j hy py hj hj'
  cases px with
  | newtype px =>
  cases hy with
  | newtype hy =>
  cases py with
  | newtype py => exact .newtype (h px hy py hj hj')

theorem sequence {items : List Datum} (h : ∀ x ∈ items, Told t x) :
    Told (.sequence t) (.sequence items) := by
  intro px y j hy py hj hj'
  cases px with
  | sequence pxs =>
  cases hy with
  | sequence hys =>
  cases py with
  | sequence pys =>
  refine .of_items hj hj' fun i x y k hxi hyi hk hk' => ?_
  have hmx := List.mem_of_getElem? hxi
  have hmy := List.mem_of_getElem? hyi
  exact h x hmx (pxs x hmx) (hys y hmy) (pys y hmy) hk hk'

theorem tuple {ts : List DataType} {items : List Datum} (length : items.length = ts.length)
    (h : ∀ (i : Nat) (t : DataType) (x : Datum), ts[i]? = Option.some t →
      items[i]? = Option.some x → Told t x) : Told (.tuple ts) (.sequence items) := by
  intro px y j hy py hj hj'
  cases px with
  | sequence pxs =>
  cases hy with
  | tuple _ hys =>
  cases py with
  | sequence pys =>
  refine .of_items hj hj' fun i x y k hxi hyi hk hk' => ?_
  obtain ⟨t, ht⟩ := exists_getElem? length hxi
  exact h i t x ht hxi (pxs x (List.mem_of_getElem? hxi)) (hys i t y ht hyi)
    (pys y (List.mem_of_getElem? hyi)) hk hk'

theorem map {entries : List (Datum × Datum)} (keys : ∀ entry ∈ entries, HasType k entry.1)
    (h : ∀ entry ∈ entries, Told v entry.2) : Told (.map k v) (.map entries) := by
  intro px y j hy py hj hj'
  cases px with
  | map pes hes =>
  cases hy with
  | map keys' hvalues =>
  cases py with
  | map pfs hfs =>
  -- the entries stand in no order, so any two of them may have to be compared
  refine .of_entries hj hj' hes hfs (fun e he f hf text htext htext' => ?_)
    (fun e he f hf k hk hk' => ?_)
  · exact (keys e he).eq_of_keyText? (keys' f hf) htext htext'
  · exact h e he (pes e he) (hvalues f hf) (pfs f hf) hk hk'

theorem record {ts : List (String × DataType)} {fields : List (String × Datum)}
    (names : fields.map Prod.fst = ts.map Prod.fst) (distinct : (ts.map Prod.fst).Nodup)
    (h : ∀ (i : Nat) (t : String × DataType) (field : String × Datum), ts[i]? = Option.some t →
      fields[i]? = Option.some field → Told t.2 field.2) : Told (.record ts) (.record fields) := by
  intro px y j hy py hj hj'
  cases px with
  | record pfs =>
  cases hy with
  | record names' _ hgs =>
  cases py with
  | record pgs =>
  refine .of_fields (names.trans names'.symm) (by rw [names]; exact distinct) hj hj'
    fun i f g k hfi hgi hk hk' => ?_
  obtain ⟨t, ht⟩ := exists_getElem? (by simpa using congrArg List.length names) hfi
  exact h i t f ht hfi (pfs f (List.mem_of_getElem? hfi)) (hgs i t g ht hgi)
    (pgs g (List.mem_of_getElem? hgi)) hk hk'

theorem unitVariant : Told (.enumeration variants) (.unitVariant name) := by
  intro _ y j hy _ hj hj'
  rcases hy.unit_or_content with ⟨name', rfl⟩ | ⟨name', t, d, hd, -⟩
  · rw [Json.string.inj (Option.some.inj (hj.trans hj'.symm))]
    exact .refl _
  · exact absurd hj' (unitVariant_ne_content hj hd)

theorem newtypeVariant (distinct : (variants.map Prod.fst).Nodup)
    (shape : (name, .newtype t) ∈ variants) {x : Datum} (h : Told t x) :
    Told (.enumeration variants) (.newtypeVariant name x) := by
  intro px y j hy py hj hj'
  cases px with
  | newtypeVariant px =>
  refine reordered_of_content rfl distinct shape hy py hj hj' fun d k td pd hk hk' => ?_
  cases td with
  | newtype td =>
  cases pd with
  | newtype pd => exact .newtype (h px td pd hk hk')

theorem tupleVariant {ts : List DataType} {items : List Datum}
    (distinct : (variants.map Prod.fst).Nodup) (shape : (name, .tuple ts) ∈ variants)
    (h : Told (.tuple ts) (.sequence items)) :
    Told (.enumeration variants) (.tupleVariant name items) := by
  intro px y j hy py hj hj'
  cases px with
  | tupleVariant px =>
  exact reordered_of_content rfl distinct shape hy py hj hj' fun d k td pd => h px td pd

theorem recordVariant {ts : List (String × DataType)} {fields : List (String × Datum)}
    (distinct : (variants.map Prod.fst).Nodup) (shape : (name, .record ts) ∈ variants)
    (h : Told (.record ts) (.record fields)) :
    Told (.enumeration variants) (.recordVariant name fields) := by
  intro px y j hy py hj hj'
  cases px with
  | recordVariant px =>
  exact reordered_of_content rfl distinct shape hy py hj hj' fun d k td pd => h px td pd

end Told

/-- The type of a value decides the shape of the others, but for options and variants, whose forms
do. -/
theorem HasType.told {t : DataType} {x : Datum} (h : HasType t x) : Told t x := by
  induction h with
  | bool b => exact .bool b
  | int n => exact .int n
  | wide n => exact .wide n
  | single x => exact .single x
  | double x => exact .double x
  | char c => exact .char c
  | string s => exact .string s
  | bytes l => exact .bytes l
  | none t => exact .none t
  | some _ ih => exact .some ih
  | unit => exact .unit
  | newtype _ ih => exact .newtype ih
  | sequence _ ih => exact .sequence ih
  | tuple length _ ih => exact .tuple length ih
  | map keys _ _ ih => exact .map keys ih
  | record names distinct _ ih => exact .record names distinct ih
  | unitVariant => exact .unitVariant
  | newtypeVariant distinct shape _ ih => exact .newtypeVariant distinct shape ih
  | tupleVariant distinct shape _ ih => exact .tupleVariant distinct shape ih
  | recordVariant distinct shape _ ih => exact .recordVariant distinct shape ih

/-- Values of one type that have one form, and of which nothing is lost in it, are one value, but
for the order of the entries of their maps. -/
theorem HasType.reordered {t : DataType} {x y : Datum} (hx : HasType t x) (hy : HasType t y)
    (px : x.Plain) (py : y.Plain) {j : Json} (hj : x.toJson? = Option.some j)
    (hj' : y.toJson? = Option.some j) : x.Reordered y := hx.told px hy py hj hj'

end Datum

namespace Key
open Datum (HasType Plain Reordered)
variable {counter i j : Nat} {requests : List Datum} {x y : Datum} {t : DataType}

/-- Requests of one type, of which nothing is lost in their form, share a key only if they are one
request, but for the order of the entries of their maps, or else the texts of their forms are two
messages of one digest. -/
theorem keys_separate_requests (hx : requests[i]? = some x) (hy : requests[j]? = some y)
    (tx : HasType t x) (ty : HasType t y) (px : x.Plain) (py : y.Plain)
    (hkey : (ofRequests counter requests)[i]? = (ofRequests counter requests)[j]?) :
    x.Reordered y ∨ ∃ v w, x.toJson? = some v ∧ y.toJson? = some w ∧
      Sha256.Collide v.text.toUTF8.toList w.text.toUTF8.toList := by
  by_cases hij : i = j
  · subst hij
    obtain rfl := Option.some.inj (hx.symm.trans hy)
    exact .inl (.refl _)
  cases hv : x.toJson? with
  | none => exact absurd hkey (ofRequests_ne hx hy hij hv)
  | some v =>
    cases hw : y.toJson? with
    | none => exact absurd hkey.symm (ofRequests_ne hy hx (Ne.symm hij) hw)
    | some w =>
      rw [ofRequests_form hx hv, ofRequests_form hy hw, Option.some.injEq] at hkey
      by_cases hvw : v = w
      · subst hvw
        exact .inl (tx.reordered ty px py hv hw)
      · exact .inr ⟨v, w, rfl, rfl, collide_of_ofContent_eq hkey hvw⟩

def mirroredOptions : List Datum :=
  [.map [(.string "b", .some (.double (.zero false))), (.string "a", .none)],
    .map [(.string "a", .none), (.string "b", .some (.double (.zero false)))]]

theorem keys_separate_requests_of_mirroredOptions :
    (ofRequests 0 mirroredOptions)[0]? = (ofRequests 0 mirroredOptions)[1]? ∧
      ∃ x y, mirroredOptions[0]? = some x ∧ mirroredOptions[1]? = some y ∧
        (x.Reordered y ∨ ∃ v w, x.toJson? = some v ∧ y.toJson? = some w ∧
          Sha256.Collide v.text.toUTF8.toList w.text.toUTF8.toList) := by
  have hfirst : mirroredOptions[0]? = some _ := rfl
  have hsecond : mirroredOptions[1]? = some _ := rfl
  have hkey : (ofRequests 0 mirroredOptions)[0]? = (ofRequests 0 mirroredOptions)[1]? := by
    rw [ofRequests_form hfirst rfl, ofRequests_form hsecond rfl]
    rfl
  have tmap : ∀ x ∈ mirroredOptions, HasType (.map .string (.option .double)) x := by
    refine List.forall_mem_cons.mpr ⟨.map ?_ ?_, List.forall_mem_singleton.mpr (.map ?_ ?_)⟩
    all_goals simp [HasType.string, HasType.none, HasType.some, HasType.double]
  have pmap : ∀ x ∈ mirroredOptions, x.Plain := by
    have pnumber : Plain (.some (.double (.zero false))) := by
      refine .some (.double rfl) ?_
      have hfinite : (Binary.zero false : Double).isFinite = true := rfl
      rw [Datum.toJson?, Json.ofBinary, dif_pos hfinite]
      intro h
      cases h
    refine List.forall_mem_cons.mpr ⟨.map ?_ (by decide),
      List.forall_mem_singleton.mpr (.map ?_ (by decide))⟩
    all_goals simp [Plain.none, pnumber]
  exact ⟨hkey, _, _, rfl, rfl, keys_separate_requests hfirst hsecond
    (tmap _ (List.mem_of_getElem? hfirst)) (tmap _ (List.mem_of_getElem? hsecond))
    (pmap _ (List.mem_of_getElem? hfirst)) (pmap _ (List.mem_of_getElem? hsecond)) hkey⟩

structure Conflated (t : DataType) (x y : Datum) : Prop where
  left : HasType t x
  right : HasType t y
  different : ¬ x.Reordered y
  key : (ofRequests 0 [x, y])[0]? = (ofRequests 0 [x, y])[1]?

/-- What is lost in the form is lost in the key: which number it was that is not finite, that an
option holds nothing, and what a map held under a key before. -/
theorem conflated_of_lossy_form :
    Conflated .double (.double .undefined) (.double (.infinity false)) ∧
      Conflated (.option (.option .bool)) .none (.some .none) ∧
      Conflated (.map .string .bool) (.map [(.string "a", .bool true), (.string "a", .bool false)])
        (.map [(.string "a", .bool false)]) := by
  refine ⟨⟨.double _, .double _, ?_, rfl⟩, ⟨.none _, .some (.none _), nofun, rfl⟩,
    ⟨.map ?_ ?_, .map ?_ ?_, ?_, rfl⟩⟩
  · intro h
    cases h
  · simp [HasType.string]
  · simp [HasType.bool]
  · simp [HasType.string]
  · simp [HasType.bool]
  · intro h
    cases h with
    | map keys _ order _ =>
      have hlength := (Datum.length_eq_of_map keys).trans order.length_eq
      cases hlength

end Key

end Coalesce
