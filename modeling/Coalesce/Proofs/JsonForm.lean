import Coalesce.Key.Datum
import Mathlib.Data.List.Nodup
import Mathlib.Data.List.Perm.Basic
/-! # JSON forms are canonical

The form of a request lists the members of every object in increasing order of their names. Of two
values so ordered that are alike, as unordered objects at every depth, each is the other; and the
order in which a map yields its entries leaves no trace in the form. -/
namespace Coalesce

namespace Json

/-- One value, objects being compared as unordered collections of named values. -/
inductive Alike : Json → Json → Prop
  | null : Alike .null .null
  | bool (value : Bool) : Alike (.bool value) (.bool value)
  | number (n : JsonNumber) : Alike (.number n) (.number n)
  | string (s : String) : Alike (.string s) (.string s)
  | array {xs ys : List Json} (length : xs.length = ys.length)
      (items : ∀ (i : Nat) (x y : Json), xs[i]? = some x → ys[i]? = some y → Alike x y) :
      Alike (.array xs) (.array ys)
  | object {ms ns : List (String × Json)}
      (names : ∀ name, (member? name (.object ms)).isSome = (member? name (.object ns)).isSome)
      (values : ∀ name x y, member? name (.object ms) = some x →
        member? name (.object ns) = some y → Alike x y) :
      Alike (.object ms) (.object ns)

def Increasing (members : List (String × Json)) : Prop := members.Pairwise fun m n => m.1 < n.1

inductive Ordered : Json → Prop
  | null : Ordered .null
  | bool (value : Bool) : Ordered (.bool value)
  | number (n : JsonNumber) : Ordered (.number n)
  | string (s : String) : Ordered (.string s)
  | array {items : List Json} (h : ∀ x ∈ items, Ordered x) : Ordered (.array items)
  | object {members : List (String × Json)} (names : Increasing members)
      (values : ∀ m ∈ members, Ordered m.2) : Ordered (.object members)

section Members
variable {name : String} {value x : Json} {ms ns : List (String × Json)} {m n : String × Json}

theorem member?_cons (m : String × Json) (ms : List (String × Json)) (name : String) :
    member? name (.object (m :: ms)) =
      if m.1 = name then some m.2 else member? name (.object ms) := by
  rw [member?, List.find?_cons, member?]
  by_cases h : m.1 = name <;> simp [h]

theorem mem_of_member? (h : member? name (.object ms) = some x) : (name, x) ∈ ms := by
  rw [member?, Option.map_eq_some_iff] at h
  obtain ⟨m, hm, rfl⟩ := h
  have hname := List.find?_some hm
  have hmem := List.mem_of_find?_eq_some hm
  rw [decide_eq_true_eq] at hname
  rwa [← hname]

theorem Increasing.member?_eq_some_iff (h : Increasing ms) :
    member? name (.object ms) = some x ↔ (name, x) ∈ ms := by
  refine ⟨mem_of_member?, fun hmem => ?_⟩
  induction ms with
  | nil => cases hmem
  | cons m ms ih =>
    have hfirst := List.pairwise_cons.mp h
    rw [member?_cons]
    rcases List.mem_cons.mp hmem with rfl | hmem
    · rw [if_pos rfl]
    · rw [if_neg (String.ne_of_lt (hfirst.1 _ hmem))]
      exact ih hfirst.2 hmem

theorem Increasing.nodup (h : Increasing ms) : ms.Nodup :=
  List.Pairwise.imp (fun hlt heq => absurd (heq ▸ hlt) (String.lt_irrefl _)) h

/-- Members in increasing order are told by what is found under each name. -/
theorem Increasing.ext (hm : Increasing ms) (hn : Increasing ns)
    (h : ∀ name, member? name (.object ms) = member? name (.object ns)) : ms = ns := by
  have hperm : ms.Perm ns := by
    refine (List.perm_ext_iff_of_nodup hm.nodup hn.nodup).mpr ?_
    rintro ⟨name, x⟩
    rw [← hm.member?_eq_some_iff, ← hn.member?_eq_some_iff, h name]
  refine List.Perm.eq_of_pairwise (fun a b _ _ hab hba => ?_) hm hn hperm
  exact absurd hba (String.lt_asymm hab)

theorem mem_insertMember (h : n ∈ insertMember name value ms) : n = (name, value) ∨ n ∈ ms := by
  fun_induction insertMember name value ms with
  | case1 => exact .inl (List.mem_singleton.mp h)
  | case2 other held rest hlt => exact List.mem_cons.mp h
  | case3 held rest hlt => exact (List.mem_cons.mp h).imp_right (List.mem_cons_of_mem _)
  | case4 other held rest hlt hne ih =>
    rcases List.mem_cons.mp h with h | h
    · exact .inr (h ▸ List.mem_cons_self)
    · exact (ih h).imp_right (List.mem_cons_of_mem _)

theorem Increasing.insertMember (h : Increasing ms) (name : String) (value : Json) :
    Increasing (insertMember name value ms) := by
  fun_induction Json.insertMember name value ms with
  | case1 => exact List.pairwise_singleton _ _
  | case2 other held rest hlt =>
    refine List.pairwise_cons.mpr ⟨fun n hn => ?_, h⟩
    rcases List.mem_cons.mp hn with rfl | hn
    · exact hlt
    · exact String.lt_trans hlt ((List.pairwise_cons.mp h).1 n hn)
  | case3 held rest hlt => exact List.pairwise_cons.mpr (List.pairwise_cons.mp h)
  | case4 other held rest hlt hne ih =>
    obtain ⟨hfirst, hrest⟩ := List.pairwise_cons.mp h
    refine List.pairwise_cons.mpr ⟨fun n hn => ?_, ih hrest⟩
    rcases mem_insertMember hn with rfl | hn
    · exact Std.lt_of_le_of_ne (String.not_lt.mp hlt) (Ne.symm hne)
    · exact hfirst n hn

theorem member?_insertMember (name other : String) (value : Json) (ms : List (String × Json)) :
    member? other (.object (insertMember name value ms)) =
      if name = other then some value else member? other (.object ms) := by
  fun_induction insertMember name value ms with
  | case1 => exact member?_cons _ _ _
  | case2 => exact member?_cons _ _ _
  | case3 held rest hlt =>
    rw [member?_cons, member?_cons]
    split <;> rfl
  | case4 first held rest hlt hne ih =>
    rw [member?_cons, member?_cons, ih]
    by_cases hother : name = other
    · have hfirst : first ≠ other := fun heq => hne (hother.trans heq.symm)
      rw [if_neg hfirst]
      simp [hother]
    · simp [hother]

def addMembers (ms entries : List (String × Json)) : List (String × Json) :=
  entries.foldl (fun sorted m => insertMember m.1 m.2 sorted) ms

theorem ofMembers_eq (entries : List (String × Json)) :
    ofMembers entries = .object (addMembers [] entries) := rfl

theorem Increasing.addMembers (h : Increasing ms) (entries : List (String × Json)) :
    Increasing (addMembers ms entries) := by
  induction entries generalizing ms with
  | nil => exact h
  | cons m entries ih => exact ih (h.insertMember m.1 m.2)

theorem mem_addMembers {entries : List (String × Json)} (h : n ∈ addMembers ms entries) :
    n ∈ ms ∨ n ∈ entries := by
  induction entries generalizing ms with
  | nil => exact .inl h
  | cons m entries ih =>
    rcases ih h with h | h
    · rcases mem_insertMember h with h | h
      · exact .inr (h ▸ List.mem_cons_self)
      · exact .inl h
    · exact .inr (List.mem_cons_of_mem _ h)

/-- Where no two have one name, all those added are found, and the others as before. -/
theorem member?_addMembers {entries : List (String × Json)} (h : (entries.map (·.1)).Nodup) :
    member? name (.object (addMembers ms entries)) = some x ↔
      (name, x) ∈ entries ∨ name ∉ entries.map (·.1) ∧ member? name (.object ms) = some x := by
  induction entries generalizing ms with
  | nil => simp [addMembers]
  | cons m entries ih =>
    rw [List.map_cons, List.nodup_cons] at h
    have hstep : addMembers ms (m :: entries) = addMembers (insertMember m.1 m.2 ms) entries := rfl
    rw [hstep, ih h.2, member?_insertMember, List.mem_cons, List.map_cons, List.mem_cons]
    by_cases hname : m.1 = name
    · have hnone : (name, x) ∉ entries := fun hmem =>
        h.1 (hname ▸ List.mem_map_of_mem (f := Prod.fst) hmem)
      have habsent : name ∉ entries.map (·.1) := hname ▸ h.1
      have hsame : (name, x) = m ↔ m.2 = x := by
        rw [← hname, Prod.ext_iff]
        simp [eq_comm]
      simp [hname, hnone, habsent, hsame]
    · have hother : (name, x) ≠ m := fun heq => hname (by rw [← heq])
      have hother' : name ≠ m.1 := Ne.symm hname
      simp [hname, hother, hother']

theorem ordered_ofMembers {entries : List (String × Json)} (h : ∀ m ∈ entries, Ordered m.2) :
    Ordered (ofMembers entries) := by
  have hempty : Increasing [] := List.Pairwise.nil
  rw [ofMembers_eq]
  refine .object (hempty.addMembers entries) fun m hm => ?_
  rcases mem_addMembers hm with hm | hm
  · cases hm
  · exact h m hm

theorem Alike.eq {j k : Json} (h : j.Alike k) (hj : Ordered j) (hk : Ordered k) : j = k := by
  induction h with
  | null => rfl
  | bool value => rfl
  | number n => rfl
  | string s => rfl
  | @array xs ys length items ih =>
    cases hj with
    | array hxs =>
    cases hk with
    | array hys =>
    have hitems : xs = ys := List.ext_getElem length fun i hi hi' =>
      ih i _ _ (List.getElem?_eq_getElem hi) (List.getElem?_eq_getElem hi')
        (hxs _ (List.getElem_mem hi)) (hys _ (List.getElem_mem hi'))
    rw [hitems]
  | @object ms ns names values ih =>
    cases hj with
    | object hms hmvalues =>
    cases hk with
    | object hns hnvalues =>
    rw [hms.ext hns]
    intro name
    have hname := names name
    cases hx : member? name (.object ms) with
    | none =>
      rw [hx, Option.isSome_none] at hname
      exact (Option.not_isSome_iff_eq_none.mp (by simp [← hname])).symm
    | some x =>
      rw [hx, Option.isSome_some] at hname
      obtain ⟨y, hy⟩ := Option.isSome_iff_exists.mp hname.symm
      rw [hy, ih name x y hx hy (hmvalues _ (mem_of_member? hx)) (hnvalues _ (mem_of_member? hy))]

end Members

theorem ordered_ofBinary (x : Double) : Ordered (.ofBinary x) := by
  rw [ofBinary]
  split
  · exact .number _
  · exact .null

theorem ordered_singleton {name : String} {j : Json} (h : Ordered j) :
    Ordered (.object [(name, j)]) := by
  refine .object (List.pairwise_singleton _ _) fun m hm => ?_
  rw [List.mem_singleton.mp hm]
  exact h

end Json

namespace Datum
open Json

mutual

/-- The form of a value lists the members of its objects in increasing order. -/
theorem toJson?_ordered (d : Datum) {j : Json} (h : d.toJson? = Option.some j) : j.Ordered := by
  cases d with
  | bool value => cases h; exact .bool value
  | int value => cases h; exact .number _
  | wide value =>
    rw [toJson?, wideJson?] at h
    split at h <;> cases h
    exact .number _
  | single value => cases h; exact ordered_ofBinary _
  | double value => cases h; exact ordered_ofBinary _
  | char value => cases h; exact .string _
  | string value => cases h; exact .string _
  | bytes value =>
    cases h
    refine .array fun x hx => ?_
    obtain ⟨b, -, rfl⟩ := List.mem_map.mp hx
    exact .number _
  | none => cases h; exact .null
  | some value => exact value.toJson?_ordered h
  | unit => cases h; exact .null
  | newtype value => exact value.toJson?_ordered h
  | sequence items =>
    rw [toJson?, Option.map_eq_some_iff] at h
    obtain ⟨js, hjs, rfl⟩ := h
    exact .array (itemsJson?_ordered items hjs)
  | map entries =>
    rw [toJson?, Option.map_eq_some_iff] at h
    obtain ⟨ms, hms, rfl⟩ := h
    exact ordered_ofMembers (entriesJson?_ordered entries hms)
  | record fields =>
    rw [toJson?, Option.map_eq_some_iff] at h
    obtain ⟨ms, hms, rfl⟩ := h
    exact ordered_ofMembers (fieldsJson?_ordered fields hms)
  | unitVariant variantName => cases h; exact .string _
  | newtypeVariant variantName value =>
    rw [toJson?, Option.map_eq_some_iff] at h
    obtain ⟨k, hk, rfl⟩ := h
    exact ordered_singleton (value.toJson?_ordered hk)
  | tupleVariant variantName items =>
    rw [toJson?, Option.map_eq_some_iff] at h
    obtain ⟨js, hjs, rfl⟩ := h
    exact ordered_singleton (.array (itemsJson?_ordered items hjs))
  | recordVariant variantName fields =>
    rw [toJson?, Option.map_eq_some_iff] at h
    obtain ⟨ms, hms, rfl⟩ := h
    exact ordered_singleton (ordered_ofMembers (fieldsJson?_ordered fields hms))
  | failing => cases h

theorem itemsJson?_ordered (items : List Datum) {js : List Json}
    (h : itemsJson? items = Option.some js) : ∀ j ∈ js, j.Ordered := by
  cases items with
  | nil =>
    cases h
    exact List.forall_mem_nil _
  | cons item rest =>
    simp only [itemsJson?, Option.bind_eq_bind, Option.bind_eq_some_iff, Option.pure_def,
      Option.some.injEq] at h
    obtain ⟨k, hk, ks, hks, rfl⟩ := h
    exact List.forall_mem_cons.mpr ⟨item.toJson?_ordered hk, itemsJson?_ordered rest hks⟩

theorem entriesJson?_ordered (entries : List (Datum × Datum)) {ms : List (String × Json)}
    (h : entriesJson? entries = Option.some ms) : ∀ m ∈ ms, m.2.Ordered := by
  cases entries with
  | nil =>
    cases h
    exact List.forall_mem_nil _
  | cons entry rest =>
    obtain ⟨key, value⟩ := entry
    simp only [entriesJson?, Option.bind_eq_bind, Option.bind_eq_some_iff, Option.pure_def,
      Option.some.injEq] at h
    obtain ⟨text, -, k, hk, ks, hks, rfl⟩ := h
    exact List.forall_mem_cons.mpr ⟨value.toJson?_ordered hk, entriesJson?_ordered rest hks⟩

theorem fieldsJson?_ordered (fields : List (String × Datum)) {ms : List (String × Json)}
    (h : fieldsJson? fields = Option.some ms) : ∀ m ∈ ms, m.2.Ordered := by
  cases fields with
  | nil =>
    cases h
    exact List.forall_mem_nil _
  | cons field rest =>
    obtain ⟨name, value⟩ := field
    simp only [fieldsJson?, Option.bind_eq_bind, Option.bind_eq_some_iff, Option.pure_def,
      Option.some.injEq] at h
    obtain ⟨k, hk, ks, hks, rfl⟩ := h
    exact List.forall_mem_cons.mpr ⟨value.toJson?_ordered hk, fieldsJson?_ordered rest hks⟩

end

end Datum
end Coalesce
