import Coalesce.Proofs.JsonSkip
import Coalesce.Settings.Json

/-! # Settings are read by name

The members of an object may come in any order, and those with unknown names may hold any values.
Each field is given at most once; the others keep their defaults. The settings' own compact text is
such an object, and is read back as the settings. -/
namespace Coalesce.Settings
open Json Text

def get (s : Settings) : Field → String ⊕ UInt64
  | .name => .inl s.name
  | .idleTimeout => .inr s.idleTimeoutMs
  | .maxTimeout => .inr s.maxTimeoutMs
  | .maxRequestWorkers => .inr s.maxRequestWorkers

/-- The field that a member gives with its value; none for a member with a name of no field. -/
abbrev Member := Option (Field × (String ⊕ UInt64))

inductive ValueText : Field → List Char → String ⊕ UInt64 → Prop
  | text {cs s : List Char} : StringText cs s →
      ValueText .name ('"' :: cs ++ ['"']) (.inl (.ofList s))
  | count {f : Field} (n : UInt64) : f ≠ .name → ValueText f (decimal n.toNat) (.inr n)

inductive MemberText : List Char → Member → Prop
  | known {f : Field} {name ws ws' cs : List Char} {value : String ⊕ UInt64} :
      StringText name f.key.toList → Blank ws → Blank ws' → ValueText f cs value →
      MemberText ('"' :: name ++ '"' :: ws ++ ':' :: ws' ++ cs) (some (f, value))
  | unknown {name s ws ws' cs : List Char} : StringText name s →
      (∀ f : Field, s ≠ f.key.toList) → Blank ws → Blank ws' → Formed none cs →
      MemberText ('"' :: name ++ '"' :: ws ++ ':' :: ws' ++ cs) none

inductive MembersText : List Char → List Member → Prop
  | last {ws cs ws' : List Char} {m : Member} : Blank ws → MemberText cs m → Blank ws' →
      MembersText (ws ++ cs ++ ws' ++ ['}']) [m]
  | more {ws cs ws' ds : List Char} {m : Member} {ms : List Member} : Blank ws → MemberText cs m →
      Blank ws' → MembersText ds ms → MembersText (ws ++ cs ++ ws' ++ ',' :: ds) (m :: ms)

inductive ObjectText : List Char → List Member → Prop
  | empty {ws ws' ws'' : List Char} : Blank ws → Blank ws' → Blank ws'' →
      ObjectText (ws ++ '{' :: ws' ++ '}' :: ws'') []
  | members {ws cs ws' : List Char} {ms : List Member} : Blank ws → MembersText cs ms → Blank ws' →
      ObjectText (ws ++ '{' :: cs ++ ws') ms

def given (ms : List Member) : List (Field × (String ⊕ UInt64)) := ms.filterMap id

structure Replaced (values : List (Field × (String ⊕ UInt64))) (r : Settings) : Prop where
  given : ∀ f value, (f, value) ∈ values → r.get f = value
  kept : ∀ f, f ∉ values.map (·.1) → r.get f = get {} f

def duplicate (f : Field) : JsonFault := .unfit ("duplicate field `" ++ f.key ++ "`")

def Field.Takes (f : Field) (value : String ⊕ UInt64) : Prop := ∃ cs, ValueText f cs value

theorem eq_of_get {s s' : Settings} (h : ∀ f, s.get f = s'.get f) : s = s' := by
  have hname := Sum.inl.inj (h .name)
  have hidle := Sum.inr.inj (h .idleTimeout)
  have hmax := Sum.inr.inj (h .maxTimeout)
  have hworkers := Sum.inr.inj (h .maxRequestWorkers)
  cases s
  cases s'
  simp_all

namespace Draft
variable {d : Draft} {f g : Field} {value : String ⊕ UInt64} {ms : List Member} {fs : List Field}

def get? (d : Draft) : Field → Option (String ⊕ UInt64)
  | .name => d.name.map .inl
  | .idleTimeout => d.idleTimeout.map .inr
  | .maxTimeout => d.maxTimeout.map .inr
  | .maxRequestWorkers => d.maxRequestWorkers.map .inr

def take (d : Draft) : Member → Except JsonFault Draft
  | none => .ok d
  | some (f, value) => if d.has f then .error (duplicate f) else .ok (d.set f value)

/-- The field is found and given once more, or it is given more than once. -/
def Twice (d : Draft) (fs : List Field) (f : Field) : Prop :=
  (d.has f = true ∧ f ∈ fs) ∨ 2 ≤ fs.count f

theorem has_eq (d : Draft) (f : Field) : d.has f = (d.get? f).isSome := by
  cases f <;> simp [has, get?]

theorem get_fillFrom (d : Draft) (s : Settings) (f : Field) :
    (d.fillFrom s).get f = (d.get? f).getD (s.get f) := by
  cases f <;> simp only [fillFrom, Settings.get, get?]
  · cases d.name <;> rfl
  · cases d.idleTimeout <;> rfl
  · cases d.maxTimeout <;> rfl
  · cases d.maxRequestWorkers <;> rfl

theorem get?_set (h : f.Takes value) (d : Draft) (g : Field) :
    (d.set f value).get? g = if f = g then some value else d.get? g := by
  obtain ⟨cs, h⟩ := h
  cases h with
  | text => cases g <;> rfl
  | count n hf =>
    cases f with
    | name => exact absurd rfl hf
    | _ => cases g <;> rfl

theorem has_set (h : f.Takes value) (d : Draft) (g : Field) :
    (d.set f value).has g = true ↔ f = g ∨ d.has g = true := by
  rw [has_eq, has_eq, get?_set h]
  split
  · simp [*]
  · simp [*]

theorem twice_cons (h : f.Takes value) (hnew : d.has f = false) :
    Twice d (f :: fs) g ↔ Twice (d.set f value) fs g := by
  simp only [Twice, has_set h, List.mem_cons, List.count_cons, beq_iff_eq]
  by_cases hfg : f = g
  · subst hfg
    rw [← List.count_pos_iff]
    simp only [hnew, Bool.false_eq_true, false_and, false_or, true_or, true_and, if_true]
    omega
  · simp [hfg, Ne.symm hfg]

/-- Members that give new fields, each once, are all taken. -/
theorem foldlM_take_ok (htakes : ∀ p ∈ given ms, p.1.Takes p.2)
    (hnodup : ((given ms).map (·.1)).Nodup)
    (hnew : ∀ f ∈ (given ms).map (·.1), d.get? f = none) :
    ∃ r, ms.foldlM take d = .ok r ∧ (∀ f value, (f, value) ∈ given ms → r.get? f = some value) ∧
      ∀ f, f ∉ (given ms).map (·.1) → r.get? f = d.get? f := by
  induction ms generalizing d with
  | nil => exact ⟨d, rfl, by simp [given], fun _ _ => rfl⟩
  | cons m ms ih =>
    cases m with
    | none => exact ih htakes hnodup hnew
    | some p =>
      obtain ⟨f, value⟩ := p
      have hgiven : given (some (f, value) :: ms) = (f, value) :: given ms := rfl
      simp only [hgiven, List.map_cons, List.nodup_cons, List.forall_mem_cons] at *
      obtain ⟨hf, hnodup⟩ := hnodup
      obtain ⟨htake, htakes⟩ := htakes
      obtain ⟨hnone, hnew⟩ := hnew
      have hset : ∀ g ∈ (given ms).map (·.1), (d.set f value).get? g = none := by
        intro g hg
        rw [get?_set htake, if_neg]
        · exact hnew g hg
        · rintro rfl
          exact hf hg
      obtain ⟨r, hr, htaken, hkept⟩ := ih htakes hnodup hset
      refine ⟨r, ?_, ?_, ?_⟩
      · have hhas : d.has f = false := by rw [has_eq, hnone]; rfl
        rw [List.foldlM_cons, take, hhas]
        exact hr
      · intro g v hm
        rcases List.mem_cons.mp hm with heq | hm
        · obtain ⟨rfl, rfl⟩ := Prod.mk.inj heq
          rw [hkept g hf, get?_set htake, if_pos rfl]
        · exact htaken g v hm
      · intro g hg
        rw [List.mem_cons, not_or] at hg
        rw [hkept g hg.2, get?_set htake, if_neg (Ne.symm hg.1)]

/-- The first member that gives a field again is refused. -/
theorem foldlM_take_error (htakes : ∀ p ∈ given ms, p.1.Takes p.2)
    (h : Twice d ((given ms).map (·.1)) g) :
    ∃ f, Twice d ((given ms).map (·.1)) f ∧ ms.foldlM take d = .error (duplicate f) := by
  induction ms generalizing d g with
  | nil => simp [Twice, given] at h
  | cons m ms ih =>
    cases m with
    | none => exact ih htakes h
    | some p =>
      obtain ⟨f, value⟩ := p
      have hgiven : given (some (f, value) :: ms) = (f, value) :: given ms := rfl
      simp only [hgiven, List.map_cons, List.forall_mem_cons] at *
      obtain ⟨htake, htakes⟩ := htakes
      cases hhas : d.has f with
      | true =>
        refine ⟨f, .inl ⟨hhas, List.mem_cons_self⟩, ?_⟩
        rw [List.foldlM_cons, take, hhas]
        rfl
      | false =>
        obtain ⟨f', htwice, herror⟩ := ih htakes ((twice_cons htake hhas).mp h)
        refine ⟨f', (twice_cons htake hhas).mpr htwice, ?_⟩
        rw [List.foldlM_cons, take, hhas]
        exact herror

end Draft

section Reading
variable {d : Draft} {f : Field} {m : Member} {ms : List Member} {value : String ⊕ UInt64}
  {ws cs rest : List Char} {n : UInt64}

theorem named?_key (f : Field) : Field.named? f.key = some f := by
  cases f <;> decide

theorem named?_eq_none {s : List Char} (h : ∀ f : Field, s ≠ f.key.toList) :
    Field.named? (.ofList s) = none := by
  rw [Field.named?, List.find?_eq_none]
  intro f _ hkey
  apply h f
  rw [of_decide_eq_true hkey, String.toList_ofList]

theorem readColon_blank (h : Blank ws) (rest : List Char) :
    readColon (ws ++ ':' :: rest) = .ok rest := by
  rw [readColon, skipSpace_blank h rfl]
  rfl

theorem readNumber_decimal (n : UInt64) (h : Ends rest) :
    readNumber (decimal n.toNat ++ rest) = .ok (.integer n.toNat, rest) := by
  have hread : readNumberText (decimal n.toNat ++ rest) =
      .ok (⟨false, decimal n.toNat, [], none⟩, rest) :=
    readNumberText_sign (readMagnitude_decimal false n.toNat h)
  have hnumber : NumberText.number? ⟨false, decimal n.toNat, [], none⟩ = some (.integer n.toNat) := by
    simp [NumberText.number?, NumberText.isInteger, n.toNat_lt_size]
  rw [readNumber]
  simp only [hread, bind, Except.bind, hnumber]
  rfl

theorem readCount_decimal (expected : String) (n : UInt64) (h : Ends rest) :
    readCount expected (decimal n.toNat ++ rest) = .ok (n, rest) := by
  have hread := readNumber_decimal n h
  obtain ⟨c, ds, hds, hdigit⟩ := (digits_decimal n.toNat).head
  rw [hds, List.cons_append] at hread ⊢
  simp only [readCount, hdigit, or_true, if_true, hread]
  simp

theorem readField_value (h : ValueText f cs value) (hws : Blank ws) (hrest : Ends rest) :
    readField f (ws ++ (cs ++ rest)) = .ok (value, rest) := by
  cases h with
  | text hs =>
    simp only [readField, List.cons_append, List.append_assoc, List.nil_append]
    rw [skipSpace_blank hws rfl]
    simp only [hs.readString]
    rfl
  | count n hf =>
    have hspace : skipSpace (ws ++ (decimal n.toNat ++ rest)) = decimal n.toNat ++ rest := by
      obtain ⟨c, ds, hds, hdigit⟩ := (digits_decimal n.toNat).head
      rw [hds, List.cons_append, skipSpace_blank hws (isSpace_of_isDigit hdigit)]
    simp only [readField, hspace]
    split
    · exact absurd rfl hf
    · exact absurd rfl hf
    · rw [readCount_decimal _ n hrest]
      rfl

/-- A member is read to its end, and taken. -/
theorem readMember_eq (h : MemberText cs m) (d : Draft) (hrest : Ends rest) :
    readMember d (cs ++ rest) = (d.take m).map fun d => (d, rest) := by
  cases h with
  | @known f name ws ws' cs value hname hws hws' hcs =>
    simp only [List.append_assoc, List.cons_append, readMember, hname.readString, bind, Except.bind,
      String.ofList_toList, named?_key, Draft.take, readColon_blank hws,
      readField_value hcs hws' hrest]
    split <;> rfl
  | @unknown name s ws ws' cs hname hs hws hws' hcs =>
    simp only [List.append_assoc, List.cons_append, readMember, hname.readString, bind, Except.bind,
      named?_eq_none hs, Draft.take, readColon_blank hws, skipValue_formed hcs hws' hrest]
    rfl

theorem MemberText.head (h : MemberText cs m) : ∃ ds, cs = '"' :: ds := by
  cases h with
  | known => exact ⟨_, rfl⟩
  | unknown => exact ⟨_, rfl⟩

/-- Every member takes a character at least. -/
theorem MembersText.head (h : MembersText cs ms) :
    ∃ ws ds, cs = ws ++ '"' :: ds ∧ Blank ws ∧ ms.length ≤ ds.length + 1 := by
  induction h with
  | @last ws cs ws' m hws hm =>
    obtain ⟨ds, rfl⟩ := hm.head
    refine ⟨ws, ds ++ ws' ++ ['}'], by simp, hws, ?_⟩
    exact Nat.le_add_left 1 _
  | @more ws cs ws' ds m ms hws hm hws' _ ih =>
    obtain ⟨es, rfl⟩ := hm.head
    obtain ⟨ws'', fs, rfl, -, hlen⟩ := ih
    refine ⟨ws, es ++ ws' ++ ',' :: (ws'' ++ '"' :: fs), by simp, hws, ?_⟩
    simp only [List.length_append, List.length_cons]
    omega

theorem readMembersOn_skipSpace (fuel : Nat) (d : Draft) (cs : List Char) :
    readMembersOn fuel d (skipSpace cs) = readMembersOn fuel d cs := by
  cases fuel with
  | zero => rfl
  | succ fuel =>
    have hidem : skipSpace (skipSpace cs) = skipSpace cs := List.dropWhile_idempotent _ cs
    simp only [readMembersOn, hidem]

theorem MemberText.skipSpace (h : MemberText cs m) (hws : Blank ws) (rest : List Char) :
    Json.skipSpace (ws ++ (cs ++ rest)) = cs ++ rest := by
  obtain ⟨ds, rfl⟩ := h.head
  exact skipSpace_blank hws rfl (ds ++ rest)

theorem readMembersOn_eq (h : MembersText cs ms) (d : Draft) (rest : List Char) {fuel : Nat}
    (hfuel : ms.length ≤ fuel) :
    readMembersOn fuel d (cs ++ rest) = (ms.foldlM Draft.take d).map fun d => (d, rest) := by
  induction h generalizing d fuel with
  | @last ws cs ws' m hws hm hws' =>
    obtain ⟨fuel, rfl⟩ := Nat.exists_eq_succ_of_ne_zero (Nat.ne_of_gt hfuel)
    have hends : Ends (ws' ++ '}' :: rest) := ends_append hws' (ends_closing .object rest)
    simp only [List.append_assoc, List.cons_append, List.nil_append, readMembersOn,
      hm.skipSpace hws, readMember_eq hm d hends, List.foldlM_cons, List.foldlM_nil]
    cases d.take m with
    | error fault => rfl
    | ok d =>
      simp only [Except.map, bind, Except.bind, skipSpace_blank hws' (c := '}') rfl]
      rfl
  | @more ws cs ws' ds m ms hws hm hws' _ ih =>
    obtain ⟨fuel, rfl⟩ := Nat.exists_eq_succ_of_ne_zero (Nat.ne_of_gt (Nat.zero_lt_of_lt hfuel))
    have hends : Ends (ws' ++ ',' :: (ds ++ rest)) := ends_append hws' (ends_comma _)
    simp only [List.append_assoc, List.cons_append, readMembersOn, hm.skipSpace hws,
      readMember_eq hm d hends, List.foldlM_cons]
    cases d.take m with
    | error fault => rfl
    | ok d =>
      simp only [Except.map, bind, Except.bind, skipSpace_blank hws' (c := ',') rfl]
      exact ih d (Nat.le_of_succ_le_succ hfuel)

theorem readDraft_eq (h : ObjectText cs ms) : ∃ rest, Blank rest ∧
    readDraft cs = (ms.foldlM Draft.take {}).map fun d => (d, rest) := by
  cases h with
  | @empty ws ws' ws'' hws hws' hws'' =>
    refine ⟨ws'', hws'', ?_⟩
    simp only [List.append_assoc, List.cons_append, readDraft, skipSpace_blank hws (c := '{') rfl,
      skipSpace_blank hws' (c := '}') rfl]
    rfl
  | @members ws cs ws' _ hws hms hws' =>
    refine ⟨ws', hws', ?_⟩
    obtain ⟨blank, ds, hcs, hblank, hlen⟩ := hms.head
    have hskip : skipSpace (cs ++ ws') = '"' :: (ds ++ ws') := by
      rw [hcs, List.append_assoc]
      exact skipSpace_blank hblank rfl (ds ++ ws')
    have hread : readDraft (ws ++ '{' :: (cs ++ ws')) =
        readMembersOn (('"' :: (ds ++ ws')).length + 1) {} ('"' :: (ds ++ ws')) := by
      simp only [readDraft, skipSpace_blank hws (c := '{') rfl, hskip]
      rfl
    rw [List.append_assoc, List.cons_append, hread, ← hskip, readMembersOn_skipSpace]
    apply readMembersOn_eq hms
    rw [hskip]
    simp only [List.length_append, List.length_cons]
    omega

/-- The settings that an object's text stands for, or the first fault of its members. -/
theorem ofJsonText_eq {s : String} (h : ObjectText s.toList ms) :
    ofJsonText s = (ms.foldlM Draft.take {}).map fun d => d.fillFrom {} := by
  obtain ⟨rest, hrest, hread⟩ := readDraft_eq h
  have hend : skipSpace rest = [] := List.dropWhile_eq_nil_iff.mpr hrest
  rw [ofJsonText, hread]
  cases ms.foldlM Draft.take {} with
  | error fault => rfl
  | ok d => simp [Except.map, bind, Except.bind, hend, pure, Except.pure]

/-- An object is refused for the name of its first member. -/
theorem ofJsonText_error {s : String} {fault : JsonFault} (hs : s.toList = '{' :: '"' :: cs)
    (h : readString cs = .error fault) : ofJsonText s = .error fault := by
  have hread : readDraft ('{' :: '"' :: cs) =
      readMembersOn (('"' :: cs).length + 1) {} ('"' :: cs) := rfl
  have hmember : readMember {} (skipSpace ('"' :: cs)) = .error fault := by
    rw [skipSpace_cons rfl, readMember, h]
    rfl
  rw [ofJsonText, hs, hread, readMembersOn, hmember]
  rfl

theorem MembersText.member (h : MembersText cs ms) (hm : m ∈ ms) : ∃ ds, MemberText ds m := by
  induction h with
  | last _ h =>
    rw [List.mem_singleton.mp hm]
    exact ⟨_, h⟩
  | more _ h _ _ ih =>
    rcases List.mem_cons.mp hm with rfl | hm
    · exact ⟨_, h⟩
    · exact ih hm

theorem mem_given {p : Field × (String ⊕ UInt64)} : p ∈ given ms ↔ some p ∈ ms := by
  simp [given]

theorem ObjectText.takes (h : ObjectText cs ms) : ∀ p ∈ given ms, p.1.Takes p.2 := by
  intro p hp
  cases h with
  | empty => cases hp
  | members _ hms =>
    obtain ⟨ds, hm⟩ := hms.member (mem_given.mp hp)
    cases hm with
    | known _ _ _ hvalue => exact ⟨_, hvalue⟩

theorem memberText_render {f : Field} {cs : List Char} {value : String ⊕ UInt64}
    (h : ValueText f cs value) :
    MemberText (renderString f.key ++ ':' :: cs) (some (f, value)) := by
  have htext := MemberText.known (stringText_escape f.key.toList) blank_nil blank_nil h
  simpa [renderString] using htext

theorem memberText_name (s : String) :
    MemberText (renderString (Field.key .name) ++ ':' :: renderString s)
      (some (.name, .inl s)) := by
  have htext := ValueText.text (stringText_escape s.toList)
  rw [String.ofList_toList] at htext
  exact memberText_render htext

theorem memberText_count {f : Field} (n : UInt64) (hf : f ≠ .name) :
    MemberText (renderString f.key ++ ':' :: renderNumber (.integer n.toNat))
      (some (f, .inr n)) :=
  memberText_render (.count n hf)

end Reading

section Objects
variable {s : String} {r r' : Settings} {ms : List Member}
  {values values' : List (Field × (String ⊕ UInt64))}

theorem Replaced.unique (h : Replaced values r) (h' : Replaced values' r')
    (hperm : values.Perm values') : r = r' := by
  apply eq_of_get
  intro f
  by_cases hf : f ∈ values.map (·.1)
  · obtain ⟨⟨g, value⟩, hm, rfl⟩ := List.mem_map.mp hf
    rw [h.given g value hm, h'.given g value (hperm.subset hm)]
  · have hf' : f ∉ values'.map (·.1) := fun hm => hf ((hperm.map _).symm.subset hm)
    rw [h.kept f hf, h'.kept f hf']

theorem ObjectText.read (h : ObjectText s.toList ms) (hnodup : ((given ms).map (·.1)).Nodup) :
    ∃ r, ofJsonText s = .ok r ∧ Replaced (given ms) r := by
  have hnew : ∀ f ∈ (given ms).map (·.1), Draft.get? {} f = none := by
    intro f _
    cases f <;> rfl
  obtain ⟨d, hd, htaken, hkept⟩ := Draft.foldlM_take_ok h.takes hnodup hnew
  refine ⟨d.fillFrom {}, by rw [ofJsonText_eq h, hd]; rfl, ?_⟩
  constructor
  case given =>
    intro f value hm
    rw [Draft.get_fillFrom, htaken f value hm, Option.getD_some]
  case kept =>
    intro f hf
    have hnone : Draft.get? {} f = none := by cases f <;> rfl
    rw [Draft.get_fillFrom, hkept f hf, hnone, Option.getD_none]

theorem ObjectText.refused (h : ObjectText s.toList ms)
    (hdup : ¬((given ms).map (·.1)).Nodup) :
    ∃ f, 2 ≤ ((given ms).map (·.1)).count f ∧ ofJsonText s = .error (duplicate f) := by
  rw [List.nodup_iff_count_le_one, not_forall] at hdup
  obtain ⟨g, hg⟩ := hdup
  obtain ⟨f, htwice, herror⟩ :=
    Draft.foldlM_take_error (d := {}) h.takes (.inr (Nat.lt_of_not_le hg))
  refine ⟨f, ?_, by rw [ofJsonText_eq h, herror]; rfl⟩
  rcases htwice with ⟨hhas, -⟩ | hcount
  · cases f <;> cases hhas
  · exact hcount

/-- An object of members in any order, with unknown names among them and whatever values, is read
as the default settings with the fields that it gives. Neither the order nor the unknown members
matter. If a field is given twice, the object is refused for it. -/
theorem object_read_by_name (h : ObjectText s.toList ms) :
    (((given ms).map (·.1)).Nodup → ∃ r, ofJsonText s = .ok r ∧ Replaced (given ms) r ∧
      ∀ t ms', ObjectText t.toList ms' → (given ms').Perm (given ms) → ofJsonText t = .ok r) ∧
    (¬((given ms).map (·.1)).Nodup → ∃ f, 2 ≤ ((given ms).map (·.1)).count f ∧
      ofJsonText s = .error (duplicate f)) := by
  refine ⟨fun hnodup => ?_, h.refused⟩
  obtain ⟨r, hr, hreplaced⟩ := h.read hnodup
  refine ⟨r, hr, hreplaced, fun t ms' ht hperm => ?_⟩
  obtain ⟨r', hr', hreplaced'⟩ := ht.read ((hperm.map _).nodup_iff.mpr hnodup)
  rw [hr', hreplaced'.unique hreplaced hperm]

end Objects

/-- An unknown name comes before a known one. Then one name comes twice. -/
theorem object_read_by_name_amid_unknown :
    ofJsonText " \x7b\"a\": [\x7b\"\\ud800\":-1.5e3\x7d], \"n\\u0061me\": \"x\"\x7d" =
      .ok { name := "x" } ∧
    ∃ f, ofJsonText "\x7b\"name\":\"x\",\"name\":\"y\"\x7d" = .error (duplicate f) := by
  have hspace : Blank [' '] := by simp [Blank, isSpace]
  have hhalf : Hex4 ['d', '8', '0', '0'] 0xD800 :=
    .digits (w := 13) (x := 8) (y := 0) (z := 0) rfl rfl rfl rfl
  have hletter : Hex4 ['0', '0', '6', '1'] 0x61 :=
    .digits (w := 0) (x := 0) (y := 6) (z := 1) rfl rfl rfl rfl
  have hexponent : ExponentText ('e' :: [] ++ ['3']) :=
    .power (by decide) (by decide) (digits_decimal 3)
  have hnumber : MagnitudeText (['1'] ++ ['.', '5'] ++ ['e', '3']) :=
    .parts (digits_decimal 1) (by decide) (.point (digits_decimal 5)) hexponent
  have hinner : Formed none "\x7b\"\\ud800\":-1.5e3\x7d".toList :=
    .bracket (.name blank_nil (.code hhalf .nil) blank_nil)
      (.last blank_nil (.negative hnumber) blank_nil)
  have hunknown : MemberText "\"a\": [\x7b\"\\ud800\":-1.5e3\x7d]".toList none :=
    .unknown (stringText_escape ['a']) (by intro f; cases f <;> decide) blank_nil hspace
      (.bracket .item (.last blank_nil hinner blank_nil))
  have hkey : StringText (['n'] ++ (['\\', 'u', '0', '0', '6', '1'] ++ ['m', 'e']))
      (Field.key .name).toList :=
    .cons (.plain (by decide) (by decide) (by decide))
      (.cons (.code hletter rfl rfl) (stringText_escape ['m', 'e']))
  have hknown : MemberText "\"n\\u0061me\": \"x\"".toList (some (.name, .inl "x")) :=
    .known hkey blank_nil hspace (.text (stringText_escape ['x']))
  have hobject : ObjectText
      " \x7b\"a\": [\x7b\"\\ud800\":-1.5e3\x7d], \"n\\u0061me\": \"x\"\x7d".toList
      [none, some (.name, .inl "x")] :=
    .members hspace (.more blank_nil hunknown blank_nil (.last hspace hknown blank_nil)) blank_nil
  have htwice : ObjectText "\x7b\"name\":\"x\",\"name\":\"y\"\x7d".toList
      [some (.name, .inl "x"), some (.name, .inl "y")] :=
    .members blank_nil (.more blank_nil (memberText_name "x") blank_nil
      (.last blank_nil (memberText_name "y") blank_nil)) blank_nil
  obtain ⟨r, hr, hreplaced, -⟩ := (object_read_by_name hobject).1 (by decide)
  have hget : ∀ f, r.get f = get { name := "x" } f := by
    intro f
    cases f with
    | name => exact hreplaced.given .name (.inl "x") (mem_given.mpr (by simp))
    | _ => exact hreplaced.kept _ (by decide)
  obtain ⟨f, -, hf⟩ := (object_read_by_name htwice).2 (by decide)
  exact ⟨by rw [hr, eq_of_get hget], f, hf⟩

/-- The only member has half of a surrogate pair for its name. That is no field's name, but the
object is refused. -/
theorem unpaired_name_refused :
    Formed none "\x7b\"\\ud800\":1\x7d".toList ∧
      ofJsonText "\x7b\"\\ud800\":1\x7d" = .error .malformed := by
  have hhalf : Hex4 ['d', '8', '0', '0'] 0xD800 :=
    .digits (w := 13) (x := 8) (y := 0) (z := 0) rfl rfl rfl rfl
  have hone : MagnitudeText (['1'] ++ [] ++ []) :=
    .parts (digits_decimal 1) (by decide) .none .none
  constructor
  · exact .bracket (.name blank_nil (.code hhalf .nil) blank_nil)
      (.last blank_nil (.magnitude hone) blank_nil)
  · exact ofJsonText_error rfl (readString_error rfl)

theorem objectText_toJsonText (s : Settings) :
    ObjectText s.toJsonText.toList (Field.all.map fun f => some (f, s.get f)) := by
  have hname := memberText_name s.name
  have hidle := memberText_count s.idleTimeoutMs (f := .idleTimeout) (by decide)
  have hmax := memberText_count s.maxTimeoutMs (f := .maxTimeout) (by decide)
  have hworkers := memberText_count s.maxRequestWorkers (f := .maxRequestWorkers) (by decide)
  have htext := ObjectText.members blank_nil (.more blank_nil hname blank_nil <|
    .more blank_nil hidle blank_nil <| .more blank_nil hmax blank_nil <|
    .last blank_nil hworkers blank_nil) blank_nil
  simpa [toJsonText, Json.text, render, renderMembers, Json.ofNat, Field.all, get] using htext

/-- The compact text of settings is read back as the settings. -/
theorem json_read_back (s : Settings) : ofJsonText s.toJsonText = .ok s := by
  have hnames : (given (Field.all.map fun f => some (f, s.get f))).map (·.1) = Field.all := rfl
  obtain ⟨r, hr, hreplaced⟩ := (objectText_toJsonText s).read (by rw [hnames]; decide)
  have hget : ∀ f, r.get f = s.get f := by
    intro f
    apply hreplaced.given
    cases f <;> simp [mem_given, Field.all]
  rw [hr, eq_of_get hget]

end Coalesce.Settings
