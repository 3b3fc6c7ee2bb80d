import Coalesce.Proofs.JsonGrammar
/-! # The compact text tells the value

Two values have one text only if they are one value, whatever follows the two texts in an array or
an object. A string is read back up to its closing quote, a number up to its end, and the first
character tells the kind of every other value. -/
namespace Coalesce.Json
open Text

theorem renderString_inj {s s' : String} {rest rest' : List Char}
    (h : renderString s ++ rest = renderString s' ++ rest') : s = s' ∧ rest = rest' := by
  have hread : ∀ (s : String) (cs : List Char),
      readString (s.toList.flatMap escape ++ '"' :: cs) = .ok (s, cs) := by
    intro s cs
    rw [(stringText_escape s.toList).readString, String.ofList_toList]
  simp only [renderString, List.cons_append, List.append_assoc, List.nil_append,
    List.cons.injEq, true_and] at h
  have hsame := hread s rest
  rw [h, hread s' rest'] at hsame
  obtain ⟨hs, hrest⟩ := Prod.mk.inj (Except.ok.inj hsame)
  exact ⟨hs.symm, hrest.symm⟩

/-- The character that the text of a value begins with, a minus sign for any digit. -/
def lead : Json → Char
  | .null => 'n'
  | .bool value => if value then 't' else 'f'
  | .number _ => '-'
  | .string _ => '"'
  | .array _ => '['
  | .object _ => '{'

inductive SameKind : Json → Json → Prop
  | null : SameKind .null .null
  | bool (value : Bool) : SameKind (.bool value) (.bool value)
  | number (m n : JsonNumber) : SameKind (.number m) (.number n)
  | string (s t : String) : SameKind (.string s) (.string t)
  | array (xs ys : List Json) : SameKind (.array xs) (.array ys)
  | object (ms ns : List (String × Json)) : SameKind (.object ms) (.object ns)

section Values
variable {j k : Json} {cs rest rest' : List Char}

theorem SameKind.of_lead_eq (h : j.lead = k.lead) : SameKind j k := by
  rcases j with _ | (_ | _) | _ | _ | _ | _ <;> rcases k with _ | (_ | _) | _ | _ | _ | _ <;>
    first
    | constructor
    | simp [lead] at h

def leadOf (c : Char) : Char := if isDigit c then '-' else c

theorem exists_digit_of_readDigitRun {r : List Char × List Char} (h : readDigitRun cs = .ok r) :
    ∃ c ds, cs = c :: ds ∧ isDigit c = true := by
  cases cs with
  | nil => cases h
  | cons c ds =>
    refine ⟨c, ds, rfl, ?_⟩
    by_contra hc
    rw [readDigitRun, takeDigits, List.span_eq_takeWhile_dropWhile,
      List.takeWhile_cons_of_neg hc, List.dropWhile_cons_of_neg hc] at h
    cases h

theorem exists_digit_of_readMagnitude {negative : Bool} {r : NumberText × List Char}
    (h : readMagnitude negative cs = .ok r) : ∃ c ds, cs = c :: ds ∧ isDigit c = true := by
  have hwhole : ∃ r, readWhole cs = .ok r := by
    cases hw : readWhole cs with
    | error e => rw [readMagnitude, hw] at h; cases h
    | ok r => exact ⟨r, rfl⟩
  obtain ⟨r, hwhole⟩ := hwhole
  unfold readWhole at hwhole
  split at hwhole
  · exact ⟨_, _, rfl, rfl⟩
  · exact exists_digit_of_readDigitRun hwhole

theorem renderNumber_lead (n : JsonNumber) :
    ∃ c cs, renderNumber n = c :: cs ∧ leadOf c = '-' := by
  obtain ⟨t, hread, -⟩ := readNumberText_render n closes_nil
  rw [List.append_nil] at hread
  unfold readNumberText at hread
  split at hread
  · rename_i cs htext
    exact ⟨_, _, htext, rfl⟩
  · obtain ⟨c, ds, htext, hc⟩ := exists_digit_of_readMagnitude hread
    exact ⟨c, ds, htext, if_pos hc⟩

theorem render_lead (j : Json) : ∃ c cs, render j = c :: cs ∧ leadOf c = j.lead := by
  cases j with
  | null => exact ⟨_, _, by rw [render], rfl⟩
  | bool b => cases b <;> exact ⟨_, _, by rw [render], rfl⟩
  | number n =>
    rw [render]
    exact renderNumber_lead n
  | string s =>
    rw [render]
    exact ⟨'"', _, rfl, rfl⟩
  | array items =>
    rw [render]
    exact ⟨'[', _, rfl, rfl⟩
  | object members =>
    rw [render]
    exact ⟨'{', _, rfl, rfl⟩

theorem SameKind.of_render_eq (h : render j ++ rest = render k ++ rest') : SameKind j k := by
  obtain ⟨c, cs, hj, hc⟩ := render_lead j
  obtain ⟨d, ds, hk, hd⟩ := render_lead k
  rw [hj, hk, List.cons_append, List.cons_append, List.cons.injEq] at h
  exact of_lead_eq (by rw [← hc, ← hd, h.1])

theorem render_ne_bracket (j : Json) : render j ++ rest ≠ ']' :: rest' := by
  obtain ⟨c, cs, hj, hc⟩ := render_lead j
  rw [hj, List.cons_append]
  intro h
  have hlead : j.lead = ']' := by
    rw [← hc, (List.cons.inj h).1]
    rfl
  cases j with
  | bool b => cases b <;> cases hlead
  | _ => cases hlead

end Values

def following {α : Type} (close : Char) (text : List α → List Char) (rest : List Char) :
    List α → List Char
  | [] => close :: rest
  | more => ',' :: (text more ++ close :: rest)

section Lists
variable {α : Type} {close : Char} {text : List α → List Char} {rest rest' : List Char}

theorem closes_following (h : close = ']' ∨ close = '}') (more : List α) :
    Closes (following close text rest more) := by
  cases more with
  | nil => rintro c ⟨⟩; exact .inr h
  | cons => rintro c ⟨⟩; exact .inl rfl

theorem following_inj {xs ys : List α} (hclose : close = ']' ∨ close = '}')
    (hmore : text xs ++ close :: rest = text ys ++ close :: rest' → xs = ys ∧ rest = rest')
    (h : following close text rest xs = following close text rest' ys) :
    xs = ys ∧ rest = rest' := by
  have hcomma : close ≠ ',' := by rcases hclose with rfl | rfl <;> decide
  cases xs with
  | nil =>
    cases ys with
    | nil => exact ⟨rfl, (List.cons.inj h).2⟩
    | cons => exact absurd (List.cons.inj h).1 hcomma
  | cons =>
    cases ys with
    | nil => exact absurd (List.cons.inj h).1 hcomma.symm
    | cons => exact hmore (List.cons.inj h).2

theorem renderItems_cons (x : Json) (xs : List Json) :
    renderItems (x :: xs) ++ ']' :: rest = render x ++ following ']' renderItems rest xs := by
  cases xs with
  | nil => simp [renderItems, following]
  | cons => simp [renderItems, following]

theorem renderMembers_cons (name : String) (value : Json) (ms : List (String × Json)) :
    renderMembers ((name, value) :: ms) ++ '}' :: rest =
      renderString name ++ ':' :: (render value ++ following '}' renderMembers rest ms) := by
  cases ms with
  | nil => simp [renderMembers, following]
  | cons => simp [renderMembers, following]

end Lists

mutual

/-- One text stands for one value, and ends where that value ends. -/
theorem render_inj (j k : Json) {rest rest' : List Char} (h : Closes rest) (h' : Closes rest')
    (heq : render j ++ rest = render k ++ rest') : j = k ∧ rest = rest' := by
  cases SameKind.of_render_eq heq with
  | null => exact ⟨rfl, List.append_cancel_left heq⟩
  | bool b => exact ⟨rfl, List.append_cancel_left heq⟩
  | number m n =>
    rw [render, render] at heq
    obtain ⟨rfl, hrest⟩ := renderNumber_inj h h' heq
    exact ⟨rfl, hrest⟩
  | string s t =>
    rw [render, render] at heq
    obtain ⟨rfl, hrest⟩ := renderString_inj heq
    exact ⟨rfl, hrest⟩
  | array xs ys =>
    simp only [render, List.cons_append, List.append_assoc, List.nil_append, List.cons.injEq,
      true_and] at heq
    obtain ⟨rfl, hrest⟩ := renderItems_inj xs ys heq
    exact ⟨rfl, hrest⟩
  | object ms ns =>
    simp only [render, List.cons_append, List.append_assoc, List.nil_append, List.cons.injEq,
      true_and] at heq
    obtain ⟨rfl, hrest⟩ := renderMembers_inj ms ns heq
    exact ⟨rfl, hrest⟩

theorem renderItems_inj (xs ys : List Json) {rest rest' : List Char}
    (heq : renderItems xs ++ ']' :: rest = renderItems ys ++ ']' :: rest') :
    xs = ys ∧ rest = rest' := by
  cases xs with
  | nil =>
    cases ys with
    | nil => exact ⟨rfl, (List.cons.inj heq).2⟩
    | cons y ys =>
      rw [renderItems_cons] at heq
      exact absurd heq.symm (render_ne_bracket y)
  | cons x xs =>
    cases ys with
    | nil =>
      rw [renderItems_cons] at heq
      exact absurd heq (render_ne_bracket x)
    | cons y ys =>
      rw [renderItems_cons, renderItems_cons] at heq
      obtain ⟨rfl, hmore⟩ := render_inj x y (closes_following (.inl rfl) xs)
        (closes_following (.inl rfl) ys) heq
      obtain ⟨rfl, hrest⟩ := following_inj (.inl rfl) (renderItems_inj xs ys) hmore
      exact ⟨rfl, hrest⟩

theorem renderMembers_inj (ms ns : List (String × Json)) {rest rest' : List Char}
    (heq : renderMembers ms ++ '}' :: rest = renderMembers ns ++ '}' :: rest') :
    ms = ns ∧ rest = rest' := by
  cases ms with
  | nil =>
    cases ns with
    | nil => exact ⟨rfl, (List.cons.inj heq).2⟩
    | cons n ns =>
      rw [renderMembers_cons] at heq
      cases (List.cons.inj heq).1
  | cons m ms =>
    cases ns with
    | nil =>
      rw [renderMembers_cons] at heq
      cases (List.cons.inj heq).1
    | cons n ns =>
      obtain ⟨name, value⟩ := m
      obtain ⟨name', value'⟩ := n
      rw [renderMembers_cons, renderMembers_cons] at heq
      obtain ⟨rfl, hafter⟩ := renderString_inj heq
      obtain ⟨rfl, hmore⟩ := render_inj value value' (closes_following (.inr rfl) ms)
        (closes_following (.inr rfl) ns) (List.cons.inj hafter).2
      obtain ⟨rfl, hrest⟩ := following_inj (.inr rfl) (renderMembers_inj ms ns) hmore
      exact ⟨rfl, hrest⟩

end

theorem text_inj {j k : Json} : j.text = k.text ↔ j = k := by
  constructor
  · intro h
    have hchars : render j ++ [] = render k ++ [] := by
      rw [String.ofList_injective h]
    exact (render_inj j k closes_nil closes_nil hchars).1
  · exact fun h => by rw [h]

end Coalesce.Json
