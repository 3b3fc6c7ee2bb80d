import Coalesce.Proofs.JsonGrammar

/-! # A value is passed over to its end

Whatever a legal text of a value holds, and however deep, passing over it ends just behind it, with
the brackets open that were open before. Every step takes a character, so there are enough steps. -/
namespace Coalesce.Json

/-- Passing on from a place leads to another place, in no more steps than characters between. -/
def Leads (place : SkipAt) (stack : List Bracket) (cs : List Char) (place' : SkipAt)
    (stack' : List Bracket) (rest : List Char) : Prop :=
  ∃ k, k + rest.length ≤ cs.length ∧
    ∀ fuel, skipOn (fuel + k) place stack cs = skipOn fuel place' stack' rest

/-- A value is passed over where no number can go on, the rest of a bracket anywhere. -/
def PassedOver : Option Bracket → List Char → Prop
  | none, cs => ∀ stack rest, Ends rest → Leads .before stack (cs ++ rest) .behind stack rest
  | some b, cs => ∀ stack rest, Leads .before (b :: stack) (cs ++ rest) .behind stack rest

section Leads
variable {place place' : SkipAt} {stack stack' : List Bracket} {cs ds rest : List Char}

theorem Leads.trans {place'' : SkipAt} {stack'' : List Bracket} {more : List Char}
    (h : Leads place stack cs place' stack' rest) (h' : Leads place' stack' rest place'' stack'' more) :
    Leads place stack cs place'' stack'' more := by
  obtain ⟨k, hk, hrun⟩ := h
  obtain ⟨k', hk', hrun'⟩ := h'
  refine ⟨k' + k, by omega, fun fuel => ?_⟩
  rw [← Nat.add_assoc, hrun, hrun']

theorem leads_of_before (h : stepBefore stack cs = .ok (.go place' stack' rest))
    (hlt : rest.length < cs.length) : Leads .before stack cs place' stack' rest := by
  refine ⟨1, by omega, fun fuel => ?_⟩
  simp only [skipOn, h, bind, Except.bind]

theorem leads_of_behind (h : stepBehind stack cs = .ok (.go place' stack' rest))
    (hlt : rest.length < cs.length) : Leads .behind stack cs place' stack' rest := by
  refine ⟨1, by omega, fun fuel => ?_⟩
  simp only [skipOn, h, bind, Except.bind]

/-- White space before a value makes no difference. -/
theorem skipOn_before_congr (h : skipSpace cs = skipSpace ds) (fuel : Nat) :
    skipOn fuel .before stack cs = skipOn fuel .before stack ds := by
  cases fuel with
  | zero => rfl
  | succ fuel => simp only [skipOn, stepBefore, h]

theorem Leads.blank {ws : List Char} (h : Leads .before stack cs place' stack' rest)
    (hws : Blank ws) : Leads .before stack (ws ++ cs) place' stack' rest := by
  obtain ⟨k, hk, hrun⟩ := h
  refine ⟨k, ?_, fun fuel => ?_⟩
  · rw [List.length_append]
    omega
  · rw [skipOn_before_congr (skipSpace_append hws cs), hrun]

/-- A bracket is opened, and the white space behind it may be passed over at once. -/
theorem Leads.opened {inner : List Char} {outer : List Bracket}
    (hstep : stepBefore outer cs = .ok (.go .before stack inner))
    (hinner : skipSpace inner = skipSpace ds) (hlt : ds.length < cs.length)
    (h : Leads .before stack ds place' stack' rest) :
    Leads .before outer cs place' stack' rest := by
  obtain ⟨k, hk, hrun⟩ := h
  refine ⟨k + 1, by omega, fun fuel => ?_⟩
  rw [← hrun, ← skipOn_before_congr hinner, ← Nat.add_assoc, skipOn, hstep]
  rfl

end Leads

section Steps
variable {b : Bracket} {stack : List Bracket} {ws cs ds lead rest : List Char} {c : Char}

theorem isSpace_closing (b : Bracket) : isSpace b.closing = false := by
  cases b <;> rfl

theorem stepBefore_word
    (h : cs ∈ [['n', 'u', 'l', 'l'], ['t', 'r', 'u', 'e'], ['f', 'a', 'l', 's', 'e']]) :
    stepBefore stack (cs ++ rest) = .ok (.go .behind stack rest) := by
  simp only [List.mem_cons, List.not_mem_nil, or_false] at h
  rcases h with rfl | rfl | rfl <;> rfl

theorem stepBefore_string (h : QuotedText cs) :
    stepBefore stack ('"' :: (cs ++ '"' :: rest)) = .ok (.go .behind stack rest) := by
  have hskip : stepBefore stack ('"' :: (cs ++ '"' :: rest)) =
      (skipString (cs ++ '"' :: rest)).map (.go .behind stack) := rfl
  rw [hskip, h.skipString]
  rfl

theorem stepBefore_digit (h : isDigit c = true) :
    stepBefore stack (c :: cs) = (skipMagnitude (c :: cs)).map (.go .behind stack) := by
  have hne : c ≠ 'n' ∧ c ≠ 't' ∧ c ≠ 'f' ∧ c ≠ '"' ∧ c ≠ '[' ∧ c ≠ '\x7b' ∧ c ≠ '-' := by
    refine ⟨?_, ?_, ?_, ?_, ?_, ?_, ?_⟩ <;> (rintro rfl; cases h)
  obtain ⟨hn, ht, hf, hquote, hlist, hobject, hminus⟩ := hne
  rw [stepBefore, skipSpace_cons (isSpace_of_isDigit h)]
  simp only [h, if_true]

theorem stepBefore_magnitude (h : MagnitudeText cs) (hrest : Ends rest) :
    stepBefore stack (cs ++ rest) = .ok (.go .behind stack rest) := by
  have hskip := h.skipMagnitude hrest
  obtain ⟨c, ds, rfl, hdigit⟩ := h.head
  rw [List.cons_append] at hskip ⊢
  rw [stepBefore_digit hdigit, hskip]
  rfl

theorem stepBefore_negative (h : MagnitudeText cs) (hrest : Ends rest) :
    stepBefore stack ('-' :: (cs ++ rest)) = .ok (.go .behind stack rest) := by
  have hskip : stepBefore stack ('-' :: (cs ++ rest)) =
      (skipMagnitude (cs ++ rest)).map (.go .behind stack) := rfl
  rw [hskip, h.skipMagnitude hrest]
  rfl

theorem stepBefore_opening (b : Bracket) :
    stepBefore stack (b.opening :: cs) = stepOpen b stack cs := by
  cases b <;> rfl

theorem stepOpen_empty (h : Blank ws) :
    stepOpen b stack (ws ++ b.closing :: rest) = .ok (.go .behind stack rest) := by
  rw [stepOpen, skipSpace_blank h (isSpace_closing b)]
  exact if_pos rfl

/-- Behind the opening bracket there is a name, or a value right away. -/
theorem enter_lead (h : LeadText b lead) (cs : List Char) : enter b (lead ++ cs) = .ok cs := by
  cases h with
  | item => rfl
  | @name ws ns ws' hws hns hws' =>
    have hcolon : skipSpace (ws' ++ ':' :: cs) = ':' :: cs := skipSpace_blank hws' rfl cs
    simp only [List.append_assoc, List.cons_append, List.nil_append, enter, skipName]
    rw [skipSpace_blank hws rfl]
    simp only [hns.skipString, bind, Except.bind, hcolon]

theorem stepOpen_lead (h : LeadText b lead) (hvalue : skipSpace cs = c :: ds) (hc : c ≠ ']')
    (stack : List Bracket) :
    ∃ inner, stepOpen b stack (lead ++ cs) = .ok (.go .before (b :: stack) inner) ∧
      skipSpace inner = skipSpace cs := by
  cases h with
  | item =>
    refine ⟨skipSpace cs, ?_, List.dropWhile_idempotent _ cs⟩
    rw [List.nil_append, stepOpen, hvalue]
    exact if_neg hc
  | @name ws ns ws' hws hns hws' =>
    have henter := enter_lead (.name blank_nil hns hws') cs
    refine ⟨cs, ?_, rfl⟩
    simp only [List.append_assoc, List.cons_append, List.nil_append] at henter ⊢
    rw [stepOpen, skipSpace_blank hws rfl]
    simp only [henter]
    rfl

theorem stepBehind_closing (h : Blank ws) :
    stepBehind (b :: stack) (ws ++ b.closing :: rest) = .ok (.go .behind stack rest) := by
  rw [stepBehind, skipSpace_blank h (isSpace_closing b)]
  cases b <;> rfl

theorem stepBehind_comma (h : Blank ws) (hlead : LeadText b lead) (cs : List Char) :
    stepBehind (b :: stack) (ws ++ ',' :: (lead ++ cs)) = .ok (.go .before (b :: stack) cs) := by
  rw [stepBehind, skipSpace_blank h rfl]
  simp only [enter_lead hlead]
  rfl

end Steps

section Values
variable {part : Option Bracket} {b : Bracket} {ws cs ws' lead ds rest : List Char}

/-- No value begins with white space or with a closing bracket. -/
theorem Formed.head (h : Formed none cs) :
    ∃ c ds, cs = c :: ds ∧ isSpace c = false ∧ c ≠ ']' := by
  cases h with
  | word h =>
    simp only [List.mem_cons, List.not_mem_nil, or_false] at h
    rcases h with rfl | rfl | rfl <;> exact ⟨_, _, rfl, rfl, by decide⟩
  | string => exact ⟨'"', _, rfl, rfl, by decide⟩
  | magnitude h =>
    obtain ⟨c, ds, rfl, hdigit⟩ := h.head
    refine ⟨c, ds, rfl, isSpace_of_isDigit hdigit, ?_⟩
    rintro rfl
    cases hdigit
  | negative => exact ⟨'-', _, rfl, rfl, by decide⟩
  | empty b => exact ⟨b.opening, _, rfl, by cases b <;> rfl, by cases b <;> decide⟩
  | @bracket b => exact ⟨b.opening, _, rfl, by cases b <;> rfl, by cases b <;> decide⟩

theorem Formed.first (h : Formed (some b) cs) (rest : List Char) :
    ∃ c ds, skipSpace (cs ++ rest) = c :: ds ∧ c ≠ ']' := by
  have hfirst : ∃ ws v more, cs ++ rest = ws ++ (v ++ more) ∧ Blank ws ∧ Formed none v := by
    cases h with
    | last hws hv => exact ⟨_, _, _, by simp only [List.append_assoc]; rfl, hws, hv⟩
    | more hws hv => exact ⟨_, _, _, by simp only [List.append_assoc]; rfl, hws, hv⟩
  obtain ⟨ws, v, more, heq, hws, hv⟩ := hfirst
  obtain ⟨c, ds, rfl, hspace, hc⟩ := hv.head
  exact ⟨c, ds ++ more, by rw [heq, List.cons_append, skipSpace_blank hws hspace], hc⟩

/-- A value of one token is passed over in one step. -/
theorem Formed.leads {stack : List Bracket} (h : Formed none cs)
    (hstep : stepBefore stack (cs ++ rest) = .ok (.go .behind stack rest)) :
    Leads .before stack (cs ++ rest) .behind stack rest := by
  obtain ⟨c, ds, rfl, -, -⟩ := h.head
  apply leads_of_before hstep
  simp only [List.length_append, List.length_cons]
  omega

theorem PassedOver.bracket (hlead : LeadText b lead) (hcs : Formed (some b) cs)
    (h : PassedOver (some b) cs) : PassedOver none (b.opening :: lead ++ cs) := by
  intro stack rest _
  obtain ⟨c, ds, hvalue, hc⟩ := hcs.first rest
  obtain ⟨inner, hopen, hinner⟩ := stepOpen_lead hlead hvalue hc stack
  rw [← stepBefore_opening] at hopen
  simp only [List.cons_append, List.append_assoc]
  apply Leads.opened hopen hinner _ (h stack rest)
  simp only [List.length_append, List.length_cons]
  omega

theorem PassedOver.last (hws : Blank ws) (h : PassedOver none cs) (hws' : Blank ws') :
    PassedOver (some b) (ws ++ cs ++ ws' ++ [b.closing]) := by
  intro stack rest
  simp only [List.append_assoc, List.singleton_append]
  apply Leads.trans
  · exact (h (b :: stack) _ (ends_append hws' (ends_closing b rest))).blank hws
  · apply leads_of_behind (stepBehind_closing hws')
    simp only [List.length_append, List.length_cons]
    omega

theorem PassedOver.more (hws : Blank ws) (h : PassedOver none cs) (hws' : Blank ws')
    (hlead : LeadText b lead) (hds : PassedOver (some b) ds) :
    PassedOver (some b) (ws ++ cs ++ ws' ++ ',' :: lead ++ ds) := by
  intro stack rest
  simp only [List.append_assoc, List.cons_append]
  apply Leads.trans
  · exact (h (b :: stack) _ (ends_append hws' (ends_comma _))).blank hws
  · apply Leads.trans (leads_of_behind (stepBehind_comma hws' hlead _) ?_) (hds stack rest)
    simp only [List.length_append, List.length_cons]
    omega

theorem Formed.passedOver (h : Formed part cs) : PassedOver part cs := by
  induction h with
  | word h => exact fun _ _ _ => (Formed.word h).leads (stepBefore_word h)
  | string h =>
    intro stack rest _
    apply (Formed.string h).leads
    simpa using stepBefore_string h
  | magnitude h => exact fun _ _ hrest => (Formed.magnitude h).leads (stepBefore_magnitude h hrest)
  | negative h => exact fun _ _ hrest => (Formed.negative h).leads (stepBefore_negative h hrest)
  | empty b h =>
    intro stack rest _
    apply (Formed.empty b h).leads
    simpa using (stepBefore_opening b).trans (stepOpen_empty h)
  | bracket hlead hcs ih => exact .bracket hlead hcs ih
  | last hws _ hws' ih => exact .last hws ih hws'
  | more hws _ hws' hlead _ ih ih' => exact .more hws ih hws' hlead ih'

/-- A value is passed over, whatever it holds and however deep it is. -/
theorem skipValue_formed (h : Formed none cs) (hws : Blank ws) (hrest : Ends rest) :
    skipValue (ws ++ (cs ++ rest)) = .ok rest := by
  obtain ⟨k, hk, hrun⟩ := (h.passedOver [] rest hrest).blank hws
  obtain ⟨fuel, hfuel⟩ : ∃ fuel, (ws ++ (cs ++ rest)).length + 1 = fuel + 1 + k :=
    ⟨(ws ++ (cs ++ rest)).length - k, by omega⟩
  rw [skipValue, hfuel, hrun]
  rfl

end Values

end Coalesce.Json
