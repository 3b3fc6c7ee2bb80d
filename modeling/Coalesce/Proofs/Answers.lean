import Coalesce.Proofs.Accounts

/-! # What callers are told is true

A caller that looks gets what is in its slot, and a cancellation only where that is still empty.
What is in a slot was put there at the end of the batch's execution, or when the batch was given up
after a cancellation; a slot is released only with a task that is dropped. -/
namespace Coalesce
variable {α β : Type}

/-- Filling slots empties none, and releases none. -/
theorem slotAt?_of_fillAll {results : List (Ticket × Except Error β)} {calls : List (Call β)}
    {s : Ticket} {slot : Slot β} (h : slotAt? (fillAll results calls) s = some slot) :
    slotAt? calls s = some slot ∨ ∃ result, slot = .filled result := by
  induction results generalizing calls with
  | nil => exact .inl h
  | cons p results ih =>
    rw [fillAll_cons] at h
    rcases ih h with h | hfilled
    · by_cases hs : p.1 = s
      · subst hs
        rw [slotAt?, List.getElem?_modify_eq] at h
        obtain ⟨call, hc, hslot⟩ := Option.map_eq_some_iff.mp h
        obtain ⟨old, -, rfl⟩ := Option.map_eq_some_iff.mp hc
        exact .inr ⟨p.2, hslot.symm⟩
      · rw [slotAt?, List.getElem?_modify_ne _ _ hs] at h
        exact .inl h
    · exact .inr hfilled

def Event.isAnswer : Event α β → Bool
  | .rejected _ _ => true
  | .returned _ _ => true
  | _ => false

namespace Engine
variable {e e' : Engine α β} {events new : List (Event α β)} {actions : List (Action α β)}
  {a : Action α β} {b : Batch α} {s : Ticket} {result : Except Error β} {o : Options}

theorem Asked.of_released (h : Asked e b e' new) (hr : slotAt? e'.calls s = some .released) :
    slotAt? e.calls s = some .released := by
  cases h with
  | abandoned =>
    rw [settleAll_eq] at hr
    rcases slotAt?_of_fillAll hr with hr | ⟨_, heq⟩
    · exact hr
    · cases heq
  | waiting => exact hr
  | granted => exact hr

/-- A slot is released only with the task of its batch. -/
theorem step_released (hs : Step e a e' new) (hb : Sound e events)
    (hr : slotAt? e'.calls s = some .released) :
    slotAt? e.calls s = some .released ∨
      ∃ b ∈ taken (events ++ new), s ∈ b.slots ∧ a = .kill b.id := by
  have hheld : ∀ t ∈ e.tasks, ∀ b, t.stage.batch? = some b →
      b ∈ taken (events ++ new) ∧ b.id = t.id := by
    intro t ht b hbatch
    obtain ⟨hflushed, hi⟩ := hb.holding t ht b hbatch
    exact ⟨taken_of_flushed (flushed_mono hflushed new), hi⟩
  cases hs with
  | aside ha =>
    rw [ha.slotAt?] at hr
    exact .inl hr
  | joined =>
    rcases slotAt?_concat hr with hr | ⟨-, heq⟩
    · exact .inl hr
    · cases heq
  | opened =>
    rcases slotAt?_concat hr with hr | ⟨-, heq⟩
    · exact .inl hr
    · cases heq
  | resumed => exact .inl ((askForWorker_asked ..).of_released hr)
  | finished =>
    rw [finish_eq, settleAll_eq] at hr
    rcases slotAt?_of_fillAll hr with hr | ⟨_, heq⟩
    · exact .inl hr
    · cases heq
  | @orphaned t b _ _ _ hp =>
    obtain ⟨-, hi⟩ := pendingAs?_eq_some hp
    refine (slotAt?_of_releaseAll hr).imp_right fun ⟨hsb, _⟩ => ⟨b, ?_, hsb, by rw [hi]⟩
    rw [taken_append]
    exact List.mem_append_right _ List.mem_cons_self
  | @dropped t b ht hq =>
    obtain ⟨htaken, hi⟩ := hheld t ht b (Stage.batch?_of_queued hq)
    exact (slotAt?_of_releaseAll hr).imp_right fun ⟨hsb, _⟩ => ⟨b, htaken, hsb, by rw [hi]⟩
  | @aborted t b ht hrun =>
    obtain ⟨htaken, hi⟩ := hheld t ht b (Stage.batch?_of_running hrun)
    exact (slotAt?_of_releaseAll hr).imp_right fun ⟨hsb, _⟩ => ⟨b, htaken, hsb, by rw [hi]⟩
  | _ => exact .inl hr

theorem cancelled_of_asked {c : Batch α} (h : Asked e c e' new) (hb : b ∈ abandoned new) :
    e.cancelled = true := by
  cases h with
  | abandoned hp =>
    have hanswer := e.pool.ask_answered c.id e.cancelled
    rw [hp] at hanswer
    exact hanswer.cancelled_eq.1
  | waiting => cases hb
  | granted => cases hb

theorem step_abandoned (hs : Step e a e' new) (hb : b ∈ abandoned new) : e.cancelled = true := by
  cases hs with
  | aside ha =>
    rw [show abandoned new = [] from overlooks_abandoned.aside ha] at hb
    cases hb
  | resumed => exact cancelled_of_asked (askForWorker_asked ..) hb
  | finished =>
    rw [finish_eq, show abandoned _ = [] from overlooks_abandoned.ending ..] at hb
    cases hb
  | _ => cases hb

namespace Reaches

theorem released (h : Reaches o actions e events) (hr : slotAt? e.calls s = some .released) :
    ∃ b ∈ taken events, s ∈ b.slots ∧ .kill b.id ∈ actions := by
  induction h with
  | built hb =>
    obtain ⟨-, rfl⟩ := build_eq_ok hb
    simp [fresh, slotAt?] at hr
  | step hreach hs ih =>
    rcases step_released (step_of_step? hs) hreach.sound hr with hr | ⟨b, hb, hsb, ha⟩
    · obtain ⟨b, hb, hsb, hk⟩ := ih hr
      refine ⟨b, ?_, hsb, List.mem_append_left _ hk⟩
      rw [taken_append]
      exact List.mem_append_left _ hb
    · exact ⟨b, hb, hsb, List.mem_append_right _ (List.mem_singleton.mpr ha.symm)⟩

theorem cancelled_of_abandoned (h : Reaches o actions e events) (hb : b ∈ abandoned events) :
    e.cancelled = true := by
  induction h with
  | built => cases hb
  | step hreach hs ih =>
    have hstep := step_of_step? hs
    rw [abandoned_append] at hb
    rcases List.mem_append.mp hb with hb | hb
    · exact (step_cancelled hstep).mpr (.inl (ih hb))
    · exact (step_cancelled hstep).mpr (.inl (step_abandoned hstep hb))

end Reaches

/-- The executor's own entry for a request is the one at the request's position, in a list of as
many entries as the batch has requests. -/
def OwnEntry (actions : List (Action α β)) (events : List (Event α β)) (s : Ticket)
    (result : Except Error β) : Prop :=
  ∃ b ∈ started events, ∃ (i : Nat) (items : List (Except Error β)), b.slots[i]? = some s ∧
    .finish b.id (.results items) ∈ actions ∧ items.length = b.size ∧ items[i]? = some result

inductive Ground (o : Options) (actions : List (Action α β)) (e : Engine α β)
    (events : List (Event α β)) (s : Ticket) : Except Error β → Prop where
  | entry {result : Except Error β} : OwnEntry actions events s result →
      Ground o actions e events s result
  | mismatched {b : Batch α} {items : List (Except Error β)} : b ∈ started events → s ∈ b.slots →
      .finish b.id (.results items) ∈ actions → items.length ≠ b.size →
      Ground o actions e events s (.error (.resultCountMismatch o.name b.size items.length))
  | panicked {b : Batch α} {payload : Payload} : b ∈ started events → s ∈ b.slots →
      .finish b.id (.panic payload) ∈ actions →
      Ground o actions e events s (.error (.executorPanicked o.name payload.message))
  | callerCancelled {call : Call β} : e.calls[s]? = some call → call.slot = .empty →
      call.token ∈ e.cancelledTokens → Ground o actions e events s (.error (.cancelled .caller))
  | engineCancelled : e.cancelled = true →
      Ground o actions e events s (.error (.cancelled .engine))
  | dropped {b : Batch α} : b ∈ taken events → s ∈ b.slots → .kill b.id ∈ actions →
      Ground o actions e events s (.error (droppedError o.name))

theorem Reaches.ground_of_finish (h : Reaches o actions e events) (hb : b ∈ flushed events)
    {outcome : Outcome β} (hf : .finish b.id outcome ∈ actions) {i : Nat}
    (hi : b.slots[i]? = some s)
    (hshare : (outcome.shares o.name b.slots.length)[i]? = some result) :
    Ground o actions e events s result := by
  have hstarted : b ∈ started events := (h.slots_of_finish hb hf).1
  have hs : s ∈ b.slots := List.mem_of_getElem? hi
  have hlen : b.slots.length = b.size :=
    (h.sound.shape b (List.mem_append_left _ (taken_of_flushed hb))).2
  rw [hlen] at hshare
  cases outcome with
  | results items =>
    by_cases hsize : items.length = b.size
    · rw [Outcome.shares, if_pos hsize] at hshare
      exact .entry ⟨b, hstarted, i, items, hi, hf, hsize, hshare⟩
    · rw [Outcome.shares, if_neg hsize] at hshare
      rw [List.eq_of_mem_replicate (List.mem_of_getElem? hshare)]
      exact .mismatched hstarted hs hf hsize
  | panic payload =>
    rw [Outcome.shares] at hshare
    rw [List.eq_of_mem_replicate (List.mem_of_getElem? hshare)]
    exact .panicked hstarted hs hf

/-- What is in a slot is there on a ground. -/
theorem Reaches.ground_of_filled (h : Reaches o actions e events)
    (hf : slotAt? e.calls s = some (.filled result)) : Ground o actions e events s result := by
  obtain ⟨b, hb, hs, hconcluded⟩ := h.fared.whole _ (h.accounted.filled s result hf)
  rcases hconcluded with ⟨outcome, hfinish⟩ | habandoned
  · obtain ⟨i, hlt, hi⟩ := List.mem_iff_getElem.mp hs
    have hi' : b.slots[i]? = some s := List.getElem?_eq_some_iff.mpr ⟨hlt, hi⟩
    have hlt' : i < (outcome.shares o.name b.slots.length).length := by simpa using hlt
    have hshare := List.getElem?_eq_getElem hlt'
    have hp : (s, (outcome.shares o.name b.slots.length)[i]) ∈
        b.slots.zip (outcome.shares o.name b.slots.length) :=
      List.mem_of_getElem? (List.getElem?_zip_eq_some.mpr ⟨hi', hshare⟩)
    have hsame := hf.symm.trans ((h.slots_of_finish hb hfinish).2 _ hp)
    have hresult : result = (outcome.shares o.name b.slots.length)[i] := by simpa using hsame
    exact h.ground_of_finish hb hfinish hi' (hresult ▸ hshare)
  · have hrefusal := h.slotAt?_of_settled (h.fared.refused b habandoned (List.mem_map_of_mem hs))
    have hsame := hf.symm.trans hrefusal
    have hresult : result = .error (.cancelled .engine) := by simpa using hsame
    rw [hresult]
    exact .engineCancelled (h.cancelled_of_abandoned habandoned)

theorem Reaches.ground_of_answer (h : Reaches o actions e events) {call : Call β}
    (hc : e.calls[s]? = some call) (ha : e.answer? call = some result) :
    Ground o actions e events s result := by
  have hslot : slotAt? e.calls s = some call.slot := by rw [slotAt?, hc, Option.map_some]
  have hname : e.name = o.name := h.settings.name
  cases hcontent : call.slot with
  | filled content =>
    have hresult : content = result := by simpa [answer?, hcontent] using ha
    rw [hcontent, hresult] at hslot
    exact h.ground_of_filled hslot
  | released =>
    have hresult : .error (droppedError e.name) = result := by simpa [answer?, hcontent] using ha
    rw [hcontent] at hslot
    obtain ⟨b, hb, hs, hk⟩ := h.released hslot
    rw [← hresult, hname]
    exact .dropped hb hs hk
  | empty =>
    by_cases htoken : call.token ∈ e.cancelledTokens
    · have hresult : .error (.cancelled .caller) = result := by
        simpa [answer?, hcontent, htoken] using ha
      rw [← hresult]
      exact .callerCancelled hc hcontent htoken
    · have hresult : e.cancelled = true ∧ .error (.cancelled .engine) = result := by
        simpa [answer?, hcontent, htoken] using ha
      rw [← hresult.2]
      exact .engineCancelled hresult.1

theorem isAnswer_settlements {results : List (Ticket × Except Error β)} {calls : List (Call β)}
    {event : Event α β} (h : event ∈ settlements results calls) : event.isAnswer = false := by
  obtain ⟨p, -, hp⟩ := List.mem_filterMap.mp h
  obtain ⟨w, -, rfl⟩ := Option.map_eq_some_iff.mp hp
  rfl

theorem isAnswer_notes {outcome : Outcome β} {event : Event α β} (h : event ∈ outcome.notes b) :
    event.isAnswer = false := by
  cases outcome with
  | results items =>
    by_cases hlen : items.length = b.slots.length
    · simp [Outcome.notes, hlen] at h
    · obtain rfl : event = .mismatched b items.length := by simpa [Outcome.notes, hlen] using h
      rfl
  | panic payload =>
    obtain rfl : event = .panicked b payload.message := by simpa [Outcome.notes] using h
    rfl

theorem Asked.isAnswer (h : Asked e b e' new) {event : Event α β} (he : event ∈ new) :
    event.isAnswer = false := by
  cases h with
  | abandoned =>
    rcases List.mem_cons.mp he with rfl | he
    · rfl
    · exact isAnswer_settlements he
  | waiting => cases he
  | granted =>
    rw [List.mem_singleton.mp he]
    rfl

/-- Callers are told something only where no batch, task or worker is touched. -/
theorem aside_of_isAnswer (hs : Step e a e' new) {event : Event α β} (he : event ∈ new)
    (hanswer : event.isAnswer = true) : Aside e a e' new := by
  have hsome : event.isAnswer ≠ false := by simp [hanswer]
  cases hs with
  | aside ha => exact ha
  | resumed => exact absurd ((askForWorker_asked ..).isAnswer he) hsome
  | finished =>
    rw [finish_eq] at he
    rcases List.mem_append.mp he with he | he
    · exact absurd (isAnswer_notes he) hsome
    · exact absurd (isAnswer_settlements he) hsome
  | joined =>
    rw [List.mem_singleton.mp he] at hanswer
    cases hanswer
  | opened =>
    rcases List.mem_cons.mp he with rfl | he
    · cases hanswer
    · rw [List.mem_singleton.mp he] at hanswer
      cases hanswer
  | flushed =>
    rw [List.mem_singleton.mp he] at hanswer
    cases hanswer
  | orphaned =>
    rw [List.mem_singleton.mp he] at hanswer
    cases hanswer
  | _ => cases he

/-- A caller is told what it finds when it looks. -/
theorem step_returned (hs : Step e a e' new) (hr : .returned s result ∈ new) :
    ∃ call, e.calls[s]? = some call ∧ e.answer? call = some result := by
  cases aside_of_isAnswer hs hr rfl with
  | answered hc _ hanswer =>
    obtain ⟨rfl, rfl⟩ : s = _ ∧ result = _ := by simpa using hr
    exact ⟨_, hc, hanswer⟩
  | _ => simp at hr

theorem step_rejected (hs : Step e a e' new) {key : Key} {request : α}
    (hr : .rejected key request ∈ new) : e.cancelled = true := by
  cases aside_of_isAnswer hs hr rfl with
  | rejected hc => exact hc
  | _ => simp at hr

/-- An answer is truthful if it is what is in the slot, as long as something is, and tells of a
cancellation, of a wrong count of results or of a panic only where that is so. An error that the
executor itself has returned for the request may look like any of these. -/
structure Truthful (o : Options) (actions : List (Action α β)) (e : Engine α β)
    (events : List (Event α β)) (s : Ticket) (result : Except Error β) : Prop where
  delivered : ∀ content, slotAt? e.calls s = some (.filled content) → result = content
  callerCancelled : result = .error (.cancelled .caller) →
    OwnEntry actions events s result ∨
      ∃ call, e.calls[s]? = some call ∧ call.slot = .empty ∧ call.token ∈ e.cancelledTokens
  engineCancelled : result = .error (.cancelled .engine) →
    OwnEntry actions events s result ∨ e.cancelled = true
  mismatched : ∀ name expected actual,
    result = .error (.resultCountMismatch name expected actual) →
    OwnEntry actions events s result ∨
      ∃ b ∈ started events, s ∈ b.slots ∧ ∃ items, .finish b.id (.results items) ∈ actions ∧
        items.length ≠ b.size ∧ name = o.name ∧ expected = b.size ∧ actual = items.length
  panicked : ∀ name message, result = .error (.executorPanicked name message) →
    OwnEntry actions events s result ∨
      ∃ b ∈ started events, s ∈ b.slots ∧ ∃ payload, .finish b.id (.panic payload) ∈ actions ∧
        name = o.name ∧ message = payload.message
  undropped : result = .error (droppedError o.name) → OwnEntry actions events s result
  otherwise : (∀ scope, result ≠ .error (.cancelled scope)) →
    (∀ name expected actual, result ≠ .error (.resultCountMismatch name expected actual)) →
    (∀ name message, result ≠ .error (.executorPanicked name message)) →
    OwnEntry actions events s result

theorem Ground.truthful (h : Ground o actions e events s result)
    (hkill : ∀ id, .kill id ∉ actions)
    (hdelivered : ∀ content, slotAt? e.calls s = some (.filled content) → result = content) :
    Truthful o actions e events s result := by
  cases h with
  | entry hown => exact ⟨hdelivered, fun _ => .inl hown, fun _ => .inl hown,
      fun _ _ _ _ => .inl hown, fun _ _ _ => .inl hown, fun _ => hown, fun _ _ _ => hown⟩
  | @mismatched b items hb hs hf hsize =>
    refine ⟨hdelivered, by simp, by simp, ?_, by simp, by simp [droppedError], ?_⟩
    · rintro name expected actual ⟨⟩
      exact .inr ⟨b, hb, hs, items, hf, hsize, rfl, rfl, rfl⟩
    · exact fun _ hnot _ => absurd rfl (hnot _ _ _)
  | @panicked b payload hb hs hf =>
    refine ⟨hdelivered, by simp, by simp, by simp, ?_, by simp [droppedError], ?_⟩
    · rintro name message ⟨⟩
      exact .inr ⟨b, hb, hs, payload, hf, rfl, rfl⟩
    · exact fun _ _ hnot => absurd rfl (hnot _ _)
  | @callerCancelled call hc hempty htoken =>
    refine ⟨hdelivered, fun _ => .inr ⟨call, hc, hempty, htoken⟩, by simp, by simp, by simp,
      by simp [droppedError], ?_⟩
    exact fun hnot => absurd rfl (hnot _)
  | engineCancelled hc =>
    refine ⟨hdelivered, by simp, fun _ => .inr hc, by simp, by simp, by simp [droppedError], ?_⟩
    exact fun hnot => absurd rfl (hnot _)
  | dropped _ _ hk => exact absurd hk (hkill _)

/-- As long as no task is dropped, everything that a caller is told is true, also after a
cancellation; and a caller whose slot has been filled is told what is in it, whatever else has
happened. -/
theorem answers_truthful (h : Reaches o actions e events) (hkill : ∀ id, .kill id ∉ actions) :
    (∀ a e' new, e.step? a = some (e', new) →
      (∀ s result, .returned s result ∈ new → Truthful o actions e events s result) ∧
      ∀ event ∈ new, ∀ error ∈ event.refusal?, error = .cancelled .engine ∧ e.cancelled = true) ∧
    ∀ s call content, e.calls[s]? = some call → call.wait.isWaiting = true →
      call.slot = .filled content →
      e.step? (.look s) = some (e.setWait s (.returned content), [.returned s content]) := by
  refine ⟨fun a e' new hs => ⟨fun s result hr => ?_, fun event he error herror => ?_⟩, ?_⟩
  · obtain ⟨call, hc, hanswer⟩ := step_returned (step_of_step? hs) hr
    refine (h.ground_of_answer hc hanswer).truthful hkill fun content hcontent => ?_
    have hslot : call.slot = .filled content := by
      rw [slotAt?, hc, Option.map_some] at hcontent
      exact Option.some.inj hcontent
    have hsame : content = result := by simpa [answer?, hslot] using hanswer
    exact hsame.symm
  · cases event with
    | rejected key request =>
      refine ⟨?_, step_rejected (step_of_step? hs) he⟩
      simpa [Event.refusal?, eq_comm] using herror
    | _ => cases herror
  · intro s call content hc hw hslot
    simp [step?, look, hc, hw, answer?, hslot]

/-- A caller looks for the first time after its batch has been executed, its token and the engine
have been cancelled: it gets the executor's entry for its request. -/
theorem answers_truthful_after_cancellations : ∃ (e : Engine String String) (events : _)
    (e' : Engine String String) (new : _),
    Reaches {} [.submit "t" ⟨"k"⟩ "a" ⟨0⟩, .arm 0, .submit "u" ⟨"k"⟩ "b" ⟨5⟩,
      .wake 0 false ⟨1000000000⟩, .resume 0, .finish 0 (.results [.ok "A", .ok "B"]),
      .cancelToken "u", .cancel] e events ∧
    e.step? (.look 1) = some (e', new) ∧ new = [.returned 1 (.ok "B")] ∧
    "u" ∈ e.cancelledTokens ∧ e.cancelled = true ∧
    OwnEntry [.submit "t" ⟨"k"⟩ "a" ⟨0⟩, .arm 0, .submit "u" ⟨"k"⟩ "b" ⟨5⟩,
      .wake 0 false ⟨1000000000⟩, .resume 0, .finish 0 (.results [.ok "A", .ok "B"]),
      .cancelToken "u", .cancel] events 1 (.ok "B") := by
  have h : @Reaches String String {} [.submit "t" ⟨"k"⟩ "a" ⟨0⟩, .arm 0,
      .submit "u" ⟨"k"⟩ "b" ⟨5⟩, .wake 0 false ⟨1000000000⟩, .resume 0,
      .finish 0 (.results [.ok "A", .ok "B"]), .cancelToken "u", .cancel] _ _ :=
    reaches_iff_run?.mpr ⟨_, _, rfl, rfl⟩
  obtain ⟨hanswers, hfilled⟩ := answers_truthful h (by simp)
  have hlook := hfilled 1 _ (.ok "B") rfl rfl rfl
  have htrue := (hanswers _ _ _ hlook).1 1 (.ok "B") List.mem_cons_self
  exact ⟨_, _, _, _, h, hlook, rfl, List.mem_cons_self, rfl,
    htrue.otherwise (by simp) (by simp) (by simp)⟩

end Engine

end Coalesce
