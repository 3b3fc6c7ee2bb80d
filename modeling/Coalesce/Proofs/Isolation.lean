import Coalesce.Proofs.Awaiting
import Mathlib.Data.Set.Insert

/-! # Callers do not disturb one another

Two runs that differ only in what some callers do, in their cancellations and in when they look or
leave, cannot be told apart by anyone else. Such a caller's steps change nothing that others see,
and every other step does the same in both runs. -/
namespace Coalesce
variable {α β : Type} (T : Set String) [DecidablePred (· ∈ T)] (tokens : List String)

def hasToken (ticket : Ticket) : Bool := tokens[ticket]?.any (· ∈ T)

/-- A caller with a token in `T` is taken to wait still. -/
def Call.veil (call : Call β) : Call β :=
  if call.token ∈ T then { call with wait := .waiting } else call

def Engine.veil (e : Engine α β) : Engine α β :=
  { e with
    calls := e.calls.map (Call.veil T)
    cancelledTokens := e.cancelledTokens.filter (· ∉ T)
    counters := { e.counters with unobserved := 0 } }

def Event.veil? : Event α β → Option (Event α β)
  | .settled slot result observed =>
    some (.settled slot result (observed || hasToken T tokens slot))
  | .returned ticket result =>
    if hasToken T tokens ticket then none else some (.returned ticket result)
  | event => some event

def veilOutcome (p : Engine α β × List (Event α β)) : Engine α β × List (Event α β) :=
  (p.1.veil T, p.2.filterMap (Event.veil? T tokens))

@[simp] theorem Call.token_veil (call : Call β) : (call.veil T).token = call.token := by
  by_cases h : call.token ∈ T <;> simp [veil, h]

@[simp] theorem Call.slot_veil (call : Call β) : (call.veil T).slot = call.slot := by
  by_cases h : call.token ∈ T <;> simp [veil, h]

@[simp] theorem Call.veil_veil (call : Call β) : (call.veil T).veil T = call.veil T := by
  by_cases h : call.token ∈ T <;> simp [veil, h]

theorem Call.veil_fill (call : Call β) (slot : Slot β) :
    ({ call with slot := slot } : Call β).veil T = { call.veil T with slot := slot } := by
  by_cases h : call.token ∈ T <;> simp [veil, h]

variable {T} in
theorem Call.veil_of_notMem {call : Call β} (h : call.token ∉ T) : call.veil T = call := if_neg h

theorem map_modify_of_comm {γ : Type} {f g : γ → γ} {l : List γ} {i : Nat}
    (hfg : ∀ c, l[i]? = some c → f (g c) = g (f c)) :
    (l.map g).modify i f = (l.modify i f).map g := by
  refine List.ext_getElem? fun j => ?_
  rw [List.getElem?_modify, List.getElem?_map, List.getElem?_map, List.getElem?_modify]
  by_cases h : i = j
  · subst h
    cases hc : l[i]? with
    | none => rfl
    | some c => simp [hfg c hc]
  · simp [h]

/-- A change of one member goes unseen by what reads the same of it before and after. -/
theorem map_modify_of_eq {γ δ : Type} {f : γ → γ} {g : γ → δ} {l : List γ} {i : Nat}
    (hfg : ∀ c, l[i]? = some c → g (f c) = g c) : (l.modify i f).map g = l.map g := by
  refine List.ext_getElem? fun j => ?_
  rw [List.getElem?_map, List.getElem?_modify, List.getElem?_map]
  by_cases h : i = j
  · subst h
    cases hc : l[i]? with
    | none => rfl
    | some c => simp [hfg c hc]
  · simp [h]

theorem fillAll_veil (results : List (Ticket × Except Error β)) (calls : List (Call β)) :
    fillAll results (calls.map (Call.veil T)) = (fillAll results calls).map (Call.veil T) := by
  induction results generalizing calls with
  | nil => rfl
  | cons p results ih =>
    rw [fillAll_cons, map_modify_of_comm fun c _ => (Call.veil_fill T c _).symm, ih, fillAll_cons]

theorem releaseAll_veil (slots : List Ticket) (calls : List (Call β)) :
    releaseAll slots (calls.map (Call.veil T)) = (releaseAll slots calls).map (Call.veil T) := by
  induction slots generalizing calls with
  | nil => rfl
  | cons slot slots ih =>
    rw [releaseAll, List.foldl_cons, map_modify_of_comm]
    · exact ih _
    · intro call _
      rw [Call.slot_veil]
      cases call.slot with
      | empty => exact (Call.veil_fill T call _).symm
      | _ => rfl

namespace Engine
variable {T tokens} {e e' : Engine α β} {events new : List (Event α β)} {a : Action α β}

theorem veil_veil (e : Engine α β) : (e.veil T).veil T = e.veil T := by
  simp [veil, Function.comp_def]

theorem veilOutcome_veil (e : Engine α β) (new : List (Event α β)) :
    veilOutcome T tokens (e.veil T, new) = veilOutcome T tokens (e, new) := by
  rw [veilOutcome, veil_veil, veilOutcome]

theorem hasToken_of_call (hp : e.calls.map Call.token <+: tokens) {k : Ticket} {call : Call β}
    (hc : e.calls[k]? = some call) : hasToken T tokens k = decide (call.token ∈ T) := by
  obtain ⟨more, rfl⟩ := hp
  have hlt : k < (e.calls.map Call.token).length := by
    rw [List.length_map]
    exact (List.getElem?_eq_some_iff.mp hc).1
  rw [hasToken, List.getElem?_append_left hlt, List.getElem?_map, hc]
  rfl

theorem settlements_veil (hp : e.calls.map Call.token <+: tokens)
    (results : List (Ticket × Except Error β)) :
    (settlements results (e.veil T).calls : List (Event α β)).filterMap (Event.veil? T tokens) =
      (settlements results e.calls).filterMap (Event.veil? T tokens) := by
  simp only [settlements, List.filterMap_filterMap, veil]
  refine List.filterMap_congr fun p _ => ?_
  rw [waitAt?, waitAt?, List.getElem?_map]
  cases hc : e.calls[p.1]? with
  | none => rfl
  | some call =>
    by_cases ht : call.token ∈ T
    · simp [hasToken_of_call hp hc, ht, Event.veil?]
    · simp [Call.veil_of_notMem ht]

theorem settleAll_veil (hp : e.calls.map Call.token <+: tokens)
    (results : List (Ticket × Except Error β)) :
    veilOutcome T tokens ((e.veil T).settleAll results) =
      veilOutcome T tokens (e.settleAll results) := by
  rw [settleAll_eq, settleAll_eq]
  refine Prod.ext ?_ (settlements_veil hp results)
  simp [veilOutcome, veil, withCalls, fillAll_veil, Function.comp_def]

theorem veilOutcome_append (first : List (Event α β)) {p q : Engine α β × List (Event α β)}
    (h : veilOutcome T tokens p = veilOutcome T tokens q) :
    veilOutcome T tokens (p.1, first ++ p.2) = veilOutcome T tokens (q.1, first ++ q.2) := by
  obtain ⟨hengine, hevents⟩ := Prod.mk.inj h
  rw [veilOutcome, veilOutcome, List.filterMap_append, List.filterMap_append, hengine, hevents]

theorem release_veil (e : Engine α β) (slots : List Ticket) :
    (e.veil T).release slots = (e.release slots).veil T :=
  congrArg (fun calls => { e.veil T with calls := calls }) (releaseAll_veil T slots e.calls)

theorem submit_veil (e : Engine α β) (token : String) (key : Key) (request : α) (now : Instant) :
    (e.veil T).submit token key request now =
      ((e.submit token key request now).1.veil T, (e.submit token key request now).2) := by
  have hcall : ({ token := token } : Call β).veil T = { token := token } := by
    by_cases h : token ∈ T <;> simp [Call.veil, h]
  unfold submit enqueue
  rw [show (e.veil T).pending? key = e.pending? key from rfl,
    show (e.veil T).cancelled = e.cancelled from rfl]
  cases e.cancelled with
  | true => rfl
  | false =>
    cases e.pending? key with
    | none => simp [openBatch, veil, hcall, Counters.countSubmit]
    | some b => simp [joinBatch, veil, hcall, Counters.countSubmit]

theorem arm_veil (e : Engine α β) (t : BatchTask α) : (e.veil T).arm t = (e.arm t).veil T := by
  unfold arm
  rw [show (e.veil T).pendingAs? t.key t.id = e.pendingAs? t.key t.id from rfl]
  cases e.pendingAs? t.key t.id <;> rfl

theorem wake_veil (e : Engine α β) (t : BatchTask α) (shutdown : Bool) (now : Instant) :
    (e.veil T).wake t shutdown now =
      ((e.wake t shutdown now).1.veil T, (e.wake t shutdown now).2) := by
  unfold wake
  rw [show (e.veil T).pendingAs? t.key t.id = e.pendingAs? t.key t.id from rfl]
  cases e.pendingAs? t.key t.id with
  | none => rfl
  | some b =>
    dsimp only
    rw [show (e.veil T).dueReason? b shutdown now = e.dueReason? b shutdown now from rfl]
    cases e.dueReason? b shutdown now with
    | none => rfl
    | some reason => cases reason <;> rfl

theorem askForWorker_veil (hp : e.calls.map Call.token <+: tokens) (b : Batch α) :
    veilOutcome T tokens ((e.veil T).askForWorker b) =
      veilOutcome T tokens (e.askForWorker b) := by
  unfold askForWorker
  rw [show (e.veil T).pool.ask b.id (e.veil T).cancelled = e.pool.ask b.id e.cancelled from rfl]
  rcases e.pool.ask b.id e.cancelled with ⟨pool, answer⟩
  cases answer with
  | waiting => exact veilOutcome_veil (T := T) ({ e with pool := pool }.setStage b.id (.queued b)) _
  | granted =>
    exact veilOutcome_veil (T := T)
      ({ e with pool := pool, counters := e.counters.countStart }.setStage b.id (.running b)) _
  | cancelled =>
    have hsettled := settleAll_veil (T := T) (e := { e with pool := pool }.endTask b.id) hp
      (refusals b.slots)
    exact veilOutcome_append [.abandoned b] hsettled

theorem finish_veil (hp : e.calls.map Call.token <+: tokens) (b : Batch α) (outcome : Outcome β) :
    veilOutcome T tokens ((e.veil T).finish b outcome) =
      veilOutcome T tokens (e.finish b outcome) := by
  have hsettled := settleAll_veil (T := T) (e := e.endExecution b) hp
    (b.slots.zip (outcome.shares e.name b.slots.length))
  rw [settleAll_eq, settleAll_eq] at hsettled
  rw [finish_eq, finish_eq, settleAll_eq, settleAll_eq]
  exact veilOutcome_append (outcome.notes b) hsettled

theorem dropTimer_veil (e : Engine α β) (t : BatchTask α) :
    (e.veil T).dropTimer t = ((e.dropTimer t).1.veil T, (e.dropTimer t).2) := by
  unfold dropTimer
  rw [show (e.veil T).pendingAs? t.key t.id = e.pendingAs? t.key t.id from rfl]
  cases e.pendingAs? t.key t.id with
  | none => rfl
  | some b => exact congrArg (·, _) (release_veil ((e.endTask t.id).removeBatch t.key) b.slots)

theorem kill_veil (e : Engine α β) (t : BatchTask α) :
    (e.veil T).kill t = ((e.kill t).1.veil T, (e.kill t).2) := by
  unfold kill
  cases t.stage with
  | spawned => rfl
  | checking => exact dropTimer_veil e t
  | sleeping wakeAt => exact dropTimer_veil e t
  | queued b =>
    exact congrArg (·, _) (release_veil { e.endTask t.id with pool := e.pool.leave b.id } b.slots)
  | running b => exact congrArg (·, _) (release_veil (e.endExecution b) b.slots)

theorem answer?_veil {call : Call β} (ht : call.token ∉ T) :
    (e.veil T).answer? call = e.answer? call := by
  unfold answer?
  cases call.slot with
  | empty => simp [veil, ht]
  | _ => rfl

theorem setWait_veil {k : Ticket} {call : Call β} (hc : e.calls[k]? = some call)
    (ht : call.token ∉ T) (wait : Wait β) :
    (e.veil T).setWait k wait = (e.setWait k wait).veil T := by
  have hcalls : (e.calls.map (Call.veil T)).modify k (fun call => { call with wait := wait }) =
      (e.calls.modify k fun call => { call with wait := wait }).map (Call.veil T) := by
    refine map_modify_of_comm fun c hk => ?_
    cases hc.symm.trans hk
    simp [Call.veil, ht]
  exact congrArg (fun calls => { e.veil T with calls := calls }) hcalls

/-- What another caller finds when it looks or leaves. -/
theorem getElem?_veil (hp : e.calls.map Call.token <+: tokens) {k : Ticket}
    (hk : hasToken T tokens k = false) :
    (e.veil T).calls[k]? = e.calls[k]? ∧ ∀ call, e.calls[k]? = some call → call.token ∉ T := by
  have hnot : ∀ call, e.calls[k]? = some call → call.token ∉ T := by
    intro call hc
    rw [hasToken_of_call hp hc] at hk
    simpa using hk
  refine ⟨?_, hnot⟩
  show (e.calls.map (Call.veil T))[k]? = _
  rw [List.getElem?_map]
  cases hc : e.calls[k]? with
  | none => rfl
  | some call => rw [Option.map_some, Call.veil_of_notMem (hnot call hc)]

theorem look_veil (hp : e.calls.map Call.token <+: tokens) {k : Ticket}
    (hk : hasToken T tokens k = false) :
    (e.veil T).look k = ((e.look k).1.veil T, (e.look k).2) := by
  obtain ⟨hsame, hnot⟩ := getElem?_veil hp hk
  unfold look
  rw [hsame]
  cases hc : e.calls[k]? with
  | none => rfl
  | some call =>
    have ht := hnot call hc
    dsimp only
    rw [answer?_veil ht]
    cases call.wait.isWaiting with
    | false => rfl
    | true =>
      cases e.answer? call with
      | none => rfl
      | some result => exact congrArg (·, _) (setWait_veil hc ht _)

theorem leave_veil (hp : e.calls.map Call.token <+: tokens) {k : Ticket}
    (hk : hasToken T tokens k = false) : (e.veil T).leave k = (e.leave k).veil T := by
  obtain ⟨hsame, hnot⟩ := getElem?_veil hp hk
  unfold leave
  rw [hsame]
  cases hc : e.calls[k]? with
  | none => rfl
  | some call =>
    cases hw : call.wait.isWaiting with
    | false => simp [hw]
    | true => simpa [hw] using setWait_veil hc (hnot call hc) .left

end Engine

/-- The step is one of a caller with a token in `T`: its token is cancelled, it looks, or it
leaves. -/
def Action.isOf : Action α β → Bool
  | .cancelToken token => token ∈ T
  | .look ticket => hasToken T tokens ticket
  | .leave ticket => hasToken T tokens ticket
  | _ => false

namespace Engine
variable {T tokens} {e e' : Engine α β} {events new : List (Event α β)} {a : Action α β}
  {actions : List (Action α β)}

theorem map_bind_congr {γ δ ε : Type} {o : Option γ} {f g : γ → Option δ} {h : δ → ε}
    (hfg : ∀ c, (f c).map h = (g c).map h) : (o.bind f).map h = (o.bind g).map h := by
  cases o with
  | none => rfl
  | some c => exact hfg c

/-- A step that is not one of theirs does the same whether they are seen or not. -/
theorem step?_veil (hp : e.calls.map Call.token <+: tokens) (ha : a.isOf T tokens = false) :
    ((e.veil T).step? a).map (veilOutcome T tokens) = (e.step? a).map (veilOutcome T tokens) := by
  cases a with
  | submit token key request now =>
    show some _ = some _
    rw [submit_veil, veilOutcome_veil]
  | arm id =>
    refine map_bind_congr fun t => ?_
    cases t.stage with
    | spawned => simp only [arm_veil, Option.map_some, veilOutcome_veil]
    | checking => simp only [arm_veil, Option.map_some, veilOutcome_veil]
    | _ => rfl
  | wake id shutdown now =>
    refine map_bind_congr fun t => ?_
    cases t.stage with
    | sleeping wakeAt =>
      dsimp only
      rw [show (e.veil T).mayWake wakeAt shutdown now = e.mayWake wakeAt shutdown now from rfl,
        wake_veil]
      by_cases hw : e.mayWake wakeAt shutdown now = true
      · rw [if_pos hw, if_pos hw, Option.map_some, veilOutcome_veil, Option.map_some]
      · rw [if_neg hw, if_neg hw]
    | _ => rfl
  | resume id =>
    refine map_bind_congr fun t => ?_
    cases t.stage with
    | queued b => exact congrArg some (askForWorker_veil hp b)
    | _ => rfl
  | finish id outcome =>
    refine map_bind_congr fun t => ?_
    cases t.stage with
    | running b => exact congrArg some (finish_veil hp b outcome)
    | _ => rfl
  | cancel => exact congrArg some (veilOutcome_veil { e with cancelled := true } [])
  | close =>
    show Option.map _ (if e.cancelled then _ else _) = Option.map _ (if e.cancelled then _ else _)
    by_cases hc : e.cancelled = true
    · rw [if_pos hc, if_pos hc]
      exact congrArg some (veilOutcome_veil { e with closed := true } [])
    · rw [if_neg hc, if_neg hc]
  | cancelToken token =>
    have ht : token ∉ T := by simpa [Action.isOf] using ha
    simp [step?, veilOutcome, veil, ht, Function.comp_def]
  | look ticket =>
    show some _ = some _
    rw [look_veil hp ha, veilOutcome_veil]
  | leave ticket =>
    show some _ = some _
    rw [leave_veil hp ha, veilOutcome_veil]
  | kill id =>
    refine map_bind_congr fun t => ?_
    show some _ = some _
    rw [kill_veil, veilOutcome_veil]

theorem veil_setWait (hp : e.calls.map Call.token <+: tokens) {k : Ticket}
    (hk : hasToken T tokens k = true) (wait : Wait β) : (e.setWait k wait).veil T = e.veil T := by
  have hcalls : (e.calls.modify k fun call => { call with wait := wait }).map (Call.veil T) =
      e.calls.map (Call.veil T) := by
    refine map_modify_of_eq fun call hc => ?_
    rw [hasToken_of_call hp hc, decide_eq_true_eq] at hk
    simp [Call.veil, hk]
  exact congrArg (fun calls => { e.veil T with calls := calls }) hcalls

/-- What such a caller does is seen by no other. -/
theorem step_of_own (hp : e.calls.map Call.token <+: tokens) (ha : a.isOf T tokens = true)
    (hs : Step e a e' new) : veilOutcome T tokens (e', new) = (e.veil T, []) := by
  cases hs with
  | aside h =>
    cases h with
    | tokenCancelled =>
      have ht := of_decide_eq_true ha
      simp [veilOutcome, veil, ht]
    | answered =>
      rw [veilOutcome, veil_setWait hp ha]
      simp [Event.veil?, show hasToken T tokens _ = true from ha]
    | unanswered => rfl
    | left =>
      rw [veilOutcome, veil_setWait hp ha]
      rfl
    | gone => rfl
    | _ => cases ha
  | _ => cases ha

theorem exists_step_of_own (ha : a.isOf T tokens = true) :
    ∃ e' new, e.step? a = some (e', new) := by
  cases a with
  | cancelToken => exact ⟨_, _, rfl⟩
  | look => exact ⟨_, _, rfl⟩
  | leave => exact ⟨_, _, rfl⟩
  | _ => cases ha

def callers : List (Action α β) → List String
  | [] => []
  | .submit token _ _ _ :: rest => token :: callers rest
  | .cancel :: _ => []
  | _ :: rest => callers rest

def foreseen (e : Engine α β) (actions : List (Action α β)) : List String :=
  e.calls.map Call.token ++ if e.cancelled then [] else callers actions

theorem tokens_fillAll (results : List (Ticket × Except Error β)) (calls : List (Call β)) :
    (fillAll results calls).map Call.token = calls.map Call.token := by
  induction results generalizing calls with
  | nil => rfl
  | cons p results ih =>
    rw [fillAll_cons, ih]
    exact map_modify_of_eq fun _ _ => rfl

theorem tokens_releaseAll (slots : List Ticket) (calls : List (Call β)) :
    (releaseAll slots calls).map Call.token = calls.map Call.token := by
  induction slots generalizing calls with
  | nil => rfl
  | cons slot slots ih =>
    rw [releaseAll, List.foldl_cons]
    refine (ih _).trans (map_modify_of_eq fun call _ => ?_)
    cases call.slot <;> rfl

theorem map_token_veil (e : Engine α β) :
    (e.veil T).calls.map Call.token = e.calls.map Call.token := by
  simp [veil, Function.comp_def]

theorem tokens_setWait (e : Engine α β) (k : Ticket) (wait : Wait β) :
    (e.setWait k wait).calls.map Call.token = e.calls.map Call.token :=
  map_modify_of_eq fun _ _ => rfl

theorem Asked.map_token {b : Batch α} (h : Asked e b e' new) :
    e'.calls.map Call.token = e.calls.map Call.token := by
  cases h with
  | abandoned =>
    rw [settleAll_eq]
    exact tokens_fillAll ..
  | waiting => rfl
  | granted => rfl

theorem step_foreseen (hs : Step e a e' new) (rest : List (Action α β)) :
    e'.foreseen rest = e.foreseen (a :: rest) := by
  cases hs with
  | aside h =>
    cases h with
    | rejected hc => simp [foreseen, hc]
    | cancelled => simp [foreseen, callers]
    | closed => rfl
    | tokenCancelled => rfl
    | answered => exact congrArg (· ++ _) (tokens_setWait ..)
    | unanswered => rfl
    | left => exact congrArg (· ++ _) (tokens_setWait ..)
    | gone => rfl
  | joined hc => simp [foreseen, joinBatch, hc, callers]
  | opened hc => simp [foreseen, openBatch, hc, callers]
  | @resumed t b =>
    have hask := askForWorker_asked e b
    rw [foreseen, hask.map_token, hask.cancelled]
    rfl
  | finished =>
    rw [finish_eq, settleAll_eq]
    exact congrArg (· ++ _) (tokens_fillAll ..)
  | orphaned => exact congrArg (· ++ _) (tokens_releaseAll ..)
  | dropped => exact congrArg (· ++ _) (tokens_releaseAll ..)
  | aborted => exact congrArg (· ++ _) (tokens_releaseAll ..)
  | _ => rfl

theorem run?_cons_of_step (hs : e.step? a = some (e', new)) (rest : List (Action α β)) :
    (e.run? (a :: rest)).map (veilOutcome T tokens) =
      ((e'.run? rest).map (veilOutcome T tokens)).map
        fun p => (p.1, new.filterMap (Event.veil? T tokens) ++ p.2) := by
  cases hr : e'.run? rest with
  | none => simp [run?, hs, hr]
  | some p => simp [run?, hs, hr, veilOutcome]

/-- Leaving out what those callers do changes nothing that others see, wherever a run begins. -/
theorem run?_veil (hv : e'.veil T = e.veil T) (hf : e.foreseen actions = tokens) :
    (e'.run? (actions.filter fun a => !a.isOf T tokens)).map (veilOutcome T tokens) =
      (e.run? actions).map (veilOutcome T tokens) := by
  -- by induction on what is left of the run, from any two engines that look alike
  induction actions generalizing e e' with
  | nil => exact congrArg (fun v => some (v, _)) hv
  | cons a rest ih =>
    have hp : e.calls.map Call.token <+: tokens := ⟨_, hf⟩
    cases ha : a.isOf T tokens with
    | true =>
      obtain ⟨m, new, hs⟩ := exists_step_of_own (e := e) ha
      obtain ⟨hmv, hnew⟩ := Prod.mk.inj (step_of_own hp ha (step_of_step? hs))
      have hmf : m.foreseen rest = tokens := (step_foreseen (step_of_step? hs) rest).trans hf
      rw [List.filter_cons_of_neg (by simp [ha]), run?_cons_of_step hs, hnew,
        ih (hv.trans hmv.symm) hmf]
      cases m.run? rest <;> rfl
    | false =>
      have hp' : e'.calls.map Call.token <+: tokens := by
        rw [← map_token_veil (T := T) e', hv, map_token_veil]
        exact hp
      have hsame : (e'.step? a).map (veilOutcome T tokens) =
          (e.step? a).map (veilOutcome T tokens) := by
        rw [← step?_veil hp ha, ← step?_veil hp' ha, hv]
      rw [List.filter_cons_of_pos (by simp [ha])]
      cases hs : e.step? a with
      | none =>
        have hs' : e'.step? a = none := by simpa [hs] using hsame
        simp [run?, hs, hs']
      | some p =>
        rw [hs] at hsame
        obtain ⟨p', hs', hpp⟩ := Option.map_eq_some_iff.mp hsame
        obtain ⟨hmv, hnew⟩ := Prod.mk.inj hpp
        have hmf : p.1.foreseen rest = tokens := (step_foreseen (step_of_step? hs) rest).trans hf
        rw [run?_cons_of_step hs, run?_cons_of_step hs', ih hmv hmf, hnew]

theorem callers_filter (actions : List (Action α β)) :
    callers (actions.filter fun a => !a.isOf T tokens) = callers actions := by
  induction actions with
  | nil => rfl
  | cons a rest ih =>
    cases ha : a.isOf T tokens with
    | true =>
      rw [List.filter_cons_of_neg (by simp [ha]), ih]
      cases a <;> first | rfl | cases ha
    | false =>
      rw [List.filter_cons_of_pos (by simp [ha])]
      cases a with
      | submit token => exact congrArg (token :: ·) ih
      | cancel => rfl
      | _ => exact ih

def apartFrom (T : Set String) [DecidablePred (· ∈ T)] (actions : List (Action α β)) :
    List (Action α β) :=
  actions.filter fun a => !a.isOf T (callers actions)

theorem callers_eq {actions' : List (Action α β)} (h : apartFrom T actions' = apartFrom T actions) :
    callers actions' = callers actions := by
  have hkept : ∀ as : List (Action α β), callers (apartFrom T as) = callers as :=
    fun as => callers_filter as
  rw [← hkept actions', h, hkept]

theorem fresh_run?_eq (o : Options) {actions' : List (Action α β)}
    (h : apartFrom T actions' = apartFrom T actions) :
    ((fresh o : Engine α β).run? actions').map (veilOutcome T (callers actions)) =
      ((fresh o : Engine α β).run? actions).map (veilOutcome T (callers actions)) := by
  have hcallers := callers_eq h
  have hapart : ∀ as : List (Action α β), callers as = callers actions →
      ((fresh o).run? (apartFrom T as)).map (veilOutcome T (callers actions)) =
        ((fresh o).run? as).map (veilOutcome T (callers actions)) := by
    intro as has
    rw [apartFrom, has]
    exact run?_veil rfl has
  rw [← hapart actions' hcallers, h, hapart actions rfl]

/-- The calls so far are those of the requests accepted so far. -/
theorem Reaches.foreseen {o : Options} (h : Reaches o actions e events)
    (rest : List (Action α β)) : e.foreseen rest = callers (actions ++ rest) := by
  induction h generalizing rest with
  | built hb =>
    obtain ⟨-, rfl⟩ := build_eq_ok hb
    rfl
  | step hr hs ih =>
    rw [step_foreseen (step_of_step? hs), ih, List.append_assoc, List.singleton_append]

def returnedTo? (T : Set String) [DecidablePred (· ∈ T)] (tokens : List String) :
    Event α β → Option (Ticket × Except Error β)
  | .returned ticket result => if hasToken T tokens ticket then none else some (ticket, result)
  | _ => none

/-- What the callers without a token in `T` see of a run, and all that the engine does with batches
and counts but for the results that nobody waited for, is the same in another run. -/
structure Undisturbed (T : Set String) [DecidablePred (· ∈ T)] (tokens : List String)
    (e e' : Engine α β) (events events' : List (Event α β)) : Prop where
  registry : e'.registry = e.registry
  nextId : e'.nextId = e.nextId
  tasks : e'.tasks = e.tasks
  pool : e'.pool = e.pool
  accepted : accepted events' = accepted events
  flushes : flushes events' = flushes events
  started : started events' = started events
  settled : settled events' = settled events
  slots : ∀ s, slotAt? e'.calls s = slotAt? e.calls s
  calls : ∀ k, hasToken T tokens k = false → e'.calls[k]? = e.calls[k]?
  returned : events'.filterMap (returnedTo? T tokens) = events.filterMap (returnedTo? T tokens)
  refused : events'.filterMap Event.refusal? = events.filterMap Event.refusal?
  stats : e'.stats = { e.stats with
    counters := { e.stats.counters with unobserved := e'.stats.counters.unobserved } }

/-- A reading of events that finds nothing in a caller's return, and does not ask whether a slot's
caller still waits. -/
theorem bind_veil? {γ : Type} {read : Event α β → Option γ}
    (hs : ∀ slot result observed observed',
      read (.settled slot result observed) = read (.settled slot result observed'))
    (hr : ∀ ticket result, read (.returned ticket result) = none) (event : Event α β) :
    (event.veil? T tokens).bind read = read event := by
  cases event with
  | settled slot result observed => exact hs ..
  | returned ticket result =>
    rw [hr]
    by_cases hk : hasToken T tokens ticket = true <;> simp [Event.veil?, hk, hr]
  | _ => rfl

theorem bind_returnedTo? (event : Event α β) :
    (event.veil? T tokens).bind (returnedTo? T tokens) = returnedTo? T tokens event := by
  cases event with
  | returned ticket result =>
    by_cases hk : hasToken T tokens ticket = true <;> simp [Event.veil?, returnedTo?, hk]
  | _ => rfl

theorem filterMap_veil? {γ : Type} {read : Event α β → Option γ}
    (hread : ∀ event : Event α β, (event.veil? T tokens).bind read = read event)
    (events : List (Event α β)) :
    (events.filterMap (Event.veil? T tokens)).filterMap read = events.filterMap read := by
  rw [List.filterMap_filterMap]
  exact List.filterMap_congr fun event _ => hread event

theorem undisturbed_of_veil {events' : List (Event α β)} (hp : e.calls.map Call.token <+: tokens)
    (hp' : e'.calls.map Call.token <+: tokens)
    (h : veilOutcome T tokens (e', events') = veilOutcome T tokens (e, events)) :
    Undisturbed T tokens e e' events events' := by
  have hengine : e'.veil T = e.veil T := congrArg Prod.fst h
  have hevents : events'.filterMap (Event.veil? T tokens) =
    events.filterMap (Event.veil? T tokens) := congrArg Prod.snd h
  have hfield : ∀ {γ : Type} (f : Engine α β → γ), f (e'.veil T) = f (e.veil T) :=
    fun f => congrArg f hengine
  have hread : ∀ {γ : Type} {read : Event α β → Option γ},
      (∀ event : Event α β, (event.veil? T tokens).bind read = read event) →
      events'.filterMap read = events.filterMap read := by
    intro γ read hread
    rw [← filterMap_veil? hread events', hevents, filterMap_veil? hread]
  constructor
  case registry => exact hfield Engine.registry
  case nextId => exact hfield Engine.nextId
  case tasks => exact hfield Engine.tasks
  case pool => exact hfield Engine.pool
  case accepted => exact hread (bind_veil? (fun _ _ _ _ => rfl) fun _ _ => rfl)
  case flushes => exact hread (bind_veil? (fun _ _ _ _ => rfl) fun _ _ => rfl)
  case started => exact hread (bind_veil? (fun _ _ _ _ => rfl) fun _ _ => rfl)
  case settled => exact hread (bind_veil? (fun _ _ _ _ => rfl) fun _ _ => rfl)
  case refused => exact hread (bind_veil? (fun _ _ _ _ => rfl) fun _ _ => rfl)
  case returned => exact hread bind_returnedTo?
  case slots =>
    intro s
    have hslot : ∀ m : Engine α β, slotAt? (m.veil T).calls s = slotAt? m.calls s := by
      intro m
      simp [slotAt?, veil, Function.comp_def]
    rw [← hslot e', hengine, hslot]
  case calls =>
    intro k hk
    rw [← (getElem?_veil hp' hk).1, hengine, (getElem?_veil hp hk).1]
  case stats =>
    have hstats : (e'.veil T).stats = (e.veil T).stats := hfield Engine.stats
    exact congrArg (fun seen : Stats =>
      { seen with counters := { seen.counters with unobserved := e'.counters.unobserved } }) hstats

theorem accepted_submit (hc : e.cancelled = false) (token : String) (key : Key) (request : α)
    (now : Instant) :
    accepted (e.submit token key request now).2 = [(e.calls.length, key, request)] := by
  unfold submit enqueue
  rw [hc]
  cases e.pending? key <;> rfl

/-- Let a run differ from another only in what the callers with a token in `T` do: when their tokens
are cancelled, if at all, and when they look and leave. Then it is possible too, and no other
caller, no batch, no execution and no count but that of unobserved results shows the difference. A
request whose token is cancelled already is accepted like any other; it awaits its execution, and
ceases to only by being executed, unless the engine is cancelled or the task of its batch is
dropped. -/
theorem cancellation_isolated {o : Options} {actions' : List (Action α β)}
    (h : Reaches o actions e events) (hsame : apartFrom T actions' = apartFrom T actions) :
    (∃ e' events', Reaches o actions' e' events') ∧
    (∀ e' events', Reaches o actions' e' events' →
      Undisturbed T (callers actions) e e' events events') ∧
    (∀ token ∈ e.cancelledTokens, e.cancelled = false → ∀ key request now, ∃ e' new b,
      e.step? (.submit token key request now) = some (e', new) ∧
        accepted new = [(e.calls.length, key, request)] ∧
        e'.pending? key = some b ∧ (e.calls.length, request) ∈ b.entries) ∧
    ∀ p ∈ accepted events, Attended e actions events (p.1, p.2.2) := by
  have hcallers := callers_eq hsame
  have hp : e.calls.map Call.token <+: callers actions := by
    rw [← List.append_nil actions, ← h.foreseen []]
    exact List.prefix_append ..
  obtain ⟨start, log, hb, hr⟩ := reaches_iff_run?.mp h
  obtain ⟨-, rfl⟩ := build_eq_ok hb
  have hruns := fresh_run?_eq o hsame
  rw [hr] at hruns
  refine ⟨?_, ?_, ?_, fun p hp => h.attended hp⟩
  · obtain ⟨p, hr', -⟩ := Option.map_eq_some_iff.mp hruns
    exact ⟨p.1, p.2, reaches_iff_run?.mpr ⟨_, log, hb, hr'⟩⟩
  · intro e' events' h'
    have hp' : e'.calls.map Call.token <+: callers actions := by
      rw [← hcallers, ← List.append_nil actions', ← h'.foreseen []]
      exact List.prefix_append ..
    obtain ⟨start, log', hb', hr'⟩ := reaches_iff_run?.mp h'
    obtain ⟨-, rfl⟩ := build_eq_ok hb'
    rw [hr'] at hruns
    exact undisturbed_of_veil hp hp' (Option.some.inj hruns)
  · intro token _ hc key request now
    have haccepted := accepted_submit hc token key request now
    obtain ⟨b, hb, hm⟩ := step_enters (submit_step e token key request now) h.sound
      (haccepted ▸ List.mem_cons_self)
    exact ⟨_, _, b, rfl, haccepted, hb, hm⟩

/-- One of two callers in a batch cancelled before it submitted, and has its answer at once. In the
other run it never cancels, and waits for its result as the other caller does. -/
theorem cancellation_isolated_from_sibling : ∃ (e e' : Engine String String) (events events' : _),
    Reaches {} [.cancelToken "t", .submit "t" ⟨"k"⟩ "a" ⟨0⟩, .look 0, .submit "u" ⟨"k"⟩ "b" ⟨0⟩,
      .arm 0, .wake 0 false ⟨1000000000⟩, .resume 0, .finish 0 (.results [.ok "A", .ok "B"]),
      .look 1] e events ∧
    Reaches {} [.submit "t" ⟨"k"⟩ "a" ⟨0⟩, .submit "u" ⟨"k"⟩ "b" ⟨0⟩, .arm 0,
      .wake 0 false ⟨1000000000⟩, .resume 0, .finish 0 (.results [.ok "A", .ok "B"]), .look 0,
      .look 1] e' events' ∧
    (started events).map Batch.requests = [["a", "b"]] ∧ started events' = started events ∧
    flushes events' = flushes events ∧ e'.calls[1]? = e.calls[1]? ∧
    e.counters.unobserved = 1 ∧ e'.counters.unobserved = 0 := by
  obtain ⟨e, events, h, hstarted, hlost⟩ : ∃ (e : Engine String String) (events : _),
      Reaches {} [.cancelToken "t", .submit "t" ⟨"k"⟩ "a" ⟨0⟩, .look 0, .submit "u" ⟨"k"⟩ "b" ⟨0⟩,
        .arm 0, .wake 0 false ⟨1000000000⟩, .resume 0, .finish 0 (.results [.ok "A", .ok "B"]),
        .look 1] e events ∧
      (started events).map Batch.requests = [["a", "b"]] ∧ e.counters.unobserved = 1 :=
    ⟨_, _, reaches_iff_run?.mpr ⟨_, _, rfl, rfl⟩, rfl, rfl⟩
  obtain ⟨e', events', h', hnone⟩ : ∃ (e : Engine String String) (events : _),
      Reaches {} [.submit "t" ⟨"k"⟩ "a" ⟨0⟩, .submit "u" ⟨"k"⟩ "b" ⟨0⟩, .arm 0,
        .wake 0 false ⟨1000000000⟩, .resume 0, .finish 0 (.results [.ok "A", .ok "B"]), .look 0,
        .look 1] e events ∧ e.counters.unobserved = 0 :=
    ⟨_, _, reaches_iff_run?.mpr ⟨_, _, rfl, rfl⟩, rfl⟩
  have hseen : Undisturbed {"t"} ["t", "u"] e e' events events' :=
    (cancellation_isolated h (by rfl)).2.1 e' events' h'
  exact ⟨e, e', events, events', h, h', hstarted, hseen.started, hseen.flushes,
    hseen.calls 1 (by rfl), hlost, hnone⟩

end Engine

end Coalesce
