import Coalesce.Proofs.Pool
import Coalesce.Proofs.Run

/-! # What the parts of a step do to calls, and what they leave alone

Settling and releasing slots changes calls and one count, and nothing else of an engine. Asking for
a worker has three outcomes. -/
namespace Coalesce
variable {α β : Type}

def slotAt? (calls : List (Call β)) (ticket : Ticket) : Option (Slot β) :=
  calls[ticket]?.map Call.slot

def waitAt? (calls : List (Call β)) (ticket : Ticket) : Option (Wait β) :=
  calls[ticket]?.map Call.wait

def isGone (calls : List (Call β)) (ticket : Ticket) : Bool :=
  (waitAt? calls ticket).any fun w => !w.isWaiting

def fillAll (results : List (Ticket × Except Error β)) (calls : List (Call β)) : List (Call β) :=
  results.foldl (fun calls p => calls.modify p.1 fun c => { c with slot := .filled p.2 }) calls

def settlements (results : List (Ticket × Except Error β)) (calls : List (Call β)) :
    List (Event α β) :=
  results.filterMap fun p => (waitAt? calls p.1).map fun w => .settled p.1 p.2 w.isWaiting

theorem fillAll_cons (p : Ticket × Except Error β) (results : List (Ticket × Except Error β))
    (calls : List (Call β)) :
    fillAll (p :: results) calls =
      fillAll results (calls.modify p.1 fun c => { c with slot := .filled p.2 }) := rfl

@[simp] theorem length_fillAll (results : List (Ticket × Except Error β)) (calls : List (Call β)) :
    (fillAll results calls).length = calls.length := by
  induction results generalizing calls with
  | nil => rfl
  | cons p results ih => rw [fillAll_cons, ih, List.length_modify]

@[simp] theorem waitAt?_fillAll (results : List (Ticket × Except Error β)) (calls : List (Call β))
    (ticket : Ticket) : waitAt? (fillAll results calls) ticket = waitAt? calls ticket := by
  induction results generalizing calls with
  | nil => rfl
  | cons p results ih =>
    rw [fillAll_cons, ih, waitAt?, List.getElem?_modify, waitAt?]
    cases calls[ticket]? with
    | none => rfl
    | some c => by_cases h : p.1 = ticket <;> simp [h]

@[simp] theorem isGone_fillAll (results : List (Ticket × Except Error β)) (calls : List (Call β)) :
    isGone (fillAll results calls) = isGone calls := by
  funext ticket
  rw [isGone, waitAt?_fillAll, isGone]

@[simp] theorem settlements_fillAll (results filled : List (Ticket × Except Error β))
    (calls : List (Call β)) :
    (settlements results (fillAll filled calls) : List (Event α β)) =
      settlements results calls := by
  simp only [settlements, waitAt?_fillAll]

theorem settlements_cons (p : Ticket × Except Error β) (results : List (Ticket × Except Error β))
    (calls : List (Call β)) : (settlements (p :: results) calls : List (Event α β)) =
      settlements [p] calls ++ settlements results calls := by
  rw [← List.singleton_append, settlements, List.filterMap_append]
  rfl

theorem slotAt?_fillAll_of_notMem {results : List (Ticket × Except Error β)} {ticket : Ticket}
    (h : ticket ∉ results.map Prod.fst) (calls : List (Call β)) :
    slotAt? (fillAll results calls) ticket = slotAt? calls ticket := by
  induction results generalizing calls with
  | nil => rfl
  | cons p results ih =>
    rw [List.map_cons, List.mem_cons, not_or] at h
    obtain ⟨hp, hr⟩ := h
    rw [fillAll_cons, ih hr, slotAt?, List.getElem?_modify_ne _ _ (Ne.symm hp), slotAt?]

theorem slotAt?_fillAll_of_mem {results : List (Ticket × Except Error β)}
    (nd : (results.map Prod.fst).Nodup) {p : Ticket × Except Error β} (hp : p ∈ results)
    {calls : List (Call β)} (hlt : p.1 < calls.length) :
    slotAt? (fillAll results calls) p.1 = some (.filled p.2) := by
  induction results generalizing calls with
  | nil => cases hp
  | cons q results ih =>
    obtain ⟨hq, hr⟩ := List.nodup_cons.mp nd
    rw [fillAll_cons]
    rcases List.mem_cons.mp hp with rfl | hp
    · rw [slotAt?_fillAll_of_notMem hq, slotAt?, List.getElem?_modify_eq,
        List.getElem?_eq_getElem hlt]
      rfl
    · exact ih hr hp (by rwa [List.length_modify])

def releaseAll (slots : List Ticket) (calls : List (Call β)) : List (Call β) :=
  slots.foldl (fun calls slot => calls.modify slot fun call =>
    match call.slot with
    | .empty => { call with slot := .released }
    | _ => call) calls

@[simp] theorem length_releaseAll (slots : List Ticket) (calls : List (Call β)) :
    (releaseAll slots calls).length = calls.length := by
  induction slots generalizing calls with
  | nil => rfl
  | cons slot slots ih =>
    rw [releaseAll, List.foldl_cons]
    exact (ih _).trans (List.length_modify ..)

theorem slotAt?_releaseAll_of_notMem {slots : List Ticket} {ticket : Ticket} (h : ticket ∉ slots)
    (calls : List (Call β)) : slotAt? (releaseAll slots calls) ticket = slotAt? calls ticket := by
  induction slots generalizing calls with
  | nil => rfl
  | cons slot slots ih =>
    obtain ⟨hs, hr⟩ := not_or.mp fun hor => h (List.mem_cons.mpr hor)
    rw [releaseAll, List.foldl_cons]
    refine (ih hr _).trans ?_
    rw [slotAt?, List.getElem?_modify_ne _ _ (Ne.symm hs), slotAt?]

theorem slotAt?_releaseAll_filled {ticket : Ticket} {result : Except Error β}
    {calls : List (Call β)}
    (h : slotAt? calls ticket = some (.filled result)) (slots : List Ticket) :
    slotAt? (releaseAll slots calls) ticket = some (.filled result) := by
  induction slots generalizing calls with
  | nil => exact h
  | cons slot slots ih =>
    rw [releaseAll, List.foldl_cons]
    refine ih ?_
    by_cases hs : slot = ticket
    · subst hs
      obtain ⟨call, hc, hf⟩ := Option.map_eq_some_iff.mp h
      rw [slotAt?, List.getElem?_modify_eq, hc]
      simp [hf]
    · rw [slotAt?, List.getElem?_modify_ne _ _ hs]
      exact h

namespace Engine

def withCalls (e : Engine α β) (calls : List (Call β)) (unobserved : Nat) : Engine α β :=
  { e with calls := calls, counters := { e.counters with unobserved := unobserved } }

theorem settle_eq (e : Engine α β) (slot : Ticket) (result : Except Error β) :
    e.settle slot result =
      (e.withCalls (fillAll [(slot, result)] e.calls)
        (e.counters.unobserved + if isGone e.calls slot then 1 else 0),
        settlements [(slot, result)] e.calls) := by
  unfold settle
  cases hc : e.calls[slot]? with
  | none =>
    have hsame : e.calls.modify slot (fun c => { c with slot := .filled result }) = e.calls :=
      List.modify_eq_self (List.getElem?_eq_none_iff.mp hc)
    simp [withCalls, fillAll, isGone, waitAt?, settlements, hc, hsame]
  | some call =>
    cases hw : call.wait.isWaiting <;>
      simp [withCalls, fillAll, isGone, waitAt?, settlements, hc, hw]

theorem settleAll_eq (e : Engine α β) (results : List (Ticket × Except Error β)) :
    e.settleAll results =
      (e.withCalls (fillAll results e.calls)
        (e.counters.unobserved + results.countP fun p => isGone e.calls p.1),
        settlements results e.calls) := by
  induction results generalizing e with
  | nil => rfl
  | cons p results ih =>
    obtain ⟨slot, result⟩ := p
    have hcount : (e.counters.unobserved + if isGone e.calls slot then 1 else 0) +
        results.countP (fun p => isGone e.calls p.1) = e.counters.unobserved +
          ((slot, result) :: results).countP fun p => isGone e.calls p.1 := by
      simp only [List.countP_cons]
      omega
    rw [settlements_cons]
    simp only [settleAll, settle_eq, ih, withCalls, isGone_fillAll, settlements_fillAll, ← hcount]
    rfl

/-- An engine that differs in nothing that batches and tasks are filed by. -/
structure SameBooks (e e' : Engine α β) : Prop where
  registry : e'.registry = e.registry
  tasks : e'.tasks = e.tasks
  nextId : e'.nextId = e.nextId
  calls : e'.calls.length = e.calls.length

theorem settleAll_sameBooks (e : Engine α β) (results : List (Ticket × Except Error β)) :
    SameBooks e (e.settleAll results).1 := by
  rw [settleAll_eq]
  exact ⟨rfl, rfl, rfl, length_fillAll ..⟩

theorem release_sameBooks (e : Engine α β) (slots : List Ticket) :
    SameBooks e (e.release slots) :=
  ⟨rfl, rfl, rfl, length_releaseAll ..⟩

theorem Aside.sameBooks {e e' : Engine α β} {a : Action α β} {new : List (Event α β)}
    (h : Aside e a e' new) : SameBooks e e' := by
  cases h <;> exact ⟨rfl, rfl, rfl, by simp [setWait]⟩

theorem mem_setStage_of_ne {e : Engine α β} {u : BatchTask α} (hu : u ∈ e.tasks) {id : Nat}
    (hne : u.id ≠ id) (stage : Stage α) : u ∈ (e.setStage id stage).tasks := by
  refine List.mem_map.mpr ⟨u, hu, ?_⟩
  rw [if_neg hne]

theorem mem_setStage_self {e : Engine α β} {t : BatchTask α} (ht : t ∈ e.tasks)
    (stage : Stage α) : { t with stage := stage } ∈ (e.setStage t.id stage).tasks := by
  refine List.mem_map.mpr ⟨t, ht, ?_⟩
  rw [if_pos rfl]

theorem Aside.pool {e e' : Engine α β} {a : Action α β} {new : List (Event α β)}
    (h : Aside e a e' new) : e'.pool = e.pool := by
  cases h <;> rfl

theorem Aside.active {e e' : Engine α β} {a : Action α β} {new : List (Event α β)}
    (h : Aside e a e' new) : e'.counters.active = e.counters.active := by
  cases h <;> rfl

def refusals (slots : List Ticket) : List (Ticket × Except Error β) :=
  slots.map fun slot => (slot, .error (.cancelled .engine))

/-- What comes of a task's asking for a worker with `b`. -/
inductive Asked (e : Engine α β) (b : Batch α) : Engine α β → List (Event α β) → Prop where
  | abandoned {pool : Pool} : e.pool.ask b.id e.cancelled = (pool, .cancelled) →
      Asked e b (({ e with pool := pool }.endTask b.id).settleAll (refusals b.slots)).1
        (.abandoned b :: settlements (refusals b.slots) e.calls)
  | waiting {pool : Pool} : e.pool.ask b.id e.cancelled = (pool, .waiting) →
      Asked e b ({ e with pool := pool }.setStage b.id (.queued b)) []
  | granted {pool : Pool} : e.pool.ask b.id e.cancelled = (pool, .granted) →
      Asked e b
        ({ e with pool := pool, counters := e.counters.countStart }.setStage b.id (.running b))
        [.started b]

theorem Asked.registry {e e' : Engine α β} {b : Batch α} {new : List (Event α β)}
    (h : Asked e b e' new) : e'.registry = e.registry := by
  cases h with
  | abandoned => exact (settleAll_sameBooks _ _).registry
  | waiting => rfl
  | granted => rfl

theorem Asked.calls {e e' : Engine α β} {b : Batch α} {new : List (Event α β)}
    (h : Asked e b e' new) : e'.calls.length = e.calls.length := by
  cases h with
  | abandoned => exact (settleAll_sameBooks _ _).calls
  | waiting => rfl
  | granted => rfl

theorem Asked.nextId {e e' : Engine α β} {b : Batch α} {new : List (Event α β)}
    (h : Asked e b e' new) : e'.nextId = e.nextId := by
  cases h with
  | abandoned => exact (settleAll_sameBooks _ _).nextId
  | waiting => rfl
  | granted => rfl

theorem Asked.pool {e e' : Engine α β} {b : Batch α} {new : List (Event α β)}
    (h : Asked e b e' new) : e'.pool = (e.pool.ask b.id e.cancelled).1 := by
  cases h with
  | abandoned hp =>
    rw [settleAll_eq, hp]
    rfl
  | waiting hp => rw [hp, setStage]
  | granted hp => rw [hp, setStage]

theorem Asked.cancelled {e e' : Engine α β} {b : Batch α} {new : List (Event α β)}
    (h : Asked e b e' new) : e'.cancelled = e.cancelled := by
  cases h with
  | abandoned =>
    rw [settleAll_eq]
    rfl
  | waiting => rfl
  | granted => rfl

theorem Asked.closed {e e' : Engine α β} {b : Batch α} {new : List (Event α β)}
    (h : Asked e b e' new) : e'.closed = e.closed := by
  cases h with
  | abandoned =>
    rw [settleAll_eq]
    rfl
  | waiting => rfl
  | granted => rfl

theorem Asked.kept {e e' : Engine α β} {b : Batch α} {new : List (Event α β)}
    (h : Asked e b e' new) {u : BatchTask α} (hu : u ∈ e.tasks) (hne : u.id ≠ b.id) :
    u ∈ e'.tasks := by
  cases h with
  | abandoned =>
    rw [(settleAll_sameBooks _ _).tasks]
    exact List.mem_filter.mpr ⟨hu, by simpa using hne⟩
  | waiting => exact mem_setStage_of_ne hu hne _
  | granted => exact mem_setStage_of_ne hu hne _

theorem askForWorker_asked (e : Engine α β) (b : Batch α) :
    Asked e b (e.askForWorker b).1 (e.askForWorker b).2 := by
  rcases ha : e.pool.ask b.id e.cancelled with ⟨pool, answer⟩
  unfold askForWorker
  rw [ha]
  cases answer with
  | waiting => exact .waiting ha
  | granted => exact .granted ha
  | cancelled => simpa [failAll, settleAll_eq, endTask, refusals] using Asked.abandoned ha

end Engine

/-- What every caller of a batch is due when its execution has ended, in the order of the slots. -/
def Outcome.shares (outcome : Outcome β) (name : String) (size : Nat) : List (Except Error β) :=
  match outcome with
  | .results items =>
    if items.length = size then items
    else List.replicate size (.error (.resultCountMismatch name size items.length))
  | .panic payload => List.replicate size (.error (.executorPanicked name payload.message))

def Outcome.notes (outcome : Outcome β) (b : Batch α) : List (Event α β) :=
  match outcome with
  | .results items => if items.length = b.slots.length then [] else [.mismatched b items.length]
  | .panic payload => [.panicked b payload.message]

@[simp] theorem Outcome.length_shares (outcome : Outcome β) (name : String) (size : Nat) :
    (outcome.shares name size).length = size := by
  cases outcome with
  | results items => by_cases h : items.length = size <;> simp [shares, h]
  | panic payload => simp [shares]

namespace Engine

theorem zip_replicate {γ δ : Type} (l : List γ) (d : δ) :
    l.zip (List.replicate l.length d) = l.map fun c => (c, d) := by
  induction l with
  | nil => rfl
  | cons c l ih => simp [List.replicate_succ, ih]

/-- However an execution ends, every slot gets its share. -/
theorem finish_eq (e : Engine α β) (b : Batch α) (outcome : Outcome β) :
    e.finish b outcome =
      (((e.endExecution b).settleAll
        (b.slots.zip (outcome.shares e.name b.slots.length))).1,
        outcome.notes b ++ settlements (b.slots.zip (outcome.shares e.name b.slots.length))
          e.calls) := by
  cases outcome with
  | results items =>
    by_cases h : items.length = b.slots.length
    · simp [finish, deliver, Outcome.shares, Outcome.notes, h, settleAll_eq, endExecution, countEnd,
        giveBack, endTask]
    · simp [finish, deliver, failAll, Outcome.shares, Outcome.notes, h, settleAll_eq, endExecution,
        countEnd, giveBack, endTask, zip_replicate]
  | panic payload =>
    simp [finish, failAll, Outcome.shares, Outcome.notes, settleAll_eq, endExecution, countEnd,
      giveBack, endTask, zip_replicate]

structure SameSettings (e e' : Engine α β) : Prop where
  name : e'.name = e.name
  idle : e'.idle = e.idle
  max : e'.max = e.max
  workers : e'.pool.max = e.pool.max

theorem askForWorker_sameSettings (e : Engine α β) (b : Batch α) :
    SameSettings e (e.askForWorker b).1 := by
  have hmax := (e.pool.ask_answered b.id e.cancelled).max_eq
  cases h : e.askForWorker b with
  | mk e' new =>
    have hask := askForWorker_asked e b
    rw [h] at hask
    cases hask with
    | abandoned hp =>
      rw [hp] at hmax
      rw [settleAll_eq]
      exact ⟨rfl, rfl, rfl, hmax⟩
    | waiting hp =>
      rw [hp] at hmax
      exact ⟨rfl, rfl, rfl, hmax⟩
    | granted hp =>
      rw [hp] at hmax
      exact ⟨rfl, rfl, rfl, hmax⟩

theorem step_sameSettings {e e' : Engine α β} {a : Action α β} {new : List (Event α β)}
    (hs : Step e a e' new) : SameSettings e e' := by
  cases hs with
  | aside ha => cases ha <;> exact ⟨rfl, rfl, rfl, rfl⟩
  | resumed => exact askForWorker_sameSettings ..
  | finished =>
    rw [finish_eq, settleAll_eq]
    exact ⟨rfl, rfl, rfl, Pool.max_leave ..⟩
  | dropped => exact ⟨rfl, rfl, rfl, Pool.max_leave ..⟩
  | aborted => exact ⟨rfl, rfl, rfl, Pool.max_leave ..⟩
  | _ => exact ⟨rfl, rfl, rfl, rfl⟩

theorem Reaches.settings {o : Options} {actions : List (Action α β)} {e : Engine α β}
    {events : List (Event α β)} (h : Reaches o actions e events) : SameSettings (fresh o) e := by
  induction h with
  | built hb =>
    obtain ⟨-, rfl⟩ := build_eq_ok hb
    exact ⟨rfl, rfl, rfl, rfl⟩
  | step hr hs ih =>
    obtain ⟨hname, hidle, hmax, hworkers⟩ := step_sameSettings (step_of_step? hs)
    exact ⟨hname.trans ih.name, hidle.trans ih.idle, hmax.trans ih.max,
      hworkers.trans ih.workers⟩

end Engine

end Coalesce
