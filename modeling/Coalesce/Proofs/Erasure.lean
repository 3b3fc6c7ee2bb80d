import Coalesce.Proofs.Filing

/-! # What is left of a run for one key

Of a run only the actions that belong to one key are kept, with the ids and the tickets that they
have when nothing else is there. A task that has its worker slot already is not made to look for one
again. -/
namespace Coalesce
variable {α β : Type}

/-- How many of the first `i` keys are `key`: the place of what has the number `i`, if only what is
under `key` is counted. -/
def place (key : Key) (keys : List Key) (i : Nat) : Nat := (keys.take i).count key

def place? (key : Key) (keys : List Key) (i : Nat) : Option Nat :=
  if keys[i]? = some key then some (place key keys i) else none

section Places
variable {key k : Key} {keys : List Key} {i j : Nat}

theorem place_succ (h : keys[i]? = some k) :
    place key keys (i + 1) = place key keys i + if k = key then 1 else 0 := by
  rw [place, List.take_add_one, h, List.count_append, place]
  by_cases hk : k = key <;> simp [hk]

theorem place_mono (h : i ≤ j) : place key keys i ≤ place key keys j :=
  (List.take_sublist_take_left h).count_le key

theorem place_lt (h : keys[i]? = some key) (hij : i < j) : place key keys i < place key keys j := by
  have hsucc : place key keys (i + 1) = place key keys i + if key = key then 1 else 0 :=
    place_succ h
  have hmono : place key keys (i + 1) ≤ place key keys j := place_mono hij
  rw [if_pos rfl] at hsucc
  omega

theorem place_inj (hi : keys[i]? = some key) (hj : keys[j]? = some key)
    (h : place key keys i = place key keys j) : i = j := by
  rcases Nat.lt_trichotomy i j with hlt | heq | hgt
  · have hplace := place_lt hi hlt
    omega
  · exact heq
  · have hplace := place_lt hj hgt
    omega

theorem place?_own (h : keys[i]? = some key) : place? key keys i = some (place key keys i) :=
  if_pos h

theorem place?_other (h : keys[i]? = some k) (hk : k ≠ key) : place? key keys i = none := by
  rw [place?, if_neg]
  rw [h, Option.some.injEq]
  exact hk

theorem place?_eq_some_iff (hi : keys[i]? = some key) :
    place? key keys j = some (place key keys i) ↔ j = i := by
  constructor
  · intro h
    by_cases hj : keys[j]? = some key
    · rw [place?, if_pos hj, Option.some.injEq] at h
      exact place_inj hj hi h
    · rw [place?, if_neg hj] at h
      cases h
  · rintro rfl
    exact place?_own hi

end Places

section Erase
variable {f : Nat → Option Nat} {order : List Nat} {i j : Nat}

theorem filterMap_erase_of_eq_none (h : f i = none) :
    (order.erase i).filterMap f = order.filterMap f := by
  induction order with
  | nil => rfl
  | cons k order ih =>
    by_cases hk : k = i
    · subst hk
      rw [List.erase_cons_head, List.filterMap_cons_none h]
    · rw [List.erase_cons_tail (by simpa using hk)]
      cases hf : f k with
      | none => rw [List.filterMap_cons_none hf, List.filterMap_cons_none hf, ih]
      | some m => rw [List.filterMap_cons_some hf, List.filterMap_cons_some hf, ih]

theorem filterMap_erase (h : ∀ k, f k = some j ↔ k = i) :
    (order.erase i).filterMap f = (order.filterMap f).erase j := by
  induction order with
  | nil => rfl
  | cons k order ih =>
    by_cases hk : k = i
    · subst hk
      rw [List.erase_cons_head, List.filterMap_cons_some ((h k).mpr rfl), List.erase_cons_head]
    · rw [List.erase_cons_tail (by simpa using hk)]
      cases hf : f k with
      | none => rw [List.filterMap_cons_none hf, List.filterMap_cons_none hf, ih]
      | some m =>
        have hm : m ≠ j := by
          rintro rfl
          exact hk ((h k).mp hf)
        rw [List.filterMap_cons_some hf, List.filterMap_cons_some hf, ih,
          List.erase_cons_tail (by simpa using hm)]

theorem mem_filterMap_iff (h : ∀ k, f k = some j ↔ k = i) : j ∈ order.filterMap f ↔ i ∈ order := by
  rw [List.mem_filterMap]
  constructor
  · rintro ⟨k, hk, hf⟩
    exact (h k).mp hf ▸ hk
  · exact fun hi => ⟨i, hi, (h i).mpr rfl⟩

/-- What joins the line at its end joins what is left of the line at its end. -/
theorem filterMap_join (h : ∀ k, f k = some j ↔ k = i) :
    (if i ∈ order then order else order ++ [i]).filterMap f =
      if j ∈ order.filterMap f then order.filterMap f else order.filterMap f ++ [j] := by
  by_cases hi : i ∈ order
  · rw [if_pos hi, if_pos ((mem_filterMap_iff h).mpr hi)]
  · rw [if_neg hi, if_neg fun hj => hi ((mem_filterMap_iff h).mp hj), List.filterMap_append,
      List.filterMap_cons_some ((h i).mpr rfl), List.filterMap_nil]

end Erase

structure Renaming where
  ids : Nat → Nat
  tickets : Ticket → Ticket

def naming (key : Key) (ids tickets : List Key) : Renaming := ⟨place key ids, place key tickets⟩

def Batch.rename (r : Renaming) (b : Batch α) : Batch α :=
  { b with id := r.ids b.id, slots := b.slots.map r.tickets }

def Stage.rename (r : Renaming) : Stage α → Stage α
  | .spawned => .spawned
  | .checking => .checking
  | .sleeping wakeAt => .sleeping wakeAt
  | .queued b => .queued (b.rename r)
  | .running b => .running (b.rename r)

def Event.rename (r : Renaming) : Event α β → Event α β
  | .rejected key request => .rejected key request
  | .accepted ticket key request => .accepted (r.tickets ticket) key request
  | .opened id key => .opened (r.ids id) key
  | .flushed b reason now => .flushed (b.rename r) reason now
  | .started b => .started (b.rename r)
  | .abandoned b => .abandoned (b.rename r)
  | .mismatched b actual => .mismatched (b.rename r) actual
  | .panicked b message => .panicked (b.rename r) message
  | .orphaned b => .orphaned (b.rename r)
  | .settled slot result observed => .settled (r.tickets slot) result observed
  | .returned ticket result => .returned (r.tickets ticket) result

/-- The key of an event that concerns the registry: a request is refused or taken in, a batch is
opened, flushed or dropped with its timer. -/
def Event.filedUnder? : Event α β → Option Key
  | .rejected key _ => some key
  | .accepted _ key _ => some key
  | .opened _ key => some key
  | .flushed b _ _ => some b.key
  | .orphaned b => some b.key
  | _ => none

section Renaming
variable (r : Renaming) (b : Batch α)

@[simp] theorem Batch.key_rename : (b.rename r).key = b.key := rfl
@[simp] theorem Batch.id_rename : (b.rename r).id = r.ids b.id := rfl
@[simp] theorem Batch.requests_rename : (b.rename r).requests = b.requests := rfl
@[simp] theorem Batch.deadline_rename (idle max : Duration) :
    (b.rename r).deadline idle max = b.deadline idle max := rfl

theorem Batch.rename_push (request : α) (slot : Ticket) (now : Instant) :
    (b.push request slot now).rename r = (b.rename r).push request (r.tickets slot) now := by
  simp [rename, push]

theorem Batch.rename_empty (id : Nat) (key : Key) (now : Instant) :
    (Batch.empty id key now : Batch α).rename r = Batch.empty (r.ids id) key now := rfl

theorem Stage.rename_of_isTiming {stage : Stage α} (h : stage.isTiming = true) :
    stage.rename r = stage := by
  cases stage with
  | queued => cases h
  | running => cases h
  | _ => rfl

end Renaming

/-- The action as it is when only what belongs to `key` is there, if it belongs to `key`: what is
done for its requests, its tasks and its callers, who have the tokens listed, and the cancellation
of the engine. -/
def Action.under? (key : Key) (ids tickets : List Key) (tokens : List String) :
    Action α β → Option (Action α β)
  | .submit token k request now => if k = key then some (.submit token k request now) else none
  | .arm id => (place? key ids id).map .arm
  | .wake id shutdown now => (place? key ids id).map (.wake · shutdown now)
  | .resume id => (place? key ids id).map .resume
  | .finish id outcome => (place? key ids id).map (.finish · outcome)
  | .cancel => some .cancel
  | .close => some .close
  | .cancelToken token => if token ∈ tokens then some (.cancelToken token) else none
  | .look ticket => (place? key tickets ticket).map .look
  | .leave ticket => (place? key tickets ticket).map .leave
  | .kill id => (place? key ids id).map .kill

namespace Engine

def tokensUnder (key : Key) (actions : List (Action α β)) : List String :=
  actions.filterMap fun
    | .submit token k _ _ => if k = key then some token else none
    | _ => none

def erased (key : Key) (actions : List (Action α β)) (events : List (Event α β)) :
    List (Action α β) :=
  actions.filterMap (Action.under? key (openedKeys events) (acceptedKeys events)
    (tokensUnder key actions))

/-- An engine takes the given actions in turn, but passes over a task's looking for a worker when
the task has one. The actions it takes are a history of its own. -/
inductive Replays (o : Options) : List (Action α β) → List (Action α β) → Engine α β →
    List (Event α β) → Prop where
  | built {e : Engine α β} {log : List LogEntry} : build o = .ok (e, log) → Replays o [] [] e []
  | step {given actions : List (Action α β)} {e : Engine α β} {events : List (Event α β)}
      {action : Action α β} {e' : Engine α β} {new : List (Event α β)} :
      Replays o given actions e events → e.step? action = some (e', new) →
      Replays o (given ++ [action]) (actions ++ [action]) e' (events ++ new)
  | passed {given actions : List (Action α β)} {e : Engine α β} {events : List (Event α β)}
      {t : BatchTask α} {b : Batch α} :
      Replays o given actions e events → t ∈ e.tasks → t.stage = .running b →
      Replays o (given ++ [.resume t.id]) actions e events

theorem Replays.reaches {o : Options} {given actions : List (Action α β)} {e : Engine α β}
    {events : List (Event α β)} (h : Replays o given actions e events) :
    Reaches o actions e events := by
  induction h with
  | built hb => exact .built hb
  | step _ hs ih => exact ih.step hs
  | passed _ _ _ ih => exact ih

def filedUnder (key : Key) (events : List (Event α β)) : List (Event α β) :=
  events.filter fun event => event.filedUnder? = some key

@[simp] theorem filedUnder_append (key : Key) (events new : List (Event α β)) :
    filedUnder key (events ++ new) = filedUnder key events ++ filedUnder key new :=
  List.filter_append ..

theorem filedUnder_eq_nil {key : Key} {events : List (Event α β)}
    (h : ∀ event ∈ events, event.filedUnder? ≠ some key) : filedUnder key events = [] := by
  refine List.filter_eq_nil_iff.mpr fun event he => ?_
  simpa using h event he

theorem filedUnder_settlements (key : Key) (results : List (Ticket × Except Error β))
    (calls : List (Call β)) :
    filedUnder key (settlements results calls : List (Event α β)) = [] := by
  refine filedUnder_eq_nil fun event he => ?_
  obtain ⟨p, -, hp⟩ := List.mem_filterMap.mp he
  obtain ⟨w, -, rfl⟩ := Option.map_eq_some_iff.mp hp
  simp [Event.filedUnder?]

theorem filedUnder_ending (key : Key) (outcome : Outcome β) (b : Batch α)
    (results : List (Ticket × Except Error β)) (calls : List (Call β)) :
    filedUnder key (outcome.notes b ++ settlements results calls) = [] := by
  rw [filedUnder_append, filedUnder_settlements, List.append_nil]
  refine filedUnder_eq_nil fun event he => ?_
  cases outcome with
  | results items =>
    by_cases hlen : items.length = b.slots.length
    · simp [Outcome.notes, hlen] at he
    · simp only [Outcome.notes, if_neg hlen, List.mem_singleton] at he
      simp [he, Event.filedUnder?]
  | panic payload =>
    rw [Outcome.notes, List.mem_singleton] at he
    simp [he, Event.filedUnder?]

theorem filedUnder_asked (key : Key) {e e' : Engine α β} {b : Batch α} {new : List (Event α β)}
    (h : Asked e b e' new) : filedUnder key new = [] := by
  cases h with
  | abandoned => exact filedUnder_settlements ..
  | waiting => rfl
  | granted => rfl

end Engine

end Coalesce
