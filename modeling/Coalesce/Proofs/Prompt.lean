import Coalesce.Proofs.Conservation
import Coalesce.Proofs.Grouping
import Coalesce.Proofs.Timers

/-! # Runs with prompt timers

The clock does not pass the instant at which a timer has to run before it has run, and nothing is
submitted at an instant at which a timer still has to run. Then the batches of every key, those
flushed and the one pending, are the groups of what was submitted under the key. -/
namespace Coalesce

def Action.submission? {α β : Type} : Action α β → Option (Instant × Key × α)
  | .submit _ key request now => some (now, key, request)
  | _ => none

namespace Engine
variable {α β : Type} {e e' : Engine α β} {events new : List (Event α β)}
  {actions : List (Action α β)} {a : Action α β} {b : Batch α} {t : BatchTask α} {key : Key}
  {clock now : Instant} {o : Options}

def timeline (actions : List (Action α β)) : List (Instant × Key × α) :=
  actions.filterMap Action.submission?

def under (submitted : List (Instant × Key × α)) (key : Key) : List (Instant × α) :=
  (submitted.filter fun s => s.2.1 = key).map fun s => (s.1, s.2.2)

def flushesUnder (events : List (Event α β)) (key : Key) :
    List (Batch α × FlushReason × Instant) :=
  (flushes events).filter fun p => p.1.key = key

def closes (e : Engine α β) (b : Batch α) : WithTop Instant := b.group.closes e.idle e.max

/-- The instant at which a timer has to run: where it sleeps until, or would sleep until if it went
to sleep now. -/
def wakesAt (e : Engine α β) (t : BatchTask α) : WithTop Instant :=
  match t.stage with
  | .sleeping wakeAt => wakeAt
  | _ => match e.pendingAs? t.key t.id with
    | some b => e.closes b
    | none => ⊤

/-- A step that can be made at an instant. The engine is not cancelled and no timer is dropped. -/
def Timely (e : Engine α β) (clock : Instant) : Action α β → Prop
  | .submit _ _ _ now => now = clock ∧ ∀ t ∈ e.timers, (clock : WithTop Instant) < e.wakesAt t
  | .wake _ _ now => now = clock
  | .cancel => False
  | .kill id => ∀ t ∈ e.timers, t.id ≠ id
  | _ => True

/-- An engine built from `o` comes to `e` with prompt timers, and the clock then reads `clock`. -/
inductive Prompt (o : Options) :
    List (Action α β) → Engine α β → List (Event α β) → Instant → Prop where
  | built {e : Engine α β} {log : List LogEntry} : build o = .ok (e, log) → Prompt o [] e [] ⟨0⟩
  | waited {actions : List (Action α β)} {e : Engine α β} {events : List (Event α β)}
      {clock now : Instant} : Prompt o actions e events clock → clock ≤ now →
      (∀ t ∈ e.timers, (now : WithTop Instant) ≤ e.wakesAt t) → Prompt o actions e events now
  | step {actions : List (Action α β)} {e : Engine α β} {events : List (Event α β)}
      {clock : Instant} {action : Action α β} {e' : Engine α β} {new : List (Event α β)} :
      Prompt o actions e events clock → e.Timely clock action →
      e.step? action = some (e', new) → Prompt o (actions ++ [action]) e' (events ++ new) clock

theorem Prompt.reaches (h : Prompt o actions e events clock) : Reaches o actions e events := by
  induction h with
  | built hb => exact .built hb
  | waited _ _ _ ih => exact ih
  | step _ _ hs ih => exact ih.step hs

/-- No timer is late or sleeps too long, and every flush was at the end of its batch's group; under
every key the batches so far are the groups of what was submitted. -/
structure Follows (e : Engine α β) (actions : List (Action α β)) (events : List (Event α β))
    (clock : Instant) : Prop where
  uncancelled : e.cancelled = false
  watched : Watched e
  onTime : ∀ t ∈ e.timers, (clock : WithTop Instant) ≤ e.wakesAt t
  early : ∀ t ∈ e.timers, ∀ b, e.pendingAs? t.key t.id = some b → e.wakesAt t ≤ e.closes b
  past : ∀ p ∈ e.registry, p.2.lastActivity ≤ clock
  punctual : ∀ p ∈ flushes events, e.closes p.1 = (p.2.2 : WithTop Instant) ∧
    p.2.1 = p.1.group.reason e.idle e.max ∧ p.2.2 ≤ clock
  grouped : ∀ key, (flushesUnder events key).map (fun p => p.1.group) ++
    (e.pending? key).toList.map Batch.group = Group.all e.idle e.max (under (timeline actions) key)

theorem wakesAt_of_armed (hs : t.stage = .spawned ∨ t.stage = .checking)
    (hp : e.pendingAs? t.key t.id = some b) : e.wakesAt t = e.closes b := by
  rcases hs with hs | hs <;> simp [wakesAt, hs, hp]

theorem wakesAt_of_sleeping {wakeAt : Option Instant} (hs : t.stage = .sleeping wakeAt) :
    e.wakesAt t = wakeAt := by
  rw [wakesAt, hs]

theorem closes_eq (hset : SameSettings e e') : e'.closes b = e.closes b := by
  rw [closes, hset.idle, hset.max, closes]

/-- A request that joins a batch puts its end off. -/
theorem closes_le_closes_push (h : b.lastActivity ≤ now) (request : α) (slot : Ticket) :
    e.closes b ≤ e.closes (b.push request slot now) :=
  Group.closes_le_closes_join (s := (now, request)) h

theorem pendingAs?_eq (h : e'.pending? key = e.pending? key) (id : Nat) :
    e'.pendingAs? key id = e.pendingAs? key id := by
  rw [pendingAs?, h, pendingAs?]

/-- Where a batch was found under a key before a request joined, one is found whose end is no
earlier. -/
theorem pendingAs?_joinBatch {id : Nat} {k : Key} (h : e.pendingAs? k id = some b)
    (hpast : b.lastActivity ≤ now) (token : String) (key : Key) (request : α) :
    ∃ c, (e.joinBatch token key request now).1.pendingAs? k id = some c ∧
      e.closes b ≤ (e.joinBatch token key request now).1.closes c := by
  obtain ⟨hp, hi⟩ := Option.filter_eq_some_iff.mp h
  have hpending := pending?_joinBatch e token key request now k
  by_cases hk : k = key
  · rw [if_pos hk, hp] at hpending
    exact ⟨_, Option.filter_eq_some_iff.mpr ⟨hpending, hi⟩, closes_le_closes_push hpast ..⟩
  · rw [if_neg hk, hp] at hpending
    exact ⟨b, Option.filter_eq_some_iff.mpr ⟨hpending, hi⟩, le_rfl⟩

theorem Sound.key_ne_of_timer (h : Sound e events) {u : BatchTask α} (ht : t ∈ e.timers)
    (hu : u ∈ e.timers) (hne : t.id ≠ u.id) : t.key ≠ u.key := by
  intro hk
  obtain ⟨ht, hts⟩ := mem_timers.mp ht
  obtain ⟨hu, hus⟩ := mem_timers.mp hu
  obtain ⟨b, hb, hbi⟩ := h.timing t ht hts
  obtain ⟨c, hc, hci⟩ := h.timing u hu hus
  have hsame := List.inj_on_of_nodup_map h.keys hb hc hk
  exact hne (hbi.symm.trans ((congrArg (fun p => p.2.id) hsame).trans hci))

/-- The other timers find their batches where they were. -/
theorem Sound.pendingAs?_takeBatch (h : Sound e events) {u : BatchTask α} (ht : t ∈ e.timers)
    (hu : u ∈ e.timers) (hne : u.id ≠ t.id) (b : Batch α) (reason : FlushReason) :
    (e.takeBatch t b reason).pendingAs? u.key u.id = e.pendingAs? u.key u.id := by
  refine pendingAs?_eq ?_ u.id
  exact (pending?_removeBatch e t.key u.key).trans (if_neg (h.key_ne_of_timer hu ht hne))

/-- A batch that is opened changes nothing for the timers of the others. -/
theorem Sound.pendingAs?_openBatch (h : Sound e events) (hp : e.pending? key = none)
    (ht : t ∈ e.timers) (token : String) (request : α) (now : Instant) :
    (e.openBatch token key request now).1.pendingAs? t.key t.id = e.pendingAs? t.key t.id := by
  obtain ⟨htask, hst⟩ := mem_timers.mp ht
  obtain ⟨c, hc⟩ := h.timer_finds htask hst
  refine pendingAs?_eq ?_ t.id
  rw [pending?_openBatch hp token request now, if_neg]
  rintro rfl
  rw [pendingAs?, hp] at hc
  cases hc

/-- A timer has to run at the same instant if it still finds the same batch. -/
theorem wakesAt_eq (hset : SameSettings e e')
    (hp : e'.pendingAs? t.key t.id = e.pendingAs? t.key t.id) : e'.wakesAt t = e.wakesAt t := by
  unfold wakesAt
  rw [hp]
  simp only [closes_eq hset]

/-- Where a timer finds a batch with a later end, it has to run no earlier, and sleeps no longer
than until then. -/
theorem wakesAt_le_wakesAt {c : Batch α} (hp : e.pendingAs? t.key t.id = some b)
    (hp' : e'.pendingAs? t.key t.id = some c) (hle : e.closes b ≤ e'.closes c)
    (hearly : e.wakesAt t ≤ e.closes b) :
    e.wakesAt t ≤ e'.wakesAt t ∧ e'.wakesAt t ≤ e'.closes c := by
  unfold wakesAt at *
  cases hs : t.stage with
  | sleeping wakeAt =>
    rw [hs] at hearly
    exact ⟨le_rfl, hearly.trans hle⟩
  | _ =>
    rw [hp, hp']
    exact ⟨hle, le_rfl⟩

theorem flushesUnder_append (events new : List (Event α β)) (key : Key) :
    flushesUnder (events ++ new) key = flushesUnder events key ++ flushesUnder new key := by
  simp [flushesUnder]

theorem flushesUnder_flushed (b : Batch α) (reason : FlushReason) (now : Instant) (key : Key) :
    flushesUnder ([.flushed b reason now] : List (Event α β)) key =
      if b.key = key then [(b, reason, now)] else [] := by
  by_cases hk : b.key = key <;> simp [flushesUnder, flushes, Event.flush?, hk]

theorem timeline_append (actions more : List (Action α β)) :
    timeline (actions ++ more) = timeline actions ++ timeline more := List.filterMap_append

theorem timeline_concat_of_none (ha : a.submission? = none) (actions : List (Action α β)) :
    timeline (actions ++ [a]) = timeline actions := by
  simp [timeline, ha]

theorem under_append (submitted more : List (Instant × Key × α)) (key : Key) :
    under (submitted ++ more) key = under submitted key ++ under more key := by
  simp [under]

theorem overlooks_flushes : Overlooks (Event.flush? : Event α β → _) := by
  constructor <;> intros <;> rfl

namespace Follows

/-- Nothing is flushed, and what becomes of the timers and the pending batches is right. -/
theorem unflushed (h : Follows e actions events clock) (hset : SameSettings e e')
    (hc : e'.cancelled = e.cancelled) (hw : Watched e')
    (htimers : ∀ t ∈ e'.timers, (clock : WithTop Instant) ≤ e'.wakesAt t ∧
      ∀ b, e'.pendingAs? t.key t.id = some b → e'.wakesAt t ≤ e'.closes b)
    (hpast : ∀ p ∈ e'.registry, p.2.lastActivity ≤ clock) (hn : flushes new = [])
    (hgroups : ∀ key, (flushesUnder events key).map (fun p => p.1.group) ++
      (e'.pending? key).toList.map Batch.group =
        Group.all e.idle e.max (under (timeline (actions ++ [a])) key)) :
    Follows e' (actions ++ [a]) (events ++ new) clock := by
  have hflushes : flushes (events ++ new) = flushes events := by
    rw [flushes_append, hn, List.append_nil]
  constructor
  case uncancelled => exact hc.trans h.uncancelled
  case watched => exact hw
  case onTime => exact fun t ht => (htimers t ht).1
  case early => exact fun t ht => (htimers t ht).2
  case past => exact hpast
  case punctual =>
    rw [hflushes, hset.idle, hset.max]
    intro p hp
    rw [closes_eq hset]
    exact h.punctual p hp
  case grouped =>
    intro key
    rw [flushesUnder, hflushes, hset.idle, hset.max]
    exact hgroups key

/-- A step that touches neither a pending batch nor a timer. -/
theorem quiet (h : Follows e actions events clock) (hset : SameSettings e e')
    (hc : e'.cancelled = e.cancelled) (hr : e'.registry = e.registry) (hw : Watched e')
    (ht : ∀ t ∈ e'.timers, t ∈ e.timers) (hn : flushes new = []) (ha : a.submission? = none) :
    Follows e' (actions ++ [a]) (events ++ new) clock := by
  have hp : ∀ key, e'.pending? key = e.pending? key := fun key => by rw [pending?, hr, pending?]
  refine h.unflushed hset hc hw ?_ (hr ▸ h.past) hn ?_
  · intro t hm
    have hsame := pendingAs?_eq (hp t.key) t.id
    rw [wakesAt_eq hset hsame, hsame]
    refine ⟨h.onTime t (ht t hm), fun b hb => ?_⟩
    rw [closes_eq hset]
    exact h.early t (ht t hm) b hb
  · intro key
    rw [timeline_concat_of_none ha, hp]
    exact h.grouped key

/-- A timer goes to sleep or wakes too early. -/
theorem restage (h : Follows e actions events clock) (hb : Sound e events) (ht : t ∈ e.tasks)
    (hst : t.stage.isTiming = true) (hp : e.pendingAs? t.key t.id = some b) {stage : Stage α}
    (hs : stage.isTiming = true) (hlow : e.wakesAt t ≤ e.wakesAt { t with stage := stage })
    (hhigh : e.wakesAt { t with stage := stage } ≤ e.closes b) (ha : a.submission? = none) :
    Follows (e.setStage t.id stage) (actions ++ [a]) (events ++ []) clock := by
  refine h.unflushed ⟨rfl, rfl, rfl, rfl⟩ rfl (h.watched.setStage t.id hs) ?_ h.past rfl ?_
  · intro u hu
    obtain ⟨hu, hus⟩ := mem_timers.mp hu
    rcases mem_setStage hb.tasks ht hu with rfl | ⟨hu, -⟩
    · refine ⟨(h.onTime t (mem_timers.mpr ⟨ht, hst⟩)).trans hlow, fun c hc => ?_⟩
      cases hp.symm.trans hc
      exact hhigh
    · have hold : u ∈ e.timers := mem_timers.mpr ⟨hu, hus⟩
      exact ⟨h.onTime u hold, h.early u hold⟩
  · intro key
    rw [timeline_concat_of_none ha]
    exact h.grouped key

/-- A timer that is due takes its batch, at the instant at which the batch's group is complete. -/
theorem flush (h : Follows e actions events clock) (hb : Sound e events) (ht : t ∈ e.tasks)
    (hst : t.stage.isTiming = true) (hp : e.pendingAs? t.key t.id = some b) {reason : FlushReason}
    (hcloses : e.closes b = (clock : WithTop Instant))
    (hreason : reason = b.group.reason e.idle e.max) (hw : Watched (e.takeBatch t b reason))
    (ha : a.submission? = none) :
    Follows (e.takeBatch t b reason) (actions ++ [a]) (events ++ [.flushed b reason clock])
      clock := by
  obtain ⟨hm, hi⟩ := pendingAs?_eq_some hp
  have hpending : ∀ key, (e.takeBatch t b reason).pending? key =
      if key = t.key then none else e.pending? key := pending?_removeBatch e t.key
  have htimers : ∀ u ∈ (e.takeBatch t b reason).timers, u ∈ e.timers ∧
      (e.takeBatch t b reason).pendingAs? u.key u.id = e.pendingAs? u.key u.id := by
    intro u hu
    obtain ⟨hu, hus⟩ := mem_timers.mp hu
    rcases mem_setStage hb.tasks ht hu with rfl | ⟨hu, hne⟩
    · cases hus
    · have hut : u ∈ e.timers := mem_timers.mpr ⟨hu, hus⟩
      exact ⟨hut, hb.pendingAs?_takeBatch (mem_timers.mpr ⟨ht, hst⟩) hut hne b reason⟩
  have hset : SameSettings e (e.takeBatch t b reason) := ⟨rfl, rfl, rfl, rfl⟩
  constructor
  case uncancelled => exact h.uncancelled
  case watched => exact hw
  case onTime =>
    intro u hu
    obtain ⟨hu, hpu⟩ := htimers u hu
    rw [wakesAt_eq hset hpu]
    exact h.onTime u hu
  case early =>
    intro u hu c hc
    obtain ⟨hu, hpu⟩ := htimers u hu
    rw [wakesAt_eq hset hpu]
    exact h.early u hu c (hpu.symm.trans hc)
  case past => exact fun p hp => h.past p (List.mem_of_mem_filter hp)
  case punctual =>
    intro p hp
    rw [flushes_append] at hp
    rcases List.mem_append.mp hp with hp | hp
    · exact h.punctual p hp
    · rw [List.mem_singleton.mp hp]
      exact ⟨hcloses, hreason, le_rfl⟩
  case grouped =>
    intro key
    have hold := h.grouped key
    have hkey : b.key = t.key := hb.own _ hm
    rw [hset.idle, hset.max, timeline_concat_of_none ha, flushesUnder_append,
      flushesUnder_flushed, hkey, hpending]
    by_cases hk : key = t.key
    · subst hk
      rw [pending?_of_mem hb.keys hm] at hold
      simpa using hold
    · simpa [hk, Ne.symm hk] using hold

/-- A request is put in where the grouping places it. -/
theorem submit (h : Follows e actions events clock) (hset : SameSettings e e')
    (hc : e'.cancelled = e.cancelled) (hw : Watched e')
    (htimers : ∀ t ∈ e'.timers, (clock : WithTop Instant) ≤ e'.wakesAt t ∧
      ∀ b, e'.pendingAs? t.key t.id = some b → e'.wakesAt t ≤ e'.closes b)
    (hpast : ∀ p ∈ e'.registry, p.2.lastActivity ≤ clock) {request : α}
    (hkey : (flushesUnder events key).map (fun p => p.1.group) ++
      (e'.pending? key).toList.map Batch.group = Group.place e.idle e.max
        ((flushesUnder events key).map (fun p => p.1.group) ++
          (e.pending? key).toList.map Batch.group) (clock, request))
    (hother : ∀ k, k ≠ key → e'.pending? k = e.pending? k) (hn : flushes new = [])
    (token : String) :
    Follows e' (actions ++ [.submit token key request clock]) (events ++ new) clock := by
  refine h.unflushed hset hc hw htimers hpast hn fun k => ?_
  have hnew : timeline [(.submit token key request clock : Action α β)] =
    [(clock, key, request)] := rfl
  rw [timeline_append, hnew, under_append]
  by_cases hk : k = key
  · subst hk
    have hone : under [(clock, k, request)] k = [(clock, request)] := by simp [under]
    rw [hone, Group.all, List.foldl_concat, ← Group.all, ← h.grouped k]
    exact hkey
  · have hnone : under [(clock, key, request)] k = [] := by simp [under, Ne.symm hk]
    rw [hnone, List.append_nil, hother k hk]
    exact h.grouped k

/-- A request joins the batch under its key before the batch's group is complete. -/
theorem joinBatch (h : Follows e actions events clock) (hb : Sound e events)
    (hp : e.pending? key = some b) (hlt : (clock : WithTop Instant) < e.closes b) (token : String)
    (request : α) (hw : Watched (e.joinBatch token key request clock).1) :
    Follows (e.joinBatch token key request clock).1
      (actions ++ [.submit token key request clock])
      (events ++ (e.joinBatch token key request clock).2) clock := by
  have hset : SameSettings e (e.joinBatch token key request clock).1 := ⟨rfl, rfl, rfl, rfl⟩
  have hpending := pending?_joinBatch e token key request clock
  refine h.submit hset rfl hw ?_ ?_ ?_ ?_ rfl token
  · intro t ht
    obtain ⟨htask, hst⟩ := mem_timers.mp ht
    obtain ⟨c, hc⟩ := hb.timer_finds htask hst
    have hpast : c.lastActivity ≤ clock := h.past _ (pendingAs?_eq_some hc).1
    obtain ⟨d, hd, hle⟩ := pendingAs?_joinBatch hc hpast token key request
    obtain ⟨hlow, hhigh⟩ := wakesAt_le_wakesAt hc hd hle (h.early t ht c hc)
    refine ⟨(h.onTime t ht).trans hlow, fun b' hb' => ?_⟩
    cases hd.symm.trans hb'
    exact hhigh
  · intro p hp
    obtain ⟨q, hq, rfl⟩ := List.mem_map.mp hp
    by_cases hk : q.1 = key
    · rw [if_pos hk]
      exact le_rfl
    · rw [if_neg hk]
      exact h.past q hq
  · rw [hpending, if_pos rfl, hp]
    simp only [Option.map_some, Option.toList_some, List.map_cons, List.map_nil,
      Group.place_concat, Batch.group_push]
    exact (if_pos hlt).symm
  · intro k hk
    rw [hpending, if_neg hk]

/-- A request comes too late for every batch that its key has had. -/
theorem openBatch (h : Follows e actions events clock) (hb : Sound e events)
    (hp : e.pending? key = none) (token : String) (request : α)
    (hw : Watched (e.openBatch token key request clock).1) :
    Follows (e.openBatch token key request clock).1
      (actions ++ [.submit token key request clock])
      (events ++ (e.openBatch token key request clock).2) clock := by
  have hset : SameSettings e (e.openBatch token key request clock).1 := ⟨rfl, rfl, rfl, rfl⟩
  have hpending := pending?_openBatch hp token request clock
  refine h.submit hset rfl hw ?_ ?_ ?_ ?_ rfl token
  · intro t ht
    obtain ⟨htask, hst⟩ := mem_timers.mp ht
    rcases List.mem_append.mp htask with htask | hnew
    · have hold : t ∈ e.timers := mem_timers.mpr ⟨htask, hst⟩
      have hsame := hb.pendingAs?_openBatch hp hold token request clock
      rw [wakesAt_eq hset hsame, hsame]
      exact ⟨h.onTime t hold, h.early t hold⟩
    · rw [List.mem_singleton.mp hnew]
      have hfound : (e.openBatch token key request clock).1.pendingAs? key e.nextId =
          some ((Batch.empty e.nextId key clock).push request e.calls.length clock) :=
        Option.filter_eq_some_iff.mpr ⟨(hpending key).trans (if_pos rfl), decide_eq_true rfl⟩
      rw [wakesAt_of_armed (.inl rfl) hfound]
      refine ⟨Group.le_closes_start (clock, request), fun b' hb' => ?_⟩
      cases hfound.symm.trans hb'
      exact le_rfl
  · intro p hp
    rcases List.mem_append.mp hp with hp | hp
    · exact h.past p hp
    · rw [List.mem_singleton.mp hp]
      exact le_rfl
  · rw [hpending, if_pos rfl, hp, Option.toList_none, List.map_nil, List.append_nil,
      Group.place_of_closed]
    · rfl
    · intro g hg
      obtain ⟨p, hp, rfl⟩ := List.mem_map.mp hg
      obtain ⟨hcloses, -, hle⟩ := h.punctual p (List.mem_of_mem_filter hp)
      exact hcloses.trans_le (WithTop.coe_le_coe.mpr hle)
  · intro k hk
    rw [hpending, if_neg hk]

end Follows

theorem mem_timers_endTask (id : Nat) (h : t ∈ (e.endTask id).timers) : t ∈ e.timers := by
  obtain ⟨ht, hs⟩ := mem_timers.mp h
  exact mem_timers.mpr ⟨List.mem_of_mem_filter ht, hs⟩

theorem mem_timers_setStage (id : Nat) {stage : Stage α} (hs : stage.isTiming = false)
    (h : t ∈ (e.setStage id stage).timers) : t ∈ e.timers := by
  obtain ⟨ht, hts⟩ := mem_timers.mp h
  obtain ⟨u, hu, rfl⟩ := List.mem_map.mp ht
  by_cases hi : u.id = id
  · rw [if_pos hi, hs] at hts
    cases hts
  · rw [if_neg hi] at hts ⊢
    exact mem_timers.mpr ⟨hu, hts⟩

theorem Asked.mem_timers (h : Asked e b e' new) (ht : t ∈ e'.timers) : t ∈ e.timers := by
  cases h with
  | abandoned =>
    rw [settleAll_eq] at ht
    exact mem_timers_endTask (e := e) b.id ht
  | waiting => exact mem_timers_setStage (e := e) b.id rfl ht
  | granted => exact mem_timers_setStage (e := e) b.id rfl ht

theorem Watched.exists_timer (h : Watched e) (hb : Sound e events) (hp : e.pending? key = some b) :
    ∃ t ∈ e.timers, e.pendingAs? t.key t.id = some b := by
  have hm := mem_registry_of_pending? hp
  obtain ⟨t, ht, hk, hi⟩ := h _ hm
  refine ⟨t, ht, ?_⟩
  rw [hk, hi]
  exact pendingAs?_of_mem hb.keys hm

theorem closes_of_dueReason? {reason : FlushReason}
    (h : e.dueReason? b false now = some reason) :
    e.closes b ≤ now ∧ reason = b.group.reason e.idle e.max := by
  cases hd : b.deadline e.idle e.max with
  | none => simp [dueReason?, hd] at h
  | some p =>
    obtain ⟨instant, why⟩ := p
    obtain ⟨hcloses, hreason⟩ := Batch.deadline_eq_some hd
    by_cases hle : instant ≤ now
    · simp only [dueReason?, hd, if_pos hle, Bool.false_eq_true, if_false,
        Option.some.injEq] at h
      exact ⟨hcloses.trans_le (WithTop.coe_le_coe.mpr hle), h.symm.trans hreason⟩
    · simp [dueReason?, hd, hle] at h

theorem dueReason?_ne_none (h : e.closes b ≤ now) : e.dueReason? b false now ≠ none := by
  cases hd : b.deadline e.idle e.max with
  | none =>
    rw [closes, Batch.deadline_eq_none_iff.mp hd] at h
    exact absurd h (not_le.mpr (WithTop.coe_lt_top now))
  | some p =>
    rw [closes, (Batch.deadline_eq_some hd).1, WithTop.coe_le_coe] at h
    simp [dueReason?, hd, h]

theorem step_follows (hs : Step e a e' new) (hb : Sound e events) (htimely : e.Timely clock a)
    (h : Follows e actions events clock) : Follows e' (actions ++ [a]) (events ++ new) clock := by
  have hset := step_sameSettings hs
  have hw : Watched e' := by
    refine step_watched hs hb h.watched ?_
    rintro t ht rfl hst
    exact htimely t (mem_timers.mpr ⟨ht, by rw [hst]; rfl⟩) rfl
  cases hs with
  | aside ha =>
    cases ha with
    | rejected hc =>
      rw [h.uncancelled] at hc
      cases hc
    | cancelled => exact htimely.elim
    | _ => exact h.quiet hset rfl rfl hw (fun _ ht => ht) rfl rfl
  | @joined token key request now b _ hp =>
    obtain ⟨rfl, hlt⟩ := htimely
    obtain ⟨t, ht, hfound⟩ := h.watched.exists_timer hb hp
    exact h.joinBatch hb hp ((hlt t ht).trans_le (h.early t ht b hfound)) _ _ hw
  | opened _ hp =>
    obtain ⟨rfl, -⟩ := htimely
    exact h.openBatch hb hp _ _ hw
  | @slept t b ht hst hp =>
    have hsleeps : e.wakesAt { t with
        stage := .sleeping ((b.deadline e.idle e.max).map (·.1)) } = e.closes b :=
      (wakesAt_of_sleeping rfl).trans (b.deadline_eq e.idle e.max).1
    refine h.restage hb ht (Stage.isTiming_of_armed hst) hp rfl ?_ hsleeps.le rfl
    rw [hsleeps]
    exact (wakesAt_of_armed hst hp).le
  | strayed ht hst hp =>
    obtain ⟨b, hfound⟩ := hb.timer_finds ht (Stage.isTiming_of_armed hst)
    rw [hp] at hfound
    cases hfound
  | @rechecked t wakeAt shutdown now ht hst =>
    have htiming := Stage.isTiming_of_sleeping hst
    obtain ⟨b, hp⟩ := hb.timer_finds ht htiming
    have hchecks : e.wakesAt { t with stage := .checking } = e.closes b :=
      wakesAt_of_armed (.inr rfl) hp
    refine h.restage hb ht htiming hp rfl ?_ hchecks.le rfl
    rw [hchecks]
    exact h.early t (mem_timers.mpr ⟨ht, htiming⟩) b hp
  | @flushed t wakeAt shutdown now b reason ht hst hmay hp hdue =>
    have hnow : now = clock := htimely
    subst hnow
    cases shutdown with
    | true =>
      rw [mayWake, if_pos rfl, h.uncancelled] at hmay
      cases hmay
    | false =>
      have htiming := Stage.isTiming_of_sleeping hst
      have ht' := mem_timers.mpr ⟨ht, htiming⟩
      -- the batch is due, so its end is past; the timer was not late, so it is not
      obtain ⟨hle, hreason⟩ := closes_of_dueReason? hdue
      have hcloses : e.closes b = (now : WithTop Instant) :=
        le_antisymm hle ((h.onTime t ht').trans (h.early t ht' b hp))
      exact h.flush hb ht htiming hp hcloses hreason hw rfl
  | @resumed t b =>
    have hask := askForWorker_asked e b
    exact h.quiet hset hask.cancelled hask.registry hw (fun _ ht => hask.mem_timers ht)
      (overlooks_flushes.asked rfl rfl hask) rfl
  | @finished t b outcome =>
    rw [finish_eq, settleAll_eq] at *
    exact h.quiet hset rfl rfl hw (fun _ ht => mem_timers_endTask (e := e) b.id ht)
      (overlooks_flushes.ending ..) rfl
  | lost ht hst => exact absurd rfl (htimely _ (mem_timers.mpr ⟨ht, by rw [hst]; rfl⟩))
  | orphaned ht hst => exact absurd rfl (htimely _ (mem_timers.mpr ⟨ht, hst⟩))
  | vanished ht hst => exact absurd rfl (htimely _ (mem_timers.mpr ⟨ht, hst⟩))
  | dropped => exact h.quiet hset rfl rfl hw (fun _ ht => mem_timers_endTask _ ht) rfl rfl
  | aborted => exact h.quiet hset rfl rfl hw (fun _ ht => mem_timers_endTask _ ht) rfl rfl

theorem fresh_follows (o : Options) : Follows (fresh o : Engine α β) [] [] ⟨0⟩ := by
  constructor
  case uncancelled => rfl
  case watched => exact fun p hp => by cases hp
  case onTime => exact fun t ht => by cases ht
  case early => exact fun t ht => by cases ht
  case past => exact fun p hp => by cases hp
  case punctual => exact fun p hp => by cases hp
  case grouped => exact fun key => rfl

theorem Follows.wait (h : Follows e actions events clock) (hle : clock ≤ now)
    (ht : ∀ t ∈ e.timers, (now : WithTop Instant) ≤ e.wakesAt t) :
    Follows e actions events now where
  uncancelled := h.uncancelled
  watched := h.watched
  onTime := ht
  early := h.early
  past := fun p hp => (h.past p hp).trans hle
  punctual := fun p hp => by
    obtain ⟨hcloses, hreason, hpast⟩ := h.punctual p hp
    exact ⟨hcloses, hreason, hpast.trans hle⟩
  grouped := h.grouped

theorem Prompt.follows (h : Prompt o actions e events clock) : Follows e actions events clock := by
  induction h with
  | built hb =>
    obtain ⟨-, rfl⟩ := build_eq_ok hb
    exact fresh_follows o
  | waited _ hle ht ih => exact ih.wait hle ht
  | step hr htimely hs ih => exact step_follows (step_of_step? hs) hr.reaches.sound htimely ih

end Engine

end Coalesce
