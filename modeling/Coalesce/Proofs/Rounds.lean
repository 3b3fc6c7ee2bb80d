import Coalesce.Proofs.Waking

/-! # The rounds of a timer

A timer goes round a loop: it reads the end of its batch and sleeps until then, wakes, and takes the
batch if it is due. It wakes in vain only where a request has put the end off since it was read. So
every vain wake is paid for by a request of its own, and each sleep is until a later instant than
the one before. Timers may be late here by any time, and tasks may be dropped. -/
namespace Coalesce

/-- What befalls a batch after its first request: another one joins it, its timer goes to sleep
until an instant or for good, or its timer wakes, for a shutdown or not, and takes it or not. -/
inductive Turn where
  | joined
  | slept (wakeAt : WithTop Instant)
  | woke (shutdown taken : Bool)
deriving DecidableEq

namespace Turn

def sleep? : Turn → Option (WithTop Instant)
  | .slept wakeAt => some wakeAt
  | _ => none

def isWake : Turn → Bool
  | .woke _ _ => true
  | _ => false

def isVain : Turn → Bool
  | .woke _ taken => !taken
  | _ => false

end Turn

def sleeps (turns : List Turn) : List (WithTop Instant) := turns.filterMap Turn.sleep?

/-- How the turns of a batch go. Before a wake in vain a request has joined since the timer last
went to sleep, and every sleep is until a later instant than those before. A wake for a shutdown
takes the batch. Wakes in vain are no more than the requests that have joined, and all wakes are
one more at most. -/
structure Paced (turns : List Turn) : Prop where
  paid : ∀ before shutdown, before ++ [.woke shutdown false] <+: turns →
    ∃ earlier wakeAt since, before = earlier ++ .slept wakeAt :: since ∧ sleeps since = [] ∧
      .joined ∈ since
  increasing : (sleeps turns).Pairwise (· < ·)
  shutdowns : ∀ taken, .woke true taken ∈ turns → taken = true
  vain : turns.countP Turn.isVain ≤ turns.count .joined
  wakes : turns.countP Turn.isWake ≤ turns.count .joined + 1

/-- How a timer stands after the turns so far if its batch ends at `closes`. It has woken in vain
only. Awake, it has never slept until that end or beyond; asleep, it sleeps no longer than until
then, and just until then if no request has joined since. -/
inductive Tended {α : Type} (closes : WithTop Instant) : List Turn → Stage α → Prop where
  | awake {turns : List Turn} {stage : Stage α} : stage = .spawned ∨ stage = .checking →
      turns.countP Turn.isWake = turns.countP Turn.isVain →
      (∀ wakeAt ∈ sleeps turns, wakeAt < closes) → Tended closes turns stage
  | asleep {earlier : List Turn} {wakeAt : WithTop Instant} {n : Nat} :
      earlier.countP Turn.isWake = earlier.countP Turn.isVain →
      earlier.countP Turn.isVain ≤ earlier.count .joined → wakeAt ≤ closes →
      (n = 0 → closes = wakeAt) →
      Tended closes (earlier ++ .slept wakeAt :: List.replicate n .joined) (.sleeping wakeAt)

section Turns
variable {α : Type} {turns : List Turn} {stage : Stage α} {closes closes' : WithTop Instant}

@[simp] theorem sleeps_append (turns more : List Turn) :
    sleeps (turns ++ more) = sleeps turns ++ sleeps more := List.filterMap_append

@[simp] theorem sleeps_slept (wakeAt : WithTop Instant) (turns : List Turn) :
    sleeps (.slept wakeAt :: turns) = wakeAt :: sleeps turns := rfl

@[simp] theorem sleeps_joined (turns : List Turn) : sleeps (.joined :: turns) = sleeps turns := rfl

@[simp] theorem sleeps_woke (shutdown taken : Bool) (turns : List Turn) :
    sleeps (.woke shutdown taken :: turns) = sleeps turns := rfl

@[simp] theorem sleeps_nil : sleeps [] = [] := rfl

@[simp] theorem sleeps_replicate_joined (n : Nat) : sleeps (List.replicate n .joined) = [] := by
  induction n with
  | zero => rfl
  | succ n ih => exact ih

namespace Paced

theorem nil : Paced [] := by
  constructor <;> simp [sleeps]

/-- One more turn. -/
theorem concat (h : Paced turns) {turn : Turn}
    (hpaid : ∀ shutdown, turn = .woke shutdown false → ∃ earlier wakeAt since,
      turns = earlier ++ .slept wakeAt :: since ∧ sleeps since = [] ∧ .joined ∈ since)
    (hlater : ∀ wakeAt, turn = .slept wakeAt → ∀ w ∈ sleeps turns, w < wakeAt)
    (htakes : ∀ taken, turn = .woke true taken → taken = true)
    (hvain : (turns ++ [turn]).countP Turn.isVain ≤ (turns ++ [turn]).count .joined)
    (hwakes : (turns ++ [turn]).countP Turn.isWake ≤ (turns ++ [turn]).count .joined + 1) :
    Paced (turns ++ [turn]) := by
  constructor
  case paid =>
    intro before shutdown hprefix
    rcases List.prefix_concat_iff.mp hprefix with hlast | hprefix
    · obtain ⟨rfl, hturn⟩ := List.append_inj' hlast rfl
      exact hpaid shutdown (List.cons.inj hturn).1.symm
    · exact h.paid before shutdown hprefix
  case increasing =>
    cases turn with
    | slept wakeAt =>
      rw [sleeps_append, List.pairwise_append]
      refine ⟨h.increasing, List.pairwise_singleton _ _, fun w hw v hv => ?_⟩
      rw [List.mem_singleton.mp hv]
      exact hlater wakeAt rfl w hw
    | joined => simpa [sleeps_joined] using h.increasing
    | woke => simpa [sleeps_woke] using h.increasing
  case shutdowns =>
    intro taken hm
    rcases List.mem_append.mp hm with hm | hm
    · exact h.shutdowns taken hm
    · exact htakes taken (List.mem_singleton.mp hm).symm
  case vain => exact hvain
  case wakes => exact hwakes

theorem join (h : Paced turns) : Paced (turns ++ [.joined]) := by
  have hvain := h.vain
  have hwakes := h.wakes
  apply h.concat
  · intro shutdown hturn
    cases hturn
  · intro wakeAt hturn
    cases hturn
  · intro taken hturn
    cases hturn
  · simp [Turn.isVain]
    omega
  · simp [Turn.isWake]
    omega

theorem sleep (h : Paced turns) {wakeAt : WithTop Instant} (hlater : ∀ w ∈ sleeps turns, w < wakeAt) :
    Paced (turns ++ [.slept wakeAt]) := by
  apply h.concat
  · intro shutdown hturn
    cases hturn
  · intro w hturn
    cases hturn
    exact hlater
  · intro taken hturn
    cases hturn
  · simpa [Turn.isVain] using h.vain
  · simpa [Turn.isWake] using h.wakes

/-- A timer that has woken in vain only takes the batch. -/
theorem take (h : Paced turns) (hvain : turns.countP Turn.isWake = turns.countP Turn.isVain)
    (shutdown : Bool) : Paced (turns ++ [.woke shutdown true]) := by
  have hpaid := h.vain
  apply h.concat
  · intro _ hturn
    cases hturn
  · intro wakeAt hturn
    cases hturn
  · intro taken hturn
    cases hturn
    rfl
  · simpa [Turn.isVain] using hpaid
  · simp [Turn.isWake, hvain]
    omega

end Paced

namespace Tended

/-- The end of the batch is put off, or stays where it was, as a request joins. -/
theorem join (h : Tended closes turns stage) (hle : closes ≤ closes') :
    Tended closes' (turns ++ [.joined]) stage := by
  cases h with
  | awake hstage hvain hlater =>
    apply awake hstage
    · simpa [Turn.isWake, Turn.isVain] using hvain
    · intro wakeAt hw
      rw [sleeps_append, sleeps_joined, sleeps_nil, List.append_nil] at hw
      exact (hlater wakeAt hw).trans_le hle
  | @asleep earlier wakeAt n hvain hpaid hwake hexact =>
    rw [List.append_assoc, List.cons_append, ← List.replicate_succ']
    exact asleep hvain hpaid (hwake.trans hle) (fun hn => absurd hn n.succ_ne_zero)

/-- The timer goes to sleep until the end of its batch. -/
theorem sleep (h : Tended closes turns stage) (hstage : stage = .spawned ∨ stage = .checking)
    (hp : Paced turns) : Paced (turns ++ [.slept closes]) ∧
      Tended closes (turns ++ [.slept closes]) (.sleeping closes : Stage α) := by
  cases h with
  | awake _ hvain hlater =>
    exact ⟨hp.sleep hlater, asleep (n := 0) hvain hp.vain le_rfl (fun _ => rfl)⟩
  | asleep => rcases hstage with hstage | hstage <;> cases hstage

/-- A timer that wakes before its batch ends now wakes in vain. A request has joined since it went
to sleep. -/
theorem wakeInVain {wakeAt : WithTop Instant}
    (h : Tended closes turns (.sleeping wakeAt : Stage α)) (hp : Paced turns)
    (hlate : wakeAt < closes) :
    Paced (turns ++ [.woke false false]) ∧
      Tended closes (turns ++ [.woke false false]) (.checking : Stage α) := by
  cases h with
  | awake hstage => rcases hstage with hstage | hstage <;> cases hstage
  | @asleep earlier _ n hvain hpaid hwake hexact =>
    have hn : n ≠ 0 := fun hn => hlate.ne' (hexact hn)
    have hnone : (List.replicate n Turn.joined).countP Turn.isVain = 0 ∧
        (List.replicate n Turn.joined).countP Turn.isWake = 0 := by
      simp [List.countP_replicate, Turn.isVain, Turn.isWake]
    constructor
    · apply hp.concat
      · intro _ _
        exact ⟨earlier, wakeAt, _, rfl, sleeps_replicate_joined n, List.mem_replicate.mpr ⟨hn, rfl⟩⟩
      · intro _ hturn
        cases hturn
      · intro _ hturn
        cases hturn
      · simp [Turn.isVain, hnone]
        omega
      · simp [Turn.isWake, hnone, hvain]
        omega
    · apply awake (.inr rfl)
      · simp [Turn.isWake, Turn.isVain, hnone, hvain]
      · intro w hw
        have hincreasing := hp.increasing
        simp only [sleeps_append, sleeps_slept, sleeps_woke, sleeps_replicate_joined, sleeps_nil,
          List.append_nil, List.mem_append, List.mem_singleton] at hw hincreasing
        rcases hw with hw | rfl
        · exact ((List.pairwise_append.mp hincreasing).2.2 w hw _ List.mem_cons_self).trans hlate
        · exact hlate

/-- A timer that may wake has not taken its batch. -/
theorem wakes_eq (h : Tended closes turns stage) :
    turns.countP Turn.isWake = turns.countP Turn.isVain := by
  cases h with
  | awake _ hvain => exact hvain
  | asleep hvain => simp [List.countP_replicate, Turn.isVain, Turn.isWake, hvain]

end Tended

end Turns

def Stage.turn? {α : Type} : Stage α → Option Turn
  | .sleeping wakeAt => some (.slept wakeAt)
  | _ => none

def Action.isWakeOf {α β : Type} (id : Nat) : Action α β → Bool
  | .wake i _ _ => i = id
  | _ => false

namespace Engine
variable {α β : Type} {e e' m : Engine α β} {events new : List (Event α β)}
  {actions : List (Action α β)} {a : Action α β} {b : Batch α} {t : BatchTask α} {id : Nat}
  {turns : List Turn} {key : Key} {now : Instant} {stage : Stage α} {o : Options}

/-- What a step is to the batch called `id`. -/
def turn? (e : Engine α β) (id : Nat) (a : Action α β) (e' : Engine α β)
    (new : List (Event α β)) : Option Turn :=
  match a with
  | .submit _ key _ _ => if !e.cancelled && (e.pendingAs? key id).isSome then some .joined else none
  | .arm i => if i = id then (e'.task? id).bind fun t => t.stage.turn? else none
  | .wake i shutdown _ => if i = id then some (.woke shutdown !(flushed new).isEmpty) else none
  | _ => none

/-- The turns of the batch called `id` while the actions are taken. -/
def story (e : Engine α β) (id : Nat) : List (Action α β) → List Turn
  | [] => []
  | a :: rest =>
    match e.step? a with
    | none => []
    | some (e', new) => (e.turn? id a e' new).toList ++ e'.story id rest

theorem story_concat (hr : e.run? actions = some (m, events)) (hs : m.step? a = some (e', new)) :
    e.story id (actions ++ [a]) = e.story id actions ++ (m.turn? id a e' new).toList := by
  induction actions generalizing e events with
  | nil =>
    simp only [run?, Option.some.injEq, Prod.mk.injEq] at hr
    obtain ⟨rfl, -⟩ := hr
    simp [story, hs]
  | cons c actions ih =>
    obtain ⟨k, first, others, hc, hk, -⟩ := run?_cons_eq_some_iff.mp hr
    simp [story, hc, ih hk]

structure Chronicled (id : Nat) (e : Engine α β) (events : List (Event α β))
    (turns : List Turn) : Prop where
  paced : Paced turns
  size : ∀ b ∈ e.everyBatch events, b.id = id → turns.count .joined + 1 = b.size
  unopened : e.nextId ≤ id → turns = []
  tended : ∀ t ∈ e.timers, t.id = id → ∀ b, e.pendingAs? t.key id = some b →
    Tended (e.closes b) turns t.stage

namespace Chronicled

/-- The batch called `id` is left alone. -/
theorem quiet (h : Chronicled id e events turns) (hset : SameSettings e e')
    (hnext : e.nextId ≤ e'.nextId)
    (hbatches : ∀ b ∈ e'.everyBatch (events ++ new), b.id = id → b ∈ e.everyBatch events)
    (htimers : ∀ t ∈ e'.timers, t.id = id →
      t ∈ e.timers ∧ e'.pendingAs? t.key id = e.pendingAs? t.key id) :
    Chronicled id e' (events ++ new) turns := by
  constructor
  case paced => exact h.paced
  case size => exact fun b hb hid => h.size b (hbatches b hb hid) hid
  case unopened => exact fun hle => h.unopened (hnext.trans hle)
  case tended =>
    intro t ht hid b hb
    obtain ⟨ht, hsame⟩ := htimers t ht hid
    rw [closes_eq hset]
    exact h.tended t ht hid b (hsame ▸ hb)

/-- Nothing but tasks changes, and none of them is made a timer. -/
theorem of_tasks (h : Chronicled id e events turns) (hset : SameSettings e e')
    (hr : e'.registry = e.registry) (hn : e'.nextId = e.nextId) (ht : taken new = [])
    (htimers : ∀ t ∈ e'.timers, t ∈ e.timers) : Chronicled id e' (events ++ new) turns := by
  refine h.quiet hset hn.ge ?_ fun t hm _ => ⟨htimers t hm, ?_⟩
  · intro b hb _
    rw [everyBatch_append, ht, batches, hr] at hb
    exact hb
  · rw [pendingAs?, pending?, hr]
    rfl

theorem joinBatch (h : Chronicled id e events turns) (hb : Sound e events) {token : String}
    {request : α} (hb' : Sound (e.joinBatch token key request now).1
      (events ++ (e.joinBatch token key request now).2)) (hc : e.cancelled = false)
    (hp : e.pending? key = some b) (hpast : ∀ p ∈ e.registry, p.2.lastActivity ≤ now) :
    Chronicled id (e.joinBatch token key request now).1
      (events ++ (e.joinBatch token key request now).2)
      (turns ++ (e.turn? id (.submit token key request now) (e.joinBatch token key request now).1
        (e.joinBatch token key request now).2).toList) := by
  have hm := mem_registry_of_pending? hp
  by_cases hid : b.id = id
  · have hturn : e.turn? id (.submit token key request now) (e.joinBatch token key request now).1
        (e.joinBatch token key request now).2 = some .joined := by
      simp [turn?, hc, pendingAs?, hp, hid]
    rw [hturn]
    constructor
    case paced => exact h.paced.join
    case size =>
      intro c hcm hcid
      have hpushed : (key, b.push request e.calls.length now) ∈
          (e.joinBatch token key request now).1.registry :=
        List.mem_map.mpr ⟨(key, b), hm, if_pos rfl⟩
      have hsame : b.push request e.calls.length now = c :=
        hb'.eq_of_id (mem_everyBatch_of_registry hpushed) hcm (hid.trans hcid.symm)
      have hsize := h.size b (mem_everyBatch_of_registry hm) hid
      rw [← hsame]
      simp [Batch.size, Batch.push] at hsize ⊢
      omega
    case unopened =>
      intro hle
      exact absurd (hid ▸ hb.id_lt (mem_everyBatch_of_registry hm)) (not_lt.mpr hle)
    case tended =>
      intro t ht htid c hcp
      obtain ⟨htask, hst⟩ := mem_timers.mp ht
      obtain ⟨d, hd⟩ := hb.timer_finds htask hst
      rw [htid] at hd
      obtain ⟨c', hc', hle⟩ := pendingAs?_joinBatch hd (hpast _ (pendingAs?_eq_some hd).1) token key
        request
      have hsame : c' = c := Option.some.inj (hc'.symm.trans hcp)
      exact hsame ▸ (h.tended t ht htid d hd).join hle
  · have hturn : e.turn? id (.submit token key request now) (e.joinBatch token key request now).1
        (e.joinBatch token key request now).2 = none := by
      simp [turn?, hc, pendingAs?, hp, hid]
    rw [hturn, Option.toList_none, List.append_nil]
    refine h.quiet ⟨rfl, rfl, rfl, rfl⟩ le_rfl ?_ ?_
    · intro c hcm hcid
      rw [everyBatch_append] at hcm
      rcases List.mem_append.mp hcm with hcm | hcm
      · exact List.mem_append_left _ hcm
      · obtain ⟨q, hq, rfl⟩ := List.mem_map.mp hcm
        obtain ⟨r, hr, rfl⟩ := List.mem_map.mp hq
        by_cases hk : r.1 = key
        · have hsame := List.inj_on_of_nodup_map hb.keys hr hm hk
          rw [if_pos hk, hsame] at hcid
          exact absurd hcid hid
        · rw [if_neg hk]
          exact mem_everyBatch_of_registry hr
    · intro t ht htid
      refine ⟨ht, pendingAs?_eq ?_ id⟩
      rw [pending?_joinBatch, if_neg]
      rintro rfl
      obtain ⟨htask, hst⟩ := mem_timers.mp ht
      obtain ⟨d, hd⟩ := hb.timer_finds htask hst
      obtain ⟨hdm, hdid⟩ := pendingAs?_eq_some hd
      have hsame := List.inj_on_of_nodup_map hb.keys hdm hm rfl
      exact hid ((congrArg (fun p => p.2.id) hsame).symm.trans (hdid.trans htid))

theorem openBatch (h : Chronicled id e events turns) (hb : Sound e events) {token : String}
    {request : α} (hb' : Sound (e.openBatch token key request now).1
      (events ++ (e.openBatch token key request now).2)) (hp : e.pending? key = none) :
    Chronicled id (e.openBatch token key request now).1
      (events ++ (e.openBatch token key request now).2) turns := by
  have hnew : (key, (Batch.empty e.nextId key now).push request e.calls.length now) ∈
      (e.openBatch token key request now).1.registry :=
    List.mem_append_right _ List.mem_cons_self
  by_cases hid : id = e.nextId
  · have hturns := h.unopened hid.ge
    subst hturns
    constructor
    case paced => exact .nil
    case size =>
      intro c hcm hcid
      have hsame := hb'.eq_of_id (mem_everyBatch_of_registry hnew) hcm (hid.symm.trans hcid.symm)
      rw [← hsame]
      rfl
    case unopened => exact fun _ => rfl
    case tended =>
      intro t ht htid c _
      obtain ⟨htask, -⟩ := mem_timers.mp ht
      rcases List.mem_append.mp htask with htask | htask
      · exact absurd (htid.trans hid) (hb.task_id_lt htask).ne
      · rw [List.mem_singleton.mp htask]
        exact .awake (.inl rfl) rfl (by simp)
  · refine h.quiet ⟨rfl, rfl, rfl, rfl⟩ (Nat.le_succ _) ?_ ?_
    · intro c hcm hcid
      rw [everyBatch_append] at hcm
      rcases List.mem_append.mp hcm with hcm | hcm
      · exact List.mem_append_left _ hcm
      · obtain ⟨q, hq, rfl⟩ := List.mem_map.mp hcm
        rcases List.mem_append.mp hq with hq | hq
        · exact mem_everyBatch_of_registry hq
        · rw [List.mem_singleton.mp hq] at hcid
          exact absurd hcid.symm hid
    · intro t ht htid
      obtain ⟨htask, hst⟩ := mem_timers.mp ht
      rcases List.mem_append.mp htask with htask | htask
      · have hold : t ∈ e.timers := mem_timers.mpr ⟨htask, hst⟩
        have hsame := hb.pendingAs?_openBatch hp hold token request now
        rw [htid] at hsame
        exact ⟨hold, hsame⟩
      · rw [List.mem_singleton.mp htask] at htid
        exact absurd htid.symm hid

/-- A timer goes to sleep or wakes in vain, which is a turn of its own batch only. -/
theorem restage (h : Chronicled id e events turns) (hb : Sound e events) (ht : t ∈ e.tasks)
    (hp : e.pendingAs? t.key t.id = some b) {turn : Turn} (hjoined : turn ≠ .joined)
    (hturn : t.id = id → Paced (turns ++ [turn]) ∧ Tended (e.closes b) (turns ++ [turn]) stage) :
    Chronicled id (e.setStage t.id stage) (events ++ [])
      (turns ++ (if t.id = id then some turn else none).toList) := by
  by_cases hid : t.id = id
  · subst hid
    obtain ⟨hpaced, htended⟩ := hturn rfl
    rw [if_pos rfl, Option.toList_some, List.append_nil]
    constructor
    case paced => exact hpaced
    case size =>
      intro c hc hid
      rw [List.count_append, List.count_singleton]
      simpa [hjoined] using h.size c hc hid
    case unopened => exact fun hle => absurd (hb.task_id_lt ht) (not_lt.mpr hle)
    case tended =>
      intro u hu hid c hc
      obtain ⟨hu, -⟩ := mem_timers.mp hu
      rcases mem_setStage hb.tasks ht hu with rfl | ⟨-, hne⟩
      · have hcb : b = c := Option.some.inj (hp.symm.trans hc)
        exact hcb ▸ htended
      · exact absurd hid hne
  · rw [if_neg hid, Option.toList_none, List.append_nil turns]
    refine h.quiet ⟨rfl, rfl, rfl, rfl⟩ le_rfl ?_ ?_
    · intro c hc _
      rw [List.append_nil] at hc
      exact hc
    · intro u hu huid
      obtain ⟨hu, hus⟩ := mem_timers.mp hu
      rcases mem_setStage hb.tasks ht hu with rfl | ⟨hu, -⟩
      · exact absurd huid hid
      · exact ⟨mem_timers.mpr ⟨hu, hus⟩, rfl⟩

/-- The batch under a key leaves the registry, with its timer. -/
theorem remove (h : Chronicled id e events turns) (hb : Sound e events) (ht : t ∈ e.timers)
    (hp : e.pendingAs? t.key t.id = some b) (hset : SameSettings e e')
    (hr : e'.registry = (e.removeBatch t.key).registry) (hn : e'.nextId = e.nextId)
    (hnew : taken new = [b]) (htimers : ∀ u ∈ e'.timers, u ∈ e.timers ∧ u.id ≠ t.id) :
    Chronicled id e' (events ++ new) turns := by
  obtain ⟨hm, -⟩ := pendingAs?_eq_some hp
  refine h.quiet hset hn.ge ?_ ?_
  · intro c hc _
    have hall : ((e.removeBatch t.key).everyBatch (events ++ new)).Perm (e.everyBatch events) :=
      perm_everyBatch_removeBatch hb.keys hm hnew
    have hsame : e'.everyBatch (events ++ new) =
        (e.removeBatch t.key).everyBatch (events ++ new) := by
      rw [everyBatch, batches, hr]
      rfl
    exact hall.subset (hsame ▸ hc)
  · intro u hu hid
    obtain ⟨hold, hne⟩ := htimers u hu
    refine ⟨hold, pendingAs?_eq ?_ id⟩
    rw [pending?, hr]
    exact (pending?_removeBatch e t.key u.key).trans (if_neg (hb.key_ne_of_timer hold ht hne))

/-- A batch without a timer takes its last turn. -/
theorem last (h : Chronicled id e events turns) (htimers : ∀ t ∈ e.timers, t.id ≠ id)
    (hopened : id < e.nextId) {turn : Turn} (hjoined : turn ≠ .joined)
    (hturn : Paced (turns ++ [turn])) : Chronicled id e events (turns ++ [turn]) := by
  constructor
  case paced => exact hturn
  case size =>
    intro b hb hid
    rw [List.count_append, List.count_singleton]
    simpa [hjoined] using h.size b hb hid
  case unopened => exact fun hle => absurd hopened (not_lt.mpr hle)
  case tended => exact fun t ht hid => absurd hid (htimers t ht)

end Chronicled

theorem mem_timers_takeBatch (hb : Sound e events) (ht : t ∈ e.tasks) {reason : FlushReason}
    {u : BatchTask α} (hu : u ∈ (e.takeBatch t b reason).timers) : u ∈ e.timers ∧ u.id ≠ t.id := by
  obtain ⟨hu, hus⟩ := mem_timers.mp hu
  rcases mem_setStage hb.tasks ht hu with rfl | ⟨hu, hne⟩
  · cases hus
  · exact ⟨mem_timers.mpr ⟨hu, hus⟩, hne⟩

/-- A timer wakes in vain only if its batch ends later now than the timer slept until, and not for
a shutdown. -/
theorem late_of_dueReason? {wakeAt : WithTop Instant} {shutdown : Bool}
    (hmay : e.mayWake wakeAt shutdown now = true) (hdue : e.dueReason? b shutdown now = none) :
    shutdown = false ∧ wakeAt < e.closes b := by
  cases shutdown with
  | true => simp [dueReason?] at hdue
  | false =>
    have hclosed : ¬e.closes b ≤ now := fun hle => dueReason?_ne_none hle hdue
    cases wakeAt with
    | top => cases hmay
    | coe instant =>
      have hle : instant ≤ now := of_decide_eq_true hmay
      exact ⟨rfl, (WithTop.coe_le_coe.mpr hle).trans_lt (not_le.mp hclosed)⟩

namespace Chronicled

/-- A step that is nothing to the batch called `id`, nor makes a timer. -/
theorem passed (h : Chronicled id e events turns) (hturn : e.turn? id a e' new = none)
    (hset : SameSettings e e') (hr : e'.registry = e.registry) (hn : e'.nextId = e.nextId)
    (ht : taken new = []) (htimers : ∀ t ∈ e'.timers, t ∈ e.timers) :
    Chronicled id e' (events ++ new) (turns ++ (e.turn? id a e' new).toList) := by
  rw [hturn, Option.toList_none, List.append_nil]
  exact h.of_tasks hset hr hn ht htimers

theorem slept (h : Chronicled id e events turns) (hb : Sound e events)
    (hb' : Sound (e.setStage t.id (.sleeping ((b.deadline e.idle e.max).map (·.1))))
      (events ++ [])) (ht : t ∈ e.tasks) (hst : t.stage = .spawned ∨ t.stage = .checking)
    (hp : e.pendingAs? t.key t.id = some b) :
    Chronicled id (e.setStage t.id (.sleeping ((b.deadline e.idle e.max).map (·.1))))
      (events ++ [])
      (turns ++ (e.turn? id (.arm t.id)
        (e.setStage t.id (.sleeping ((b.deadline e.idle e.max).map (·.1)))) []).toList) := by
  have hcloses := (b.deadline_eq e.idle e.max).1
  have hturn : e.turn? id (.arm t.id)
      (e.setStage t.id (.sleeping ((b.deadline e.idle e.max).map (·.1)))) [] =
        if t.id = id then some (.slept (e.closes b)) else none := by
    by_cases hid : t.id = id
    · subst hid
      have htask := hb'.task?_of_mem (mem_setStage_self ht _)
      simp only [turn?, if_true]
      rw [htask, closes, ← hcloses]
      rfl
    · simp [turn?, hid]
  have ht' : t ∈ e.timers := mem_timers.mpr ⟨ht, Stage.isTiming_of_armed hst⟩
  rw [hturn]
  apply h.restage hb ht hp (by simp)
  intro hid
  subst hid
  rw [hcloses]
  exact (h.tended t ht' rfl b hp).sleep hst h.paced

theorem rechecked (h : Chronicled id e events turns) (hb : Sound e events) (ht : t ∈ e.tasks)
    {wakeAt : Option Instant} {shutdown : Bool} (hst : t.stage = .sleeping wakeAt)
    (hmay : e.mayWake wakeAt shutdown now = true)
    (hdue : ∀ b, e.pendingAs? t.key t.id = some b → e.dueReason? b shutdown now = none) :
    Chronicled id (e.setStage t.id .checking) (events ++ [])
      (turns ++ (e.turn? id (.wake t.id shutdown now) (e.setStage t.id .checking) []).toList) := by
  have hst' : t.stage.isTiming = true := Stage.isTiming_of_sleeping hst
  obtain ⟨b, hp⟩ := hb.timer_finds ht hst'
  obtain ⟨rfl, hlate⟩ := late_of_dueReason? hmay (hdue b hp)
  have hturn : e.turn? id (.wake t.id false now) (e.setStage t.id .checking) [] =
      if t.id = id then some (.woke false false) else none := rfl
  rw [hturn]
  apply h.restage hb ht hp (by simp)
  intro hid
  subst hid
  have htended := h.tended t (mem_timers.mpr ⟨ht, hst'⟩) rfl b hp
  rw [hst] at htended
  exact htended.wakeInVain h.paced hlate

theorem takeBatch (h : Chronicled id e events turns) (hb : Sound e events) (ht : t ∈ e.tasks)
    {wakeAt : Option Instant} (shutdown : Bool) {reason : FlushReason}
    (hset : SameSettings e (e.takeBatch t b reason)) (hst : t.stage = .sleeping wakeAt)
    (hp : e.pendingAs? t.key t.id = some b) :
    Chronicled id (e.takeBatch t b reason) (events ++ [.flushed b reason now])
      (turns ++ (e.turn? id (.wake t.id shutdown now) (e.takeBatch t b reason)
        [.flushed b reason now]).toList) := by
  have ht' : t ∈ e.timers := mem_timers.mpr ⟨ht, Stage.isTiming_of_sleeping hst⟩
  have hgone : ∀ u ∈ (e.takeBatch t b reason).timers, u ∈ e.timers ∧ u.id ≠ t.id :=
    fun u hu => mem_timers_takeBatch hb ht hu
  have hremove : Chronicled id (e.takeBatch t b reason) (events ++ [.flushed b reason now]) turns :=
    h.remove hb ht' hp hset rfl rfl rfl hgone
  by_cases hid : t.id = id
  · subst hid
    have hturn : e.turn? t.id (.wake t.id shutdown now) (e.takeBatch t b reason)
        [.flushed b reason now] = some (.woke shutdown true) := by
      simp [turn?, flushed, Event.flushed?]
    rw [hturn]
    have hwakes := (h.tended t ht' rfl b hp).wakes_eq
    refine hremove.last (fun u hu => (hgone u hu).2) ?_ (by simp) (h.paced.take hwakes shutdown)
    exact hb.task_id_lt ht
  · have hturn : e.turn? id (.wake t.id shutdown now) (e.takeBatch t b reason)
        [.flushed b reason now] = none := by
      simp [turn?, hid]
    rw [hturn, Option.toList_none, List.append_nil]
    exact hremove

end Chronicled

/-- A step that reads no clock before the latest request of any batch. -/
theorem step_chronicled (hs : Step e a e' new) (hb : Sound e events)
    (hb' : Sound e' (events ++ new))
    (hpast : ∀ now ∈ a.reading?, ∀ p ∈ e.registry, p.2.lastActivity ≤ now)
    (h : Chronicled id e events turns) :
    Chronicled id e' (events ++ new) (turns ++ (e.turn? id a e' new).toList) := by
  have hset := step_sameSettings hs
  cases hs with
  | aside ha =>
    have hbooks := ha.sameBooks
    refine h.passed ?_ hset hbooks.registry hbooks.nextId (overlooks_taken.aside ha) fun t ht => ?_
    · cases ha with
      | rejected hc => simp [turn?, hc]
      | _ => rfl
    · rwa [timers, hbooks.tasks] at ht
  | joined hc hp => exact h.joinBatch hb hb' hc hp (hpast _ rfl)
  | @opened token key request now hc hp =>
    have hturn : e.turn? id (.submit token key request now) (e.openBatch token key request now).1
        (e.openBatch token key request now).2 = none := by
      simp [turn?, pendingAs?, hp]
    rw [hturn, Option.toList_none, List.append_nil]
    exact h.openBatch hb hb' hp
  | slept ht hst hp => exact h.slept hb hb' ht hst hp
  | @strayed t ht hst hp =>
    obtain ⟨b, hfound⟩ := hb.timer_finds ht (Stage.isTiming_of_armed hst)
    rw [hp] at hfound
    cases hfound
  | rechecked ht hst hmay hdue => exact h.rechecked hb ht hst hmay hdue
  | flushed ht hst _ hp => exact h.takeBatch hb ht _ hset hst hp
  | @resumed t b =>
    have hask := askForWorker_asked e b
    exact h.passed rfl hset hask.registry hask.nextId (overlooks_taken.asked rfl rfl hask)
      fun u hu => hask.mem_timers hu
  | @finished t b outcome =>
    rw [finish_eq, settleAll_eq] at *
    exact h.passed rfl hset rfl rfl (overlooks_taken.ending ..)
      fun u hu => mem_timers_endTask (e := e) b.id hu
  | @orphaned t b ht hst _ hp =>
    rw [show e.turn? id (.kill t.id) _ _ = none from rfl, Option.toList_none, List.append_nil]
    refine h.remove hb (mem_timers.mpr ⟨ht, hst⟩) hp hset rfl rfl rfl fun u hu => ?_
    have hne : u.id ≠ t.id := (Keyed.mem_others.mp (mem_timers.mp hu).1).2
    exact ⟨mem_timers_endTask (e := e) t.id hu, hne⟩
  | _ => exact h.passed rfl hset rfl rfl rfl fun u hu => mem_timers_endTask _ hu

/-- While the clock does not go back, the turns of every batch are paced, from its opening to its
end. -/
theorem Reaches.chronicled (h : Reaches o actions e events)
    (hm : (readings actions).Pairwise (· ≤ ·)) (id : Nat) :
    Chronicled id e events ((fresh o : Engine α β).story id actions) := by
  induction h with
  | built hb =>
    obtain ⟨-, rfl⟩ := build_eq_ok hb
    constructor
    case paced => exact .nil
    case size => simp [fresh, everyBatch, batches, taken]
    case unopened => exact fun _ => rfl
    case tended => simp [fresh, timers]
  | @step actions e events a e' new hr hs ih =>
    obtain ⟨hbefore, -⟩ := pairwise_readings hm
    rw [story_concat hr.run?_fresh hs]
    refine step_chronicled (step_of_step? hs) hr.sound (hr.step hs).sound (fun now hnow => ?_)
      (ih hbefore)
    exact hr.lastActivity_le hm hnow

theorem countP_isWakeOf_singleton (e : Engine α β) (id : Nat) (a : Action α β) (m : Engine α β)
    (new : List (Event α β)) :
    [a].countP (Action.isWakeOf id) = (e.turn? id a m new).toList.countP Turn.isWake := by
  cases a with
  | submit token key request now =>
    simp only [turn?]
    split <;> rfl
  | arm i =>
    simp only [turn?]
    split
    · cases m.task? id with
      | none => rfl
      | some t => cases hst : t.stage <;> simp [hst, Stage.turn?, Action.isWakeOf, Turn.isWake]
    · rfl
  | wake i shutdown now => by_cases hid : i = id <;> simp [turn?, hid, Action.isWakeOf, Turn.isWake]
  | _ => rfl

/-- Every wake of a batch's timer is one of the batch's turns. -/
theorem countP_isWakeOf (hr : e.run? actions = some (e', events)) (id : Nat) :
    actions.countP (Action.isWakeOf id) = (e.story id actions).countP Turn.isWake := by
  induction actions generalizing e events with
  | nil => rfl
  | cons a actions ih =>
    obtain ⟨m, first, others, hs, hm, -⟩ := run?_cons_eq_some_iff.mp hr
    have hone := e.countP_isWakeOf_singleton id a m first
    rw [story, hs, ← List.singleton_append, List.countP_append, hone, ih hm, List.countP_append]

/-- While the clock does not go back, no timer spins. Of a batch that `n` requests have joined after
the first, the timer goes round its loop in vain `n` times at most, and a request has joined in
every such round. Each time it goes back to sleep until a later instant. A shutdown ends its last
round, and it wakes `n + 1` times at most. -/
theorem timer_paced (h : Reaches o actions e events) (hm : (readings actions).Pairwise (· ≤ ·))
    (hb : b ∈ e.everyBatch events) :
    Paced ((fresh o : Engine α β).story b.id actions) ∧
      ((fresh o : Engine α β).story b.id actions).count .joined + 1 = b.size ∧
      actions.countP (Action.isWakeOf b.id) ≤ b.size := by
  have hstory := h.chronicled hm b.id
  have hsize := hstory.size b hb rfl
  refine ⟨hstory.paced, hsize, ?_⟩
  rw [countP_isWakeOf h.run?_fresh, ← hsize]
  exact hstory.paced.wakes

/-- A second request puts the deadline off, so the timer wakes in vain once. It wakes for the second
time at the new deadline, and takes both requests. -/
theorem timer_paced_after_vain_wake : ∃ (e : Engine String String) (events : _) (b : Batch String),
    Reaches {} [.submit "t" ⟨"k"⟩ "a" ⟨0⟩, .arm 0, .submit "u" ⟨"k"⟩ "b" (.ofMillis 90),
      .wake 0 false (.ofMillis 100), .arm 0, .wake 0 false (.ofMillis 190)] e events ∧
    flushes events = [(b, .idle, .ofMillis 190)] ∧ b.requests = ["a", "b"] ∧
    (fresh {} : Engine String String).story b.id [.submit "t" ⟨"k"⟩ "a" ⟨0⟩, .arm 0,
      .submit "u" ⟨"k"⟩ "b" (.ofMillis 90), .wake 0 false (.ofMillis 100), .arm 0,
      .wake 0 false (.ofMillis 190)] =
      [.slept (some (.ofMillis 100)), .joined, .woke false false, .slept (some (.ofMillis 190)),
        .woke false true] ∧
    Paced [.slept (some (.ofMillis 100)), .joined, .woke false false, .slept (some (.ofMillis 190)),
      .woke false true] := by
  have h : @Reaches String String {} [.submit "t" ⟨"k"⟩ "a" ⟨0⟩, .arm 0,
      .submit "u" ⟨"k"⟩ "b" (.ofMillis 90), .wake 0 false (.ofMillis 100), .arm 0,
      .wake 0 false (.ofMillis 190)] _ _ := reaches_iff_run?.mpr ⟨_, _, rfl, rfl⟩
  have hpaced := (timer_paced h (by decide)
    (b := ⟨0, ⟨"k"⟩, ["a", "b"], [0, 1], ⟨0⟩, .ofMillis 90⟩) List.mem_cons_self).1
  exact ⟨_, _, ⟨0, ⟨"k"⟩, ["a", "b"], [0, 1], ⟨0⟩, .ofMillis 90⟩, h, rfl, rfl, rfl, hpaced⟩

end Engine

end Coalesce
