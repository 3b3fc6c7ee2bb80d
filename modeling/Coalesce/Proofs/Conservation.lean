import Coalesce.Proofs.Admission

/-! # No request is lost, doubled or moved

Under every key the batches follow one another: those taken out of the registry, in the order in
which they were taken, and then the pending one. Together they hold what was accepted under the key.
Nothing is said of how the tasks come to take the batches, so dropped tasks are allowed for. -/
namespace Coalesce

def Batch.entries {α : Type} (b : Batch α) : List (Ticket × α) := b.slots.zip b.requests

theorem Batch.entries_push {α : Type} {b : Batch α} (h : b.slots.length = b.requests.length)
    (request : α) (slot : Ticket) (now : Instant) :
    (b.push request slot now).entries = b.entries ++ [(slot, request)] :=
  List.zip_append h

namespace Engine
variable {α β : Type} {e e' : Engine α β} {events new : List (Event α β)} {key : Key}

def acceptedUnder (events : List (Event α β)) (key : Key) : List (Ticket × α) :=
  ((accepted events).filter fun p => p.2.1 = key).map fun p => (p.1, p.2.2)

def batchesUnder (e : Engine α β) (events : List (Event α β)) (key : Key) : List (Batch α) :=
  (taken events).filter (fun b => b.key = key) ++ (e.pending? key).toList

/-- The batches of every key hold what was accepted under it; tickets are given in turn. -/
structure Conserved (e : Engine α β) (events : List (Event α β)) : Prop where
  entries : ∀ key, (e.batchesUnder events key).flatMap Batch.entries = acceptedUnder events key
  tickets : (accepted events).map Prod.fst = List.range e.calls.length

theorem mem_everyBatch_of_batchesUnder {key : Key} {b : Batch α}
    (h : b ∈ e.batchesUnder events key) : b ∈ e.everyBatch events := by
  rcases List.mem_append.mp h with h | h
  · exact List.mem_append_left _ (List.mem_of_mem_filter h)
  · have hm := mem_registry_of_pending? (Option.mem_toList.mp h)
    exact mem_everyBatch_of_registry hm

theorem pending?_joinBatch (e : Engine α β) (token : String) (key : Key) (request : α)
    (now : Instant) (k : Key) :
    (e.joinBatch token key request now).1.pending? k =
      if k = key then (e.pending? k).map fun b => b.push request e.calls.length now
      else e.pending? k :=
  Keyed.lookup_map_ite (fun b : Batch α => b.push request e.calls.length now) key k e.registry

theorem pending?_openBatch (hp : e.pending? key = none) (token : String) (request : α)
    (now : Instant) (k : Key) :
    (e.openBatch token key request now).1.pending? k =
      if k = key then some ((Batch.empty e.nextId key now).push request e.calls.length now)
      else e.pending? k := by
  have happend : (e.openBatch token key request now).1.pending? k = (e.pending? k).or
      ([(key, (Batch.empty e.nextId key now).push request e.calls.length now)].lookup k) :=
    List.lookup_append
  rw [happend]
  by_cases hk : k = key
  · subst hk
    simp [hp]
  · rw [Keyed.lookup_cons_ne hk, if_neg hk]
    exact Option.or_none

theorem pending?_removeBatch (e : Engine α β) (key k : Key) :
    (e.removeBatch key).pending? k = if k = key then none else e.pending? k :=
  Keyed.lookup_filter_ne key k e.registry

theorem acceptedUnder_append (events new : List (Event α β)) (key : Key) :
    acceptedUnder (events ++ new) key = acceptedUnder events key ++ acceptedUnder new key := by
  simp [acceptedUnder]

namespace Conserved

theorem congr (h : Conserved e events) (hr : e'.registry = e.registry)
    (hc : e'.calls.length = e.calls.length) (ht : taken new = []) (ha : accepted new = []) :
    Conserved e' (events ++ new) := by
  constructor
  case entries =>
    intro key
    have hnone : acceptedUnder new key = [] := by simp [acceptedUnder, ha]
    rw [acceptedUnder_append, hnone, List.append_nil, ← h.entries key, batchesUnder, taken_append,
      ht, List.append_nil, pending?, hr]
    rfl
  case tickets =>
    rw [accepted_append, ha, List.append_nil, hc]
    exact h.tickets

theorem of_eq (h : Conserved e events) (hr : e'.registry = e.registry)
    (hc : e'.calls.length = e.calls.length) : Conserved e' events := by
  have hsame : Conserved e' (events ++ []) := h.congr hr hc rfl rfl
  rwa [List.append_nil] at hsame

theorem take (h : Conserved e events) (hb : Sound e events) {key : Key} {b : Batch α}
    (hm : (key, b) ∈ e.registry) (ht : taken new = [b]) (ha : accepted new = []) :
    Conserved (e.removeBatch key) (events ++ new) := by
  have hkey : b.key = key := hb.own _ hm
  constructor
  case entries =>
    intro k
    have hnone : acceptedUnder new k = [] := by simp [acceptedUnder, ha]
    rw [acceptedUnder_append, hnone, List.append_nil, ← h.entries k, batchesUnder, batchesUnder,
      taken_append, ht, List.filter_append, pending?_removeBatch]
    by_cases hk : k = key
    · subst hk
      rw [pending?_of_mem hb.keys hm, if_pos rfl]
      simp [hkey]
    · have hne : ¬b.key = k := fun he => hk (he.symm.trans hkey)
      simp [hk, hne]
  case tickets =>
    rw [accepted_append, ha, List.append_nil]
    exact h.tickets

/-- A request is accepted under a key, and is put in at the end of what is pending there. -/
theorem accept (h : Conserved e events) {request : α} (ht : taken new = [])
    (ha : accepted new = [(e.calls.length, key, request)])
    (hc : e'.calls.length = e.calls.length + 1)
    (hkey : (e'.pending? key).toList.flatMap Batch.entries =
      (e.pending? key).toList.flatMap Batch.entries ++ [(e.calls.length, request)])
    (hother : ∀ k, k ≠ key → e'.pending? k = e.pending? k) : Conserved e' (events ++ new) := by
  constructor
  case entries =>
    intro k
    have hold := h.entries k
    rw [batchesUnder, List.flatMap_append] at hold
    rw [acceptedUnder_append, ← hold, batchesUnder, taken_append, ht, List.append_nil,
      List.flatMap_append]
    by_cases hk : k = key
    · subst hk
      have hone : acceptedUnder new k = [(e.calls.length, request)] := by
        simp [acceptedUnder, ha]
      rw [hkey, hone, List.append_assoc]
    · have hnone : acceptedUnder new k = [] := by
        simp [acceptedUnder, ha, Ne.symm hk]
      rw [hother k hk, hnone, List.append_nil]
  case tickets =>
    rw [accepted_append, ha, List.map_append, h.tickets, hc, List.range_succ]
    rfl

theorem joinBatch (h : Conserved e events) (hb : Sound e events) {b : Batch α}
    (hp : e.pending? key = some b) (token : String) (request : α) (now : Instant) :
    Conserved (e.joinBatch token key request now).1
      (events ++ (e.joinBatch token key request now).2) := by
  have hmem : b ∈ e.everyBatch events := mem_everyBatch_of_registry (mem_registry_of_pending? hp)
  refine h.accept rfl rfl ?_ ?_ ?_
  · simp [Engine.joinBatch]
  · rw [pending?_joinBatch, if_pos rfl, hp]
    have hpush := Batch.entries_push (hb.shape b hmem).2 request e.calls.length now
    simpa using hpush
  · intro k hk
    rw [pending?_joinBatch, if_neg hk]

theorem openBatch (h : Conserved e events) (hp : e.pending? key = none) (token : String)
    (request : α) (now : Instant) :
    Conserved (e.openBatch token key request now).1
      (events ++ (e.openBatch token key request now).2) := by
  refine h.accept rfl rfl ?_ ?_ ?_
  · simp [Engine.openBatch]
  · rw [pending?_openBatch hp, if_pos rfl, hp]
    rfl
  · intro k hk
    rw [pending?_openBatch hp, if_neg hk]

end Conserved

theorem step_conserved {a : Action α β} (hs : Step e a e' new) (hb : Sound e events)
    (h : Conserved e events) : Conserved e' (events ++ new) := by
  cases hs with
  | aside ha =>
    obtain ⟨hr, -, -, hc⟩ := ha.sameBooks
    exact h.congr hr hc (overlooks_taken.aside ha) (overlooks_accepted.aside ha)
  | joined _ hp => exact h.joinBatch hb hp ..
  | opened _ hp => exact h.openBatch hp ..
  | slept => exact h.congr rfl rfl rfl rfl
  | strayed => exact h.congr rfl rfl rfl rfl
  | rechecked => exact h.congr rfl rfl rfl rfl
  | @flushed t wakeAt shutdown now b reason ht _ _ hp =>
    obtain ⟨hm, -⟩ := pendingAs?_eq_some hp
    have htaken : Conserved (e.removeBatch t.key) (events ++ [.flushed b reason now]) :=
      h.take hb hm rfl rfl
    exact htaken.of_eq rfl rfl
  | @resumed t b =>
    have hasked := askForWorker_asked e b
    exact h.congr hasked.registry hasked.calls (overlooks_taken.asked rfl rfl hasked)
      (overlooks_accepted.asked rfl rfl hasked)
  | finished =>
    rw [finish_eq, settleAll_eq]
    exact h.congr rfl (length_fillAll ..) (overlooks_taken.ending ..)
      (overlooks_accepted.ending ..)
  | lost => exact h.congr rfl rfl rfl rfl
  | @orphaned t b _ _ _ hp =>
    obtain ⟨hm, -⟩ := pendingAs?_eq_some hp
    have htaken : Conserved (e.removeBatch t.key) (events ++ [.orphaned b]) :=
      h.take hb hm rfl rfl
    exact htaken.of_eq rfl (length_releaseAll ..)
  | vanished => exact h.congr rfl rfl rfl rfl
  | dropped => exact h.congr rfl (length_releaseAll ..) rfl rfl
  | aborted => exact h.congr rfl (length_releaseAll ..) rfl rfl

theorem fresh_conserved (o : Options) : Conserved (fresh o : Engine α β) [] := by
  constructor <;> simp [fresh, batchesUnder, acceptedUnder, accepted, taken, pending?]

namespace Reaches
variable {o : Options} {actions : List (Action α β)}

theorem conserved (h : Reaches o actions e events) : Conserved e events := by
  induction h with
  | built hb =>
    obtain ⟨-, rfl⟩ := build_eq_ok hb
    exact fresh_conserved o
  | step hr hs ih => exact step_conserved (step_of_step? hs) hr.sound ih

theorem requests_eq (h : Reaches o actions e events) (key : Key) :
    (e.batchesUnder events key).flatMap Batch.requests =
      (acceptedUnder events key).map Prod.snd := by
  rw [← h.conserved.entries key, List.map_flatMap]
  refine List.flatMap_congr fun b hb => ?_
  obtain ⟨-, hlen⟩ := h.sound.shape b (mem_everyBatch_of_batchesUnder hb)
  exact (List.map_snd_zip (Nat.le_of_eq hlen.symm)).symm

theorem slots_eq (h : Reaches o actions e events) (key : Key) :
    (e.batchesUnder events key).flatMap Batch.slots =
      (acceptedUnder events key).map Prod.fst := by
  rw [← h.conserved.entries key, List.map_flatMap]
  refine List.flatMap_congr fun b hb => ?_
  obtain ⟨-, hlen⟩ := h.sound.shape b (mem_everyBatch_of_batchesUnder hb)
  exact (List.map_fst_zip (Nat.le_of_eq hlen)).symm

theorem pairwise_tickets (h : Reaches o actions e events) (key : Key) :
    ((acceptedUnder events key).map Prod.fst).Pairwise (· < ·) := by
  have hall : ((accepted events).map Prod.fst).Pairwise (· < ·) := by
    rw [h.conserved.tickets]
    exact List.pairwise_lt_range
  rw [acceptedUnder, List.map_map]
  exact hall.sublist (List.filter_sublist.map Prod.fst)

theorem acceptedUnder_eq (h : Reaches o actions e events) (key : Key) :
    (acceptedUnder events key).map Prod.snd =
      ((submissions actions).filter fun p => p.1 = key).map Prod.snd := by
  rw [← h.accepted_eq, List.filter_map, List.map_map, acceptedUnder, List.map_map]
  rfl

end Reaches

/-- The requests of the batches of a key, one batch after the other, are the requests that were
accepted under it, in the order of acceptance: those submitted before the engine was cancelled. Each
is in one of these batches, and in no other. -/
theorem requests_conserved {o : Options} {actions : List (Action α β)}
    (h : Reaches o actions e events) (key : Key) :
    (e.batchesUnder events key).flatMap Batch.requests = (acceptedUnder events key).map Prod.snd ∧
    (e.batchesUnder events key).flatMap Batch.slots = (acceptedUnder events key).map Prod.fst ∧
    ((acceptedUnder events key).map Prod.fst).Pairwise (· < ·) ∧
    (acceptedUnder events key).map Prod.snd =
      ((submissions actions).filter fun p => p.1 = key).map Prod.snd ∧
    ∀ p ∈ acceptedUnder events key, ∃ b ∈ e.batchesUnder events key, p ∈ b.entries ∧
      ∀ c ∈ e.everyBatch events, p.1 ∈ c.slots → c = b := by
  refine ⟨h.requests_eq key, h.slots_eq key, h.pairwise_tickets key, h.acceptedUnder_eq key, ?_⟩
  intro p hp
  rw [← h.conserved.entries key] at hp
  obtain ⟨b, hb, hpb⟩ := List.mem_flatMap.mp hp
  refine ⟨b, hb, hpb, fun c hc hs => ?_⟩
  exact h.sound.batch_of_slot hc (mem_everyBatch_of_batchesUnder hb) hs (List.of_mem_zip hpb).1

/-- The third request finds the batch of the first two flushed, and opens another. -/
theorem requests_conserved_across_flush : ∃ (e : Engine String String) (events : _),
    Reaches {} [.submit "t" ⟨"k"⟩ "a" ⟨0⟩, .arm 0, .submit "u" ⟨"k"⟩ "b" ⟨5⟩,
      .wake 0 false ⟨1000000000⟩, .submit "v" ⟨"k"⟩ "c" ⟨1000000000⟩] e events ∧
    (e.batchesUnder events ⟨"k"⟩).map Batch.requests = [["a", "b"], ["c"]] ∧
    (acceptedUnder events ⟨"k"⟩).map Prod.snd = ["a", "b", "c"] := by
  have h : @Reaches String String {} [.submit "t" ⟨"k"⟩ "a" ⟨0⟩, .arm 0, .submit "u" ⟨"k"⟩ "b" ⟨5⟩,
      .wake 0 false ⟨1000000000⟩, .submit "v" ⟨"k"⟩ "c" ⟨1000000000⟩] _ _ :=
    reaches_iff_run?.mpr ⟨_, _, rfl, rfl⟩
  exact ⟨_, _, h, rfl, (requests_conserved h ⟨"k"⟩).1.symm.trans rfl⟩

end Engine

end Coalesce
