import Coalesce.Proofs.Conservation

/-! # Keys of batches and of requests

A history tells under which key the batch with an id was opened, and under which key the request
with a ticket was accepted: ids and tickets are given in turn, whatever the keys. -/
namespace Coalesce

def Event.openedKey? {α β : Type} : Event α β → Option Key
  | .opened _ key => some key
  | _ => none

namespace Engine
variable {α β : Type} {e e' : Engine α β} {events new : List (Event α β)}
  {actions : List (Action α β)} {a : Action α β} {t : BatchTask α} {b : Batch α} {o : Options}

def openedKeys (events : List (Event α β)) : List Key := events.filterMap Event.openedKey?

def acceptedKeys (events : List (Event α β)) : List Key := (accepted events).map fun p => p.2.1

@[simp] theorem openedKeys_append (events new : List (Event α β)) :
    openedKeys (events ++ new) = openedKeys events ++ openedKeys new := List.filterMap_append

@[simp] theorem acceptedKeys_append (events new : List (Event α β)) :
    acceptedKeys (events ++ new) = acceptedKeys events ++ acceptedKeys new := by
  simp [acceptedKeys]

structure Filed (e : Engine α β) (events : List (Event α β)) : Prop where
  length : (openedKeys events).length = e.nextId
  tasks : ∀ t ∈ e.tasks, (openedKeys events)[t.id]? = some t.key
  batches : ∀ p ∈ e.registry, (openedKeys events)[p.2.id]? = some p.1
  held : ∀ t ∈ e.tasks, ∀ b, t.stage.batch? = some b → b.key = t.key

namespace Filed

theorem keep (h : Filed e events) (hnew : openedKeys new = []) (hid : e'.nextId = e.nextId)
    (htasks : ∀ u ∈ e'.tasks, ∃ t ∈ e.tasks, t.id = u.id ∧ t.key = u.key)
    (hheld : ∀ u ∈ e'.tasks, ∀ b, u.stage.batch? = some b → b.key = u.key)
    (hreg : ∀ p ∈ e'.registry, ∃ q ∈ e.registry, q.1 = p.1 ∧ q.2.id = p.2.id) :
    Filed e' (events ++ new) := by
  have hsame : openedKeys (events ++ new) = openedKeys events := by simp [hnew]
  constructor
  case length => rw [hsame, hid, h.length]
  case tasks =>
    intro u hu
    obtain ⟨t, ht, hi, hk⟩ := htasks u hu
    rw [hsame, ← hi, ← hk]
    exact h.tasks t ht
  case batches =>
    intro p hp
    obtain ⟨q, hq, hk, hi⟩ := hreg p hp
    rw [hsame, ← hi, ← hk]
    exact h.batches q hq
  case held => exact hheld

/-- Nothing is filed anew, and no task takes a batch. -/
theorem of_subset (h : Filed e events) (hnew : openedKeys new = []) (hid : e'.nextId = e.nextId)
    (htasks : ∀ u ∈ e'.tasks, u ∈ e.tasks) (hreg : ∀ p ∈ e'.registry, p ∈ e.registry) :
    Filed e' (events ++ new) :=
  h.keep hnew hid (fun u hu => ⟨u, htasks u hu, rfl, rfl⟩) (fun u hu => h.held u (htasks u hu))
    fun p hp => ⟨p, hreg p hp, rfl, rfl⟩

theorem setStage (h : Filed e events) (hb : Sound e events) (hnew : openedKeys new = [])
    (ht : t ∈ e.tasks) {stage : Stage α} (hheld : ∀ b, stage.batch? = some b → b.key = t.key)
    (hid : e'.nextId = e.nextId) (htasks : e'.tasks = (e.setStage t.id stage).tasks)
    (hreg : ∀ p ∈ e'.registry, p ∈ e.registry) : Filed e' (events ++ new) := by
  refine h.keep hnew hid (fun u hu => ?_) (fun u hu b hub => ?_)
    fun p hp => ⟨p, hreg p hp, rfl, rfl⟩
  · rw [htasks] at hu
    rcases mem_setStage hb.tasks ht hu with rfl | ⟨hu, -⟩
    · exact ⟨t, ht, rfl, rfl⟩
    · exact ⟨u, hu, rfl, rfl⟩
  · rw [htasks] at hu
    rcases mem_setStage hb.tasks ht hu with rfl | ⟨hu, -⟩
    · exact hheld b hub
    · exact h.held u hu b hub

theorem openBatch (h : Filed e events) (token : String) (key : Key) (request : α)
    (now : Instant) :
    Filed (e.openBatch token key request now).1
      (events ++ (e.openBatch token key request now).2) := by
  have hnew : openedKeys (events ++ (e.openBatch token key request now).2) =
      openedKeys events ++ [key] := by
    rw [openedKeys_append]
    rfl
  have hlast : (openedKeys events ++ [key])[e.nextId]? = some key := by
    rw [← h.length, List.getElem?_concat_length]
  have hold : ∀ {i : Nat} {k : Key}, (openedKeys events)[i]? = some k →
      (openedKeys events ++ [key])[i]? = some k := by
    intro i k hi
    rw [List.getElem?_append_left (List.getElem?_eq_some_iff.mp hi).1, hi]
  constructor
  case length =>
    rw [hnew, List.length_append, h.length]
    rfl
  case tasks =>
    intro u hu
    rw [hnew]
    rcases List.mem_append.mp hu with hu | hu
    · exact hold (h.tasks u hu)
    · rw [List.mem_singleton.mp hu]
      exact hlast
  case batches =>
    intro p hp
    rw [hnew]
    rcases List.mem_append.mp hp with hp | hp
    · exact hold (h.batches p hp)
    · rw [List.mem_singleton.mp hp]
      exact hlast
  case held =>
    intro u hu c hc
    rcases List.mem_append.mp hu with hu | hu
    · exact h.held u hu c hc
    · rw [List.mem_singleton.mp hu] at hc
      cases hc

end Filed

theorem overlooks_openedKey : Overlooks (Event.openedKey? : Event α β → _) := by
  constructor <;> intros <;> rfl

theorem asked_filed (hask : Asked e b e' new) (hb : Sound e events) (h : Filed e events)
    (ht : t ∈ e.tasks) (hq : t.stage = .queued b) : Filed e' (events ++ new) := by
  have hi := (hb.holding t ht b (Stage.batch?_of_queued hq)).2
  have hkey := h.held t ht b (Stage.batch?_of_queued hq)
  have hnew : openedKeys new = [] := overlooks_openedKey.asked rfl rfl hask
  cases hask with
  | abandoned =>
    rw [settleAll_eq]
    exact h.of_subset hnew rfl (fun u hu => List.mem_of_mem_filter hu) fun p hp => hp
  | waiting =>
    rw [hi]
    exact h.setStage hb hnew ht (fun c hc => by cases hc; exact hkey) rfl rfl fun p hp => hp
  | granted =>
    rw [hi]
    exact h.setStage hb hnew ht (fun c hc => by cases hc; exact hkey) rfl rfl fun p hp => hp

theorem step_filed (hs : Step e a e' new) (hb : Sound e events) (h : Filed e events) :
    Filed e' (events ++ new) := by
  cases hs with
  | aside ha =>
    obtain ⟨hr, ht, hi, -⟩ := ha.sameBooks
    exact h.of_subset (overlooks_openedKey.aside ha) hi (fun u hu => ht ▸ hu) fun p hp => hr ▸ hp
  | @joined token key request now =>
    refine h.keep rfl rfl (fun u hu => ⟨u, hu, rfl, rfl⟩) h.held fun p hp => ?_
    obtain ⟨q, hq, rfl⟩ := List.mem_map.mp hp
    exact ⟨q, hq, by by_cases hk : q.1 = key <;> simp [hk, Batch.push]⟩
  | opened => exact h.openBatch ..
  | slept ht => exact h.setStage hb rfl ht (by simp [Stage.batch?]) rfl rfl fun p hp => hp
  | rechecked ht => exact h.setStage hb rfl ht (by simp [Stage.batch?]) rfl rfl fun p hp => hp
  | @flushed t wakeAt shutdown now b reason ht _ _ hp =>
    refine h.setStage hb rfl ht (fun c hc => ?_) rfl rfl fun p hp => List.mem_of_mem_filter hp
    cases hc
    exact hb.own _ (pendingAs?_eq_some hp).1
  | resumed ht hq => exact asked_filed (askForWorker_asked ..) hb h ht hq
  | finished =>
    rw [finish_eq, settleAll_eq]
    exact h.of_subset (overlooks_openedKey.ending ..) rfl (fun u hu => List.mem_of_mem_filter hu)
      fun p hp => hp
  | orphaned =>
    exact h.of_subset rfl rfl (fun u hu => List.mem_of_mem_filter hu)
      fun p hp => List.mem_of_mem_filter hp
  | _ => exact h.of_subset rfl rfl (fun u hu => List.mem_of_mem_filter hu) fun p hp => hp

theorem Reaches.filed (h : Reaches o actions e events) : Filed e events := by
  induction h with
  | built hb =>
    obtain ⟨-, rfl⟩ := build_eq_ok hb
    constructor <;> simp [fresh, openedKeys]
  | step hr hs ih => exact step_filed (step_of_step? hs) hr.sound ih

theorem Conserved.length_acceptedKeys (h : Conserved e events) :
    (acceptedKeys events).length = e.calls.length := by
  have hlen := congrArg List.length h.tickets
  rwa [List.length_map, List.length_range, ← List.length_map (f := fun p => p.2.1)] at hlen

end Engine

end Coalesce
