import Coalesce.Proofs.Keyed
import Coalesce.Proofs.Trace
import Mathlib.Data.List.Pairwise
import Mathlib.Data.List.Perm.Basic

/-! # The registry and the tasks

Every batch has an id of its own for ever, and every ticket is in one batch only. A timer always
finds its own batch under its key. None of this needs every batch to have a timer: it also holds
where tasks are dropped. -/
namespace Coalesce.Engine
open Keyed
variable {α β : Type}

def batches (e : Engine α β) : List (Batch α) := e.registry.map Prod.snd

def everyBatch (e : Engine α β) (events : List (Event α β)) : List (Batch α) :=
  taken events ++ e.batches

structure Sound (e : Engine α β) (events : List (Event α β)) : Prop where
  keys : (e.registry.map Prod.fst).Nodup
  own : ∀ p ∈ e.registry, p.2.key = p.1
  ids : ((e.everyBatch events).map Batch.id).Perm (List.range e.nextId)
  slots : ((e.everyBatch events).flatMap Batch.slots).Perm (List.range e.calls.length)
  shape : ∀ b ∈ e.everyBatch events, b.requests ≠ [] ∧ b.slots.length = b.requests.length
  tasks : (e.tasks.map BatchTask.id).Nodup
  timing : ∀ t ∈ e.tasks, t.stage.isTiming = true → ∃ b, (t.key, b) ∈ e.registry ∧ b.id = t.id
  holding : ∀ t ∈ e.tasks, ∀ b, t.stage.batch? = some b → b ∈ flushed events ∧ b.id = t.id

theorem mem_registry_of_pending? {e : Engine α β} {key : Key} {b : Batch α}
    (h : e.pending? key = some b) : (key, b) ∈ e.registry := by
  obtain ⟨l₁, l₂, he, -⟩ := List.lookup_eq_some_iff.mp h
  rw [he]
  exact List.mem_append_right _ List.mem_cons_self

theorem pending?_of_mem {e : Engine α β} (nd : (e.registry.map Prod.fst).Nodup) {key : Key}
    {b : Batch α} (h : (key, b) ∈ e.registry) : e.pending? key = some b := by
  cases hp : e.pending? key with
  | none =>
    have hne := List.lookup_eq_none_iff.mp hp (key, b) h
    simp at hne
  | some c =>
    have he := List.inj_on_of_nodup_map nd (mem_registry_of_pending? hp) h rfl
    cases he
    rfl

theorem notMem_keys_of_pending? {e : Engine α β} {key : Key} (h : e.pending? key = none) :
    key ∉ e.registry.map Prod.fst := by
  intro hk
  obtain ⟨p, hp, rfl⟩ := List.mem_map.mp hk
  have hne := List.lookup_eq_none_iff.mp h p hp
  simp at hne

theorem pendingAs?_eq_some {e : Engine α β} {key : Key} {id : Nat} {b : Batch α}
    (h : e.pendingAs? key id = some b) : (key, b) ∈ e.registry ∧ b.id = id := by
  obtain ⟨hp, hi⟩ := Option.filter_eq_some_iff.mp h
  exact ⟨mem_registry_of_pending? hp, by simpa using hi⟩

theorem pendingAs?_of_mem {e : Engine α β} (nd : (e.registry.map Prod.fst).Nodup) {key : Key}
    {b : Batch α} (h : (key, b) ∈ e.registry) : e.pendingAs? key b.id = some b :=
  Option.filter_eq_some_iff.mpr ⟨pending?_of_mem nd h, by simp⟩

theorem mem_everyBatch_of_registry {e : Engine α β} {events : List (Event α β)}
    {p : Key × Batch α} (h : p ∈ e.registry) : p.2 ∈ e.everyBatch events :=
  List.mem_append_right _ (List.mem_map_of_mem h)

namespace Sound
variable {e : Engine α β} {events : List (Event α β)}

theorem ids_nodup (h : Sound e events) : ((e.everyBatch events).map Batch.id).Nodup :=
  h.ids.nodup_iff.mpr List.nodup_range

theorem slots_nodup (h : Sound e events) : ((e.everyBatch events).flatMap Batch.slots).Nodup :=
  h.slots.nodup_iff.mpr List.nodup_range

theorem id_lt (h : Sound e events) {b : Batch α} (hb : b ∈ e.everyBatch events) :
    b.id < e.nextId :=
  List.mem_range.mp (h.ids.subset (List.mem_map_of_mem hb))

theorem slot_lt (h : Sound e events) {b : Batch α} (hb : b ∈ e.everyBatch events) {s : Ticket}
    (hs : s ∈ b.slots) : s < e.calls.length :=
  List.mem_range.mp (h.slots.subset (List.mem_flatMap.mpr ⟨b, hb, hs⟩))

theorem eq_of_id (h : Sound e events) {b c : Batch α} (hb : b ∈ e.everyBatch events)
    (hc : c ∈ e.everyBatch events) (hi : b.id = c.id) : b = c :=
  List.inj_on_of_nodup_map h.ids_nodup hb hc hi

theorem eq_of_flushed (h : Sound e events) {b c : Batch α} (hb : b ∈ flushed events)
    (hc : c ∈ flushed events) (hi : b.id = c.id) : b = c :=
  h.eq_of_id (List.mem_append_left _ (taken_of_flushed hb))
    (List.mem_append_left _ (taken_of_flushed hc)) hi

theorem batch_of_slot (h : Sound e events) {b c : Batch α}
    (hb : b ∈ e.everyBatch events) (hc : c ∈ e.everyBatch events) {s : Ticket} (hbs : s ∈ b.slots)
    (hcs : s ∈ c.slots) : b = c := by
  obtain ⟨-, hdisjoint⟩ := List.nodup_flatMap.mp h.slots_nodup
  by_contra hne
  have hnd : (e.everyBatch events).Nodup := List.Nodup.of_map _ h.ids_nodup
  have : Std.Symm (Function.onFun List.Disjoint (Batch.slots : Batch α → _)) :=
    ⟨fun _ _ hd _ hy hx => hd hx hy⟩
  exact hdisjoint.forall hb hc hne hbs hcs

theorem task_eq_of_id (h : Sound e events) {t u : BatchTask α} (ht : t ∈ e.tasks)
    (hu : u ∈ e.tasks) (hi : t.id = u.id) : t = u :=
  List.inj_on_of_nodup_map h.tasks ht hu hi

theorem task?_of_mem (h : Sound e events) {t : BatchTask α} (ht : t ∈ e.tasks) :
    e.task? t.id = some t := by
  cases hf : e.task? t.id with
  | none =>
    have hne := List.find?_eq_none.mp hf t ht
    simp at hne
  | some u =>
    obtain ⟨hu, hi⟩ := task?_eq_some hf
    rw [h.task_eq_of_id hu ht hi]

theorem timer_finds (h : Sound e events) {t : BatchTask α} (ht : t ∈ e.tasks)
    (hs : t.stage.isTiming = true) : ∃ b, e.pendingAs? t.key t.id = some b := by
  obtain ⟨b, hb, hi⟩ := h.timing t ht hs
  exact ⟨b, hi ▸ pendingAs?_of_mem h.keys hb⟩

theorem exists_batch (h : Sound e events) {t : BatchTask α} (ht : t ∈ e.tasks) :
    ∃ b ∈ e.everyBatch events, b.id = t.id := by
  cases hs : t.stage.batch? with
  | none =>
    obtain ⟨b, hb, hi⟩ := h.timing t ht (Stage.isTiming_iff.mpr hs)
    exact ⟨b, mem_everyBatch_of_registry hb, hi⟩
  | some b =>
    obtain ⟨hb, hi⟩ := h.holding t ht b hs
    exact ⟨b, List.mem_append_left _ (taken_of_flushed hb), hi⟩

theorem task_id_lt (h : Sound e events) {t : BatchTask α} (ht : t ∈ e.tasks) :
    t.id < e.nextId := by
  obtain ⟨b, hb, hi⟩ := h.exists_batch ht
  exact hi ▸ h.id_lt hb

end Sound

end Coalesce.Engine
