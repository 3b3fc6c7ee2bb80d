import Coalesce.Proofs.Erasure
import Coalesce.Proofs.Queueing
import Coalesce.Proofs.Workers

/-! # An engine beside its part for one key

An engine is coupled to another that holds only what belongs to one key, under the numbers it has
when nothing else is counted. The coupled engine follows what callers do, and what is submitted: it
leaves it out where it belongs to another key, and otherwise does the same. -/
namespace Coalesce
variable {α β : Type}

/-- The second stage is the first one under other names, or it is further on by a worker slot. -/
inductive Stage.Ahead (r : Renaming) : Stage α → Stage α → Prop where
  | same {stage : Stage α} : Ahead r stage (stage.rename r)
  | overtaken {b : Batch α} : Ahead r (.queued b) (.running (b.rename r))

namespace Stage.Ahead
variable {r : Renaming} {stage stage' : Stage α} {b : Batch α}

theorem eq_of_isTiming (h : stage.Ahead r stage') (hs : stage.isTiming = true) :
    stage' = stage := by
  cases h with
  | same => exact stage.rename_of_isTiming r hs
  | overtaken => cases hs

theorem of_queued (h : (Stage.queued b).Ahead r stage') :
    stage' = .queued (b.rename r) ∨ stage' = .running (b.rename r) := by
  cases h with
  | same => exact .inl rfl
  | overtaken => exact .inr rfl

theorem of_running (h : (Stage.running b).Ahead r stage') : stage' = .running (b.rename r) := by
  cases h
  rfl

/-- The counterpart of a task that holds a batch holds the same one. -/
theorem holds (h : stage.Ahead r stage') (hb : stage.batch? = some b) :
    stage'.batch? = some (b.rename r) := by
  cases h with
  | same =>
    cases stage with
    | queued c => cases hb; rfl
    | running c => cases hb; rfl
    | _ => cases hb
  | overtaken => cases hb; rfl

end Stage.Ahead

namespace Engine
variable {key k : Key} {ids tickets : List Key} {o : Options}
  {e e' u u' : Engine α β} {events new told : List (Event α β)}
  {actions taken : List (Action α β)} {a : Action α β} {t s : BatchTask α} {b : Batch α}

def Accompanied (key : Key) (ids tickets : List Key) (e u : Engine α β) : Prop :=
  ∀ t ∈ e.tasks, t.key = key → ∃ s ∈ u.tasks, s.id = place key ids t.id ∧ s.key = key ∧
    t.stage.Ahead (naming key ids tickets) s.stage

/-- `u` is what `e` is without what belongs to other keys than `key`. Until the engine is cancelled
the lines for a worker slot agree as well. -/
structure Coupled (key : Key) (ids tickets : List Key) (e u : Engine α β) : Prop where
  cancelled : u.cancelled = e.cancelled
  nextId : u.nextId = place key ids e.nextId
  calls : u.calls.length = place key tickets e.calls.length
  pending : u.pending? key = (e.pending? key).map (Batch.rename (naming key ids tickets))
  tasks : Accompanied key ids tickets e u
  line : e.cancelled = false → ∃ order, e.pool.Lined order ∧
    u.pool.Lined (order.filterMap (place? key ids))

def Named (ids : List Key) (e : Engine α β) : Prop := ∀ t ∈ e.tasks, ids[t.id]? = some t.key

theorem getElem?_of_prefix {l l' : List Key} (h : l <+: l') {i : Nat} {k : Key}
    (hi : l[i]? = some k) : l'[i]? = some k := by
  obtain ⟨rest, rfl⟩ := h
  rw [List.getElem?_append_left (List.getElem?_eq_some_iff.mp hi).1, hi]

theorem Filed.named (h : Filed e events) (hids : openedKeys events <+: ids) : Named ids e :=
  fun t ht => getElem?_of_prefix hids (h.tasks t ht)

namespace Accompanied

/-- One task goes on, and its counterpart keeps up. -/
theorem change (h : Accompanied key ids tickets e u) (hn : Named ids e) (ht : t ∈ e.tasks)
    (hk : t.key = key)
    (htasks : ∀ x ∈ e'.tasks, x.key = key → x ∈ e.tasks ∧ x.id ≠ t.id ∨ x.id = t.id ∧
      ∃ s ∈ u'.tasks, s.id = place key ids t.id ∧ s.key = key ∧
        x.stage.Ahead (naming key ids tickets) s.stage)
    (hothers : ∀ s ∈ u.tasks, s.id ≠ place key ids t.id → s ∈ u'.tasks) :
    Accompanied key ids tickets e' u' := by
  intro x hx hxk
  rcases htasks x hx hxk with ⟨hold, hne⟩ | ⟨hxi, hs⟩
  · obtain ⟨s, hs, hi, hsk, hahead⟩ := h x hold hxk
    refine ⟨s, hothers s hs ?_, hi, hsk, hahead⟩
    have hxn := hn x hold
    have htn := hn t ht
    rw [hxk] at hxn
    rw [hk] at htn
    rw [hi]
    exact fun hp => hne (place_inj hxn htn hp)
  · rw [hxi]
    exact hs

theorem setStage (h : Accompanied key ids tickets e u) (hn : Named ids e) (hb : Sound e events)
    (ht : t ∈ e.tasks) (hk : t.key = key) (hs : s ∈ u.tasks) (hi : s.id = place key ids t.id)
    (hsk : s.key = key) {stage stage' : Stage α}
    (hahead : stage.Ahead (naming key ids tickets) stage')
    (htasks : e'.tasks = (e.setStage t.id stage).tasks)
    (htasks' : u'.tasks = (u.setStage s.id stage').tasks) : Accompanied key ids tickets e' u' := by
  refine h.change hn ht hk (fun x hx hxk => ?_) fun y hy hne => ?_
  · rw [htasks] at hx
    rcases mem_setStage hb.tasks ht hx with rfl | hold
    · refine .inr ⟨rfl, { s with stage := stage' }, ?_, hi, hsk, hahead⟩
      rw [htasks']
      exact mem_setStage_self hs stage'
    · exact .inl hold
  · rw [htasks']
    exact mem_setStage_of_ne hy (hi ▸ hne) stage'

/-- A task goes on to where its counterpart is already. -/
theorem catchUp (h : Accompanied key ids tickets e u) (hn : Named ids e) (hb : Sound e events)
    (ht : t ∈ e.tasks) (hk : t.key = key) (hs : s ∈ u.tasks) (hi : s.id = place key ids t.id)
    (hsk : s.key = key) {stage : Stage α} (hahead : stage.Ahead (naming key ids tickets) s.stage)
    (htasks : e'.tasks = (e.setStage t.id stage).tasks) : Accompanied key ids tickets e' u := by
  refine h.change hn ht hk (fun x hx hxk => ?_) fun y hy hne => hy
  rw [htasks] at hx
  rcases mem_setStage hb.tasks ht hx with rfl | hold
  · exact .inr ⟨rfl, s, hs, hi, hsk, hahead⟩
  · exact .inl hold

theorem endTask (h : Accompanied key ids tickets e u) (hn : Named ids e) (ht : t ∈ e.tasks)
    (hk : t.key = key) (htasks : e'.tasks = (e.endTask t.id).tasks)
    (hothers : ∀ s ∈ u.tasks, s.id ≠ place key ids t.id → s ∈ u'.tasks) :
    Accompanied key ids tickets e' u' := by
  refine h.change hn ht hk (fun x hx hxk => ?_) hothers
  rw [htasks] at hx
  exact .inl (Keyed.mem_others.mp hx)

end Accompanied

namespace Coupled

/-- What is done for other keys changes nothing of what belongs to `key`, except that the line for a
worker slot gets shorter or longer. -/
theorem other (h : Coupled key ids tickets e u) (hc : e'.cancelled = e.cancelled)
    (hid : place key ids e'.nextId = place key ids e.nextId)
    (hcalls : place key tickets e'.calls.length = place key tickets e.calls.length)
    (hp : e'.pending? key = e.pending? key) (ht : ∀ t ∈ e'.tasks, t.key = key → t ∈ e.tasks)
    (hl : ∀ order, e.pool.Lined order → ∃ order', e'.pool.Lined order' ∧
      order'.filterMap (place? key ids) = order.filterMap (place? key ids)) :
    Coupled key ids tickets e' u := by
  constructor
  case cancelled => rw [hc, h.cancelled]
  case nextId => rw [hid, h.nextId]
  case calls => rw [hcalls, h.calls]
  case pending => rw [hp, h.pending]
  case tasks => exact fun t ht' hk => h.tasks t (ht t ht' hk) hk
  case line =>
    rw [hc]
    intro hnc
    obtain ⟨order, hlined, hlined'⟩ := h.line hnc
    obtain ⟨order', hnew, hsame⟩ := hl order hlined
    exact ⟨order', hnew, hsame ▸ hlined'⟩

/-- Neither registry nor tasks nor pool are touched. -/
theorem congr (h : Coupled key ids tickets e u) (hbooks : SameBooks e e') (hbooks' : SameBooks u u')
    (hpool : e'.pool = e.pool) (hpool' : u'.pool = u.pool) (hsame : u'.cancelled = e'.cancelled)
    (hc : e'.cancelled = false → e.cancelled = false) : Coupled key ids tickets e' u' := by
  constructor
  case cancelled => exact hsame
  case nextId => rw [hbooks.nextId, hbooks'.nextId, h.nextId]
  case calls => rw [hbooks.calls, hbooks'.calls, h.calls]
  case pending => rw [pending?, pending?, hbooks.registry, hbooks'.registry]; exact h.pending
  case tasks => rw [Accompanied, hbooks.tasks, hbooks'.tasks]; exact h.tasks
  case line => rw [hpool, hpool']; exact fun hnc => h.line (hc hnc)

end Coupled

theorem fresh_coupled (o : Options) (key : Key) (ids tickets : List Key) :
    Coupled key ids tickets (fresh o : Engine α β) (fresh o) := by
  constructor
  case tasks => intro t ht; cases ht
  case line => exact fun _ => ⟨[], ⟨[], rfl, List.Perm.refl _⟩, ⟨[], rfl, List.Perm.refl _⟩⟩
  all_goals simp [fresh, place, pending?]

/-- The coupled engine follows a step: it has nothing to do, it makes the step that is left of it,
or it passes over a task's looking for a worker, because that task has one. -/
inductive Followed (key : Key) (ids tickets : List Key) (tokens : List String) (a : Action α β)
    (e' : Engine α β) (new : List (Event α β)) (u : Engine α β) : Prop where
  | erased : a.under? key ids tickets tokens = none → Coupled key ids tickets e' u →
      filedUnder key new = [] → Followed key ids tickets tokens a e' new u
  | taken {c : Action α β} {p : Engine α β × List (Event α β)} :
      a.under? key ids tickets tokens = some c → u.step? c = some p →
      Coupled key ids tickets e' p.1 →
      filedUnder key p.2 = (filedUnder key new).map (Event.rename (naming key ids tickets)) →
      Followed key ids tickets tokens a e' new u
  | passed {s : BatchTask α} {b : Batch α} : s ∈ u.tasks → s.stage = .running b →
      a.under? key ids tickets tokens = some (.resume s.id) → Coupled key ids tickets e' u →
      filedUnder key new = [] → Followed key ids tickets tokens a e' new u

variable {tokens : List String}

structure Unnoticed (key : Key) (e e' : Engine α β) (new : List (Event α β)) : Prop where
  books : SameBooks e e'
  pool : e'.pool = e.pool
  cancelled : e'.cancelled = e.cancelled
  filed : filedUnder key new = []

theorem look_unnoticed (key : Key) (e : Engine α β) (ticket : Ticket) :
    Unnoticed key e (e.look ticket).1 (e.look ticket).2 := by
  have hstep := look_aside e ticket
  refine ⟨hstep.sameBooks, hstep.pool, ?_, ?_⟩
  · cases hl : e.look ticket with
    | mk e' new =>
      rw [hl] at hstep
      cases hstep <;> rfl
  · cases hl : e.look ticket with
    | mk e' new =>
      rw [hl] at hstep
      cases hstep with
      | answered => exact filedUnder_eq_nil (by simp [Event.filedUnder?])
      | unanswered => rfl

theorem leave_unnoticed (key : Key) (e : Engine α β) (ticket : Ticket) :
    Unnoticed key e (e.leave ticket) [] := by
  have hstep := leave_aside e ticket
  refine ⟨hstep.sameBooks, hstep.pool, ?_, rfl⟩
  generalize e.leave ticket = e' at hstep
  cases hstep <;> rfl

theorem Coupled.unnoticed (h : Coupled key ids tickets e u) {new' : List (Event α β)}
    (he : Unnoticed key e e' new) (hu : Unnoticed key u u' new') :
    Coupled key ids tickets e' u' :=
  h.congr he.books hu.books he.pool hu.pool (by rw [hu.cancelled, he.cancelled, h.cancelled])
    fun hc => he.cancelled ▸ hc

theorem Unnoticed.refl (key : Key) (e : Engine α β) : Unnoticed key e e [] :=
  ⟨⟨rfl, rfl, rfl, rfl⟩, rfl, rfl, rfl⟩

/-- What one caller does is left out, or done by the same caller under its other ticket. -/
theorem Unnoticed.followed (ticket : Ticket) (f : Ticket → Action α β)
    (act : Engine α β → Ticket → Engine α β × List (Event α β))
    (hact : ∀ u : Engine α β, ∀ j, Unnoticed key u (act u j).1 (act u j).2)
    (hstep : ∀ u : Engine α β, ∀ j, u.step? (f j) = some (act u j))
    (hunder : (f ticket).under? key ids tickets tokens = (place? key tickets ticket).map f)
    (h : Coupled key ids tickets e u) :
    Followed key ids tickets tokens (f ticket) (act e ticket).1 (act e ticket).2 u := by
  have he := hact e ticket
  cases hp : place? key tickets ticket with
  | none =>
    rw [hp] at hunder
    exact .erased hunder (h.unnoticed he (.refl key u)) he.filed
  | some j =>
    rw [hp] at hunder
    have hu := hact u j
    exact .taken hunder (hstep u j) (h.unnoticed he hu) (by rw [he.filed, hu.filed]; rfl)

theorem cancelToken_followed (h : Coupled key ids tickets e u) (token : String) :
    Followed key ids tickets tokens (.cancelToken token)
      { e with cancelledTokens := token :: e.cancelledTokens } [] u := by
  have hsame : ∀ m : Engine α β,
      Unnoticed key m { m with cancelledTokens := token :: m.cancelledTokens } [] :=
    fun m => ⟨⟨rfl, rfl, rfl, rfl⟩, rfl, rfl, rfl⟩
  by_cases ht : token ∈ tokens
  · exact .taken (if_pos ht) rfl (h.unnoticed (hsame e) (hsame u)) rfl
  · exact .erased (if_neg ht) (h.unnoticed (hsame e) (.refl key u)) rfl

theorem Coupled.cancel_followed (h : Coupled key ids tickets e u) :
    Followed key ids tickets tokens .cancel { e with cancelled := true } [] u :=
  .taken rfl rfl (h.congr ⟨rfl, rfl, rfl, rfl⟩ ⟨rfl, rfl, rfl, rfl⟩ rfl rfl rfl (by simp)) rfl

theorem Coupled.close_followed (h : Coupled key ids tickets e u) (hc : e.cancelled = true) :
    Followed key ids tickets tokens .close { e with closed := true } [] u := by
  have hclose : u.step? .close = some ({ u with closed := true }, []) := by
    simp [step?, h.cancelled, hc]
  exact .taken rfl hclose
    (h.congr ⟨rfl, rfl, rfl, rfl⟩ ⟨rfl, rfl, rfl, rfl⟩ rfl rfl h.cancelled id) rfl

theorem rejected_followed (h : Coupled key ids tickets e u) (hc : e.cancelled = true)
    (token : String) (k : Key) (request : α) (now : Instant) :
    Followed key ids tickets tokens (.submit token k request now) e
      [(.rejected k request : Event α β)] u := by
  by_cases hk : k = key
  · have hreject : u.step? (.submit token k request now) = some (u, [.rejected k request]) := by
      simp [step?, submit, h.cancelled, hc]
    refine .taken (if_pos hk) hreject h ?_
    simp [filedUnder, Event.filedUnder?, hk, Event.rename]
  · refine .erased (if_neg hk) h (filedUnder_eq_nil ?_)
    simp [Event.filedUnder?, hk]

theorem joined_followed (h : Coupled key ids tickets e u) (hc : e.cancelled = false)
    (hp : e.pending? k = some b) (htickets : tickets[e.calls.length]? = some k)
    (token : String) (request : α) (now : Instant) :
    Followed key ids tickets tokens (.submit token k request now)
      (e.joinBatch token k request now).1 (e.joinBatch token k request now).2 u := by
  by_cases hk : k = key
  · subst hk
    have hpu : u.pending? k = some (b.rename (naming k ids tickets)) := by rw [h.pending, hp]; rfl
    have hjoin : u.step? (.submit token k request now) =
        some (u.joinBatch token k request now) := by
      simp [step?, submit, enqueue, h.cancelled, hc, hpu]
    have hcoupled : Coupled k ids tickets (e.joinBatch token k request now).1
        (u.joinBatch token k request now).1 := by
      refine ⟨h.cancelled, h.nextId, ?_, ?_, h.tasks, h.line⟩
      · simp [joinBatch, h.calls, place_succ htickets]
      · rw [pending?_joinBatch, pending?_joinBatch, if_pos rfl, if_pos rfl, hp, hpu]
        simp [Batch.rename_push, naming, h.calls]
    refine .taken (if_pos rfl) hjoin hcoupled ?_
    simp [joinBatch, filedUnder, Event.filedUnder?, Event.rename, naming, h.calls]
  · refine .erased (if_neg hk) (h.other rfl rfl ?_ ?_ (fun t ht _ => ht) ?_) ?_
    · simp [joinBatch, place_succ htickets, hk]
    · rw [pending?_joinBatch, if_neg (Ne.symm hk)]
    · exact fun order hl => ⟨order, hl, rfl⟩
    · exact filedUnder_eq_nil (by simp [joinBatch, Event.filedUnder?, hk])

theorem opened_followed (h : Coupled key ids tickets e u) (hc : e.cancelled = false)
    (hp : e.pending? k = none) (hids : ids[e.nextId]? = some k)
    (htickets : tickets[e.calls.length]? = some k) (token : String) (request : α)
    (now : Instant) :
    Followed key ids tickets tokens (.submit token k request now)
      (e.openBatch token k request now).1 (e.openBatch token k request now).2 u := by
  by_cases hk : k = key
  · subst hk
    have hpu : u.pending? k = none := by rw [h.pending, hp]; rfl
    have hopen : u.step? (.submit token k request now) =
        some (u.openBatch token k request now) := by
      simp [step?, submit, enqueue, h.cancelled, hc, hpu]
    have hcoupled : Coupled k ids tickets (e.openBatch token k request now).1
        (u.openBatch token k request now).1 := by
      refine ⟨h.cancelled, ?_, ?_, ?_, ?_, h.line⟩
      · simp [openBatch, h.nextId, place_succ hids]
      · simp [openBatch, h.calls, place_succ htickets]
      · rw [pending?_openBatch hp, pending?_openBatch hpu, if_pos rfl, if_pos rfl]
        simp [Batch.rename_push, Batch.rename_empty, naming, h.calls, h.nextId]
      · intro t ht htk
        rcases List.mem_append.mp ht with ht | ht
        · obtain ⟨s, hs, hrest⟩ := h.tasks t ht htk
          exact ⟨s, List.mem_append_left _ hs, hrest⟩
        · rw [List.mem_singleton.mp ht]
          exact ⟨_, List.mem_append_right _ List.mem_cons_self, h.nextId, rfl, .same⟩
    refine .taken (if_pos rfl) hopen hcoupled ?_
    simp [openBatch, filedUnder, Event.filedUnder?, Event.rename, naming, h.calls, h.nextId]
  · refine .erased (if_neg hk) (h.other rfl ?_ ?_ ?_ (fun t ht htk => ?_) ?_) ?_
    · simp [openBatch, place_succ hids, hk]
    · simp [openBatch, place_succ htickets, hk]
    · rw [pending?_openBatch hp, if_neg (Ne.symm hk)]
    · rcases List.mem_append.mp ht with ht | ht
      · exact ht
      · rw [List.mem_singleton.mp ht] at htk
        exact absurd htk hk
    · exact fun order hl => ⟨order, hl, rfl⟩
    · exact filedUnder_eq_nil (by simp [openBatch, Event.filedUnder?, hk])

end Engine

end Coalesce
