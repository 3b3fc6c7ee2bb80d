import Coalesce.Proofs.Coupling

/-! # Keys are isolated from each other

What is left of a run for one key is a run, and in it the batches under that key are opened, joined
and flushed as before. All that other keys can do is to make a batch that is flushed wait longer for
a worker slot: with them gone, everyone who remains is no further back in the line. -/
namespace Coalesce.Engine
variable {α β : Type} {key k : Key} {ids tickets : List Key} {tokens : List String} {o : Options}
  {e e' u u' : Engine α β} {events new told : List (Event α β)}
  {actions taken : List (Action α β)} {a : Action α β} {t s : BatchTask α} {b : Batch α}

/-- Two histories under the same options, of which the second is coupled to the first. -/
structure Alongside (o : Options) (key : Key) (ids tickets : List Key)
    (actions : List (Action α β)) (e : Engine α β) (events : List (Event α β))
    (taken : List (Action α β)) (u : Engine α β) (told : List (Event α β)) : Prop where
  first : Reaches o actions e events
  second : Reaches o taken u told
  named : Named ids e
  coupled : Coupled key ids tickets e u

theorem Coupled.pendingAs?_eq_some (h : Coupled key ids tickets e u) {i : Nat}
    (hp : e.pendingAs? key i = some b) :
    u.pendingAs? key (place key ids i) = some (b.rename (naming key ids tickets)) := by
  obtain ⟨hp, hi⟩ := Option.filter_eq_some_iff.mp hp
  have hid : b.id = i := by simpa using hi
  exact Option.filter_eq_some_iff.mpr ⟨by rw [h.pending, hp]; rfl, by simp [naming, hid]⟩

theorem setStage_other (hb : Sound e events) (ht : t ∈ e.tasks) (hk : t.key ≠ key)
    {stage : Stage α} {x : BatchTask α} (hx : x ∈ (e.setStage t.id stage).tasks)
    (hxk : x.key = key) : x ∈ e.tasks := by
  rcases mem_setStage hb.tasks ht hx with rfl | ⟨hx, -⟩
  · exact absurd hxk hk
  · exact hx

namespace Alongside

theorem place?_other (h : Alongside o key ids tickets actions e events taken u told)
    (ht : t ∈ e.tasks) (hk : t.key ≠ key) : place? key ids t.id = none :=
  Coalesce.place?_other (h.named t ht) hk

theorem counterpart (h : Alongside o key ids tickets actions e events taken u told)
    (ht : t ∈ e.tasks) (hk : t.key = key) : ∃ s ∈ u.tasks, s.key = key ∧
      s.id = place key ids t.id ∧ place? key ids t.id = some s.id ∧
      u.task? s.id = some s ∧ t.stage.Ahead (naming key ids tickets) s.stage := by
  obtain ⟨s, hs, hi, hsk, hahead⟩ := h.coupled.tasks t ht hk
  have hplace := place?_own (hk ▸ h.named t ht)
  exact ⟨s, hs, hsk, hi, hi ▸ hplace, h.second.sound.task?_of_mem hs, hahead⟩

theorem dueReason?_rename (h : Alongside o key ids tickets actions e events taken u told)
    (b : Batch α) (shutdown : Bool) (now : Instant) :
    u.dueReason? (b.rename (naming key ids tickets)) shutdown now =
      e.dueReason? b shutdown now := by
  have hidle : u.idle = e.idle := h.second.settings.idle.trans h.first.settings.idle.symm
  have hmax : u.max = e.max := h.second.settings.max.trans h.first.settings.max.symm
  rw [dueReason?, dueReason?, Batch.deadline_rename, hidle, hmax]

theorem slept_followed (h : Alongside o key ids tickets actions e events taken u told)
    (ht : t ∈ e.tasks) (hst : t.stage = .spawned ∨ t.stage = .checking)
    (hp : e.pendingAs? t.key t.id = some b) :
    Followed key ids tickets tokens (.arm t.id)
      (e.setStage t.id (.sleeping ((b.deadline e.idle e.max).map (·.1)))) [] u := by
  have htiming := Stage.isTiming_of_armed hst
  by_cases hk : t.key = key
  · obtain ⟨s, hs, hsk, hi, hplace, htask, hahead⟩ := h.counterpart ht hk
    have hstage := hahead.eq_of_isTiming htiming
    have hidle : u.idle = e.idle := h.second.settings.idle.trans h.first.settings.idle.symm
    have hmax : u.max = e.max := h.second.settings.max.trans h.first.settings.max.symm
    rw [hk] at hp
    have hpu : u.pendingAs? s.key s.id = some (b.rename (naming key ids tickets)) := by
      rw [hsk, hi]
      exact h.coupled.pendingAs?_eq_some hp
    have harm : u.step? (.arm s.id) =
        some (u.setStage s.id (.sleeping ((b.deadline e.idle e.max).map (·.1))), []) := by
      rcases hst with hst | hst <;>
        simp [step?, htask, hstage, hst, arm, hpu, hidle, hmax]
    refine .taken (by rw [Action.under?, hplace]; rfl) harm ?_ rfl
    obtain ⟨hc, hid, hcalls, hpending, htasks, hline⟩ := h.coupled
    refine ⟨hc, hid, hcalls, hpending, ?_, hline⟩
    exact htasks.setStage h.named h.first.sound ht hk hs hi hsk .same rfl rfl
  · refine .erased (by rw [Action.under?, h.place?_other ht hk]; rfl) ?_ rfl
    exact h.coupled.other rfl rfl rfl rfl
      (fun x hx hxk => setStage_other h.first.sound ht hk hx hxk) fun order hl => ⟨order, hl, rfl⟩

theorem rechecked_followed (h : Alongside o key ids tickets actions e events taken u told)
    (ht : t ∈ e.tasks) {wakeAt : Option Instant} {shutdown : Bool} {now : Instant}
    (hst : t.stage = .sleeping wakeAt) (hw : e.mayWake wakeAt shutdown now = true)
    (hp : e.pendingAs? t.key t.id = some b) (hdue : e.dueReason? b shutdown now = none) :
    Followed key ids tickets tokens (.wake t.id shutdown now) (e.setStage t.id .checking) [] u := by
  by_cases hk : t.key = key
  · obtain ⟨s, hs, hsk, hi, hplace, htask, hahead⟩ := h.counterpart ht hk
    have hstage := hahead.eq_of_isTiming (Stage.isTiming_of_sleeping hst)
    rw [hk] at hp
    have hpu : u.pendingAs? s.key s.id = some (b.rename (naming key ids tickets)) := by
      rw [hsk, hi]
      exact h.coupled.pendingAs?_eq_some hp
    have hwu : u.mayWake wakeAt shutdown now = true := by
      rw [← hw, mayWake, mayWake, h.coupled.cancelled]
    have hwake : u.step? (.wake s.id shutdown now) = some (u.setStage s.id .checking, []) := by
      simp [step?, htask, hstage, hst, hwu, wake, hpu, h.dueReason?_rename, hdue]
    refine .taken (by rw [Action.under?, hplace]; rfl) hwake ?_ rfl
    obtain ⟨hc, hid, hcalls, hpending, htasks, hline⟩ := h.coupled
    refine ⟨hc, hid, hcalls, hpending, ?_, hline⟩
    exact htasks.setStage h.named h.first.sound ht hk hs hi hsk .same rfl rfl
  · refine .erased (by rw [Action.under?, h.place?_other ht hk]; rfl) ?_ rfl
    exact h.coupled.other rfl rfl rfl rfl
      (fun x hx hxk => setStage_other h.first.sound ht hk hx hxk) fun order hl => ⟨order, hl, rfl⟩

theorem flushed_followed (h : Alongside o key ids tickets actions e events taken u told)
    (ht : t ∈ e.tasks) {wakeAt : Option Instant} {shutdown : Bool} {now : Instant}
    {reason : FlushReason} (hst : t.stage = .sleeping wakeAt)
    (hw : e.mayWake wakeAt shutdown now = true) (hp : e.pendingAs? t.key t.id = some b)
    (hdue : e.dueReason? b shutdown now = some reason) :
    Followed key ids tickets tokens (.wake t.id shutdown now) (e.takeBatch t b reason)
      [.flushed b reason now] u := by
  have hbk : b.key = t.key := h.first.sound.own _ (pendingAs?_eq_some hp).1
  by_cases hk : t.key = key
  · obtain ⟨s, hs, hsk, hi, hplace, htask, hahead⟩ := h.counterpart ht hk
    have hstage := hahead.eq_of_isTiming (Stage.isTiming_of_sleeping hst)
    rw [hk] at hp hbk
    have hpu : u.pendingAs? s.key s.id = some (b.rename (naming key ids tickets)) := by
      rw [hsk, hi]
      exact h.coupled.pendingAs?_eq_some hp
    have hwu : u.mayWake wakeAt shutdown now = true := by
      rw [← hw, mayWake, mayWake, h.coupled.cancelled]
    have hwake : u.step? (.wake s.id shutdown now) =
        some (u.takeBatch s (b.rename (naming key ids tickets)) reason,
          [.flushed (b.rename (naming key ids tickets)) reason now]) := by
      simp [step?, htask, hstage, hst, hwu, wake, hpu, h.dueReason?_rename, hdue]
    refine .taken (by rw [Action.under?, hplace]; rfl) hwake ?_ ?_
    · obtain ⟨hc, hid, hcalls, hpending, htasks, hline⟩ := h.coupled
      refine ⟨hc, hid, hcalls, ?_, ?_, hline⟩
      · show (u.removeBatch s.key).pending? key = ((e.removeBatch t.key).pending? key).map _
        rw [pending?_removeBatch, pending?_removeBatch, if_pos hsk.symm, if_pos hk.symm]
        rfl
      · exact htasks.setStage h.named h.first.sound ht hk hs hi hsk
          (@Stage.Ahead.same _ _ (.queued b)) rfl rfl
    · simp [filedUnder, Event.filedUnder?, hbk, Event.rename]
  · refine .erased (by rw [Action.under?, h.place?_other ht hk]; rfl) ?_ ?_
    · refine h.coupled.other rfl rfl rfl ?_
        (fun x hx hxk => setStage_other h.first.sound ht hk hx hxk) fun order hl => ⟨order, hl, rfl⟩
      exact (pending?_removeBatch e t.key key).trans (if_neg (Ne.symm hk))
    · exact filedUnder_eq_nil (by simp [Event.filedUnder?, hbk, hk])

end Alongside

namespace Asked

theorem tasks_of_cancelled (hask : Asked e b e' new) (hc : e.cancelled = true) :
    e'.tasks = (e.endTask b.id).tasks := by
  cases hask with
  | abandoned => exact (settleAll_sameBooks _ _).tasks
  | waiting hp => simp [hc, Pool.ask] at hp
  | granted hp => simp [hc, Pool.ask] at hp

/-- A task that has asked executes its batch with a slot, or it still looks for one. -/
theorem tasks_of_not_cancelled (hask : Asked e b e' new) (h : e.pool.Balanced)
    (hc : e.cancelled = false) (hout : b.id ∉ e.pool.holding) :
    e'.tasks = (e.setStage b.id (.running b)).tasks ∧ b.id ∈ e'.pool.served ∨
    e'.tasks = (e.setStage b.id (.queued b)).tasks ∧ b.id ∉ e'.pool.served := by
  have hanswer := e.pool.ask_answered b.id e.cancelled
  have hpool := hask.pool
  cases hask with
  | abandoned hp =>
    rw [hp, hc] at hanswer
    cases hanswer.cancelled_eq.1
  | waiting hp =>
    rw [hp] at hpool
    rw [hp, hc] at hanswer
    refine .inr ⟨rfl, ?_⟩
    rw [hpool]
    cases hanswer with
    | kept hn hq => exact h.notMem_served hq
    | queued hn hq => exact fun hs => (Pool.mem_served.mp hs).elim hn hout
  | granted hp =>
    rw [hp] at hpool hanswer
    refine .inl ⟨rfl, ?_⟩
    rw [hpool, Pool.mem_served, (hanswer.granted h).1]
    exact .inr (List.mem_append_right _ List.mem_cons_self)

theorem pool_max (hask : Asked e b e' new) : e'.pool.max = e.pool.max := by
  rw [hask.pool]
  exact (e.pool.ask_answered b.id e.cancelled).max_eq

theorem lined (hask : Asked e b e' new) (h : e.pool.Balanced) (hc : e.cancelled = false)
    (hout : b.id ∉ e.pool.holding) {order : List Nat} (hl : e.pool.Lined order) :
    e'.pool.Lined (if b.id ∈ order then order else order ++ [b.id]) := by
  have hanswer := e.pool.ask_answered b.id e.cancelled
  rw [hask.pool, hc]
  rw [hc] at hanswer
  exact hl.ask h hout hanswer

end Asked

/-- Looking for a worker touches only the task and its place in the line. -/
theorem Coupled.of_asked (h : Coupled key ids tickets e u) (hask : Asked e b e' new)
    (hc : u'.cancelled = u.cancelled) (hid : u'.nextId = u.nextId)
    (hcalls : u'.calls.length = u.calls.length) (hr : u'.registry = u.registry)
    (htasks : Accompanied key ids tickets e' u')
    (hline : e.cancelled = false → ∃ order, e'.pool.Lined order ∧
      u'.pool.Lined (order.filterMap (place? key ids))) : Coupled key ids tickets e' u' := by
  constructor
  case cancelled => rw [hc, hask.cancelled, h.cancelled]
  case nextId => rw [hid, hask.nextId, h.nextId]
  case calls => rw [hcalls, hask.calls, h.calls]
  case pending => rw [pending?, hr, pending?, hask.registry]; exact h.pending
  case tasks => exact htasks
  case line => rw [hask.cancelled]; exact hline

namespace Alongside

theorem resumed_other (h : Alongside o key ids tickets actions e events taken u told)
    (ht : t ∈ e.tasks) (hq : t.stage = .queued b) (hk : t.key ≠ key) (hask : Asked e b e' new) :
    Followed key ids tickets tokens (.resume t.id) e' new u := by
  have hi := (h.first.sound.holding t ht b (Stage.batch?_of_queued hq)).2
  have hnone := h.place?_other ht hk
  refine .erased (by rw [Action.under?, hnone]; rfl) ?_ (filedUnder_asked key hask)
  have htasks : Accompanied key ids tickets e' u := by
    intro x hx hxk
    refine h.coupled.tasks x ?_ hxk
    cases hc : e.cancelled with
    | true =>
      rw [hask.tasks_of_cancelled hc] at hx
      exact List.mem_of_mem_filter hx
    | false =>
      have hout := h.first.staffed.notMem_holding h.first.sound ht hq
      rcases hask.tasks_of_not_cancelled h.first.staffed.pool hc (hi ▸ hout) with
        ⟨htasks, -⟩ | ⟨htasks, -⟩
      · rw [htasks, hi] at hx
        exact setStage_other h.first.sound ht hk hx hxk
      · rw [htasks, hi] at hx
        exact setStage_other h.first.sound ht hk hx hxk
  refine h.coupled.of_asked hask rfl rfl rfl rfl htasks fun hc => ?_
  obtain ⟨order, hl, hlu⟩ := h.coupled.line hc
  have hout := h.first.staffed.notMem_holding h.first.sound ht hq
  refine ⟨_, hask.lined h.first.staffed.pool hc (hi ▸ hout) hl, ?_⟩
  by_cases hm : b.id ∈ order
  · rwa [if_pos hm]
  · rw [if_neg hm, List.filterMap_append, hi, List.filterMap_cons_none hnone]
    simpa using hlu

/-- The counterpart has its slot already. -/
theorem resumed_passed (h : Alongside o key ids tickets actions e events taken u told)
    (ht : t ∈ e.tasks) (hq : t.stage = .queued b) (hk : t.key = key) (hask : Asked e b e' new)
    (hs : s ∈ u.tasks) (hsk : s.key = key) (hi : s.id = place key ids t.id)
    (hr : s.stage = .running (b.rename (naming key ids tickets))) :
    Coupled key ids tickets e' u := by
  have hbi := (h.first.sound.holding t ht b (Stage.batch?_of_queued hq)).2
  have hout := h.first.staffed.notMem_holding h.first.sound ht hq
  rw [← hbi] at hout
  refine h.coupled.of_asked hask rfl rfl rfl rfl ?_ fun hc => ?_
  · cases hc : e.cancelled with
    | true =>
      refine h.coupled.tasks.endTask h.named ht hk ?_ fun y hy _ => hy
      rw [hask.tasks_of_cancelled hc, hbi]
    | false =>
      rcases hask.tasks_of_not_cancelled h.first.staffed.pool hc hout with ⟨htasks, -⟩ | ⟨htasks, -⟩
      · rw [hbi] at htasks
        exact h.coupled.tasks.catchUp h.named h.first.sound ht hk hs hi hsk
          (by rw [hr]; exact @Stage.Ahead.same _ _ (.running b)) htasks
      · rw [hbi] at htasks
        exact h.coupled.tasks.catchUp h.named h.first.sound ht hk hs hi hsk
          (by rw [hr]; exact .overtaken) htasks
  · obtain ⟨order, hl, hlu⟩ := h.coupled.line hc
    have hiff := fun i => place?_eq_some_iff (j := i) (hk ▸ h.named t ht)
    have hserved : s.id ∈ u.pool.served :=
      Pool.mem_served.mpr (.inr ((h.second.staffed.holding s.id).mpr ⟨s, hs, rfl, _, hr⟩))
    have hmem : b.id ∈ order := by
      rw [hbi, ← mem_filterMap_iff hiff, ← hi, hlu.mem_iff]
      exact List.mem_append_left _ hserved
    have hlined := hask.lined h.first.staffed.pool hc hout hl
    rw [if_pos hmem] at hlined
    exact ⟨order, hlined, hlu⟩

/-- Both ask; the counterpart gets a slot if the task does. -/
theorem resumed_both (h : Alongside o key ids tickets actions e events taken u told)
    (ht : t ∈ e.tasks) (hq : t.stage = .queued b) (hk : t.key = key) (hask : Asked e b e' new)
    (hs : s ∈ u.tasks) (hsk : s.key = key) (hi : s.id = place key ids t.id)
    (hqs : s.stage = .queued (b.rename (naming key ids tickets))) {new' : List (Event α β)}
    (hask' : Asked u (b.rename (naming key ids tickets)) u' new') :
    Coupled key ids tickets e' u' := by
  have hbi := (h.first.sound.holding t ht b (Stage.batch?_of_queued hq)).2
  have hbi' := (h.second.sound.holding s hs _ (Stage.batch?_of_queued hqs)).2
  have hout := h.first.staffed.notMem_holding h.first.sound ht hq
  have hout' := h.second.staffed.notMem_holding h.second.sound hs hqs
  rw [← hbi] at hout
  rw [← hbi'] at hout'
  have hiff := fun i => place?_eq_some_iff (j := i) (hk ▸ h.named t ht)
  have hline : e.cancelled = false → ∃ order, e'.pool.Lined order ∧
      u'.pool.Lined (order.filterMap (place? key ids)) := by
    intro hc
    obtain ⟨order, hl, hlu⟩ := h.coupled.line hc
    have hlined := hask.lined h.first.staffed.pool hc hout hl
    have hlined' := hask'.lined h.second.staffed.pool (h.coupled.cancelled.trans hc) hout' hlu
    refine ⟨_, hlined, ?_⟩
    rwa [hbi, filterMap_join hiff, ← hi, ← hbi']
  refine h.coupled.of_asked hask hask'.cancelled hask'.nextId hask'.calls hask'.registry ?_ hline
  cases hc : e.cancelled with
  | true =>
    refine h.coupled.tasks.endTask h.named ht hk ?_ fun y hy hne => ?_
    · rw [hask.tasks_of_cancelled hc, hbi]
    · rw [hask'.tasks_of_cancelled (h.coupled.cancelled.trans hc), hbi', hi]
      exact Keyed.mem_others.mpr ⟨hy, hne⟩
  | false =>
    have hfirst := hask.tasks_of_not_cancelled h.first.staffed.pool hc hout
    have hsecond := hask'.tasks_of_not_cancelled h.second.staffed.pool
      (h.coupled.cancelled.trans hc) hout'
    rw [hbi] at hfirst
    rw [hbi'] at hsecond
    have hset : ∀ {stage stage' : Stage α}, stage.Ahead (naming key ids tickets) stage' →
        e'.tasks = (e.setStage t.id stage).tasks → u'.tasks = (u.setStage s.id stage').tasks →
        Accompanied key ids tickets e' u' :=
      h.coupled.tasks.setStage h.named h.first.sound ht hk hs hi hsk
    rcases hfirst with ⟨htasks, hserved⟩ | ⟨htasks, -⟩
    · rcases hsecond with ⟨htasks', -⟩ | ⟨htasks', hunserved⟩
      · exact hset (@Stage.Ahead.same _ _ (.running b)) htasks htasks'
      · -- in the shorter line it would be served as well
        obtain ⟨order, hl, hlu⟩ := hline hc
        have hbalanced := (asked_staffed hask h.first.sound h.first.staffed ht hq).pool
        have hbalanced' := (asked_staffed hask' h.second.sound h.second.staffed hs hqs).pool
        have hmax : u'.pool.max = e'.pool.max := by
          rw [hask.pool_max, hask'.pool_max, h.second.settings.workers, h.first.settings.workers]
        have hplace : place? key ids t.id = some s.id := by rw [hi]; exact (hiff t.id).mpr rfl
        exact absurd (hl.served_of_filterMap hlu hbalanced hbalanced' hmax hserved hplace)
          hunserved
    · rcases hsecond with ⟨htasks', -⟩ | ⟨htasks', -⟩
      · exact hset .overtaken htasks htasks'
      · exact hset (@Stage.Ahead.same _ _ (.queued b)) htasks htasks'

theorem resumed_followed (h : Alongside o key ids tickets actions e events taken u told)
    (ht : t ∈ e.tasks) (hq : t.stage = .queued b) (hask : Asked e b e' new) :
    Followed key ids tickets tokens (.resume t.id) e' new u := by
  by_cases hk : t.key = key
  · obtain ⟨s, hs, hsk, hi, hplace, htask, hahead⟩ := h.counterpart ht hk
    have hunder : Action.under? key ids tickets tokens (.resume t.id : Action α β) =
        some (.resume s.id) := by
      rw [Action.under?, hplace]
      rfl
    rw [hq] at hahead
    rcases hahead.of_queued with hqs | hrs
    · have hresume : u.step? (.resume s.id) =
          some (u.askForWorker (b.rename (naming key ids tickets))) := by
        simp [step?, htask, hqs]
      have hask' := askForWorker_asked u (b.rename (naming key ids tickets))
      refine .taken hunder hresume (h.resumed_both ht hq hk hask hs hsk hi hqs hask') ?_
      rw [filedUnder_asked key hask, filedUnder_asked key hask', List.map_nil]
    · exact .passed hs hrs hunder (h.resumed_passed ht hq hk hask hs hsk hi hrs)
        (filedUnder_asked key hask)
  · exact h.resumed_other ht hq hk hask

end Alongside

structure Ends (e e' : Engine α β) (i : Nat) : Prop where
  cancelled : e'.cancelled = e.cancelled
  nextId : e'.nextId = e.nextId
  calls : e'.calls.length = e.calls.length
  tasks : e'.tasks = (e.endTask i).tasks
  pool : e'.pool = e.pool.leave i

theorem finish_ends (e : Engine α β) (b : Batch α) (outcome : Outcome β) :
    Ends e (e.finish b outcome).1 b.id := by
  rw [finish_eq, settleAll_eq]
  exact ⟨rfl, rfl, length_fillAll .., rfl, rfl⟩

theorem Reaches.kill_ends (h : Reaches o actions e events) (ht : t ∈ e.tasks) :
    Ends e (e.kill t).1 t.id := by
  have htimer : t.stage.isTiming = true → e.pool = e.pool.leave t.id := fun hs =>
    (h.staffed.leave_of_isTiming h.sound ht hs).2.symm
  have hdrop : t.stage.isTiming = true → Ends e (e.dropTimer t).1 t.id := by
    intro hs
    unfold dropTimer
    cases e.pendingAs? t.key t.id with
    | none => exact ⟨rfl, rfl, rfl, rfl, htimer hs⟩
    | some b => exact ⟨rfl, rfl, length_releaseAll .., rfl, htimer hs⟩
  unfold kill
  cases hst : t.stage with
  | spawned => exact ⟨rfl, rfl, rfl, rfl, htimer (by rw [hst]; rfl)⟩
  | checking => exact hdrop (by rw [hst]; rfl)
  | sleeping wakeAt => exact hdrop (by rw [hst]; rfl)
  | queued b =>
    have hi := (h.sound.holding t ht b (Stage.batch?_of_queued hst)).2
    rw [← hi]
    exact ⟨rfl, rfl, length_releaseAll .., rfl, rfl⟩
  | running b =>
    have hi := (h.sound.holding t ht b (Stage.batch?_of_running hst)).2
    rw [← hi]
    exact ⟨rfl, rfl, length_releaseAll .., rfl, rfl⟩

theorem kill_of_timer (hs : t.stage.isTiming = true) (hne : t.stage ≠ .spawned)
    (hp : e.pendingAs? t.key t.id = some b) :
    e.kill t = (((e.endTask t.id).removeBatch t.key).release b.slots, [.orphaned b]) := by
  unfold kill
  cases hst : t.stage with
  | spawned => exact absurd hst hne
  | checking => simp [dropTimer, hp]
  | sleeping wakeAt => simp [dropTimer, hp]
  | queued c => rw [hst] at hs; cases hs
  | running c => rw [hst] at hs; cases hs

theorem kill_of_holder (hb : t.stage.batch? = some b) :
    (e.kill t).1.registry = e.registry ∧ (e.kill t).2 = [] := by
  unfold kill
  cases hst : t.stage with
  | queued c => exact ⟨rfl, rfl⟩
  | running c => exact ⟨rfl, rfl⟩
  | _ => rw [hst] at hb; cases hb

theorem kill_of_spawned (hs : t.stage = .spawned) : e.kill t = (e.endTask t.id, []) := by
  rw [kill, hs]

/-- A task that is dropped takes its pending batch along, or changes nothing of what is pending. -/
theorem Reaches.kill_pending (h : Reaches o actions e events) (ht : t ∈ e.tasks) :
    (∃ b, t.stage.isTiming = true ∧ t.stage ≠ .spawned ∧ e.pendingAs? t.key t.id = some b) ∨
    (t.stage = .spawned ∨ ∃ b, t.stage.batch? = some b) ∧ (e.kill t).1.registry = e.registry ∧
      (e.kill t).2 = [] := by
  cases hb : t.stage.batch? with
  | some b => exact .inr ⟨.inr ⟨b, rfl⟩, kill_of_holder hb⟩
  | none =>
    have hs := Stage.isTiming_iff.mpr hb
    by_cases hst : t.stage = .spawned
    · rw [kill_of_spawned hst]
      exact .inr ⟨.inl hst, rfl, rfl⟩
    · obtain ⟨b, hp⟩ := h.sound.timer_finds ht hs
      exact .inl ⟨b, hs, hst, hp⟩

namespace Alongside

/-- A task of another key ends. -/
theorem ended_other (h : Alongside o key ids tickets actions e events taken u told)
    (ht : t ∈ e.tasks) (hk : t.key ≠ key) (he : Ends e e' t.id)
    (hp : e'.pending? key = e.pending? key) : Coupled key ids tickets e' u := by
  refine h.coupled.other he.cancelled (by rw [he.nextId]) (by rw [he.calls]) hp
    (fun x hx _ => ?_) fun order hl => ?_
  · rw [he.tasks] at hx
    exact List.mem_of_mem_filter hx
  · refine ⟨order.erase t.id, ?_, filterMap_erase_of_eq_none (h.place?_other ht hk)⟩
    rw [he.pool]
    exact hl.leave h.first.staffed.pool t.id

/-- A task and its counterpart end. -/
theorem ended_both (h : Alongside o key ids tickets actions e events taken u told)
    (ht : t ∈ e.tasks) (hk : t.key = key) (hi : s.id = place key ids t.id) (he : Ends e e' t.id)
    (hu : Ends u u' s.id)
    (hp : u'.pending? key = (e'.pending? key).map (Batch.rename (naming key ids tickets))) :
    Coupled key ids tickets e' u' := by
  constructor
  case cancelled => rw [hu.cancelled, he.cancelled, h.coupled.cancelled]
  case nextId => rw [hu.nextId, he.nextId, h.coupled.nextId]
  case calls => rw [hu.calls, he.calls, h.coupled.calls]
  case pending => exact hp
  case tasks =>
    refine h.coupled.tasks.endTask h.named ht hk he.tasks fun y hy hne => ?_
    rw [hu.tasks, hi]
    exact Keyed.mem_others.mpr ⟨hy, hne⟩
  case line =>
    rw [he.cancelled]
    intro hnc
    obtain ⟨order, hl, hlu⟩ := h.coupled.line hnc
    have hiff := fun i => place?_eq_some_iff (j := i) (hk ▸ h.named t ht)
    refine ⟨order.erase t.id, ?_, ?_⟩
    · rw [he.pool]
      exact hl.leave h.first.staffed.pool t.id
    · rw [hu.pool, filterMap_erase hiff, ← hi]
      exact hlu.leave h.second.staffed.pool s.id

theorem finished_followed (h : Alongside o key ids tickets actions e events taken u told)
    (ht : t ∈ e.tasks) (hr : t.stage = .running b) (outcome : Outcome β) :
    Followed key ids tickets tokens (.finish t.id outcome) (e.finish b outcome).1
      (e.finish b outcome).2 u := by
  have hbi := (h.first.sound.holding t ht b (Stage.batch?_of_running hr)).2
  have hregistry : ∀ (m : Engine α β) (c : Batch α),
      (m.finish c outcome).1.registry = m.registry := by
    intro m c
    rw [finish_eq, settleAll_eq]
    rfl
  have hfiled : ∀ (m : Engine α β) (c : Batch α), filedUnder key (m.finish c outcome).2 = [] := by
    intro m c
    rw [finish_eq]
    exact filedUnder_ending ..
  have he := finish_ends e b outcome
  rw [hbi] at he
  by_cases hk : t.key = key
  · obtain ⟨s, hs, hsk, hi, hplace, htask, hahead⟩ := h.counterpart ht hk
    rw [hr] at hahead
    have hrs := hahead.of_running
    have hbi' := (h.second.sound.holding s hs _ (Stage.batch?_of_running hrs)).2
    have hu := finish_ends u (b.rename (naming key ids tickets)) outcome
    rw [hbi'] at hu
    have hfinish : u.step? (.finish s.id outcome) =
        some (u.finish (b.rename (naming key ids tickets)) outcome) := by
      simp [step?, htask, hrs]
    refine .taken (by rw [Action.under?, hplace]; rfl) hfinish (h.ended_both ht hk hi he hu ?_) ?_
    · rw [pending?, pending?, hregistry, hregistry]
      exact h.coupled.pending
    · rw [hfiled, hfiled, List.map_nil]
  · refine .erased (by rw [Action.under?, h.place?_other ht hk]; rfl) ?_ (hfiled e b)
    exact h.ended_other ht hk he (by rw [pending?, hregistry, pending?])

theorem killed_followed (h : Alongside o key ids tickets actions e events taken u told)
    (ht : t ∈ e.tasks) :
    Followed key ids tickets tokens (.kill t.id) (e.kill t).1 (e.kill t).2 u := by
  have he := h.first.kill_ends ht
  by_cases hk : t.key = key
  · obtain ⟨s, hs, hsk, hi, hplace, htask, hahead⟩ := h.counterpart ht hk
    have hu := h.second.kill_ends hs
    have hkill : u.step? (.kill s.id) = some (u.kill s) := by simp [step?, htask]
    suffices hsuff : (u.kill s).1.pending? key =
        ((e.kill t).1.pending? key).map (Batch.rename (naming key ids tickets)) ∧
        filedUnder key (u.kill s).2 =
          (filedUnder key (e.kill t).2).map (Event.rename (naming key ids tickets)) from
      .taken (by rw [Action.under?, hplace]; rfl) hkill (h.ended_both ht hk hi he hu hsuff.1)
        hsuff.2
    rcases h.first.kill_pending ht with ⟨b, hst, hne, hp⟩ | ⟨hst, hregistry, hnew⟩
    · have hstage := hahead.eq_of_isTiming hst
      have hbk : b.key = key := hk ▸ h.first.sound.own _ (pendingAs?_eq_some hp).1
      have hpu : u.pendingAs? s.key s.id = some (b.rename (naming key ids tickets)) := by
        rw [hsk, hi]
        exact h.coupled.pendingAs?_eq_some (hk ▸ hp)
      rw [kill_of_timer hst hne hp, kill_of_timer (hstage ▸ hst) (hstage ▸ hne) hpu]
      constructor
      · show (u.removeBatch s.key).pending? key = ((e.removeBatch t.key).pending? key).map _
        rw [pending?_removeBatch, pending?_removeBatch, if_pos hsk.symm, if_pos hk.symm]
        rfl
      · simp [filedUnder, Event.filedUnder?, hbk, Event.rename]
    · have hsame : (u.kill s).1.registry = u.registry ∧ (u.kill s).2 = [] := by
        rcases hst with hst | ⟨b, hb⟩
        · have hstage := hahead.eq_of_isTiming (by rw [hst]; rfl)
          rw [kill_of_spawned (hstage.trans hst)]
          exact ⟨rfl, rfl⟩
        · exact kill_of_holder (hahead.holds hb)
      rw [pending?, pending?, hregistry, hnew, hsame.1, hsame.2]
      exact ⟨h.coupled.pending, rfl⟩
  · have hkill : (e.kill t).1.pending? key = e.pending? key ∧ filedUnder key (e.kill t).2 = [] := by
      rcases h.first.kill_pending ht with ⟨b, hst, hne, hp⟩ | ⟨-, hregistry, hnew⟩
      · have hbk : b.key = t.key := h.first.sound.own _ (pendingAs?_eq_some hp).1
        rw [kill_of_timer hst hne hp]
        constructor
        · exact (pending?_removeBatch (e.endTask t.id) t.key key).trans (if_neg (Ne.symm hk))
        · exact filedUnder_eq_nil (by simp [Event.filedUnder?, hbk, hk])
      · rw [pending?, hregistry, hnew]
        exact ⟨rfl, rfl⟩
    exact .erased (by rw [Action.under?, h.place?_other ht hk]; rfl)
      (h.ended_other ht hk he hkill.1) hkill.2

theorem killed_step (h : Alongside o key ids tickets actions e events taken u told)
    (ht : t ∈ e.tasks) (hs : e.step? (.kill t.id) = some (e', new)) :
    Followed key ids tickets tokens (.kill t.id) e' new u := by
  have hkill : e.step? (.kill t.id) = some (e.kill t) := by
    simp [step?, h.first.sound.task?_of_mem ht]
  have hsame : (e', new) = e.kill t := Option.some.inj (hs.symm.trans hkill)
  have hfollowed : Followed key ids tickets tokens (.kill t.id) (e.kill t).1 (e.kill t).2 u :=
    h.killed_followed ht
  rwa [← hsame] at hfollowed

theorem aside_followed (h : Alongside o key ids tickets actions e events taken u told)
    (ha : Aside e a e' new) (hs : e.step? a = some (e', new)) :
    Followed key ids tickets tokens a e' new u := by
  have hlook : ∀ ticket, a = .look ticket → Followed key ids tickets tokens a e' new u := by
    rintro ticket rfl
    have hfollowed : Followed key ids tickets tokens (.look ticket) (e.look ticket).1
        (e.look ticket).2 u :=
      Unnoticed.followed ticket .look look (look_unnoticed key) (fun _ _ => rfl) rfl h.coupled
    rwa [show e.look ticket = (e', new) from Option.some.inj hs] at hfollowed
  have hleave : ∀ ticket, a = .leave ticket → Followed key ids tickets tokens a e' new u := by
    rintro ticket rfl
    have hfollowed : Followed key ids tickets tokens (.leave ticket) (e.leave ticket) [] u :=
      Unnoticed.followed ticket .leave (fun m j => (m.leave j, [])) (leave_unnoticed key)
        (fun _ _ => rfl) rfl h.coupled
    obtain ⟨rfl, rfl⟩ := Prod.mk.inj (Option.some.inj hs)
    exact hfollowed
  cases ha with
  | rejected hc => exact rejected_followed h.coupled hc ..
  | cancelled => exact h.coupled.cancel_followed
  | closed hc => exact h.coupled.close_followed hc
  | tokenCancelled => exact cancelToken_followed h.coupled _
  | answered => exact hlook _ rfl
  | unanswered => exact hlook _ rfl
  | left => exact hleave _ rfl
  | gone => exact hleave _ rfl

/-- Whatever happens, the coupled engine can follow. -/
theorem step_followed (h : Alongside o key ids tickets actions e events taken u told)
    (hs : e.step? a = some (e', new)) (hids : openedKeys (events ++ new) <+: ids)
    (htickets : acceptedKeys (events ++ new) <+: tickets) :
    Followed key ids tickets tokens a e' new u := by
  have hticket : ∀ {k : Key} {request : α} {more : List (Event α β)},
      new = .accepted e.calls.length k request :: more → tickets[e.calls.length]? = some k := by
    rintro k request more rfl
    refine getElem?_of_prefix htickets ?_
    rw [acceptedKeys_append, ← h.first.conserved.length_acceptedKeys]
    simp [acceptedKeys, accepted, Event.accepted?]
  have hid : ∀ {k : Key} {request : α},
      new = [.accepted e.calls.length k request, .opened e.nextId k] → ids[e.nextId]? = some k := by
    rintro k request rfl
    refine getElem?_of_prefix hids ?_
    have hlast : ∀ id, openedKeys ([.accepted e.calls.length k request, .opened id k] :
        List (Event α β)) = [k] := fun id => rfl
    rw [openedKeys_append, ← h.first.filed.length, hlast, List.getElem?_concat_length]
  cases step_of_step? hs with
  | aside ha => exact h.aside_followed ha hs
  | joined hc hp => exact joined_followed h.coupled hc hp (hticket rfl) ..
  | opened hc hp => exact opened_followed h.coupled hc hp (hid rfl) (hticket rfl) ..
  | slept ht hst hp => exact h.slept_followed ht hst hp
  | strayed ht hst hp =>
    obtain ⟨b, hb⟩ := h.first.sound.timer_finds ht (Stage.isTiming_of_armed hst)
    rw [hp] at hb
    cases hb
  | rechecked ht hst hw hdue =>
    obtain ⟨b, hb⟩ := h.first.sound.timer_finds ht (Stage.isTiming_of_sleeping hst)
    exact h.rechecked_followed ht hst hw hb (hdue b hb)
  | flushed ht hst hw hp hdue => exact h.flushed_followed ht hst hw hp hdue
  | resumed ht hq => exact h.resumed_followed ht hq (askForWorker_asked ..)
  | finished ht hr => exact h.finished_followed ht hr _
  | lost ht => exact h.killed_step ht hs
  | orphaned ht => exact h.killed_step ht hs
  | vanished ht => exact h.killed_step ht hs
  | dropped ht => exact h.killed_step ht hs
  | aborted ht => exact h.killed_step ht hs

end Alongside

/-- What the coupled engine tells of the batches under `key`: the same, under other names; and it
has started whatever was started. -/
structure Retold (key : Key) (r : Renaming) (events told : List (Event α β)) : Prop where
  registry : filedUnder key told = (filedUnder key events).map (Event.rename r)
  executions : ∀ b ∈ started events, b.key = key → b.rename r ∈ started told

/-- What has started executes, so its counterpart has started as well. -/
theorem Coupled.started (h : Coupled key ids tickets e' u') (hr : Reaches o taken u' told)
    (hb : Sound e events) (hf : Filed e' (events ++ new)) (hs : Step e a e' new)
    (hst : b ∈ started new) (hk : b.key = key) :
    b.rename (naming key ids tickets) ∈ started told := by
  obtain ⟨t, ht, -, hrun⟩ := step_running_of_started hs hb hst
  have htk : t.key = key := (hf.held t ht b (Stage.batch?_of_running hrun)).symm.trans hk
  obtain ⟨s, hs, -, -, hahead⟩ := h.tasks t ht htk
  rw [hrun] at hahead
  exact (hr.traced.running s hs _ hahead.of_running).1

theorem Retold.append {r : Renaming} {new' : List (Event α β)} (h : Retold key r events told)
    (hfiled : filedUnder key new' = (filedUnder key new).map (Event.rename r))
    (hstarted : ∀ b ∈ started new, b.key = key → b.rename r ∈ started (told ++ new')) :
    Retold key r (events ++ new) (told ++ new') := by
  constructor
  case registry => rw [filedUnder_append, filedUnder_append, List.map_append, hfiled, h.registry]
  case executions =>
    intro b hb hk
    rw [started_append] at hb
    rcases List.mem_append.mp hb with hb | hb
    · rw [started_append]
      exact List.mem_append_left _ (h.executions b hb hk)
    · exact hstarted b hb hk

theorem Retold.append_nil {r : Renaming} (h : Retold key r events told)
    (hfiled : filedUnder key new = [])
    (hstarted : ∀ b ∈ started new, b.key = key → b.rename r ∈ started told) :
    Retold key r (events ++ new) told := by
  have happend : Retold key r (events ++ new) (told ++ []) :=
    h.append (by rw [hfiled]; rfl) (by simpa using hstarted)
  rwa [List.append_nil] at happend

theorem Reaches.replayed (h : Reaches o actions e events) (key : Key) {ids tickets : List Key}
    (tokens : List String) (hids : openedKeys events <+: ids)
    (htickets : acceptedKeys events <+: tickets) :
    ∃ taken u told,
      Replays o (actions.filterMap (Action.under? key ids tickets tokens)) taken u told ∧
      Coupled key ids tickets e u ∧ Retold key (naming key ids tickets) events told := by
  induction h with
  | built hb =>
    refine ⟨[], _, [], .built hb, ?_, ⟨rfl, fun b hb => by cases hb⟩⟩
    rw [(build_eq_ok hb).2]
    exact fresh_coupled o key ids tickets
  | @step actions e events a e' new hr hs ih =>
    have hids' : openedKeys events <+: ids := by
      rw [openedKeys_append] at hids
      exact (List.prefix_append _ _).trans hids
    have htickets' : acceptedKeys events <+: tickets := by
      rw [acceptedKeys_append] at htickets
      exact (List.prefix_append _ _).trans htickets
    obtain ⟨taken, u, told, hreplays, hcoupled, hretold⟩ := ih hids' htickets'
    have halong : Alongside o key ids tickets actions e events taken u told :=
      ⟨hr, hreplays.reaches, hr.filed.named hids', hcoupled⟩
    have hstep := step_of_step? hs
    have hfiled := (hr.step hs).filed
    rw [List.filterMap_append]
    cases (halong.step_followed hs hids htickets : Followed key ids tickets tokens a e' new u) with
    | erased hunder hnext hnone =>
      rw [List.filterMap_cons_none hunder, List.filterMap_nil, List.append_nil]
      exact ⟨taken, u, told, hreplays, hnext, hretold.append_nil hnone fun b hb hk =>
        hnext.started hreplays.reaches hr.sound hfiled hstep hb hk⟩
    | @taken c p hunder hc hnext hsame =>
      obtain ⟨u', new'⟩ := p
      have hmore := hreplays.step hc
      rw [List.filterMap_cons_some hunder, List.filterMap_nil]
      exact ⟨_, u', _, hmore, hnext, hretold.append hsame fun b hb hk =>
        hnext.started hmore.reaches hr.sound hfiled hstep hb hk⟩
    | passed hsu hrun hunder hnext hnone =>
      rw [List.filterMap_cons_some hunder, List.filterMap_nil]
      exact ⟨taken, u, told, hreplays.passed hsu hrun, hnext, hretold.append_nil hnone
        fun b hb hk => hnext.started hreplays.reaches hr.sound hfiled hstep hb hk⟩

/-- Every key is isolated from the others: the run without what belongs to them is a run, and in it
the batches under the key are opened, joined and flushed with the same requests at the same instants
for the same reasons, and the same requests are refused. -/
theorem key_isolated (h : Reaches o actions e events) (key : Key) :
    ∃ taken u told, Replays o (erased key actions events) taken u told ∧ Reaches o taken u told ∧
      filedUnder key told = (filedUnder key events).map
        (Event.rename (naming key (openedKeys events) (acceptedKeys events))) ∧
      u.pending? key = (e.pending? key).map
        (Batch.rename (naming key (openedKeys events) (acceptedKeys events))) ∧
      ∀ b ∈ started events, b.key = key →
        b.rename (naming key (openedKeys events) (acceptedKeys events)) ∈ started told := by
  obtain ⟨taken, u, told, hreplays, hcoupled, hretold⟩ :=
    h.replayed key (tokensUnder key actions) (List.prefix_refl _) (List.prefix_refl _)
  exact ⟨taken, u, told, hreplays, hreplays.reaches, hretold.registry, hcoupled.pending,
    hretold.executions⟩

/-- A batch waits for the only slot behind one of another key; without the other it gets the slot at
once, and does not look for one a second time. -/
theorem key_isolated_behind_other : ∃ (e : Engine String String) (events : _),
    Reaches { maxRequestWorkers := 1 } [.submit "t" ⟨"l"⟩ "x" ⟨0⟩, .submit "u" ⟨"k"⟩ "a" ⟨0⟩,
      .arm 0, .arm 1, .wake 0 false ⟨1000000000⟩, .resume 0, .wake 1 false ⟨1000000000⟩, .resume 1,
      .cancelToken "t", .finish 0 (.results []), .resume 1] e events ∧
    ∃ (taken : List (Action String String)) (u : Engine String String)
      (told : List (Event String String)),
    Replays { maxRequestWorkers := 1 } [.submit "u" ⟨"k"⟩ "a" ⟨0⟩, .arm 0,
      .wake 0 false ⟨1000000000⟩, .resume 0, .resume 0] taken u told ∧
    filedUnder ⟨"k"⟩ told = [.accepted 0 ⟨"k"⟩ "a", .opened 0 ⟨"k"⟩,
      .flushed ⟨0, ⟨"k"⟩, ["a"], [0], ⟨0⟩, ⟨0⟩⟩ .idle ⟨1000000000⟩] ∧
    (started events).map Batch.id = [0, 1] := by
  have h : @Reaches String String { maxRequestWorkers := 1 } [.submit "t" ⟨"l"⟩ "x" ⟨0⟩,
      .submit "u" ⟨"k"⟩ "a" ⟨0⟩, .arm 0, .arm 1, .wake 0 false ⟨1000000000⟩, .resume 0,
      .wake 1 false ⟨1000000000⟩, .resume 1, .cancelToken "t", .finish 0 (.results []),
      .resume 1] _ _ :=
    reaches_iff_run?.mpr ⟨_, _, rfl, rfl⟩
  obtain ⟨taken, u, told, hreplays, -, hfiled, -⟩ := key_isolated h ⟨"k"⟩
  exact ⟨_, _, h, taken, u, told, hreplays, hfiled, rfl⟩

end Coalesce.Engine
