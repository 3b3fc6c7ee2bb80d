import Coalesce.Proofs.ContentKeys
import Coalesce.Proofs.Resting
import Coalesce.Storm.Report

/-! # The report of a storm adds up

The moves of a storm are steps of its engine that disturb nobody, and its backend answers every
request with the size of its batch. However the moves are scheduled, once every caller has come back
the report follows from the accounts of an engine at rest, and from what the keys of the requests
are. -/
namespace Coalesce

theorem Key.ofNat_inj {m n : Nat} (h : Key.ofNat m = Key.ofNat n) : m = n :=
  Text.decimalText_inj (congrArg Key.text h)

namespace Storm
open Engine

def Move.item? : Move → Option Nat
  | .submit item _ => some item
  | _ => none

def submitted (moves : List Move) : List Nat := moves.filterMap Move.item?

variable {p : Plan} {s s' : Storm} {m : Move} {moves more : List Move} {a : Action Nat Nat}
  {actions : List (Action Nat Nat)} {events new : List (Event Nat Nat)} {b : Batch Nat}
  {e : Engine Nat Nat} {ticket : Ticket} {result : Except Error Nat} {item : Nat}

theorem submitted_concat (moves : List Move) (m : Move) :
    submitted (moves ++ [m]) = submitted moves ++ m.item?.toList := by
  rw [submitted, submitted, List.filterMap_append]
  cases hm : m.item? <;> simp [hm]

/-- An execution ends with what the backend answers for its batch. -/
theorem Move.action?_finish {id : Nat} (h : (Move.finish id).action? p e = some a) :
    ∃ t ∈ e.tasks, t.id = id ∧ ∃ b, t.stage = .running b ∧ a = .finish id (backend b) := by
  dsimp only [Move.action?] at h
  split at h
  · next b htask =>
    cases h
    obtain ⟨ht, hid⟩ := task?_eq_some htask
    exact ⟨_, ht, hid, b, rfl, rfl⟩
  · cases h

theorem Move.calm (h : m.action? p e = some a) : Calm [a] := by
  cases m with
  | finish id =>
    obtain ⟨t, -, -, b, -, rfl⟩ := Move.action?_finish h
    constructor <;> simp
  | _ =>
    cases h
    constructor <;> simp

theorem Move.submissions (h : m.action? p e = some a) :
    Engine.submissions [a] = m.item?.toList.map fun item => (p.keyOf item, item) := by
  cases m with
  | finish id =>
    obtain ⟨t, -, -, b, -, rfl⟩ := Move.action?_finish h
    rfl
  | _ =>
    cases h
    rfl

theorem Move.eq_finish {id : Nat} {outcome : Outcome Nat}
    (h : m.action? p e = some (.finish id outcome)) : m = .finish id := by
  cases m with
  | finish i =>
    obtain ⟨t, -, -, b, -, heq⟩ := Move.action?_finish h
    cases heq
    rfl
  | _ => cases h

theorem active_notes (events : List (Event Nat Nat)) (s : Storm) :
    (events.foldl note s).active = s.active + (started events).length := by
  induction events generalizing s with
  | nil => rfl
  | cons event rest ih =>
    rw [List.foldl_cons, ih]
    cases event with
    | started b =>
      show s.active + 1 + (started rest).length = s.active + ((started rest).length + 1)
      omega
    | _ => rfl

/-- The backend sees no more at one time than in the end, as no execution ends among the events. -/
theorem peak_notes_le (events : List (Event Nat Nat)) (s : Storm) :
    (events.foldl note s).peak ≤ max s.peak (s.active + (started events).length) := by
  induction events generalizing s with
  | nil => exact Nat.le_max_left _ _
  | cons event rest ih =>
    rw [List.foldl_cons]
    refine (ih _).trans ?_
    cases event with
    | started b =>
      show max (max s.peak (s.active + 1)) (s.active + 1 + (started rest).length) ≤
        max s.peak (s.active + ((started rest).length + 1))
      omega
    | _ => exact le_rfl

/-- The backend goes on counting what the engine counts as under way. -/
theorem attend_active (hs : Step s.engine a e new) (ha : m.action? p s.engine = some a)
    (hactive : s.active = s.engine.counters.active) :
    (s.attend m new).active = e.counters.active ∧
      (s.attend m new).peak ≤ max s.peak e.counters.active := by
  cases m with
  | finish id =>
    obtain ⟨t, -, -, b, -, rfl⟩ := Move.action?_finish ha
    obtain ⟨hless, hnone⟩ := step_active_of_finish hs
    have hcount := active_notes new s.exit
    have hpeak := peak_notes_le new s.exit
    rw [hnone] at hcount hpeak
    have hexit : s.exit.active = e.counters.active := by
      rw [hless, ← hactive]
      rfl
    rw [hexit] at hcount hpeak
    exact ⟨hcount, hpeak⟩
  | _ =>
    cases ha
    have hmore := step_active hs nofun nofun
    rw [← hactive] at hmore
    exact ⟨(active_notes new s).trans hmore.symm, (peak_notes_le new s).trans (hmore ▸ le_rfl)⟩

theorem step?_eq_some (h : s.step? p m = some (s', new)) :
    ∃ a, m.action? p s.engine = some a ∧ s.engine.step? a = some (s'.engine, new) ∧
      s'.active = (s.attend m new).active ∧ s'.peak = (s.attend m new).peak := by
  obtain ⟨a, ha, h⟩ := Option.bind_eq_some_iff.mp h
  obtain ⟨⟨engine, events⟩, hs, h⟩ := Option.bind_eq_some_iff.mp h
  cases h
  exact ⟨a, ha, hs, rfl, rfl⟩

theorem run?_cons_eq_some (h : s.run? p (m :: more) = some (s', new)) :
    ∃ mid first others, s.step? p m = some (mid, first) ∧ mid.run? p more = some (s', others) ∧
      new = first ++ others := by
  obtain ⟨⟨mid, first⟩, hs, h⟩ := Option.bind_eq_some_iff.mp h
  obtain ⟨⟨last, others⟩, hr, h⟩ := Option.bind_eq_some_iff.mp h
  cases h
  exact ⟨mid, first, others, hs, hr, rfl⟩

structure Underway (p : Plan) (s : Storm) (moves : List Move) (actions : List (Action Nat Nat))
    (events : List (Event Nat Nat)) : Prop where
  reaches : Reaches p.options actions s.engine events
  calm : Calm actions
  submissions :
    Engine.submissions actions = (submitted moves).map fun item => (p.keyOf item, item)
  finished : ∀ id outcome, .finish id outcome ∈ actions →
    ∃ b ∈ started events, b.id = id ∧ outcome = backend b
  active : s.active = s.engine.counters.active
  peak : s.peak ≤ p.settings.maxRequestWorkers.toNat

theorem start_underway (h : start p = .ok s) : Underway p s [] [] [] := by
  unfold start at h
  cases hb : (Engine.build p.options : Except BuildFault (Engine Nat Nat × List LogEntry)) with
  | error fault =>
    rw [hb] at h
    cases h
  | ok built =>
    rw [hb] at h
    cases h
    obtain ⟨-, hfresh⟩ := build_eq_ok hb
    exact ⟨.built hb, calm_nil, rfl, nofun, by rw [hfresh]; rfl, Nat.zero_le _⟩

theorem step_underway (h : Underway p s moves actions events)
    (hs : s.step? p m = some (s', new)) :
    ∃ a, Underway p s' (moves ++ [m]) (actions ++ [a]) (events ++ new) := by
  obtain ⟨a, ha, hstep, hactive, hpeak⟩ := step?_eq_some hs
  obtain ⟨hcount, hmost⟩ := attend_active (step_of_step? hstep) ha h.active
  have hreaches := h.reaches.step hstep
  refine ⟨a, ?_⟩
  constructor
  case reaches => exact hreaches
  case calm => exact calm_append.mpr ⟨h.calm, Move.calm ha⟩
  case submissions =>
    rw [submissions_append_of_notMem h.calm.cancel, h.submissions, Move.submissions ha,
      submitted_concat, List.map_append]
  case finished =>
    intro id outcome hf
    rcases List.mem_append.mp hf with hf | hf
    · obtain ⟨b, hb, hid, houtcome⟩ := h.finished id outcome hf
      exact ⟨b, started_mono hb new, hid, houtcome⟩
    · rw [List.mem_singleton] at hf
      subst hf
      obtain rfl := Move.eq_finish ha
      obtain ⟨t, ht, rfl, b, hstage, heq⟩ := Move.action?_finish ha
      cases heq
      have hstarted := (h.reaches.traced.running t ht b hstage).1
      have hid := (h.reaches.sound.holding t ht b (Stage.batch?_of_running hstage)).2
      exact ⟨b, started_mono hstarted new, hid, rfl⟩
  case active => exact hactive.trans hcount
  case peak =>
    rw [hpeak]
    exact hmost.trans (Nat.max_le.mpr ⟨h.peak, hreaches.active_le⟩)

theorem run_underway (h : Underway p s moves actions events)
    (hr : s.run? p more = some (s', new)) :
    ∃ further, Underway p s' (moves ++ more) (actions ++ further) (events ++ new) := by
  induction more generalizing s moves actions events new with
  | nil =>
    cases hr
    exact ⟨[], by simpa using h⟩
  | cons m more ih =>
    obtain ⟨mid, first, others, hs, hrest, rfl⟩ := run?_cons_eq_some hr
    obtain ⟨a, hnext⟩ := step_underway h hs
    obtain ⟨further, hdone⟩ := ih hnext hrest
    exact ⟨a :: further, by simpa using hdone⟩

namespace Underway

theorem eq_backend (h : Underway p s moves actions events) (hb : b ∈ started events)
    {outcome : Outcome Nat} (hf : .finish b.id outcome ∈ actions) : outcome = backend b := by
  obtain ⟨c, hc, hid, rfl⟩ := h.finished b.id outcome hf
  have htraced := h.reaches.traced
  rw [h.reaches.sound.eq_of_flushed (htraced.startedFlushed c hc) (htraced.startedFlushed b hb) hid]

/-- What is put into a slot is the size of a batch that was executed. -/
theorem exists_batch (h : Underway p s moves actions events)
    (hs : (ticket, result) ∈ settled events) : ∃ b ∈ started events, result = .ok b.size := by
  have hlength (b : Batch Nat) : (b.requests.map fun _ => (.ok b.size : Except Error Nat)).length =
      b.size := List.length_map ..
  cases h.reaches.ground_of_filled (h.reaches.slotAt?_of_settled hs) with
  | entry hown =>
    obtain ⟨b, hb, i, items, -, hf, -, hi⟩ := hown
    obtain rfl := Outcome.results.inj (h.eq_backend hb hf)
    obtain ⟨request, -, hresult⟩ := List.mem_map.mp (List.mem_of_getElem? hi)
    exact ⟨b, hb, hresult.symm⟩
  | mismatched hb _ hf hne =>
    obtain rfl := Outcome.results.inj (h.eq_backend hb hf)
    exact absurd (hlength _) hne
  | panicked hb _ hf => cases h.eq_backend hb hf
  | callerCancelled _ _ htoken =>
    rw [h.reaches.cancelledTokens_eq_nil h.calm] at htoken
    cases htoken
  | engineCancelled hcancelled =>
    rw [h.reaches.cancelled_eq_false h.calm] at hcancelled
    cases hcancelled
  | dropped _ _ hkill => exact absurd hkill (h.calm.kill _)

theorem exists_batch_of_answer (h : Underway p s moves actions events) {answer : Except Error Nat}
    (ha : answer ∈ s.answers) : ∃ b ∈ started events, answer = .ok b.size := by
  obtain ⟨call, hcall, hanswer⟩ := List.mem_filterMap.mp ha
  obtain ⟨ticket, hlt, rfl⟩ := List.mem_iff_getElem.mp hcall
  have hw : waitAt? s.engine.calls ticket = some (.returned answer) := by
    rw [waitAt?, List.getElem?_eq_getElem hlt, Option.map_some]
    cases hwait : (s.engine.calls[ticket]).wait with
    | returned result =>
      simp only [answer?, hwait, Option.some.injEq] at hanswer
      rw [hanswer]
    | _ => simp [answer?, hwait] at hanswer
  exact h.exists_batch (h.reaches.settled_of_returned h.calm hw)

end Underway

theorem allReturned_iff {calls : List (Call Nat)} :
    AllReturned calls ↔ ∀ call ∈ calls, (answer? call).isSome := by
  refine forall₂_congr fun call _ => ?_
  cases hw : call.wait <;> simp [answer?, hw]

instance (calls : List (Call Nat)) : Decidable (AllReturned calls) :=
  decidable_of_iff _ allReturned_iff.symm

theorem length_answers (h : AllReturned s.engine.calls) :
    s.answers.length = s.engine.calls.length := by
  rw [answers, List.length_filterMap_eq_countP, List.countP_eq_length]
  exact allReturned_iff.mp h

theorem keyOf_of_ne (hk : p.keys ≠ 0) (item : Nat) :
    p.keyOf item = .ofNat (item % p.keys.toNat) := if_neg hk

theorem keyOf_of_eq (hk : p.keys = 0) (item : Nat) : p.keyOf item = .ofNat item := if_pos hk

namespace Underway

/-- The requests of a batch have its key. -/
theorem keyOf_eq (h : Underway p s moves actions events) (hb : b ∈ started events)
    (hi : item ∈ b.requests) : p.keyOf item = b.key := by
  have hm := h.reaches.mem_submissions (h.reaches.traced.startedFlushed b hb) hi
  rw [h.submissions] at hm
  obtain ⟨item', -, heq⟩ := List.mem_map.mp hm
  obtain ⟨hkey, rfl⟩ := Prod.mk.inj heq
  exact hkey

/-- No request is twice in a batch. -/
theorem requests_nodup (h : Underway p s moves actions events) (nd : (submitted moves).Nodup)
    (hb : b ∈ started events) : b.requests.Nodup := by
  have hsub := h.reaches.requests_sublist (h.reaches.traced.startedFlushed b hb)
  refine (hsub.trans (List.filter_sublist.map Prod.snd)).nodup ?_
  rw [h.submissions, List.map_map]
  simpa [Function.comp_def] using nd

theorem length_calls (h : Underway p s moves actions events) :
    s.engine.calls.length = (submitted moves).length := by
  have htickets := congrArg List.length h.reaches.conserved.tickets
  have haccepted := congrArg List.length h.reaches.accepted_eq
  rw [h.submissions] at haccepted
  simp only [List.length_map, List.length_range] at htickets haccepted
  omega

/-- Requests with keys of their own are in batches of their own. -/
theorem length_le (h : Underway p s moves actions events) {n : Nat}
    (hkeys : ∀ item < n, p.keyOf item = .ofNat item ∧ item ∈ submitted moves) :
    n ≤ s.engine.nextId := by
  have nd : ((List.range n).map Key.ofNat).Nodup :=
    List.nodup_range.map fun _ _ => Key.ofNat_inj
  have hle := h.reaches.length_keys_le nd ?_
  · rwa [List.length_map, List.length_range] at hle
  · intro key hkey
    obtain ⟨item, hitem, rfl⟩ := List.mem_map.mp hkey
    obtain ⟨hown, hm⟩ := hkeys item (List.mem_range.mp hitem)
    refine ⟨item, ?_⟩
    rw [h.submissions, ← hown]
    exact List.mem_map_of_mem hm

end Underway

/-- The report of `p` says what has happened in `events`, and its numbers add up. -/
structure AddsUp (p : Plan) (events : List (Event Nat Nat)) (r : Report) : Prop where
  requests : r.requests = p.requests.toNat
  failures : r.failures = 0
  executed : r.batchesExecuted = (started events).length
  batches : r.batchesExecuted + r.coalesced = p.requests.toNat
  flushes : r.idleFlushes + r.maxTimeoutFlushes = r.batchesExecuted
  shutdown : r.shutdownFlushes = 0
  peak : r.peak ≤ r.limit
  limit : r.limit = p.settings.maxRequestWorkers.toNat
  classes : p.keys ≠ 0 → ∀ b ∈ started events, ∃ k, ∀ item ∈ b.requests,
    item % p.keys.toNat = k
  spread : p.keys ≠ 0 → min p.keys.toNat p.requests.toNat ≤ r.batchesExecuted
  alone : p.keys = 0 → r.batchesExecuted = p.requests.toNat ∧ r.coalesced = 0 ∧
    r.largestBatch = min 1 p.requests.toNat ∧ ∀ b ∈ started events, b.size = 1

theorem foldl_max_replicate (n : Nat) : (List.replicate n 1).foldl max 0 = min 1 n := by
  have hone (n : Nat) : (List.replicate n 1).foldl max 1 = 1 := by
    induction n with
    | zero => rfl
    | succ n ih => rwa [List.replicate_succ, List.foldl_cons]
  cases n with
  | zero => rfl
  | succ n =>
    rw [List.replicate_succ, List.foldl_cons]
    exact (hone n).trans (by omega)

namespace Underway

/-- With a key for every residue, a batch holds requests of one residue. -/
theorem exists_residue (h : Underway p s moves actions events) (hk : p.keys ≠ 0)
    (hb : b ∈ started events) : ∃ k, ∀ item ∈ b.requests, item % p.keys.toNat = k := by
  cases hrequests : b.requests with
  | nil => exact ⟨0, nofun⟩
  | cons first rest =>
    refine ⟨first % p.keys.toNat, fun item hitem => Key.ofNat_inj ?_⟩
    rw [← hrequests] at hitem
    have hfirst : first ∈ b.requests := hrequests ▸ List.mem_cons_self
    rw [← keyOf_of_ne hk, ← keyOf_of_ne hk, h.keyOf_eq hb hitem, h.keyOf_eq hb hfirst]

/-- With a key for every request, a batch holds one. -/
theorem size_eq_one (h : Underway p s moves actions events) (nd : (submitted moves).Nodup)
    (hk : p.keys = 0) (hb : b ∈ started events) : b.size = 1 := by
  have hflushed := h.reaches.traced.startedFlushed b hb
  have hne := (h.reaches.sound.shape b (List.mem_append_left _ (taken_of_flushed hflushed))).1
  have hnodup := h.requests_nodup nd hb
  unfold Batch.size
  cases hrequests : b.requests with
  | nil => exact absurd hrequests hne
  | cons first rest =>
    cases rest with
    | nil => rfl
    | cons second rest =>
      have hfirst : first ∈ b.requests := by simp [hrequests]
      have hsecond : second ∈ b.requests := by simp [hrequests]
      have hsame : first = second := by
        refine Key.ofNat_inj ?_
        rw [← keyOf_of_eq hk, ← keyOf_of_eq hk, h.keyOf_eq hb hfirst, h.keyOf_eq hb hsecond]
      simp [hrequests, hsame] at hnodup

theorem failures_eq_zero (h : Underway p s moves actions events) :
    (s.report p).failures = 0 := by
  change (s.answers.filter fun a => !a.toBool).length = 0
  rw [List.length_eq_zero_iff, List.filter_eq_nil_iff]
  intro answer hanswer
  obtain ⟨b, -, rfl⟩ := h.exists_batch_of_answer hanswer
  simp [Except.toBool]

theorem largestBatch_eq (h : Underway p s moves actions events)
    (hone : ∀ b ∈ started events, b.size = 1) (hall : AllReturned s.engine.calls) :
    (s.report p).largestBatch = min 1 s.engine.calls.length := by
  have hanswers : s.answers = List.replicate s.engine.calls.length (.ok 1) := by
    refine List.eq_replicate_iff.mpr ⟨length_answers hall, fun answer hanswer => ?_⟩
    obtain ⟨b, hb, rfl⟩ := h.exists_batch_of_answer hanswer
    rw [hone b hb]
  have hsizes : s.answers.filterMap Except.toOption =
      List.replicate s.engine.calls.length 1 := by
    rw [hanswers]
    exact List.filterMap_replicate_of_some rfl
  change (s.answers.filterMap Except.toOption).foldl max 0 = _
  rw [hsizes, foldl_max_replicate]

end Underway

/-- However a storm is scheduled, its report adds up once every caller has come back: nobody has
failed, every request has opened a batch or joined one, and every batch was executed and was flushed
for one of the two timeouts. -/
theorem report_adds_up (hstart : start p = .ok s) (hrun : s.run? p moves = some (s', events))
    (hall : (submitted moves).Perm (List.range p.requests.toNat))
    (hreturned : AllReturned s'.engine.calls) : AddsUp p events (s'.report p) := by
  obtain ⟨actions, h⟩ := run_underway (start_underway hstart) hrun
  simp only [List.nil_append] at h
  have hrest := h.reaches.atRest h.calm hreturned
  have nd : (submitted moves).Nodup := hall.nodup_iff.mpr List.nodup_range
  have hcalls : s'.engine.calls.length = p.requests.toNat := by
    rw [h.length_calls, hall.length_eq, List.length_range]
  have hsubmitted {item : Nat} (hlt : item < p.requests.toNat) : item ∈ submitted moves :=
    hall.mem_iff.mpr (List.mem_range.mpr hlt)
  have hbatches : s'.engine.counters.completed + s'.engine.counters.coalesced =
      p.requests.toNat := hrest.requests.trans hcalls
  have hlimit : s'.engine.pool.max = p.settings.maxRequestWorkers.toNat :=
    h.reaches.settings.workers
  constructor
  case requests => rfl
  case failures => exact h.failures_eq_zero
  case executed => exact hrest.executions
  case batches => exact hbatches
  case flushes => exact hrest.flushes
  case shutdown => exact hrest.shutdown
  case peak => exact h.peak.trans_eq hlimit.symm
  case limit => exact hlimit
  case classes => exact fun hk b hb => h.exists_residue hk hb
  case spread =>
    intro hk
    have hle := h.length_le (n := min p.keys.toNat p.requests.toNat) fun item hitem => by
      obtain ⟨hkeys, hrequests⟩ := Nat.lt_min.mp hitem
      rw [keyOf_of_ne hk, Nat.mod_eq_of_lt hkeys]
      exact ⟨rfl, hsubmitted hrequests⟩
    exact hle.trans_eq hrest.completed.symm
  case alone =>
    intro hk
    have hle := h.length_le (n := p.requests.toNat) fun item hitem =>
      ⟨keyOf_of_eq hk item, hsubmitted hitem⟩
    have hcompleted := hrest.completed
    have hone (b : Batch Nat) (hb : b ∈ started events) : b.size = 1 := h.size_eq_one nd hk hb
    have hlargest := h.largestBatch_eq hone hreturned
    rw [hcalls] at hlargest
    refine ⟨?_, ?_, hlargest, hone⟩
    · change s'.engine.counters.completed = _
      omega
    · change s'.engine.counters.coalesced = _
      omega

theorem start_of_workable
    (h : Workable p.options.maxTimeout p.options.maxRequestWorkers)
    (hle : p.options.maxRequestWorkers.toNat ≤ Pool.mostSlots) :
    start p = .ok { engine := fresh p.options } := by
  rcases @build_cases Nat Nat p.options with ⟨_, _, hnot, -⟩ | ⟨-, -, log, hb⟩ | ⟨-, hlt, -⟩
  · exact absurd h hnot
  · rw [start, hb]
    rfl
  · omega

/-- Three requests under two keys, with one worker. The last one joins the first before their batch
is executed; the other batch waits for the worker. -/
theorem report_adds_up_of_three :
    let p : Plan := { requests := 3, keys := 2, settings := { maxRequestWorkers := 1 } }
    let moves : List Move := [.submit 0 ⟨0⟩, .submit 1 ⟨0⟩, .arm 0, .submit 2 ⟨0⟩, .arm 1,
      .wake 0 ⟨100000000⟩, .wake 1 ⟨100000000⟩, .resume 0, .resume 1, .finish 0, .look 0,
      .resume 1, .look 2, .finish 1, .look 1]
    ∃ s s' events, start p = .ok s ∧ s.run? p moves = some (s', events) ∧
      (submitted moves).Perm (List.range p.requests.toNat) ∧ AllReturned s'.engine.calls ∧
      AddsUp p events (s'.report p) ∧ (s'.report p).batchesExecuted = 2 := by
  intro p moves
  have hstart : start p = .ok { engine := fresh p.options } :=
    start_of_workable ⟨by decide, by decide⟩ (by decide)
  have hrun : (run? p { engine := fresh p.options } moves).map (fun r =>
      ((r.1.report p).batchesExecuted, decide (AllReturned r.1.engine.calls))) =
        some (2, true) := by
    decide +kernel
  obtain ⟨⟨s', events⟩, hrun, hdone⟩ := Option.map_eq_some_iff.mp hrun
  obtain ⟨hexecuted, hreturned⟩ := Prod.mk.inj hdone
  have hreturned : AllReturned s'.engine.calls := of_decide_eq_true hreturned
  have hall : (submitted moves).Perm (List.range p.requests.toNat) := by decide
  exact ⟨_, s', events, hstart, hrun, hall, hreturned,
    report_adds_up hstart hrun hall hreturned, hexecuted⟩

end Storm

end Coalesce
