import Coalesce.Proofs.Refinement
import Coalesce.Proofs.Statistics

/-! # Longer timeouts

Submissions are grouped twice, the second time with timeouts that are no shorter. The boundaries of
the two groupings need not line up, since a group of the second can take in what opens a group of
the first. But the second lags behind: its groups are no more, and each opens no earlier than the
group at its place in the first. So it is with the batches of two engines which the same requests
come to under a key. -/
namespace Coalesce

theorem Instant.after_mono_right (t : Instant) {d d' : Duration} (h : d ≤ d') :
    t.after d ≤ t.after d' := by
  rw [Duration.le_def] at h
  cases hd : t.after d' with
  | top => exact le_top
  | coe u =>
    obtain ⟨hlt, hu⟩ := add?_eq_some_iff.mp hd
    have hsooner : t.after d = ((⟨t.nanos + d.nanos⟩ : Instant) : WithTop Instant) :=
      add?_eq_some_iff.mpr ⟨by omega, rfl⟩
    rw [hsooner, WithTop.coe_le_coe, le_def, hu]
    exact Nat.add_le_add_left h t.nanos

/-- Beside the first list, the second is no longer, and none of its instants is earlier. -/
structure Lags (first second : List Instant) : Prop where
  length_le : second.length ≤ first.length
  le : ∀ (n : Nat) (t u : Instant), first[n]? = some t → second[n]? = some u → t ≤ u

namespace Lags
variable {first second : List Instant} {t u : Instant}

theorem refl (instants : List Instant) : Lags instants instants := by
  refine ⟨le_rfl, fun n t u ht hu => ?_⟩
  rw [ht] at hu
  exact (Option.some.inj hu).le

/-- An instant that only the first list gets. -/
theorem concat_left (h : Lags first second) (t : Instant) : Lags (first ++ [t]) second := by
  constructor
  case length_le => exact h.length_le.trans (by simp)
  case le =>
    intro n v u hv hu
    have hn : n < first.length := (List.getElem?_eq_some_iff.mp hu).1.trans_le h.length_le
    rw [List.getElem?_append_left hn] at hv
    exact h.le n v u hv hu

/-- An instant that only the second list gets, which is still the shorter one then. -/
theorem concat_right (h : Lags first second) (hlt : second.length < first.length)
    (hle : ∀ t ∈ first, t ≤ u) : Lags first (second ++ [u]) := by
  constructor
  case length_le => simpa using Nat.succ_le_of_lt hlt
  case le =>
    intro n t v ht hv
    rcases Nat.lt_or_ge n second.length with hn | hn
    · rw [List.getElem?_append_left hn] at hv
      exact h.le n t v ht hv
    · rw [List.getElem?_append_right hn] at hv
      have hlast : v ∈ [u] := List.mem_of_getElem? hv
      rw [List.mem_singleton.mp hlast]
      exact hle t (List.mem_of_getElem? ht)

theorem concat (h : Lags first second) (hle : ∀ t ∈ first, t ≤ u) :
    Lags (first ++ [u]) (second ++ [u]) := by
  refine (h.concat_left u).concat_right ?_ fun t ht => ?_
  · simpa using Nat.lt_succ_of_le h.length_le
  · rcases List.mem_append.mp ht with ht | ht
    · exact hle t ht
    · exact (List.mem_singleton.mp ht).le

/-- Where both lists are equally long, their last instants stand beside each other. -/
theorem getLast_le (h : Lags first second) (hlen : first.length = second.length)
    (ht : first.getLast? = some t) (hu : second.getLast? = some u) : t ≤ u := by
  rw [List.getLast?_eq_getElem?] at ht hu
  rw [← hlen] at hu
  exact h.le _ t u ht hu

end Lags

namespace Group
variable {α : Type} {idle idle' max max' : Duration} {groups groups' : List (Group α)}
  {g g' : Group α} {s : Instant × α}

/-- With longer timeouts, a group that opened later and had its latest submission later is complete
later. -/
theorem closes_mono (hidle : idle ≤ idle') (hmax : max ≤ max') (hfirst : g.first ≤ g'.first)
    (hlatest : g.latest ≤ g'.latest) : g.closes idle max ≤ g'.closes idle' max' :=
  min_le_min
    ((Instant.after_mono hlatest idle).trans (Instant.after_mono_right _ hidle))
    ((Instant.after_mono hfirst max).trans (Instant.after_mono_right _ hmax))

def openings (groups : List (Group α)) : List Instant := groups.map first

theorem openings_join (before : List (Group α)) (g : Group α) (s : Instant × α) :
    openings (before ++ [g.join s]) = openings (before ++ [g]) := by
  simp [openings, join]

theorem openings_start (groups : List (Group α)) (s : Instant × α) :
    openings (groups ++ [start s]) = openings groups ++ [s.1] := by
  simp [openings, start]

/-- A submission leaves the openings alone, or opens a group at its own instant. -/
theorem openings_place (idle max : Duration) (groups : List (Group α)) (s : Instant × α) :
    openings (place idle max groups s) = openings groups ∨
      openings (place idle max groups s) = openings groups ++ [s.1] := by
  rcases List.eq_nil_or_concat' groups with rfl | ⟨before, g, rfl⟩
  · exact .inr rfl
  · rw [place_concat]
    by_cases hjoins : (s.1 : WithTop Instant) < g.closes idle max
    · rw [if_pos hjoins]
      exact .inl (openings_join before g s)
    · rw [if_neg hjoins, List.append_cons]
      exact .inr (openings_start _ s)

/-- The latest submission of all is in the last group. -/
theorem latest_place (groups : List (Group α)) (s : Instant × α) :
    (place idle max groups s).getLast?.map latest = some s.1 := by
  rcases List.eq_nil_or_concat' groups with rfl | ⟨before, g, rfl⟩
  · rfl
  · rw [place_concat]
    by_cases hjoins : (s.1 : WithTop Instant) < g.closes idle max
    · rw [if_pos hjoins, List.getLast?_concat]
      rfl
    · rw [if_neg hjoins, List.append_cons, List.getLast?_concat]
      rfl

/-- Where the second grouping lags behind, it goes on doing so. It would only catch up where a
submission came too late for its last group alone while both groupings are equally long; but then
its last group is the one that opened later, and has the same latest submission. -/
theorem lags_place (hidle : idle ≤ idle') (hmax : max ≤ max')
    (h : Lags (openings groups) (openings groups'))
    (hlast : groups.getLast?.map latest = groups'.getLast?.map latest)
    (hpast : ∀ t ∈ openings groups, t ≤ s.1) :
    Lags (openings (place idle max groups s)) (openings (place idle' max' groups' s)) := by
  rcases List.eq_nil_or_concat' groups with rfl | ⟨before, g, rfl⟩
  · rcases List.eq_nil_or_concat' groups' with rfl | ⟨before', g', rfl⟩
    · exact Lags.refl _
    · simp at hlast
  rcases List.eq_nil_or_concat' groups' with rfl | ⟨before', g', rfl⟩
  · simp at hlast
  have hlatest : g.latest = g'.latest := by simpa using hlast
  rw [place_concat, place_concat]
  by_cases hjoins : (s.1 : WithTop Instant) < g.closes idle max
  · rw [if_pos hjoins, openings_join]
    by_cases hjoins' : (s.1 : WithTop Instant) < g'.closes idle' max'
    · rw [if_pos hjoins', openings_join]
      exact h
    · rw [if_neg hjoins', List.append_cons before', openings_start]
      refine h.concat_right (lt_of_le_of_ne h.length_le fun hlen => hjoins' ?_) hpast
      have hfirst : g.first ≤ g'.first :=
        h.getLast_le hlen.symm (by simp [openings]) (by simp [openings])
      exact hjoins.trans_le (closes_mono hidle hmax hfirst hlatest.le)
  · rw [if_neg hjoins, List.append_cons before, openings_start]
    by_cases hjoins' : (s.1 : WithTop Instant) < g'.closes idle' max'
    · rw [if_pos hjoins', openings_join]
      exact h.concat_left s.1
    · rw [if_neg hjoins', List.append_cons before', openings_start]
      exact h.concat hpast

theorem all_concat (submitted : List (Instant × α)) (s : Instant × α) :
    all idle max (submitted ++ [s]) = place idle max (all idle max submitted) s :=
  List.foldl_concat ..

/-- Groups open at submissions, in their order. -/
theorem openings_sublist (submitted : List (Instant × α)) :
    (openings (all idle max submitted)).Sublist (submitted.map Prod.fst) := by
  induction submitted using List.reverseRecOn with
  | nil => exact List.Sublist.refl _
  | append_singleton before s ih =>
    rw [all_concat, List.map_append]
    rcases openings_place idle max (all idle max before) s with hsame | hopened
    · rw [hsame]
      exact ih.trans (List.sublist_append_left ..)
    · rw [hopened]
      exact ih.append_right _

theorem latest_all (submitted : List (Instant × α)) :
    (all idle max submitted).getLast?.map latest = submitted.getLast?.map Prod.fst := by
  induction submitted using List.reverseRecOn with
  | nil => rfl
  | append_singleton before s => rw [all_concat, latest_place, List.getLast?_concat, Option.map_some]

/-- The grouping with the longer timeouts lags behind. -/
theorem lags_all (hidle : idle ≤ idle') (hmax : max ≤ max') {submitted : List (Instant × α)}
    (hs : (submitted.map Prod.fst).Pairwise (· ≤ ·)) :
    Lags (openings (all idle max submitted)) (openings (all idle' max' submitted)) := by
  induction submitted using List.reverseRecOn with
  | nil => exact Lags.refl _
  | append_singleton before s ih =>
    rw [List.map_append, List.pairwise_append] at hs
    obtain ⟨hbefore, -, hle⟩ := hs
    rw [all_concat, all_concat]
    refine lags_place hidle hmax (ih hbefore) ((latest_all before).trans (latest_all before).symm) ?_
    intro t ht
    exact hle t ((openings_sublist before).subset ht) s.1 List.mem_cons_self

end Group

namespace Engine
variable {α β : Type} {e e' : Engine α β} {events events' new : List (Event α β)}
  {actions actions' : List (Action α β)} {a : Action α β} {clock clock' : Instant} {key : Key}
  {o o' : Options}

/-- Where no timer is dropped, what leaves the registry is flushed. -/
theorem step_taken (hs : Step e a e' new) (hkill : ∀ t ∈ e.timers, a ≠ .kill t.id) :
    taken new = flushed new := by
  cases hs with
  | aside ha => rw [taken, flushed, overlooks_taken.aside ha, overlooks_flushed.aside ha]
  | @resumed t b =>
    have hask := askForWorker_asked e b
    rw [taken, flushed, overlooks_taken.asked rfl rfl hask, overlooks_flushed.asked rfl rfl hask]
  | finished =>
    rw [finish_eq, settleAll_eq, taken, flushed, overlooks_taken.ending, overlooks_flushed.ending]
  | orphaned ht hst => exact absurd rfl (hkill _ (mem_timers.mpr ⟨ht, hst⟩))
  | _ => rfl

theorem Prompt.taken_eq (h : Prompt o actions e events clock) : taken events = flushed events := by
  induction h with
  | built => rfl
  | waited _ _ _ ih => exact ih
  | step _ htimely hs ih =>
    have hnew := step_taken (step_of_step? hs) fun t ht hkill => by
      subst hkill
      exact htimely t ht rfl
    rw [taken_append, flushed_append, ih, hnew]

theorem Prompt.batchesUnder_eq (h : Prompt o actions e events clock) (key : Key) :
    e.batchesUnder events key =
      (flushesUnder events key).map Prod.fst ++ (e.pending? key).toList := by
  rw [batchesUnder, h.taken_eq, ← map_fst_flushes, List.filter_map]
  rfl

/-- The batches that a key has had are the groups of what was submitted under it. -/
theorem Prompt.map_group (h : Prompt o actions e events clock) (key : Key) :
    (e.batchesUnder events key).map Batch.group =
      Group.all o.idleTimeout o.maxTimeout (under (timeline actions) key) := by
  have hset := h.reaches.settings
  have hidle : e.idle = o.idleTimeout := hset.idle
  have hmax : e.max = o.maxTimeout := hset.max
  rw [h.batchesUnder_eq, List.map_append, List.map_map, ← hidle, ← hmax]
  exact h.follows.grouped key

theorem Prompt.closes_eq (h : Prompt o actions e events clock) (b : Batch α) :
    e.closes b = b.group.closes o.idleTimeout o.maxTimeout := by
  have hset := h.reaches.settings
  have hidle : e.idle = o.idleTimeout := hset.idle
  have hmax : e.max = o.maxTimeout := hset.max
  rw [closes, hidle, hmax]

section
variable (h : Prompt o actions e events clock) (h' : Prompt o' actions' e' events' clock')
  (hidle : o.idleTimeout ≤ o'.idleTimeout) (hmax : o.maxTimeout ≤ o'.maxTimeout)
  (hsame : under (timeline actions') key = under (timeline actions) key)
  (hs : ((under (timeline actions) key).map Prod.fst).Pairwise (· ≤ ·))
include h h' hidle hmax hsame hs

/-- The batches of the engine with the longer timeouts lag behind. -/
theorem Prompt.lags : Lags ((e.batchesUnder events key).map Batch.createdAt)
    ((e'.batchesUnder events' key).map Batch.createdAt) := by
  have hlags := Group.lags_all hidle hmax hs
  rw [← h.map_group key, ← hsame, ← h'.map_group key] at hlags
  simpa [Group.openings, Batch.group, Function.comp_def] using hlags

/-- Where both engines have had as many batches, the last ones hold the latest request. The one with
the longer timeouts opened later, so if it has been flushed, the other one has been, too. -/
theorem Prompt.pending?_eq_none (hr : e.Rests clock) (hclock : clock' ≤ clock)
    (hlen : (e.batchesUnder events key).length = (e'.batchesUnder events' key).length)
    (hnone : e'.pending? key = none) : e.pending? key = none := by
  cases hp : e.pending? key with
  | none => rfl
  | some b =>
    have hlast : (e.batchesUnder events key).getLast? = some b := by
      rw [h.batchesUnder_eq, hp, Option.toList_some, List.getLast?_concat]
    obtain ⟨c, hlast'⟩ : ∃ c, (e'.batchesUnder events' key).getLast? = some c := by
      have hne : e'.batchesUnder events' key ≠ [] := by
        intro hnil
        rw [hnil, List.length_nil, List.length_eq_zero_iff] at hlen
        simp [hlen] at hlast
      exact ⟨_, List.getLast?_eq_some_getLast hne⟩
    have hfirst : b.createdAt ≤ c.createdAt := by
      refine (h.lags h' hidle hmax hsame hs).getLast_le (by simpa using hlen) ?_ ?_
      · rw [List.getLast?_map, hlast, Option.map_some]
      · rw [List.getLast?_map, hlast', Option.map_some]
    have hlatest : b.lastActivity = c.lastActivity := by
      have hgroups : ((e.batchesUnder events key).map Batch.group).getLast?.map Group.latest =
          ((e'.batchesUnder events' key).map Batch.group).getLast?.map Group.latest := by
        rw [h.map_group, h'.map_group, hsame, Group.latest_all, Group.latest_all]
      simpa [List.getLast?_map, hlast, hlast', Batch.group] using hgroups
    have hcomplete : e'.closes c ≤ (clock' : WithTop Instant) := by
      have hc := List.mem_of_getLast? hlast'
      rw [h'.batchesUnder_eq, hnone, Option.toList_none, List.append_nil] at hc
      obtain ⟨p, hflushed, rfl⟩ := List.mem_map.mp hc
      obtain ⟨hcloses, -, hle⟩ := h'.follows.punctual p (List.mem_of_mem_filter hflushed)
      exact hcloses.trans_le (WithTop.coe_le_coe.mpr hle)
    have hopen : (clock : WithTop Instant) < (clock' : WithTop Instant) := calc
      (clock : WithTop Instant) < e.closes b := h.follows.lt_closes h.reaches.sound hr hp
      _ ≤ e'.closes c := by
        rw [h.closes_eq, h'.closes_eq]
        exact Group.closes_mono hidle hmax hfirst hlatest.le
      _ ≤ clock' := hcomplete
    exact absurd (WithTop.coe_le_coe.mpr hclock) hopen.not_ge

/-- The engine with the longer timeouts has not flushed more. -/
theorem Prompt.length_flushesUnder_le (hr : e.Rests clock) (hclock : clock' ≤ clock) :
    (flushesUnder events' key).length ≤ (flushesUnder events key).length := by
  have hlength : (e.batchesUnder events key).length =
      (flushesUnder events key).length + (e.pending? key).toList.length := by
    simp [h.batchesUnder_eq]
  have hlength' : (e'.batchesUnder events' key).length =
      (flushesUnder events' key).length + (e'.pending? key).toList.length := by
    simp [h'.batchesUnder_eq]
  have hle : (e'.batchesUnder events' key).length ≤ (e.batchesUnder events key).length := by
    simpa using (h.lags h' hidle hmax hsame hs).length_le
  have hone : (e.pending? key).toList.length ≤ 1 := by
    cases e.pending? key <;> simp
  cases hp' : e'.pending? key with
  | some c =>
    rw [hp', Option.toList_some, List.length_singleton] at hlength'
    omega
  | none =>
    -- with as many batches nothing is pending in the first engine either
    rcases hle.lt_or_eq with hless | hlen
    · omega
    · have hp := h.pending?_eq_none h' hidle hmax hsame hs hr hclock hlen.symm hp'
      rw [hp, Option.toList_none, List.length_nil] at hlength
      omega

end

theorem under_map (submitted : List (Instant × α)) (key : Key) :
    under (submitted.map fun s => (s.1, key, s.2)) key = submitted := by
  have hall : ∀ s ∈ submitted.map fun s => (s.1, key, s.2), decide (s.2.1 = key) = true :=
    List.forall_mem_map.mpr fun _ _ => decide_eq_true rfl
  rw [under, List.filter_eq_self.mpr hall, List.map_map]
  exact List.map_id _

/-- Submissions under one key can be played. -/
theorem exists_prompt_under {start : Engine α β} {log : List LogEntry}
    (hb : build o = .ok (start, log)) {submitted : List (Instant × α)}
    (hs : (submitted.map Prod.fst).Pairwise (· ≤ ·)) (hc : ∀ s ∈ submitted, s.1 ≤ clock)
    (key : Key) : ∃ (actions : _) (e : Engine α β) (events : _),
      Prompt o actions e events clock ∧ e.Rests clock ∧ under (timeline actions) key = submitted := by
  have hinstants : ((submitted.map fun s => (s.1, key, s.2)).map Prod.fst).Pairwise (· ≤ ·) := by
    rw [List.map_map]
    exact hs
  obtain ⟨actions, e, events, hp, hr, htl⟩ :=
    exists_prompt hb hinstants (List.forall_mem_map.mpr hc)
  exact ⟨actions, e, events, hp, hr, htl ▸ under_map submitted key⟩

/-- Longer timeouts cost no batches. Requests are submitted under a key, at instants that do not go
back, to two engines with prompt timers, of which the second has timeouts that are no shorter. That
can be played up to any instant; and however it has been played, and whatever else was submitted to
them, the second engine has had no more batches under the key and has flushed no more by then, and
each of its batches was opened no earlier than the batch at its place in the first engine. -/
theorem longer_timeouts_save_batches {start start' : Engine α β} {log log' : List LogEntry}
    (hb : build o = .ok (start, log)) (hb' : build o' = .ok (start', log'))
    (hidle : o.idleTimeout ≤ o'.idleTimeout) (hmax : o.maxTimeout ≤ o'.maxTimeout)
    {submitted : List (Instant × α)} (hs : (submitted.map Prod.fst).Pairwise (· ≤ ·)) (key : Key) :
    (∀ clock, (∀ s ∈ submitted, s.1 ≤ clock) →
      (∃ (actions : _) (e : Engine α β) (events : _), Prompt o actions e events clock ∧
        e.Rests clock ∧ under (timeline actions) key = submitted) ∧
      ∃ (actions : _) (e : Engine α β) (events : _), Prompt o' actions e events clock ∧
        e.Rests clock ∧ under (timeline actions) key = submitted) ∧
    ∀ (actions : _) (e : Engine α β) (events : _) (clock : Instant) (actions' : _)
      (e' : Engine α β) (events' : _) (clock' : Instant), Prompt o actions e events clock →
      under (timeline actions) key = submitted → Prompt o' actions' e' events' clock' →
      under (timeline actions') key = submitted →
        (e'.batchesUnder events' key).length ≤ (e.batchesUnder events key).length ∧
        (e.Rests clock → clock' ≤ clock →
          (flushesUnder events' key).length ≤ (flushesUnder events key).length) ∧
        ∀ (n : Nat) (b b' : Batch α), (e.batchesUnder events key)[n]? = some b →
          (e'.batchesUnder events' key)[n]? = some b' → b.createdAt ≤ b'.createdAt := by
  refine ⟨fun clock hc => ⟨exists_prompt_under hb hs hc key, exists_prompt_under hb' hs hc key⟩, ?_⟩
  rintro actions e events clock actions' e' events' clock' h rfl h' hsame
  have hlags := h.lags h' hidle hmax hsame hs
  refine ⟨by simpa using hlags.length_le, h.length_flushesUnder_le h' hidle hmax hsame hs, ?_⟩
  intro n b b' hn hn'
  refine hlags.le n _ _ ?_ ?_
  · rw [List.getElem?_map, hn, Option.map_some]
  · rw [List.getElem?_map, hn', Option.map_some]

/-- With half as much again of idle timeout, the first batch takes in the request that opens the
second one otherwise, and the request that opens the third one opens the second. -/
theorem longer_timeouts_save_batches_of_straggler :
    ∃ (e e' : Engine String String) (events events' : _),
      (e.batchesUnder events ⟨"k"⟩).map Batch.requests = [["a"], ["b"], ["c"]] ∧
      (e'.batchesUnder events' ⟨"k"⟩).map Batch.requests = [["a", "b"], ["c"]] ∧
      (e'.batchesUnder events' ⟨"k"⟩).length ≤ (e.batchesUnder events ⟨"k"⟩).length ∧
      (flushesUnder events' ⟨"k"⟩).length ≤ (flushesUnder events ⟨"k"⟩).length ∧
      ∀ (n : Nat) (b b' : Batch String), (e.batchesUnder events ⟨"k"⟩)[n]? = some b →
        (e'.batchesUnder events' ⟨"k"⟩)[n]? = some b' → b.createdAt ≤ b'.createdAt := by
  obtain ⟨hplay, hall⟩ := @longer_timeouts_save_batches String String {}
    { idleTimeout := .ofMillis 150 } _ _ _ _ rfl rfl (by decide) (by decide)
    [(.ofMillis 0, "a"), (.ofMillis 120, "b"), (.ofMillis 300, "c")] (by decide) ⟨"k"⟩
  obtain ⟨⟨actions, e, events, h, hr, hsub⟩, actions', e', events', h', -, hsub'⟩ :=
    hplay (.ofMillis 2000) (by decide)
  obtain ⟨hbatches, hflushes, hopen⟩ := hall _ _ _ _ _ _ _ _ h hsub h' hsub'
  have hgroups := congrArg (List.map Group.requests) (h.map_group ⟨"k"⟩)
  have hgroups' := congrArg (List.map Group.requests) (h'.map_group ⟨"k"⟩)
  rw [hsub, List.map_map] at hgroups
  rw [hsub', List.map_map] at hgroups'
  exact ⟨e, e', events, events', hgroups.trans (by rfl), hgroups'.trans (by rfl), hbatches,
    hflushes hr le_rfl, hopen⟩

end Engine

end Coalesce
