import Coalesce.Proofs.Reasons

/-! # Requests that overtake each other

A caller reads the clock before it gets the lock under which its request joins a batch, so a request
may join after one that read the clock later. It then moves the batch's last activity back, by no
more than the time for which it waited for the lock. While the requests of a batch join in the order
of their readings, the last activity is the latest of them. -/
namespace Coalesce

/-- A request on its way in: its caller has read the clock and does not hold the lock yet. -/
structure Contender (α : Type) where
  token : String
  key : Key
  request : α
  reading : Instant

def Contender.submission {α β : Type} (c : Contender α) : Action α β :=
  .submit c.token c.key c.request c.reading

/-- When the caller of an accepted request read the clock, and when it got the lock. -/
structure Entry where
  reading : Instant
  admitted : Instant

def Entry.wait (entry : Entry) : Nat := entry.admitted.nanos - entry.reading.nanos

/-- An engine and the clock, with the requests on their way in. The entries of those accepted so far
are listed by ticket. -/
structure Contention (α β : Type) where
  engine : Engine α β
  clock : Instant := ⟨0⟩
  contenders : List (Contender α) := []
  entries : List Entry := []

namespace Contention
variable {α β : Type} {m m' : Contention α β} {e' : Engine α β} {events new : List (Event α β)}
  {actions more : List (Action α β)} {a : Action α β} {b : Batch α} {c : Contender α}
  {entries : List Entry} {entry last : Entry} {now : Instant} {o : Options}

def record (m : Contention α β) (c : Contender α) : List Entry :=
  if m.engine.cancelled then m.entries else m.entries ++ [⟨c.reading, m.clock⟩]

/-- What may come next: time passes, a caller reads the clock, any caller that has read it gets the
lock, or the engine makes another step, which may have read the clock before as well. -/
inductive Move (m : Contention α β) :
    List (Action α β) → Contention α β → List (Event α β) → Prop where
  | waited {now : Instant} : m.clock ≤ now → Move m [] { m with clock := now } []
  | read (token : String) (key : Key) (request : α) :
      Move m [] { m with contenders := m.contenders ++ [⟨token, key, request, m.clock⟩] } []
  | entered {before after : List (Contender α)} {c : Contender α} {e' : Engine α β}
      {new : List (Event α β)} : m.contenders = before ++ c :: after →
      m.engine.step? c.submission = some (e', new) →
      Move m [c.submission]
        { m with engine := e', contenders := before ++ after, entries := m.record c } new
  | acted {a : Action α β} {e' : Engine α β} {new : List (Event α β)} : a.submission? = none →
      (∀ now ∈ a.reading?, now ≤ m.clock) → m.engine.step? a = some (e', new) →
      Move m [a] { m with engine := e' } new

/-- An engine built from `o` comes to `m` with callers that get the lock in any order. -/
inductive Contends (o : Options) :
    List (Action α β) → Contention α β → List (Event α β) → Prop where
  | built {e : Engine α β} {log : List LogEntry} : Engine.build o = .ok (e, log) →
      Contends o [] { engine := e } []
  | moved {actions : List (Action α β)} {m : Contention α β} {events : List (Event α β)}
      {more : List (Action α β)} {m' : Contention α β} {new : List (Event α β)} :
      Contends o actions m events → Move m more m' new →
      Contends o (actions ++ more) m' (events ++ new)

/-- A batch keeps the readings of the request that opened it and of the one that joined last. None
of its requests read the clock after the last one got the lock. -/
structure Raced (entries : List Entry) (b : Batch α) (last : Entry) : Prop where
  first : ∃ s ∈ b.slots.head?, ∃ entry, entries[s]? = some entry ∧ entry.reading = b.createdAt
  latest : ∃ s ∈ b.slots.getLast?, entries[s]? = some last
  reading : last.reading = b.lastActivity
  between : ∀ s ∈ b.slots, ∃ entry, entries[s]? = some entry ∧ entry.reading ≤ last.admitted

def Orderly (entries : List Entry) (b : Batch α) : Prop :=
  b.slots.Pairwise fun s r => ∀ entry later, entries[s]? = some entry →
    entries[r]? = some later → entry.reading ≤ later.reading

theorem getElem?_of_append {s : Ticket} (h : entries[s]? = some entry) (rest : List Entry) :
    (entries ++ rest)[s]? = some entry := by
  rw [List.getElem?_append_left (List.getElem?_eq_some_iff.mp h).1]
  exact h

namespace Raced

theorem append (h : Raced entries b last) (rest : List Entry) : Raced (entries ++ rest) b last := by
  obtain ⟨s, hs, entry, hentry, hcreated⟩ := h.first
  obtain ⟨r, hr, hlast⟩ := h.latest
  refine ⟨⟨s, hs, entry, getElem?_of_append hentry _, hcreated⟩,
    ⟨r, hr, getElem?_of_append hlast _⟩, h.reading, fun q hq => ?_⟩
  obtain ⟨entry, hentry, hle⟩ := h.between q hq
  exact ⟨entry, getElem?_of_append hentry _, hle⟩

/-- A request joins, with the entry that comes next. -/
theorem push (h : Raced entries b last)
    (hpast : ∀ earlier ∈ entries, earlier.reading ≤ entry.admitted)
    (hentry : entry.reading ≤ entry.admitted) (request : α) :
    Raced (entries ++ [entry]) (b.push request entries.length entry.reading) entry := by
  have hlater := h.append [entry]
  obtain ⟨s, hs, hfirst⟩ := hlater.first
  constructor
  case first =>
    refine ⟨s, ?_, hfirst⟩
    rw [Batch.push, List.head?_append, Option.mem_def.mp hs]
    rfl
  case latest =>
    refine ⟨entries.length, ?_, List.getElem?_concat_length⟩
    rw [Batch.push, List.getLast?_concat]
    rfl
  case reading => rfl
  case between =>
    intro r hr
    rcases List.mem_append.mp hr with hr | hr
    · obtain ⟨earlier, hearlier, -⟩ := h.between r hr
      exact ⟨earlier, getElem?_of_append hearlier _, hpast _ (List.mem_of_getElem? hearlier)⟩
    · rw [List.mem_singleton.mp hr]
      exact ⟨entry, List.getElem?_concat_length, hentry⟩

theorem opened (hentry : entry.reading ≤ entry.admitted) (id : Nat) (key : Key) (request : α) :
    Raced (entries ++ [entry])
      ((Batch.empty id key entry.reading).push request entries.length entry.reading) entry := by
  refine ⟨⟨_, rfl, entry, List.getElem?_concat_length, rfl⟩,
    ⟨_, rfl, List.getElem?_concat_length⟩, rfl, fun r hr => ?_⟩
  rw [List.mem_singleton.mp hr]
  exact ⟨entry, List.getElem?_concat_length, hentry⟩

/-- If nobody was overtaken, the last activity is the latest reading. -/
theorem le_of_orderly (h : Raced entries b last) (ho : Orderly entries b) :
    ∀ s ∈ b.slots, ∃ entry, entries[s]? = some entry ∧ entry.reading ≤ b.lastActivity := by
  obtain ⟨r, hr, hlast⟩ := h.latest
  obtain ⟨before, hslots⟩ := List.getLast?_eq_some_iff.mp hr
  intro s hs
  obtain ⟨entry, hentry, -⟩ := h.between s hs
  refine ⟨entry, hentry, ?_⟩
  rw [← h.reading]
  rw [Orderly, hslots, List.pairwise_append] at ho
  rw [hslots] at hs
  rcases List.mem_append.mp hs with hs | hs
  · exact ho.2.2 s hs r (List.mem_singleton.mpr rfl) entry last hentry hlast
  · rw [List.mem_singleton.mp hs, hlast] at hentry
    exact (Option.some.inj hentry) ▸ le_rfl

theorem created_le_of_orderly (h : Raced entries b last) (ho : Orderly entries b) :
    b.createdAt ≤ b.lastActivity := by
  obtain ⟨s, hs, entry, hentry, hcreated⟩ := h.first
  obtain ⟨entry', hentry', hle⟩ := h.le_of_orderly ho s (List.mem_of_mem_head? hs)
  rw [hentry] at hentry'
  rw [← hcreated, Option.some.inj hentry']
  exact hle

end Raced

/-- If a request joins in its turn, the last activity does not go back. -/
theorem Orderly.le_of_push (h : Raced entries b last) (request : α) {s : Ticket}
    (hs : entries[s]? = some entry)
    (ho : Orderly entries (b.push request s entry.reading)) : b.lastActivity ≤ entry.reading := by
  obtain ⟨r, hr, hlast⟩ := h.latest
  rw [Orderly, Batch.push, List.pairwise_append] at ho
  rw [← h.reading]
  exact ho.2.2 r (List.mem_of_getLast? hr) s (List.mem_singleton.mpr rfl) last entry hlast hs

structure Recorded (o : Options) (actions : List (Action α β)) (m : Contention α β)
    (events : List (Event α β)) : Prop where
  reaches : Engine.Reaches o actions m.engine events
  arrivals : m.entries.map Entry.reading = (Engine.arrivals actions).map Prod.fst
  contenders : ∀ c ∈ m.contenders, c.reading ≤ m.clock
  past : ∀ entry ∈ m.entries, entry.reading ≤ entry.admitted ∧ entry.admitted ≤ m.clock
  raced : ∀ p ∈ m.engine.registry, ∃ last, Raced m.entries p.2 last

namespace Recorded

theorem length_entries (h : Recorded o actions m events) :
    m.entries.length = m.engine.calls.length := by
  rw [← h.reaches.length_arrivals, ← List.length_map Prod.fst, ← h.arrivals, List.length_map]

theorem waited (h : Recorded o actions m events) (hnow : m.clock ≤ now) :
    Recorded o actions { m with clock := now } events :=
  ⟨h.reaches, h.arrivals, fun c hc => (h.contenders c hc).trans hnow,
    fun entry hentry => ⟨(h.past entry hentry).1, (h.past entry hentry).2.trans hnow⟩, h.raced⟩

theorem read (h : Recorded o actions m events) (token : String) (key : Key) (request : α) :
    Recorded o actions
      { m with contenders := m.contenders ++ [⟨token, key, request, m.clock⟩] } events := by
  refine ⟨h.reaches, h.arrivals, fun c hc => ?_, h.past, h.raced⟩
  rcases List.mem_append.mp hc with hc | hc
  · exact h.contenders c hc
  · rw [List.mem_singleton.mp hc]

theorem acted (h : Recorded o actions m events) (ha : a.submission? = none)
    (hs : m.engine.step? a = some (e', new)) :
    Recorded o (actions ++ [a]) { m with engine := e' } (events ++ new) := by
  refine ⟨h.reaches.step hs, ?_, h.contenders, h.past, fun p hp => ?_⟩
  · rw [h.arrivals]
    by_cases hc : .cancel ∈ actions
    · rw [Engine.arrivals_concat_of_cancelled hc]
    · rw [Engine.arrivals_concat_of_open hc]
      simp [Engine.timeline, ha]
  · cases Engine.step_entered (Engine.step_of_step? hs) p hp with
    | kept hp => exact h.raced p hp
    | joined _ hsubmit => simp [hsubmit, Action.submission?] at ha
    | opened _ hsubmit => simp [hsubmit, Action.submission?] at ha

theorem rejected (h : Recorded o actions m events) (hc : m.engine.cancelled = true)
    (hs : m.engine.step? c.submission = some (e', new)) :
    Recorded o (actions ++ [c.submission]) { m with engine := e' } (events ++ new) := by
  refine ⟨h.reaches.step hs, ?_, h.contenders, h.past, fun p hp => ?_⟩
  · rw [h.arrivals, Engine.arrivals_concat_of_cancelled (h.reaches.cancelled_iff.mp hc)]
  · cases Engine.step_entered (Engine.step_of_step? hs) p hp with
    | kept hp => exact h.raced p hp
    | joined hopen => simp [hc] at hopen
    | opened hopen => simp [hc] at hopen

theorem accepted (h : Recorded o actions m events) (hc : m.engine.cancelled = false)
    (hread : c.reading ≤ m.clock) (hs : m.engine.step? c.submission = some (e', new)) :
    Recorded o (actions ++ [c.submission])
      { m with engine := e', entries := m.entries ++ [⟨c.reading, m.clock⟩] } (events ++ new) := by
  have hopen : .cancel ∉ actions := by
    rw [← h.reaches.cancelled_iff, hc]
    simp
  -- whoever got the lock before had read the clock by then, though perhaps after `c` did
  have hpast : ∀ earlier ∈ m.entries, earlier.reading ≤ m.clock := fun earlier hearlier =>
    (h.past earlier hearlier).1.trans (h.past earlier hearlier).2
  refine ⟨h.reaches.step hs, ?_, h.contenders, fun entry hentry => ?_, fun p hp => ?_⟩
  · rw [Engine.arrivals_concat_of_open hopen, List.map_append, List.map_append, h.arrivals]
    rfl
  · rcases List.mem_append.mp hentry with hentry | hentry
    · exact h.past entry hentry
    · rw [List.mem_singleton.mp hentry]
      exact ⟨hread, le_rfl⟩
  · cases Engine.step_entered (Engine.step_of_step? hs) p hp with
    | kept hp =>
      obtain ⟨last, hlast⟩ := h.raced p hp
      exact ⟨last, hlast.append _⟩
    | joined _ hsubmit hb =>
      cases hsubmit
      obtain ⟨last, hlast⟩ := h.raced _ hb
      rw [← h.length_entries]
      exact ⟨⟨c.reading, m.clock⟩, hlast.push hpast hread _⟩
    | opened _ hsubmit =>
      cases hsubmit
      rw [← h.length_entries]
      exact ⟨⟨c.reading, m.clock⟩, .opened hread ..⟩

theorem entered (h : Recorded o actions m events) {before after : List (Contender α)}
    (hm : m.contenders = before ++ c :: after)
    (hs : m.engine.step? c.submission = some (e', new)) :
    Recorded o (actions ++ [c.submission])
      { m with engine := e', contenders := before ++ after, entries := m.record c }
      (events ++ new) := by
  have hread := h.contenders c (hm ▸ List.mem_append_right _ List.mem_cons_self)
  have hrest : ∀ d ∈ before ++ after, d.reading ≤ m.clock := fun d hd =>
    h.contenders d (hm ▸ ((List.sublist_cons_self c after).append_left before).subset hd)
  cases hc : m.engine.cancelled with
  | true =>
    have hkept := h.rejected hc hs
    rw [record, if_pos hc]
    exact ⟨hkept.reaches, hkept.arrivals, hrest, hkept.past, hkept.raced⟩
  | false =>
    have hkept := h.accepted hc hread hs
    rw [record, if_neg (by simp [hc])]
    exact ⟨hkept.reaches, hkept.arrivals, hrest, hkept.past, hkept.raced⟩

end Recorded

theorem Move.recorded (hm : Move m more m' new) (h : Recorded o actions m events) :
    Recorded o (actions ++ more) m' (events ++ new) := by
  cases hm with
  | waited hnow => simpa using h.waited hnow
  | read token key request => simpa using h.read token key request
  | entered hm hs => exact h.entered hm hs
  | acted ha _ hs => exact h.acted ha hs

theorem Contends.recorded (h : Contends o actions m events) : Recorded o actions m events := by
  induction h with
  | built hb =>
    obtain ⟨-, rfl⟩ := Engine.build_eq_ok hb
    exact ⟨.built hb, rfl, nofun, nofun, nofun⟩
  | moved _ hm ih => exact hm.recorded ih

/-- A batch that stays is left as it is, or a request joins it. -/
theorem kept_or_joined {e e' : Engine α β} {key : Key} {b b' : Batch α}
    (hb : Engine.Sound e events) (hs : e.step? a = some (e', new))
    (hp : e.pending? key = some b) (hp' : e'.pending? key = some b') (hid : b'.id = b.id) :
    b' = b ∨ ∃ token request now, a = .submit token key request now ∧ e.cancelled = false ∧
      b' = b.push request e.calls.length now := by
  have hmem := Engine.mem_registry_of_pending? hp
  have hsame : ∀ {c : Batch α}, (key, c) ∈ e.registry → c = b := fun hc =>
    Option.some.inj ((Engine.pending?_of_mem hb.keys hc).symm.trans hp)
  cases Engine.step_entered (Engine.step_of_step? hs) _ (Engine.mem_registry_of_pending? hp') with
  | kept hc => exact .inl (hsame hc)
  | joined hopen hsubmit hc =>
    obtain rfl := hsame hc
    exact .inr ⟨_, _, _, hsubmit, hopen, rfl⟩
  | opened =>
    have hlt : b.id < e.nextId := hb.id_lt (Engine.mem_everyBatch_of_registry hmem)
    exact absurd hid.symm hlt.ne

theorem Move.lastActivity_le (hm : Move m more m' new) (h : Recorded o actions m events)
    {key : Key} {b b' : Batch α} (hp : m.engine.pending? key = some b)
    (hp' : m'.engine.pending? key = some b') (hid : b'.id = b.id)
    (ho : Orderly m'.entries b') :
    b.lastActivity ≤ b'.lastActivity ∧ m.engine.closes b ≤ m.engine.closes b' := by
  have hsame : b' = b →
      b.lastActivity ≤ b'.lastActivity ∧ m.engine.closes b ≤ m.engine.closes b' := by
    rintro rfl
    exact ⟨le_rfl, le_rfl⟩
  cases hm with
  | waited => exact hsame (Option.some.inj (hp'.symm.trans hp))
  | read => exact hsame (Option.some.inj (hp'.symm.trans hp))
  | acted ha _ hs =>
    rcases kept_or_joined h.reaches.sound hs hp hp' hid with heq | ⟨_, _, _, hsubmit, -⟩
    · exact hsame heq
    · simp [hsubmit, Action.submission?] at ha
  | @entered before after c e' new hc hs =>
    rcases kept_or_joined h.reaches.sound hs hp hp' hid with heq | ⟨_, _, _, hsubmit, hopen, heq⟩
    · exact hsame heq
    · cases hsubmit
      obtain ⟨last, hlast⟩ := h.raced _ (Engine.mem_registry_of_pending? hp)
      have hrecord : m.record c = m.entries ++ [⟨c.reading, m.clock⟩] :=
        if_neg (by simp [hopen])
      have hentry : (m.record c)[m.engine.calls.length]? = some ⟨c.reading, m.clock⟩ := by
        rw [hrecord, ← h.length_entries, List.getElem?_concat_length]
      have hlater : Raced (m.record c) b last := hrecord ▸ hlast.append _
      have hle : b.lastActivity ≤ c.reading := by
        rw [heq] at ho
        exact Orderly.le_of_push hlater _ hentry ho
      rw [heq]
      exact ⟨hle, Engine.closes_le_closes_push hle ..⟩

/-- An idle flush comes an idle timeout after the arrival of each request, less the time for which
the latest one waited for the lock. -/
theorem Raced.quiet (h : Raced m.entries b last) (hlast : last.reading ≤ last.admitted)
    {idle max : Duration} (hdue : Engine.Due idle max m.engine b now .idle) :
    ∀ s ∈ b.slots, ∃ entry, m.entries[s]? = some entry ∧
      entry.reading.nanos + idle.nanos ≤ now.nanos + last.wait ∧
      (Orderly m.entries b → entry.reading.nanos + idle.nanos ≤ now.nanos) := by
  cases hdue with
  | @idle idleAt hidleAt hle =>
    obtain ⟨-, hsum⟩ := Instant.add?_eq_some_iff.mp hidleAt
    intro s hs
    obtain ⟨entry, hentry, hbefore⟩ := h.between s hs
    refine ⟨entry, hentry, ?_, fun ho => ?_⟩
    · have hreading := h.reading
      rw [Instant.le_def] at hle hbefore hlast
      rw [Entry.wait, hreading]
      rw [hreading] at hlast
      omega
    · obtain ⟨entry', hentry', hearlier⟩ := h.le_of_orderly ho s hs
      obtain rfl := Option.some.inj (hentry.symm.trans hentry')
      rw [Instant.le_def] at hle hearlier
      omega

/-- However callers overtake each other between reading the clock and getting the lock, the idle
window of a batch falls short by no more than the time for which its latest request waited for the
lock. Of a batch whose requests joined in the order of their readings the last activity is the
latest reading, and it does not go back. -/
theorem idle_window_of_contention (h : Contends o actions m events) :
    (∀ p ∈ m.engine.registry, ∃ last, Raced m.entries p.2 last) ∧
    (∀ p ∈ m.engine.registry, Orderly m.entries p.2 → p.2.createdAt ≤ p.2.lastActivity ∧
      ∀ s ∈ p.2.slots, ∃ entry, m.entries[s]? = some entry ∧
        entry.reading ≤ p.2.lastActivity) ∧
    (∀ more m' new, Move m more m' new → ∀ key b b', m.engine.pending? key = some b →
      m'.engine.pending? key = some b' → b'.id = b.id → Orderly m'.entries b' →
      b.lastActivity ≤ b'.lastActivity ∧ m.engine.closes b ≤ m.engine.closes b') ∧
    ∀ a e' new b now, m.engine.step? a = some (e', new) →
      (b, .idle, now) ∈ flushes new → ∃ last, Raced m.entries b last ∧
        ∀ s ∈ b.slots, ∃ entry, m.entries[s]? = some entry ∧
          entry.reading.nanos + o.idleTimeout.nanos ≤ now.nanos + last.wait ∧
          (Orderly m.entries b → entry.reading.nanos + o.idleTimeout.nanos ≤ now.nanos) := by
  have hrec := h.recorded
  refine ⟨hrec.raced, fun p hp ho => ?_, fun _ _ _ hm _ _ _ => hm.lastActivity_le hrec, ?_⟩
  · obtain ⟨last, hlast⟩ := hrec.raced p hp
    exact ⟨hlast.created_le_of_orderly ho, hlast.le_of_orderly ho⟩
  · intro a e' new b now hs hf
    obtain ⟨t, -, wakeAt, shutdown, -, -, hmay, hp, hreason⟩ :=
      Engine.step_flushes (Engine.step_of_step? hs) hf
    obtain ⟨last, hlast⟩ := hrec.raced _ (Engine.pendingAs?_eq_some hp).1
    obtain ⟨s, -, hentry⟩ := hlast.latest
    refine ⟨last, hlast, ?_⟩
    have hidle : m.engine.idle = o.idleTimeout := hrec.reaches.settings.idle
    rw [← hidle]
    exact hlast.quiet (hrec.past last (List.mem_of_getElem? hentry)).1
      (Engine.due_of_dueReason? hmay hreason)

/-- A caller reads the clock at once, another one after ten milliseconds. The second one gets the
lock first and opens a batch. -/
def overtaken : Contention String String where
  engine := ((Engine.fresh {}).submit "u" ⟨"k"⟩ "b" (.ofMillis 10)).1
  clock := .ofMillis 10
  contenders := [⟨"t", ⟨"k"⟩, "a", ⟨0⟩⟩]
  entries := [⟨.ofMillis 10, .ofMillis 10⟩]

def overtakenJoined : Contention String String where
  engine := (overtaken.engine.submit "t" ⟨"k"⟩ "a" ⟨0⟩).1
  clock := .ofMillis 10
  entries := [⟨.ofMillis 10, .ofMillis 10⟩, ⟨⟨0⟩, .ofMillis 10⟩]

def overtakenAsleep : Contention String String :=
  { overtakenJoined with
    engine := overtakenJoined.engine.setStage 0 (.sleeping (some (.ofMillis 100)))
    clock := .ofMillis 100 }

theorem contends_overtaken :
    Contends {} [.submit "u" ⟨"k"⟩ "b" (.ofMillis 10)] overtaken
      [.accepted 0 ⟨"k"⟩ "b", .opened 0 ⟨"k"⟩] := by
  have hbuilt : @Contends String String {} [] { engine := Engine.fresh {} } [] := .built rfl
  have hten : (⟨0⟩ : Instant) ≤ .ofMillis 10 := by decide
  have hread := ((hbuilt.moved (.read "t" ⟨"k"⟩ "a")).moved (.waited hten)).moved
    (.read "u" ⟨"k"⟩ "b")
  exact hread.moved (@Move.entered _ _ _ [⟨"t", ⟨"k"⟩, "a", ⟨0⟩⟩] []
    ⟨"u", ⟨"k"⟩, "b", .ofMillis 10⟩ _ _ rfl rfl)

theorem move_overtaken : Move overtaken [.submit "t" ⟨"k"⟩ "a" ⟨0⟩] overtakenJoined
    [.accepted 1 ⟨"k"⟩ "a"] :=
  @Move.entered _ _ overtaken [] [] ⟨"t", ⟨"k"⟩, "a", ⟨0⟩⟩ _ _ rfl rfl

theorem contends_overtakenAsleep :
    Contends {} [.submit "u" ⟨"k"⟩ "b" (.ofMillis 10), .submit "t" ⟨"k"⟩ "a" ⟨0⟩, .arm 0]
      overtakenAsleep
      [.accepted 0 ⟨"k"⟩ "b", .opened 0 ⟨"k"⟩, .accepted 1 ⟨"k"⟩ "a"] := by
  have hjoined := contends_overtaken.moved move_overtaken
  have htime : Instant.ofMillis 10 ≤ .ofMillis 100 := by decide
  exact (hjoined.moved (@Move.acted _ _ overtakenJoined (.arm 0) _ _ rfl nofun rfl)).moved
    (.waited htime)

def overtakenBatch : Batch String :=
  ⟨0, ⟨"k"⟩, ["b", "a"], [0, 1], .ofMillis 10, ⟨0⟩⟩

/-- The batch is flushed ninety milliseconds after its second caller arrived, which is an idle
timeout less the ten milliseconds for which the first one waited. -/
theorem idle_window_of_overtaken :
    (∃ e' new, overtakenAsleep.engine.step? (.wake 0 false (.ofMillis 100)) = some (e', new) ∧
      (overtakenBatch, .idle, .ofMillis 100) ∈ flushes new) ∧
    ∃ last, Raced overtakenAsleep.entries overtakenBatch last ∧
      ∀ s ∈ overtakenBatch.slots, ∃ entry, overtakenAsleep.entries[s]? = some entry ∧
        entry.reading.nanos + ({} : Options).idleTimeout.nanos ≤
          (Instant.ofMillis 100).nanos + last.wait ∧
        (Orderly overtakenAsleep.entries overtakenBatch →
          entry.reading.nanos + ({} : Options).idleTimeout.nanos ≤ (Instant.ofMillis 100).nanos) :=
  ⟨⟨_, _, rfl, List.mem_cons_self⟩, (idle_window_of_contention contends_overtakenAsleep).2.2.2
    (.wake 0 false (.ofMillis 100)) _ _ overtakenBatch (.ofMillis 100) rfl List.mem_cons_self⟩

/-- The request that joins moves the last activity back, to before the batch was opened, and the
deadline with it, so that the batch is flushed as idle too early for the request that opened it. -/
theorem lastActivity_of_overtaken :
    Contends {} [.submit "u" ⟨"k"⟩ "b" (.ofMillis 10)] overtaken
      [.accepted 0 ⟨"k"⟩ "b", .opened 0 ⟨"k"⟩] ∧
    Move overtaken [.submit "t" ⟨"k"⟩ "a" ⟨0⟩] overtakenJoined [.accepted 1 ⟨"k"⟩ "a"] ∧
    ((overtaken.engine.pending? ⟨"k"⟩).bind fun b =>
      b.deadline overtaken.engine.idle overtaken.engine.max) = some (.ofMillis 110, .idle) ∧
    overtakenJoined.engine.pending? ⟨"k"⟩ = some overtakenBatch ∧
    overtakenBatch.deadline overtaken.engine.idle overtaken.engine.max =
      some (.ofMillis 100, .idle) ∧
    overtakenBatch.lastActivity < overtakenBatch.createdAt ∧
    (overtakenJoined.entries[0]?.map Entry.reading) = some (.ofMillis 10) ∧
    Contends {} [.submit "u" ⟨"k"⟩ "b" (.ofMillis 10), .submit "t" ⟨"k"⟩ "a" ⟨0⟩, .arm 0]
      overtakenAsleep [.accepted 0 ⟨"k"⟩ "b", .opened 0 ⟨"k"⟩, .accepted 1 ⟨"k"⟩ "a"] ∧
    ∃ e' new, overtakenAsleep.engine.step? (.wake 0 false (.ofMillis 100)) = some (e', new) ∧
      (overtakenBatch, .idle, .ofMillis 100) ∈ flushes new :=
  ⟨contends_overtaken, move_overtaken, rfl, rfl, rfl, by decide, rfl, contends_overtakenAsleep,
    _, _, rfl, List.mem_cons_self⟩

end Contention
end Coalesce
