import Coalesce.Proofs.Overrides
import Coalesce.Storm.Arguments
import Mathlib.Data.String.Basic

/-! # What a command line asks for

Arguments are read in pairs, a flag and its value, but the search for the settings file looks at
every argument. On a line that is accepted the search never finds a value: values there are numerals
and paths of files that load. Each flag then counts as it stands last, `--config` as it stands
first, and the environment comes between the file and the flags.

Two lines get another answer than their pairs suggest. A second `--config` may stand last without a
value, and a `--config` after a request for help is still looked at. -/
namespace Coalesce

namespace Text
open String

theorem splitOnAux_of_valid (c : Char) (l m r : List Char) (pieces : List String) :
    splitOnAux (ofList (l ++ m ++ r)) (ofList [c]) ⟨utf8Len l⟩ ⟨utf8Len l + utf8Len m⟩ 0 pieces =
      pieces.reverse ++ (r.splitOnPPrepend (· == c) m.reverse).map ofList := by
  have hseparator : Pos.Raw.get (ofList [c]) 0 = c := get_of_valid [] [c]
  have hend : Pos.Raw.next (ofList [c]) 0 = ⟨c.utf8Size⟩ := by
    simpa using next_of_valid [] c []
  induction r generalizing l m pieces with
  | nil =>
    have hlast : Pos.Raw.atEnd (ofList (l ++ m ++ [])) ⟨utf8Len l + utf8Len m⟩ = true := by
      simpa using atEnd_of_valid (l ++ m) []
    rw [splitOnAux, if_pos hlast, extract_of_valid]
    simp
  | cons d r ih =>
    have hmore : ¬Pos.Raw.atEnd (ofList (l ++ m ++ d :: r)) ⟨utf8Len l + utf8Len m⟩ = true := by
      simpa using not_congr (atEnd_of_valid (l ++ m) (d :: r))
    have hget : Pos.Raw.get (ofList (l ++ m ++ d :: r)) ⟨utf8Len l + utf8Len m⟩ = d := by
      simpa using get_of_valid (l ++ m) (d :: r)
    have hnext : Pos.Raw.next (ofList (l ++ m ++ d :: r)) ⟨utf8Len l + utf8Len m⟩ =
        ⟨utf8Len l + utf8Len m + d.utf8Size⟩ := by
      simpa using next_of_valid (l ++ m) d r
    have hhere : Pos.Raw.unoffsetBy ⟨utf8Len l + utf8Len m⟩ 0 = ⟨utf8Len l + utf8Len m⟩ := rfl
    rw [splitOnAux, if_neg hmore, hget, hseparator, List.splitOnPPrepend_cons_eq_if]
    by_cases hd : (d == c) = true
    · have hstop : Pos.Raw.atEnd (ofList [c]) ⟨c.utf8Size⟩ = true := by
        simpa using atEnd_of_valid [c] []
      have hback : Pos.Raw.unoffsetBy ⟨utf8Len l + utf8Len m + d.utf8Size⟩ ⟨c.utf8Size⟩ =
          ⟨utf8Len l + utf8Len m⟩ := by
        rw [beq_iff_eq.mp hd, Pos.Raw.unoffsetBy, Nat.add_sub_cancel]
      have hrest := ih (l ++ m ++ [d]) [] (ofList m :: pieces)
      simp only [if_pos hd, hnext, hend, if_pos hstop, hback, extract_of_valid]
      simpa [Nat.add_assoc] using hrest
    · rw [if_neg hd, if_neg hd, hhere, hnext]
      simpa [Nat.add_assoc] using ih l (m ++ [d]) pieces

theorem splitOn_char (c : Char) (cs : List Char) :
    (ofList cs).splitOn (ofList [c]) = (cs.splitOn c).map ofList := by
  have hne : ¬(ofList [c] == "") = true := by simp
  rw [splitOn, if_neg hne, List.splitOn_eq_splitOnP]
  simpa using splitOnAux_of_valid c [] [] cs []

end Text

namespace Settings

/-- A name with a dot inside and no other one has the text after it for its extension. -/
theorem pathExtension?_of_name (stem extension : List Char) (hpath : '/' ∉ stem ++ extension)
    (hdot : '.' ∉ stem ++ extension) (hne : stem ≠ []) :
    pathExtension? (.ofList (stem ++ '.' :: extension)) = some (.ofList extension) := by
  have hname : (String.ofList (stem ++ '.' :: extension)).splitOn "/" =
      [String.ofList (stem ++ '.' :: extension)] := by
    refine (Text.splitOn_char '/' _).trans ?_
    rw [List.splitOn_eq_singleton (by simpa using hpath)]
    rfl
  have hparts : (String.ofList (stem ++ '.' :: extension)).splitOn "." =
      [String.ofList stem, String.ofList extension] := by
    rw [List.mem_append, not_or] at hdot
    refine (Text.splitOn_char '.' _).trans ?_
    rw [List.splitOn_append_cons_self_of_not_mem hdot.1, List.splitOn_eq_singleton hdot.2]
    rfl
  have hstem : String.ofList stem ≠ "" := by simpa using hne
  have hlast : [String.ofList (stem ++ '.' :: extension)].getLastD "" =
      String.ofList (stem ++ '.' :: extension) := rfl
  simp only [pathExtension?, hname, hlast, hparts, List.reverse_cons, List.reverse_nil,
    List.nil_append, List.cons_append]
  split
  · contradiction
  · next hone => simp at hone
  · next hempty => exact absurd (List.cons.inj (List.cons.inj hempty).2).1 hstem
  · next hcons => rw [(List.cons.inj hcons).1]

end Settings

namespace Storm
open Text Settings

section Results
variable {ε γ δ : Type} {x : Except ε γ} {c : γ} {d : δ}

theorem eq_ok_of_toOption (h : x.toOption = some c) : x = .ok c := by
  cases x with
  | error => cases h
  | ok => exact congrArg _ (Option.some.inj h)

theorem eq_ok_of_mapError {ε' : Type} {g : ε → ε'} (h : x.mapError g = .ok c) : x = .ok c := by
  cases x with
  | error => cases h
  | ok =>
    cases h
    rfl

theorem bind_eq_ok {f : γ → Except ε δ} (h : x.bind f = .ok d) : ∃ c, x = .ok c ∧ f c = .ok d := by
  cases x with
  | error => cases h
  | ok c => exact ⟨c, rfl, h⟩

end Results

def flagAt? (arguments : List String) (i : Nat) : Option String := arguments[2 * i]?

def valueAt? (arguments : List String) (i : Nat) : Option String := arguments[2 * i + 1]?

def Flagged (arguments : List String) (flag : String) : Prop := ∃ i, flagAt? arguments i = some flag

def FirstValue (arguments : List String) (flag value : String) : Prop :=
  ∃ i, flagAt? arguments i = some flag ∧ valueAt? arguments i = some value ∧
    ∀ j < i, flagAt? arguments j ≠ some flag

def LastValue (arguments : List String) (flag value : String) : Prop :=
  ∃ i, flagAt? arguments i = some flag ∧ valueAt? arguments i = some value ∧
    ∀ j > i, flagAt? arguments j ≠ some flag

def TakesValue (flag : String) : Prop := flag = configFlag ∨ ∃ f : NumberFlag, flag = f.text

section Pairs
variable {arguments rest : List String} {flag value a b : String} {i : Nat}

theorem flagged_cons : Flagged (a :: b :: rest) flag ↔ a = flag ∨ Flagged rest flag := by
  constructor
  · rintro ⟨i, hi⟩
    cases i with
    | zero => exact .inl (Option.some.inj hi)
    | succ i => exact .inr ⟨i, hi⟩
  · rintro (rfl | ⟨i, hi⟩)
    · exact ⟨0, rfl⟩
    · exact ⟨i + 1, hi⟩

theorem LastValue.head (h : ¬Flagged rest flag) : LastValue (flag :: value :: rest) flag value := by
  refine ⟨0, rfl, rfl, fun j hj hflag => h ?_⟩
  cases j with
  | zero => cases hj
  | succ j => exact ⟨j, hflag⟩

theorem LastValue.cons (h : LastValue rest flag value) :
    LastValue (a :: b :: rest) flag value := by
  obtain ⟨i, hflag, hvalue, hlast⟩ := h
  refine ⟨i + 1, hflag, hvalue, fun j hj => ?_⟩
  cases j with
  | zero => cases hj
  | succ j => exact hlast j (Nat.lt_of_succ_lt_succ hj)

end Pairs

namespace NumberFlag
variable {f g : NumberFlag} {p : Plan} {n : UInt64}

def get (p : Plan) : NumberFlag → UInt64
  | .requests => p.requests
  | .keys => p.keys
  | .execMs => p.execMs
  | .workers => p.settings.maxRequestWorkers
  | .idleMs => p.settings.idleTimeoutMs
  | .maxMs => p.settings.maxTimeoutMs

def fallback (s : Settings) : NumberFlag → UInt64
  | .requests => 300
  | .keys => 0
  | .execMs => 1000
  | .workers => s.maxRequestWorkers
  | .idleMs => s.idleTimeoutMs
  | .maxMs => s.maxTimeoutMs

theorem get_set (f g : NumberFlag) (p : Plan) (n : UInt64) :
    g.get (f.set p n) = if f = g then n else g.get p := by
  cases f <;> cases g <;> rfl

theorem name_set (f : NumberFlag) (p : Plan) (n : UInt64) :
    (f.set p n).settings.name = p.settings.name := by
  cases f <;> rfl

theorem named?_text (f : NumberFlag) : named? f.text = some f := by
  cases f <;> rfl

theorem text_inj (h : f.text = g.text) : f = g := by
  have hf := named?_text f
  rw [h, named?_text] at hf
  exact (Option.some.inj hf).symm

theorem eq_text_of_named? {s : String} (h : named? s = some f) : s = f.text := by
  have hfound := List.find?_some h
  exact (of_decide_eq_true hfound).symm

theorem text_ne_configFlag (f : NumberFlag) : f.text ≠ configFlag := by
  cases f <;> decide

theorem isHelp_text (f : NumberFlag) : isHelp f.text = false := by
  cases f <;> rfl

end NumberFlag

/-- A number is not spelled like the flag of the settings file. -/
theorem ne_configFlag_of_unsigned {value : String} {n : UInt64} (h : unsigned value = .ok n) :
    value ≠ configFlag := by
  rintro rfl
  cases h

inductive Reads : Plan → List String → Plan → Prop
  | nil (p : Plan) : Reads p [] p
  | last (p : Plan) : Reads p [configFlag] p
  | config {p q : Plan} {rest : List String} (path : String) (h : Reads p rest q) :
    Reads p (configFlag :: path :: rest) q
  | number {p q : Plan} {value : String} {n : UInt64} {rest : List String} (f : NumberFlag)
    (hn : unsigned value = .ok n) (h : Reads (f.set p n) rest q) :
    Reads p (f.text :: value :: rest) q

section Reads
variable {p q : Plan} {arguments rest : List String} {flag value : String} {value? : Option String}
  {i : Nat}

theorem readPair_config (p : Plan) (value? : Option String) :
    readPair p configFlag value? = .ok (some p) := rfl

theorem readPair_number {n : UInt64} (f : NumberFlag) (h : unsigned value = .ok n) :
    readPair p f.text (some value) = .ok (some (f.set p n)) := by
  simp [readPair, f.isHelp_text, f.text_ne_configFlag, f.named?_text, h]

theorem readPair_help (h : isHelp flag = true) : readPair p flag value? = .ok none := by
  rw [readPair, if_pos h]

theorem readPair_eq_some (h : readPair p flag value? = .ok (some q)) :
    (flag = configFlag ∧ q = p) ∨
    ∃ f value n, flag = NumberFlag.text f ∧ value? = some value ∧ unsigned value = .ok n ∧
      q = f.set p n := by
  unfold readPair at h
  split at h
  · cases h
  · split at h
    · next hconfig => exact .inl ⟨hconfig, (Option.some.inj (Except.ok.inj h)).symm⟩
    · split at h
      · cases h
      · next f hf =>
        split at h
        · cases h
        · next value =>
          split at h
          · cases h
          · next n hn =>
            exact .inr ⟨f, value, n, f.eq_text_of_named? hf, rfl, hn,
              (Option.some.inj (Except.ok.inj h)).symm⟩

theorem readPairs_cons (p : Plan) (flag value : String) (rest : List String) :
    readPairs p (flag :: value :: rest) = (readPair p flag (some value)).bind fun
      | none => .ok none
      | some p => readPairs p rest := rfl

theorem reads_of_readPairs : ∀ {arguments : List String} {p : Plan},
    readPairs p arguments = .ok (some q) → Reads p arguments q
  | [], p, h => by
    cases h
    exact .nil _
  | [flag], p, h => by
    rcases readPair_eq_some h with ⟨rfl, rfl⟩ | ⟨f, value, n, -, hvalue, -⟩
    · exact .last q
    · cases hvalue
  | flag :: value :: rest, p, h => by
    rw [readPairs_cons] at h
    obtain ⟨next?, hpair, h⟩ := bind_eq_ok h
    cases next? with
    | none => cases h
    | some next =>
      have hrest := reads_of_readPairs (p := next) h
      rcases readPair_eq_some hpair with ⟨rfl, rfl⟩ | ⟨f, v, n, rfl, hvalue, hn, rfl⟩
      · exact .config value hrest
      · cases hvalue
        exact .number f hn hrest

/-- The flag of the pair at `i` has a value, or else it is that of the settings file and stands
last. -/
def HasValue (arguments : List String) (i : Nat) (flag : String) : Prop :=
  (valueAt? arguments i).isSome ∨ (flag = configFlag ∧ arguments.length = 2 * i + 1)

theorem HasValue.cons (h : HasValue rest i flag) (a b : String) :
    HasValue (a :: b :: rest) (i + 1) flag := by
  refine h.imp_right fun ⟨hconfig, hlength⟩ => ⟨hconfig, ?_⟩
  simp only [List.length_cons, hlength]
  omega

theorem Reads.takesValue (h : Reads p arguments q) (hflag : flagAt? arguments i = some flag) :
    TakesValue flag ∧ HasValue arguments i flag := by
  induction h generalizing i with
  | nil p => cases hflag
  | last p =>
    cases i with
    | zero =>
      cases hflag
      exact ⟨.inl rfl, .inr ⟨rfl, rfl⟩⟩
    | succ i => cases hflag
  | config path h ih =>
    cases i with
    | zero =>
      cases hflag
      exact ⟨.inl rfl, .inl rfl⟩
    | succ i => exact (ih hflag).imp_right fun hvalue => hvalue.cons configFlag path
  | @number p q value n rest f hn h ih =>
    cases i with
    | zero =>
      cases hflag
      exact ⟨.inr ⟨f, rfl⟩, .inl rfl⟩
    | succ i => exact (ih hflag).imp_right fun hvalue => hvalue.cons f.text value

/-- A number of the plan is the last one that its flag has. -/
theorem Reads.get (h : Reads p arguments q) (f : NumberFlag) :
    (∃ value, LastValue arguments f.text value ∧ unsigned value = .ok (f.get q)) ∨
    (¬Flagged arguments f.text ∧ f.get q = f.get p) := by
  induction h with
  | nil p => exact .inr ⟨nofun, rfl⟩
  | last p =>
    refine .inr ⟨?_, rfl⟩
    rintro ⟨i, hi⟩
    cases i with
    | zero => exact f.text_ne_configFlag (Option.some.inj hi).symm
    | succ i => cases hi
  | config path h ih =>
    rcases ih with ⟨value, hlast, hvalue⟩ | ⟨hnot, hget⟩
    · exact .inl ⟨value, hlast.cons, hvalue⟩
    · refine .inr ⟨?_, hget⟩
      rw [flagged_cons, not_or]
      exact ⟨f.text_ne_configFlag.symm, hnot⟩
  | @number p q value n rest g hn h ih =>
    rcases ih with ⟨value, hlast, hvalue⟩ | ⟨hnot, hget⟩
    · exact .inl ⟨value, hlast.cons, hvalue⟩
    · rw [NumberFlag.get_set] at hget
      by_cases hg : g = f
      · subst hg
        rw [if_pos rfl] at hget
        exact .inl ⟨value, .head hnot, by rw [hget, hn]⟩
      · rw [if_neg hg] at hget
        refine .inr ⟨?_, hget⟩
        rw [flagged_cons, not_or]
        exact ⟨fun htext => hg (NumberFlag.text_inj htext), hnot⟩

theorem Reads.name (h : Reads p arguments q) : q.settings.name = p.settings.name := by
  induction h with
  | nil p => rfl
  | last p => rfl
  | config path h ih => exact ih
  | number f hn h ih => rw [ih, f.name_set]

end Reads

section Search
variable {p q : Plan} {arguments rest : List String} {path? : Option String} {value : String}

theorem idxOf?_cons_cons {a b : String} (ha : a ≠ configFlag) (hb : b ≠ configFlag) :
    (a :: b :: rest).idxOf? configFlag = (rest.idxOf? configFlag).map (· + 2) := by
  simp [List.idxOf?_cons, ha, hb, Function.comp_def]

/-- What the search finds stands as a flag. -/
theorem Reads.idxOf? (h : Reads p arguments q) (i : Nat) :
    arguments.idxOf? configFlag ≠ some (2 * i + 1) := by
  induction h generalizing i with
  | nil p => nofun
  | last p => simp
  | config path h ih => simp [List.idxOf?_cons]
  | number f hn h ih =>
    rw [idxOf?_cons_cons f.text_ne_configFlag (ne_configFlag_of_unsigned hn)]
    cases hfound : List.idxOf? configFlag _ with
    | none => nofun
    | some k =>
      rw [Option.map_some, ne_eq, Option.some.injEq]
      intro hk
      exact ih (i - 1) (by rw [hfound, Option.some.injEq]; omega)

/-- The search takes what follows the first `--config`. -/
theorem configPath?_eq (arguments : List String) :
    configPath? arguments =
      match arguments.idxOf? configFlag with
      | none => .ok none
      | some k => arguments[k + 1]?.elim (.error (.missingValue configFlag)) (.ok ∘ some) := by
  induction arguments with
  | nil => rfl
  | cons a rest ih =>
    rw [configPath?.eq_def, List.idxOf?_cons]
    dsimp only
    by_cases ha : a = configFlag
    · rw [if_pos ha, if_pos (beq_iff_eq.mpr ha)]
      cases rest <;> rfl
    · rw [if_neg ha, if_neg (by simpa using ha), ih]
      cases rest.idxOf? configFlag <;> rfl

theorem configPath?_cons {a : String} (ha : a ≠ configFlag) :
    configPath? (a :: rest) = configPath? rest := by
  rw [configPath?.eq_def]
  exact if_neg ha

theorem configSettings_eq_ok {read : FileReader} {base : Settings}
    (h : configSettings read arguments = .ok base) :
    (configPath? arguments = .ok none ∧ base = {}) ∨
    ∃ path, configPath? arguments = .ok (some path) ∧ ofFile read path = .ok base := by
  obtain ⟨path?, hpath, h⟩ := bind_eq_ok h
  cases path? with
  | none =>
    cases h
    exact .inl ⟨hpath, rfl⟩
  | some path => exact .inr ⟨path, hpath, eq_ok_of_mapError h⟩

theorem configSettings_of_none {read : FileReader} (h : configPath? arguments = .ok none) :
    configSettings read arguments = .ok {} := by
  rw [configSettings, h]
  rfl

theorem configSettings_of_path {read : FileReader} {path : String} {base : Settings}
    (h : configPath? arguments = .ok (some path)) (hload : ofFile read path = .ok base) :
    configSettings read arguments = .ok base := by
  rw [configSettings, h]
  change (ofFile read path).mapError _ = _
  rw [hload]
  rfl

/-- The settings depend on the arguments through the path alone. -/
theorem configSettings_congr {others : List String} (read : FileReader)
    (h : configPath? arguments = configPath? others) :
    configSettings read arguments = configSettings read others := by
  rw [configSettings, configSettings, h]

/-- On an accepted line the search and the pairs find the same file. -/
theorem Reads.path (h : Reads p arguments q) (hpath : configPath? arguments = .ok path?) :
    (∃ path, path? = some path ∧ FirstValue arguments configFlag path) ∨
    (path? = none ∧ ¬Flagged arguments configFlag) := by
  have heven := h.idxOf?
  rw [configPath?_eq] at hpath
  cases hfound : arguments.idxOf? configFlag with
  | none =>
    rw [hfound] at hpath
    cases hpath
    refine .inr ⟨rfl, ?_⟩
    rintro ⟨i, hi⟩
    exact List.idxOf?_eq_none_iff.mp hfound (List.mem_of_getElem? hi)
  | some k =>
    obtain ⟨hlt, hk, hbefore⟩ := List.idxOf?_eq_some_iff.mp hfound
    obtain ⟨i, rfl⟩ : ∃ i, k = 2 * i := by
      have hodd := heven ((k - 1) / 2)
      rw [hfound, ne_eq, Option.some.injEq] at hodd
      exact ⟨k / 2, by omega⟩
    simp only [hfound] at hpath
    cases hvalue : arguments[2 * i + 1]? with
    | none =>
      rw [hvalue] at hpath
      cases hpath
    | some path =>
      rw [hvalue] at hpath
      cases hpath
      refine .inl ⟨path, rfl, i, by rw [flagAt?, List.getElem?_eq_getElem hlt, hk], hvalue, ?_⟩
      intro j hj hflag
      obtain ⟨hj', hflag⟩ := List.getElem?_eq_some_iff.mp hflag
      exact hbefore (2 * j) (by omega) hflag

theorem Reads.file {read : FileReader} {base : Settings} (h : Reads p arguments q)
    (hbase : configSettings read arguments = .ok base) :
    (∃ path, FirstValue arguments configFlag path ∧ ofFile read path = .ok base) ∨
    (¬Flagged arguments configFlag ∧ base = {}) := by
  rcases configSettings_eq_ok hbase with ⟨hpath, hdefault⟩ | ⟨path, hpath, hload⟩
  · rcases h.path hpath with ⟨path, hsome, -⟩ | ⟨-, hnot⟩
    · cases hsome
    · exact .inr ⟨hnot, hdefault⟩
  · rcases h.path hpath with ⟨path', hsome, hfirst⟩ | ⟨hnone, -⟩
    · cases hsome
      exact .inl ⟨path, hfirst, hload⟩
    · cases hnone

end Search

/-- What the plan of a line is made of: the settings `base` come from the file that the line names,
`layered` are those with the environment's overrides, and the flags override both. Every flag has
its value but for a `--config` at the end behind another one. -/
structure Composed (env : Environment) (read : FileReader) (arguments : List String) (p : Plan)
    (base layered : Settings) : Prop where
  flags : ∀ i flag, flagAt? arguments i = some flag → TakesValue flag ∧
    ((valueAt? arguments i).isSome ∨
      (flag = configFlag ∧ arguments.length = 2 * i + 1 ∧
        ∃ j < i, flagAt? arguments j = some configFlag))
  valid : ∃ warnings, p.settings.validate = .ok warnings
  given : ∀ f : NumberFlag, Flagged arguments f.text →
    ∃ value, LastValue arguments f.text value ∧ IsNumeral value (f.get p).toNat
  ungiven : ∀ f : NumberFlag, ¬Flagged arguments f.text → f.get p = f.fallback layered
  named : p.settings.name = layered.name
  overridden : ∃ log, Overridden base env layered log
  file : (∃ path, FirstValue arguments configFlag path ∧ ofFile read path = .ok base) ∨
    (¬Flagged arguments configFlag ∧ base = {})
  search : ∀ i, arguments.idxOf? configFlag ≠ some (2 * i + 1)

section Accepted
variable {env : Environment} {read : FileReader} {arguments : List String} {p : Plan}

theorem readArguments_eq_some (h : readArguments env read arguments = .ok (some p)) :
    ∃ base, configSettings read arguments = .ok base ∧
      readPairs { settings := (base.override env).1 } arguments = .ok (some p) ∧
      ∃ warnings, p.settings.validate = .ok warnings := by
  obtain ⟨base, hbase, h⟩ := bind_eq_ok h
  obtain ⟨q?, hpairs, h⟩ := bind_eq_ok h
  cases q? with
  | none => cases h
  | some q =>
    dsimp only at h
    cases hvalid : q.settings.validate with
    | error e =>
      rw [hvalid] at h
      cases h
    | ok warnings =>
      rw [hvalid] at h
      cases h
      exact ⟨base, hbase, hpairs, warnings, hvalid⟩

/-- A plan has of every layer what no later layer gives. -/
theorem plan_composed (h : readArguments env read arguments = .ok (some p)) :
    ∃ base layered, Composed env read arguments p base layered := by
  obtain ⟨base, hbase, hpairs, hvalid⟩ := readArguments_eq_some h
  have hreads := reads_of_readPairs hpairs
  have hfile := hreads.file hbase
  refine ⟨base, (base.override env).1, ?_⟩
  constructor
  case flags =>
    intro i flag hflag
    obtain ⟨htakes, hvalue⟩ := hreads.takesValue hflag
    refine ⟨htakes, hvalue.imp_right fun ⟨hconfig, hlength⟩ => ⟨hconfig, hlength, ?_⟩⟩
    -- The search would have failed on a first `--config` without a value.
    rcases hfile with ⟨path, ⟨j, hj, hpath, -⟩, -⟩ | ⟨hnot, -⟩
    · have hlt := (List.getElem?_eq_some_iff.mp hpath).1
      exact ⟨j, by omega, hj⟩
    · exact absurd ⟨i, hconfig ▸ hflag⟩ hnot
  case valid => exact hvalid
  case given =>
    intro f hflagged
    rcases hreads.get f with ⟨value, hlast, hvalue⟩ | ⟨hnot, -⟩
    · exact ⟨value, hlast, unsigned_eq_ok_iff.mp hvalue⟩
    · exact absurd hflagged hnot
  case ungiven =>
    intro f hnot
    rcases hreads.get f with ⟨value, ⟨i, hi, -⟩, -⟩ | ⟨-, hget⟩
    · exact absurd ⟨i, hi⟩ hnot
    · rw [hget]
      cases f <;> rfl
  case named => exact hreads.name
  case overridden => exact ⟨_, override_overridden base env⟩
  case file => exact hfile
  case search => exact hreads.idxOf?

theorem ofFile_json {read : FileReader} {path text : String}
    (hpath : pathExtension? path = some "json") (hread : read path = .ok text) :
    ofFile read path = (ofJsonText text).mapError .json := by
  simp only [ofFile, hread, ofFileText, hpath]

theorem pathExtension?_json : pathExtension? "s.json" = some "json" :=
  pathExtension?_of_name ['s'] ['j', 's', 'o', 'n'] (by decide) (by decide) (by decide)

theorem plan_composed_of_layers :
    let env : Environment := fun name =>
      [(maxWorkersVariable, " 12 "), (idleTimeoutVariable, "40")].lookup name
    let read : FileReader := fun path =>
      if path = "s.json" then .ok "\x7b\"max_timeout_ms\":500\x7d" else .error "missing"
    let arguments :=
      ["--requests", "5", "--config", "s.json", "--idle-ms", "60", "--requests", "+07"]
    let p : Plan := { requests := 7
                      settings := { idleTimeoutMs := 60, maxTimeoutMs := 500
                                    maxRequestWorkers := 12 } }
    readArguments env read arguments = .ok (some p) ∧
    ∃ base layered, Composed env read arguments p base layered := by
  intro env read arguments p
  have hload : read "s.json" = .ok "\x7b\"max_timeout_ms\":500\x7d" := rfl
  have htext : ofJsonText "\x7b\"max_timeout_ms\":500\x7d" = .ok { maxTimeoutMs := 500 } :=
    eq_ok_of_toOption (by decide +kernel)
  have hfile : ofFile read "s.json" = .ok { maxTimeoutMs := 500 } := by
    rw [ofFile_json pathExtension?_json hload, htext]
    rfl
  have hread : readArguments env read arguments = .ok (some p) := by
    rw [readArguments, configSettings_of_path rfl hfile]
    decide +kernel
  exact ⟨hread, plan_composed hread⟩

/-- A flag of the settings file may stand last on an accepted line, without a value. -/
theorem accepted_without_value :
    let read : FileReader := fun path =>
      if path = "s.json" then .ok "\x7b\x7d" else .error "missing"
    let arguments := ["--config", "s.json", "--requests", "0", "--config"]
    readArguments (fun _ => none) read arguments = .ok (some { requests := 0 }) ∧
    flagAt? arguments 2 = some configFlag ∧ valueAt? arguments 2 = none := by
  intro read arguments
  have hload : read "s.json" = .ok "\x7b\x7d" := rfl
  have hfile : ofFile read "s.json" = .ok {} := by
    rw [ofFile_json pathExtension?_json hload]
    rfl
  refine ⟨?_, rfl, rfl⟩
  rw [readArguments, configSettings_of_path rfl hfile]
  rfl

end Accepted

/-- The pair is taken wherever it stands: a number's flag with a numeral, or the flag of the
settings file with a file that loads. -/
inductive Taken (read : FileReader) : String × String → Prop
  | number (f : NumberFlag) {value : String} {n : UInt64} (h : IsNumeral value n.toNat) :
    Taken read (f.text, value)
  | config {path : String} {s : Settings} (h : ofFile read path = .ok s) (hne : path ≠ configFlag) :
    Taken read (configFlag, path)

def line (pairs : List (String × String)) : List String :=
  pairs.flatMap fun pair => [pair.1, pair.2]

section Help
variable {env : Environment} {read : FileReader} {pair : String × String}
  {pairs : List (String × String)} {help : String} {rest arguments : List String}

@[simp] theorem line_nil : line [] = [] := rfl

@[simp] theorem line_cons : line (pair :: pairs) = pair.1 :: pair.2 :: line pairs := rfl

theorem ne_configFlag_of_isHelp (h : isHelp help = true) : help ≠ configFlag := by
  rintro rfl
  cases h

/-- A pair that is taken leaves a plan to go on from. -/
theorem Taken.readPair (h : Taken read pair) (p : Plan) :
    ∃ q, readPair p pair.1 (some pair.2) = .ok (some q) := by
  cases h with
  | @number f value n h => exact ⟨f.set p n, readPair_number f (unsigned_eq_ok_iff.mpr h)⟩
  | config h hne => exact ⟨p, readPair_config p _⟩

theorem readPairs_help (h : ∀ pair ∈ pairs, Taken read pair) (hhelp : isHelp help = true)
    (p : Plan) : readPairs p (line pairs ++ help :: rest) = .ok none := by
  induction pairs generalizing p with
  | nil =>
    cases rest with
    | nil => exact readPair_help hhelp
    | cons value rest =>
      rw [line_nil, List.nil_append, readPairs_cons, readPair_help hhelp]
      rfl
  | cons pair pairs ih =>
    obtain ⟨hpair, hpairs⟩ := List.forall_mem_cons.mp h
    obtain ⟨q, hq⟩ := hpair.readPair p
    rw [line_cons, List.cons_append, List.cons_append, readPairs_cons, hq]
    exact ih hpairs q

/-- Where no pair names a file, the search goes on behind them. -/
theorem configPath?_line (h : ∀ pair ∈ pairs, Taken read pair)
    (hnone : ∀ pair ∈ pairs, pair.1 ≠ configFlag) :
    configPath? (line pairs ++ arguments) = configPath? arguments := by
  induction pairs with
  | nil => rfl
  | cons pair pairs ih =>
    obtain ⟨hpair, hpairs⟩ := List.forall_mem_cons.mp h
    obtain ⟨hflag, hflags⟩ := List.forall_mem_cons.mp hnone
    have hvalue : pair.2 ≠ configFlag := by
      cases hpair with
      | number f hn => exact ne_configFlag_of_unsigned (unsigned_eq_ok_iff.mpr hn)
      | config h hne => exact hne
    rw [line_cons, List.cons_append, List.cons_append, configPath?_cons hflag,
      configPath?_cons hvalue, ih hpairs hflags]

/-- The file of the first pair that names one is found and loads, whatever follows. -/
theorem configSettings_line (arguments : List String) (h : ∀ pair ∈ pairs, Taken read pair)
    (hsome : ∃ pair ∈ pairs, pair.1 = configFlag) :
    ∃ s, configSettings read (line pairs ++ arguments) = .ok s := by
  induction pairs with
  | nil => simp at hsome
  | cons pair pairs ih =>
    obtain ⟨hpair, hpairs⟩ := List.forall_mem_cons.mp h
    cases hpair with
    | config hload hne => exact ⟨_, configSettings_of_path rfl hload⟩
    | @number f value n hn =>
      have hrest : ∃ pair ∈ pairs, pair.1 = configFlag := by
        simpa [f.text_ne_configFlag] using hsome
      obtain ⟨s, hs⟩ := ih hpairs hrest
      refine ⟨s, (configSettings_congr read ?_).trans hs⟩
      have hvalue := ne_configFlag_of_unsigned (unsigned_eq_ok_iff.mpr hn)
      rw [line_cons, List.cons_append, List.cons_append, configPath?_cons f.text_ne_configFlag,
        configPath?_cons hvalue]

/-- With the pairs read up to a request for help, only the settings file can still be at fault. -/
theorem readArguments_of_help (h : ∀ p, readPairs p arguments = .ok none) :
    readArguments env read arguments = (configSettings read arguments).map fun _ => none := by
  rw [readArguments]
  cases configSettings read arguments with
  | error fault => rfl
  | ok s =>
    change (readPairs _ arguments).bind _ = _
    rw [h]
    rfl

/-- What follows a request for help changes nothing where the pairs before it name a settings file
or no `--config` follows. Otherwise the file that is named behind it has to load. -/
theorem help_ends_line (env : Environment) (rest : List String)
    (hpairs : ∀ pair ∈ pairs, Taken read pair) (hhelp : help = "-h" ∨ help = "--help") :
    ((∃ pair ∈ pairs, pair.1 = configFlag) ∨ configFlag ∉ rest →
      readArguments env read (line pairs ++ help :: rest) = .ok none) ∧
    ((∀ pair ∈ pairs, pair.1 ≠ configFlag) →
      readArguments env read (line pairs ++ help :: rest) =
        (configSettings read rest).map fun _ => none) := by
  have hisHelp : isHelp help = true := by simpa [isHelp] using hhelp
  have hread : readArguments env read (line pairs ++ help :: rest) =
      (configSettings read (line pairs ++ help :: rest)).map fun _ => none :=
    readArguments_of_help (readPairs_help hpairs hisHelp)
  have hbehind (hnone : ∀ pair ∈ pairs, pair.1 ≠ configFlag) :
      configSettings read (line pairs ++ help :: rest) = configSettings read rest := by
    refine configSettings_congr read ?_
    rw [configPath?_line hpairs hnone, configPath?_cons (ne_configFlag_of_isHelp hisHelp)]
  constructor
  · intro h
    rw [hread]
    by_cases hsome : ∃ pair ∈ pairs, pair.1 = configFlag
    · obtain ⟨s, hs⟩ := configSettings_line (help :: rest) hpairs hsome
      rw [hs]
      rfl
    · have hnone : ∀ pair ∈ pairs, pair.1 ≠ configFlag :=
        fun pair hpair hflag => hsome ⟨pair, hpair, hflag⟩
      have hfound := List.idxOf?_eq_none_iff.mpr (h.resolve_left hsome)
      have hpath : configPath? rest = .ok none := by rw [configPath?_eq, hfound]
      rw [hbehind hnone, configSettings_of_none hpath]
      rfl
  · intro hnone
    rw [hread, hbehind hnone]

theorem help_ends_line_of_junk :
    let pairs := [("--requests", "5")]
    (∀ pair ∈ pairs, Taken (fun _ => .error "missing") pair) ∧ configFlag ∉ ["--junk", "-5"] ∧
    readArguments (fun _ => none) (fun _ => .error "missing")
      (line pairs ++ "-h" :: ["--junk", "-5"]) = .ok none := by
  intro pairs
  have hpairs : ∀ pair ∈ pairs, Taken (fun _ => .error "missing") pair := by
    rw [List.forall_mem_singleton]
    have hdigit : ∀ c ∈ ['5'], c.isDigit = true := List.forall_mem_singleton.mpr rfl
    exact .number .requests (n := 5) ⟨['5'], by decide, hdigit, .inl rfl, rfl⟩
  have hrest : configFlag ∉ ["--junk", "-5"] := by decide
  exact ⟨hpairs, hrest,
    (help_ends_line (fun _ => none) ["--junk", "-5"] hpairs (.inl rfl)).1 (.inr hrest)⟩

/-- Help is refused where a `--config` without a value stands behind the request for it. -/
theorem help_refused :
    readArguments (fun _ => none) (fun _ => .error "missing") ["--help"] = .ok none ∧
    readArguments (fun _ => none) (fun _ => .error "missing") ["--help", "--config"] =
      .error (.missingValue configFlag) :=
  ⟨rfl, rfl⟩

end Help

end Storm
end Coalesce
