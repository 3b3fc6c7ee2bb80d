import Coalesce.Proofs.Numerals
import Coalesce.Settings.Environment

/-! # Overrides, field by field

Every field of the settings has one variable that can override it. The name takes a text that is
not blank, trimmed; a number takes a trimmed numeral below `2 ^ 64`, and another text is warned
about. What a field becomes depends on its own variable only, so to override twice is to override
once. -/
namespace Coalesce.Settings
open Text

inductive CountField where
  | idleTimeout
  | maxTimeout
  | maxRequestWorkers

namespace CountField

def all : List CountField := [.idleTimeout, .maxTimeout, .maxRequestWorkers]

def variableName : CountField → String
  | .idleTimeout => "REQUEST_BATCHER_IDLE_TIMEOUT_MS"
  | .maxTimeout => "REQUEST_BATCHER_MAX_TIMEOUT_MS"
  | .maxRequestWorkers => "REQUEST_BATCHER_MAX_WORKERS"

def get (s : Settings) : CountField → UInt64
  | .idleTimeout => s.idleTimeoutMs
  | .maxTimeout => s.maxTimeoutMs
  | .maxRequestWorkers => s.maxRequestWorkers

end CountField

/-- The variable is set to a text that stands for the number once it is trimmed. -/
def Gives (env : Environment) (variableName : String) (n : UInt64) : Prop :=
  ∃ raw text, env variableName = some raw ∧ TrimsTo raw text ∧ IsNumeral text n.toNat

def Refuses (env : Environment) (variableName raw : String) : Prop :=
  env variableName = some raw ∧ ∀ n, ¬Gives env variableName n

/-- The environment makes `r` of the settings `s`, with the warnings `log`. -/
structure Overridden (s : Settings) (env : Environment) (r : Settings) (log : List LogEntry) :
    Prop where
  named : ∀ raw, env "REQUEST_BATCHER_NAME" = some raw → ¬IsBlankText raw → TrimsTo raw r.name
  unnamed : (∀ raw, env "REQUEST_BATCHER_NAME" = some raw → IsBlankText raw) → r.name = s.name
  counted : ∀ f n, Gives env (CountField.variableName f) n → f.get r = n
  uncounted : ∀ f, (∀ n, ¬Gives env (CountField.variableName f) n) → f.get r = f.get s
  warned : ∃ warnings : CountField → List LogEntry, log = CountField.all.flatMap warnings ∧
    ∀ f, (∀ raw, Refuses env f.variableName raw → warnings f =
        [⟨.warn, "ignoring unparseable batcher setting",
          [("var", .inl f.variableName), ("value", .inl raw)]⟩]) ∧
      ((∀ raw, ¬Refuses env f.variableName raw) → warnings f = [])

variable {s : Settings} {env : Environment} {variableName raw : String} {n : UInt64}

theorem gives_iff (h : env variableName = some raw) :
    Gives env variableName n ↔ unsigned (trim raw) = .ok n := by
  rw [unsigned_eq_ok_iff]
  constructor
  · rintro ⟨raw', text, hraw, htrim, hn⟩
    rw [h, Option.some.injEq] at hraw
    rw [hraw, trim_eq_iff.mpr htrim]
    exact hn
  · intro hn
    exact ⟨raw, trim raw, h, trim_trimsTo raw, hn⟩

theorem not_gives_of_unset (h : env variableName = none) : ¬Gives env variableName n := by
  rintro ⟨raw, text, hraw, -, -⟩
  rw [h] at hraw
  cases hraw

/-- A variable gives a number without a warning, or is refused with one, or is not set. -/
theorem numberOverride_cases (env : Environment) (variableName : String) :
    (∃ n, Gives env variableName n ∧ numberOverride env variableName = (some n, [])) ∨
    (∃ raw, Refuses env variableName raw ∧
      numberOverride env variableName = (none, [ignored variableName raw])) ∨
    (env variableName = none ∧ numberOverride env variableName = (none, [])) := by
  cases hv : env variableName with
  | none => exact .inr (.inr ⟨rfl, by rw [numberOverride, hv]⟩)
  | some raw =>
    cases hn : unsigned (trim raw) with
    | ok n => exact .inl ⟨n, (gives_iff hv).mpr hn, by simp only [numberOverride, hv, hn]⟩
    | error fault =>
      have hrefused : ∀ n, ¬Gives env variableName n := by
        intro n hgives
        rw [(gives_iff hv).mp hgives] at hn
        cases hn
      exact .inr (.inl ⟨raw, ⟨hv, hrefused⟩, by simp only [numberOverride, hv, hn]⟩)

theorem numberOverride_eq_some_iff :
    (numberOverride env variableName).1 = some n ↔ Gives env variableName n := by
  cases hv : env variableName with
  | none => simp [numberOverride, hv, not_gives_of_unset hv]
  | some raw =>
    rw [gives_iff hv]
    cases hn : unsigned (trim raw) <;> simp [numberOverride, hv, hn]

theorem nameOverride_eq_some (h : env nameVariable = some raw) (hne : ¬IsBlankText raw) :
    nameOverride env = some (trim raw) := by
  have hsome : ¬(trim raw).isEmpty = true := by
    rw [String.isEmpty_iff, trim_eq_empty_iff]
    exact hne
  rw [nameOverride, h, Option.bind_some, if_neg hsome]

theorem nameOverride_eq_none (h : ∀ raw, env nameVariable = some raw → IsBlankText raw) :
    nameOverride env = none := by
  cases hv : env nameVariable with
  | none => rw [nameOverride, hv, Option.bind_none]
  | some raw =>
    have hempty : (trim raw).isEmpty = true := by
      rw [String.isEmpty_iff, trim_eq_empty_iff]
      exact h raw hv
    rw [nameOverride, hv, Option.bind_some, if_pos hempty]

theorem name_override (s : Settings) (env : Environment) :
    (s.override env).1.name = (nameOverride env).getD s.name := rfl

theorem get_override (f : CountField) (s : Settings) (env : Environment) :
    f.get (s.override env).1 = (numberOverride env f.variableName).1.getD (f.get s) := by
  cases f <;> rfl

theorem log_override (s : Settings) (env : Environment) :
    (s.override env).2 = CountField.all.flatMap fun f => (numberOverride env f.variableName).2 := by
  simp [override, CountField.all, CountField.variableName, idleTimeoutVariable,
    maxTimeoutVariable, maxWorkersVariable]

theorem override_overridden (s : Settings) (env : Environment) :
    Overridden s env (s.override env).1 (s.override env).2 := by
  constructor
  case named =>
    intro raw hraw hne
    rw [name_override, nameOverride_eq_some hraw hne]
    exact trim_trimsTo raw
  case unnamed =>
    intro hblank
    rw [name_override, nameOverride_eq_none hblank, Option.getD_none]
  case counted =>
    intro f n hgives
    rw [get_override, numberOverride_eq_some_iff.mpr hgives, Option.getD_some]
  case uncounted =>
    intro f hnot
    have hnone : (numberOverride env f.variableName).1 = none := by
      refine Option.eq_none_iff_forall_ne_some.mpr fun n hn => ?_
      exact hnot n (numberOverride_eq_some_iff.mp hn)
    rw [get_override, hnone, Option.getD_none]
  case warned =>
    refine ⟨_, log_override s env, fun f => ⟨fun raw hrefused => ?_, fun hnot => ?_⟩⟩
    · rcases numberOverride_cases env f.variableName with
        ⟨n, hgives, -⟩ | ⟨raw', hrefused', hlog⟩ | ⟨hunset, -⟩
      · exact absurd hgives (hrefused.2 n)
      · have hsame : raw' = raw := Option.some.inj (hrefused'.1.symm.trans hrefused.1)
        rw [hlog, hsame]
        rfl
      · rw [hrefused.1] at hunset
        cases hunset
    · rcases numberOverride_cases env f.variableName with
        ⟨n, -, hlog⟩ | ⟨raw, hrefused, -⟩ | ⟨-, hlog⟩
      · rw [hlog]
      · exact absurd hrefused (hnot raw)
      · rw [hlog]

theorem numberOverride_congr {env' : Environment} (h : env' variableName = env variableName) :
    numberOverride env' variableName = numberOverride env variableName := by
  rw [numberOverride, h, numberOverride]

theorem nameOverride_congr {env' : Environment} (h : env' nameVariable = env nameVariable) :
    nameOverride env' = nameOverride env := by
  rw [nameOverride, h, nameOverride]

theorem getD_getD {γ : Type} (o : Option γ) (c : γ) : o.getD (o.getD c) = o.getD c := by
  cases o <;> rfl

/-- The environment overrides every field by the field's own variable and by nothing else, and a
second time it changes nothing more. -/
theorem override_by_field (s : Settings) (env : Environment) :
    Overridden s env (s.override env).1 (s.override env).2 ∧
    (∀ (s' : Settings) (env' : Environment),
      env' "REQUEST_BATCHER_NAME" = env "REQUEST_BATCHER_NAME" → s'.name = s.name →
        (s'.override env').1.name = (s.override env).1.name) ∧
    (∀ (f : CountField) (s' : Settings) (env' : Environment),
      env' f.variableName = env f.variableName → f.get s' = f.get s →
        f.get (s'.override env').1 = f.get (s.override env).1) ∧
    (s.override env).1.override env = s.override env := by
  refine ⟨override_overridden s env, fun s' env' henv hname => ?_, fun f s' env' henv hget => ?_,
    ?_⟩
  · rw [name_override, name_override, nameOverride_congr henv, hname]
  · rw [get_override, get_override, numberOverride_congr henv, hget]
  · simp only [override, getD_getD]

/-- A numeral may have blanks around it; what is no numeral leaves its field alone. -/
example :
    let env : Environment := fun name => [(nameVariable, "attach-volume"),
      (idleTimeoutVariable, "20"), (maxTimeoutVariable, "not-a-number"),
      (maxWorkersVariable, " 12 ")].lookup name
    ({} : Settings).override env =
      ({ name := "attach-volume", idleTimeoutMs := 20, maxRequestWorkers := 12 },
        [ignored maxTimeoutVariable "not-a-number"]) := by
  decide +kernel

end Coalesce.Settings
