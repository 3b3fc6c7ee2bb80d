import Coalesce.Proofs.Limits

/-! # Whole milliseconds

Options hold exact durations and settings hold 64-bit counts of milliseconds. From settings to
options nothing is lost. The other way a count that is too large for 64 bits starts again at zero,
and a duration below one millisecond becomes none at all, which no valid settings may hold as the
longest wait. -/
namespace Coalesce

namespace Duration
variable {d d' : Duration}

theorem toNat_millis64 (d : Duration) : d.millis64.toNat = d.millis % UInt64.size := by
  rw [millis64, UInt64.toNat_ofNat']

theorem toNat_millis64_of_lt (h : d.millis < UInt64.size) : d.millis64.toNat = d.millis := by
  rw [toNat_millis64, Nat.mod_eq_of_lt h]

@[simp] theorem millis_ofMillis (ms : UInt64) : (ofMillis ms).millis = ms.toNat :=
  Nat.mul_div_cancel _ (by decide)

@[simp] theorem millis64_ofMillis (ms : UInt64) : (ofMillis ms).millis64 = ms := by
  apply UInt64.toNat_inj.mp
  rw [toNat_millis64_of_lt (by simpa using ms.toNat_lt_size), millis_ofMillis]

theorem millis_mono (h : d ≤ d') : d.millis ≤ d'.millis :=
  Nat.div_le_div_right h

/-- Longer durations make larger counts, as long as the larger one fits. -/
theorem millis64_mono (h : d ≤ d') (hfits : d'.millis < UInt64.size) :
    d.millis64 ≤ d'.millis64 := by
  have hle := millis_mono h
  rw [UInt64.le_iff_toNat_le, toNat_millis64_of_lt hfits,
    toNat_millis64_of_lt (Nat.lt_of_le_of_lt hle hfits)]
  exact hle

theorem ofMillis_pos_iff {ms : UInt64} : 0 < (ofMillis ms).nanos ↔ 0 < ms.toNat :=
  Nat.mul_pos_iff_of_pos_right (by decide)

end Duration

def Settings.mostMillis : Nat := UInt64.size - 1

/-- The count says how long the duration is, to the millisecond if that many can be counted, and
else by the largest count. -/
structure Tells (ms : UInt64) (d : Duration) : Prop where
  near : d.nanos ≤ Settings.mostMillis * 1000000 →
    d.nanos < ms.toNat * 1000000 + 1000000 ∧ ms.toNat * 1000000 < d.nanos + 1000000
  capped : Settings.mostMillis * 1000000 < d.nanos → ms.toNat = Settings.mostMillis

section
variable {d : Duration}

theorem tells_of_lt (h : d.millis < UInt64.size) : Tells d.millis64 d := by
  have hms := Duration.toNat_millis64_of_lt h
  unfold Duration.millis at h hms
  unfold UInt64.size at h
  constructor <;> unfold Settings.mostMillis UInt64.size <;> omega

theorem nanos_of_size_le (h : UInt64.size ≤ d.millis) :
    Settings.mostMillis * 1000000 < d.nanos := by
  unfold Duration.millis UInt64.size at h
  unfold Settings.mostMillis UInt64.size
  omega

theorem tells_millis64_iff : Tells d.millis64 d ↔
    d.millis < UInt64.size ∨ d.millis % UInt64.size = Settings.mostMillis := by
  by_cases hlt : d.millis < UInt64.size
  · exact ⟨fun _ => .inl hlt, fun _ => tells_of_lt hlt⟩
  · have hlong := nanos_of_size_le (Nat.le_of_not_lt hlt)
    rw [← Duration.toNat_millis64]
    constructor
    · intro h
      exact .inr (h.capped hlong)
    · rintro (h | h)
      · exact absurd h hlt
      · exact ⟨fun hnear => absurd hnear (Nat.not_le.mpr hlong), fun _ => h⟩

end

inductive Timeout where
  | idle
  | max

def Options.timeout (o : Options) : Timeout → Duration
  | .idle => o.idleTimeout
  | .max => o.maxTimeout

def Settings.timeoutMs (s : Settings) : Timeout → UInt64
  | .idle => s.idleTimeoutMs
  | .max => s.maxTimeoutMs

namespace Options
variable {o : Options} {warnings : List LogEntry}

@[simp] theorem timeoutMs_settings (o : Options) (t : Timeout) :
    o.settings.timeoutMs t = (o.timeout t).millis64 := by
  cases t <;> rfl

theorem settings_validate_eq_ok_iff (hv : o.validate = .ok warnings) :
    (∃ more, o.settings.validate = .ok more) ↔ ¬UInt64.size ∣ o.maxTimeout.millis := by
  have hworkable := validate_eq_ok_iff.mp ⟨warnings, hv⟩
  have hpos : 0 < o.settings.maxTimeout.nanos ↔ ¬UInt64.size ∣ o.maxTimeout.millis := by
    rw [Settings.maxTimeout, Duration.ofMillis_pos_iff, settings, Duration.toNat_millis64,
      Nat.dvd_iff_mod_eq_zero, Nat.pos_iff_ne_zero]
  rw [Settings.validate_eq_ok_iff, ← hpos]
  exact ⟨fun h => h.time, fun h => ⟨hworkable.worker, h⟩⟩

/-- The settings of valid options are valid but where the longest wait is cut to nothing, and tell
each timeout but where its count of milliseconds starts again. Up to there the settings of a longer
timeout are no shorter. -/
theorem settings_of_valid (hv : o.validate = .ok warnings) :
    ((∃ more, o.settings.validate = .ok more) ↔ ¬UInt64.size ∣ o.maxTimeout.millis) ∧
    ∀ t : Timeout,
      (Tells (o.settings.timeoutMs t) (o.timeout t) ↔
        (o.timeout t).millis < UInt64.size ∨
          (o.timeout t).millis % UInt64.size = Settings.mostMillis) ∧
      ∀ o' : Options, o.timeout t ≤ o'.timeout t → (o'.timeout t).millis < UInt64.size →
        o.settings.timeoutMs t ≤ o'.settings.timeoutMs t := by
  refine ⟨settings_validate_eq_ok_iff hv, fun t => ⟨?_, fun o' hle hfits => ?_⟩⟩
  · rw [timeoutMs_settings]
    exact tells_millis64_iff
  · rw [timeoutMs_settings, timeoutMs_settings]
    exact Duration.millis64_mono hle hfits

theorem settings_of_valid_of_fraction :
    let o : Options := { idleTimeout := .ofNanos 2500000 }
    o.validate = .ok [] ∧ (∃ more, o.settings.validate = .ok more) ∧
      Tells (o.settings.timeoutMs .idle) (o.timeout .idle) ∧
      o.settings.timeoutMs .idle ≤ ({} : Options).settings.timeoutMs .idle := by
  let o : Options := { idleTimeout := .ofNanos 2500000 }
  have hv : o.validate = .ok [] := by rfl
  obtain ⟨hvalid, htells⟩ := settings_of_valid hv
  refine ⟨hv, hvalid.mpr (by decide), (htells .idle).1.mpr (.inl (by decide)), ?_⟩
  exact (htells .idle).2 {} (by decide) (by decide)

/-- At `2 ^ 64` milliseconds the longest wait of valid options is none in their settings, which are
refused, although the options ask for a longer one than the default. Half a millisecond is none in
the settings too. -/
theorem settings_cut :
    let o : Options := { maxTimeout := .ofParts 18446744073709551 616000000 }
    let o' : Options := { idleTimeout := .zero, maxTimeout := .ofNanos 500000 }
    let refused : Error := .configuration "max_timeout must be greater than zero"
      { fieldPath := some "max_timeout", source := some "batcher" }
    (o.validate = .ok [] ∧ o.settings.validate = .error refused ∧
      ¬Tells o.settings.maxTimeoutMs o.maxTimeout ∧
      ({} : Options).maxTimeout < o.maxTimeout ∧
      o.settings.maxTimeoutMs < ({} : Options).settings.maxTimeoutMs) ∧
    o'.validate = .ok [] ∧ o'.settings.validate = .error refused := by
  refine ⟨⟨by rfl, by rfl, fun h => ?_, by decide, by decide⟩, by rfl, by rfl⟩
  exact absurd (h.capped (by decide)) (by decide)

/-- Settings come back from options as they were and pass the same checks, and to apply the
settings of options a second time changes nothing. -/
theorem withSettings_settings (o : Options) (s : Settings) :
    (o.withSettings s).settings = s ∧ (o.withSettings s).validate = s.validate ∧
    let r := o.withSettings o.settings
    r.withSettings r.settings = r ∧ r.settings = o.settings := by
  have hback : ∀ s : Settings, (o.withSettings s).settings = s := by
    intro s
    simp [withSettings, settings, Settings.idleTimeout, Settings.maxTimeout]
  refine ⟨hback s, rfl, ?_, hback o.settings⟩
  rw [hback o.settings]
  rfl

end Options

end Coalesce
