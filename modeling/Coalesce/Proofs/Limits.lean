import Coalesce.Engine.Basic

/-! # Limits

Which options and settings are valid, said without the checks, and what is built of the options.
Validation asks for a worker, but not that a pool can have as many slots as there are to be
workers. -/
namespace Coalesce

/-- There is a worker, and a batch does not have to close at once. -/
structure Workable (max : Duration) (workers : UInt64) : Prop where
  worker : 0 < workers.toNat
  time : 0 < max.nanos

variable {name : String} {idle max : Duration} {workers : UInt64} {o : Options} {s : Settings}

theorem toNat_pos_iff : 0 < workers.toNat ↔ ¬workers = 0 := by
  rw [Nat.pos_iff_ne_zero, ← UInt64.toNat_zero, Ne, UInt64.toNat_inj]

theorem nanos_pos_iff : 0 < max.nanos ↔ ¬max.isZero = true := by
  rw [Nat.pos_iff_ne_zero, Duration.isZero, beq_iff_eq]

theorem checkLimits_eq_ok_iff :
    (∃ warnings, checkLimits name idle max workers = .ok warnings) ↔ Workable max workers := by
  constructor
  · rintro ⟨warnings, h⟩
    by_cases hw : workers = 0
    · simp [checkLimits, hw] at h
    · by_cases hm : max.isZero = true
      · simp [checkLimits, hw, hm] at h
      · exact ⟨toNat_pos_iff.mpr hw, nanos_pos_iff.mpr hm⟩
  · rintro ⟨hw, hm⟩
    rw [checkLimits, if_neg (toNat_pos_iff.mp hw), if_neg (nanos_pos_iff.mp hm)]
    by_cases hlonger : max < idle
    · rw [if_pos hlonger]
      exact ⟨_, rfl⟩
    · rw [if_neg hlonger]
      exact ⟨_, rfl⟩

theorem Options.validate_eq_ok_iff :
    (∃ warnings, o.validate = .ok warnings) ↔ Workable o.maxTimeout o.maxRequestWorkers :=
  checkLimits_eq_ok_iff

theorem Settings.validate_eq_ok_iff :
    (∃ warnings, s.validate = .ok warnings) ↔ Workable s.maxTimeout s.maxRequestWorkers :=
  checkLimits_eq_ok_iff

namespace Engine
variable {α β : Type}

def fresh (o : Options) : Engine α β where
  name := o.name
  idle := o.idleTimeout
  max := o.maxTimeout
  pool := { max := o.maxRequestWorkers.toNat, available := o.maxRequestWorkers.toNat }

theorem create?_of_pos {n : Nat} (hn : 0 < n) : Pool.create? n =
    if n ≤ Pool.mostSlots then some { max := n, available := n } else none := by
  simp only [Pool.create?, if_neg (Nat.ne_of_gt hn)]

/-- Building either says what is wrong with the options, or makes an engine that is as good as new,
or finds that no pool can have so many slots. -/
theorem build_cases (o : Options) :
    (∃ error, o.validate = .error error ∧ ¬Workable o.maxTimeout o.maxRequestWorkers ∧
      (build o : Except BuildFault (Engine α β × List LogEntry)) = .error (.invalid error)) ∨
    (Workable o.maxTimeout o.maxRequestWorkers ∧
      o.maxRequestWorkers.toNat ≤ Pool.mostSlots ∧
      ∃ log, (build o : Except BuildFault (Engine α β × List LogEntry)) = .ok (fresh o, log)) ∨
    (Workable o.maxTimeout o.maxRequestWorkers ∧
      Pool.mostSlots < o.maxRequestWorkers.toNat ∧
      (build o : Except BuildFault (Engine α β × List LogEntry)) = .error .tooManyWorkers) := by
  cases hv : o.validate with
  | error error =>
    have hnot : ¬Workable o.maxTimeout o.maxRequestWorkers := by
      intro hworkable
      obtain ⟨warnings, hok⟩ := Options.validate_eq_ok_iff.mpr hworkable
      rw [hv] at hok
      cases hok
    exact .inl ⟨error, rfl, hnot, by rw [build, hv]⟩
  | ok warnings =>
    have hworkable := Options.validate_eq_ok_iff.mp ⟨warnings, hv⟩
    have hpool := create?_of_pos hworkable.worker
    by_cases hle : o.maxRequestWorkers.toNat ≤ Pool.mostSlots
    · rw [if_pos hle] at hpool
      exact .inr (.inl ⟨hworkable, hle, _, by rw [build, hv, hpool]; rfl⟩)
    · rw [if_neg hle] at hpool
      exact .inr (.inr ⟨hworkable, Nat.lt_of_not_le hle, by rw [build, hv, hpool]⟩)

/-- Options that are refused build nothing, and what is wrong with them is said. Of all others an
engine is built that has every worker free, if a pool can have so many slots, and nothing if it
cannot. -/
theorem build_guarded (o : Options) :
    (∀ error, (build o : Except BuildFault (Engine α β × List LogEntry)) = .error (.invalid error) ↔
      o.validate = .error error) ∧
    ((∃ warnings, o.validate = .ok warnings) ↔ Workable o.maxTimeout o.maxRequestWorkers) ∧
    ((∃ (e : Engine α β) (log : _), build o = .ok (e, log) ∧
        e.stats.maxWorkers = o.maxRequestWorkers.toNat ∧
        e.stats.availableWorkers = o.maxRequestWorkers.toNat ∧ e.stats.workersInUse = 0) ↔
      Workable o.maxTimeout o.maxRequestWorkers ∧
        o.maxRequestWorkers.toNat ≤ Pool.mostSlots) ∧
    ((build o : Except BuildFault (Engine α β × List LogEntry)) = .error .tooManyWorkers ↔
      Workable o.maxTimeout o.maxRequestWorkers ∧
        Pool.mostSlots < o.maxRequestWorkers.toNat) := by
  rcases @build_cases α β o with
    ⟨error, hv, hnot, hbuild⟩ | ⟨hworkable, hle, log, hbuild⟩ | ⟨hworkable, hlt, hbuild⟩
  · simp [hbuild, hv, hnot]
  · obtain ⟨warnings, hv⟩ := Options.validate_eq_ok_iff.mpr hworkable
    have hstats : (fresh o : Engine α β).stats.workersInUse = 0 := Nat.sub_self _
    refine ⟨by simp [hbuild, hv], Options.validate_eq_ok_iff, ?_, ?_⟩
    · exact ⟨fun _ => ⟨hworkable, hle⟩, fun _ => ⟨fresh o, log, hbuild, rfl, rfl, hstats⟩⟩
    · simp [hbuild, Nat.not_lt.mpr hle]
  · obtain ⟨warnings, hv⟩ := Options.validate_eq_ok_iff.mpr hworkable
    refine ⟨by simp [hbuild, hv], Options.validate_eq_ok_iff, ?_, ?_⟩
    · simp [hbuild, Nat.not_le.mpr hlt]
    · simp [hbuild, hworkable, hlt]

/-- More workers than a pool can have slots pass validation, and still no engine is built. -/
theorem unbuilt_of_valid :
    let o : Options := { maxRequestWorkers := 2305843009213693952 }
    o.validate = .ok [] ∧
    (build o : Except BuildFault (Engine String String × List LogEntry)) =
      .error .tooManyWorkers := by
  refine ⟨by rfl, by rfl⟩

end Engine

end Coalesce
