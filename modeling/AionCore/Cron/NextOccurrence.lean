import AionCore.Cron.Schedule
import Mathlib.Order.Bounds.Basic

/-!
# Cron: the next occurrence of an interval schedule

`compute_next_run_after_occurrence` on the grid of an `every` schedule: the points at whole
multiples of the interval from an occurrence.
-/

namespace AionCore.Cron

/-- The occurrences of a schedule that runs every `everyMs` and has one at `scheduledAt`. -/
def grid (scheduledAt everyMs : Int) : Set Int :=
  {t | ∃ k : Int, t = scheduledAt + k * everyMs}

/-- The occurrences after `now` have a first one. -/
theorem grid_isLeast (scheduledAt now : Int) {everyMs : Int} (hevery : 0 < everyMs) :
    IsLeast {t | t ∈ grid scheduledAt everyMs ∧ now < t}
      (scheduledAt + ((now - scheduledAt) / everyMs + 1) * everyMs) := by
  have habove := Int.lt_ediv_add_one_mul_self (now - scheduledAt) hevery
  constructor
  · refine ⟨⟨_, rfl⟩, ?_⟩
    omega
  · rintro t ⟨⟨k, rfl⟩, hk⟩
    replace hk : now < scheduledAt + k * everyMs := hk
    have hsteps : (now - scheduledAt) / everyMs < k :=
      Int.ediv_lt_of_lt_mul hevery (by omega)
    have hspan := Int.mul_le_mul_of_nonneg_right (Int.add_one_le_of_lt hsteps) hevery.le
    omega

namespace CronSchedule

theorem checked_of_le {n : Int} (hlow : -9223372036854775808 ≤ n)
    (hhigh : n ≤ 9223372036854775807) : checked n = some n :=
  if_pos ⟨hlow, hhigh⟩

/-- Without overflow the interval branch takes the first occurrence after `now`. -/
theorem computeNextRunAfterOccurrence_every (crates : CronCrates) (description : Option String)
    {everyMs scheduledAt now : Int} (hevery : 0 < everyMs) (hscheduled : 0 ≤ scheduledAt)
    (hnow : 0 ≤ now) (hscheduledFits : scheduledAt + everyMs ≤ 9223372036854775807)
    (hnowFits : now + everyMs ≤ 9223372036854775807) :
    computeNextRunAfterOccurrence crates (.every everyMs description) scheduledAt now =
      some (scheduledAt + ((now - scheduledAt) / everyMs + 1) * everyMs) := by
  have hbelow := Int.ediv_mul_le (now - scheduledAt) (Int.ne_of_gt hevery)
  have habove := Int.lt_ediv_add_one_mul_self (now - scheduledAt) hevery
  have hspan : ((now - scheduledAt) / everyMs + 1) * everyMs =
      (now - scheduledAt) / everyMs * everyMs + everyMs := by
    rw [Int.add_mul, Int.one_mul]
  have helapsed : saturatingSub now scheduledAt = now - scheduledAt := by
    rw [saturatingSub]
    omega
  rw [computeNextRunAfterOccurrence, if_neg (by omega)]
  dsimp only
  rw [helapsed, checked_of_le (by omega) (by omega), Option.bind_some,
    checked_of_le (by omega) (by omega)]

/-- The next run is the first occurrence after the one that has run and after `now`, exactly if
the clock is not behind the occurrence. -/
theorem next_occurrence_isLeast (crates : CronCrates) (description : Option String)
    {everyMs scheduledAt now : Int} (hevery : 0 < everyMs) (hscheduled : 0 ≤ scheduledAt)
    (hnow : 0 ≤ now) (hscheduledFits : scheduledAt + everyMs ≤ 9223372036854775807)
    (hnowFits : now + everyMs ≤ 9223372036854775807) :
    (∃ next, computeNextRunAfterOccurrence crates (.every everyMs description) scheduledAt now =
        some next ∧
      IsLeast {t | t ∈ grid scheduledAt everyMs ∧ max scheduledAt now < t} next) ↔
    scheduledAt ≤ now := by
  rw [computeNextRunAfterOccurrence_every crates description hevery hscheduled hnow
    hscheduledFits hnowFits]
  constructor
  · rintro ⟨next, hnext, hleast⟩
    obtain rfl := Option.some.inj hnext
    -- the steps are counted from `scheduledAt`, and there are none to a `now` before it
    by_contra hbehind
    have hsteps : (now - scheduledAt) / everyMs < 0 :=
      Int.ediv_neg_of_neg_of_pos (by omega) hevery
    have hspan := Int.mul_le_mul_of_nonneg_right (Int.add_one_le_of_lt hsteps) hevery.le
    rw [Int.zero_mul] at hspan
    have hafter := hleast.1.2
    have := lt_of_le_of_lt (le_max_left scheduledAt now) hafter
    omega
  · intro hle
    refine ⟨_, rfl, ?_⟩
    rw [max_eq_right hle]
    exact grid_isLeast scheduledAt now hevery

/-- Instance: an occurrence that has run late is followed by the next one after the clock. -/
theorem next_occurrence_isLeast_late :
    (∃ next, computeNextRunAfterOccurrence ⟨fun _ _ _ => none, fun _ _ => false⟩
        (.every 1000 none) 10000 12500 = some next ∧
      IsLeast {t | t ∈ grid 10000 1000 ∧ max 10000 12500 < t} next) ↔ (10000 : Int) ≤ 12500 :=
  next_occurrence_isLeast _ _ (by decide) (by decide) (by decide) (by decide) (by decide)

/-- The clock has moved back by a millisecond: the occurrence is scheduled again. -/
theorem occurrence_scheduled_again :
    ¬∃ next, computeNextRunAfterOccurrence ⟨fun _ _ _ => none, fun _ _ => false⟩
        (.every 1000 none) 10000 9999 = some next ∧
      IsLeast {t | t ∈ grid 10000 1000 ∧ max 10000 9999 < t} next := by
  rintro ⟨next, hnext, hleast⟩
  have hsame : computeNextRunAfterOccurrence ⟨fun _ _ _ => none, fun _ _ => false⟩
      (.every 1000 none) 10000 9999 = some 10000 := by decide
  obtain rfl := Option.some.inj (hsame.symm.trans hnext)
  exact absurd hleast.1.2 (by decide)

end CronSchedule

end AionCore.Cron
