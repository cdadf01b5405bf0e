import Rollout.Time.Instant
import Mathlib.Tactic.IntervalCases

/-! The civil calendar. A number of days has one valid date, from which it is found again. The years begin in
March; a cycle has four centuries, a century has 25 groups of four years, less a day for the first three. -/

namespace Rollout.Time

/-- The day `e` of a cycle: century, group and year in which it lies, and its place in that year. -/
structure Cycle (e c q k d : Int) : Prop where
  century : 0 ≤ c ∧ c ≤ 3
  group : 0 ≤ q ∧ q ≤ 24
  year : 0 ≤ k ∧ k ≤ 3
  day : 0 ≤ d ∧ d ≤ 365
  leap : d = 365 → k = 3 ∧ (q = 24 → c = 3)
  total : e = 36524 * c + 1461 * q + 365 * k + d

variable {e c q k d : Int}

theorem exists_cycle (h : 0 ≤ e) (h' : e < 146097) (hc : c = e / 36524 - e / 146096) :
    ∃ q k d, Cycle e c q k d := by
  obtain ⟨q, hq⟩ : ∃ q, q = (e - 36524 * c) / 1461 := ⟨_, rfl⟩
  obtain ⟨r, hr⟩ : ∃ r, r = e - 36524 * c - 1461 * q := ⟨_, rfl⟩
  obtain ⟨k, hk⟩ : ∃ k, k = r / 365 - r / 1460 := ⟨_, rfl⟩
  have hcentury : 0 ≤ c ∧ c ≤ 3 ∧ 0 ≤ e - 36524 * c ∧ e - 36524 * c ≤ 36524 ∧
      (e - 36524 * c = 36524 → c = 3) := by omega
  have hgroup : 0 ≤ r ∧ r ≤ 1460 := by omega
  refine ⟨q, k, r - 365 * k, ?_, ?_, ?_, ?_, ?_, ?_⟩ <;> omega

theorem Cycle.yearOfEra_eq (h : Cycle e c q k d) (hc : c = e / 36524 - e / 146096) :
    (e - e / 1460 + e / 36524 - e / 146096) / 365 = 100 * c + 4 * q + k := by
  obtain ⟨hcentury, hgroup, hyear, hday, hleap, htotal⟩ := h
  -- one day for each 1460 is taken off; for the last group that day has come only when a leap year ends
  have hdays : e / 1460 = 25 * c + q + if 1460 ≤ 24 * c + q + 365 * k + d then 1 else 0 := by
    split <;> omega
  have hsum : e - e / 1460 + e / 36524 - e / 146096 = 365 * (100 * c + 4 * q + k) +
      (d - if 1460 ≤ 24 * c + q + 365 * k + d then 1 else 0) := by omega
  rw [hsum]
  split <;> omega

theorem Cycle.dayOfYear_eq (h : Cycle e c q k d) {w : Int} (hw : w = 100 * c + 4 * q + k) :
    e - (365 * w + w / 4 - w / 100) = d := by
  obtain ⟨hcentury, hgroup, hyear, hday, hleap, htotal⟩ := h
  have hfours : w / 4 = 25 * c + q := by omega
  have hcenturies : w / 100 = c := by omega
  omega

theorem Cycle.isLeap_of_last (h : Cycle e c q k 365) {w : Int} (hw : w = 100 * c + 4 * q + k) (era : Int) :
    isLeap (w + era * 400 + 1) = true := by
  obtain ⟨hk, hq⟩ := h.leap rfl
  have hfour : (w + era * 400 + 1) % 4 = 0 := by omega
  have hbounds := h.group
  have hcentury : (w + era * 400 + 1) % 100 ≠ 0 ∨ (w + era * 400 + 1) % 400 = 0 := by omega
  simpa [isLeap, hfour] using hcentury

/-- A date by the year that began in March, the days since then and the months since then. -/
structure Place (days y d m : Int) : Prop where
  total : days = y / 400 * 146097 + (y % 400 * 365 + y % 400 / 4 - y % 400 / 100 + d) - 719468
  day : 0 ≤ d ∧ d ≤ 365
  leap : d = 365 → isLeap (y + 1) = true
  month : m = (5 * d + 2) / 153
  date : Date.ofDays days =
    ⟨if m < 10 then y else y + 1, (if m < 10 then m + 3 else m - 9).toNat, (d - (153 * m + 2) / 5 + 1).toNat⟩

theorem exists_place (days : Int) : ∃ y d m, Place days y d m := by
  obtain ⟨era, hera⟩ : ∃ era, era = (days + 719468) / 146097 := ⟨_, rfl⟩
  obtain ⟨e, he⟩ : ∃ e, e = (days + 719468) % 146097 := ⟨_, rfl⟩
  obtain ⟨c, hc⟩ : ∃ c, c = e / 36524 - e / 146096 := ⟨_, rfl⟩
  obtain ⟨q, k, d, hcycle⟩ := exists_cycle (by omega) (by omega) hc
  have hyear := hcycle.yearOfEra_eq hc
  obtain ⟨w, hw⟩ : ∃ w, w = 100 * c + 4 * q + k := ⟨_, rfl⟩
  have hday := hcycle.dayOfYear_eq hw
  have hrange : 0 ≤ w ∧ w ≤ 399 := by
    have := hcycle.century
    have := hcycle.group
    have := hcycle.year
    omega
  obtain ⟨m, hm⟩ : ∃ m, m = (5 * d + 2) / 153 := ⟨_, rfl⟩
  refine ⟨w + era * 400, d, m, ?_, hcycle.day, fun hd => ?_, hm, ?_⟩
  · have hdiv : (w + era * 400) / 400 = era := by omega
    have hmod : (w + era * 400) % 400 = w := by omega
    rw [hdiv, hmod]
    omega
  · subst hd
    exact hcycle.isLeap_of_last hw era
  · rw [Date.ofDays, ← hera, ← he, hyear, ← hw, hday, ← hm]
    have hmonth := hcycle.day
    by_cases h : m < 10
    · have hlarge : ¬ (m + 3).toNat ≤ 2 := by omega
      simp [h, hlarge]
    · have hsmall : (m - 9).toNat ≤ 2 := by omega
      simp [h, hsmall]

section Place

variable {days y m : Int}

/-- Months from March on, and the days before and in each of them. -/
theorem Place.month_bounds (h : Place days y d m) :
    0 ≤ m ∧ m ≤ 11 ∧ (153 * m + 2) / 5 ≤ d ∧ d < (153 * (m + 1) + 2) / 5 := by
  have hday := h.day
  have hmonth := h.month
  omega

theorem Place.toDays_eq (h : Place days y d m) : (Date.ofDays days).toDays = days := by
  have htotal := h.total
  obtain ⟨hm, hm', hfirst, -⟩ := h.month_bounds
  have hday : ((d - (153 * m + 2) / 5 + 1).toNat : Int) = d - (153 * m + 2) / 5 + 1 := by omega
  rw [h.date, Date.toDays]
  by_cases hlt : m < 10
  · have hmonth : ((m + 3).toNat : Int) = m + 3 := by omega
    have hlarge : ¬ (m + 3).toNat ≤ 2 := by omega
    simp only [hlt, if_true, hlarge, if_false, Nat.not_le.mp hlarge, hmonth, hday]
    omega
  · have hmonth : ((m - 9).toNat : Int) = m - 9 := by omega
    have hsmall : (m - 9).toNat ≤ 2 := by omega
    simp only [hlt, if_false, hsmall, if_true, Nat.not_lt.mpr hsmall, hmonth, hday]
    omega

theorem Place.valid (h : Place days y d m)
    (hyear : 0 ≤ (Date.ofDays days).year ∧ (Date.ofDays days).year ≤ 9999) : (Date.ofDays days).Valid := by
  have hleap := h.leap
  have hday := h.day
  obtain ⟨hm, hm', hfirst, hlast⟩ := h.month_bounds
  rw [h.date] at hyear ⊢
  refine ⟨by omega, by omega, ?_, ?_, ?_, ?_⟩
  · dsimp only
    omega
  · dsimp only
    omega
  · dsimp only
    omega
  · dsimp only
    by_cases hfebruary : m = 11
    · subst hfebruary
      have hlength : monthLength (y + 1) 2 = if isLeap (y + 1) then 29 else 28 := rfl
      change (d - 337 + 1).toNat ≤ monthLength (y + 1) 2
      rw [hlength]
      split
      · omega
      · next hno =>
        have hshort : d ≠ 365 := fun hd => hno (hleap hd)
        omega
    · have hm' : m ≤ 10 := by omega
      interval_cases m <;> simp [monthLength] <;> omega

/-- The years of four digits begin on the first day of the year 0 and end before the year 10000. -/
theorem Place.year_bounds (h : Place days y d m)
    (hdays : (⟨0, 1, 1⟩ : Date).toDays ≤ days ∧ days < (⟨10000, 1, 1⟩ : Date).toDays) :
    0 ≤ (Date.ofDays days).year ∧ (Date.ofDays days).year ≤ 9999 := by
  have hfrom : (⟨0, 1, 1⟩ : Date).toDays = -719528 := rfl
  have huntil : (⟨10000, 1, 1⟩ : Date).toDays = 2932897 := rfl
  have htotal := h.total
  have hday := h.day
  obtain ⟨hm, hm', hfirst, hlast⟩ := h.month_bounds
  have hleapDays : 0 ≤ y % 400 / 4 - y % 400 / 100 ∧ y % 400 / 4 - y % 400 / 100 ≤ 96 := by omega
  rw [hfrom, huntil] at hdays
  rw [h.date]
  have hbefore : y < 0 → y / 400 ≤ -1 := by omega
  have hlater : 10000 ≤ y → 25 ≤ y / 400 := by omega
  -- January and February lie behind the 306 days from March to December
  by_cases hlt : m < 10
  · have hearly : d < 306 := by omega
    rw [if_pos hlt]
    dsimp only
    refine ⟨?_, ?_⟩ <;> by_contra hyear <;> omega
  · have hlate : 306 ≤ d := by omega
    rw [if_neg hlt]
    dsimp only
    refine ⟨?_, ?_⟩ <;> by_contra hyear <;> omega

end Place

/-- The date of a day is the only one that this day has. -/
theorem toDays_ofDays (days : Int) : (Date.ofDays days).toDays = days := by
  obtain ⟨y, d, m, h⟩ := exists_place days
  exact h.toDays_eq

end Rollout.Time
