import Mathlib.Tactic.Linarith
import TableAudit.Calendar.Moment

/-!
# Days of the calendar and their numbers

Every number between the first and the last day is the number of exactly one date, which the
search by years and then by months finds: it begins at a year that is not too late, and makes more
steps than the year can be away. So a moment can be found from the microseconds on its clock as
long as they lie in the years of the calendar, and has just these microseconds.
-/

namespace TableAudit.Calendar

/-- A date that the calendar has. -/
structure Date.InCalendar (d : Date) : Prop where
  year_pos : 1 ≤ d.year
  year_le : d.year ≤ 9999
  month_pos : 1 ≤ d.month
  month_le : d.month ≤ 12
  day_pos : 1 ≤ d.day
  day_le : d.day ≤ daysInMonth d.year d.month

namespace Date

variable {d : Date} {n y month fuel : Nat}

theorem mk?_eq (h : d.InCalendar) : Date.mk? d.year d.month d.day = some d := by
  rw [mk?, if_pos ⟨h.year_pos, h.year_le, h.month_pos, h.month_le, h.day_pos, h.day_le⟩]

theorem isLeap_iff : isLeap y = true ↔ y % 4 = 0 ∧ (y % 100 ≠ 0 ∨ y % 400 = 0) := by
  simp [isLeap]

theorem daysBeforeYear_step (hy : 1 ≤ y) :
    daysBeforeYear (y + 1) = daysBeforeYear y + daysInYear y := by
  obtain ⟨z, rfl⟩ : ∃ z, y = z + 1 := ⟨y - 1, by omega⟩
  simp only [daysBeforeYear, daysInYear, isLeap_iff, Nat.add_sub_cancel]
  -- each of the quotients grows where the year is a multiple
  have h4 : (z + 1) / 4 = z / 4 + if 4 ∣ z + 1 then 1 else 0 := Nat.succ_div
  have h100 : (z + 1) / 100 = z / 100 + if 100 ∣ z + 1 then 1 else 0 := Nat.succ_div
  have h400 : (z + 1) / 400 = z / 400 + if 400 ∣ z + 1 then 1 else 0 := Nat.succ_div
  have hle : z / 100 ≤ z / 4 := Nat.div_le_div_left (by decide) (by decide)
  simp only [Nat.dvd_iff_mod_eq_zero] at h4 h100 h400
  split at h4 <;> split at h100 <;> split at h400 <;> split <;> omega

theorem daysBeforeMonth_step (hm : 1 ≤ month) :
    daysBeforeMonth y (month + 1) = daysBeforeMonth y month + daysInMonth y month := by
  obtain ⟨m, rfl⟩ : ∃ m, month = m + 1 := ⟨month - 1, by omega⟩
  rfl

/-- The months make up the year. -/
theorem daysBeforeMonth_twelve (y : Nat) : daysBeforeMonth y 12 + 31 = daysInYear y := by
  simp only [daysBeforeMonth, daysInMonth, daysInYear]
  cases isLeap y <;> rfl

/-- The search for the year ends at the last one that begins before the day ends, if it begins at
an earlier one and is long enough. -/
theorem yearOfDay_spec (hy : daysBeforeYear y < n) (hend : n ≤ daysBeforeYear (y + fuel + 1)) :
    daysBeforeYear (yearOfDay n fuel y) < n ∧ n ≤ daysBeforeYear (yearOfDay n fuel y + 1) ∧
      y ≤ yearOfDay n fuel y := by
  induction fuel generalizing y with
  | zero => exact ⟨hy, hend, le_rfl⟩
  | succ fuel ih =>
      rw [yearOfDay]
      split
      next h =>
        obtain ⟨h1, h2, h3⟩ := ih h (by rwa [show y + 1 + fuel + 1 = y + (fuel + 1) + 1 by omega])
        exact ⟨h1, h2, by omega⟩
      next h => exact ⟨hy, not_lt.mp h, le_rfl⟩

/-- The search for the month keeps count of the days that lie before. -/
theorem monthOfDay_spec {r : Nat × Nat} (hr : monthOfDay y n fuel month = r) (hm : 1 ≤ month)
    (hn : 1 ≤ n) : daysBeforeMonth y r.1 + r.2 = daysBeforeMonth y month + n ∧ 1 ≤ r.2 ∧
      month ≤ r.1 ∧ r.1 ≤ month + fuel ∧ (r.2 ≤ daysInMonth y r.1 ∨ r.1 = month + fuel) := by
  induction fuel generalizing n month with
  | zero =>
      cases hr
      exact ⟨rfl, hn, le_rfl, le_rfl, Or.inr rfl⟩
  | succ fuel ih =>
      rw [monthOfDay] at hr
      split at hr
      next h =>
        cases hr
        exact ⟨rfl, hn, le_rfl, by simp only; omega, Or.inl h⟩
      next h =>
        have hstep := daysBeforeMonth_step (y := y) hm
        obtain ⟨h1, h2, h3, h4, h5⟩ := ih hr (by omega) (by omega)
        exact ⟨by omega, h2, by omega, by omega, h5.imp_right fun h => by omega⟩

/-- The year in which the search begins is not too late, and the year of the day is not more steps
away than it makes. -/
theorem year_range (h1 : 1 ≤ n) (h2 : n ≤ lastDayNumber) :
    daysBeforeYear (max (n / 366) 1) < n ∧
      n ≤ daysBeforeYear (max (n / 366) 1 + (n / 100000 + 2) + 1) := by
  simp only [daysBeforeYear, lastDayNumber] at *
  omega

theorem ofDayNumber_spec (h1 : 1 ≤ n) (h2 : n ≤ lastDayNumber) :
    (ofDayNumber n).InCalendar ∧ (ofDayNumber n).dayNumber = n := by
  obtain ⟨hstart, hend⟩ := year_range h1 h2
  obtain ⟨hlow, hhigh, hyear⟩ := yearOfDay_spec hstart hend
  obtain ⟨y, hy⟩ : ∃ y, y = yearOfDay n (n / 100000 + 2) (max (n / 366) 1) := ⟨_, rfl⟩
  rw [← hy] at hlow hhigh hyear
  have hpos : 1 ≤ y := le_trans (le_max_right _ _) hyear
  have hlength := daysBeforeYear_step hpos
  obtain ⟨⟨month, d⟩, hr⟩ : ∃ r, monthOfDay y (n - daysBeforeYear y) 11 1 = r := ⟨_, rfl⟩
  obtain ⟨hsum, hday, hfirst, hlast, hfit⟩ := monthOfDay_spec hr le_rfl (by omega)
  have hdate : ofDayNumber n = ⟨y, month, d⟩ := by
    rw [ofDayNumber, ← hy, hr]
  rw [hdate]
  simp only at hsum hday hfirst hlast hfit
  have hjanuary : daysBeforeMonth y 1 = 0 := rfl
  have hlast_year : y ≤ 9999 := by
    by_contra h
    have hlate : daysBeforeYear 10000 ≤ daysBeforeYear y := by
      simp only [daysBeforeYear]
      omega
    have hend : daysBeforeYear 10000 = lastDayNumber := rfl
    omega
  have hfits : d ≤ daysInMonth y month := by
    obtain h | rfl := hfit
    · exact h
    · have hdecember : daysBeforeMonth y (1 + 11) + 31 = daysInYear y := daysBeforeMonth_twelve y
      have hlong : daysInMonth y (1 + 11) = 31 := rfl
      omega
  exact ⟨⟨hpos, hlast_year, hfirst, hlast, hday, hfits⟩, by simp only [dayNumber]; omega⟩

theorem ofDayNumber?_isSome_iff {n : Int} :
    (ofDayNumber? n).isSome = true ↔ 1 ≤ n ∧ n ≤ lastDayNumber := by
  unfold ofDayNumber?
  split <;> simp_all

theorem ofDayNumber?_spec {n : Int} (h : ofDayNumber? n = some d) :
    d.InCalendar ∧ (d.dayNumber : Int) = n := by
  unfold ofDayNumber? at h
  split at h
  next hn =>
    cases h
    obtain ⟨hcalendar, hnumber⟩ := ofDayNumber_spec (n := n.toNat) (by omega) (by omega)
    exact ⟨hcalendar, by omega⟩
  next => cases h

end Date

/-! ### Moments -/

/-- A moment that the calendar has. -/
structure Moment.InCalendar (m : Moment) : Prop where
  date : m.date.InCalendar
  micros_lt : m.micros < day
  offset_lt : ∀ o ∈ m.offset, o.natAbs < day

/-- The microseconds on a clock, counted from the epoch, that lie in the years of the calendar. -/
def InYears (t : Int) : Prop :=
  -62135596800000000 ≤ t ∧ t < 253402300800000000

instance (t : Int) : Decidable (InYears t) :=
  inferInstanceAs (Decidable (_ ∧ _))

namespace Moment

variable {m : Moment} {t : Int} {offset : Option Int}

theorem localMicros_ofLocalMicros? (h : ofLocalMicros? t offset = some m) :
    m.date.InCalendar ∧ m.micros < day ∧ m.localMicros = t ∧ m.offset = offset := by
  simp only [ofLocalMicros?, Option.map_eq_some_iff] at h
  obtain ⟨d, hd, rfl⟩ := h
  obtain ⟨hdate, hnumber⟩ := Date.ofDayNumber?_spec hd
  have hday : (0 : Int) < day := by decide
  have hmod := Int.fmod_nonneg_of_pos t hday
  have hlt := Int.fmod_lt_of_pos t hday
  have hsplit := Int.fmod_add_mul_fdiv t day
  have hmicros : ((t.fmod day).toNat : Int) = t.fmod day := Int.toNat_of_nonneg hmod
  refine ⟨hdate, by simp only; omega, ?_, rfl⟩
  simp only [localMicros, hnumber, hmicros]
  rw [add_sub_cancel_right, mul_comm, add_comm]
  exact hsplit

/-- Moved on, a clock shows an instant that is as much later. -/
theorem instant?_later {later : Moment} {d o : Int} (h : m.later? d = some later)
    (ho : m.offset = some o) : later.instant? = some (m.localMicros - o + d) := by
  obtain ⟨-, -, hmicros, hoffset⟩ := localMicros_ofLocalMicros? h
  rw [instant?, hoffset, ho, Option.map_some, hmicros]
  congr 1
  omega

/-- A clock can show the moments in the years of the calendar, and no others. -/
theorem ofLocalMicros?_isSome_iff : (ofLocalMicros? t offset).isSome = true ↔ InYears t := by
  rw [ofLocalMicros?, Option.isSome_map, Date.ofDayNumber?_isSome_iff]
  simp only [InYears, Int.fdiv_eq_ediv, day, second, epochDay, lastDayNumber]
  omega

end Moment

end TableAudit.Calendar
