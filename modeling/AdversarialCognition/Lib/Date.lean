import Mathlib.Data.Prod.Lex
import Mathlib.Order.Lattice

/-!
# Calendar dates

`datetime.date` in the proleptic Gregorian calendar, years 1 to 9999. The constructor's range
checks are fields, and dates are compared as the triples (year, month, day).

There is no arithmetic on dates here, as the sources do none: they compare dates, print them and
read them. The order is a linear order by way of the triples, so whatever is known of linear
orders is known of dates.
-/

namespace Py

/-- `calendar.isleap` -/
def isLeap (year : ℕ) : Bool := year % 4 = 0 ∧ (year % 100 ≠ 0 ∨ year % 400 = 0)

def daysInMonth (year month : ℕ) : ℕ :=
  if month = 2 then (if isLeap year then 29 else 28)
  else if month = 4 ∨ month = 6 ∨ month = 9 ∨ month = 11 then 30
  else 31

/-- A date of the calendar. The range of each component is carried along, so there is no date of
    which the printed text would not be read back. -/
structure Date where
  year : ℕ
  month : ℕ
  day : ℕ
  yearOk : 1 ≤ year ∧ year ≤ 9999
  monthOk : 1 ≤ month ∧ month ≤ 12
  dayOk : 1 ≤ day ∧ day ≤ daysInMonth year month
  deriving DecidableEq

namespace Date

/-- What two dates are compared by. -/
def key (d : Date) : ℕ ×ₗ ℕ ×ₗ ℕ := toLex (d.year, toLex (d.month, d.day))

theorem key_injective : Function.Injective key := by
  rintro ⟨y, m, d, _, _, _⟩ ⟨y', m', d', _, _, _⟩ h
  simp only [key, EmbeddingLike.apply_eq_iff_eq, Prod.mk.injEq] at h
  obtain ⟨rfl, rfl, rfl⟩ := h
  rfl

/-- `date(year, month, day)` of three literals. That they make a date is decided where they are
    written. -/
def lit (year month day : ℕ)
    (ok : (1 ≤ year ∧ year ≤ 9999) ∧ (1 ≤ month ∧ month ≤ 12) ∧
      1 ≤ day ∧ day ≤ daysInMonth year month := by decide) : Date :=
  ⟨year, month, day, ok.1, ok.2.1, ok.2.2⟩

instance : LinearOrder Date := LinearOrder.lift' key key_injective

end Date

end Py
