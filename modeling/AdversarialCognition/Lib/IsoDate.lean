import AdversarialCognition.Lib.Date
import AdversarialCognition.Lib.Str
import Mathlib.Tactic.Ring

/-!
# Dates as text

`date.isoformat` and `date.fromisoformat`. The second reads the three complete forms of ISO 8601,
with dashes or without: a year, month and day; a year, week and weekday; and a year and week,
which is its Monday. Every other text is refused with `ValueError`, here `none`.

The round trip is in the direction that the sources use (`fromisoformat_isoformat`): what was
printed is read back. In the other direction it fails by design, as the example at the end shows,
since several texts are read as one date.

The weeks are written out, although no corpus has them, because what is refused matters as much as
what is read. A loader that raises on a text with a week would be another loader.
-/

namespace Py

namespace Date

open Str (hexDigit)

/-- `date(year, month, day)`, where out of range is `ValueError`. -/
def ofYmd (year month day : ℕ) : Option Date :=
  if h : (1 ≤ year ∧ year ≤ 9999) ∧ (1 ≤ month ∧ month ≤ 12) ∧
      1 ≤ day ∧ day ≤ daysInMonth year month then
    some (lit year month day h)
  else none

theorem ofYmd_self (d : Date) : ofYmd d.year d.month d.day = some d := by
  rw [ofYmd, dif_pos ⟨d.yearOk, d.monthOk, d.dayOk⟩]
  rfl

/-!
## ISO weeks

The calendar of weeks: a year begins with the week of its first Thursday, and has 52 of them or
53.
-/

/-- The weekday of the first of January, with 0 for Monday. -/
def firstWeekday (year : ℕ) : ℕ :=
  let y := year - 1
  (y * 365 + y / 4 - y / 100 + y / 400) % 7

/-- `day` days after the first of the month, for as many months as there is fuel. -/
def advance : ℕ → ℕ → ℕ → ℕ → Option Date
  | 0, _, _, _ => none
  | fuel + 1, year, month, day =>
    if day < daysInMonth year month then ofYmd year month (day + 1)
    else if month = 12 then advance fuel (year + 1) 1 (day - 31)
    else advance fuel year (month + 1) (day - daysInMonth year month)

/-- Whether the year has a week 53. -/
def hasLongYear (year : ℕ) : Bool :=
  firstWeekday year = 3 ∨ (firstWeekday year = 2 ∧ isLeap year)

/-- `_isoweek_to_gregorian`: the date of a weekday in a week, where the year has that week. The
    date may lie in the year before or after. -/
def ofIsoWeek (year week day : ℕ) : Option Date :=
  if (1 ≤ year ∧ year ≤ 9999) ∧ 1 ≤ week ∧ (week ≤ 52 ∨ (week = 53 ∧ hasLongYear year)) ∧
      1 ≤ day ∧ day ≤ 7 then
    let offset := (week - 1) * 7 + (day - 1)
    let first := firstWeekday year
    -- week 1 is the one with the first Thursday, so it may begin in the year before
    if first > 3 then advance 14 year 1 (offset + (7 - first))
    else if first ≤ offset then advance 14 year 1 (offset - first)
    else advance 14 (year - 1) 12 (31 + offset - first)
  else none

/-!
## Reading

`fromisoformat` takes three formats: a month and day, a week, and a week and day, each with all of
its dashes or with none.
-/

def digit? (c : CodePoint) : Option ℕ :=
  if 0x30 ≤ c.val ∧ c.val ≤ 0x39 then some (c.val - 0x30) else none

/-- `n` digits, after those that make `acc`. -/
def digits : ℕ → ℕ → Str → Option (ℕ × Str)
  | 0, acc, s => some (acc, s)
  | _ + 1, _, [] => none
  | n + 1, acc, c :: s => do
    let d ← digit? c
    digits n (10 * acc + d) s

/-- A dash, if the text has them. -/
def dash (separated : Bool) (s : Str) : Option Str :=
  if separated then
    match s with
    | [] => none
    | c :: s => if c.val = 0x2D then some s else none
  else some s

def atEnd (s : Str) (d : Option Date) : Option Date := if s = [] then d else none

/-- What comes after the year: a week and perhaps its day, or a month and day. A text has all of
    its dashes or none. -/
def afterYear (separated : Bool) (year : ℕ) (s : Str) : Option Date :=
  if s.head? = some (CodePoint.ofChar 'W') then do
    let (week, s) ← digits 2 0 s.tail
    if s = [] then ofIsoWeek year week 1
    else do
      let s ← dash separated s
      let (day, s) ← digits 1 0 s
      atEnd s (ofIsoWeek year week day)
  else do
    let (month, s) ← digits 2 0 s
    let s ← dash separated s
    let (day, s) ← digits 2 0 s
    atEnd s (ofYmd year month day)

/-- `date.fromisoformat` -/
def fromisoformat (s : Str) : Option Date := do
  let (year, s) ← digits 4 0 s
  if s.head? = some (CodePoint.ofChar '-') then afterYear true year s.tail
  else afterYear false year s

/-!
## Writing

What `isoformat` writes is read back.
-/

/-- `n` in `width` digits. -/
def pad (width n : ℕ) : Str :=
  (List.range width).reverse.map fun i => hexDigit (n / 10 ^ i % 10)

/-- `d.isoformat()` -/
def isoformat (d : Date) : Str :=
  pad 4 d.year ++ (Str.lit "-" ++ (pad 2 d.month ++ (Str.lit "-" ++ pad 2 d.day)))

theorem val_hexDigit {n : ℕ} (hn : n < 10) : (hexDigit n).val = 0x30 + n := by
  rw [hexDigit, if_pos (by omega)]
  change (0x30 + n % 16) % 0x110000 = 0x30 + n
  omega

/-- **What is padded is read back**, and the rest of the text is left. A number with more digits
    than the width is cut to its last ones by both sides alike. -/
theorem digits_pad (width acc n : ℕ) (rest : Str) :
    digits width acc (pad width n ++ rest) = some (acc * 10 ^ width + n % 10 ^ width, rest) := by
  induction width generalizing acc with
  | zero => simp [pad, digits, Nat.mod_one]
  | succ width ih =>
    have hpad : pad (width + 1) n = hexDigit (n / 10 ^ width % 10) :: pad width n := by
      rw [pad, List.range_succ, List.reverse_append, List.map_append]
      rfl
    have hdigit : digit? (hexDigit (n / 10 ^ width % 10)) = some (n / 10 ^ width % 10) := by
      rw [digit?, val_hexDigit (Nat.mod_lt _ (by omega)), if_pos (by omega),
        Nat.add_sub_cancel_left]
    have hlast : n % 10 ^ (width + 1) = 10 ^ width * (n / 10 ^ width % 10) + n % 10 ^ width := by
      rw [pow_succ, Nat.mod_mul]
      omega
    rw [hpad, List.cons_append, digits, hdigit, Option.bind_eq_bind, Option.bind_some, ih, hlast]
    congr 2
    ring

theorem daysInMonth_le (year month : ℕ) : daysInMonth year month ≤ 31 := by
  unfold daysInMonth
  split_ifs <;> omega

/-- **A date is read back from its text.** The year has four digits because it is at most 9999,
    and no month begins with the letter of a week. -/
theorem fromisoformat_isoformat (d : Date) : fromisoformat d.isoformat = some d := by
  have hday := d.dayOk.2.trans (daysInMonth_le d.year d.month)
  have hyear : 0 * 10 ^ 4 + d.year % 10 ^ 4 = d.year := by
    have := d.yearOk.2
    omega
  have hmonth : 0 * 10 ^ 2 + d.month % 10 ^ 2 = d.month := by
    have := d.monthOk.2
    omega
  have hdays : 0 * 10 ^ 2 + d.day % 10 ^ 2 = d.day := by omega
  have hweek : (pad 2 d.month ++ (Str.lit "-" ++ pad 2 d.day)).head? ≠
      some (CodePoint.ofChar 'W') := by
    intro h
    have hval : (hexDigit (d.month / 10 ^ 1 % 10)).val = (CodePoint.ofChar 'W').val :=
      congrArg Fin.val (Option.some.inj h)
    rw [val_hexDigit (Nat.mod_lt _ (by omega)), show (CodePoint.ofChar 'W').val = 0x57 from rfl]
      at hval
    omega
  have hend : pad 2 d.day = pad 2 d.day ++ [] := (List.append_nil _).symm
  rw [isoformat, fromisoformat, digits_pad, hyear, Option.bind_eq_bind, Option.bind_some]
  change afterYear true d.year (pad 2 d.month ++ (Str.lit "-" ++ pad 2 d.day)) = some d
  rw [afterYear, if_neg hweek, digits_pad, hmonth, Option.bind_eq_bind, Option.bind_some]
  change (digits 2 0 (pad 2 d.day)).bind _ = some d
  rw [hend, digits_pad, hdays, Option.bind_some]
  exact ofYmd_self d

example : fromisoformat (Str.lit "2026-W01-1") = some (lit 2025 12 29) := by decide

end Date

end Py
