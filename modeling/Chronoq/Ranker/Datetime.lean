import Chronoq.Foundations.Numerals
import Chronoq.Ranker.Schemas

/-! # `datetime`: timestamps and their texts

The part of Python's `datetime` that the stores use: the calendar, aware and naive timestamps at
microsecond resolution, comparison, `isoformat` and `fromisoformat`. An `Instant` is a number of
microseconds since the Unix epoch, in UTC.

* `isoformat` leaves out a fraction that is zero, and `fromisoformat` reads back what it has written
  (`fromisoformat_isoformat`). Of the texts that `fromisoformat` reads these are the only ones that the
  telemetry table holds; it is modelled on them.
* `isoformat_lt_iff`: the texts of two timestamps in UTC are ordered as the timestamps are in time. -/

namespace Chronoq.Ranker
open Foundations

set_option autoImplicit false

/-! ## The calendar -/

def isLeap (year : ℕ) : Prop := year % 4 = 0 ∧ (year % 100 ≠ 0 ∨ year % 400 = 0)

instance (year : ℕ) : Decidable (isLeap year) := inferInstanceAs (Decidable (_ ∧ _))

def daysInMonth (year month : ℕ) : ℕ :=
  if month = 2 ∧ isLeap year then 29
  else [31, 28, 31, 30, 31, 30, 31, 31, 30, 31, 30, 31].getD (month - 1) 0

def daysBeforeYear (year : ℕ) : ℤ :=
  let y : ℤ := year - 1
  y * 365 + y / 4 - y / 100 + y / 400

def daysBeforeMonth (year month : ℕ) : ℕ :=
  [0, 31, 59, 90, 120, 151, 181, 212, 243, 273, 304, 334].getD (month - 1) 0 +
    if 2 < month ∧ isLeap year then 1 else 0

/-- The ordinal of a date, the first of January of the year 1 being day 1. -/
def ymd2ord (year month day : ℕ) : ℤ := daysBeforeYear year + daysBeforeMonth year month + day

/-- The ordinal of the first of January 1970. -/
def epochOrd : ℤ := 719163

/-! ## Timestamps -/

/-- The fields of a timestamp; `utcoffset` is in microseconds, `none` for a naive timestamp. -/
structure DateFields where
  year : ℕ
  month : ℕ
  day : ℕ
  hour : ℕ
  minute : ℕ
  second : ℕ
  microsecond : ℕ
  utcoffset : Option ℤ
  deriving DecidableEq, Repr

def microsPerDay : ℤ := 86400000000

/-- What the constructors of `datetime` and `timezone` check. -/
structure DateFields.Valid (d : DateFields) : Prop where
  year : 1 ≤ d.year ∧ d.year ≤ 9999
  month : 1 ≤ d.month ∧ d.month ≤ 12
  day : 1 ≤ d.day ∧ d.day ≤ daysInMonth d.year d.month
  hour : d.hour < 24
  minute : d.minute < 60
  second : d.second < 60
  microsecond : d.microsecond < 1000000
  utcoffset : ∀ offset ∈ d.utcoffset, |offset| < microsPerDay

instance (d : DateFields) : Decidable d.Valid :=
  decidable_of_iff ((1 ≤ d.year ∧ d.year ≤ 9999) ∧ (1 ≤ d.month ∧ d.month ≤ 12) ∧
      (1 ≤ d.day ∧ d.day ≤ daysInMonth d.year d.month) ∧ d.hour < 24 ∧ d.minute < 60 ∧
      d.second < 60 ∧ d.microsecond < 1000000 ∧ ∀ offset ∈ d.utcoffset, |offset| < microsPerDay)
    ⟨fun ⟨h₁, h₂, h₃, h₄, h₅, h₆, h₇, h₈⟩ => ⟨h₁, h₂, h₃, h₄, h₅, h₆, h₇, h₈⟩,
      fun h => ⟨h.year, h.month, h.day, h.hour, h.minute, h.second, h.microsecond, h.utcoffset⟩⟩

structure DateTime extends DateFields where
  valid : toDateFields.Valid
  deriving DecidableEq

namespace DateTime

/-- The local time, as microseconds since the epoch. -/
def wall (d : DateTime) : ℤ :=
  ((((ymd2ord d.year d.month d.day - epochOrd) * 24 + d.hour) * 60 + d.minute) * 60 + d.second) *
    1000000 + d.microsecond

/-- The point of time of an aware timestamp. -/
def instant (d : DateTime) : Option Instant := d.utcoffset.map fun offset => d.wall - offset

/-- `d == e`: an aware and a naive timestamp are never equal. -/
def eq (d e : DateTime) : Prop :=
  match d.instant, e.instant with
  | some t, some u => t = u
  | none, none => d.wall = e.wall
  | _, _ => False

/-- `d > e`, which raises for an aware and a naive timestamp. -/
def gt (d e : DateTime) : Except PyException Bool :=
  match d.instant, e.instant with
  | some t, some u => .ok (u < t)
  | none, none => .ok (e.wall < d.wall)
  | _, _ => .error (.raised "TypeError")

/-- `d.replace(tzinfo=UTC)` -/
def replaceUtc (d : DateTime) : DateTime where
  toDateFields := { d.toDateFields with utcoffset := some 0 }
  valid := { d.valid with utcoffset := by simp [microsPerDay] }

end DateTime

/-! ## Texts -/

/-- `.ffffff`, unless it is zero -/
def isoFraction (microsecond : ℕ) : List Char :=
  if microsecond = 0 then [] else '.' :: decimal 6 microsecond

/-- `:SS[.ffffff]`, unless it is zero -/
def isoOffsetSeconds (micros : ℕ) : List Char :=
  if micros = 0 then [] else ':' :: (decimal 2 (micros / 1000000) ++ isoFraction (micros % 1000000))

/-- `+HH:MM[:SS[.ffffff]]`, nothing for a naive timestamp -/
def isoOffset : Option ℤ → List Char
  | none => []
  | some offset =>
    (if offset < 0 then '-' else '+') :: (decimal 2 (offset.natAbs / 3600000000) ++
      ':' :: (decimal 2 (offset.natAbs / 60000000 % 60) ++
        isoOffsetSeconds (offset.natAbs % 60000000)))

def isoChars (d : DateFields) : List Char :=
  decimal 4 d.year ++ '-' :: (decimal 2 d.month ++ '-' :: (decimal 2 d.day ++
    'T' :: (decimal 2 d.hour ++ ':' :: (decimal 2 d.minute ++ ':' :: (decimal 2 d.second ++
      (isoFraction d.microsecond ++ isoOffset d.utcoffset))))))

def DateTime.isoformat (d : DateTime) : String := String.ofList (isoChars d.toDateFields)

def readChar (c : Char) : List Char → Option (List Char)
  | [] => none
  | c' :: cs => if c' = c then some cs else none

def readFraction : List Char → Option (ℕ × List Char)
  | '.' :: cs => readDecimal 6 cs
  | cs => some (0, cs)

def readOffsetSeconds : List Char → Option ℕ
  | [] => some 0
  | cs => do
    let cs ← readChar ':' cs
    let (second, cs) ← readDecimal 2 cs
    let (microsecond, cs) ← readFraction cs
    if cs = [] then some (second * 1000000 + microsecond) else none

def readOffset : List Char → Option (Option ℤ)
  | [] => some none
  | sign :: cs =>
    if sign = '+' ∨ sign = '-' then do
      let (hour, cs) ← readDecimal 2 cs
      let cs ← readChar ':' cs
      let (minute, cs) ← readDecimal 2 cs
      let micros ← readOffsetSeconds cs
      let offset : ℤ := (hour * 60 + minute) * 60000000 + micros
      some (some (if sign = '-' then -offset else offset))
    else none

/-- `YYYY-MM-DD` -/
def readDate (cs : List Char) : Option ((ℕ × ℕ × ℕ) × List Char) := do
  let (year, cs) ← readDecimal 4 cs
  let cs ← readChar '-' cs
  let (month, cs) ← readDecimal 2 cs
  let cs ← readChar '-' cs
  let (day, cs) ← readDecimal 2 cs
  return ((year, month, day), cs)

/-- `HH:MM:SS` -/
def readTime (cs : List Char) : Option ((ℕ × ℕ × ℕ) × List Char) := do
  let (hour, cs) ← readDecimal 2 cs
  let cs ← readChar ':' cs
  let (minute, cs) ← readDecimal 2 cs
  let cs ← readChar ':' cs
  let (second, cs) ← readDecimal 2 cs
  return ((hour, minute, second), cs)

def readFields (cs : List Char) : Option DateFields := do
  let ((year, month, day), cs) ← readDate cs
  let cs ← readChar 'T' cs
  let ((hour, minute, second), cs) ← readTime cs
  let (microsecond, cs) ← readFraction cs
  let utcoffset ← readOffset cs
  return { year, month, day, hour, minute, second, microsecond, utcoffset }

def fromisoformat (text : String) : Except PyException DateTime :=
  match readFields text.toList with
  | some fields => if h : fields.Valid then .ok ⟨fields, h⟩ else .error (.raised "ValueError")
  | none => .error (.raised "ValueError")

/-! ## Reading back -/

@[simp] theorem readChar_cons (c : Char) (cs : List Char) : readChar c (c :: cs) = some cs :=
  if_pos rfl

theorem readFraction_isoFraction {microsecond : ℕ} (h : microsecond < 1000000) {cs : List Char}
    (hcs : cs.head? ≠ some '.') :
    readFraction (isoFraction microsecond ++ cs) = some (microsecond, cs) := by
  unfold isoFraction
  split
  · next hzero =>
    subst hzero
    cases cs with
    | nil => rfl
    | cons c cs =>
      unfold readFraction
      split
      · next heq =>
        cases heq
        exact absurd rfl hcs
      · rfl
  · exact readDecimal_decimal h cs

theorem readOffsetSeconds_isoOffsetSeconds {micros : ℕ} (h : micros < 60000000) :
    readOffsetSeconds (isoOffsetSeconds micros) = some micros := by
  unfold isoOffsetSeconds
  split
  · next hzero => rw [hzero]; rfl
  · have hsecond : micros / 1000000 < 10 ^ 2 := by omega
    have hfraction : readFraction (isoFraction (micros % 1000000) ++ []) =
        some (micros % 1000000, []) :=
      readFraction_isoFraction (Nat.mod_lt micros (by decide)) (by simp)
    rw [List.append_nil] at hfraction
    simp only [readOffsetSeconds, readChar_cons, readDecimal_decimal hsecond, hfraction,
      Option.bind_eq_bind, Option.bind_some, if_true, Nat.div_add_mod']

theorem isoOffset_head (utcoffset : Option ℤ) : (isoOffset utcoffset).head? ≠ some '.' := by
  cases utcoffset with
  | none => simp [isoOffset]
  | some offset =>
    rw [isoOffset]
    split <;> simp

theorem readOffset_isoOffset {utcoffset : Option ℤ}
    (h : ∀ offset ∈ utcoffset, |offset| < microsPerDay) :
    readOffset (isoOffset utcoffset) = some utcoffset := by
  cases utcoffset with
  | none => rfl
  | some offset =>
    have hbound := h offset rfl
    rw [Int.abs_eq_natAbs, microsPerDay] at hbound
    have hhour : offset.natAbs / 3600000000 < 10 ^ 2 := by omega
    have hminute : offset.natAbs / 60000000 % 60 < 10 ^ 2 := by omega
    have hsign : (if offset < 0 then '-' else '+') = '+' ∨
        (if offset < 0 then '-' else '+') = '-' := by
      split
      · exact .inr rfl
      · exact .inl rfl
    have hread := readOffsetSeconds_isoOffsetSeconds
      (Nat.mod_lt offset.natAbs (by decide : 0 < 60000000))
    simp only [isoOffset, readOffset, if_pos hsign, readDecimal_decimal hhour,
      readDecimal_decimal hminute, readChar_cons, hread, Option.bind_eq_bind, Option.bind_some]
    by_cases hneg : offset < 0
    · simp only [hneg, if_true, Option.some.injEq]
      omega
    · simp only [hneg, if_false, Option.some.injEq]
      rw [if_neg (by decide)]
      omega

theorem daysInMonth_le (year month : ℕ) : daysInMonth year month ≤ 31 := by
  unfold daysInMonth
  split
  · decide
  · rcases Nat.lt_or_ge (month - 1) 12 with h | h
    · interval_cases month - 1 <;> simp
    · rw [List.getD_eq_default _ _ h]
      exact Nat.zero_le 31

/-- Every field fits the digits that it is written with. -/
theorem DateFields.Valid.widths {d : DateFields} (h : d.Valid) :
    d.year < 10 ^ 4 ∧ d.month < 10 ^ 2 ∧ d.day < 10 ^ 2 ∧ d.hour < 10 ^ 2 ∧ d.minute < 10 ^ 2 ∧
      d.second < 10 ^ 2 := by
  have hdays := daysInMonth_le d.year d.month
  obtain ⟨⟨-, hyear⟩, ⟨-, hmonth⟩, ⟨-, hday⟩, hhour, hminute, hsecond, -, -⟩ := h
  omega

theorem readDate_decimal {year month day : ℕ} (hyear : year < 10 ^ 4) (hmonth : month < 10 ^ 2)
    (hday : day < 10 ^ 2) (cs : List Char) :
    readDate (decimal 4 year ++ '-' :: (decimal 2 month ++ '-' :: (decimal 2 day ++ cs))) =
      some ((year, month, day), cs) := by
  simp only [readDate, readDecimal_decimal hyear, readDecimal_decimal hmonth,
    readDecimal_decimal hday, readChar_cons, Option.bind_eq_bind, Option.bind_some, Option.pure_def]

theorem readTime_decimal {hour minute second : ℕ} (hhour : hour < 10 ^ 2) (hminute : minute < 10 ^ 2)
    (hsecond : second < 10 ^ 2) (cs : List Char) :
    readTime (decimal 2 hour ++ ':' :: (decimal 2 minute ++ ':' :: (decimal 2 second ++ cs))) =
      some ((hour, minute, second), cs) := by
  simp only [readTime, readDecimal_decimal hhour, readDecimal_decimal hminute,
    readDecimal_decimal hsecond, readChar_cons, Option.bind_eq_bind, Option.bind_some,
    Option.pure_def]

theorem readFields_isoChars {d : DateFields} (h : d.Valid) : readFields (isoChars d) = some d := by
  obtain ⟨hyear, hmonth, hday, hhour, hminute, hsecond⟩ := h.widths
  simp only [isoChars, readFields, readDate_decimal hyear hmonth hday,
    readTime_decimal hhour hminute hsecond, readChar_cons,
    readFraction_isoFraction h.microsecond (isoOffset_head d.utcoffset),
    readOffset_isoOffset h.utcoffset, Option.bind_eq_bind, Option.bind_some]
  rfl

/-- `fromisoformat` is the inverse of `isoformat`, whatever the offset is. -/
theorem fromisoformat_isoformat (d : DateTime) : fromisoformat d.isoformat = .ok d := by
  rw [fromisoformat, DateTime.isoformat, String.toList_ofList, readFields_isoChars d.valid]
  simp only [d.valid, dite_true]

/-! ## The order of the texts -/

theorem daysBeforeYear_succ (year : ℕ) :
    daysBeforeYear (year + 1) = daysBeforeYear year + 365 + if isLeap year then 1 else 0 := by
  unfold daysBeforeYear
  dsimp only
  push_cast
  by_cases hleap : isLeap year
  · rw [if_pos hleap]
    unfold isLeap at hleap
    omega
  · rw [if_neg hleap]
    unfold isLeap at hleap
    omega

theorem daysBeforeYear_mono {year year' : ℕ} (h : year ≤ year') :
    daysBeforeYear year ≤ daysBeforeYear year' := by
  unfold daysBeforeYear
  dsimp only
  omega

theorem daysBeforeMonth_succ (year : ℕ) {month : ℕ} (hmonth : 1 ≤ month) (h : month < 12) :
    daysBeforeMonth year (month + 1) = daysBeforeMonth year month + daysInMonth year month := by
  unfold daysBeforeMonth daysInMonth
  by_cases hleap : isLeap year
  · interval_cases month <;> simp [hleap]
  · interval_cases month <;> simp [hleap]

/-- Every day of a month comes before the later months of the year. -/
theorem daysBeforeMonth_add_le (year : ℕ) {month month' : ℕ} (hmonth : 1 ≤ month)
    (h : month + 1 ≤ month') (hmonth' : month' ≤ 12) :
    daysBeforeMonth year month + daysInMonth year month ≤ daysBeforeMonth year month' := by
  induction month', h using Nat.le_induction with
  | base => rw [daysBeforeMonth_succ year hmonth hmonth']
  | succ month' h ih =>
    have hbefore := ih (by omega)
    rw [daysBeforeMonth_succ year (by omega) hmonth']
    omega

theorem daysBeforeMonth_add_le_year (year : ℕ) {month : ℕ} (hmonth : 1 ≤ month) (hmonth' : month ≤ 12) :
    daysBeforeMonth year month + daysInMonth year month ≤ 365 + if isLeap year then 1 else 0 := by
  unfold daysBeforeMonth daysInMonth
  by_cases hleap : isLeap year
  · interval_cases month <;> simp [hleap]
  · interval_cases month <;> simp [hleap]

section Order
variable {P : Prop}

theorem ymd2ord_lt {d e : DateFields} (hd : d.Valid) (he : e.Valid)
    (h : d.year < e.year ∨ d.year = e.year ∧ d.month < e.month) :
    ymd2ord d.year d.month d.day < ymd2ord e.year e.month e.day := by
  obtain ⟨hday, hday'⟩ := hd.day
  obtain ⟨heday, -⟩ := he.day
  unfold ymd2ord
  obtain hyear | ⟨hyear, hmonth⟩ := h
  · have hnext : daysBeforeYear (d.year + 1) ≤ daysBeforeYear e.year :=
      daysBeforeYear_mono (Nat.succ_le_of_lt hyear)
    have hsucc := daysBeforeYear_succ d.year
    have hyearEnd := daysBeforeMonth_add_le_year d.year hd.month.1 hd.month.2
    by_cases hleap : isLeap d.year
    · simp only [hleap, if_true] at hsucc hyearEnd
      omega
    · simp only [hleap, if_false] at hsucc hyearEnd
      omega
  · have hmonthEnd := daysBeforeMonth_add_le d.year hd.month.1 hmonth he.month.2
    rw [← hyear]
    omega

/-- Dates are numbered in the order of year, month and day. -/
theorem lexLt_ymd2ord {d e : DateFields} (hd : d.Valid) (he : e.Valid) :
    LexLt (ymd2ord d.year d.month d.day) (ymd2ord e.year e.month e.day) P ↔
      LexLt d.year e.year (LexLt d.month e.month (LexLt d.day e.day P)) := by
  obtain hyear | hyear | hyear := lt_trichotomy d.year e.year
  · exact iff_of_true (lexLt_of_lt (ymd2ord_lt hd he (.inl hyear))) (lexLt_of_lt hyear)
  · obtain hmonth | hmonth | hmonth := lt_trichotomy d.month e.month
    · refine iff_of_true (lexLt_of_lt (ymd2ord_lt hd he (.inr ⟨hyear, hmonth⟩))) ?_
      exact .inr ⟨hyear, lexLt_of_lt hmonth⟩
    · rw [hyear, hmonth, lexLt_self, lexLt_self]
      unfold LexLt ymd2ord
      constructor
      · rintro (h | ⟨h, hP⟩)
        · exact .inl (by omega)
        · exact .inr ⟨by omega, hP⟩
      · rintro (h | ⟨h, hP⟩)
        · exact .inl (by omega)
        · exact .inr ⟨by omega, hP⟩
    · refine iff_of_false (not_lexLt_of_lt (ymd2ord_lt he hd (.inr ⟨hyear.symm, hmonth⟩))) ?_
      rw [hyear, lexLt_self]
      exact not_lexLt_of_lt hmonth
  · exact iff_of_false (not_lexLt_of_lt (ymd2ord_lt he hd (.inl hyear))) (not_lexLt_of_lt hyear)

/-- The local times of two timestamps are ordered as their fields are. -/
theorem wall_lt_iff (d e : DateTime) :
    d.wall < e.wall ↔
      LexLt d.year e.year (LexLt d.month e.month (LexLt d.day e.day (LexLt d.hour e.hour
        (LexLt d.minute e.minute (LexLt d.second e.second (d.microsecond < e.microsecond)))))) := by
  obtain ⟨-, -, -, hhour, hminute, hsecond, hmicro, -⟩ := d.valid
  obtain ⟨-, -, -, hhour', hminute', hsecond', hmicro', -⟩ := e.valid
  rw [← lexLt_of_not (P := False) not_false, DateTime.wall, DateTime.wall,
    lexLt_mul_add (by omega) (by omega) (by omega) (by omega),
    lexLt_mul_add (by omega) (by omega) (by omega) (by omega),
    lexLt_mul_add (by omega) (by omega) (by omega) (by omega),
    lexLt_mul_add (by omega) (by omega) (by omega) (by omega),
    lexLt_sub_right, lexLt_ymd2ord d.valid e.valid]
  simp only [lexLt_natCast, lexLt_of_not not_false, Nat.cast_lt]

theorem isoFraction_lt_iff {micro micro' : ℕ} (h : micro < 1000000) (h' : micro' < 1000000) :
    isoFraction micro ++ isoOffset (some 0) < isoFraction micro' ++ isoOffset (some 0) ↔
      micro < micro' := by
  -- where one fraction is left out, the sign of the offset stands against a full stop
  have hoffset : isoOffset (some 0) = '+' :: ['0', '0', ':', '0', '0'] := by decide
  unfold isoFraction
  split
  · next hzero =>
    split
    · next hzero' =>
      rw [hzero, hzero']
      exact iff_of_false (lt_irrefl _) (lt_irrefl _)
    · next hpos' =>
      rw [hoffset, List.nil_append, List.cons_append, cons_lt_cons_iff]
      exact iff_of_true (lexLt_of_lt (by decide)) (by omega)
  · next hpos =>
    split
    · next hzero' =>
      rw [hoffset, List.nil_append, List.cons_append, cons_lt_cons_iff]
      exact iff_of_false (not_lexLt_of_lt (by decide)) (by omega)
    · rw [List.cons_append, List.cons_append, cons_lt_cons_self_iff, decimal_append_lt_iff h h',
        lexLt_of_not (lt_irrefl _)]

/-- The texts of two timestamps in UTC are ordered as the timestamps are in time, although a fraction
that is zero is left out. -/
theorem isoformat_lt_iff {d e : DateTime} (hd : d.utcoffset = some 0) (he : e.utcoffset = some 0) :
    d.isoformat < e.isoformat ↔ d.wall < e.wall := by
  obtain ⟨hyear, hmonth, hday, hhour, hminute, hsecond⟩ := d.valid.widths
  obtain ⟨hyear', hmonth', hday', hhour', hminute', hsecond'⟩ := e.valid.widths
  rw [wall_lt_iff, String.lt_iff_toList_lt, DateTime.isoformat, DateTime.isoformat,
    String.toList_ofList, String.toList_ofList, isoChars, isoChars, hd, he]
  -- each field has its width, so the texts are compared field by field
  simp only [decimal_append_lt_iff hyear hyear', decimal_append_lt_iff hmonth hmonth',
    decimal_append_lt_iff hday hday', decimal_append_lt_iff hhour hhour',
    decimal_append_lt_iff hminute hminute', decimal_append_lt_iff hsecond hsecond',
    cons_lt_cons_self_iff, isoFraction_lt_iff d.valid.microsecond e.valid.microsecond]

end Order

end Chronoq.Ranker
