/-! Instants of universal time and the civil calendar. An instant counts whole seconds since the
first of January 1970 and nanoseconds on top of them; a leap second is written as a second that
lasts for up to two seconds. -/

namespace Rollout

structure Instant where
  seconds : Int
  nanos : Nat
deriving Repr, DecidableEq, Inhabited

structure Time.Date where
  year : Int
  month : Nat
  day : Nat
deriving Repr, DecidableEq

namespace Time

def isLeap (year : Int) : Bool := year % 4 = 0 && (year % 100 != 0 || year % 400 = 0)

def monthLength (year : Int) (month : Nat) : Nat :=
  match month with
  | 2 => if isLeap year then 29 else 28
  | 4 | 6 | 9 | 11 => 30
  | _ => 31

def Date.Valid (d : Date) : Prop :=
  -262143 ≤ d.year ∧ d.year ≤ 262142 ∧ 1 ≤ d.month ∧ d.month ≤ 12 ∧ 1 ≤ d.day ∧
    d.day ≤ monthLength d.year d.month

instance (d : Date) : Decidable d.Valid := by unfold Date.Valid; infer_instance

/-- Days since the first of January 1970. Years are counted from March, so that a leap day ends
one, and in cycles of 400. -/
def Date.toDays (d : Date) : Int :=
  let y := if d.month ≤ 2 then d.year - 1 else d.year
  let era := y / 400
  let yearOfEra := y % 400
  let monthFromMarch : Int := if 2 < d.month then d.month - 3 else d.month + 9
  let dayOfYear := (153 * monthFromMarch + 2) / 5 + d.day - 1
  era * 146097 + (yearOfEra * 365 + yearOfEra / 4 - yearOfEra / 100 + dayOfYear) - 719468

def Date.ofDays (days : Int) : Date :=
  let z := days + 719468
  let era := z / 146097
  let dayOfEra := z % 146097
  let yearOfEra := (dayOfEra - dayOfEra / 1460 + dayOfEra / 36524 - dayOfEra / 146096) / 365
  let dayOfYear := dayOfEra - (365 * yearOfEra + yearOfEra / 4 - yearOfEra / 100)
  let monthFromMarch := (5 * dayOfYear + 2) / 153
  let day := (dayOfYear - (153 * monthFromMarch + 2) / 5 + 1).toNat
  let month := (if monthFromMarch < 10 then monthFromMarch + 3 else monthFromMarch - 9).toNat
  let year := yearOfEra + era * 400
  ⟨if month ≤ 2 then year + 1 else year, month, day⟩

def padded (width n : Nat) : String :=
  let ds := Nat.toDigits 10 n
  String.ofList (List.replicate (width - ds.length) '0' ++ ds)

/-- Four digits for the years 0 to 9999, and a sign as well for all others. -/
def yearText (year : Int) : String :=
  if 0 ≤ year ∧ year ≤ 9999 then padded 4 year.toNat
  else (if year < 0 then "-" else "+") ++ padded 4 year.natAbs

/-- The fewest of 0, 3, 6 or 9 digits that are exact. -/
def fractionText (nanos : Nat) : String :=
  if nanos = 0 then ""
  else if nanos % 1000000 = 0 then "." ++ padded 3 (nanos / 1000000)
  else if nanos % 1000 = 0 then "." ++ padded 6 (nanos / 1000)
  else "." ++ padded 9 nanos

end Time

namespace Instant

open Time

def ofMillis (ms : Nat) : Instant := ⟨ms / 1000, ms % 1000 * 1000000⟩

def render (i : Instant) : String :=
  let d := Date.ofDays (i.seconds / 86400)
  let s := (i.seconds % 86400).toNat
  let leap := i.nanos / 1000000000
  yearText d.year ++ "-" ++ padded 2 d.month ++ "-" ++ padded 2 d.day ++ "T" ++
    padded 2 (s / 3600) ++ ":" ++ padded 2 (s / 60 % 60) ++ ":" ++ padded 2 (s % 60 + leap) ++
    fractionText (i.nanos % 1000000000) ++ "Z"

/-- Whether the leap second of one instant lies between both times of day. -/
def leapBetween (start finish : Instant) : Int :=
  let s := start.seconds % 86400
  let f := finish.seconds % 86400
  if s < f ∧ 1000000000 ≤ start.nanos then 1
  else if f < s ∧ 1000000000 ≤ finish.nanos then -1
  else 0

/-- Whole milliseconds from one instant to another, toward zero. -/
def millisUntil (start finish : Instant) : Int :=
  let seconds := finish.seconds - start.seconds + leapBetween start finish
  Int.tdiv (seconds * 1000000000 + ((finish.nanos : Int) - start.nanos)) 1000000

end Instant

end Rollout
