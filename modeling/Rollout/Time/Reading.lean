import Rollout.Time.Instant
import Rollout.Decimal.Reading

/-! Reading instants. Date and time are parted by a blank or a T, fractions of a second may have any
number of digits, and an offset from universal time or its name must follow. -/

namespace Rollout

inductive Instant.Fault
  | tooShort
  | tooLong
  | outOfRange
  | invalid
  | impossible
deriving Repr, DecidableEq

def Instant.Fault.message : Instant.Fault → String
  | tooShort => "premature end of input"
  | tooLong => "trailing input"
  | outOfRange => "input is out of range"
  | invalid => "input contains invalid characters"
  | impossible => "no possible date and time matching input"

namespace Time

abbrev Scan := Except Instant.Fault

def isSpace (c : Char) : Bool :=
  let n := c.toNat
  (9 ≤ n && n ≤ 13) || n = 32 || n = 0x85 || n = 0xA0 || n = 0x1680 || (0x2000 ≤ n && n ≤ 0x200A) ||
    n = 0x2028 || n = 0x2029 || n = 0x202F || n = 0x205F || n = 0x3000

def trim (cs : List Char) : List Char := cs.dropWhile isSpace

/-- One digit at least and `most` at most. -/
def number (cs : List Char) (most : Nat) : Scan (Nat × List Char) :=
  let ds := (cs.take most).takeWhile Decimal.isDigit
  if cs.isEmpty then .error .tooShort
  else if ds.isEmpty then .error .invalid
  else if Nat.pow 2 63 ≤ Decimal.ofDigits ds then .error .outOfRange
  else .ok (Decimal.ofDigits ds, cs.drop ds.length)

/-- A number of at most two digits between two bounds. -/
def twoDigits (low high : Nat) (cs : List Char) : Scan (Nat × List Char) := do
  let (n, rest) ← number (trim cs) 2
  if low ≤ n ∧ n ≤ high then pure (n, rest) else throw .outOfRange

def literal (c : Char) (cs : List Char) : Scan (Unit × List Char) :=
  match trim cs with
  | [] => .error .tooShort
  | d :: rest => if d = c then .ok ((), rest) else .error .invalid

/-- Four digits at most, or any number of them after a sign. -/
def year (cs : List Char) : Scan (Int × List Char) := do
  let (y, rest) ← match trim cs with
    | '-' :: rest => (number rest rest.length).map fun (n, r) => (-(n : Int), r)
    | '+' :: rest => (number rest rest.length).map fun (n, r) => ((n : Int), r)
    | rest => (number rest 4).map fun (n, r) => ((n : Int), r)
  if -2147483648 ≤ y ∧ y ≤ 2147483647 then pure (y, rest) else throw .outOfRange

def date (cs : List Char) : Scan (Date × List Char) := do
  let (y, cs) ← year cs
  let (_, cs) ← literal '-' cs
  let (m, cs) ← twoDigits 1 12 cs
  let (_, cs) ← literal '-' cs
  let (d, cs) ← twoDigits 1 31 cs
  pure (⟨y, m, d⟩, cs)

def fraction (cs : List Char) : Scan (Nat × List Char) :=
  match cs with
  | '.' :: rest => do
    let (n, left) ← number rest 9
    let width := rest.length - left.length
    pure (n * Nat.pow 10 (9 - width), left.dropWhile Decimal.isDigit)
  | cs => pure (0, cs)

/-- Seconds of a day and nanoseconds; the sixtieth second stretches the one before it. -/
def clock (cs : List Char) : Scan ((Nat × Nat) × List Char) := do
  let (h, cs) ← twoDigits 0 23 cs
  let (_, cs) ← literal ':' cs
  let (m, cs) ← twoDigits 0 59 cs
  let (_, cs) ← literal ':' cs
  let (s, cs) ← twoDigits 0 60 cs
  let (n, cs) ← fraction cs
  let leap := s / 60
  pure ((h * 3600 + m * 60 + (s - leap), n + leap * 1000000000), cs)

def digitPair (cs : List Char) : Scan (Nat × List Char) :=
  match cs with
  | a :: b :: rest =>
    if Decimal.isDigit a && Decimal.isDigit b then .ok (Decimal.ofDigits [a, b], rest)
    else .error .invalid
  | [a] => if a.utf8Size < 2 then .error .tooShort else .error .invalid
  | [] => .error .tooShort

def separated (cs : List Char) : List Char := cs.dropWhile fun c => c = ':' || isSpace c

/-- Hours and minutes east of universal time, in seconds. -/
def signedOffset (west : Bool) (cs : List Char) : Scan (Int × List Char) := do
  let (h, cs) ← digitPair cs
  let (m, cs) ← digitPair (separated cs)
  if 59 < m then throw .outOfRange
  let s : Int := h * 3600 + m * 60
  pure (if west then -s else s, cs)

def offset (cs : List Char) : Scan (Int × List Char) :=
  match cs with
  | [] => .error .tooShort
  | c :: rest =>
    if (String.ofList (cs.take 3)).toLower = "utc" then .ok (0, cs.drop 3)
    else if c = 'Z' ∨ c = 'z' then .ok (0, rest)
    else if c = '+' then signedOffset false rest
    else if c = '-' ∨ c = '\u2212' then signedOffset true rest
    else .error .invalid

end Time

open Time in
def Instant.read (s : String) : Except Instant.Fault Instant := do
  let (d, cs) ← date s.toList
  let cs ← match cs with
    | [] => throw .tooShort
    | c :: rest => if c = 'T' ∨ c = 't' ∨ c = ' ' then pure rest else throw .invalid
  let ((seconds, nanos), cs) ← clock cs
  let (east, cs) ← offset (trim cs)
  if !(trim cs).isEmpty then throw .tooLong
  if ¬ d.Valid then throw .outOfRange
  if 86400 ≤ east.natAbs then throw .outOfRange
  let total := d.toDays * 86400 + seconds - east
  if ¬ (Date.ofDays (total / 86400)).Valid then throw .impossible
  pure ⟨total, nanos⟩

end Rollout
