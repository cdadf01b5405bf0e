/-! Reading decimals as doubles: to the nearest double, ties to the even one. -/

namespace Rollout.Decimal

def isDigit (c : Char) : Bool := '0' ≤ c && c ≤ '9'

def digitValue (c : Char) : Nat := c.toNat - '0'.toNat

def ofDigits (ds : List Char) : Nat := ds.foldl (fun n c => 10 * n + digitValue c) 0

/-- The double nearest to `c * 10 ^ k`; beyond all doubles it is infinite, below all of them zero. -/
def nearest (c : Nat) (k : Int) : Float :=
  let e := k + (Nat.toDigits 10 c).length
  if c = 0 ∨ e < -400 then 0.0
  else if 400 < e then 1.0 / 0.0
  else Float.ofScientific c (k < 0) k.natAbs

structure Parts where
  whole : List Char
  fraction : List Char
  exponent : Int

def Parts.value (p : Parts) : Float :=
  nearest (ofDigits (p.whole ++ p.fraction)) (p.exponent - p.fraction.length)

def signed (cs : List Char) : Bool × List Char :=
  match cs with
  | '-' :: r => (true, r)
  | '+' :: r => (false, r)
  | r => (false, r)

/-- Digits with an optional point and an optional exponent; one digit at least. -/
def parts? (cs : List Char) : Option Parts :=
  let whole := cs.takeWhile isDigit
  let rest := cs.dropWhile isDigit
  let (fraction, rest) := match rest with
    | '.' :: r => (r.takeWhile isDigit, r.dropWhile isDigit)
    | r => ([], r)
  if whole.isEmpty && fraction.isEmpty then none
  else match rest with
    | [] => some ⟨whole, fraction, 0⟩
    | c :: r =>
      if c = 'e' ∨ c = 'E' then
        let (neg, ds) := signed r
        if ds.isEmpty || !ds.all isDigit then none
        else some ⟨whole, fraction, if neg then -(ofDigits ds : Int) else ofDigits ds⟩
      else none

/-- Reads a signed decimal, or the word for an infinity or for an undefined value. -/
def read? (s : String) : Option Float :=
  let (neg, cs) := signed s.toList
  let word := (String.ofList cs).toLower
  let x :=
    if word = "inf" ∨ word = "infinity" then some (1.0 / 0.0)
    else if word = "nan" then some (0.0 / 0.0)
    else (parts? cs).map Parts.value
  x.map fun x => if neg then -x else x

end Rollout.Decimal
