/-! The fewest decimal digits that read back as a given double, and the nearest such decimal.
A positive double is `m * 2 ^ q`; every real nearer to it than to its neighbours reads back as it,
the two midpoints as well when `m` is even. -/

namespace Rollout.Decimal

/-- A positive finite double `m * 2 ^ q`; `step` tells that the gap below is half the gap above. -/
structure Binary where
  m : Nat
  q : Int
  step : Bool
deriving Repr, DecidableEq

def Binary.ofBits (bits : UInt64) : Binary :=
  let fraction := (bits &&& 0xFFFFFFFFFFFFF).toNat
  let exponent := ((bits >>> 52) &&& 0x7FF).toNat
  if exponent = 0 then ⟨fraction, -1074, false⟩
  else ⟨fraction + Nat.pow 2 52, (exponent : Int) - 1075, decide (fraction = 0 ∧ 1 < exponent)⟩

/-- Compares `a * 2 ^ p` with `c * 10 ^ k`. -/
def scaledCompare (a : Nat) (p : Int) (c : Nat) (k : Int) : Ordering :=
  compare (a * Nat.pow 2 p.toNat * Nat.pow 10 (-k).toNat) (c * Nat.pow 10 k.toNat * Nat.pow 2 (-p).toNat)

/-- Whether `c * 10 ^ k` reads back as the double. -/
def Binary.readsBack (b : Binary) (c : Nat) (k : Int) : Bool :=
  let low := scaledCompare (4 * b.m - if b.step then 1 else 2) (b.q - 2) c k
  let high := scaledCompare (4 * b.m + 2) (b.q - 2) c k
  if b.m % 2 = 0 then low != .gt && high != .lt else low == .lt && high == .gt

def length (n : Nat) : Nat := (Nat.toDigits 10 n).length

/-- The exponent of the leading decimal digit. -/
def Binary.magnitude (b : Binary) : Int :=
  let num := b.m * Nat.pow 2 b.q.toNat
  let den := Nat.pow 2 (-b.q).toNat
  if den ≤ num then (length (num / den) : Int) - 1
  else -(length ((den + num - 1) / num - 1) : Int)

/-- The neighbours of the double on the grid of step `10 ^ k` that read back, the nearer first. -/
def Binary.onGrid (b : Binary) (k : Int) : Option Nat :=
  let num := b.m * Nat.pow 2 b.q.toNat * Nat.pow 10 (-k).toNat
  let den := Nat.pow 2 (-b.q).toNat * Nat.pow 10 k.toNat
  let c := num / den
  let below := b.readsBack c k
  let above := b.readsBack (c + 1) k
  if below && above then
    let twice := 2 * (num % den)
    if twice < den ∨ twice = den ∧ c % 2 = 0 then some c else some (c + 1)
  else if below then some c
  else if above then some (c + 1)
  else none

/-- Digits `c` and exponent `k` with `c * 10 ^ k` the shortest decimal of the double. -/
def Binary.shortest (b : Binary) : Nat × Int :=
  let hit := (List.range 18).findSome? fun n : Nat =>
    (b.onGrid (b.magnitude - n)).map (·, b.magnitude - n)
  hit.getD (b.m, b.q)

/-- How an exact decimal is written: positional from `10 ^ low` up to below `10 ^ high`. -/
structure Style where
  low : Int
  high : Int
  plus : Bool

/-- The form of numbers in settings: positional from `0.0001` up to below `10 ^ 16`. -/
def Style.setting : Style := ⟨-4, 16, false⟩

/-- The form of numbers in documents and diagnostics: positional from `0.00001`, and a plus sign
before an exponent that is not negative. -/
def Style.document : Style := ⟨-5, 16, true⟩

def trimZeros (c : Nat) (k : Int) : Nat × Int :=
  let ds := Nat.toDigits 10 c
  let zeros := (ds.reverse.takeWhile (· = '0')).length
  if c = 0 then (0, 0) else (c / Nat.pow 10 zeros, k + zeros)

def Style.positive (s : Style) (c : Nat) (k : Int) : String :=
  let ds := Nat.toDigits 10 c
  let e := k + ds.length - 1
  if s.low ≤ e ∧ e < s.high then
    if 0 ≤ k then String.ofList (ds ++ List.replicate k.toNat '0' ++ ['.', '0'])
    else if 0 ≤ e then
      String.ofList (ds.take (e.toNat + 1) ++ '.' :: ds.drop (e.toNat + 1))
    else String.ofList ('0' :: '.' :: List.replicate (-e - 1).toNat '0' ++ ds)
  else
    let tail := if ds.length = 1 then [] else '.' :: ds.drop 1
    let sign := if 0 ≤ e then (if s.plus then "+" else "") else "-"
    String.ofList (ds.take 1 ++ tail) ++ "e" ++ sign ++ toString e.natAbs

def Style.render (s : Style) (x : Float) : String :=
  let bits := x.toBits
  let sign := if bits >>> 63 = 1 then "-" else ""
  if x.isNaN then "NaN"
  else if x.isInf then sign ++ "inf"
  else if bits <<< 1 = 0 then sign ++ "0.0"
  else
    let (c, k) := (Binary.ofBits bits).shortest
    let (c, k) := trimZeros c k
    sign ++ s.positive c k

end Rollout.Decimal
