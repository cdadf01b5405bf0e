import Rollout.Document.Fault
import Rollout.Decimal.Reading

/-! Scalars written without quotes. Their type shows in their text: the words for nothing and for
truth values, integers in four bases, decimals. Digits behind a leading zero are no number. -/

namespace Rollout.Doc

def isNullWord (s : String) : Bool := s = "null" || s = "Null" || s = "NULL" || s = "~"

def boolWord? (s : String) : Option Bool :=
  if s = "true" ∨ s = "True" ∨ s = "TRUE" then some true
  else if s = "false" ∨ s = "False" ∨ s = "FALSE" then some false
  else none

def digitIn? (base : Nat) (c : Char) : Option Nat :=
  let v :=
    if '0' ≤ c ∧ c ≤ '9' then c.toNat - 48
    else if 'a' ≤ c ∧ c ≤ 'z' then c.toNat - 87
    else if 'A' ≤ c ∧ c ≤ 'Z' then c.toNat - 55
    else base
  if v < base then some v else none

/-- One digit at least, all of them below the base. -/
def natIn? (base : Nat) (cs : List Char) : Option Nat :=
  if cs.isEmpty then none
  else cs.foldl (fun n c => do return (← n) * base + (← digitIn? base c)) (some 0)

def based? (cs : List Char) : Option (Nat × List Char) :=
  match cs with
  | '0' :: 'x' :: r => some (16, r)
  | '0' :: 'o' :: r => some (8, r)
  | '0' :: 'b' :: r => some (2, r)
  | _ => none

/-- A leading zero with nothing but digits behind it. -/
def zeroLed (cs : List Char) : Bool :=
  match cs with
  | '0' :: d :: r => (d :: r).all Decimal.isDigit
  | _ => false

/-- Digits in the base that they name, or decimal digits. -/
def magnitude? (cs : List Char) : Option Nat :=
  let plain := if zeroLed cs then none else natIn? 10 cs
  match based? cs with
  | some (base, r) => (natIn? base r).or plain
  | none => plain

def plainNat? (s : String) : Option Nat :=
  match s.toList with
  | '+' :: r => magnitude? r
  | r => magnitude? r

def plainInt? (s : String) : Option Int :=
  match s.toList with
  | '-' :: r => (magnitude? r).map fun n => -(n : Int)
  | _ => (plainNat? s).map fun n => (n : Int)

/-- Infinities and the undefined value have words of their own, decimals are finite. -/
def plainFloat? (s : String) : Option Float :=
  let (neg, cs) := Decimal.signed s.toList
  let word := String.ofList cs
  if word = ".inf" ∨ word = ".Inf" ∨ word = ".INF" then
    some (if neg then -(1.0 / 0.0) else 1.0 / 0.0)
  else if s = ".nan" ∨ s = ".NaN" ∨ s = ".NAN" then some (0.0 / 0.0)
  else do
    let x := (← Decimal.parts? cs).value
    if x.isInf then none else some (if neg then -x else x)

/-- What an unquoted scalar is by itself; integers beyond 64 bits are refused up to 128 bits and
decimals from there on. -/
def settlePlain (s : String) : Reading Doc :=
  if s.isEmpty || isNullWord s then pure null
  else match boolWord? s with
    | some b => pure (bool b)
    | none => match plainInt? s with
      | some (.ofNat n) =>
        if s.startsWith "-" && n = 0 then pure (number (some (.whole 0)))
        else if n < Nat.pow 2 64 then pure (number (some (.whole n.toUInt64)))
        else if n < Nat.pow 2 128 then throw (.mismatch (.wrongValue (.string s) "an integer of 64 bits"))
        else wide s
      | some (.negSucc n) =>
        if n < Nat.pow 2 63 then pure (number (some (.negative (Int64.ofInt (.negSucc n)))))
        else if n < Nat.pow 2 127 then throw (.mismatch (.wrongValue (.string s) "an integer of 64 bits"))
        else wide s
      | none => wide s
where
  wide (s : String) : Reading Doc :=
    if zeroLed (Decimal.signed s.toList).2 then pure (string (some s))
    else match plainFloat? s with
      | some x => pure (number (some (.float x)))
      | none => pure (string (some s))

def coreTag (name : String) : String := "tag:yaml.org,2002:" ++ name

/-- What a scalar is by itself, a core tag deciding over the text. -/
def Scalar.settle (s : Scalar) : Reading Doc :=
  match s.tag with
  | none => if s.form = .plain then settlePlain s.text else pure (string (some s.text))
  | some t =>
    let forced (d : Option Doc) : Reading Doc :=
      match d with
      | some d => pure d
      | none => throw (.mismatch (.wrongValue (.string s.text) t))
    if t = coreTag "bool" then forced ((boolWord? s.text).map bool)
    else if t = coreTag "int" then
      match plainInt? s.text with
      | some _ => settlePlain s.text
      | none => forced none
    else if t = coreTag "float" then forced ((plainFloat? s.text).map fun x => number (some (.float x)))
    else if t = coreTag "null" then forced (if isNullWord s.text then some null else none)
    else pure (string (some s.text))

/-- Whether a typed reader takes the text for a value of the core type. -/
def Scalar.isOpen (s : Scalar) (type : String) : Bool :=
  s.form = .plain || (s.form = .literal && s.tag = some (coreTag type))

end Rollout.Doc
