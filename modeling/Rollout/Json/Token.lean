import Rollout.Document.Basic
import Rollout.Decimal.Reading

/-! The tokens of a JSON text. The first character that fits nowhere becomes the token `bad`. -/

namespace Rollout.Json

inductive Token
  | openBrace
  | closeBrace
  | openBracket
  | closeBracket
  | comma
  | colon
  | null
  | bool (b : Bool)
  | number (n : Option Number)
  | string (s : Option String)
  | bad

structure Number.Parts where
  negative : Bool
  whole : List Char
  fraction : Option (List Char)
  exponent : Option (Bool × List Char)

def maxWord : Nat := Nat.pow 2 64 - 1

/-- Appends digits as long as the result stays below `2 ^ 64`. -/
def gather (n : Nat) : List Char → Nat × List Char
  | [] => (n, [])
  | d :: ds =>
    let m := 10 * n + Decimal.digitValue d
    if m ≤ maxWord then gather m ds else (n, d :: ds)

def power (k : Nat) : Float := Float.ofScientific 1 false k

/-- `x * 10 ^ k` in at most `fuel` rounds of division; infinite values are out of range. -/
def scale (x : Float) (k : Int) : Nat → Option Float
  | 0 => some x
  | fuel + 1 =>
    if k.natAbs ≤ 308 then
      if 0 ≤ k then
        let y := x * power k.natAbs
        if y.isInf then none else some y
      else some (x / power k.natAbs)
    else if x == 0.0 then some x
    else if 0 ≤ k then none
    else scale (x / power 308) (k + 308) fuel

def clampWord (k : Int) : Int := max (-2147483648) (min 2147483647 k)

/-- A double from at most twenty digits and a power of ten, with one rounding for each step. -/
def Number.Parts.float? (p : Number.Parts) : Option Float :=
  let (n, dropped) := gather 0 p.whole
  let fraction := p.fraction.getD []
  let (m, unread) := gather n fraction
  let k : Int := (dropped.length : Int) - ((fraction.length - unread.length : Nat) : Int)
  let x := match p.exponent with
    | none => scale m.toUInt64.toFloat k 4
    | some (neg, ds) =>
      let e := Decimal.ofDigits ds
      if 2147483647 < e then if neg || m = 0 then some 0.0 else none
      else scale m.toUInt64.toFloat (clampWord (if neg then k - e else k + e)) 4
  x.map fun x => if p.negative then -x else x

/-- Integers of 64 bits stay integers; zero with a minus sign does not. -/
def Number.Parts.value (p : Number.Parts) : Option Number :=
  let n := Decimal.ofDigits p.whole
  match p.fraction, p.exponent with
  | none, none =>
    if !p.negative && n ≤ maxWord then some (.whole n.toUInt64)
    else if p.negative && 0 < n && n ≤ Nat.pow 2 63 then some (.negative (Int64.ofInt (-(n : Int))))
    else p.float?.map .float
  | _, _ => p.float?.map .float

def Number.exponent? (cs : List Char) : Option (Option (Bool × List Char) × List Char) :=
  match cs with
  | [] => some (none, [])
  | c :: r =>
    if c = 'e' ∨ c = 'E' then
      let (neg, r) := Decimal.signed r
      let ds := r.takeWhile Decimal.isDigit
      if ds.isEmpty then none else some (some (neg, ds), r.dropWhile Decimal.isDigit)
    else some (none, c :: r)

/-- The longest number at the start of the characters, and what is left of them. -/
def Number.parts? (cs : List Char) : Option (Number.Parts × List Char) :=
  let (neg, cs) := match cs with
    | '-' :: r => (true, r)
    | r => (false, r)
  let whole := cs.takeWhile Decimal.isDigit
  let rest := cs.dropWhile Decimal.isDigit
  if whole.isEmpty || (whole.head? == some '0' && 1 < whole.length) then none
  else match rest with
    | '.' :: r =>
      let ds := r.takeWhile Decimal.isDigit
      if ds.isEmpty then none
      else (Number.exponent? (r.dropWhile Decimal.isDigit)).map fun (e, left) =>
        (⟨neg, whole, some ds, e⟩, left)
    | r => (Number.exponent? r).map fun (e, left) => (⟨neg, whole, none, e⟩, left)

def ends (t : Token) (left : List Char) : List Token := if left.isEmpty then [t] else [t, .bad]

def numberTokens (cs : List Char) : List Token :=
  match Number.parts? cs with
  | none => [.bad]
  | some (p, left) => ends (.number p.value) left

def wordTokens (cs : List Char) : List Token :=
  match cs with
  | 'n' :: 'u' :: 'l' :: 'l' :: left => ends .null left
  | 't' :: 'r' :: 'u' :: 'e' :: left => ends (.bool true) left
  | 'f' :: 'a' :: 'l' :: 's' :: 'e' :: left => ends (.bool false) left
  | _ => [.bad]

/-- A string being read: its characters so far in reverse, and the first half of a surrogate pair
that waits for the second one. -/
structure Quote where
  chars : Option (List Char)
  half : Option Nat

namespace Quote

def start : Quote := ⟨some [], none⟩

def unpaired : Quote := ⟨none, none⟩

def push (q : Quote) (c : Char) : Quote :=
  if q.half.isSome then unpaired else ⟨q.chars.map (c :: ·), none⟩

def pushUnit (q : Quote) (u : Nat) : Quote :=
  match q.half with
  | some high =>
    if 0xDC00 ≤ u ∧ u < 0xE000 then
      ⟨q.chars.map (Char.ofNat (0x10000 + (high - 0xD800) * 0x400 + (u - 0xDC00)) :: ·), none⟩
    else unpaired
  | none =>
    if 0xD800 ≤ u ∧ u < 0xDC00 then ⟨q.chars, some u⟩
    else if 0xDC00 ≤ u ∧ u < 0xE000 then unpaired
    else q.push (Char.ofNat u)

def close (q : Quote) : Option String :=
  if q.half.isSome then none else q.chars.map fun cs => String.ofList cs.reverse

end Quote

def unescape? (c : Char) : Option Char :=
  match c with
  | '"' => some '"'
  | '\\' => some '\\'
  | '/' => some '/'
  | 'b' => some '\x08'
  | 'f' => some '\x0c'
  | 'n' => some '\n'
  | 'r' => some '\r'
  | 't' => some '\t'
  | _ => none

def hexValue? (c : Char) : Option Nat :=
  if '0' ≤ c ∧ c ≤ '9' then some (c.toNat - 48)
  else if 'a' ≤ c ∧ c ≤ 'f' then some (c.toNat - 87)
  else if 'A' ≤ c ∧ c ≤ 'F' then some (c.toNat - 55)
  else none

inductive Mode
  | between
  | word (read : List Char)
  | number (read : List Char)
  | quote (q : Quote)
  | escape (q : Quote)
  | hex (q : Quote) (left : Nat) (value : Nat)

def isBlank (c : Char) : Bool := c = ' ' || c = '\n' || c = '\t' || c = '\r'

def isLetter (c : Char) : Bool := 'a' ≤ c && c ≤ 'z'

def isNumeral (c : Char) : Bool :=
  Decimal.isDigit c || c = '-' || c = '+' || c = '.' || c = 'e' || c = 'E'

/-- The first character of a token: a token of its own, or the mode it opens. -/
def opening (c : Char) : List Token × Mode :=
  match c with
  | '\x7b' => ([.openBrace], .between)
  | '\x7d' => ([.closeBrace], .between)
  | '[' => ([.openBracket], .between)
  | ']' => ([.closeBracket], .between)
  | ',' => ([.comma], .between)
  | ':' => ([.colon], .between)
  | '"' => ([], .quote .start)
  | c =>
    if isBlank c then ([], .between)
    else if Decimal.isDigit c || c = '-' then ([], .number [c])
    else if isLetter c then ([], .word [c])
    else ([.bad], .between)

def tokens : Mode → List Char → List Token
  | .between, [] => []
  | .word w, [] => wordTokens w.reverse
  | .number w, [] => numberTokens w.reverse
  | .quote _, [] | .escape _, [] | .hex _ _ _, [] => [.bad]
  | .between, c :: cs => (opening c).1 ++ tokens (opening c).2 cs
  | .word w, c :: cs =>
    if isLetter c then tokens (.word (c :: w)) cs
    else wordTokens w.reverse ++ ((opening c).1 ++ tokens (opening c).2 cs)
  | .number w, c :: cs =>
    if isNumeral c then tokens (.number (c :: w)) cs
    else numberTokens w.reverse ++ ((opening c).1 ++ tokens (opening c).2 cs)
  | .quote q, c :: cs =>
    if c = '"' then .string q.close :: tokens .between cs
    else if c = '\\' then tokens (.escape q) cs
    else if c.toNat < 32 then [.bad]
    else tokens (.quote (q.push c)) cs
  | .escape q, c :: cs =>
    if c = 'u' then tokens (.hex q 4 0) cs
    else match unescape? c with
      | some d => tokens (.quote (q.push d)) cs
      | none => [.bad]
  | .hex q left value, c :: cs =>
    match hexValue? c with
    | none => [.bad]
    | some d =>
      if left ≤ 1 then tokens (.quote (q.pushUnit (16 * value + d))) cs
      else tokens (.hex q (left - 1) (16 * value + d)) cs

def tokenize (s : String) : List Token := tokens .between s.toList

end Rollout.Json
