/-! The characters of a YAML text with their places. Line ends of every style are one character. -/

namespace Rollout.Yaml

structure Spot where
  char : Char
  index : Nat
  line : Nat
  column : Nat

def isBreak (c : Char) : Bool := c = '\n' || c = '\u2028' || c = '\u2029'

def isBlank (c : Char) : Bool := c = ' ' || c = '\t'

def isAllowed (c : Char) : Bool :=
  let n := c.toNat
  n = 9 || n = 10 || n = 13 || (0x20 ≤ n && n ≤ 0x7E) || n = 0x85 || (0xA0 ≤ n && n ≤ 0xFFFD) ||
    0x10000 ≤ n

def joinLineEnds : List Char → List Char
  | [] => []
  | '\r' :: '\n' :: rest => '\n' :: joinLineEnds rest
  | c :: rest => (if c = '\r' ∨ c = '\u0085' then '\n' else c) :: joinLineEnds rest

def place : List Char → Nat → Nat → Nat → List Spot
  | [], _, _, _ => []
  | c :: rest, index, line, column =>
    ⟨c, index, line, column⟩ ::
      if isBreak c then place rest (index + 1) (line + 1) 0
      else place rest (index + 1) line (column + 1)

/-- A mark of the byte order at the start does not belong to the text. -/
def spots? (s : String) : Option (List Spot) :=
  let cs := match s.toList with
    | '\ufeff' :: rest => rest
    | cs => cs
  if cs.all isAllowed then some (place (joinLineEnds cs) 0 0 0) else none

/-- Whether the text ends here or goes on with a blank or a line end. -/
def parted : List Spot → Bool
  | [] => true
  | p :: _ => isBlank p.char || isBreak p.char

def lineOver : List Spot → Bool
  | [] => true
  | p :: _ => isBreak p.char

def text (ps : List Spot) : List Char := ps.map (·.char)

/-- Three equal characters at the start of a line, alone or before a blank. -/
def isBoundary (c : Char) (cs : List Spot) : Bool :=
  match cs with
  | p :: q :: r :: rest =>
    p.column = 0 && p.char = c && q.char = c && r.char = c && parted rest
  | _ => false

def isDocumentBoundary (cs : List Spot) : Bool := isBoundary '-' cs || isBoundary '.' cs

/-- Line ends between two parts of a folded text: one is a blank, of several the first goes. -/
def fold (breaks : List Char) : List Char :=
  match breaks with
  | [] => []
  | '\n' :: [] => [' ']
  | '\n' :: more => more
  | breaks => breaks

def isWordChar (c : Char) : Bool :=
  ('a' ≤ c && c ≤ 'z') || ('A' ≤ c && c ≤ 'Z') || ('0' ≤ c && c ≤ '9') || c = '_' || c = '-'

end Rollout.Yaml
