import Rollout.Yaml.Spot
import Rollout.Json.Token

/-! Scanning scalars. Each function takes the text from where the scalar starts and returns its
value with the text behind it, or nothing if the scalar goes wrong. -/

namespace Rollout.Yaml

def breaksOf (ps : List Spot) : List Char := (text ps).filter isBreak

def isWhite (p : Spot) : Bool := isBlank p.char || isBreak p.char

/-- What white space between two parts of a scalar amounts to. -/
def gap (ps : List Spot) : List Char :=
  let breaks := breaksOf ps
  if breaks.isEmpty then text ps else fold breaks

def isFlowIndicator (c : Char) : Bool :=
  c = ',' || c = '[' || c = ']' || c = '\x7b' || c = '\x7d'

/-- The end of a run of characters without white space in a plain scalar. -/
inductive RunEnd
  | ended
  | white
  | wrong

def plainRun (flow : Bool) : List Spot → List Char → List Char × RunEnd × List Spot
  | [], acc => (acc, .ended, [])
  | p :: rest, acc =>
    if isWhite p then (acc, .white, p :: rest)
    else if flow && p.char = ':' &&
        (match rest with | q :: _ => isFlowIndicator q.char || q.char = '?' | [] => false) then
      (acc, .wrong, rest)
    else if (p.char = ':' && parted rest) || (flow && isFlowIndicator p.char) then
      (acc, .ended, p :: rest)
    else plainRun flow rest (p.char :: acc)

/-- A tab inside the indentation that a continued line needs. -/
def tabInIndent (indent : Int) : List Spot → Bool → Bool
  | [], _ => false
  | p :: rest, fresh =>
    if isBreak p.char then tabInIndent indent rest true
    else (fresh && p.char = '\t' && (p.column : Int) < indent) || tabInIndent indent rest fresh

/-- A plain scalar: its value in reverse, and whether a line end stands behind it. -/
def plain (flow : Bool) (indent : Int) :
    Nat → List Spot → List Char → List Char → Option (List Char × Bool × List Spot)
  | 0, _, _, _ => none
  | fuel + 1, cs, acc, between =>
    let ended := some (acc, between.any isBreak, cs)
    if isDocumentBoundary cs then ended
    else match cs with
      | [] => ended
      | p :: _ =>
        if p.char = '#' then ended
        else
          let (run, stop, rest) := plainRun flow cs []
          let acc := if run.isEmpty then acc else run ++ ((joined between).reverse ++ acc)
          match stop with
          | .wrong => none
          | .ended => some (acc, run.isEmpty && between.any isBreak, rest)
          | .white =>
            let white := rest.takeWhile isWhite
            let after := rest.dropWhile isWhite
            let lined := white.any fun p => isBreak p.char
            let deep := match after with
              | [] => true
              | q :: _ => indent ≤ q.column
            if tabInIndent indent white false then none
            else if !flow && lined && !deep then some (acc, true, after)
            else plain flow indent fuel after acc (text white)
where
  joined (between : List Char) : List Char :=
    let breaks := between.filter isBreak
    if breaks.isEmpty then between else fold breaks

def singleQuoted : Nat → List Spot → List Char → Option (List Char × List Spot)
  | 0, _, _ => none
  | fuel + 1, cs, acc =>
    if isDocumentBoundary cs then none
    else match cs with
      | [] => none
      | p :: rest =>
        if p.char = '\'' then
          match rest with
          | q :: more => if q.char = '\'' then singleQuoted fuel more ('\'' :: acc) else some (acc, rest)
          | [] => some (acc, [])
        else if isWhite p then
          singleQuoted fuel (cs.dropWhile isWhite) ((gap (cs.takeWhile isWhite)).reverse ++ acc)
        else singleQuoted fuel rest (p.char :: acc)

def namedEscape? (c : Char) : Option Char :=
  match c with
  | '0' => some '\x00'
  | 'a' => some '\x07'
  | 'b' => some '\x08'
  | 't' | '\t' => some '\t'
  | 'n' => some '\n'
  | 'v' => some '\x0b'
  | 'f' => some '\x0c'
  | 'r' => some '\r'
  | 'e' => some '\x1b'
  | ' ' => some ' '
  | '"' => some '"'
  | '/' => some '/'
  | '\\' => some '\\'
  | 'N' => some '\u0085'
  | '_' => some '\u00a0'
  | 'L' => some '\u2028'
  | 'P' => some '\u2029'
  | _ => none

def escapeWidth? (c : Char) : Option Nat :=
  match c with
  | 'x' => some 2
  | 'u' => some 4
  | 'U' => some 8
  | _ => none

def hexadecimal? (cs : List Char) : Option Nat :=
  cs.foldl (fun n c => do return 16 * (← n) + (← Json.hexValue? c)) (some 0)

/-- The character of an escape behind its backslash. -/
def escape? (cs : List Spot) : Option (Char × List Spot) :=
  match cs with
  | [] => none
  | p :: rest =>
    match escapeWidth? p.char with
    | none => (namedEscape? p.char).map (·, rest)
    | some width => do
      let ds := rest.take width
      let n ← hexadecimal? (text ds)
      if ds.length < width ∨ (0xD800 ≤ n ∧ n < 0xE000) ∨ 0x10FFFF < n then none
      else some (Char.ofNat n, rest.drop width)

def doubleQuoted : Nat → List Spot → List Char → Option (List Char × List Spot)
  | 0, _, _ => none
  | fuel + 1, cs, acc =>
    if isDocumentBoundary cs then none
    else match cs with
      | [] => none
      | p :: rest =>
        if p.char = '"' then some (acc, rest)
        else if p.char = '\\' then
          if (match rest with | q :: _ => isBreak q.char | [] => false) then
            let white := (rest.drop 1).takeWhile isWhite
            doubleQuoted fuel ((rest.drop 1).dropWhile isWhite) ((breaksOf white).reverse ++ acc)
          else do
            let (c, left) ← escape? rest
            doubleQuoted fuel left (c :: acc)
        else if isWhite p then
          doubleQuoted fuel (cs.dropWhile isWhite) ((gap (cs.takeWhile isWhite)).reverse ++ acc)
        else doubleQuoted fuel rest (p.char :: acc)

inductive Chomp
  | strip
  | clip
  | keep

structure Header where
  chomp : Chomp
  increment : Nat

def chomp? (c : Char) : Option Chomp :=
  if c = '+' then some .keep else if c = '-' then some .strip else none

/-- The header behind the indicator of a block scalar, up to the end of its line. -/
def header? (cs : List Spot) : Option (Header × List Spot) :=
  let digit? (cs : List Spot) : Option (Nat × List Spot) :=
    match cs with
    | p :: rest =>
      if Decimal.isDigit p.char then
        if p.char = '0' then none else some (Decimal.digitValue p.char, rest)
      else some (0, cs)
    | [] => some (0, [])
  let chomping (cs : List Spot) : Option Chomp × List Spot :=
    match cs with
    | p :: rest => match chomp? p.char with
      | some c => (some c, rest)
      | none => (none, cs)
    | [] => (none, [])
  do
    let (first, cs) := chomping cs
    let (increment, cs) ← digit? cs
    let (second, cs) := if first.isSome then (none, cs) else chomping cs
    let cs := cs.dropWhile fun p => isBlank p.char
    let cs := match cs with
      | p :: _ => if p.char = '#' then cs.dropWhile (fun p => !isBreak p.char) else cs
      | [] => []
    if lineOver cs then some (⟨(first.or second).getD .clip, increment⟩, cs.drop 1) else none

/-- Skips the indentation and empty lines in front of a line: the column reached, the line ends
skipped, and the text from there. While the depth is open all blanks belong to the indentation. -/
def blockBreaks (depth : Nat) :
    Nat → List Spot → Nat → Nat → List Char → Option (Nat × Nat × List Char × List Spot)
  | 0, _, _, _, _ => none
  | fuel + 1, cs, column, widest, breaks =>
    let inside := depth = 0 || column < depth
    match cs with
    | [] => some (column, max widest column, breaks, [])
    | p :: rest =>
      if inside && p.char = ' ' then blockBreaks depth fuel rest (column + 1) widest breaks
      else if inside && p.char = '\t' then none
      else if isBreak p.char then
        blockBreaks depth fuel rest 0 (max widest column) (p.char :: breaks)
      else some (column, max widest column, breaks, cs)

/-- The lines of a block scalar at a depth, in reverse, with the line ends that are still open. -/
def blockLines (literal : Bool) (depth : Nat) :
    Nat → List Spot → Nat → List Char → List Char → List Char → Bool →
      Option (List Char × List Char × List Char × List Spot)
  | 0, _, _, _, _, _, _ => none
  | fuel + 1, cs, column, acc, lead, trailing, indented =>
    match cs with
    | [] => some (acc, lead, trailing, [])
    | p :: _ =>
      if column ≠ depth then some (acc, lead, trailing, cs)
      else
        let blank := isBlank p.char
        let folded := !literal && lead = ['\n'] && !indented && !blank
        let lead := if folded then (if trailing.isEmpty then [' '] else []) else lead
        let line := cs.takeWhile fun p => !isBreak p.char
        let rest := cs.dropWhile fun p => !isBreak p.char
        let acc := (text line).reverse ++ (trailing ++ (lead ++ acc))
        match rest with
        | [] => some (acc, [], [], [])
        | q :: rest => do
          let (column, _, breaks, cs) ← blockBreaks depth fuel rest 0 0 []
          blockLines literal depth fuel cs column acc [q.char] breaks blank

/-- A block scalar behind its indicator, in reverse. -/
def block (literal : Bool) (indent : Int) (cs : List Spot) : Option (List Char × List Spot) := do
  let (h, cs) ← header? cs
  let fuel := cs.length + 2
  let given := if h.increment = 0 then 0
    else if 0 ≤ indent then indent.toNat + h.increment else h.increment
  let (column, widest, breaks, cs) ← blockBreaks given fuel cs 0 0 []
  let depth := if given = 0 then max widest (max (indent + 1).toNat 1) else given
  let (acc, lead, trailing, cs) ← blockLines literal depth fuel cs column [] [] breaks false
  some <| match h.chomp with
    | .strip => (acc, cs)
    | .clip => (lead ++ acc, cs)
    | .keep => (trailing ++ (lead ++ acc), cs)

end Rollout.Yaml
