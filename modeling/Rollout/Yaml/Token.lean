import Rollout.Yaml.Scalar
import Rollout.Document.Basic

/-! The tokens of a YAML text. Indentation becomes block starts and ends. Whether a scalar is the key
of a mapping shows only at the colon behind it, so each flow level remembers where its last possible
key began, and the tokens for a key are put in there afterwards. -/

namespace Rollout.Yaml

structure Tag where
  handle : String
  suffix : String
deriving Repr, DecidableEq

inductive Token
  | directive (name : String) (arguments : List String)
  | documentStart
  | documentEnd
  | blockSequence
  | blockMapping
  | blockEnd
  | sequenceStart
  | sequenceEnd
  | mappingStart
  | mappingEnd
  | entry
  | flowEntry
  | key
  | value
  | alias (name : String)
  | anchor (name : String)
  | tag (t : Tag)
  | scalar (text : String) (form : Doc.Form)

/-- Where a key may have begun. In a block at the depth of its mapping it must be one. -/
structure Candidate where
  place : Nat
  spot : Spot
  required : Bool

structure Scan where
  /-- In reverse. -/
  done : List Token
  indent : Int
  outer : List Int
  allowed : Bool
  candidates : List (Option Candidate)

namespace Scan

def start : Scan := ⟨[], -1, [], true, [none]⟩

def flow (s : Scan) : Bool := 1 < s.candidates.length

def emit (t : Token) (s : Scan) : Scan := { s with done := t :: s.done }

def allow (b : Bool) (s : Scan) : Scan := { s with allowed := b }

def candidate? (s : Scan) : Option Candidate := s.candidates.head?.join

def setCandidate (c : Option Candidate) (s : Scan) : Scan :=
  { s with candidates := c :: s.candidates.drop 1 }

/-- Gives up the last possible key, which must not have been required. -/
def dropCandidate (s : Scan) : Option Scan :=
  match s.candidate? with
  | some c => if c.required then none else some (s.setCandidate none)
  | none => some s

/-- A key stays possible on its line and for 1024 characters. -/
def ageCandidates (p : Spot) (s : Scan) : Option Scan := do
  let age (c : Option Candidate) : Option (Option Candidate) :=
    match c with
    | none => some none
    | some c =>
      if c.spot.line < p.line ∨ c.spot.index + 1024 < p.index then
        if c.required then none else some none
      else some (some c)
  let candidates ← s.candidates.mapM age
  some { s with candidates }

def saveCandidate (p : Spot) (s : Scan) : Option Scan :=
  if s.allowed then do
    let s ← s.dropCandidate
    let required := !s.flow && s.indent = (p.column : Int)
    some (s.setCandidate (some ⟨s.done.length, p, required⟩))
  else some s

/-- Opens a block at a column; its token goes to a place among the tokens. -/
def openBlock (column : Nat) (place : Nat) (t : Token) (s : Scan) : Scan :=
  if !s.flow && s.indent < (column : Int) then
    { s with
      outer := s.indent :: s.outer
      indent := column
      done := s.done.insertIdx (s.done.length - place) t }
  else s

def closeBlocks (column : Int) (s : Scan) : Scan :=
  if s.flow then s else close s.outer s
where
  close : List Int → Scan → Scan
    | [], s => s
    | i :: rest, s =>
      if column < s.indent then
        close rest { s with indent := i, outer := rest, done := .blockEnd :: s.done }
      else s

def closeAll (s : Scan) : Option Scan :=
  ((s.closeBlocks (-1)).dropCandidate).map (allow false)

end Scan

/-- Skips blanks, comments and line ends in front of a token; a line end outside of flow collections
allows a key again. -/
def toToken (s : Scan) : Nat → List Spot → Scan × List Spot
  | 0, cs => (s, cs)
  | fuel + 1, cs =>
    match cs with
    | [] => (s, [])
    | p :: rest =>
      if p.char = ' ' || (p.char = '\t' && (s.flow || !s.allowed)) then toToken s fuel rest
      else if p.char = '#' then toToken s fuel (rest.dropWhile fun q => !isBreak q.char)
      else if isBreak p.char then toToken (if s.flow then s else s.allow true) fuel rest
      else (s, cs)

def isTagChar (verbatim : Bool) (c : Char) : Bool :=
  isWordChar c || c ∈ [';', '/', '?', ':', '@', '&', '=', '+', '$', '.', '%', '!', '~', '*', '\'',
    '(', ')'] || (verbatim && c ∈ [',', '[', ']'])

/-- Decodes the bytes written with percent signs. -/
def unpercent? : Nat → List Char → Option (List UInt8)
  | 0, _ => none
  | _, [] => some []
  | fuel + 1, '%' :: a :: b :: rest => do
    let n ← hexadecimal? [a, b]
    return n.toUInt8 :: (← unpercent? fuel rest)
  | _, '%' :: _ => none
  | fuel + 1, c :: rest => do return (String.singleton c).toUTF8.toList ++ (← unpercent? fuel rest)

def tagText? (cs : List Spot) : Option String := do
  let bytes ← unpercent? (cs.length + 1) (text cs)
  String.fromUTF8? ⟨bytes.toArray⟩

def tag? (flow : Bool) (cs : List Spot) : Option (Tag × List Spot) := do
  let (t, cs) ← match text (cs.take 2) with
    | ['!', '<'] =>
      let uri := (cs.drop 2).takeWhile fun p => isTagChar true p.char
      let rest := (cs.drop 2).dropWhile fun p => isTagChar true p.char
      match rest with
      | p :: more =>
        if p.char = '>' && !uri.isEmpty then (tagText? uri).map fun t => (Tag.mk "" t, more)
        else none
      | [] => none
    | _ =>
      let word := (cs.drop 1).takeWhile fun p => isWordChar p.char
      let rest := (cs.drop 1).dropWhile fun p => isWordChar p.char
      let suffix (cs : List Spot) := cs.takeWhile fun p => isTagChar false p.char
      match rest with
      | p :: more =>
        if p.char = '!' then
          let uri := suffix more
          if uri.isEmpty then none
          else (tagText? uri).map fun t =>
            (Tag.mk (String.ofList ('!' :: text word ++ ['!'])) t, more.drop uri.length)
        else
          let uri := suffix (cs.drop 1)
          (tagText? uri).map fun t => (shorthand t, (cs.drop 1).drop uri.length)
      | [] => (tagText? word).map fun t => (shorthand t, [])
  let fits := parted cs || (flow && (match cs with | p :: _ => p.char = ',' | [] => false))
  if fits then some (t, cs) else none
where
  shorthand (t : String) : Tag := if t.isEmpty then ⟨"", "!"⟩ else ⟨"!", t⟩

/-- The name of an anchor or alias behind its indicator. -/
def name? (cs : List Spot) : Option (String × List Spot) :=
  let word := cs.takeWhile fun p => isWordChar p.char
  let rest := cs.dropWhile fun p => isWordChar p.char
  let fits := parted rest || (match rest with
    | p :: _ => p.char ∈ ['?', ':', ',', ']', '\x7d', '%', '@', '\x60']
    | [] => false)
  if word.isEmpty || !fits then none else some (String.ofList (text word), rest)

def words (cs : List Char) : List String :=
  (((String.ofList cs).replace "\t" " ").splitOn " ").filter (!·.isEmpty)

/-- A directive behind its percent sign, up to the end of its line. -/
def directive? (cs : List Spot) : Option (Token × List Spot) :=
  let line := text (cs.takeWhile fun p => !isBreak p.char)
  let rest := cs.dropWhile fun p => !isBreak p.char
  match (words line).takeWhile (!·.startsWith "#") with
  | [] => none
  | name :: arguments => some (.directive name arguments, rest)

def startsPlain (flow : Bool) (p : Spot) (rest : List Spot) : Bool :=
  let c := p.char
  let indicator := c ∈ ['-', '?', ':', ',', '[', ']', '\x7b', '\x7d', '#', '&', '*', '!', '|', '>',
    '\'', '"', '%', '@', '\x60']
  let blankNext := match rest with | q :: _ => isBlank q.char | [] => false
  !(indicator || isWhite p) || (c = '-' && !blankNext) ||
    (!flow && (c = '?' || c = ':') && !parted rest)

/-- Scans one token that begins at a spot. -/
def Scan.fetch (s : Scan) (p : Spot) (rest : List Spot) : Option (Scan × List Spot) :=
  let cs := p :: rest
  let c := p.char
  let fuel := cs.length + 2
  if p.column = 0 && c = '%' then do
    let s ← s.closeAll
    let (t, left) ← directive? rest
    some (s.emit t, left)
  else if isBoundary '-' cs then s.closeAll.map fun s => (s.emit .documentStart, cs.drop 3)
  else if isBoundary '.' cs then s.closeAll.map fun s => (s.emit .documentEnd, cs.drop 3)
  else if c = '[' || c = '\x7b' then do
    let s ← s.saveCandidate p
    let s := { s with candidates := none :: s.candidates, allowed := true }
    some (s.emit (if c = '[' then .sequenceStart else .mappingStart), rest)
  else if c = ']' || c = '\x7d' then do
    let s ← s.dropCandidate
    let s := { s with candidates := if s.flow then s.candidates.drop 1 else s.candidates
                      allowed := false }
    some (s.emit (if c = ']' then .sequenceEnd else .mappingEnd), rest)
  else if c = ',' then do
    let s ← s.dropCandidate
    some ((s.allow true).emit .flowEntry, rest)
  else if c = '-' && parted rest then
    if !s.flow && !s.allowed then none
    else do
      let s ← (s.openBlock p.column s.done.length .blockSequence).dropCandidate
      some ((s.allow true).emit .entry, rest)
  else if c = '?' && (s.flow || parted rest) then
    if !s.flow && !s.allowed then none
    else do
      let s ← (s.openBlock p.column s.done.length .blockMapping).dropCandidate
      some ((s.allow (!s.flow)).emit .key, rest)
  else if c = ':' && (s.flow || parted rest) then
    match s.candidate? with
    | some k =>
      let s := { s with done := s.done.insertIdx (s.done.length - k.place) .key }
      let s := (s.openBlock k.spot.column k.place .blockMapping).setCandidate none
      some ((s.allow false).emit .value, rest)
    | none =>
      if !s.flow && !s.allowed then none
      else
        let s := s.openBlock p.column s.done.length .blockMapping
        some ((s.allow (!s.flow)).emit .value, rest)
  else if c = '*' then do
    let s ← s.saveCandidate p
    let (n, left) ← name? rest
    some ((s.allow false).emit (.alias n), left)
  else if c = '&' then do
    let s ← s.saveCandidate p
    let (n, left) ← name? rest
    some ((s.allow false).emit (.anchor n), left)
  else if c = '!' then do
    let s ← s.saveCandidate p
    let (t, left) ← tag? s.flow cs
    some ((s.allow false).emit (.tag t), left)
  else if (c = '|' || c = '>') && !s.flow then do
    let s ← s.dropCandidate
    let (value, left) ← block (c = '|') s.indent rest
    let form := if c = '|' then Doc.Form.literal else .quoted
    some ((s.allow true).emit (.scalar (String.ofList value.reverse) form), left)
  else if c = '\'' || c = '"' then do
    let s ← s.saveCandidate p
    let (value, left) ← if c = '"' then doubleQuoted fuel rest [] else singleQuoted fuel rest []
    some ((s.allow false).emit (.scalar (String.ofList value.reverse) .quoted), left)
  else if startsPlain s.flow p rest then do
    let s ← s.saveCandidate p
    let (value, lined, left) ← plain s.flow (s.indent + 1) fuel cs [] []
    some ((s.allow lined).emit (.scalar (String.ofList value.reverse) .plain), left)
  else none

def Scan.finish (s : Scan) : Option (List Token) := s.closeAll.map (·.done.reverse)

def Scan.run (s : Scan) : Nat → List Spot → Option (List Token)
  | 0, _ => none
  | fuel + 1, cs =>
    match toToken s (cs.length + 1) cs with
    | (s, []) => s.finish
    | (s, p :: rest) => do
      let s ← s.ageCandidates p
      let (s, left) ← (s.closeBlocks p.column).fetch p rest
      s.run fuel left

def tokens? (s : String) : Option (List Token) := do
  let cs ← spots? s
  Scan.start.run (cs.length + 1) cs

end Rollout.Yaml
