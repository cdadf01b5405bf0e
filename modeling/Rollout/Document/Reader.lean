import Rollout.Document.Plain
import Rollout.Table

/-! Readers for the plain types. Each says what it expects; what stands there instead goes into the
fault, and a broken document is malformed whatever was expected. -/

namespace Rollout.Doc

def fail (m : Mismatch) : Reading α := throw (.mismatch m)

/-- What a document is at first sight; the inside of arrays and objects is not looked at. -/
def found : Doc → Reading Found
  | broken => throw .malformed
  | number none => throw .malformed
  | string none => throw .malformed
  | null => pure .null
  | bool b => pure (.bool b)
  | number (some n) => pure (.ofNumber n)
  | string (some s) => pure (.string s)
  | scalar s => pure (.string s.text)
  | tagged _ d => found d
  | array .. => pure .array
  | object .. => pure .object

def mismatch (d : Doc) (expected : String) : Reading α := do
  fail (.wrongType (← found d) expected)

def untagged : Doc → Doc
  | tagged _ d => untagged d
  | d => d

def readString (d : Doc) : Reading String :=
  match untagged d with
  | string (some s) => pure s
  | scalar s => pure s.text
  | d => mismatch d "a string"

def readBool (d : Doc) : Reading Bool :=
  match untagged d with
  | bool b => pure b
  | scalar s =>
    match (if s.isOpen "bool" then boolWord? s.text else none) with
    | some b => pure b
    | none => mismatch d "a boolean"
  | d => mismatch d "a boolean"

def number? (d : Doc) : Option Json.Number :=
  match untagged d with
  | number n => n
  | scalar s =>
    if s.isOpen "int" then
      match plainInt? s.text with
      | some (.ofNat n) =>
        if s.text.startsWith "-" then some (.float 0.0)
        else if n < Nat.pow 2 64 then some (.whole n.toUInt64) else none
      | some (.negSucc n) =>
        if n < Nat.pow 2 63 then some (.negative (Int64.ofInt (.negSucc n))) else none
      | none => none
    else none
  | _ => none

/-- A natural number of at most so many bits. -/
def readNat (bits : Nat) (type : String) (d : Doc) : Reading UInt64 :=
  match number? d with
  | some (.whole n) => if n.toNat < Nat.pow 2 bits then pure n else fail (.wrongValue (.whole n) type)
  | some (.negative n) => fail (.wrongValue (.negative n) type)
  | _ => mismatch d type

def readWord (d : Doc) : Reading UInt64 := readNat 64 "u64" d

def readSize (d : Doc) : Reading UInt64 := readNat 64 "usize" d

def readHalfWord (d : Doc) : Reading UInt32 := (·.toUInt32) <$> readNat 32 "u32" d

def readInteger (d : Doc) : Reading Int64 :=
  match untagged d with
  | scalar s =>
    match (if s.isOpen "int" then plainInt? s.text else none) with
    | some i =>
      if -(Nat.pow 2 63 : Int) ≤ i ∧ i < Nat.pow 2 63 then pure (Int64.ofInt i) else mismatch d "i64"
    | none => mismatch d "i64"
  | d =>
    match number? d with
    | some (.whole n) =>
      if n.toNat < Nat.pow 2 63 then pure n.toInt64 else fail (.wrongValue (.whole n) "i64")
    | some (.negative n) => pure n
    | _ => mismatch d "i64"

def readFloat (d : Doc) : Reading Float :=
  match untagged d with
  | scalar s =>
    match (if s.isOpen "float" then plainFloat? s.text else none) with
    | some x => pure x
    | none => mismatch d "f64"
  | d =>
    match number? d with
    | some (.whole n) => pure n.toFloat
    | some (.negative n) => pure n.toFloat
    | some (.float x) => pure x
    | none => mismatch d "f64"

/-- An unquoted scalar that holds nothing at all stands for an empty container. -/
def isVoid (d : Doc) : Bool :=
  match untagged d with
  | scalar s => s.form = .plain && s.text.isEmpty
  | _ => false

def readItems (read : Doc → Reading α) : List Doc → Bool → Reading (List α)
  | [], closed => if closed then pure [] else throw .malformed
  | d :: rest, closed => do
    let a ← read d
    return a :: (← readItems read rest closed)

def readList (read : Doc → Reading α) (d : Doc) : Reading (List α) :=
  match untagged d with
  | array items closed => readItems read items closed
  | d => if isVoid d then pure [] else mismatch d "a sequence"

/-- Whether a document says that there is no value. -/
def isNothing (d : Doc) : Reading Bool :=
  match d with
  | null => pure true
  | scalar s =>
    if s.form ≠ .plain then pure false
    else if s.tag = some (coreTag "null") then
      if isNullWord s.text then pure true else mismatch d "null"
    else pure (s.tag.isNone && (s.text.isEmpty || isNullWord s.text))
  | _ => pure false

def readOptional (read : Doc → Reading α) (d : Doc) : Reading (Option α) := do
  if ← isNothing d then pure none else some <$> read d

def readUnit (d : Doc) : Reading Unit :=
  match d with
  | null => pure ()
  | d => do
    if (untagged d matches scalar _) && (← isNothing d) then pure () else mismatch d "unit"

def readEntries (read : Doc → Reading α) : List (Doc × Doc) → Bool → Reading (List (String × α))
  | [], closed => if closed then pure [] else throw .malformed
  | (k, d) :: rest, closed => do
    let k ← readString k
    let a ← read d
    return (k, a) :: (← readEntries read rest closed)

/-- A map with strings as keys, the last value of a key winning. -/
def readTable (read : Doc → Reading α) (d : Doc) : Reading (Table String α) :=
  match untagged d with
  | object members closed => Table.ofList <$> readEntries read members closed
  | d => if isVoid d then pure Table.empty else mismatch d "a map"

mutual

/-- A free value. A number that is not finite is no value. -/
def readJson : Doc → Reading Json
  | broken => throw .malformed
  | null => pure .null
  | bool b => pure (.bool b)
  | number none => throw .malformed
  | number (some (.float x)) =>
    pure (if x.isNaN || x.isInf then .null else .number (.float x))
  | number (some n) => pure (.number n)
  | string none => throw .malformed
  | string (some s) => pure (.string s)
  | scalar s => pure (.string s.text)
  | tagged _ d => mismatch d "a JSON value"
  | array items closed => do
    let vs ← readJsonItems items
    if closed then pure (.array vs) else throw .malformed
  | object members closed => do
    let ms ← readJsonMembers members
    if closed then pure (.ofMembers ms) else throw .malformed

def readJsonItems : List Doc → Reading (List Json)
  | [] => pure []
  | d :: rest => do
    let v ← readJson d
    return v :: (← readJsonItems rest)

def readJsonMembers : List (Doc × Doc) → Reading (List (String × Json))
  | [] => pure []
  | (k, d) :: rest => do
    let k ← readString k
    let v ← readJson d
    return (k, v) :: (← readJsonMembers rest)

end

mutual

/-- The document with every scalar typed by itself, as a buffer keeps it; at most `room` levels of
arrays and objects. -/
def settle : Nat → Doc → Reading Doc
  | _, broken => throw .malformed
  | _, number none => throw .malformed
  | _, string none => throw .malformed
  | _, scalar s => s.settle
  | _, tagged _ d => mismatch d "a value without a tag"
  | 0, array .. => throw .malformed
  | 0, object .. => throw .malformed
  | room + 1, array items closed => do
    let items ← settleItems room items
    if closed then pure (array items true) else throw .malformed
  | room + 1, object members closed => do
    let members ← settleMembers room members
    if closed then pure (object members true) else throw .malformed
  | _, d => pure d

def settleItems : Nat → List Doc → Reading (List Doc)
  | _, [] => pure []
  | room, d :: rest => do
    let d ← settle room d
    return d :: (← settleItems room rest)

def settleMembers : Nat → List (Doc × Doc) → Reading (List (Doc × Doc))
  | _, [] => pure []
  | room, (k, d) :: rest => do
    let k ← settle room k
    let d ← settle room d
    return (k, d) :: (← settleMembers room rest)

end

end Rollout.Doc
