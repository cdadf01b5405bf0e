import Rollout.Document.Reader

/-! Records: fields by name in any order, or by position. Unknown members are skipped, a known one
may stand only once, and missing ones are looked for after the record was read. -/

namespace Rollout.Doc

/-- A field, how its value is read, and what stands for it when no member has its name or when the
items end before it. -/
structure Field (α : Type) where
  name : String
  read : Source → Doc → Reading α
  absent : Option α
  short : Option α

def Field.needed (name : String) (read : Source → Doc → Reading α) : Field α :=
  ⟨name, read, none, none⟩

def Field.default (name : String) (read : Source → Doc → Reading α) (a : α) : Field α :=
  ⟨name, read, some a, some a⟩

/-- A value that may be missing, but whose place among the items may not. -/
def Field.optional (name : String) (read : Doc → Reading α) : Field (Option α) :=
  ⟨name, fun _ => readOptional read, some none, none⟩

def plainly (read : Doc → Reading α) : Source → Doc → Reading α := fun _ => read

/-- The fields of a record in order. The record is read as the tuple `ρ` of their values; `σ` is the
tuple of the values found so far. -/
inductive Fields : Type → Type → Type 1
  | nil : Fields Unit Unit
  | cons (f : Field α) (rest : Fields ρ σ) : Fields (α × ρ) (Option α × σ)

namespace Fields

def vacant : Fields ρ σ → σ
  | nil => ()
  | cons _ rest => (none, rest.vacant)

def names : Fields ρ σ → List String
  | nil => []
  | cons f rest => f.name :: rest.names

def count (fs : Fields ρ σ) : Nat := fs.names.length

/-- Takes in one member. -/
def put (src : Source) (name : String) (d : Doc) : Fields ρ σ → σ → Reading σ
  | nil, () => if d.skippable then pure () else throw .malformed
  | cons f rest, (slot, slots) =>
    if f.name = name then
      if slot.isSome then fail (.duplicate name)
      else do
        let a ← f.read src d
        return (some a, slots)
    else do
      let others ← rest.put src name d slots
      return (slot, others)

/-- The first field without a value decides. -/
def finish : Fields ρ σ → σ → Reading ρ
  | nil, () => pure ()
  | cons f rest, (slot, slots) =>
    match slot.or f.absent with
    | none => fail (.missing f.name)
    | some a => do
      let r ← rest.finish slots
      return (a, r)

/-- The name of a member; in a buffer a number stands for the field at its position. -/
def memberName (src : Source) (names : List String) (key : Doc) : Reading String :=
  match src, key with
  | .buffer, number (some (.whole n)) => pure (names.getD n.toNat "")
  | .text, string (some s) => pure s
  | .text, _ => throw .malformed
  | .yaml, key => readString key
  | _, string (some s) => pure s
  | _, key => mismatch key "field identifier"

def members (src : Source) (fs : Fields ρ σ) : List (Doc × Doc) → Bool → σ → Reading σ
  | [], closed, slots => if closed then pure slots else throw .malformed
  | (k, d) :: rest, closed, slots => do
    let name ← memberName src fs.names k
    let slots ← fs.put src name d slots
    members src fs rest closed slots

/-- Reads values by position; returns what is left of the items. Too few of them are a fault only
where a field may not be absent. -/
def positions (src : Source) (total : Nat) (expected : String) :
    Fields ρ σ → Nat → List Doc → Bool → Reading (ρ × List Doc)
  | nil, _, items, _ => pure ((), items)
  | cons f rest, n, d :: items, closed => do
    let a ← f.read src d
    let (r, left) ← rest.positions src total expected (n + 1) items closed
    return ((a, r), left)
  | cons f rest, n, [], closed =>
    if !closed then throw .malformed
    else match f.short with
      | none => fail (.wrongLength n expected)
      | some a => do
        let (r, left) ← rest.positions src total expected (n + 1) [] closed
        return ((a, r), left)

def elements (n : Nat) : String := toString n ++ if n = 1 then " element" else " elements"

/-- Items behind the last field. -/
def surplus (src : Source) (fields items : Nat) (closed : Bool) : Reading Unit :=
  if items ≤ fields then
    if closed then pure () else throw .malformed
  else match src with
    | .value => fail (.wrongLength items "fewer elements in array")
    | .buffer => fail (.wrongLength items (elements fields ++ " in sequence"))
    | _ => throw .malformed

/-- Reads a record that is called `title` in faults. -/
def read (fs : Fields ρ σ) (title : String) (src : Source) (d : Doc) : Reading ρ :=
  match untagged d with
  | object ms closed => do fs.finish (← fs.members src ms closed fs.vacant)
  | array items closed =>
    if src = .yaml then mismatch d title
    else do
      let expected := title ++ " with " ++ elements fs.count
      let (r, _) ← fs.positions src fs.count expected 0 items closed
      surplus src fs.count items.length closed
      return r
  | d => if isVoid d then fs.finish fs.vacant else mismatch d title

end Fields

end Rollout.Doc
