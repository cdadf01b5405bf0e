import Rollout.Json.Value

/-! Documents as they stand in a text, before anything is known of what they should hold. Where a
text goes wrong the document is broken at that place and nowhere before it, so that a reader meets
the faults of a text in the order of the text. -/

namespace Rollout

/-- How a scalar is written in a document without quotes around every string. -/
inductive Doc.Form
  | plain
  | literal
  | quoted
deriving Repr, DecidableEq

/-- A scalar whose type stays open until it is read. -/
structure Doc.Scalar where
  text : String
  form : Doc.Form
  tag : Option String
deriving Repr, DecidableEq

/-- Numbers beyond all doubles and strings with half of a surrogate pair have no value, but a
reader that skips them takes no offence. -/
inductive Doc
  | broken
  | null
  | bool (b : Bool)
  | number (n : Option Json.Number)
  | string (s : Option String)
  | scalar (s : Doc.Scalar)
  | tagged (name : String) (d : Doc)
  | array (items : List Doc) (closed : Bool)
  | object (members : List (Doc × Doc)) (closed : Bool)

namespace Doc

instance : Inhabited Doc := ⟨broken⟩

/-- Where a document comes from: a JSON text, a JSON value, a buffer that an enclosing record
kept for later, or a YAML text. -/
inductive Source
  | text
  | value
  | buffer
  | yaml
deriving Repr, DecidableEq

/-- How deep arrays and objects may be nested. -/
def Source.room : Source → Nat
  | .yaml => 128
  | _ => 127

mutual

def ofJson : Json → Doc
  | .null => null
  | .bool b => bool b
  | .number n => number (some n)
  | .string s => string (some s)
  | .array items => array (ofItems items) true
  | .object members => object (ofMembers members) true

def ofItems : List Json → List Doc
  | [] => []
  | v :: rest => ofJson v :: ofItems rest

def ofMembers : List (String × Json) → List (Doc × Doc)
  | [] => []
  | (k, v) :: rest => (string (some k), ofJson v) :: ofMembers rest

end

mutual

/-- Whether a reader that skips the document finds its end. -/
def skippable : Doc → Bool
  | broken => false
  | array items closed => itemsSkippable items && closed
  | object members closed => membersSkippable members && closed
  | tagged _ d => skippable d
  | _ => true

def itemsSkippable : List Doc → Bool
  | [] => true
  | d :: rest => skippable d && itemsSkippable rest

def membersSkippable : List (Doc × Doc) → Bool
  | [] => true
  | (k, v) :: rest => skippable k && skippable v && membersSkippable rest

end

end Doc

end Rollout
