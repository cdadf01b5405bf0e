import Rollout.Json.Token

/-! From tokens to a document. Open arrays and objects are kept on a stack; at the first token that
does not fit, all of them stay unclosed. -/

namespace Rollout.Json

/-- An open array or object: what it holds so far in reverse, and the key whose value is next. -/
inductive Open
  | array (items : List Doc)
  | object (members : List (Doc × Doc)) (key : Option Doc)

inductive Want
  | value
  | firstItem
  | firstKey
  | key
  | colon
  | next

/-- A finished value inside the innermost open container. -/
def Open.put (d : Doc) : Open → Open
  | array items => array (d :: items)
  | object members (some k) => object ((k, d) :: members) none
  | object members none => object members none

def Open.close (closed : Bool) : Open → Doc
  | array items => .array items.reverse closed
  | object members none => .object members.reverse closed
  | object members (some k) => .object ((k, .broken) :: members).reverse closed

/-- The document of a text that goes wrong while these containers are open. -/
def abandon : List Open → Doc
  | [] => .broken
  | o :: rest => rest.foldl (fun d p => (p.put d).close false) (o.close false)

/-- The start of a value, as far as one token tells. -/
def Token.leaf? : Token → Option Doc
  | .null => some .null
  | .bool b => some (.bool b)
  | .number n => some (.number n)
  | .string s => some (.string s)
  | _ => none

/-- A key that is no string breaks the object, but is seen first. -/
def Token.badKey? : Token → Option Doc
  | .openBracket => some (.array [] false)
  | .openBrace => some (.object [] false)
  | t => t.leaf?

def keyed (k : Doc) : List Open → List Open
  | .object members _ :: rest => .object members (some k) :: rest
  | stack => stack

/-- The document and whether the text ends with it. -/
def assemble : List Token → List Open → Want → Doc × Bool
  | [], stack, _ => (abandon stack, false)
  | t :: ts, stack, want =>
    let placed (d : Doc) : Doc × Bool :=
      match stack with
      | [] => (d, ts.isEmpty)
      | o :: rest => assemble ts (o.put d :: rest) .next
    let closing : Doc × Bool :=
      match stack with
      | [] => (.broken, false)
      | [o] => (o.close true, ts.isEmpty)
      | o :: p :: rest => assemble ts (p.put (o.close true) :: rest) .next
    match want, t, stack with
    | .firstItem, .closeBracket, _ => closing
    | .firstKey, .closeBrace, _ => closing
    | .next, .closeBracket, .array _ :: _ => closing
    | .next, .closeBrace, .object _ _ :: _ => closing
    | .next, .comma, .array _ :: _ => assemble ts stack .value
    | .next, .comma, .object _ _ :: _ => assemble ts stack .key
    | .colon, .colon, _ => assemble ts stack .value
    | .value, .openBracket, _ | .firstItem, .openBracket, _ =>
      assemble ts (.array [] :: stack) .firstItem
    | .value, .openBrace, _ | .firstItem, .openBrace, _ =>
      assemble ts (.object [] none :: stack) .firstKey
    | .value, t, _ | .firstItem, t, _ =>
      match t.leaf? with
      | some d => placed d
      | none => (abandon stack, false)
    | .key, .string s, _ | .firstKey, .string s, _ => assemble ts (keyed (.string s) stack) .colon
    | .key, t, _ | .firstKey, t, _ =>
      match t.badKey? with
      | some k => (abandon (keyed k stack), false)
      | none => (abandon stack, false)
    | _, _, _ => (abandon stack, false)

/-- Reads a text as one document; the flag tells that nothing but blanks follows it. -/
def document (s : String) : Doc × Bool := assemble (tokenize s) [] .value

end Rollout.Json
