import Rollout.Yaml.Token
import Rollout.Document.Reader

/-! From YAML tokens to a document. Whatever may be left out of a collection stands for a scalar that
holds nothing; an alias stands for the document that its anchor names. -/

namespace Rollout.Yaml

structure Names where
  handles : List (String × String)
  anchors : List (String × Doc)

def Names.start : Names :=
  ⟨[("!", "!"), ("!!", "tag:yaml.org,2002:")], []⟩

def void : Doc := .scalar ⟨"", .plain, none⟩

structure Properties where
  anchor : Option String
  tag : Option String

def Properties.isEmpty (p : Properties) : Bool := p.anchor.isNone && p.tag.isNone

def Names.resolve? (names : Names) (t : Tag) : Option String :=
  if t.handle.isEmpty then some t.suffix
  else (names.handles.lookup t.handle).map (· ++ t.suffix)

/-- An anchor and a tag at most, in either order. -/
def properties (names : Names) (ts : List Token) : Option (Properties × List Token) :=
  match ts with
  | .anchor a :: .tag t :: rest => (names.resolve? t).map fun t => (⟨some a, some t⟩, rest)
  | .tag t :: .anchor a :: rest => (names.resolve? t).map fun t => (⟨some a, some t⟩, rest)
  | .anchor a :: rest => some (⟨some a, none⟩, rest)
  | .tag t :: rest => (names.resolve? t).map fun t => (⟨none, some t⟩, rest)
  | ts => some (⟨none, none⟩, ts)

/-- A tag that begins with an exclamation mark names a choice. -/
def localName? (tag : Option String) : Option String :=
  match tag.map String.toList with
  | some ['!'] => none
  | some ('!' :: rest) => some (String.ofList rest)
  | _ => none

def withTag (p : Properties) (d : Doc) : Doc :=
  match localName? p.tag with
  | some name => .tagged name d
  | none => d

def scalarDoc (p : Properties) (text : String) (form : Doc.Form) : Doc :=
  let core := p.tag.bind fun t => if t.startsWith "!" then none else some t
  let form := if p.tag = some "!" then .plain else form
  withTag p (.scalar ⟨text, form, core⟩)

def Names.bind (names : Names) (p : Properties) (d : Doc) : Names :=
  match p.anchor with
  | some a => { names with anchors := (a, d) :: names.anchors }
  | none => names

def finish (p : Properties) (names : Names) (d : Doc) (ts : List Token) :
    Option (Doc × Names × List Token) :=
  some (withTag p d, names.bind p (withTag p d), ts)

/-- Tokens that end a part of a block collection which holds nothing. -/
def endsBlock (sequence : Bool) : List Token → Bool
  | .entry :: _ => sequence
  | .key :: _ | .value :: _ => !sequence
  | .blockEnd :: _ => true
  | _ => false

def endsStep : List Token → Bool
  | .entry :: _ | .key :: _ | .value :: _ | .blockEnd :: _ => true
  | _ => false

def endsPair : List Token → Bool
  | .value :: _ | .flowEntry :: _ | .sequenceEnd :: _ => true
  | _ => false

def endsFlowKey : List Token → Bool
  | .value :: _ | .flowEntry :: _ | .mappingEnd :: _ => true
  | _ => false

def endsFlowValue : List Token → Bool
  | .flowEntry :: _ | .mappingEnd :: _ | .sequenceEnd :: _ => true
  | _ => false

/-- Properties alone belong to a scalar that holds nothing. -/
def empty (p : Properties) (names : Names) (ts : List Token) : Option (Doc × Names × List Token) :=
  if p.isEmpty then none
  else
    let d := scalarDoc p "" .plain
    some (d, names.bind p d, ts)

/-- Items behind the first one need a comma in front of them. -/
def separated (first : Bool) (ts : List Token) : Option (List Token) :=
  match first, ts with
  | true, ts => some ts
  | false, .flowEntry :: rest => some rest
  | false, _ => none

mutual

/-- One node; a sequence without indentation of its own is taken where a mapping holds it. -/
def node : Nat → Bool → Bool → Names → List Token → Option (Doc × Names × List Token)
  | 0, _, _, _, _ => none
  | fuel + 1, block, bare, names, ts =>
    match ts with
    | .alias a :: rest => (names.anchors.lookup a).map fun d => (d, names, rest)
    | _ => do
      let (p, ts) ← properties names ts
      match ts with
      | .entry :: _ =>
        if bare then
          let (items, names, ts) ← steps fuel names ts
          finish p names (.array items true) ts
        else empty p names ts
      | .scalar text form :: rest =>
        let d := scalarDoc p text form
        some (d, names.bind p d, rest)
      | .sequenceStart :: rest =>
        let (items, names, ts) ← flowItems fuel true names rest
        finish p names (.array items true) ts
      | .mappingStart :: rest =>
        let (members, names, ts) ← flowMembers fuel true names rest
        finish p names (.object members true) ts
      | .blockSequence :: rest =>
        if block then
          let (items, names, ts) ← blockItems fuel names rest
          finish p names (.array items true) ts
        else empty p names ts
      | .blockMapping :: rest =>
        if block then
          let (members, names, ts) ← blockMembers fuel names rest
          finish p names (.object members true) ts
        else empty p names ts
      | ts => empty p names ts

def optionalNode : Nat → Bool → Bool → Bool → Names → List Token → Option (Doc × Names × List Token)
  | 0, _, _, _, _, _ => none
  | fuel + 1, absent, block, bare, names, ts =>
    if absent then some (void, names, ts) else node fuel block bare names ts

def blockItems : Nat → Names → List Token → Option (List Doc × Names × List Token)
  | 0, _, _ => none
  | fuel + 1, names, ts =>
    match ts with
    | .blockEnd :: rest => some ([], names, rest)
    | .entry :: rest => do
      let (d, names, ts) ← optionalNode fuel (endsBlock true rest) true false names rest
      let (more, names, ts) ← blockItems fuel names ts
      some (d :: more, names, ts)
    | _ => none

/-- The items of a sequence without indentation of its own. -/
def steps : Nat → Names → List Token → Option (List Doc × Names × List Token)
  | 0, _, _ => none
  | fuel + 1, names, ts =>
    match ts with
    | .entry :: rest => do
      let (d, names, ts) ← optionalNode fuel (endsStep rest) true false names rest
      let (more, names, ts) ← steps fuel names ts
      some (d :: more, names, ts)
    | ts => some ([], names, ts)

def blockMembers : Nat → Names → List Token → Option (List (Doc × Doc) × Names × List Token)
  | 0, _, _ => none
  | fuel + 1, names, ts =>
    match ts with
    | .blockEnd :: rest => some ([], names, rest)
    | _ => do
      let (k, names, ts) ← match ts with
        | .key :: rest => optionalNode fuel (endsBlock false rest) true true names rest
        | .value :: _ => some (void, names, ts)
        | _ => none
      let (d, names, ts) ← match ts with
        | .value :: rest => optionalNode fuel (endsBlock false rest) true true names rest
        | ts => some (void, names, ts)
      let (more, names, ts) ← blockMembers fuel names ts
      some ((k, d) :: more, names, ts)

def flowItems : Nat → Bool → Names → List Token → Option (List Doc × Names × List Token)
  | 0, _, _, _ => none
  | fuel + 1, first, names, ts =>
    match ts with
    | .sequenceEnd :: rest => some ([], names, rest)
    | _ => do
      let ts ← separated first ts
      match ts with
      | .sequenceEnd :: rest => some ([], names, rest)
      | .key :: rest =>
        let (k, names, ts) ← optionalNode fuel (endsPair rest) false false names rest
        let (d, names, ts) ← flowValue fuel names ts
        let (more, names, ts) ← flowItems fuel false names ts
        some (.object [(k, d)] true :: more, names, ts)
      | ts =>
        let (d, names, ts) ← node fuel false false names ts
        let (more, names, ts) ← flowItems fuel false names ts
        some (d :: more, names, ts)

def flowMembers : Nat → Bool → Names → List Token → Option (List (Doc × Doc) × Names × List Token)
  | 0, _, _, _ => none
  | fuel + 1, first, names, ts =>
    match ts with
    | .mappingEnd :: rest => some ([], names, rest)
    | _ => do
      let ts ← separated first ts
      match ts with
      | .mappingEnd :: rest => some ([], names, rest)
      | .key :: rest =>
        let (k, names, ts) ← optionalNode fuel (endsFlowKey rest) false false names rest
        let (d, names, ts) ← flowValue fuel names ts
        let (more, names, ts) ← flowMembers fuel false names ts
        some ((k, d) :: more, names, ts)
      | ts =>
        let (k, names, ts) ← node fuel false false names ts
        let (more, names, ts) ← flowMembers fuel false names ts
        some ((k, void) :: more, names, ts)

def flowValue : Nat → Names → List Token → Option (Doc × Names × List Token)
  | 0, _, _ => none
  | fuel + 1, names, ts =>
    match ts with
    | .value :: rest => optionalNode fuel (endsFlowValue rest) false false names rest
    | ts => some (void, names, ts)

end

/-- Directives in front of a document: at most one version, which must be 1.1 or 1.2, and handles. -/
def directives : List Token → Bool → Names → Option (Names × List Token)
  | .directive name arguments :: rest, versioned, names =>
    match name, arguments with
    | "YAML", [v] =>
      if versioned || !(v = "1.1" || v = "1.2") then none else directives rest true names
    | "TAG", [handle, target] =>
      directives rest versioned { names with handles := (handle, target) :: names.handles }
    | _, _ => none
  | .documentStart :: rest, _, names => some (names, rest)
  | _, _, _ => none

def endsDocument : List Token → Bool
  | [] => true
  | .documentStart :: _ | .documentEnd :: _ | .directive .. :: _ => true
  | _ => false

/-- A single document and nothing behind it. A document that is not announced must hold something
unless the text holds nothing at all. -/
def single? (ts : List Token) : Option Doc := do
  let (names, absent, ts) ← match ts with
    | .directive .. :: _ | .documentStart :: _ =>
      (directives ts false .start).map fun (names, ts) => (names, endsDocument ts, ts)
    | ts => some (Names.start, ts.isEmpty, ts)
  let (d, _, ts) ← optionalNode (8 * ts.length + 16) absent true false names ts
  if (ts.dropWhile (· matches .documentEnd)).isEmpty then some d else none

def document? (s : String) : Option Doc := tokens? s >>= single?

end Rollout.Yaml

def Rollout.Doc.ofYaml (read : Rollout.Doc → Rollout.Doc.Reading α) (s : String) :
    Rollout.Doc.Reading α :=
  match Rollout.Yaml.document? s with
  | some d => read d
  | none => throw .malformed
