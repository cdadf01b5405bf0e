/-! Finite maps as lists of pairs by ascending key, each key once. Inserting keeps this shape and
changes what is found at one key only. -/

namespace Rollout

def Table (κ α : Type) : Type := List (κ × α)

namespace Table

variable {κ α β : Type}

instance [Repr κ] [Repr α] : Repr (Table κ α) := inferInstanceAs (Repr (List (κ × α)))
instance [DecidableEq κ] [DecidableEq α] : DecidableEq (Table κ α) :=
  inferInstanceAs (DecidableEq (List (κ × α)))
instance : Inhabited (Table κ α) := ⟨([] : List (κ × α))⟩

def empty : Table κ α := ([] : List (κ × α))

def pairs (t : Table κ α) : List (κ × α) := t

def keys (t : Table κ α) : List κ := t.pairs.map (·.1)

def values (t : Table κ α) : List α := t.pairs.map (·.2)

def size (t : Table κ α) : Nat := t.pairs.length

def isEmpty (t : Table κ α) : Bool := t.pairs.isEmpty

def map (f : κ → α → β) (t : Table κ α) : Table κ β := t.pairs.map fun p => (p.1, f p.1 p.2)

variable [DecidableEq κ]

def find? (t : Table κ α) (k : κ) : Option α := (t.pairs.find? (·.1 = k)).map (·.2)

def contains (t : Table κ α) (k : κ) : Bool := (t.find? k).isSome

/-- Changes the value at a key that is present; any other key is left alone. -/
def modify (t : Table κ α) (k : κ) (f : α → α) : Table κ α :=
  t.pairs.map fun p => if p.1 = k then (p.1, f p.2) else p

variable [LT κ] [DecidableLT κ]

def insert (t : Table κ α) (k : κ) (a : α) : Table κ α :=
  match t with
  | [] => [(k, a)]
  | (j, b) :: rest =>
    if k < j then (k, a) :: (j, b) :: rest
    else if k = j then (k, a) :: rest
    else (j, b) :: insert rest k a

/-- Later pairs win. -/
def ofList (ps : List (κ × α)) : Table κ α := ps.foldl (fun t p => t.insert p.1 p.2) empty

omit [DecidableEq κ] [DecidableLT κ] in
/-- Ascending keys, hence distinct ones. -/
def Sorted (t : Table κ α) : Prop := t.pairs.Pairwise fun p q => p.1 < q.1

end Table

/-- Ids by ascending order, each once. -/
def insertId (k : UInt64) : List UInt64 → List UInt64
  | [] => [k]
  | j :: rest => if k < j then k :: j :: rest else if k = j then j :: rest else j :: insertId k rest

end Rollout
