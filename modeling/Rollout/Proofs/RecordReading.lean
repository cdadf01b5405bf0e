import Rollout.Document.Variant
import Rollout.Proofs.JsonText
import Rollout.Proofs.TableLookup

/-! Reading the documents of values. A record is read from members that stand for its fields in their order;
the plain types, lists and tables are read from the values that they are written as. -/

namespace Rollout

namespace Doc

theorem bind_eq_ok {α β : Type} {x : Reading α} {f : α → Reading β} {b : β} :
    (x >>= f) = .ok b ↔ ∃ a, x = .ok a ∧ f a = .ok b := by
  cases x with
  | error why => simp [bind, Except.bind]
  | ok a => simp [bind, Except.bind]

theorem map_eq_ok {α β : Type} {x : Reading α} {f : α → β} {b : β} :
    (f <$> x) = .ok b ↔ ∃ a, x = .ok a ∧ f a = b := by
  cases x with
  | error why => simp [Functor.map, Except.map]
  | ok a => simp [Functor.map, Except.map]

end Doc

namespace Json

mutual

/-- The members of all objects stand by ascending key. -/
def Ordered : Json → Prop
  | null | bool _ | number _ | string _ => True
  | array items => ItemsOrdered items
  | object members => Table.Sorted members ∧ MembersOrdered members

def ItemsOrdered : List Json → Prop
  | [] => True
  | v :: rest => Ordered v ∧ ItemsOrdered rest

def MembersOrdered : List (String × Json) → Prop
  | [] => True
  | (_, v) :: rest => Ordered v ∧ MembersOrdered rest

end

mutual

/-- How deep arrays and objects are nested. -/
def depth : Json → Nat
  | null | bool _ | number _ | string _ => 0
  | array items => itemsDepth items + 1
  | object members => membersDepth members + 1

def itemsDepth : List Json → Nat
  | [] => 0
  | v :: rest => max v.depth (itemsDepth rest)

def membersDepth : List (String × Json) → Nat
  | [] => 0
  | (_, v) :: rest => max v.depth (membersDepth rest)

end

theorem depth_le_itemsDepth {v : Json} {items : List Json} (h : v ∈ items) : v.depth ≤ itemsDepth items := by
  induction items with
  | nil => cases h
  | cons w items ih =>
    rcases List.mem_cons.mp h with rfl | h
    · exact Nat.le_max_left _ _
    · exact (ih h).trans (Nat.le_max_right _ _)

end Json

namespace Doc

namespace Fields

variable {α ρ σ : Type} {src : Source}

/-- Members in the order of the fields, whose values are read as these. -/
def Written (src : Source) : {ρ σ : Type} → Fields ρ σ → List (String × Json) → ρ → Prop
  | _, _, nil, ms, _ => ms = []
  | _, _, cons _ _, [], _ => False
  | _, _, cons f rest, (k, v) :: ms, (a, r) =>
    k = f.name ∧ f.read src (.ofJson v) = .ok a ∧ rest.Written src ms r

section Members

variable {name : String} {rest : Fields ρ σ} {v : Json} {ms : List (String × Json)} {r : ρ}

theorem Written.needed {read : Source → Doc → Reading α} {a : α} (hread : read src (.ofJson v) = .ok a)
    (hrest : rest.Written src ms r) : (cons (.needed name read) rest).Written src ((name, v) :: ms) (a, r) :=
  ⟨rfl, hread, hrest⟩

theorem Written.default {read : Source → Doc → Reading α} {a b : α}
    (hread : read src (.ofJson v) = .ok a) (hrest : rest.Written src ms r) :
    (cons (.default name read b) rest).Written src ((name, v) :: ms) (a, r) :=
  ⟨rfl, hread, hrest⟩

theorem Written.optional {read : Doc → Reading α} {a : Option α}
    (hread : readOptional read (.ofJson v) = .ok a) (hrest : rest.Written src ms r) :
    (cons (.optional name read) rest).Written src ((name, v) :: ms) (a, r) :=
  ⟨rfl, hread, hrest⟩

end Members

theorem Written.keys_eq : ∀ {ρ σ : Type} {fs : Fields ρ σ} {ms : List (String × Json)} {r : ρ},
    fs.Written src ms r → ms.map Prod.fst = fs.names
  | _, _, nil, _, _, h => by
    rw [show _ = [] from h]
    rfl
  | _, _, cons _ _, [], _, h => h.elim
  | _, _, cons f rest, (k, v) :: ms, (a, r), h => by
    rw [List.map_cons, h.2.2.keys_eq, h.1]
    rfl

theorem memberName_string (names : List String) (k : String) :
    memberName src names (string (some k)) = .ok k := by
  cases src <;> rfl

/-- Members of other names leave a field alone. -/
theorem members_cons_of_not_mem {f : Field α} {rest : Fields ρ σ} {ms : List (String × Json)}
    (h : f.name ∉ ms.map Prod.fst) (closed : Bool) (slot : Option α) (slots : σ) :
    (cons f rest).members src (ofMembers ms) closed (slot, slots) =
      (slot, ·) <$> rest.members src (ofMembers ms) closed slots := by
  induction ms generalizing slots with
  | nil => cases closed <;> rfl
  | cons m ms ih =>
    obtain ⟨k, v⟩ := m
    have hk : f.name ≠ k := fun he => h (he ▸ List.mem_cons_self)
    have hms : f.name ∉ ms.map Prod.fst := fun hm => h (List.mem_cons_of_mem _ hm)
    rw [ofMembers, members, members, memberName_string, memberName_string]
    change (do
      let slots ← (cons f rest).put src k (ofJson v) (slot, slots)
      members src (cons f rest) (ofMembers ms) closed slots) = _ <$> (do
      let slots ← rest.put src k (ofJson v) slots
      members src rest (ofMembers ms) closed slots)
    rw [put, if_neg hk]
    cases hput : rest.put src k (ofJson v) slots with
    | error why => rfl
    | ok others => exact ih hms others

theorem Written.members_eq : ∀ {ρ σ : Type} {fs : Fields ρ σ} {ms : List (String × Json)} {r : ρ},
    fs.Written src ms r → fs.names.Nodup →
      ∃ slots, fs.members src (ofMembers ms) true fs.vacant = .ok slots ∧ fs.finish slots = .ok r
  | _, _, nil, ms, (), h, _ => by
    rw [show ms = [] from h]
    exact ⟨(), rfl, rfl⟩
  | _, _, cons _ _, [], _, h, _ => h.elim
  | _, _, cons f rest, (k, v) :: ms, (a, r), h, hnd => by
    obtain ⟨rfl, hread, hrest⟩ := h
    obtain ⟨hname, hnames⟩ := List.nodup_cons.mp hnd
    obtain ⟨slots, hmembers, hfinish⟩ := hrest.members_eq hnames
    -- later members have other names, so they leave the slot that the first one fills
    have hms : f.name ∉ ms.map Prod.fst := hrest.keys_eq ▸ hname
    refine ⟨(some a, slots), ?_, ?_⟩
    · have hput : (cons f rest).put src f.name (ofJson v) (none, rest.vacant) =
          .ok (some a, rest.vacant) := by
        rw [put, if_pos rfl, hread]
        rfl
      rw [ofMembers, members, memberName_string]
      change (do
        let slots ← (cons f rest).put src f.name (ofJson v) (none, rest.vacant)
        members src (cons f rest) (ofMembers ms) true slots) = _
      rw [hput]
      change members src (cons f rest) (ofMembers ms) true (some a, rest.vacant) = _
      rw [members_cons_of_not_mem hms, hmembers]
      rfl
    · rw [finish, Option.some_or, hfinish]
      rfl

/-- A record that was written in the order of its fields is read as it is. -/
theorem Written.read_eq {fs : Fields ρ σ} {ms : List (String × Json)} {r : ρ} (h : fs.Written src ms r)
    (hnd : fs.names.Nodup) (title : String) : fs.read title src (.ofJson (.object ms)) = .ok r := by
  obtain ⟨slots, hmembers, hfinish⟩ := h.members_eq hnd
  change (do fs.finish (← fs.members src (ofMembers ms) true fs.vacant)) = _
  rw [hmembers]
  exact hfinish

end Fields

section Plain

variable {α : Type} {read : Doc → Reading α}

theorem readNat_whole {bits : Nat} {n : UInt64} (h : n.toNat < Nat.pow 2 bits) (type : String) :
    readNat bits type (.number (some (.whole n))) = .ok n :=
  if_pos h

theorem readWord_id (n : UInt64) : readWord (.ofJson (.id n)) = .ok n := readNat_whole n.toNat_lt _

theorem readHalfWord_id (n : UInt32) : readHalfWord (.ofJson (.id n.toUInt64)) = .ok n := by
  have hlt : n.toUInt64.toNat < Nat.pow 2 32 := by
    rw [UInt32.toNat_toUInt64]
    exact n.toNat_lt
  change UInt64.toUInt32 <$> readNat 32 "u32" (.number (some (.whole n.toUInt64))) = _
  rw [readNat_whole hlt]
  exact congrArg Except.ok n.toUInt32_toUInt64

theorem readInteger_int (n : Int64) : readInteger (.ofJson (.int n)) = .ok n := by
  unfold Json.int
  split
  · rfl
  · next h =>
    have hlt : n.toUInt64.toNat < Nat.pow 2 63 := by
      have hbound := n.toInt_lt
      rw [Int64.toNat_toUInt64_of_le (Int64.not_lt.mp h)]
      change n.toInt.toNat < 9223372036854775808
      omega
    change (if n.toUInt64.toNat < Nat.pow 2 63 then (pure n.toUInt64.toInt64 : Reading Int64) else _) = _
    rw [if_pos hlt]
    exact congrArg Except.ok n.toInt64_toUInt64

theorem readItems_map {f : α → Json} {xs : List α} (h : ∀ x ∈ xs, read (.ofJson (f x)) = .ok x) :
    readItems read (ofItems (xs.map f)) true = .ok xs := by
  induction xs with
  | nil => rfl
  | cons x xs ih =>
    obtain ⟨hx, hxs⟩ := List.forall_mem_cons.mp h
    rw [List.map_cons, ofItems, readItems, hx, ih hxs]
    rfl

theorem readList_list {f : α → Json} {xs : List α} (h : ∀ x ∈ xs, read (.ofJson (f x)) = .ok x) :
    readList read (.ofJson (.list f xs)) = .ok xs :=
  readItems_map h

theorem readList_ids (ids : List UInt64) : readList readWord (.ofJson (.list .id ids)) = .ok ids :=
  readList_list fun id _ => readWord_id id

theorem readOptional_optional {f : α → Json} (hf : ∀ a, isNothing (.ofJson (f a)) = .ok false) {o : Option α}
    (h : ∀ a ∈ o, read (.ofJson (f a)) = .ok a) : readOptional read (.ofJson (.optional f o)) = .ok o := by
  cases o with
  | none => rfl
  | some a =>
    rw [Json.optional, readOptional, hf a]
    change some <$> read (.ofJson (f a)) = _
    rw [h a rfl]
    rfl

theorem readOptional_text (o : Option String) : readOptional readString (.ofJson (.text o)) = .ok o :=
  readOptional_optional (fun _ => rfl) fun _ _ => rfl

theorem readEntries_map {f : α → Json} (h : ∀ a, read (.ofJson (f a)) = .ok a) (ps : List (String × α)) :
    readEntries read (ofMembers (ps.map fun p => (p.1, f p.2))) true = .ok ps := by
  induction ps with
  | nil => rfl
  | cons p ps ih =>
    rw [List.map_cons, ofMembers, readEntries, h, ih]
    rfl

theorem readTable_map {f : α → Json} (h : ∀ a, read (.ofJson (f a)) = .ok a) {t : Table String α}
    (ht : t.Sorted) : readTable read (.ofJson (.object (t.map fun _ => f))) = .ok t := by
  change Table.ofList <$> readEntries read (ofMembers (t.pairs.map fun p => (p.1, f p.2))) true = _
  rw [readEntries_map h]
  exact congrArg Except.ok (Table.pairs_ofList ht)

theorem select_units {all : List α} {name : α → String} {a : α} (ha : a ∈ all)
    (hinj : ∀ b ∈ all, name b = name a → b = a) :
    Variant.select (Variant.units all name) (name a) = .ok ⟨name a, .unit a⟩ := by
  cases hfind : all.find? (fun b => name b = name a) with
  | none => simpa using List.find?_eq_none.mp hfind a ha
  | some b =>
    have hname : name b = name a := by simpa using List.find?_some hfind
    obtain rfl := hinj b (List.mem_of_find?_eq_some hfind) hname
    have hselect : (Variant.units all name).find? (·.name = name b) = some ⟨name b, .unit b⟩ := by
      rw [Variant.units, List.find?_map]
      exact congrArg (Option.map _) hfind
    rw [Variant.select, hselect]
    rfl

theorem read_units {all : List α} {name : α → String} {a : α} (ha : a ∈ all)
    (hinj : ∀ b ∈ all, name b = name a → b = a) (src : Source) :
    Variant.read (Variant.units all name) src (.ofJson (.string (name a))) = .ok a := by
  have hread : Variant.read (Variant.units all name) src (.ofJson (.string (name a))) =
      (do (← Variant.select (Variant.units all name) (name a)).alone) := by
    cases src <;> rfl
  rw [hread, select_units ha hinj]
  rfl

end Plain

mutual

/-- A free value is read as it is. -/
theorem readJson_ofJson : ∀ {v : Json}, v.Exact → v.Ordered → readJson (.ofJson v) = .ok v
  | .null, _, _ | .bool _, _, _ | .string _, _, _ => rfl
  | .number (.whole _), _, _ | .number (.negative _), _, _ => rfl
  | .number (.float _), h, _ => h.elim
  | .array items, h, hord => by
    rw [ofJson, readJson, readJsonItems_ofItems h hord]
    rfl
  | .object members, h, hord => by
    rw [ofJson, readJson, readJsonMembers_ofMembers h hord.2]
    exact congrArg (fun ms => Except.ok (Json.object ms)) (Table.pairs_ofList hord.1)

theorem readJsonItems_ofItems : ∀ {items : List Json}, Json.ItemsExact items → Json.ItemsOrdered items →
    readJsonItems (ofItems items) = .ok items
  | [], _, _ => rfl
  | v :: rest, h, hord => by
    rw [ofItems, readJsonItems, readJson_ofJson h.1 hord.1, readJsonItems_ofItems h.2 hord.2]
    rfl

theorem readJsonMembers_ofMembers : ∀ {members : List (String × Json)}, Json.MembersExact members →
    Json.MembersOrdered members → readJsonMembers (ofMembers members) = .ok members
  | [], _, _ => rfl
  | (k, v) :: rest, h, hord => by
    rw [ofMembers, readJsonMembers, readJson_ofJson h.1 hord.1, readJsonMembers_ofMembers h.2 hord.2]
    rfl

end

mutual

/-- A buffer keeps what is not nested too deep as it is. -/
theorem settle_ofJson : ∀ {v : Json} {room : Nat}, v.depth ≤ room → settle room (.ofJson v) = .ok (.ofJson v)
  | .null, _, _ | .bool _, _, _ | .string _, _, _ | .number _, _, _ => rfl
  | .array items, 0, h => absurd h (Nat.not_succ_le_zero _)
  | .array items, room + 1, h => by
    rw [ofJson, settle, settleItems_ofItems (Nat.le_of_succ_le_succ h)]
    rfl
  | .object members, 0, h => absurd h (Nat.not_succ_le_zero _)
  | .object members, room + 1, h => by
    rw [ofJson, settle, settleMembers_ofMembers (Nat.le_of_succ_le_succ h)]
    rfl

theorem settleItems_ofItems : ∀ {items : List Json} {room : Nat}, Json.itemsDepth items ≤ room →
    settleItems room (ofItems items) = .ok (ofItems items)
  | [], _, _ => rfl
  | v :: rest, room, h => by
    obtain ⟨hv, hrest⟩ := Nat.max_le.mp h
    rw [ofItems, settleItems, settle_ofJson hv, settleItems_ofItems hrest]
    rfl

theorem settleMembers_ofMembers : ∀ {members : List (String × Json)} {room : Nat},
    Json.membersDepth members ≤ room → settleMembers room (ofMembers members) = .ok (ofMembers members)
  | [], _, _ => rfl
  | (k, v) :: rest, room, h => by
    obtain ⟨hv, hrest⟩ := Nat.max_le.mp h
    have hk : settle room (string (some k)) = .ok (string (some k)) := rfl
    rw [ofMembers, settleMembers, hk, settle_ofJson hv, settleMembers_ofMembers hrest]
    rfl

end

end Doc

end Rollout
