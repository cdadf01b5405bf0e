import Mathlib.Data.List.Perm.Basic
import Rollout.Document.Reader
import Rollout.Proofs.Lexemes

/-! Changes to documents that a reader of records takes no notice of: members of objects in another order, and
members of records that have no field of their name. -/

namespace Rollout.Doc

/-- Whether no name comes twice among these members. Keys that are no proper text are no names. -/
def Distinct (ms : List (Doc × Doc)) : Prop :=
  ms.Pairwise fun m m' => ∀ name, m.1 = string (some name) → m'.1 ≠ string (some name)

/-- The members of one object in another order. -/
inductive Shuffle : Doc → Doc → Prop
  | perm {ms ms' : List (Doc × Doc)} {closed : Bool} (distinct : Distinct ms) (h : ms.Perm ms') :
    Shuffle (object ms closed) (object ms' closed)
  | item {d e : Doc} (pre post : List Doc) (closed : Bool) (h : Shuffle d e) :
    Shuffle (array (pre ++ d :: post) closed) (array (pre ++ e :: post) closed)
  | member {d e : Doc} (pre post : List (Doc × Doc)) (k : Doc) (closed : Bool) (h : Shuffle d e) :
    Shuffle (object (pre ++ (k, d) :: post) closed) (object (pre ++ (k, e) :: post) closed)

/-- A change to a record with fields of these names: a shuffle, a member of another name that is fit for it, or
a change to the value of a field in an object or among items. -/
inductive Edit (names : List String) (fit : Doc → Prop) (part : String → Doc → Doc → Prop) : Doc → Doc → Prop
  | shuffle {d e : Doc} (h : Shuffle d e) : Edit names fit part d e
  | add {name : String} {v : Doc} (pre post : List (Doc × Doc)) (closed : Bool) (hname : name ∉ names)
    (hv : fit v) :
    Edit names fit part (object (pre ++ post) closed) (object (pre ++ (string (some name), v) :: post) closed)
  | member {name : String} {d e : Doc} (pre post : List (Doc × Doc)) (closed : Bool) (h : part name d e) :
    Edit names fit part (object (pre ++ (string (some name), d) :: post) closed)
      (object (pre ++ (string (some name), e) :: post) closed)
  | item {name : String} {d e : Doc} (pre post : List Doc) (closed : Bool)
    (hname : names[pre.length]? = some name) (h : part name d e) :
    Edit names fit part (array (pre ++ d :: post) closed) (array (pre ++ e :: post) closed)

/-- What is added and what becomes of parts is as whole as the rest, and parts may be shuffled. -/
structure Regular (fit : Doc → Prop) (part : String → Doc → Doc → Prop) : Prop where
  whole_of_fit : ∀ {v : Doc}, fit v → v.Whole
  whole_of_part : ∀ {name : String} {d e : Doc}, part name d e → d.Whole → e.Whole
  part_of_shuffle : ∀ {name : String} {d e : Doc}, Shuffle d e → part name d e

/-- What a buffer keeps when so many levels may still be nested: strings and numbers that have a value. -/
inductive Fits : Nat → Doc → Prop
  | null {room : Nat} : Fits room null
  | bool {room : Nat} (b : Bool) : Fits room (bool b)
  | number {room : Nat} (n : Json.Number) : Fits room (number (some n))
  | string {room : Nat} (s : String) : Fits room (string (some s))
  | array {room : Nat} {items : List Doc} (values : ∀ d ∈ items, Fits room d) :
    Fits (room + 1) (array items true)
  | object {room : Nat} {members : List (Doc × Doc)} (keys : ∀ m ∈ members, ∃ s, m.1 = .string (some s))
    (values : ∀ m ∈ members, Fits room m.2) : Fits (room + 1) (object members true)

theorem forall_mem_replace {α : Type} {P : α → Prop} {pre post : List α} {a b : α}
    (h : ∀ x ∈ pre ++ a :: post, P x) (hb : P a → P b) : ∀ x ∈ pre ++ b :: post, P x := by
  simp only [List.forall_mem_append, List.forall_mem_cons] at h ⊢
  exact ⟨h.1, hb h.2.1, h.2.2⟩

theorem forall_mem_insert {α : Type} {P : α → Prop} {pre post : List α} {b : α}
    (h : ∀ x ∈ pre ++ post, P x) (hb : P b) : ∀ x ∈ pre ++ b :: post, P x := by
  simp only [List.forall_mem_append, List.forall_mem_cons] at h ⊢
  exact ⟨h.1, hb, h.2⟩

variable {d e : Doc} {names : List String} {fit : Doc → Prop} {part : String → Doc → Doc → Prop} {room : Nat}

theorem Whole.closed_array {items : List Doc} {closed : Bool} (h : (Doc.array items closed).Whole) : closed = true := by
  cases h
  rfl

theorem Whole.closed_object {ms : List (Doc × Doc)} {closed : Bool} (h : (Doc.object ms closed).Whole) :
    closed = true := by
  cases h
  rfl

theorem Whole.item {pre post : List Doc} {closed : Bool} (h : (Doc.array (pre ++ d :: post) closed).Whole) :
    d.Whole := by
  cases h with
  | array values => exact values d (by simp)

theorem Whole.member {pre post : List (Doc × Doc)} {k : Doc} {closed : Bool}
    (h : (Doc.object (pre ++ (k, d) :: post) closed).Whole) : d.Whole := by
  cases h with
  | object keys values => exact values (k, d) (by simp)

theorem Shuffle.whole (h : Shuffle d e) (hd : d.Whole) : e.Whole := by
  induction h with
  | perm _ h =>
    cases hd with
    | object keys values =>
      exact .object (fun m hm => keys m (h.mem_iff.mpr hm)) fun m hm => values m (h.mem_iff.mpr hm)
  | item pre post closed h ih =>
    cases hd with
    | array values => exact .array (forall_mem_replace values ih)
  | member pre post k closed h ih =>
    cases hd with
    | object keys values => exact .object (forall_mem_replace keys id) (forall_mem_replace values ih)

theorem Edit.whole (hreg : Regular fit part) (h : Edit names fit part d e) (hd : d.Whole) : e.Whole := by
  cases h with
  | shuffle h => exact h.whole hd
  | add pre post closed hname hv =>
    cases hd with
    | object keys values =>
      exact .object (forall_mem_insert keys ⟨_, rfl⟩) (forall_mem_insert values (hreg.whole_of_fit hv))
  | member pre post closed h =>
    cases hd with
    | object keys values =>
      exact .object (forall_mem_replace keys id) (forall_mem_replace values (hreg.whole_of_part h))
  | item pre post closed hname h =>
    cases hd with
    | array values => exact .array (forall_mem_replace values (hreg.whole_of_part h))

theorem itemsSkippable_of_forall {items : List Doc} (h : ∀ d ∈ items, d.skippable = true) :
    itemsSkippable items = true := by
  induction items with
  | nil => rfl
  | cons d items ih =>
    obtain ⟨hd, h⟩ := List.forall_mem_cons.mp h
    rw [itemsSkippable, hd, ih h, Bool.and_self]

theorem membersSkippable_of_forall {members : List (Doc × Doc)}
    (h : ∀ m ∈ members, m.1.skippable = true ∧ m.2.skippable = true) : membersSkippable members = true := by
  induction members with
  | nil => rfl
  | cons m members ih =>
    obtain ⟨hm, h⟩ := List.forall_mem_cons.mp h
    rw [membersSkippable, hm.1, hm.2, ih h, Bool.and_self, Bool.and_self]

theorem Whole.skippable (h : d.Whole) : d.skippable = true := by
  induction h with
  | array _ ih => rw [Doc.skippable, itemsSkippable_of_forall ih, Bool.and_self]
  | object keys _ ih =>
    rw [Doc.skippable, membersSkippable_of_forall fun m hm => ⟨?_, ih m hm⟩, Bool.and_self]
    obtain ⟨s, hs⟩ := keys m hm
    rw [hs]
    rfl
  | _ => rfl

theorem Fits.whole (h : Fits room d) : d.Whole := by
  induction h with
  | null => exact .null
  | bool b => exact .bool b
  | number n => exact .number (some n)
  | string s => exact .string (some s)
  | array _ ih => exact .array ih
  | object keys _ ih => exact .object (fun m hm => (keys m hm).imp' some fun _ => id) ih

theorem Shuffle.fits (h : Shuffle d e) (hd : Fits room d) : Fits room e := by
  induction h generalizing room with
  | perm _ h =>
    cases hd with
    | object keys values =>
      exact .object (fun m hm => keys m (h.mem_iff.mpr hm)) fun m hm => values m (h.mem_iff.mpr hm)
  | item pre post closed h ih =>
    cases hd with
    | array values => exact .array (forall_mem_replace values ih)
  | member pre post k closed h ih =>
    cases hd with
    | object keys values => exact .object (forall_mem_replace keys id) (forall_mem_replace values ih)

theorem Edit.fits (hpart : ∀ {name d e}, part name d e → Fits room d → Fits room e)
    (h : Edit names (Fits room) part d e) (hd : Fits (room + 1) d) : Fits (room + 1) e := by
  cases h with
  | shuffle h => exact h.fits hd
  | add pre post closed hname hv =>
    cases hd with
    | object keys values => exact .object (forall_mem_insert keys ⟨_, rfl⟩) (forall_mem_insert values hv)
  | member pre post closed h =>
    cases hd with
    | object keys values => exact .object (forall_mem_replace keys id) (forall_mem_replace values (hpart h))
  | item pre post closed hname h =>
    cases hd with
    | array values => exact .array (forall_mem_replace values (hpart h))

end Rollout.Doc
