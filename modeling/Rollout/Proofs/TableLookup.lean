import Mathlib.Data.List.Basic
import Mathlib.Data.List.Induction
import Mathlib.Data.List.Pairwise
import Mathlib.Data.List.Perm.Basic
import Rollout.Table

/-! What is found in a table after it was changed. Lookups after an insertion or a change need no
order of the keys; sorted tables list each pair that can be found exactly once. -/

namespace Rollout.Table

variable {κ α β : Type}

/-- A table with one more pair in front, whatever its key. -/
def cons (k : κ) (a : α) (t : Table κ α) : Table κ α := ((k, a) :: t.pairs : List (κ × α))

@[elab_as_elim, induction_eliminator]
theorem pairs_induction {motive : Table κ α → Prop} (empty : motive .empty)
    (cons : ∀ k a t, motive t → motive (.cons k a t)) (t : Table κ α) : motive t :=
  List.rec empty (fun p rest ih => cons p.1 p.2 rest ih) t

@[simp] theorem pairs_empty : (empty : Table κ α).pairs = [] := rfl

@[simp] theorem pairs_cons (k : κ) (a : α) (t : Table κ α) :
    (cons k a t).pairs = (k, a) :: t.pairs := rfl

@[simp] theorem keys_empty : (empty : Table κ α).keys = [] := rfl

@[simp] theorem keys_cons (k : κ) (a : α) (t : Table κ α) : (cons k a t).keys = k :: t.keys := rfl

@[simp] theorem pairs_map (f : κ → α → β) (t : Table κ α) :
    (t.map f).pairs = t.pairs.map fun p => (p.1, f p.1 p.2) := rfl

@[simp] theorem map_cons (f : κ → α → β) (k : κ) (a : α) (t : Table κ α) :
    (cons k a t).map f = cons k (f k a) (t.map f) := rfl

@[simp] theorem keys_map (f : κ → α → β) (t : Table κ α) : (t.map f).keys = t.keys := by
  induction t with
  | empty => rfl
  | cons k a t ih => simp [ih]

theorem size_eq_length_keys (t : Table κ α) : t.size = t.keys.length := by
  simp only [size, keys, List.length_map]

theorem mem_keys_of_mem_pairs {t : Table κ α} {k : κ} {a : α} (h : (k, a) ∈ t.pairs) :
    k ∈ t.keys :=
  List.mem_map.mpr ⟨(k, a), h, rfl⟩

variable [DecidableEq κ]

@[simp] theorem find?_empty (k : κ) : (empty : Table κ α).find? k = none := rfl

@[simp] theorem find?_cons (j : κ) (b : α) (t : Table κ α) (k : κ) :
    (cons j b t).find? k = if j = k then some b else t.find? k := by
  by_cases h : j = k <;> simp [find?, h]

@[simp] theorem modify_cons (j : κ) (b : α) (t : Table κ α) (k : κ) (f : α → α) :
    (cons j b t).modify k f = cons j (if j = k then f b else b) (t.modify k f) := by
  by_cases h : j = k
  · simp only [modify, pairs_cons, List.map_cons, h, if_true]
    rfl
  · simp only [modify, pairs_cons, List.map_cons, h, if_false]
    rfl

theorem mem_pairs_of_find? {t : Table κ α} {k : κ} {a : α} (h : t.find? k = some a) :
    (k, a) ∈ t.pairs := by
  obtain ⟨p, hp, rfl⟩ := Option.map_eq_some_iff.mp h
  have hk : p.1 = k := by simpa using List.find?_some hp
  simpa only [← hk] using List.mem_of_find?_eq_some hp

theorem mem_keys_iff {t : Table κ α} {k : κ} : k ∈ t.keys ↔ ∃ a, t.find? k = some a := by
  induction t with
  | empty => simp
  | cons j b t ih =>
    rw [keys_cons, List.mem_cons, ih, find?_cons]
    by_cases h : j = k
    · simp [h]
    · simp [h, Ne.symm h]

/-- Where no key comes twice, what is found is what is there. -/
theorem find?_eq_some_iff {t : Table κ α} (hnd : t.keys.Nodup) {k : κ} {a : α} :
    t.find? k = some a ↔ (k, a) ∈ t.pairs := by
  refine ⟨mem_pairs_of_find?, fun hm => ?_⟩
  induction t with
  | empty => cases hm
  | cons j b t ih =>
    obtain ⟨hnot, hnd⟩ := List.nodup_cons.mp hnd
    rw [find?_cons]
    rcases List.mem_cons.mp hm with he | hm
    · obtain ⟨rfl, rfl⟩ := Prod.mk.inj he
      exact if_pos rfl
    · rw [if_neg fun (e : j = k) => hnot (e ▸ mem_keys_of_mem_pairs hm)]
      exact ih hnd hm

theorem find?_eq_none_iff {t : Table κ α} {k : κ} : t.find? k = none ↔ k ∉ t.keys := by
  rw [mem_keys_iff]
  cases t.find? k <;> simp

theorem contains_eq_true_iff {t : Table κ α} {k : κ} : t.contains k = true ↔ k ∈ t.keys := by
  rw [mem_keys_iff, contains, Option.isSome_iff_exists]

/-- Tables with the same keys are the same if the same is found in them. -/
theorem eq_of_find? {t u : Table κ α} (hkeys : t.keys = u.keys) (hnd : t.keys.Nodup)
    (h : ∀ k ∈ t.keys, t.find? k = u.find? k) : t = u := by
  induction t generalizing u with
  | empty =>
    induction u with
    | empty => rfl
    | cons i c u => cases hkeys
  | cons j b t ih =>
    induction u with
    | empty => cases hkeys
    | cons i c u =>
      obtain ⟨rfl, hrest⟩ := List.cons.inj hkeys
      obtain ⟨hnot, hnd⟩ := List.nodup_cons.mp hnd
      have hhead := h j List.mem_cons_self
      rw [find?_cons, find?_cons, if_pos rfl, if_pos rfl] at hhead
      have htail : t = u := by
        apply ih hrest hnd
        intro k hk
        have hne : j ≠ k := fun e => hnot (e ▸ hk)
        have hfind := h k (List.mem_cons_of_mem _ hk)
        rwa [find?_cons, find?_cons, if_neg hne, if_neg hne] at hfind
      rw [htail, Option.some.inj hhead]

@[simp] theorem find?_map (f : κ → α → β) (t : Table κ α) (k : κ) :
    (t.map f).find? k = (t.find? k).map (f k) := by
  induction t with
  | empty => rfl
  | cons j b t ih =>
    rw [map_cons, find?_cons, find?_cons, ih]
    by_cases h : j = k <;> simp [h]

@[simp] theorem keys_modify (t : Table κ α) (k : κ) (f : α → α) : (t.modify k f).keys = t.keys := by
  induction t with
  | empty => rfl
  | cons j b t ih => simp [ih]

theorem find?_modify (t : Table κ α) (k : κ) (f : α → α) (j : κ) :
    (t.modify k f).find? j = if j = k then (t.find? j).map f else t.find? j := by
  induction t with
  | empty =>
    change none = if j = k then none else none
    simp
  | cons i b t ih =>
    rw [modify_cons, find?_cons, find?_cons, ih]
    by_cases hi : i = j
    · subst i
      by_cases hj : j = k <;> simp [hj]
    · simp [hi]

theorem modify_of_not_mem {t : Table κ α} {k : κ} (h : k ∉ t.keys) (f : α → α) : t.modify k f = t := by
  induction t with
  | empty => rfl
  | cons j b t ih =>
    obtain ⟨hne, hnot⟩ := not_or.mp fun hm => h (List.mem_cons.mpr hm)
    rw [modify_cons, if_neg (Ne.symm hne), ih hnot]

variable [LT κ] [DecidableLT κ]

@[simp] theorem insert_empty (k : κ) (a : α) : (empty : Table κ α).insert k a = cons k a empty := rfl

theorem insert_cons (j : κ) (b : α) (t : Table κ α) (k : κ) (a : α) :
    (cons j b t).insert k a =
      if k < j then cons k a (cons j b t)
      else if k = j then cons k a t
      else cons j b (t.insert k a) := rfl

theorem find?_insert (t : Table κ α) (k : κ) (a : α) (j : κ) :
    (t.insert k a).find? j = if j = k then some a else t.find? j := by
  induction t with
  | empty => simp [eq_comm]
  | cons i b t ih =>
    rw [insert_cons]
    split
    · simp [eq_comm]
    · split
      next h =>
        subst i
        by_cases hj : k = j
        · simp [hj]
        · simp [hj, Ne.symm hj]
      next h =>
        by_cases hj : i = j
        · subst j
          simp [Ne.symm h]
        · simp [hj, ih]

theorem mem_keys_insert {t : Table κ α} {k j : κ} {a : α} :
    j ∈ (t.insert k a).keys ↔ j = k ∨ j ∈ t.keys := by
  simp only [mem_keys_iff, find?_insert]
  by_cases h : j = k <;> simp [h]

/-- A new key adds its pair and leaves all others. -/
theorem insert_perm {t : Table κ α} {k : κ} (a : α) (h : k ∉ t.keys) :
    (t.insert k a).pairs.Perm ((k, a) :: t.pairs) := by
  induction t with
  | empty => exact .refl _
  | cons j b t ih =>
    have hk : k ≠ j ∧ k ∉ t.keys := by simpa using h
    rw [insert_cons]
    split
    · exact .refl _
    · rw [if_neg hk.1]
      exact ((ih hk.2).cons (j, b)).trans (.swap _ _ _)

/-- Pairs with different keys are all kept. -/
theorem ofList_perm {ps : List (κ × α)} (h : (ps.map Prod.fst).Nodup) :
    (ofList ps).pairs.Perm ps := by
  have hfold : ∀ t : Table κ α, (∀ p ∈ ps, p.1 ∉ t.keys) →
      (ps.foldl (fun t p => t.insert p.1 p.2) t : Table κ α).pairs.Perm (ps ++ t.pairs) := by
    induction ps with
    | nil => exact fun _ _ => .refl _
    | cons p ps ih =>
      intro t ht
      have hp := List.nodup_cons.mp h
      have hfresh : ∀ q ∈ ps, q.1 ∉ (t.insert p.1 p.2).keys := by
        intro q hq hm
        rcases mem_keys_insert.mp hm with he | hm
        · exact hp.1 (List.mem_map.mpr ⟨q, hq, he⟩)
        · exact ht q (List.mem_cons_of_mem _ hq) hm
      exact (ih hp.2 _ hfresh).trans
        (((insert_perm p.2 (ht p List.mem_cons_self)).append_left ps).trans List.perm_middle)
  simpa only [ofList, pairs_empty, List.append_nil] using
    hfold empty (fun _ _ => List.not_mem_nil)

theorem mem_keys_ofList {ps : List (κ × α)} {k : κ} :
    k ∈ (ofList ps).keys ↔ k ∈ ps.map Prod.fst := by
  have hfold : ∀ t : Table κ α,
      k ∈ (ps.foldl (fun t p => t.insert p.1 p.2) t : Table κ α).keys ↔
        k ∈ ps.map Prod.fst ∨ k ∈ t.keys := by
    induction ps with
    | nil => simp
    | cons p ps ih =>
      intro t
      rw [List.foldl_cons, ih, mem_keys_insert, List.map_cons, List.mem_cons]
      exact or_left_comm.trans or_assoc.symm
  simpa only [ofList, keys_empty, List.not_mem_nil, or_false] using hfold empty

theorem find?_ofList (ps : List (κ × α)) (k : κ) : (ofList ps).find? k = ps.reverse.lookup k := by
  induction ps using List.reverseRecOn with
  | nil => rfl
  | append_singleton ps p ih =>
    have hstep : ofList (ps ++ [p]) = (ofList ps).insert p.1 p.2 := List.foldl_concat ..
    rw [hstep, find?_insert, ih, List.reverse_append, List.reverse_singleton, List.singleton_append,
      List.lookup_cons]
    by_cases hk : k = p.1
    · simp [hk]
    · simp [hk, beq_eq_false_iff_ne.mpr hk]

section Order

variable [LE κ] [Std.IsLinearOrder κ] [Std.LawfulOrderLT κ]

theorem Sorted.insert {t : Table κ α} (h : t.Sorted) (k : κ) (a : α) : (t.insert k a).Sorted := by
  induction t with
  | empty => exact List.pairwise_singleton _ _
  | cons j b t ih =>
    have ht : (∀ p ∈ t.pairs, j < p.1) ∧ t.Sorted := List.pairwise_cons.mp h
    rw [insert_cons]
    split
    next hlt =>
      refine List.pairwise_cons.mpr ⟨fun p hp => ?_, h⟩
      rcases List.mem_cons.mp hp with rfl | hp
      · exact hlt
      · exact Std.lt_trans hlt (ht.1 p hp)
    next hlt =>
      split
      next he =>
        subst j
        exact List.pairwise_cons.mpr ht
      next he =>
        refine List.pairwise_cons.mpr ⟨fun p hp => ?_, ih ht.2⟩
        rcases mem_keys_insert.mp (mem_keys_of_mem_pairs hp) with hk | hk
        · exact hk ▸ Std.lt_of_le_of_ne (Std.not_lt.mp hlt) (Ne.symm he)
        · obtain ⟨q, hq, hk⟩ := List.mem_map.mp hk
          exact hk ▸ ht.1 q hq

theorem Sorted.ofList (ps : List (κ × α)) : (Table.ofList ps).Sorted := by
  have hfold : ∀ t : Table κ α, t.Sorted →
      (ps.foldl (fun t p => t.insert p.1 p.2) t : Table κ α).Sorted := by
    induction ps with
    | nil => exact fun _ h => h
    | cons p ps ih => exact fun t h => ih _ (h.insert p.1 p.2)
  exact hfold _ List.Pairwise.nil

/-- Pairs that are in order already stay as they are. -/
theorem pairs_ofList {ps : List (κ × α)} (h : ps.Pairwise fun p q => p.1 < q.1) :
    (ofList ps).pairs = ps := by
  have hnd : (ps.map Prod.fst).Nodup := List.pairwise_map.mpr (h.imp Std.ne_of_lt)
  refine List.Perm.eq_of_pairwise (fun p q _ _ hpq hqp => ?_) (Sorted.ofList ps) h (ofList_perm hnd)
  exact (Std.not_gt_of_lt hpq hqp).elim

/-- Pairs with different keys make the same table in any order. -/
theorem ofList_eq_of_perm {ps qs : List (κ × α)} (h : ps.Perm qs) (hnd : (ps.map Prod.fst).Nodup) :
    ofList ps = ofList qs := by
  have hnd' : (qs.map Prod.fst).Nodup := (h.map Prod.fst).nodup_iff.mp hnd
  refine List.Perm.eq_of_pairwise (fun p q _ _ hpq hqp => ?_) (Sorted.ofList ps) (Sorted.ofList qs)
    (((ofList_perm hnd).trans h).trans (ofList_perm hnd').symm)
  exact (Std.not_gt_of_lt hpq hqp).elim

end Order

end Table

theorem Table.Sorted.pairwise_keys {κ α : Type} [LT κ] {t : Table κ α} (h : t.Sorted) :
    t.keys.Pairwise (· < ·) :=
  List.pairwise_map.mpr h

/-- Only the keys count for the order. -/
theorem Table.Sorted.of_keys_eq {κ α β : Type} [LT κ] {t : Table κ α} {u : Table κ β} (h : t.Sorted)
    (hkeys : u.keys = t.keys) : u.Sorted := by
  have hasc := h.pairwise_keys
  rw [← hkeys] at hasc
  exact List.pairwise_map.mp hasc

theorem Table.Sorted.nodup_keys {κ α : Type} [LT κ] [Std.Irrefl fun a b : κ => a < b] {t : Table κ α}
    (h : t.Sorted) : t.keys.Nodup :=
  h.pairwise_keys.imp Std.ne_of_lt

theorem Table.Sorted.find?_of_mem {κ α : Type} [DecidableEq κ] [LT κ]
    [Std.Irrefl fun a b : κ => a < b] {t : Table κ α} (h : t.Sorted) {k : κ} {a : α}
    (hm : (k, a) ∈ t.pairs) : t.find? k = some a :=
  (find?_eq_some_iff h.nodup_keys).mpr hm

/-- Sorted tables are the same if the same is found in them. -/
theorem Table.Sorted.ext {κ α : Type} [DecidableEq κ] [LT κ] [LE κ] [Std.IsLinearOrder κ]
    [Std.LawfulOrderLT κ] {t u : Table κ α} (ht : t.Sorted) (hu : u.Sorted)
    (h : ∀ k, t.find? k = u.find? k) : t = u := by
  have hnd : ∀ {v : Table κ α}, v.Sorted → v.pairs.Nodup := fun hv =>
    hv.imp fun hlt he => Std.ne_of_lt hlt (congrArg Prod.fst he)
  have hperm : t.pairs.Perm u.pairs := by
    apply (List.perm_ext_iff_of_nodup (hnd ht) (hnd hu)).mpr
    intro p
    rw [← find?_eq_some_iff ht.nodup_keys, ← find?_eq_some_iff hu.nodup_keys, h]
  refine List.Perm.eq_of_pairwise (fun p q _ _ hpq hqp => ?_) ht hu hperm
  exact (Std.not_gt_of_lt hpq hqp).elim

/-- To insert at a key that is there is to change the value at it. -/
theorem Table.Sorted.insert_eq_modify {κ α : Type} [DecidableEq κ] [LT κ] [DecidableLT κ] [LE κ]
    [Std.IsLinearOrder κ] [Std.LawfulOrderLT κ] {t : Table κ α} (h : t.Sorted) {k : κ} (hk : k ∈ t.keys)
    (a : α) : t.insert k a = t.modify k fun _ => a := by
  refine (h.insert k a).ext (h.of_keys_eq (keys_modify t k _)) fun j => ?_
  obtain ⟨b, hb⟩ := mem_keys_iff.mp hk
  rw [find?_insert, find?_modify]
  by_cases hj : j = k <;> simp [hj, hb]

theorem mem_insertId {k j : UInt64} {l : List UInt64} : j ∈ insertId k l ↔ j = k ∨ j ∈ l := by
  induction l with
  | nil => simp [insertId]
  | cons i rest ih =>
    simp only [insertId]
    split
    · simp
    · split
      next h => simp [h]
      next h =>
        simp only [List.mem_cons, ih]
        exact or_left_comm

theorem pairwise_insertId {k : UInt64} {l : List UInt64} (h : l.Pairwise (· < ·)) :
    (insertId k l).Pairwise (· < ·) := by
  induction l with
  | nil => exact List.pairwise_singleton _ _
  | cons i rest ih =>
    have hrest := List.pairwise_cons.mp h
    simp only [insertId]
    split
    next hlt =>
      refine List.pairwise_cons.mpr ⟨fun j hj => ?_, h⟩
      rcases List.mem_cons.mp hj with rfl | hj
      · exact hlt
      · exact Std.lt_trans hlt (hrest.1 j hj)
    next hlt =>
      split
      · exact h
      next he =>
        refine List.pairwise_cons.mpr ⟨fun j hj => ?_, ih hrest.2⟩
        rcases mem_insertId.mp hj with rfl | hj
        · exact Std.lt_of_le_of_ne (Std.not_lt.mp hlt) (Ne.symm he)
        · exact hrest.1 j hj

end Rollout
