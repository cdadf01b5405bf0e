import Mathlib.Data.Fintype.Card
import Mathlib.Data.Fintype.EquivFin
import Mathlib.Data.List.Perm.Subperm
import Rollout.Proofs.PlanValidity

/-! The order that the edges of a graph put on its tasks. It is well-founded, and what is behind a task
is exactly what its edges lead to in one or more steps. -/

namespace Rollout.Graph

def Edge (g : Graph) (a b : TaskId) : Prop := b ∈ g.successors a

instance (g : Graph) (a b : TaskId) : Decidable (g.Edge a b) :=
  inferInstanceAs (Decidable (b ∈ g.successors a))

def Before (g : Graph) : TaskId → TaskId → Prop := Relation.TransGen g.Edge

/-- What checking a plan establishes of its graph. -/
structure Valid (g : Graph) : Prop where
  sorted : g.tasks.Sorted
  id_eq : ∀ {id t}, g.task? id = some t → t.id = id
  mem_ids : ∀ {a b}, g.Edge a b → a ∈ g.ids ∧ b ∈ g.ids
  mem_predecessors : ∀ {a b}, a ∈ g.predecessors b ↔ g.Edge a b
  nodup_predecessors : ∀ id, (g.predecessors id).Nodup
  nodup_successors : ∀ id, (g.successors id).Nodup
  acyclic : ∀ id, ¬ g.Before id id

theorem successors_of_task? {g : Graph} {id : TaskId} {t : Task} (h : g.task? id = some t) :
    g.successors id = t.successors := by
  simp [successors, h]

theorem predecessors_of_task? {g : Graph} {id : TaskId} {t : Task} (h : g.task? id = some t) :
    g.predecessors id = t.predecessors := by
  simp [predecessors, h]

theorem mem_ids_iff {g : Graph} {id : TaskId} : id ∈ g.ids ↔ ∃ t, g.task? id = some t :=
  Table.mem_keys_iff

theorem exists_task_of_mem_successors {g : Graph} {a b : TaskId} (h : b ∈ g.successors a) :
    ∃ t, g.task? a = some t ∧ b ∈ t.successors := by
  cases ht : g.task? a with
  | none => simp [successors, ht] at h
  | some t => exact ⟨t, rfl, by simpa [successors, ht] using h⟩

theorem exists_task_of_mem_predecessors {g : Graph} {a b : TaskId} (h : a ∈ g.predecessors b) :
    ∃ t, g.task? b = some t ∧ a ∈ t.predecessors := by
  cases ht : g.task? b with
  | none => simp [predecessors, ht] at h
  | some t => exact ⟨t, rfl, by simpa [predecessors, ht] using h⟩

section Plan

variable {p : Plan} {g : Graph} (h : ofPlan p = .ok g)
include h

theorem task?_of_ofPlan {id : TaskId} {t : Task} :
    g.task? id = some t ↔ t ∈ p.tasks ∧ t.id = id :=
  (holds_of_ofPlan h).task?_eq_some id t

theorem edge_iff_of_ofPlan {a b : TaskId} : g.Edge a b ↔ p.Edge a b := by
  constructor
  · intro he
    obtain ⟨t, ht, hb⟩ := exists_task_of_mem_successors he
    obtain ⟨hm, hid⟩ := (task?_of_ofPlan h).mp ht
    exact ⟨t, hm, hid, hb⟩
  · rintro ⟨t, hm, hid, hb⟩
    rw [Edge, successors_of_task? ((task?_of_ofPlan h).mpr ⟨hm, hid⟩)]
    exact hb

theorem before_iff_of_ofPlan {a b : TaskId} : g.Before a b ↔ Relation.TransGen p.Edge a b := by
  have hedge : g.Edge = p.Edge := by
    funext x y
    exact propext (edge_iff_of_ofPlan h)
  rw [Before, hedge]

theorem mem_ids_of_ofPlan {id : TaskId} : id ∈ g.ids ↔ id ∈ p.ids := by
  simp only [mem_ids_iff, task?_of_ofPlan h, Plan.ids, List.mem_map]

theorem ids_perm_of_ofPlan : g.ids.Perm p.ids := by
  have hids := (holds_of_ofPlan h).ids_ascending
  apply (List.perm_ext_iff_of_nodup (hids.imp Std.ne_of_lt) (ofPlan_eq_ok_iff.mp h).1.distinct).mpr
  exact fun _ => mem_ids_of_ofPlan h

theorem size_of_ofPlan : g.size = p.tasks.length := by
  rw [show g.size = g.ids.length from Table.size_eq_length_keys g.tasks, (ids_perm_of_ofPlan h).length_eq,
    Plan.ids, List.length_map]

theorem valid_of_ofPlan : g.Valid := by
  have hw : p.WellFormed := (ofPlan_eq_ok_iff.mp h).1
  have hids : ∀ {a b}, g.Edge a b → a ∈ g.ids ∧ b ∈ g.ids := by
    intro a b he
    obtain ⟨t, ht, rfl, hb⟩ := (edge_iff_of_ofPlan h).mp he
    rw [mem_ids_of_ofPlan h, mem_ids_of_ofPlan h]
    exact ⟨List.mem_map_of_mem ht, (hw.successors t ht).known b hb⟩
  refine ⟨List.pairwise_map.mp (holds_of_ofPlan h).ids_ascending,
    fun ht => ((task?_of_ofPlan h).mp ht).2, hids, fun {a b} => ⟨fun hm => ?_, fun he => ?_⟩,
    fun id => ?_, fun id => ?_, fun id hid => ?_⟩
  · obtain ⟨t, ht, ha⟩ := exists_task_of_mem_predecessors hm
    obtain ⟨htm, rfl⟩ := (task?_of_ofPlan h).mp ht
    obtain ⟨s, hs, rfl⟩ := List.mem_map.mp ((hw.predecessors t htm).known a ha)
    exact (edge_iff_of_ofPlan h).mpr ⟨s, hs, rfl, (hw.two_sided s hs t htm).mpr ha⟩
  · obtain ⟨s, hs, rfl, hb⟩ := (edge_iff_of_ofPlan h).mp he
    obtain ⟨t, ht⟩ := mem_ids_iff.mp (hids he).2
    obtain ⟨htm, rfl⟩ := (task?_of_ofPlan h).mp ht
    rw [predecessors_of_task? ht]
    exact (hw.two_sided s hs t htm).mp hb
  · cases ht : g.task? id with
    | none => simp [predecessors, ht]
    | some t =>
      rw [predecessors_of_task? ht]
      exact (hw.predecessors t ((task?_of_ofPlan h).mp ht).1).nodup
  · cases ht : g.task? id with
    | none => simp [successors, ht]
    | some t =>
      rw [successors_of_task? ht]
      exact (hw.successors t ((task?_of_ofPlan h).mp ht).1).nodup
  · exact hw.acyclic id ((before_iff_of_ofPlan h).mp hid)

end Plan

namespace Valid

variable {g : Graph} (hv : g.Valid)
include hv

theorem nodup_ids : g.ids.Nodup := hv.sorted.nodup_keys

theorem before_mem_ids {a b : TaskId} (h : g.Before a b) : a ∈ g.ids ∧ b ∈ g.ids := by
  induction h with
  | single he => exact hv.mem_ids he
  | tail _ he ih => exact ⟨ih.1, (hv.mem_ids he).2⟩

theorem wellFounded_before : WellFounded g.Before := by
  have : Finite TaskId := Finite.of_injective UInt64.toFin fun _ _ => UInt64.toFin_inj.mp
  have : IsTrans TaskId g.Before := ⟨fun _ _ _ => Relation.TransGen.trans⟩
  have : Std.Irrefl g.Before := ⟨hv.acyclic⟩
  exact Finite.wellFounded_of_trans_of_irrefl g.Before

theorem mem_roots {id : TaskId} : id ∈ g.roots ↔ id ∈ g.ids ∧ g.predecessors id = [] := by
  rw [mem_ids_iff]
  simp only [roots, List.mem_map, List.mem_filter, Task.isRoot, List.isEmpty_iff]
  constructor
  · rintro ⟨t, ⟨ht, hp⟩, rfl⟩
    obtain ⟨q, hq, rfl⟩ := List.mem_map.mp ht
    have hf : g.task? q.1 = some q.2 := hv.sorted.find?_of_mem hq
    rw [hv.id_eq hf, predecessors_of_task? hf]
    exact ⟨⟨q.2, hf⟩, hp⟩
  · rintro ⟨⟨t, ht⟩, hp⟩
    rw [predecessors_of_task? ht] at hp
    exact ⟨t, ⟨List.mem_map_of_mem (Table.mem_pairs_of_find? ht), hp⟩, hv.id_eq ht⟩

theorem pairwise_roots : g.roots.Pairwise (· < ·) := by
  have hids : g.tasks.values.map (·.id) = g.ids := by
    rw [Table.values, ids, Table.keys, List.map_map]
    apply List.map_congr_left
    intro q hq
    exact hv.id_eq (hv.sorted.find?_of_mem hq)
  have hsorted := hv.sorted.pairwise_keys
  rw [show g.tasks.keys = g.ids from rfl, ← hids] at hsorted
  exact hsorted.sublist (List.filter_sublist.map _)

end Valid

/-- A change of one element changes a count by one. -/
theorem countP_change {l : List TaskId} (hnd : l.Nodup) {id : TaskId} (hid : id ∈ l)
    {p q : TaskId → Bool} (hp : p id = true) (hq : q id = false) (h : ∀ x, x ≠ id → p x = q x) :
    l.countP p = l.countP q + 1 := by
  have hperm := List.perm_cons_erase hid
  have hrest : (l.erase id).countP p = (l.erase id).countP q := by
    apply List.countP_congr
    intro x hx
    rw [h x fun e => hnd.not_mem_erase (e ▸ hx)]
  rw [hperm.countP_eq p, hperm.countP_eq q, List.countP_cons, List.countP_cons, hrest]
  simp [hp, hq]

/-- What the walk along the edges keeps: nothing is lost between the tasks seen and those on the stack. -/
structure Follows (next : TaskId → List TaskId) (start seen all : List TaskId) : Prop where
  seen_mem : ∀ x ∈ seen, x ∈ all
  start_mem : ∀ x ∈ start, x ∈ all
  closed : ∀ x ∈ all, x ∉ seen → ∀ y ∈ next x, y ∈ all
  sound : ∀ x ∈ all, x ∈ seen ∨ ∃ s ∈ start, Relation.ReflTransGen (fun a b => b ∈ next a) s x

theorem follows_follow {next : TaskId → List TaskId} {ids : List TaskId}
    (hids : ∀ {a b}, b ∈ next a → b ∈ ids) (fuel : Nat) (stack seen : List TaskId)
    (hstack : ∀ x ∈ stack, x ∈ ids)
    (hfuel : stack.length + unseenCost (fun id => (next id).length) ids seen ≤ fuel) :
    Follows next stack seen (follow next fuel stack seen) := by
  induction fuel generalizing stack seen with
  | zero =>
    have : stack = [] := List.length_eq_zero_iff.mp (by omega)
    subst stack
    exact ⟨fun _ hx => hx, by simp, fun x hx hn => (hn hx).elim, fun x hx => Or.inl hx⟩
  | succ fuel ih =>
    cases stack with
    | nil => exact ⟨fun _ hx => hx, by simp, fun x hx hn => (hn hx).elim, fun x hx => Or.inl hx⟩
    | cons id stack =>
      have htail : ∀ x ∈ stack, x ∈ ids := fun x hx => hstack x (List.mem_cons_of_mem _ hx)
      rw [List.length_cons] at hfuel
      by_cases hs : id ∈ seen
      · have hrest := ih stack seen htail (by omega)
        rw [follow, if_pos hs]
        refine ⟨hrest.seen_mem, fun x hx => ?_, hrest.closed, fun x hx => ?_⟩
        · rcases List.mem_cons.mp hx with rfl | hx
          · exact hrest.seen_mem x hs
          · exact hrest.start_mem x hx
        · refine (hrest.sound x hx).imp_right fun ⟨s, hm, hr⟩ => ⟨s, List.mem_cons_of_mem _ hm, hr⟩
      · have hmem : ∀ x, x ∈ insertId id seen ↔ x = id ∨ x ∈ seen := fun x => mem_insertId
        have hcost := unseenCost_enter (fun id => (next id).length) (hstack id List.mem_cons_self) hs
          hmem
        have hrest := ih (next id ++ stack) (insertId id seen)
          (fun x hx => (List.mem_append.mp hx).elim hids (htail x))
          (by rw [List.length_append]; omega)
        rw [follow, if_neg hs]
        have hid : id ∈ follow next fuel (next id ++ stack) (insertId id seen) :=
          hrest.seen_mem id (mem_insertId.mpr (.inl rfl))
        refine ⟨fun x hx => hrest.seen_mem x (mem_insertId.mpr (.inr hx)), fun x hx => ?_,
          fun x hx hn y hy => ?_, fun x hx => ?_⟩
        · rcases List.mem_cons.mp hx with rfl | hx
          · exact hid
          · exact hrest.start_mem x (List.mem_append_right _ hx)
        · by_cases he : x = id
          · subst x
            exact hrest.start_mem y (List.mem_append_left _ hy)
          · exact hrest.closed x hx (fun hm => (mem_insertId.mp hm).elim he hn) y hy
        · rcases hrest.sound x hx with hm | ⟨s, hm, hr⟩
          · rcases mem_insertId.mp hm with rfl | hm
            · exact Or.inr ⟨x, List.mem_cons_self, .refl⟩
            · exact Or.inl hm
          · rcases List.mem_append.mp hm with hm | hm
            · exact Or.inr ⟨id, List.mem_cons_self, hr.head hm⟩
            · exact Or.inr ⟨s, List.mem_cons_of_mem _ hm, hr⟩

theorem sum_successors (g : Graph) (hv : g.Valid) :
    (g.ids.map fun id => (g.successors id).length).sum =
      (g.tasks.values.flatMap (·.successors)).length := by
  rw [List.length_flatMap, ids, Table.keys, Table.values, List.map_map, List.map_map]
  congr 1
  apply List.map_congr_left
  intro q hq
  have hf : g.task? q.1 = some q.2 := hv.sorted.find?_of_mem hq
  exact congrArg List.length (successors_of_task? hf)

/-- Behind a task are exactly the tasks that it comes before. -/
theorem mem_downstream_iff {g : Graph} (hv : g.Valid) {a b : TaskId} :
    b ∈ g.downstream a ↔ g.Before a b := by
  have hsub : ∀ {a b}, b ∈ g.successors a → b ∈ g.ids := fun he => (hv.mem_ids he).2
  have hlen : (g.successors a).length ≤ g.size := by
    rw [show g.size = g.ids.length from Table.size_eq_length_keys g.tasks]
    exact ((hv.nodup_successors a).subperm fun x hx => hsub hx).length_le
  have hcost := unseenCost_le_sum (fun id => (g.successors id).length) g.ids []
  rw [sum_successors g hv] at hcost
  have hf : Follows g.successors (g.successors a) [] _ :=
    follows_follow hsub (g.size + (g.tasks.values.flatMap (·.successors)).length + 1)
      (g.successors a) [] (fun x hx => hsub hx) (by omega)
  have hmem : b ∈ g.downstream a ↔ b ∈ follow g.successors
      (g.size + (g.tasks.values.flatMap (·.successors)).length + 1) (g.successors a) [] ∧ b ≠ a := by
    simp [downstream]
  rw [hmem]
  clear hmem
  constructor
  · rintro ⟨hb, -⟩
    obtain ⟨s, hs, hr⟩ := (hf.sound b hb).resolve_left List.not_mem_nil
    exact Relation.TransGen.head' hs hr
  · intro hab
    refine ⟨?_, fun e => hv.acyclic a (e ▸ hab)⟩
    induction hab with
    | single he => exact hf.start_mem _ he
    | tail _ he ih => exact hf.closed _ ih List.not_mem_nil _ he

theorem pairwise_follow {next : TaskId → List TaskId} (fuel : Nat) (stack : List TaskId)
    {seen : List TaskId} (h : seen.Pairwise (· < ·)) :
    (follow next fuel stack seen).Pairwise (· < ·) := by
  induction fuel generalizing stack seen with
  | zero => exact h
  | succ fuel ih =>
    cases stack with
    | nil => exact h
    | cons id stack =>
      rw [follow]
      split
      · exact ih stack h
      · exact ih _ (pairwise_insertId h)

theorem pairwise_downstream (g : Graph) (id : TaskId) : (g.downstream id).Pairwise (· < ·) :=
  (pairwise_follow _ _ List.Pairwise.nil).filter _

end Rollout.Graph
