import Rollout.Proofs.LeastOrder

/-! What a graph knows to be above a task is exactly what comes before it. The ancestors of a task are
gathered from those of its predecessors, all of which have been there by then. -/

namespace Rollout.Graph

theorem before_iff {g : Graph} {a b : TaskId} :
    g.Before a b ↔ ∃ p, g.Edge p b ∧ (a = p ∨ g.Before a p) := by
  constructor
  · intro hab
    cases hab with
    | single he => exact ⟨a, he, Or.inl rfl⟩
    | tail hap he => exact ⟨_, he, Or.inr hap⟩
  · rintro ⟨p, he, rfl | hap⟩
    · exact .single he
    · exact hap.tail he

/-- All that is above some tasks, and these themselves. -/
def gather (t : Table TaskId (List TaskId)) (preds : List TaskId) : List TaskId :=
  preds.foldl (fun acc p =>
    ((t.find? p).getD []).foldl (fun acc a => insertId a acc) (insertId p acc)) []

theorem mem_gather {t : Table TaskId (List TaskId)} {preds : List TaskId} {a : TaskId} :
    a ∈ gather t preds ↔ ∃ p ∈ preds, a = p ∨ a ∈ (t.find? p).getD [] := by
  have hfold : ∀ acc : List TaskId, a ∈ preds.foldl (fun acc p =>
      ((t.find? p).getD []).foldl (fun acc a => insertId a acc) (insertId p acc)) acc ↔
      (∃ p ∈ preds, a = p ∨ a ∈ (t.find? p).getD []) ∨ a ∈ acc := by
    induction preds with
    | nil => simp
    | cons p preds ih =>
      intro acc
      rw [List.foldl_cons, ih, mem_foldl_insertId, mem_insertId, List.exists_mem_cons_iff]
      simp only [or_assoc, or_comm, or_left_comm]
  rw [gather, hfold, or_iff_left List.not_mem_nil]

/-- The ancestors of the tasks taken so far are known, and of no others. -/
structure Indexed (g : Graph) (taken : List TaskId) (t : Table TaskId (List TaskId)) : Prop where
  find?_taken : ∀ x ∈ taken, ∃ l, t.find? x = some l ∧ ∀ a, a ∈ l ↔ g.Before a x
  find?_other : ∀ x, x ∉ taken → t.find? x = none

theorem Indexed.take {g : Graph} (hv : g.Valid) {taken : List TaskId} {t : Table TaskId (List TaskId)}
    (h : g.Indexed taken t) {id : TaskId} (hid : g.Open taken id) :
    g.Indexed (id :: taken) (t.insert id (gather t (g.predecessors id))) := by
  refine ⟨fun x hx => ?_, fun x hx => ?_⟩
  · rw [Table.find?_insert]
    by_cases he : x = id
    · subst x
      refine ⟨_, if_pos rfl, fun a => ?_⟩
      rw [mem_gather, before_iff]
      refine exists_congr fun p => ?_
      rw [hv.mem_predecessors]
      refine and_congr_right fun hp => or_congr_right ?_
      obtain ⟨l, hl, hmem⟩ := h.find?_taken p (hid.preceded p hp)
      rw [hl, Option.getD_some, hmem]
    · rw [if_neg he]
      exact h.find?_taken x ((List.mem_cons.mp hx).resolve_left he)
  · obtain ⟨hne, hx⟩ := not_or.mp fun hm => hx (List.mem_cons.mpr hm)
    rw [Table.find?_insert, if_neg hne]
    exact h.find?_other x hx

theorem indexed_foldl {g : Graph} (hv : g.Valid) {taken order : List TaskId}
    (ho : g.TakesLeast taken order) {t : Table TaskId (List TaskId)} (h : g.Indexed taken t) :
    ∃ all, (∀ x ∈ g.ids, x ∈ all) ∧
      g.Indexed all (order.foldl (fun t id => t.insert id (gather t (g.predecessors id))) t) := by
  induction order generalizing taken t with
  | nil => exact ⟨taken, ho, h⟩
  | cons id order ih => exact ih ho.2.2 (h.take hv ho.1)

theorem mem_upstream_iff {p : Plan} {g : Graph} (h : ofPlan p = .ok g) {a b : TaskId} :
    a ∈ g.upstream b ↔ g.Before a b := by
  have hv := valid_of_ofPlan h
  have hancestors : g.ancestors =
      g.order.foldl (fun t id => t.insert id (gather t (g.predecessors id))) .empty := by
    obtain ⟨-, rfl⟩ := ofPlan_eq_ok_iff.mp h
    rfl
  obtain ⟨all, hall, hindexed⟩ := indexed_foldl hv (takesLeast_order h) (t := .empty)
    ⟨fun x hx => (List.not_mem_nil hx).elim, fun _ _ => rfl⟩
  rw [← hancestors] at hindexed
  rw [upstream]
  by_cases hb : b ∈ all
  · obtain ⟨l, hl, hmem⟩ := hindexed.find?_taken b hb
    rw [hl, Option.getD_some, hmem]
  · rw [hindexed.find?_other b hb, Option.getD_none]
    exact iff_of_false List.not_mem_nil fun hab => hb (hall b (hv.before_mem_ids hab).2)

/-- What a graph knows of all ids, those of no task included, to be above and behind each other. -/
structure Relates (g : Graph) (p : Plan) : Prop where
  isUpstream_iff : ∀ a b, g.isUpstream a b = true ↔ a ∈ g.upstream b
  mem_upstream : ∀ a b, a ∈ g.upstream b ↔ Relation.TransGen p.Edge a b
  mem_downstream : ∀ a b, b ∈ g.downstream a ↔ Relation.TransGen p.Edge a b
  ascending : ∀ id, (g.downstream id).Pairwise (· < ·)
  not_self : ∀ id, id ∉ g.upstream id ∧ id ∉ g.downstream id

theorem ofPlan_relates {p : Plan} {g : Graph} (h : ofPlan p = .ok g) : g.Relates p := by
  have hv := valid_of_ofPlan h
  have hup : ∀ a b, a ∈ g.upstream b ↔ Relation.TransGen p.Edge a b := fun a b => by
    rw [mem_upstream_iff h, before_iff_of_ofPlan h]
  have hdown : ∀ a b, b ∈ g.downstream a ↔ Relation.TransGen p.Edge a b := fun a b => by
    rw [mem_downstream_iff hv, before_iff_of_ofPlan h]
  have hacyclic : ∀ id, ¬ Relation.TransGen p.Edge id id := fun id hid =>
    hv.acyclic id ((before_iff_of_ofPlan h).mpr hid)
  refine ⟨fun a b => ?_, hup, hdown, pairwise_downstream g, fun id => ⟨fun hm => ?_, fun hm => ?_⟩⟩
  · simp [isUpstream]
  · exact hacyclic id ((hup id id).mp hm)
  · exact hacyclic id ((hdown id id).mp hm)

/-- Two ways from the first task to the last. -/
def diamondPlan : Plan :=
  ⟨"diamond", [⟨1, .createNamespace "a", [], [3, 2]⟩, ⟨2, .createNamespace "b", [1], [4]⟩,
    ⟨3, .createNamespace "c", [1], [4]⟩, ⟨4, .createNamespace "d", [2, 3], []⟩]⟩

def diamond : Graph := index "diamond" (taskTable diamondPlan)

theorem ofPlan_relates_diamond : diamond.downstream 1 = [2, 3, 4] ∧ diamond.upstream 4 = [1, 2, 3] ∧
    diamond.Relates diamondPlan ∧ Relation.TransGen diamondPlan.Edge 1 4 ∧
    ¬ Relation.TransGen diamondPlan.Edge 2 3 := by
  have h := ofPlan_relates (p := diamondPlan) (g := diamond) rfl
  refine ⟨rfl, rfl, h, (h.mem_downstream 1 4).mp ?_, fun hback => ?_⟩
  · decide
  · exact absurd ((h.mem_upstream 2 3).mpr hback) (by decide)

end Rollout.Graph
