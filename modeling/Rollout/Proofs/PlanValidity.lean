import Mathlib.Data.List.Nodup
import Rollout.Graph.Basic
import Rollout.Proofs.CycleSearch
import Rollout.Proofs.TableLookup

/-! Plans that make a graph are exactly those whose edges are declared once on both ends, name tasks
of the plan only and make no cycle; the graph keeps their tasks as they are. -/

namespace Rollout

def Plan.ids (p : Plan) : List TaskId := p.tasks.map (·.id)

/-- Edges of tasks, as they are declared at their sources. -/
def Leads (tasks : List Task) (a b : TaskId) : Prop := ∃ t ∈ tasks, t.id = a ∧ b ∈ t.successors

def Plan.Edge (p : Plan) : TaskId → TaskId → Prop := Leads p.tasks

/-- A list of other tasks of the plan, each once. -/
structure Plan.Names (p : Plan) (t : Task) (edges : List TaskId) : Prop where
  nodup : edges.Nodup
  not_self : t.id ∉ edges
  known : ∀ id ∈ edges, id ∈ p.ids

structure Plan.WellFormed (p : Plan) : Prop where
  distinct : p.ids.Nodup
  predecessors : ∀ t ∈ p.tasks, p.Names t t.predecessors
  successors : ∀ t ∈ p.tasks, p.Names t t.successors
  two_sided : ∀ s ∈ p.tasks, ∀ t ∈ p.tasks, t.id ∈ s.successors ↔ s.id ∈ t.predecessors
  acyclic : ∀ id, ¬ Relation.TransGen p.Edge id id

/-- What a graph knows of the plan it was made from. -/
structure Graph.Holds (g : Graph) (p : Plan) : Prop where
  name_eq : g.name = p.name
  tasks_perm : g.tasks.values.Perm p.tasks
  task?_eq_some : ∀ id t, g.task? id = some t ↔ t ∈ p.tasks ∧ t.id = id
  ids_ascending : g.ids.Pairwise (· < ·)
  roots_ascending : g.roots.Pairwise (· < ·)
  mem_roots : ∀ id, id ∈ g.roots ↔ ∃ t ∈ p.tasks, t.id = id ∧ t.predecessors = []

theorem eq_of_id_eq {tasks : List Task} (h : (tasks.map (·.id)).Nodup) {s t : Task}
    (hs : s ∈ tasks) (ht : t ∈ tasks) (he : s.id = t.id) : s = t :=
  List.inj_on_of_nodup_map h hs ht he

namespace Graph

def taskTable (p : Plan) : Table TaskId Task := .ofList (p.tasks.map fun t => (t.id, t))

theorem ofPlan_eq (p : Plan) :
    ofPlan p =
      match duplicateId? p.tasks [] with
      | some id => .error (.duplicateTask id)
      | none =>
        match (p.tasks.findSome? (taskFault? (taskTable p).contains)).or
            (p.tasks.findSome? (oneSided? (taskTable p))) with
        | some f => .error f
        | none =>
          match cyclic? (taskTable p).values with
          | some id => .error (.cycle id)
          | none => .ok (index p.name (taskTable p)) := rfl

theorem duplicateId?_eq_none_iff {tasks : List Task} {seen : List TaskId} :
    duplicateId? tasks seen = none ↔ (tasks.map (·.id)).Nodup ∧ ∀ t ∈ tasks, t.id ∉ seen := by
  induction tasks generalizing seen with
  | nil => simp [duplicateId?]
  | cons t rest ih =>
    by_cases h : t.id ∈ seen
    · simp [duplicateId?, h]
    · rw [duplicateId?]
      simp only [h, if_false, ih, List.map_cons, List.nodup_cons, List.forall_mem_cons,
        not_false_eq_true, true_and]
      constructor
      · rintro ⟨hnd, hrest⟩
        refine ⟨⟨?_, hnd⟩, fun u hu hm => hrest u hu (List.mem_cons_of_mem _ hm)⟩
        intro hm
        obtain ⟨u, hu, he⟩ := List.mem_map.mp hm
        exact hrest u hu (he ▸ List.mem_cons_self)
      · rintro ⟨⟨hid, hnd⟩, hrest⟩
        refine ⟨hnd, fun u hu hm => ?_⟩
        rcases List.mem_cons.mp hm with he | hm
        · exact hid (he ▸ List.mem_map_of_mem hu)
        · exact hrest u hu hm

theorem edgeFault?_eq_none_iff {known : TaskId → Bool} {id : TaskId} {edges seen : List TaskId} :
    edgeFault? known id edges seen = none ↔
      edges.Nodup ∧ (∀ e ∈ edges, e ∉ seen) ∧ ∀ e ∈ edges, known e = true := by
  induction edges generalizing seen with
  | nil => simp [edgeFault?]
  | cons e rest ih =>
    by_cases hs : e ∈ seen
    · simp [edgeFault?, hs]
    · by_cases hk : known e = true
      · simp only [edgeFault?, hs, hk, ih, if_false, Bool.not_true, Bool.false_eq_true,
          List.nodup_cons, List.forall_mem_cons, not_false_eq_true, true_and]
        constructor
        · rintro ⟨hnd, hnew, hknown⟩
          exact ⟨⟨fun hm => hnew e hm List.mem_cons_self, hnd⟩,
            fun x hx hm => hnew x hx (List.mem_cons_of_mem _ hm), hknown⟩
        · rintro ⟨⟨he, hnd⟩, hnew, hknown⟩
          refine ⟨hnd, fun x hx hm => ?_, hknown⟩
          rcases List.mem_cons.mp hm with rfl | hm
          · exact he hx
          · exact hnew x hx hm
      · simp [edgeFault?, hs, hk]

theorem mem_keys_taskTable {p : Plan} {id : TaskId} : id ∈ (taskTable p).keys ↔ id ∈ p.ids := by
  rw [taskTable, Table.mem_keys_ofList, List.map_map]
  rfl

theorem taskFault?_eq_none_iff {p : Plan} {t : Task} :
    taskFault? (taskTable p).contains t = none ↔
      p.Names t t.predecessors ∧ p.Names t t.successors := by
  have hnames : ∀ edges, edgeFault? (taskTable p).contains t.id edges [] = none ∧ t.id ∉ edges ↔
      p.Names t edges := by
    intro edges
    simp only [edgeFault?_eq_none_iff, Table.contains_eq_true_iff, mem_keys_taskTable]
    constructor
    · rintro ⟨⟨hnd, -, hk⟩, hself⟩
      exact ⟨hnd, hself, hk⟩
    · intro h
      exact ⟨⟨h.nodup, fun _ _ => List.not_mem_nil, h.known⟩, h.not_self⟩
  rw [← hnames, ← hnames, taskFault?]
  by_cases h : t.id ∈ t.predecessors ∨ t.id ∈ t.successors
  · rw [if_pos h]
    constructor
    · intro hn
      cases hn
    · rintro ⟨⟨-, hp⟩, -, hs⟩
      exact absurd h (not_or.mpr ⟨hp, hs⟩)
  · rw [if_neg h, Option.or_eq_none_iff]
    obtain ⟨hp, hs⟩ := not_or.mp h
    simp [hp, hs]

section Distinct

variable {p : Plan} (hd : p.ids.Nodup)
include hd

theorem taskTable_perm : (taskTable p).values.Perm p.tasks := by
  have hmap : ((p.tasks.map fun t => (t.id, t)).map Prod.fst) = p.ids := by
    rw [List.map_map]
    rfl
  have h := (Table.ofList_perm (hmap ▸ hd)).map Prod.snd
  rw [List.map_map] at h
  exact h.trans (List.Perm.of_eq (List.map_id _))

theorem find?_taskTable {id : TaskId} {t : Task} :
    (taskTable p).find? id = some t ↔ t ∈ p.tasks ∧ t.id = id := by
  have hsorted : (taskTable p).Sorted := Table.Sorted.ofList _
  have hmap : ((p.tasks.map fun t => (t.id, t)).map Prod.fst) = p.ids := by
    rw [List.map_map]
    rfl
  have hperm := Table.ofList_perm (hmap ▸ hd)
  constructor
  · intro h
    have hm := hperm.mem_iff.mp (Table.mem_pairs_of_find? h)
    obtain ⟨u, hu, he⟩ := List.mem_map.mp hm
    obtain ⟨rfl, rfl⟩ := Prod.mk.inj he
    exact ⟨hu, rfl⟩
  · rintro ⟨ht, rfl⟩
    exact hsorted.find?_of_mem (hperm.mem_iff.mpr (List.mem_map.mpr ⟨t, ht, rfl⟩))

theorem oneSided?_eq_none_iff {t : Task} (hp : ∀ id ∈ t.predecessors, id ∈ p.ids)
    (hs : ∀ id ∈ t.successors, id ∈ p.ids) :
    oneSided? (taskTable p) t = none ↔
      ∀ u ∈ p.tasks, (u.id ∈ t.predecessors → t.id ∈ u.successors) ∧
        (u.id ∈ t.successors → t.id ∈ u.predecessors) := by
  have hdeclared : ∀ (list : Task → List TaskId) (edges : List TaskId), (∀ id ∈ edges, id ∈ p.ids) →
      (edges.find? (fun id => !(((taskTable p).find? id).map fun u =>
          decide (t.id ∈ list u)).getD false) = none ↔
        ∀ u ∈ p.tasks, u.id ∈ edges → t.id ∈ list u) := by
    intro list edges hknown
    rw [List.find?_eq_none]
    constructor
    · intro h u hu hm
      have hf := (find?_taskTable hd).mpr ⟨hu, rfl⟩
      simpa [hf] using h u.id hm
    · intro h id hm
      obtain ⟨u, hu, rfl⟩ := List.mem_map.mp (hknown id hm)
      have hf := (find?_taskTable hd).mpr ⟨hu, rfl⟩
      simpa [hf] using h u hu hm
  simp only [oneSided?, Option.or_eq_none_iff, Option.map_eq_none_iff]
  rw [hdeclared (·.successors) _ hp, hdeclared (·.predecessors) _ hs]
  exact ⟨fun h u hu => ⟨h.1 u hu, h.2 u hu⟩, fun h => ⟨fun u hu => (h u hu).1, fun u hu => (h u hu).2⟩⟩

theorem isRoot_taskTable {id : TaskId} :
    id ∈ (index p.name (taskTable p)).roots ↔ ∃ t ∈ p.tasks, t.id = id ∧ t.predecessors = [] := by
  change id ∈ (List.filter (·.isRoot) (taskTable p).values).map (·.id) ↔ _
  simp only [List.mem_map, List.mem_filter, (taskTable_perm hd).mem_iff, Task.isRoot,
    List.isEmpty_iff]
  exact ⟨fun ⟨t, ⟨ht, hp⟩, he⟩ => ⟨t, ht, he, hp⟩, fun ⟨t, ht, he, hp⟩ => ⟨t, ⟨ht, hp⟩, he⟩⟩

theorem ids_values_taskTable : (taskTable p).values.map (·.id) = (taskTable p).keys := by
  have hid : ∀ q ∈ (taskTable p).pairs, q.2.id = q.1 := by
    intro q hq
    have hf := (Table.Sorted.ofList _).find?_of_mem (t := taskTable p) (k := q.1) (a := q.2) hq
    exact ((find?_taskTable hd).mp hf).2
  rw [Table.values, Table.keys, List.map_map]
  exact List.map_congr_left hid

theorem index_holds : (index p.name (taskTable p)).Holds p where
  name_eq := rfl
  tasks_perm := taskTable_perm hd
  task?_eq_some _ _ := find?_taskTable hd
  ids_ascending := (Table.Sorted.ofList _).pairwise_keys
  roots_ascending := by
    have hkeys : (taskTable p).keys.Pairwise (· < ·) := (Table.Sorted.ofList _).pairwise_keys
    rw [← ids_values_taskTable hd] at hkeys
    exact hkeys.sublist (List.filter_sublist.map _)
  mem_roots _ := isRoot_taskTable hd

end Distinct

theorem mem_forward_ofTasks {tasks : List Task} (h : (tasks.map (·.id)).Nodup) {u v : TaskId} :
    v ∈ (Arrows.ofTasks tasks).forward u ↔ Leads tasks u v := by
  change v ∈ ((tasks.find? (·.id = u)).map (·.successors.reverse)).getD [] ↔ _
  cases hf : tasks.find? (·.id = u) with
  | none =>
    constructor
    · intro hv
      cases hv
    · rintro ⟨t, ht, he, -⟩
      exact absurd he (by simpa using List.find?_eq_none.mp hf t ht)
  | some t =>
    have hid : t.id = u := by simpa using List.find?_some hf
    have hmem := List.mem_of_find?_eq_some hf
    rw [Option.map_some, Option.getD_some, List.mem_reverse]
    constructor
    · exact fun hv => ⟨t, hmem, hid, hv⟩
    · rintro ⟨s, hs, he, hv⟩
      rwa [eq_of_id_eq h hmem hs (hid.trans he.symm)]

theorem mem_backward_ofTasks {tasks : List Task} {u v : TaskId} :
    u ∈ (Arrows.ofTasks tasks).backward v ↔ Leads tasks u v := by
  change u ∈ ((tasks.filter (v ∈ ·.successors)).map (·.id)).reverse ↔ _
  simp only [List.mem_reverse, List.mem_map, List.mem_filter, decide_eq_true_eq]
  exact ⟨fun ⟨t, ⟨ht, hv⟩, he⟩ => ⟨t, ht, he, hv⟩, fun ⟨t, ht, he, hv⟩ => ⟨t, ⟨ht, hv⟩, he⟩⟩

theorem closed_ofTasks {tasks : List Task} (hd : (tasks.map (·.id)).Nodup)
    (hknown : ∀ t ∈ tasks, ∀ id ∈ t.successors, id ∈ tasks.map (·.id)) :
    (Arrows.ofTasks tasks).Closed := by
  refine ⟨fun {u v} h => ?_, fun {u v} h => ?_, ?_⟩
  · obtain ⟨t, ht, -, hv⟩ := (mem_forward_ofTasks hd).mp h
    exact hknown t ht v hv
  · obtain ⟨t, ht, rfl, -⟩ := (mem_forward_ofTasks hd).mp h
    exact List.mem_map_of_mem ht
  · exact mem_backward_ofTasks.trans (mem_forward_ofTasks hd).symm

theorem edge_ofTasks {tasks : List Task} (hd : (tasks.map (·.id)).Nodup) :
    (Arrows.ofTasks tasks).Edge = Leads tasks := by
  funext u v
  exact propext (mem_forward_ofTasks hd)

theorem leads_congr {l l' : List Task} (h : l.Perm l') : Leads l = Leads l' := by
  funext a b
  exact propext (exists_congr fun t => and_congr_left' h.mem_iff)

theorem edges_eq_none_iff {p : Plan} (hd : p.ids.Nodup) :
    (p.tasks.findSome? (taskFault? (taskTable p).contains)).or
        (p.tasks.findSome? (oneSided? (taskTable p))) = none ↔
      (∀ t ∈ p.tasks, p.Names t t.predecessors ∧ p.Names t t.successors) ∧
        ∀ s ∈ p.tasks, ∀ t ∈ p.tasks, t.id ∈ s.successors ↔ s.id ∈ t.predecessors := by
  simp only [Option.or_eq_none_iff, List.findSome?_eq_none_iff, taskFault?_eq_none_iff]
  apply and_congr_right
  intro hn
  have hone : ∀ t ∈ p.tasks, oneSided? (taskTable p) t = none ↔ _ := fun t ht =>
    oneSided?_eq_none_iff hd (hn t ht).1.known (hn t ht).2.known
  constructor
  · intro h s hs t ht
    exact ⟨((hone s hs).mp (h s hs) t ht).2, ((hone t ht).mp (h t ht) s hs).1⟩
  · intro h t ht
    exact (hone t ht).mpr fun u hu => ⟨(h u hu t ht).mpr, (h t ht u hu).mp⟩

section Arrows

variable {p : Plan} (hd : p.ids.Nodup)
include hd

theorem edge_taskTable : (Arrows.ofTasks (taskTable p).values).Edge = p.Edge := by
  have hperm := taskTable_perm hd
  rw [edge_ofTasks ((hperm.map _).nodup_iff.mpr hd), leads_congr hperm]
  rfl

variable (hs : ∀ t ∈ p.tasks, p.Names t t.successors)
include hs

theorem closed_taskTable : (Arrows.ofTasks (taskTable p).values).Closed := by
  have hperm := taskTable_perm hd
  have hids : ((taskTable p).values.map (·.id)).Perm p.ids := hperm.map _
  apply closed_ofTasks (hids.nodup_iff.mpr hd)
  intro t ht id hid
  exact hids.mem_iff.mpr ((hs t (hperm.mem_iff.mp ht)).known id hid)

theorem cyclic?_taskTable_iff :
    cyclic? (taskTable p).values = none ↔ ∀ id, ¬ Relation.TransGen p.Edge id id := by
  have hself : ∀ u, ¬ (Arrows.ofTasks (taskTable p).values).Edge u u := by
    intro u hu
    rw [edge_taskTable hd] at hu
    obtain ⟨t, ht, rfl, hm⟩ := hu
    exact (hs t ht).not_self hm
  rw [cyclic?, meeting?_leaving_iff (closed_taskTable hd hs) hself, Arrows.Acyclic, edge_taskTable hd]

theorem circles_of_cyclic? {id : TaskId} (h : cyclic? (taskTable p).values = some id) :
    Circles p.Edge id := by
  have hcircles := circles_of_leaving (closed_taskTable hd hs) h
  rwa [edge_taskTable hd] at hcircles

end Arrows

theorem ofPlan_eq_ok_iff {p : Plan} {g : Graph} :
    ofPlan p = .ok g ↔ p.WellFormed ∧ g = index p.name (taskTable p) := by
  rw [ofPlan_eq]
  split
  next id hdup =>
    refine ⟨nofun, fun ⟨hw, _⟩ => ?_⟩
    have hnone := duplicateId?_eq_none_iff.mpr ⟨hw.distinct, fun _ _ => List.not_mem_nil⟩
    rw [hdup] at hnone
    cases hnone
  next hdup =>
    have hd : p.ids.Nodup := (duplicateId?_eq_none_iff.mp hdup).1
    split
    next f hfault =>
      refine ⟨nofun, fun ⟨hw, _⟩ => ?_⟩
      have hnone := (edges_eq_none_iff hd).mpr
        ⟨fun t ht => ⟨hw.predecessors t ht, hw.successors t ht⟩, hw.two_sided⟩
      rw [hfault] at hnone
      cases hnone
    next hfault =>
      obtain ⟨hnames, htwo⟩ := (edges_eq_none_iff hd).mp hfault
      have hcycle := cyclic?_taskTable_iff hd fun t ht => (hnames t ht).2
      split
      next id hcyc =>
        refine ⟨nofun, fun ⟨hw, _⟩ => ?_⟩
        rw [hcycle.mpr hw.acyclic] at hcyc
        cases hcyc
      next hcyc =>
        have hw : p.WellFormed := ⟨hd, fun t ht => (hnames t ht).1, fun t ht => (hnames t ht).2,
          htwo, hcycle.mp hcyc⟩
        constructor
        · intro h
          exact ⟨hw, (Except.ok.inj h).symm⟩
        · rintro ⟨-, rfl⟩
          rfl

theorem holds_of_ofPlan {p : Plan} {g : Graph} (h : ofPlan p = .ok g) : g.Holds p := by
  obtain ⟨hw, rfl⟩ := ofPlan_eq_ok_iff.mp h
  exact index_holds hw.distinct

/-- A plan is taken exactly if its edges make sense, and its graph leaves its tasks as they are. -/
theorem ofPlan_exact (p : Plan) :
    ((∃ g, ofPlan p = .ok g) ↔ p.WellFormed) ∧ ∀ g, ofPlan p = .ok g → g.Holds p :=
  ⟨⟨fun ⟨_, h⟩ => (ofPlan_eq_ok_iff.mp h).1, fun h => ⟨_, ofPlan_eq_ok_iff.mpr ⟨h, rfl⟩⟩⟩,
    fun _ => holds_of_ofPlan⟩

end Graph

end Rollout
