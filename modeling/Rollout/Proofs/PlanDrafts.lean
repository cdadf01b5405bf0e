import Rollout.Proofs.PlanFaults

/-! Plans made of steps, each with what it comes after. The other ends of their edges are filled in so that no
edge is ever declared on one end only: whether such a plan makes a graph depends on what was given alone. -/

namespace Rollout.Plan

/-- Whether a task was given to come after another. -/
def Comes (steps : List (TaskId × Payload × List TaskId)) (a b : TaskId) : Prop :=
  ∃ s ∈ steps, s.1 = b ∧ a ∈ s.2.2

/-- What the edges of a task make of another one: it is declared there, once, if it comes after that one. -/
def precede (b : TaskId) (after : List TaskId) (t : Task) : Task :=
  if t.id ∈ after ∧ b ∉ t.successors then { t with successors := t.successors ++ [b] } else t

variable {tasks : List Task} {a b : TaskId} {t : Task}

theorem lastPosition?_of_unknown (h : ∀ u ∈ tasks, u.id ≠ a) : lastPosition? tasks a = none := by
  have hnone : tasks.zipIdx.filter (·.1.id = a) = [] := by
    rw [List.filter_eq_nil_iff]
    intro u hu
    simpa using h u.1 (List.fst_mem_of_mem_zipIdx hu)
  rw [lastPosition?, hnone]
  rfl

theorem lastPosition?_append_cons {before rest : List Task} (h : ∀ u ∈ rest, u.id ≠ t.id) :
    lastPosition? (before ++ t :: rest) t.id = some before.length := by
  have hnone : (rest.zipIdx (before.length + 1)).filter (·.1.id = t.id) = [] := by
    rw [List.filter_eq_nil_iff]
    intro u hu
    simpa using h u.1 (List.fst_mem_of_mem_zipIdx hu)
  rw [lastPosition?, List.zipIdx_append, List.filter_append, List.zipIdx_cons,
    List.filter_cons_of_pos (by simp), Nat.zero_add, hnone, List.getLast?_append_cons]
  rfl

theorem declare_of_unknown (h : ∀ u ∈ tasks, u.id ≠ a) : declare tasks (a, b) = tasks := by
  rw [declare, lastPosition?_of_unknown h]

theorem declare_append_cons {before rest : List Task} (h : ∀ u ∈ rest, u.id ≠ t.id) :
    declare (before ++ t :: rest) (t.id, b) = before ++ precede b [t.id] t :: rest := by
  have hsame : (if b ∈ t.successors then t else { t with successors := t.successors ++ [b] }) =
      precede b [t.id] t := by
    by_cases hb : b ∈ t.successors <;> simp [precede, hb]
  rw [declare, lastPosition?_append_cons h]
  change (before ++ t :: rest).modify before.length _ = _
  rw [List.modify_eq_take_cons_drop (by simp)]
  simpa using hsame

theorem given_declare (tasks : List Task) (edge : TaskId × TaskId) :
    ((declare tasks edge).map fun t => (t.id, t.payload, t.predecessors)) =
      tasks.map fun t => (t.id, t.payload, t.predecessors) := by
  rw [declare]
  cases lastPosition? tasks edge.1 with
  | none => rfl
  | some n =>
    apply List.ext_getElem?
    intro i
    simp only [List.getElem?_map, List.getElem?_modify]
    cases tasks[i]? with
    | none => simp
    | some t => by_cases hi : n = i <;> by_cases hb : edge.2 ∈ t.successors <;> simp [hi, hb]

theorem given_ofSteps (name : String) (steps : List (TaskId × Payload × List TaskId)) :
    ((ofSteps name steps).tasks.map fun t => (t.id, t.payload, t.predecessors)) = steps := by
  have hfold : ∀ (edges : List (TaskId × TaskId)) (tasks : List Task),
      ((edges.foldl declare tasks).map fun t => (t.id, t.payload, t.predecessors)) =
        tasks.map fun t => (t.id, t.payload, t.predecessors) := by
    intro edges
    induction edges with
    | nil => exact fun tasks => rfl
    | cons edge edges ih => exact fun tasks => (ih _).trans (given_declare tasks edge)
  refine (hfold _ _).trans ?_
  rw [List.map_map]
  exact List.map_id steps

theorem ids_ofSteps (name : String) (steps : List (TaskId × Payload × List TaskId)) :
    (ofSteps name steps).ids = steps.map (·.1) := by
  have h := congrArg (List.map (·.1)) (given_ofSteps name steps)
  rwa [List.map_map] at h

section Precede

variable {after : List TaskId}

@[simp] theorem id_precede (b : TaskId) (after : List TaskId) (t : Task) : (precede b after t).id = t.id := by
  unfold precede
  split <;> rfl

theorem precede_of_not_mem (h : t.id ∉ after) : precede b after t = t := if_neg fun hm => h hm.1

theorem precede_precede : precede b after (precede b [a] t) = precede b (a :: after) t := by
  by_cases ha : t.id = a <;> by_cases hb : b ∈ t.successors <;> by_cases hm : t.id ∈ after <;>
    simp_all [precede]

theorem ids_map_precede (b : TaskId) (after : List TaskId) (tasks : List Task) :
    (tasks.map (precede b after)).map (·.id) = tasks.map (·.id) := by
  rw [List.map_map]
  exact List.map_congr_left fun t _ => id_precede b after t

theorem declare_eq_map (hd : (tasks.map (·.id)).Nodup) (a b : TaskId) :
    declare tasks (a, b) = tasks.map (precede b [a]) := by
  have hkept : ∀ us : List Task, (∀ u ∈ us, u.id ≠ a) → us.map (precede b [a]) = us := fun us h =>
    (List.map_congr_left fun u hu => precede_of_not_mem (by simpa using h u hu)).trans (List.map_id us)
  -- where ids are distinct, the last task with an id is the only one
  by_cases ha : a ∈ tasks.map (·.id)
  · obtain ⟨t, ht, rfl⟩ := List.mem_map.mp ha
    obtain ⟨before, rest, rfl⟩ := List.append_of_mem ht
    rw [List.map_append, List.map_cons, List.nodup_middle, ← List.map_append, List.nodup_cons] at hd
    have hother : ∀ u ∈ before ++ rest, u.id ≠ t.id := fun u hu he => hd.1 (he ▸ List.mem_map_of_mem hu)
    rw [declare_append_cons fun u hu => hother u (List.mem_append_right _ hu), List.map_append,
      List.map_cons, hkept before fun u hu => hother u (List.mem_append_left _ hu),
      hkept rest fun u hu => hother u (List.mem_append_right _ hu)]
  · have hother : ∀ u ∈ tasks, u.id ≠ a := fun u hu he => ha (he ▸ List.mem_map_of_mem hu)
    rw [declare_of_unknown hother, hkept tasks hother]

theorem foldl_declare (hd : (tasks.map (·.id)).Nodup) (b : TaskId) (after : List TaskId) :
    (after.map (·, b)).foldl declare tasks = tasks.map (precede b after) := by
  induction after generalizing tasks with
  | nil => exact (List.map_id'' (fun t => precede_of_not_mem List.not_mem_nil) tasks).symm
  | cons a after ih =>
    rw [List.map_cons, List.foldl_cons, declare_eq_map hd, ih (by rwa [ids_map_precede]), List.map_map]
    exact List.map_congr_left fun t _ => precede_precede

theorem foldl_edges (hd : (tasks.map (·.id)).Nodup) (given : List Task) :
    (edges given).foldl declare tasks =
      tasks.map fun t => given.foldl (fun t s => precede s.id s.predecessors t) t := by
  rw [edges, List.foldl_flatMap]
  induction given generalizing tasks with
  | nil => exact (List.map_id tasks).symm
  | cons s given ih =>
    rw [List.foldl_cons, foldl_declare hd, ih (by rwa [ids_map_precede]), List.map_map]
    rfl

/-- All that come after a task are declared there, each once and in their order. -/
theorem foldl_precede {given : List Task} (hd : (given.map (·.id)).Nodup)
    (hfresh : ∀ s ∈ given, s.id ∉ t.successors) :
    given.foldl (fun t s => precede s.id s.predecessors t) t =
      { t with successors := t.successors ++ (given.filter (t.id ∈ ·.predecessors)).map (·.id) } := by
  induction given generalizing t with
  | nil => simp
  | cons s given ih =>
    obtain ⟨hs, hrest⟩ := List.forall_mem_cons.mp hfresh
    obtain ⟨hnot, hd⟩ := List.nodup_cons.mp hd
    rw [List.foldl_cons]
    by_cases hm : t.id ∈ s.predecessors
    · have hstep : precede s.id s.predecessors t = { t with successors := t.successors ++ [s.id] } :=
        if_pos ⟨hm, hs⟩
      rw [hstep, ih hd]
      · simp [hm]
      · intro u hu hm
        rcases List.mem_append.mp hm with hm | hm
        · exact hrest u hu hm
        · exact hnot (List.mem_map.mpr ⟨u, hu, List.mem_singleton.mp hm⟩)
    · rw [precede_of_not_mem hm, ih hd hrest, List.filter_cons_of_neg (by simpa using hm)]

end Precede

variable (name : String) {steps : List (TaskId × Payload × List TaskId)}

theorem mem_comers {a b : TaskId} : b ∈ (steps.filter (a ∈ ·.2.2)).map (·.1) ↔ Comes steps a b := by
  simp only [List.mem_map, List.mem_filter, decide_eq_true_eq, Comes, and_assoc, and_comm]

/-- What the steps of a draft make, where no id is given twice. -/
theorem tasks_ofSteps (hd : (steps.map (·.1)).Nodup) :
    (ofSteps name steps).tasks = steps.map fun s =>
      ⟨s.1, s.2.1, s.2.2, (steps.filter (s.1 ∈ ·.2.2)).map (·.1)⟩ := by
  let given : List Task := steps.map fun s => ⟨s.1, s.2.1, s.2.2, []⟩
  have hids : (given.map (·.id)).Nodup := by rwa [List.map_map]
  have hfresh : ∀ t ∈ given, ∀ s ∈ given, s.id ∉ t.successors := by
    intro t ht
    obtain ⟨_, -, rfl⟩ := List.mem_map.mp ht
    simp
  calc (ofSteps name steps).tasks
      = given.map fun t => given.foldl (fun t s => precede s.id s.predecessors t) t :=
        foldl_edges hids given
    _ = given.map fun t =>
          { t with successors := t.successors ++ (given.filter (t.id ∈ ·.predecessors)).map (·.id) } :=
        List.map_congr_left fun t ht => foldl_precede hids (hfresh t ht)
    _ = _ := by simp [given, List.filter_map, Function.comp_def]

theorem awaits_ofSteps (a b : TaskId) : (ofSteps name steps).Awaits b a ↔ Comes steps a b := by
  have hgiven := given_ofSteps name steps
  constructor
  · rintro ⟨t, ht, rfl, ha⟩
    exact ⟨(t.id, t.payload, t.predecessors), hgiven ▸ List.mem_map_of_mem ht, rfl, ha⟩
  · rintro ⟨s, hs, rfl, ha⟩
    rw [← hgiven] at hs
    obtain ⟨t, ht, rfl⟩ := List.mem_map.mp hs
    exact ⟨t, ht, rfl, ha⟩

theorem edge_ofSteps (hd : (steps.map (·.1)).Nodup) (a b : TaskId) :
    (ofSteps name steps).Edge a b ↔ a ∈ steps.map (·.1) ∧ Comes steps a b := by
  rw [Edge, Leads, tasks_ofSteps name hd]
  constructor
  · rintro ⟨t, ht, rfl, hb⟩
    obtain ⟨s, hs, rfl⟩ := List.mem_map.mp ht
    exact ⟨List.mem_map_of_mem hs, mem_comers.mp hb⟩
  · rintro ⟨ha, hcomes⟩
    obtain ⟨s, hs, rfl⟩ := List.mem_map.mp ha
    exact ⟨_, List.mem_map_of_mem hs, rfl, mem_comers.mpr hcomes⟩

/-- No edge of a draft is declared on one end only, whatever else is wrong with it. -/
theorem ofSteps_two_sided (a b : TaskId) :
    Graph.ofPlan (ofSteps name steps) ≠ .error (.inconsistent a b) := by
  intro h
  -- with an id given twice the edges are not even looked at
  by_cases hd : (ofSteps name steps).ids.Nodup
  · have hsteps : (steps.map (·.1)).Nodup := ids_ofSteps name steps ▸ hd
    cases hown : (ofSteps name steps).tasks.findSome?
        (Graph.taskFault? (Graph.taskTable (ofSteps name steps)).contains) with
    | some f =>
      obtain ⟨t, ht, hf⟩ := List.exists_of_findSome?_eq_some hown
      rw [Graph.ofPlan_of_own hd hown] at h
      obtain rfl := Except.error.inj h
      cases Graph.ownFault_of_taskFault? hf
    | none =>
      have hnames := Graph.own_eq_none_iff.mp hown
      have hsides := (Graph.sides_eq_none_iff hd hnames).mpr fun a b => by
        rw [edge_ofSteps name hsteps, awaits_ofSteps]
        refine and_iff_right_of_imp fun hcomes => ?_
        obtain ⟨t, ht, -, ha⟩ := (awaits_ofSteps name a b).mpr hcomes
        exact ids_ofSteps name steps ▸ (hnames t ht).1.known a ha
      cases hcyclic : Graph.cyclic? (Graph.taskTable (ofSteps name steps)).values with
      | some id =>
        rw [Graph.ofPlan_of_cyclic hd hown hsides hcyclic] at h
        cases h
      | none =>
        rw [Graph.ofPlan_eq, Graph.duplicateId?_of_nodup hd, hown, hsides, hcyclic] at h
        cases h
  · obtain ⟨id, hid⟩ := Graph.exists_duplicateId? hd
    rw [Graph.ofPlan_of_duplicate hid] at h
    cases h

/-- Steps that make a graph: their ids are distinct, what each comes after is given once and is a step, and
they do not go round. -/
structure Orderly (steps : List (TaskId × Payload × List TaskId)) : Prop where
  distinct : (steps.map (·.1)).Nodup
  once : ∀ s ∈ steps, s.2.2.Nodup
  known : ∀ s ∈ steps, ∀ a ∈ s.2.2, a ∈ steps.map (·.1)
  acyclic : ∀ id, ¬ Relation.TransGen (Comes steps) id id

theorem Orderly.edge_eq (h : Orderly steps) : (ofSteps name steps).Edge = Comes steps := by
  funext a b
  refine propext ((edge_ofSteps name h.distinct a b).trans (and_iff_right_of_imp ?_))
  rintro ⟨s, hs, -, ha⟩
  exact h.known s hs a ha

theorem Orderly.wellFormed (h : Orderly steps) : (ofSteps name steps).WellFormed where
  distinct := by rw [ids_ofSteps]; exact h.distinct
  predecessors t ht := by
    rw [tasks_ofSteps name h.distinct] at ht
    obtain ⟨s, hs, rfl⟩ := List.mem_map.mp ht
    refine ⟨h.once s hs, fun hself => h.acyclic s.1 (.single ⟨s, hs, rfl, hself⟩), fun a ha => ?_⟩
    rw [ids_ofSteps]
    exact h.known s hs a ha
  successors t ht := by
    rw [tasks_ofSteps name h.distinct] at ht
    obtain ⟨s, hs, rfl⟩ := List.mem_map.mp ht
    refine ⟨h.distinct.sublist (List.filter_sublist.map _), fun hself => ?_, fun b hb => ?_⟩
    · exact h.acyclic s.1 (.single (mem_comers.mp hself))
    · obtain ⟨r, hr, rfl, -⟩ := mem_comers.mp hb
      rw [ids_ofSteps]
      exact List.mem_map_of_mem hr
  two_sided s hs t ht := by
    rw [tasks_ofSteps name h.distinct] at hs ht
    obtain ⟨r, hr, rfl⟩ := List.mem_map.mp hs
    obtain ⟨q, hq, rfl⟩ := List.mem_map.mp ht
    refine mem_comers.trans ⟨?_, fun ha => ⟨q, hq, rfl, ha⟩⟩
    rintro ⟨u, hu, he, ha⟩
    rwa [List.inj_on_of_nodup_map h.distinct hu hq he] at ha
  acyclic := by rw [h.edge_eq]; exact h.acyclic

theorem orderly_of_wellFormed (h : (ofSteps name steps).WellFormed) : Orderly steps := by
  have hd : (steps.map (·.1)).Nodup := ids_ofSteps name steps ▸ h.distinct
  have hnames : ∀ s ∈ steps, s.2.2.Nodup ∧ ∀ a ∈ s.2.2, a ∈ steps.map (·.1) := by
    intro s hs
    rw [← given_ofSteps name steps] at hs
    obtain ⟨t, ht, rfl⟩ := List.mem_map.mp hs
    exact ⟨(h.predecessors t ht).nodup, ids_ofSteps name steps ▸ (h.predecessors t ht).known⟩
  refine ⟨hd, fun s hs => (hnames s hs).1, fun s hs => (hnames s hs).2, fun id hid => ?_⟩
  have hle : ∀ a b, Comes steps a b → (ofSteps name steps).Edge a b := by
    rintro a b ⟨s, hs, rfl, ha⟩
    exact (edge_ofSteps name hd a s.1).mpr ⟨(hnames s hs).2 a ha, s, hs, rfl, ha⟩
  exact h.acyclic id (Relation.TransGen.mono hle id id hid)

/-- What a draft becomes. -/
structure Drafted (name : String) (steps : List (TaskId × Payload × List TaskId)) (p : Plan) : Prop where
  name_eq : p.name = name
  given : (p.tasks.map fun t => (t.id, t.payload, t.predecessors)) = steps
  two_sided : ∀ a b, Graph.ofPlan p ≠ .error (.inconsistent a b)
  taken_iff : (∃ g, Graph.ofPlan p = .ok g) ↔ Orderly steps
  successors : (steps.map (·.1)).Nodup →
    ∀ t ∈ p.tasks, t.successors.Nodup ∧ ∀ b, b ∈ t.successors ↔ Comes steps t.id b

/-- A draft is taken exactly if its steps make a graph, and its tasks are the steps with the other ends of their
edges. -/
theorem ofSteps_drafted (name : String) (steps : List (TaskId × Payload × List TaskId)) :
    Drafted name steps (ofSteps name steps) where
  name_eq := rfl
  given := given_ofSteps name steps
  two_sided := ofSteps_two_sided name
  taken_iff :=
    ⟨fun ⟨_, h⟩ => orderly_of_wellFormed name (Graph.ofPlan_eq_ok_iff.mp h).1,
      fun h => ⟨_, Graph.ofPlan_eq_ok_iff.mpr ⟨h.wellFormed name, rfl⟩⟩⟩
  successors hd t ht := by
    rw [tasks_ofSteps name hd] at ht
    obtain ⟨s, hs, rfl⟩ := List.mem_map.mp ht
    exact ⟨hd.sublist (List.filter_sublist.map _), fun b => mem_comers⟩

end Rollout.Plan
