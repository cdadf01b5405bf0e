import Rollout.Proofs.PlanValidity

/-! What is reported of a plan that makes no graph. Every fault that is reported is there, and of several
faults the one reported is of the first kind that is looked for. Each task is searched for an edge to itself
and for entries at fault before the next task is, so these two kinds are reported in the order of the tasks. -/

namespace Rollout

def Task.Lists (t : Task) (id : TaskId) : Prop := id ∈ t.predecessors ∨ id ∈ t.successors

instance (t : Task) (id : TaskId) : Decidable (t.Lists id) :=
  inferInstanceAs (Decidable (id ∈ t.predecessors ∨ id ∈ t.successors))

/-- Edges of a plan as they are declared at their targets. -/
def Plan.Awaits (p : Plan) (b a : TaskId) : Prop := ∃ t ∈ p.tasks, t.id = b ∧ a ∈ t.predecessors

/-- Whether a list of the task holds an entry twice or one that is no task. -/
def Plan.Misnames (p : Plan) (t : Task) : Prop :=
  ¬ t.predecessors.Nodup ∨ ¬ t.successors.Nodup ∨ ∃ id, t.Lists id ∧ id ∉ p.ids

namespace Graph

/-- What a fault says of the plan. -/
def Fault.Shows (p : Plan) : Fault → Prop
  | duplicateTask id => 2 ≤ p.ids.count id
  | dangling id missing => (∃ t ∈ p.tasks, t.id = id ∧ t.Lists missing) ∧ missing ∉ p.ids
  | inconsistent source target => Xor (p.Edge source target) (p.Awaits target source)
  | duplicateEdge id other =>
    ∃ t ∈ p.tasks, t.id = id ∧ (2 ≤ t.predecessors.count other ∨ 2 ≤ t.successors.count other)
  | cycle id => (∃ t ∈ p.tasks, t.id = id ∧ t.Lists id) ∨ Circles p.Edge id

theorem count_of_duplicateId? {tasks : List Task} {seen : List TaskId} {id : TaskId}
    (h : duplicateId? tasks seen = some id) :
    2 ≤ seen.count id + (tasks.map (·.id)).count id := by
  induction tasks generalizing seen with
  | nil => simp [duplicateId?] at h
  | cons t rest ih =>
    rw [duplicateId?] at h
    split at h
    next hseen =>
      obtain rfl : t.id = id := Option.some.inj h
      have hpos := List.count_pos_iff.mpr hseen
      rw [List.map_cons, List.count_cons_self]
      omega
    next hseen =>
      have hrest := ih h
      rw [List.count_cons] at hrest
      rw [List.map_cons, List.count_cons]
      omega

theorem edgeFault?_cases {known : TaskId → Bool} {id : TaskId} {edges seen : List TaskId} {f : Fault}
    (h : edgeFault? known id edges seen = some f) :
    (∃ other, f = .duplicateEdge id other ∧ 2 ≤ seen.count other + edges.count other) ∨
      ∃ missing, f = .dangling id missing ∧ missing ∈ edges ∧ known missing = false := by
  induction edges generalizing seen with
  | nil => simp [edgeFault?] at h
  | cons e rest ih =>
    rw [edgeFault?] at h
    split at h
    next hseen =>
      have hpos := List.count_pos_iff.mpr hseen
      refine Or.inl ⟨e, (Option.some.inj h).symm, ?_⟩
      rw [List.count_cons_self]
      omega
    next hseen =>
      split at h
      next hunknown =>
        exact Or.inr ⟨e, (Option.some.inj h).symm, List.mem_cons_self, by simpa using hunknown⟩
      next hknown =>
        rcases ih h with ⟨other, rfl, htwice⟩ | ⟨missing, rfl, hm, hk⟩
        · refine Or.inl ⟨other, rfl, ?_⟩
          rw [List.count_cons] at htwice ⊢
          omega
        · exact Or.inr ⟨missing, rfl, List.mem_cons_of_mem e hm, hk⟩

/-- What can be reported of a single task. -/
inductive OwnFault (p : Plan) (t : Task) : Fault → Prop
  | loop (self : t.Lists t.id) : OwnFault p t (.cycle t.id)
  | repeated {other : TaskId} (plain : ¬ t.Lists t.id)
      (twice : 2 ≤ t.predecessors.count other ∨ 2 ≤ t.successors.count other) :
      OwnFault p t (.duplicateEdge t.id other)
  | unknown {missing : TaskId} (plain : ¬ t.Lists t.id) (listed : t.Lists missing)
      (unknown : missing ∉ p.ids) : OwnFault p t (.dangling t.id missing)

theorem ownFault_of_taskFault? {p : Plan} {t : Task} {f : Fault}
    (h : taskFault? (taskTable p).contains t = some f) : OwnFault p t f := by
  have hunknown : ∀ {id}, (taskTable p).contains id = false → id ∉ p.ids := by
    intro id hk hm
    rw [Table.contains_eq_true_iff.mpr (mem_keys_taskTable.mpr hm)] at hk
    cases hk
  rw [taskFault?] at h
  split at h
  next hself =>
    cases h
    exact .loop hself
  next hplain =>
    rcases Option.or_eq_some_iff.mp h with h | ⟨-, h⟩
    · rcases edgeFault?_cases h with ⟨other, rfl, htwice⟩ | ⟨missing, rfl, hm, hk⟩
      · exact .repeated hplain (Or.inl (by simpa using htwice))
      · exact .unknown hplain (Or.inl hm) (hunknown hk)
    · rcases edgeFault?_cases h with ⟨other, rfl, htwice⟩ | ⟨missing, rfl, hm, hk⟩
      · exact .repeated hplain (Or.inr (by simpa using htwice))
      · exact .unknown hplain (Or.inr hm) (hunknown hk)

theorem OwnFault.shows {p : Plan} {t : Task} (ht : t ∈ p.tasks) {f : Fault} (h : OwnFault p t f) :
    f.Shows p := by
  cases h with
  | loop self => exact Or.inl ⟨t, ht, rfl, self⟩
  | repeated plain twice => exact ⟨t, ht, rfl, twice⟩
  | unknown plain listed unknown => exact ⟨⟨t, ht, rfl, listed⟩, unknown⟩

theorem names_iff {p : Plan} {t : Task} :
    p.Names t t.predecessors ∧ p.Names t t.successors ↔ ¬ t.Lists t.id ∧ ¬ p.Misnames t := by
  constructor
  · rintro ⟨hp, hs⟩
    refine ⟨fun h => h.elim hp.not_self hs.not_self, ?_⟩
    rintro (h | h | ⟨id, h | h, hid⟩)
    · exact h hp.nodup
    · exact h hs.nodup
    · exact hid (hp.known id h)
    · exact hid (hs.known id h)
  · rintro ⟨hself, hn⟩
    simp only [Plan.Misnames, not_or, not_not, not_exists, not_and] at hn
    obtain ⟨hp, hs, hk⟩ := hn
    exact ⟨⟨hp, fun h => hself (Or.inl h), fun id h => hk id (Or.inl h)⟩,
      ⟨hs, fun h => hself (Or.inr h), fun id h => hk id (Or.inr h)⟩⟩

section Checks

variable {p : Plan}

theorem ofPlan_of_duplicate {id : TaskId} (h : duplicateId? p.tasks [] = some id) :
    ofPlan p = .error (.duplicateTask id) := by
  rw [ofPlan_eq, h]

theorem exists_duplicateId? (hd : ¬ p.ids.Nodup) : ∃ id, duplicateId? p.tasks [] = some id := by
  apply Option.ne_none_iff_exists'.mp
  intro hnone
  exact hd (duplicateId?_eq_none_iff.mp hnone).1

variable (hd : p.ids.Nodup)
include hd

theorem duplicateId?_of_nodup : duplicateId? p.tasks [] = none :=
  duplicateId?_eq_none_iff.mpr ⟨hd, fun _ _ => List.not_mem_nil⟩

theorem ofPlan_of_own {f : Fault}
    (h : p.tasks.findSome? (taskFault? (taskTable p).contains) = some f) : ofPlan p = .error f := by
  rw [ofPlan_eq, duplicateId?_of_nodup hd, h]
  rfl

theorem ofPlan_of_sides {f : Fault}
    (hown : p.tasks.findSome? (taskFault? (taskTable p).contains) = none)
    (h : p.tasks.findSome? (oneSided? (taskTable p)) = some f) : ofPlan p = .error f := by
  rw [ofPlan_eq, duplicateId?_of_nodup hd, hown, h]
  rfl

theorem ofPlan_of_cyclic {id : TaskId}
    (hown : p.tasks.findSome? (taskFault? (taskTable p).contains) = none)
    (hsides : p.tasks.findSome? (oneSided? (taskTable p)) = none)
    (h : cyclic? (taskTable p).values = some id) : ofPlan p = .error (.cycle id) := by
  rw [ofPlan_eq, duplicateId?_of_nodup hd, hown, hsides, h]
  rfl

end Checks

section Ends

variable {p : Plan}

theorem edge_iff_awaits (hn : ∀ t ∈ p.tasks, p.Names t t.predecessors ∧ p.Names t t.successors)
    (htwo : ∀ s ∈ p.tasks, ∀ t ∈ p.tasks, t.id ∈ s.successors ↔ s.id ∈ t.predecessors)
    (a b : TaskId) : p.Edge a b ↔ p.Awaits b a := by
  constructor
  · rintro ⟨s, hs, rfl, hb⟩
    obtain ⟨t, ht, rfl⟩ := List.mem_map.mp ((hn s hs).2.known b hb)
    exact ⟨t, ht, rfl, (htwo s hs t ht).mp hb⟩
  · rintro ⟨t, ht, rfl, ha⟩
    obtain ⟨s, hs, rfl⟩ := List.mem_map.mp ((hn t ht).1.known a ha)
    exact ⟨s, hs, rfl, (htwo s hs t ht).mpr ha⟩

theorem xor_of_oneSided? (hd : p.ids.Nodup) {t : Task} (ht : t ∈ p.tasks) {f : Fault}
    (h : oneSided? (taskTable p) t = some f) :
    ∃ a b, f = .inconsistent a b ∧ Xor (p.Edge a b) (p.Awaits b a) := by
  -- ids are distinct: what is looked up is the only task that could declare the other end
  have hsilent : ∀ (list : Task → List TaskId) (u : Task), u ∈ p.tasks →
      (!(((taskTable p).find? u.id).map fun u => decide (t.id ∈ list u)).getD false) = true →
      t.id ∉ list u := by
    intro list u hu hnot
    have hf := (find?_taskTable hd).mpr ⟨hu, rfl⟩
    simpa [hf] using hnot
  rcases Option.or_eq_some_iff.mp h with h | ⟨-, h⟩
  · obtain ⟨q, hq, rfl⟩ := Option.map_eq_some_iff.mp h
    have hm := List.mem_of_find?_eq_some hq
    have hnot := List.find?_some hq
    refine ⟨q, t.id, rfl, Or.inr ⟨⟨t, ht, rfl, hm⟩, ?_⟩⟩
    rintro ⟨u, hu, rfl, hback⟩
    exact hsilent (·.successors) u hu hnot hback
  · obtain ⟨q, hq, rfl⟩ := Option.map_eq_some_iff.mp h
    have hm := List.mem_of_find?_eq_some hq
    have hnot := List.find?_some hq
    refine ⟨t.id, q, rfl, Or.inl ⟨⟨t, ht, rfl, hm⟩, ?_⟩⟩
    rintro ⟨u, hu, rfl, hback⟩
    exact hsilent (·.predecessors) u hu hnot hback

end Ends

theorem own_eq_none_iff {p : Plan} :
    p.tasks.findSome? (taskFault? (taskTable p).contains) = none ↔
      ∀ t ∈ p.tasks, p.Names t t.predecessors ∧ p.Names t t.successors := by
  simp only [List.findSome?_eq_none_iff, taskFault?_eq_none_iff]

/-- A plan has the fault that is reported of it. -/
theorem fault_shows {p : Plan} {f : Fault} (h : ofPlan p = .error f) : f.Shows p := by
  -- one check after another, each with what those before it have established
  by_cases hd : p.ids.Nodup
  · cases hown : p.tasks.findSome? (taskFault? (taskTable p).contains) with
    | some found =>
      rw [ofPlan_of_own hd hown] at h
      obtain rfl := Except.error.inj h
      obtain ⟨t, ht, hf⟩ := List.exists_of_findSome?_eq_some hown
      exact (ownFault_of_taskFault? hf).shows ht
    | none =>
      have hnames := own_eq_none_iff.mp hown
      cases hsides : p.tasks.findSome? (oneSided? (taskTable p)) with
      | some found =>
        rw [ofPlan_of_sides hd hown hsides] at h
        obtain rfl := Except.error.inj h
        obtain ⟨t, ht, hf⟩ := List.exists_of_findSome?_eq_some hsides
        obtain ⟨a, b, rfl, hxor⟩ := xor_of_oneSided? hd ht hf
        exact hxor
      | none =>
        cases hcyclic : cyclic? (taskTable p).values with
        | some id =>
          rw [ofPlan_of_cyclic hd hown hsides hcyclic] at h
          obtain rfl := Except.error.inj h
          exact Or.inr (circles_of_cyclic? hd (fun t ht => (hnames t ht).2) hcyclic)
        | none =>
          rw [ofPlan_eq, duplicateId?_of_nodup hd, hown, hsides, hcyclic] at h
          cases h
  · obtain ⟨id, hid⟩ := exists_duplicateId? hd
    rw [ofPlan_of_duplicate hid] at h
    obtain rfl := Except.error.inj h
    have hcount := count_of_duplicateId? hid
    rwa [List.count_nil, Nat.zero_add] at hcount

/-- A cycle of three tasks with one task before it and one after it. -/
def ringPlan : Plan :=
  ⟨"ring", [⟨1, .createNamespace "a", [], [2]⟩, ⟨2, .createNamespace "b", [1, 4], [3]⟩,
    ⟨3, .createNamespace "c", [2], [4]⟩, ⟨4, .createNamespace "d", [3], [2, 5]⟩,
    ⟨5, .createNamespace "e", [4], []⟩]⟩

theorem fault_shows_ring : ofPlan ringPlan = .error (.cycle 4) ∧ Circles ringPlan.Edge 4 := by
  have hring : ofPlan ringPlan = .error (.cycle 4) := rfl
  refine ⟨hring, (fault_shows hring).resolve_left ?_⟩
  decide

section Precedence

variable {p : Plan} (hd : p.ids.Nodup)
include hd

/-- The first task that lists itself or has an entry at fault decides what is reported. -/
theorem exists_ownFault {before after : List Task} {t : Task}
    (hsplit : p.tasks = before ++ t :: after)
    (hbefore : ∀ u ∈ before, ¬ u.Lists u.id ∧ ¬ p.Misnames u) (ht : t.Lists t.id ∨ p.Misnames t) :
    ∃ f, OwnFault p t f ∧ ofPlan p = .error f := by
  have hnone : ∀ u ∈ before, taskFault? (taskTable p).contains u = none := fun u hu =>
    taskFault?_eq_none_iff.mpr (names_iff.mpr (hbefore u hu))
  obtain ⟨f, hf⟩ : ∃ f, taskFault? (taskTable p).contains t = some f := by
    apply Option.ne_none_iff_exists'.mp
    intro hn
    obtain ⟨hself, hm⟩ := names_iff.mp (taskFault?_eq_none_iff.mp hn)
    exact ht.elim hself hm
  refine ⟨f, ownFault_of_taskFault? hf, ofPlan_of_own hd ?_⟩
  exact List.findSome?_eq_some_iff.mpr ⟨before, t, after, hsplit, hf, hnone⟩

theorem exists_entryFault (hplain : ∀ t ∈ p.tasks, ¬ t.Lists t.id) (hm : ∃ t ∈ p.tasks, p.Misnames t) :
    ∃ id other, ofPlan p = .error (.dangling id other) ∨ ofPlan p = .error (.duplicateEdge id other) := by
  obtain ⟨f, hf⟩ : ∃ f, p.tasks.findSome? (taskFault? (taskTable p).contains) = some f := by
    apply Option.ne_none_iff_exists'.mp
    intro hn
    obtain ⟨t, ht, hm⟩ := hm
    exact (names_iff.mp (own_eq_none_iff.mp hn t ht)).2 hm
  obtain ⟨t, ht, hown⟩ := List.exists_of_findSome?_eq_some hf
  rw [ofPlan_of_own hd hf]
  cases ownFault_of_taskFault? hown with
  | loop self => exact absurd self (hplain t ht)
  | repeated plain twice => exact ⟨_, _, Or.inr rfl⟩
  | unknown plain listed unknown => exact ⟨_, _, Or.inl rfl⟩

variable (hn : ∀ t ∈ p.tasks, p.Names t t.predecessors ∧ p.Names t t.successors)
include hn

theorem sides_eq_none_iff : p.tasks.findSome? (oneSided? (taskTable p)) = none ↔
    ∀ a b, p.Edge a b ↔ p.Awaits b a := by
  constructor
  · intro hsides
    have hnone := Option.or_eq_none_iff.mpr ⟨own_eq_none_iff.mpr hn, hsides⟩
    exact edge_iff_awaits hn ((edges_eq_none_iff hd).mp hnone).2
  · intro htwo
    cases hsides : p.tasks.findSome? (oneSided? (taskTable p)) with
    | none => rfl
    | some f =>
      obtain ⟨t, ht, hf⟩ := List.exists_of_findSome?_eq_some hsides
      obtain ⟨a, b, -, hxor⟩ := xor_of_oneSided? hd ht hf
      exact absurd hxor ((not_xor _ _).mpr (htwo a b))

theorem exists_sideFault (hone : ∃ a b, Xor (p.Edge a b) (p.Awaits b a)) :
    ∃ a b, ofPlan p = .error (.inconsistent a b) := by
  obtain ⟨f, hf⟩ : ∃ f, p.tasks.findSome? (oneSided? (taskTable p)) = some f := by
    apply Option.ne_none_iff_exists'.mp
    intro hnone
    obtain ⟨a, b, hxor⟩ := hone
    exact (not_xor _ _).mpr ((sides_eq_none_iff hd hn).mp hnone a b) hxor
  obtain ⟨t, ht, hside⟩ := List.exists_of_findSome?_eq_some hf
  obtain ⟨a, b, rfl, -⟩ := xor_of_oneSided? hd ht hside
  exact ⟨a, b, ofPlan_of_sides hd (own_eq_none_iff.mpr hn) hf⟩

theorem exists_cycleFault (htwo : ∀ a b, p.Edge a b ↔ p.Awaits b a)
    (hcycle : ∃ id, Relation.TransGen p.Edge id id) : ∃ id, ofPlan p = .error (.cycle id) := by
  obtain ⟨id, hid⟩ : ∃ id, cyclic? (taskTable p).values = some id := by
    apply Option.ne_none_iff_exists'.mp
    intro hnone
    obtain ⟨id, hid⟩ := hcycle
    exact (cyclic?_taskTable_iff hd fun t ht => (hn t ht).2).mp hnone id hid
  exact ⟨id, ofPlan_of_cyclic hd (own_eq_none_iff.mpr hn) ((sides_eq_none_iff hd hn).mpr htwo) hid⟩

end Precedence

/-- Which of the faults of a plan is reported. A task that lists itself comes first only if no task before it
has an entry at fault; an entry at fault comes first if its task stands before all that list themselves. -/
structure Precedence (p : Plan) : Prop where
  ids : ¬ p.ids.Nodup → ∃ id, ofPlan p = .error (.duplicateTask id)
  loops : p.ids.Nodup → ∀ before t after, p.tasks = before ++ t :: after →
    (∀ u ∈ before, ¬ u.Lists u.id ∧ ¬ p.Misnames u) → t.Lists t.id → ofPlan p = .error (.cycle t.id)
  overtaken : p.ids.Nodup → ∀ before t after, p.tasks = before ++ t :: after →
    (∀ u ∈ before, ¬ u.Lists u.id ∧ ¬ p.Misnames u) → ¬ t.Lists t.id → p.Misnames t →
    ∃ other, ofPlan p = .error (.dangling t.id other) ∨ ofPlan p = .error (.duplicateEdge t.id other)
  entries : p.ids.Nodup → (∀ t ∈ p.tasks, ¬ t.Lists t.id) → (∃ t ∈ p.tasks, p.Misnames t) →
    ∃ id other, ofPlan p = .error (.dangling id other) ∨ ofPlan p = .error (.duplicateEdge id other)
  sides : p.ids.Nodup → (∀ t ∈ p.tasks, ¬ t.Lists t.id ∧ ¬ p.Misnames t) →
    (∃ a b, Xor (p.Edge a b) (p.Awaits b a)) → ∃ a b, ofPlan p = .error (.inconsistent a b)
  cycles : p.ids.Nodup → (∀ t ∈ p.tasks, ¬ t.Lists t.id ∧ ¬ p.Misnames t) →
    (∀ a b, p.Edge a b ↔ p.Awaits b a) → (∃ id, Relation.TransGen p.Edge id id) →
    ∃ id, ofPlan p = .error (.cycle id)

theorem fault_precedence (p : Plan) : Precedence p where
  ids hd := by
    obtain ⟨id, hid⟩ := exists_duplicateId? hd
    exact ⟨id, ofPlan_of_duplicate hid⟩
  loops hd before t after hsplit hbefore hself := by
    obtain ⟨f, hf, hp⟩ := exists_ownFault hd hsplit hbefore (Or.inl hself)
    cases hf with
    | loop _ => exact hp
    | repeated plain _ => exact absurd hself plain
    | unknown plain _ _ => exact absurd hself plain
  overtaken hd before t after hsplit hbefore hplain hm := by
    obtain ⟨f, hf, hp⟩ := exists_ownFault hd hsplit hbefore (Or.inr hm)
    cases hf with
    | loop self => exact absurd self hplain
    | repeated _ _ => exact ⟨_, Or.inr hp⟩
    | unknown _ _ _ => exact ⟨_, Or.inl hp⟩
  entries hd hplain hm := exists_entryFault hd hplain hm
  sides hd hn hone := exists_sideFault hd (fun t ht => names_iff.mpr (hn t ht)) hone
  cycles hd hn htwo hcycle := exists_cycleFault hd (fun t ht => names_iff.mpr (hn t ht)) htwo hcycle

/-- An entry that is no task, and after it a task that lists itself. -/
def mixedPlan : Plan :=
  ⟨"mixed", [⟨1, .createNamespace "a", [9], []⟩, ⟨2, .createNamespace "b", [2], [2]⟩]⟩

/-- Tasks that list themselves are not looked for in all tasks before entries at fault are. -/
theorem loop_overtaken : ¬ ∀ p : Plan, p.ids.Nodup → (∃ t ∈ p.tasks, t.Lists t.id) →
    ∃ t ∈ p.tasks, t.Lists t.id ∧ ofPlan p = .error (.cycle t.id) := by
  intro hall
  have hself : ∃ t ∈ mixedPlan.tasks, t.Lists t.id := ⟨_, List.mem_of_getLast? rfl, by decide⟩
  obtain ⟨t, -, -, hcycle⟩ := hall mixedPlan (by decide) hself
  have hdangling : ofPlan mixedPlan = .error (.dangling 1 9) := rfl
  rw [hdangling] at hcycle
  cases hcycle

/-- The other way round the task that lists itself is reported. -/
theorem fault_precedence_mixed :
    (∃ other, ofPlan mixedPlan = .error (.dangling 1 other) ∨
      ofPlan mixedPlan = .error (.duplicateEdge 1 other)) ∧
    ofPlan ⟨"mixed", mixedPlan.tasks.reverse⟩ = .error (.cycle 2) := by
  have hunknown : mixedPlan.Misnames ⟨1, .createNamespace "a", [9], []⟩ :=
    Or.inr (Or.inr ⟨9, by decide, by decide⟩)
  have hself : Task.Lists ⟨2, .createNamespace "b", [2], [2]⟩ 2 := by decide
  refine ⟨(fault_precedence mixedPlan).overtaken (by decide) [] _ _ rfl (by simp) (by decide) hunknown,
    (fault_precedence ⟨"mixed", mixedPlan.tasks.reverse⟩).loops (by decide) [] _ _ rfl (by simp) hself⟩

end Graph

end Rollout
