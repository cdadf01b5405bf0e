import Rollout.Proofs.RunCoherence

/-! What a report says of the run that it was made from. Its outcomes are by ascending id, so that halving
finds each of them, and their states are those of the run. -/

namespace Rollout

namespace Report

theorem narrow_eq (tasks : Array Outcome) {id : TaskId} {i : Nat} (hi : i < tasks.size)
    (hid : tasks[i].id = id)
    (hasc : ∀ j k (hk : k < tasks.size) (hjk : j < k), tasks[j].id < tasks[k].id) (base size : Nat)
    (hbase : base ≤ i) (hlt : i < base + size) (hsize : base + size ≤ tasks.size) :
    narrow tasks id base size = i := by
  fun_induction narrow tasks id base size with
  | case1 base size hmany middle hless ih =>
    have hm : middle < tasks.size := by omega
    have hbelow : id < tasks[middle].id := by simpa [hm] using hless
    have hbefore : i < middle := by
      by_contra hge
      rcases Nat.lt_or_eq_of_le (Nat.not_lt.mp hge) with hgt | he
      · exact Std.not_gt_of_lt hbelow (hid ▸ hasc middle i hi hgt)
      · subst he
        exact Std.lt_irrefl (hid ▸ hbelow)
    exact ih hbase (by omega) (by omega)
  | case2 base size hmany middle hless ih =>
    have hm : middle < tasks.size := by omega
    have hbelow : ¬ id < tasks[middle].id := by simpa [hm] using hless
    have hafter : middle ≤ i := by
      by_contra hlt'
      exact hbelow (hid ▸ hasc i middle hm (Nat.not_le.mp hlt'))
    exact ih hafter (by omega) (by omega)
  | case3 base size hone => omega

/-- Halving finds what is there. -/
theorem outcome?_eq_some_iff {r : Report} (hasc : (r.tasks.map (·.id)).Pairwise (· < ·)) {id : TaskId}
    {o : Outcome} : r.outcome? id = some o ↔ o ∈ r.tasks ∧ o.id = id := by
  have harray : ∀ j k (hk : k < r.tasks.toArray.size) (hjk : j < k),
      r.tasks.toArray[j].id < r.tasks.toArray[k].id := by
    intro j k hk hjk
    have hk' : k < r.tasks.length := hk
    exact List.pairwise_iff_getElem.mp (List.pairwise_map.mp hasc) j k (Nat.lt_trans hjk hk') hk' hjk
  rw [outcome?, Option.filter_eq_some_iff]
  constructor
  · rintro ⟨hget, hid⟩
    exact ⟨by simpa using Array.mem_of_getElem? hget, by simpa using hid⟩
  · rintro ⟨hm, hid⟩
    obtain ⟨i, hi, rfl⟩ := List.getElem_of_mem hm
    have hfound := narrow_eq r.tasks.toArray (i := i) (by simpa using hi) (by simpa using hid) harray 0
      r.tasks.toArray.size (Nat.zero_le i) (by simpa using hi) (by simp)
    rw [hfound]
    exact ⟨by simp [hi], by simpa using hid⟩

theorem mem_idsIn_iff {r : Report} (hasc : (r.tasks.map (·.id)).Pairwise (· < ·)) {s : TaskState}
    {x : TaskId} : x ∈ idsIn r.tasks s ↔ r.stateOf? x = some s := by
  simp only [idsIn, List.mem_map, List.mem_filter, decide_eq_true_eq, stateOf?, Option.map_eq_some_iff,
    outcome?_eq_some_iff hasc]
  constructor
  · rintro ⟨o, ⟨ho, hs⟩, hx⟩
    exact ⟨o, ⟨ho, hx⟩, hs⟩
  · rintro ⟨o, ⟨ho, hx⟩, hs⟩
    exact ⟨o, ⟨ho, hs⟩, hx⟩

theorem pairwise_idsIn {tasks : List Outcome} (h : (tasks.map (·.id)).Pairwise (· < ·)) (s : TaskState) :
    (idsIn tasks s).Pairwise (· < ·) :=
  h.sublist (List.filter_sublist.map _)

end Report

namespace Tally

/-- Outcomes by ascending id, each under its own. -/
structure Filed (t : Tally) : Prop where
  sorted : t.outcomes.Sorted
  id_eq : ∀ {x o}, t.outcomes.find? x = some o → o.id = x

variable {t : Tally}

theorem Filed.ids_finish (h : t.Filed) (now : Instant) (stop : Option Stop) :
    (t.finish now stop).tasks.map (·.id) = t.outcomes.keys := by
  change t.outcomes.values.map (·.id) = _
  rw [Table.values, Table.keys, List.map_map]
  apply List.map_congr_left
  intro q hq
  exact h.id_eq (h.sorted.find?_of_mem hq)

theorem Filed.pairwise_ids_finish (h : t.Filed) (now : Instant) (stop : Option Stop) :
    ((t.finish now stop).tasks.map (·.id)).Pairwise (· < ·) := by
  rw [h.ids_finish]
  exact h.sorted.pairwise_keys

theorem Filed.outcome?_finish (h : t.Filed) (now : Instant) (stop : Option Stop) (x : TaskId) :
    (t.finish now stop).outcome? x = t.outcomes.find? x := by
  apply Option.ext
  intro o
  rw [Report.outcome?_eq_some_iff (h.pairwise_ids_finish now stop)]
  change o ∈ t.outcomes.values ∧ o.id = x ↔ _
  constructor
  · rintro ⟨hm, rfl⟩
    obtain ⟨q, hq, rfl⟩ := List.mem_map.mp hm
    have hfound := h.sorted.find?_of_mem hq
    rwa [h.id_eq hfound]
  · intro ho
    exact ⟨List.mem_map_of_mem (Table.mem_pairs_of_find? ho), h.id_eq ho⟩

theorem Filed.stateOf?_finish (h : t.Filed) (now : Instant) (stop : Option Stop) (x : TaskId) :
    (t.finish now stop).stateOf? x = t.stateOf? x := by
  rw [Report.stateOf?, h.outcome?_finish, stateOf?]

theorem Filed.states_finish (h : t.Filed) (now : Instant) (stop : Option Stop) :
    (t.finish now stop).states = t.outcomes.map fun _ o => o.state := by
  have hpairs : (t.finish now stop).tasks.map (fun o => (o.id, o.state)) =
      (t.outcomes.map fun _ o => o.state).pairs := by
    change t.outcomes.values.map _ = _
    rw [Table.values, List.map_map, Table.pairs_map]
    apply List.map_congr_left
    intro q hq
    exact Prod.ext (h.id_eq (h.sorted.find?_of_mem hq)) rfl
  have hsorted : (t.outcomes.map fun _ o => o.state).pairs.Pairwise fun q q' => q.1 < q'.1 := by
    rw [Table.pairs_map]
    exact List.pairwise_map.mpr h.sorted
  rw [Report.states, hpairs]
  exact Table.pairs_ofList hsorted

end Tally

namespace Run

variable {g : Graph} {r : Run}

theorem Coherent.keys_outcomes (h : Coherent g r) : r.tally.outcomes.keys = g.ids :=
  h.told.keys.trans h.keys_states

theorem Coherent.filed (hv : g.Valid) (h : Coherent g r) : r.tally.Filed :=
  ⟨hv.sorted.of_keys_eq h.keys_outcomes, h.told.id_eq⟩

theorem Coherent.ids_finish (hv : g.Valid) (h : Coherent g r) (now : Instant) :
    (r.finish now).1.tasks.map (·.id) = g.ids :=
  ((h.filed hv).ids_finish now r.stopped).trans h.keys_outcomes

theorem Coherent.pairwise_ids_finish (hv : g.Valid) (h : Coherent g r) (now : Instant) :
    ((r.finish now).1.tasks.map (·.id)).Pairwise (· < ·) :=
  (h.filed hv).pairwise_ids_finish now r.stopped

theorem Coherent.outcome?_finish (hv : g.Valid) (h : Coherent g r) (now : Instant) (x : TaskId) :
    (r.finish now).1.outcome? x = r.tally.outcomes.find? x :=
  (h.filed hv).outcome?_finish now r.stopped x

theorem Coherent.stateOf?_finish (hv : g.Valid) (h : Coherent g r) (now : Instant) (x : TaskId) :
    (r.finish now).1.stateOf? x = (r.states.find? x).map TaskState.shown :=
  ((h.filed hv).stateOf?_finish now r.stopped x).trans (h.told.stateOf? x)

theorem Coherent.states_finish_eq_outcomes (hv : g.Valid) (h : Coherent g r) (now : Instant) :
    (r.finish now).1.states = r.tally.outcomes.map fun _ o => o.state :=
  (h.filed hv).states_finish now r.stopped

theorem Coherent.states_finish (hv : g.Valid) (h : Coherent g r) (now : Instant) :
    (r.finish now).1.states = r.states.map fun _ s => s.shown := by
  rw [h.states_finish_eq_outcomes hv]
  refine Table.eq_of_find? ?_ ?_ fun x _ => ?_
  · rw [Table.keys_map, Table.keys_map, h.told.keys]
  · rw [Table.keys_map, h.keys_outcomes]
    exact hv.nodup_ids
  · rw [Table.find?_map, Table.find?_map]
    exact h.told.stateOf? x

/-- The status of a run that was not stopped is a matter of its states. -/
theorem Coherent.status_finish (hv : g.Valid) (h : Coherent g r) (hs : r.stopped = none)
    (now : Instant) :
    (r.finish now).1.status =
      if (r.finish now).1.states.values.all (· = .done) then .success else .failure := by
  have hvalues : (r.finish now).1.states.values = r.tally.outcomes.values.map (·.state) := by
    rw [h.states_finish_eq_outcomes hv, Table.values, Table.values, Table.pairs_map, List.map_map,
      List.map_map]
    rfl
  rw [hvalues, List.all_map]
  change Tally.status r.tally.outcomes.values r.stopped = _
  rw [hs]
  rfl

end Run

end Rollout
