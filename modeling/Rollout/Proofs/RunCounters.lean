import Rollout.Proofs.DependencySafety

/-! What the coordination loop counts. At each of its steps the counter of a task that waits is the number of
tasks right before it that are not done, the queue holds the ready tasks once each, and the number in flight is
that of the running tasks. No counter is taken below zero. -/

namespace Rollout

namespace Run

/-- A run whose counters, queue and number in flight are those that its states and the edges of a plan make. -/
structure Counts (r : Run) (p : Plan) : Prop where
  pending : ∀ t ∈ p.tasks, r.states.find? t.id = some .pending → ∃ n, r.remaining.find? t.id = some n ∧
    n = t.predecessors.countP (fun a => r.states.find? a ≠ some .done) ∧ 1 ≤ n
  unlocked : ∀ id s, r.states.find? id = some s → s ∈ [.ready, .running, .done, .failed] →
    r.remaining.find? id = some 0
  queued : ∀ id, r.ready.count id = if r.states.find? id = some .ready then 1 else 0
  inFlight : r.inFlight = p.ids.countP fun id => r.states.find? id = some .running

/-- Whether unlocking tasks one after the other takes one off a counter above zero each time. -/
def CountsDown : Run → List TaskId → Prop
  | _, [] => True
  | r, id :: rest =>
    (r.stateOf id = .pending → ∃ n, r.remaining.find? id = some (n + 1) ∧
      (r.unlock id).remaining.find? id = some n) ∧ CountsDown (r.unlock id) rest

/-- What the completion of a task does to the counters: it unlocks the successors, or touches none. -/
structure Releases (r : Run) (id : TaskId) : Prop where
  written : ∀ {now outputs context}, r.context.writeAll id outputs.pairs = (context, none) →
    r.complete now id (.succeeded outputs) =
      (r.graph.successors id).foldl unlock (finishWell now context r id) ∧
    (finishWell now context r id).CountsDown (r.graph.successors id)
  taken : ∀ {now outputs context f}, r.context.writeAll id outputs.pairs = (context, some f) →
    (r.complete now id (.succeeded outputs)).remaining = r.remaining
  failed : ∀ now diagnostic fatal, (r.complete now id (.failed diagnostic fatal)).remaining = r.remaining

variable {g : Graph} {r : Run} {id : TaskId}

theorem find?_remaining (h : id ∈ r.remaining.keys) : r.remaining.find? id = some (r.left id) := by
  obtain ⟨n, hn⟩ := Table.mem_keys_iff.mp h
  rw [left, hn]
  rfl

theorem mem_keys_of_left (h : 0 < r.left id) : id ∈ r.remaining.keys := by
  by_contra hnot
  rw [left, Table.find?_eq_none_iff.mpr hnot] at h
  exact Nat.lt_irrefl 0 h

theorem remaining_stop (r : Run) (s : Stop) : (r.stop s).remaining = r.remaining := by
  cases hs : r.stopped with
  | some old => rw [stop_of_stopped (by simp [hs])]
  | none =>
    rw [stop_eq hs]
    exact (foldl_skip_spec s.skipReason r.waiting r).1.remaining

theorem countsDown_of_pos {l : List TaskId} (hnd : l.Nodup)
    (h : ∀ x ∈ l, r.stateOf x = .pending → 0 < r.left x) : r.CountsDown l := by
  induction l generalizing r with
  | nil => trivial
  | cons id l ih =>
    obtain ⟨hid, hl⟩ := List.nodup_cons.mp hnd
    have hu := unlocks_single r id
    refine ⟨fun hp => ?_, ih hl fun x hx hp => ?_⟩
    · have hpos := h id List.mem_cons_self hp
      have hkey := mem_keys_of_left hpos
      refine ⟨r.left id - 1, ?_, ?_⟩
      · rw [find?_remaining hkey]
        congr 1
        omega
      · rw [find?_remaining (by rw [hu.keys_remaining]; exact hkey), hu.left_pending List.mem_cons_self hp]
    · have hne : x ∉ [id] := fun hm => hid (List.mem_singleton.mp hm ▸ hx)
      rw [hu.stateOf_other fun hm => hne hm.1] at hp
      rw [hu.left_other fun hm => hne hm.1]
      exact h x (List.mem_cons_of_mem id hx) hp

/-- A task waits for each task right before it that is not done, so for the one that ends now. -/
theorem Coherent.releases (hv : g.Valid) (h : Coherent g r) (hid : r.stateOf id = .running) :
    r.Releases id where
  written {now outputs context} hw := by
    refine ⟨complete_written hw, countsDown_of_pos ?_ fun x hx hp => ?_⟩
    · rw [h.graph_eq]
      exact hv.nodup_successors id
    · have hne : x ≠ id := fun e => by
        rw [stateOf_finishWell hid, e, Function.update_self] at hp
        cases hp
      rw [stateOf_finishWell hid, Function.update_of_ne hne] at hp
      exact (h.respected.left_pending hp).2
  taken {now outputs context f} hw := by
    rw [complete_taken hw, remaining_stop, (framed_fail now _ id f.message).remaining]
  failed now diagnostic fatal := by
    have hfail := (framed_fail now { r with inFlight := r.inFlight - 1 } id diagnostic).remaining
    rw [complete_failed]
    cases fatal with
    | false => exact hfail
    | true => exact (remaining_stop _ _).trans hfail

theorem Coherent.counts {p : Plan} (hp : Graph.ofPlan p = .ok g) (h : Coherent g r) : r.Counts p := by
  have hkey : ∀ {x s}, r.states.find? x = some s → x ∈ r.remaining.keys := fun hx => by
    rw [h.keys_remaining]
    exact h.mem_ids_of_find? hx
  refine ⟨fun t ht hx => ?_, fun x s hx hs => ?_, fun x => ?_, h.inFlight_of_ofPlan hp⟩
  · have htask := (Graph.task?_of_ofPlan hp).mpr ⟨ht, rfl⟩
    obtain ⟨hcount, hpos⟩ := h.respected.left_pending ((h.find?_eq_some_iff (by simp)).mp hx)
    refine ⟨r.left t.id, find?_remaining (hkey hx), ?_, hpos⟩
    rw [hcount, Graph.notDone, Graph.predecessors_of_task? htask]
    simp [h.find?_eq_some_iff]
  · have hskip : s ≠ .skipped := fun e => by simp [e] at hs
    have hstate := (h.find?_eq_some_iff hskip).mp hx
    rw [find?_remaining (hkey hx), h.respected.left_unlocked]
    cases s <;> simp_all [TaskState.isUnlocked]
  · have hnd : r.ready.Nodup := h.pairwise_ready.imp Std.ne_of_lt
    have hready : x ∈ r.ready ↔ r.states.find? x = some .ready :=
      h.mem_ready.trans (h.find?_eq_some_iff (by simp)).symm
    simp only [hnd.count, hready]

end Run

namespace Loop

variable {g : Graph} {l : Loop} {actions : List Action}

/-- At every step of every run the counters agree with the states, and no completion takes one below zero. -/
theorem counters_agree {p : Plan} (h : Graph.ofPlan p = .ok g) {runId : String} {handlers : Registry}
    {limits : Run.Limits} {now : Instant}
    (path : Path (start runId g handlers limits now) actions l) :
    l.run.Counts p ∧
    (∀ id c l', Step l (.handle id c) l' → l.run.states.find? id = some .running) ∧
    ∀ id, l.run.states.find? id = some .running → l.run.Releases id := by
  have hv := Graph.valid_of_ofPlan h
  have hs := sound_of_path hv path
  have hrunning : ∀ id, l.run.states.find? id = some .running ↔ l.run.stateOf id = .running := fun id =>
    hs.coherent.find?_eq_some_iff (by simp)
  refine ⟨hs.coherent.counts h, fun id c l' s => ?_, fun id hid => ?_⟩
  · apply (hrunning id).mpr
    cases s with
    | handle now place split => exact hs.mem_underway.mp (mem_underway_of_arrived split)
  · exact hs.coherent.releases hv ((hrunning id).mp hid)

/-- The second task waits for the first one, which runs. -/
theorem counters_agree_chain : ∃ l, Path chain [.check, .dispatch 1] l ∧
    l.run.remaining.pairs = [(1, 0), (2, 1)] ∧ l.run.inFlight = 1 ∧ l.run.Counts chainPlan ∧
    l.run.Releases 1 := by
  have hcheck := Path.snoc (.refl chain) (.check rfl)
  have path := hcheck.snoc (a := .dispatch 1) (.dispatch default rfl rfl rfl rfl rfl)
  obtain ⟨hcounts, -, hreleases⟩ := counters_agree (p := chainPlan) rfl path
  exact ⟨_, path, rfl, rfl, hcounts, hreleases 1 rfl⟩

end Loop

end Rollout
