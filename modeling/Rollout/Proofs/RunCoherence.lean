import Rollout.Proofs.RunChanges

/-! The records of a run agree with each other and with the edges of its graph: the states, the counters,
the tasks that are ready, the number in flight and the outcomes. Each operation keeps it so. -/

namespace Rollout

namespace Graph

variable {g : Graph} {σ : TaskId → TaskState} {left : TaskId → Nat} {id x : TaskId}

theorem afterFailed_eq_ready_iff : g.afterFailed σ id x = .ready ↔ σ x = .ready ∧ x ≠ id := by
  by_cases hx : x = id
  · simp [hx, afterFailed_self]
  · by_cases hb : x ∈ g.downstream id ∧ σ x = .pending
    · simp [afterFailed_of_behind hx hb, hb.2]
    · simp [afterFailed_of_not_behind hx hb, hx]

theorem afterFailed_eq_running_iff : g.afterFailed σ id x = .running ↔ σ x = .running ∧ x ≠ id := by
  by_cases hx : x = id
  · simp [hx, afterFailed_self]
  · by_cases hb : x ∈ g.downstream id ∧ σ x = .pending
    · simp [afterFailed_of_behind hx hb, hb.2]
    · simp [afterFailed_of_not_behind hx hb, hx]

theorem pending_of_afterFailed (h : g.afterFailed σ id x = .pending) : σ x = .pending := by
  by_cases hx : x = id
  · simp [hx, afterFailed_self] at h
  · by_cases hb : x ∈ g.downstream id ∧ σ x = .pending
    · exact hb.2
    · rwa [afterFailed_of_not_behind hx hb] at h

theorem afterDone_eq_running_iff : g.afterDone σ left id x = .running ↔ σ x = .running ∧ x ≠ id := by
  by_cases hx : x = id
  · simp [hx, afterDone_self]
  · by_cases ho : x ∈ g.successors id ∧ σ x = .pending ∧ left x ≤ 1
    · simp [afterDone_of_open hx ho, ho.2.1]
    · simp [afterDone_of_not_open hx ho, hx]

theorem Valid.not_mem_successors (hv : g.Valid) : id ∉ g.successors id := fun h =>
  hv.acyclic id (.single h)

end Graph

namespace Run

structure Coherent (g : Graph) (r : Run) : Prop where
  graph_eq : r.graph = g
  keys_states : r.states.keys = g.ids
  keys_remaining : r.remaining.keys = g.ids
  told : r.Told
  respected : g.Respected r.stateOf r.left
  pairwise_ready : r.ready.Pairwise (· < ·)
  mem_ready : ∀ {x}, x ∈ r.ready ↔ r.stateOf x = .ready
  inFlight_eq : r.inFlight = g.ids.countP fun x => r.stateOf x = .running
  stopped_empty : r.stopped.isSome = true → ∀ x, r.stateOf x ≠ .pending ∧ r.stateOf x ≠ .ready

variable {g : Graph} {r : Run} {id : TaskId}

theorem Coherent.mem_ids (h : Coherent g r) (hid : r.stateOf id ≠ .skipped) : id ∈ g.ids :=
  h.keys_states ▸ mem_keys_of_stateOf hid

theorem Coherent.inFlight_of_running (hv : g.Valid) (h : Coherent g r)
    (hid : r.stateOf id = .running) :
    r.inFlight = (g.ids.countP fun x => decide (r.stateOf x = .running ∧ x ≠ id)) + 1 := by
  have hmem : id ∈ g.ids := h.mem_ids (by simp [hid])
  rw [h.inFlight_eq]
  apply Graph.countP_change hv.nodup_ids hmem (by simpa using hid) (by simp)
  intro x hx
  simp [hx]

/-- A task that has its turn can fail, whatever counted it as ready or in flight being told. -/
theorem Coherent.fail_of_removed (hv : g.Valid) (h : Coherent g r) (r' : Run)
    (hid : (r.stateOf id).isUnlocked = true) (hnot : r.stateOf id ≠ .done)
    (hgraph : r'.graph = r.graph) (hstates : r'.states = r.states)
    (hremaining : r'.remaining = r.remaining) (hstopped : r'.stopped = r.stopped)
    (htally : r'.tally = r.tally) (hpairwise : r'.ready.Pairwise (· < ·))
    (hready : ∀ x, x ∈ r'.ready ↔ r.stateOf x = .ready ∧ x ≠ id)
    (hflight : r'.inFlight = g.ids.countP fun x => decide (r.stateOf x = .running ∧ x ≠ id))
    (now : Instant) (diagnostic : String) : Coherent g (fail now r' id diagnostic) := by
  have hskip : r.stateOf id ≠ .skipped := fun e => by simp [e, TaskState.isUnlocked] at hid
  have hstate' : r'.stateOf = r.stateOf := funext fun x => by rw [stateOf, stateOf, hstates]
  have hleft' : r'.left = r.left := funext fun x => by rw [left, left, hremaining]
  have hf := framed_fail now r' id diagnostic
  have hstate : (fail now r' id diagnostic).stateOf = g.afterFailed r.stateOf id := by
    rw [stateOf_fail now (by rw [hstates]; exact mem_keys_of_stateOf hskip), hgraph, h.graph_eq,
      hstate']
  have htold : r'.Told := .of_eq h.told hstates htally
  refine ⟨hf.graph.trans (hgraph.trans h.graph_eq), ?_, ?_, hf.told htold, ?_, ?_, fun {x} => ?_, ?_,
    fun hs x => ?_⟩
  · rw [hf.keys, hstates, h.keys_states]
  · rw [hf.remaining, hremaining, h.keys_remaining]
  · rw [hstate, hf.left, hleft']
    exact h.respected.afterFailed hv hid hnot
  · rw [hf.ready]
    exact hpairwise
  · rw [hf.ready, hready, hstate, Graph.afterFailed_eq_ready_iff]
  · rw [hf.inFlight, hflight, hstate]
    simp only [Graph.afterFailed_eq_running_iff]
  · rw [hf.stopped, hstopped] at hs
    obtain ⟨hp, hr⟩ := h.stopped_empty hs x
    rw [hstate]
    exact ⟨fun e => hp (Graph.pending_of_afterFailed e),
      fun e => hr (Graph.afterFailed_eq_ready_iff.mp e).1⟩

theorem Coherent.fail_running (hv : g.Valid) (h : Coherent g r) (hid : r.stateOf id = .running)
    (c : Context) (now : Instant) (diagnostic : String) :
    Coherent g (fail now { r with inFlight := r.inFlight - 1, context := c } id diagnostic) := by
  have hflight := h.inFlight_of_running hv hid
  refine h.fail_of_removed hv { r with inFlight := r.inFlight - 1, context := c }
    (by simp [hid, TaskState.isUnlocked]) (by simp [hid]) rfl rfl rfl rfl rfl h.pairwise_ready
    (fun x => ?_) (by simp [hflight]) now diagnostic
  refine h.mem_ready.trans (iff_self_and.mpr fun hx e => ?_)
  simp [e, hid] at hx

theorem Coherent.ready_head (h : Coherent g r) {rest : List TaskId} (hr : r.ready = id :: rest) :
    r.stateOf id = .ready ∧ rest.Pairwise (· < ·) ∧
      ∀ x, x ∈ rest ↔ r.stateOf x = .ready ∧ x ≠ id := by
  have hp := h.pairwise_ready
  rw [hr] at hp
  obtain ⟨hid, hrest⟩ := List.pairwise_cons.mp hp
  refine ⟨h.mem_ready.mp (by simp [hr]), hrest, fun x => ?_⟩
  rw [← h.mem_ready, hr, List.mem_cons]
  constructor
  · exact fun hx => ⟨Or.inr hx, fun e => Std.lt_irrefl (e ▸ hid x hx)⟩
  · exact fun hx => hx.1.resolve_left hx.2

theorem Coherent.head_le (h : Coherent g r) {rest : List TaskId} (hr : r.ready = id :: rest) {x : TaskId}
    (hx : r.stateOf x = .ready) : id ≤ x := by
  have hm := h.mem_ready.mpr hx
  have hp := h.pairwise_ready
  rw [hr] at hm hp
  rcases List.mem_cons.mp hm with rfl | hm
  · exact Std.le_refl x
  · exact Std.le_of_lt ((List.pairwise_cons.mp hp).1 x hm)

theorem Coherent.fail_ready (hv : g.Valid) (h : Coherent g r) {rest : List TaskId}
    (hr : r.ready = id :: rest) (now : Instant) (diagnostic : String) :
    Coherent g (fail now { r with ready := r.ready.drop 1 } id diagnostic) := by
  obtain ⟨hid, hpairwise, hmem⟩ := h.ready_head hr
  have hdrop : r.ready.drop 1 = rest := by rw [hr]; rfl
  refine h.fail_of_removed hv { r with ready := r.ready.drop 1 }
    (by simp [hid, TaskState.isUnlocked]) (by simp [hid]) rfl rfl rfl rfl rfl
    (by simpa only [hdrop] using hpairwise) (by simpa only [hdrop] using hmem) ?_ now diagnostic
  refine h.inFlight_eq.trans (List.countP_congr fun x _ => ?_)
  simp only [decide_eq_true_eq]
  exact iff_self_and.mpr fun hx e => by simp [e, hid] at hx

theorem Coherent.stop (h : Coherent g r) (s : Stop) : Coherent g (r.stop s) := by
  cases hs : r.stopped with
  | some old =>
    rw [stop_of_stopped (by simp [hs])]
    exact h
  | none =>
    have hkeys : r.states.keys = r.graph.ids := h.keys_states.trans (congrArg _ h.graph_eq.symm)
    have hf := (foldl_skip_spec s.skipReason r.waiting r).1
    have hstate := stateOf_stop hs hkeys s
    have hrespected := h.respected.afterStop
    rw [← hstate] at hrespected
    have hnone : ∀ x, (r.stop s).stateOf x ≠ .pending ∧ (r.stop s).stateOf x ≠ .ready := fun x =>
      hstate ▸ afterStop_ne
    have hrunning : ∀ x, (r.stop s).stateOf x = .running ↔ r.stateOf x = .running := fun x => by
      rw [hstate]
      by_cases hw : r.stateOf x = .pending ∨ r.stateOf x = .ready
      · rw [afterStop_of_waiting hw]
        rcases hw with hw | hw <;> simp [hw]
      · rw [afterStop_of_not_waiting hw]
    have heq := stop_eq hs s
    refine ⟨?_, ?_, ?_, ?_, ?_, ?_, fun {x} => ?_, ?_, fun _ => hnone⟩
    · rw [heq]
      exact hf.graph.trans h.graph_eq
    · rw [heq]
      exact hf.keys.trans h.keys_states
    · rw [heq]
      exact (congrArg Table.keys hf.remaining).trans h.keys_remaining
    · rw [heq]
      exact .of_eq (hf.told h.told) rfl rfl
    · have hleft : (r.stop s).left = r.left := by
        rw [heq]
        exact hf.left
      rwa [hleft]
    · rw [heq]
      exact List.Pairwise.nil
    · rw [show (r.stop s).ready = [] by rw [heq]]
      simpa using (hnone x).2
    · simp only [hrunning]
      rw [heq]
      exact hf.inFlight.trans h.inFlight_eq

/-- What a task that ended well does to a run before its successors are unlocked. -/
def finishWell (now : Instant) (c : Context) (r : Run) (id : TaskId) : Run :=
  Run.mark { r with inFlight := r.inFlight - 1, context := c } id .done
    (fun o => { o with state := .done, diagnostic := none, finishedAt := some now })
    (.finished id .done none)

theorem stateOf_finishWell (hid : r.stateOf id = .running) (now : Instant) (c : Context) :
    (finishWell now c r id).stateOf = Function.update r.stateOf id .done :=
  stateOf_setState (Or.inl (mem_keys_of_stateOf (show r.stateOf id ≠ .skipped by simp [hid])))

theorem complete_written {now : Instant} {outputs : Outputs} {c : Context}
    (h : r.context.writeAll id outputs.pairs = (c, none)) :
    r.complete now id (.succeeded outputs) =
      (r.graph.successors id).foldl unlock (finishWell now c r id) := by
  simp only [complete, h]
  rfl

theorem complete_taken {now : Instant} {outputs : Outputs} {c : Context} {f : Context.Fault}
    (h : r.context.writeAll id outputs.pairs = (c, some f)) :
    r.complete now id (.succeeded outputs) =
      (fail now { r with inFlight := r.inFlight - 1, context := c } id f.message).stop
        (.fatal f.message) := by
  simp only [complete, h]

theorem complete_failed (now : Instant) (r : Run) (id : TaskId) (diagnostic : String)
    (fatal : Bool) :
    r.complete now id (.failed diagnostic fatal) =
      let r := fail now { r with inFlight := r.inFlight - 1 } id diagnostic
      if fatal then r.stop (.fatal diagnostic) else r := rfl

section Written

variable (hv : g.Valid) (h : Coherent g r) (hid : r.stateOf id = .running) (now : Instant) (c : Context)
include hv h

theorem Coherent.unlocks (id : TaskId) :
    Unlocks (g.successors id) (finishWell now c r id)
      ((r.graph.successors id).foldl unlock (finishWell now c r id)) := by
  rw [h.graph_eq]
  exact unlocks_foldl (hv.nodup_successors id) _

include hid

theorem Coherent.stateOf_written :
    ((r.graph.successors id).foldl unlock (finishWell now c r id)).stateOf =
      g.afterDone r.stateOf r.left id := by
  have hu := h.unlocks hv now c id
  have hmark := stateOf_finishWell hid now c
  funext x
  by_cases hx : x = id
  · subst x
    rw [hu.stateOf_other fun hm => hv.not_mem_successors hm.1, hmark, Function.update_self,
      Graph.afterDone_self]
  · have hsame : (finishWell now c r id).stateOf x = r.stateOf x := by
      rw [hmark, Function.update_of_ne hx]
    have hopens : (finishWell now c r id).Opens x ↔ r.stateOf x = .pending ∧ r.left x ≤ 1 := by
      rw [Opens, hsame]
      rfl
    by_cases ho : x ∈ g.successors id ∧ r.stateOf x = .pending ∧ r.left x ≤ 1
    · rw [hu.stateOf_open ho.1 (hopens.mpr ho.2), Graph.afterDone_of_open hx ho]
    · rw [hu.stateOf_other fun hm => ho ⟨hm.1, hopens.mp hm.2⟩, hsame,
        Graph.afterDone_of_not_open hx ho]

theorem Coherent.left_written :
    ((r.graph.successors id).foldl unlock (finishWell now c r id)).left =
      g.leftAfterDone r.stateOf r.left id := by
  have hu := h.unlocks hv now c id
  have hmark := stateOf_finishWell hid now c
  funext x
  have hiff : x ∈ g.successors id ∧ (finishWell now c r id).stateOf x = .pending ↔
      x ∈ g.successors id ∧ r.stateOf x = .pending := by
    apply and_congr_right
    intro hm
    have hx : x ≠ id := fun e => hv.not_mem_successors (e ▸ hm)
    rw [hmark, Function.update_of_ne hx]
  rw [Graph.leftAfterDone]
  by_cases hp : x ∈ g.successors id ∧ r.stateOf x = .pending
  · have hp' := hiff.mpr hp
    rw [if_pos hp, hu.left_pending hp'.1 hp'.2]
    rfl
  · rw [if_neg hp, hu.left_other (mt hiff.mp hp)]
    rfl

theorem Coherent.written :
    Coherent g ((r.graph.successors id).foldl unlock (finishWell now c r id)) := by
  have hu := h.unlocks hv now c id
  have hstate := h.stateOf_written hv hid now c
  have hready : ∀ {x}, r.stateOf x = .ready → x ≠ id := fun hx e => by simp [e, hid] at hx
  have hmark := stateOf_finishWell hid now c
  have htold : (finishWell now c r id).Told :=
    told_mark (r := { r with inFlight := r.inFlight - 1, context := c }) (.of_eq h.told rfl rfl)
      (fun _ => by constructor <;> rfl) _
  refine ⟨hu.graph.trans h.graph_eq, hu.keys.trans ((keys_setState r id .done).trans h.keys_states),
    hu.keys_remaining.trans h.keys_remaining, hu.told htold, ?_, ?_, fun {x} => ?_, ?_, fun hs x => ?_⟩
  · rw [hstate, h.left_written hv hid now c]
    exact h.respected.afterDone hv hid
  · refine hu.pairwise_ready (fun x hx => ?_) h.pairwise_ready
    have hx := h.mem_ready.mp hx
    rw [hmark, Function.update_of_ne (hready hx), hx]
  · rw [hu.mem_ready, hstate, show (finishWell now c r id).ready = r.ready from rfl, h.mem_ready]
    by_cases hx : x = id
    · subst x
      simp [Graph.afterDone_self, hid, hv.not_mem_successors]
    · have hopens : (finishWell now c r id).Opens x ↔ r.stateOf x = .pending ∧ r.left x ≤ 1 := by
        rw [Opens, hmark, Function.update_of_ne hx]
        rfl
      rw [hopens]
      by_cases ho : x ∈ g.successors id ∧ r.stateOf x = .pending ∧ r.left x ≤ 1
      · simp [Graph.afterDone_of_open hx ho, ho]
      · rw [Graph.afterDone_of_not_open hx ho, or_iff_left ho]
  · rw [hu.inFlight, hstate]
    simp only [Graph.afterDone_eq_running_iff]
    have hflight := h.inFlight_of_running hv hid
    change r.inFlight - 1 = _
    omega
  · obtain ⟨hp, hr⟩ := h.stopped_empty (by rw [← hs, hu.stopped]; rfl) x
    rw [hstate]
    by_cases hx : x = id
    · simp [hx, Graph.afterDone_self]
    · rw [Graph.afterDone_of_not_pending hx hp]
      exact ⟨hp, hr⟩

end Written

/-- Taking in the completion of a running task keeps a run coherent, however the task ended. -/
theorem Coherent.complete (hv : g.Valid) (h : Coherent g r) (hid : r.stateOf id = .running)
    (now : Instant) (c : Completion) : Coherent g (r.complete now id c) := by
  cases c with
  | succeeded outputs =>
    cases hw : r.context.writeAll id outputs.pairs with
    | mk context fault =>
      cases fault with
      | none =>
        rw [complete_written hw]
        exact h.written hv hid now context
      | some f =>
        rw [complete_taken hw]
        exact (h.fail_running hv hid context now f.message).stop _
  | failed diagnostic fatal =>
    have hfail := h.fail_running hv hid r.context now diagnostic
    rw [complete_failed]
    cases fatal with
    | false => exact hfail
    | true => exact hfail.stop _

theorem dispatch_covered {now : Instant} {kind : Kind} (hc : r.covered kind = true) :
    (r.dispatch now id kind).1 =
      Run.mark { r with ready := r.ready.drop 1, inFlight := r.inFlight + 1 } id .running
        (fun o => { o with state := .running, startedAt := some now }) (.dispatched id kind) := by
  simp only [dispatch, hc, if_true]
  rfl

theorem dispatch_uncovered {now : Instant} {kind : Kind} (hc : r.covered kind = false) :
    (r.dispatch now id kind).1 =
      fail now { r with ready := r.ready.drop 1 } id
        ("no handler registered for task kind " ++ kind.name) := by
  simp [dispatch, hc]

theorem Coherent.dispatch (hv : g.Valid) (h : Coherent g r) {rest : List TaskId}
    (hr : r.ready = id :: rest) (hs : r.stopped = none) (now : Instant) (kind : Kind) :
    Coherent g (r.dispatch now id kind).1 := by
  cases hc : r.covered kind with
  | false =>
    rw [dispatch_uncovered hc]
    exact h.fail_ready hv hr now _
  | true =>
    obtain ⟨hid, hpairwise, hmem⟩ := h.ready_head hr
    have hdrop : r.ready.drop 1 = rest := by rw [hr]; rfl
    have hstate : (r.dispatch now id kind).1.stateOf = Function.update r.stateOf id .running := by
      rw [dispatch_covered hc]
      exact stateOf_setState (Or.inl (mem_keys_of_stateOf (r := r) (by simp [hid])))
    have hrespected := h.respected.afterStart hid
    rw [← hstate] at hrespected
    rw [dispatch_covered hc] at hstate hrespected ⊢
    refine ⟨h.graph_eq, (keys_setState r id .running).trans h.keys_states, h.keys_remaining,
      told_mark (r := { r with ready := r.ready.drop 1, inFlight := r.inFlight + 1 })
        (.of_eq h.told rfl rfl) (fun _ => by constructor <;> rfl) _,
      hrespected, ?_, fun {x} => ?_, ?_, fun hsome => ?_⟩
    · change (r.ready.drop 1).Pairwise (· < ·)
      rw [hdrop]
      exact hpairwise
    · change x ∈ r.ready.drop 1 ↔ _
      rw [hstate, hdrop, hmem]
      by_cases hx : x = id <;> simp [hx]
    · have hcount : g.ids.countP (fun x => decide (Function.update r.stateOf id .running x = .running)) =
          g.ids.countP (fun x => decide (r.stateOf x = .running)) + 1 := by
        have hmem : id ∈ g.ids := h.mem_ids (by simp [hid])
        apply Graph.countP_change hv.nodup_ids hmem (by simp) (by simp [hid])
        intro x hx
        rw [Function.update_of_ne hx]
      rw [hstate, hcount, ← h.inFlight_eq]
      rfl
    · change r.stopped.isSome = true at hsome
      simp [hs] at hsome

theorem states_start (runId : String) (covered : Kind → Bool) (now : Instant) :
    (start runId g covered now).states =
      g.tasks.map fun _ t => if t.isRoot then .ready else .pending := rfl

theorem remaining_start (runId : String) (covered : Kind → Bool) (now : Instant) :
    (start runId g covered now).remaining = g.tasks.map fun _ t => t.predecessors.length := rfl

theorem stateOf_start {runId : String} {covered : Kind → Bool} {now : Instant} (x : TaskId) :
    (start runId g covered now).stateOf x =
      ((g.task? x).map fun t => if t.isRoot then TaskState.ready else .pending).getD .skipped := by
  rw [stateOf, states_start, Table.find?_map]
  rfl

theorem left_start {runId : String} {covered : Kind → Bool} {now : Instant} (x : TaskId) :
    (start runId g covered now).left x = (g.predecessors x).length := by
  rw [left, remaining_start, Table.find?_map, Graph.predecessors, Graph.task?]
  cases g.tasks.find? x <;> rfl

/-- Roots are ready at first and all other tasks pending. -/
theorem stateOf_start_cases (runId : String) (covered : Kind → Bool) (now : Instant) (x : TaskId) :
    (start runId g covered now).stateOf x = .skipped ∧ x ∉ g.ids ∨
      (start runId g covered now).stateOf x = .ready ∧ g.predecessors x = [] ∨
      (start runId g covered now).stateOf x = .pending ∧ g.predecessors x ≠ [] := by
  rw [stateOf_start, Graph.mem_ids_iff]
  cases ht : g.task? x with
  | none => simp
  | some t =>
    rw [Graph.predecessors_of_task? ht]
    by_cases hr : t.isRoot = true
    · exact Or.inr (Or.inl ⟨by simp [hr], by simpa [Task.isRoot] using hr⟩)
    · exact Or.inr (Or.inr ⟨by simp [hr], by simpa [Task.isRoot] using hr⟩)

theorem respected_start (hv : g.Valid) (runId : String) (covered : Kind → Bool) (now : Instant) :
    g.Respected (start runId g covered now).stateOf (start runId g covered now).left := by
  have hcases := stateOf_start_cases (g := g) runId covered now
  have hnotDone : ∀ x, (start runId g covered now).stateOf x ≠ .done := fun x hx => by
    rcases hcases x with h | h | h <;> simp [hx] at h
  refine ⟨fun {a b} he hb => ?_, fun {a b} he ha => ?_, fun {b} hb => ?_, fun {b} hb => ?_⟩
  · rcases hcases b with h | h | h
    · simp [h.1, TaskState.isUnlocked] at hb
    · have hm := hv.mem_predecessors.mpr he
      simp [h.2] at hm
    · simp [h.1, TaskState.isUnlocked] at hb
  · rcases hcases a with h | h | h
    · exact absurd (hv.mem_ids he).1 h.2
    · simp [h.1] at ha
    · simp [h.1] at ha
  · have hp : g.predecessors b ≠ [] := by
      rcases hcases b with h | h | h
      · simp [h.1] at hb
      · simp [h.1] at hb
      · exact h.2
    rw [left_start]
    refine ⟨?_, List.length_pos_iff.mpr hp⟩
    rw [Graph.notDone, eq_comm, List.countP_eq_length]
    intro a _
    simpa using hnotDone a
  · rcases hcases b with h | h | h
    · simp [h.1, TaskState.isUnlocked] at hb
    · simp [left_start, h.2]
    · simp [h.1, TaskState.isUnlocked] at hb

theorem outcomes_start (hv : g.Valid) (runId : String) (covered : Kind → Bool) (now : Instant) :
    (start runId g covered now).tally.outcomes = g.tasks.map fun id t => .start id t.kind := by
  have hpairs : ((g.tasks.map fun _ t => t.kind).pairs.map fun q => (q.1, Outcome.start q.1 q.2)) =
      (g.tasks.map fun id t => Outcome.start id t.kind).pairs := by
    rw [Table.pairs_map, Table.pairs_map, List.map_map]
    rfl
  have hsorted : (g.tasks.map fun id t => Outcome.start id t.kind).pairs.Pairwise
      fun q q' => q.1 < q'.1 := by
    rw [Table.pairs_map]
    exact List.pairwise_map.mpr hv.sorted
  change Table.ofList ((g.tasks.map fun _ t => t.kind).pairs.map fun q => (q.1, _)) = _
  rw [hpairs]
  exact Table.pairs_ofList hsorted

theorem told_start (hv : g.Valid) (runId : String) (covered : Kind → Bool) (now : Instant) :
    (start runId g covered now).Told := by
  refine ⟨?_, fun x => ?_, fun {x o} ho => ?_⟩
  · rw [outcomes_start hv, states_start, Table.keys_map, Table.keys_map]
  · rw [Tally.stateOf?, outcomes_start hv, states_start, Table.find?_map, Table.find?_map,
      Option.map_map, Option.map_map]
    refine congrArg (Option.map · _) (funext fun t => ?_)
    by_cases hr : t.isRoot = true <;> simp [hr, Outcome.start, TaskState.shown]
  · rw [outcomes_start hv, Table.find?_map] at ho
    obtain ⟨t, -, rfl⟩ := Option.map_eq_some_iff.mp ho
    rfl

theorem coherent_start (hv : g.Valid) (runId : String) (covered : Kind → Bool) (now : Instant) :
    Coherent g (start runId g covered now) := by
  refine ⟨rfl, ?_, ?_, told_start hv runId covered now, respected_start hv runId covered now,
    hv.pairwise_roots, fun {x} => ?_, ?_, nofun⟩
  · rw [states_start, Table.keys_map, Graph.ids]
  · rw [remaining_start, Table.keys_map, Graph.ids]
  · change x ∈ g.roots ↔ _
    rw [hv.mem_roots, stateOf_start, Graph.mem_ids_iff]
    cases ht : g.task? x with
    | none => simp
    | some t =>
      rw [Graph.predecessors_of_task? ht]
      by_cases hr : t.predecessors = [] <;> simp [Task.isRoot, hr]
  · change 0 = _
    rw [eq_comm, List.countP_eq_zero]
    intro x _
    rw [stateOf_start]
    cases g.task? x with
    | none => simp
    | some t => by_cases hr : t.isRoot = true <;> simp [hr]

end Run

end Rollout
