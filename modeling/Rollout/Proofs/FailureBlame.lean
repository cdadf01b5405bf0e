import Rollout.Proofs.Stopping

/-! Who is to blame for the tasks that a run skips. As long as nothing stops the run, a task is skipped only
behind one that failed. -/

namespace Rollout

/-- Every task that is skipped comes after one that failed. -/
def Graph.Blamed (g : Graph) (σ : TaskId → TaskState) : Prop :=
  ∀ x ∈ g.ids, σ x = .skipped → ∃ a, g.Before a x ∧ σ a = .failed

section Changes

variable {g : Graph} {σ : TaskId → TaskState} {left : TaskId → Nat} {id : TaskId}

theorem Graph.Blamed.afterStart (h : g.Blamed σ) (hid : σ id = .ready) :
    g.Blamed (Function.update σ id .running) := by
  intro x hx hskip
  have hne : x ≠ id := fun e => by simp [e] at hskip
  rw [Function.update_of_ne hne] at hskip
  obtain ⟨a, hab, ha⟩ := h x hx hskip
  refine ⟨a, hab, ?_⟩
  rwa [Function.update_of_ne fun e => by simp [e, hid] at ha]

theorem Graph.Blamed.afterDone (h : g.Blamed σ) (hid : σ id = .running) :
    g.Blamed (g.afterDone σ left id) := by
  intro x hx hskip
  have hne : x ≠ id := fun e => by simp [e, Graph.afterDone_self] at hskip
  have hshut : ¬ (x ∈ g.successors id ∧ σ x = .pending ∧ left x ≤ 1) := fun ho => by
    simp [Graph.afterDone_of_open hne ho] at hskip
  rw [Graph.afterDone_of_not_open hne hshut] at hskip
  obtain ⟨a, hab, ha⟩ := h x hx hskip
  have hane : a ≠ id := fun e => by simp [e, hid] at ha
  exact ⟨a, hab, (Graph.afterDone_of_not_pending hane (by simp [ha])).trans ha⟩

theorem Graph.Blamed.afterFailed (hv : g.Valid) (h : g.Blamed σ) : g.Blamed (g.afterFailed σ id) := by
  intro x hx hskip
  have hne : x ≠ id := fun e => by simp [e, Graph.afterFailed_self] at hskip
  by_cases hbehind : x ∈ g.downstream id ∧ σ x = .pending
  · exact ⟨id, (Graph.mem_downstream_iff hv).mp hbehind.1, Graph.afterFailed_self⟩
  · rw [Graph.afterFailed_of_not_behind hne hbehind] at hskip
    obtain ⟨a, hab, ha⟩ := h x hx hskip
    refine ⟨a, hab, ?_⟩
    by_cases hane : a = id
    · exact hane ▸ Graph.afterFailed_self
    · exact (Graph.afterFailed_of_not_pending hane (by simp [ha])).trans ha

end Changes

namespace Run

variable {g : Graph} {r : Run} {id : TaskId}

theorem blamed_start (runId : String) (covered : Kind → Bool) (now : Instant) :
    g.Blamed (start runId g covered now).stateOf := by
  intro x hx hskip
  rcases stateOf_start_cases (g := g) runId covered now x with h | h | h
  · exact absurd hx h.2
  · simp [h.1] at hskip
  · simp [h.1] at hskip

theorem Coherent.blamed_complete (hv : g.Valid) (h : Coherent g r) (hid : r.stateOf id = .running)
    (now : Instant) {c : Completion} (hgoes : c.stop? r.context id = none)
    (hb : g.Blamed r.stateOf) : g.Blamed (r.complete now id c).stateOf := by
  cases c with
  | succeeded outputs =>
    cases hw : r.context.writeAll id outputs.pairs with
    | mk context fault =>
      rw [Completion.stop?, hw, Option.map_eq_none_iff] at hgoes
      subst hgoes
      rw [complete_written hw, h.stateOf_written hv hid now context]
      exact hb.afterDone hid
  | failed diagnostic fatal =>
    have hfatal : fatal = false := by simpa [Completion.stop?] using hgoes
    have hskip : r.stateOf id ≠ .skipped := by simp [hid]
    have hstate := h.stateOf_failed { r with inFlight := r.inFlight - 1 } hskip rfl rfl now diagnostic
    subst hfatal
    rw [complete_failed]
    exact hstate ▸ hb.afterFailed hv

theorem Coherent.blamed_dispatch (hv : g.Valid) (h : Coherent g r) (hid : r.stateOf id = .ready)
    (now : Instant) (kind : Kind) (hb : g.Blamed r.stateOf) :
    g.Blamed (r.dispatch now id kind).1.stateOf := by
  cases hc : r.covered kind with
  | true =>
    rw [Coherent.stateOf_dispatch_covered hid now hc]
    exact hb.afterStart hid
  | false =>
    rw [h.stateOf_dispatch_uncovered hid now hc]
    exact hb.afterFailed hv

end Run

namespace Loop

variable {g : Graph} {limit : Nat} {l l' : Loop} {actions : List Action} {a : Action}

theorem Moves.blamed {r r' : Run} (hv : g.Valid) (h : Run.Coherent g r) (m : Moves r a r')
    (going : r'.stopped = none) (hb : r.stopped = none → g.Blamed r.stateOf) :
    g.Blamed r'.stateOf := by
  cases m with
  | still other => exact hb going
  | stop other why =>
    rw [Run.stopped_stop_eq] at going
    simp at going
  | turn now action first task =>
    exact h.blamed_dispatch hv (h.ready_head first).1 now _ (hb ((Run.stopped_dispatch ..).symm.trans going))
  | taken now c running =>
    rw [Run.stopped_complete now r _ c (h.graph_eq ▸ hv), Option.or_eq_none_iff] at going
    exact h.blamed_complete hv running now going.2 (hb going.1)

theorem Sound.blamed_path (hv : g.Valid) (hs : Sound g limit l) (p : Path l actions l')
    (hb : l.run.stopped = none → g.Blamed l.run.stateOf) :
    l'.run.stopped = none → g.Blamed l'.run.stateOf := by
  induction p with
  | refl => exact hb
  | snoc p s ih =>
    have hs := hs.path hv p
    exact fun going => (hs.moves s).blamed hv hs.coherent going ih

/-- A run that nothing stopped skipped tasks only behind tasks that failed. -/
theorem blamed_of_path (hv : g.Valid) {runId : String} {handlers : Registry} {limits : Run.Limits}
    {now : Instant} (path : Path (start runId g handlers limits now) actions l)
    (going : l.run.stopped = none) : g.Blamed l.run.stateOf :=
  (sound_start hv runId handlers limits now).blamed_path hv path
    (fun _ => Run.blamed_start runId handlers.contains now) going

end Loop

end Rollout
