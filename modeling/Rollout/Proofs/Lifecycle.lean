import Rollout.Proofs.RunCoherence

/-! Tasks go through their states in one direction. Whatever a run does, a task that had its turn never
waits again, and a task that is done, failed or skipped stays so. -/

namespace Rollout

/-- Whether a task can come from one state to another. -/
def TaskState.Leads : TaskState → TaskState → Prop
  | pending, _ => True
  | ready, s => s ≠ pending
  | running, s => s = running ∨ s = done ∨ s = failed
  | done, s => s = done
  | failed, s => s = failed
  | skipped, s => s = skipped

namespace TaskState

theorem isTerminal_iff {s : TaskState} : s.isTerminal = true ↔ s ∈ [done, failed, skipped] := by
  cases s <;> simp [isTerminal]

theorem Leads.refl (s : TaskState) : s.Leads s := by
  cases s <;> simp [Leads]

theorem Leads.trans {s t u : TaskState} (h : s.Leads t) (h' : t.Leads u) : s.Leads u := by
  cases s <;> cases t <;> simp_all [Leads]
  · rcases h' with rfl | rfl | rfl <;> simp

theorem Leads.eq_of_terminal {s t : TaskState} (h : s.Leads t) (hs : s.isTerminal = true) : t = s := by
  cases s <;> simp_all [Leads, isTerminal]

theorem Leads.eq_running {s : TaskState} (h : running.Leads s) (h' : s.Leads running) : s = running := by
  cases s <;> simp_all [Leads]

/-- Whether a task had its turn. -/
def wasTaken : TaskState → Bool
  | running | done | failed => true
  | pending | ready | skipped => false

theorem Leads.wasTaken {s t : TaskState} (h : s.Leads t) (hs : s.wasTaken = true) :
    t.wasTaken = true := by
  cases s <;> simp_all [Leads, TaskState.wasTaken]
  rcases h with rfl | rfl | rfl <;> rfl

end TaskState

section Changes

variable {g : Graph} {σ : TaskId → TaskState} {left : TaskId → Nat} {id : TaskId}

theorem leads_afterStop (x : TaskId) : (σ x).Leads (afterStop σ x) := by
  by_cases hw : σ x = .pending ∨ σ x = .ready
  · rw [afterStop_of_waiting hw]
    rcases hw with hw | hw <;> simp [hw, TaskState.Leads]
  · rw [afterStop_of_not_waiting hw]
    exact .refl _

theorem leads_afterStart (hid : σ id = .ready) (x : TaskId) :
    (σ x).Leads (Function.update σ id .running x) := by
  by_cases hx : x = id
  · subst x
    simp [hid, TaskState.Leads]
  · rw [Function.update_of_ne hx]
    exact .refl _

theorem leads_afterFailed (hid : σ id = .ready ∨ σ id = .running) (x : TaskId) :
    (σ x).Leads (g.afterFailed σ id x) := by
  by_cases hx : x = id
  · subst x
    rw [Graph.afterFailed_self]
    rcases hid with hid | hid <;> simp [hid, TaskState.Leads]
  · by_cases hb : x ∈ g.downstream id ∧ σ x = .pending
    · simp [hb.2, TaskState.Leads]
    · rw [Graph.afterFailed_of_not_behind hx hb]
      exact .refl _

theorem leads_afterDone (hid : σ id = .running) (x : TaskId) :
    (σ x).Leads (g.afterDone σ left id x) := by
  by_cases hx : x = id
  · subst x
    simp [Graph.afterDone_self, hid, TaskState.Leads]
  · by_cases ho : x ∈ g.successors id ∧ σ x = .pending ∧ left x ≤ 1
    · simp [ho.2.1, TaskState.Leads]
    · rw [Graph.afterDone_of_not_open hx ho]
      exact .refl _

theorem wasTaken_afterStop (x : TaskId) : (afterStop σ x).wasTaken = (σ x).wasTaken := by
  by_cases hw : σ x = .pending ∨ σ x = .ready
  · rw [afterStop_of_waiting hw]
    rcases hw with hw | hw <;> simp [hw, TaskState.wasTaken]
  · rw [afterStop_of_not_waiting hw]

theorem wasTaken_afterFailed (hid : σ id = .running) (x : TaskId) :
    (g.afterFailed σ id x).wasTaken = (σ x).wasTaken := by
  by_cases hx : x = id
  · subst x
    rw [Graph.afterFailed_self, hid]
    rfl
  · by_cases hb : x ∈ g.downstream id ∧ σ x = .pending
    · simp [Graph.afterFailed_of_behind hx hb, hb.2, TaskState.wasTaken]
    · rw [Graph.afterFailed_of_not_behind hx hb]

theorem wasTaken_afterDone (hid : σ id = .running) (x : TaskId) :
    (g.afterDone σ left id x).wasTaken = (σ x).wasTaken := by
  by_cases hx : x = id
  · subst x
    rw [Graph.afterDone_self, hid]
    rfl
  · by_cases ho : x ∈ g.successors id ∧ σ x = .pending ∧ left x ≤ 1
    · simp [Graph.afterDone_of_open hx ho, ho.2.1, TaskState.wasTaken]
    · rw [Graph.afterDone_of_not_open hx ho]

theorem afterStop_eq_running_iff {x : TaskId} : afterStop σ x = .running ↔ σ x = .running := by
  by_cases hw : σ x = .pending ∨ σ x = .ready
  · rw [afterStop_of_waiting hw]
    rcases hw with hw | hw <;> simp [hw]
  · rw [afterStop_of_not_waiting hw]

end Changes

namespace Run

variable {g : Graph} {r : Run} {id : TaskId}

theorem Coherent.keys_eq (h : Coherent g r) : r.states.keys = r.graph.ids :=
  h.keys_states.trans (congrArg _ h.graph_eq.symm)

theorem Coherent.leads_stop (h : Coherent g r) (s : Stop) (x : TaskId) :
    (r.stateOf x).Leads ((r.stop s).stateOf x) := by
  cases hs : r.stopped with
  | some old =>
    rw [stop_of_stopped (by simp [hs])]
    exact .refl _
  | none =>
    rw [stateOf_stop hs h.keys_eq]
    exact leads_afterStop x

theorem Coherent.wasTaken_stop (h : Coherent g r) (s : Stop) (x : TaskId) :
    ((r.stop s).stateOf x).wasTaken = (r.stateOf x).wasTaken := by
  cases hs : r.stopped with
  | some old => rw [stop_of_stopped (by simp [hs])]
  | none =>
    rw [stateOf_stop hs h.keys_eq]
    exact wasTaken_afterStop x

theorem Coherent.running_stop (h : Coherent g r) (s : Stop) {x : TaskId} :
    (r.stop s).stateOf x = .running ↔ r.stateOf x = .running := by
  cases hs : r.stopped with
  | some old => rw [stop_of_stopped (by simp [hs])]
  | none =>
    rw [stateOf_stop hs h.keys_eq]
    exact afterStop_eq_running_iff

theorem Coherent.stateOf_failed (h : Coherent g r) (r' : Run) (hid : r.stateOf id ≠ .skipped)
    (hgraph : r'.graph = r.graph) (hstates : r'.states = r.states) (now : Instant)
    (diagnostic : String) :
    (fail now r' id diagnostic).stateOf = g.afterFailed r.stateOf id := by
  have hsame : r'.stateOf = r.stateOf := funext fun x => by rw [stateOf, stateOf, hstates]
  rw [stateOf_fail now (by rw [hstates]; exact mem_keys_of_stateOf hid), hgraph, h.graph_eq, hsame]

/-- What becomes of the states when a completion is taken in, apart from a stop that may follow. -/
structure Completed (r : Run) (id : TaskId) (r' : Run) : Prop where
  leads : ∀ x, (r.stateOf x).Leads (r'.stateOf x)
  running : ∀ {x}, r'.stateOf x = .running ↔ r.stateOf x = .running ∧ x ≠ id
  own : r'.stateOf id = .done ∨ r'.stateOf id = .failed
  wasTaken : ∀ x, (r'.stateOf x).wasTaken = (r.stateOf x).wasTaken

theorem Coherent.completed_fail (h : Coherent g r) (hid : r.stateOf id = .running) (r' : Run)
    (hgraph : r'.graph = r.graph) (hstates : r'.states = r.states) (now : Instant)
    (diagnostic : String) : Completed r id (fail now r' id diagnostic) := by
  have hskip : r.stateOf id ≠ .skipped := by simp [hid]
  have hstate := h.stateOf_failed r' hskip hgraph hstates now diagnostic
  refine ⟨fun x => ?_, fun {x} => ?_, ?_, fun x => ?_⟩
  · rw [hstate]
    exact leads_afterFailed (Or.inr hid) x
  · rw [hstate]
    exact Graph.afterFailed_eq_running_iff
  · rw [hstate]
    exact Or.inr Graph.afterFailed_self
  · rw [hstate]
    exact wasTaken_afterFailed hid x

theorem Completed.stop {r' : Run} (h : Completed r id r') (hc : Coherent g r') (s : Stop) :
    Completed r id (r'.stop s) := by
  refine ⟨fun x => (h.leads x).trans (hc.leads_stop s x), (hc.running_stop s).trans h.running, ?_,
    fun x => (hc.wasTaken_stop s x).trans (h.wasTaken x)⟩
  have hleads := hc.leads_stop s id
  rcases h.own with ho | ho
  · exact Or.inl ((hleads.eq_of_terminal (by simp [ho, TaskState.isTerminal])).trans ho)
  · exact Or.inr ((hleads.eq_of_terminal (by simp [ho, TaskState.isTerminal])).trans ho)

theorem Coherent.completed (hv : g.Valid) (h : Coherent g r) (hid : r.stateOf id = .running)
    (now : Instant) (c : Completion) : Completed r id (r.complete now id c) := by
  cases c with
  | succeeded outputs =>
    cases hw : r.context.writeAll id outputs.pairs with
    | mk context fault =>
      cases fault with
      | none =>
        rw [complete_written hw]
        have hstate := h.stateOf_written hv hid now context
        refine ⟨fun x => ?_, fun {x} => ?_, ?_, fun x => ?_⟩
        · rw [hstate]
          exact leads_afterDone hid x
        · rw [hstate]
          exact Graph.afterDone_eq_running_iff
        · rw [hstate]
          exact Or.inl Graph.afterDone_self
        · rw [hstate]
          exact wasTaken_afterDone hid x
      | some f =>
        rw [complete_taken hw]
        exact (h.completed_fail hid { r with inFlight := r.inFlight - 1, context := context } rfl rfl
          now f.message).stop (h.fail_running hv hid context now f.message) _
  | failed diagnostic fatal =>
    have hfail := h.completed_fail hid { r with inFlight := r.inFlight - 1 } rfl rfl now diagnostic
    rw [complete_failed]
    cases fatal with
    | false => exact hfail
    | true => exact hfail.stop (h.fail_running hv hid r.context now diagnostic) _

theorem Coherent.stateOf_dispatch_covered (hid : r.stateOf id = .ready) (now : Instant) {kind : Kind}
    (hc : r.covered kind = true) :
    (r.dispatch now id kind).1.stateOf = Function.update r.stateOf id .running := by
  rw [dispatch_covered hc]
  exact stateOf_setState (Or.inl (mem_keys_of_stateOf (r := r) (by simp [hid])))

theorem Coherent.stateOf_dispatch_uncovered (h : Coherent g r) (hid : r.stateOf id = .ready)
    (now : Instant) {kind : Kind} (hc : r.covered kind = false) :
    (r.dispatch now id kind).1.stateOf = g.afterFailed r.stateOf id := by
  rw [dispatch_uncovered hc]
  exact h.stateOf_failed { r with ready := r.ready.drop 1 } (by simp [hid]) rfl rfl now _

end Run

end Rollout
