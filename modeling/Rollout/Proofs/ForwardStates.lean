import Mathlib.Logic.Relation
import Rollout.Proofs.ContextWrites
import Rollout.Proofs.DependencySafety

/-! The state of each task is kept twice, by the coordination loop and by what it gathers for the report.
The two agree at every step, and nothing but the moves listed here ever happens to a task. -/

namespace Rollout

/-- The moves of a task, which fails out of the queue only if it is unhandled. -/
inductive TaskState.Next (unhandled : Prop) : TaskState → TaskState → Prop
  | unlocked : Next unhandled pending ready
  | started : Next unhandled ready running
  | done : Next unhandled running done
  | failed : Next unhandled running failed
  | refused (h : unhandled) : Next unhandled ready failed
  | dropped : Next unhandled pending skipped
  | passed : Next unhandled ready skipped

/-- What leads a task on without giving it its turn is one move at most. -/
theorem TaskState.Leads.next {s t : TaskState} {unhandled : Prop} (h : s.Leads t)
    (hw : t.wasTaken = s.wasTaken) : Relation.ReflGen (Next unhandled) s t := by
  cases s with
  | pending =>
    cases t with
    | pending => exact .refl
    | ready => exact .single .unlocked
    | skipped => exact .single .dropped
    | running | done | failed => cases hw
  | ready =>
    cases t with
    | pending => exact absurd rfl h
    | ready => exact .refl
    | skipped => exact .single .passed
    | running | done | failed => cases hw
  | running =>
    rcases h with rfl | rfl | rfl
    · exact .refl
    · exact .single .done
    · exact .single .failed
  | done | failed | skipped =>
    rw [show t = _ from h]

/-- Whether a task of a plan is of a kind that none of the handlers is for. -/
def Plan.Unhandled (p : Plan) (handlers : Registry) (id : TaskId) : Prop :=
  ∃ t ∈ p.tasks, t.id = id ∧ handlers.contains t.kind = false

namespace Run

def Unhandled (r : Run) (id : TaskId) : Prop := ∃ t, r.graph.task? id = some t ∧ r.covered t.kind = false

theorem Continues.unhandled {r r' : Run} (h : Continues r r') {id : TaskId} (hid : r'.Unhandled id) :
    r.Unhandled id := by
  rwa [Unhandled, h.graph, h.covered] at hid

end Run

namespace Loop

variable {g : Graph} {l l' : Loop} {limit : Nat} {actions : List Action} {a : Action} {r r' : Run}
  {x : TaskId} {unhandled : Prop}

/-- Stops and completions give no task its turn; the first task in the queue starts or is turned down. -/
theorem Moves.next (hv : g.Valid) (h : Run.Coherent g r) (m : Moves r a r')
    (hu : r.Unhandled x → unhandled) :
    Relation.ReflGen (TaskState.Next unhandled) (r.stateOf x) (r'.stateOf x) := by
  cases m with
  | still other => exact .refl
  | stop other why => exact (h.leads_stop _ x).next (h.wasTaken_stop _ x)
  | @turn _ id rest t now action first task =>
    have hid := (h.ready_head first).1
    cases hc : r.covered t.kind with
    | true =>
      rw [Run.Coherent.stateOf_dispatch_covered hid now hc]
      by_cases hx : x = id
      · rw [hx, Function.update_self, hid]
        exact .single .started
      · rw [Function.update_of_ne hx]
    | false =>
      rw [h.stateOf_dispatch_uncovered hid now hc]
      by_cases hx : x = id
      · subst x
        rw [Graph.afterFailed_self, hid]
        exact .single (.refused (hu ⟨t, task, hc⟩))
      by_cases hb : x ∈ g.downstream id ∧ r.stateOf x = .pending
      · rw [Graph.afterFailed_of_behind hx hb, hb.2]
        exact .single .dropped
      · rw [Graph.afterFailed_of_not_behind hx hb]
  | taken now c running =>
    have hdone := h.completed hv running now c
    exact (hdone.leads x).next (hdone.wasTaken x)

theorem Sound.forward_path (hv : g.Valid) (h : Sound g limit l) (path : Path l actions l')
    (hu : l.run.Unhandled x → unhandled) :
    Relation.ReflTransGen (TaskState.Next unhandled) (l.run.stateOf x) (l'.run.stateOf x) := by
  induction path with
  | refl => exact .refl
  | snoc path s ih =>
    have hbefore := h.path hv path
    have hsame := h.continues_path hv path
    have hnext := (hbefore.moves s).next hv hbefore.coherent fun hx => hu (hsame.unhandled hx)
    exact ih.trans hnext.to_reflTransGen

end Loop

namespace Run

/-- Both records of the states know the tasks of a graph and no others, and agree on each. To set the
state of such a task adds no key, even where setting is inserting. -/
structure Aligned (r : Run) (g : Graph) : Prop where
  shown : ∀ id, r.tally.stateOf? id = (r.states.find? id).map TaskState.shown
  keys_states : r.states.keys = g.ids
  keys_outcomes : r.tally.outcomes.keys = g.ids
  setState_eq : ∀ id ∈ g.ids, ∀ s, (r.setState id s).states = r.states.insert id s

variable {g : Graph} {r : Run}

theorem Coherent.aligned (hv : g.Valid) (h : Coherent g r) : r.Aligned g := by
  refine ⟨h.told.stateOf?, h.keys_states, h.keys_outcomes, fun id hid s => ?_⟩
  have hsorted : r.states.Sorted := hv.sorted.of_keys_eq h.keys_states
  exact (hsorted.insert_eq_modify (h.keys_states ▸ hid) s).symm

end Run

namespace Loop

variable {g : Graph} {l : Loop} {limit : Nat} {actions : List Action}

/-- A task that has its turn or is completed is in the graph, with those behind it. -/
theorem Sound.mem_ids_of_step (hv : g.Valid) (h : Sound g limit l) {id : TaskId} {l' : Loop}
    (s : Step l (.dispatch id) l' ∨ Step l (.refuse id) l' ∨ ∃ c, Step l (.handle id c) l') :
    ∀ x ∈ id :: (g.successors id ++ g.downstream id), x ∈ g.ids := by
  have hid : id ∈ g.ids := by
    apply h.coherent.mem_ids
    rcases s with s | s | ⟨c, s⟩
    · cases s with
      | dispatch now place notFull first task covered => simp [(h.coherent.ready_head first).1]
    · cases s with
      | refuse now place notFull first task uncovered => simp [(h.coherent.ready_head first).1]
    · cases s with
      | handle now place split => simp [h.mem_underway.mp (mem_underway_of_arrived split)]
  intro x hx
  rcases List.mem_cons.mp hx with rfl | hx
  · exact hid
  rcases List.mem_append.mp hx with hx | hx
  · exact (hv.before_mem_ids (.single hx)).2
  · exact (hv.before_mem_ids ((Graph.mem_downstream_iff hv).mp hx)).2

/-- The records of a run never drift apart: at every step they know the same tasks in the same states. One
step makes at most one move with each task, a run goes on from move to move, and what has ended stays as it is. -/
theorem records_aligned {p : Plan} (h : Graph.ofPlan p = .ok g) {runId : String} {handlers : Registry}
    {limits : Run.Limits} {now : Instant}
    (path : Path (start runId g handlers limits now) actions l) :
    g.ids.Perm p.ids ∧ l.run.Aligned g ∧
    (∀ id l', Step l (.dispatch id) l' ∨ Step l (.refuse id) l' ∨ (∃ c, Step l (.handle id c) l') →
      ∀ x ∈ id :: (g.successors id ++ g.downstream id), x ∈ g.ids) ∧
    ∀ id s, l.run.states.find? id = some s →
      (∀ a l', Step l a l' → ∃ s', l'.run.states.find? id = some s' ∧
        Relation.ReflGen (TaskState.Next (p.Unhandled handlers id)) s s') ∧
      ∀ more l', Path l more l' → ∃ s', l'.run.states.find? id = some s' ∧
        Relation.ReflTransGen (TaskState.Next (p.Unhandled handlers id)) s s' ∧
        (s.isTerminal = true → s' = s) := by
  have hv := Graph.valid_of_ofPlan h
  have hs := sound_of_path hv path
  have hc := hs.coherent
  refine ⟨Graph.ids_perm_of_ofPlan h, hc.aligned hv, fun id l' s => hs.mem_ids_of_step hv s,
    fun id s hid => ?_⟩
  have hmem := hc.mem_ids_of_find? hid
  obtain rfl := Run.stateOf_of_find? hid
  have hu : l.run.Unhandled id → p.Unhandled handlers id := by
    rintro ⟨t, htask, huncovered⟩
    have hsame := (sound_start hv runId handlers limits now).continues_path hv path
    rw [hc.graph_eq, Graph.task?_of_ofPlan h] at htask
    rw [hsame.covered] at huncovered
    exact ⟨t, htask.1, htask.2, huncovered⟩
  refine ⟨fun a l' step => ?_, fun more l' rest => ?_⟩
  · exact ⟨l'.run.stateOf id, (hs.step hv step).coherent.find?_states hmem,
      (hs.moves step).next hv hc hu⟩
  · exact ⟨l'.run.stateOf id, (hs.path hv rest).coherent.find?_states hmem,
      hs.forward_path hv rest hu, (hs.leads_path hv rest id).eq_of_terminal⟩

/-- The first task of the chain starts, which is one move. -/
theorem records_aligned_chain : ∃ l l', Path chain [.check] l ∧ Step l (.dispatch 1) l' ∧
    l.run.Aligned chain.run.graph ∧ l.run.states.find? 1 = some .ready ∧
    l.run.tally.stateOf? 1 = some .pending ∧ l'.run.states.find? 1 = some .running ∧
    Relation.ReflGen (TaskState.Next (chainPlan.Unhandled
      (Kind.all.map fun k => (k, fun _ _ => .done (.finished .empty))) 1)) .ready .running := by
  have path := Path.snoc (.refl chain) (.check rfl)
  obtain ⟨-, haligned, -, hmoves⟩ := records_aligned (p := chainPlan) rfl path
  refine ⟨_, _, path, .dispatch default rfl rfl rfl rfl rfl, haligned, rfl, rfl, rfl, ?_⟩
  obtain ⟨s', hs', hnext⟩ := (hmoves 1 .ready rfl).1 (.dispatch 1) _ (.dispatch default rfl rfl rfl rfl rfl)
  obtain rfl : .running = s' := Option.some.inj hs'
  exact hnext

end Loop

end Rollout
