import Rollout.Executor
import Rollout.Proofs.EventLog
import Rollout.Proofs.SerialOrder

/-! Which plans are started. A plan without a graph or with a kind that has no handler is turned down and leaves
no trace; in a run of any other plan no task is refused. -/

namespace Rollout

namespace Plan

/-- The first task of a kind stands for all tasks of that kind, so the first kind of a sort leads to the first
task of that sort. -/
theorem find?_kinds {q : Kind → Bool} {r : Kind × TaskId → Bool} (hr : ∀ k id, r (k, id) = q k) (p : Plan) :
    p.kinds.find? r = (p.tasks.find? (q ·.kind)).map fun t => (t.kind, t.id) := by
  have hfold : ∀ (tasks : List Task) (seen : List (Kind × TaskId)),
      (tasks.foldl (fun seen t => if seen.any (·.1 = t.kind) then seen else seen ++ [(t.kind, t.id)])
        seen).find? r =
      (seen.find? r).or ((tasks.find? (q ·.kind)).map fun t => (t.kind, t.id)) := by
    intro tasks
    induction tasks with
    | nil => intro seen; simp
    | cons t tasks ih =>
      intro seen
      rw [List.foldl_cons, ih, List.find?_cons]
      split_ifs with hseen
      · cases hq : q t.kind with
        | false => rfl
        | true =>
          -- an earlier task of the same kind is found before this one
          obtain ⟨⟨k, id⟩, hs, hkind⟩ := List.any_eq_true.mp hseen
          have hsome : (seen.find? r).isSome := by
            rw [List.find?_isSome]
            obtain rfl : k = t.kind := of_decide_eq_true hkind
            exact ⟨_, hs, (hr _ id).trans hq⟩
          obtain ⟨x, hx⟩ := Option.isSome_iff_exists.mp hsome
          rw [hx]
          rfl
      · rw [List.find?_append, Option.or_assoc]
        cases hq : q t.kind <;> simp [hr, hq]
  simpa [kinds] using hfold p.tasks []

end Plan

namespace Executor

/-- How a plan is prepared: without a graph it is at fault itself, and otherwise the first of its tasks that has
no handler is named. -/
structure Prepares (handlers : Registry) (p : Plan) (r : Except Fault Graph) : Prop where
  noGraph : ∀ f, Graph.ofPlan p = .error f → r = .error (.graph f)
  uncovered : ∀ g before t after, Graph.ofPlan p = .ok g → p.tasks = before ++ t :: after →
    (∀ u ∈ before, handlers.contains u.kind = true) → handlers.contains t.kind = false →
    r = .error (.noHandler t.kind t.id)
  covered : ∀ g, Graph.ofPlan p = .ok g → (∀ t ∈ p.tasks, handlers.contains t.kind = true) → r = .ok g

variable {handlers : Registry} {p : Plan} {g : Graph} {f : Fault}

theorem prepare_of_graph (h : Graph.ofPlan p = .ok g) :
    prepare handlers p = ((p.tasks.find? fun t => !handlers.contains t.kind).elim (.ok g)
      fun t => .error (.noHandler t.kind t.id)) := by
  rw [prepare, h, Plan.find?_kinds (q := fun k => !handlers.contains k) fun k id => rfl]
  cases p.tasks.find? fun t => !handlers.contains t.kind <;> rfl

theorem prepares_prepare (handlers : Registry) (p : Plan) : Prepares handlers p (prepare handlers p) := by
  refine ⟨fun f hf => ?_, fun g before t after hg hp hbefore ht => ?_, fun g hg hall => ?_⟩
  · rw [prepare, hf]
  · have hnone : (before.find? fun u => !handlers.contains u.kind) = none :=
      List.find?_eq_none.mpr fun u hu => by simp [hbefore u hu]
    have hfirst : (p.tasks.find? fun t => !handlers.contains t.kind) = some t := by
      rw [hp, List.find?_append, hnone, Option.none_or, List.find?_cons_of_pos (by simp [ht])]
    rw [prepare_of_graph hg, hfirst]
    rfl
  · have hnone : (p.tasks.find? fun t => !handlers.contains t.kind) = none :=
      List.find?_eq_none.mpr fun t ht => by simp [hall t ht]
    rw [prepare_of_graph hg, hnone]
    rfl

theorem graph_of_prepare (h : prepare handlers p = .ok g) :
    Graph.ofPlan p = .ok g ∧ ∀ t ∈ p.tasks, handlers.contains t.kind = true := by
  cases hg : Graph.ofPlan p with
  | error f =>
    rw [(prepares_prepare handlers p).noGraph f hg] at h
    cases h
  | ok g' =>
    rw [prepare_of_graph hg] at h
    cases hfirst : p.tasks.find? fun t => !handlers.contains t.kind with
    | some t =>
      rw [hfirst] at h
      cases h
    | none =>
      rw [hfirst] at h
      obtain rfl := Except.ok.inj h
      exact ⟨rfl, fun t ht => by simpa using List.find?_eq_none.mp hfirst t ht⟩

theorem answer_of_error {x : Executor} (h : prepare x.handlers p = .error f) (runId : String)
    (around : Surroundings) (caller : List Worker) :
    x.answer runId p around caller = ⟨.error f, [], around⟩ := by
  have hexecute : x.execute runId p around caller = .error f := by rw [execute, h]
  rw [answer, hexecute]

/-- Observers are told of the start of a plan that is executed. -/
theorem answer_of_ok {x : Executor} (h : prepare x.handlers p = .ok g) (runId : String)
    (around : Surroundings) {caller : List Worker} (hcaller : ∀ w ∈ caller, w.id = none) :
    ∃ report told, (x.answer runId p around caller).result = .ok report ∧
      (x.answer runId p around caller).events = .runStarted runId p.name p.tasks.length :: told := by
  obtain ⟨hg, -⟩ := graph_of_prepare h
  have hv := Graph.valid_of_ofPlan hg
  have hexecute : x.execute runId p around caller =
      .ok (Timeline.start runId g x.handlers (limits x.config) around caller).play := by
    rw [execute, h]
  obtain ⟨turn, calls, rest, deeds, path, -⟩ := Timeline.reaches_turns hv hcaller runId x.handlers
    (limits x.config) around Timeline.patience
  obtain ⟨told, hopen, -⟩ := (Loop.chronicled_of_path hv path.loop).opening
  rw [Loop.runId_of_path hv path.loop] at hopen
  rw [answer, hexecute]
  generalize hr : (Timeline.start runId g x.handlers (limits x.config) around caller).play = r
  have hevents : r.events =
      .runStarted runId g.name g.size :: (told ++ [.runFinished r.report.runId r.report.status]) := by
    rw [← List.cons_append, ← hopen, ← hr]
    rfl
  refine ⟨r.report, told ++ [.runFinished r.report.runId r.report.status], rfl, ?_⟩
  rw [← (Graph.holds_of_ofPlan hg).name_eq, ← Graph.size_of_ofPlan hg]
  exact hevents

/-- A plan that is turned down is named a fault, tells nothing and leaves what is around it as it was. In every
run of a plan that is not, each task that does not wait and was not skipped was started with a handler. -/
theorem turns_down_or_covers (x : Executor) (p : Plan) :
    Prepares x.handlers p (prepare x.handlers p) ∧
    (∀ f, prepare x.handlers p = .error f → ∀ runId around caller,
      x.answer runId p around caller = ⟨.error f, [], around⟩) ∧
    ∀ g, prepare x.handlers p = .ok g →
      (∀ runId around caller, (∀ w ∈ caller, w.id = none) →
        ∃ report told, (x.answer runId p around caller).result = .ok report ∧
          (x.answer runId p around caller).events = .runStarted runId p.name p.tasks.length :: told) ∧
      ∀ runId limits now actions l, Loop.Path (.start runId g x.handlers limits now) actions l →
        (∀ id, .refuse id ∉ actions) ∧
        ∀ id, (l.run.stateOf id).wasTaken = true → id ∈ Loop.dispatched actions := by
  refine ⟨prepares_prepare x.handlers p, fun f hf runId around caller => answer_of_error hf runId around caller,
    fun g hg => ⟨fun runId around caller hcaller => answer_of_ok hg runId around hcaller, ?_⟩⟩
  intro runId limits now actions l path
  obtain ⟨hgraph, hall⟩ := graph_of_prepare hg
  exact ⟨Loop.not_refused_of_path hgraph hall path, fun id => Loop.mem_dispatched_of_path hgraph hall path⟩

/-- Two databases to drop, the one with the greater id first, behind a namespace. -/
def cleanupPlan : Plan :=
  ⟨"cleanup", [⟨3, .createNamespace "blue", [], []⟩, ⟨7, .dropDatabase "orders" [], [], []⟩,
    ⟨5, .dropDatabase "users" [], [], []⟩]⟩

/-- Whatever is given to it succeeds at once. -/
def obliging (kinds : List Kind) : Executor :=
  ⟨kinds.map fun k => (k, fun _ _ => .done (.finished .empty)), .standard⟩

theorem turns_down_or_covers_cleanup :
    (∃ f, prepare (obliging [.createNamespace]).handlers cleanupPlan = .error f ∧
      f = .noHandler .dropDatabase 7 ∧
      (obliging [.createNamespace]).answer "run" cleanupPlan (.start .start) [] =
        ⟨.error f, [], .start .start⟩) ∧
    ∃ g actions l, prepare (obliging Kind.all).handlers Loop.chainPlan = .ok g ∧
      Loop.Path (.start "run" g (obliging Kind.all).handlers ⟨0, none⟩ default) actions l ∧
      (l.run.stateOf 1).wasTaken = true ∧ 1 ∈ Loop.dispatched actions ∧ ∀ id, .refuse id ∉ actions := by
  have hfault : prepare (obliging [.createNamespace]).handlers cleanupPlan = .error (.noHandler .dropDatabase 7) :=
    rfl
  obtain ⟨-, hdown, -⟩ := turns_down_or_covers (obliging [.createNamespace]) cleanupPlan
  obtain ⟨-, -, hcovers⟩ := turns_down_or_covers (obliging Kind.all) Loop.chainPlan
  have hgraph : prepare (obliging Kind.all).handlers Loop.chainPlan =
      .ok (.index "chain" (Graph.taskTable Loop.chainPlan)) := rfl
  obtain ⟨l, path, -, -, hstates⟩ := Loop.path_chain
  have htaken : (l.run.stateOf 1).wasTaken = true := by
    rw [Run.stateOf, Table.find?, hstates]
    rfl
  obtain ⟨-, hruns⟩ := hcovers _ hgraph
  obtain ⟨hnever, hstarted⟩ := hruns "run" ⟨0, none⟩ default _ l path
  exact ⟨⟨_, hfault, rfl, hdown _ hfault "run" (.start .start) []⟩,
    _, _, l, hgraph, path, htaken, hstarted 1 htaken, hnever⟩

end Executor

end Rollout
