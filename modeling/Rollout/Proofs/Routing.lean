import Rollout.Executor
import Rollout.Proofs.CrewRuns
import Rollout.Proofs.HandlerEffects
import Rollout.Proofs.SerialOrder

/-! Which handler a task gets. The kinds of payloads are shared out among the handlers in one way only, so that in
a run with the built-in handlers no task fails because nothing understands it. -/

namespace Rollout

open Procedure

/-- The payload was not one for its handler. -/
def Ending.Mismatched (e : Ending) : Prop := ∃ expected actual, e = .failed (.wrongPayload expected actual)

namespace Handler

variable {s : Settings} {p : Payload} {id : TaskId} {course : List Moment} {e : Ending}

theorem not_mismatched_of_runs (h : (builtin s p.kind.collaborator id p).Runs course e) : ¬ e.Mismatched := by
  rintro ⟨expected, actual, rfl⟩
  obtain ⟨r, hrun, he⟩ := runs_map_iff.mp h
  cases worked_of_runs hrun with
  | unresolved source failed => cases he
  | resolved looks resolves carried =>
    cases carried with
    | failed turn =>
      obtain ⟨fault, rfl⟩ := turn.client_of_error
      cases he
    | finished turn leaves => cases he

theorem runs_foreign_iff {collaborator : Collaborator} (h : collaborator ≠ p.kind.collaborator) :
    (builtin s collaborator id p).Runs course e ↔
      course = [] ∧ e = .failed (.wrongPayload collaborator.words p.kind) := by
  rw [builtin, work_eq_wrong s h]
  exact runs_done_iff

end Handler

namespace Executor

theorem eq_of_builtin {config : Config} {x : Executor} (h : builtin config = .ok x) :
    x.handlers = .builtin (settings config) := by
  rw [builtin, make] at h
  cases hc : checked config with
  | error f =>
    rw [hc] at h
    cases h
  | ok c =>
    rw [hc] at h
    obtain rfl := Except.ok.inj h
    rfl

/-- With the built-in handlers a plan is turned down only when it has no graph. -/
theorem prepare_builtin (s : Handler.Settings) (p : Plan) :
    prepare (.builtin s) p = (Graph.ofPlan p).mapError Fault.graph := by
  have hnone : p.kinds.find? (fun _ => !true) = none := List.find?_eq_none.mpr fun x _ => Bool.false_ne_true
  simp only [prepare, Registry.contains_builtin, hnone]
  cases Graph.ofPlan p <;> rfl

end Executor

namespace Registry

theorem ensures_matched (s : Handler.Settings) :
    (builtin s).Ensures (fun _ _ _ => True) fun _ _ e => ¬ e.Mismatched := by
  intro k handler hk id p hp
  obtain rfl := Option.some.inj ((get?_builtin s k).symm.trans hk)
  subst hp
  exact Keeps.ensures ⟨fun _ _ _ _ _ _ => trivial, fun _ _ hrun => Handler.not_mismatched_of_runs hrun⟩

end Registry

namespace Crew

section Routed

variable {p : Plan} {g : Graph} (h : Graph.ofPlan p = .ok g) {runId : String} {s : Handler.Settings}
  {limits : Run.Limits} {now : Instant} {deeds : List Deed} {c : Crew}
  (path : Path (start runId g (Registry.builtin s) limits now) deeds c) {id : TaskId}
include h path

theorem not_mismatched_of_ended {e : Ending} (he : .ended id e ∈ actions deeds) : ¬ e.Mismatched := by
  have hv := Graph.valid_of_ofPlan h
  have hl := Loop.ledger_of_path hv path.loop
  have hreported := List.mem_map_of_mem (f := Prod.fst) (Loop.mem_reported_iff.mpr ⟨e, he, rfl⟩)
  have hd := ((Loop.account_of_path hv path.loop).dispatched_perm hl).mem_iff.mpr (List.mem_append_left _ hreported)
  have hwas := hl.wasTaken id (List.mem_append_left _ hd)
  have hid : id ∈ g.ids := (Loop.sound_of_path hv path.loop).coherent.mem_ids fun hskipped => by
    rw [hskipped] at hwas
    cases hwas
  obtain ⟨t, ht⟩ := Graph.mem_ids_iff.mp hid
  rcases (follows_of_path hv (Registry.ensures_matched s) path ht).ended he with hended | ⟨message, rfl⟩
  · exact hended
  · rintro ⟨expected, actual, hpanic⟩
    cases hpanic

theorem settled_of_failed (hfailed : c.loop.run.states.find? id = some .failed) :
    ∃ e, .ended id e ∈ actions deeds ∧ c.loop.run.Settled id e.completion := by
  have hv := Graph.valid_of_ofPlan h
  have hstate := Run.stateOf_of_find? hfailed
  have hd := Loop.mem_dispatched_of_path h (fun t _ => Registry.contains_builtin s t.kind) path.loop
    (x := id) (by simp [hstate, TaskState.wasTaken])
  exact (Loop.account_of_path hv path.loop).settled_of_dispatched (Loop.sound_of_path hv path.loop)
    (Loop.ledger_of_path hv path.loop) hd (by simp [hstate])

end Routed

end Crew

/-- Each kind of payload has a handler. A handler takes the payloads of all kinds that its collaborator serves, and
rejects every other one at once. So no task of a run with the built-in handlers is refused, and each that fails
fails of what its handler ended with, which was no mismatch. -/
theorem Executor.never_mismatches :
    (∀ (s : Handler.Settings) (p : Payload) (k : Kind), ∃ handler, (Registry.builtin s).get? k = some handler ∧
      (k.collaborator = p.kind.collaborator → ∀ id course e, (handler id p).Runs course e → ¬ e.Mismatched) ∧
      (k.collaborator ≠ p.kind.collaborator → ∀ id course e, (handler id p).Runs course e ↔
        course = [] ∧ e = .failed (.wrongPayload k.collaborator.words p.kind))) ∧
    ∀ config x, Executor.builtin config = .ok x → ∀ p,
      Executor.prepare x.handlers p = (Graph.ofPlan p).mapError Executor.Fault.graph ∧
      ∀ g, Graph.ofPlan p = .ok g → ∀ runId now deeds c,
        Crew.Path (.start runId g x.handlers (Executor.limits x.config) now) deeds c →
        (∀ id, .refuse id ∉ Crew.actions deeds) ∧
        (∀ id e, .ended id e ∈ Crew.actions deeds → ¬ e.Mismatched) ∧
        ∀ id, c.loop.run.states.find? id = some .failed →
          ∃ e, .ended id e ∈ Crew.actions deeds ∧ c.loop.run.Settled id e.completion := by
  refine ⟨fun s p k => ⟨_, Registry.get?_builtin s k, fun hsame id course e hrun => ?_, fun hne id course e =>
    Handler.runs_foreign_iff hne⟩, fun config x hx p => ⟨?_, fun g hg runId now deeds c path => ?_⟩⟩
  · rw [hsame] at hrun
    exact Handler.not_mismatched_of_runs hrun
  · rw [eq_of_builtin hx]
    exact prepare_builtin (settings config) p
  · rw [Executor.eq_of_builtin hx] at path
    exact ⟨Loop.not_refused_of_path hg (fun t _ => Registry.contains_builtin _ t.kind) path.loop, fun id e => Crew.not_mismatched_of_ended hg path,
      fun id => Crew.settled_of_failed hg path⟩

/-- A namespace that the cluster does not take. -/
def soloPlan : Plan := ⟨"solo", [⟨1, .createNamespace "blue", [], []⟩]⟩

def soloConfig : Config := ⟨1, ⟨3, .immediate, false⟩, none, ⟨500, 2⟩⟩

def soloFault : Client.Fault := .rejected "create_namespace" "no quota"

theorem path_solo : ∃ deeds c,
    Crew.Path (.start "run" (.index "solo" (Graph.taskTable soloPlan)) (.builtin (Executor.settings soloConfig))
      (Executor.limits soloConfig) default) deeds c ∧
    .ended 1 (.failed (.client soloFault)) ∈ Crew.actions deeds ∧
    c.loop.run.states.find? 1 = some .failed := by
  have hcalling : (soloConfig.retry.calling (.createNamespace "blue")).Runs
      [.asked (.createNamespace "blue") (.error soloFault)] (.error (.client soloFault)) :=
    RetryPolicy.runs_calling.mpr ⟨fun _ => .error soloFault, rfl, rfl⟩
  have hrun : (Handler.builtin (Executor.settings soloConfig) .cluster 1 (.createNamespace "blue")).Runs
      [.asked (.createNamespace "blue") (.error soloFault)] (.failed (.client soloFault)) :=
    runs_map_iff.mpr ⟨_, runs_andThen_iff.mpr (Or.inr ⟨_, hcalling, rfl⟩), rfl⟩
  obtain ⟨next, hcall, hrest⟩ := hrun.exists_call
  have hdone := hrest.eq_done
  have h₁ := (Crew.Path.refl (.start "run" (.index "solo" (Graph.taskTable soloPlan))
    (.builtin (Executor.settings soloConfig)) (Executor.limits soloConfig) default)).snoc
    (.other (.check rfl) nofun nofun)
  have h₂ := h₁.snoc (d := .loop (.dispatch 1)) (.called (.dispatch default rfl rfl rfl rfl rfl) rfl rfl)
  have h₃ := h₂.asked List.mem_cons_self hcall (.error soloFault)
  have h₄ := h₃.snoc (.other (.wait rfl rfl rfl) nofun nofun)
  have h₅ := h₄.snoc (.ended (.ended _ List.mem_cons_self) (Or.inl hdone))
  have h₆ := h₅.snoc (.other (.handle default rfl (List.nil_append _).symm) nofun nofun)
  refine ⟨_, _, h₆, ?_, rfl⟩
  simp [Crew.actions, Crew.Deed.action?]

theorem Executor.never_mismatches_solo : ∃ x g deeds c, Executor.builtin soloConfig = .ok x ∧
    Executor.prepare x.handlers soloPlan = .ok g ∧
    Crew.Path (.start "run" g x.handlers (Executor.limits x.config) default) deeds c ∧
    c.loop.run.states.find? 1 = some .failed ∧ ∃ e, .ended 1 e ∈ Crew.actions deeds ∧ ¬ e.Mismatched ∧
      c.loop.run.Settled 1 e.completion := by
  obtain ⟨deeds, c, path, -, hfailed⟩ := path_solo
  obtain ⟨hprepare, hruns⟩ := never_mismatches.2 soloConfig _ rfl soloPlan
  obtain ⟨-, hmatched, hsettled⟩ := hruns _ rfl "run" default deeds c path
  obtain ⟨e, he, hse⟩ := hsettled 1 hfailed
  exact ⟨_, _, deeds, c, rfl, hprepare.trans rfl, path, hfailed, e, he, hmatched 1 e he, hse⟩

end Rollout
