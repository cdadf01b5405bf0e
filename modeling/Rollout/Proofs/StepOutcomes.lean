import Rollout.Proofs.HandlerSteps

/-! What the steps of a task come to. An instance is created and deleted in two steps, the second of which follows
only if the first succeeded, and a task leaves something only if it succeeded as a whole. -/

namespace Rollout

open Procedure
open Handler (InTurn Step)

/-- The two calls by which an instance is created or deleted. -/
def Payload.stages? : Payload → Option (Call × Call)
  | createInstance scope i deployment service _ =>
    some (.createDeployment scope (Handler.Cluster.objectName deployment i) deployment,
      .createService scope (Handler.Cluster.objectName service i) service)
  | deleteInstance scope _ deployment service =>
    some (.deleteDeployment scope deployment, .deleteService scope service)
  | _ => none

namespace Handler

/-- A manifest names its object by a string in its metadata; else the instance does. -/
def Cluster.Names (manifest : Json) (i : Instance) (name : String) : Prop :=
  (∃ metadata, manifest.member? "metadata" = some metadata ∧ metadata.member? "name" = some (.string name)) ∨
    (∀ metadata own, manifest.member? "metadata" = some metadata → metadata.member? "name" ≠ some (.string own)) ∧
      name = i.component ++ "-" ++ i.id

/-- How a task goes that makes one call and then another. -/
structure Staged (first second : Call) (course : List Moment) (r : Except TaskFault Outputs) : Prop where
  only : ∀ c answer, .asked c answer ∈ course → c = first ∨ c = second
  /-- The second call waits for the first to succeed. -/
  ordered : ∀ before answer after, course = before ++ .asked second answer :: after →
    (∃ reply, .asked first (.ok reply) ∈ before) ∧ Asking second after
  /-- The call that fails is the last one, and the fault of its last attempt is that of the task. -/
  failed : ∀ f, r = .error f → ∃ before c fault, course = before ++ [.asked c (.error fault)] ∧
    f = .client (fault.afterAttempts (tally c.operation course))
  finished : ∀ o, r = .ok o → (∃ reply, .asked first (.ok reply) ∈ course) ∧
    ∃ before reply, course = before ++ [.asked second (.ok reply)]

variable {s : Settings} {p : Payload} {course : List Moment} {first second : Call} {collaborator : Collaborator}
  {r : Except TaskFault Outputs}

theorem Cluster.manifestName?_eq_some_iff {manifest : Json} {name : String} :
    manifestName? manifest = some name ↔ ∃ metadata, manifest.member? "metadata" = some metadata ∧
      metadata.member? "name" = some (.string name) := by
  have hstring : ∀ v : Json, v.string? = some name ↔ v = .string name := fun v => by
    cases v <;> simp [Json.string?]
  simp [manifestName?, Option.bind_eq_some_iff, hstring]

theorem Cluster.names_objectName (manifest : Json) (i : Instance) : Names manifest i (objectName manifest i) := by
  cases h : manifestName? manifest with
  | some name =>
    rw [objectName, h]
    exact Or.inl (manifestName?_eq_some_iff.mp h)
  | none =>
    rw [objectName, h]
    refine Or.inr ⟨fun metadata own hmetadata hown => ?_, rfl⟩
    cases h.symm.trans (manifestName?_eq_some_iff.mpr ⟨metadata, hmetadata, hown⟩)

theorem staged_of_failed {f : TaskFault} (hne : first.operation ≠ second.operation)
    (ran : ((Step.make first).doing s).Runs course (.error f)) : Staged first second course (.error f) := by
  have hasking := Step.asking ran
  refine ⟨fun c answer hm => Or.inl (hasking _ hm).eq, fun before answer after hsplit => ?_, fun f' hf' => ?_,
    fun o ho => by cases ho⟩
  · have hm : .asked second answer ∈ course := hsplit ▸ List.mem_append_right _ List.mem_cons_self
    exact absurd (congrArg _ (hasking _ hm).eq.symm) hne
  · obtain rfl := Except.error.inj hf'
    obtain ⟨before, fault, hcourse, hf⟩ := fault_of_make ran
    exact ⟨before, first, fault, hcourse, hf⟩

theorem staged_of_begun {begun later : List Moment} (hne : first.operation ≠ second.operation)
    (ran : ((Step.make first).doing s).Runs begun (.ok ()))
    (rest : ((Step.make second).doing s).Runs later (r.map fun _ => ())) :
    Staged first second (begun ++ later) r := by
  have hfirst := Step.asking ran
  have hsecond := Step.asking rest
  obtain ⟨reply, hdone⟩ := Step.served ran
  refine ⟨fun c answer hm => ?_, fun before answer after hsplit => ?_, fun f hf => ?_, fun o ho => ?_⟩
  · exact (List.mem_append.mp hm).imp (fun hm => (hfirst _ hm).eq) fun hm => (hsecond _ hm).eq
  · obtain ⟨mid, rfl, rfl⟩ := exists_of_append_eq hsplit fun hm => hne (congrArg _ (hfirst _ hm).eq.symm)
    exact ⟨⟨reply, List.mem_append_left _ hdone⟩, fun x hx =>
      hsecond x (List.mem_append_right _ (List.mem_cons_of_mem _ hx))⟩
  · subst hf
    obtain ⟨before, fault, hlater, hf⟩ := fault_of_make rest
    refine ⟨begun ++ before, second, fault, by rw [hlater, List.append_assoc], ?_⟩
    rw [hf, tally_append, tally_eq_zero hfirst hne, Nat.zero_add]
  · subst ho
    obtain ⟨before, last, hlater, -⟩ := reply_of_make rest
    exact ⟨⟨reply, List.mem_append_left _ hdone⟩, begun ++ before, last, by rw [hlater, List.append_assoc]⟩

theorem staged_of_turn (hne : first.operation ≠ second.operation)
    (turn : InTurn s [.make first, .make second] course (r.map fun _ => ())) : Staged first second course r := by
  generalize hr : (r.map fun _ => ()) = outcome at turn
  cases turn with
  | cons ran rest =>
    subst hr
    exact staged_of_begun hne ran rest.single
  | failed ran =>
    obtain rfl := error_of_map hr
    exact staged_of_failed hne ran

theorem stages_spec (h : p.stages? = some (first, second)) : p.source = .fixed "" ∧
    (∀ address, p.steps address = [.make first, .make second]) ∧ first.operation ≠ second.operation := by
  cases p with
  | createInstance | deleteInstance =>
    obtain ⟨rfl, rfl⟩ := Prod.mk.inj (Option.some.inj h)
    exact ⟨rfl, fun address => rfl, fun he => by simp [Call.operation] at he⟩
  | _ => cases h

theorem Worked.staged (h : Worked s p course r) (hstages : p.stages? = some (first, second)) :
    Staged first second course r := by
  obtain ⟨hsource, hsteps, hne⟩ := stages_spec hstages
  cases h with
  | unresolved source failed => cases source.symm.trans hsource
  | resolved looks resolves carried =>
    rw [hsource] at resolves
    cases resolves
    exact staged_of_turn hne (hsteps "" ▸ carried.turn)

/-- An instance is created and deleted step by step: its service is called for only after its deployment was
answered well, a step that fails is the last one and its fault that of the task, and the task succeeds only if both
steps did. Objects are named by their manifests, or else by the instance. A task leaves the address of the service
that it created last if it has a key for it, and otherwise nothing. -/
theorem outcome_of_runs (run : (work s collaborator p).Runs course r) :
    (collaborator = p.kind.collaborator → ∀ first second, p.stages? = some (first, second) →
      Staged first second course r) ∧
    (∀ scope i deployment service key, p = .createInstance scope i deployment service key →
      ∀ c answer, .asked c answer ∈ course →
        (∃ name, Cluster.Names deployment i name ∧ c = .createDeployment scope name deployment) ∨
          ∃ name, Cluster.Names service i name ∧ c = .createService scope name service) ∧
    ∀ o, r = .ok o → Leaves p.leaves? course o := by
  by_cases hsame : collaborator = p.kind.collaborator
  · subst hsame
    have h := worked_of_runs run
    refine ⟨fun _ first second hstages => h.staged hstages, ?_, ?_⟩
    · rintro scope i deployment service key rfl c answer hm
      exact ((h.staged rfl).only c answer hm).imp
        (fun hc => ⟨_, Cluster.names_objectName deployment i, hc⟩)
        fun hc => ⟨_, Cluster.names_objectName service i, hc⟩
    · rintro o rfl
      exact h.leaves
  · rw [work_eq_wrong s hsame, wrong] at run
    obtain ⟨rfl, rfl⟩ := runs_done_iff.mp run
    exact ⟨fun h => absurd h hsame, fun _ _ _ _ _ _ _ _ hm => absurd hm List.not_mem_nil,
      fun o ho => by cases ho⟩

/-- An instance whose deployment is named by its manifest and created at the second attempt. -/
theorem outcome_of_renamed :
    let manifest := Json.object [("metadata", .object [("name", .string "front")])]
    let deploy := Call.createDeployment "blue" "front" manifest
    let expose := Call.createService "blue" "web-1" .null
    let p := Payload.createInstance "blue" ⟨"shop", "web", "1"⟩ manifest .null (some "web")
    let course : List Moment := [.asked deploy (.error (.unavailable "create" "busy")), .waited 0,
      .asked deploy (.ok ()), .asked expose (.ok "10.0.0.7")]
    (work ⟨⟨3, .immediate, false⟩, ⟨500, 2⟩⟩ .cluster p).Runs course
        (.ok (Table.empty.insert "web" (.string "10.0.0.7"))) ∧
      Staged deploy expose course (.ok (Table.empty.insert "web" (.string "10.0.0.7"))) ∧
      Leaves (some "web") course (Table.empty.insert "web" (.string "10.0.0.7")) := by
  intro manifest deploy expose p course
  let retry : RetryPolicy := ⟨3, .immediate, false⟩
  have hdeploy : (retry.calling deploy).Runs (course.take 3) (.ok ()) := RetryPolicy.runs_calling.mpr
    ⟨fun n => if n = 1 then .error (.unavailable "create" "busy") else .ok (), rfl, rfl⟩
  have hexpose : (retry.calling expose).Runs (course.drop 3) (.ok "10.0.0.7") :=
    RetryPolicy.runs_calling.mpr ⟨fun _ => .ok "10.0.0.7", rfl, rfl⟩
  have run : (work ⟨retry, ⟨500, 2⟩⟩ .cluster p).Runs course
      (.ok (Table.empty.insert "web" (.string "10.0.0.7"))) :=
    runs_andThen_iff.mpr (Or.inl ⟨_, _, _, rfl, hdeploy, runs_andThen_iff.mpr
      (Or.inl ⟨_, _, _, (List.append_nil _).symm, hexpose, .done _⟩)⟩)
  obtain ⟨hstaged, -, hleaves⟩ := outcome_of_runs run
  exact ⟨run, hstaged rfl deploy expose rfl, hleaves _ rfl⟩

end Handler

end Rollout
