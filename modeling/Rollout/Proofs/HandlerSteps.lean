import Rollout.Handler.Registry
import Rollout.Proofs.Polls

/-! What the built-in handlers do for a task, step by step: they settle on an address if one is announced, wait for
instances and then make calls, one after the other and up to the first step that fails. -/

namespace Rollout

open Procedure

/-- What a handler says that it serves when it rejects a payload. -/
def Collaborator.words : Collaborator → String
  | cluster => "cluster"
  | middlewareAgent => "middleware agent"
  | clientController => "client controller"
  | databaseAdmin => "database admin"
  | knowledgeStore => "knowledge store"

namespace Handler

/-- What a task does in turn: it waits until an instance has come far enough, or makes a call. -/
inductive Step
  | reach (i : Instance) (required : Phase)
  | make (c : Call)

namespace Step

/-- The call that a step makes over and over. -/
def call : Step → Call
  | reach i _ => .ping i
  | make c => c

/-- What a step does, and whether it succeeds. -/
def doing (s : Settings) : Step → Procedure (Except TaskFault Unit)
  | reach i required => (s.wait.waitFor i required).map (Except.map fun _ => ())
  | make c => (s.retry.calling c).map (Except.map fun _ => ())

/-- What a step was answered if it succeeded. -/
def Served (course : List Moment) : Step → Prop
  | reach i required => ∃ phase, .asked (.ping i) (.ok phase) ∈ course ∧ phase.reaches required = true
  | make c => ∃ reply, .asked c (.ok reply) ∈ course

end Step

/-- Steps one after the other, up to the first that fails. -/
inductive InTurn (s : Settings) : List Step → List Moment → Except TaskFault Unit → Prop
  | nil : InTurn s [] [] (.ok ())
  | cons {step : Step} {steps : List Step} {first later : List Moment} {r : Except TaskFault Unit}
      (ran : (step.doing s).Runs first (.ok ())) (rest : InTurn s steps later r) :
      InTurn s (step :: steps) (first ++ later) r
  | failed {step : Step} {steps : List Step} {course : List Moment} {f : TaskFault}
      (ran : (step.doing s).Runs course (.error f)) : InTurn s (step :: steps) course (.error f)

end Handler

open Handler (Step InTurn)

/-- What is looked up for an address. -/
inductive Address.Resolves : Address → List Moment → String → Prop
  | fixed (address : String) : Resolves (.fixed address) [] address
  | read {key : String} {value : Json} {address : String}
      (decoded : Context.decode key (fun _ => Doc.readString) value = .ok address) :
      Resolves (.fromContext key) [.looked key (.ok value)] address

namespace Payload

/-- The key under which a task leaves the address of the service that it creates. -/
def leaves? : Payload → Option String
  | createService _ _ _ key | createInstance _ _ _ _ key => key
  | _ => none

/-- The address that a task announces. Tasks that announce none may as well announce an empty one. -/
def source : Payload → Address
  | setDependencyAddress _ _ _ a | setClientDependency _ _ _ _ _ a => a
  | _ => .fixed ""

/-- What a task waits for before it makes its calls. -/
def waits : Payload → List (Instance × Phase)
  | setDependencyAddress i _ provider _ => provider.toList.map (·, .ready) ++ [(i, .init)]
  | initializeInstance i _ _ _ | finalizeInstance i | setStatefulnessParameters i _ _ => [(i, .init)]
  | setClientDependency _ _ _ _ provider _ => provider.toList.map (·, .ready)
  | _ => []

/-- The calls that a task makes once it has waited. -/
def calls (address : String) : Payload → List Call
  | createNamespace scope => [.createNamespace scope]
  | deleteNamespace scope => [.deleteNamespace scope]
  | createDeployment scope name manifest => [.createDeployment scope name manifest]
  | updateDeployment scope name manifest => [.updateDeployment scope name manifest]
  | deleteDeployment scope name => [.deleteDeployment scope name]
  | createService scope name manifest _ => [.createService scope name manifest]
  | deleteService scope name => [.deleteService scope name]
  | createSecret scope name data => [.createSecret scope name data]
  | deleteSecret scope name => [.deleteSecret scope name]
  | createInstance scope i deployment service _ =>
    [.createDeployment scope (Handler.Cluster.objectName deployment i) deployment,
      .createService scope (Handler.Cluster.objectName service i) service]
  | deleteInstance scope _ deployment service =>
    [.deleteDeployment scope deployment, .deleteService scope service]
  | setDependencyAddress i dependency _ _ => [.setDependencyAddress i dependency address]
  | initializeInstance i runCount accessToken production =>
    [.initializeInstance i ⟨i.id, runCount, accessToken, production⟩]
  | finalizeInstance i => [.finalizeExecution i]
  | setStatefulnessParameters i shardKey routerAddress =>
    [.setStatefulnessParameters i shardKey routerAddress]
  | setClientDependency application clientType clientId dependency _ _ =>
    [.setClientDependency ⟨application, clientType, clientId, dependency, address⟩]
  | disconnectApplicationClients application => [.disconnectApplication application]
  | shardCollection database collection => [.shardCollection database collection]
  | moveChunk database collection key shard => [.moveChunk database collection key shard]
  | dropDatabase database collections => [.dropDatabase database collections]
  | addAppRecord application => [.addAppRecord application]
  | deleteAppRecord application => [.deleteAppRecord application]
  | registerApplication application descriptor => [.registerApplication application descriptor]
  | createInstanceRecord i node => [.createInstanceRecord i node]
  | deleteInstanceRecord i => [.deleteInstanceRecord i]
  | initializeScheduledJob application component schedule =>
    [.initializeScheduledJob application component schedule]

def waiting (p : Payload) : List Step := p.waits.map fun (i, required) => .reach i required

def steps (address : String) (p : Payload) : List Step := p.waiting ++ (p.calls address).map .make

end Payload

namespace Handler

variable {s : Settings} {step : Step} {steps : List Step} {course before after : List Moment}
  {r : Except TaskFault Unit} {f : TaskFault} {c : Call}

theorem Step.asking (h : (step.doing s).Runs course r) : Asking step.call course := by
  cases step with
  | reach i required =>
    obtain ⟨_, h, -⟩ := runs_map_iff.mp h
    exact PhaseWait.asking_waitFor h
  | make c =>
    obtain ⟨_, h, -⟩ := runs_map_iff.mp h
    exact RetryPolicy.asking_calling h

/-- A call that succeeded was answered well at last, and only then. -/
theorem reply_of_make (h : ((Step.make c).doing s).Runs course (.ok ())) :
    ∃ before reply, course = before ++ [.asked c (.ok reply)] ∧
      ∀ x ∈ before, (∃ fault, x = .asked c (.error fault)) ∨ ∃ ms, x = .waited ms := by
  obtain ⟨a, h, ha⟩ := runs_map_iff.mp h
  obtain ⟨before, answer, rfl, hbefore, rfl⟩ := RetryPolicy.calling_last h
  cases answer with
  | ok reply => exact ⟨before, reply, rfl, hbefore⟩
  | error fault => cases ha

/-- A call that failed comes to the fault of its last attempt. -/
theorem fault_of_make (h : ((Step.make c).doing s).Runs course (.error f)) :
    ∃ before fault, course = before ++ [.asked c (.error fault)] ∧
      f = .client (fault.afterAttempts (tally c.operation course)) := by
  obtain ⟨a, h, ha⟩ := runs_map_iff.mp h
  obtain ⟨before, answer, hcourse, -, rfl⟩ := RetryPolicy.calling_last h
  cases answer with
  | ok reply => cases ha
  | error fault => exact ⟨before, fault, hcourse, Except.error.inj ha⟩

theorem Step.served (h : (step.doing s).Runs course (.ok ())) : step.Served course := by
  cases step with
  | reach i required =>
    obtain ⟨a, h, ha⟩ := runs_map_iff.mp h
    cases a with
    | ok phase => exact ⟨phase, PhaseWait.reached_of_waitFor h⟩
    | error f => cases ha
  | make c =>
    obtain ⟨before, reply, rfl, -⟩ := reply_of_make h
    exact ⟨reply, List.mem_append_right _ List.mem_cons_self⟩

theorem Step.Served.mono {more : List Moment} (h : step.Served course) (hsub : course ⊆ more) :
    step.Served more := by
  cases step with
  | reach i required =>
    obtain ⟨phase, hasked, hreaches⟩ := h
    exact ⟨phase, hsub hasked, hreaches⟩
  | make c =>
    obtain ⟨reply, hasked⟩ := h
    exact ⟨reply, hsub hasked⟩

/-- A step fails with the fault of a collaborator. -/
theorem Step.client_of_error (h : (step.doing s).Runs course (.error f)) : ∃ e, f = .client e := by
  cases step with
  | reach i required =>
    obtain ⟨a, h, ha⟩ := runs_map_iff.mp h
    obtain ⟨answers, -, rfl⟩ := PhaseWait.runs_waitFor.mp h
    cases hv : s.wait.verdict i required answers with
    | ok phase =>
      rw [hv] at ha
      cases ha
    | error e =>
      rw [hv] at ha
      exact ⟨e, Except.error.inj ha⟩
  | make c =>
    obtain ⟨before, fault, -, rfl⟩ := fault_of_make h
    exact ⟨_, rfl⟩

theorem InTurn.tries_of_mem {x : Moment} (h : InTurn s steps course r) (hx : x ∈ course) :
    ∃ step ∈ steps, x.Tries step.call := by
  induction h with
  | nil => exact absurd hx List.not_mem_nil
  | cons ran rest ih =>
    rcases List.mem_append.mp hx with hx | hx
    · exact ⟨_, List.mem_cons_self, Step.asking ran x hx⟩
    · obtain ⟨step, hstep, htries⟩ := ih hx
      exact ⟨step, List.mem_cons_of_mem _ hstep, htries⟩
  | failed ran => exact ⟨_, List.mem_cons_self, Step.asking ran x hx⟩

theorem InTurn.single (h : InTurn s [step] course r) : (step.doing s).Runs course r := by
  cases h with
  | cons ran rest =>
    cases rest
    exact (List.append_nil _).symm ▸ ran
  | failed ran => exact ran

theorem InTurn.served (h : InTurn s steps course (.ok ())) (hstep : step ∈ steps) : step.Served course := by
  generalize hr : Except.ok () = r at h
  induction h with
  | nil => exact absurd hstep List.not_mem_nil
  | cons ran rest ih =>
    rcases List.mem_cons.mp hstep with rfl | hstep
    · exact (Step.served ran).mono (List.subset_append_left _ _)
    · exact (ih hstep hr).mono (List.subset_append_right _ _)
  | failed ran => cases hr

theorem InTurn.client_of_error (h : InTurn s steps course (.error f)) : ∃ e, f = .client e := by
  generalize hr : Except.error f = r at h
  induction h with
  | nil => cases hr
  | cons ran rest ih => exact ih hr
  | failed ran =>
    obtain rfl := Except.error.inj hr
    exact Step.client_of_error ran

theorem InTurn.unique {course' more more' : List Moment} {r' : Except TaskFault Unit}
    (h : InTurn s steps course r) (h' : InTurn s steps course' r') (happend : course ++ more = course' ++ more') :
    course = course' ∧ r = r' := by
  induction h generalizing course' with
  | nil => cases h' with | nil => exact ⟨rfl, rfl⟩
  | cons ran rest ih =>
    cases h' with
    | cons ran' rest' =>
      rw [List.append_assoc, List.append_assoc] at happend
      obtain ⟨rfl, -⟩ := ran.unique ran' happend
      obtain ⟨rfl, rfl⟩ := ih rest' (List.append_cancel_left happend)
      exact ⟨rfl, rfl⟩
    | failed ran' =>
      rw [List.append_assoc] at happend
      cases (ran.unique ran' happend).2
  | failed ran =>
    cases h' with
    | cons ran' rest' =>
      rw [List.append_assoc] at happend
      cases (ran.unique ran' happend).2
    | failed ran' =>
      obtain ⟨rfl, he⟩ := ran.unique ran' happend
      exact ⟨rfl, he⟩

theorem exists_of_append_eq {first later : List Moment} {x : Moment}
    (h : first ++ later = before ++ x :: after) (hx : x ∉ first) :
    ∃ mid, before = first ++ mid ∧ later = mid ++ x :: after := by
  rcases List.append_eq_append_iff.mp h with ⟨mid, rfl, hlater⟩ | ⟨mid, rfl, hmid⟩
  · exact ⟨mid, rfl, hlater⟩
  · cases mid with
    | nil => exact ⟨[], (List.append_nil _).symm ▸ (List.append_nil _).symm, hmid.symm⟩
    | cons y mid =>
      obtain ⟨rfl, -⟩ := List.cons.inj hmid
      exact absurd (List.mem_append_right _ List.mem_cons_self) hx

/-- Of two lists of steps, the later one is begun when all of the first succeeded. -/
theorem InTurn.split {later : List Step} (h : InTurn s (steps ++ later) course r) :
    (∃ f, r = .error f ∧ InTurn s steps course (.error f)) ∨
      ∃ first rest, course = first ++ rest ∧ InTurn s steps first (.ok ()) ∧ InTurn s later rest r := by
  induction steps generalizing course with
  | nil => exact Or.inr ⟨[], course, rfl, .nil, h⟩
  | cons step steps ih =>
    cases h with
    | cons ran rest =>
      rcases ih rest with ⟨f, rfl, hfailed⟩ | ⟨first, last, rfl, hfirst, hlast⟩
      · exact Or.inl ⟨f, rfl, .cons ran hfailed⟩
      · exact Or.inr ⟨_, last, (List.append_assoc _ _ _).symm, .cons ran hfirst, hlast⟩
    | failed ran => exact Or.inl ⟨_, rfl, .failed ran⟩

/-- What is left of a course in which all steps succeeded. A service that was created last leaves its address. -/
def Leaves (key : Option String) (course : List Moment) (o : Outputs) : Prop :=
  match key with
  | none => o = .empty
  | some key => ∃ before scope name manifest address,
    course = before ++ [.asked (.createService scope name manifest) (.ok address)] ∧
      o = Table.empty.insert key (.string address)

/-- What some steps of a task come to. -/
inductive Carried (s : Settings) (key : Option String) (steps : List Step) (course : List Moment) :
    Except TaskFault Outputs → Prop
  | failed {f : TaskFault} (turn : InTurn s steps course (.error f)) : Carried s key steps course (.error f)
  | finished {o : Outputs} (turn : InTurn s steps course (.ok ())) (leaves : Leaves key course o) :
      Carried s key steps course (.ok o)

/-- What a task comes to: it fails if its address cannot be read, and else its steps are made with it. -/
inductive Worked (s : Settings) (p : Payload) : List Moment → Except TaskFault Outputs → Prop
  | unresolved {key : String} {answer : Except Context.Fault Json} {f : Context.Fault}
      (source : p.source = .fromContext key)
      (failed : (answer.bind (Context.decode key fun _ => Doc.readString)) = .error f) :
      Worked s p [.looked key answer] (.error (.context f))
  | resolved (looks : List Moment) {course : List Moment} {address : String} {r : Except TaskFault Outputs}
      (resolves : p.source.Resolves looks address) (carried : Carried s p.leaves? (p.steps address) course r) :
      Worked s p (looks ++ course) r

section Works

variable {key : Option String} {result : Except TaskFault Outputs}

theorem Carried.turn (h : Carried s key steps course result) :
    InTurn s steps course (result.map fun _ => ()) := by
  cases h with
  | failed turn => exact turn
  | finished turn leaves => exact turn

theorem error_of_map {f : TaskFault} (h : result.map (fun _ => ()) = .error f) : result = .error f := by
  cases result with
  | ok o => cases h
  | error f' => exact congrArg _ (Except.error.inj h)

theorem Leaves.append {later : List Moment} {o : Outputs} (h : Leaves key later o) (first : List Moment) :
    Leaves key (first ++ later) o := by
  cases key with
  | none => exact h
  | some key =>
    obtain ⟨before, scope, name, manifest, address, rfl, rfl⟩ := h
    exact ⟨first ++ before, scope, name, manifest, address, (List.append_assoc _ _ _).symm, rfl⟩

theorem Carried.cons {first later : List Moment} (ran : (step.doing s).Runs first (.ok ()))
    (h : Carried s key steps later result) : Carried s key (step :: steps) (first ++ later) result := by
  cases h with
  | failed turn => exact .failed (.cons ran turn)
  | finished turn leaves => exact .finished (.cons ran turn) (leaves.append first)

/-- A step and then the work that goes on with its answer. -/
theorem carried_of_andThen {α : Type} {q : Procedure (Except TaskFault α)} {next : α → Work}
    (hstep : step.doing s = q.map (Except.map fun _ => ()))
    (hnext : ∀ {a course r}, (next a).Runs course r → Carried s key steps course r)
    (h : (q.andThen next).Runs course result) : Carried s key (step :: steps) course result := by
  rcases runs_andThen_iff.mp h with ⟨first, a, rest, rfl, hfirst, hrest⟩ | ⟨e, hrun, rfl⟩
  · exact (hnext hrest).cons (hstep ▸ runs_map_iff.mpr ⟨.ok a, hfirst, rfl⟩)
  · exact .failed (.failed (hstep ▸ runs_map_iff.mpr ⟨.error e, hrun, rfl⟩))

theorem carried_of_make (h : (s.make c).Runs course result) : Carried s none [.make c] course result := by
  refine carried_of_andThen rfl (fun {_ course r} hnothing => ?_) h
  obtain ⟨rfl, rfl⟩ := runs_done_iff.mp hnothing
  exact .finished .nil rfl

theorem carried_of_service {scope name : String} {manifest : Json}
    (h : (Cluster.service s scope name manifest key).Runs course result) :
    Carried s key [.make (.createService scope name manifest)] course result := by
  rcases runs_andThen_iff.mp h with ⟨first, address, rest, rfl, hfirst, hrest⟩ | ⟨e, hrun, rfl⟩
  · obtain ⟨rfl, rfl⟩ := runs_done_iff.mp hrest
    refine .finished (.cons (runs_map_iff.mpr ⟨_, hfirst, rfl⟩) .nil) ?_
    obtain ⟨before, answer, rfl, -, hanswer⟩ := RetryPolicy.calling_last hfirst
    cases answer with
    | error f => cases hanswer
    | ok address' =>
      obtain rfl := Except.ok.inj hanswer
      cases key with
      | none => rfl
      | some key => exact ⟨before, scope, name, manifest, address, List.append_nil _, rfl⟩
  · exact .failed (.failed (runs_map_iff.mpr ⟨_, hrun, rfl⟩))

theorem carried_of_reach {i : Instance} {required : Phase} {next : Work}
    (hnext : ∀ {course r}, next.Runs course r → Carried s key steps course r)
    (h : (s.reach i required next).Runs course result) :
    Carried s key (.reach i required :: steps) course result :=
  carried_of_andThen rfl hnext h

end Works

theorem Worked.leaves {o : Outputs} (h : Worked s p course (.ok o)) : Leaves p.leaves? course o := by
  cases h with
  | resolved looks resolves carried =>
    cases carried with
    | finished turn leaves => exact leaves.append looks

/-- What a task looks up, it looks up before it asks anything. -/
theorem not_asked_of_resolves {a : Address} {looks : List Moment} {address : String}
    {answer : Except Client.Fault c.Reply}
    (h : a.Resolves looks address) : .asked c answer ∉ looks := by
  cases h with
  | fixed => exact List.not_mem_nil
  | read decoded => exact fun hm => by cases List.mem_singleton.mp hm

theorem worked_of_plain {p : Payload} {result : Except TaskFault Outputs} (hsource : p.source = .fixed "")
    (h : Carried s p.leaves? (p.steps "") course result) : Worked s p course result :=
  .resolved [] (hsource ▸ .fixed "") h

theorem worked_of_resolve {p : Payload} {next : String → Work} {result : Except TaskFault Outputs}
    (hnext : ∀ {address course r}, (next address).Runs course r → Carried s p.leaves? (p.steps address) course r)
    (h : (resolve p.source next).Runs course result) : Worked s p course result := by
  cases hsource : p.source with
  | fixed address =>
    rw [hsource] at h
    exact .resolved [] (hsource ▸ .fixed address) (hnext h)
  | fromContext key =>
    rw [hsource, resolve, runs_look_iff] at h
    obtain ⟨answer, rest, rfl, hrest⟩ := h
    cases answer with
    | error f =>
      obtain ⟨rfl, rfl⟩ := runs_done_iff.mp hrest
      exact .unresolved hsource rfl
    | ok value =>
      cases hdecode : Context.decode key (fun _ => Doc.readString) value with
      | error f =>
        simp only [hdecode] at hrest
        obtain ⟨rfl, rfl⟩ := runs_done_iff.mp hrest
        exact .unresolved hsource hdecode
      | ok address =>
        simp only [hdecode] at hrest
        exact .resolved [_] (hsource ▸ .read hdecode) (hnext hrest)

/-- Each built-in handler makes the steps of its payloads. -/
theorem worked_of_runs {p : Payload} {result : Except TaskFault Outputs}
    (h : (work s p.kind.collaborator p).Runs course result) : Worked s p course result := by
  cases p with
  | createNamespace | deleteNamespace | createDeployment | updateDeployment | deleteDeployment
  | deleteService | createSecret | deleteSecret | disconnectApplicationClients | shardCollection
  | moveChunk | dropDatabase | addAppRecord | deleteAppRecord | registerApplication
  | createInstanceRecord | deleteInstanceRecord | initializeScheduledJob =>
    exact worked_of_plain rfl (carried_of_make h)
  | initializeInstance | finalizeInstance | setStatefulnessParameters =>
    exact worked_of_plain rfl (carried_of_reach carried_of_make h)
  | createService scope name manifest key => exact worked_of_plain rfl (carried_of_service h)
  | createInstance scope i deployment manifest key =>
    exact worked_of_plain rfl (carried_of_andThen rfl carried_of_service h)
  | deleteInstance scope i deployment name =>
    exact worked_of_plain rfl (carried_of_andThen rfl carried_of_make h)
  | setDependencyAddress i dependency provider a =>
    refine worked_of_resolve (fun h' => ?_) h
    cases provider with
    | none => exact carried_of_reach carried_of_make h'
    | some provider => exact carried_of_reach (carried_of_reach carried_of_make) h'
  | setClientDependency application clientType clientId dependency provider a =>
    refine worked_of_resolve (fun h' => ?_) h
    cases provider with
    | none => exact carried_of_make h'
    | some provider => exact carried_of_reach carried_of_make h'

/-- The handler of another collaborator rejects a payload. -/
theorem work_eq_wrong (s : Settings) {collaborator : Collaborator} {p : Payload}
    (h : collaborator ≠ p.kind.collaborator) : work s collaborator p = wrong collaborator.words p := by
  cases collaborator <;> cases p <;> first | rfl | exact absurd rfl h

end Handler

end Rollout
