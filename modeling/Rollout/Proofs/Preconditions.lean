import Rollout.Proofs.HandlerEffects

/-! When agents and the controller of clients are given commands: after the address of the command is known and
the instances that it depends on have come far enough, and after nothing that failed. -/

namespace Rollout

open Procedure
open Handler (Step InTurn)

namespace Call

def isPing : Call → Bool
  | ping _ => true
  | _ => false

/-- The instance that a call commands through its agent. -/
def commands? : Call → Option Instance
  | setDependencyAddress i _ _ | initializeInstance i _ | finalizeExecution i
  | setStatefulnessParameters i _ _ => some i
  | _ => none

theorem isPing_of_commands {c : Call} {i : Instance} (h : c.commands? = some i) : c.isPing = false := by
  cases c <;> first | rfl | cases h

theorem isPing_of_announces {c : Call} (h : c.announces = true) : c.isPing = false := by
  cases c <;> first | rfl | cases h

end Call

namespace Payload

/-- The instance that provides the dependency of which a task tells the address. -/
def provider? : Payload → Option Instance
  | setDependencyAddress _ _ provider _ | setClientDependency _ _ _ _ provider _ => provider
  | _ => none

/-- Whether a task is for the agent of an instance or for the controller of clients. -/
def Commanding (p : Payload) : Prop :=
  p.kind.collaborator = .middlewareAgent ∨ p.kind.collaborator = .clientController

/-- Such a task gives one command, and waits for the instances that the command needs. -/
theorem Commanding.command {p : Payload} (h : p.Commanding) (address : String) :
    ∃ c, p.calls address = [c] ∧ c.isPing = false ∧ (∀ i, c.commands? = some i → (i, .init) ∈ p.waits) ∧
      (c.announces = true → ∀ i, p.provider? = some i → (i, .ready) ∈ p.waits) := by
  cases p with
  | setDependencyAddress i dependency provider a =>
    refine ⟨_, rfl, rfl, fun i' hi => ?_, fun _ i' hi => ?_⟩
    · obtain rfl := Option.some.inj hi
      exact List.mem_append_right _ List.mem_cons_self
    · obtain rfl : provider = some i' := hi
      exact List.mem_cons_self
  | setClientDependency application clientType clientId dependency provider a =>
    refine ⟨_, rfl, rfl, fun i' hi => (by cases hi), fun _ i' hi => ?_⟩
    obtain rfl : provider = some i' := hi
    exact List.mem_cons_self
  | initializeInstance i | finalizeInstance i | setStatefulnessParameters i =>
    refine ⟨_, rfl, rfl, fun i' hi => ?_, fun hannounces => by cases hannounces⟩
    obtain rfl := Option.some.inj hi
    exact List.mem_cons_self
  | disconnectApplicationClients application =>
    exact ⟨_, rfl, rfl, fun i' hi => (by cases hi), fun hannounces => by cases hannounces⟩
  | _ => rcases h with h | h <;> cases h

end Payload

namespace Handler

variable {s : Settings} {p : Payload} {course before after : List Moment} {c : Call}
  {r : Except TaskFault Outputs} {address : String}

theorem resolves_unique {a : Address} {looks looks' more more' : List Moment} {address' : String}
    (h : a.Resolves looks address) (h' : a.Resolves looks' address') (happend : looks ++ more = looks' ++ more') :
    looks = looks' ∧ address = address' := by
  cases h with
  | fixed =>
    cases h' with
    | fixed => exact ⟨rfl, rfl⟩
  | read decoded =>
    cases h' with
    | read decoded' =>
      obtain ⟨he, -⟩ := List.cons.inj happend
      obtain rfl := Except.ok.inj (Moment.looked.inj he).2
      exact ⟨rfl, Except.ok.inj (decoded.symm.trans decoded')⟩

theorem ping_of_waiting {outcome : Except TaskFault Unit} {answer : Except Client.Fault c.Reply}
    (h : InTurn s p.waiting course outcome) (hm : .asked c answer ∈ course) : c.isPing = true := by
  obtain ⟨step, hstep, htries⟩ := h.tries_of_mem hm
  obtain ⟨w, -, rfl⟩ := List.mem_map.mp hstep
  obtain rfl := htries.eq
  rfl

/-- A command is given when all that the task waits for has come, and then nothing else is asked. -/
theorem Worked.command {answer : Except Client.Fault c.Reply} (hp : p.Commanding) (h : Worked s p course r)
    (hcourse : course = before ++ .asked c answer :: after) (hc : c.isPing = false) :
    (∃ address, p.calls address = [c]) ∧ Asking c after ∧
      ∀ i required, (i, required) ∈ p.waits → (Step.reach i required).Served before := by
  cases h with
  | unresolved source failed =>
    have hm : Moment.asked c answer ∈ before ++ .asked c answer :: after :=
      List.mem_append_right _ List.mem_cons_self
    rw [← hcourse] at hm
    cases List.mem_singleton.mp hm
  | @resolved looks later address r resolves carried =>
    have turn := carried.turn
    obtain ⟨mid, rfl, rfl⟩ := exists_of_append_eq hcourse (not_asked_of_resolves resolves)
    obtain ⟨c', hcalls, -⟩ := hp.command address
    rw [Payload.steps, hcalls] at turn
    rcases turn.split with ⟨f, -, hwaits⟩ | ⟨first, rest, hsplit, hwaits, hcommand⟩
    · rw [ping_of_waiting hwaits (List.mem_append_right _ List.mem_cons_self)] at hc
      cases hc
    · have hfirst : .asked c answer ∉ first := fun hm => by
        rw [ping_of_waiting hwaits hm] at hc
        cases hc
      obtain ⟨between, rfl, rfl⟩ := exists_of_append_eq hsplit.symm hfirst
      have htries := Step.asking hcommand.single
      obtain rfl := (htries _ (List.mem_append_right _ List.mem_cons_self)).eq
      refine ⟨⟨address, hcalls⟩, fun x hx => htries x (List.mem_append_right _ (List.mem_cons_of_mem _ hx)),
        fun i required hw => (hwaits.served (List.mem_map_of_mem hw)).mono fun x hx => ?_⟩
      exact List.mem_append_right _ (List.mem_append_left _ hx)

/-- What a task with a command observes, whatever it is answered. -/
structure Heedful (s : Settings) (p : Payload) (course : List Moment) (r : Except TaskFault Outputs) : Prop where
  /-- The instance that is commanded was initialized. -/
  started : ∀ before c answer after i, course = before ++ .asked c answer :: after → c.commands? = some i →
    ∃ phase, .asked (.ping i) (.ok phase) ∈ before ∧ phase.reaches .init = true
  /-- The provider of an announced dependency was ready. -/
  provided : ∀ before c answer after i, course = before ++ .asked c answer :: after → c.announces = true →
    p.provider? = some i → ∃ phase, .asked (.ping i) (.ok phase) ∈ before ∧ phase.reaches .ready = true
  /-- Nothing is asked before the address is known, and a fault in reading it ends the whole run. -/
  addressed : ∀ key, p.source = .fromContext key → ∃ answer rest, course = .looked key answer :: rest ∧
    ∀ f, (answer.bind (Context.decode key fun _ => Doc.readString)) = .error f →
      rest = [] ∧ r = .error (.context f) ∧ (TaskFault.context f).isFatal = true
  /-- Nothing is done after a wait that failed, and its fault is that of the task. -/
  waited : ∀ looks address waits rest f, p.source.Resolves looks address → course = looks ++ (waits ++ rest) →
    InTurn s p.waiting waits (.error f) →
      rest = [] ∧ r = .error f ∧ ∀ c answer, .asked c answer ∈ course → c.isPing = true
  /-- After a command there are only further attempts of it. -/
  repeated : ∀ before c answer after, course = before ++ .asked c answer :: after → c.isPing = false →
    Asking c after

theorem Worked.addressed {key : String} (h : Worked s p course r) (hsource : p.source = .fromContext key) :
    ∃ answer rest, course = .looked key answer :: rest ∧
      ∀ f, (answer.bind (Context.decode key fun _ => Doc.readString)) = .error f →
        rest = [] ∧ r = .error (.context f) ∧ (TaskFault.context f).isFatal = true := by
  cases h with
  | unresolved source failed =>
    obtain rfl := Address.fromContext.inj (source.symm.trans hsource)
    exact ⟨_, [], rfl, fun f hf => ⟨rfl, by rw [Except.error.inj (failed.symm.trans hf)], rfl⟩⟩
  | resolved looks resolves carried =>
    rw [hsource] at resolves
    cases resolves with
    | read decoded => exact ⟨_, _, rfl, fun f hf => by cases decoded.symm.trans hf⟩

theorem Worked.waited {looks waits rest : List Moment} {f : TaskFault} (h : Worked s p course r)
    (hlooks : p.source.Resolves looks address) (hcourse : course = looks ++ (waits ++ rest))
    (hwaits : InTurn s p.waiting waits (.error f)) :
    rest = [] ∧ r = .error f ∧ ∀ c answer, .asked c answer ∈ course → c.isPing = true := by
  cases h with
  | unresolved source failed =>
    rw [source] at hlooks
    cases hlooks with
    | read decoded =>
      obtain ⟨he, -⟩ := List.cons.inj hcourse
      obtain rfl := (Moment.looked.inj he).2
      cases decoded.symm.trans failed
  | resolved looks' resolves carried =>
    obtain ⟨rfl, rfl⟩ := resolves_unique resolves hlooks hcourse
    obtain rfl := List.append_cancel_left hcourse
    rcases carried.turn.split with ⟨f', hr, hwaits'⟩ | ⟨first, later, hsplit, hwaits', -⟩
    · obtain ⟨hrest, he⟩ := hwaits'.unique hwaits (List.append_nil (waits ++ rest))
      refine ⟨List.append_right_eq_self.mp hrest, error_of_map (hr.trans he), fun c answer hm => ?_⟩
      rcases List.mem_append.mp hm with hm | hm
      · exact absurd hm (not_asked_of_resolves resolves)
      · exact ping_of_waiting hwaits' hm
    · cases (hwaits'.unique hwaits hsplit.symm).2

/-- Agents and the controller of clients are given commands only when what these need has come. An instance that
is commanded was initialized, and the provider of an announced dependency was ready. Nothing is asked when the
address cannot be read, and nothing but pings when a wait failed. After a command come only its repetitions. -/
theorem heedful_of_runs (hp : p.Commanding) (run : (work s p.kind.collaborator p).Runs course r) :
    Heedful s p course r := by
  have h := worked_of_runs run
  refine ⟨fun before c answer after i hcourse hc => ?_, fun before c answer after i hcourse hc hi => ?_,
    fun key hsource => h.addressed hsource, fun looks address waits rest f hlooks hcourse hwaits =>
    h.waited hlooks hcourse hwaits, fun before c answer after hcourse hc => (h.command hp hcourse hc).2.1⟩
  · obtain ⟨⟨address, hcalls⟩, -, hserved⟩ := h.command hp hcourse (Call.isPing_of_commands hc)
    obtain ⟨c', hcalls', -, hneeds, -⟩ := hp.command address
    obtain rfl := List.singleton_inj.mp (hcalls.symm.trans hcalls')
    exact hserved i .init (hneeds i hc)
  · obtain ⟨⟨address, hcalls⟩, -, hserved⟩ := h.command hp hcourse (Call.isPing_of_announces hc)
    obtain ⟨c', hcalls', -, -, hneeds⟩ := hp.command address
    obtain rfl := List.singleton_inj.mp (hcalls.symm.trans hcalls')
    exact hserved i .ready (hneeds hc i hi)

/-- An instance whose provider is ready at the second poll, and whose agent then rejects the command. -/
theorem heedful_of_rejected :
    let p := Payload.setDependencyAddress ⟨"shop", "web", "1"⟩ "db" (some ⟨"shop", "db", "1"⟩) (.fromContext "db")
    let course : List Moment := [.looked "db" (.ok (.string "10.0.0.7")),
      .asked (.ping ⟨"shop", "db", "1"⟩) (.ok .creating), .waited 500,
      .asked (.ping ⟨"shop", "db", "1"⟩) (.ok .ready), .asked (.ping ⟨"shop", "web", "1"⟩) (.ok .init),
      .asked (.setDependencyAddress ⟨"shop", "web", "1"⟩ "db" "10.0.0.7") (.error (.rejected "set" "no"))]
    let s : Settings := ⟨⟨3, .immediate, false⟩, ⟨500, 2⟩⟩
    p.Commanding ∧ (work s p.kind.collaborator p).Runs course (.error (.client (.rejected "set" "no"))) ∧
      Heedful s p course (.error (.client (.rejected "set" "no"))) := by
  intro p course s
  have hp : p.Commanding := Or.inl rfl
  have hcommand : (s.make (.setDependencyAddress ⟨"shop", "web", "1"⟩ "db" "10.0.0.7")).Runs
      [.asked _ (.error (.rejected "set" "no"))] (.error (.client (.rejected "set" "no"))) :=
    runs_andThen_iff.mpr (Or.inr ⟨_, RetryPolicy.runs_calling.mpr
      ⟨fun _ => .error (.rejected "set" "no"), rfl, rfl⟩, rfl⟩)
  have run : (work s p.kind.collaborator p).Runs course (.error (.client (.rejected "set" "no"))) :=
    .cons (.looked _ _ _) <| .cons (.asked _ _ _) <| .cons (.waited _ _) <| .cons (.asked _ _ _) <|
      .cons (.asked _ _ _) hcommand
  exact ⟨hp, run, heedful_of_runs hp run⟩

end Handler

end Rollout
