import Rollout.Proofs.CrewRuns
import Rollout.Proofs.HandlerEffects
import Rollout.Proofs.SerialOrder

/-! Where the addresses come from that tasks announce. With the built-in handlers a service answers with its
address, which its task leaves under a key; a task that comes after it reads the key and announces it. -/

namespace Rollout

theorem Registry.ensures_builtin (s : Handler.Settings) :
    (Registry.builtin s).Ensures Handler.Announces Handler.Ended := by
  intro k handler hk id p hp
  obtain rfl := Option.some.inj ((get?_builtin s k).symm.trans hk)
  subst hp
  exact Handler.ensures_builtin s id p

namespace Crew

open Procedure (created runs_map_iff runs_andThen_iff)
open Handler (Announces Ended)

/-- A task that comes before the reader, is done and leaves the address of its service under the key. -/
structure Supplies (p : Plan) (g : Graph) (l : Loop) (reader : TaskId) (key : String) (a : Task) : Prop where
  known : a ∈ p.tasks
  before : g.Before a.id reader
  done : l.run.states.find? a.id = some .done
  leaves : a.payload.leaves? = some key

section Flow

variable {p : Plan} {g : Graph} (h : Graph.ofPlan p = .ok g) {runId : String} {s : Handler.Settings}
  {limits : Run.Limits} {now : Instant} {deeds : List Deed} {c : Crew}
  (path : Path (start runId g (Registry.builtin s) limits now) deeds c)
include h path

theorem follows_of_mem {t : Task} (ht : t ∈ p.tasks) : Follows Announces Ended t.id t.payload deeds c :=
  follows_of_path (Graph.valid_of_ofPlan h) (Registry.ensures_builtin s) path
    ((Graph.task?_of_ofPlan h).mpr ⟨ht, rfl⟩)

theorem delivers_of_ended {t : Task} (ht : t ∈ p.tasks) {o : Outputs}
    (ho : .ended t.id (.finished o) ∈ actions deeds) :
    Handler.Delivers t.payload (history deeds t.id) o := by
  rcases (follows_of_mem h path ht).ended ho with hended | ⟨message, he⟩
  · exact hended o rfl
  · cases he

/-- The context holds under a key what the one task that is done and leaves the key has left there. -/
theorem find?_context_of_done {a : Task} (ha : a ∈ p.tasks)
    (hdone : c.loop.run.states.find? a.id = some .done) {key : String}
    (hkey : a.payload.leaves? = some key) : ∃ address, created (history deeds a.id) = [address] ∧
      Table.find? c.loop.run.context key = some ⟨a.id, .string address⟩ := by
  have hv := Graph.valid_of_ofPlan h
  have hloop := path.loop
  have hs := Loop.sound_of_path hv hloop
  have haccount := Loop.account_of_path hv hloop
  have hstate := Run.stateOf_of_find? hdone
  have hd := Loop.mem_dispatched_of_path h (fun t _ => Registry.contains_builtin s t.kind) hloop
    (x := a.id) (by simp [hstate, TaskState.wasTaken])
  obtain ⟨o, ho⟩ := haccount.finished_of_done hs (Loop.ledger_of_path hv hloop) hd hstate
  have hdelivers := delivers_of_ended h path ha ho
  obtain ⟨address, hcreated, -⟩ : ∃ address, created (history deeds a.id) = [address] ∧ _ := by
    rw [Handler.Delivers, hkey] at hdelivers
    exact hdelivers
  have hvalue := hdelivers.find?_iff.mpr ⟨hkey, address, hcreated, rfl⟩
  exact ⟨address, hcreated, (haccount.holds_of_done hs hstate ho).find?_iff.mpr
    (Table.mem_pairs_of_find? hvalue)⟩

theorem eq_of_leaves {a b : Task} (ha : a ∈ p.tasks) (hb : b ∈ p.tasks)
    (hadone : c.loop.run.states.find? a.id = some .done)
    (hbdone : c.loop.run.states.find? b.id = some .done) {key : String}
    (hakey : a.payload.leaves? = some key) (hbkey : b.payload.leaves? = some key) : a = b := by
  obtain ⟨_, -, hentry⟩ := find?_context_of_done h path ha hadone hakey
  obtain ⟨_, -, hentry'⟩ := find?_context_of_done h path hb hbdone hbkey
  have hid : a.id = b.id := (Context.Entry.mk.inj (Option.some.inj (hentry.symm.trans hentry'))).1
  have htask := (Graph.task?_of_ofPlan h).mpr ⟨ha, rfl⟩
  rw [hid, (Graph.task?_of_ofPlan h).mpr ⟨hb, rfl⟩] at htask
  exact (Option.some.inj htask).symm

theorem supplies_of_calls {t : Task} (ht : t ∈ p.tasks) {key : String}
    (hkey : t.payload.awaits? = some key) {q : Call} (hq : Calls deeds c t.id q)
    (hannounces : q.announces = true) : ∃ a address, Supplies p g c.loop t.id key a ∧
      created (history deeds a.id) = [address] ∧ t.payload.announcement? address = some q := by
  have hv := Graph.valid_of_ofPlan h
  obtain ⟨past, hpast, hallowed⟩ := (follows_of_mem h path ht).allowed_of_calls hq
  obtain ⟨value, address, hlooked, hdecode, hcall⟩ := hallowed key hkey hannounces
  obtain ⟨x, hx⟩ := provided_of_path h path (hpast.subset hlooked)
  obtain ⟨a, ha⟩ := Graph.mem_ids_iff.mp (hv.before_mem_ids hx.before).1
  obtain ⟨hknown, rfl⟩ := (Graph.task?_of_ofPlan h).mp ha
  obtain ⟨o, ho, hvalue⟩ := hx.output
  obtain ⟨hleaves, address', hcreated, rfl⟩ :=
    (delivers_of_ended h path hknown ho).find?_iff.mp hvalue
  rw [Handler.decode_string] at hdecode
  obtain rfl := Except.ok.inj hdecode
  exact ⟨a, address', ⟨hknown, hx.before, hx.done, hleaves⟩, hcreated, hcall⟩

end Flow

/-- Addresses flow from the services that were created to the calls that announce them. A task that awaits an
address announces the one that a single task before it was answered when it created its service; and no two
tasks that are done leave an address under the same key. -/
theorem address_flow {p : Plan} {g : Graph} (h : Graph.ofPlan p = .ok g) {runId : String}
    {s : Handler.Settings} {limits : Run.Limits} {now : Instant} {deeds : List Deed} {c : Crew}
    (path : Path (start runId g (Registry.builtin s) limits now) deeds c) :
    (∀ t ∈ p.tasks, ∀ key, t.payload.awaits? = some key →
      (∃ q, Calls deeds c t.id q ∧ q.announces = true) →
      ∃ a address, (∀ b, Supplies p g c.loop t.id key b ↔ b = a) ∧
        created (history deeds a.id) = [address] ∧
        ∀ q, Calls deeds c t.id q → q.announces = true → t.payload.announcement? address = some q) ∧
    (∀ a ∈ p.tasks, ∀ b ∈ p.tasks, c.loop.run.states.find? a.id = some .done →
      c.loop.run.states.find? b.id = some .done →
      ∀ key, a.payload.leaves? = some key → b.payload.leaves? = some key → a = b) := by
  refine ⟨fun t ht key hkey ⟨q, hq, hannounces⟩ => ?_, fun a ha b hb hadone hbdone key hakey hbkey =>
    eq_of_leaves h path ha hb hadone hbdone hakey hbkey⟩
  obtain ⟨a, address, ha, hcreated, -⟩ := supplies_of_calls h path ht hkey hq hannounces
  -- the context has one entry for the key, and any task that supplies it wrote that entry
  have honly : ∀ b, Supplies p g c.loop t.id key b → b = a := fun b hb =>
    eq_of_leaves h path hb.known ha.known hb.done ha.done hb.leaves ha.leaves
  refine ⟨a, address, fun b => ⟨honly b, fun e => e ▸ ha⟩, hcreated, fun q' hq' hannounces' => ?_⟩
  obtain ⟨b, address', hb, hcreated', hcall⟩ := supplies_of_calls h path ht hkey hq' hannounces'
  rw [honly b hb, hcreated] at hcreated'
  rwa [List.singleton_inj.mp hcreated']

/-- A service, and an instance that depends on it. -/
def relayPlan : Plan :=
  ⟨"relay", [⟨1, .createService "blue" "db" .null (some "db"), [], [2]⟩,
    ⟨2, .setDependencyAddress ⟨"shop", "web", "1"⟩ "db" none (.fromContext "db"), [1], []⟩]⟩

def relaySettings : Handler.Settings := ⟨.standard, .standard⟩

def relay : Crew :=
  start "run" (.index "relay" (Graph.taskTable relayPlan)) (Registry.builtin relaySettings) ⟨1, none⟩ default

theorem path_relay : ∃ deeds c, Path relay deeds c ∧
    .act 2 (.asked (.setDependencyAddress ⟨"shop", "web", "1"⟩ "db" "10.0.0.7") (.ok ())) ∈ deeds := by
  have hservice : (Handler.builtin relaySettings .cluster 1 (.createService "blue" "db" .null (some "db"))).Runs
      [.asked (.createService "blue" "db" .null) (.ok "10.0.0.7")]
      (.finished (Handler.Cluster.leave (some "db") "10.0.0.7")) :=
    runs_map_iff.mpr ⟨_, runs_andThen_iff.mpr (Or.inl ⟨_, _, _, (List.append_nil _).symm,
      RetryPolicy.runs_calling.mpr ⟨fun _ => .ok "10.0.0.7", rfl, rfl⟩, .done _⟩), rfl⟩
  have hcommand : (relaySettings.make (.setDependencyAddress ⟨"shop", "web", "1"⟩ "db" "10.0.0.7")).Runs
      [.asked (.setDependencyAddress ⟨"shop", "web", "1"⟩ "db" "10.0.0.7") (.ok ())] (.ok .empty) :=
    runs_andThen_iff.mpr (Or.inl ⟨_, _, _, (List.append_nil _).symm,
      RetryPolicy.runs_calling.mpr ⟨fun _ => .ok (), rfl, rfl⟩, .done _⟩)
  have hannounce : (Handler.builtin relaySettings .middlewareAgent 2
      (.setDependencyAddress ⟨"shop", "web", "1"⟩ "db" none (.fromContext "db"))).Runs
      [.looked "db" (.ok (.string "10.0.0.7")), .asked (.ping ⟨"shop", "web", "1"⟩) (.ok .init),
        .asked (.setDependencyAddress ⟨"shop", "web", "1"⟩ "db" "10.0.0.7") (.ok ())] (.finished .empty) :=
    runs_map_iff.mpr ⟨_, .cons (.looked _ _ _) (.cons (.asked _ _ _) hcommand), rfl⟩
  obtain ⟨next, hcreate, hcreated⟩ := hservice.exists_call
  obtain ⟨read, hread, hgoing⟩ := hannounce.exists_look
  obtain ⟨ping, hping, htelling⟩ := hgoing.exists_call
  obtain ⟨tell, htell, -⟩ := htelling.exists_call
  have h₁ := (Path.refl relay).snoc (.other (.check rfl) nofun nofun)
  have h₂ := h₁.snoc (d := .loop (.dispatch 1)) (.called (.dispatch default rfl rfl rfl rfl rfl) rfl rfl)
  have h₃ := h₂.asked List.mem_cons_self hcreate (.ok "10.0.0.7")
  have h₄ := h₃.snoc (.other (.wait rfl rfl rfl) nofun nofun)
  have h₅ := h₄.snoc (.ended (.ended _ List.mem_cons_self) (Or.inl hcreated.eq_done))
  have h₆ := h₅.snoc (.other (.handle default rfl (List.nil_append _).symm) nofun nofun)
  have h₇ := h₆.snoc (.other (.check rfl) nofun nofun)
  have h₈ := h₇.snoc (d := .loop (.dispatch 2)) (.called (.dispatch default rfl rfl rfl rfl rfl) rfl rfl)
  have h₉ := h₈.looked List.mem_cons_self hread rfl
  have h₁₀ := h₉.asked List.mem_cons_self hping (.ok .init)
  have h₁₁ := h₁₀.asked List.mem_cons_self htell (.ok ())
  exact ⟨_, _, h₁₁, List.mem_append_right _ List.mem_cons_self⟩

theorem address_flow_relay : ∃ deeds c a, Path relay deeds c ∧
    Calls deeds c 2 (.setDependencyAddress ⟨"shop", "web", "1"⟩ "db" "10.0.0.7") ∧
    (∀ b, Supplies relayPlan (.index "relay" (Graph.taskTable relayPlan)) c.loop 2 "db" b ↔ b = a) ∧
    created (history deeds a.id) = ["10.0.0.7"] := by
  obtain ⟨deeds, c, path, hm⟩ := path_relay
  have hcall : Calls deeds c 2 (.setDependencyAddress ⟨"shop", "web", "1"⟩ "db" "10.0.0.7") := Or.inl ⟨_, hm⟩
  obtain ⟨a, address, hsupplies, hcreated, hall⟩ := (address_flow (p := relayPlan) rfl path).1
    ⟨2, .setDependencyAddress ⟨"shop", "web", "1"⟩ "db" none (.fromContext "db"), [1], []⟩
    (List.mem_cons_of_mem _ List.mem_cons_self) "db" rfl ⟨_, hcall, rfl⟩
  obtain ⟨-, -, rfl⟩ := Call.setDependencyAddress.inj (Option.some.inj (hall _ hcall rfl))
  exact ⟨deeds, c, a, path, hcall, hsupplies, hcreated⟩

end Crew

end Rollout
