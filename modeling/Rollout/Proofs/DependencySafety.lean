import Rollout.Proofs.FinalReport
import Rollout.Proofs.LoopLedger

/-! No task has its turn before all tasks that it comes after are done, and none behind a task that
failed or was skipped ever has one, however the run goes and wherever it is stopped. -/

namespace Rollout

/-- States in which nothing is ahead of what it comes after. -/
def Graph.Safe (g : Graph) (σ : TaskId → Option TaskState) : Prop :=
  ∀ a b, g.Edge a b →
    (σ b ∈ [some .ready, some .running, some .done, some .failed] → σ a = some .done) ∧
    (σ a ∈ [some .failed, some .skipped] → σ b = some .skipped)

namespace Run

variable {g : Graph} {r r' : Run} {a b : TaskId}

theorem Coherent.mem_ids_of_find? (h : Coherent g r) {x : TaskId} {s : TaskState}
    (hx : r.states.find? x = some s) : x ∈ g.ids :=
  h.keys_states ▸ Table.mem_keys_iff.mpr ⟨s, hx⟩

theorem Coherent.find?_states (h : Coherent g r) {x : TaskId} (hx : x ∈ g.ids) :
    r.states.find? x = some (r.stateOf x) := by
  obtain ⟨s, hs⟩ := Table.mem_keys_iff.mp (h.keys_states ▸ hx)
  rw [stateOf_of_find? hs, hs]

theorem Coherent.find?_eq_some_iff (h : Coherent g r) {x : TaskId} {s : TaskState} (hs : s ≠ .skipped) :
    r.states.find? x = some s ↔ r.stateOf x = s := by
  refine ⟨stateOf_of_find?, ?_⟩
  rintro rfl
  exact h.find?_states (h.mem_ids hs)

theorem Coherent.inFlight_of_ofPlan {p : Plan} (hp : Graph.ofPlan p = .ok g) (h : Coherent g r) :
    r.inFlight = p.ids.countP fun x => r.states.find? x = some .running := by
  rw [h.inFlight_eq, (Graph.ids_perm_of_ofPlan hp).countP_eq]
  simp [h.find?_eq_some_iff]

/-- Two runs of a graph have the same tasks. -/
theorem Coherent.find?_states_of_eq (h : Coherent g r) (h' : Coherent g r') {x : TaskId} {s t : TaskState}
    (hx : r.states.find? x = some s) (ht : r'.stateOf x = t) : r'.states.find? x = some t := by
  rw [h'.find?_states (h.mem_ids_of_find? hx), ht]

theorem Coherent.done_before (h : Coherent g r) (hb : (r.stateOf b).isUnlocked = true)
    (hab : g.Before a b) : r.stateOf a = .done := by
  induction hab using Relation.TransGen.head_induction_on with
  | single he => exact h.respected.done_before he hb
  | head he _ ih => exact h.respected.done_before he (by simp [ih, TaskState.isUnlocked])

theorem Coherent.skipped_behind (h : Coherent g r)
    (ha : r.stateOf a = .failed ∨ r.stateOf a = .skipped) (hab : g.Before a b) :
    r.stateOf b = .skipped := by
  induction hab with
  | single he => exact h.respected.skipped_behind he ha
  | tail _ he ih => exact h.respected.skipped_behind he (Or.inr ih)

theorem Coherent.safe (hv : g.Valid) (h : Coherent g r) : g.Safe r.states.find? := by
  intro a b he
  obtain ⟨ha, hb⟩ := hv.mem_ids he
  rw [h.find?_states ha, h.find?_states hb]
  constructor
  · intro hm
    have hu : (r.stateOf b).isUnlocked = true := by
      cases hs : r.stateOf b <;> simp_all [TaskState.isUnlocked]
    rw [h.respected.done_before he hu]
  · intro hm
    rw [h.respected.skipped_behind he (by simpa using hm)]

/-- Ready tasks are reported as pending, so that a report says no more than the states. -/
theorem Coherent.safe_finish (hv : g.Valid) (h : Coherent g r) (now : Instant) :
    g.Safe (r.finish now).1.stateOf? := by
  intro a b he
  obtain ⟨ha, hb⟩ := hv.mem_ids he
  have hsafe := h.safe hv a b he
  rw [h.stateOf?_finish hv, h.stateOf?_finish hv]
  rw [h.find?_states ha, h.find?_states hb] at hsafe ⊢
  cases hsa : r.stateOf a <;> cases hsb : r.stateOf b <;> simp_all [TaskState.shown]

end Run

namespace Loop

variable {g : Graph}

theorem sound_of_path (hv : g.Valid) {runId : String} {handlers : Registry} {limits : Run.Limits}
    {now : Instant} {actions : List Action} {l : Loop}
    (path : Path (start runId g handlers limits now) actions l) : Sound g limits.concurrency l :=
  (sound_start hv runId handlers limits now).path hv path

theorem ledger_of_path (hv : g.Valid) {runId : String} {handlers : Registry} {limits : Run.Limits}
    {now : Instant} {actions : List Action} {l : Loop}
    (path : Path (start runId g handlers limits now) actions l) : Ledger actions l :=
  (ledger_start runId g handlers limits now).path hv (sound_start hv runId handlers limits now) path

/-- Dependencies are respected at every point of every run, and in what is reported of it. -/
theorem dependency_safety {p : Plan} (h : Graph.ofPlan p = .ok g) {runId : String}
    {handlers : Registry} {limits : Run.Limits} {now : Instant} {actions : List Action} {l : Loop}
    (path : Path (start runId g handlers limits now) actions l) :
    g.Safe l.run.states.find? ∧
    (∀ later, g.Safe (l.run.finish later).1.stateOf?) ∧
    (∀ b l', Step l (.dispatch b) l' ∨ Step l (.refuse b) l' →
      ∀ a, g.Before a b → l.run.states.find? a = some .done) ∧
    (∀ a b, g.Before a b → l.run.states.find? a = some .failed → ∀ more l', Path l more l' →
      b ∉ dispatched (actions ++ more) ∧ b ∉ refused (actions ++ more)) := by
  have hv := Graph.valid_of_ofPlan h
  have hs := sound_of_path hv path
  have hc := hs.coherent
  refine ⟨hc.safe hv, fun later => hc.safe_finish hv later, fun b l' s a hab => ?_,
    fun a b hab ha more l' rest => ?_⟩
  · have hready : l.run.stateOf b = .ready := by
      rcases s with s | s <;> cases s <;> exact (hc.ready_head ‹_›).1
    rw [hc.find?_states (hv.before_mem_ids hab).1,
      hc.done_before (by simp [hready, TaskState.isUnlocked]) hab]
  · rw [hc.find?_states (hv.before_mem_ids hab).1] at ha
    have hfailed : l.run.stateOf a = .failed := Option.some.inj ha
    have hlater := hs.leads_path hv rest a
    rw [hfailed] at hlater
    have hskipped := (hs.path hv rest).coherent.skipped_behind (Or.inl hlater) hab
    have htaken := (ledger_of_path hv (path.append rest)).wasTaken b
    rw [hskipped] at htaken
    rw [← not_or, ← List.mem_append]
    exact fun hb => Bool.false_ne_true (htaken hb)

/-- Two tasks, the second after the first. -/
def chainPlan : Plan :=
  ⟨"chain", [⟨1, .createNamespace "blue", [], [2]⟩, ⟨2, .deleteNamespace "blue", [1], []⟩]⟩

def chain : Loop :=
  start "run" (.index "chain" (Graph.taskTable chainPlan))
    (Kind.all.map fun k => (k, fun _ _ => .done (.finished .empty))) ⟨0, none⟩ default

theorem path_chain : ∃ l, Path chain
    [.check, .dispatch 1, .wait, .ended 1 (.panicked none), .handle 1 (Ending.panicked none).completion,
      .check, .leave] l ∧
    l.place = .left ∧ l.run.stopped = none ∧ l.run.states.pairs = [(1, .failed), (2, .skipped)] := by
  have h₁ := Path.snoc (.refl chain) (.check rfl)
  have h₂ := h₁.snoc (a := .dispatch 1) (.dispatch default rfl rfl rfl rfl rfl)
  have h₃ := h₂.snoc (.wait rfl rfl rfl)
  have h₄ := h₃.snoc (.ended (.panicked none) List.mem_cons_self)
  have h₅ := h₄.snoc (.handle default rfl (List.nil_append _).symm)
  exact ⟨_, (h₅.snoc (.check rfl)).snoc (.leave rfl rfl rfl), rfl, rfl, rfl⟩

theorem dependency_safety_chain :
    ∃ actions l, Path chain actions l ∧ l.run.states.find? 1 = some .failed ∧
      (Graph.index "chain" (Graph.taskTable chainPlan)).Safe l.run.states.find? ∧
      2 ∉ dispatched actions := by
  obtain ⟨l, path, -, -, hstates⟩ := path_chain
  have hfailed : l.run.states.find? 1 = some .failed := by
    rw [Table.find?, hstates]
    rfl
  obtain ⟨hsafe, -, -, hnever⟩ := dependency_safety (p := chainPlan) rfl path
  have hnone := (hnever 1 2 (.single (by decide)) hfailed [] l (.refl l)).1
  rw [List.append_nil] at hnone
  exact ⟨_, l, path, hfailed, hsafe, hnone⟩

end Loop

end Rollout
