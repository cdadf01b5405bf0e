import Rollout.Proofs.LoopLedger

/-! What becomes of each task, told by the graph alone. A task is skipped if some task right before it is
not done, and otherwise ends the way its handler does on the outputs of the tasks that come before. -/

namespace Rollout

/-- How the handler of each task ends, given what other tasks leave. Only the outputs of tasks before it
matter, and outputs are maps. -/
structure Behaviour (g : Graph) where
  ending : TaskId → (TaskId → Outputs) → Ending
  local_ending : ∀ id σ τ, (∀ a, g.Before a id → σ a = τ a) → ending id σ = ending id τ
  sorted_outputs : ∀ id σ o, ending id σ = .finished o → o.Sorted

def Ending.outputs : Option Ending → Outputs
  | some (.finished o) => o
  | _ => .empty

/-- The state in which a task is left that ended, or that never started. -/
def Ending.state : Option Ending → TaskState
  | none => .skipped
  | some (.finished _) => .done
  | some (.failed _) | some (.panicked _) => .failed

theorem Ending.state_eq_done_iff {e : Option Ending} :
    Ending.state e = .done ↔ ∃ o, e = some (.finished o) := by
  cases e with
  | none => simp [Ending.state]
  | some e => cases e <;> simp [Ending.state]

theorem Ending.state_eq_skipped_iff {e : Option Ending} : Ending.state e = .skipped ↔ e = none := by
  cases e with
  | none => simp [Ending.state]
  | some e => cases e <;> simp [Ending.state]

namespace Behaviour

variable {g : Graph} (hv : g.Valid) (b : Behaviour g)

def AllDone (id : TaskId) (fates : ∀ a, g.Before a id → Option Ending) : Prop :=
  ∀ a (ha : g.Edge a id), ∃ o, fates a (.single ha) = some (.finished o)

open Classical in
/-- How a task ends, if it ever starts, given how those before it end. -/
noncomputable def settle (id : TaskId) (fates : ∀ a, g.Before a id → Option Ending) : Option Ending :=
  if AllDone id fates then
    some (b.ending id fun a => if ha : g.Before a id then Ending.outputs (fates a ha) else .empty)
  else none

noncomputable def fate (id : TaskId) : Option Ending := hv.wellFounded_before.fix b.settle id

noncomputable def state (id : TaskId) : TaskState := Ending.state (b.fate hv id)

variable {hv b}

theorem fate_eq (id : TaskId) : b.fate hv id = b.settle id fun a _ => b.fate hv a :=
  WellFounded.fix_eq _ _ _

theorem fate_of_done {id : TaskId} (h : ∀ a, g.Edge a id → ∃ o, b.fate hv a = some (.finished o)) :
    b.fate hv id = some (b.ending id fun a => Ending.outputs (b.fate hv a)) := by
  have hall : AllDone id fun a _ => b.fate hv a := h
  rw [fate_eq, settle, if_pos hall]
  refine congrArg some (b.local_ending id _ _ fun a ha => ?_)
  rw [dif_pos ha]

theorem fate_of_not_done {id a : TaskId} (he : g.Edge a id) (h : ∀ o, b.fate hv a ≠ some (.finished o)) :
    b.fate hv id = none := by
  rw [fate_eq, settle, if_neg]
  intro hall
  obtain ⟨o, ho⟩ := hall a he
  exact h o ho

theorem fate_of_before {id a : TaskId} (hab : g.Before a id)
    (h : ∀ o, b.fate hv a ≠ some (.finished o)) : b.fate hv id = none := by
  induction hab with
  | single he => exact fate_of_not_done he h
  | tail _ he ih => exact fate_of_not_done he fun o ho => by simp [ih] at ho

theorem exists_ending_of_fate {id : TaskId} {e : Ending} (h : b.fate hv id = some e) :
    ∃ σ, e = b.ending id σ := by
  by_cases hall : ∀ a, g.Edge a id → ∃ o, b.fate hv a = some (.finished o)
  · rw [fate_of_done hall] at h
    exact ⟨_, (Option.some.inj h).symm⟩
  · simp only [not_forall] at hall
    obtain ⟨a, he, hnone⟩ := hall
    rw [fate_of_not_done he fun o ho => hnone ⟨o, ho⟩] at h
    cases h

theorem state_eq_done_iff {id : TaskId} :
    b.state hv id = .done ↔ ∃ o, b.fate hv id = some (.finished o) := Ending.state_eq_done_iff

theorem state_eq_skipped_iff {id : TaskId} : b.state hv id = .skipped ↔ b.fate hv id = none :=
  Ending.state_eq_skipped_iff

theorem state_skipped_iff_exists {id : TaskId} :
    b.state hv id = .skipped ↔ ∃ a, g.Edge a id ∧ b.state hv a ≠ .done := by
  rw [state_eq_skipped_iff]
  constructor
  · intro hnone
    by_contra hall
    have hdone : ∀ a, g.Edge a id → ∃ o, b.fate hv a = some (.finished o) := fun a he =>
      state_eq_done_iff.mp (not_not.mp fun hn => hall ⟨a, he, hn⟩)
    rw [fate_of_done hdone] at hnone
    cases hnone
  · rintro ⟨a, he, hn⟩
    exact fate_of_not_done he fun o ho => hn (state_eq_done_iff.mpr ⟨o, ho⟩)

end Behaviour

namespace Loop

/-- What a task left when it ended, if it did so and well. -/
def Action.outputs? (id : TaskId) : Action → Option Outputs
  | ended x (.finished o) => if x = id then some o else none
  | _ => none

def outputsIn (actions : List Action) (id : TaskId) : Outputs :=
  (actions.findSome? (Action.outputs? id)).getD .empty

theorem Action.outputs?_eq_some_iff {id : TaskId} {a : Action} {o : Outputs} :
    a.outputs? id = some o ↔ a = .ended id (.finished o) := by
  cases a with
  | ended x e =>
    cases e with
    | finished o' =>
      by_cases hx : x = id <;> simp [Action.outputs?, hx]
    | failed f => simp [Action.outputs?]
    | panicked m => simp [Action.outputs?]
  | _ => simp [Action.outputs?]

/-- What is found is what the task left, provided that it always ended in the same way. -/
theorem outputsIn_eq {actions : List Action} {id : TaskId} {o : Outputs}
    (hm : .ended id (.finished o) ∈ actions)
    (hsame : ∀ o', .ended id (.finished o') ∈ actions → o' = o) : outputsIn actions id = o := by
  cases hf : actions.findSome? (Action.outputs? id) with
  | none =>
    have hnone := List.findSome?_eq_none_iff.mp hf _ hm
    rw [Action.outputs?_eq_some_iff.mpr rfl] at hnone
    cases hnone
  | some o' =>
    obtain ⟨a, ha, hao⟩ := List.exists_of_findSome?_eq_some hf
    rw [Action.outputs?_eq_some_iff.mp hao] at ha
    rw [outputsIn, hf, Option.getD_some, hsame o' ha]

end Loop

/-- Handlers that end as the behaviour says, on what the tasks that ended before them left. -/
def Behaviour.Follows {g : Graph} (b : Behaviour g) (actions : List Loop.Action) : Prop :=
  ∀ before id e after, actions = before ++ .ended id e :: after →
    e = b.ending id (Loop.outputsIn before)

theorem Behaviour.Follows.of_snoc {g : Graph} {b : Behaviour g} {actions : List Loop.Action}
    {a : Loop.Action} (h : b.Follows (actions ++ [a])) : b.Follows actions := by
  intro before id e after he
  apply h before id e (after ++ [a])
  rw [he, List.append_assoc, List.cons_append]

theorem Behaviour.Follows.last {g : Graph} {b : Behaviour g} {actions : List Loop.Action} {id : TaskId}
    {e : Ending} (h : b.Follows (actions ++ [.ended id e])) :
    e = b.ending id (Loop.outputsIn actions) :=
  h actions id e [] rfl

end Rollout
