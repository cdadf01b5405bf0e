import Rollout.Proofs.GraphOrder
import Rollout.Run.State

/-! How the states of tasks change together. Tasks get their turn only when all before them are done,
and nothing behind a task that failed or was skipped is left to have a turn; starting, ending and
stopping keep it so. -/

namespace Rollout

/-- Whether all tasks before this one have to be done. -/
def TaskState.isUnlocked : TaskState → Bool
  | ready | running | done | failed => true
  | pending | skipped => false

namespace Graph

/-- How many tasks right before this one are not done. -/
def notDone (g : Graph) (σ : TaskId → TaskState) (b : TaskId) : Nat :=
  (g.predecessors b).countP fun a => σ a ≠ .done

/-- States and counters that agree with the edges. -/
structure Respected (g : Graph) (σ : TaskId → TaskState) (left : TaskId → Nat) : Prop where
  done_before : ∀ {a b}, g.Edge a b → (σ b).isUnlocked = true → σ a = .done
  skipped_behind : ∀ {a b}, g.Edge a b → σ a = .failed ∨ σ a = .skipped → σ b = .skipped
  left_pending : ∀ {b}, σ b = .pending → left b = g.notDone σ b ∧ 0 < left b
  left_unlocked : ∀ {b}, (σ b).isUnlocked = true → left b = 0

/-- The successors of a finished task that wait for nothing else become ready. -/
def afterDone (g : Graph) (σ : TaskId → TaskState) (left : TaskId → Nat) (id : TaskId) :
    TaskId → TaskState := fun x =>
  if x = id then .done
  else if x ∈ g.successors id ∧ σ x = .pending ∧ left x ≤ 1 then .ready else σ x

def leftAfterDone (g : Graph) (σ : TaskId → TaskState) (left : TaskId → Nat) (id : TaskId) :
    TaskId → Nat := fun x => if x ∈ g.successors id ∧ σ x = .pending then left x - 1 else left x

/-- All tasks that wait behind a failed one are skipped. -/
def afterFailed (g : Graph) (σ : TaskId → TaskState) (id : TaskId) : TaskId → TaskState := fun x =>
  if x = id then .failed
  else if x ∈ g.downstream id ∧ σ x = .pending then .skipped else σ x

end Graph

/-- All tasks that were not started are skipped. -/
def afterStop (σ : TaskId → TaskState) : TaskId → TaskState := fun x =>
  if σ x = .pending ∨ σ x = .ready then .skipped else σ x

namespace Graph

theorem notDone_congr {g : Graph} {σ τ : TaskId → TaskState} (h : ∀ a, τ a = .done ↔ σ a = .done)
    (b : TaskId) : g.notDone τ b = g.notDone σ b := by
  apply List.countP_congr
  intro a _
  simp only [ne_eq, decide_not, Bool.not_eq_true', decide_eq_false_iff_not]
  exact not_congr (h a)

theorem notDone_eq_zero_iff {g : Graph} (hv : g.Valid) {σ : TaskId → TaskState} {b : TaskId} :
    g.notDone σ b = 0 ↔ ∀ a, g.Edge a b → σ a = .done := by
  rw [notDone, List.countP_eq_zero]
  constructor
  · intro h a he
    simpa using h a (hv.mem_predecessors.mpr he)
  · intro h a ha
    simpa using h a (hv.mem_predecessors.mp ha)

section AfterDone

variable {g : Graph} {σ : TaskId → TaskState} {left : TaskId → Nat} {id : TaskId}

theorem afterDone_self : g.afterDone σ left id id = .done := if_pos rfl

theorem afterDone_of_open {x : TaskId} (hne : x ≠ id)
    (h : x ∈ g.successors id ∧ σ x = .pending ∧ left x ≤ 1) : g.afterDone σ left id x = .ready := by
  rw [afterDone, if_neg hne, if_pos h]

theorem afterDone_of_not_open {x : TaskId} (hne : x ≠ id)
    (h : ¬ (x ∈ g.successors id ∧ σ x = .pending ∧ left x ≤ 1)) :
    g.afterDone σ left id x = σ x := by
  rw [afterDone, if_neg hne, if_neg h]

theorem afterDone_of_not_pending {x : TaskId} (hne : x ≠ id) (h : σ x ≠ .pending) :
    g.afterDone σ left id x = σ x :=
  afterDone_of_not_open hne fun ho => h ho.2.1

theorem afterDone_eq_done_iff {x : TaskId} :
    g.afterDone σ left id x = .done ↔ x = id ∨ σ x = .done := by
  by_cases hx : x = id
  · simp [hx, afterDone_self]
  · by_cases ho : x ∈ g.successors id ∧ σ x = .pending ∧ left x ≤ 1
    · simp [afterDone_of_open hx ho, hx, ho.2.1]
    · simp [afterDone_of_not_open hx ho, hx]

theorem notDone_afterDone_of_edge (left : TaskId → Nat) (hv : g.Valid) (hid : σ id ≠ .done)
    {b : TaskId} (he : g.Edge id b) : g.notDone σ b = g.notDone (g.afterDone σ left id) b + 1 := by
  refine countP_change (hv.nodup_predecessors b) (hv.mem_predecessors.mpr he) (by simpa using hid)
    (by simp [afterDone_self]) fun a ha => ?_
  have hiff : g.afterDone σ left id a = .done ↔ σ a = .done :=
    afterDone_eq_done_iff.trans (or_iff_right ha)
  simp only [ne_eq, hiff]

theorem notDone_afterDone_of_not_edge (hv : g.Valid) {b : TaskId} (he : ¬ g.Edge id b) :
    g.notDone (g.afterDone σ left id) b = g.notDone σ b := by
  apply List.countP_congr
  intro a ha
  have hne : a ≠ id := fun e => he (e ▸ hv.mem_predecessors.mp ha)
  have hiff : g.afterDone σ left id a = .done ↔ σ a = .done :=
    afterDone_eq_done_iff.trans (or_iff_right hne)
  simp only [ne_eq, hiff]

/-- A task that ends well unlocks exactly the successors for which it was the last to wait for. -/
theorem Respected.afterDone (hv : g.Valid) (h : g.Respected σ left) (hid : σ id = .running) :
    g.Respected (g.afterDone σ left id) (g.leftAfterDone σ left id) := by
  have hnot : σ id ≠ .done := by simp [hid]
  have hkeep : ∀ {a}, σ a = .done → g.afterDone σ left id a = .done := fun ha =>
    afterDone_eq_done_iff.mpr (Or.inr ha)
  refine ⟨fun {a b} he hb => ?_, fun {a b} he ha => ?_, fun {b} hb => ?_, fun {b} hb => ?_⟩
  · by_cases hbid : b = id
    · subst b
      exact hkeep (h.done_before he (by simp [hid, TaskState.isUnlocked]))
    · by_cases ho : b ∈ g.successors id ∧ σ b = .pending ∧ left b ≤ 1
      · have hcount := h.left_pending ho.2.1
        have hdrop := notDone_afterDone_of_edge left hv hnot (show g.Edge id b from ho.1)
        have hzero : g.notDone (g.afterDone σ left id) b = 0 := by omega
        exact (notDone_eq_zero_iff hv).mp hzero a he
      · rw [afterDone_of_not_open hbid ho] at hb
        exact hkeep (h.done_before he hb)
  · have ha' : σ a = .failed ∨ σ a = .skipped := by
      by_cases haid : a = id
      · simp [haid, afterDone_self] at ha
      · by_cases ho : a ∈ g.successors id ∧ σ a = .pending ∧ left a ≤ 1
        · simp [afterDone_of_open haid ho] at ha
        · rwa [afterDone_of_not_open haid ho] at ha
    have hb := h.skipped_behind he ha'
    have hbid : b ≠ id := fun e => by simp [e, hid] at hb
    rw [afterDone_of_not_pending hbid (by simp [hb]), hb]
  · have hbid : b ≠ id := fun e => by simp [e, afterDone_self] at hb
    have ho : ¬ (b ∈ g.successors id ∧ σ b = .pending ∧ left b ≤ 1) := fun ho => by
      simp [afterDone_of_open hbid ho] at hb
    rw [afterDone_of_not_open hbid ho] at hb
    have hcount := h.left_pending hb
    by_cases he : b ∈ g.successors id
    · have hdrop := notDone_afterDone_of_edge left hv hnot (show g.Edge id b from he)
      have hmore : ¬ left b ≤ 1 := fun hle => ho ⟨he, hb, hle⟩
      rw [leftAfterDone, if_pos ⟨he, hb⟩]
      omega
    · rw [leftAfterDone, if_neg fun hc => he hc.1, notDone_afterDone_of_not_edge hv he]
      exact hcount
  · by_cases hbid : b = id
    · subst b
      rw [leftAfterDone, if_neg fun hc => by simp [hid] at hc]
      exact h.left_unlocked (by simp [hid, TaskState.isUnlocked])
    · by_cases ho : b ∈ g.successors id ∧ σ b = .pending ∧ left b ≤ 1
      · rw [leftAfterDone, if_pos ⟨ho.1, ho.2.1⟩]
        omega
      · rw [afterDone_of_not_open hbid ho] at hb
        have hpend : σ b ≠ .pending := fun e => by simp [e, TaskState.isUnlocked] at hb
        rw [leftAfterDone, if_neg fun hc => hpend hc.2]
        exact h.left_unlocked hb

end AfterDone

section AfterFailed

variable {g : Graph} {σ : TaskId → TaskState} {left : TaskId → Nat} {id : TaskId}

theorem afterFailed_self : g.afterFailed σ id id = .failed := if_pos rfl

theorem afterFailed_of_behind {x : TaskId} (hne : x ≠ id)
    (h : x ∈ g.downstream id ∧ σ x = .pending) : g.afterFailed σ id x = .skipped := by
  rw [afterFailed, if_neg hne, if_pos h]

theorem afterFailed_of_not_behind {x : TaskId} (hne : x ≠ id)
    (h : ¬ (x ∈ g.downstream id ∧ σ x = .pending)) : g.afterFailed σ id x = σ x := by
  rw [afterFailed, if_neg hne, if_neg h]

theorem afterFailed_of_not_pending {x : TaskId} (hne : x ≠ id) (h : σ x ≠ .pending) :
    g.afterFailed σ id x = σ x :=
  afterFailed_of_not_behind hne fun hb => h hb.2

theorem afterFailed_eq_done_iff (hid : σ id ≠ .done) {x : TaskId} :
    g.afterFailed σ id x = .done ↔ σ x = .done := by
  by_cases hx : x = id
  · simp [hx, afterFailed_self, hid]
  · by_cases hb : x ∈ g.downstream id ∧ σ x = .pending
    · simp [afterFailed_of_behind hx hb, hb.2]
    · rw [afterFailed_of_not_behind hx hb]

theorem Respected.afterFailed (hv : g.Valid) (h : g.Respected σ left)
    (hid : (σ id).isUnlocked = true) (hnot : σ id ≠ .done) :
    g.Respected (g.afterFailed σ id) left := by
  have hpend : ∀ {a b}, g.Edge a b → b ≠ id → b ∈ g.downstream id → σ a ≠ .done →
      g.afterFailed σ id b = .skipped := by
    intro a b he hbid hb ha
    have hlocked : (σ b).isUnlocked ≠ true := fun hu => ha (h.done_before he hu)
    cases hσ : σ b with
    | pending => exact afterFailed_of_behind hbid ⟨hb, hσ⟩
    | skipped => rw [afterFailed_of_not_pending hbid (by simp [hσ]), hσ]
    | ready | running | done | failed => simp [hσ, TaskState.isUnlocked] at hlocked
  refine ⟨fun {a b} he hb => ?_, fun {a b} he ha => ?_, fun {b} hb => ?_, fun {b} hb => ?_⟩
  · rw [afterFailed_eq_done_iff hnot]
    by_cases hbid : b = id
    · exact h.done_before he (hbid ▸ hid)
    · by_cases hbehind : b ∈ g.downstream id ∧ σ b = .pending
      · simp [afterFailed_of_behind hbid hbehind, TaskState.isUnlocked] at hb
      · rw [afterFailed_of_not_behind hbid hbehind] at hb
        exact h.done_before he hb
  · by_cases haid : a = id
    · subst a
      have hne : b ≠ id := fun e => hv.acyclic id (.single (e ▸ he))
      exact hpend he hne ((mem_downstream_iff hv).mpr (.single he)) hnot
    · by_cases hbehind : a ∈ g.downstream id ∧ σ a = .pending
      · have hab : g.Before id b := ((mem_downstream_iff hv).mp hbehind.1).tail he
        have hne : b ≠ id := fun e => hv.acyclic id (e ▸ hab)
        exact hpend he hne ((mem_downstream_iff hv).mpr hab) (by simp [hbehind.2])
      · rw [afterFailed_of_not_behind haid hbehind] at ha
        have hb := h.skipped_behind he ha
        have hne : b ≠ id := fun e => by simp [← e, hb, TaskState.isUnlocked] at hid
        rw [afterFailed_of_not_pending hne (by simp [hb]), hb]
  · have hbid : b ≠ id := fun e => by simp [e, afterFailed_self] at hb
    have hbehind : ¬ (b ∈ g.downstream id ∧ σ b = .pending) := fun hc => by
      simp [afterFailed_of_behind hbid hc] at hb
    rw [afterFailed_of_not_behind hbid hbehind] at hb
    rw [notDone_congr fun _ => afterFailed_eq_done_iff hnot]
    exact h.left_pending hb
  · by_cases hbid : b = id
    · exact h.left_unlocked (hbid ▸ hid)
    · by_cases hbehind : b ∈ g.downstream id ∧ σ b = .pending
      · simp [afterFailed_of_behind hbid hbehind, TaskState.isUnlocked] at hb
      · rw [afterFailed_of_not_behind hbid hbehind] at hb
        exact h.left_unlocked hb

end AfterFailed

end Graph

section AfterStop

variable {σ : TaskId → TaskState}

theorem afterStop_of_waiting {x : TaskId} (h : σ x = .pending ∨ σ x = .ready) :
    afterStop σ x = .skipped :=
  if_pos h

theorem afterStop_of_not_waiting {x : TaskId} (h : ¬ (σ x = .pending ∨ σ x = .ready)) :
    afterStop σ x = σ x :=
  if_neg h

theorem afterStop_ne {x : TaskId} : afterStop σ x ≠ .pending ∧ afterStop σ x ≠ .ready := by
  by_cases h : σ x = .pending ∨ σ x = .ready
  · simp [afterStop_of_waiting h]
  · rw [afterStop_of_not_waiting h]
    exact not_or.mp h

theorem Graph.Respected.afterStop {g : Graph} {left : TaskId → Nat} (h : g.Respected σ left) :
    g.Respected (afterStop σ) left := by
  have hold : ∀ {b}, (Rollout.afterStop σ b).isUnlocked = true → (σ b).isUnlocked = true := by
    intro b hb
    by_cases hw : σ b = .pending ∨ σ b = .ready
    · simp [afterStop_of_waiting hw, TaskState.isUnlocked] at hb
    · rwa [afterStop_of_not_waiting hw] at hb
  refine ⟨fun {a b} he hb => ?_, fun {a b} he ha => ?_, fun {b} hb => ?_, fun hb => ?_⟩
  · have ha := h.done_before he (hold hb)
    rw [afterStop_of_not_waiting (by simp [ha]), ha]
  · have hnot : σ a ≠ .done := fun hd => by
      simp [afterStop_of_not_waiting (show ¬ (σ a = .pending ∨ σ a = .ready) by simp [hd]), hd] at ha
    have hlocked : (σ b).isUnlocked ≠ true := fun hu => hnot (h.done_before he hu)
    cases hσ : σ b with
    | pending => exact afterStop_of_waiting (Or.inl hσ)
    | skipped => rw [afterStop_of_not_waiting (by simp [hσ]), hσ]
    | ready | running | done | failed => simp [hσ, TaskState.isUnlocked] at hlocked
  · exact absurd hb afterStop_ne.1
  · exact h.left_unlocked (hold hb)

end AfterStop

theorem Graph.Respected.afterStart {g : Graph} {σ : TaskId → TaskState} {left : TaskId → Nat}
    (h : g.Respected σ left) {id : TaskId} (hid : σ id = .ready) :
    g.Respected (Function.update σ id .running) left := by
  have hself : (σ id).isUnlocked = true := by simp [hid, TaskState.isUnlocked]
  have hdone : ∀ a, Function.update σ id .running a = .done ↔ σ a = .done := by
    intro a
    by_cases ha : a = id <;> simp [ha, hid]
  refine ⟨fun {a b} he hb => ?_, fun {a b} he ha => ?_, fun {b} hb => ?_, fun {b} hb => ?_⟩
  · rw [hdone]
    by_cases hbid : b = id
    · exact h.done_before he (hbid ▸ hself)
    · rw [Function.update_of_ne hbid] at hb
      exact h.done_before he hb
  · have haid : a ≠ id := fun e => by simp [e] at ha
    rw [Function.update_of_ne haid] at ha
    have hb := h.skipped_behind he ha
    have hbid : b ≠ id := fun e => by simp [e, hid] at hb
    rw [Function.update_of_ne hbid, hb]
  · have hbid : b ≠ id := fun e => by simp [e] at hb
    rw [Function.update_of_ne hbid] at hb
    rw [notDone_congr hdone]
    exact h.left_pending hb
  · by_cases hbid : b = id
    · exact h.left_unlocked (hbid ▸ hself)
    · rw [Function.update_of_ne hbid] at hb
      exact h.left_unlocked hb

end Rollout
