import Rollout.Proofs.DependencySafety

/-! Runs come to an end with every task done, failed or skipped. The loop waits only for tasks that are
under way, handles the completion of each once, and takes a number of steps that the plan limits. -/

namespace Rollout.Loop

variable {g : Graph} {limit : Nat} {l l' : Loop} {actions : List Action}

theorem balance_of_path {runId : String} {handlers : Registry} {limits : Run.Limits} {now : Instant}
    (path : Path (start runId g handlers limits now) actions l) : Balance actions l :=
  (balance_start runId g handlers limits now).path path

theorem Sound.owing (hv : g.Valid) (h : Sound g limit l) (hw : l.place = .waiting) :
    0 < l.run.inFlight ∧ (l.calls ≠ [] ∨ l.arrived ≠ []) := by
  have hpos : 0 < l.run.inFlight := Nat.pos_iff_ne_zero.mpr (h.owed hw)
  refine ⟨hpos, ?_⟩
  rw [h.inFlight_eq hv, underway, List.length_append, List.length_map] at hpos
  by_contra hnone
  obtain ⟨hcalls, harrived⟩ := not_or.mp hnone
  rw [not_not.mp hcalls, not_not.mp harrived] at hpos
  simp at hpos

theorem Sound.inFlight_handle (hv : g.Valid) (h : Sound g limit l) {id : TaskId} {c : Completion}
    (s : Step l (.handle id c) l') : l'.run.inFlight + 1 = l.run.inFlight := by
  rw [h.inFlight_eq hv, (h.step hv s).inFlight_eq hv]
  cases s with
  | handle now place split => exact (underway_perm_of_arrived split).length_eq.symm

/-- The loop goes on by itself unless a handler has to end first. -/
theorem Sound.progress (hv : g.Valid) (h : Sound g limit l) (hover : l.place ≠ .left) :
    (∃ a l', Step l a l' ∧ a.form ∈ [.check, .dispatch, .refuse, .wait, .leave, .handle]) ∨
      l.calls ≠ [] := by
  cases hp : l.place with
  | top => exact Or.inl ⟨_, _, .check hp, by simp [Action.form]⟩
  | left => exact absurd hp hover
  | waiting =>
    rcases (h.owing hv hp).2 with hc | ha
    · exact Or.inr hc
    · obtain ⟨q, rest, he⟩ := List.exists_cons_of_ne_nil ha
      have hsplit : l.arrived = [] ++ (q.1, q.2) :: rest := he
      exact Or.inl ⟨_, _, .handle default hp hsplit, by simp [Action.form]⟩
  | filling =>
    refine Or.inl ?_
    cases hf : l.isFull with
    | true =>
      cases ho : l.run.isOver with
      | true => exact ⟨_, _, .leave hp hf ho, by simp [Action.form]⟩
      | false => exact ⟨_, _, .wait hp hf ho, by simp [Action.form]⟩
    | false =>
      obtain ⟨id, rest, hr⟩ := List.exists_cons_of_ne_nil (isFull_eq_false_iff.mp hf).2.1
      have hid := (h.coherent.ready_head hr).1
      have hmem : id ∈ g.ids := h.coherent.mem_ids (by simp [hid])
      obtain ⟨t, ht⟩ := Graph.mem_ids_iff.mp hmem
      rw [← h.coherent.graph_eq] at ht
      cases hc : l.run.covered t.kind with
      | true => exact ⟨_, _, .dispatch default hp hf hr ht hc, by simp [Action.form]⟩
      | false => exact ⟨_, _, .refuse default hp hf hr ht hc, by simp [Action.form]⟩

theorem Balance.heeded_le (h : Balance actions l) :
    times .heedCancel actions ≤ 1 ∧ times .heedDeadline actions ≤ 1 := by
  have hcancel := h.heedCancel
  have hdeadline := h.heedDeadline
  omega

/-- What is handled was started, so that waits are few: the one under way is for a task in flight. -/
theorem Balance.waits_le (hv : g.Valid) (hs : Sound g limit l) (hl : Ledger actions l)
    (h : Balance actions l) : times .handle actions ≤ g.size ∧ times .wait actions ≤ g.size + 2 := by
  have hwaits := h.waits
  have hheeded := h.heeded_le
  have hturns := hl.length_le hs
  have hstarted := hl.length_dispatched hv hs
  rw [length_handled_eq] at hstarted
  refine ⟨by omega, ?_⟩
  by_cases hw : l.place = .waiting
  · have hpos := (hs.owing hv hw).1
    rw [if_pos hw] at hwaits
    omega
  · rw [if_neg hw] at hwaits
    omega

/-- Every kind of step happens a limited number of times. -/
theorem Balance.length_le (hv : g.Valid) (hs : Sound g limit l) (hl : Ledger actions l)
    (h : Balance actions l) : actions.length ≤ 5 * g.size + 10 := by
  obtain ⟨hhandled, hwaits⟩ := h.waits_le hv hs hl
  have hheeded := h.heeded_le
  have hturns := hl.length_le hs
  have hchecks := h.checks
  have hcalls := h.calls
  have hleaves : times .leave actions ≤ 1 := by
    rw [h.leaves]
    split <;> omega
  have hcancels : times .cancel actions ≤ 1 := h.cancels ▸ Bool.toNat_le _
  have hexpires : times .expire actions ≤ 1 := h.expires ▸ Bool.toNat_le _
  rw [length_dispatched_eq, length_refused_eq] at hturns
  rw [length_eq_times]
  omega

theorem Ledger.handled_perm (hv : g.Valid) (hs : Sound g limit l) (h : Ledger actions l)
    (hover : l.place = .left) : (handled actions).Perm (dispatched actions) := by
  have hzero : l.run.inFlight = 0 := by
    have hsplit := hs.finished hover
    simp only [Run.isOver, Bool.and_eq_true, decide_eq_true_eq] at hsplit
    exact hsplit.1
  have hnone : l.underway = [] := List.length_eq_zero_iff.mp ((hs.inFlight_eq hv).symm.trans hzero)
  have hperm := h.dispatched_perm
  rw [hnone, List.append_nil] at hperm
  exact hperm.symm

theorem run_completes {p : Plan} (h : Graph.ofPlan p = .ok g) {runId : String} {handlers : Registry}
    {limits : Run.Limits} {now : Instant}
    (path : Path (start runId g handlers limits now) actions l) :
    (l.place = .waiting → 0 < l.run.inFlight ∧ (l.calls ≠ [] ∨ l.arrived ≠ [])) ∧
    (times .wait actions ≤ p.tasks.length + 2 ∧ times .handle actions ≤ p.tasks.length ∧
      times .heedCancel actions ≤ 1 ∧ times .heedDeadline actions ≤ 1) ∧
    (dispatched actions ++ refused actions).Nodup ∧
    (dispatched actions).length = (handled actions).length + l.run.inFlight ∧
    (∀ id c l', Step l (.handle id c) l' → l'.run.inFlight + 1 = l.run.inFlight) ∧
    (l.place = .left → (handled actions).Perm (dispatched actions) ∧
      ∀ id ∈ p.ids, ∃ s, l.run.states.find? id = some s ∧ s ∈ [.done, .failed, .skipped]) ∧
    (l.place ≠ .left →
      (∃ a l', Step l a l' ∧ a.form ∈ [.check, .dispatch, .refuse, .wait, .leave, .handle]) ∨
        l.calls ≠ []) ∧
    actions.length ≤ 5 * p.tasks.length + 10 := by
  have hv := Graph.valid_of_ofPlan h
  have hs := sound_of_path hv path
  have hl := ledger_of_path hv path
  have hb := balance_of_path path
  rw [← Graph.size_of_ofPlan h]
  obtain ⟨hhandled, hwaits⟩ := hb.waits_le hv hs hl
  refine ⟨hs.owing hv, ⟨hwaits, hhandled, hb.heeded_le⟩, hl.nodup, hl.length_dispatched hv hs,
    fun _ _ _ => hs.inFlight_handle hv, fun hover => ?_, hs.progress hv, hb.length_le hv hs hl⟩
  refine ⟨hl.handled_perm hv hs hover, fun id hid => ?_⟩
  have hterminal := hs.coherent.isTerminal_of_isOver hv (hs.finished hover) id
  refine ⟨_, hs.coherent.find?_states ((Graph.mem_ids_of_ofPlan h).mpr hid), ?_⟩
  cases hstate : l.run.stateOf id <;> simp_all [TaskState.isTerminal]

theorem run_completes_chain : ∃ actions l, Path chain actions l ∧ l.place = .left ∧
    (handled actions).Perm (dispatched actions) ∧
    ∀ id ∈ chainPlan.ids, ∃ s, l.run.states.find? id = some s ∧ s ∈ [.done, .failed, .skipped] := by
  obtain ⟨l, path, hover, -⟩ := path_chain
  obtain ⟨-, -, -, -, -, hend, -, -⟩ := run_completes (p := chainPlan) rfl path
  exact ⟨_, l, path, hover, hend hover⟩

end Rollout.Loop
