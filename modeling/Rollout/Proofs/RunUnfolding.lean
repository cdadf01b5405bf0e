import Rollout.Proofs.LoopInvariant

/-! A run unfolds by what happens to one task at a time: the task starts, ends or is skipped, its outcome is
changed and the event told. Nothing else touches outcomes or events, and no outcome goes back. -/

namespace Rollout

/-- How far a task has come. -/
def TaskState.stage : TaskState → Nat
  | pending | ready => 0
  | running => 1
  | done | failed | skipped => 2

namespace Run

inductive Unfolds (g : Graph) : Run → Run → Prop
  | still {r r' : Run} (tally : r'.tally = r.tally) (events : r'.events = r.events) : Unfolds g r r'
  | started {r r' : Run} {id : TaskId} {t : Task} (now : Instant) (task : g.task? id = some t)
      (state : r.tally.stateOf? id = some .pending)
      (behind : ∀ a, g.Edge a id → r.tally.stateOf? a = some .done)
      (tally : r'.tally = r.tally.started now id)
      (events : r'.events = r.events ++ [.dispatched id t.kind]) : Unfolds g r r'
  | done {r r' : Run} {id : TaskId} (now : Instant) (state : r.tally.stateOf? id = some .running)
      (tally : r'.tally = r.tally.done now id)
      (events : r'.events = r.events ++ [.finished id .done none]) : Unfolds g r r'
  | failed {r r' : Run} {id : TaskId} (now : Instant) (diagnostic : String)
      (state : r.tally.stateOf? id = some .pending ∨ r.tally.stateOf? id = some .running)
      (tally : r'.tally = r.tally.failed now id diagnostic)
      (events : r'.events = r.events ++ [.finished id .failed (some diagnostic)]) : Unfolds g r r'
  | skipped {r r' : Run} {id : TaskId} (reason : String)
      (state : r.tally.stateOf? id = some .pending) (tally : r'.tally = r.tally.skipped id reason)
      (events : r'.events = r.events ++ [.skipped id reason]) : Unfolds g r r'
  | trans {r r' r'' : Run} (first : Unfolds g r r') (next : Unfolds g r' r'') : Unfolds g r r''

variable {g : Graph} {r r' : Run} {id : TaskId}

theorem Unfolds.refl (g : Graph) (r : Run) : Unfolds g r r := .still rfl rfl

theorem Unfolds.runId_eq (h : Unfolds g r r') : r'.tally.runId = r.tally.runId := by
  induction h with
  | still tally => rw [tally]
  | started _ _ _ _ tally | done _ _ tally | failed _ _ _ tally | skipped _ _ tally =>
    rw [tally]
    rfl
  | trans first next ih ih' => exact ih'.trans ih

theorem stage_change {t : Tally} {id : TaskId} {f : Outcome → Outcome} {s : TaskState}
    (hs : t.stateOf? id = some s) (hf : ∀ o, s.stage < (f o).state.stage) {x : TaskId} {o : Outcome}
    (ho : t.outcomes.find? x = some o) : ∃ o', (t.change id f).outcomes.find? x = some o' ∧
      (o' = o ∨ o.state.stage < o'.state.stage) := by
  rw [Tally.find?_change, ho]
  by_cases hx : x = id
  · subst x
    have hstate : o.state = s := by simpa [Tally.stateOf?, ho] using hs
    exact ⟨f o, if_pos rfl, Or.inr (hstate ▸ hf o)⟩
  · exact ⟨o, if_neg hx, Or.inl rfl⟩

theorem Unfolds.stage (h : Unfolds g r r') {x : TaskId} {o : Outcome}
    (ho : r.tally.outcomes.find? x = some o) : ∃ o', r'.tally.outcomes.find? x = some o' ∧
      (o' = o ∨ o.state.stage < o'.state.stage) := by
  induction h generalizing o with
  | still tally events => exact ⟨o, by rw [tally, ho], Or.inl rfl⟩
  | started now task state behind tally events =>
    rw [tally]
    exact stage_change state (fun _ => by simp [TaskState.stage]) ho
  | done now state tally events =>
    rw [tally]
    exact stage_change state (fun _ => by simp [TaskState.stage]) ho
  | failed now diagnostic state tally events =>
    rw [tally]
    rcases state with state | state
    · exact stage_change state (fun _ => by simp [TaskState.stage]) ho
    · exact stage_change state (fun _ => by simp [TaskState.stage]) ho
  | skipped reason state tally events =>
    rw [tally]
    exact stage_change state (fun _ => by simp [TaskState.stage]) ho
  | trans first next ih ih' =>
    obtain ⟨o', ho', hle⟩ := ih ho
    obtain ⟨o'', ho'', hle'⟩ := ih' ho'
    refine ⟨o'', ho'', ?_⟩
    rcases hle with rfl | hlt
    · exact hle'
    · rcases hle' with rfl | hlt'
      · exact Or.inr hlt
      · exact Or.inr (hlt.trans hlt')

/-- An outcome changes only with its state. -/
theorem Unfolds.find?_eq (h : Unfolds g r r') {x : TaskId} {o : Outcome}
    (ho : r.tally.outcomes.find? x = some o) (hs : r'.tally.stateOf? x = some o.state) :
    r'.tally.outcomes.find? x = some o := by
  obtain ⟨o', ho', hle⟩ := h.stage ho
  rcases hle with rfl | hlt
  · exact ho'
  · have hsame : o'.state = o.state := by simpa [Tally.stateOf?, ho'] using hs
    rw [hsame] at hlt
    exact absurd hlt (Nat.lt_irrefl _)

theorem Told.stateOf?_eq (h : r.Told) (hid : id ∈ r.states.keys) :
    r.tally.stateOf? id = some (r.stateOf id).shown := by
  obtain ⟨s, hs⟩ := Table.mem_keys_iff.mp hid
  rw [h.stateOf?, stateOf, hs]
  rfl

theorem Told.stateOf?_waiting (h : r.Told) (hid : r.stateOf id = .pending ∨ r.stateOf id = .ready) :
    r.tally.stateOf? id = some .pending := by
  have hskip : r.stateOf id ≠ .skipped := by rcases hid with hid | hid <;> simp [hid]
  rw [h.stateOf?_eq (mem_keys_of_stateOf hskip)]
  rcases hid with hid | hid <;> simp [hid, TaskState.shown]

section Operations

theorem unfolds_skip (h : r.Told) (hid : r.stateOf id = .pending ∨ r.stateOf id = .ready)
    (reason : String) : Unfolds g r (skip reason r id) :=
  .skipped reason (h.stateOf?_waiting hid) rfl rfl

theorem unfolds_foldl_skip (reason : String) {l : List TaskId} (hnd : l.Nodup) (h : r.Told)
    (hl : ∀ x ∈ l, r.stateOf x = .pending ∨ r.stateOf x = .ready) :
    Unfolds g r (l.foldl (skip reason) r) := by
  induction l generalizing r with
  | nil => exact .refl g r
  | cons id l ih =>
    obtain ⟨hid, hnd⟩ := List.nodup_cons.mp hnd
    refine (unfolds_skip h (hl id List.mem_cons_self) reason).trans
      (ih hnd ((framed_skip reason r id).told h) fun x hx => ?_)
    have hne : x ≠ id := fun e => hid (e ▸ hx)
    rw [stateOf_skip, Function.update_of_ne hne]
    exact hl x (List.mem_cons_of_mem _ hx)

theorem unfolds_foldl_skipPending (reason : String) (l : List TaskId) (h : r.Told) :
    Unfolds g r (l.foldl (skipPending reason) r) := by
  induction l generalizing r with
  | nil => exact .refl g r
  | cons id l ih =>
    rw [List.foldl_cons]
    by_cases hid : r.stateOf id = .pending
    · rw [show skipPending reason r id = skip reason r id from if_pos hid]
      exact (unfolds_skip h (Or.inl hid) reason).trans (ih ((framed_skip reason r id).told h))
    · rw [show skipPending reason r id = r from if_neg hid]
      exact ih h

theorem unfolds_fail (h : r.Told) (hid : r.stateOf id = .ready ∨ r.stateOf id = .running)
    (now : Instant) (diagnostic : String) : Unfolds g r (fail now r id diagnostic) := by
  rw [fail_eq]
  have hstate : r.tally.stateOf? id = some .pending ∨ r.tally.stateOf? id = some .running := by
    rcases hid with hid | hid
    · exact Or.inl (h.stateOf?_waiting (Or.inr hid))
    · rw [h.stateOf?_eq (mem_keys_of_stateOf (by simp [hid])), hid]
      exact Or.inr rfl
  refine .trans (.failed now diagnostic hstate rfl rfl)
    (unfolds_foldl_skipPending _ _ (told_mark h ?_ _))
  exact fun _ => ⟨rfl, rfl⟩

theorem told_unlock (r : Run) (id : TaskId) :
    (r.unlock id).tally = r.tally ∧ (r.unlock id).events = r.events := by
  unfold unlock
  split_ifs
  · exact ⟨rfl, rfl⟩
  · simp only
    split_ifs <;> exact ⟨rfl, rfl⟩

theorem unfolds_foldl_unlock (l : List TaskId) (r : Run) : Unfolds g r (l.foldl unlock r) := by
  induction l generalizing r with
  | nil => exact .refl g r
  | cons id l ih => exact .trans (.still (told_unlock r id).1 (told_unlock r id).2) (ih _)

theorem Coherent.unfolds_stop (hv : g.Valid) (h : Coherent g r) (s : Stop) :
    Unfolds g r (r.stop s) := by
  cases hs : r.stopped with
  | some old =>
    rw [stop_of_stopped (by simp [hs])]
    exact .refl g r
  | none =>
    have hnd : r.waiting.Nodup := by
      rw [waiting, h.graph_eq]
      exact hv.nodup_ids.filter _
    rw [stop_eq hs]
    exact .trans (unfolds_foldl_skip s.skipReason hnd h.told fun x hx => (mem_waiting h.keys_eq).mp hx)
      (.still rfl rfl)

theorem Coherent.unfolds_fail (h : Coherent g r) (hid : r.stateOf id = .ready ∨ r.stateOf id = .running)
    (r' : Run) (hstates : r'.states = r.states) (htally : r'.tally = r.tally)
    (hevents : r'.events = r.events) (now : Instant) (diagnostic : String) :
    Unfolds g r (fail now r' id diagnostic) := by
  have hid' : r'.stateOf id = .ready ∨ r'.stateOf id = .running := by
    rwa [stateOf, hstates]
  exact .trans (.still htally hevents)
    (Run.unfolds_fail (.of_eq h.told hstates htally) hid' now diagnostic)

theorem Coherent.unfolds_complete (hv : g.Valid) (h : Coherent g r) (hid : r.stateOf id = .running)
    (now : Instant) (c : Completion) : Unfolds g r (r.complete now id c) := by
  cases c with
  | succeeded outputs =>
    cases hw : r.context.writeAll id outputs.pairs with
    | mk context fault =>
      cases fault with
      | none =>
        have hstate : r.tally.stateOf? id = some .running := by
          rw [h.told.stateOf?_eq (mem_keys_of_stateOf (by simp [hid])), hid]
          rfl
        rw [complete_written hw]
        exact .trans (.done now hstate rfl rfl) (unfolds_foldl_unlock _ _)
      | some f =>
        have hfail := h.unfolds_fail (Or.inr hid)
          { r with inFlight := r.inFlight - 1, context := context } rfl rfl rfl now f.message
        rw [complete_taken hw]
        exact hfail.trans ((h.fail_running hv hid context now f.message).unfolds_stop hv _)
  | failed diagnostic fatal =>
    have hfail := h.unfolds_fail (Or.inr hid) { r with inFlight := r.inFlight - 1 } rfl rfl rfl now
      diagnostic
    rw [complete_failed]
    cases fatal with
    | false => exact hfail
    | true => exact hfail.trans ((h.fail_running hv hid r.context now diagnostic).unfolds_stop hv _)

theorem Coherent.unfolds_dispatch (h : Coherent g r) {rest : List TaskId}
    (hr : r.ready = id :: rest) {t : Task} (ht : g.task? id = some t) (now : Instant) :
    Unfolds g r (r.dispatch now id t.kind).1 := by
  have hid := (h.ready_head hr).1
  cases hc : r.covered t.kind with
  | false =>
    rw [dispatch_uncovered hc]
    exact h.unfolds_fail (Or.inl hid) { r with ready := r.ready.drop 1 } rfl rfl rfl now _
  | true =>
    rw [dispatch_covered hc]
    refine .started now ht (h.told.stateOf?_waiting (Or.inr hid)) (fun a he => ?_) rfl rfl
    have hdone := h.respected.done_before he (by simp [hid, TaskState.isUnlocked])
    have hkey : a ∈ r.states.keys := mem_keys_of_stateOf (by simp [hdone])
    rw [h.told.stateOf?_eq hkey, hdone]
    rfl

end Operations

end Run

namespace Loop

variable {g : Graph} {limit : Nat} {l l' : Loop} {actions : List Action} {a : Action}

theorem Moves.unfolds {r r' : Run} (hv : g.Valid) (h : Run.Coherent g r) (m : Moves r a r') :
    Run.Unfolds g r r' := by
  cases m with
  | still other => exact .refl g r
  | stop other why => exact h.unfolds_stop hv _
  | turn now action first task => exact h.unfolds_dispatch first (h.graph_eq ▸ task) now
  | taken now c running => exact h.unfolds_complete hv running now c

theorem Sound.unfolds (hv : g.Valid) (h : Sound g limit l) (s : Step l a l') :
    Run.Unfolds g l.run l'.run :=
  (h.moves s).unfolds hv h.coherent

theorem Sound.unfolds_path (hv : g.Valid) (h : Sound g limit l) (p : Path l actions l') :
    Run.Unfolds g l.run l'.run := by
  induction p with
  | refl => exact .refl g _
  | snoc p s ih => exact ih.trans ((h.path hv p).unfolds hv s)

end Loop

end Rollout
