import Rollout.Proofs.Settlement

/-! What a stop does to a run and to all that follows. The first stop counts: nothing more is started, what
is in flight ends by itself, all that waits is skipped, and no later stop makes a difference. -/

namespace Rollout

def Stop.status : Stop → Status
  | cancelled _ => .cancelled
  | fatal _ => .failure

/-- The stop that the completion of a task asks for. -/
def Completion.stop? (c : Context) (id : TaskId) : Completion → Option Stop
  | succeeded outputs => (c.writeAll id outputs.pairs).2.map fun f => .fatal f.message
  | failed diagnostic fatal => if fatal then some (.fatal diagnostic) else none

theorem Completion.eq_fatal_of_stop? {c : Context} {id : TaskId} {d : Completion} {why : Stop}
    (h : d.stop? c id = some why) : ∃ reason, why = .fatal reason := by
  cases d with
  | succeeded outputs =>
    obtain ⟨f, -, rfl⟩ := Option.map_eq_some_iff.mp h
    exact ⟨f.message, rfl⟩
  | failed diagnostic fatal =>
    rw [Completion.stop?] at h
    split_ifs at h
    exact ⟨diagnostic, (Option.some.inj h).symm⟩

namespace Run

variable {g : Graph} {r r' : Run} {id : TaskId}

theorem stopped_fail (now : Instant) (r : Run) (id : TaskId) (diagnostic : String) :
    (fail now r id diagnostic).stopped = r.stopped :=
  (framed_fail now r id diagnostic).stopped

theorem stopped_complete (now : Instant) (r : Run) (id : TaskId) (c : Completion)
    (hv : r.graph.Valid) :
    (r.complete now id c).stopped = r.stopped.or (c.stop? r.context id) := by
  cases c with
  | succeeded outputs =>
    rw [Completion.stop?]
    cases hw : r.context.writeAll id outputs.pairs with
    | mk context fault =>
      cases fault with
      | none =>
        rw [complete_written hw, Option.map_none, Option.or_none]
        exact (unlocks_foldl (hv.nodup_successors id) (finishWell now context r id)).stopped
      | some f => rw [complete_taken hw, stopped_stop_eq, stopped_fail, Option.map_some]
  | failed diagnostic fatal =>
    rw [complete_failed, Completion.stop?]
    cases fatal with
    | false => exact (stopped_fail now _ id diagnostic).trans (Option.or_none).symm
    | true => exact (stopped_stop_eq _ _).trans (by rw [stopped_fail]; rfl)

theorem stopped_dispatch (now : Instant) (r : Run) (id : TaskId) (kind : Kind) :
    (r.dispatch now id kind).1.stopped = r.stopped := by
  cases hc : r.covered kind with
  | false =>
    rw [dispatch_uncovered hc]
    exact stopped_fail now _ id _
  | true =>
    rw [dispatch_covered hc]
    rfl

theorem Coherent.failed_of_stop (hv : g.Valid) (h : Coherent g r) (hid : r.stateOf id = .running)
    (now : Instant) {c : Completion} {s : Stop} (hc : c.stop? r.context id = some s) :
    (r.complete now id c).stateOf id = .failed := by
  have hfailed : ∀ context diagnostic s,
      ((fail now { r with inFlight := r.inFlight - 1, context := context } id diagnostic).stop s).stateOf
        id = .failed := fun context diagnostic s => by
    have hstate := h.stateOf_failed { r with inFlight := r.inFlight - 1, context := context }
      (show r.stateOf id ≠ .skipped by simp [hid]) rfl rfl now diagnostic
    have hown := (congrFun hstate id).trans Graph.afterFailed_self
    have hleads := (h.fail_running hv hid context now diagnostic).leads_stop s id
    exact (hleads.eq_of_terminal (by rw [hown]; rfl)).trans hown
  cases c with
  | succeeded outputs =>
    rw [Completion.stop?] at hc
    cases hw : r.context.writeAll id outputs.pairs with
    | mk context fault =>
      cases fault with
      | none => simp [hw] at hc
      | some f =>
        rw [complete_taken hw]
        exact hfailed context _ _
  | failed diagnostic fatal =>
    cases fatal with
    | false => simp [Completion.stop?] at hc
    | true => exact hfailed r.context diagnostic _

theorem Unfolds.find?_of_states (h : Unfolds g r r') (ht : r.Told) (ht' : r'.Told) {x : TaskId}
    (hs : r'.states.find? x = r.states.find? x) :
    r'.tally.outcomes.find? x = r.tally.outcomes.find? x := by
  have hstate := (ht'.stateOf? x).trans ((congrArg _ hs).trans (ht.stateOf? x).symm)
  cases ho : r.tally.outcomes.find? x with
  | some o => exact h.find?_eq ho (hstate.trans (by simp [Tally.stateOf?, ho]))
  | none =>
    rw [Tally.stateOf?, Tally.stateOf?, ho, Option.map_none] at hstate
    exact Option.map_eq_none_iff.mp hstate

theorem finish_of_stopped {s : Stop} (h : r.stopped = some s) (later : Instant) :
    (r.finish later).1.abortReason = some s.reason ∧ (r.finish later).1.status = s.status := by
  constructor
  · change r.stopped.map Stop.reason = _
    rw [h, Option.map_some]
  · change Tally.status r.tally.outcomes.values r.stopped = _
    rw [h]
    cases s <;> rfl

end Run

namespace Loop

variable {g : Graph} {limit : Nat} {l l' : Loop} {actions : List Action} {a : Action}

/-- The stop that a step of the loop asks for, if it does so. -/
def cause? (l : Loop) : Action → Option Stop
  | .check =>
    if l.watchCancel && l.cancelled then some .byCaller
    else if l.watchDeadline && l.late then some .byDeadline
    else none
  | .heedCancel => some .byCaller
  | .heedDeadline => some .byDeadline
  | .handle id c => c.stop? l.run.context id
  | _ => none

theorem stopped_check (l : Loop) : l.check.run.stopped = l.run.stopped.or (l.cause? .check) := by
  rw [Loop.check]
  by_cases hs : l.run.stopped.isSome = true
  · rw [if_pos hs]
    exact (Option.or_of_isSome hs).symm
  · rw [if_neg hs, cause?]
    split_ifs
    · exact Run.stopped_stop_eq l.run .byCaller
    · exact Run.stopped_stop_eq l.run .byDeadline
    · exact Option.or_none.symm

theorem Sound.stopped_eq (hv : g.Valid) (hs : Sound g limit l) (s : Step l a l') :
    l'.run.stopped = l.run.stopped.or (l.cause? a) := by
  cases s with
  | check place => exact l.stopped_check
  | dispatch | refuse => exact (Run.stopped_dispatch _ l.run _ _).trans Option.or_none.symm
  | handle now place split =>
    exact Run.stopped_complete now l.run _ _ (hs.coherent.graph_eq ▸ hv)
  | heedCancel place watched cancelled => exact Run.stopped_stop_eq l.run .byCaller
  | heedDeadline place watched late => exact Run.stopped_stop_eq l.run .byDeadline
  | wait | leave | ended | cancel | expire => exact Option.or_none.symm

theorem Step.starts_nothing (s : Step l a l') (h : l.run.stopped.isSome = true) :
    a.dispatched? = none ∧ a.refused? = none := by
  have hfull : l.isFull ≠ false := fun hf => by simp [(isFull_eq_false_iff.mp hf).1] at h
  cases s with
  | dispatch now place notFull => exact absurd notFull hfull
  | refuse now place notFull => exact absurd notFull hfull
  | _ => exact ⟨rfl, rfl⟩

theorem Sound.starts_nothing (hv : g.Valid) (hs : Sound g limit l) {more : List Action}
    (p : Path l more l') (h : l.run.stopped.isSome = true) :
    dispatched more = [] ∧ refused more = [] := by
  induction p with
  | refl => exact ⟨rfl, rfl⟩
  | snoc p s ih =>
    have hnone := s.starts_nothing ((hs.continues_path hv p).isSome_stopped h)
    rw [dispatched_snoc, refused_snoc, ih.1, ih.2, hnone.1, hnone.2]
    exact ⟨rfl, rfl⟩

theorem Moves.wasTaken_eq {r r' : Run} (hv : g.Valid) (h : Run.Coherent g r) (m : Moves r a r')
    (hd : a.dispatched? = none) (hr : a.refused? = none) (x : TaskId) :
    (r'.stateOf x).wasTaken = (r.stateOf x).wasTaken := by
  cases m with
  | still other => rfl
  | stop other why => exact h.wasTaken_stop _ x
  | turn now action first task =>
    rcases action with rfl | rfl
    · cases hd
    · cases hr
  | taken now c running => exact (h.completed hv running now c).wasTaken x

theorem Sound.running_step (hv : g.Valid) (hs : Sound g limit l) (hl : Ledger actions l)
    (s : Step l a l') {x : TaskId} (hx : l.run.stateOf x = .running) (ha : a.handled? ≠ some x) :
    l'.run.stateOf x = .running := by
  have hunder := hs.mem_underway.mpr hx
  refine (hl.step hv hs s).running (hs.step hv s) ?_ fun hm => ?_
  · exact mem_dispatched_append (hl.dispatched_perm.mem_iff.mpr (List.mem_append_right _ hunder)) [a]
  · rw [handled_snoc] at hm
    rcases List.mem_append.mp hm with hm | hm
    · exact hl.not_mem_handled hunder hm
    · exact ha (Option.mem_toList.mp hm)

theorem Account.settled_of_dispatched (hs : Sound g limit l) (hl : Ledger actions l)
    (h : Account actions l) {x : TaskId} (hd : x ∈ dispatched actions)
    (hx : l.run.stateOf x ≠ .running) :
    ∃ e, .ended x e ∈ actions ∧ l.run.Settled x e.completion := by
  have hm : x ∈ handled actions := not_not.mp fun hn => hx (hl.running hs hd hn)
  rw [handled_eq] at hm
  obtain ⟨⟨y, c⟩, hc, rfl⟩ := List.mem_map.mp hm
  obtain ⟨e, he, rfl⟩ := mem_reported_iff.mp (h.reported_perm.mem_iff.mpr (List.mem_append_left _ hc))
  exact ⟨e, he, h.settled hc⟩

theorem Sound.skipped_of_stop (hv : g.Valid) (hs : Sound g limit l) (s : Step l a l')
    (hd : a.dispatched? = none) (hr : a.refused? = none) (hstopped : l'.run.stopped.isSome = true)
    {x : TaskId} (hx : l.run.stateOf x = .pending ∨ l.run.stateOf x = .ready) :
    l'.run.stateOf x = .skipped := by
  have hwaits : (l.run.stateOf x).wasTaken = false := by
    rcases hx with hx | hx <;> simp [hx, TaskState.wasTaken]
  have hnever := ((hs.moves s).wasTaken_eq hv hs.coherent hd hr x).trans hwaits
  obtain ⟨hpending, hready⟩ := (hs.step hv s).coherent.stopped_empty hstopped x
  cases hx' : l'.run.stateOf x <;> simp_all [TaskState.wasTaken]

theorem Sound.terminal_kept (hv : g.Valid) (hs : Sound g limit l) (p : Path l actions l') {x : TaskId}
    {t : TaskState} (hx : l.run.states.find? x = some t) (ht : t.isTerminal = true) :
    l'.run.states.find? x = some t ∧
      l'.run.tally.outcomes.find? x = l.run.tally.outcomes.find? x := by
  have hs' := hs.path hv p
  have hstate := Run.stateOf_of_find? hx
  have hlast := (hs.leads_path hv p x).eq_of_terminal (by rw [hstate, ht])
  have hsame := hs.coherent.find?_states_of_eq hs'.coherent hx (hlast.trans hstate)
  exact ⟨hsame, (hs.unfolds_path hv p).find?_of_states hs.coherent.told hs'.coherent.told
    (hsame.trans hx.symm)⟩

/-- How a run goes on that the next action after `l` stops: what holds at any later point `l'`, with
`actions` all that happened up to there and `more` what happened since the stop. -/
structure WindsDown (s : Stop) (l : Loop) (actions more : List Action) (l' : Loop) : Prop where
  stopped : l'.run.stopped = some s
  reported : ∀ later, (l'.run.finish later).1.abortReason = some s.reason ∧
    (l'.run.finish later).1.status = s.status
  idle : dispatched more = [] ∧ refused more = []
  waiting : ∀ x, l.run.states.find? x = some .pending ∨ l.run.states.find? x = some .ready →
    l'.run.states.find? x = some .skipped
  running : ∀ x, l.run.states.find? x = some .running → l'.run.states.find? x = some .running ∨
    ∃ e, .ended x e ∈ actions ∧ l'.run.Settled x e.completion
  ended : l'.place = .left → ∀ x, l.run.states.find? x = some .running →
    ∃ e, .ended x e ∈ actions ∧ l'.run.Settled x e.completion
  kept : ∀ x s, s ∈ [.done, .failed, .skipped] → l.run.states.find? x = some s →
    l'.run.states.find? x = some s ∧
      l'.run.tally.outcomes.find? x = l.run.tally.outcomes.find? x

theorem WindsDown.of_stop (hv : g.Valid) (hs : Sound g limit l) (hl : Ledger actions l)
    (ha : Account actions l) (s : Step l a l') (hd : a.dispatched? = none) (hr : a.refused? = none)
    {why : Stop} (hstopped : l'.run.stopped = some why) {more : List Action} {l'' : Loop}
    (rest : Path l' more l'') : WindsDown why l (actions ++ a :: more) more l'' := by
  have hs' := hs.step hv s
  have hs'' := hs'.path hv rest
  have whole := Path.cons s rest
  have hl'' := hl.path hv hs whole
  have ha'' := ha.path hv hs hl whole
  have hstill := (hs'.continues_path hv rest).stopped hstopped
  have hsettled : ∀ x, l.run.states.find? x = some .running → l''.run.stateOf x ≠ .running →
      ∃ e, .ended x e ∈ actions ++ a :: more ∧ l''.run.Settled x e.completion := fun x hx hx' => by
    have hunder := hs.mem_underway.mpr (Run.stateOf_of_find? hx)
    have hstarted := hl.dispatched_perm.mem_iff.mpr (List.mem_append_right _ hunder)
    exact ha''.settled_of_dispatched hs'' hl'' (mem_dispatched_append hstarted _) hx'
  refine ⟨hstill, Run.finish_of_stopped hstill, hs'.starts_nothing hv rest (by simp [hstopped]),
    fun x hx => ?_, fun x hx => ?_, fun hleft x hx => ?_, fun x t ht hx => ?_⟩
  · -- what waits is skipped by the stop itself, or just before it behind a task that failed
    have hskipped := hs.skipped_of_stop hv s hd hr (by simp [hstopped])
      (hx.imp Run.stateOf_of_find? Run.stateOf_of_find?)
    have hlast := hs'.leads_path hv rest x
    rw [hskipped] at hlast
    rcases hx with hx | hx <;> exact hs.coherent.find?_states_of_eq hs''.coherent hx hlast
  · by_cases hx' : l''.run.stateOf x = .running
    · exact Or.inl (hs.coherent.find?_states_of_eq hs''.coherent hx hx')
    · exact Or.inr (hsettled x hx hx')
  · refine hsettled x hx fun hx' => ?_
    have hterminal := hs''.coherent.isTerminal_of_isOver hv (hs''.finished hleft) x
    simp [hx', TaskState.isTerminal] at hterminal
  · exact hs.terminal_kept hv whole hx (TaskState.isTerminal_iff.mpr ht)

theorem starts_nothing_of_cause {why : Stop} (h : l.cause? a = some why) :
    a.dispatched? = none ∧ a.refused? = none := by
  cases a with
  | dispatch id => cases h
  | refuse id => cases h
  | _ => exact ⟨rfl, rfl⟩

/-- The first stop of a run counts: what had its turn is left alone, all else is skipped, and whatever
happens afterwards changes neither the status of the run nor the reason given for it. -/
theorem first_stop_counts {p : Plan} (h : Graph.ofPlan p = .ok g) {runId : String} {handlers : Registry}
    {limits : Run.Limits} {now : Instant}
    (path : Path (start runId g handlers limits now) actions l) (step : Step l a l')
    (going : l.run.stopped = none) :
    l'.run.stopped = l.cause? a ∧ ∀ why, l.cause? a = some why →
      (∀ x s, s ∈ [.running, .done, .failed, .skipped] → l.run.states.find? x = some s →
        a.handled? ≠ some x → l'.run.states.find? x = some s ∧
          l'.run.tally.outcomes.find? x = l.run.tally.outcomes.find? x) ∧
      (∀ x, a.handled? = some x → l'.run.states.find? x = some .failed) ∧
      ∀ more l'', Path l' more l'' → WindsDown why l (actions ++ a :: more) more l'' := by
  have hv := Graph.valid_of_ofPlan h
  have hs := sound_of_path hv path
  have hl := ledger_of_path hv path
  have hs' := hs.step hv step
  have hstopped := (hs.stopped_eq hv step).trans (by rw [going, Option.none_or])
  refine ⟨hstopped, fun why hwhy => ⟨fun x t ht hx hx' => ?_, fun x hx => ?_, fun more l'' rest => ?_⟩⟩
  · rcases List.mem_cons.mp ht with rfl | ht
    · have hrunning := hs.running_step hv hl step (Run.stateOf_of_find? hx) hx'
      have hsame := hs.coherent.find?_states_of_eq hs'.coherent hx hrunning
      exact ⟨hsame, (hs.unfolds hv step).find?_of_states hs.coherent.told hs'.coherent.told
        (hsame.trans hx.symm)⟩
    · exact hs.terminal_kept hv (.snoc (.refl l) step) hx (TaskState.isTerminal_iff.mpr ht)
  · cases step with
    | @handle id c before after now place split =>
      obtain rfl : id = x := Option.some.inj hx
      have hid := hs.mem_underway.mp (mem_underway_of_arrived split)
      have hfailed := hs.coherent.failed_of_stop hv hid now hwhy
      have hmem : id ∈ g.ids := hs.coherent.mem_ids (by simp [hid])
      rw [hs'.coherent.find?_states hmem]
      exact congrArg some hfailed
    | _ => cases hx
  · obtain ⟨hd, hr⟩ := starts_nothing_of_cause hwhy
    exact .of_stop hv hs hl (account_of_path hv path) step hd hr (hstopped.trans hwhy) rest

/-- The chain is cancelled while its first task runs, which fails afterwards. -/
theorem path_chain_cancelled : ∃ l l' l'', Path chain [.check, .dispatch 1, .wait, .cancel] l ∧
    l.run.stopped = none ∧ Step l .heedCancel l' ∧
    Path l' [.check, .wait, .ended 1 (.panicked none), .handle 1 (Ending.panicked none).completion,
      .check, .leave] l'' ∧ l''.place = .left := by
  have h₁ := Path.snoc (.refl chain) (.check rfl)
  have h₂ := h₁.snoc (a := .dispatch 1) (.dispatch default rfl rfl rfl rfl rfl)
  have h₃ := h₂.snoc (.wait rfl rfl rfl)
  have h₄ := h₃.snoc (.cancel rfl)
  have ends : ∀ {m n as}, Path m as n → Path n [] n := fun {_ n _} _ => .refl n
  have r₁ := (ends (h₄.snoc (.heedCancel rfl rfl rfl))).snoc (.check rfl)
  have r₂ := r₁.snoc (.wait rfl rfl rfl)
  have r₃ := r₂.snoc (.ended (.panicked none) List.mem_cons_self)
  have r₄ := r₃.snoc (.handle default rfl (List.nil_append _).symm)
  have r₅ := r₄.snoc (.check rfl)
  exact ⟨_, _, _, h₄, rfl, .heedCancel rfl rfl rfl, r₅.snoc (.leave rfl rfl rfl), rfl⟩

theorem first_stop_counts_chain : ∃ actions l more l', Path chain (actions ++ .heedCancel :: more) l' ∧
    WindsDown .byCaller l (actions ++ .heedCancel :: more) more l' ∧ l'.place = .left := by
  obtain ⟨l, l', l'', path, going, step, rest, left⟩ := path_chain_cancelled
  obtain ⟨-, hstop⟩ := first_stop_counts (p := chainPlan) rfl path step going
  obtain ⟨-, -, hafter⟩ := hstop .byCaller rfl
  exact ⟨_, l, _, l'', path.append (.cons step rest), hafter _ l'' rest, left⟩

end Loop

end Rollout
