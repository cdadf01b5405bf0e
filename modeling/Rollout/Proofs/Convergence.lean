import Rollout.Proofs.ContextWrites
import Rollout.Proofs.DependencySafety
import Rollout.Proofs.Fates

/-! The order in which handlers end and the number of permits do not matter. As long as nothing stops the
run, each task is left in the state that the graph and the handlers alone give it. -/

namespace Rollout

theorem Ending.shown_state (e : Option Ending) : (Ending.state e).shown = Ending.state e := by
  cases e with
  | none => rfl
  | some e => cases e <;> rfl

/-- Endings that stop no run: none is fatal, and no key is left by two tasks. -/
structure Behaviour.Harmless {g : Graph} (hv : g.Valid) (b : Behaviour g) : Prop where
  not_fatal : ∀ id ∈ g.ids, ∀ f, b.fate hv id = some (.failed f) → f.isFatal = false
  disjoint : ∀ id ∈ g.ids, ∀ other ∈ g.ids, ∀ o o' key, b.fate hv id = some (.finished o) →
    b.fate hv other = some (.finished o') → key ∈ o.keys → key ∈ o'.keys → id = other

namespace Loop

/-- How far a run has come on the way that the fates of its tasks prescribe. -/
structure Agrees {g : Graph} (hv : g.Valid) (b : Behaviour g) (actions : List Action) (l : Loop) :
    Prop where
  going : l.run.stopped = none
  ended : ∀ {id e}, .ended id e ∈ actions → b.fate hv id = some e
  arrived : ∀ {id c}, (id, c) ∈ l.arrived → ∃ e, .ended id e ∈ actions ∧ c = e.completion
  done : ∀ {id}, l.run.stateOf id = .done → ∃ o, .ended id (.finished o) ∈ actions
  failed : ∀ {id}, l.run.stateOf id = .failed → b.state hv id = .failed
  skipped : ∀ {id}, id ∈ g.ids → l.run.stateOf id = .skipped → b.fate hv id = none
  written : ∀ {key e}, Table.find? l.run.context key = some e →
    ∃ o, l.run.stateOf e.producer = .done ∧ .ended e.producer (.finished o) ∈ actions ∧ key ∈ o.keys

variable {g : Graph} {hv : g.Valid} {b : Behaviour g} {limit : Nat} {l l' : Loop}
  {actions : List Action} {a : Action}

theorem Agrees.outputsIn_eq (h : Agrees hv b actions l) {id : TaskId} (hd : l.run.stateOf id = .done) :
    outputsIn actions id = Ending.outputs (b.fate hv id) ∧ ∃ o, b.fate hv id = some (.finished o) := by
  obtain ⟨o, ho⟩ := h.done hd
  have hfate := h.ended ho
  refine ⟨?_, o, hfate⟩
  rw [hfate]
  apply Loop.outputsIn_eq ho
  intro o' ho'
  have hsame := (h.ended ho').symm.trans hfate
  exact Ending.finished.inj (Option.some.inj hsame)

/-- A step that neither ends a task nor handles a completion and that keeps the states which tasks have
for good. -/
theorem Agrees.quiet (h : Agrees hv b actions l) (hstopped : l'.run.stopped = none)
    (ha : a.form ≠ .ended) (harrived : l'.arrived = l.arrived)
    (hcontext : l'.run.context = l.run.context)
    (hstate : ∀ x, (l.run.stateOf x).isTerminal = true ∨ (l'.run.stateOf x).isTerminal = true →
      l'.run.stateOf x = l.run.stateOf x) : Agrees hv b (actions ++ [a]) l' := by
  have hmem : ∀ {id e}, .ended id e ∈ actions ++ [a] → .ended id e ∈ actions := fun {id e} hm => by
    rcases List.mem_append.mp hm with hm | hm
    · exact hm
    · rw [← List.mem_singleton.mp hm] at ha
      exact absurd rfl ha
  refine ⟨hstopped, fun he => h.ended (hmem he), fun {id c} hc => ?_, fun {id} hd => ?_,
    fun {id} hf => ?_, fun {id} hid hs => ?_, fun {key e} he => ?_⟩
  · obtain ⟨e, he, hce⟩ := h.arrived (harrived ▸ hc)
    exact ⟨e, List.mem_append_left _ he, hce⟩
  · have hsame := hstate id (Or.inr (by simp [hd, TaskState.isTerminal]))
    obtain ⟨o, ho⟩ := h.done (hsame.symm.trans hd)
    exact ⟨o, List.mem_append_left _ ho⟩
  · have hsame := hstate id (Or.inr (by simp [hf, TaskState.isTerminal]))
    exact h.failed (hsame.symm.trans hf)
  · have hsame := hstate id (Or.inr (by simp [hs, TaskState.isTerminal]))
    exact h.skipped hid (hsame.symm.trans hs)
  · obtain ⟨o, hd, ho, hk⟩ := h.written (hcontext ▸ he)
    have hsame := hstate e.producer (Or.inl (by simp [hd, TaskState.isTerminal]))
    exact ⟨o, hsame.trans hd, List.mem_append_left _ ho, hk⟩

/-- A handler that ends does so on what the tasks before it left, all of which are done. -/
theorem Agrees.ended_step (hs : Sound g limit l) (h : Agrees hv b actions l) {id : TaskId} {e : Ending}
    (hcall : id ∈ l.calls) (hfollows : b.Follows (actions ++ [.ended id e])) :
    Agrees hv b (actions ++ [.ended id e]) { l with
      calls := l.calls.erase id, free := l.free + 1,
      arrived := l.arrived ++ [(id, e.completion)] } := by
  have hrunning : l.run.stateOf id = .running := hs.mem_underway.mp (List.mem_append_left _ hcall)
  have hunlocked : (l.run.stateOf id).isUnlocked = true := by simp [hrunning, TaskState.isUnlocked]
  have hbefore : ∀ x, g.Before x id → outputsIn actions x = Ending.outputs (b.fate hv x) ∧
      ∃ o, b.fate hv x = some (.finished o) := fun x hx =>
    h.outputsIn_eq (hs.coherent.done_before hunlocked hx)
  have hfate : b.fate hv id = some e := by
    rw [Behaviour.fate_of_done fun x hx => (hbefore x (.single hx)).2, hfollows.last]
    exact congrArg some (b.local_ending id _ _ fun x hx => (hbefore x hx).1.symm)
  refine ⟨h.going, fun {x e'} hm => ?_, fun {x c} hm => ?_, fun hd => ?_, h.failed, h.skipped,
    fun {key entry} hw => ?_⟩
  · rcases List.mem_append.mp hm with hm | hm
    · exact h.ended hm
    · obtain ⟨rfl, rfl⟩ := Action.ended.inj (List.mem_singleton.mp hm)
      exact hfate
  · rcases List.mem_append.mp hm with hm | hm
    · obtain ⟨e', he', hc⟩ := h.arrived hm
      exact ⟨e', List.mem_append_left _ he', hc⟩
    · obtain ⟨rfl, rfl⟩ := Prod.mk.inj (List.mem_singleton.mp hm)
      exact ⟨e, List.mem_append_right _ List.mem_cons_self, rfl⟩
  · obtain ⟨o, ho⟩ := h.done hd
    exact ⟨o, List.mem_append_left _ ho⟩
  · obtain ⟨o, hd, ho, hk⟩ := h.written hw
    exact ⟨o, hd, List.mem_append_left _ ho, hk⟩

section Handle

variable {id : TaskId} {c : Completion} {before after : List (TaskId × Completion)} {now : Instant}

theorem mem_of_mem_handle {x : TaskId} {e : Ending} (hm : .ended x e ∈ actions ++ [.handle id c]) :
    .ended x e ∈ actions := by
  rcases List.mem_append.mp hm with hm | hm
  · exact hm
  · cases List.mem_singleton.mp hm

theorem mem_of_mem_rest (hsplit : l.arrived = before ++ (id, c) :: after) {q : TaskId × Completion}
    (hq : q ∈ before ++ after) : q ∈ l.arrived := by
  rw [hsplit]
  rcases List.mem_append.mp hq with hq | hq
  · exact List.mem_append_left _ hq
  · exact List.mem_append_right _ (List.mem_cons_of_mem _ hq)

theorem Agrees.writeAll_eq (hb : b.Harmless hv) (hs : Sound g limit l) (h : Agrees hv b actions l)
    (hrunning : l.run.stateOf id = .running) {o : Outputs} (ho : .ended id (.finished o) ∈ actions) :
    (l.run.context.writeAll id o.pairs).2 = none := by
  have hfate := h.ended ho
  obtain ⟨σ, hσ⟩ := Behaviour.exists_ending_of_fate hfate
  apply Context.writeAll_of_free (b.sorted_outputs id σ o hσ.symm).nodup_keys
  intro q hq
  cases hf : Table.find? l.run.context q.1 with
  | none => rfl
  | some entry =>
    obtain ⟨o', hd, ho', hk⟩ := h.written hf
    have hid : id ∈ g.ids := hs.coherent.mem_ids (by simp [hrunning])
    have hother : entry.producer ∈ g.ids := hs.coherent.mem_ids (by simp [hd])
    have hsame := hb.disjoint id hid entry.producer hother o o' q.1 hfate (h.ended ho')
      (List.mem_map_of_mem hq) hk
    rw [← hsame, hrunning] at hd
    cases hd

/-- What a completion has to do to a run for it to agree with the fates as it did before. -/
theorem Agrees.taken (h : Agrees hv b actions l) (hsplit : l.arrived = before ++ (id, c) :: after)
    {r : Run} (hstopped : r.stopped = none)
    (hdone : ∀ {x}, r.stateOf x = .done →
      l.run.stateOf x = .done ∨ ∃ o, .ended x (.finished o) ∈ actions)
    (hkept : ∀ {x}, l.run.stateOf x = .done → r.stateOf x = .done)
    (hfailed : ∀ {x}, r.stateOf x = .failed → l.run.stateOf x = .failed ∨ b.state hv x = .failed)
    (hskipped : ∀ {x}, r.stateOf x = .skipped → l.run.stateOf x = .skipped ∨ b.fate hv x = none)
    (hwritten : ∀ {key e}, Table.find? r.context key = some e → Table.find? l.run.context key = some e ∨
      ∃ o, r.stateOf e.producer = .done ∧ .ended e.producer (.finished o) ∈ actions ∧ key ∈ o.keys) :
    Agrees hv b (actions ++ [.handle id c])
      { l with run := r, arrived := before ++ after, place := .top } := by
  refine ⟨hstopped, fun he => h.ended (mem_of_mem_handle he), fun {x d} hm => ?_, fun {x} hd => ?_,
    fun {x} hf => ?_, fun {x} hx hk => ?_, fun {key entry} hw => ?_⟩
  · obtain ⟨e, he, hd⟩ := h.arrived (mem_of_mem_rest hsplit hm)
    exact ⟨e, List.mem_append_left _ he, hd⟩
  · obtain ⟨o, ho⟩ := (hdone hd).elim h.done fun ho => ho
    exact ⟨o, List.mem_append_left _ ho⟩
  · exact (hfailed hf).elim h.failed fun hb => hb
  · exact (hskipped hk).elim (h.skipped hx) fun hb => hb
  · rcases hwritten hw with hold | ⟨o, hd, ho, hk⟩
    · obtain ⟨o, hd, ho, hk⟩ := h.written hold
      exact ⟨o, hkept hd, List.mem_append_left _ ho, hk⟩
    · exact ⟨o, hd, List.mem_append_left _ ho, hk⟩

/-- A task that ended well is done, and what it leaves is written. -/
theorem Agrees.handle_finished (hb : b.Harmless hv) (hs : Sound g limit l) (h : Agrees hv b actions l)
    (hsplit : l.arrived = before ++ (id, c) :: after) {o : Outputs}
    (ho : .ended id (.finished o) ∈ actions) (hc : c = .succeeded o) :
    Agrees hv b (actions ++ [.handle id c]) { l with
      run := l.run.complete now id c, arrived := before ++ after, place := .top } := by
  have hrunning : l.run.stateOf id = .running := hs.mem_underway.mp (mem_underway_of_arrived hsplit)
  have hfresh := h.writeAll_eq hb hs hrunning ho
  obtain ⟨context, hw⟩ : ∃ context, l.run.context.writeAll id o.pairs = (context, none) :=
    ⟨_, Prod.ext rfl hfresh⟩
  have hrun : l.run.complete now id c = (l.run.graph.successors id).foldl Run.unlock
      (Run.finishWell now context l.run id) := by
    rw [hc, Run.complete_written hw]
  have hu := hs.coherent.unlocks hv now context id
  have hstate : (l.run.complete now id c).stateOf = g.afterDone l.run.stateOf l.run.left id := by
    rw [hrun, hs.coherent.stateOf_written hv hrunning now context]
  have hdone : ∀ {x}, (l.run.complete now id c).stateOf x = .done ↔
      x = id ∨ l.run.stateOf x = .done := by
    rw [hstate]
    exact Graph.afterDone_eq_done_iff
  have hold : ∀ {x}, (l.run.complete now id c).stateOf x = .failed ∨
      (l.run.complete now id c).stateOf x = .skipped →
      l.run.stateOf x = (l.run.complete now id c).stateOf x := fun {x} hx => by
    rw [hstate] at hx ⊢
    by_cases he : x = id
    · simp [he, Graph.afterDone_self] at hx
    · by_cases hopen : x ∈ g.successors id ∧ l.run.stateOf x = .pending ∧ l.run.left x ≤ 1
      · simp [Graph.afterDone_of_open he hopen] at hx
      · rw [Graph.afterDone_of_not_open he hopen]
  refine h.taken hsplit ?_ (fun {x} hd => ?_) (fun hd => hdone.mpr (Or.inr hd))
    (fun hf => Or.inl ((hold (Or.inl hf)).trans hf))
    (fun hk => Or.inl ((hold (Or.inr hk)).trans hk)) fun {key entry} hf => ?_
  · rw [hrun, hu.stopped]
    exact h.going
  · rcases hdone.mp hd with rfl | hd
    · exact Or.inr ⟨o, ho⟩
    · exact Or.inl hd
  · have hcontext : (l.run.complete now id c).context = (l.run.context.writeAll id o.pairs).1 := by
      rw [hrun, hu.context, hw]
      rfl
    rw [hcontext] at hf
    rcases Context.find?_writeAll hf with hf | ⟨hp, hm⟩
    · exact Or.inl hf
    · refine Or.inr ⟨o, hdone.mpr (Or.inl hp), ?_, Table.mem_keys_of_mem_pairs hm⟩
      rw [hp]
      exact ho

/-- A task that ended otherwise is failed, and what waits behind it is skipped. -/
theorem Agrees.handle_failed (hs : Sound g limit l) (h : Agrees hv b actions l)
    (hsplit : l.arrived = before ++ (id, c) :: after) (hnot : ∀ o, b.fate hv id ≠ some (.finished o))
    (hfailed : b.state hv id = .failed) (diagnostic : String) (hc : c = .failed diagnostic false) :
    Agrees hv b (actions ++ [.handle id c]) { l with
      run := l.run.complete now id c, arrived := before ++ after, place := .top } := by
  have hrunning : l.run.stateOf id = .running := hs.mem_underway.mp (mem_underway_of_arrived hsplit)
  have hrun : l.run.complete now id c =
      Run.fail now { l.run with inFlight := l.run.inFlight - 1 } id diagnostic := by
    rw [hc]
    rfl
  have hf := Run.framed_fail now { l.run with inFlight := l.run.inFlight - 1 } id diagnostic
  have hstate : (l.run.complete now id c).stateOf = g.afterFailed l.run.stateOf id := by
    have hskip : l.run.stateOf id ≠ .skipped := by simp [hrunning]
    rw [hrun]
    exact hs.coherent.stateOf_failed { l.run with inFlight := l.run.inFlight - 1 } hskip rfl rfl now
      diagnostic
  have hdone : ∀ {x}, (l.run.complete now id c).stateOf x = .done ↔ l.run.stateOf x = .done := by
    rw [hstate]
    exact Graph.afterFailed_eq_done_iff (by simp [hrunning])
  refine h.taken hsplit ?_ (fun hd => Or.inl (hdone.mp hd)) hdone.mpr (fun {x} hx => ?_)
    (fun {x} hk => ?_) fun {key entry} hw => Or.inl ?_
  · rw [hrun, hf.stopped]
    exact h.going
  · rw [hstate] at hx
    by_cases he : x = id
    · exact Or.inr (he ▸ hfailed)
    · by_cases hbehind : x ∈ g.downstream id ∧ l.run.stateOf x = .pending
      · simp [Graph.afterFailed_of_behind he hbehind] at hx
      · rw [Graph.afterFailed_of_not_behind he hbehind] at hx
        exact Or.inl hx
  · rw [hstate] at hk
    by_cases he : x = id
    · simp [he, Graph.afterFailed_self] at hk
    · by_cases hbehind : x ∈ g.downstream id ∧ l.run.stateOf x = .pending
      · exact Or.inr (Behaviour.fate_of_before ((Graph.mem_downstream_iff hv).mp hbehind.1) hnot)
      · rw [Graph.afterFailed_of_not_behind he hbehind] at hk
        exact Or.inl hk
  · rw [hrun, hf.context] at hw
    exact hw

theorem Agrees.handle_step (hb : b.Harmless hv) (hs : Sound g limit l) (h : Agrees hv b actions l)
    (hsplit : l.arrived = before ++ (id, c) :: after) :
    Agrees hv b (actions ++ [.handle id c]) { l with
      run := l.run.complete now id c, arrived := before ++ after, place := .top } := by
  have hrunning : l.run.stateOf id = .running := hs.mem_underway.mp (mem_underway_of_arrived hsplit)
  have hid : id ∈ g.ids := hs.coherent.mem_ids (by simp [hrunning])
  have hmem : (id, c) ∈ l.arrived := by
    rw [hsplit]
    exact List.mem_append_right _ List.mem_cons_self
  obtain ⟨e, he, hc⟩ := h.arrived hmem
  have hfate := h.ended he
  cases e with
  | finished o => exact h.handle_finished hb hs hsplit he hc
  | failed f =>
    refine h.handle_failed hs hsplit (by simp [hfate]) (by rw [Behaviour.state, hfate]; rfl)
      f.message (hc.trans ?_)
    rw [Ending.completion, hb.not_fatal id hid f hfate]
  | panicked message =>
    exact h.handle_failed hs hsplit (by simp [hfate]) (by rw [Behaviour.state, hfate]; rfl) _ hc

end Handle

theorem Agrees.step (hb : b.Harmless hv) (hs : Sound g limit l) (h : Agrees hv b actions l)
    (hcover : ∀ id t, g.task? id = some t → l.run.covered t.kind = true) (s : Step l a l')
    (hend : ∀ why, l'.run.stopped ≠ some (.cancelled why)) (hfollows : b.Follows (actions ++ [a])) :
    Agrees hv b (actions ++ [a]) l' := by
  have hstop : ∀ why, l'.run ≠ l.run.stop (.cancelled why) := fun why he =>
    hend why (by rw [he, Run.stopped_stop h.going])
  cases s with
  | check place =>
    rcases l.check_run with hr | ⟨why, hr⟩
    · refine h.quiet ?_ (by simp [Action.form]) l.check_arrived (congrArg Run.context hr) fun x _ => ?_
      · change l.check.run.stopped = none
        rw [hr]
        exact h.going
      · exact congrArg (Run.stateOf · x) hr
    · exact absurd hr (hstop why)
  | @dispatch id rest t now place notFull first task covered =>
    have hid := (hs.coherent.ready_head first).1
    have hstate := Run.Coherent.stateOf_dispatch_covered hid now covered
    refine h.quiet ?_ (by simp [Action.form]) rfl (Run.context_dispatch now l.run _ _) fun x hx => ?_
    · change (l.run.dispatch now id t.kind).1.stopped = none
      rw [Run.dispatch_covered covered]
      exact h.going
    · change (l.run.dispatch now id t.kind).1.stateOf x = l.run.stateOf x
      by_cases hxid : x = id
      · rw [hstate, hxid, Function.update_self, hid] at hx
        simp [TaskState.isTerminal] at hx
      · rw [hstate, Function.update_of_ne hxid]
  | refuse now place notFull first task uncovered =>
    rw [hs.coherent.graph_eq] at task
    rw [hcover _ _ task] at uncovered
    cases uncovered
  | handle now place split => exact h.handle_step hb hs split
  | heedCancel place watched cancelled => exact absurd rfl (hstop _)
  | heedDeadline place watched late => exact absurd rfl (hstop _)
  | ended e call => exact h.ended_step hs call hfollows
  | wait | leave | cancel | expire => exact h.quiet h.going (by simp [Action.form]) rfl rfl fun _ _ => rfl

theorem agrees_start (hv : g.Valid) (b : Behaviour g) (runId : String) (handlers : Registry)
    (limits : Run.Limits) (now : Instant) :
    Agrees hv b [] (start runId g handlers limits now) := by
  have hcases := Run.stateOf_start_cases (g := g) runId handlers.contains now
  refine ⟨rfl, nofun, nofun, fun {id} hd => ?_, fun {id} hf => ?_, fun {id} hid hk => ?_, nofun⟩
  · change (Run.start runId g handlers.contains now).stateOf id = .done at hd
    rcases hcases id with h | h | h <;> simp [h.1] at hd
  · change (Run.start runId g handlers.contains now).stateOf id = .failed at hf
    rcases hcases id with h | h | h <;> simp [h.1] at hf
  · change (Run.start runId g handlers.contains now).stateOf id = .skipped at hk
    rcases hcases id with h | h | h
    · exact absurd hid h.2
    · simp [h.1] at hk
    · simp [h.1] at hk

theorem Agrees.path (hb : b.Harmless hv) (hs : Sound g limit l) (h : Agrees hv b [] l)
    (hcover : ∀ id t, g.task? id = some t → l.run.covered t.kind = true) (p : Path l actions l')
    (hend : ∀ why, l'.run.stopped ≠ some (.cancelled why)) (hfollows : b.Follows actions) :
    Agrees hv b actions l' := by
  induction p with
  | refl => exact h
  | snoc p s ih =>
    have hsound := hs.path hv p
    have hcontinues := hsound.continues hv s
    refine (ih (fun why he => hend why (hcontinues.stopped he)) hfollows.of_snoc).step hb hsound
      (fun id t ht => ?_) s hend hfollows
    rw [(hs.continues_path hv p).covered]
    exact hcover id t ht

theorem Agrees.stateOf_eq (hs : Sound g limit l) (h : Agrees hv b actions l) (hover : l.place = .left)
    {id : TaskId} (hid : id ∈ g.ids) : l.run.stateOf id = b.state hv id := by
  have hterminal := hs.coherent.isTerminal_of_isOver hv (hs.finished hover) id
  cases hstate : l.run.stateOf id with
  | done =>
    obtain ⟨o, ho⟩ := h.done hstate
    exact (Behaviour.state_eq_done_iff.mpr ⟨o, h.ended ho⟩).symm
  | failed => exact (h.failed hstate).symm
  | skipped => exact (Behaviour.state_eq_skipped_iff.mpr (h.skipped hid hstate)).symm
  | pending | ready | running => simp [hstate, TaskState.isTerminal] at hterminal

end Loop

/-- A run of a plan that is over and that nothing cancelled, with handlers for all of its tasks that end
as the behaviour says. -/
def Behaviour.LeadsTo {g : Graph} (b : Behaviour g) (p : Plan) (l : Loop) : Prop :=
  ∃ runId handlers limits now actions, (∀ t ∈ p.tasks, Registry.contains handlers t.kind = true) ∧
    Loop.Path (.start runId g handlers limits now) actions l ∧ b.Follows actions ∧
    (∀ why, l.run.stopped ≠ some (.cancelled why)) ∧ l.place = .left

namespace Behaviour.LeadsTo

variable {g : Graph} {b : Behaviour g} {p : Plan} {l : Loop} (h : Graph.ofPlan p = .ok g)
  (hb : b.Harmless (Graph.valid_of_ofPlan h)) (hl : b.LeadsTo p l) {id : TaskId}
include hb hl

theorem sound_agrees :
    ∃ limit actions, Loop.Sound g limit l ∧ Loop.Agrees (Graph.valid_of_ofPlan h) b actions l := by
  have hv := Graph.valid_of_ofPlan h
  obtain ⟨runId, handlers, limits, now, actions, hcover, path, hfollows, hend, -⟩ := hl
  have hs := Loop.sound_start hv runId handlers limits now
  refine ⟨limits.concurrency, actions, hs.path hv path, ?_⟩
  refine (Loop.agrees_start hv b runId handlers limits now).path hb hs (fun id t ht => ?_) path hend
    hfollows
  exact hcover t ((Graph.task?_of_ofPlan h).mp ht).1

theorem find?_states (hid : id ∈ g.ids) :
    l.run.states.find? id = some (b.state (Graph.valid_of_ofPlan h) id) := by
  obtain ⟨limit, actions, hs, ha⟩ := hl.sound_agrees h hb
  obtain ⟨_, _, _, _, _, _, _, _, _, hover⟩ := hl
  rw [hs.coherent.find?_states hid, ha.stateOf_eq hs hover hid]

theorem stateOf?_finish (hid : id ∈ g.ids) (now : Instant) :
    (l.run.finish now).1.stateOf? id = some (b.state (Graph.valid_of_ofPlan h) id) := by
  obtain ⟨limit, actions, hs, -⟩ := hl.sound_agrees h hb
  rw [hs.coherent.stateOf?_finish (Graph.valid_of_ofPlan h), hl.find?_states h hb hid, Option.map_some]
  exact congrArg some (Ending.shown_state _)

theorem find?_states_finish (hid : id ∈ g.ids) (now : Instant) :
    (l.run.finish now).1.states.find? id = some (b.state (Graph.valid_of_ofPlan h) id) := by
  obtain ⟨limit, actions, hs, -⟩ := hl.sound_agrees h hb
  rw [hs.coherent.states_finish (Graph.valid_of_ofPlan h), Table.find?_map, hl.find?_states h hb hid,
    Option.map_some]
  exact congrArg some (Ending.shown_state _)

theorem reports_skipped_iff (hid : id ∈ g.ids) (now : Instant) :
    (l.run.finish now).1.stateOf? id = some .skipped ↔
      ∃ a, p.Edge a id ∧ (l.run.finish now).1.stateOf? a ≠ some .done := by
  rw [hl.stateOf?_finish h hb hid, Option.some_inj, state_skipped_iff_exists]
  refine exists_congr fun a => ?_
  rw [← Graph.edge_iff_of_ofPlan h]
  refine and_congr_right fun he => ?_
  have ha := ((Graph.valid_of_ofPlan h).mem_ids he).1
  rw [hl.stateOf?_finish h hb ha, ne_eq, ne_eq, Option.some_inj]

end Behaviour.LeadsTo

/-- Runs of a plan converge: they leave each task in the state of its fate, which is to be skipped exactly if
some task right before it is not done. They report it so, and thus the same states and the same status,
whatever the number of permits and the order in which handlers end. -/
theorem convergence {p : Plan} {g : Graph} (h : Graph.ofPlan p = .ok g) (b : Behaviour g)
    (hb : b.Harmless (Graph.valid_of_ofPlan h)) :
    (∀ l, b.LeadsTo p l → ∀ id ∈ p.ids,
      l.run.states.find? id = some (b.state (Graph.valid_of_ofPlan h) id) ∧
      ∀ now, (l.run.finish now).1.stateOf? id = some (b.state (Graph.valid_of_ofPlan h) id) ∧
        (l.run.finish now).1.states.find? id = some (b.state (Graph.valid_of_ofPlan h) id) ∧
        ((l.run.finish now).1.stateOf? id = some .skipped ↔
          ∃ a, p.Edge a id ∧ (l.run.finish now).1.stateOf? a ≠ some .done)) ∧
    (∀ l l', b.LeadsTo p l → b.LeadsTo p l' → ∀ now now',
      (l.run.finish now).1.states = (l'.run.finish now').1.states ∧
      (l.run.finish now).1.status = (l'.run.finish now').1.status) := by
  have hv := Graph.valid_of_ofPlan h
  refine ⟨fun l hl id hid => ?_, fun l l' hl hl' now now' => ?_⟩
  · have hid := (Graph.mem_ids_of_ofPlan h).mpr hid
    refine ⟨hl.find?_states h hb hid, fun now => ⟨?_, ?_, ?_⟩⟩
    · exact hl.stateOf?_finish h hb hid now
    · exact hl.find?_states_finish h hb hid now
    · exact hl.reports_skipped_iff h hb hid now
  · obtain ⟨_, _, hs, ha⟩ := hl.sound_agrees h hb
    obtain ⟨_, _, hs', ha'⟩ := hl'.sound_agrees h hb
    have hstates : l.run.states = l'.run.states := by
      refine Table.eq_of_find? ?_ ?_ fun id hid => ?_
      · rw [hs.coherent.keys_states, hs'.coherent.keys_states]
      · rw [hs.coherent.keys_states]
        exact hv.nodup_ids
      · rw [hs.coherent.keys_states] at hid
        rw [hl.find?_states h hb hid, hl'.find?_states h hb hid]
    have hreported : (l.run.finish now).1.states = (l'.run.finish now').1.states := by
      rw [hs.coherent.states_finish hv, hs'.coherent.states_finish hv, hstates]
    refine ⟨hreported, ?_⟩
    rw [hs.coherent.status_finish hv ha.going, hs'.coherent.status_finish hv ha'.going, hreported]

/-- The first task of the two panics whatever there is. -/
def Loop.chainBehaviour : Behaviour (.index "chain" (Graph.taskTable chainPlan)) where
  ending id _ := if id = 1 then .panicked none else .finished .empty
  local_ending _ _ _ _ := rfl
  sorted_outputs id σ o h := by
    split at h
    · cases h
    · rw [← Ending.finished.inj h]
      exact List.Pairwise.nil

theorem convergence_chain : ∃ l, Loop.chainBehaviour.LeadsTo Loop.chainPlan l ∧
    (∀ id ∈ Loop.chainPlan.ids, l.run.states.find? id =
      some (Loop.chainBehaviour.state (Graph.valid_of_ofPlan (p := Loop.chainPlan) rfl) id)) ∧
    ∀ now, (l.run.finish now).1.stateOf? 2 = some .skipped := by
  obtain ⟨l, path, hover, hgoing, hstates⟩ := Loop.path_chain
  have hsettled : ∀ (hv : Graph.Valid _) id e, Loop.chainBehaviour.fate hv id = some e →
      e = if id = 1 then .panicked none else .finished .empty := fun hv id e he => by
    obtain ⟨σ, hσ⟩ := Behaviour.exists_ending_of_fate he
    exact hσ
  have hb : Loop.chainBehaviour.Harmless (Graph.valid_of_ofPlan (p := Loop.chainPlan) rfl) := by
    refine ⟨fun id _ f hf => ?_, fun id _ other _ o o' key ho _ hk _ => ?_⟩
    · have he := hsettled _ id _ hf
      split at he <;> cases he
    · have he := hsettled _ id _ ho
      split at he
      · cases he
      · rw [Ending.finished.inj he] at hk
        cases hk
  have hfollows : Loop.chainBehaviour.Follows
      [.check, .dispatch 1, .wait, .ended 1 (.panicked none), .handle 1 (Ending.panicked none).completion,
        .check, .leave] := by
    intro before id e after he
    have hm : Loop.Action.ended id e ∈ before ++ .ended id e :: after :=
      List.mem_append_right _ List.mem_cons_self
    rw [← he] at hm
    obtain ⟨rfl, rfl⟩ : id = 1 ∧ e = .panicked none := by simpa using hm
    rfl
  have hl : Loop.chainBehaviour.LeadsTo Loop.chainPlan l :=
    ⟨"run", _, ⟨0, none⟩, default, _, by decide, path, hfollows, fun why => by simp [hgoing], hover⟩
  have hall := (convergence rfl Loop.chainBehaviour hb).1 l hl
  refine ⟨l, hl, fun id hid => (hall id hid).1, fun now => ?_⟩
  have hskipped : l.run.states.find? 2 = some .skipped := by
    rw [Table.find?, hstates]
    rfl
  obtain ⟨hstate, hreported⟩ := hall 2 (by decide)
  rw [(hreported now).1, ← hstate, hskipped]

end Rollout
