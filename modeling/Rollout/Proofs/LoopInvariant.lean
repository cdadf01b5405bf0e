import Rollout.Proofs.Lifecycle
import Rollout.Run.Loop

/-! What holds of the coordination loop between any two of its steps. The running tasks are those whose
handlers were called and whose completions were not handled, and every permit is free or with a call. -/

namespace Rollout

/-- Nothing waits or runs any more once a run has nothing left to wait for. -/
theorem Run.Coherent.isTerminal_of_isOver {g : Graph} {r : Run} (hv : g.Valid) (h : Run.Coherent g r)
    (hover : r.isOver = true) (x : TaskId) : (r.stateOf x).isTerminal = true := by
  have hsplit : r.inFlight = 0 ∧ (r.ready = [] ∨ r.stopped.isSome = true) := by
    simpa [Run.isOver, List.isEmpty_iff] using hover
  have hrunning : ∀ x, r.stateOf x ≠ .running := by
    intro x hx
    have hcount := h.inFlight_of_running hv hx
    omega
  have hready : ∀ x, r.stateOf x ≠ .ready := by
    intro x hx
    rcases hsplit.2 with he | hs
    · have hm := h.mem_ready.mpr hx
      simp [he] at hm
    · exact (h.stopped_empty hs x).2 hx
  have hpending : ∀ x, r.stateOf x ≠ .pending := by
    intro x
    induction x using hv.wellFounded_before.induction with
    | _ x ih =>
      intro hx
      obtain ⟨hleft, hpos⟩ := h.respected.left_pending hx
      have hcount : g.notDone r.stateOf x ≠ 0 := by omega
      -- a predecessor that is not done would have to be of one of the states ruled out
      refine hcount ((Graph.notDone_eq_zero_iff hv).mpr fun a he => ?_)
      have ha := ih a (.single he)
      have hbehind : ¬ (r.stateOf a = .failed ∨ r.stateOf a = .skipped) := fun hf => by
        have hskip := h.respected.skipped_behind he hf
        simp [hx] at hskip
      have har := hready a
      have han := hrunning a
      cases hs : r.stateOf a <;> simp_all
  have hr := hready x
  have hn := hrunning x
  have hp := hpending x
  cases hs : r.stateOf x <;> simp_all [TaskState.isTerminal]

namespace Loop

/-- Tasks whose completions the loop has to handle. -/
def underway (l : Loop) : List TaskId := l.calls ++ l.arrived.map Prod.fst

structure Sound (g : Graph) (limit : Nat) (l : Loop) : Prop where
  coherent : Run.Coherent g l.run
  nodup_underway : l.underway.Nodup
  mem_underway : ∀ {x}, x ∈ l.underway ↔ l.run.stateOf x = .running
  permits : l.free + l.calls.length = max limit 1
  owed : l.place = .waiting → l.run.inFlight ≠ 0
  finished : l.place = .left → l.run.isOver = true

variable {g : Graph} {limit : Nat} {l l' : Loop} {a : Action}

theorem Sound.inFlight_eq (h : Sound g limit l) (hv : g.Valid) :
    l.run.inFlight = l.underway.length := by
  have hmem : ∀ x, x ∈ g.ids.filter (fun x => l.run.stateOf x = .running) ↔ x ∈ l.underway := by
    intro x
    rw [h.mem_underway, List.mem_filter]
    constructor
    · exact fun hx => by simpa using hx.2
    · intro hx
      exact ⟨h.coherent.mem_ids (by simp [hx]), by simpa using hx⟩
  have hperm := (List.perm_ext_iff_of_nodup (hv.nodup_ids.filter _) h.nodup_underway).mpr hmem
  rw [h.coherent.inFlight_eq, List.countP_eq_length_filter, hperm.length_eq]

theorem Sound.change (h : Sound g limit l) (hc : Run.Coherent g l'.run)
    (hrunning : ∀ x, l'.run.stateOf x = .running ↔ l.run.stateOf x = .running)
    (hcalls : l'.calls = l.calls) (harrived : l'.arrived = l.arrived) (hfree : l'.free = l.free)
    (hplace : l'.place = .top ∨ l'.place = .filling) : Sound g limit l' := by
  have hunder : l'.underway = l.underway := by rw [underway, underway, hcalls, harrived]
  refine ⟨hc, ?_, fun {x} => ?_, ?_, fun hw => ?_, fun ho => ?_⟩
  · rw [hunder]
    exact h.nodup_underway
  · rw [hunder, h.mem_underway, hrunning]
  · rw [hfree, hcalls]
    exact h.permits
  · rcases hplace with hp | hp <;> simp [hp] at hw
  · rcases hplace with hp | hp <;> simp [hp] at ho

theorem Sound.stop (h : Sound g limit l) (s : Stop) (hrun : l'.run = l.run.stop s)
    (hcalls : l'.calls = l.calls) (harrived : l'.arrived = l.arrived) (hfree : l'.free = l.free)
    (hplace : l'.place = .top ∨ l'.place = .filling) : Sound g limit l' := by
  refine h.change (by rw [hrun]; exact h.coherent.stop s) (fun x => ?_) hcalls harrived hfree hplace
  rw [hrun]
  exact h.coherent.running_stop s

@[simp] theorem check_calls (l : Loop) : l.check.calls = l.calls := by
  unfold Loop.check
  split_ifs <;> rfl

@[simp] theorem check_arrived (l : Loop) : l.check.arrived = l.arrived := by
  unfold Loop.check
  split_ifs <;> rfl

@[simp] theorem check_free (l : Loop) : l.check.free = l.free := by
  unfold Loop.check
  split_ifs <;> rfl

@[simp] theorem check_cancelled (l : Loop) : l.check.cancelled = l.cancelled := by
  unfold Loop.check
  split_ifs <;> rfl

@[simp] theorem check_late (l : Loop) : l.check.late = l.late := by
  unfold Loop.check
  split_ifs <;> rfl

/-- A check leaves the run as it is or stops it. -/
theorem check_run (l : Loop) :
    l.check.run = l.run ∨ ∃ why, l.check.run = l.run.stop (.cancelled why) := by
  unfold Loop.check
  split_ifs
  · exact Or.inl rfl
  · exact Or.inr ⟨_, rfl⟩
  · exact Or.inr ⟨_, rfl⟩
  · exact Or.inl rfl

theorem Sound.check (h : Sound g limit l) : Sound g limit { l.check with place := .filling } := by
  rcases l.check_run with hr | ⟨why, hr⟩
  · refine h.change (by rw [hr]; exact h.coherent) (fun _ => by rw [hr]) l.check_calls l.check_arrived
      l.check_free (Or.inr rfl)
  · exact h.stop _ hr l.check_calls l.check_arrived l.check_free (Or.inr rfl)

theorem isFull_eq_false_iff :
    l.isFull = false ↔ l.run.stopped = none ∧ l.run.ready ≠ [] ∧ 0 < l.free := by
  simp [isFull, and_assoc, Nat.pos_iff_ne_zero]

theorem Sound.dispatch (hv : g.Valid) (h : Sound g limit l) {id : TaskId} {rest : List TaskId}
    {kind : Kind} (now : Instant) (hplace : l.place = .filling) (hfull : l.isFull = false)
    (hready : l.run.ready = id :: rest) (hc : l.run.covered kind = true) :
    Sound g limit { l with
      run := (l.run.dispatch now id kind).1, free := l.free - 1, calls := id :: l.calls } := by
  obtain ⟨hstopped, -, hfree⟩ := isFull_eq_false_iff.mp hfull
  have hid := (h.coherent.ready_head hready).1
  have hstate := Run.Coherent.stateOf_dispatch_covered hid now hc
  have hpermits := h.permits
  have hnot : id ∉ l.underway := fun hm => by
    have hrunning := h.mem_underway.mp hm
    simp [hid] at hrunning
  refine ⟨h.coherent.dispatch hv hready hstopped now kind, ?_, fun {x} => ?_, ?_, fun hw => ?_,
    fun ho => ?_⟩
  · exact List.nodup_cons.mpr ⟨hnot, h.nodup_underway⟩
  · have hcons : x ∈ id :: l.underway ↔ (l.run.dispatch now id kind).1.stateOf x = .running := by
      rw [hstate, List.mem_cons, h.mem_underway]
      by_cases hx : x = id <;> simp [hx]
    exact hcons
  · simp only [List.length_cons]
    omega
  · simp [hplace] at hw
  · simp [hplace] at ho

theorem Sound.refuse (hv : g.Valid) (h : Sound g limit l) {id : TaskId} {rest : List TaskId}
    {kind : Kind} (now : Instant) (hplace : l.place = .filling) (hfull : l.isFull = false)
    (hready : l.run.ready = id :: rest) (hc : l.run.covered kind = false) :
    Sound g limit { l with run := (l.run.dispatch now id kind).1 } := by
  obtain ⟨hstopped, -, -⟩ := isFull_eq_false_iff.mp hfull
  have hid := (h.coherent.ready_head hready).1
  have hstate := h.coherent.stateOf_dispatch_uncovered hid now hc
  refine h.change (h.coherent.dispatch hv hready hstopped now kind) (fun x => ?_) rfl rfl rfl
    (Or.inr hplace)
  change (l.run.dispatch now id kind).1.stateOf x = .running ↔ _
  rw [hstate, Graph.afterFailed_eq_running_iff]
  exact and_iff_left_of_imp fun hx e => by simp [e, hid] at hx

theorem Sound.wait (h : Sound g limit l) (hfull : l.isFull = true) (hover : l.run.isOver = false)
    (hv : g.Valid) : Sound g limit { l with place := .waiting } := by
  refine ⟨h.coherent, h.nodup_underway, h.mem_underway, h.permits, fun _ hzero => ?_, nofun⟩
  -- with nothing in flight all permits are free, so the loop could start a task or leave
  have hnone : l.underway.length = 0 := (h.inFlight_eq hv).symm.trans hzero
  have hcalls : l.calls.length = 0 := by
    rw [underway, List.length_append] at hnone
    omega
  have hpermits := h.permits
  have hfree : l.free ≠ 0 := by omega
  have hzero : l.run.inFlight = 0 := hzero
  simp only [isFull, hfree, decide_false, Bool.or_false] at hfull
  simp only [Run.isOver, hzero, decide_true, Bool.true_and] at hover
  rw [Bool.or_comm, hover] at hfull
  cases hfull

theorem underway_perm_of_arrived {id : TaskId} {c : Completion}
    {before after : List (TaskId × Completion)}
    (hsplit : l.arrived = before ++ (id, c) :: after) :
    l.underway.Perm (id :: (l.calls ++ (before ++ after).map Prod.fst)) := by
  rw [underway, hsplit, List.map_append, List.map_cons, List.map_append, ← List.append_assoc,
    ← List.append_assoc]
  exact List.perm_middle

theorem mem_underway_of_arrived {id : TaskId} {c : Completion}
    {before after : List (TaskId × Completion)}
    (hsplit : l.arrived = before ++ (id, c) :: after) : id ∈ l.underway :=
  (underway_perm_of_arrived hsplit).mem_iff.mpr List.mem_cons_self

theorem Sound.handle (hv : g.Valid) (h : Sound g limit l) {id : TaskId} {c : Completion}
    {before after : List (TaskId × Completion)} (now : Instant)
    (hsplit : l.arrived = before ++ (id, c) :: after) :
    Sound g limit { l with
      run := l.run.complete now id c, arrived := before ++ after, place := .top } := by
  have hperm := underway_perm_of_arrived hsplit
  have hid : l.run.stateOf id = .running := h.mem_underway.mp (mem_underway_of_arrived hsplit)
  have hdone := h.coherent.completed hv hid now c
  obtain ⟨hnot, hnd⟩ := List.nodup_cons.mp (hperm.nodup_iff.mp h.nodup_underway)
  refine ⟨h.coherent.complete hv hid now c, hnd, fun {x} => ?_, h.permits, nofun, nofun⟩
  change x ∈ l.calls ++ (before ++ after).map Prod.fst ↔ _
  rw [hdone.running, ← h.mem_underway, hperm.mem_iff, List.mem_cons]
  constructor
  · exact fun hx => ⟨Or.inr hx, fun e => hnot (e ▸ hx)⟩
  · exact fun hx => hx.1.resolve_left hx.2

theorem underway_perm_of_call {id : TaskId} (hcall : id ∈ l.calls) (c : Completion) :
    l.underway.Perm (l.calls.erase id ++ (l.arrived ++ [(id, c)]).map Prod.fst) := by
  have hcalls := (List.perm_cons_erase hcall).append_right (l.arrived.map Prod.fst)
  have hmove : (id :: (l.calls.erase id ++ l.arrived.map Prod.fst)).Perm
      (l.calls.erase id ++ l.arrived.map Prod.fst ++ [id]) := (List.perm_append_singleton _ _).symm
  refine hcalls.trans ?_
  simpa only [List.map_append, List.map_cons, List.map_nil, List.append_assoc, List.cons_append]
    using hmove

theorem Sound.ended (h : Sound g limit l) {id : TaskId} (e : Ending) (hcall : id ∈ l.calls) :
    Sound g limit { l with
      calls := l.calls.erase id, free := l.free + 1,
      arrived := l.arrived ++ [(id, e.completion)] } := by
  have hperm := underway_perm_of_call hcall e.completion
  have hlength : l.calls.length = (l.calls.erase id).length + 1 :=
    (List.perm_cons_erase hcall).length_eq
  have hpermits := h.permits
  refine ⟨h.coherent, hperm.nodup_iff.mp h.nodup_underway, fun {x} => ?_, ?_, h.owed, h.finished⟩
  · exact hperm.mem_iff.symm.trans h.mem_underway
  · simp only
    omega

theorem Sound.step (hv : g.Valid) (h : Sound g limit l) (s : Step l a l') : Sound g limit l' := by
  cases s with
  | check place => exact h.check
  | dispatch now place notFull first task covered =>
    exact h.dispatch hv now place notFull first covered
  | refuse now place notFull first task uncovered =>
    exact h.refuse hv now place notFull first uncovered
  | wait place full notOver => exact h.wait full notOver hv
  | leave place full isOver =>
    exact ⟨h.coherent, h.nodup_underway, h.mem_underway, h.permits, nofun, fun _ => isOver⟩
  | handle now place split => exact h.handle hv now split
  | heedCancel place watched cancelled => exact h.stop .byCaller rfl rfl rfl rfl (Or.inl rfl)
  | heedDeadline place watched late => exact h.stop .byDeadline rfl rfl rfl rfl (Or.inl rfl)
  | ended e call => exact h.ended e call
  | cancel fresh =>
    exact ⟨h.coherent, h.nodup_underway, h.mem_underway, h.permits, h.owed, h.finished⟩
  | expire fresh =>
    exact ⟨h.coherent, h.nodup_underway, h.mem_underway, h.permits, h.owed, h.finished⟩

theorem sound_start (hv : g.Valid) (runId : String) (handlers : Registry) (limits : Run.Limits)
    (now : Instant) : Sound g limits.concurrency (start runId g handlers limits now) := by
  have hc := Run.coherent_start hv runId handlers.contains now
  refine ⟨hc, List.nodup_nil, fun {x} => ?_, rfl, nofun, nofun⟩
  change x ∈ [] ↔ (Run.start runId g handlers.contains now).stateOf x = .running
  simp only [List.not_mem_nil, false_iff]
  intro hx
  have hcount := hc.inFlight_of_running hv hx
  change 0 = _ at hcount
  omega

/-- What a step of the loop does to a run: nothing, a stop by the caller or the deadline, the turn of the
first task that is ready, or the completion of one that runs. -/
inductive Moves (r : Run) : Action → Run → Prop
  | still {a : Action} (other : ∀ id c, a ≠ .handle id c) : Moves r a r
  | stop {a : Action} (other : ∀ id c, a ≠ .handle id c) (why : String) :
      Moves r a (r.stop (.cancelled why))
  | turn {a : Action} {id : TaskId} {rest : List TaskId} {t : Task} (now : Instant)
      (action : a = .dispatch id ∨ a = .refuse id) (first : r.ready = id :: rest)
      (task : r.graph.task? id = some t) : Moves r a (r.dispatch now id t.kind).1
  | taken {id : TaskId} (now : Instant) (c : Completion) (running : r.stateOf id = .running) :
      Moves r (.handle id c) (r.complete now id c)

theorem Sound.moves (h : Sound g limit l) (s : Step l a l') : Moves l.run a l'.run := by
  cases s with
  | check place =>
    change Moves l.run .check l.check.run
    rcases l.check_run with hr | ⟨why, hr⟩
    · rw [hr]
      exact .still (by simp)
    · rw [hr]
      exact .stop (by simp) why
  | dispatch now place notFull first task covered => exact .turn now (Or.inl rfl) first task
  | refuse now place notFull first task uncovered => exact .turn now (Or.inr rfl) first task
  | handle now place split => exact .taken now _ (h.mem_underway.mp (mem_underway_of_arrived split))
  | heedCancel place watched cancelled => exact .stop (by simp) _
  | heedDeadline place watched late => exact .stop (by simp) _
  | wait | leave | ended | cancel | expire => exact .still (by simp)

/-- No step takes a task back to a state that it left. -/
theorem Moves.leads {r r' : Run} (hv : g.Valid) (h : Run.Coherent g r) (m : Moves r a r') (x : TaskId) :
    (r.stateOf x).Leads (r'.stateOf x) := by
  cases m with
  | still other => exact .refl _
  | stop other why => exact h.leads_stop _ x
  | @turn _ id rest t now action first task =>
    have hid := (h.ready_head first).1
    cases hc : r.covered t.kind with
    | true =>
      rw [Run.Coherent.stateOf_dispatch_covered hid now hc]
      exact leads_afterStart hid x
    | false =>
      rw [h.stateOf_dispatch_uncovered hid now hc]
      exact leads_afterFailed (Or.inl hid) x
  | taken now c running => exact (h.completed hv running now c).leads x

theorem Sound.leads (hv : g.Valid) (h : Sound g limit l) (s : Step l a l') (x : TaskId) :
    (l.run.stateOf x).Leads (l'.run.stateOf x) :=
  (h.moves s).leads hv h.coherent x

theorem Sound.path (hv : g.Valid) (h : Sound g limit l) {actions : List Action}
    (p : Path l actions l') : Sound g limit l' := by
  induction p with
  | refl => exact h
  | snoc p s ih => exact ih.step hv s

theorem Sound.leads_path (hv : g.Valid) (h : Sound g limit l) {actions : List Action}
    (p : Path l actions l') (x : TaskId) : (l.run.stateOf x).Leads (l'.run.stateOf x) := by
  induction p with
  | refl => exact .refl _
  | snoc p s ih => exact ih.trans ((h.path hv p).leads hv s x)

theorem Path.append {l l' l'' : Loop} {actions more : List Action} (p : Path l actions l')
    (q : Path l' more l'') : Path l (actions ++ more) l'' := by
  induction q with
  | refl =>
    rw [List.append_nil]
    exact p
  | snoc q s ih =>
    rw [← List.append_assoc]
    exact ih.snoc s

theorem Path.cons {l l' l'' : Loop} {a : Action} {more : List Action} (s : Step l a l')
    (p : Path l' more l'') : Path l (a :: more) l'' :=
  (Path.snoc (.refl l) s).append p

end Loop

end Rollout
