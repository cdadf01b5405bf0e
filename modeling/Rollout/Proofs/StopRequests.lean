import Rollout.Proofs.ReportLaw
import Rollout.Proofs.VirtualTime

/-! Requests to stop a run. Nothing is started in a round of the loop that begins when the run is cancelled or
late; such a round makes the run end as cancelled, unless something stopped it before. -/

namespace Rollout

namespace Loop

variable {g : Graph} {l l' m m' : Loop} {actions back : List Action} {a : Action}

/-- The loop is still in the round that it began with its checks at `m`. -/
def Round (m : Loop) (back : List Action) (l : Loop) : Prop :=
  ∃ m', Step m .check m' ∧ Path m' back l ∧ .check ∉ back

/-- Nobody asks for a stop at this moment, as far as a run within these limits heeds it. -/
def Unasked (limits : Run.Limits) (l : Loop) : Prop :=
  l.cancelled = false ∧ (limits.deadline.isSome = true → l.late = false)

/-- Whatever follows, the run has this status, for this reason. -/
def EndsAs (l : Loop) (status : Status) (reason : String) : Prop :=
  ∀ more l', Path l more l' → ∀ later,
    (l'.run.finish later).1.status = status ∧ (l'.run.finish later).1.abortReason = some reason

theorem Round.snoc (h : Round m back l) (s : Step l a l') (ha : a ≠ .check) : Round m (back ++ [a]) l' := by
  obtain ⟨m', check, path, hnot⟩ := h
  refine ⟨m', check, path.snoc s, fun hm => ?_⟩
  rcases List.mem_append.mp hm with hm | hm
  · exact hnot hm
  · exact ha (List.mem_singleton.mp hm).symm

theorem check_of_going (h : l.check.run.stopped = none) : l.check = l := by
  unfold Loop.check at h ⊢
  split_ifs at h ⊢
  · rfl
  · simp [Run.stopped_stop_eq] at h
  · simp [Run.stopped_stop_eq] at h
  · rfl

section Start

variable {runId : String} {handlers : Registry} {limits : Run.Limits} {now : Instant}

/-- Away from the top of a round the loop is inside one. -/
theorem exists_round (path : Path (start runId g handlers limits now) actions l) (hplace : l.place ≠ .top) :
    ∃ front m back, actions = front ++ .check :: back ∧ Path (start runId g handlers limits now) front m ∧
      Round m back l := by
  induction path with
  | refl => exact absurd rfl hplace
  | @snoc n l actions a path s ih =>
    have hround (htop : n.place ≠ .top) (ha : a ≠ .check) : ∃ front m back,
        actions ++ [a] = front ++ .check :: back ∧ Path (start runId g handlers limits now) front m ∧
          Round m back l := by
      obtain ⟨front, m, back, rfl, hfront, hback⟩ := ih htop
      exact ⟨front, m, back ++ [a], by simp, hfront, hback.snoc s ha⟩
    cases s with
    | check place => exact ⟨actions, n, [], rfl, path, _, .check place, .refl _, List.not_mem_nil⟩
    | dispatch now place | refuse now place => exact hround (by simp [place]) nofun
    | wait place | leave place => exact hround (by simp [place]) nofun
    | handle | heedCancel | heedDeadline => exact absurd rfl hplace
    | ended | cancel | expire => exact hround hplace nofun

/-- As long as nothing stopped a run, both kinds of requests are watched for. -/
theorem watching_of_path (hv : g.Valid) (path : Path (start runId g handlers limits now) actions l)
    (going : l.run.stopped = none) : l.watchCancel = true ∧ l.watchDeadline = limits.deadline.isSome := by
  induction path with
  | refl => exact ⟨rfl, rfl⟩
  | @snoc n l actions a path s ih =>
    have hbefore := ((sound_of_path hv path).continues hv s).going going
    cases s with
    | check place =>
      have hsame : n.check = n := check_of_going going
      change n.check.watchCancel = true ∧ n.check.watchDeadline = _
      rw [hsame]
      exact ih hbefore
    | heedCancel => simp [Run.stopped_stop_eq] at going
    | heedDeadline => simp [Run.stopped_stop_eq] at going
    | dispatch | refuse | wait | leave | handle | ended | cancel | expire => exact ih hbefore

theorem cause?_check (hv : g.Valid) (path : Path (start runId g handlers limits now) actions l)
    (going : l.run.stopped = none) : l.cause? .check =
      if l.cancelled then some .byCaller
      else if limits.deadline.isSome && l.late then some .byDeadline else none := by
  obtain ⟨hcancel, hdeadline⟩ := watching_of_path hv path going
  rw [cause?, hcancel, hdeadline, Bool.true_and]

theorem unasked_of_dispatch (hv : g.Valid) {front : List Action}
    (path : Path (start runId g handlers limits now) front m) (round : Round m back l) {id : TaskId}
    (step : Step l (.dispatch id) l') :
    m.run.stopped = none ∧ Unasked limits m := by
  obtain ⟨m', check, rest, -⟩ := round
  have hs := sound_of_path hv path
  -- a run that starts tasks is not stopped, so the checks of its round did not stop it either
  have going : l.run.stopped = none := by
    cases step with
    | dispatch now place notFull => exact (isFull_eq_false_iff.mp notFull).1
  have hnone := ((hs.step hv check).continues_path hv rest).going going
  rw [hs.stopped_eq hv check, Option.or_eq_none_iff] at hnone
  obtain ⟨hbefore, hcause⟩ := hnone
  rw [cause?_check hv path hbefore] at hcause
  split_ifs at hcause with hcancel hlate
  refine ⟨hbefore, Bool.eq_false_iff.mpr hcancel, fun hdeadline => ?_⟩
  simpa [hdeadline] using hlate

/-- What stops a run first is what every later report gives as the reason. -/
theorem endsAs_of_cause (hv : g.Valid) (path : Path (start runId g handlers limits now) actions m)
    (going : m.run.stopped = none) (step : Step m a m') {why : Stop} (hcause : m.cause? a = some why) :
    EndsAs m' why.status why.reason := by
  intro more l rest later
  have hs := sound_of_path hv path
  have hstopped := hs.stopped_eq hv step
  rw [going, Option.none_or, hcause] at hstopped
  exact (Run.finish_of_stopped (((hs.step hv step).continues_path hv rest).stopped hstopped) later).symm

end Start

end Loop

namespace Run

variable {P : Instant → Prop} {r r' : Run}

/-- Whether all tasks that were started so far were started at such times. -/
def Timed (P : Instant → Prop) (r : Run) : Prop :=
  ∀ o ∈ r.tally.outcomes.values, ∀ i, o.startedAt = some i → P i

theorem Timed.change (h : r.Timed P) {id : TaskId} {f : Outcome → Outcome}
    (htally : r'.tally = r.tally.change id f)
    (hf : ∀ o i, (f o).startedAt = some i → o.startedAt = some i ∨ P i) : r'.Timed P := by
  intro o ho i hi
  rw [htally] at ho
  obtain ⟨q, hq, rfl⟩ := List.mem_map.mp (show o ∈ (r.tally.outcomes.modify id f).pairs.map Prod.snd from ho)
  obtain ⟨p, hp, rfl⟩ := List.mem_map.mp hq
  have hold : ∀ i, p.2.startedAt = some i → P i := h p.2 (List.mem_map_of_mem hp)
  by_cases hid : p.1 = id
  · rw [if_pos hid] at hi
    exact (hf p.2 i hi).elim (hold i) fun hP => hP
  · rw [if_neg hid] at hi
    exact hold i hi

theorem Timed.of_eq (h : r.Timed P) (htally : r'.tally = r.tally) : r'.Timed P := by
  rw [Timed, htally]
  exact h

theorem Timed.foldl {f : Run → TaskId → Run} (hf : ∀ r x, Timed P r → Timed P (f r x)) (ids : List TaskId)
    (h : r.Timed P) : (ids.foldl f r).Timed P := by
  induction ids generalizing r with
  | nil => exact h
  | cons x ids ih => exact ih (hf r x h)

theorem Timed.skip (h : r.Timed P) (reason : String) (id : TaskId) : (skip reason r id).Timed P :=
  h.change rfl fun _ _ hi => Or.inl hi

theorem Timed.fail (h : r.Timed P) (now : Instant) (id : TaskId) (diagnostic : String) :
    (fail now r id diagnostic).Timed P := by
  rw [fail_eq]
  refine Timed.foldl (fun r x hr => ?_) _ (h.change rfl fun _ _ hi => Or.inl hi)
  unfold skipPending
  split_ifs
  · exact hr.skip _ x
  · exact hr

theorem Timed.stop (h : r.Timed P) (s : Stop) : (r.stop s).Timed P := by
  cases hs : r.stopped with
  | some old => rwa [stop_of_stopped (by simp [hs])]
  | none =>
    rw [stop_eq hs]
    exact (Timed.foldl (fun r x hr => hr.skip s.skipReason x) r.waiting h).of_eq rfl

theorem Timed.complete (h : r.Timed P) (now : Instant) (id : TaskId) (c : Completion) :
    (r.complete now id c).Timed P := by
  cases c with
  | succeeded outputs =>
    cases hw : r.context.writeAll id outputs.pairs with
    | mk context fault =>
      cases fault with
      | none =>
        rw [complete_written hw]
        refine Timed.foldl (fun r x hr => hr.of_eq (told_unlock r x).1) _ ?_
        exact h.change rfl fun _ _ hi => Or.inl hi
      | some f =>
        rw [complete_taken hw]
        have hfail : (Run.fail now { r with inFlight := r.inFlight - 1, context := context } id
            f.message).Timed P :=
          Timed.fail (r := { r with inFlight := r.inFlight - 1, context := context }) h now id f.message
        exact hfail.stop _
  | failed diagnostic fatal =>
    have hfail : (Run.fail now { r with inFlight := r.inFlight - 1 } id diagnostic).Timed P :=
      Timed.fail (r := { r with inFlight := r.inFlight - 1 }) h now id diagnostic
    rw [complete_failed]
    cases fatal with
    | false => exact hfail
    | true => exact hfail.stop _

theorem Timed.dispatch (h : r.Timed P) {now : Instant} (hnow : P now) (id : TaskId) (kind : Kind) :
    (r.dispatch now id kind).1.Timed P := by
  cases hc : r.covered kind with
  | true =>
    rw [dispatch_covered hc]
    exact h.change rfl fun _ _ hi => Or.inr (Option.some.inj hi ▸ hnow)
  | false =>
    rw [dispatch_uncovered hc]
    exact Timed.fail (r := { r with ready := r.ready.drop 1 }) h now id _

theorem Timed.fill (h : r.Timed P) {now : Instant} (hnow : P now) (fuel free : Nat) :
    (r.fill now fuel free).1.Timed P := by
  fun_induction r.fill now fuel free with
  | case1 | case2 | case3 => exact h
  | case4 fuel free r id rest hr ht ih => exact ih h
  | case5 fuel free r id rest hr t ht r' r'' more hfill hd ih =>
    have hstarted := h.dispatch hnow id t.kind
    rw [hd] at hstarted
    rw [hfill] at ih
    exact ih hstarted
  | case6 fuel free r id rest hr t ht r' started hd hc ih =>
    have hrefused := h.dispatch hnow id t.kind
    rw [hd] at hrefused
    exact ih hrefused

end Run

namespace Timeline

variable {g : Graph} {t t' : Timeline} {deadline : Option Nat}

/-- Tasks are started before the deadline only, which is watched for as long as nothing stopped the run. -/
structure Punctual (deadline : Option Nat) (t : Timeline) : Prop where
  valid : t.run.graph.Valid
  deadline_eq : t.deadline = deadline
  watching : t.run.stopped = none → t.watchDeadline = deadline.isSome
  timed : t.run.Timed fun i => ∃ ms, i = .ofMillis ms ∧ ∀ d, deadline = some d → ms < d

theorem Punctual.change (h : Punctual deadline t) (hdeadline : t'.deadline = t.deadline)
    (hwatch : t'.watchDeadline = t.watchDeadline) (hrun : Run.Continues t.run t'.run)
    (htimed : ∀ {P}, t.run.Timed P → t'.run.Timed P) : Punctual deadline t' where
  valid := hrun.graph ▸ h.valid
  deadline_eq := hdeadline.trans h.deadline_eq
  watching going := hwatch.trans (h.watching (hrun.going going))
  timed := htimed h.timed

theorem Punctual.of_eq (h : Punctual deadline t) (hdeadline : t'.deadline = t.deadline)
    (hwatch : t'.watchDeadline = t.watchDeadline) (hrun : t'.run = t.run) : Punctual deadline t' :=
  h.change hdeadline hwatch (hrun ▸ .refl _) fun hP => hrun ▸ hP

theorem Punctual.stop (h : Punctual deadline t) {s : Stop} (hdeadline : t'.deadline = t.deadline)
    (hrun : t'.run = t.run.stop s) : Punctual deadline t' where
  valid := by
    rw [hrun, (Run.continues_stop t.run s).graph]
    exact h.valid
  deadline_eq := hdeadline.trans h.deadline_eq
  watching going := by
    rw [hrun, Run.stopped_stop_eq] at going
    simp at going
  timed := by
    rw [hrun]
    exact h.timed.stop s

theorem Punctual.check (h : Punctual deadline t) : Punctual deadline t.check := by
  unfold Timeline.check
  split_ifs
  · exact h
  · exact h.stop rfl rfl
  · exact h.stop rfl rfl
  · exact h

theorem Punctual.early_of_check (h : Punctual deadline t) (going : t.check.run.stopped = none) {d : Nat}
    (hd : deadline = some d) : t.check.around.clock < d := by
  unfold Timeline.check at going ⊢
  split_ifs at going ⊢ with hstopped hcancel hlate
  · simp [going] at hstopped
  · simp [Run.stopped_stop_eq] at going
  · simp [Run.stopped_stop_eq] at going
  · have hwatch := h.watching going
    rw [hwatch, hd, Option.isSome_some, Bool.true_and, isLate, h.deadline_eq, hd] at hlate
    simpa using hlate

theorem Punctual.top (h : Punctual deadline t) : Punctual deadline t.top := by
  have hcheck := h.check
  unfold Timeline.top Timeline.launch
  split_ifs with hstopped
  · exact hcheck
  · have going : t.check.run.stopped = none := by simpa using hstopped
    have hf := Run.filled_fill t.check.now t.check.run.ready.length t.check.free t.check.run
    -- the checks have just seen that the clock is below the deadline
    have hnow : ∃ ms, t.check.now = .ofMillis ms ∧ ∀ d, deadline = some d → ms < d :=
      ⟨_, rfl, fun _ hd => h.early_of_check going hd⟩
    exact ⟨hf.continues.graph ▸ hcheck.valid, hcheck.deadline_eq,
      fun hgoing => hcheck.watching (hf.continues.going hgoing), hcheck.timed.fill hnow _ _⟩

theorem Punctual.react (h : Punctual deadline t) (hr : t.react? = some t') : Punctual deadline t' := by
  unfold react? at hr
  split at hr
  · next x c rest harrived =>
    rw [← Option.some.inj hr]
    exact h.change rfl rfl (Run.continues_complete t.now t.run x c h.valid) fun hP => hP.complete _ _ _
  · split_ifs at hr
    · rw [← Option.some.inj hr]
      exact h.stop rfl rfl
    · rw [← Option.some.inj hr]
      exact h.stop rfl rfl

theorem Punctual.loop (h : Punctual deadline t) (fuel : Nat) : Punctual deadline (loop fuel t) := by
  fun_induction Timeline.loop fuel t with
  | case1 | case2 => exact h
  | case3 fuel t hover t' hr ih => exact ih (h.react hr).top
  | case4 fuel t hover hr => exact h.of_eq rfl rfl rfl

theorem Punctual.work (h : Punctual deadline t) (w : Worker) : Punctual deadline (t.work w) := by
  unfold Timeline.work
  cases w.procedure.advance t.run.context t.run.graph (w.id.getD 0) t.around with
  | mk around pause =>
    cases pause with
    | «until» => exact h.of_eq rfl rfl rfl
    | ended e => cases hid : w.id <;> exact h.of_eq rfl rfl rfl

theorem Punctual.workAll (h : Punctual deadline t) : Punctual deadline t.workAll := by
  have hfold (ws : List Worker) {t : Timeline} (h : Punctual deadline t) :
      Punctual deadline (ws.foldl Timeline.work t) := by
    induction ws generalizing t with
    | nil => exact h
    | cons w ws ih => exact ih (h.work w)
  exact hfold t.queue (h.of_eq rfl rfl rfl)

theorem Punctual.turn (h : Punctual deadline t) : Punctual deadline t.turn := by
  unfold Timeline.turn
  extract_lets t'
  have hloop : Punctual deadline t' := by
    unfold t'
    split_ifs
    · exact h.loop _
    · exact h
  split_ifs
  · exact hloop
  · exact hloop.workAll.of_eq rfl rfl rfl

theorem Punctual.turns (h : Punctual deadline t) (n : Nat) : Punctual deadline (turns n t) := by
  fun_induction Timeline.turns n t with
  | case1 | case2 => exact h
  | case3 n t hover ih => exact ih h.turn

theorem punctual_start (hv : g.Valid) (runId : String) (handlers : Registry) (limits : Run.Limits)
    (around : Surroundings) (caller : List Worker) :
    Punctual (limits.deadline.map (around.clock + ·)) (start runId g handlers limits around caller) where
  valid := hv
  deadline_eq := rfl
  watching _ := Option.isSome_map.symm
  timed o ho i hi := by
    have hfresh := Run.outcomes_start hv runId handlers.contains (.ofMillis around.clock)
    rw [show (start runId g handlers limits around caller).run.tally.outcomes = _ from hfresh, Table.values,
      Table.pairs_map, List.map_map] at ho
    obtain ⟨q, -, rfl⟩ := List.mem_map.mp ho
    cases hi

/-- Whatever is started in virtual time is reported to have been started, and before the deadline. -/
theorem early_of_dispatched (hv : g.Valid) {caller : List Worker} (hcaller : ∀ w ∈ caller, w.id = none)
    (runId : String) (handlers : Registry) (limits : Run.Limits) (around : Surroundings) (n : Nat)
    (later : Instant) {id : TaskId} {kind : Kind}
    (hm : .dispatched id kind ∈ (turns n (start runId g handlers limits around caller).top).run.events) :
    ∃ o ms,
      ((turns n (start runId g handlers limits around caller).top).run.finish later).1.outcome? id = some o ∧
      o.startedAt = some (.ofMillis ms) ∧ ∀ d, limits.deadline = some d → ms < around.clock + d := by
  obtain ⟨_, _, _, _, -, hturns⟩ := reaches_turns hv hcaller runId handlers limits around n
  have hc := (Loop.sound_of_path hv hturns.path).coherent
  obtain ⟨o, ho, hstory⟩ := (Loop.chronicled_of_path hv hturns.path).outcome_of_mem hc hm rfl
  obtain ⟨i, hi⟩ := Option.isSome_iff_exists.mp (Outcome.mem_story_dispatched.mp hstory).1
  have hpunctual := ((punctual_start hv runId handlers limits around caller).top).turns n
  obtain ⟨ms, rfl, hms⟩ := hpunctual.timed o (List.mem_map_of_mem (Table.mem_pairs_of_find? ho)) i hi
  refine ⟨o, ms, (hc.outcome?_finish hv later id).trans ho, hi, fun d hd => hms _ ?_⟩
  rw [hd, Option.map_some]

end Timeline

namespace Loop

/-- A task is started only in a round that begins when nobody asks for a stop, and in virtual time only before
the deadline. Any other round makes a run that nothing stopped before end as cancelled; what the caller asks
for comes first, and a completion that was fatal before comes first of all. -/
theorem stop_requests_heeded {p : Plan} (h : Graph.ofPlan p = .ok g) (runId : String) (handlers : Registry)
    (limits : Run.Limits) (now : Instant) :
    (∀ actions l id l', Path (start runId g handlers limits now) actions l → Step l (.dispatch id) l' →
      (∃ front m back, actions = front ++ .check :: back ∧
        Path (start runId g handlers limits now) front m ∧ Round m back l) ∧
      ∀ front m back, Path (start runId g handlers limits now) front m → Round m back l →
        m.run.stopped = none ∧ Unasked limits m) ∧
    (∀ actions m m', Path (start runId g handlers limits now) actions m → m.run.stopped = none →
      Step m .check m' →
      (m.cancelled = true → EndsAs m' .cancelled "cancelled by caller") ∧
      (m.cancelled = false → limits.deadline.isSome = true → m.late = true →
        EndsAs m' .cancelled "plan deadline exceeded") ∧
      (Unasked limits m → m'.run = m.run)) ∧
    (∀ actions m id c m' why, Path (start runId g handlers limits now) actions m → m.run.stopped = none →
      Step m (.handle id c) m' → c.stop? m.run.context id = some why → EndsAs m' .failure why.reason) ∧
    ∀ around caller n later deadline, (∀ w ∈ caller, w.id = none) → limits.deadline = some deadline →
      let t := Timeline.turns n (Timeline.start runId g handlers limits around caller).top
      ∀ id kind, .dispatched id kind ∈ t.run.events → ∃ o ms, (t.run.finish later).1.outcome? id = some o ∧
        o.startedAt = some (.ofMillis ms) ∧ ms < around.clock + deadline := by
  have hv := Graph.valid_of_ofPlan h
  refine ⟨fun actions l id l' path step => ⟨?_, fun front m back hfront hround => ?_⟩,
    fun actions m m' path going step =>
      ⟨fun hcancel => ?_, fun hcancel hdeadline hlate => ?_, fun hnot => ?_⟩,
    fun actions m id c m' why path going step hwhy => ?_,
    fun around caller n later deadline hcaller hdeadline id kind hm => ?_⟩
  · refine exists_round path ?_
    cases step with
    | dispatch now place => simp [place]
  · exact unasked_of_dispatch hv hfront hround step
  · have hcause := (cause?_check hv path going).trans (if_pos hcancel)
    exact endsAs_of_cause hv path going step hcause
  · have hcause := (cause?_check hv path going).trans (if_neg (by simp [hcancel]))
    rw [hdeadline, hlate] at hcause
    exact endsAs_of_cause hv path going step hcause
  · cases step
    change m.check.run = m.run
    refine congrArg Loop.run (check_of_going (l := m) ?_)
    rw [stopped_check, going, Option.none_or, cause?_check hv path going, if_neg (by simp [hnot.1]), if_neg]
    rw [Bool.and_eq_true_iff]
    exact fun ⟨hdeadline, hlate⟩ => by simp [hnot.2 hdeadline] at hlate
  · obtain ⟨reason, rfl⟩ := Completion.eq_fatal_of_stop? hwhy
    exact endsAs_of_cause hv path going step hwhy
  · obtain ⟨o, ms, ho, hi, hms⟩ :=
      Timeline.early_of_dispatched hv hcaller runId handlers limits around n later hm
    exact ⟨o, ms, ho, hi, hms deadline hdeadline⟩

def obliging : Registry := Kind.all.map fun k => (k, fun _ _ => .done (.finished .empty))

/-- The chain, to be finished within five milliseconds. -/
def hurried : Loop := start "run" (.index "chain" (Graph.taskTable chainPlan)) obliging ⟨0, some 5⟩ default

def hurriedTime : Timeline :=
  Timeline.turns 9 (Timeline.start "run" (.index "chain" (Graph.taskTable chainPlan)) obliging ⟨0, some 5⟩
    (.start .start) []).top

/-- The first task reads what nobody has written; the caller cancels the run meanwhile, and it is late by
then. -/
theorem path_hurried : ∃ l l' n n', Path hurried [.check] l ∧ Step l (.dispatch 1) l' ∧
    Path hurried
      [.check, .dispatch 1, .wait, .ended 1 (.failed (.context (.missing "ip" 1))), .cancel, .expire] n ∧
    n.run.stopped = none ∧ n.cancelled = true ∧ n.late = true ∧
    Step n (.handle 1 (.failed "Task 1 read context key 'ip' but no completed task produced it" true))
      n' := by
  have h₁ := Path.snoc (.refl hurried) (.check rfl)
  have step : Step { hurried.check with place := .filling } (.dispatch 1) _ :=
    .dispatch default rfl rfl rfl rfl rfl
  have h₃ := (h₁.snoc step).snoc (.wait rfl rfl rfl)
  have h₄ := h₃.snoc (.ended (.failed (.context (.missing "ip" 1))) List.mem_cons_self)
  have h₆ := (h₄.snoc (.cancel rfl)).snoc (.expire rfl)
  exact ⟨_, _, _, _, h₁, step, h₆, rfl, rfl, rfl, .handle default rfl (List.nil_append _).symm⟩

theorem stop_requests_heeded_hurried :
    (∃ l, Path hurried [.check] l ∧ (∃ l', Step l (.dispatch 1) l') ∧
      ∃ m back, Round m back l ∧ Unasked ⟨0, some 5⟩ m) ∧
    (∃ m m', Path hurried [.cancel, .expire] m ∧ Step m .check m' ∧
      EndsAs m' .cancelled "cancelled by caller") ∧
    (∃ m m', Path hurried [.expire] m ∧ Step m .check m' ∧ EndsAs m' .cancelled "plan deadline exceeded") ∧
    (∃ actions n n' c, Path hurried actions n ∧ n.cancelled = true ∧ n.late = true ∧ Step n (.handle 1 c) n' ∧
      EndsAs n' .failure "Task 1 read context key 'ip' but no completed task produced it") ∧
    .dispatched 2 .deleteNamespace ∈ hurriedTime.run.events ∧
    ∃ o ms, (hurriedTime.run.finish default).1.outcome? 2 = some o ∧ o.startedAt = some (.ofMillis ms) ∧
      ms < 0 + 5 := by
  have hlast : .dispatched 2 .deleteNamespace ∈ hurriedTime.run.events := List.mem_of_getElem? (i := 3) rfl
  obtain ⟨hstarts, hasked, hfatal, htime⟩ := stop_requests_heeded (p := chainPlan) rfl "run" obliging
    ⟨0, some 5⟩ default
  obtain ⟨l, l', n, n', path, step, late, going, hcancel, hexpire, handled⟩ := path_hurried
  obtain ⟨⟨front, m, back, -, hm, hround⟩, hunasked⟩ := hstarts _ _ _ _ path step
  have hcancelled := Path.snoc (.refl hurried) (.cancel rfl)
  have hboth := hcancelled.snoc (.expire rfl)
  have hlate := Path.snoc (.refl hurried) (.expire rfl)
  exact ⟨⟨l, path, ⟨l', step⟩, m, back, hround, (hunasked front m back hm hround).2⟩,
    ⟨_, _, hboth, .check rfl, (hasked _ _ _ hboth rfl (.check rfl)).1 rfl⟩,
    ⟨_, _, hlate, .check rfl, (hasked _ _ _ hlate rfl (.check rfl)).2.1 rfl rfl rfl⟩,
    ⟨_, n, n', _, late, hcancel, hexpire, handled, hfatal _ _ _ _ _ _ late going handled rfl⟩,
    hlast, htime (.start .start) [] 9 default 5 nofun rfl 2 .deleteNamespace hlast⟩

end Loop

end Rollout
