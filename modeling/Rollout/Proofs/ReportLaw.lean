import Rollout.Proofs.EventLog
import Rollout.Proofs.FailureBlame

/-! What a report says as a whole. Its lists divide the tasks of the plan, and its status and the reason
given for an end before time are those of the first stop that a step of the run asked for. -/

namespace Rollout

namespace Report

theorem idsIn_perm {tasks : List Outcome} (h : ∀ o ∈ tasks, o.state.isTerminal = true) :
    (idsIn tasks .done ++ idsIn tasks .failed ++ idsIn tasks .skipped).Perm (tasks.map (·.id)) := by
  induction tasks with
  | nil => exact .refl _
  | cons o tasks ih =>
    obtain ⟨ho, htasks⟩ := List.forall_mem_cons.mp h
    have hrest := (ih htasks).cons o.id
    cases hs : o.state with
    | pending | ready | running => simp [hs, TaskState.isTerminal] at ho
    | done => simpa [idsIn, hs] using hrest
    | failed =>
      refine .trans ?_ hrest
      simp [idsIn, hs, List.perm_middle]
    | skipped =>
      have hmove : (idsIn tasks .done ++ idsIn tasks .failed ++ o.id :: idsIn tasks .skipped).Perm
          (o.id :: (idsIn tasks .done ++ idsIn tasks .failed ++ idsIn tasks .skipped)) := List.perm_middle
      refine .trans ?_ hrest
      simpa [idsIn, hs] using hmove

/-- A report whose lists divide the tasks of a plan. -/
structure Divides (r : Report) (p : Plan) : Prop where
  ascending : (r.tasks.map (·.id)).Pairwise (· < ·)
  tasks_perm : (r.tasks.map fun o => (o.id, o.kind)).Perm (p.tasks.map fun t => (t.id, t.kind))
  mem_lists : ∀ o ∈ r.tasks, (o.id ∈ r.done ↔ o.state = .done) ∧ (o.id ∈ r.failed ↔ o.state = .failed) ∧
    (o.id ∈ r.skipped ↔ o.state = .skipped)
  lists_ascending : r.done.Pairwise (· < ·) ∧ r.failed.Pairwise (· < ·) ∧ r.skipped.Pairwise (· < ·)
  lists_nodup : (r.done ++ r.failed ++ r.skipped).Nodup
  lists_perm : (r.done ++ r.failed ++ r.skipped).Perm p.ids

/-- A report that tells of the first of the stops that the steps of its run asked for. -/
structure Judges (r : Report) (asked : List (Loop.Action × Stop)) : Prop where
  success_iff : r.status = .success ↔ (∀ o ∈ r.tasks, o.state = .done) ∧ asked = []
  cancelled_iff : r.status = .cancelled ↔
    ∃ a why, asked.head? = some (a, why) ∧ (why = .byCaller ∨ why = .byDeadline)
  failure_iff : r.status = .failure ↔
    (∃ a reason, asked.head? = some (a, .fatal reason)) ∨ asked = [] ∧ ∃ o ∈ r.tasks, o.state ≠ .done
  abortReason_eq : r.abortReason = asked.head?.map fun q => q.2.reason
  failed_ne_nil : r.status = .failure → r.failed ≠ []
  culprit : ∀ a reason, asked.head? = some (a, .fatal reason) → ∃ id c, a = .handle id c ∧
    id ∈ r.failed ∧ ∃ o ∈ r.tasks, o.id = id ∧ o.diagnostic = some reason

end Report

namespace Run

variable {g : Graph} {r : Run} {id : TaskId}

/-- A completion that stops a run fails its task, for the reason that the stop gives. -/
theorem Coherent.verdict?_of_stop (hv : g.Valid) (h : Coherent g r) (hid : r.stateOf id = .running)
    (now : Instant) {c : Completion} {s : Stop} (hc : c.stop? r.context id = some s) :
    (r.complete now id c).verdict? id = some (.failed, some s.reason) := by
  have hstop : ∀ context diagnostic s,
      ((fail now { r with inFlight := r.inFlight - 1, context := context } id diagnostic).stop s).verdict?
        id = some (.failed, some diagnostic) := fun context diagnostic s =>
    ((h.fail_running hv hid context now diagnostic).unfolds_stop hv s).verdict?_eq rfl
      (h.verdict?_failed hid context now diagnostic)
  cases c with
  | succeeded outputs =>
    cases hw : r.context.writeAll id outputs.pairs with
    | mk context fault =>
      rw [Completion.stop?, hw, Option.map_eq_some_iff] at hc
      obtain ⟨f, rfl, rfl⟩ := hc
      rw [complete_taken hw]
      exact hstop context f.message _
  | failed diagnostic fatal =>
    cases fatal with
    | false => simp [Completion.stop?] at hc
    | true =>
      obtain rfl : .fatal diagnostic = s := Option.some.inj hc
      exact hstop r.context diagnostic _

theorem Coherent.stateOf?_finish_iff (hv : g.Valid) (h : Coherent g r) (now : Instant) {x : TaskId}
    {s : TaskState} (hs : s.isTerminal = true) :
    (r.finish now).1.stateOf? x = some s ↔ x ∈ g.ids ∧ r.stateOf x = s := by
  rw [h.stateOf?_finish hv, Option.map_eq_some_iff]
  constructor
  · rintro ⟨s', hs', rfl⟩
    rw [stateOf_of_find? hs']
    refine ⟨h.mem_ids_of_find? hs', ?_⟩
    cases s' <;> simp_all [TaskState.shown, TaskState.isTerminal]
  · rintro ⟨hx, rfl⟩
    refine ⟨_, h.find?_states hx, ?_⟩
    cases hst : r.stateOf x <;> simp_all [TaskState.shown, TaskState.isTerminal]

theorem Coherent.mem_failed_finish (hv : g.Valid) (h : Coherent g r) (now : Instant) {x : TaskId} :
    x ∈ (r.finish now).1.failed ↔ x ∈ g.ids ∧ r.stateOf x = .failed :=
  (Report.mem_idsIn_iff (h.pairwise_ids_finish hv now)).trans (h.stateOf?_finish_iff hv now rfl)

theorem Coherent.tasks_finish_perm {p : Plan} (hp : Graph.ofPlan p = .ok g) (h : Coherent g r)
    (hc : Chronicled g r) (now : Instant) :
    ((r.finish now).1.tasks.map fun o => (o.id, o.kind)).Perm (p.tasks.map fun t => (t.id, t.kind)) := by
  have hv := Graph.valid_of_ofPlan hp
  have hasc := h.pairwise_ids_finish hv now
  have hkind : ∀ o ∈ (r.finish now).1.tasks, ∃ t ∈ p.tasks, (t.id, t.kind) = (o.id, o.kind) := by
    intro o ho
    have hfound := (h.outcome?_finish hv now o.id).symm.trans ((Report.outcome?_eq_some_iff hasc).mpr ⟨ho, rfl⟩)
    obtain ⟨-, t, ht, hk⟩ := hc.kind_eq hfound
    obtain ⟨htask, hid⟩ := (Graph.task?_of_ofPlan hp).mp ht
    exact ⟨t, htask, by rw [hid, hk]⟩
  have hnd : ((r.finish now).1.tasks.map fun o => (o.id, o.kind)).Nodup := by
    refine .of_map Prod.fst ?_
    rw [List.map_map]
    exact hasc.imp Std.ne_of_lt
  refine (hnd.subperm fun q hq => ?_).perm_of_length_le ?_
  · obtain ⟨o, ho, rfl⟩ := List.mem_map.mp hq
    exact List.mem_map.mpr (hkind o ho)
  · have hlength := congrArg List.length (h.ids_finish hv now)
    rw [List.length_map, List.length_map, ← Graph.size_of_ofPlan hp,
      show g.size = g.ids.length from Table.size_eq_length_keys g.tasks, ← hlength, List.length_map]

theorem status_finish_cases (r : Run) (now : Instant) :
    ((r.finish now).1.status = .success ↔
      (∀ o ∈ (r.finish now).1.tasks, o.state = .done) ∧ r.stopped = none) ∧
    ((r.finish now).1.status = .cancelled ↔ ∃ why, r.stopped = some (.cancelled why)) ∧
    ((r.finish now).1.status = .failure ↔ (∃ why, r.stopped = some (.fatal why)) ∨
      r.stopped = none ∧ ∃ o ∈ (r.finish now).1.tasks, o.state ≠ .done) := by
  change (Tally.status (r.finish now).1.tasks r.stopped = _ ↔ _) ∧
    (Tally.status (r.finish now).1.tasks r.stopped = _ ↔ _) ∧
    (Tally.status (r.finish now).1.tasks r.stopped = _ ↔ _)
  cases hs : r.stopped with
  | some s => cases s <;> simp [Tally.status]
  | none =>
    simp only [Tally.status, List.all_eq_true, decide_eq_true_eq]
    split_ifs with hall <;> simp [hall] <;> simpa using hall

end Run

namespace Loop

variable {g : Graph} {limit : Nat} {l l' : Loop} {actions : List Action} {a : Action}
  {asked : List (Action × Stop)}

/-- A run with the stops that its steps asked for, each with the step that did so. -/
inductive Asks : Loop → List Action → List (Action × Stop) → Loop → Prop
  | refl (l : Loop) : Asks l [] [] l
  | snoc {l m n : Loop} {actions : List Action} {asked : List (Action × Stop)} {a : Action}
      (path : Asks l actions asked m) (step : Step m a n) :
      Asks l (actions ++ [a]) (asked ++ ((m.cause? a).map (a, ·)).toList) n

theorem Asks.path (h : Asks l actions asked l') : Path l actions l' := by
  induction h with
  | refl => exact .refl _
  | snoc _ s ih => exact ih.snoc s

theorem Path.asks (p : Path l actions l') : ∃ asked, Asks l actions asked l' := by
  induction p with
  | refl => exact ⟨[], .refl _⟩
  | snoc _ s ih =>
    obtain ⟨asked, h⟩ := ih
    exact ⟨_, h.snoc s⟩

theorem cause?_cases {why : Stop} (h : l.cause? a = some why) :
    why = .byCaller ∨ why = .byDeadline ∨ ∃ id c reason, a = .handle id c ∧ why = .fatal reason := by
  cases a with
  | check =>
    simp only [cause?] at h
    split_ifs at h with hcancel hlate
    · exact Or.inl (Option.some.inj h).symm
    · exact Or.inr (Or.inl (Option.some.inj h).symm)
  | heedCancel => exact Or.inl (Option.some.inj h).symm
  | heedDeadline => exact Or.inr (Or.inl (Option.some.inj h).symm)
  | handle id c =>
    obtain ⟨reason, hreason⟩ := Completion.eq_fatal_of_stop? h
    exact Or.inr (Or.inr ⟨id, c, reason, rfl, hreason⟩)
  | dispatch | refuse | wait | leave | ended | cancel | expire => cases h

theorem Asks.cause (h : Asks l actions asked l') {why : Stop} (hm : (a, why) ∈ asked) :
    ∃ m : Loop, m.cause? a = some why := by
  induction h with
  | refl => cases hm
  | @snoc m n actions asked b _ s ih =>
    rcases List.mem_append.mp hm with hm | hm
    · exact ih hm
    · obtain ⟨w, hw, he⟩ := Option.map_eq_some_iff.mp (Option.mem_toList.mp hm)
      obtain ⟨rfl, rfl⟩ := Prod.mk.inj he
      exact ⟨m, hw⟩

theorem Asks.stopped_eq (hv : g.Valid) (hs : Sound g limit l) (going : l.run.stopped = none)
    (h : Asks l actions asked l') : l'.run.stopped = asked.head?.map Prod.snd := by
  induction h with
  | refl => exact going
  | @snoc m n actions asked b p s ih =>
    rw [(hs.path hv p.path).stopped_eq hv s, ih, List.head?_append, Option.map_or]
    cases m.cause? b <;> rfl

theorem Asks.culprit (hv : g.Valid) (hs : Sound g limit l) (h : Asks l actions asked l') {id : TaskId}
    {c : Completion} {why : Stop} (hfirst : asked.head? = some (.handle id c, why)) :
    l'.run.verdict? id = some (.failed, some why.reason) := by
  induction h with
  | refl => cases hfirst
  | @snoc m n actions asked b p s ih =>
    have hs' := hs.path hv p.path
    cases asked with
    | cons first asked => exact (hs'.unfolds hv s).verdict?_eq rfl (ih hfirst)
    | nil =>
      have hlast : (m.cause? b).map (b, ·) = some (.handle id c, why) := by
        cases hcause : m.cause? b <;> simp_all
      obtain ⟨w, hcause, he⟩ := Option.map_eq_some_iff.mp hlast
      obtain ⟨rfl, rfl⟩ := Prod.mk.inj he
      cases s with
      | handle now place split =>
        exact hs'.coherent.verdict?_of_stop hv (hs'.mem_underway.mp (mem_underway_of_arrived split)) now
          hcause

section Finished

variable {p : Plan} (h : Graph.ofPlan p = .ok g) {runId : String} {handlers : Registry}
  {limits : Run.Limits} {now : Instant} (path : Path (start runId g handlers limits now) actions l)
  (left : l.place = .left) (later : Instant)
include h path left

theorem isTerminal_finish : ∀ o ∈ (l.run.finish later).1.tasks, o.state.isTerminal = true := by
  have hv := Graph.valid_of_ofPlan h
  have hc := (sound_of_path hv path).coherent
  intro o ho
  have hm : o.id ∈ g.ids := hc.ids_finish hv later ▸ List.mem_map_of_mem ho
  obtain ⟨u, hu, -, -, hover, -⟩ := outcome_of_path hv path left later hm
  have hfound := (Report.outcome?_eq_some_iff (hc.pairwise_ids_finish hv later)).mpr ⟨ho, rfl⟩
  obtain rfl : u = o := Option.some.inj (hu.symm.trans hfound)
  exact hover

theorem divides_finish : (l.run.finish later).1.Divides p := by
  have hv := Graph.valid_of_ofPlan h
  have hc := (sound_of_path hv path).coherent
  have hasc := hc.pairwise_ids_finish hv later
  have hlists := Report.idsIn_perm (isTerminal_finish h path left later)
  have htasks := hc.tasks_finish_perm h (chronicled_of_path hv path) later
  have hids := htasks.map Prod.fst
  rw [List.map_map, List.map_map] at hids
  have hmem : ∀ o ∈ (l.run.finish later).1.tasks, ∀ s,
      o.id ∈ Report.idsIn (l.run.finish later).1.tasks s ↔ o.state = s := fun o ho s => by
    rw [Report.mem_idsIn_iff hasc, Report.stateOf?, (Report.outcome?_eq_some_iff hasc).mpr ⟨ho, rfl⟩,
      Option.map_some, Option.some_inj]
  exact ⟨hasc, htasks, fun o ho => ⟨hmem o ho .done, hmem o ho .failed, hmem o ho .skipped⟩,
    ⟨Report.pairwise_idsIn hasc .done, Report.pairwise_idsIn hasc .failed,
      Report.pairwise_idsIn hasc .skipped⟩,
    hlists.nodup_iff.mpr (hasc.imp Std.ne_of_lt), hlists.trans hids⟩

/-- Without a stop, a task that is not done has failed or is behind one that has. -/
theorem failed_of_not_done (going : l.run.stopped = none) {o : Outcome}
    (ho : o ∈ (l.run.finish later).1.tasks) (hnot : o.state ≠ .done) :
    (l.run.finish later).1.failed ≠ [] := by
  have hv := Graph.valid_of_ofPlan h
  have hc := (sound_of_path hv path).coherent
  have hover := isTerminal_finish h path left later o ho
  have hlists := (divides_finish h path left later).mem_lists o ho
  refine fun hnone => ?_
  cases hs : o.state with
  | pending | ready | running => simp [hs, TaskState.isTerminal] at hover
  | done => exact hnot hs
  | failed => exact List.not_mem_nil (hnone ▸ hlists.2.1.mpr hs)
  | skipped =>
    obtain ⟨hm, hskip⟩ := (hc.stateOf?_finish_iff hv later rfl).mp
      ((Report.mem_idsIn_iff (hc.pairwise_ids_finish hv later)).mp (hlists.2.2.mpr hs))
    obtain ⟨a, hab, ha⟩ := blamed_of_path hv path going o.id hm hskip
    have hfailed := (hc.mem_failed_finish hv later).mpr ⟨(hv.before_mem_ids hab).1, ha⟩
    exact List.not_mem_nil (hnone ▸ hfailed)

theorem judges_finish {asked : List (Action × Stop)}
    (hasks : Asks (start runId g handlers limits now) actions asked l) :
    (l.run.finish later).1.Judges asked := by
  have hv := Graph.valid_of_ofPlan h
  have hc := (sound_of_path hv path).coherent
  have hstart := sound_start hv runId handlers limits now
  have hstopped := hasks.stopped_eq hv hstart rfl
  have hnone : l.run.stopped = none ↔ asked = [] := by simp [hstopped]
  have hsome : ∀ why, l.run.stopped = some why ↔ ∃ a, asked.head? = some (a, why) := fun why => by
    simp [hstopped]
  obtain ⟨hsuccess, hcancelled, hfailure⟩ := Run.status_finish_cases l.run later
  have hculprit : ∀ a reason, asked.head? = some (a, .fatal reason) → ∃ id c, a = .handle id c ∧
      id ∈ (l.run.finish later).1.failed ∧
      ∃ o ∈ (l.run.finish later).1.tasks, o.id = id ∧ o.diagnostic = some reason := by
    intro a reason hfirst
    obtain ⟨m, hcause⟩ := hasks.cause (List.mem_of_mem_head? hfirst)
    obtain hcall | hlate | ⟨id, c, -, rfl, -⟩ := cause?_cases hcause
    · cases hcall
    · cases hlate
    · obtain ⟨o, ho, he⟩ := Option.map_eq_some_iff.mp (hasks.culprit hv hstart hfirst)
      obtain ⟨hs, hd⟩ := Prod.mk.inj he
      obtain ⟨hm, hid⟩ := (Report.outcome?_eq_some_iff (hc.pairwise_ids_finish hv later)).mp
        ((hc.outcome?_finish hv later id).trans ho)
      have hfailed := ((divides_finish h path left later).mem_lists o hm).2.1.mpr hs
      exact ⟨id, c, rfl, hid ▸ hfailed, o, hm, hid, hd⟩
  refine ⟨?_, ?_, ?_, ?_, fun hs => ?_, hculprit⟩
  · rw [hsuccess, hnone]
  · rw [hcancelled]
    simp only [hsome]
    constructor
    · rintro ⟨why, a, hfirst⟩
      refine ⟨a, _, hfirst, ?_⟩
      obtain ⟨m, hcause⟩ := hasks.cause (List.mem_of_mem_head? hfirst)
      obtain hcall | hlate | ⟨id, c, reason, -, he⟩ := cause?_cases hcause
      · exact Or.inl hcall
      · exact Or.inr hlate
      · cases he
    · rintro ⟨a, why, hfirst, rfl | rfl⟩
      · exact ⟨_, a, hfirst⟩
      · exact ⟨_, a, hfirst⟩
  · rw [hfailure, hnone]
    simp only [hsome]
    exact or_congr_left exists_comm
  · change l.run.stopped.map Stop.reason = _
    rw [hstopped, Option.map_map]
    rfl
  · rcases hfailure.mp hs with ⟨why, hwhy⟩ | ⟨going, o, ho, hnot⟩
    · obtain ⟨a, hfirst⟩ := (hsome _).mp hwhy
      obtain ⟨id, c, -, hfailed, -⟩ := hculprit a why hfirst
      exact List.ne_nil_of_mem hfailed
    · exact failed_of_not_done h path left later going ho hnot

end Finished

/-- The report of a run divides the tasks of the plan, whatever stopped the run and whatever became of its
tasks, and it tells of the first stop. -/
theorem report_law {p : Plan} (h : Graph.ofPlan p = .ok g) {runId : String} {handlers : Registry}
    {limits : Run.Limits} {now : Instant}
    (path : Path (start runId g handlers limits now) actions l) (left : l.place = .left)
    (later : Instant) :
    (l.run.finish later).1.Divides p ∧
    (∃ asked, Asks (start runId g handlers limits now) actions asked l) ∧
    ∀ asked, Asks (start runId g handlers limits now) actions asked l →
      (l.run.finish later).1.Judges asked :=
  ⟨divides_finish h path left later, path.asks, fun _ => judges_finish h path left later⟩

theorem report_law_chain : ∃ actions asked l, Asks chain actions asked l ∧ l.place = .left ∧
    (l.run.finish default).1.Divides chainPlan ∧ (l.run.finish default).1.Judges asked := by
  obtain ⟨m, m', l, path, -, step, rest, left⟩ := path_chain_cancelled
  obtain ⟨hdivides, ⟨asked, hasks⟩, hjudges⟩ :=
    report_law (p := chainPlan) rfl (path.append (.cons step rest)) left default
  exact ⟨_, asked, l, hasks, left, hdivides, hjudges asked hasks⟩

end Loop

end Rollout
