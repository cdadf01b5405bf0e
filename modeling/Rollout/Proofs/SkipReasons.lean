import Rollout.Proofs.ReportLaw

/-! Why tasks are skipped. A task that waits behind a failed one is told so at once, all that wait when a run
is stopped are told of the stop, and whatever a task was told first stays. -/

namespace Rollout

def Event.FailedIn (events : List Event) (a : TaskId) : Prop :=
  ∃ diagnostic, .finished a .failed diagnostic ∈ events

def upstreamReason (a : TaskId) : String := "upstream task " ++ toString a.toNat ++ " failed"

/-- Why a task may be skipped after these events: behind the only failed task that it comes after, or by the
stop of the run, as long as it comes after none. -/
def Graph.Excuses (g : Graph) (stopped : Option Stop) (events : List Event) (x : TaskId)
    (reason : String) : Prop :=
  (∃ a, reason = upstreamReason a ∧ g.Before a x ∧ Event.FailedIn events a ∧
    ∀ b, g.Before b x → Event.FailedIn events b → b = a) ∨
  ∃ why, stopped = some why ∧ reason = why.skipReason ∧ ∀ b, g.Before b x → ¬ Event.FailedIn events b

/-- Every skip among the events has a reason that held when it was told. -/
def Graph.Excused (g : Graph) (stopped : Option Stop) (events : List Event) : Prop :=
  ∀ before x reason after, events = before ++ .skipped x reason :: after → g.Excuses stopped before x reason

namespace Report

/-- What a report may give as the reason why a task was skipped. -/
inductive Explains (r : Report) (g : Graph) (x : TaskId) : String → Prop
  | upstream {a : TaskId} (before : g.Before a x) (failed : r.stateOf? a = some .failed) :
      Explains r g x ("upstream task " ++ toString a.toNat ++ " failed")
  | byCaller (status : r.status = .cancelled) (abort : r.abortReason = some "cancelled by caller") :
      Explains r g x "cancelled by caller"
  | byDeadline (status : r.status = .cancelled) (abort : r.abortReason = some "plan deadline exceeded") :
      Explains r g x "plan deadline exceeded"
  | aborted {why : String} (status : r.status = .failure) (abort : r.abortReason = some why) :
      Explains r g x ("run aborted: " ++ why)

/-- A report that tells why each task was skipped; without a stop just those behind a failed task were. -/
structure Attributes (r : Report) (g : Graph) : Prop where
  skipped_iff : r.abortReason = none → ∀ x,
    (r.stateOf? x = some .skipped ↔ ∃ a, g.Before a x ∧ r.stateOf? a = some .failed)
  explained : ∀ x o, r.outcome? x = some o → o.state = .skipped →
    ∃ reason, o.diagnostic = some reason ∧ r.Explains g x reason

end Report

namespace Event

theorem FailedIn.append {events : List Event} {a : TaskId} (h : FailedIn events a) (more : List Event) :
    FailedIn (events ++ more) a :=
  h.imp fun _ hm => List.mem_append_left _ hm

theorem failedIn_append_skips {events : List Event} {ids : List TaskId} {reason : String} {a : TaskId} :
    FailedIn (events ++ ids.map (.skipped · reason)) a ↔ FailedIn events a := by
  simp [FailedIn]

theorem failedIn_snoc_failed {events : List Event} {id a : TaskId} {diagnostic : Option String} :
    FailedIn (events ++ [.finished id .failed diagnostic]) a ↔ a = id ∨ FailedIn events a := by
  simp only [FailedIn, List.mem_append, List.mem_singleton, finished.injEq, true_and]
  constructor
  · rintro ⟨d, hm | ⟨rfl, -⟩⟩
    · exact Or.inr ⟨d, hm⟩
    · exact Or.inl rfl
  · rintro (rfl | ⟨d, hm⟩)
    · exact ⟨diagnostic, Or.inr ⟨rfl, rfl⟩⟩
    · exact ⟨d, Or.inl hm⟩

end Event

namespace Graph

variable {g : Graph} {stopped : Option Stop} {events : List Event}

theorem Excuses.congr {before : List Event} {x : TaskId} {reason : String}
    (h : g.Excuses stopped events x reason)
    (hsame : ∀ a, Event.FailedIn before a ↔ Event.FailedIn events a) : g.Excuses stopped before x reason := by
  simpa only [Excuses, hsame] using h

theorem Excused.snoc (h : g.Excused stopped events) {e : Event}
    (he : ∀ x reason, e = .skipped x reason → g.Excuses stopped events x reason) :
    g.Excused stopped (events ++ [e]) := by
  intro before x reason after hsplit
  rcases snoc_eq_append_cons hsplit with ⟨rest, hold⟩ | ⟨rfl, rfl⟩
  · exact h before x reason rest hold
  · exact he x reason rfl

theorem Excused.skips (h : g.Excused stopped events) {ids : List TaskId} {reason : String}
    (hids : ∀ x ∈ ids, g.Excuses stopped events x reason) :
    g.Excused stopped (events ++ ids.map (.skipped · reason)) := by
  induction ids using List.reverseRecOn with
  | nil => simpa using h
  | append_singleton ids x ih =>
    have hold := ih fun y hy => hids y (List.mem_append_left _ hy)
    have hnew : g.Excuses stopped (events ++ ids.map (.skipped · reason)) x reason :=
      (hids x (by simp)).congr fun a => Event.failedIn_append_skips
    rw [List.map_append, ← List.append_assoc]
    refine hold.snoc fun y why he => ?_
    obtain ⟨rfl, rfl⟩ := Event.skipped.inj he
    exact hnew

theorem Excused.of_going (h : g.Excused none events) (stopped : Option Stop) : g.Excused stopped events := by
  intro before x reason after hsplit
  rcases h before x reason after hsplit with hbehind | ⟨why, hwhy, -⟩
  · exact Or.inl hbehind
  · cases hwhy

end Graph

namespace Outcome

variable {o : Outcome} {a : TaskId}

theorem failed_of_mem_story {diagnostic : Option String}
    (h : .finished a .failed diagnostic ∈ o.story) : o.state = .failed := by
  rw [story, List.mem_append] at h
  have hlast : .finished a .failed diagnostic ∈ o.conclusion := h.resolve_left (by split_ifs <;> simp)
  rw [conclusion] at hlast
  cases hs : o.state with
  | failed => rfl
  | pending | ready | running | done | skipped => simp [hs] at hlast

theorem skipped_of_mem_story (hf : o.Filled) {reason : String} (h : .skipped a reason ∈ o.story) :
    o.state = .skipped ∧ o.diagnostic = some reason := by
  rw [story, List.mem_append] at h
  have hlast : .skipped a reason ∈ o.conclusion := h.resolve_left (by split_ifs <;> simp)
  rw [conclusion] at hlast
  cases hs : o.state with
  | skipped =>
    obtain ⟨d, hd⟩ := Option.isSome_iff_exists.mp (show o.diagnostic.isSome by simp_all [Filled])
    simp only [hs, hd, Option.getD_some, List.mem_singleton, Event.skipped.injEq] at hlast
    exact ⟨rfl, by rw [hd, hlast.2]⟩
  | pending | ready | running | done | failed => simp [hs] at hlast

end Outcome

namespace Run

variable {g : Graph} {r : Run} {id : TaskId}

theorem events_foldl_skip (reason : String) (ids : List TaskId) (r : Run) :
    (ids.foldl (skip reason) r).events = r.events ++ ids.map (.skipped · reason) := by
  induction ids generalizing r with
  | nil => simp
  | cons x ids ih =>
    rw [List.foldl_cons, ih]
    simp [skip, emit, setState]

theorem events_foldl_skipPending (reason : String) (l : List TaskId) (r : Run) :
    ∃ ids : List TaskId, (l.foldl (skipPending reason) r).events = r.events ++ ids.map (.skipped · reason) ∧
      ∀ x ∈ ids, x ∈ l ∧ r.stateOf x = .pending := by
  induction l generalizing r with
  | nil => exact ⟨[], by simp, nofun⟩
  | cons x l ih =>
    obtain ⟨ids, hevents, hids⟩ := ih (skipPending reason r x)
    by_cases hx : r.stateOf x = .pending
    · have hskip : skipPending reason r x = skip reason r x := if_pos hx
      rw [hskip] at hevents hids
      refine ⟨x :: ids, ?_, fun y hy => ?_⟩
      · rw [List.foldl_cons, hskip, hevents]
        simp [skip, emit, setState]
      · rcases List.mem_cons.mp hy with rfl | hy
        · exact ⟨List.mem_cons_self, hx⟩
        · obtain ⟨hm, hpending⟩ := hids y hy
          refine ⟨List.mem_cons_of_mem _ hm, ?_⟩
          rw [stateOf_skip] at hpending
          by_cases he : y = x
          · simp [he] at hpending
          · rwa [Function.update_of_ne he] at hpending
    · have hstill : skipPending reason r x = r := if_neg hx
      rw [hstill] at hevents hids
      refine ⟨ids, by rw [List.foldl_cons, hstill, hevents], fun y hy => ?_⟩
      exact (hids y hy).imp_left (List.mem_cons_of_mem _)

theorem Chronicled.stateOf_failed (h : Chronicled g r) (hc : Coherent g r) {a : TaskId}
    (ha : Event.FailedIn r.events a) : r.stateOf a = .failed := by
  obtain ⟨diagnostic, hm⟩ := ha
  obtain ⟨o, ho, hstory⟩ := h.outcome_of_mem hc hm rfl
  have hverdict : r.verdict? a = some (.failed, o.diagnostic) := by
    rw [verdict?, ho, Option.map_some, Outcome.failed_of_mem_story hstory]
  exact stateOf_of_find? (hc.told.find?_of_verdict hverdict (by decide))

theorem Chronicled.verdict?_skipped (h : Chronicled g r) (hc : Coherent g r) {x : TaskId} {reason : String}
    (hx : .skipped x reason ∈ r.events) : r.verdict? x = some (.skipped, some reason) := by
  obtain ⟨o, ho, hstory⟩ := h.outcome_of_mem hc hx rfl
  obtain ⟨hskip, hreason⟩ := Outcome.skipped_of_mem_story (h.filled ho) hstory
  rw [verdict?, ho, Option.map_some, hskip, hreason]

/-- No task that waits comes after one that failed. -/
theorem Chronicled.not_failedIn (h : Chronicled g r) (hc : Coherent g r) {x : TaskId}
    (hx : r.stateOf x ≠ .skipped) {b : TaskId} (hb : g.Before b x) : ¬ Event.FailedIn r.events b := fun hf =>
  hx (hc.skipped_behind (Or.inl (h.stateOf_failed hc hf)) hb)

section Operations

variable (hc : Coherent g r) (h : Chronicled g r) (he : g.Excused r.stopped r.events)
include hc h he

theorem Coherent.excused_fail (hv : g.Valid) (hid : r.stateOf id ≠ .skipped) (r' : Run)
    (hgraph : r'.graph = r.graph) (hstates : r'.states = r.states) (hevents : r'.events = r.events)
    (hstopped : r'.stopped = r.stopped) (now : Instant) (diagnostic : String) :
    g.Excused (fail now r' id diagnostic).stopped (fail now r' id diagnostic).events := by
  rw [stopped_fail, hstopped, fail_eq]
  obtain ⟨ids, htold, hids⟩ := events_foldl_skipPending
    ("upstream task " ++ toString id.toNat ++ " failed") (r'.graph.downstream id)
    (r'.mark id .failed
      (fun o => { o with state := .failed, diagnostic := some diagnostic, finishedAt := some now })
      (.finished id .failed (some diagnostic)))
  have hkey : id ∈ r'.states.keys := hstates ▸ mem_keys_of_stateOf hid
  rw [htold]
  have hfailed : g.Excused r.stopped (r'.events ++ [.finished id .failed (some diagnostic)]) := by
    rw [hevents]
    exact he.snoc fun x reason hx => by cases hx
  -- whoever is skipped now has waited until now, so nothing else before it has failed
  refine hfailed.skips fun x hx => Or.inl ⟨id, rfl, ?_, ?_, fun b hb hf => ?_⟩
  · rw [hgraph, hc.graph_eq] at hids
    exact (Graph.mem_downstream_iff hv).mp (hids x hx).1
  · exact Event.failedIn_snoc_failed.mpr (Or.inl rfl)
  · refine (Event.failedIn_snoc_failed.mp hf).resolve_right fun hf => ?_
    have hpending := (hids x hx).2
    rw [stateOf_mark (Or.inl hkey)] at hpending
    have hne : x ≠ id := fun e => by simp [e] at hpending
    rw [Function.update_of_ne hne, stateOf, hstates] at hpending
    exact h.not_failedIn hc (show r.stateOf x ≠ .skipped by simp [stateOf, hpending]) hb (hevents ▸ hf)

theorem Coherent.excused_stop (s : Stop) : g.Excused (r.stop s).stopped (r.stop s).events := by
  cases hs : r.stopped with
  | some old =>
    rw [stop_of_stopped (by simp [hs])]
    exact he
  | none =>
    rw [hs] at he
    rw [stopped_stop_eq, hs, Option.none_or, stop_eq hs]
    change g.Excused (some s) (r.waiting.foldl (skip s.skipReason) r).events
    rw [events_foldl_skip]
    refine (he.of_going _).skips fun x hx => Or.inr ⟨s, rfl, rfl, fun b hb => ?_⟩
    refine h.not_failedIn hc (fun hskip => ?_) hb
    have hwaits := (mem_waiting hc.keys_eq).mp hx
    simp [hskip] at hwaits

theorem Coherent.excused_complete (hv : g.Valid) (hid : r.stateOf id = .running) (now : Instant)
    (c : Completion) :
    g.Excused (r.complete now id c).stopped (r.complete now id c).events := by
  have hskip : r.stateOf id ≠ .skipped := by simp [hid]
  have hstop : ∀ context diagnostic s, g.Excused
      ((fail now { r with inFlight := r.inFlight - 1, context := context } id diagnostic).stop s).stopped
      ((fail now { r with inFlight := r.inFlight - 1, context := context } id diagnostic).stop s).events :=
    fun context diagnostic s =>
      (hc.fail_running hv hid context now diagnostic).excused_stop
        (h.unfolds (hc.unfolds_fail (Or.inr hid) { r with inFlight := r.inFlight - 1, context := context }
          rfl rfl rfl now diagnostic))
        (hc.excused_fail h he hv hskip { r with inFlight := r.inFlight - 1, context := context }
          rfl rfl rfl rfl now diagnostic) s
  cases c with
  | succeeded outputs =>
    cases hw : r.context.writeAll id outputs.pairs with
    | mk context fault =>
      cases fault with
      | none =>
        have hunlock : ∀ (l : List TaskId) (r : Run), (l.foldl unlock r).events = r.events := fun l => by
          induction l with
          | nil => exact fun _ => rfl
          | cons x l ih => exact fun r => (ih _).trans (told_unlock r x).2
        rw [complete_written hw, (hc.unlocks hv now context id).stopped, hunlock]
        exact he.snoc fun x reason hx => by cases hx
      | some f =>
        rw [complete_taken hw]
        exact hstop context f.message _
  | failed diagnostic fatal =>
    rw [complete_failed]
    cases fatal with
    | false => exact hc.excused_fail h he hv hskip { r with inFlight := r.inFlight - 1 } rfl rfl rfl rfl now _
    | true => exact hstop r.context diagnostic _

theorem Coherent.excused_dispatch (hv : g.Valid) (hid : r.stateOf id = .ready) (now : Instant) (kind : Kind) :
    g.Excused (r.dispatch now id kind).1.stopped (r.dispatch now id kind).1.events := by
  cases hcovered : r.covered kind with
  | true =>
    rw [stopped_dispatch, dispatch_covered hcovered]
    exact he.snoc fun x reason hx => by cases hx
  | false =>
    rw [dispatch_uncovered hcovered]
    exact hc.excused_fail h he hv (by simp [hid]) { r with ready := r.ready.drop 1 } rfl rfl rfl rfl now _

end Operations

end Run

namespace Loop

variable {g : Graph} {limit : Nat} {l l' : Loop} {actions : List Action} {a : Action}

theorem Moves.excused {r r' : Run} (hv : g.Valid) (hc : Run.Coherent g r) (h : Run.Chronicled g r)
    (he : g.Excused r.stopped r.events) (m : Moves r a r') : g.Excused r'.stopped r'.events := by
  cases m with
  | still other => exact he
  | stop other why => exact hc.excused_stop h he _
  | turn now action first task => exact hc.excused_dispatch h he hv (hc.ready_head first).1 now _
  | taken now c running => exact hc.excused_complete h he hv running now c

theorem excused_of_path (hv : g.Valid) {runId : String} {handlers : Registry} {limits : Run.Limits}
    {now : Instant} (path : Path (start runId g handlers limits now) actions l) :
    g.Excused l.run.stopped l.run.events := by
  induction path with
  | refl =>
    intro before x reason after hsplit
    rcases before with _ | ⟨e, before⟩
    · cases hsplit
    · exact absurd (List.cons.inj hsplit).2.symm (by simp)
  | snoc path s ih =>
    have hs := sound_of_path hv path
    exact (hs.moves s).excused hv hs.coherent (chronicled_of_path hv path) ih

theorem stopped_cases_of_path (hv : g.Valid) {runId : String} {handlers : Registry} {limits : Run.Limits}
    {now : Instant} (path : Path (start runId g handlers limits now) actions l) {why : Stop}
    (hwhy : l.run.stopped = some why) :
    why = .byCaller ∨ why = .byDeadline ∨ ∃ reason, why = .fatal reason := by
  obtain ⟨asked, hasks⟩ := path.asks
  rw [hasks.stopped_eq hv (sound_start hv runId handlers limits now) rfl, Option.map_eq_some_iff] at hwhy
  obtain ⟨⟨a, why⟩, hfirst, rfl⟩ := hwhy
  obtain ⟨m, hcause⟩ := hasks.cause (List.mem_of_mem_head? hfirst)
  rcases cause?_cases hcause with hcall | hlate | ⟨_, _, reason, -, he⟩
  · exact Or.inl hcall
  · exact Or.inr (Or.inl hlate)
  · exact Or.inr (Or.inr ⟨reason, he⟩)

section Reported

variable (hv : g.Valid) {runId : String} {handlers : Registry} {limits : Run.Limits} {now : Instant}
  (path : Path (start runId g handlers limits now) actions l) (later : Instant)
include hv path

theorem skipped_iff_of_going (going : l.run.stopped = none) (x : TaskId) :
    (l.run.finish later).1.stateOf? x = some .skipped ↔
      ∃ a, g.Before a x ∧ (l.run.finish later).1.stateOf? a = some .failed := by
  have hc := (sound_of_path hv path).coherent
  simp only [hc.stateOf?_finish_iff hv later (s := .skipped) rfl,
    hc.stateOf?_finish_iff hv later (s := .failed) rfl]
  constructor
  · rintro ⟨hx, hskip⟩
    obtain ⟨a, hab, ha⟩ := blamed_of_path hv path going x hx hskip
    exact ⟨a, hab, (hv.before_mem_ids hab).1, ha⟩
  · rintro ⟨a, hab, -, ha⟩
    exact ⟨(hv.before_mem_ids hab).2, hc.skipped_behind (Or.inl ha) hab⟩

theorem explains_of_excuses {events : List Event} {x : TaskId} {reason : String}
    (h : g.Excuses l.run.stopped events x reason)
    (hevents : ∀ a, Event.FailedIn events a → Event.FailedIn l.run.events a) :
    (l.run.finish later).1.Explains g x reason := by
  have hc := (sound_of_path hv path).coherent
  obtain ⟨a, rfl, hab, hf, -⟩ | ⟨why, hwhy, rfl, -⟩ := h
  · have ha := (chronicled_of_path hv path).stateOf_failed hc (hevents a hf)
    exact .upstream hab ((hc.stateOf?_finish_iff hv later rfl).mpr ⟨(hv.before_mem_ids hab).1, ha⟩)
  · obtain ⟨habort, hstatus⟩ := Run.finish_of_stopped hwhy later
    obtain rfl | rfl | ⟨reason, rfl⟩ := stopped_cases_of_path hv path hwhy
    · exact .byCaller hstatus habort
    · exact .byDeadline hstatus habort
    · exact .aborted hstatus habort

/-- An outcome tells of a skip as the events do. -/
theorem told_of_skipped {x : TaskId} {o : Outcome} (ho : (l.run.finish later).1.outcome? x = some o)
    (hskip : o.state = .skipped) :
    ∃ reason, o.diagnostic = some reason ∧ .skipped x reason ∈ l.run.events := by
  have h := chronicled_of_path hv path
  rw [(sound_of_path hv path).coherent.outcome?_finish hv later x] at ho
  have hfilled := h.filled ho
  rw [Outcome.Filled, hskip] at hfilled
  obtain ⟨reason, hreason⟩ := Option.isSome_iff_exists.mp hfilled.2.2
  refine ⟨reason, hreason, ?_⟩
  have hstory : .skipped x reason ∈ o.story := by
    simp [Outcome.story, Outcome.conclusion, hskip, hreason, (h.kind_eq ho).1]
  rw [← h.story ho] at hstory
  exact (List.mem_filter.mp hstory).1

/-- What a task was told when it was skipped is what every later report says of it. -/
theorem outcome_of_told {x : TaskId} {reason : String} (hm : .skipped x reason ∈ l.run.events)
    {more : List Action} (rest : Path l more l') :
    ∃ o, (l'.run.finish later).1.outcome? x = some o ∧ o.state = .skipped ∧ o.diagnostic = some reason := by
  have hs := sound_of_path hv path
  have hfirst := (chronicled_of_path hv path).verdict?_skipped hs.coherent hm
  obtain ⟨o, ho, he⟩ := Option.map_eq_some_iff.mp ((hs.unfolds_path hv rest).verdict?_eq rfl hfirst)
  obtain ⟨hskip, hreason⟩ := Prod.mk.inj he
  exact ⟨o, ((hs.path hv rest).coherent.outcome?_finish hv later x).trans ho, hskip, hreason⟩

end Reported

/-- Without a stop, a run skips just the tasks behind those that failed. Each task that is skipped is told
why, truthfully and for good: that the one task before it that failed so far has failed, or that the run is
stopped. -/
theorem skips_explained {p : Plan} (h : Graph.ofPlan p = .ok g) {runId : String} {handlers : Registry}
    {limits : Run.Limits} {now : Instant}
    (path : Path (start runId g handlers limits now) actions l) (later : Instant) :
    (l.run.finish later).1.Attributes g ∧
    ∀ before x reason after, (l.run.finish later).2 = before ++ .skipped x reason :: after →
      g.Excuses l.run.stopped before x reason ∧
      ∀ more l', Path l more l' → ∀ last, ∃ o, (l'.run.finish last).1.outcome? x = some o ∧
        o.state = .skipped ∧ o.diagnostic = some reason := by
  have hv := Graph.valid_of_ofPlan h
  have hexcused := excused_of_path hv path
  have hsplit : ∀ {before x reason after}, (l.run.finish later).2 = before ++ .skipped x reason :: after →
      ∃ rest, l.run.events = before ++ .skipped x reason :: rest := fun {before x reason after} he => by
    rcases snoc_eq_append_cons he with hold | ⟨-, hlast⟩
    · exact hold
    · cases hlast
  refine ⟨⟨fun hgoing x => ?_, fun x o ho hskip => ?_⟩, fun before x reason after he => ?_⟩
  · exact skipped_iff_of_going hv path later (Option.map_eq_none_iff.mp hgoing) x
  · obtain ⟨reason, hreason, hm⟩ := told_of_skipped hv path later ho hskip
    obtain ⟨before, after, he⟩ := List.append_of_mem hm
    refine ⟨reason, hreason, explains_of_excuses hv path later (hexcused before x reason after he) ?_⟩
    exact fun a ha => he ▸ ha.append _
  · obtain ⟨rest, hold⟩ := hsplit he
    have hm : .skipped x reason ∈ l.run.events := hold ▸ List.mem_append_right _ List.mem_cons_self
    exact ⟨hexcused before x reason rest hold, fun more l' p last => outcome_of_told hv path last hm p⟩

def joinPlan : Plan :=
  ⟨"join", [⟨1, .createNamespace "a", [], [3]⟩, ⟨2, .createNamespace "b", [], [3]⟩,
    ⟨3, .deleteNamespace "a", [1, 2], []⟩]⟩

def join : Loop :=
  start "run" (.index "join" (Graph.taskTable joinPlan))
    (Kind.all.map fun k => (k, fun _ _ => .done (.finished .empty))) ⟨2, none⟩ default

/-- Both tasks fail, the second one first. -/
theorem path_join : ∃ actions l, Path join actions l ∧ l.place = .left ∧ l.run.events =
    [.runStarted "run" "join" 3, .dispatched 1 .createNamespace, .dispatched 2 .createNamespace,
      .finished 2 .failed (some "handler panicked: unknown panic"), .skipped 3 "upstream task 2 failed",
      .finished 1 .failed (some "handler panicked: unknown panic")] := by
  have h₁ := Path.snoc (.refl join) (.check rfl)
  have h₂ := h₁.snoc (a := .dispatch 1) (.dispatch default rfl rfl rfl rfl rfl)
  have h₃ := h₂.snoc (a := .dispatch 2) (.dispatch default rfl rfl rfl rfl rfl)
  have h₄ := h₃.snoc (.wait rfl rfl rfl)
  have h₅ := h₄.snoc (.ended (.panicked none) (List.mem_cons_self (a := 2)))
  have h₆ := h₅.snoc (.ended (.panicked none) (List.mem_cons_self (a := 1)))
  have h₇ := h₆.snoc (.handle default rfl (List.nil_append _).symm)
  have h₈ := (h₇.snoc (.check rfl)).snoc (.wait rfl rfl rfl)
  have h₉ := h₈.snoc (.handle default rfl (List.nil_append _).symm)
  exact ⟨_, _, (h₉.snoc (.check rfl)).snoc (.leave rfl rfl rfl), rfl, rfl⟩

theorem skips_explained_join : ∃ actions l, Path join actions l ∧ l.place = .left ∧
    (l.run.finish default).1.Attributes (.index "join" (Graph.taskTable joinPlan)) ∧
    ∃ o, (l.run.finish default).1.outcome? 3 = some o ∧ o.state = .skipped ∧
      o.diagnostic = some "upstream task 2 failed" := by
  obtain ⟨actions, l, path, left, hevents⟩ := path_join
  obtain ⟨hattributes, htold⟩ := skips_explained (p := joinPlan) rfl path default
  have hsplit : (l.run.finish default).2 =
      [.runStarted "run" "join" 3, .dispatched 1 .createNamespace, .dispatched 2 .createNamespace,
        .finished 2 .failed (some "handler panicked: unknown panic")] ++
      .skipped 3 "upstream task 2 failed" :: [.finished 1 .failed (some "handler panicked: unknown panic"),
        .runFinished (l.run.finish default).1.runId (l.run.finish default).1.status] := by
    change l.run.events ++ _ = _
    rw [hevents]
    rfl
  exact ⟨actions, l, path, left, hattributes, (htold _ _ _ _ hsplit).2 [] l (.refl l) default⟩

end Loop

end Rollout
