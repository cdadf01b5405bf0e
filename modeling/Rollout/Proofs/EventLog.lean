import Rollout.Proofs.DependencySafety
import Rollout.Proofs.RunUnfolding

/-! What observers are told of a run agrees with what is reported of it. The events of each task are those
that its outcome tells of, and no task starts before all tasks right before it were told to be done. -/

namespace Rollout

namespace Event

def task? : Event → Option TaskId
  | dispatched id _ | finished id _ _ | skipped id _ => some id
  | runStarted _ _ _ | runFinished _ _ => none

/-- Whether nothing more is told of a task after this. -/
def ends (id : TaskId) : Event → Bool
  | finished x _ _ | skipped x _ => x = id
  | _ => false

/-- Whether an event tells how a task ended. -/
def Tells (o : Outcome) : Event → Prop
  | finished id s diagnostic =>
    id = o.id ∧ s = o.state ∧ diagnostic = o.diagnostic ∧ (s = .done ∨ s = .failed)
  | skipped id reason => id = o.id ∧ o.state = .skipped ∧ o.diagnostic = some reason
  | _ => False

end Event

namespace Outcome

/-- The last event of a task that was left with this outcome, if it has one. -/
def conclusion (o : Outcome) : List Event :=
  match o.state with
  | .pending | .ready | .running => []
  | .done | .failed => [.finished o.id o.state o.diagnostic]
  | .skipped => [.skipped o.id (o.diagnostic.getD "")]

/-- The events of a task that was left with this outcome. -/
def story (o : Outcome) : List Event :=
  (if o.startedAt.isSome then [.dispatched o.id o.kind] else []) ++ o.conclusion

/-- Whether an outcome holds what belongs to its state. Tasks without handler fail without a start. -/
def Filled (o : Outcome) : Prop :=
  match o.state with
  | .pending | .ready => o.startedAt = none ∧ o.finishedAt = none ∧ o.diagnostic = none
  | .running => o.startedAt.isSome ∧ o.finishedAt = none ∧ o.diagnostic = none
  | .done => o.startedAt.isSome ∧ o.finishedAt.isSome ∧ o.diagnostic = none
  | .failed => o.finishedAt.isSome ∧ o.diagnostic.isSome
  | .skipped => o.startedAt = none ∧ o.finishedAt = none ∧ o.diagnostic.isSome

end Outcome

/-- A report and the events of its run that tell the same of the tasks of a plan. -/
structure Report.Agrees (r : Report) (p : Plan) (events : List Event) : Prop where
  frame : ∃ told, events = .runStarted r.runId p.name p.tasks.length ::
      (told ++ [.runFinished r.runId r.status]) ∧
    ∀ e ∈ told, ∃ id ∈ p.ids, e.task? = some id
  ended : ∀ id ∈ p.ids, ∃ o e, r.outcome? id = some o ∧ events.filter (·.ends id) = [e] ∧ e.Tells o
  dispatched : ∀ {before id kind after}, events = before ++ .dispatched id kind :: after →
    (∃ t ∈ p.tasks, t.id = id ∧ t.kind = kind) ∧ (∀ k, .dispatched id k ∉ before ++ after) ∧
    (∃ s diagnostic, .finished id s diagnostic ∈ after) ∧ r.stateOf? id ≠ some .skipped
  ordered : ∀ {before a b kind after}, events = before ++ .dispatched b kind :: after → p.Edge a b →
    .finished a .done none ∈ before
  started : ∀ id ∈ p.ids, ∀ o, r.outcome? id = some o →
    (o.startedAt.isSome ↔ ∃ kind, .dispatched id kind ∈ events)
  finished : ∀ id ∈ p.ids, ∀ o, r.outcome? id = some o →
    (o.finishedAt.isSome ↔ o.state = .done ∨ o.state = .failed)
  diagnostic : ∀ id ∈ p.ids, ∀ o, r.outcome? id = some o →
    (o.diagnostic.isSome ↔ o.state = .failed ∨ o.state = .skipped)

theorem nil_ne_append_cons {α : Type} {before after : List α} {x : α} : [] ≠ before ++ x :: after :=
  (List.append_ne_nil_of_right_ne_nil _ (List.cons_ne_nil _ _)).symm

theorem snoc_eq_append_cons {α : Type} {l before after : List α} {e x : α}
    (h : l ++ [e] = before ++ x :: after) :
    (∃ rest, l = before ++ x :: rest) ∨ l = before ∧ e = x := by
  rcases List.eq_nil_or_concat after with rfl | ⟨rest, y, rfl⟩
  · obtain ⟨hl, he⟩ := List.append_inj' h rfl
    exact Or.inr ⟨hl, List.singleton_inj.mp he⟩
  · have hsplit : l ++ [e] = (before ++ x :: rest) ++ [y] := by
      rw [h]
      simp
    exact Or.inl ⟨rest, (List.append_inj' hsplit rfl).1⟩

namespace Run

variable {g : Graph} {r r' : Run} {id : TaskId}

/-- The outcomes and the events of a run tell the same at any time. -/
structure Chronicled (g : Graph) (r : Run) : Prop where
  opening : ∃ told, r.events = .runStarted r.tally.runId g.name g.size :: told ∧
    ∀ e ∈ told, ∃ id ∈ g.ids, e.task? = some id
  kind_eq : ∀ {x o}, r.tally.outcomes.find? x = some o →
    o.id = x ∧ ∃ t, g.task? x = some t ∧ o.kind = t.kind
  filled : ∀ {x o}, r.tally.outcomes.find? x = some o → o.Filled
  story : ∀ {x o}, r.tally.outcomes.find? x = some o →
    r.events.filter (·.task? = some x) = o.story
  ordered : ∀ {before b kind after}, r.events = before ++ .dispatched b kind :: after →
    ∀ a, g.Edge a b → .finished a .done none ∈ before

theorem Chronicled.of_eq (h : Chronicled g r) (htally : r'.tally = r.tally)
    (hevents : r'.events = r.events) : Chronicled g r' := by
  refine ⟨?_, fun ho => h.kind_eq (htally ▸ ho), fun ho => h.filled (htally ▸ ho), fun ho => ?_,
    fun hs => h.ordered (hevents ▸ hs)⟩
  · rw [hevents, htally]
    exact h.opening
  · rw [hevents]
    exact h.story (htally ▸ ho)

/-- One event is told of a task, and its outcome changed in the same way. -/
theorem Chronicled.tell (h : Chronicled g r) {o : Outcome} {f : Outcome → Outcome} {e : Event}
    (ho : r.tally.outcomes.find? id = some o) (htally : r'.tally = r.tally.change id f)
    (hevents : r'.events = r.events ++ [e]) (he : e.task? = some id)
    (hkind : (f o).id = o.id ∧ (f o).kind = o.kind) (hfilled : (f o).Filled)
    (hstory : (f o).story = o.story ++ [e])
    (hordered : ∀ b kind, e = .dispatched b kind → ∀ a, g.Edge a b →
      .finished a .done none ∈ r.events) : Chronicled g r' := by
  obtain ⟨hid, t, ht, hk⟩ := h.kind_eq ho
  have hfind : ∀ {x u}, r'.tally.outcomes.find? x = some u →
      x = id ∧ u = f o ∨ x ≠ id ∧ r.tally.outcomes.find? x = some u := fun {x u} hu => by
    rw [htally, Tally.find?_change] at hu
    by_cases hx : x = id
    · rw [if_pos hx, hx, ho] at hu
      exact Or.inl ⟨hx, (Option.some.inj hu).symm⟩
    · rw [if_neg hx] at hu
      exact Or.inr ⟨hx, hu⟩
  refine ⟨?_, fun hu => ?_, fun hu => ?_, fun hu => ?_, fun {before b kind after} hsplit a hab => ?_⟩
  · obtain ⟨told, hopen, htold⟩ := h.opening
    refine ⟨told ++ [e], ?_, fun e' he' => ?_⟩
    · rw [hevents, hopen, htally]
      rfl
    rcases List.mem_append.mp he' with he' | he'
    · exact htold e' he'
    · exact ⟨id, Graph.mem_ids_iff.mpr ⟨t, ht⟩, List.mem_singleton.mp he' ▸ he⟩
  · rcases hfind hu with ⟨rfl, rfl⟩ | ⟨-, hu⟩
    · exact ⟨hkind.1.trans hid, t, ht, hkind.2.trans hk⟩
    · exact h.kind_eq hu
  · rcases hfind hu with ⟨-, rfl⟩ | ⟨-, hu⟩
    · exact hfilled
    · exact h.filled hu
  · rw [hevents, List.filter_append]
    rcases hfind hu with ⟨rfl, rfl⟩ | ⟨hx, hu⟩
    · rw [h.story ho, hstory]
      simp [he]
    · rw [h.story hu]
      simp [he, Ne.symm hx]
  · rw [hevents] at hsplit
    rcases snoc_eq_append_cons hsplit with ⟨rest, hold⟩ | ⟨rfl, hlast⟩
    · exact h.ordered hold a hab
    · exact hordered b kind hlast a hab

theorem Chronicled.mem_ids_of_mem (h : Chronicled g r) {e : Event} (hm : e ∈ r.events)
    (he : e.task? = some id) : id ∈ g.ids := by
  obtain ⟨told, hopen, htold⟩ := h.opening
  rw [hopen] at hm
  have hlater : e ∈ told := (List.mem_cons.mp hm).resolve_left fun heq => by simp [heq, Event.task?] at he
  obtain ⟨x, hx, hex⟩ := htold e hlater
  exact Option.some.inj (hex.symm.trans he) ▸ hx

theorem Chronicled.mem_ids (h : Chronicled g r) {kind : Kind} {before after : List Event}
    (hs : r.events = before ++ .dispatched id kind :: after) : id ∈ g.ids :=
  h.mem_ids_of_mem (hs ▸ List.mem_append_right _ List.mem_cons_self) rfl

theorem Chronicled.outcome_of_mem (h : Chronicled g r) (hc : Coherent g r) {e : Event} (hm : e ∈ r.events)
    (he : e.task? = some id) : ∃ o, r.tally.outcomes.find? id = some o ∧ e ∈ o.story := by
  obtain ⟨o, ho⟩ := Table.mem_keys_iff.mp (hc.keys_outcomes ▸ h.mem_ids_of_mem hm he)
  exact ⟨o, ho, h.story ho ▸ List.mem_filter.mpr ⟨hm, by simp [he]⟩⟩

theorem outcome_of_stateOf? {t : Tally} {s : TaskState} (h : t.stateOf? id = some s) :
    ∃ o, t.outcomes.find? id = some o ∧ o.state = s :=
  Option.map_eq_some_iff.mp h

theorem Chronicled.told_done (h : Chronicled g r) {a : TaskId}
    (ha : r.tally.stateOf? a = some .done) : .finished a .done none ∈ r.events := by
  obtain ⟨o, ho, hs⟩ := outcome_of_stateOf? ha
  have hmem : .finished a .done none ∈ r.events.filter (·.task? = some a) := by
    have hfilled := h.filled ho
    rw [h.story ho]
    simp_all [Outcome.Filled, Outcome.story, Outcome.conclusion, (h.kind_eq ho).1]
  exact (List.mem_filter.mp hmem).1

theorem Chronicled.unfolds (h : Chronicled g r) (u : Unfolds g r r') : Chronicled g r' := by
  induction u with
  | still tally events => exact h.of_eq tally events
  | @started r r' id t now task state behind tally events =>
    obtain ⟨o, ho, hs⟩ := outcome_of_stateOf? state
    have hfilled := h.filled ho
    obtain ⟨hid, t', ht', hkind⟩ := h.kind_eq ho
    obtain rfl : t = t' := Option.some.inj (task.symm.trans ht')
    refine h.tell ho tally events rfl ⟨rfl, rfl⟩ ?_ ?_ fun b kind he a hab => ?_
    · simp_all [Outcome.Filled]
    · simp_all [Outcome.Filled, Outcome.story, Outcome.conclusion]
    · obtain ⟨rfl, -⟩ := Event.dispatched.inj he
      exact h.told_done (behind a hab)
  | done now state tally events =>
    obtain ⟨o, ho, hs⟩ := outcome_of_stateOf? state
    have hfilled := h.filled ho
    refine h.tell ho tally events rfl ⟨rfl, rfl⟩ ?_ ?_ fun _ _ he => by cases he
    · simp_all [Outcome.Filled]
    · simp_all [Outcome.Filled, Outcome.story, Outcome.conclusion, (h.kind_eq ho).1]
  | @failed r r' id now diagnostic state tally events =>
    obtain ⟨o, ho, hs⟩ : ∃ o : Outcome, r.tally.outcomes.find? id = some o ∧
        (o.state = .pending ∨ o.state = .running) := by
      rcases state with state | state
      · exact (outcome_of_stateOf? state).imp fun o h => h.imp_right Or.inl
      · exact (outcome_of_stateOf? state).imp fun o h => h.imp_right Or.inr
    have hid := (h.kind_eq ho).1
    have hconclusion : o.conclusion = [] := by
      rcases hs with hs | hs <;> simp [Outcome.conclusion, hs]
    refine h.tell ho tally events rfl ⟨rfl, rfl⟩ ⟨rfl, rfl⟩ ?_ fun _ _ he => by cases he
    rw [Outcome.story, Outcome.story, hconclusion, List.append_nil, ← hid]
    rfl
  | skipped reason state tally events =>
    obtain ⟨o, ho, hs⟩ := outcome_of_stateOf? state
    have hfilled := h.filled ho
    refine h.tell ho tally events rfl ⟨rfl, rfl⟩ ?_ ?_ fun _ _ he => by cases he
    · simp_all [Outcome.Filled]
    · simp_all [Outcome.Filled, Outcome.story, Outcome.conclusion, (h.kind_eq ho).1]
  | trans first next ih ih' => exact ih' (ih h)

theorem chronicled_start (hv : g.Valid) (runId : String) (covered : Kind → Bool) (now : Instant) :
    Chronicled g (start runId g covered now) := by
  have hfind : ∀ {x o}, (start runId g covered now).tally.outcomes.find? x = some o →
      ∃ t, g.task? x = some t ∧ o = .start x t.kind := fun {x o} ho => by
    rw [outcomes_start hv, Table.find?_map] at ho
    obtain ⟨t, ht, rfl⟩ := Option.map_eq_some_iff.mp ho
    exact ⟨t, ht, rfl⟩
  refine ⟨⟨[], rfl, nofun⟩, fun ho => ?_, fun ho => ?_, fun ho => ?_, fun {before b kind after} hs => ?_⟩
  · obtain ⟨t, ht, rfl⟩ := hfind ho
    exact ⟨rfl, t, ht, rfl⟩
  · obtain ⟨t, ht, rfl⟩ := hfind ho
    exact ⟨rfl, rfl, rfl⟩
  · obtain ⟨t, ht, rfl⟩ := hfind ho
    rfl
  · cases before with
    | nil => cases hs
    | cons e before =>
      obtain ⟨-, hrest⟩ := List.cons.inj hs
      exact absurd hrest nil_ne_append_cons

end Run

namespace Outcome

variable {o : Outcome}

theorem conclusion_eq (hf : o.Filled) (ht : o.state.isTerminal = true) :
    ∃ e, o.conclusion = [e] ∧ e.Tells o ∧ e.ends o.id = true := by
  rw [conclusion]
  cases hs : o.state with
  | pending | ready | running => simp [hs, TaskState.isTerminal] at ht
  | done => exact ⟨_, rfl, ⟨rfl, hs.symm, rfl, Or.inl rfl⟩, by simp [Event.ends]⟩
  | failed => exact ⟨_, rfl, ⟨rfl, hs.symm, rfl, Or.inr rfl⟩, by simp [Event.ends]⟩
  | skipped =>
    obtain ⟨reason, hr⟩ := Option.isSome_iff_exists.mp (show o.diagnostic.isSome by simp_all [Filled])
    exact ⟨_, rfl, ⟨rfl, hs, by simp [hr]⟩, by simp [Event.ends]⟩

theorem not_dispatched_conclusion (o : Outcome) (id : TaskId) (kind : Kind) :
    .dispatched id kind ∉ o.conclusion := by
  rw [conclusion]
  cases o.state <;> simp

theorem mem_story_dispatched {id : TaskId} {kind : Kind} :
    .dispatched id kind ∈ o.story ↔ o.startedAt.isSome ∧ id = o.id ∧ kind = o.kind := by
  rw [story, List.mem_append, or_iff_left (not_dispatched_conclusion o id kind)]
  split_ifs with hs <;> simp [hs]

theorem not_skipped_of_started (hf : o.Filled) (hs : o.startedAt.isSome = true) :
    o.state ≠ .skipped := by
  intro hskip
  simp_all [Filled]

theorem story_eq_append {before after : List Event} {id : TaskId} {kind : Kind}
    (h : o.story = before ++ .dispatched id kind :: after) : before = [] ∧ after = o.conclusion := by
  have hmem : .dispatched id kind ∈ o.story := by
    rw [h]
    exact List.mem_append_right _ List.mem_cons_self
  rw [story, if_pos (mem_story_dispatched.mp hmem).1, List.singleton_append] at h
  cases before with
  | nil => exact ⟨rfl, (List.cons.inj h).2.symm⟩
  | cons e before =>
    refine absurd ?_ (not_dispatched_conclusion o id kind)
    rw [(List.cons.inj h).2]
    exact List.mem_append_right _ List.mem_cons_self

theorem filter_ends_story (hf : o.Filled) (ht : o.state.isTerminal = true) :
    ∃ e, o.story.filter (·.ends o.id) = [e] ∧ e.Tells o := by
  obtain ⟨e, he, htells, hends⟩ := conclusion_eq hf ht
  refine ⟨e, ?_, htells⟩
  have hbeginning : (if o.startedAt.isSome then [Event.dispatched o.id o.kind] else []).filter
      (·.ends o.id) = [] := by
    split_ifs <;> rfl
  rw [story, List.filter_append, hbeginning, he]
  simp [hends]

/-- Of a task that was started, one start is told and its end later. -/
theorem of_dispatched (hf : o.Filled) (ht : o.state.isTerminal = true) {before after : List Event}
    {kind : Kind}
    (h : (before ++ .dispatched o.id kind :: after).filter (·.task? = some o.id) = o.story) :
    kind = o.kind ∧ o.state ≠ .skipped ∧ (∀ k, .dispatched o.id k ∉ before ++ after) ∧
      ∃ s diagnostic, .finished o.id s diagnostic ∈ after := by
  rw [List.filter_append, List.filter_cons_of_pos (by simp [Event.task?])] at h
  obtain ⟨hbefore, hafter⟩ := story_eq_append h.symm
  obtain ⟨hstarted, -, hkind⟩ := mem_story_dispatched.mp
    (h ▸ List.mem_append_right _ List.mem_cons_self)
  have hskip := not_skipped_of_started hf hstarted
  refine ⟨hkind, hskip, fun k hk => ?_, ?_⟩
  · have hmem : .dispatched o.id k ∈ (before ++ after).filter (·.task? = some o.id) :=
      List.mem_filter.mpr ⟨hk, by simp [Event.task?]⟩
    rw [List.filter_append, hbefore, hafter, List.nil_append] at hmem
    exact not_dispatched_conclusion o _ _ hmem
  · obtain ⟨e, hconclusion, htells, -⟩ := conclusion_eq hf ht
    have hmem : e ∈ after.filter (·.task? = some o.id) := by
      rw [hafter, hconclusion]
      exact List.mem_cons_self
    cases e with
    | finished id s diagnostic => exact ⟨s, diagnostic, htells.1 ▸ (List.mem_filter.mp hmem).1⟩
    | skipped id reason => exact absurd htells.2.1 hskip
    | runStarted | dispatched | runFinished => exact htells.elim

end Outcome

theorem filter_ends (id : TaskId) (events : List Event) :
    events.filter (·.ends id) = (events.filter (·.task? = some id)).filter (·.ends id) := by
  rw [List.filter_filter]
  apply List.filter_congr
  intro e _
  cases e <;> simp [Event.ends, Event.task?]

namespace Loop

variable {g : Graph} {l : Loop} {actions : List Action}

theorem chronicled_of_path (hv : g.Valid) {runId : String} {handlers : Registry} {limits : Run.Limits}
    {now : Instant} (path : Path (start runId g handlers limits now) actions l) :
    Run.Chronicled g l.run :=
  (Run.chronicled_start hv runId handlers.contains now).unfolds
    ((sound_start hv runId handlers limits now).unfolds_path hv path)

theorem runId_of_path (hv : g.Valid) {runId : String} {handlers : Registry} {limits : Run.Limits}
    {now : Instant} (path : Path (start runId g handlers limits now) actions l) :
    l.run.tally.runId = runId :=
  ((sound_start hv runId handlers limits now).unfolds_path hv path).runId_eq

theorem outcome_of_path (hv : g.Valid) {runId : String} {handlers : Registry} {limits : Run.Limits}
    {now : Instant} (path : Path (start runId g handlers limits now) actions l)
    (left : l.place = .left) (later : Instant) {id : TaskId} (hid : id ∈ g.ids) :
    ∃ o, (l.run.finish later).1.outcome? id = some o ∧ o.id = id ∧ o.Filled ∧
      o.state.isTerminal = true ∧
      (l.run.finish later).2.filter (·.task? = some id) = o.story := by
  have hs := sound_of_path hv path
  have hc := chronicled_of_path hv path
  obtain ⟨o, ho⟩ := Table.mem_keys_iff.mp (hs.coherent.keys_outcomes ▸ hid)
  refine ⟨o, (hs.coherent.outcome?_finish hv later id).trans ho, (hc.kind_eq ho).1, hc.filled ho, ?_, ?_⟩
  · have hterminal := hs.coherent.isTerminal_of_isOver hv (hs.finished left) id
    have hstate := hs.coherent.told.stateOf?_eq (hs.coherent.keys_states ▸ hid)
    have hsame : o.state = (l.run.stateOf id).shown := by simpa [Tally.stateOf?, ho] using hstate
    rw [hsame]
    cases hst : l.run.stateOf id <;> simp_all [TaskState.isTerminal, TaskState.shown]
  · change (l.run.events ++ [_]).filter _ = _
    rw [List.filter_append, hc.story ho]
    simp [Event.task?]

/-- The events of a run that is over and its report tell the same, however the run went, and are of that run. -/
theorem report_agrees_with_events {p : Plan} (h : Graph.ofPlan p = .ok g) {runId : String}
    {handlers : Registry} {limits : Run.Limits} {now : Instant}
    (path : Path (start runId g handlers limits now) actions l) (left : l.place = .left)
    (later : Instant) : (l.run.finish later).1.runId = runId ∧
    (l.run.finish later).1.Agrees p (l.run.finish later).2 := by
  have hv := Graph.valid_of_ofPlan h
  have hs := sound_of_path hv path
  have hc := chronicled_of_path hv path
  have hids : ∀ {id}, id ∈ p.ids ↔ id ∈ g.ids := (Graph.mem_ids_of_ofPlan h).symm
  have hstory := fun {id} (hid : id ∈ p.ids) => outcome_of_path hv path left later (hids.mp hid)
  have hsplit : ∀ {before id kind after},
      (l.run.finish later).2 = before ++ .dispatched id kind :: after →
      ∃ rest, l.run.events = before ++ .dispatched id kind :: rest := fun {before id kind after} he => by
    rcases snoc_eq_append_cons he with hold | ⟨-, hlast⟩
    · exact hold
    · cases hlast
  refine ⟨runId_of_path hv path, ?_, fun id hid => ?_, fun {before id kind after} he => ?_,
    fun {before a b kind after} he hab => ?_, fun id hid o ho => ?_, fun id hid o ho => ?_,
    fun id hid o ho => ?_⟩
  · obtain ⟨told, hopen, htold⟩ := hc.opening
    refine ⟨told, ?_, fun e he => ?_⟩
    · change l.run.events ++ _ = _
      rw [hopen, (Graph.holds_of_ofPlan h).name_eq, Graph.size_of_ofPlan h]
      rfl
    · obtain ⟨id, hid, hevent⟩ := htold e he
      exact ⟨id, hids.mpr hid, hevent⟩
  · obtain ⟨o, ho, rfl, hfilled, hterminal, htold⟩ := hstory hid
    obtain ⟨e, he, htells⟩ := Outcome.filter_ends_story hfilled hterminal
    exact ⟨o, e, ho, by rw [filter_ends, htold, he], htells⟩
  · obtain ⟨rest, hold⟩ := hsplit he
    obtain ⟨o, ho, rfl, hfilled, hterminal, htold⟩ := hstory (hids.mpr (hc.mem_ids hold))
    obtain ⟨-, t, ht, hkind⟩ := hc.kind_eq ((hs.coherent.outcome?_finish hv later o.id).symm.trans ho)
    obtain ⟨rfl, hskip, honce, hlater⟩ := Outcome.of_dispatched hfilled hterminal (he ▸ htold)
    obtain ⟨htask, hid⟩ := (Graph.task?_of_ofPlan h).mp ht
    refine ⟨⟨t, htask, hid, hkind.symm⟩, honce, hlater, ?_⟩
    rw [Report.stateOf?, ho]
    simpa using hskip
  · obtain ⟨rest, hold⟩ := hsplit he
    exact hc.ordered hold a ((Graph.edge_iff_of_ofPlan h).mpr hab)
  · obtain ⟨u, hu, rfl, -, -, htold⟩ := hstory hid
    obtain rfl : u = o := Option.some.inj (hu.symm.trans ho)
    have hmem : ∀ kind, .dispatched u.id kind ∈ (l.run.finish later).2 ↔
        .dispatched u.id kind ∈ u.story := fun kind => by
      rw [← htold, List.mem_filter]
      simp [Event.task?]
    simp [hmem, Outcome.mem_story_dispatched]
  · obtain ⟨u, hu, -, hfilled, hterminal, -⟩ := hstory hid
    obtain rfl : u = o := Option.some.inj (hu.symm.trans ho)
    cases hs : u.state <;> simp_all [Outcome.Filled, TaskState.isTerminal]
  · obtain ⟨u, hu, -, hfilled, hterminal, -⟩ := hstory hid
    obtain rfl : u = o := Option.some.inj (hu.symm.trans ho)
    cases hs : u.state <;> simp_all [Outcome.Filled, TaskState.isTerminal]

theorem report_agrees_with_events_chain : ∃ actions l, Path chain actions l ∧ l.place = .left ∧
    (l.run.finish default).1.runId = "run" ∧
    (l.run.finish default).1.Agrees chainPlan (l.run.finish default).2 := by
  obtain ⟨l, path, left, -⟩ := path_chain
  exact ⟨_, l, path, left, report_agrees_with_events (p := chainPlan) rfl path left default⟩

end Loop

end Rollout
