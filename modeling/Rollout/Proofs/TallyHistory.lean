import Rollout.Proofs.FinalReport

/-! What a report says of the news that its tally was given, in any order and of any tasks. Each outcome is
made of the latest news of its own task, and halving finds every outcome that is there and no other. -/

namespace Rollout

namespace Tally

/-- What a tally can be told of a task. -/
inductive News
  | started (now : Instant)
  | done (now : Instant)
  | failed (now : Instant) (diagnostic : String)
  | skipped (reason : String)

def record (t : Tally) (q : TaskId × News) : Tally :=
  match q.2 with
  | .started now => t.started now q.1
  | .done now => t.done now q.1
  | .failed now diagnostic => t.failed now q.1 diagnostic
  | .skipped reason => t.skipped q.1 reason

def recordAll (t : Tally) (told : List (TaskId × News)) : Tally := told.foldl record t

namespace News

def state : News → TaskState
  | started _ => .running
  | done _ => .done
  | failed _ _ => .failed
  | skipped _ => .skipped

/-- That a task is done leaves it without a diagnostic, that it started says nothing of one. -/
def diagnostic? : News → Option (Option String)
  | started _ => none
  | done _ => some none
  | failed _ why | skipped why => some (some why)

def startedAt? : News → Option Instant
  | started now => some now
  | done _ | failed _ _ | skipped _ => none

def finishedAt? : News → Option Instant
  | done now | failed now _ => some now
  | started _ | skipped _ => none

/-- What is said of a matter by the latest news that say something of it. -/
def latest? {α : Type} (matter : News → Option α) (news : List News) : Option α :=
  news.reverse.findSome? matter

/-- The news of one task. -/
def of (id : TaskId) (told : List (TaskId × News)) : List News :=
  (told.filter (·.1 = id)).map (·.2)

theorem latest?_concat {α : Type} (matter : News → Option α) (news : List News) (n : News) :
    latest? matter (news ++ [n]) = (matter n).or (latest? matter news) := by
  rw [latest?, List.reverse_append, List.reverse_singleton, List.singleton_append, List.findSome?_cons]
  cases matter n <;> rfl

theorem of_concat (id : TaskId) (told : List (TaskId × News)) (q : TaskId × News) :
    of id (told ++ [q]) = of id told ++ if q.1 = id then [q.2] else [] := by
  by_cases hq : q.1 = id <;> simp [of, hq]

end News

end Tally

/-- The outcome of a task of which these news were told, the latest on each matter. -/
def Outcome.tell (id : TaskId) (kind : Kind) (news : List Tally.News) : Outcome where
  id := id
  kind := kind
  state := (Tally.News.latest? (fun n => some n.state) news).getD .pending
  diagnostic := (Tally.News.latest? Tally.News.diagnostic? news).join
  startedAt := Tally.News.latest? Tally.News.startedAt? news
  finishedAt := Tally.News.latest? Tally.News.finishedAt? news

namespace Report

/-- The ids of the tasks that a report shows in a state, by ascending id. -/
def Lists (r : Report) (s : TaskState) (ids : List TaskId) : Prop :=
  ids.Pairwise (· < ·) ∧ ∀ id, id ∈ ids ↔ ∃ o ∈ r.tasks, o.id = id ∧ o.state = s

/-- A report of some tasks with what was told of each. Of a task that was listed twice the last kind counts. -/
structure Renders (r : Report) (listed : List (TaskId × Kind)) (told : List (TaskId × Tally.News)) :
    Prop where
  ascending : (r.tasks.map (·.id)).Pairwise (· < ·)
  mem_ids : ∀ id, id ∈ r.tasks.map (·.id) ↔ id ∈ listed.map (·.1)
  outcome : ∀ o ∈ r.tasks, ∃ kind, listed.reverse.lookup o.id = some kind ∧
    o = .tell o.id kind (Tally.News.of o.id told)
  lists : r.Lists .done r.done ∧ r.Lists .failed r.failed ∧ r.Lists .skipped r.skipped
  outcome?_eq : ∀ id, r.outcome? id = r.tasks.find? (·.id = id)
  stateOf?_eq : ∀ id, r.stateOf? id = (r.tasks.find? (·.id = id)).map (·.state)
  states_eq : ∀ id, r.states.find? id = r.stateOf? id
  keys_states : r.states.keys = r.tasks.map (·.id)

theorem find?_id_eq_some_iff {tasks : List Outcome} (hasc : (tasks.map (·.id)).Pairwise (· < ·))
    {id : TaskId} {o : Outcome} : tasks.find? (·.id = id) = some o ↔ o ∈ tasks ∧ o.id = id := by
  constructor
  · intro h
    exact ⟨List.mem_of_find?_eq_some h, by simpa using List.find?_some h⟩
  · rintro ⟨hm, hid⟩
    cases hf : tasks.find? (·.id = id) with
    | none =>
      have hnone := List.find?_eq_none.mp hf o hm
      simp [hid] at hnone
    | some u =>
      have hu : u.id = id := by simpa using List.find?_some hf
      have hnd : (tasks.map (·.id)).Nodup := hasc.imp Std.ne_of_lt
      rw [List.inj_on_of_nodup_map hnd (List.mem_of_find?_eq_some hf) hm (hu.trans hid.symm)]

theorem outcome?_eq_find? {r : Report} (hasc : (r.tasks.map (·.id)).Pairwise (· < ·)) (id : TaskId) :
    r.outcome? id = r.tasks.find? (·.id = id) := by
  apply Option.ext
  intro o
  rw [outcome?_eq_some_iff hasc, find?_id_eq_some_iff hasc]

theorem lists_idsIn {r : Report} (hasc : (r.tasks.map (·.id)).Pairwise (· < ·)) (s : TaskState) :
    r.Lists s (idsIn r.tasks s) := by
  refine ⟨pairwise_idsIn hasc s, fun id => ?_⟩
  simp only [idsIn, List.mem_map, List.mem_filter, decide_eq_true_eq]
  constructor
  · rintro ⟨o, ⟨ho, hs⟩, hid⟩
    exact ⟨o, ho, hid, hs⟩
  · rintro ⟨o, ho, hid, hs⟩
    exact ⟨o, ⟨ho, hs⟩, hid⟩

end Report

namespace Tally

variable {t : Tally} {listed : List (TaskId × Kind)} {told : List (TaskId × News)}

/-- What news of a task do to its outcome. -/
def News.effect (n : News) (o : Outcome) : Outcome :=
  { o with
    state := n.state
    diagnostic := n.diagnostic?.getD o.diagnostic
    startedAt := n.startedAt?.or o.startedAt
    finishedAt := n.finishedAt?.or o.finishedAt }

theorem record_eq_change (t : Tally) (q : TaskId × News) : t.record q = t.change q.1 q.2.effect := by
  obtain ⟨id, n⟩ := q
  cases n <;> rfl

theorem effect_tell (id : TaskId) (kind : Kind) (news : List News) (n : News) :
    n.effect (.tell id kind news) = .tell id kind (news ++ [n]) := by
  simp only [News.effect, Outcome.tell, News.latest?_concat, Option.some_or, Option.getD_some]
  cases n.diagnostic? <;> rfl

theorem keys_record (t : Tally) (q : TaskId × News) : (t.record q).outcomes.keys = t.outcomes.keys := by
  rw [record_eq_change]
  exact Table.keys_modify t.outcomes q.1 q.2.effect

theorem record_of_not_mem {q : TaskId × News} (h : q.1 ∉ t.outcomes.keys) : t.record q = t := by
  rw [record_eq_change, change, Table.modify_of_not_mem h]

theorem recordAll_concat (t : Tally) (told : List (TaskId × News)) (q : TaskId × News) :
    t.recordAll (told ++ [q]) = (t.recordAll told).record q :=
  List.foldl_concat ..

theorem keys_recordAll (t : Tally) (told : List (TaskId × News)) :
    (t.recordAll told).outcomes.keys = t.outcomes.keys := by
  induction told using List.reverseRecOn with
  | nil => rfl
  | append_singleton told q ih => rw [recordAll_concat, keys_record, ih]

theorem mem_keys_recordAll {runId name : String} {now : Instant} {id : TaskId} :
    id ∈ ((start runId name now listed).recordAll told).outcomes.keys ↔ id ∈ listed.map (·.1) := by
  rw [keys_recordAll, start, Table.mem_keys_ofList, List.map_map]
  rfl

theorem find?_start (runId name : String) (now : Instant) (listed : List (TaskId × Kind)) (id : TaskId) :
    (start runId name now listed).outcomes.find? id =
      (listed.reverse.lookup id).map fun kind => .tell id kind [] := by
  rw [start, Table.find?_ofList, ← List.map_reverse]
  induction listed.reverse with
  | nil => rfl
  | cons p rest ih =>
    rw [List.map_cons, List.lookup_cons, List.lookup_cons, ih]
    by_cases hp : id = p.1
    · simp [hp, Outcome.start, Outcome.tell, News.latest?]
    · simp [beq_eq_false_iff_ne.mpr hp]

/-- News of one task after the other leave each outcome to its own. -/
theorem find?_recordAll (runId name : String) (now : Instant) (listed : List (TaskId × Kind))
    (told : List (TaskId × News)) (id : TaskId) :
    ((start runId name now listed).recordAll told).outcomes.find? id =
      (listed.reverse.lookup id).map fun kind => .tell id kind (News.of id told) := by
  induction told using List.reverseRecOn with
  | nil => exact find?_start runId name now listed id
  | append_singleton told q ih =>
    rw [recordAll_concat, record_eq_change, find?_change, ih, News.of_concat]
    by_cases hq : id = q.1
    · subst hq
      simp [Function.comp_def, effect_tell]
    · simp [hq, Ne.symm hq]

theorem filed_recordAll (runId name : String) (now : Instant) (listed : List (TaskId × Kind))
    (told : List (TaskId × News)) : ((start runId name now listed).recordAll told).Filed := by
  refine ⟨?_, fun {x o} ho => ?_⟩
  · have hsorted : (start runId name now listed).outcomes.Sorted := Table.Sorted.ofList _
    exact hsorted.of_keys_eq (keys_recordAll _ told)
  · rw [find?_recordAll] at ho
    obtain ⟨kind, -, rfl⟩ := Option.map_eq_some_iff.mp ho
    rfl

/-- A report tells of each listed task the latest that its tally was told, and of no other task. -/
theorem finish_renders (runId name : String) (now : Instant) (listed : List (TaskId × Kind))
    (told : List (TaskId × News)) (later : Instant) (stop : Option Stop) :
    let t := (start runId name now listed).recordAll told
    (t.finish later stop).Renders listed told ∧
    (∀ id, t.stateOf? id = (t.finish later stop).stateOf? id) ∧
    ∀ q : TaskId × News, q.1 ∉ listed.map (·.1) → t.record q = t := by
  intro t
  have hf : t.Filed := filed_recordAll runId name now listed told
  have hasc := hf.pairwise_ids_finish later stop
  have hfind := hf.outcome?_finish later stop
  have hstates := hf.states_finish later stop
  refine ⟨⟨hasc, fun id => ?_, fun o ho => ?_, ?_, Report.outcome?_eq_find? hasc, fun id => ?_, fun id => ?_,
    ?_⟩, fun id => (hf.stateOf?_finish later stop id).symm, fun q hq => ?_⟩
  · rw [hf.ids_finish]
    exact mem_keys_recordAll
  · have hfound := (Report.outcome?_eq_some_iff hasc).mpr ⟨ho, rfl⟩
    rw [hfind, find?_recordAll] at hfound
    obtain ⟨kind, hkind, he⟩ := Option.map_eq_some_iff.mp hfound
    exact ⟨kind, hkind, he.symm⟩
  · exact ⟨Report.lists_idsIn hasc .done, Report.lists_idsIn hasc .failed, Report.lists_idsIn hasc .skipped⟩
  · rw [Report.stateOf?, Report.outcome?_eq_find? hasc]
  · rw [hstates, Table.find?_map, hf.stateOf?_finish]
    rfl
  · rw [hstates, Table.keys_map, hf.ids_finish]
  · exact record_of_not_mem fun hm => hq (mem_keys_recordAll.mp hm)

end Tally

end Rollout
