import Rollout.Proofs.AncestorIndex
import Rollout.Proofs.Arrangements
import Rollout.Proofs.FailureBlame
import Rollout.Proofs.VirtualTime

/-! Runs that start each task after those before it are handled, as those with one permit do where one thread
serves the loop and the handlers. Tasks are started in the order of the graph, without those that come after a
task that failed. -/

namespace Rollout

def Event.started? : Event → Option TaskId
  | dispatched id _ => some id
  | _ => none

namespace Run

/-- The tasks that observers were told to be started, in that order. -/
def started (r : Run) : List TaskId := r.events.filterMap Event.started?

/-- Whether a task comes after none that is left as failed. -/
def spared (r : Run) (x : TaskId) : Bool := (r.graph.upstream x).all fun a => r.states.find? a ≠ some .failed

variable {r r' : Run} {id : TaskId}

theorem started_snoc {e : Event} (h : r'.events = r.events ++ [e]) :
    r'.started = r.started ++ e.started?.toList := by
  rw [started, h]
  exact Loop.filterMap_snoc _ _ e

theorem started_skip (reason : String) (r : Run) (id : TaskId) : (skip reason r id).started = r.started :=
  (started_snoc (e := .skipped id reason) rfl).trans (List.append_nil _)

theorem started_foldl {f : Run → TaskId → Run} (h : ∀ r x, (f r x).started = r.started)
    (ids : List TaskId) (r : Run) : (ids.foldl f r).started = r.started := by
  induction ids generalizing r with
  | nil => rfl
  | cons x ids ih => exact (ih (f r x)).trans (h r x)

theorem started_fail (now : Instant) (r : Run) (id : TaskId) (diagnostic : String) :
    (fail now r id diagnostic).started = r.started := by
  have hskip : ∀ reason r x, (skipPending reason r x).started = r.started := fun reason r x => by
    unfold skipPending
    split_ifs
    · exact started_skip reason r x
    · rfl
  rw [fail_eq, started_foldl (hskip _)]
  exact (started_snoc (e := .finished id .failed (some diagnostic)) rfl).trans (List.append_nil _)

theorem started_stop (r : Run) (s : Stop) : (r.stop s).started = r.started := by
  unfold stop
  split_ifs
  · rfl
  · exact started_foldl (started_skip s.skipReason) _ r

theorem started_complete (now : Instant) (r : Run) (id : TaskId) (c : Completion) :
    (r.complete now id c).started = r.started := by
  cases c with
  | succeeded outputs =>
    cases hw : r.context.writeAll id outputs.pairs with
    | mk context fault =>
      cases fault with
      | none =>
        have hunlock : ∀ (r : Run) x, (r.unlock x).started = r.started := fun r x => by
          rw [started, (told_unlock r x).2, started]
        rw [complete_written hw, started_foldl hunlock]
        exact (started_snoc (e := .finished id .done none) rfl).trans (List.append_nil _)
      | some f =>
        rw [complete_taken hw, started_stop, started_fail]
        rfl
  | failed diagnostic fatal =>
    have hfail := started_fail now { r with inFlight := r.inFlight - 1 } id diagnostic
    rw [complete_failed]
    cases fatal with
    | false => exact hfail
    | true => exact (started_stop _ _).trans hfail

end Run

namespace Loop

variable {g : Graph} {limit : Nat} {l l' : Loop} {actions : List Action} {a : Action}
  {turn turn' : Turn}

theorem Step.started_eq (s : Step l a l') : l'.run.started = l.run.started ++ a.dispatched?.toList := by
  cases s with
  | @dispatch id rest t now place notFull first task covered =>
    have htold : (l.run.dispatch now id t.kind).1.events = l.run.events ++ [.dispatched id t.kind] := by
      rw [Run.dispatch_covered covered]
      rfl
    exact Run.started_snoc htold
  | refuse now place notFull first task uncovered =>
    rw [Run.dispatch_uncovered uncovered, Run.started_fail]
    exact (List.append_nil _).symm
  | check place =>
    refine Eq.trans ?_ (List.append_nil _).symm
    rcases l.check_run with hr | ⟨why, hr⟩
    · exact congrArg Run.started hr
    · exact (congrArg Run.started hr).trans (Run.started_stop _ _)
  | handle now place split =>
    exact (Run.started_complete now l.run _ _).trans (List.append_nil _).symm
  | heedCancel | heedDeadline => exact (Run.started_stop l.run _).trans (List.append_nil _).symm
  | wait | leave | ended | cancel | expire => exact (List.append_nil _).symm

theorem started_of_path {runId : String} {handlers : Registry} {limits : Run.Limits} {now : Instant}
    (path : Path (start runId g handlers limits now) actions l) : l.run.started = dispatched actions := by
  induction path with
  | refl => rfl
  | snoc path s ih => rw [s.started_eq, ih, dispatched_snoc]

theorem Sound.wasTaken_step (hv : g.Valid) (hs : Sound g limit l) (s : Step l a l') {x : TaskId}
    (hx : (l'.run.stateOf x).wasTaken = true) :
    (l.run.stateOf x).wasTaken = true ∨ a.dispatched? = some x ∨ a.refused? = some x := by
  have hmoves := hs.moves s
  cases s with
  | @dispatch id rest t now place notFull first task covered =>
    rw [Run.Coherent.stateOf_dispatch_covered (hs.coherent.ready_head first).1 now covered] at hx
    by_cases hne : x = id
    · exact Or.inr (Or.inl (congrArg some hne.symm))
    · rw [Function.update_of_ne hne] at hx
      exact Or.inl hx
  | @refuse id rest t now place notFull first task uncovered =>
    rw [hs.coherent.stateOf_dispatch_uncovered (hs.coherent.ready_head first).1 now uncovered] at hx
    by_cases hne : x = id
    · exact Or.inr (Or.inr (congrArg some hne.symm))
    · by_cases hbehind : x ∈ g.downstream id ∧ l.run.stateOf x = .pending
      · simp [Graph.afterFailed_of_behind hne hbehind, TaskState.wasTaken] at hx
      · rw [Graph.afterFailed_of_not_behind hne hbehind] at hx
        exact Or.inl hx
  | _ => exact Or.inl ((hmoves.wasTaken_eq hv hs.coherent rfl rfl x).symm.trans hx)

theorem Sound.mem_of_wasTaken (hv : g.Valid) (hs : Sound g limit l)
    (hnone : ∀ x, (l.run.stateOf x).wasTaken = false) (p : Path l actions l') {x : TaskId}
    (hx : (l'.run.stateOf x).wasTaken = true) : x ∈ dispatched actions ++ refused actions := by
  induction p with
  | refl => simp [hnone x] at hx
  | snoc p s ih =>
    rw [dispatched_snoc, refused_snoc]
    rcases (hs.path hv p).wasTaken_step hv s hx with hold | hnew | hnew
    · have hm := ih hold
      simp only [List.mem_append] at hm ⊢
      exact hm.imp Or.inl Or.inl
    · simp [hnew]
    · simp [hnew]

theorem wasTaken_start (g : Graph) (runId : String) (handlers : Registry) (limits : Run.Limits)
    (now : Instant) (x : TaskId) :
    ((start runId g handlers limits now).run.stateOf x).wasTaken = false := by
  change ((Run.start runId g handlers.contains now).stateOf x).wasTaken = false
  rcases Run.stateOf_start_cases (g := g) runId handlers.contains now x with h | h | h
  · simp [h.1, TaskState.wasTaken]
  · simp [h.1, TaskState.wasTaken]
  · simp [h.1, TaskState.wasTaken]

theorem Sound.refused_eq_nil (hv : g.Valid) (hs : Sound g limit l)
    (hcovers : ∀ x t, g.task? x = some t → l.run.covered t.kind = true) (p : Path l actions l') :
    refused actions = [] := by
  induction p with
  | refl => rfl
  | snoc p s ih =>
    have hs' := hs.path hv p
    rw [refused_snoc, ih, List.nil_append]
    cases s with
    | refuse now place notFull first task uncovered =>
      rw [hs'.coherent.graph_eq] at task
      rw [(hs.continues_path hv p).covered, hcovers _ _ task] at uncovered
      cases uncovered
    | _ => rfl

/-- Induction on the steps of a run in turns. -/
theorem Turns.step_induction {motive : List Action → Loop → Prop}
    (h : Turns turn l actions turn' l') (start : motive [] l)
    (step : ∀ {actions t m a t' n}, Turns turn l actions t m → Step m a n →
      Turns turn l (actions ++ [a]) t' n → motive actions m → motive (actions ++ [a]) n) :
    motive actions l' := by
  induction h with
  | refl => exact start
  | own h s isOwn ih => exact step h s (h.own s isOwn) ih
  | yields h place idle ih => exact ih
  | ended h s ih => exact step h s (h.ended s) ih
  | outside h s isOutside ih => exact step h s (h.outside s isOutside) ih

theorem Sound.inFlight_dispatch (hv : g.Valid) (hs : Sound g limit l) {id : TaskId}
    (s : Step l (.dispatch id) l') : l'.run.inFlight = l.run.inFlight + 1 := by
  rw [(hs.step hv s).inFlight_eq hv, hs.inFlight_eq hv]
  cases s with
  | dispatch now place notFull first task covered => rfl

/-- Each task is started only after the completions of all that were started before it have been handled. -/
def OneByOne (actions : List Action) : Prop :=
  ∀ before id after, actions = before ++ .dispatch id :: after → dispatched before ⊆ handled before

theorem OneByOne.of_snoc (h : OneByOne (actions ++ [a])) : OneByOne actions := by
  intro before id after he
  apply h before id (after ++ [a])
  rw [he, List.append_assoc, List.cons_append]

theorem OneByOne.snoc (h : OneByOne actions)
    (hlast : a.dispatched?.isSome = true → dispatched actions ⊆ handled actions) :
    OneByOne (actions ++ [a]) := by
  intro before id after he
  rcases snoc_eq_append_cons he with ⟨rest, hold⟩ | ⟨rfl, rfl⟩
  · exact h before id rest hold
  · exact hlast rfl

theorem Sound.idle_iff (hv : g.Valid) (hs : Sound g limit l) (hl : Ledger actions l) :
    l.run.inFlight = 0 ↔ dispatched actions ⊆ handled actions := by
  rw [hs.inFlight_eq hv, List.length_eq_zero_iff]
  constructor
  · intro hnone x hx
    have hm := hl.dispatched_perm.mem_iff.mp hx
    rwa [hnone, List.append_nil] at hm
  · intro hsub
    refine List.eq_nil_iff_forall_not_mem.mpr fun x hx => ?_
    have hx' := hl.dispatched_perm.mem_iff.mpr (List.mem_append_right _ hx)
    exact hl.not_mem_handled hx (hsub hx')

/-- With one permit turns leave no room for a second task: started beside another, it would make two. -/
theorem oneByOne_of_turns (hv : g.Valid) {runId : String} {handlers : Registry} {limits : Run.Limits}
    {now : Instant} (one : limits.concurrency ≤ 1)
    (turns : Turns .loop (start runId g handlers limits now) actions turn l) : OneByOne actions := by
  refine turns.step_induction (motive := fun actions _ => OneByOne actions) (fun before id after he => ?_)
    fun earlier s later ih => ?_
  · exact absurd he nil_ne_append_cons
  · have hs := sound_of_path hv earlier.path
    have hbound := later.inFlight_le hv
    refine ih.snoc fun hd => (hs.idle_iff hv (ledger_of_path hv earlier.path)).mp ?_
    cases s with
    | dispatch now place notFull first task covered =>
      have hcount := hs.inFlight_dispatch hv (.dispatch now place notFull first task covered)
      omega
    | _ => cases hd

/-- A task that was started after some others had ended, in states that came of it: it waited for none but
them, and no smaller one waited only for those of them that are done. -/
structure Next (g : Graph) (σ : TaskId → TaskState) (before : List TaskId) (x : TaskId) : Prop where
  opened : g.Open before x
  ended : ∀ a ∈ before, (σ a).isTerminal = true
  least : ∀ y ∈ g.ids, y ∉ before → (∀ a, g.Edge a y → a ∈ before ∧ σ a = .done) → x ≤ y

theorem Next.leads {σ τ : TaskId → TaskState} {before : List TaskId} {x : TaskId}
    (h : Next g σ before x) (hleads : ∀ a, (σ a).Leads (τ a)) : Next g τ before x := by
  have hsame : ∀ a ∈ before, τ a = σ a := fun a ha => (hleads a).eq_of_terminal (h.ended a ha)
  refine ⟨h.opened, fun a ha => hsame a ha ▸ h.ended a ha, fun y hy hfresh hall => ?_⟩
  refine h.least y hy hfresh fun a he => ?_
  obtain ⟨ha, hdone⟩ := hall a he
  exact ⟨ha, hsame a ha ▸ hdone⟩

/-- With nothing in flight the first task that is ready is the least that waits only for tasks that are done:
were another skipped, it would come after one that failed. -/
theorem Sound.next_of_idle (hv : g.Valid) (hs : Sound g limit l) (hl : Ledger actions l)
    (htaken : ∀ x, (l.run.stateOf x).wasTaken = true → x ∈ dispatched actions)
    (hblamed : g.Blamed l.run.stateOf) (idle : l.run.inFlight = 0) {id : TaskId} {rest : List TaskId}
    (first : l.run.ready = id :: rest) : Next g l.run.stateOf (dispatched actions) id := by
  have hc := hs.coherent
  have hid := (hc.ready_head first).1
  have hwas : ∀ x ∈ dispatched actions, (l.run.stateOf x).wasTaken = true := fun x hx =>
    hl.wasTaken x (List.mem_append_left _ hx)
  refine ⟨⟨hc.mem_ids (by simp [hid]), fun hm => ?_, fun a he => ?_⟩, fun a ha => ?_,
    fun y hy hfresh hall => ?_⟩
  · have hnot := hwas id hm
    simp [hid, TaskState.wasTaken] at hnot
  · have hdone := hc.respected.done_before he (by simp [hid, TaskState.isUnlocked])
    exact htaken a (by simp [hdone, TaskState.wasTaken])
  · have hw := hwas a ha
    have hrunning : l.run.stateOf a ≠ .running := fun hr => by
      have hcount := hc.inFlight_of_running hv hr
      omega
    cases hst : l.run.stateOf a <;> simp_all [TaskState.wasTaken, TaskState.isTerminal]
  · have hready : l.run.stateOf y = .ready := by
      cases hst : l.run.stateOf y with
      | ready => rfl
      | pending =>
        obtain ⟨hleft, hpos⟩ := hc.respected.left_pending hst
        have hzero := (Graph.notDone_eq_zero_iff hv).mpr fun a he => (hall a he).2
        omega
      | skipped =>
        -- the last task before the skipped one would be skipped itself, or failed, but it is done
        obtain ⟨b, hby, hb⟩ := hblamed y hy hst
        obtain ⟨a, he, hba⟩ := Graph.before_iff.mp hby
        have hdone := (hall a he).2
        rcases hba with rfl | hba
        · simp [hb] at hdone
        · simp [hc.skipped_behind (Or.inl hb) hba] at hdone
      | running | done | failed => exact absurd (htaken y (by simp [hst, TaskState.wasTaken])) hfresh
    exact hc.head_le first hready

/-- The tasks that a run started, each after those before it had ended. -/
def Serial (g : Graph) (σ : TaskId → TaskState) (taken : List TaskId) : Prop :=
  ∀ before x after, taken = before ++ x :: after → Next g σ before x

theorem Sound.serial_step (hv : g.Valid) (hs : Sound g limit l) (hl : Ledger actions l)
    (htaken : ∀ x, (l.run.stateOf x).wasTaken = true → x ∈ dispatched actions)
    (hblamed : g.Blamed l.run.stateOf) (s : Step l a l')
    (idle : a.dispatched?.isSome = true → l.run.inFlight = 0)
    (h : Serial g l.run.stateOf (dispatched actions)) :
    Serial g l'.run.stateOf (dispatched (actions ++ [a])) := by
  have hleads := hs.leads hv s
  intro before x after hsplit
  rw [dispatched_snoc] at hsplit
  cases hd : a.dispatched? with
  | none =>
    rw [hd, Option.toList_none, List.append_nil] at hsplit
    exact (h before x after hsplit).leads hleads
  | some id =>
    cases s with
    | dispatch now place notFull first task covered =>
      rcases snoc_eq_append_cons hsplit with ⟨rest, hold⟩ | ⟨rfl, rfl⟩
      · exact (h before x rest hold).leads hleads
      · exact (hs.next_of_idle hv hl htaken hblamed (idle rfl) first).leads hleads
    | _ => cases hd

theorem spared_iff {p : Plan} (h : Graph.ofPlan p = .ok g) (hc : Run.Coherent g l.run) {x : TaskId} :
    l.run.spared x = true ↔ ∀ a, g.Before a x → l.run.stateOf a ≠ .failed := by
  have hv := Graph.valid_of_ofPlan h
  simp only [Run.spared, List.all_eq_true, decide_eq_true_eq, hc.graph_eq]
  refine forall_congr' fun a => ?_
  rw [Graph.mem_upstream_iff h]
  refine imp_congr_right fun hab => ?_
  rw [hc.find?_states (hv.before_mem_ids hab).1, ne_eq, Option.some_inj]

section Serial

variable {p : Plan} (h : Graph.ofPlan p = .ok g) {runId : String} {handlers : Registry}
  {limits : Run.Limits} {now : Instant} (covers : ∀ t ∈ p.tasks, handlers.contains t.kind = true)
include h covers

theorem refused_eq_nil_of_path (path : Path (start runId g handlers limits now) actions l) :
    refused actions = [] :=
  (sound_start (Graph.valid_of_ofPlan h) runId handlers limits now).refused_eq_nil (Graph.valid_of_ofPlan h)
    (fun _ t ht => covers t ((Graph.task?_of_ofPlan h).mp ht).1) path

theorem not_refused_of_path (path : Path (start runId g handlers limits now) actions l) (x : TaskId) :
    .refuse x ∉ actions := fun hm => by
  have hrefused : x ∈ refused actions := List.mem_filterMap.mpr ⟨_, hm, rfl⟩
  rw [refused_eq_nil_of_path h covers path] at hrefused
  cases hrefused

theorem mem_dispatched_of_path (path : Path (start runId g handlers limits now) actions l) {x : TaskId}
    (hx : (l.run.stateOf x).wasTaken = true) : x ∈ dispatched actions := by
  have hv := Graph.valid_of_ofPlan h
  have hm := (sound_start hv runId handlers limits now).mem_of_wasTaken hv
    (wasTaken_start g runId handlers limits now) path hx
  rwa [refused_eq_nil_of_path h covers path, List.append_nil] at hm

theorem serial_of_path (path : Path (start runId g handlers limits now) actions l) (byOne : OneByOne actions)
    (going : l.run.stopped = none) : Serial g l.run.stateOf (dispatched actions) := by
  have hv := Graph.valid_of_ofPlan h
  induction path with
  | refl =>
    intro before x after hsplit
    exact absurd hsplit nil_ne_append_cons
  | snoc path s ih =>
    have hs := sound_of_path hv path
    have hl := ledger_of_path hv path
    have hgoing := (hs.continues hv s).going going
    refine hs.serial_step hv hl (fun x => mem_dispatched_of_path h covers path)
      (blamed_of_path hv path hgoing) s (fun hd => (hs.idle_iff hv hl).mpr ?_) (ih byOne.of_snoc hgoing)
    cases s with
    | dispatch => exact byOne _ _ [] rfl
    | _ => cases hd

/-- At the end of a run that was not stopped, the tasks that it started are those that were spared. -/
theorem mem_dispatched_iff_of_path (path : Path (start runId g handlers limits now) actions l)
    (left : l.place = .left) (going : l.run.stopped = none) {x : TaskId} :
    x ∈ dispatched actions ↔ x ∈ g.ids ∧ l.run.spared x = true := by
  have hv := Graph.valid_of_ofPlan h
  have hs := sound_of_path hv path
  have hc := hs.coherent
  rw [spared_iff h hc]
  constructor
  · intro hx
    have hwas := (ledger_of_path hv path).wasTaken x (List.mem_append_left _ hx)
    refine ⟨hc.mem_ids fun hskip => ?_, fun a hab ha => ?_⟩
    · simp [hskip, TaskState.wasTaken] at hwas
    · simp [hc.skipped_behind (Or.inl ha) hab, TaskState.wasTaken] at hwas
  · rintro ⟨hx, hspared⟩
    have hover := hc.isTerminal_of_isOver hv (hs.finished left) x
    refine mem_dispatched_of_path h covers path ?_
    cases hst : l.run.stateOf x with
    | done | failed => rfl
    | skipped =>
      obtain ⟨a, hab, ha⟩ := blamed_of_path hv path going x hx hst
      exact absurd ha (hspared a hab)
    | pending | ready | running => simp [hst, TaskState.isTerminal] at hover

theorem leastOf_of_path (path : Path (start runId g handlers limits now) actions l) (byOne : OneByOne actions)
    (left : l.place = .left) (going : l.run.stopped = none) :
    g.LeastOf l.run.spared (dispatched actions) := by
  have hv := Graph.valid_of_ofPlan h
  have hc := (sound_of_path hv path).coherent
  have hmem := fun x => mem_dispatched_iff_of_path h covers path left going (x := x)
  refine ⟨fun {before x after} hsplit => ?_, fun x hx hspared => (hmem x).mpr ⟨hx, hspared⟩⟩
  have hnext := serial_of_path h covers path byOne going before x after hsplit
  have hx : x ∈ dispatched actions := by
    rw [hsplit]
    exact List.mem_append_right _ List.mem_cons_self
  refine ⟨((hmem x).mp hx).2, hnext.opened, fun y hy hopen => ?_⟩
  refine hnext.least y hopen.known hopen.fresh fun a he => ?_
  have ha := hopen.preceded a he
  have hover := hnext.ended a ha
  have hwas : (l.run.stateOf a).wasTaken = true := by
    refine (ledger_of_path hv path).wasTaken a (List.mem_append_left _ ?_)
    rw [hsplit]
    exact List.mem_append_left _ ha
  have hnot := (spared_iff h hc).mp hy a (.single he)
  refine ⟨ha, ?_⟩
  cases hst : l.run.stateOf a <;> simp_all [TaskState.wasTaken, TaskState.isTerminal]

theorem started_perm_of_path (path : Path (start runId g handlers limits now) actions l)
    (left : l.place = .left) (going : l.run.stopped = none) :
    l.run.started.Perm (g.order.filter l.run.spared) := by
  have hv := Graph.valid_of_ofPlan h
  have horder := (Graph.takesLeast_order h).takes.arranges h
  have hnodup : (dispatched actions).Nodup := (List.nodup_append.mp (ledger_of_path hv path).nodup).1
  rw [started_of_path path, List.perm_ext_iff_of_nodup hnodup (horder.nodup.filter _)]
  intro x
  rw [mem_dispatched_iff_of_path h covers path left going, List.mem_filter, horder.mem_iff,
    Graph.mem_ids_of_ofPlan h]

theorem started_of_oneByOne (path : Path (start runId g handlers limits now) actions l)
    (byOne : OneByOne actions) (left : l.place = .left) (going : l.run.stopped = none) :
    l.run.started = g.order.filter l.run.spared := by
  have hc := (sound_of_path (Graph.valid_of_ofPlan h) path).coherent
  have hleast := leastOf_of_path h covers path byOne left going
  rw [started_of_path path]
  refine (Graph.takesLeast_order h).filter (fun {a b} he hb => ?_) hleast (List.nil_append _).symm
    fun _ _ => Iff.rfl
  have hspared := (spared_iff h hc).mp hb
  exact (spared_iff h hc).mpr fun x hxa => hspared x (hxa.tail he)

end Serial

/-- A run that is not stopped starts the tasks that do not come after a task that failed. If it starts each
after those before it are handled, then it starts them in the order of the graph. With one permit, runs are
so whenever the loop and the handlers take turns, as they do in virtual time. -/
theorem serial_order {p : Plan} (h : Graph.ofPlan p = .ok g) (runId : String) (handlers : Registry)
    (covers : ∀ t ∈ p.tasks, handlers.contains t.kind = true) (limits : Run.Limits) :
    (∀ now actions l, Path (start runId g handlers limits now) actions l →
      l.place = .left → l.run.stopped = none →
      l.run.started.Perm (g.order.filter l.run.spared) ∧
      (OneByOne actions → l.run.started = g.order.filter l.run.spared)) ∧
    (limits.concurrency ≤ 1 →
      (∀ now actions turn l, Turns .loop (start runId g handlers limits now) actions turn l →
        OneByOne actions ∧ (l.place = .left → l.run.stopped = none →
          l.run.started = g.order.filter l.run.spared)) ∧
      (∀ around (caller : List Worker) n, (∀ w ∈ caller, w.id = none) →
        let t := Timeline.turns n (Timeline.start runId g handlers limits around caller).top
        t.run.isOver = true → t.run.stopped = none → t.run.started = g.order.filter t.run.spared)) := by
  have hv := Graph.valid_of_ofPlan h
  refine ⟨fun now actions l path left going => ⟨?_, fun byOne => ?_⟩, fun one => ⟨?_, ?_⟩⟩
  · exact started_perm_of_path h covers path left going
  · exact started_of_oneByOne h covers path byOne left going
  · intro now actions turn l turns
    have byOne := oneByOne_of_turns hv one turns
    exact ⟨byOne, started_of_oneByOne h covers turns.path byOne⟩
  · intro around caller n hcaller t hover going
    obtain ⟨turn, calls, rest, deeds, -, turns⟩ :=
      Timeline.reaches_turns hv hcaller runId handlers limits around n
    exact started_of_oneByOne h covers turns.path (oneByOne_of_turns hv one turns) (if_pos hover) going

/-- Two tasks, the second after the first, and one beside them. -/
def forkPlan : Plan :=
  ⟨"fork", [⟨1, .createNamespace "a", [], [2]⟩, ⟨2, .createNamespace "b", [1], []⟩,
    ⟨3, .createNamespace "c", [], []⟩]⟩

def forkHandlers : Registry := Kind.all.map fun k => (k, fun _ _ => .done (.finished .empty))

def forkGraph : Graph := .index "fork" (Graph.taskTable forkPlan)

def fork : Loop := start "run" forkGraph forkHandlers ⟨1, none⟩ default

def forkTime : Timeline :=
  Timeline.turns 9 (Timeline.start "run" forkGraph forkHandlers ⟨1, none⟩ (.start .start) []).top

/-- The first task fails. -/
theorem turns_fork : ∃ actions l, Turns .loop fork actions .loop l ∧ l.place = .left ∧
    l.run.stopped = none ∧ l.run.started = [1, 3] := by
  have h₁ := (Turns.refl .loop fork).own (.check rfl) rfl
  have h₂ := h₁.own (a := .dispatch 1) (.dispatch default rfl rfl rfl rfl rfl) rfl
  have h₃ := (h₂.own (.wait rfl rfl rfl) rfl).yields rfl rfl
  have h₄ := h₃.ended (.ended (.panicked none) List.mem_cons_self)
  have h₅ := h₄.own (.handle default rfl (List.nil_append _).symm) rfl
  have h₆ := (h₅.own (.check rfl) rfl).own (a := .dispatch 3) (.dispatch default rfl rfl rfl rfl rfl) rfl
  have h₇ := (h₆.own (.wait rfl rfl rfl) rfl).yields rfl rfl
  have h₈ := h₇.ended (.ended (.finished .empty) List.mem_cons_self)
  have h₉ := h₈.own (.handle default rfl (List.nil_append _).symm) rfl
  exact ⟨_, _, (h₉.own (.check rfl) rfl).own (.leave rfl rfl rfl) rfl, rfl, rfl, rfl⟩

theorem serial_order_fork : (∃ actions l, Turns .loop fork actions .loop l ∧ OneByOne actions ∧
      l.place = .left ∧ l.run.stopped = none ∧ l.run.started = [1, 3] ∧
      l.run.started = forkGraph.order.filter l.run.spared) ∧
    forkTime.run.isOver = true ∧ forkTime.run.stopped = none ∧ forkTime.run.started = [1, 2, 3] ∧
    forkTime.run.started = forkGraph.order.filter forkTime.run.spared := by
  obtain ⟨hpath, hone⟩ := serial_order (p := forkPlan) rfl "run" forkHandlers (by decide) ⟨1, none⟩
  obtain ⟨hturns, htime⟩ := hone (Nat.le_refl 1)
  obtain ⟨actions, l, turns, left, going, hids⟩ := turns_fork
  have byOne := (hturns _ _ _ _ turns).1
  have hall := (hpath _ _ _ turns.path left going).2 byOne
  exact ⟨⟨actions, l, turns, byOne, left, going, hids, hall⟩, rfl, rfl, rfl,
    htime (.start .start) [] 9 nofun rfl rfl⟩

/-- One permit is not enough for that: where a handler ends while the loop starts tasks, its permit serves the
next ready task before its completion readies a smaller one. -/
theorem path_fork : Graph.ofPlan forkPlan = .ok forkGraph ∧
    (∀ t ∈ forkPlan.tasks, forkHandlers.contains t.kind = true) ∧
    ∃ actions l, Path fork actions l ∧ l.place = .left ∧ l.run.stopped = none ∧
      l.run.states.pairs = [(1, .done), (2, .done), (3, .done)] ∧ l.run.started = [1, 3, 2] ∧
      forkGraph.order.filter l.run.spared = [1, 2, 3] := by
  have h₁ := Path.snoc (.refl fork) (.check rfl)
  have h₂ := h₁.snoc (a := .dispatch 1) (.dispatch default rfl rfl rfl rfl rfl)
  have h₃ := h₂.snoc (.ended (.finished .empty) List.mem_cons_self)
  have h₄ := h₃.snoc (a := .dispatch 3) (.dispatch default rfl rfl rfl rfl rfl)
  have h₅ := (h₄.snoc (.wait rfl rfl rfl)).snoc (.handle default rfl (List.nil_append _).symm)
  have h₆ := ((h₅.snoc (.check rfl)).snoc (.wait rfl rfl rfl)).snoc
    (.ended (.finished .empty) List.mem_cons_self)
  have h₇ := (h₆.snoc (.handle default rfl (List.nil_append _).symm)).snoc (.check rfl)
  have h₈ := h₇.snoc (a := .dispatch 2) (.dispatch default rfl rfl rfl rfl rfl)
  have h₉ := (h₈.snoc (.wait rfl rfl rfl)).snoc (.ended (.finished .empty) List.mem_cons_self)
  have h₁₀ := (h₉.snoc (.handle default rfl (List.nil_append _).symm)).snoc (.check rfl)
  exact ⟨rfl, by decide, _, _, h₁₀.snoc (.leave rfl rfl rfl), rfl, rfl, rfl, rfl, rfl⟩

end Loop

end Rollout
