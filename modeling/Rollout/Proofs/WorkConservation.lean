import Rollout.Proofs.ConcurrencyBound
import Rollout.Proofs.SerialOrder

/-! No permit is idle while a task is ready. Whenever the loop waits with nothing to take in, no task is ready
or every permit is with a call; and the loop starts no task while one with a smaller id is ready. -/

namespace Rollout

namespace Run

/-- No task is ready, or calls have all permits. -/
def Saturated (r : Run) (permits free : Nat) (calls : List TaskId) : Prop :=
  (∀ x, r.states.find? x ≠ some .ready) ∨ free = 0 ∧ calls.length = permits

/-- A task is ready, and none with a smaller id is. -/
def Foremost (r : Run) (id : TaskId) : Prop :=
  r.states.find? id = some .ready ∧ ∀ x, r.states.find? x = some .ready → id ≤ x

variable {g : Graph} {r : Run} {id : TaskId}

theorem Coherent.foremost (h : Coherent g r) {rest : List TaskId} (first : r.ready = id :: rest) :
    r.Foremost id :=
  ⟨(h.find?_eq_some_iff (by simp)).mpr (h.ready_head first).1,
    fun _ hx => h.head_le first (stateOf_of_find? hx)⟩

end Run

namespace Loop

variable {g : Graph} {limit : Nat} {l l' : Loop} {actions : List Action} {a : Action}

/-- While the loop waits, tasks are ready only if as many are under way as there are permits. -/
def Busy (permits : Nat) (l : Loop) : Prop :=
  l.place = .waiting → l.run.stopped = none → l.run.ready = [] ∨ permits ≤ l.underway.length

/-- The loop begins to wait with all done that could be, and a call that ends stays under way. -/
theorem Sound.busy_step (hs : Sound g limit l) (s : Step l a l') (h : l.Busy (max limit 1)) :
    l'.Busy (max limit 1) := by
  intro place going
  cases s with
  | wait before full notOver =>
    have hpermits := hs.permits
    have hlength := length_underway l
    simp only [isFull, Bool.or_eq_true, List.isEmpty_iff, decide_eq_true_eq] at full
    rcases full with (hstopped | hempty) | hfree
    · simp [show l.run.stopped = none from going] at hstopped
    · exact Or.inl hempty
    · refine Or.inr ?_
      change max limit 1 ≤ l.underway.length
      omega
  | ended e call =>
    exact (h place going).imp_right fun hle => (underway_perm_of_call call _).length_eq ▸ hle
  | cancel fresh | expire fresh => exact h place going
  | check | dispatch _ before | refuse _ before | leave | handle | heedCancel | heedDeadline =>
    simp_all

theorem Sound.busy_path (hv : g.Valid) (hs : Sound g limit l) (h : l.Busy (max limit 1))
    (p : Path l actions l') : l'.Busy (max limit 1) := by
  induction p with
  | refl => exact h
  | snoc p s ih => exact (hs.path hv p).busy_step s ih

theorem Sound.saturated (hs : Sound g limit l) (h : l.Busy (max limit 1)) (place : l.place = .waiting)
    (idle : l.arrived = []) (going : l.run.stopped = none) :
    l.run.Saturated (max limit 1) l.free l.calls := by
  -- with nothing arrived all that is under way is with a handler
  have hpermits := hs.permits
  rcases h place going with hnone | hle
  · refine Or.inl fun x hx => ?_
    have hm := hs.coherent.mem_ready.mpr (Run.stateOf_of_find? hx)
    rw [hnone] at hm
    cases hm
  · rw [length_underway, idle, List.length_nil] at hle
    exact Or.inr ⟨by omega, by omega⟩

theorem Sound.foremost (hs : Sound g limit l) (s : Step l a l') {id : TaskId}
    (taken : a.dispatched? = some id ∨ a.refused? = some id) : l.run.Foremost id := by
  cases s with
  | dispatch now place notFull first task covered =>
    obtain rfl : _ = id := Option.some.inj (taken.resolve_right nofun)
    exact hs.coherent.foremost first
  | refuse now place notFull first task uncovered =>
    obtain rfl : _ = id := Option.some.inj (taken.resolve_left nofun)
    exact hs.coherent.foremost first
  | _ => rcases taken with h | h <;> cases h

theorem Path.split (p : Path l actions l') {before after : List Action}
    (h : actions = before ++ a :: after) : ∃ m n, Path l before m ∧ Step m a n ∧ Path n after l' := by
  induction p generalizing after with
  | refl => exact absurd h nil_ne_append_cons
  | snoc p s ih =>
    rcases List.eq_nil_or_concat' after with rfl | ⟨rest, y, rfl⟩
    · obtain ⟨rfl, he⟩ := List.append_inj' h rfl
      obtain rfl := List.singleton_inj.mp he
      exact ⟨_, _, p, s, .refl _⟩
    · obtain ⟨hl, he⟩ := List.append_inj' (h.trans (List.append_assoc before (a :: rest) [y]).symm) rfl
      obtain rfl := List.singleton_inj.mp he
      obtain ⟨m, n, hbefore, step, hafter⟩ := ih hl
      exact ⟨m, n, hbefore, step, hafter.snoc s⟩

/-- What can be said of a run of the loop that got here. The task that it takes next is the first of all that are
ready, as was each that it took before, also where there is no handler for it. -/
structure Eager (permits : Nat) (first : Loop) (actions : List Action) (l : Loop) : Prop where
  saturated : l.place = .waiting → l.arrived = [] → l.run.stopped = none →
    l.run.Saturated permits l.free l.calls
  takes : ∀ a n id, Step l a n → a.dispatched? = some id ∨ a.refused? = some id → l.run.Foremost id
  took : ∀ before a after id, actions = before ++ a :: after →
    a.dispatched? = some id ∨ a.refused? = some id →
    ∃ m n, Path first before m ∧ Step m a n ∧ Path n after l ∧ m.run.Foremost id

theorem eager_of_path (hv : g.Valid) {runId : String} {handlers : Registry} {limits : Run.Limits}
    {now : Instant} (p : Path (start runId g handlers limits now) actions l) :
    Eager (max limits.concurrency 1) (start runId g handlers limits now) actions l where
  saturated place idle going :=
    (sound_of_path hv p).saturated
      ((sound_start hv runId handlers limits now).busy_path hv nofun p) place idle going
  takes _ _ _ step taken := (sound_of_path hv p).foremost step taken
  took before a after id hsplit taken := by
    obtain ⟨m, n, hbefore, step, hafter⟩ := p.split hsplit
    exact ⟨m, n, hbefore, step, hafter, (sound_of_path hv hbefore).foremost step taken⟩

end Loop

namespace Timeline

variable {g : Graph} {t : Timeline}

theorem arrived_loop {fuel : Nat} (hfuel : t.owed < fuel) (hgoing : (loop fuel t).run.isOver = false) :
    (loop fuel t).arrived = [] := by
  fun_induction loop fuel t with
  | case1 t => exact absurd hfuel (Nat.not_lt_zero _)
  | case2 fuel t hover => simp [hover] at hgoing
  | case3 fuel t hover t' hr ih =>
    have hless := owed_of_react hr
    have htop := t'.owed_top_le
    exact ih (by omega) hgoing
  | case4 fuel t hover hr => exact show t.arrived = [] from arrived_of_react hr

/-- A loop that comes to rest in virtual time waits with nothing to take in, and its calls are with the
workers. -/
theorem saturated_loop (hv : g.Valid) {caller : List Worker} (hcaller : ∀ w ∈ caller, w.id = none)
    (runId : String) (handlers : Registry) (limits : Run.Limits) (around : Surroundings) (n : Nat) :
    let t := turns n (start runId g handlers limits around caller).top
    let rest := t.loop t.reactions
    t.woken = true → rest.run.isOver = false → rest.run.stopped = none →
      rest.run.Saturated (max limits.concurrency 1) rest.free ((rest.workers []).filterMap Worker.id) := by
  intro t rest hwoken hgoing hstopped
  have hc := Loop.sound_start hv runId handlers limits (.ofMillis around.clock)
  have hstart := (reached_start hcaller runId g handlers limits around).top hv hc
  obtain ⟨turn, hreached⟩ := hstart.turns hv hc n (Or.inr (Or.inl (woken_top _)))
  obtain ⟨turn', hrest, -⟩ := hreached.loop hv hc t.owed_lt_reactions
  obtain ⟨calls, left, ⟨deeds, -, hturns⟩, hmanned⟩ := hrest.path
  have hsaturated := (Loop.eager_of_path hv hturns.path).saturated
    (place_of_going (by simpa using hgoing)) (arrived_loop t.owed_lt_reactions hgoing) hstopped
  exact hsaturated.imp_right fun ⟨hfree, hcalls⟩ => ⟨hfree, hmanned.perm.length_eq.symm.trans hcalls⟩

end Timeline

namespace Loop

/-- The loop leaves no permit idle and takes the first ready task, in turns with the handlers. So it does in
virtual time, whose runs are such runs. -/
theorem work_conservation {p : Plan} {g : Graph} (h : Graph.ofPlan p = .ok g) (runId : String)
    (handlers : Registry) (limits : Run.Limits) :
    (∀ now actions turn l, Turns .loop (start runId g handlers limits now) actions turn l →
      Eager (max limits.concurrency 1) (start runId g handlers limits now) actions l) ∧
    (∀ around (caller : List Worker) n, (∀ w ∈ caller, w.id = none) →
      let t := Timeline.turns n (Timeline.start runId g handlers limits around caller).top
      let first := start runId g handlers limits (.ofMillis around.clock)
      let rest := t.loop t.reactions
      (∃ actions turn calls, Turns .loop first actions turn (t.view t.place calls) ∧
        dispatched actions = t.run.started ∧
        Eager (max limits.concurrency 1) first actions (t.view t.place calls)) ∧
      (t.woken = true → rest.run.isOver = false → rest.run.stopped = none →
        rest.run.Saturated (max limits.concurrency 1) rest.free
          ((rest.workers []).filterMap Worker.id))) := by
  have hv := Graph.valid_of_ofPlan h
  refine ⟨fun now actions turn l turns => eager_of_path hv turns.path, fun around caller n hcaller => ?_⟩
  refine ⟨?_, Timeline.saturated_loop hv hcaller runId handlers limits around n⟩
  obtain ⟨turn, calls, left, deeds, -, turns⟩ :=
    Timeline.reaches_turns hv hcaller runId handlers limits around n
  exact ⟨_, turn, calls, turns, (started_of_path turns.path).symm, eager_of_path hv turns.path⟩

def fanTime : Timeline :=
  (Timeline.start "run" (.index "fan" (Graph.taskTable fanPlan))
    (Kind.all.map fun k => (k, fun _ _ => .done (.finished .empty))) ⟨2, none⟩ (.start .start) []).top

/-- Two of four tasks are started before the loop waits. -/
theorem turns_fan_waiting : ∃ l, Turns .loop fan [.check, .dispatch 1, .dispatch 2, .wait] .handlers l ∧
    l.place = .waiting ∧ l.arrived = [] ∧ l.run.stopped = none := by
  have h₁ := (Turns.refl .loop fan).own (.check rfl) rfl
  have h₂ := h₁.own (a := .dispatch 1) (.dispatch default rfl rfl rfl rfl rfl) rfl
  have h₃ := h₂.own (a := .dispatch 2) (.dispatch default rfl rfl rfl rfl rfl) rfl
  exact ⟨_, (h₃.own (.wait rfl rfl rfl) rfl).yields rfl rfl, rfl, rfl, rfl⟩

/-- Two other tasks are ready then, and both permits are taken. -/
theorem work_conservation_fan :
    (∃ l, Turns .loop fan [.check, .dispatch 1, .dispatch 2, .wait] .handlers l ∧
      l.run.Saturated 2 l.free l.calls ∧
      ∃ m n, Path fan [.check, .dispatch 1] m ∧ Step m (.dispatch 2) n ∧ m.run.Foremost 2) ∧
    fanTime.woken = true ∧ (fanTime.loop fanTime.reactions).run.states.find? 3 = some .ready ∧
    (fanTime.loop fanTime.reactions).run.Saturated 2 0 [1, 2] := by
  obtain ⟨hturns, htime⟩ := work_conservation (p := fanPlan) rfl "run"
    (Kind.all.map fun k => (k, fun _ _ => .done (.finished .empty))) ⟨2, none⟩
  obtain ⟨l, turns, place, idle, going⟩ := turns_fan_waiting
  have heager := hturns default _ _ l turns
  obtain ⟨m, n, before, step, -, hforemost⟩ :=
    heager.took [.check, .dispatch 1] (.dispatch 2) [.wait] 2 rfl (Or.inl rfl)
  refine ⟨⟨l, turns, heager.saturated place idle going, m, n, before, step, hforemost⟩, rfl, rfl, ?_⟩
  exact (htime (.start .start) [] 0 nofun).2 rfl rfl rfl

end Loop

end Rollout
