import Rollout.Proofs.Stopping
import Rollout.Run.Turns

/-! How many tasks are under way at once. Permits are neither lost nor made, so that no more handlers are
called than there are permits. A permit comes back before the completion is handled, and so more tasks may be
in flight; where one thread serves all, there are fewer than two for each permit. -/

namespace Rollout.Loop

variable {g : Graph} {limit : Nat} {l l' : Loop} {actions more : List Action} {a : Action}
  {turn turn' : Turn}

theorem Turns.path (h : Turns turn l actions turn' l') : Path l actions l' := by
  induction h with
  | refl => exact .refl _
  | own _ s _ ih => exact ih.snoc s
  | yields _ _ _ ih => exact ih
  | ended _ s ih => exact ih.snoc s
  | outside _ s _ ih => exact ih.snoc s

theorem Turns.append {turn'' : Turn} {l'' : Loop} (h : Turns turn l actions turn' l')
    (h' : Turns turn' l' more turn'' l'') : Turns turn l (actions ++ more) turn'' l'' := by
  induction h' with
  | refl =>
    rw [List.append_nil]
    exact h
  | own _ s isOwn ih =>
    rw [← List.append_assoc]
    exact ih.own s isOwn
  | yields _ place idle ih => exact ih.yields place idle
  | ended _ s ih =>
    rw [← List.append_assoc]
    exact ih.ended s
  | outside _ s isOutside ih =>
    rw [← List.append_assoc]
    exact ih.outside s isOutside

/-- Handlers have their turn with no more tasks under way than there are permits. The loop has as many only
as long as it does not start any; once it took in a completion, fewer are left to take in. -/
def Turn.Fits (permits : Nat) (l : Loop) : Turn → Prop
  | handlers => l.place = .waiting ∧ l.underway.length ≤ permits
  | loop => l.arrived.length < permits ∨
      l.underway.length ≤ permits ∧ (l.place = .waiting ∨ l.run.stopped.isSome = true)

theorem length_underway (l : Loop) : l.underway.length = l.calls.length + l.arrived.length := by
  rw [underway, List.length_append, List.length_map]

theorem Turn.Fits.loop {permits : Nat} (h : turn.Fits permits l) : Turn.loop.Fits permits l := by
  cases turn with
  | loop => exact h
  | handlers => exact Or.inr ⟨h.2, Or.inl h.1⟩

theorem Sound.fits_own (hv : g.Valid) (hs : Sound g limit l) {permits : Nat} (s : Step l a l')
    (isOwn : a.isOwn = true) (h : Turn.loop.Fits permits l) : Turn.loop.Fits permits l' := by
  have hcontinues := hs.continues hv s
  cases s with
  | check place =>
    refine h.imp (fun hlt => ?_) fun ⟨hle, hwhy⟩ => ⟨?_, Or.inr ?_⟩
    · rwa [check_arrived]
    · rwa [length_underway, check_calls, check_arrived, ← length_underway]
    · exact hcontinues.isSome_stopped (hwhy.resolve_left (by simp [place]))
  | dispatch now place notFull first task covered =>
    -- nothing is started in a run that was stopped
    refine Or.inl (h.resolve_right fun ⟨_, hwhy⟩ => ?_)
    simp [place, (isFull_eq_false_iff.mp notFull).1] at hwhy
  | refuse now place notFull first task uncovered =>
    refine Or.inl (h.resolve_right fun ⟨_, hwhy⟩ => ?_)
    simp [place, (isFull_eq_false_iff.mp notFull).1] at hwhy
  | wait place full notOver => exact h.imp_right fun ⟨hle, _⟩ => ⟨hle, Or.inl rfl⟩
  | leave place full isOver =>
    exact h.imp_right fun ⟨hle, hwhy⟩ => ⟨hle, Or.inr (hwhy.resolve_left (by simp [place]))⟩
  | @handle id c before after now place split =>
    have hlength : l.arrived.length = (before ++ after).length + 1 := by
      rw [split, List.length_append, List.length_cons, List.length_append]
      omega
    have hunder := length_underway l
    refine Or.inl ?_
    change (before ++ after).length < permits
    rcases h with hlt | ⟨hle, -⟩ <;> omega
  | heedCancel place watched cancelled =>
    refine h.imp_right fun ⟨hle, _⟩ => ⟨hle, Or.inr ?_⟩
    exact (congrArg Option.isSome (Run.stopped_stop_eq l.run _)).trans (by simp)
  | heedDeadline place watched late =>
    refine h.imp_right fun ⟨hle, _⟩ => ⟨hle, Or.inr ?_⟩
    exact (congrArg Option.isSome (Run.stopped_stop_eq l.run _)).trans (by simp)
  | ended | cancel | expire => cases isOwn

theorem Turns.fits (hv : g.Valid) (hs : Sound g limit l) (hf : turn.Fits (max limit 1) l)
    (h : Turns turn l actions turn' l') : turn'.Fits (max limit 1) l' := by
  induction h with
  | refl => exact hf
  | own p s isOwn ih => exact (hs.path hv p.path).fits_own hv s isOwn ih.loop
  | yields p place idle ih =>
    have hpermits := (hs.path hv p.path).permits
    refine ⟨place, ?_⟩
    rw [length_underway, idle, List.length_nil]
    omega
  | ended p s ih =>
    cases s with
    | ended e call => exact ⟨ih.1, (underway_perm_of_call call _).length_eq ▸ ih.2⟩
  | @outside turn' m n actions a p s isOutside ih =>
    have hsame : ∀ t, Turn.Fits (max limit 1) n t ↔ Turn.Fits (max limit 1) m t := fun t => by
      rcases isOutside with rfl | rfl <;> cases s <;> cases t <;> rfl
    exact (hsame _).mpr ih

theorem Sound.inFlight_of_fits (hv : g.Valid) (hs : Sound g limit l)
    (h : turn.Fits (max limit 1) l) : l.run.inFlight ≤ 2 * max limit 1 - 1 := by
  have hpermits := hs.permits
  rw [hs.inFlight_eq hv, length_underway]
  rcases h.loop with hlt | ⟨hle, -⟩
  · omega
  · rw [length_underway] at hle
    omega

theorem Turns.inFlight_le (hv : g.Valid) {runId : String} {handlers : Registry} {limits : Run.Limits}
    {now : Instant} (h : Turns .loop (start runId g handlers limits now) actions turn l) :
    l.run.inFlight ≤ 2 * max limits.concurrency 1 - 1 := by
  have hstart : Turn.loop.Fits (max limits.concurrency 1) (start runId g handlers limits now) :=
    Or.inl (Nat.le_max_right limits.concurrency 1)
  have hfits := h.fits hv (sound_start hv runId handlers limits now) hstart
  exact (sound_of_path hv h.path).inFlight_of_fits hv hfits

theorem Account.dispatched_perm (hl : Ledger actions l) (ha : Account actions l) :
    (dispatched actions).Perm ((reported actions).map Prod.fst ++ l.calls) := by
  have hreported := ha.reported_perm.map Prod.fst
  rw [List.map_append, ← handled_eq] at hreported
  have hmove : (handled actions ++ l.underway).Perm
      (handled actions ++ l.arrived.map Prod.fst ++ l.calls) := by
    rw [underway, List.append_assoc]
    exact List.perm_append_comm.append_left _
  exact (hl.dispatched_perm.trans hmove).trans (hreported.symm.append_right _)

/-- A call takes one permit and its end gives it back, whatever the end is like. -/
theorem Step.free_eq (s : Step l a l') :
    l'.free + a.dispatched?.toList.length = l.free + a.reported?.toList.length := by
  cases s with
  | check place => exact congrArg (· + 0) l.check_free
  | dispatch now place notFull first task covered =>
    exact Nat.sub_add_cancel (isFull_eq_false_iff.mp notFull).2.2
  | _ => rfl

/-- Where the permits are, and the tasks under way, at some point of a run of a plan. -/
structure Occupied (permits : Nat) (p : Plan) (actions : List Action) (l : Loop) : Prop where
  permits_eq : l.free + l.calls.length = permits
  started : (dispatched actions).Perm ((reported actions).map Prod.fst ++ l.calls)
  once : (dispatched actions).Nodup
  queued : (reported actions).Perm (taken actions ++ l.arrived)
  inFlight_eq : l.run.inFlight = l.calls.length + l.arrived.length
  running : l.run.inFlight = p.ids.countP fun x => l.run.states.find? x = some .running
  step : ∀ a l', Step l a l' →
    l'.free + a.dispatched?.toList.length = l.free + a.reported?.toList.length

theorem occupied_of_path {p : Plan} (h : Graph.ofPlan p = .ok g) {runId : String} {handlers : Registry}
    {limits : Run.Limits} {now : Instant}
    (path : Path (start runId g handlers limits now) actions l) :
    Occupied (max limits.concurrency 1) p actions l := by
  have hv := Graph.valid_of_ofPlan h
  have hs := sound_of_path hv path
  have hl := ledger_of_path hv path
  have ha := account_of_path hv path
  exact ⟨hs.permits, ha.dispatched_perm hl, .of_append_left hl.nodup, ha.reported_perm,
    (hs.inFlight_eq hv).trans (length_underway l), hs.coherent.inFlight_of_ofPlan h,
    fun _ _ s => s.free_eq⟩

/-- At any point of any run as many permits are free as calls are missing to the limit, and what is in flight
is with a handler or has yet to be taken in. In turns, fewer than two tasks for each permit are in flight. -/
theorem concurrency_bound {p : Plan} (h : Graph.ofPlan p = .ok g) {runId : String} {handlers : Registry}
    {limits : Run.Limits} {now : Instant}
    (path : Path (start runId g handlers limits now) actions l) :
    Occupied (max limits.concurrency 1) p actions l ∧
    l.calls.length ≤ max limits.concurrency 1 ∧
    ∀ turn, Turns .loop (start runId g handlers limits now) actions turn l →
      l.run.inFlight ≤ 2 * max limits.concurrency 1 - 1 := by
  have hoccupied := occupied_of_path h path
  refine ⟨hoccupied, ?_, fun turn turns => turns.inFlight_le (Graph.valid_of_ofPlan h)⟩
  have hpermits := hoccupied.permits_eq
  omega

def fanPlan : Plan :=
  ⟨"fan", [⟨1, .createNamespace "a", [], []⟩, ⟨2, .createNamespace "b", [], []⟩,
    ⟨3, .createNamespace "c", [], []⟩, ⟨4, .createNamespace "d", [], []⟩]⟩

def fan : Loop :=
  start "run" (.index "fan" (Graph.taskTable fanPlan))
    (Kind.all.map fun k => (k, fun _ _ => .done (.finished .empty))) ⟨2, none⟩ default

/-- The first two tasks end together, and the loop starts both others once it took in the first. -/
theorem turns_fan : ∃ actions l, Turns .loop fan actions .loop l ∧ l.run.inFlight = 3 := by
  have h₁ := (Turns.refl .loop fan).own (.check rfl) rfl
  have h₂ := h₁.own (a := .dispatch 1) (.dispatch default rfl rfl rfl rfl rfl) rfl
  have h₃ := h₂.own (a := .dispatch 2) (.dispatch default rfl rfl rfl rfl rfl) rfl
  have h₄ := (h₃.own (.wait rfl rfl rfl) rfl).yields rfl rfl
  have h₅ := h₄.ended (.ended (.panicked none) (List.mem_cons_of_mem 2 List.mem_cons_self))
  have h₆ := h₅.ended (.ended (.panicked none) List.mem_cons_self)
  have h₇ := h₆.own (.handle default rfl (List.nil_append _).symm) rfl
  have h₈ := h₇.own (.check rfl) rfl
  have h₉ := h₈.own (a := .dispatch 3) (.dispatch default rfl rfl rfl rfl rfl) rfl
  exact ⟨_, _, h₉.own (a := .dispatch 4) (.dispatch default rfl rfl rfl rfl rfl) rfl, rfl⟩

/-- The bound in turns is reached: with two permits, three tasks are in flight. -/
theorem concurrency_bound_fan : ∃ actions l, Path fan actions l ∧ Occupied 2 fanPlan actions l ∧
    l.calls.length ≤ 2 ∧ l.run.inFlight = 2 * 2 - 1 ∧ l.run.inFlight ≤ 2 * 2 - 1 := by
  obtain ⟨actions, l, turns, hflight⟩ := turns_fan
  obtain ⟨hoccupied, hcalls, hbound⟩ := concurrency_bound (p := fanPlan) rfl turns.path
  exact ⟨actions, l, turns.path, hoccupied, hcalls, hflight, hbound .loop turns⟩

end Rollout.Loop
