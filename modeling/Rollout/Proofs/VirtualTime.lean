import Rollout.Proofs.CrewTurns

/-! Runs in virtual time are runs of the coordination loop and of the handlers that it called, in turns: what
holds of every such run holds of them. -/

namespace Rollout

/-- The handlers that were called are with these workers. -/
structure Manned (workers : List Worker) (calls : List TaskId) (rest : TaskId → Procedure Ending) : Prop where
  perm : calls.Perm (workers.filterMap Worker.id)
  rest_eq : ∀ {w id}, w ∈ workers → w.id = some id → rest id = w.procedure

namespace Manned

variable {workers workers' : List Worker} {calls : List TaskId} {rest : TaskId → Procedure Ending}
  {w : Worker} {id : TaskId}

theorem of_perm (h : Manned workers calls rest) (hperm : workers.Perm workers') :
    Manned workers' calls rest :=
  ⟨h.perm.trans (hperm.filterMap _), fun hw => h.rest_eq (hperm.mem_iff.mpr hw)⟩

theorem of_caller (h : Manned (w :: workers) calls rest) (hid : w.id = none) : Manned workers calls rest := by
  refine ⟨?_, fun hw => h.rest_eq (List.mem_cons_of_mem _ hw)⟩
  rw [← List.filterMap_cons_none hid]
  exact h.perm

theorem caller (h : Manned workers calls rest) (hid : w.id = none) : Manned (w :: workers) calls rest := by
  refine ⟨?_, fun hw hsome => ?_⟩
  · rw [List.filterMap_cons_none hid]
    exact h.perm
  · rcases List.mem_cons.mp hw with rfl | hw
    · rw [hid] at hsome
      cases hsome
    · exact h.rest_eq hw hsome

theorem mem_calls (h : Manned (w :: workers) calls rest) (hid : w.id = some id) : id ∈ calls :=
  h.perm.mem_iff.mpr (List.mem_filterMap.mpr ⟨w, List.mem_cons_self, hid⟩)

theorem not_mem_calls (h : Manned (w :: workers) calls rest) (hnd : calls.Nodup) (hid : w.id = some id)
    {v : Worker} (hv : v ∈ workers) : v.id ≠ some id := fun he => by
  have hids := h.perm.nodup_iff.mp hnd
  rw [List.filterMap_cons_some hid] at hids
  exact (List.nodup_cons.mp hids).1 (List.mem_filterMap.mpr ⟨v, hv, he⟩)

theorem go (h : Manned (w :: workers) calls rest) (hnd : calls.Nodup) (hid : w.id = some id)
    (p : Procedure Ending) :
    Manned ({ w with procedure := p } :: workers) calls (fun x => if x = id then p else rest x) := by
  refine ⟨h.perm, fun {v x} hv hx => ?_⟩
  rcases List.mem_cons.mp hv with rfl | hv
  · obtain rfl := Option.some.inj (hid.symm.trans hx)
    exact if_pos rfl
  · have hne : x ≠ id := fun he => h.not_mem_calls hnd hid hv (he ▸ hx)
    exact (if_neg hne).trans (h.rest_eq (List.mem_cons_of_mem _ hv) hx)

theorem leave (h : Manned (w :: workers) calls rest) (hid : w.id = some id) :
    Manned workers (calls.erase id) rest := by
  refine ⟨?_, fun hw => h.rest_eq (List.mem_cons_of_mem _ hw)⟩
  have hperm := h.perm
  rw [List.filterMap_cons_some hid] at hperm
  exact ((List.perm_cons_erase (h.mem_calls hid)).symm.trans hperm).cons_inv

end Manned

namespace Timeline

/-- What goes on in virtual time as the coordination loop sees it. -/
def view (t : Timeline) (place : Loop.Place) (calls : List TaskId) : Loop where
  run := t.run
  place := place
  free := t.free
  calls := calls
  arrived := t.arrived
  watchCancel := t.watchCancel
  watchDeadline := t.watchDeadline
  cancelled := t.around.cancelled
  late := t.isLate

/-- Those who can go on and those who wait, some workers at hand among them. -/
def workers (t : Timeline) (held : List Worker) : List Worker := held ++ t.queue ++ t.asleep.map Prod.snd

/-- Where the loop stands whenever other tasks go on. -/
def place (t : Timeline) : Loop.Place := if t.run.isOver then .left else .waiting

def crew (t : Timeline) (place : Loop.Place) (calls : List TaskId) (rest : TaskId → Procedure Ending) : Crew :=
  ⟨t.view place calls, t.handlers, rest⟩

/-- The loop and its handlers lead to what is seen now, at this turn. -/
structure Reached (c : Crew) (turn : Loop.Turn) (place : Loop.Place) (held : List Worker)
    (t : Timeline) : Prop where
  covered : t.run.covered = t.handlers.contains
  path : ∃ calls rest, Crew.Reaches .loop c turn (t.crew place calls rest) ∧
    Manned (t.workers held) calls rest

variable {g : Graph} {limit : Nat} {c : Crew} {t t' : Timeline} {held : List Worker} {w : Worker}
  {p q : Loop.Place} {turn turn' : Loop.Turn}

theorem Reached.steps (h : Reached c turn p held t) (hrun : t'.run.covered = t.run.covered)
    (hhandlers : t'.handlers = t.handlers) (hqueue : t'.queue = t.queue)
    (hasleep : t'.asleep = t.asleep)
    (hsteps : ∀ calls rest, Crew.Reaches turn (t.crew p calls rest) turn' (t'.crew q calls rest)) :
    Reached c turn' q held t' := by
  obtain ⟨calls, rest, hpath, hmanned⟩ := h.path
  refine ⟨by rw [hrun, h.covered, hhandlers], calls, rest, hpath.trans (hsteps calls rest), ?_⟩
  rw [workers, hqueue, hasleep]
  exact hmanned

theorem view_check (t : Timeline) (calls : List TaskId) :
    t.check.view .filling calls = { (t.view .top calls).check with place := .filling } := by
  unfold check Loop.check
  split_ifs <;> first | rfl | contradiction

theorem handlers_check (t : Timeline) : t.check.handlers = t.handlers := by
  unfold check
  split_ifs <;> rfl

theorem Reached.check (h : Reached c turn .top held t) : Reached c .loop .filling held t.check := by
  have hsteps (calls : List TaskId) (rest : TaskId → Procedure Ending) :
      Crew.Reaches turn (t.crew .top calls rest) .loop (t.check.crew .filling calls rest) := by
    rw [crew, crew, view_check, handlers_check]
    exact Crew.reaches_own (c := t.crew .top calls rest) (.check rfl) rfl rfl turn
  unfold Timeline.check at hsteps ⊢
  split_ifs at hsteps ⊢
  · exact h.steps rfl rfl rfl rfl hsteps
  · exact h.steps (Run.continues_stop _ _).covered rfl rfl rfl hsteps
  · exact h.steps (Run.continues_stop _ _).covered rfl rfl rfl hsteps
  · exact h.steps rfl rfl rfl rfl hsteps

theorem Reached.settle (h : Reached c turn .filling held t)
    (hfull : ∀ calls, (t.view .filling calls).isFull = true) : Reached c .loop t.place held t := by
  apply h.steps rfl rfl rfl rfl
  intro calls rest
  unfold Timeline.place
  cases hover : t.run.isOver with
  | true =>
    exact Crew.reaches_own (c := t.crew .filling calls rest) (.leave rfl (hfull calls) hover) rfl rfl turn
  | false =>
    exact Crew.reaches_own (c := t.crew .filling calls rest) (.wait rfl (hfull calls) hover) rfl rfl turn

/-- The workers of tasks that were started join the others. -/
theorem manned_started {workers : List Worker} {calls started : List TaskId}
    {rest rest' : TaskId → Procedure Ending} (h : Manned workers calls rest)
    (hcalled : Crew.Called t.run.graph t.handlers started rest rest')
    (hnd : (started.reverse ++ calls).Nodup) :
    Manned (started.filterMap t.worker ++ workers) (started.reverse ++ calls) rest' := by
  have hworker : ∀ x ∈ started, t.worker x = some ⟨some x, rest' x⟩ := fun x hx => by
    obtain ⟨task, handler, htask, hhandler, hrest⟩ := hcalled.1 x hx
    simp [worker, htask, hhandler, hrest]
  have hids : (started.filterMap t.worker).filterMap Worker.id = started := by
    rw [List.filterMap_filterMap]
    refine (List.filterMap_congr fun x hx => ?_).trans List.filterMap_some
    rw [hworker x hx, Option.bind_some]
  refine ⟨?_, fun {w x} hw hx => ?_⟩
  · rw [List.filterMap_append, hids]
    exact (List.reverse_perm _).append h.perm
  · rcases List.mem_append.mp hw with hw | hw
    · obtain ⟨y, hy, hwy⟩ := List.mem_filterMap.mp hw
      rw [hworker y hy] at hwy
      obtain rfl := Option.some.inj hwy
      rw [Option.some.inj hx]
    · have hold : x ∈ calls := h.perm.mem_iff.mpr (List.mem_filterMap.mpr ⟨w, hw, hx⟩)
      have hnot : x ∉ started := fun hm =>
        (List.nodup_append.mp hnd).2.2 x (List.mem_reverse.mpr hm) x hold rfl
      exact (hcalled.2 x hnot).trans (h.rest_eq hw hx)

theorem Reached.launch (hv : g.Valid) (hc : Loop.Sound g limit c.loop)
    (h : Reached c .loop .filling [] t) : Reached c .loop t.launch.place [] t.launch := by
  obtain ⟨calls, rest, hpath, hmanned⟩ := h.path
  cases hstopped : t.run.stopped with
  | some s =>
    have hlaunch : t.launch = t := by simp [Timeline.launch, hstopped]
    rw [hlaunch]
    exact h.settle fun calls => by simp [Loop.isFull, view, hstopped]
  | none =>
    have hs := hpath.sound hv hc
    have hf := Run.filled_fill t.now t.run.ready.length t.free t.run
    obtain ⟨rest', hcalled, hfill⟩ := Crew.reaches_fill hv t.now (l := t.view .filling calls) rfl
      t.handlers t.run.ready.length t.free t.run calls rest hs hstopped h.covered
    have hlaunch : Reached c .loop .filling [] t.launch := by
      have hnd := List.Nodup.of_append_left ((hpath.trans hfill).sound hv hc).nodup_underway
      rw [← (show t.run.graph = g from hs.coherent.graph_eq)] at hcalled
      have hjoined := manned_started hmanned hcalled hnd
      simp only [Timeline.launch, hstopped, Option.isSome_none, Bool.false_eq_true, if_false]
      refine ⟨hf.continues.covered.trans h.covered, _, rest', hpath.trans hfill, hjoined.of_perm ?_⟩
      simp only [workers, List.nil_append, List.append_assoc]
      exact List.perm_append_comm_assoc _ _ _
    apply hlaunch.settle
    intro calls
    have hleft := hf.exhausted (Nat.le_refl _)
    simp only [Timeline.launch, hstopped, Option.isSome_none, Bool.false_eq_true, if_false, view,
      Loop.isFull, Bool.or_eq_true, List.isEmpty_iff, decide_eq_true_eq, Nat.sub_eq_zero_iff_le]
    exact hleft.imp_left Or.inr

theorem Reached.top (hv : g.Valid) (hc : Loop.Sound g limit c.loop) (h : Reached c turn .top [] t) :
    Reached c .loop t.top.place [] t.top := h.check.launch hv hc

/-- How much the loop may still react to. -/
def owed (t : Timeline) : Nat := t.arrived.length + t.watchCancel.toNat + t.watchDeadline.toNat

theorem owed_top_le (t : Timeline) : t.top.owed ≤ t.owed := by
  have hcheck : t.check.owed ≤ t.owed := by
    unfold check owed
    split_ifs <;> simp
  have hlaunch : t.check.launch.owed = t.check.owed := by
    unfold launch
    split_ifs <;> rfl
  exact hlaunch.trans_le hcheck

theorem owed_of_react (hr : t.react? = some t') : t'.owed + 1 = t.owed := by
  unfold react? at hr
  split at hr
  · next x c rest harrived =>
    rw [← Option.some.inj hr, owed, owed, harrived, List.length_cons]
    simp only
    omega
  · split_ifs at hr with hcancel hlate
    · rw [← Option.some.inj hr, owed, owed, (Bool.and_eq_true_iff.mp hcancel).1]
      simp only [Bool.toNat_true, Bool.toNat_false]
      omega
    · rw [← Option.some.inj hr, owed, owed, (Bool.and_eq_true_iff.mp hlate).1]
      rfl

theorem owed_lt_reactions (t : Timeline) : t.owed < t.reactions := by
  have hcancel := Bool.toNat_le t.watchCancel
  have hdeadline := Bool.toNat_le t.watchDeadline
  rw [owed, reactions]
  omega

theorem arrived_of_react (hr : t.react? = none) : t.arrived = [] := by
  unfold react? at hr
  split at hr
  · cases hr
  · assumption

theorem Reached.react (hv : g.Valid) (hc : Loop.Sound g limit c.loop)
    (h : Reached c turn .waiting held t) (hr : t.react? = some t') : Reached c .loop .top held t' := by
  obtain ⟨calls, rest, hpath, -⟩ := h.path
  have hvalid : t.run.graph.Valid := by
    rw [show t.run.graph = g from (hpath.sound hv hc).coherent.graph_eq]
    exact hv
  unfold react? at hr
  split at hr
  · next x d rest harrived =>
    rw [← Option.some.inj hr]
    have hcovered := (Run.continues_complete t.now t.run x d hvalid).covered
    refine h.steps hcovered rfl rfl rfl fun calls others => ?_
    exact Crew.reaches_own (c := t.crew .waiting calls others)
      (.handle t.now rfl (show t.arrived = [] ++ (x, d) :: rest from harrived)) rfl rfl turn
  · split_ifs at hr with hcancel hlate
    · obtain ⟨hwatched, hcancelled⟩ := Bool.and_eq_true_iff.mp hcancel
      rw [← Option.some.inj hr]
      exact h.steps (Run.continues_stop _ _).covered rfl rfl rfl fun calls rest =>
        Crew.reaches_own (c := t.crew .waiting calls rest) (.heedCancel rfl hwatched hcancelled) rfl rfl turn
    · obtain ⟨hwatched, hdue⟩ := Bool.and_eq_true_iff.mp hlate
      rw [← Option.some.inj hr]
      exact h.steps (Run.continues_stop _ _).covered rfl rfl rfl fun calls rest =>
        Crew.reaches_own (c := t.crew .waiting calls rest) (.heedDeadline rfl hwatched hdue) rfl rfl turn

theorem place_of_going (hover : ¬ t.run.isOver = true) : t.place = .waiting := if_neg hover

/-- The loop goes on until the run is over or nothing is left to react to; then handlers may go on. -/
theorem Reached.loop (hv : g.Valid) (hc : Loop.Sound g limit c.loop) {fuel : Nat} (hfuel : t.owed < fuel)
    (h : Reached c turn t.place [] t) : ∃ turn',
      Reached c turn' (loop fuel t).place [] (loop fuel t) ∧
        ((loop fuel t).run.isOver = true ∨ turn' = .handlers) := by
  induction fuel generalizing t turn with
  | zero => exact absurd hfuel (Nat.not_lt_zero _)
  | succ fuel ih =>
    unfold Timeline.loop
    split_ifs with hover
    · exact ⟨turn, h, Or.inl hover⟩
    · cases hr : t.react? with
      | some t' =>
        -- each reaction leaves less to react to, so that the fuel suffices
        have hless := owed_of_react hr
        have htop := t'.owed_top_le
        exact ih (by omega) ((Reached.react hv hc (place_of_going hover ▸ h) hr).top hv hc)
      | none =>
        refine ⟨.handlers, h.steps rfl rfl rfl rfl fun calls rest => ?_, Or.inr rfl⟩
        exact Crew.reaches_yield (c := t.crew t.place calls rest) (place_of_going hover)
          (arrived_of_react hr) turn

theorem perm_insertTimer (due : Nat) (w : Worker) (timers : List (Nat × Worker)) :
    (insertTimer due w timers).Perm ((due, w) :: timers) := by
  fun_induction insertTimer due w timers with
  | case1 | case2 => exact .refl _
  | case3 d v rest hlt ih => exact (ih.cons (d, v)).trans (.swap _ _ _)

theorem workers_insertTimer (t : Timeline) (due : Nat) (w : Worker) (held : List Worker) :
    (t.workers (w :: held)).Perm (workers { t with asleep := insertTimer due w t.asleep } held) :=
  (((perm_insertTimer due w t.asleep).map Prod.snd).append_left _).trans List.perm_middle |>.symm

theorem Reached.work (hv : g.Valid) (hc : Loop.Sound g limit c.loop)
    (h : Reached c .handlers p (w :: held) t) : Reached c .handlers p held (t.work w) := by
  obtain ⟨calls, rest, hpath, hmanned⟩ := h.path
  unfold Timeline.work
  rcases Option.eq_none_or_eq_some w.id with hid | ⟨id, hid⟩
  · obtain ⟨hclock, hcancelled⟩ := w.procedure.advance_mono t.run.context t.run.graph 0 t.around
    have hgone := hpath.trans (Crew.reaches_beside (t.crew p calls rest) t.deadline hclock hcancelled)
    rw [hid, Option.getD_none]
    cases hadvance : w.procedure.advance t.run.context t.run.graph 0 t.around with
    | mk around pause =>
      rw [hadvance] at hgone
      cases pause with
      | «until» due next =>
        have hasleep := (hmanned.of_caller hid).caller (w := ⟨none, next⟩) rfl
        exact ⟨h.covered, calls, rest, hgone, hasleep.of_perm (workers_insertTimer t due ⟨none, next⟩ held)⟩
      | ended e => exact ⟨h.covered, calls, rest, hgone, hmanned.of_caller hid⟩
  · -- the crew keeps what this worker has left to do, so that it can be assigned what it has already
    have hcall := hmanned.mem_calls hid
    have hnd := List.Nodup.of_append_left (hpath.sound hv hc).nodup_underway
    have hself : t.crew p calls rest = (t.crew p calls rest).assign id w.procedure := by
      rw [← hmanned.rest_eq List.mem_cons_self hid]
      exact ((t.crew p calls rest).assign_rest id).symm
    rw [hself] at hpath
    have hgone := hpath.trans
      ((t.crew p calls rest).reaches_advance t.deadline hcall w.procedure t.around)
    rw [hid, Option.getD_some]
    cases hadvance : w.procedure.advance t.run.context t.run.graph id t.around with
    | mk around pause =>
      rw [show w.procedure.advance (t.crew p calls rest).loop.run.context
        (t.crew p calls rest).loop.run.graph id t.around = (around, pause) from hadvance] at hgone
      have hnow := hmanned.go hnd hid pause.rest
      cases pause with
      | «until» due next =>
        rw [hid] at hnow
        exact ⟨h.covered, calls, _, hgone, hnow.of_perm (workers_insertTimer t due ⟨some id, next⟩ held)⟩
      | ended e =>
        have hended := hgone.trans (Crew.reaches_ended (.ended e hcall) (Crew.rest_assign_self _ id _))
        exact ⟨h.covered, calls.erase id, _, hended, hnow.leave hid⟩

theorem Reached.workAll (hv : g.Valid) (hc : Loop.Sound g limit c.loop)
    (h : Reached c .handlers p [] t) : Reached c .handlers p [] t.workAll := by
  have hfold (ws : List Worker) {t : Timeline} (h : Reached c .handlers p ws t) :
      Reached c .handlers p [] (ws.foldl Timeline.work t) := by
    induction ws generalizing t with
    | nil => exact h
    | cons w ws ih => exact ih (h.work hv hc)
  refine hfold t.queue ⟨h.covered, ?_⟩
  obtain ⟨calls, rest, hpath, hmanned⟩ := h.path
  refine ⟨calls, rest, hpath, ?_⟩
  simpa only [workers, List.nil_append, List.append_nil] using hmanned

theorem Reached.due (h : Reached c turn p [] t) (woken : Bool) {clock : Nat}
    (hclock : t.around.clock ≤ clock) :
    Reached c turn p [] { t with
      around := { t.around with clock := clock }
      queue := t.queue ++ (t.asleep.takeWhile (·.1 ≤ clock)).map Prod.snd
      asleep := t.asleep.dropWhile (·.1 ≤ clock)
      woken := woken } := by
  obtain ⟨calls, rest, hpath, hmanned⟩ := h.path
  have hpassed : Crew.Reaches turn (t.crew p calls rest) turn
      ((t.crew p calls rest).beside t.deadline { t.around with clock := clock }) :=
    Crew.reaches_beside (t.crew p calls rest) t.deadline hclock fun hc => hc
  refine ⟨h.covered, calls, rest, hpath.trans hpassed, ?_⟩
  simp only [workers, List.nil_append, List.append_assoc, ← List.map_append,
    List.takeWhile_append_dropWhile] at hmanned ⊢
  exact hmanned

theorem Reached.tick (h : Reached c turn p [] t) : Reached c turn p [] t.tick := by
  apply h.due _
  split_ifs
  · exact Nat.le_refl _
  · exact Nat.le_max_left _ _

theorem run_workAll (t : Timeline) : t.workAll.run = t.run := by
  have hwork (t : Timeline) (w : Worker) : (t.work w).run = t.run := by
    unfold work
    cases w.procedure.advance t.run.context t.run.graph (w.id.getD 0) t.around with
    | mk around pause =>
      cases pause with
      | «until» => rfl
      | ended e => cases hid : w.id <;> rfl
  have hfold (ws : List Worker) (t : Timeline) : (ws.foldl work t).run = t.run := by
    induction ws generalizing t with
    | nil => rfl
    | cons w ws ih => exact (ih _).trans (hwork t w)
  exact hfold t.queue _

theorem Reached.others (hv : g.Valid) (hc : Loop.Sound g limit c.loop)
    (h : Reached c .handlers t.place [] t) : Reached c .handlers t.workAll.tick.place [] t.workAll.tick := by
  have hrun : t.workAll.tick.run = t.run := t.run_workAll
  have hplace : t.workAll.tick.place = t.place := by rw [Timeline.place, Timeline.place, hrun]
  rw [hplace]
  exact (h.workAll hv hc).tick

theorem Reached.next (hv : g.Valid) (hc : Loop.Sound g limit c.loop) (h : Reached c turn t.place [] t)
    (hturn : t.woken = true ∨ turn = .handlers) : ∃ turn',
      Reached c turn' t.turn.place [] t.turn ∧ (t.turn.run.isOver = true ∨ turn' = .handlers) := by
  unfold Timeline.turn
  extract_lets t'
  have hloop : ∃ turn', Reached c turn' t'.place [] t' ∧
      (t'.run.isOver = true ∨ turn' = .handlers) := by
    unfold t'
    split_ifs with hwoken
    · exact h.loop hv hc t.owed_lt_reactions
    · exact ⟨turn, h, Or.inr (hturn.resolve_left hwoken)⟩
  obtain ⟨turn', hreached, hwhy⟩ := hloop
  split_ifs with hover
  · exact ⟨turn', hreached, Or.inl hover⟩
  · obtain rfl := hwhy.resolve_left hover
    exact ⟨.handlers, hreached.others hv hc, Or.inr rfl⟩

theorem Reached.turns (hv : g.Valid) (hc : Loop.Sound g limit c.loop) (n : Nat)
    (h : Reached c turn t.place [] t)
    (hturn : t.run.isOver = true ∨ t.woken = true ∨ turn = .handlers) :
    ∃ turn', Reached c turn' (turns n t).place [] (turns n t) := by
  induction n generalizing t turn with
  | zero => exact ⟨turn, h⟩
  | succ n ih =>
    unfold Timeline.turns
    split_ifs with hover
    · exact ⟨turn, h⟩
    · obtain ⟨turn', hreached, hwhy⟩ := h.next hv hc (hturn.resolve_left hover)
      exact ih hreached (hwhy.imp_right Or.inr)

theorem reached_start {caller : List Worker} (hcaller : ∀ w ∈ caller, w.id = none) (runId : String)
    (g : Graph) (handlers : Registry) (limits : Run.Limits) (around : Surroundings) :
    Reached (.start runId g handlers limits (.ofMillis around.clock)) .loop .top []
      (start runId g handlers limits around caller) := by
  have hmanned : Manned ((start runId g handlers limits around caller).workers []) []
      fun _ => .done (.finished .empty) := by
    have hnone : (start runId g handlers limits around caller).workers [] = caller := List.append_nil _
    rw [hnone]
    refine ⟨?_, fun hw hid => ?_⟩
    · rw [List.filterMap_eq_nil_iff.mpr hcaller]
    · rw [hcaller _ hw] at hid
      cases hid
  exact ⟨rfl, [], _, Crew.reaches_outside _ nofun nofun, hmanned⟩

theorem woken_top (t : Timeline) : t.top.woken = t.woken := by
  have hcheck : t.check.woken = t.woken := by
    unfold check
    split_ifs <;> rfl
  have hlaunch : t.check.launch.woken = t.check.woken := by
    unfold launch
    split_ifs <;> rfl
  exact hlaunch.trans hcheck

/-- Whatever is reached in virtual time, steps of the coordination loop and acts of the handlers that it called
reach in turns as well. -/
theorem reaches_turns (hv : g.Valid) {caller : List Worker} (hcaller : ∀ w ∈ caller, w.id = none)
    (runId : String) (handlers : Registry) (limits : Run.Limits) (around : Surroundings) (n : Nat) :
    let t := turns n (start runId g handlers limits around caller).top
    ∃ turn calls rest, Crew.Reaches .loop (.start runId g handlers limits (.ofMillis around.clock)) turn
      (t.crew t.place calls rest) := by
  intro t
  have hc := Loop.sound_start hv runId handlers limits (.ofMillis around.clock)
  have hstart := (reached_start hcaller runId g handlers limits around).top hv hc
  obtain ⟨turn, hreached⟩ := hstart.turns hv hc n (Or.inr (Or.inl (woken_top _)))
  obtain ⟨calls, rest, hpath, -⟩ := hreached.path
  exact ⟨turn, calls, rest, hpath⟩

/-- No more tasks are in flight in virtual time than one thread can have. -/
theorem inFlight_turns_le (hv : g.Valid) {caller : List Worker} (hcaller : ∀ w ∈ caller, w.id = none)
    (runId : String) (handlers : Registry) (limits : Run.Limits) (around : Surroundings) (n : Nat) :
    (turns n (start runId g handlers limits around caller).top).run.inFlight ≤
      2 * max limits.concurrency 1 - 1 := by
  obtain ⟨_, _, _, _, -, hturns⟩ := reaches_turns hv hcaller runId handlers limits around n
  exact hturns.inFlight_le hv

end Timeline

end Rollout
