import Rollout.Proofs.CrewRuns

/-! What one thread does for a run: the loop fills up with the tasks that are ready, and a handler goes on until
it ends or has to wait. Each is some steps of the loop and some acts of handlers, taken in turns. -/

namespace Rollout

theorem Procedure.advance_mono {α : Type} (context : Context) (g : Graph) (id : TaskId) (p : Procedure α)
    (s : Surroundings) :
    s.clock ≤ (p.advance context g id s).1.clock ∧
      (s.cancelled = true → (p.advance context g id s).1.cancelled = true) := by
  induction p generalizing s with
  | done a => exact ⟨Nat.le_refl _, fun h => h⟩
  | call c next ih => exact ih _ { s with rehearsal := (s.rehearsal.answer c).1 }
  | look key next ih => exact ih _ s
  | wait ms next ih =>
    rw [advance]
    split
    · exact ih s
    · exact ⟨Nat.le_refl _, fun h => h⟩
  | busy ms next ih =>
    have hrest := ih (s.pass ms)
    exact ⟨(Nat.le_add_right _ _).trans hrest.1, hrest.2⟩
  | cancelRun next ih =>
    have hrest := ih s.cancel
    exact ⟨hrest.1, fun h => hrest.2 (by simp [Surroundings.cancel, h])⟩
  | note n next ih => exact ih (s.write id n)

/-- What a procedure that paused has left to do. -/
def Pause.rest {α : Type} : Pause α → Procedure α
  | ended a => .done a
  | «until» _ next => next

namespace Run

theorem dispatch_snd (now : Instant) (r : Run) (id : TaskId) (kind : Kind) :
    (r.dispatch now id kind).2 = r.covered kind := by
  unfold dispatch
  cases hc : r.covered kind <;> simp [hc]

theorem dispatch_kept (now : Instant) (r : Run) (id : TaskId) (kind : Kind) :
    (r.dispatch now id kind).1.stopped = r.stopped ∧
      (r.dispatch now id kind).1.ready = r.ready.tail := by
  cases hc : r.covered kind with
  | false =>
    have hf := framed_fail now { r with ready := r.ready.drop 1 } id
      ("no handler registered for task kind " ++ kind.name)
    rw [dispatch_uncovered hc]
    exact ⟨hf.stopped, hf.ready.trans List.drop_one⟩
  | true =>
    rw [dispatch_covered hc]
    exact ⟨rfl, List.drop_one⟩

variable {now : Instant} {fuel free : Nat} {r : Run} {id : TaskId} {rest : List TaskId} {t : Task}

theorem fill_dispatched (hr : r.ready = id :: rest) (ht : r.graph.task? id = some t)
    (hc : r.covered t.kind = true) :
    r.fill now (fuel + 1) (free + 1) =
      (((r.dispatch now id t.kind).1.fill now fuel free).1,
        id :: ((r.dispatch now id t.kind).1.fill now fuel free).2) := by
  simp only [fill, hr, ht, dispatch_snd, hc, if_true]

theorem fill_refused (hr : r.ready = id :: rest) (ht : r.graph.task? id = some t)
    (hc : r.covered t.kind = false) :
    r.fill now (fuel + 1) (free + 1) = (r.dispatch now id t.kind).1.fill now fuel (free + 1) := by
  simp only [fill, hr, ht, dispatch_snd, hc, Bool.false_eq_true, if_false]

/-- A run after filling up: no task is ready any more or no permit is free, unless it took too long. -/
structure Filled (r : Run) (fuel free : Nat) (r' : Run) (started : List TaskId) : Prop where
  continues : Continues r r'
  exhausted : r.ready.length ≤ fuel → r'.ready = [] ∨ free ≤ started.length

theorem filled_fill (now : Instant) (fuel free : Nat) (r : Run) :
    Filled r fuel free (r.fill now fuel free).1 (r.fill now fuel free).2 := by
  fun_induction r.fill now fuel free with
  | case1 _ r =>
    exact ⟨.refl r, fun hle => Or.inl (List.length_eq_zero_iff.mp (Nat.le_zero.mp hle))⟩
  | case2 _ r => exact ⟨.refl r, fun _ => Or.inr (Nat.zero_le _)⟩
  | case3 _ _ r hr => exact ⟨.refl r, fun _ => Or.inl hr⟩
  | case4 fuel free r id rest hr ht ih =>
    exact ⟨⟨ih.continues.graph, ih.continues.covered, ih.continues.stopped⟩,
      fun hle => ih.exhausted (by simpa [hr] using hle)⟩
  | case5 fuel free r id rest hr t ht r' r'' more hfill hd ih =>
    have hcont := continues_dispatch now r id t.kind
    have hready := (dispatch_kept now r id t.kind).2
    simp only [hd] at hcont hready
    rw [hr, List.tail_cons] at hready
    rw [hfill] at ih
    refine ⟨hcont.trans ih.continues, fun hle => ?_⟩
    have hlen : rest.length ≤ fuel := by simpa [hr] using hle
    exact (ih.exhausted (hready ▸ hlen)).imp_right Nat.succ_le_succ
  | case6 fuel free r id rest hr t ht r' started hd hc ih =>
    have hcont := continues_dispatch now r id t.kind
    have hready := (dispatch_kept now r id t.kind).2
    simp only [hd] at hcont hready
    rw [hr, List.tail_cons] at hready
    refine ⟨hcont.trans ih.continues, fun hle => ?_⟩
    have hlen : rest.length ≤ fuel := by simpa [hr] using hle
    exact ih.exhausted (hready ▸ hlen)

end Run

namespace Crew

open Procedure (Act)

variable {c c' c'' : Crew} {turn turn' turn'' : Loop.Turn} {g : Graph} {limit : Nat} {l : Loop}
  {a : Loop.Action} {id : TaskId} {p : Procedure Ending}

/-- Here it is possible to get with the loop in turns and the handlers beside it. -/
def Reaches (turn : Loop.Turn) (c : Crew) (turn' : Loop.Turn) (c' : Crew) : Prop :=
  ∃ deeds, Path c deeds c' ∧ Loop.Turns turn c.loop (actions deeds) turn' c'.loop

theorem Reaches.refl (turn : Loop.Turn) (c : Crew) : Reaches turn c turn c :=
  ⟨[], .refl c, .refl turn c.loop⟩

theorem Reaches.trans (h : Reaches turn c turn' c') (h' : Reaches turn' c' turn'' c'') :
    Reaches turn c turn'' c'' := by
  obtain ⟨deeds, path, turns⟩ := h
  obtain ⟨more, path', turns'⟩ := h'
  refine ⟨deeds ++ more, path.append path', ?_⟩
  rw [actions_append]
  exact turns.append turns'

theorem Reaches.sound (hv : g.Valid) (hs : Loop.Sound g limit c.loop) (h : Reaches turn c turn' c') :
    Loop.Sound g limit c'.loop := by
  obtain ⟨deeds, -, turns⟩ := h
  exact hs.path hv turns.path

theorem reaches_own (s : Loop.Step c.loop a l) (isOwn : a.isOwn = true) (hd : a.dispatched? = none)
    (turn : Loop.Turn) : Reaches turn c .loop { c with loop := l } := by
  have calls : ∀ id, a ≠ .dispatch id := fun id he => by simp [he, Loop.Action.dispatched?] at hd
  have ends : ∀ id e, a ≠ .ended id e := fun id e he => by simp [he, Loop.Action.isOwn] at isOwn
  exact ⟨_, (Path.refl c).snoc (.other s calls ends), (Loop.Turns.refl turn c.loop).own s isOwn⟩

theorem reaches_called {t : Task} {h : Handler} (s : Loop.Step c.loop (.dispatch id) l)
    (task : c.loop.run.graph.task? id = some t) (handler : c.handlers.get? t.kind = some h)
    (turn : Loop.Turn) : Reaches turn c .loop (assign { c with loop := l } id (h id t.payload)) :=
  ⟨_, (Path.refl c).snoc (.called s task handler), (Loop.Turns.refl turn c.loop).own s rfl⟩

theorem reaches_ended {e : Ending} (s : Loop.Step c.loop (.ended id e) l) (rest : c.rest id = .done e) :
    Reaches .handlers c .handlers { c with loop := l } :=
  ⟨_, (Path.refl c).snoc (.ended s (Or.inl rest)), (Loop.Turns.refl .handlers c.loop).ended s⟩

theorem reaches_act {x : Act} (call : id ∈ c.loop.calls)
    (move : (c.rest id).Move (Context.read c.loop.run.graph id c.loop.run.context) x p) :
    Reaches turn c turn (c.assign id p) :=
  ⟨_, (Path.refl c).snoc (.act call move), .refl turn c.loop⟩

theorem reaches_yield (place : c.loop.place = .waiting) (idle : c.loop.arrived = []) (turn : Loop.Turn) :
    Reaches turn c .handlers c :=
  ⟨_, .refl c, (Loop.Turns.refl turn c.loop).yields place idle⟩

theorem reaches_cancel (fresh : c.loop.cancelled = false) :
    Reaches turn c turn { c with loop := { c.loop with cancelled := true } } :=
  ⟨_, (Path.refl c).snoc (.other (.cancel fresh) nofun nofun),
    (Loop.Turns.refl turn c.loop).outside (.cancel fresh) (Or.inl rfl)⟩

theorem reaches_expire (fresh : c.loop.late = false) :
    Reaches turn c turn { c with loop := { c.loop with late := true } } :=
  ⟨_, (Path.refl c).snoc (.other (.expire fresh) nofun nofun),
    (Loop.Turns.refl turn c.loop).outside (.expire fresh) (Or.inr rfl)⟩

theorem reaches_outside (c : Crew) {d e : Bool} (hd : c.loop.cancelled = true → d = true)
    (he : c.loop.late = true → e = true) :
    Reaches turn c turn { c with loop := { c.loop with cancelled := d, late := e } } := by
  have hcancel : Reaches turn c turn { c with loop := { c.loop with cancelled := d } } := by
    cases hc : c.loop.cancelled with
    | true =>
      rw [hd hc, ← hc]
      exact .refl turn c
    | false =>
      cases d with
      | false =>
        rw [← hc]
        exact .refl turn c
      | true => exact reaches_cancel hc
  have hexpire (m : Crew) (hm : m.loop.late = c.loop.late) :
      Reaches turn m turn { m with loop := { m.loop with late := e } } := by
    cases hl : m.loop.late with
    | true =>
      rw [he (hm ▸ hl), ← hl]
      exact .refl turn m
    | false =>
      cases e with
      | false =>
        rw [← hl]
        exact .refl turn m
      | true => exact reaches_expire hl
  exact hcancel.trans (hexpire _ rfl)

/-- A crew that is cancelled and late as these surroundings have it. -/
def beside (c : Crew) (deadline : Option Nat) (s : Surroundings) : Crew :=
  { c with loop := { c.loop with cancelled := s.cancelled, late := deadline.any (· ≤ s.clock) } }

theorem reaches_beside (c : Crew) (deadline : Option Nat) {s s' : Surroundings} (hclock : s.clock ≤ s'.clock)
    (hcancelled : s.cancelled = true → s'.cancelled = true) :
    Reaches turn (c.beside deadline s) turn (c.beside deadline s') := by
  refine reaches_outside (c.beside deadline s) hcancelled fun hdue => ?_
  obtain ⟨due, hdeadline, hle⟩ := (Option.any_eq_true _ _).mp hdue
  exact (Option.any_eq_true _ _).mpr ⟨due, hdeadline, decide_eq_true ((of_decide_eq_true hle).trans hclock)⟩

/-- A handler that goes on acts step by step, and what is around the run changes with it. -/
theorem reaches_advance (c : Crew) (deadline : Option Nat) (call : id ∈ c.loop.calls)
    (p : Procedure Ending) (s : Surroundings) :
    Reaches turn ((c.beside deadline s).assign id p) turn
      ((c.beside deadline (p.advance c.loop.run.context c.loop.run.graph id s).1).assign id
        (p.advance c.loop.run.context c.loop.run.graph id s).2.rest) := by
  have hact : ∀ {s : Surroundings} {p p' : Procedure Ending} {x : Act},
      p.Move (Context.read c.loop.run.graph id c.loop.run.context) x p' →
      Reaches turn ((c.beside deadline s).assign id p) turn ((c.beside deadline s).assign id p') :=
    fun {s p p' x} move => by
      have hrest := rest_assign_self (c.beside deadline s) id p
      have hnext : Reaches turn ((c.beside deadline s).assign id p) turn
          (((c.beside deadline s).assign id p).assign id p') := reaches_act call (hrest.symm ▸ move)
      rwa [assign_assign] at hnext
  have hbeside : ∀ {s : Surroundings} (s' : Surroundings) (p : Procedure Ending), s.clock ≤ s'.clock →
      (s.cancelled = true → s'.cancelled = true) →
      Reaches turn ((c.beside deadline s).assign id p) turn ((c.beside deadline s').assign id p) :=
    fun s' p hclock hcancelled => reaches_beside (c.assign id p) deadline hclock hcancelled
  induction p generalizing s with
  | done e => exact .refl turn _
  | call q next ih =>
    exact (hact (.asked q next (s.rehearsal.answer q).2)).trans
      (ih _ { s with rehearsal := (s.rehearsal.answer q).1 })
  | look key next ih => exact (hact (.looked key next)).trans (ih _ s)
  | wait ms next ih =>
    rw [Procedure.advance]
    split_ifs
    · exact (hact (.waited ms next)).trans (ih s)
    · exact hact (.waited ms next)
  | busy ms next ih =>
    have hpassed := hbeside (s.pass ms) next (Nat.le_add_right s.clock ms) fun h => h
    exact ((hact (.worked ms next)).trans hpassed).trans (ih (s.pass ms))
  | cancelRun next ih =>
    have hcancelled := hbeside s.cancel next (Nat.le_refl s.clock) fun h => by
      simp [Surroundings.cancel, h]
    exact ((hact (.cancelled next)).trans hcancelled).trans (ih s.cancel)
  | note n next ih => exact (hact (.noted n next)).trans (ih (s.write id n))

/-- Handlers that were called for tasks that were started, while the others have left to do what they had. -/
def Called (g : Graph) (handlers : Registry) (started : List TaskId)
    (rest rest' : TaskId → Procedure Ending) : Prop :=
  (∀ id ∈ started, ∃ t h, g.task? id = some t ∧ handlers.get? t.kind = some h ∧ rest' id = h id t.payload) ∧
    ∀ id ∉ started, rest' id = rest id

theorem Called.cons {handlers : Registry} {started : List TaskId} {rest rest' : TaskId → Procedure Ending}
    {t : Task} {h : Handler} (ht : g.task? id = some t) (hh : handlers.get? t.kind = some h)
    (hcalled : Called g handlers started (fun x => if x = id then h id t.payload else rest x) rest') :
    Called g handlers (id :: started) rest rest' := by
  obtain ⟨hnew, hold⟩ := hcalled
  refine ⟨fun x hx => ?_, fun x hx => ?_⟩
  · by_cases hmore : x ∈ started
    · exact hnew x hmore
    · obtain rfl := (List.mem_cons.mp hx).resolve_right hmore
      exact ⟨t, h, ht, hh, (hold x hmore).trans (if_pos rfl)⟩
  · obtain ⟨hne, hmore⟩ := not_or.mp (mt List.mem_cons.mpr hx)
    exact (hold x hmore).trans (if_neg hne)

/-- Filling up is what the loop does step by step. -/
theorem reaches_fill (hv : g.Valid) (now : Instant) {l : Loop} (hplace : l.place = .filling)
    (handlers : Registry) (fuel free : Nat) (r : Run) (calls : List TaskId)
    (rest : TaskId → Procedure Ending)
    (hs : Loop.Sound g limit { l with run := r, free := free, calls := calls })
    (hstopped : r.stopped = none) (hcovered : r.covered = handlers.contains) :
    ∃ rest', Called g handlers (r.fill now fuel free).2 rest rest' ∧
      Reaches .loop ⟨{ l with run := r, free := free, calls := calls }, handlers, rest⟩ .loop
        ⟨{ l with
          run := (r.fill now fuel free).1
          free := free - (r.fill now fuel free).2.length
          calls := (r.fill now fuel free).2.reverse ++ calls }, handlers, rest'⟩ := by
  induction fuel generalizing free r calls rest with
  | zero => exact ⟨rest, ⟨nofun, fun _ _ => rfl⟩, .refl .loop _⟩
  | succ fuel ih =>
    cases free with
    | zero => exact ⟨rest, ⟨nofun, fun _ _ => rfl⟩, .refl .loop _⟩
    | succ free =>
      cases hr : r.ready with
      | nil =>
        have hnone : r.fill now (fuel + 1) (free + 1) = (r, []) := by rw [Run.fill, hr]
        rw [hnone]
        exact ⟨rest, ⟨nofun, fun _ _ => rfl⟩, .refl .loop _⟩
      | cons id others =>
        have hid : r.stateOf id = .ready := (hs.coherent.ready_head hr).1
        have hmem : id ∈ g.ids := hs.coherent.mem_ids (by simp [hid])
        obtain ⟨t, ht⟩ := Graph.mem_ids_iff.mp hmem
        have htask : r.graph.task? id = some t := by rw [hs.coherent.graph_eq, ht]
        have hready : r.ready ≠ [] := by simp [hr]
        have hfull : Loop.isFull { l with run := r, free := free + 1, calls := calls } = false :=
          Loop.isFull_eq_false_iff.mpr ⟨hstopped, hready, Nat.succ_pos free⟩
        have hgoing : (r.dispatch now id t.kind).1.stopped = none := by
          rw [(Run.dispatch_kept now r id t.kind).1, hstopped]
        have hkept : (r.dispatch now id t.kind).1.covered = handlers.contains :=
          (Run.continues_dispatch now r id t.kind).covered.trans hcovered
        cases hc : r.covered t.kind with
        | true =>
          have s := Loop.Step.dispatch (l := { l with run := r, free := free + 1, calls := calls })
            now hplace hfull hr htask hc
          obtain ⟨h, hh⟩ := Option.isSome_iff_exists.mp
            (show (handlers.get? t.kind).isSome = true by rw [← hc, hcovered, Registry.contains])
          obtain ⟨rest', hcalled, hrest⟩ := ih free (r.dispatch now id t.kind).1 (id :: calls)
            (fun x => if x = id then h id t.payload else rest x) (hs.step hv s) hgoing hkept
          rw [Run.fill_dispatched hr htask hc, List.length_cons, Nat.add_sub_add_right,
            List.reverse_cons, List.append_assoc]
          exact ⟨rest', hcalled.cons ht hh, (reaches_called s htask hh .loop).trans hrest⟩
        | false =>
          have s := Loop.Step.refuse (l := { l with run := r, free := free + 1, calls := calls })
            now hplace hfull hr htask hc
          obtain ⟨rest', hcalled, hrest⟩ := ih (free + 1) (r.dispatch now id t.kind).1 calls rest
            (hs.step hv s) hgoing hkept
          rw [Run.fill_refused hr htask hc]
          exact ⟨rest', hcalled, (reaches_own s rfl rfl .loop).trans hrest⟩

end Crew

end Rollout
