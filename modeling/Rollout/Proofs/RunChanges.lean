import Rollout.Proofs.StateChanges

/-! What each operation does to a run: to the states and counters of its tasks, to those that are ready,
and to what is told of them. -/

namespace Rollout

/-- States as the outcomes tell them. -/
def TaskState.shown : TaskState → TaskState
  | ready => pending
  | s => s

theorem Tally.find?_change (t : Tally) (id : TaskId) (f : Outcome → Outcome) (x : TaskId) :
    (t.change id f).outcomes.find? x =
      if x = id then (t.outcomes.find? x).map f else t.outcomes.find? x :=
  Table.find?_modify t.outcomes id f x

namespace Run

def left (r : Run) (id : TaskId) : Nat := (r.remaining.find? id).getD 0

/-- The outcomes gathered so far are those of the tasks of the run, and tell their states. -/
structure Told (r : Run) : Prop where
  keys : r.tally.outcomes.keys = r.states.keys
  stateOf? : ∀ x, r.tally.stateOf? x = (r.states.find? x).map TaskState.shown
  id_eq : ∀ {x o}, r.tally.outcomes.find? x = some o → o.id = x

theorem Told.of_eq {r r' : Run} (h : r.Told) (hstates : r'.states = r.states)
    (htally : r'.tally = r.tally) : r'.Told := by
  refine ⟨?_, fun x => ?_, fun ho => h.id_eq (htally ▸ ho)⟩
  · rw [htally, hstates, h.keys]
  · rw [htally, hstates, h.stateOf?]

theorem find?_states_setState (r : Run) (id : TaskId) (s : TaskState) (x : TaskId) :
    (r.setState id s).states.find? x =
      if x = id then (r.states.find? x).map fun _ => s else r.states.find? x := by
  change (r.states.modify id fun _ => s).find? x = _
  rw [Table.find?_modify]

theorem keys_setState (r : Run) (id : TaskId) (s : TaskState) :
    (r.setState id s).states.keys = r.states.keys := by
  change (r.states.modify id fun _ => s).keys = _
  rw [Table.keys_modify]

theorem stateOf_of_find? {r : Run} {x : TaskId} {s : TaskState} (h : r.states.find? x = some s) :
    r.stateOf x = s := by
  rw [stateOf, h, Option.getD_some]

theorem stateOf_of_not_mem {r : Run} {x : TaskId} (h : x ∉ r.states.keys) :
    r.stateOf x = .skipped := by
  rw [stateOf, Table.find?_eq_none_iff.mpr h]
  rfl

theorem mem_keys_of_stateOf {r : Run} {x : TaskId} (h : r.stateOf x ≠ .skipped) :
    x ∈ r.states.keys :=
  not_not.mp fun hn => h (stateOf_of_not_mem hn)

theorem stateOf_setState {r : Run} {id : TaskId} {s : TaskState}
    (h : id ∈ r.states.keys ∨ s = .skipped) :
    (r.setState id s).stateOf = Function.update r.stateOf id s := by
  funext x
  rw [stateOf, find?_states_setState]
  by_cases hx : x = id
  · subst x
    cases ho : r.states.find? id with
    | some old => simp
    | none =>
      rcases h with h | rfl
      · exact absurd h (Table.find?_eq_none_iff.mp ho)
      · simp
  · simp [hx, stateOf]

/-- Gives one task a new state, with its outcome and an event. -/
def mark (r : Run) (id : TaskId) (s : TaskState) (f : Outcome → Outcome) (e : Event) : Run :=
  { r.setState id s with tally := r.tally.change id f }.emit e

theorem stateOf_mark {r : Run} {id : TaskId} {s : TaskState}
    (h : id ∈ r.states.keys ∨ s = .skipped) (f : Outcome → Outcome) (e : Event) :
    (r.mark id s f e).stateOf = Function.update r.stateOf id s :=
  stateOf_setState h

/-- What a run keeps when only states of tasks change. -/
structure Framed (r r' : Run) : Prop where
  graph : r'.graph = r.graph
  covered : r'.covered = r.covered
  remaining : r'.remaining = r.remaining
  ready : r'.ready = r.ready
  inFlight : r'.inFlight = r.inFlight
  stopped : r'.stopped = r.stopped
  context : r'.context = r.context
  keys : r'.states.keys = r.states.keys
  told : r.Told → r'.Told

theorem Framed.refl (r : Run) : Framed r r := ⟨rfl, rfl, rfl, rfl, rfl, rfl, rfl, rfl, fun h => h⟩

theorem Framed.trans {r r' r'' : Run} (h : Framed r r') (h' : Framed r' r'') : Framed r r'' :=
  ⟨h'.graph.trans h.graph, h'.covered.trans h.covered, h'.remaining.trans h.remaining,
    h'.ready.trans h.ready, h'.inFlight.trans h.inFlight, h'.stopped.trans h.stopped,
    h'.context.trans h.context, h'.keys.trans h.keys, fun ht => h'.told (h.told ht)⟩

theorem Framed.left {r r' : Run} (h : Framed r r') : r'.left = r.left := by
  funext x
  rw [Run.left, Run.left, h.remaining]

theorem find?_outcomes_mark (r : Run) (id : TaskId) (s : TaskState) (f : Outcome → Outcome)
    (e : Event) (x : TaskId) :
    (r.mark id s f e).tally.outcomes.find? x =
      if x = id then (r.tally.outcomes.find? x).map f else r.tally.outcomes.find? x :=
  r.tally.find?_change id f x

theorem told_mark {r : Run} (h : r.Told) {id : TaskId} {s : TaskState} {f : Outcome → Outcome}
    (hf : ∀ o, (f o).state = s.shown ∧ (f o).id = o.id) (e : Event) : (r.mark id s f e).Told := by
  refine ⟨?_, fun x => ?_, fun {x o} ho => ?_⟩
  · change (r.tally.outcomes.modify id f).keys = (r.setState id s).states.keys
    rw [Table.keys_modify, keys_setState, h.keys]
  · have hx := h.stateOf? x
    change _ = ((r.setState id s).states.find? x).map TaskState.shown
    rw [Tally.stateOf?] at hx ⊢
    rw [find?_outcomes_mark, find?_states_setState]
    by_cases he : x = id
    · subst x
      cases ho : r.tally.outcomes.find? id <;> cases hs : r.states.find? id <;>
        simp_all
    · simp only [he, if_false, hx]
  · rw [find?_outcomes_mark] at ho
    by_cases he : x = id
    · obtain ⟨old, hold, rfl⟩ := Option.map_eq_some_iff.mp ((if_pos he).symm.trans ho)
      exact (hf old).2.trans (h.id_eq hold)
    · exact h.id_eq ((if_neg he).symm.trans ho)

theorem framed_mark (r : Run) (id : TaskId) {s : TaskState} {f : Outcome → Outcome}
    (hf : ∀ o, (f o).state = s.shown ∧ (f o).id = o.id) (e : Event) : Framed r (r.mark id s f e) :=
  ⟨rfl, rfl, rfl, rfl, rfl, rfl, rfl, keys_setState r id s, fun h => told_mark h hf e⟩

theorem skip_eq_mark (reason : String) (r : Run) (id : TaskId) :
    skip reason r id = r.mark id .skipped
      (fun o => { o with state := .skipped, diagnostic := some reason }) (.skipped id reason) := rfl

theorem framed_skip (reason : String) (r : Run) (id : TaskId) : Framed r (skip reason r id) := by
  rw [skip_eq_mark]
  refine framed_mark r id ?_ _
  exact fun _ => ⟨rfl, rfl⟩

theorem stateOf_skip (reason : String) (r : Run) (id : TaskId) :
    (skip reason r id).stateOf = Function.update r.stateOf id .skipped :=
  stateOf_mark (Or.inr rfl) _ _

theorem foldl_skip_spec (reason : String) (l : List TaskId) (r : Run) :
    Framed r (l.foldl (skip reason) r) ∧
      ∀ x, (l.foldl (skip reason) r).stateOf x = if x ∈ l then .skipped else r.stateOf x := by
  induction l generalizing r with
  | nil => exact ⟨.refl r, fun x => by simp⟩
  | cons id l ih =>
    have hrest := ih (skip reason r id)
    refine ⟨(framed_skip reason r id).trans hrest.1, fun x => ?_⟩
    rw [List.foldl_cons, hrest.2, stateOf_skip]
    by_cases hl : x ∈ l
    · simp [hl]
    · by_cases hx : x = id <;> simp [hl, hx]

def skipPending (reason : String) (r : Run) (id : TaskId) : Run :=
  if r.stateOf id = .pending then skip reason r id else r

theorem foldl_skipPending_spec (reason : String) (l : List TaskId) (r : Run) :
    Framed r (l.foldl (skipPending reason) r) ∧
      ∀ x, (l.foldl (skipPending reason) r).stateOf x =
        if x ∈ l ∧ r.stateOf x = .pending then .skipped else r.stateOf x := by
  induction l generalizing r with
  | nil => exact ⟨.refl r, fun x => by simp⟩
  | cons id l ih =>
    have hrest := ih (skipPending reason r id)
    rw [List.foldl_cons]
    by_cases hid : r.stateOf id = .pending
    · rw [show skipPending reason r id = skip reason r id from if_pos hid] at hrest ⊢
      refine ⟨(framed_skip reason r id).trans hrest.1, fun x => ?_⟩
      rw [hrest.2, stateOf_skip]
      by_cases hx : x = id <;> simp [hx, hid]
    · rw [show skipPending reason r id = r from if_neg hid] at hrest ⊢
      refine ⟨hrest.1, fun x => ?_⟩
      rw [hrest.2]
      by_cases hx : x = id <;> simp [hx, hid]

theorem fail_eq (now : Instant) (r : Run) (id : TaskId) (diagnostic : String) :
    fail now r id diagnostic =
      (r.graph.downstream id).foldl
        (skipPending ("upstream task " ++ toString id.toNat ++ " failed"))
        (r.mark id .failed
          (fun o => { o with
            state := .failed, diagnostic := some diagnostic, finishedAt := some now })
          (.finished id .failed (some diagnostic))) := rfl

theorem framed_fail (now : Instant) (r : Run) (id : TaskId) (diagnostic : String) :
    Framed r (fail now r id diagnostic) := by
  rw [fail_eq]
  refine Framed.trans (framed_mark r id ?_ _) (foldl_skipPending_spec _ _ _).1
  exact fun _ => ⟨rfl, rfl⟩

theorem stateOf_fail (now : Instant) {r : Run} {id : TaskId} (h : id ∈ r.states.keys)
    (diagnostic : String) :
    (fail now r id diagnostic).stateOf = r.graph.afterFailed r.stateOf id := by
  funext x
  have hself : id ∉ r.graph.downstream id := by simp [Graph.downstream]
  rw [fail_eq, (foldl_skipPending_spec _ _ _).2, stateOf_mark (Or.inl h), Graph.afterFailed]
  by_cases hx : x = id <;> simp [hx, hself]

theorem stop_of_stopped {r : Run} (h : r.stopped.isSome = true) (s : Stop) : r.stop s = r := if_pos h

def waiting (r : Run) : List TaskId :=
  r.graph.ids.filter fun id => r.stateOf id = .pending || r.stateOf id = .ready

theorem stop_eq {r : Run} (h : r.stopped = none) (s : Stop) :
    r.stop s = { r.waiting.foldl (skip s.skipReason) r with ready := [], stopped := some s } :=
  if_neg (by simp [h])

theorem mem_waiting {r : Run} (hk : r.states.keys = r.graph.ids) {x : TaskId} :
    x ∈ r.waiting ↔ r.stateOf x = .pending ∨ r.stateOf x = .ready := by
  simp only [waiting, List.mem_filter, Bool.or_eq_true, decide_eq_true_eq, ← hk]
  refine and_iff_right_of_imp fun hw => mem_keys_of_stateOf fun e => ?_
  simp [e] at hw

theorem stateOf_stop {r : Run} (h : r.stopped = none) (hk : r.states.keys = r.graph.ids) (s : Stop) :
    (r.stop s).stateOf = afterStop r.stateOf := by
  funext x
  rw [stop_eq h, afterStop, ← if_congr (mem_waiting hk) rfl rfl]
  exact (foldl_skip_spec s.skipReason r.waiting r).2 x

theorem mem_enqueue {id x : TaskId} {l : List TaskId} : x ∈ enqueue id l ↔ x = id ∨ x ∈ l := by
  induction l with
  | nil => simp [enqueue]
  | cons j rest ih =>
    rw [enqueue]
    split
    · simp
    · rw [List.mem_cons, ih, List.mem_cons]
      exact or_left_comm

theorem pairwise_enqueue {id : TaskId} {l : List TaskId} (h : l.Pairwise (· < ·)) (hid : id ∉ l) :
    (enqueue id l).Pairwise (· < ·) := by
  induction l with
  | nil => exact List.pairwise_singleton _ _
  | cons j rest ih =>
    obtain ⟨hj, hrest⟩ := List.pairwise_cons.mp h
    obtain ⟨hne, hnot⟩ := not_or.mp fun hm => hid (List.mem_cons.mpr hm)
    rw [enqueue]
    split
    next hlt =>
      refine List.pairwise_cons.mpr ⟨fun x hx => ?_, h⟩
      rcases List.mem_cons.mp hx with rfl | hx
      · exact hlt
      · exact Std.lt_trans hlt (hj x hx)
    next hlt =>
      refine List.pairwise_cons.mpr ⟨fun x hx => ?_, ih hrest hnot⟩
      rcases mem_enqueue.mp hx with rfl | hx
      · exact Std.lt_of_le_of_ne (Std.not_lt.mp hlt) (Ne.symm hne)
      · exact hj x hx

/-- Whether a task is ready once it has one predecessor less to wait for. -/
def Opens (r : Run) (id : TaskId) : Prop := r.stateOf id = .pending ∧ r.left id ≤ 1

/-- What unlocking some tasks does to a run. -/
structure Unlocks (l : List TaskId) (r r' : Run) : Prop where
  graph : r'.graph = r.graph
  covered : r'.covered = r.covered
  inFlight : r'.inFlight = r.inFlight
  stopped : r'.stopped = r.stopped
  context : r'.context = r.context
  keys : r'.states.keys = r.states.keys
  keys_remaining : r'.remaining.keys = r.remaining.keys
  told : r.Told → r'.Told
  stateOf_open : ∀ {x}, x ∈ l → r.Opens x → r'.stateOf x = .ready
  stateOf_other : ∀ {x}, ¬ (x ∈ l ∧ r.Opens x) → r'.stateOf x = r.stateOf x
  left_pending : ∀ {x}, x ∈ l → r.stateOf x = .pending → r'.left x = r.left x - 1
  left_other : ∀ {x}, ¬ (x ∈ l ∧ r.stateOf x = .pending) → r'.left x = r.left x
  mem_ready : ∀ {x}, x ∈ r'.ready ↔ x ∈ r.ready ∨ x ∈ l ∧ r.Opens x
  pairwise_ready : (∀ x ∈ r.ready, r.stateOf x = .ready) → r.ready.Pairwise (· < ·) →
    r'.ready.Pairwise (· < ·)

theorem told_ready {r : Run} (h : r.Told) {id : TaskId} (hid : r.stateOf id = .pending) :
    (r.setState id .ready).Told := by
  refine ⟨h.keys.trans (keys_setState r id .ready).symm, fun x => ?_, h.id_eq⟩
  rw [find?_states_setState]
  refine (h.stateOf? x).trans ?_
  by_cases hx : x = id
  · subst x
    obtain ⟨s, hs⟩ := Table.mem_keys_iff.mp
      (mem_keys_of_stateOf (show r.stateOf id ≠ .skipped by simp [hid]))
    have hpending : s = .pending := by simpa [stateOf, hs] using hid
    simp [hs, hpending, TaskState.shown]
  · simp [hx]

def countDown (r : Run) (id : TaskId) : Run :=
  { r with remaining := r.remaining.modify id fun _ => r.left id - 1 }

theorem left_countDown (r : Run) (id x : TaskId) :
    (r.countDown id).left x = if x = id then r.left id - 1 else r.left x := by
  change ((r.remaining.modify id fun _ => r.left id - 1).find? x).getD 0 = _
  rw [Table.find?_modify]
  by_cases hx : x = id
  · subst x
    cases h : r.remaining.find? id <;> simp [left, h]
  · simp [hx, left]

theorem keys_countDown (r : Run) (id : TaskId) :
    (r.countDown id).remaining.keys = r.remaining.keys := by
  change (r.remaining.modify id fun _ => r.left id - 1).keys = _
  rw [Table.keys_modify]

theorem unlock_of_not_pending {r : Run} {id : TaskId} (h : r.stateOf id ≠ .pending) :
    r.unlock id = r := if_pos h

theorem unlock_of_opens {r : Run} {id : TaskId} (h : r.Opens id) :
    r.unlock id = { (r.countDown id).setState id .ready with ready := enqueue id r.ready } := by
  have hzero : (r.remaining.find? id).getD 0 - 1 = 0 := by
    have hle : (r.remaining.find? id).getD 0 ≤ 1 := h.2
    omega
  rw [unlock, if_neg (by simp [h.1]), countDown, show r.left id - 1 = 0 from hzero]
  simp only [hzero, if_true]

theorem unlock_of_more {r : Run} {id : TaskId} (hp : r.stateOf id = .pending)
    (h : ¬ r.left id ≤ 1) : r.unlock id = r.countDown id := by
  have hmore : (r.remaining.find? id).getD 0 - 1 ≠ 0 := by
    have hle : ¬ (r.remaining.find? id).getD 0 ≤ 1 := h
    omega
  rw [unlock, if_neg (by simp [hp])]
  simp only [hmore, if_false]
  rfl

theorem unlocks_of_opens {r : Run} {id : TaskId} (h : r.Opens id) : Unlocks [id] r (r.unlock id) := by
  have hkey : id ∈ r.states.keys := mem_keys_of_stateOf (by simp [h.1])
  rw [unlock_of_opens h]
  have hstate : ∀ x, ((r.countDown id).setState id .ready).stateOf x =
      Function.update r.stateOf id .ready x := congrFun (stateOf_setState (Or.inl hkey))
  refine ⟨rfl, rfl, rfl, rfl, rfl, keys_setState _ id .ready, keys_countDown r id,
    fun ht => .of_eq (told_ready ht h.1) rfl rfl, fun {x} hx _ => (hstate x).trans ?_,
    fun {x} hx => (hstate x).trans ?_, fun {x} hx _ => (left_countDown r id x).trans ?_,
    fun {x} hx => (left_countDown r id x).trans ?_, fun {x} => mem_enqueue.trans ?_,
    fun hr hs => ?_⟩
  · rw [List.mem_singleton.mp hx, Function.update_self]
  · exact Function.update_of_ne (fun e => hx ⟨List.mem_singleton.mpr e, e ▸ h⟩) _ _
  · rw [List.mem_singleton.mp hx, if_pos rfl]
  · exact if_neg fun e => hx ⟨List.mem_singleton.mpr e, e ▸ h.1⟩
  · rw [List.mem_singleton, or_comm]
    exact or_congr_right ⟨fun e => ⟨e, e ▸ h⟩, fun hx => hx.1⟩
  · exact pairwise_enqueue hs fun hm => by simpa [h.1] using hr id hm

theorem unlocks_of_more {r : Run} {id : TaskId} (hp : r.stateOf id = .pending)
    (h : ¬ r.left id ≤ 1) : Unlocks [id] r (r.unlock id) := by
  have hnot : ∀ {x}, ¬ (x ∈ [id] ∧ r.Opens x) := fun {x} hx =>
    h (List.mem_singleton.mp hx.1 ▸ hx.2.2)
  rw [unlock_of_more hp h]
  refine ⟨rfl, rfl, rfl, rfl, rfl, rfl, keys_countDown r id, fun h => .of_eq h rfl rfl,
    fun {x} hx ho => (hnot ⟨hx, ho⟩).elim, fun _ => rfl,
    fun {x} hx _ => (left_countDown r id x).trans ?_,
    fun {x} hx => (left_countDown r id x).trans ?_,
    ⟨Or.inl, fun h => h.resolve_right hnot⟩, fun _ hs => hs⟩
  · rw [List.mem_singleton.mp hx, if_pos rfl]
  · exact if_neg fun e => hx ⟨List.mem_singleton.mpr e, e ▸ hp⟩

theorem unlocks_single (r : Run) (id : TaskId) : Unlocks [id] r (r.unlock id) := by
  by_cases hp : r.stateOf id = .pending
  · by_cases ho : r.left id ≤ 1
    · exact unlocks_of_opens ⟨hp, ho⟩
    · exact unlocks_of_more hp ho
  · have hnot : ∀ {x}, ¬ (x ∈ [id] ∧ r.stateOf x = .pending) := fun {x} hx =>
      hp (List.mem_singleton.mp hx.1 ▸ hx.2)
    rw [unlock_of_not_pending hp]
    exact ⟨rfl, rfl, rfl, rfl, rfl, rfl, rfl, fun h => h, fun hx h => (hnot ⟨hx, h.1⟩).elim,
      fun _ => rfl, fun hx h => (hnot ⟨hx, h⟩).elim, fun _ => rfl,
      ⟨Or.inl, fun h => h.resolve_right fun hx => hnot ⟨hx.1, hx.2.1⟩⟩, fun _ hs => hs⟩

/-- Unlocking tasks one after the other does for each what unlocking it alone does. -/
theorem unlocks_foldl {l : List TaskId} (hnd : l.Nodup) (r : Run) :
    Unlocks l r (l.foldl unlock r) := by
  induction l generalizing r with
  | nil =>
    exact ⟨rfl, rfl, rfl, rfl, rfl, rfl, rfl, fun h => h, nofun, fun _ => rfl, nofun, fun _ => rfl,
      by simp, fun _ hs => hs⟩
  | cons id l ih =>
    obtain ⟨hid, hl⟩ := List.nodup_cons.mp hnd
    have h₁ := unlocks_single r id
    have h₂ := ih hl (r.unlock id)
    have hsame : ∀ {x}, x ∈ l → (r.unlock id).stateOf x = r.stateOf x ∧
        (r.unlock id).left x = r.left x := fun {x} hx => by
      have hne : x ∉ [id] := fun hm => hid (List.mem_singleton.mp hm ▸ hx)
      exact ⟨h₁.stateOf_other fun h => hne h.1, h₁.left_other fun h => hne h.1⟩
    have hopens : ∀ {x}, x ∈ l → ((r.unlock id).Opens x ↔ r.Opens x) := fun {x} hx => by
      rw [Opens, Opens, (hsame hx).1, (hsame hx).2]
    rw [List.foldl_cons]
    refine ⟨h₂.graph.trans h₁.graph, h₂.covered.trans h₁.covered, h₂.inFlight.trans h₁.inFlight,
      h₂.stopped.trans h₁.stopped, h₂.context.trans h₁.context, h₂.keys.trans h₁.keys,
      h₂.keys_remaining.trans h₁.keys_remaining, fun ht => h₂.told (h₁.told ht),
      fun {x} hx ho => ?_, fun {x} hx => ?_, fun {x} hx hp => ?_, fun {x} hx => ?_, fun {x} => ?_,
      fun hr hs => ?_⟩
    · by_cases hm : x ∈ l
      · exact h₂.stateOf_open hm ((hopens hm).mpr ho)
      · have hx : x ∈ [id] := List.mem_singleton.mpr ((List.mem_cons.mp hx).resolve_right hm)
        rw [h₂.stateOf_other fun h => hm h.1, h₁.stateOf_open hx ho]
    · rw [h₂.stateOf_other fun h => hx ⟨List.mem_cons_of_mem _ h.1, (hopens h.1).mp h.2⟩]
      refine h₁.stateOf_other fun h => hx ⟨?_, h.2⟩
      exact List.mem_singleton.mp h.1 ▸ List.mem_cons_self
    · by_cases hm : x ∈ l
      · rw [h₂.left_pending hm ((hsame hm).1.trans hp), (hsame hm).2]
      · have hx : x ∈ [id] := List.mem_singleton.mpr ((List.mem_cons.mp hx).resolve_right hm)
        rw [h₂.left_other fun h => hm h.1, h₁.left_pending hx hp]
    · rw [h₂.left_other fun h => hx ⟨List.mem_cons_of_mem _ h.1, (hsame h.1).1.symm.trans h.2⟩]
      refine h₁.left_other fun h => hx ⟨?_, h.2⟩
      exact List.mem_singleton.mp h.1 ▸ List.mem_cons_self
    · rw [h₂.mem_ready, h₁.mem_ready, List.mem_singleton, List.mem_cons, or_assoc]
      refine or_congr_right ⟨?_, ?_⟩
      · rintro (⟨hx, ho⟩ | ⟨hx, ho⟩)
        · exact ⟨Or.inl hx, ho⟩
        · exact ⟨Or.inr hx, (hopens hx).mp ho⟩
      · rintro ⟨hx | hx, ho⟩
        · exact Or.inl ⟨hx, ho⟩
        · exact Or.inr ⟨hx, (hopens hx).mpr ho⟩
    · refine h₂.pairwise_ready (fun x hx => ?_) (h₁.pairwise_ready hr hs)
      rcases h₁.mem_ready.mp hx with hx | ⟨hx, ho⟩
      · have hstate := hr x hx
        rw [h₁.stateOf_other fun h => by simp [Opens, hstate] at h, hstate]
      · exact h₁.stateOf_open hx ho

end Run

end Rollout
