import Rollout.Proofs.ContextWrites
import Rollout.Proofs.DependencySafety
import Rollout.Proofs.RunUnfolding

/-! What becomes of what handlers ended with. Each completion that the loop takes in settles its task for
good: the outputs are stored, or the task fails with them or with a diagnostic of its own. -/

namespace Rollout

open Context (Extends)

/-- The values in a context that one task left are these. -/
structure Context.Holds (c : Context) (id : TaskId) (pairs : List (String × Json)) : Prop where
  nodup : (pairs.map Prod.fst).Nodup
  find?_iff : ∀ {key value}, Table.find? c key = some ⟨id, value⟩ ↔ (key, value) ∈ pairs

namespace Context

variable {c c' : Context} {id producer : TaskId} {kept pairs : List (String × Json)}

theorem Extends.holds (h : Extends c id kept c')
    (hfresh : ∀ key e, Table.find? c key = some e → e.producer ≠ id) : c'.Holds id kept :=
  ⟨h.nodup, h.find?_own hfresh⟩

theorem Extends.holds_other (h : Extends c producer kept c') (hne : id ≠ producer)
    (hold : c.Holds id pairs) : c'.Holds id pairs :=
  ⟨hold.nodup, (h.find?_other hne).trans hold.find?_iff⟩

end Context

namespace Run

variable {g : Graph} {r r' : Run} {id : TaskId} {c : Completion}

/-- What a task was left with: its state and what it is said to have failed of. -/
def verdict? (r : Run) (id : TaskId) : Option (TaskState × Option String) :=
  (r.tally.outcomes.find? id).map fun o => (o.state, o.diagnostic)

/-- What a completion leaves in a run for good. Outputs are stored up to the first key that is taken. -/
inductive Settled (r : Run) (id : TaskId) : Completion → Prop
  | stored {outputs : Outputs} (verdict : r.verdict? id = some (.done, none))
      (entries : r.context.Holds id outputs.pairs) : Settled r id (.succeeded outputs)
  | taken {outputs : Outputs} {kept rest : List (String × Json)} {key : String} {value : Json}
      {first : Context.Entry} (split : outputs.pairs = kept ++ (key, value) :: rest)
      (held : Table.find? r.context key = some first)
      (verdict : r.verdict? id =
        some (.failed, some (Context.Fault.duplicate key first.producer id).message))
      (entries : r.context.Holds id kept) (stopped : r.stopped.isSome = true) :
      Settled r id (.succeeded outputs)
  | failed {diagnostic : String} {fatal : Bool}
      (verdict : r.verdict? id = some (.failed, some diagnostic)) (entries : r.context.Holds id [])
      (stopped : fatal = true → r.stopped.isSome = true) : Settled r id (.failed diagnostic fatal)

theorem Settled.keep (h : r.Settled id c)
    (hverdict : ∀ {s d}, s.isTerminal = true → r.verdict? id = some (s, d) →
      r'.verdict? id = some (s, d))
    (hentries : ∀ {pairs}, r.context.Holds id pairs → r'.context.Holds id pairs)
    (hheld : ∀ {key e}, Table.find? r.context key = some e → Table.find? r'.context key = some e)
    (hstopped : r.stopped.isSome = true → r'.stopped.isSome = true) : r'.Settled id c := by
  cases h with
  | stored verdict entries => exact .stored (hverdict rfl verdict) (hentries entries)
  | taken split held verdict entries stopped =>
    exact .taken split (hheld held) (hverdict rfl verdict) (hentries entries) (hstopped stopped)
  | failed verdict entries stopped =>
    exact .failed (hverdict rfl verdict) (hentries entries) fun hf => hstopped (stopped hf)

theorem Unfolds.find?_of_terminal (h : Unfolds g r r') {o : Outcome}
    (ho : r.tally.outcomes.find? id = some o) (hs : o.state.isTerminal = true) :
    r'.tally.outcomes.find? id = some o := by
  obtain ⟨o', ho', hle⟩ := h.stage ho
  rcases hle with rfl | hlt
  · exact ho'
  · cases hs' : o.state <;> cases hs'' : o'.state <;>
      simp_all [TaskState.stage, TaskState.isTerminal]

theorem Unfolds.verdict?_eq (h : Unfolds g r r') {s : TaskState} {d : Option String}
    (hs : s.isTerminal = true) (hd : r.verdict? id = some (s, d)) : r'.verdict? id = some (s, d) := by
  obtain ⟨o, ho, he⟩ := Option.map_eq_some_iff.mp hd
  obtain ⟨rfl, rfl⟩ := Prod.mk.inj he
  rw [verdict?, h.find?_of_terminal ho hs]
  rfl

theorem Continues.isSome_stopped (h : Continues r r') (hs : r.stopped.isSome = true) :
    r'.stopped.isSome = true := by
  obtain ⟨s, he⟩ := Option.isSome_iff_exists.mp hs
  exact Option.isSome_iff_exists.mpr ⟨s, h.stopped he⟩

theorem verdict?_mark (hid : id ∈ r.tally.outcomes.keys) {s : TaskState} {d : Option String}
    {f : Outcome → Outcome} (hf : ∀ o, (f o).state = s ∧ (f o).diagnostic = d) (e : Event) :
    (r.mark id s f e).verdict? id = some (s, d) := by
  obtain ⟨o, ho⟩ := Table.mem_keys_iff.mp hid
  rw [verdict?, find?_outcomes_mark, if_pos rfl, ho, Option.map_some, Option.map_some, (hf o).1, (hf o).2]

theorem verdict?_finishWell (hid : id ∈ r.tally.outcomes.keys) (now : Instant) (context : Context) :
    (finishWell now context r id).verdict? id = some (.done, none) := by
  refine verdict?_mark (r := { r with inFlight := r.inFlight - 1, context := context }) hid ?_ _
  exact fun _ => ⟨rfl, rfl⟩

theorem verdict?_fail (h : r.Told) (hid : id ∈ r.tally.outcomes.keys) (now : Instant)
    (diagnostic : String) : (fail now r id diagnostic).verdict? id = some (.failed, some diagnostic) := by
  rw [fail_eq]
  refine (unfolds_foldl_skipPending (g := r.graph) _ _ (told_mark h ?_ _)).verdict?_eq rfl
    (verdict?_mark hid ?_ _)
  · exact fun _ => ⟨rfl, rfl⟩
  · exact fun _ => ⟨rfl, rfl⟩

theorem Coherent.verdict?_failed (h : Coherent g r) (hid : r.stateOf id = .running) (context : Context)
    (now : Instant) (diagnostic : String) :
    (fail now { r with inFlight := r.inFlight - 1, context := context } id diagnostic).verdict? id =
      some (.failed, some diagnostic) :=
  verdict?_fail (r := { r with inFlight := r.inFlight - 1, context := context })
    (.of_eq h.told rfl rfl) (h.told.keys ▸ mem_keys_of_stateOf (by simp [hid])) now diagnostic

theorem Coherent.settled (hv : g.Valid) (h : Coherent g r) (hid : r.stateOf id = .running)
    (hfresh : ∀ key e, Table.find? r.context key = some e → e.producer ≠ id) (now : Instant)
    (c : Completion) : (r.complete now id c).Settled id c := by
  have hkey : id ∈ r.tally.outcomes.keys := h.told.keys ▸ mem_keys_of_stateOf (by simp [hid])
  have hcontext := context_complete now r id c (h.graph_eq ▸ hv)
  have hfailed := fun context => h.verdict?_failed hid context now
  cases c with
  | succeeded outputs =>
    cases hw : r.context.writeAll id outputs.pairs with
    | mk context fault =>
      rw [Completion.outputs, hw] at hcontext
      change _ = context at hcontext
      cases fault with
      | none =>
        refine .stored ?_ (hcontext ▸ (Context.extends_of_written hw).holds hfresh)
        rw [complete_written hw]
        exact (unfolds_foldl_unlock (g := g) _ _).verdict?_eq rfl
          (verdict?_finishWell hkey now context)
      | some f =>
        obtain ⟨kept, key, value, rest, first, hsplit, hext, hheld, rfl⟩ :=
          Context.extends_of_taken hw
        refine .taken hsplit (hcontext ▸ hheld) ?_ (hcontext ▸ hext.holds hfresh) ?_
        · -- the stop that follows leaves tasks alone that have failed
          rw [complete_taken hw]
          exact ((h.fail_running hv hid context now _).unfolds_stop hv _).verdict?_eq rfl
            (hfailed context _)
        · rw [complete_taken hw, stopped_stop_eq]
          simp
  | failed diagnostic fatal =>
    refine .failed ?_ (hcontext ▸ (Extends.refl r.context id).holds hfresh) fun hf => ?_
    · rw [complete_failed]
      cases fatal with
      | false => exact hfailed r.context diagnostic
      | true =>
        exact ((h.fail_running hv hid r.context now diagnostic).unfolds_stop hv _).verdict?_eq rfl
          (hfailed r.context diagnostic)
    · simp [complete_failed, hf, stopped_stop_eq]

theorem Told.find?_of_verdict (h : r.Told) {s : TaskState} {d : Option String}
    (hd : r.verdict? id = some (s, d)) (hs : s ≠ .pending) : r.states.find? id = some s := by
  obtain ⟨o, ho, he⟩ := Option.map_eq_some_iff.mp hd
  have hstate := h.stateOf? id
  rw [Tally.stateOf?, ho, Option.map_some, (Prod.mk.inj he).1] at hstate
  obtain ⟨s', hs', hshown⟩ := Option.map_eq_some_iff.mp hstate.symm
  rw [hs']
  cases s' <;> simp_all [TaskState.shown]

end Run

theorem Ending.eq_finished {e : Ending} {o : Outputs} (h : e.completion = .succeeded o) :
    e = .finished o := by
  cases e with
  | finished o' => rw [Completion.succeeded.inj h]
  | failed f => cases h
  | panicked message => cases h

namespace Loop

/-- What a handler ended with, as the loop will see it. -/
def Action.reported? : Action → Option (TaskId × Completion)
  | ended id e => some (id, e.completion)
  | _ => none

def Action.taken? : Action → Option (TaskId × Completion)
  | handle id c => some (id, c)
  | _ => none

def reported (actions : List Action) : List (TaskId × Completion) :=
  actions.filterMap Action.reported?

def taken (actions : List Action) : List (TaskId × Completion) := actions.filterMap Action.taken?

variable {g : Graph} {limit : Nat} {l l' : Loop} {actions : List Action} {a : Action} {id : TaskId}
  {c : Completion}

theorem mem_reported_iff : (id, c) ∈ reported actions ↔ ∃ e, .ended id e ∈ actions ∧ e.completion = c := by
  rw [reported, List.mem_filterMap]
  constructor
  · rintro ⟨a, ha, he⟩
    cases a with
    | ended x e =>
      obtain ⟨rfl, rfl⟩ := Prod.mk.inj (Option.some.inj he)
      exact ⟨e, ha, rfl⟩
    | _ => cases he
  · rintro ⟨e, he, rfl⟩
    exact ⟨.ended id e, he, rfl⟩

theorem mem_reported_succeeded {o : Outputs} :
    (id, .succeeded o) ∈ reported actions ↔ .ended id (.finished o) ∈ actions := by
  rw [mem_reported_iff]
  constructor
  · rintro ⟨e, he, hc⟩
    rwa [Ending.eq_finished hc] at he
  · exact fun he => ⟨_, he, rfl⟩

theorem handled_eq (actions : List Action) : handled actions = (taken actions).map Prod.fst := by
  rw [handled, taken, List.map_filterMap]
  congr 1
  funext a
  cases a <;> rfl

/-- What was taken in up to some point of a run, and what became of it. -/
structure Account (actions : List Action) (l : Loop) : Prop where
  reported_perm : (reported actions).Perm (taken actions ++ l.arrived)
  written : ∀ {key e}, Table.find? l.run.context key = some e → e.producer ∈ handled actions
  settled : ∀ {id c}, (id, c) ∈ taken actions → l.run.Settled id c

theorem reported_snoc (actions : List Action) (a : Action) :
    reported (actions ++ [a]) = reported actions ++ a.reported?.toList :=
  filterMap_snoc _ actions a

theorem taken_snoc (actions : List Action) (a : Action) :
    taken (actions ++ [a]) = taken actions ++ a.taken?.toList :=
  filterMap_snoc _ actions a

theorem Account.quiet (h : Account actions l) (hunfolds : Run.Unfolds g l.run l'.run)
    (hcontinues : Run.Continues l.run l'.run) (htaken : a.taken? = none)
    (harrived : l'.arrived = l.arrived ++ a.reported?.toList)
    (hcontext : l'.run.context = l.run.context) : Account (actions ++ [a]) l' := by
  have hsame : taken (actions ++ [a]) = taken actions := by
    rw [taken_snoc, htaken, Option.toList_none, List.append_nil]
  refine ⟨?_, fun he => ?_, fun hc => ?_⟩
  · rw [hsame, harrived, reported_snoc, ← List.append_assoc]
    exact h.reported_perm.append_right _
  · rw [handled_eq, hsame, ← handled_eq]
    exact h.written (hcontext ▸ he)
  · refine (h.settled (hsame ▸ hc)).keep hunfolds.verdict?_eq ?_ ?_ hcontinues.isSome_stopped
    · exact fun hold => hcontext ▸ hold
    · exact fun hold => hcontext ▸ hold

theorem Ledger.not_mem_handled (h : Ledger actions l) (hid : id ∈ l.underway) :
    id ∉ handled actions := by
  have hnd := h.dispatched_perm.nodup_iff.mp (List.Nodup.of_append_left h.nodup)
  exact fun hm => (List.nodup_append.mp hnd).2.2 id hm id hid rfl

theorem Ledger.running (hs : Sound g limit l) (h : Ledger actions l) (hd : id ∈ dispatched actions)
    (hid : id ∉ handled actions) : l.run.stateOf id = .running :=
  hs.mem_underway.mp ((List.mem_append.mp (h.dispatched_perm.mem_iff.mp hd)).resolve_left hid)

theorem Account.handle (hv : g.Valid) (hs : Sound g limit l) (hl : Ledger actions l)
    (h : Account actions l) {before after : List (TaskId × Completion)} (now : Instant)
    (place : l.place = .waiting) (split : l.arrived = before ++ (id, c) :: after) :
    Account (actions ++ [.handle id c])
      { l with run := l.run.complete now id c, arrived := before ++ after, place := .top } := by
  have s : Step l (.handle id c) _ := .handle now place split
  have hunder := mem_underway_of_arrived split
  have hid := hs.mem_underway.mp hunder
  have hnot := hl.not_mem_handled hunder
  have hfresh : ∀ key e, Table.find? l.run.context key = some e → e.producer ≠ id :=
    fun key e he hp => hnot (hp ▸ h.written he)
  have htaken : taken (actions ++ [.handle id c]) = taken actions ++ [(id, c)] := taken_snoc actions _
  have hcontext := hs.context_eq hv s
  obtain ⟨kept, -, hext⟩ := Context.exists_extends_writeAll l.run.context id c.outputs
  change _ = (l.run.context.writeAll id c.outputs).1 at hcontext
  rw [← hcontext] at hext
  refine ⟨?_, fun he => ?_, fun {x d} hc => ?_⟩
  · have hmove : (taken actions ++ l.arrived).Perm (taken actions ++ [(id, c)] ++ (before ++ after)) := by
      rw [split, List.append_assoc]
      exact List.perm_middle.append_left _
    rw [htaken, reported_snoc]
    simpa only [Action.reported?, Option.toList_none, List.append_nil] using
      h.reported_perm.trans hmove
  · rw [handled_eq, htaken, List.map_append, ← handled_eq]
    rcases hext.find?_iff.mp he with hold | ⟨hnew, -⟩
    · exact List.mem_append_left _ (h.written hold)
    · exact List.mem_append_right _ (List.mem_singleton.mpr hnew)
  · rw [htaken] at hc
    rcases List.mem_append.mp hc with hc | hc
    · -- settled before, and no entry that is written now is one of its own
      have hne : x ≠ id := fun e => hnot (e ▸ handled_eq actions ▸ List.mem_map_of_mem hc)
      exact (h.settled hc).keep ((hs.unfolds hv s).verdict?_eq) (hext.holds_other hne) hext.mono
        (hs.continues hv s).isSome_stopped
    · obtain ⟨rfl, rfl⟩ := Prod.mk.inj (List.mem_singleton.mp hc)
      exact hs.coherent.settled hv hid hfresh now d

theorem Account.step (hv : g.Valid) (hs : Sound g limit l) (hl : Ledger actions l)
    (h : Account actions l) (s : Step l a l') : Account (actions ++ [a]) l' := by
  have hcontext := hs.context_eq hv s
  have hunfolds := hs.unfolds hv s
  have hcontinues := hs.continues hv s
  cases s with
  | handle now place split => exact h.handle hv hs hl now place split
  | ended e call => exact h.quiet hunfolds hcontinues rfl rfl hcontext
  | check place =>
    refine h.quiet hunfolds hcontinues rfl ?_ hcontext
    exact l.check_arrived.trans (List.append_nil _).symm
  | dispatch | refuse | wait | leave | heedCancel | heedDeadline | cancel | expire =>
    exact h.quiet hunfolds hcontinues rfl (List.append_nil _).symm hcontext

theorem account_start (runId : String) (g : Graph) (handlers : Registry) (limits : Run.Limits)
    (now : Instant) : Account [] (start runId g handlers limits now) :=
  ⟨.refl _, nofun, nofun⟩

theorem Account.path (hv : g.Valid) (hs : Sound g limit l) (hl : Ledger actions l)
    (h : Account actions l) {more : List Action} (p : Path l more l') :
    Account (actions ++ more) l' := by
  induction p with
  | refl =>
    rw [List.append_nil]
    exact h
  | snoc p s ih =>
    rw [← List.append_assoc]
    exact ih.step hv (hs.path hv p) (hl.path hv hs p) s

theorem account_of_path (hv : g.Valid) {runId : String} {handlers : Registry} {limits : Run.Limits}
    {now : Instant} (path : Path (start runId g handlers limits now) actions l) : Account actions l :=
  (account_start runId g handlers limits now).path hv (sound_start hv runId handlers limits now)
    (ledger_start runId g handlers limits now) path

/-- Whatever is in the context was left by a task that ended well, and whose outputs were taken in. -/
theorem Account.origin (h : Account actions l) {key : String} {e : Context.Entry}
    (he : Table.find? l.run.context key = some e) :
    ∃ o : Outputs, .ended e.producer (.finished o) ∈ actions ∧
      l.run.Settled e.producer (.succeeded o) := by
  have hm := h.written he
  rw [handled_eq] at hm
  obtain ⟨⟨x, c⟩, hc, rfl⟩ := List.mem_map.mp hm
  have hsettled := h.settled hc
  cases c with
  | succeeded o =>
    have hreported := h.reported_perm.mem_iff.mpr (List.mem_append_left l.arrived hc)
    exact ⟨o, mem_reported_succeeded.mp hreported, hsettled⟩
  | failed diagnostic fatal =>
    cases hsettled with
    | failed verdict entries stopped => exact absurd (entries.find?_iff.mp he) List.not_mem_nil

theorem Account.settled_of_reported (hs : Sound g limit l) (h : Account actions l)
    (hc : (id, c) ∈ reported actions) (hid : l.run.stateOf id ≠ .running) : l.run.Settled id c := by
  rcases List.mem_append.mp (h.reported_perm.mem_iff.mp hc) with hc | hc
  · exact h.settled hc
  · refine absurd (hs.mem_underway.mp ?_) hid
    exact List.mem_append_right _ (List.mem_map_of_mem hc)

end Loop

end Rollout
