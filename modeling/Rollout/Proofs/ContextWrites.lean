import Rollout.Proofs.LoopInvariant

/-! What writing the outputs of a task does to the context of a run, and what the operations of a run
leave alone. Only the completion of a task writes anything. -/

namespace Rollout

namespace Context

theorem write_of_free {c : Context} {key : String} (h : Table.find? c key = none) (producer : TaskId)
    (value : Json) : c.write key producer value = .ok (Table.insert c key ⟨producer, value⟩) := by
  simp [write, h]

theorem writeAll_of_free {c : Context} {producer : TaskId} {pairs : List (String × Json)}
    (hnd : (pairs.map Prod.fst).Nodup) (hfree : ∀ q ∈ pairs, Table.find? c q.1 = none) :
    (c.writeAll producer pairs).2 = none := by
  induction pairs generalizing c with
  | nil => rfl
  | cons q pairs ih =>
    obtain ⟨hq, hnd⟩ := List.nodup_cons.mp hnd
    rw [writeAll, write_of_free (hfree q List.mem_cons_self)]
    apply ih hnd
    intro q' hq'
    have hne : q'.1 ≠ q.1 := fun e => hq (e ▸ List.mem_map_of_mem hq')
    rw [Table.find?_insert, if_neg hne]
    exact hfree q' (List.mem_cons_of_mem _ hq')

/-- What a task leaves in a context: the pairs that it wrote, under keys that were free, beside the rest. -/
structure Extends (c : Context) (producer : TaskId) (kept : List (String × Json)) (c' : Context) :
    Prop where
  nodup : (kept.map Prod.fst).Nodup
  free : ∀ q ∈ kept, Table.find? c q.1 = none
  find?_iff : ∀ {key e}, Table.find? c' key = some e ↔
    Table.find? c key = some e ∨ e.producer = producer ∧ (key, e.value) ∈ kept

section Extends

variable {c c' : Context} {producer : TaskId} {kept : List (String × Json)} {key : String} {value : Json}

theorem Extends.refl (c : Context) (producer : TaskId) : Extends c producer [] c :=
  ⟨List.nodup_nil, nofun, by simp⟩

theorem Extends.cons (hfree : Table.find? c key = none)
    (h : Extends (Table.insert c key ⟨producer, value⟩) producer kept c') :
    Extends c producer ((key, value) :: kept) c' := by
  have hother : ∀ q ∈ kept, q.1 ≠ key ∧ Table.find? c q.1 = none := fun q hq => by
    have hnone := h.free q hq
    rw [Table.find?_insert] at hnone
    split_ifs at hnone with hkey
    exact ⟨hkey, hnone⟩
  refine ⟨?_, fun q hq => ?_, fun {k e} => ?_⟩
  · refine List.nodup_cons.mpr ⟨fun hm => ?_, h.nodup⟩
    obtain ⟨q, hq, hkey⟩ := List.mem_map.mp hm
    exact (hother q hq).1 hkey
  · rcases List.mem_cons.mp hq with rfl | hq
    · exact hfree
    · exact (hother q hq).2
  · rw [h.find?_iff, Table.find?_insert, List.mem_cons, Prod.mk.injEq]
    by_cases hkey : k = key
    · subst k
      have hnot : ∀ v, (key, v) ∉ kept := fun v hv => (hother _ hv).1 rfl
      obtain ⟨x, v⟩ := e
      simp [hfree, hnot, eq_comm]
    · simp [hkey]

theorem Extends.mono (h : Extends c producer kept c') {e : Entry}
    (he : Table.find? c key = some e) : Table.find? c' key = some e :=
  h.find?_iff.mpr (Or.inl he)

theorem Extends.find?_own (h : Extends c producer kept c')
    (hfresh : ∀ k e, Table.find? c k = some e → e.producer ≠ producer) :
    Table.find? c' key = some ⟨producer, value⟩ ↔ (key, value) ∈ kept := by
  rw [h.find?_iff, or_iff_right fun hold => hfresh key _ hold rfl]
  exact and_iff_right rfl

theorem Extends.find?_other (h : Extends c producer kept c') {e : Entry} (he : e.producer ≠ producer) :
    Table.find? c' key = some e ↔ Table.find? c key = some e := by
  rw [h.find?_iff, or_iff_left fun hnew => he hnew.1]

theorem extends_of_written {pairs : List (String × Json)}
    (h : c.writeAll producer pairs = (c', none)) : Extends c producer pairs c' := by
  induction pairs generalizing c with
  | nil =>
    obtain rfl := (Prod.mk.inj h).1
    exact .refl c producer
  | cons q pairs ih =>
    cases hq : Table.find? c q.1 with
    | some first => simp [writeAll, write, hq] at h
    | none =>
      rw [writeAll, write_of_free hq] at h
      exact .cons hq (ih h)

/-- Outputs that do not all get in: those before the first key that is taken do. -/
theorem extends_of_taken {pairs : List (String × Json)} {f : Fault}
    (h : c.writeAll producer pairs = (c', some f)) :
    ∃ kept key value rest first, pairs = kept ++ (key, value) :: rest ∧ Extends c producer kept c' ∧
      Table.find? c' key = some first ∧ f = .duplicate key first.producer producer := by
  induction pairs generalizing c with
  | nil => simp [writeAll] at h
  | cons q pairs ih =>
    cases hq : Table.find? c q.1 with
    | some first =>
      have hstop : (c, some (.duplicate q.1 first.producer producer)) = (c', some f) := by
        simpa [writeAll, write, hq] using h
      obtain ⟨rfl, hf⟩ := Prod.mk.inj hstop
      exact ⟨[], q.1, q.2, pairs, first, rfl, .refl c producer, hq, (Option.some.inj hf).symm⟩
    | none =>
      rw [writeAll, write_of_free hq] at h
      obtain ⟨kept, key, value, rest, first, rfl, hext, hheld, hf⟩ := ih h
      exact ⟨q :: kept, key, value, rest, first, rfl, .cons hq hext, hheld, hf⟩

theorem exists_extends_writeAll (c : Context) (producer : TaskId) (pairs : List (String × Json)) :
    ∃ kept, kept <+: pairs ∧ Extends c producer kept (c.writeAll producer pairs).1 := by
  cases hw : c.writeAll producer pairs with
  | mk c' fault =>
    cases fault with
    | none => exact ⟨pairs, List.prefix_refl _, extends_of_written hw⟩
    | some f =>
      obtain ⟨kept, key, value, rest, first, rfl, hext, -⟩ := extends_of_taken hw
      exact ⟨kept, List.prefix_append _ _, hext⟩

end Extends

/-- An entry was there before or is one of those written. -/
theorem find?_writeAll {c : Context} {producer : TaskId} {pairs : List (String × Json)} {key : String}
    {e : Entry} (h : Table.find? (c.writeAll producer pairs).1 key = some e) :
    Table.find? c key = some e ∨ e.producer = producer ∧ (key, e.value) ∈ pairs := by
  obtain ⟨kept, hkept, hext⟩ := exists_extends_writeAll c producer pairs
  exact (hext.find?_iff.mp h).imp_right fun hnew => ⟨hnew.1, hkept.subset hnew.2⟩

end Context

namespace Run

variable {r : Run} {id : TaskId}

/-- What no operation of a run ever changes, and what a stop leaves behind for good. -/
structure Continues (r r' : Run) : Prop where
  graph : r'.graph = r.graph
  covered : r'.covered = r.covered
  stopped : ∀ {s}, r.stopped = some s → r'.stopped = some s

theorem Continues.refl (r : Run) : Continues r r := ⟨rfl, rfl, id⟩

theorem Continues.trans {r r' r'' : Run} (h : Continues r r') (h' : Continues r' r'') :
    Continues r r'' :=
  ⟨h'.graph.trans h.graph, h'.covered.trans h.covered, fun hs => h'.stopped (h.stopped hs)⟩

theorem Continues.going {r r' : Run} (h : Continues r r') (hs : r'.stopped = none) : r.stopped = none := by
  cases hr : r.stopped with
  | none => rfl
  | some s => simp [h.stopped hr] at hs

theorem Framed.continues {r r' : Run} (h : Framed r r') : Continues r r' :=
  ⟨h.graph, h.covered, fun hs => h.stopped.trans hs⟩

theorem continues_stop (r : Run) (s : Stop) : Continues r (r.stop s) := by
  cases hs : r.stopped with
  | some old =>
    rw [stop_of_stopped (by simp [hs])]
    exact .refl r
  | none =>
    have hf := (foldl_skip_spec s.skipReason r.waiting r).1
    rw [stop_eq hs]
    exact ⟨hf.graph, hf.covered, fun he => by simp [hs] at he⟩

theorem stopped_stop (hs : r.stopped = none) (s : Stop) : (r.stop s).stopped = some s := by
  rw [stop_eq hs]

theorem stopped_stop_eq (r : Run) (s : Stop) : (r.stop s).stopped = r.stopped.or (some s) := by
  cases hs : r.stopped with
  | some old => exact (continues_stop r s).stopped hs
  | none => exact stopped_stop hs s

theorem continues_fail (now : Instant) (r : Run) (c : Context) (n : Nat) (id : TaskId)
    (diagnostic : String) :
    Continues r (fail now { r with inFlight := n, context := c } id diagnostic) := by
  have hf := (framed_fail now { r with inFlight := n, context := c } id diagnostic).continues
  exact ⟨hf.graph, hf.covered, hf.stopped⟩

theorem continues_complete (now : Instant) (r : Run) (id : TaskId) (c : Completion)
    (hv : r.graph.Valid) : Continues r (r.complete now id c) := by
  cases c with
  | succeeded outputs =>
    cases hw : r.context.writeAll id outputs.pairs with
    | mk context fault =>
      cases fault with
      | none =>
        rw [complete_written hw]
        have hu := unlocks_foldl (hv.nodup_successors id) (finishWell now context r id)
        exact ⟨hu.graph, hu.covered, fun hs => hu.stopped.trans hs⟩
      | some f =>
        rw [complete_taken hw]
        exact (continues_fail now r context _ id f.message).trans (continues_stop _ _)
  | failed diagnostic fatal =>
    have hfail := continues_fail now r r.context (r.inFlight - 1) id diagnostic
    rw [complete_failed]
    cases fatal with
    | false => exact hfail
    | true => exact hfail.trans (continues_stop _ _)

theorem continues_dispatch (now : Instant) (r : Run) (id : TaskId) (kind : Kind) :
    Continues r (r.dispatch now id kind).1 := by
  cases hc : r.covered kind with
  | false =>
    rw [dispatch_uncovered hc]
    have hf := framed_fail now { r with ready := r.ready.drop 1 } id
      ("no handler registered for task kind " ++ kind.name)
    exact ⟨hf.graph, hf.covered, fun hs => hf.stopped.trans hs⟩
  | true =>
    rw [dispatch_covered hc]
    exact ⟨rfl, rfl, fun hs => hs⟩

theorem context_dispatch (now : Instant) (r : Run) (id : TaskId) (kind : Kind) :
    (r.dispatch now id kind).1.context = r.context := by
  cases hc : r.covered kind with
  | false =>
    rw [dispatch_uncovered hc]
    exact (framed_fail now { r with ready := r.ready.drop 1 } id _).context
  | true =>
    rw [dispatch_covered hc]
    rfl

theorem context_fail (now : Instant) (r : Run) (id : TaskId) (diagnostic : String) :
    (fail now r id diagnostic).context = r.context :=
  (framed_fail now r id diagnostic).context

theorem context_stop (r : Run) (s : Stop) : (r.stop s).context = r.context := by
  cases hs : r.stopped with
  | some old => rw [stop_of_stopped (by simp [hs])]
  | none =>
    rw [stop_eq hs]
    exact (foldl_skip_spec s.skipReason r.waiting r).1.context

end Run

/-- What a task leaves under keys when it ended so. -/
def Completion.outputs : Completion → List (String × Json)
  | succeeded outputs => outputs.pairs
  | failed _ _ => []

theorem Run.context_complete (now : Instant) (r : Run) (id : TaskId) (c : Completion)
    (hv : r.graph.Valid) :
    (r.complete now id c).context = (r.context.writeAll id c.outputs).1 := by
  cases c with
  | succeeded outputs =>
    rw [Completion.outputs]
    cases hw : r.context.writeAll id outputs.pairs with
    | mk context fault =>
      cases fault with
      | none =>
        rw [complete_written hw]
        exact (unlocks_foldl (hv.nodup_successors id) (finishWell now context r id)).context
      | some f =>
        rw [complete_taken hw, context_stop]
        exact context_fail now _ id f.message
  | failed diagnostic fatal =>
    rw [complete_failed]
    cases fatal with
    | false => exact context_fail now _ id diagnostic
    | true => exact (context_stop _ _).trans (context_fail now _ id diagnostic)

namespace Loop

variable {g : Graph} {limit : Nat} {l l' : Loop} {actions : List Action} {a : Action}

theorem Moves.continues {r r' : Run} (hv : r.graph.Valid) (m : Moves r a r') : Run.Continues r r' := by
  cases m with
  | still other => exact .refl r
  | stop other why => exact Run.continues_stop r _
  | turn now action first task => exact Run.continues_dispatch now r _ _
  | taken now c running => exact Run.continues_complete now r _ c hv

theorem Sound.continues (hv : g.Valid) (hs : Sound g limit l) (s : Step l a l') :
    Run.Continues l.run l'.run :=
  (hs.moves s).continues (hs.coherent.graph_eq ▸ hv)

theorem Sound.continues_path (hv : g.Valid) (hs : Sound g limit l) (p : Path l actions l') :
    Run.Continues l.run l'.run := by
  induction p with
  | refl => exact .refl _
  | snoc p s ih => exact ih.trans ((hs.path hv p).continues hv s)

def Action.write : Action → Context → Context
  | handle id c, context => (context.writeAll id c.outputs).1
  | _, context => context

theorem Action.write_of_other (h : ∀ id c, a ≠ .handle id c) (context : Context) :
    a.write context = context := by
  cases a with
  | handle id c => exact absurd rfl (h id c)
  | _ => rfl

theorem Moves.context {r r' : Run} (hv : r.graph.Valid) (m : Moves r a r') :
    r'.context = a.write r.context := by
  cases m with
  | still other => exact (Action.write_of_other other _).symm
  | stop other why => rw [Action.write_of_other other, Run.context_stop]
  | turn now action first task =>
    rw [Action.write_of_other (by rcases action with rfl | rfl <;> simp), Run.context_dispatch]
  | taken now c running => exact Run.context_complete now r _ c hv

theorem Sound.context_eq (hv : g.Valid) (hs : Sound g limit l) (s : Step l a l') :
    l'.run.context = a.write l.run.context :=
  (hs.moves s).context (hs.coherent.graph_eq ▸ hv)

end Loop

end Rollout
