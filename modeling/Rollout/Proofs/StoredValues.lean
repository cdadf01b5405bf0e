import Rollout.Proofs.Settlement

/-! Where the values in the context of a run come from. Mostly their tasks are done; but a task that fails
because one of its keys is held by another task keeps the values that it had written by then. -/

namespace Rollout.Loop

variable {g : Graph} {limit : Nat} {l : Loop} {actions : List Action}

/-- Outputs of which this value was stored although a later key was held, by another task if the keys of
the outputs are distinct. -/
def CutShort (c : Context) (id : TaskId) (o : Outputs) (key : String) (value : Json) : Prop :=
  ∃ kept key' value' rest first, o.pairs = kept ++ (key', value') :: rest ∧ (key, value) ∈ kept ∧
    Table.find? c key' = some first ∧ (o.keys.Nodup → first.producer ≠ id)

theorem CutShort.of_holds {c : Context} {id : TaskId} {o : Outputs} {kept rest : List (String × Json)}
    {key key' : String} {value value' : Json} {first : Context.Entry}
    (hsplit : o.pairs = kept ++ (key', value') :: rest) (hholds : c.Holds id kept)
    (hkey : (key, value) ∈ kept) (hheld : Table.find? c key' = some first) :
    CutShort c id o key value := by
  refine ⟨kept, key', value', rest, first, hsplit, hkey, hheld, fun hnd hown => ?_⟩
  -- the task itself would have written the key, before it came to it
  obtain ⟨producer, w⟩ := first
  obtain rfl : producer = id := hown
  have hearlier : key' ∈ kept.map Prod.fst := List.mem_map_of_mem (hholds.find?_iff.mp hheld)
  rw [Table.keys, hsplit, List.map_append] at hnd
  exact (List.nodup_append.mp hnd).2.2 key' hearlier key' (by simp) rfl

theorem stored_values {p : Plan} (h : Graph.ofPlan p = .ok g) {runId : String} {handlers : Registry}
    {limits : Run.Limits} {now : Instant}
    (path : Path (start runId g handlers limits now) actions l) {key : String} {e : Context.Entry}
    (he : Table.find? l.run.context key = some e) :
    ∃ o : Outputs, .ended e.producer (.finished o) ∈ actions ∧ (key, e.value) ∈ o.pairs ∧
      (l.run.states.find? e.producer = some .done ∨
        l.run.states.find? e.producer = some .failed ∧ l.run.stopped.isSome = true ∧
          CutShort l.run.context e.producer o key e.value) := by
  have hv := Graph.valid_of_ofPlan h
  have htold := (sound_of_path hv path).coherent.told
  obtain ⟨o, ho, hsettled⟩ := (account_of_path hv path).origin he
  refine ⟨o, ho, ?_⟩
  cases hsettled with
  | stored verdict entries =>
    exact ⟨entries.find?_iff.mp he, Or.inl (htold.find?_of_verdict verdict (by simp))⟩
  | taken split held verdict entries stopped =>
    have hkey := entries.find?_iff.mp he
    have hfailed := htold.find?_of_verdict verdict (by simp)
    exact ⟨split ▸ List.mem_append_left _ hkey,
      Or.inr ⟨hfailed, stopped, .of_holds split entries hkey held⟩⟩

/-- Two tasks side by side. -/
def pairPlan : Plan :=
  ⟨"pair", [⟨1, .createNamespace "blue", [], []⟩, ⟨2, .createNamespace "green", [], []⟩]⟩

def pair : Loop :=
  start "run" (.index "pair" (Graph.taskTable pairPlan))
    (Kind.all.map fun k => (k, fun _ _ => .done (.finished .empty))) ⟨0, none⟩ default

/-- The second task leaves a value under a key of its own and one under the key of the first. -/
theorem path_pair : ∃ actions l, Path pair actions l ∧ l.run.states.find? 2 = some .failed ∧
    Table.find? l.run.context "a" = some ⟨2, .null⟩ := by
  have h₁ := Path.snoc (.refl pair) (.check rfl)
  have h₂ := h₁.snoc (a := .dispatch 1) (.dispatch default rfl rfl rfl rfl rfl)
  have h₃ := h₂.snoc (.wait rfl rfl rfl)
  have h₄ := h₃.snoc (.ended (.finished (.ofList [("b", .null)])) List.mem_cons_self)
  have h₅ := h₄.snoc (.handle default rfl (List.nil_append _).symm)
  have h₆ := h₅.snoc (.check rfl)
  have h₇ := h₆.snoc (a := .dispatch 2) (.dispatch default rfl rfl rfl rfl rfl)
  have h₈ := h₇.snoc (.wait rfl rfl rfl)
  have h₉ := h₈.snoc (.ended (.finished (.ofList [("a", .null), ("b", .null)])) List.mem_cons_self)
  exact ⟨_, _, h₉.snoc (.handle default rfl (List.nil_append _).symm), rfl, rfl⟩

/-- Not every value in a context belongs to a task that is done. -/
theorem stored_values_of_failed : ¬ ∀ actions l, Path pair actions l → ∀ key e,
    Table.find? l.run.context key = some e → l.run.states.find? e.producer = some .done := by
  intro hall
  obtain ⟨actions, l, path, hfailed, he⟩ := path_pair
  have hdone := hall actions l path "a" _ he
  rw [hfailed] at hdone
  cases hdone

theorem stored_values_pair : ∃ actions l o, Path pair actions l ∧ .ended 2 (.finished o) ∈ actions ∧
    l.run.stopped.isSome = true ∧ CutShort l.run.context 2 o "a" .null := by
  obtain ⟨actions, l, path, hfailed, he⟩ := path_pair
  obtain ⟨o, ho, -, hdone | ⟨-, hstopped, hcut⟩⟩ := stored_values (p := pairPlan) rfl path he
  · rw [hfailed] at hdone
    cases hdone
  · exact ⟨actions, l, o, path, ho, hstopped, hcut⟩

end Rollout.Loop
