import Rollout.Proofs.AncestorIndex
import Rollout.Proofs.Settlement

/-! What a task reads while it runs. A read gives what an ancestor of the task left when it ended well, and
nothing that other tasks write in the meantime makes a difference to it. -/

namespace Rollout

namespace Context

variable {p : Plan} {g : Graph} {c c' : Context} {key : String} {v : Json} {t : TaskId}

theorem read_eq_ok_iff (h : Graph.ofPlan p = .ok g) :
    read g t c key = .ok v ↔ ∃ a, g.Before a t ∧ Table.find? c key = some ⟨a, v⟩ := by
  rw [read]
  cases hf : Table.find? c key with
  | none => simp
  | some e =>
    obtain ⟨a, w⟩ := e
    have hup : g.isUpstream a t = true ↔ g.Before a t := by
      rw [← Graph.mem_upstream_iff h, Graph.isUpstream, decide_eq_true_eq]
    by_cases ha : g.isUpstream a t = true
    · simp [ha, hup.mp ha]
    · simp [ha, mt hup.mpr ha]

/-- What a task writes that does not come before the reader is not seen, not even in part. -/
theorem Extends.read_iff (h : Graph.ofPlan p = .ok g) {id : TaskId} {kept : List (String × Json)}
    (hext : Extends c id kept c') (hnot : ¬ g.Before id t) :
    read g t c' key = .ok v ↔ read g t c key = .ok v := by
  rw [read_eq_ok_iff h, read_eq_ok_iff h]
  refine exists_congr fun a => and_congr_right fun ha => hext.find?_other ?_
  exact fun e => hnot (e ▸ ha)

end Context

namespace Loop

open Context (read)

variable {p : Plan} {g : Graph} {limit : Nat} {l l' : Loop} {actions : List Action} {a : Action}
  {t x : TaskId} {key : String} {v : Json}

/-- A strict ancestor of a task that is done and that had this value among its outputs. -/
structure Provides (g : Graph) (actions : List Action) (l : Loop) (t : TaskId) (key : String)
    (a : TaskId) (v : Json) : Prop where
  before : g.Before a t
  done : l.run.states.find? a = some .done
  output : ∃ o : Outputs, .ended a (.finished o) ∈ actions ∧ o.find? key = some v

theorem Sound.not_before (hs : Sound g limit l) {id : TaskId} (hid : l.run.stateOf id = .running)
    (ht : l.run.stateOf t = .running) : ¬ g.Before id t := fun hb => by
  have hdone := hs.coherent.done_before (by simp [ht, TaskState.isUnlocked]) hb
  simp [hid] at hdone

theorem Account.holds_of_done (hs : Sound g limit l) (h : Account actions l) {o : Outputs}
    (hx : l.run.stateOf x = .done) (ho : .ended x (.finished o) ∈ actions) :
    l.run.context.Holds x o.pairs := by
  have hsettled := h.settled_of_reported hs (mem_reported_succeeded.mpr ho) (by simp [hx])
  cases hsettled with
  | stored verdict entries => exact entries
  | taken split held verdict entries stopped =>
    have hfailed := hs.coherent.told.find?_of_verdict verdict (by simp)
    rw [Run.stateOf_of_find? hfailed] at hx
    cases hx

theorem Provides.find?_context (hp : Provides g actions l t key x v) (hs : Sound g limit l)
    (h : Account actions l) : Table.find? l.run.context key = some ⟨x, v⟩ := by
  obtain ⟨o, ho, hf⟩ := hp.output
  exact (h.holds_of_done hs (Run.stateOf_of_find? hp.done) ho).find?_iff.mpr
    (Table.mem_pairs_of_find? hf)

theorem Account.read_iff (hg : Graph.ofPlan p = .ok g) (hs : Sound g limit l) (h : Account actions l)
    (ht : l.run.stateOf t = .running) (key : String) (v : Json) :
    read g t l.run.context key = .ok v ↔ ∃ a, Provides g actions l t key a v := by
  have hv := Graph.valid_of_ofPlan hg
  rw [Context.read_eq_ok_iff hg]
  refine exists_congr fun x => ⟨fun ⟨hb, he⟩ => ?_, fun hp => ⟨hp.before, hp.find?_context hs h⟩⟩
  have hdone := hs.coherent.done_before (by simp [ht, TaskState.isUnlocked]) hb
  obtain ⟨o, ho, -⟩ := h.origin he
  have hholds := h.holds_of_done hs hdone ho
  refine ⟨hb, ?_, o, ho, (Table.find?_eq_some_iff hholds.nodup).mpr (hholds.find?_iff.mp he)⟩
  rw [hs.coherent.find?_states (hv.before_mem_ids hb).1, hdone]

theorem Sound.read_step (hg : Graph.ofPlan p = .ok g) (hs : Sound g limit l) (s : Step l a l')
    (ht : l.run.stateOf t = .running) (key : String) (v : Json) :
    read g t l'.run.context key = .ok v ↔ read g t l.run.context key = .ok v := by
  rw [hs.context_eq (Graph.valid_of_ofPlan hg) s]
  cases s with
  | @handle id c before after now place split =>
    obtain ⟨kept, -, hext⟩ := Context.exists_extends_writeAll l.run.context id c.outputs
    exact hext.read_iff hg (hs.not_before (hs.mem_underway.mp (mem_underway_of_arrived split)) ht)
  | _ => exact Iff.rfl

theorem Sound.read_path (hg : Graph.ofPlan p = .ok g) (hs : Sound g limit l) {more : List Action}
    (path : Path l more l') (ht : l.run.stateOf t = .running) (ht' : l'.run.stateOf t = .running)
    (key : String) (v : Json) :
    read g t l'.run.context key = .ok v ↔ read g t l.run.context key = .ok v := by
  have hv := Graph.valid_of_ofPlan hg
  induction path with
  | refl => exact Iff.rfl
  | @snoc m n more a path s ih =>
    have hm := hs.path hv path
    -- a reader that runs now was running all the time
    have hbetween := hs.leads_path hv path t
    have hlast := hm.leads hv s t
    rw [ht] at hbetween
    rw [ht'] at hlast
    have hrunning := hbetween.eq_running hlast
    exact (hm.read_step hg s hrunning key v).trans (ih hrunning)

/-- From the start of a task until its completion is handled, its reads are a matter of its ancestors:
they change neither with what the loop does nor while it writes the outputs of some task. -/
theorem reads_settled (h : Graph.ofPlan p = .ok g) {runId : String} {handlers : Registry}
    {limits : Run.Limits} {now : Instant}
    (path : Path (start runId g handlers limits now) actions l) (hd : t ∈ dispatched actions)
    (ht : t ∉ handled actions) (key : String) :
    (∀ v, read g t l.run.context key = .ok v ↔ ∃ a, Provides g actions l t key a v) ∧
    (¬ (∃ a v, Provides g actions l t key a v) → ∃ f, read g t l.run.context key = .error f) ∧
    (∀ a b v w, Provides g actions l t key a v → Provides g actions l t key b w → a = b ∧ v = w) ∧
    (∀ more l', Path l more l' → t ∉ handled (actions ++ more) → ∀ v,
      read g t l'.run.context key = .ok v ↔ read g t l.run.context key = .ok v) ∧
    (∀ id o l', Step l (.handle id (.succeeded o)) l' → ∀ part, part <+: o.pairs → ∀ v,
      read g t (l.run.context.writeAll id part).1 key = .ok v ↔
        read g t l.run.context key = .ok v) := by
  have hv := Graph.valid_of_ofPlan h
  have hs := sound_of_path hv path
  have ha := account_of_path hv path
  have hrunning := (ledger_of_path hv path).running hs hd ht
  refine ⟨ha.read_iff h hs hrunning key, fun hnone => ?_, fun a b v w hp hq => ?_,
    fun more l' rest hmore v => ?_, fun id o l' s part _ v => ?_⟩
  · cases hr : read g t l.run.context key with
    | error f => exact ⟨f, rfl⟩
    | ok v =>
      obtain ⟨a, hp⟩ := (ha.read_iff h hs hrunning key v).mp hr
      exact absurd ⟨a, v, hp⟩ hnone
  · have hsame := (hp.find?_context hs ha).symm.trans (hq.find?_context hs ha)
    exact Context.Entry.mk.inj (Option.some.inj hsame)
  · have hlater := path.append rest
    have hstill := (ledger_of_path hv hlater).running (sound_of_path hv hlater)
      (mem_dispatched_append hd more) hmore
    exact hs.read_path h rest hrunning hstill key v
  · obtain ⟨kept, -, hext⟩ := Context.exists_extends_writeAll l.run.context id part
    have hid : l.run.stateOf id = .running := by
      cases s with
      | handle now place split => exact hs.mem_underway.mp (mem_underway_of_arrived split)
    exact hext.read_iff h (hs.not_before hid hrunning)

def chainOutputs : Outputs := .ofList [("address", .string "blue-1")]

theorem path_chain_reading : ∃ l, Path chain
    [.check, .dispatch 1, .wait, .ended 1 (.finished chainOutputs), .handle 1 (.succeeded chainOutputs),
      .check, .dispatch 2] l ∧
    Table.find? l.run.context "address" = some ⟨1, .string "blue-1"⟩ := by
  have h₁ := Path.snoc (.refl chain) (.check rfl)
  have h₂ := h₁.snoc (a := .dispatch 1) (.dispatch default rfl rfl rfl rfl rfl)
  have h₃ := h₂.snoc (.wait rfl rfl rfl)
  have h₄ := h₃.snoc (.ended (.finished chainOutputs) List.mem_cons_self)
  have h₅ := h₄.snoc (.handle default rfl (List.nil_append _).symm)
  have h₆ := h₅.snoc (.check rfl)
  exact ⟨_, h₆.snoc (a := .dispatch 2) (.dispatch default rfl rfl rfl rfl rfl), rfl⟩

theorem reads_settled_chain : ∃ actions l, Path chain actions l ∧ 2 ∈ dispatched actions ∧
    2 ∉ handled actions ∧
    (∃ a, Provides chain.run.graph actions l 2 "address" a (.string "blue-1")) ∧
    ∀ more l', Path l more l' → 2 ∉ handled (actions ++ more) →
      read chain.run.graph 2 l'.run.context "address" = .ok (.string "blue-1") := by
  obtain ⟨l, path, hf⟩ := path_chain_reading
  have hd : (2 : TaskId) ∈ dispatched [.check, .dispatch 1, .wait, .ended 1 (.finished chainOutputs),
      .handle 1 (.succeeded chainOutputs), .check, .dispatch 2] := by decide
  have ht : (2 : TaskId) ∉ handled [.check, .dispatch 1, .wait, .ended 1 (.finished chainOutputs),
      .handle 1 (.succeeded chainOutputs), .check, .dispatch 2] := by decide
  obtain ⟨hread, -, -, hlater, -⟩ := reads_settled (p := chainPlan) rfl path hd ht "address"
  have hedge : chain.run.graph.Edge 1 2 := by decide
  have hnow := (Context.read_eq_ok_iff (p := chainPlan) rfl).mpr ⟨1, .single hedge, hf⟩
  exact ⟨_, l, path, hd, ht, (hread _).mp hnow, fun more l' rest hmore =>
    (hlater more l' rest hmore _).mpr hnow⟩

end Loop

end Rollout
