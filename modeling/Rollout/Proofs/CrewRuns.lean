import Rollout.Proofs.ConcurrencyBound
import Rollout.Proofs.ContextReads
import Rollout.Proofs.EventLog
import Rollout.Proofs.ProcedureEffects
import Rollout.Proofs.Stopping

/-! What the handlers of a run do. The loop goes on as it would without them; each of them keeps to what its
procedure ensures, whatever happens in between; and what one of them reads, an ancestor of its task provides. -/

namespace Rollout

/-- What is ensured of every handler, depending on the payload that it is called with. -/
def Registry.Ensures (r : Registry) (allowed : Payload → List Procedure.Act → Call → Prop)
    (result : Payload → List Procedure.Act → Ending → Prop) : Prop :=
  ∀ k h, r.get? k = some h → ∀ id p, p.kind = k → (h id p).Ensures (allowed p) (result p) []

namespace Crew

open Procedure (Act)

def Deed.action? : Deed → Option Loop.Action
  | loop a => some a
  | act _ _ => none

def Deed.act? (id : TaskId) : Deed → Option Act
  | loop _ => none
  | act id' x => if id' = id then some x else none

/-- What the loop did. -/
def actions (deeds : List Deed) : List Loop.Action := deeds.filterMap Deed.action?

/-- What the handler of one task did. -/
def history (deeds : List Deed) (id : TaskId) : List Act := deeds.filterMap (Deed.act? id)

variable {c c' : Crew} {deeds : List Deed} {d : Deed} {id : TaskId} {g : Graph} {limit : Nat}

theorem rest_assign_self (c : Crew) (id : TaskId) (p : Procedure Ending) : (c.assign id p).rest id = p :=
  if_pos rfl

theorem rest_assign_of_ne {x : TaskId} (h : x ≠ id) (c : Crew) (p : Procedure Ending) :
    (c.assign id p).rest x = c.rest x :=
  if_neg h

theorem assign_rest (c : Crew) (id : TaskId) : c.assign id (c.rest id) = c := by
  have hrest : ∀ x, (if x = id then c.rest id else c.rest x) = c.rest x := fun x => by
    split_ifs with hx
    · rw [hx]
    · rfl
  exact congrArg (Crew.mk c.loop c.handlers) (funext hrest)

theorem assign_assign (c : Crew) (id : TaskId) (p q : Procedure Ending) :
    (c.assign id p).assign id q = c.assign id q := by
  have hrest : ∀ x, (if x = id then q else if x = id then p else c.rest x) =
      if x = id then q else c.rest x := fun x => by split_ifs <;> rfl
  exact congrArg (Crew.mk c.loop c.handlers) (funext hrest)

theorem actions_append (deeds more : List Deed) : actions (deeds ++ more) = actions deeds ++ actions more :=
  List.filterMap_append

theorem actions_snoc (deeds : List Deed) (d : Deed) :
    actions (deeds ++ [d]) = actions deeds ++ d.action?.toList :=
  Loop.filterMap_snoc _ deeds d

theorem actions_act (deeds : List Deed) (id : TaskId) (x : Act) :
    actions (deeds ++ [.act id x]) = actions deeds :=
  (actions_snoc _ _).trans (List.append_nil _)

theorem history_snoc (deeds : List Deed) (d : Deed) (id : TaskId) :
    history (deeds ++ [d]) id = history deeds id ++ (d.act? id).toList :=
  Loop.filterMap_snoc _ deeds d

theorem mem_history_iff {x : Act} : x ∈ history deeds id ↔ .act id x ∈ deeds := by
  rw [history, List.mem_filterMap]
  constructor
  · rintro ⟨d, hd, hx⟩
    cases d with
    | loop a => cases hx
    | act id' y =>
      rw [Deed.act?] at hx
      split_ifs at hx with hid
      rwa [← hid, ← Option.some.inj hx]
  · exact fun h => ⟨_, h, if_pos rfl⟩

theorem Step.loop (s : Step c d c') :
    (∃ a, d = .loop a ∧ Loop.Step c.loop a c'.loop) ∨ (∃ id x, d = .act id x) ∧ c'.loop = c.loop := by
  cases s with
  | called step | ended step | other step => exact Or.inl ⟨_, rfl, step⟩
  | act => exact Or.inr ⟨⟨_, _, rfl⟩, rfl⟩

theorem Path.loop (p : Path c deeds c') : Loop.Path c.loop (actions deeds) c'.loop := by
  induction p with
  | refl => exact .refl _
  | snoc p s ih =>
    rcases s.loop with ⟨a, rfl, step⟩ | ⟨⟨id, x, rfl⟩, hloop⟩
    · rw [actions_snoc]
      exact ih.snoc step
    · rw [actions_act, hloop]
      exact ih

theorem Path.append {c'' : Crew} {more : List Deed} (p : Path c deeds c') (q : Path c' more c'') :
    Path c (deeds ++ more) c'' := by
  induction q with
  | refl =>
    rw [List.append_nil]
    exact p
  | snoc q s ih =>
    rw [← List.append_assoc]
    exact ih.snoc s

theorem Path.asked {q : Call} {next : Except Client.Fault q.Reply → Procedure Ending} (p : Path c deeds c')
    (call : id ∈ c'.loop.calls) (rest : c'.rest id = .call q next) (answer : Except Client.Fault q.Reply) :
    Path c (deeds ++ [.act id (.asked q answer)]) (c'.assign id (next answer)) :=
  p.snoc (.act call (rest ▸ .asked q next answer))

theorem Path.looked {key : String} {next : Except Context.Fault Json → Procedure Ending}
    {answer : Except Context.Fault Json} (p : Path c deeds c') (call : id ∈ c'.loop.calls)
    (rest : c'.rest id = .look key next)
    (read : Context.read c'.loop.run.graph id c'.loop.run.context key = answer) :
    Path c (deeds ++ [.act id (.looked key answer)]) (c'.assign id (next answer)) := by
  subst read
  exact p.snoc (.act call (rest ▸ .looked key next))

theorem Path.handlers (p : Path c deeds c') : c'.handlers = c.handlers := by
  induction p with
  | refl => rfl
  | snoc p s ih => cases s with
    | called | act | ended | other => exact ih

end Crew

namespace Loop

variable {g : Graph} {limit : Nat} {l l' : Loop} {actions : List Action} {a : Action} {id t x : TaskId}
  {key : String} {v : Json}

theorem Account.mem_dispatched (hl : Ledger actions l) (h : Account actions l) (hid : id ∈ l.calls) :
    id ∈ dispatched actions :=
  (h.dispatched_perm hl).mem_iff.mpr (List.mem_append_right _ hid)

theorem Account.not_ended (hl : Ledger actions l) (h : Account actions l) (hid : id ∈ l.calls) (e : Ending) :
    .ended id e ∉ actions := fun he => by
  have hnd := (h.dispatched_perm hl).nodup_iff.mp (.of_append_left hl.nodup)
  have hm := List.mem_map_of_mem (f := Prod.fst) (mem_reported_iff.mpr ⟨e, he, rfl⟩)
  exact (List.nodup_append.mp hnd).2.2 id hm id hid rfl

theorem Account.finished_of_done (hs : Sound g limit l) (hl : Ledger actions l) (h : Account actions l)
    (hd : x ∈ dispatched actions) (hx : l.run.stateOf x = .done) : ∃ o, .ended x (.finished o) ∈ actions := by
  obtain ⟨e, he, hsettled⟩ := h.settled_of_dispatched hs hl hd (by simp [hx])
  have hnot : ∀ {d}, l.run.verdict? x ≠ some (.failed, d) := fun {d} hfailed => by
    rw [Run.stateOf_of_find? (hs.coherent.told.find?_of_verdict hfailed (by simp))] at hx
    cases hx
  generalize hc : e.completion = c at hsettled
  cases hsettled with
  | stored verdict => exact ⟨_, Ending.eq_finished hc ▸ he⟩
  | taken split held verdict | failed verdict => exact absurd verdict hnot

theorem Sound.not_dispatched (hs : Sound g limit l) (hl : Ledger actions l) (s : Step l (.dispatch id) l') :
    id ∉ dispatched actions := fun hm => by
  have hwas := hl.wasTaken id (List.mem_append_left _ hm)
  cases s with
  | dispatch now place notFull first task covered =>
    simp [(hs.coherent.ready_head first).1, TaskState.wasTaken] at hwas

theorem Step.calls_eq (s : Step l a l') (calls : ∀ id, a ≠ .dispatch id) (ends : ∀ id e, a ≠ .ended id e) :
    l'.calls = l.calls := by
  cases s with
  | check place => exact l.check_calls
  | dispatch => exact absurd rfl (calls _)
  | ended => exact absurd rfl (ends _ _)
  | refuse | wait | leave | handle | heedCancel | heedDeadline | cancel | expire => rfl

theorem Provides.step (hv : g.Valid) (hs : Sound g limit l) (h : Provides g actions l t key x v)
    (s : Step l a l') : Provides g (actions ++ [a]) l' t key x v := by
  obtain ⟨o, ho, hf⟩ := h.output
  refine ⟨h.before, ?_, o, List.mem_append_left _ ho, hf⟩
  exact (hs.terminal_kept hv (.snoc (.refl l) s) h.done rfl).1

end Loop

namespace Crew

open Procedure (Act)

section Follows

variable (allowed : Payload → List Act → Call → Prop) (result : Payload → List Act → Ending → Prop)

/-- What holds of one task at some point of a run. -/
structure Follows (id : TaskId) (p : Payload) (deeds : List Deed) (c : Crew) : Prop where
  fresh : id ∉ Loop.dispatched (actions deeds) → history deeds id = []
  going : id ∈ c.loop.calls → (c.rest id).Ensures (allowed p) (result p) (history deeds id)
  asked : ∀ {before q answer after}, history deeds id = before ++ .asked q answer :: after →
    allowed p before q
  ended : ∀ {e}, .ended id e ∈ actions deeds →
    result p (history deeds id) e ∨ ∃ message, e = .panicked message

variable {allowed result} {c c' : Crew} {deeds : List Deed} {d : Deed} {id : TaskId} {p : Payload}
  {g : Graph} {limit : Nat}

/-- The handler of the task does nothing in this step. -/
theorem Follows.still (h : Follows allowed result id p deeds c) (hact : d.act? id = none)
    (hgoing : id ∈ c'.loop.calls → (c'.rest id).Ensures (allowed p) (result p) (history deeds id))
    (hended : ∀ e, d.action? = some (.ended id e) →
      result p (history deeds id) e ∨ ∃ message, e = .panicked message) :
    Follows allowed result id p (deeds ++ [d]) c' := by
  have hsame : history (deeds ++ [d]) id = history deeds id := by
    rw [history_snoc, hact, Option.toList_none, List.append_nil]
  refine ⟨fun hn => ?_, fun hid => ?_, fun hsplit => h.asked (hsame ▸ hsplit), fun {e} he => ?_⟩
  · rw [actions_snoc] at hn
    exact hsame.trans (h.fresh fun hm => hn (Loop.mem_dispatched_append hm _))
  · rw [hsame]
    exact hgoing hid
  · rw [actions_snoc] at he
    rw [hsame]
    rcases List.mem_append.mp he with he | he
    · exact h.ended he
    · exact hended e (Option.mem_toList.mp he)

theorem Follows.step (hs : Loop.Sound g limit c.loop) (hl : Loop.Ledger (actions deeds) c.loop)
    (ha : Loop.Account (actions deeds) c.loop) (hr : c.handlers.Ensures allowed result) {t : Task}
    (ht : g.task? id = some t) (h : Follows allowed result id t.payload deeds c) (s : Step c d c') :
    Follows allowed result id t.payload (deeds ++ [d]) c' := by
  cases s with
  | @called x l u handler step task registered =>
    refine h.still rfl (fun hid => ?_) (by simp [Deed.action?])
    by_cases hx : id = x
    · -- a task is started once, so that its handler has done nothing yet
      subst hx
      rw [hs.coherent.graph_eq, ht] at task
      obtain rfl := Option.some.inj task
      rw [h.fresh (hs.not_dispatched hl step), rest_assign_self]
      exact hr _ _ registered id t.payload rfl
    · have hcalls : l.calls = x :: c.loop.calls := by
        cases step with
        | dispatch => rfl
      change id ∈ l.calls at hid
      rw [hcalls] at hid
      rw [rest_assign_of_ne hx]
      exact h.going ((List.mem_cons.mp hid).resolve_left hx)
  | @act x y p call move =>
    by_cases hx : x = id
    · subst hx
      obtain ⟨hnext, hallowed⟩ := (h.going call).move move
      have hhistory : history (deeds ++ [.act x y]) x = history deeds x ++ [y] := by
        rw [history_snoc, Deed.act?, if_pos rfl, Option.toList_some]
      refine ⟨fun hn => ?_, fun _ => ?_, fun hsplit => ?_, fun he => ?_⟩
      · rw [actions_act] at hn
        exact absurd (ha.mem_dispatched hl call) hn
      · rw [hhistory, rest_assign_self]
        exact hnext
      · rw [hhistory] at hsplit
        rcases snoc_eq_append_cons hsplit with ⟨rest, hold⟩ | ⟨rfl, hy⟩
        · exact h.asked hold
        · exact hallowed _ _ hy
      · rw [actions_act] at he
        exact absurd he (ha.not_ended hl call _)
    · refine h.still (if_neg hx) (fun hid => ?_) (by simp [Deed.action?])
      rw [rest_assign_of_ne (Ne.symm hx)]
      exact h.going hid
  | @ended x e l step rest =>
    obtain ⟨hx, hcalls⟩ : x ∈ c.loop.calls ∧ l.calls = c.loop.calls.erase x := by
      cases step with
      | ended e call => exact ⟨call, rfl⟩
    refine h.still rfl (fun hid => h.going (List.mem_of_mem_erase (hcalls ▸ hid))) fun e' he => ?_
    obtain ⟨rfl, rfl⟩ := Loop.Action.ended.inj (Option.some.inj he)
    rcases rest with hdone | hpanic
    · have hresult := h.going hx
      rw [hdone] at hresult
      exact Or.inl hresult
    · exact Or.inr hpanic
  | other step calls ends =>
    refine h.still rfl (fun hid => h.going ?_) fun e he => absurd (Option.some.inj he) (ends id e)
    rwa [← step.calls_eq calls ends]

/-- A call that a handler made or is about to make. -/
def Calls (deeds : List Deed) (c : Crew) (id : TaskId) (q : Call) : Prop :=
  (∃ answer, .act id (.asked q answer) ∈ deeds) ∨ id ∈ c.loop.calls ∧ ∃ next, c.rest id = .call q next

theorem Follows.allowed_of_calls (h : Follows allowed result id p deeds c) {q : Call}
    (hq : Calls deeds c id q) : ∃ past, past <+: history deeds id ∧ allowed p past q := by
  rcases hq with ⟨answer, hm⟩ | ⟨hid, next, hrest⟩
  · obtain ⟨before, after, hsplit⟩ := List.append_of_mem (mem_history_iff.mpr hm)
    exact ⟨before, hsplit ▸ List.prefix_append _ _, h.asked hsplit⟩
  · have hgoing := h.going hid
    rw [hrest] at hgoing
    exact ⟨_, List.prefix_refl _, hgoing.1⟩

theorem follows_of_path (hv : g.Valid) {runId : String} {handlers : Registry} {limits : Run.Limits}
    {now : Instant} (hr : handlers.Ensures allowed result)
    (path : Path (start runId g handlers limits now) deeds c) {t : Task} (ht : g.task? id = some t) :
    Follows allowed result id t.payload deeds c := by
  induction path with
  | refl =>
    refine ⟨fun _ => rfl, fun hid => absurd hid List.not_mem_nil, fun hsplit => ?_,
      fun he => absurd he List.not_mem_nil⟩
    exact absurd hsplit nil_ne_append_cons
  | snoc path s ih =>
    have hloop := path.loop
    refine ih.step (Loop.sound_of_path hv hloop) (Loop.ledger_of_path hv hloop)
      (Loop.account_of_path hv hloop) ?_ ht s
    rw [path.handlers]
    exact hr

end Follows

/-- What a handler read, an ancestor of its task provides. -/
theorem provided_of_path {c : Crew} {deeds : List Deed} {id : TaskId} {p : Plan} {g : Graph}
    (h : Graph.ofPlan p = .ok g) {runId : String} {handlers : Registry} {limits : Run.Limits}
    {now : Instant} (path : Path (start runId g handlers limits now) deeds c)
    {key : String} {v : Json} (hread : .looked key (.ok v) ∈ history deeds id) :
    ∃ a, Loop.Provides g (actions deeds) c.loop id key a v := by
  have hv := Graph.valid_of_ofPlan h
  induction path with
  | refl => exact absurd hread List.not_mem_nil
  | snoc path s ih =>
    have hloop := path.loop
    have hs := Loop.sound_of_path hv hloop
    rw [history_snoc] at hread
    rcases s.loop with ⟨a, rfl, step⟩ | ⟨⟨x, y, rfl⟩, hsame⟩
    · obtain ⟨a', ha'⟩ := ih (by simpa [Deed.act?] using hread)
      rw [actions_snoc]
      exact ⟨a', ha'.step hv hs step⟩
    · have hactions : actions (deeds ++ [.act x y]) = actions deeds :=
        (actions_snoc _ _).trans (List.append_nil _)
      rw [actions_act, hsame]
      rcases List.mem_append.mp hread with hold | hnew
      · exact ih hold
      · rw [Option.mem_toList, Deed.act?] at hnew
        split_ifs at hnew with hx
        obtain rfl := hx
        obtain rfl := Option.some.inj hnew
        cases s with
        | act call move =>
          have hrunning := hs.mem_underway.mp (List.mem_append_left _ call)
          have hvalue := move.read_eq
          rw [hs.coherent.graph_eq] at hvalue
          exact ((Loop.account_of_path hv hloop).read_iff h hs hrunning key v).mp hvalue

end Crew

end Rollout
