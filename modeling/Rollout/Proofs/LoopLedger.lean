import Rollout.Proofs.LoopInvariant

/-! The books of a run. What was started and what was handled is compared with what is under way, and
each wait of the loop with what woke it. -/

namespace Rollout.Loop

def Action.dispatched? : Action → Option TaskId
  | dispatch id => some id
  | _ => none

def Action.refused? : Action → Option TaskId
  | refuse id => some id
  | _ => none

def Action.handled? : Action → Option TaskId
  | handle id _ => some id
  | _ => none

def dispatched (actions : List Action) : List TaskId := actions.filterMap Action.dispatched?

/-- The tasks that had no handler. -/
def refused (actions : List Action) : List TaskId := actions.filterMap Action.refused?

def handled (actions : List Action) : List TaskId := actions.filterMap Action.handled?

theorem filterMap_snoc {α β : Type} (f : α → Option β) (l : List α) (a : α) :
    (l ++ [a]).filterMap f = l.filterMap f ++ (f a).toList := by
  rw [List.filterMap_append]
  cases hf : f a <;> simp [hf]

theorem dispatched_snoc (actions : List Action) (a : Action) :
    dispatched (actions ++ [a]) = dispatched actions ++ a.dispatched?.toList :=
  filterMap_snoc _ actions a

theorem refused_snoc (actions : List Action) (a : Action) :
    refused (actions ++ [a]) = refused actions ++ a.refused?.toList :=
  filterMap_snoc _ actions a

theorem handled_snoc (actions : List Action) (a : Action) :
    handled (actions ++ [a]) = handled actions ++ a.handled?.toList :=
  filterMap_snoc _ actions a

theorem mem_dispatched_append {x : TaskId} {actions : List Action} (h : x ∈ dispatched actions)
    (more : List Action) : x ∈ dispatched (actions ++ more) := by
  rw [dispatched, List.filterMap_append]
  exact List.mem_append_left _ h

/-- What was started and refused up to some point of a run. -/
structure Ledger (actions : List Action) (l : Loop) : Prop where
  dispatched_perm : (dispatched actions).Perm (handled actions ++ l.underway)
  nodup : (dispatched actions ++ refused actions).Nodup
  wasTaken : ∀ x ∈ dispatched actions ++ refused actions, (l.run.stateOf x).wasTaken = true

variable {g : Graph} {limit : Nat} {l l' : Loop} {actions : List Action} {a : Action}

/-- Nothing is started or refused by the step, and nothing handled. -/
theorem Ledger.quiet (h : Ledger actions l) (hd : a.dispatched? = none) (hr : a.refused? = none)
    (hh : a.handled? = none) (hperm : l.underway.Perm l'.underway)
    (hleads : ∀ x, (l.run.stateOf x).Leads (l'.run.stateOf x)) : Ledger (actions ++ [a]) l' := by
  refine ⟨?_, ?_, fun x hx => ?_⟩
  · rw [dispatched_snoc, handled_snoc, hd, hh, Option.toList_none, List.append_nil, List.append_nil]
    exact h.dispatched_perm.trans (hperm.append_left _)
  · rw [dispatched_snoc, refused_snoc, hd, hr, Option.toList_none, List.append_nil, List.append_nil]
    exact h.nodup
  · rw [dispatched_snoc, refused_snoc, hd, hr, Option.toList_none, List.append_nil,
      List.append_nil] at hx
    exact (hleads x).wasTaken (h.wasTaken x hx)

/-- One more task has its turn, be it that it starts or that it is refused. -/
theorem Ledger.take (h : Ledger actions l) {id : TaskId} (hid : l.run.stateOf id = .ready)
    (hids : (dispatched (actions ++ [a]) ++ refused (actions ++ [a])).Perm
      (id :: (dispatched actions ++ refused actions)))
    (hperm : (dispatched (actions ++ [a])).Perm (handled (actions ++ [a]) ++ l'.underway))
    (hleads : ∀ x, (l.run.stateOf x).Leads (l'.run.stateOf x))
    (htaken : (l'.run.stateOf id).wasTaken = true) : Ledger (actions ++ [a]) l' := by
  have hnot : id ∉ dispatched actions ++ refused actions := fun hm => by
    have ht := h.wasTaken id hm
    simp [hid, TaskState.wasTaken] at ht
  refine ⟨hperm, ?_, fun x hx => ?_⟩
  · exact hids.nodup_iff.mpr (List.nodup_cons.mpr ⟨hnot, h.nodup⟩)
  · rcases List.mem_cons.mp (hids.mem_iff.mp hx) with rfl | hx
    · exact htaken
    · exact (hleads x).wasTaken (h.wasTaken x hx)

theorem Ledger.step (hv : g.Valid) (hs : Sound g limit l) (h : Ledger actions l) (s : Step l a l') :
    Ledger (actions ++ [a]) l' := by
  have hleads := hs.leads hv s
  cases s with
  | @dispatch id rest t now place notFull first task covered =>
    have hid := (hs.coherent.ready_head first).1
    refine h.take hid ?_ ?_ hleads ?_
    · rw [dispatched_snoc, refused_snoc]
      simp [Action.dispatched?, Action.refused?]
    · rw [dispatched_snoc, handled_snoc]
      have hperm : (dispatched actions ++ [id]).Perm (handled actions ++ id :: l.underway) :=
        (List.perm_append_singleton _ _).trans ((h.dispatched_perm.cons id).trans List.perm_middle.symm)
      simpa [Action.dispatched?, Action.handled?, underway] using hperm
    · rw [Run.Coherent.stateOf_dispatch_covered hid now covered, Function.update_self]
      rfl
  | @refuse id rest t now place notFull first task uncovered =>
    have hid := (hs.coherent.ready_head first).1
    refine h.take hid ?_ ?_ hleads ?_
    · rw [dispatched_snoc, refused_snoc]
      simpa [Action.dispatched?, Action.refused?] using
        (List.perm_append_singleton id (dispatched actions ++ refused actions))
    · rw [dispatched_snoc, handled_snoc]
      simpa [Action.dispatched?, Action.handled?, underway] using h.dispatched_perm
    · rw [hs.coherent.stateOf_dispatch_uncovered hid now uncovered, Graph.afterFailed_self]
      rfl
  | @handle id c before after now place split =>
    refine ⟨?_, ?_, fun x hx => ?_⟩
    · have hperm := h.dispatched_perm.trans ((underway_perm_of_arrived split).append_left _)
      rw [dispatched_snoc, handled_snoc]
      simpa [Action.dispatched?, Action.handled?, underway] using hperm
    · rw [dispatched_snoc, refused_snoc]
      simpa [Action.dispatched?, Action.refused?] using h.nodup
    · rw [dispatched_snoc, refused_snoc] at hx
      exact (hleads x).wasTaken (h.wasTaken x (by simpa [Action.dispatched?, Action.refused?] using hx))
  | check place =>
    refine h.quiet rfl rfl rfl ?_ hleads
    simp [underway]
  | @ended id e call => exact h.quiet rfl rfl rfl (underway_perm_of_call call e.completion) hleads
  | wait | leave | heedCancel | heedDeadline | cancel | expire =>
    exact h.quiet rfl rfl rfl (.refl _) hleads

theorem ledger_start (runId : String) (g : Graph) (handlers : Registry) (limits : Run.Limits)
    (now : Instant) : Ledger [] (start runId g handlers limits now) :=
  ⟨.refl _, List.nodup_nil, nofun⟩

theorem Ledger.path (hv : g.Valid) (hs : Sound g limit l) (h : Ledger actions l) {more : List Action}
    (p : Path l more l') : Ledger (actions ++ more) l' := by
  induction p with
  | refl =>
    rw [List.append_nil]
    exact h
  | snoc p s ih =>
    rw [← List.append_assoc]
    exact ih.step hv (hs.path hv p) s

theorem Ledger.length_dispatched (hv : g.Valid) (hs : Sound g limit l) (h : Ledger actions l) :
    (dispatched actions).length = (handled actions).length + l.run.inFlight := by
  rw [h.dispatched_perm.length_eq, List.length_append, hs.inFlight_eq hv]

theorem Ledger.length_le (hs : Sound g limit l) (h : Ledger actions l) :
    (dispatched actions).length + (refused actions).length ≤ g.size := by
  rw [← List.length_append, show g.size = g.ids.length from Table.size_eq_length_keys g.tasks]
  refine (h.nodup.subperm fun x hx => ?_).length_le
  have ht := h.wasTaken x hx
  exact hs.coherent.mem_ids fun e => by simp [e, TaskState.wasTaken] at ht

/-- Actions without what they carry. -/
inductive Action.Form
  | check
  | dispatch
  | refuse
  | wait
  | leave
  | handle
  | heedCancel
  | heedDeadline
  | ended
  | cancel
  | expire
deriving DecidableEq

def Action.form : Action → Form
  | check => .check
  | dispatch _ => .dispatch
  | refuse _ => .refuse
  | wait => .wait
  | leave => .leave
  | handle _ _ => .handle
  | heedCancel => .heedCancel
  | heedDeadline => .heedDeadline
  | ended _ _ => .ended
  | cancel => .cancel
  | expire => .expire

def times (f : Action.Form) (actions : List Action) : Nat := actions.countP fun a => a.form = f

@[simp] theorem times_nil (f : Action.Form) : times f [] = 0 := rfl

theorem times_snoc (f : Action.Form) (actions : List Action) (a : Action) :
    times f (actions ++ [a]) = times f actions + if a.form = f then 1 else 0 := by
  rw [times, times, List.countP_append, List.countP_singleton]
  simp

theorem length_eq_times (actions : List Action) :
    actions.length = times .check actions + times .dispatch actions + times .refuse actions +
      times .wait actions + times .leave actions + times .handle actions +
      times .heedCancel actions + times .heedDeadline actions + times .ended actions +
      times .cancel actions + times .expire actions := by
  induction actions using List.reverseRecOn with
  | nil => rfl
  | append_singleton actions a ih =>
    simp only [times_snoc, List.length_append, List.length_singleton, ih]
    cases a <;> simp only [Action.form, reduceCtorEq, if_true, if_false] <;> omega

theorem length_dispatched_eq (actions : List Action) :
    (dispatched actions).length = times .dispatch actions := by
  induction actions using List.reverseRecOn with
  | nil => rfl
  | append_singleton actions a ih =>
    rw [dispatched_snoc, times_snoc, List.length_append, ih]
    cases a <;> rfl

theorem length_refused_eq (actions : List Action) :
    (refused actions).length = times .refuse actions := by
  induction actions using List.reverseRecOn with
  | nil => rfl
  | append_singleton actions a ih =>
    rw [refused_snoc, times_snoc, List.length_append, ih]
    cases a <;> rfl

theorem length_handled_eq (actions : List Action) :
    (handled actions).length = times .handle actions := by
  induction actions using List.reverseRecOn with
  | nil => rfl
  | append_singleton actions a ih =>
    rw [handled_snoc, times_snoc, List.length_append, ih]
    cases a <;> rfl

/-- Each wait is woken once, and nothing from outside is noticed twice. -/
structure Balance (actions : List Action) (l : Loop) : Prop where
  checks : times .check actions + (if l.place = .top then 1 else 0) =
    times .handle actions + times .heedCancel actions + times .heedDeadline actions + 1
  waits : times .wait actions = times .handle actions + times .heedCancel actions +
    times .heedDeadline actions + if l.place = .waiting then 1 else 0
  leaves : times .leave actions = if l.place = .left then 1 else 0
  calls : times .ended actions + l.calls.length = times .dispatch actions
  heedCancel : times .heedCancel actions + l.watchCancel.toNat ≤ 1
  heedDeadline : times .heedDeadline actions + l.watchDeadline.toNat ≤ 1
  cancels : times .cancel actions = l.cancelled.toNat
  expires : times .expire actions = l.late.toNat

theorem watchCancel_check (l : Loop) : l.check.watchCancel.toNat ≤ l.watchCancel.toNat := by
  unfold Loop.check
  split_ifs <;> simp

theorem watchDeadline_check (l : Loop) : l.check.watchDeadline.toNat ≤ l.watchDeadline.toNat := by
  unfold Loop.check
  split_ifs <;> simp

theorem Balance.step (h : Balance actions l) (s : Step l a l') : Balance (actions ++ [a]) l' := by
  obtain ⟨checks, waits, leaves, calls, heedCancel, heedDeadline, cancels, expires⟩ := h
  cases s with
  | check place =>
    have hcancel := watchCancel_check l
    have hdeadline := watchDeadline_check l
    simp only [place, reduceCtorEq, if_true, if_false] at checks waits leaves
    constructor <;> simp only [times_snoc, Action.form, check_calls, check_cancelled, check_late,
      reduceCtorEq, if_true, if_false] <;> omega
  | dispatch now place notFull first task covered =>
    simp only [place, reduceCtorEq, if_false] at checks waits leaves
    constructor <;> simp only [times_snoc, Action.form, place, List.length_cons, reduceCtorEq, if_true,
      if_false] <;> omega
  | ended e call =>
    have hlength := (List.perm_cons_erase call).length_eq
    rw [List.length_cons] at hlength
    constructor <;> simp only [times_snoc, Action.form, reduceCtorEq, if_true, if_false] <;> omega
  | refuse now place notFull first task uncovered =>
    simp only [place, reduceCtorEq, if_false] at checks waits leaves
    constructor <;> simp only [times_snoc, Action.form, place, reduceCtorEq, if_false] <;> omega
  | wait place full notOver =>
    simp only [place, reduceCtorEq, if_false] at checks waits leaves
    constructor <;> simp only [times_snoc, Action.form, reduceCtorEq, if_true, if_false] <;> omega
  | leave place full isOver =>
    simp only [place, reduceCtorEq, if_false] at checks waits leaves
    constructor <;> simp only [times_snoc, Action.form, reduceCtorEq, if_true, if_false] <;> omega
  | handle now place split =>
    simp only [place, reduceCtorEq, if_true, if_false] at checks waits leaves
    constructor <;> simp only [times_snoc, Action.form, reduceCtorEq, if_true, if_false] <;> omega
  | heedCancel place watched cancelled =>
    simp only [place, reduceCtorEq, if_true, if_false] at checks waits leaves
    rw [watched, Bool.toNat_true] at heedCancel
    constructor <;> simp only [times_snoc, Action.form, Bool.toNat_false, reduceCtorEq, if_true,
      if_false] <;> omega
  | heedDeadline place watched late =>
    simp only [place, reduceCtorEq, if_true, if_false] at checks waits leaves
    rw [watched, Bool.toNat_true] at heedDeadline
    constructor <;> simp only [times_snoc, Action.form, Bool.toNat_false, reduceCtorEq, if_true,
      if_false] <;> omega
  | cancel fresh =>
    rw [fresh, Bool.toNat_false] at cancels
    constructor <;> simp only [times_snoc, Action.form, Bool.toNat_true, reduceCtorEq, if_true,
      if_false] <;> omega
  | expire fresh =>
    rw [fresh, Bool.toNat_false] at expires
    constructor <;> simp only [times_snoc, Action.form, Bool.toNat_true, reduceCtorEq, if_true,
      if_false] <;> omega

theorem balance_start (runId : String) (g : Graph) (handlers : Registry) (limits : Run.Limits)
    (now : Instant) : Balance [] (start runId g handlers limits now) :=
  ⟨rfl, rfl, rfl, rfl, Nat.le_refl 1, by rw [times_nil, Nat.zero_add]; exact Bool.toNat_le _, rfl, rfl⟩

theorem Balance.path (h : Balance [] l) (p : Path l actions l') : Balance actions l' := by
  induction p with
  | refl => exact h
  | snoc p s ih => exact ih.step s

end Rollout.Loop
