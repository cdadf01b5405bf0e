import Mathlib.Algebra.Order.BigOperators.Group.List
import Mathlib.Algebra.Order.Ring.Nat
import Mathlib.Data.List.Basic
import Mathlib.Logic.Relation
import Rollout.Graph.Cycle

/-! The search along the edges. It leaves every task, and a task is left only after all tasks that its
edges lead to, but for those that lead back to it. -/

namespace Rollout.Graph

def Arrows.Edge (a : Arrows) (u v : TaskId) : Prop := v ∈ a.forward u

/-- Edges lead to listed tasks and are known at both ends. -/
structure Arrows.Closed (a : Arrows) : Prop where
  mem_ids : ∀ {u v}, v ∈ a.forward u → v ∈ a.ids
  source_mem : ∀ {u v}, v ∈ a.forward u → u ∈ a.ids
  mem_backward : ∀ {u v}, u ∈ a.backward v ↔ v ∈ a.forward u

def Arrows.Acyclic (a : Arrows) : Prop := ∀ u, ¬ Relation.TransGen a.Edge u u

/-- What entering all tasks that were not seen can cost. -/
def unseenCost (w : TaskId → Nat) (ids seen : List TaskId) : Nat :=
  ((ids.filter (· ∉ seen)).map w).sum

theorem unseenCost_le_sum (w : TaskId → Nat) (ids seen : List TaskId) :
    unseenCost w ids seen ≤ (ids.map w).sum :=
  (List.Sublist.map w List.filter_sublist).sum_le_sum (by simp)

theorem unseenCost_mono (w : TaskId → Nat) (ids : List TaskId) {seen seen' : List TaskId}
    (h : ∀ x ∈ seen, x ∈ seen') : unseenCost w ids seen' ≤ unseenCost w ids seen := by
  have hsub : (ids.filter (· ∉ seen')).Sublist (ids.filter (· ∉ seen)) := by
    apply List.monotone_filter_right ids
    intro x hx
    have hx' : x ∉ seen' := by simpa using hx
    simpa using fun hm => hx' (h x hm)
  exact (hsub.map w).sum_le_sum (by simp)

theorem unseenCost_enter (w : TaskId → Nat) {ids seen seen' : List TaskId} {id : TaskId}
    (hid : id ∈ ids) (hnew : id ∉ seen) (h : ∀ x, x ∈ seen' ↔ x = id ∨ x ∈ seen) :
    w id + unseenCost w ids seen' ≤ unseenCost w ids seen := by
  induction ids with
  | nil => cases hid
  | cons x ids ih =>
    by_cases hx : x = id
    · subst x
      have hm := unseenCost_mono w ids fun y hy => (h y).mpr (.inr hy)
      have hs : id ∈ seen' := (h id).mpr (.inl rfl)
      simp only [unseenCost, List.filter_cons, hs, hnew, not_true_eq_false, not_false_eq_true,
        decide_false, decide_true, if_true, List.map_cons, List.sum_cons] at hm ⊢
      simpa using hm
    · have hi := ih ((List.mem_cons.mp hid).resolve_left (Ne.symm hx))
      by_cases hseen : x ∈ seen
      · have hs : x ∈ seen' := (h x).mpr (.inr hseen)
        simpa [unseenCost, hseen, hs] using hi
      · have hs : x ∉ seen' := fun hm => ((h x).mp hm).elim hx hseen
        simp only [unseenCost, List.filter_cons, hs, hseen, not_false_eq_true, decide_true, if_true,
          List.map_cons, List.sum_cons] at hi ⊢
        omega

/-- A task seen before is left, a task left before stays where it was. -/
def Search.leave (s : Search) (id : TaskId) : Search :=
  if id ∈ s.finished then s else { s with finished := id :: s.finished }

def Search.enter (s : Search) (id : TaskId) : Search := { s with seen := id :: s.seen }

/-- The tasks put on the stack when a task is entered, the last one first. -/
def Arrows.fresh (a : Arrows) (s : Search) (id : TaskId) : List TaskId :=
  ((a.forward id).filter (· ∉ id :: s.seen)).reverse

theorem mem_fresh {a : Arrows} {s : Search} {id x : TaskId} :
    x ∈ a.fresh s id ↔ x ∈ a.forward id ∧ x ≠ id ∧ x ∉ s.seen := by
  simp [Arrows.fresh]

theorem length_fresh_le (a : Arrows) (s : Search) (id : TaskId) :
    (a.fresh s id).length ≤ (a.forward id).length := by
  rw [Arrows.fresh, List.length_reverse]
  exact List.length_filter_le _ _

theorem search_of_mem {a : Arrows} {fuel : Nat} {id : TaskId} {stack : List TaskId} {s : Search}
    (h : id ∈ s.seen) : search a (fuel + 1) (id :: stack) s = search a fuel stack (s.leave id) := by
  rw [search, if_pos h]
  rfl

theorem search_of_not_mem {a : Arrows} {fuel : Nat} {id : TaskId} {stack : List TaskId} {s : Search}
    (h : id ∉ s.seen) :
    search a (fuel + 1) (id :: stack) s =
      search a fuel (a.fresh s id ++ id :: stack) (s.enter id) := by
  rw [search, if_neg h]
  rfl

@[simp] theorem seen_leave (s : Search) (id : TaskId) : (s.leave id).seen = s.seen := by
  rw [Search.leave]
  split <;> rfl

theorem mem_finished_leave {s : Search} {id x : TaskId} :
    x ∈ (s.leave id).finished ↔ x = id ∨ x ∈ s.finished := by
  by_cases h : id ∈ s.finished
  · simp only [Search.leave, h, if_true]
    exact ⟨Or.inr, fun hx => hx.elim (fun e => e ▸ h) fun hf => hf⟩
  · simp [Search.leave, h]

/-- Whatever the search keeps while it enters and leaves tasks holds when its stack is empty. -/
theorem search_invariant {a : Arrows} (hc : a.Closed) {P : List TaskId → Search → Prop}
    (hleave : ∀ id stack s, id ∈ s.seen → P (id :: stack) s → P stack (s.leave id))
    (henter : ∀ id stack s, id ∉ s.seen → P (id :: stack) s →
      P (a.fresh s id ++ id :: stack) (s.enter id))
    (fuel : Nat) (stack : List TaskId) (s : Search) (hids : ∀ x ∈ stack, x ∈ a.ids)
    (hfuel : stack.length + unseenCost (fun id => (a.forward id).length + 1) a.ids s.seen ≤ fuel)
    (h : P stack s) : P [] (search a fuel stack s) := by
  induction fuel generalizing stack s with
  | zero =>
    have : stack = [] := List.length_eq_zero_iff.mp (by omega)
    subst stack
    simpa [search] using h
  | succ fuel ih =>
    cases stack with
    | nil => simpa [search] using h
    | cons id stack =>
      have hid := hids id List.mem_cons_self
      have htail : ∀ x ∈ stack, x ∈ a.ids := fun x hx => hids x (List.mem_cons_of_mem _ hx)
      by_cases hs : id ∈ s.seen
      · rw [search_of_mem hs]
        refine ih stack _ htail ?_ (hleave id stack s hs h)
        rw [seen_leave]
        simp only [List.length_cons] at hfuel
        omega
      · rw [search_of_not_mem hs]
        refine ih _ _ (fun x hx => ?_) ?_ (henter id stack s hs h)
        · rcases List.mem_append.mp hx with hx | hx
          · exact hc.mem_ids (mem_fresh.mp hx).1
          · exact hids x hx
        · have hmem : ∀ x, x ∈ (s.enter id).seen ↔ x = id ∨ x ∈ s.seen := fun x => List.mem_cons
          have hcost := unseenCost_enter (fun id => (a.forward id).length + 1) hid hs hmem
          have hlen := length_fresh_le a s id
          simp only [List.length_append, List.length_cons] at hfuel ⊢
          omega

theorem cost_le_rounds (a : Arrows) (seen : List TaskId) :
    1 + unseenCost (fun id => (a.forward id).length + 1) a.ids seen ≤ rounds a := by
  have h := unseenCost_le_sum (fun id => (a.forward id).length + 1) a.ids seen
  have hsum : ∀ l : List TaskId, (l.map fun id => (a.forward id).length + 1).sum ≤
      l.length + (l.flatMap fun id => a.forward id ++ a.backward id).length := by
    intro l
    induction l with
    | nil => simp
    | cons x l ih =>
      simp only [List.map_cons, List.sum_cons, List.flatMap_cons, List.length_append, List.length_cons]
      omega
  have hids := hsum a.ids
  simp only [rounds]
  omega

def searchAll (a : Arrows) (ids : List TaskId) (s : Search) : Search :=
  ids.foldl (fun s id => if id ∈ s.seen then s else search a (rounds a) [id] s) s

theorem leaving_eq (a : Arrows) : leaving a = (searchAll a a.ids ⟨[], []⟩).finished := rfl

theorem searchAll_cons (a : Arrows) (id : TaskId) (ids : List TaskId) (s : Search) :
    searchAll a (id :: ids) s =
      searchAll a ids (if id ∈ s.seen then s else search a (rounds a) [id] s) := rfl

theorem searchAll_invariant {a : Arrows} (hc : a.Closed) {P : List TaskId → Search → Prop}
    (hleave : ∀ id stack s, id ∈ s.seen → P (id :: stack) s → P stack (s.leave id))
    (henter : ∀ id stack s, id ∉ s.seen → P (id :: stack) s →
      P (a.fresh s id ++ id :: stack) (s.enter id))
    (hstart : ∀ id s, id ∉ s.seen → P [] s → P [id] s)
    (ids : List TaskId) (hids : ∀ x ∈ ids, x ∈ a.ids) (s : Search) (h : P [] s) :
    P [] (searchAll a ids s) := by
  induction ids generalizing s with
  | nil => exact h
  | cons id ids ih =>
    have hid := hids id List.mem_cons_self
    rw [searchAll_cons]
    refine ih (fun x hx => hids x (List.mem_cons_of_mem _ hx)) _ ?_
    split
    · exact h
    next hs =>
      exact search_invariant hc hleave henter _ _ _ (by simpa using hid)
        (cost_le_rounds a s.seen) (hstart id s hs h)

/-- Tasks seen and not left are on the stack; some tasks are seen or will be. -/
def Covers (due : List TaskId) (stack : List TaskId) (s : Search) : Prop :=
  (∀ x ∈ s.seen, x ∈ s.finished ∨ x ∈ stack) ∧ ∀ x ∈ due, x ∈ s.seen ∨ x ∈ stack

theorem Covers.leave {due stack : List TaskId} {s : Search} {id : TaskId} (hs : id ∈ s.seen)
    (h : Covers due (id :: stack) s) : Covers due stack (s.leave id) := by
  refine ⟨fun x hx => ?_, fun x hx => ?_⟩
  · rw [seen_leave] at hx
    rw [mem_finished_leave]
    rcases h.1 x hx with hf | hm
    · exact Or.inl (Or.inr hf)
    · exact (List.mem_cons.mp hm).imp_left Or.inl
  · rw [seen_leave]
    rcases h.2 x hx with hx | hm
    · exact Or.inl hx
    · exact (List.mem_cons.mp hm).imp_left fun (e : x = id) => e ▸ hs

theorem Covers.enter {a : Arrows} {due stack : List TaskId} {s : Search} {id : TaskId}
    (h : Covers due (id :: stack) s) : Covers due (a.fresh s id ++ id :: stack) (s.enter id) := by
  refine ⟨fun x hx => ?_, fun x hx => ?_⟩
  · rcases List.mem_cons.mp hx with rfl | hx
    · exact Or.inr (by simp)
    · exact (h.1 x hx).imp_right (List.mem_append_right _)
  · rcases h.2 x hx with hx | hm
    · exact Or.inl (List.mem_cons_of_mem _ hx)
    · exact Or.inr (List.mem_append_right _ hm)

theorem searchAll_covers {a : Arrows} (hc : a.Closed) (ids : List TaskId)
    (hids : ∀ x ∈ ids, x ∈ a.ids) {due : List TaskId} {s : Search} (h : Covers due [] s) :
    Covers (ids ++ due) [] (searchAll a ids s) := by
  induction ids generalizing due s with
  | nil => exact h
  | cons id ids ih =>
    have hid := hids id List.mem_cons_self
    have htail : ∀ x ∈ ids, x ∈ a.ids := fun x hx => hids x (List.mem_cons_of_mem _ hx)
    rw [searchAll_cons]
    have hstep : Covers (id :: due) [] (if id ∈ s.seen then s else search a (rounds a) [id] s) := by
      split
      next hs => exact ⟨h.1, by simpa [hs] using h.2⟩
      next hs =>
        have hstart : Covers (id :: due) [id] s := by
          refine ⟨fun x hx => (h.1 x hx).imp_right fun hm => (List.not_mem_nil hm).elim, ?_⟩
          intro x hx
          rcases List.mem_cons.mp hx with rfl | hx
          · exact Or.inr List.mem_cons_self
          · exact (h.2 x hx).imp_right fun hm => (List.not_mem_nil hm).elim
        exact search_invariant hc (P := Covers (id :: due)) (fun _ _ _ hs h => h.leave hs)
          (fun _ _ _ _ h => h.enter) _ _ _ (by simpa using hid) (cost_le_rounds a s.seen) hstart
    have hrest := ih htail hstep
    refine ⟨hrest.1, fun x hx => hrest.2 x ?_⟩
    simp only [List.cons_append, List.mem_cons, List.mem_append] at hx ⊢
    exact or_left_comm.mp hx

theorem mem_leaving {a : Arrows} (hc : a.Closed) {id : TaskId} (h : id ∈ a.ids) :
    id ∈ leaving a := by
  have hcov : Covers [] [] (⟨[], []⟩ : Search) :=
    ⟨fun _ hx => (List.not_mem_nil hx).elim, fun _ hx => (List.not_mem_nil hx).elim⟩
  have hall := searchAll_covers hc a.ids (fun _ hx => hx) hcov
  have hseen := (hall.2 id (List.mem_append_left _ h)).resolve_right List.not_mem_nil
  rw [leaving_eq]
  exact (hall.1 id hseen).resolve_right List.not_mem_nil

/-- Every task stands before all tasks that its edges lead to, but for those that lead back to it. -/
def Downward (a : Arrows) : List TaskId → Prop
  | [] => True
  | u :: l =>
    u ∉ l ∧ (∀ v ∈ a.forward u, v ∈ l ∨ Relation.ReflTransGen a.Edge v u) ∧ Downward a l

/-- The tasks that were put on the stack since a task was entered. -/
def above (u : TaskId) (stack : List TaskId) : List TaskId := stack.takeWhile (· ≠ u)

theorem above_cons_self (u : TaskId) (stack : List TaskId) : above u (u :: stack) = [] := by
  simp [above]

theorem above_cons_of_ne {u x : TaskId} (h : x ≠ u) (stack : List TaskId) :
    above u (x :: stack) = x :: above u stack := by
  simp [above, h]

theorem above_append {u : TaskId} {l : List TaskId} (h : u ∉ l) (stack : List TaskId) :
    above u (l ++ stack) = l ++ above u stack := by
  apply List.takeWhile_append_of_pos
  intro x hx
  simpa using fun e : x = u => h (e ▸ hx)

/-- Tasks entered and not left can reach all that is above them on the stack, and what their edges
lead to was left, is above them or leads back to them. -/
structure Nested (a : Arrows) (stack : List TaskId) (s : Search) : Prop where
  downward : Downward a s.finished
  left_or_below : ∀ u ∈ s.seen, u ∈ s.finished ∨ u ∈ stack
  left_seen : ∀ u ∈ s.finished, u ∈ s.seen
  reaches : ∀ u ∈ s.seen, u ∉ s.finished → ∀ x ∈ above u stack, Relation.TransGen a.Edge u x
  next : ∀ u ∈ s.seen, u ∉ s.finished → ∀ v ∈ a.forward u,
    v ∈ s.finished ∨ v ∈ above u stack ∨ Relation.ReflTransGen a.Edge v u

theorem Nested.leave {a : Arrows} {stack : List TaskId} {s : Search} {id : TaskId}
    (hs : id ∈ s.seen) (h : Nested a (id :: stack) s) : Nested a stack (s.leave id) := by
  have hdown : Downward a (s.leave id).finished := by
    by_cases hf : id ∈ s.finished
    · simpa [Search.leave, hf] using h.downward
    · have hnext : ∀ v ∈ a.forward id, v ∈ s.finished ∨ Relation.ReflTransGen a.Edge v id := by
        intro v hv
        simpa [above_cons_self] using h.next id hs hf v hv
      simpa [Search.leave, hf] using
        (show Downward a (id :: s.finished) from ⟨hf, hnext, h.downward⟩)
  have hother : ∀ u, u ∉ (s.leave id).finished → u ≠ id ∧ u ∉ s.finished := fun u hu =>
    not_or.mp fun hm => hu (mem_finished_leave.mpr hm)
  refine ⟨hdown, fun u hu => ?_, fun u hu => ?_, fun u hu hn x hx => ?_, fun u hu hn v hv => ?_⟩
  · rw [mem_finished_leave]
    rw [seen_leave] at hu
    rcases h.left_or_below u hu with hf | hm
    · exact Or.inl (Or.inr hf)
    · exact (List.mem_cons.mp hm).imp_left Or.inl
  · rw [seen_leave]
    rcases mem_finished_leave.mp hu with rfl | hu
    · exact hs
    · exact h.left_seen u hu
  · obtain ⟨hne, hnf⟩ := hother u hn
    rw [seen_leave] at hu
    apply h.reaches u hu hnf x
    rw [above_cons_of_ne (Ne.symm hne)]
    exact List.mem_cons_of_mem _ hx
  · obtain ⟨hne, hnf⟩ := hother u hn
    rw [seen_leave] at hu
    rw [mem_finished_leave]
    rcases h.next u hu hnf v hv with hf | hm | hback
    · exact Or.inl (Or.inr hf)
    · rw [above_cons_of_ne (Ne.symm hne)] at hm
      rcases List.mem_cons.mp hm with rfl | hm
      · exact Or.inl (Or.inl rfl)
      · exact Or.inr (Or.inl hm)
    · exact Or.inr (Or.inr hback)

/-- An edge to a task that was entered and not left leads back: the task reaches all above it. -/
theorem Nested.enter {a : Arrows} {stack : List TaskId} {s : Search} {id : TaskId}
    (hs : id ∉ s.seen) (h : Nested a (id :: stack) s) :
    Nested a (a.fresh s id ++ id :: stack) (s.enter id) := by
  have habove_self : above id (a.fresh s id ++ id :: stack) = a.fresh s id := by
    rw [above_append (fun hm => (mem_fresh.mp hm).2.1 rfl), above_cons_self, List.append_nil]
  have habove : ∀ u ∈ s.seen, above u (a.fresh s id ++ id :: stack) =
      a.fresh s id ++ id :: above u stack := by
    intro u hu
    have hne : id ≠ u := fun e => hs (e ▸ hu)
    rw [above_append (fun hm => (mem_fresh.mp hm).2.2 hu), above_cons_of_ne hne]
  have hold : ∀ u ∈ s.seen, above u (id :: stack) = id :: above u stack := by
    intro u hu
    have hne : id ≠ u := fun e => hs (e ▸ hu)
    exact above_cons_of_ne hne stack
  refine ⟨h.downward, fun u hu => ?_, fun u hu => List.mem_cons_of_mem _ (h.left_seen u hu),
    fun u hu hn x hx => ?_, fun u hu hn v hv => ?_⟩
  · rcases List.mem_cons.mp hu with rfl | hu
    · exact Or.inr (by simp)
    · exact (h.left_or_below u hu).imp_right (List.mem_append_right _)
  · rcases List.mem_cons.mp hu with rfl | hu
    · rw [habove_self] at hx
      exact .single (mem_fresh.mp hx).1
    · have hid : Relation.TransGen a.Edge u id :=
        h.reaches u hu hn id (by simp [hold u hu])
      rw [habove u hu, List.mem_append] at hx
      rcases hx with hx | hx
      · exact hid.tail (mem_fresh.mp hx).1
      · exact h.reaches u hu hn x (by rwa [hold u hu])
  · rcases List.mem_cons.mp hu with rfl | hu
    · rw [habove_self]
      by_cases he : v = u
      · subst v
        exact Or.inr (Or.inr .refl)
      · by_cases hseen : v ∈ s.seen
        · by_cases hf : v ∈ s.finished
          · exact Or.inl hf
          · have hback : Relation.TransGen a.Edge v u :=
              h.reaches v hseen hf u (by simp [hold v hseen])
            exact Or.inr (Or.inr hback.to_reflTransGen)
        · exact Or.inr (Or.inl (mem_fresh.mpr ⟨hv, he, hseen⟩))
    · refine (h.next u hu hn v hv).imp_right fun hm => hm.imp_left fun hm => ?_
      rw [hold u hu] at hm
      rw [habove u hu]
      exact List.mem_append_right _ hm

theorem downward_leaving {a : Arrows} (hc : a.Closed) : Downward a (leaving a) := by
  have hempty : Nested a [] ⟨[], []⟩ := ⟨trivial, by simp, by simp, by simp, by simp⟩
  have hstart : ∀ id s, id ∉ s.seen → Nested a [] s → Nested a [id] s := by
    intro id s _ h
    have hleft : ∀ u ∈ s.seen, u ∈ s.finished := fun u hu => by simpa using h.left_or_below u hu
    exact ⟨h.downward, fun u hu => Or.inl (hleft u hu), h.left_seen,
      fun u hu hn => (hn (hleft u hu)).elim, fun u hu hn => (hn (hleft u hu)).elim⟩
  rw [leaving_eq]
  exact (searchAll_invariant hc (P := Nested a) (fun _ _ _ hs h => h.leave hs)
    (fun _ _ _ hs h => h.enter hs) hstart a.ids (fun _ hx => hx) _ hempty).downward

end Rollout.Graph
