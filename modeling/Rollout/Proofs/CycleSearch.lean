import Rollout.Proofs.LeavingOrder

/-! The search against the edges. It meets a second task from some start exactly if the edges make a
cycle, and then that task lies on one: what leads to the first start that meets another was left before
it, so that the start leads back to it. -/

namespace Rollout.Graph

theorem met_suffix (a : Arrows) (fuel : Nat) (stack seen met : List TaskId) :
    met <:+ (retrace a fuel stack seen met).1 := by
  fun_induction retrace a fuel stack seen met with
  | case1 => exact List.suffix_rfl
  | case2 => exact List.suffix_rfl
  | case3 fuel id stack seen met hs ih => exact ih
  | case4 fuel id stack seen met hs seen' next ih => exact (List.suffix_cons id met).trans ih

theorem retrace_seen {a : Arrows} {fuel : Nat} {id : TaskId} {seen : List TaskId} (h : id ∈ seen) :
    retrace a (fuel + 1) [id] seen [] = ([], seen) := by
  rw [retrace, if_pos h]
  cases fuel <;> rfl

theorem retrace_first {a : Arrows} {fuel : Nat} {id : TaskId} {seen : List TaskId}
    (h : id ∉ seen) (hback : ∀ w ∈ a.backward id, w ∈ id :: seen) :
    retrace a (fuel + 1) [id] seen [] = ([id], id :: seen) := by
  have hnone : (a.backward id).filter (· ∉ id :: seen) = [] := by
    apply List.filter_eq_nil_iff.mpr
    intro w hw
    simpa only [decide_eq_true_eq, not_not] using hback w hw
  rw [retrace, if_neg h]
  simp only [hnone, List.reverse_nil, List.nil_append]
  cases fuel <;> rfl

/-- The second task met is right before the start. -/
theorem retrace_second {a : Arrows} {id w : TaskId} {seen : List TaskId} (fuel : Nat)
    (h : id ∉ seen) (hw : w ∈ a.backward id) (hnew : w ∉ id :: seen) :
    ∃ x, x ∈ a.backward id ∧ x ∉ id :: seen ∧
      [x, id] <:+ (retrace a (fuel + 2) [id] seen []).1 := by
  rw [retrace, if_neg h]
  cases hnext : ((a.backward id).filter (· ∉ id :: seen)).reverse with
  | nil =>
    have hm : w ∈ ((a.backward id).filter (· ∉ id :: seen)).reverse :=
      List.mem_reverse.mpr (List.mem_filter.mpr ⟨hw, by simpa using hnew⟩)
    rw [hnext] at hm
    cases hm
  | cons x rest =>
    have hm : x ∈ ((a.backward id).filter (· ∉ id :: seen)).reverse := by
      rw [hnext]
      exact List.mem_cons_self
    obtain ⟨hx, hfresh⟩ := List.mem_filter.mp (List.mem_reverse.mp hm)
    have hfresh : x ∉ id :: seen := by simpa using hfresh
    refine ⟨x, hx, hfresh, ?_⟩
    simp only [hnext, List.cons_append]
    rw [retrace, if_neg hfresh]
    exact met_suffix a fuel _ _ [x, id]

theorem rounds_eq (a : Arrows) : ∃ n, rounds a = n + 2 := ⟨_, rfl⟩

section Meeting

variable {a : Arrows} {id : TaskId} {seen : List TaskId} (rest : List TaskId)

theorem meeting?_of_mem (h : id ∈ seen) : meeting? a (id :: rest) seen = meeting? a rest seen := by
  obtain ⟨n, hn⟩ := rounds_eq a
  simp only [meeting?, hn, retrace_seen h, List.reverse_nil]

theorem meeting?_of_alone (h : id ∉ seen) (hback : ∀ w ∈ a.backward id, w ∈ id :: seen) :
    meeting? a (id :: rest) seen = meeting? a rest (id :: seen) := by
  obtain ⟨n, hn⟩ := rounds_eq a
  simp only [meeting?, hn, retrace_first h hback, List.reverse_singleton]

theorem meeting?_of_met {w : TaskId} (h : id ∉ seen) (hw : w ∈ a.backward id)
    (hnew : w ∉ id :: seen) :
    ∃ x, x ∈ a.backward id ∧ x ∉ id :: seen ∧ meeting? a (id :: rest) seen = some x := by
  obtain ⟨n, hn⟩ := rounds_eq a
  obtain ⟨x, hx, hfresh, more, hmet⟩ := retrace_second n h hw hnew
  refine ⟨x, hx, hfresh, ?_⟩
  have hrev : (retrace a (n + 2) [id] seen []).1.reverse = id :: x :: more.reverse := by
    rw [← hmet]
    simp
  simp only [meeting?, hn, hrev]

end Meeting

/-- If no two tasks meet, no descent against the edges goes on forever. -/
theorem acc_of_meeting?_eq_none {a : Arrows} (hc : a.Closed) (hself : ∀ u, u ∉ a.forward u)
    {l seen : List TaskId} (h : meeting? a l seen = none) (hseen : ∀ u ∈ seen, Acc a.Edge u) :
    ∀ u ∈ l, Acc a.Edge u := by
  induction l generalizing seen with
  | nil => simp
  | cons id rest ih =>
    by_cases hs : id ∈ seen
    · rw [meeting?_of_mem rest hs] at h
      intro u hu
      rcases List.mem_cons.mp hu with rfl | hu
      · exact hseen u hs
      · exact ih h hseen u hu
    · have hback : ∀ w ∈ a.backward id, w ∈ id :: seen := by
        intro w hw
        by_contra hnew
        obtain ⟨x, -, -, hx⟩ := meeting?_of_met rest hs hw hnew
        rw [hx] at h
        cases h
      have hacc : Acc a.Edge id := by
        refine ⟨id, fun w hw => hseen w ?_⟩
        have hm := hback w (hc.mem_backward.mpr hw)
        exact (List.mem_cons.mp hm).resolve_left fun e => hself id (e ▸ hw)
      rw [meeting?_of_alone rest hs hback] at h
      intro u hu
      rcases List.mem_cons.mp hu with rfl | hu
      · exact hacc
      · refine ih h (fun v hv => ?_) u hu
        rcases List.mem_cons.mp hv with rfl | hv
        · exact hacc
        · exact hseen v hv

theorem not_transGen_self_of_acc {r : TaskId → TaskId → Prop} {u : TaskId} (h : Acc r u) :
    ¬ Relation.TransGen r u u := by
  have hacc := h.transGen
  clear h
  induction hacc with
  | intro x _ ih => exact fun hx => ih x hx hx

theorem Downward.forward_mem {a : Arrows} {l : List TaskId} (h : Downward a l) {w v : TaskId}
    (hw : w ∈ l) (hv : v ∈ a.forward w) : v ∈ l ∨ Relation.ReflTransGen a.Edge v w := by
  induction l with
  | nil => cases hw
  | cons u l ih =>
    obtain ⟨_, hnext, hrest⟩ := h
    rcases List.mem_cons.mp hw with rfl | hw
    · exact (hnext v hv).imp_left (List.mem_cons_of_mem _)
    · exact (ih hrest hw).imp_left (List.mem_cons_of_mem _)

/-- Two or more edges lead from a task to another one and back. -/
def Circles (edge : TaskId → TaskId → Prop) (x : TaskId) : Prop :=
  ∃ y, y ≠ x ∧ edge x y ∧ Relation.TransGen edge y x

/-- The task met lies on a cycle: it comes after the start among the tasks left, and its edge to the start
does not lead further down. -/
theorem circles_of_meeting? {a : Arrows} (hc : a.Closed) {l seen : List TaskId} (h : Downward a l)
    (hback : ∀ u ∈ l, ∀ w ∈ a.backward u, w ∈ seen ∨ w ∈ l) {x : TaskId}
    (hx : meeting? a l seen = some x) : Circles a.Edge x := by
  induction l generalizing seen with
  | nil => cases hx
  | cons id rest ih =>
    obtain ⟨hid, -, hrest⟩ := h
    have hkept : ∀ {seen'}, id ∈ seen' → seen ⊆ seen' →
        ∀ u ∈ rest, ∀ w ∈ a.backward u, w ∈ seen' ∨ w ∈ rest := by
      intro seen' hmem hsub u hu w hw
      rcases hback u (List.mem_cons_of_mem _ hu) w hw with hw | hw
      · exact Or.inl (hsub hw)
      · exact (List.mem_cons.mp hw).imp_left fun (e : w = id) => e ▸ hmem
    by_cases hs : id ∈ seen
    · rw [meeting?_of_mem rest hs] at hx
      exact ih hrest (hkept hs (List.Subset.refl seen)) hx
    · by_cases halone : ∀ w ∈ a.backward id, w ∈ id :: seen
      · rw [meeting?_of_alone rest hs halone] at hx
        exact ih hrest (hkept List.mem_cons_self (List.subset_cons_self id seen)) hx
      · push Not at halone
        obtain ⟨w, hw, hnew⟩ := halone
        obtain ⟨y, hy, hfresh, hmet⟩ := meeting?_of_met rest hs hw hnew
        obtain rfl : y = x := Option.some.inj (hmet.symm.trans hx)
        obtain ⟨hne, hunseen⟩ : y ≠ id ∧ y ∉ seen := by simpa using hfresh
        -- all starts before this one met nothing, so a task not seen is still to come
        have hbelow : y ∈ rest := by
          have hm := (hback id List.mem_cons_self y hy).resolve_left hunseen
          exact (List.mem_cons.mp hm).resolve_left hne
        have hedge : a.Edge y id := hc.mem_backward.mp hy
        -- the start is not below itself, so it was not left before the task met: it leads to it
        have hleads := (hrest.forward_mem hbelow hedge).resolve_left hid
        refine ⟨id, Ne.symm hne, hedge, ?_⟩
        exact (Relation.reflTransGen_iff_eq_or_transGen.mp hleads).resolve_left hne

theorem circles_of_leaving {a : Arrows} (hc : a.Closed) {x : TaskId}
    (hx : meeting? a (leaving a) [] = some x) : Circles a.Edge x := by
  refine circles_of_meeting? hc (downward_leaving hc) (fun u _ w hw => Or.inr ?_) hx
  exact mem_leaving hc (hc.source_mem (hc.mem_backward.mp hw))

/-- Two tasks meet in the second search exactly if the edges make a cycle. -/
theorem meeting?_leaving_iff {a : Arrows} (hc : a.Closed) (hself : ∀ u, u ∉ a.forward u) :
    meeting? a (leaving a) [] = none ↔ a.Acyclic := by
  constructor
  · intro h u hu
    have hacc : ∀ v ∈ a.ids, Acc a.Edge v := fun v hv =>
      acc_of_meeting?_eq_none hc hself h (by simp) v (mem_leaving hc hv)
    obtain ⟨w, -, hw⟩ := Relation.TransGen.tail'_iff.mp hu
    exact not_transGen_self_of_acc (hacc u (hc.mem_ids hw)) hu
  · intro h
    cases hm : meeting? a (leaving a) [] with
    | none => rfl
    | some x =>
      obtain ⟨y, -, he, hback⟩ := circles_of_leaving hc hm
      exact absurd (hback.head he) (h x)

end Rollout.Graph
