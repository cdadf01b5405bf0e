import Rollout.Proofs.GraphOrder

/-! The order of a graph takes the least of the tasks whose predecessors are all taken, time after time,
until no task is left. -/

namespace Rollout.Graph

/-- A task that may be taken next. -/
structure Open (g : Graph) (taken : List TaskId) (x : TaskId) : Prop where
  known : x ∈ g.ids
  fresh : x ∉ taken
  preceded : ∀ a, g.Edge a x → a ∈ taken

def TakesLeast (g : Graph) : List TaskId → List TaskId → Prop
  | taken, [] => ∀ x ∈ g.ids, x ∈ taken
  | taken, x :: rest =>
    g.Open taken x ∧ (∀ y, g.Open taken y → x ≤ y) ∧ g.TakesLeast (x :: taken) rest

/-- How many tasks right before this one are not taken. -/
def missing (g : Graph) (taken : List TaskId) (x : TaskId) : Nat :=
  (g.predecessors x).countP (· ∉ taken)

theorem missing_eq_zero_iff {g : Graph} (hv : g.Valid) {taken : List TaskId} {x : TaskId} :
    g.missing taken x = 0 ↔ ∀ a, g.Edge a x → a ∈ taken := by
  rw [missing, List.countP_eq_zero]
  constructor
  · intro h a he
    simpa using h a (hv.mem_predecessors.mpr he)
  · intro h a ha
    simpa using h a (hv.mem_predecessors.mp ha)

section Taking

variable {g : Graph} (hv : g.Valid) {taken : List TaskId} {id : TaskId}
include hv

theorem missing_of_edge (hid : id ∉ taken) {x : TaskId} (he : g.Edge id x) :
    g.missing taken x = g.missing (id :: taken) x + 1 := by
  refine countP_change (hv.nodup_predecessors x) (hv.mem_predecessors.mpr he) (by simpa using hid)
    (by simp) fun a ha => ?_
  simp [ha]

theorem missing_of_not_edge {x : TaskId} (he : ¬ g.Edge id x) :
    g.missing (id :: taken) x = g.missing taken x := by
  apply List.countP_congr
  intro a ha
  have hne : a ≠ id := fun e => he (e ▸ hv.mem_predecessors.mp ha)
  simp [hne]

end Taking

theorem find?_foldl_countDown {l : List TaskId} (hnd : l.Nodup) (c : Table TaskId Nat) (x : TaskId) :
    (l.foldl (fun (c : Table TaskId Nat) s => c.modify s (· - 1)) c).find? x =
      if x ∈ l then (c.find? x).map (· - 1) else c.find? x := by
  induction l generalizing c with
  | nil => simp
  | cons s l ih =>
    obtain ⟨hs, hl⟩ := List.nodup_cons.mp hnd
    rw [List.foldl_cons, ih hl, Table.find?_modify]
    by_cases hx : x = s
    · simp [hx, hs]
    · simp [hx]

theorem mem_foldl_insertId {l r : List TaskId} {x : TaskId} :
    x ∈ l.foldl (fun r s => insertId s r) r ↔ x ∈ l ∨ x ∈ r := by
  induction l generalizing r with
  | nil => simp
  | cons s l ih => rw [List.foldl_cons, ih, mem_insertId, List.mem_cons, or_left_comm, or_assoc]

theorem pairwise_foldl_insertId (l : List TaskId) {r : List TaskId} (h : r.Pairwise (· < ·)) :
    (l.foldl (fun r s => insertId s r) r).Pairwise (· < ·) := by
  induction l generalizing r with
  | nil => exact h
  | cons s l ih => exact ih (pairwise_insertId h)

/-- The counters and the tasks that are ready after some tasks were taken. -/
structure Counted (g : Graph) (taken : List TaskId) (remaining : Table TaskId Nat)
    (ready : List TaskId) : Prop where
  left : ∀ x ∈ g.ids, remaining.find? x = some (g.missing taken x)
  mem_ready : ∀ {x}, x ∈ ready ↔ g.Open taken x
  ascending : ready.Pairwise (· < ·)
  closed : ∀ x ∈ taken, ∀ a, g.Edge a x → a ∈ taken

section Counted

variable {g : Graph} (hv : g.Valid) {taken ready : List TaskId} {remaining : Table TaskId Nat}
  {id : TaskId}
include hv

/-- A counter that is counted down stands above zero. -/
theorem Counted.find?_of_edge (h : g.Counted taken remaining (id :: ready)) {x : TaskId}
    (he : g.Edge id x) : remaining.find? x = some (g.missing (id :: taken) x + 1) := by
  have hid : g.Open taken id := h.mem_ready.mp List.mem_cons_self
  rw [h.left x (hv.mem_ids he).2, missing_of_edge hv hid.fresh he]

theorem Counted.take (h : g.Counted taken remaining (id :: ready)) :
    let counts := (g.successors id).foldl (fun (c : Table TaskId Nat) s => c.modify s (· - 1)) remaining
    let freed := (g.successors id).filter fun s => counts.find? s = some 0
    g.Counted (id :: taken) counts (freed.foldl (fun r s => insertId s r) ready) := by
  intro counts freed
  have hid : g.Open taken id := h.mem_ready.mp List.mem_cons_self
  obtain ⟨hleast, hascending⟩ := List.pairwise_cons.mp h.ascending
  have hleft : ∀ x ∈ g.ids, counts.find? x = some (g.missing (id :: taken) x) := by
    intro x hx
    rw [find?_foldl_countDown (hv.nodup_successors id)]
    by_cases he : x ∈ g.successors id
    · rw [if_pos he, h.find?_of_edge hv he]
      rfl
    · rw [if_neg he, h.left x hx, missing_of_not_edge hv he]
  have hfreed : ∀ {x}, x ∈ freed ↔ g.Edge id x ∧ ∀ a, g.Edge a x → a ∈ id :: taken := by
    intro x
    rw [List.mem_filter, decide_eq_true_eq]
    refine and_congr_right fun he => ?_
    rw [hleft x (hv.mem_ids he).2, Option.some_inj, missing_eq_zero_iff hv]
  refine ⟨hleft, fun {x} => ?_, pairwise_foldl_insertId freed hascending, fun x hx a he => ?_⟩
  · rw [mem_foldl_insertId, hfreed]
    constructor
    · rintro (⟨he, hall⟩ | hx)
      · refine ⟨(hv.mem_ids he).2, fun hm => ?_, hall⟩
        rcases List.mem_cons.mp hm with rfl | hm
        · exact hv.acyclic x (.single he)
        · exact hid.fresh (h.closed x hm id he)
      · have hopen := h.mem_ready.mp (List.mem_cons_of_mem id hx)
        refine ⟨hopen.known, fun hm => ?_, fun a he => List.mem_cons_of_mem _ (hopen.preceded a he)⟩
        rcases List.mem_cons.mp hm with rfl | hm
        · exact Std.lt_irrefl (hleast x hx)
        · exact hopen.fresh hm
    · intro hopen
      by_cases he : g.Edge id x
      · exact Or.inl ⟨he, hopen.preceded⟩
      · refine Or.inr ?_
        have hold : g.Open taken x := by
          refine ⟨hopen.known, fun hm => hopen.fresh (List.mem_cons_of_mem _ hm), fun a ha => ?_⟩
          refine (List.mem_cons.mp (hopen.preceded a ha)).resolve_left fun e => he (e ▸ ha)
        refine (List.mem_cons.mp (h.mem_ready.mpr hold)).resolve_left fun e => ?_
        exact hopen.fresh (List.mem_cons.mpr (Or.inl e))
  · rcases List.mem_cons.mp hx with rfl | hx
    · exact List.mem_cons_of_mem _ (hid.preceded a he)
    · exact List.mem_cons_of_mem _ (h.closed x hx a he)

/-- As long as a task is left, one of those left has all its predecessors taken. -/
theorem mem_of_none_open (h : ∀ x, ¬ g.Open taken x) {x : TaskId} (hx : x ∈ g.ids) : x ∈ taken := by
  induction x using hv.wellFounded_before.induction with
  | _ x ih =>
    by_contra hn
    exact h x ⟨hx, hn, fun a he => ih a (.single he) (hv.mem_ids he).1⟩

theorem takesLeast_leastOrder (fuel : Nat) (h : g.Counted taken remaining ready)
    (hnd : taken.Nodup) (hsub : taken ⊆ g.ids) (hfuel : taken.length + fuel = g.ids.length) :
    g.TakesLeast taken (leastOrder g.successors fuel remaining ready) := by
  induction fuel generalizing taken remaining ready with
  | zero =>
    have hperm := (hnd.subperm hsub).perm_of_length_le hfuel.ge
    exact fun x hx => hperm.mem_iff.mpr hx
  | succ fuel ih =>
    cases ready with
    | nil => exact fun x hx => mem_of_none_open hv (fun y hy => List.not_mem_nil (h.mem_ready.mpr hy)) hx
    | cons id ready =>
      have hid : g.Open taken id := h.mem_ready.mp List.mem_cons_self
      refine ⟨hid, fun y hy => ?_, ih (h.take hv) (List.nodup_cons.mpr ⟨hid.fresh, hnd⟩)
        (List.cons_subset.mpr ⟨hid.known, hsub⟩) (by rw [List.length_cons]; omega)⟩
      rcases List.mem_cons.mp (h.mem_ready.mpr hy) with rfl | hy
      · exact Std.le_refl y
      · exact Std.le_of_lt ((List.pairwise_cons.mp h.ascending).1 y hy)

theorem counted_nil : g.Counted [] (g.tasks.map fun _ t => t.predecessors.length) g.roots := by
  refine ⟨fun x hx => ?_, fun {x} => ?_, hv.pairwise_roots, nofun⟩
  · obtain ⟨t, ht⟩ := mem_ids_iff.mp hx
    rw [Table.find?_map, show g.tasks.find? x = some t from ht, missing, predecessors_of_task? ht]
    simp
  · rw [hv.mem_roots, List.eq_nil_iff_forall_not_mem]
    constructor
    · rintro ⟨hx, hnone⟩
      exact ⟨hx, List.not_mem_nil, fun a he => (hnone a (hv.mem_predecessors.mpr he)).elim⟩
    · intro hopen
      exact ⟨hopen.known, fun a ha => List.not_mem_nil (hopen.preceded a (hv.mem_predecessors.mp ha))⟩

end Counted

theorem takesLeast_order {p : Plan} {g : Graph} (h : ofPlan p = .ok g) : g.TakesLeast [] g.order := by
  have hv := valid_of_ofPlan h
  have hsize : ([] : List TaskId).length + g.size = g.ids.length := by
    rw [List.length_nil, Nat.zero_add]
    exact Table.size_eq_length_keys g.tasks
  have hleast := takesLeast_leastOrder hv g.size (counted_nil hv) List.nodup_nil (List.nil_subset _) hsize
  obtain ⟨-, rfl⟩ := ofPlan_eq_ok_iff.mp h
  exact hleast

/-- A list of all tasks with a property, each the least of those with the property that may be taken next. -/
structure LeastOf (g : Graph) (P : TaskId → Bool) (l : List TaskId) : Prop where
  least : ∀ {before x after}, l = before ++ x :: after →
    P x = true ∧ g.Open before x ∧ ∀ y, P y = true → g.Open before y → x ≤ y
  all : ∀ x ∈ g.ids, P x = true → x ∈ l

theorem Open.of_same {g : Graph} {P : TaskId → Bool} {taken taken' : List TaskId} {x : TaskId}
    (hclosed : ∀ {a b}, g.Edge a b → P b = true → P a = true) (hx : P x = true)
    (hsame : ∀ y, P y = true → (y ∈ taken ↔ y ∈ taken')) (h : g.Open taken x) : g.Open taken' x :=
  ⟨h.known, fun hm => h.fresh ((hsame x hx).mpr hm),
    fun a he => (hsame a (hclosed he hx)).mp (h.preceded a he)⟩

/-- Tasks without the property, behind which none with the property is, make no difference to the order in
which the others are taken. -/
theorem TakesLeast.filter {g : Graph} {P : TaskId → Bool}
    (hclosed : ∀ {a b}, g.Edge a b → P b = true → P a = true) {l : List TaskId} (hl : g.LeastOf P l)
    {taken order before rest : List TaskId} (h : g.TakesLeast taken order)
    (hsplit : l = before ++ rest) (hsame : ∀ x, P x = true → (x ∈ taken ↔ x ∈ before)) :
    rest = order.filter P := by
  induction order generalizing taken before rest with
  | nil =>
    cases rest with
    | nil => rfl
    | cons y rest =>
      obtain ⟨hy, hopen, -⟩ := hl.least hsplit
      exact absurd ((hsame y hy).mp (h y hopen.known)) hopen.fresh
  | cons x order ih =>
    obtain ⟨hopen, hleast, hrest⟩ := h
    cases hx : P x with
    | false =>
      rw [List.filter_cons_of_neg (by simp [hx])]
      refine ih hrest hsplit fun y hy => ?_
      have hne : y ≠ x := fun e => by simp [← e, hy] at hx
      rw [List.mem_cons, or_iff_right hne, hsame y hy]
    | true =>
      rw [List.filter_cons_of_pos hx]
      have hopen' := hopen.of_same hclosed hx hsame
      cases rest with
      | nil =>
        rw [List.append_nil] at hsplit
        exact absurd (hsplit ▸ hl.all x hopen.known hx) hopen'.fresh
      | cons y rest =>
        obtain ⟨hy, hyopen, hyleast⟩ := hl.least hsplit
        have hsame' := fun z hz => (hsame z hz).symm
        obtain rfl : y = x := Std.le_antisymm (hyleast x hx hopen')
          (hleast y (hyopen.of_same hclosed hy hsame'))
        have hmore : l = (before ++ [y]) ++ rest := by rw [hsplit, List.append_assoc, List.singleton_append]
        refine congrArg (y :: ·) (ih hrest hmore fun z hz => ?_)
        rw [List.mem_cons, List.mem_append, List.mem_singleton, hsame z hz, or_comm]

end Rollout.Graph
