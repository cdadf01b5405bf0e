import Rollout.Proofs.LeastOrder

/-! Orders of all tasks of a plan that follow its edges. The order of a graph is the least of them, compared
task by task, so that the ids and the edges of a plan alone decide it. -/

namespace Rollout

structure Plan.Arranges (p : Plan) (l : List TaskId) : Prop where
  nodup : l.Nodup
  mem_iff : ∀ id, id ∈ l ↔ id ∈ p.ids
  edges : ∀ a b, p.Edge a b → l.idxOf a < l.idxOf b

theorem Plan.Arranges.congr {p q : Plan} (hids : ∀ id, id ∈ q.ids ↔ id ∈ p.ids)
    (hedges : ∀ a b, q.Edge a b ↔ p.Edge a b) {l : List TaskId} (h : q.Arranges l) : p.Arranges l :=
  ⟨h.nodup, fun id => (h.mem_iff id).trans (hids id), fun a b he => h.edges a b ((hedges a b).mpr he)⟩

namespace Graph

/-- The second list takes all tasks that the first has not taken, each after its predecessors. -/
def Takes (g : Graph) : List TaskId → List TaskId → Prop
  | taken, [] => ∀ x ∈ g.ids, x ∈ taken
  | taken, x :: rest => g.Open taken x ∧ g.Takes (x :: taken) rest

theorem TakesLeast.takes {g : Graph} {taken order : List TaskId} (h : g.TakesLeast taken order) :
    g.Takes taken order := by
  induction order generalizing taken with
  | nil => exact h
  | cons x order ih => exact ⟨h.1, ih h.2.2⟩

/-- Where two ways to take the tasks part, the least one takes the lesser task. -/
theorem TakesLeast.least {g : Graph} {taken order l : List TaskId} (h : g.TakesLeast taken order)
    (hl : g.Takes taken l) : order = l ∨ List.Lex (· < ·) order l := by
  induction order generalizing taken l with
  | nil =>
    cases l with
    | nil => exact Or.inl rfl
    | cons y l => exact absurd (h y hl.1.known) hl.1.fresh
  | cons x order ih =>
    obtain ⟨hx, hleast, hrest⟩ := h
    cases l with
    | nil => exact absurd (hl x hx.known) hx.fresh
    | cons y l =>
      obtain ⟨hy, hl⟩ := hl
      by_cases he : x = y
      · subst y
        exact (ih hrest hl).imp (congrArg (x :: ·)) .cons
      · exact Or.inr (.rel (Std.lt_of_le_of_ne (hleast y hy) he))

theorem Takes.nodup {g : Graph} {taken l : List TaskId} (h : g.Takes taken l) :
    l.Nodup ∧ ∀ x ∈ l, x ∉ taken := by
  induction l generalizing taken with
  | nil => simp
  | cons x l ih =>
    obtain ⟨hx, hl⟩ := h
    obtain ⟨hnd, hfresh⟩ := ih hl
    refine ⟨List.nodup_cons.mpr ⟨fun hm => hfresh x hm List.mem_cons_self, hnd⟩, fun y hy => ?_⟩
    rcases List.mem_cons.mp hy with rfl | hy
    · exact hx.fresh
    · exact fun hm => hfresh y hy (List.mem_cons_of_mem x hm)

theorem Takes.mem {g : Graph} {taken l : List TaskId} (h : g.Takes taken l) {x : TaskId}
    (hx : x ∈ g.ids) : x ∈ taken ∨ x ∈ l := by
  induction l generalizing taken with
  | nil => exact Or.inl (h x hx)
  | cons y l ih =>
    have hm := ih h.2
    simp only [List.mem_cons] at hm ⊢
    exact or_left_comm.mp (or_assoc.mp hm)

theorem Takes.open {g : Graph} {taken before after : List TaskId} {x : TaskId}
    (h : g.Takes taken (before ++ x :: after)) : g.Open (before.reverse ++ taken) x := by
  induction before generalizing taken with
  | nil => exact h.1
  | cons y before ih => simpa using ih h.2

theorem idxOf_lt_iff {before after : List TaskId} {a b : TaskId} (hb : b ∉ before) :
    (before ++ b :: after).idxOf a < (before ++ b :: after).idxOf b ↔ a ∈ before := by
  have hplace : (before ++ b :: after).idxOf b = before.length := by
    simp [List.idxOf_append_of_notMem hb]
  rw [hplace]
  by_cases ha : a ∈ before
  · rw [List.idxOf_append_of_mem ha]
    exact List.idxOf_lt_length_iff
  · rw [List.idxOf_append_of_notMem ha]
    simp [ha]

section Plan

variable {p : Plan} {g : Graph} (h : ofPlan p = .ok g)
include h

theorem Takes.arranges {l : List TaskId} (hl : g.Takes [] l) : p.Arranges l := by
  have hnd := hl.nodup.1
  have hmem : ∀ id, id ∈ l ↔ id ∈ p.ids := by
    intro id
    rw [← mem_ids_of_ofPlan h]
    constructor
    · intro hm
      obtain ⟨before, after, rfl⟩ := List.append_of_mem hm
      exact hl.open.known
    · exact fun hm => (hl.mem hm).resolve_left List.not_mem_nil
  refine ⟨hnd, hmem, fun a b he => ?_⟩
  rw [← edge_iff_of_ofPlan h] at he
  have hb : b ∈ l := (hmem b).mpr ((mem_ids_of_ofPlan h).mp ((valid_of_ofPlan h).mem_ids he).2)
  obtain ⟨before, after, rfl⟩ := List.append_of_mem hb
  have hnew : b ∉ before := by simpa using hl.open.fresh
  rw [idxOf_lt_iff hnew]
  simpa using hl.open.preceded a he

/-- Every arrangement takes the tasks one by one, whatever it has taken so far. -/
theorem takes_of_arranges {l before rest : List TaskId} (hl : p.Arranges l)
    (hsplit : l = before ++ rest) : g.Takes before.reverse rest := by
  induction rest generalizing before with
  | nil =>
    intro x hx
    rw [mem_ids_of_ofPlan h, ← hl.mem_iff, hsplit] at hx
    simpa using hx
  | cons x rest ih =>
    have hnew : x ∉ before := by
      have hnd := List.nodup_middle.mp (hsplit ▸ hl.nodup)
      exact fun hm => (List.nodup_cons.mp hnd).1 (List.mem_append_left rest hm)
    have hknown : x ∈ g.ids := by
      rw [mem_ids_of_ofPlan h, ← hl.mem_iff, hsplit]
      simp
    refine ⟨⟨hknown, by simpa using hnew, fun a he => ?_⟩, ?_⟩
    · have hlt := hl.edges a x ((edge_iff_of_ofPlan h).mp he)
      rw [hsplit, idxOf_lt_iff hnew] at hlt
      simpa using hlt
    · have hrest : g.Takes (before ++ [x]).reverse rest := ih (by simp [hsplit])
      simpa using hrest

theorem arranges_order : p.Arranges g.order :=
  (takesLeast_order h).takes.arranges h

theorem order_le_of_arranges {l : List TaskId} (hl : p.Arranges l) :
    g.order = l ∨ List.Lex (· < ·) g.order l := by
  have htakes : g.Takes ([] : List TaskId).reverse l := takes_of_arranges h hl rfl
  exact (takesLeast_order h).least htakes

/-- The order of a graph is the lexicographically least of the orders that follow the edges; it depends on
the ids and the edges alone. -/
theorem order_least :
    p.Arranges g.order ∧ (∀ l, p.Arranges l → g.order = l ∨ List.Lex (· < ·) g.order l) ∧
      ∀ q g', ofPlan q = .ok g' → (∀ id, id ∈ q.ids ↔ id ∈ p.ids) →
        (∀ a b, q.Edge a b ↔ p.Edge a b) → g'.order = g.order := by
  refine ⟨arranges_order h, fun l hl => order_le_of_arranges h hl, fun q g' hq hids hedges => ?_⟩
  have hp : p.Arranges g'.order := (arranges_order hq).congr hids hedges
  have hq' : q.Arranges g.order :=
    (arranges_order h).congr (fun id => (hids id).symm) fun a b => (hedges a b).symm
  rcases order_le_of_arranges h hp with he | hlt
  · exact he.symm
  · rcases order_le_of_arranges hq hq' with he | hgt
    · exact he
    · exact absurd hgt (List.lt_asymm hlt)

end Plan

/-- Two tasks after the greatest one, and one beside them. -/
def tangledPlan : Plan :=
  ⟨"tangled", [⟨4, .createNamespace "d", [], [2, 1]⟩, ⟨2, .createNamespace "b", [4], []⟩,
    ⟨3, .createNamespace "c", [], []⟩, ⟨1, .createNamespace "a", [4], []⟩]⟩

def tangled : Graph := index "tangled" (taskTable tangledPlan)

theorem order_least_tangled : tangled.order = [3, 4, 1, 2] ∧ tangledPlan.Arranges tangled.order ∧
    (∀ l, tangledPlan.Arranges l → tangled.order = l ∨ List.Lex (· < ·) tangled.order l) ∧
    ∀ g, ofPlan ⟨"turned", tangledPlan.tasks.reverse⟩ = .ok g → g.order = tangled.order := by
  obtain ⟨harranges, hleast, hsame⟩ := order_least (p := tangledPlan) (g := tangled) rfl
  refine ⟨rfl, harranges, hleast, fun g hg => hsame _ g hg (fun id => ?_) fun a b => ?_⟩
  · simp [Plan.ids]
  · exact iff_of_eq (congrFun₂ (leads_congr (List.reverse_perm tangledPlan.tasks)) a b)

end Graph

end Rollout
