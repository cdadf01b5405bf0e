import Rollout.Proofs.ByteOrder
import Rollout.Proofs.ContextWrites

/-! What a context holds after any writes. The first write that got as far as a key decides for good what stands
under it, and a write that meets a key that is taken names the writer that came first. -/

namespace Rollout

namespace Context

open Text

inductive Write
  | one (key : String) (producer : TaskId) (value : Json)
  | all (producer : TaskId) (outputs : Outputs)

namespace Write

def producer : Write → TaskId
  | one _ producer _ => producer
  | all producer _ => producer

def outputs : Write → Outputs
  | one key _ value => Table.empty.insert key value
  | all _ outputs => outputs

/-- Whether the values come by ascending key, as several do that are kept in a table. -/
def Ordered (w : Write) : Prop := w.outputs.pairs.Pairwise fun p q => Below p.1 q.1

def carryOut (c : Context) : Write → Context
  | one key producer value => (c.write key producer value).toOption.getD c
  | all producer outputs => (c.writeAll producer outputs.pairs).1

end Write

def after (ws : List Write) : Context := ws.foldl Write.carryOut .empty

/-- What is left under a key by some writes, the last one first: what was there before, or else what the write
offers unless a key up to this one was taken. -/
def held : List Write → String → Option Entry
  | [], _ => none
  | w :: earlier, key => (held earlier key).or
      (if ∀ j ∈ w.outputs.keys, Below key j ∨ (held earlier j).isNone then
        (w.outputs.find? key).map (Entry.mk w.producer)
      else none)

/-- Whatever can be asked of a context is told by what it holds. -/
structure Shows (c : Context) (held : String → Option Entry) : Prop where
  get : ∀ key, c.find? key = held key
  contains : ∀ key, c.contains key = true ↔ ∃ e, held key = some e
  size : ∃ keys : List String, keys.Nodup ∧ (∀ key, key ∈ keys ↔ ∃ e, held key = some e) ∧
    c.size = keys.length
  isEmpty : c.isEmpty = true ↔ ∀ key, held key = none
  snapshot : ∀ key e, (key, e) ∈ c.pairs ↔ held key = some e
  ascending : c.pairs.Pairwise fun p q => Below p.1 q.1

/-- How a context takes writes. The first key that is taken is the least one, and what comes below it gets in. -/
structure TakesOnce (c : Context) : Prop where
  one_taken : ∀ {key first}, c.find? key = some first → ∀ producer value,
    c.write key producer value = .error (.duplicate key first.producer producer) ∧
    (Write.one key producer value).carryOut c = c
  one_free : ∀ {key}, c.find? key = none → ∀ producer value, ∃ c', c.write key producer value = .ok c' ∧
    ∀ k e, c'.find? k = some e ↔ c.find? k = some e ∨ k = key ∧ e = ⟨producer, value⟩
  all_taken : ∀ {outputs : Outputs}, (outputs.pairs.Pairwise fun p q => Below p.1 q.1) →
    (∃ key ∈ outputs.keys, c.contains key = true) → ∀ producer, ∃ c' key first,
    c.writeAll producer outputs.pairs = (c', some (.duplicate key first.producer producer)) ∧
    key ∈ outputs.keys ∧ c.find? key = some first ∧ (∀ j ∈ outputs.keys, Below j key → c.find? j = none) ∧
    ∀ k e, c'.find? k = some e ↔
      c.find? k = some e ∨ e.producer = producer ∧ (k, e.value) ∈ outputs.pairs ∧ Below k key
  all_free : ∀ {outputs : Outputs}, (outputs.pairs.Pairwise fun p q => Below p.1 q.1) →
    (∀ key ∈ outputs.keys, c.contains key = false) → ∀ producer, ∃ c',
    c.writeAll producer outputs.pairs = (c', none) ∧
    ∀ k e, c'.find? k = some e ↔ c.find? k = some e ∨ e.producer = producer ∧ (k, e.value) ∈ outputs.pairs

variable {c c' : Context} {producer : TaskId} {key : String} {pairs : List (String × Json)}

theorem nodup_of_ascending (h : pairs.Pairwise fun p q => Below p.1 q.1) : (pairs.map Prod.fst).Nodup := by
  refine List.pairwise_map.mpr (h.imp fun hlt he => ?_)
  rw [below_iff_lt, he] at hlt
  exact Std.lt_irrefl hlt

theorem mem_kept_iff {kept rest : List (String × Json)} {value : Json}
    (h : (kept ++ (key, value) :: rest).Pairwise fun p q => Below p.1 q.1) {q : String × Json} :
    q ∈ kept ↔ q ∈ kept ++ (key, value) :: rest ∧ Below q.1 key := by
  obtain ⟨-, hrest, hcross⟩ := List.pairwise_append.mp h
  constructor
  · exact fun hq => ⟨List.mem_append_left _ hq, hcross q hq (key, value) List.mem_cons_self⟩
  · rintro ⟨hq, hbelow⟩
    rw [below_iff_lt] at hbelow
    rcases List.mem_append.mp hq with hq | hq
    · exact hq
    · rcases List.mem_cons.mp hq with rfl | hq
      · exact absurd hbelow Std.lt_irrefl
      · have hback := below_iff_lt.mp ((List.pairwise_cons.mp hrest).1 q hq)
        exact absurd hbelow (Std.not_gt_of_lt hback)

/-- Outputs of which some key is taken get in below the least such key. -/
theorem writeAll_of_taken (hs : pairs.Pairwise fun p q => Below p.1 q.1)
    (htaken : ∃ q ∈ pairs, Table.find? c q.1 ≠ none) (producer : TaskId) : ∃ c' key first,
    c.writeAll producer pairs = (c', some (.duplicate key first.producer producer)) ∧
    key ∈ pairs.map Prod.fst ∧ Table.find? c key = some first ∧
    (∀ q ∈ pairs, Below q.1 key → Table.find? c q.1 = none) ∧
    ∀ k e, Table.find? c' k = some e ↔
      Table.find? c k = some e ∨ e.producer = producer ∧ (k, e.value) ∈ pairs ∧ Below k key := by
  cases hw : c.writeAll producer pairs with
  | mk c' fault =>
    cases fault with
    | none =>
      obtain ⟨q, hq, hne⟩ := htaken
      exact absurd ((extends_of_written hw).free q hq) hne
    | some f =>
      obtain ⟨kept, key, value, rest, first, rfl, hext, hfirst, rfl⟩ := extends_of_taken hw
      refine ⟨c', key, first, rfl, by simp, ?_, fun q hq hbelow => ?_, fun k e => ?_⟩
      · refine (hext.find?_iff.mp hfirst).resolve_right fun hnew => ?_
        exact Std.lt_irrefl (below_iff_lt.mp ((mem_kept_iff hs).mp hnew.2).2)
      · exact hext.free q ((mem_kept_iff hs).mpr ⟨hq, hbelow⟩)
      · rw [hext.find?_iff, mem_kept_iff hs]

theorem takesOnce (c : Context) : TakesOnce c where
  one_taken {key first} hfirst producer value := by
    have hfail : c.write key producer value = .error (.duplicate key first.producer producer) := by
      simp [write, hfirst]
    exact ⟨hfail, by simp [Write.carryOut, hfail, Except.toOption]⟩
  one_free {key} hfree producer value := by
    refine ⟨_, write_of_free hfree producer value, fun k e => ?_⟩
    rw [Table.find?_insert]
    by_cases hk : k = key
    · simp [hk, hfree, eq_comm]
    · simp [hk]
  all_taken {outputs} hs htaken producer := by
    obtain ⟨key, hkey, hcontains⟩ := htaken
    obtain ⟨q, hq, rfl⟩ := List.mem_map.mp hkey
    obtain ⟨c', key, first, hw, hmem, hfirst, hbelow, hkept⟩ := writeAll_of_taken hs
      ⟨q, hq, Option.isSome_iff_ne_none.mp hcontains⟩ producer
    refine ⟨c', key, first, hw, hmem, hfirst, fun j hj hlt => ?_, hkept⟩
    obtain ⟨r, hr, rfl⟩ := List.mem_map.mp hj
    exact hbelow r hr hlt
  all_free {outputs} hs hfree producer := by
    have hnone : (c.writeAll producer outputs.pairs).2 = none :=
      writeAll_of_free (nodup_of_ascending hs) fun q hq =>
        Option.not_isSome_iff_eq_none.mp (by simpa [Table.contains] using hfree q.1 (List.mem_map_of_mem hq))
    have hw : c.writeAll producer outputs.pairs = ((c.writeAll producer outputs.pairs).1, none) :=
      Prod.ext rfl hnone
    exact ⟨_, hw, fun k e => (extends_of_written hw).find?_iff⟩

theorem carryOut_eq (w : Write) (c : Context) :
    w.carryOut c = (c.writeAll w.producer w.outputs.pairs).1 := by
  cases w with
  | one key producer value =>
    cases hw : c.write key producer value <;>
      simp [Write.carryOut, Write.outputs, Write.producer, Except.toOption, writeAll, hw]
  | all producer outputs => rfl

variable {w : Write}

theorem extends_carryOut (w : Write) (c : Context) : ∃ kept,
    Extends c w.producer kept (w.carryOut c) := by
  obtain ⟨kept, -, hext⟩ := exists_extends_writeAll c w.producer w.outputs.pairs
  exact ⟨kept, by rwa [carryOut_eq]⟩

/-- The keys that a write reaches are those up to which every one is free. -/
theorem find?_carryOut_iff (hw : w.Ordered) {e : Entry} : Table.find? (w.carryOut c) key = some e ↔
    Table.find? c key = some e ∨ e.producer = w.producer ∧ w.outputs.find? key = some e.value ∧
      ∀ j ∈ w.outputs.keys, Below key j ∨ Table.find? c j = none := by
  rw [carryOut_eq, Table.find?_eq_some_iff (nodup_of_ascending hw)]
  by_cases htaken : ∃ q ∈ w.outputs.pairs, Table.find? c q.1 ≠ none
  · obtain ⟨c', least, first, hwrite, hleast, hfirst, hbelow, hkept⟩ :=
      writeAll_of_taken hw htaken w.producer
    have hreach : Below key least ↔ ∀ j ∈ w.outputs.keys, Below key j ∨ Table.find? c j = none := by
      constructor
      · intro hlt j hj
        obtain ⟨q, hq, rfl⟩ := List.mem_map.mp hj
        refine or_iff_not_imp_left.mpr fun hge => hbelow q hq ?_
        rw [below_iff_lt] at hlt hge ⊢
        exact Std.lt_of_le_of_lt (Std.not_lt.mp hge) hlt
      · intro h
        exact (h least hleast).resolve_right (by simp [hfirst])
    rw [hwrite, hkept, hreach]
  · push Not at htaken
    have hwrite : c.writeAll w.producer w.outputs.pairs =
        ((c.writeAll w.producer w.outputs.pairs).1, none) :=
      Prod.ext rfl (writeAll_of_free (nodup_of_ascending hw) htaken)
    have hall : ∀ j ∈ w.outputs.keys, Below key j ∨ Table.find? c j = none := fun j hj => by
      obtain ⟨q, hq, rfl⟩ := List.mem_map.mp hj
      exact Or.inr (htaken q hq)
    rw [(extends_of_written hwrite).find?_iff, and_iff_left hall]

theorem find?_carryOut (hw : w.Ordered) (c : Context) (key : String) : Table.find? (w.carryOut c) key =
    (Table.find? c key).or
      (if ∀ j ∈ w.outputs.keys, Below key j ∨ (Table.find? c j).isNone then
        (w.outputs.find? key).map (Entry.mk w.producer)
      else none) := by
  refine Option.ext fun e => ?_
  rw [find?_carryOut_iff hw]
  cases hold : Table.find? c key with
  | some first =>
    -- a key that is taken is not reached
    rw [Option.some_or, or_iff_left]
    rintro ⟨-, hnew, hreach⟩
    rcases hreach key (Table.mem_keys_iff.mpr ⟨_, hnew⟩) with hlt | hfree
    · exact Std.lt_irrefl (below_iff_lt.mp hlt)
    · simp [hold] at hfree
  | none =>
    obtain ⟨x, v⟩ := e
    simp only [Option.isNone_iff_eq_none, Option.none_or]
    by_cases hreach : ∀ j ∈ w.outputs.keys, Below key j ∨ Table.find? c j = none
    · rw [if_pos hreach, and_iff_left hreach, Option.map_eq_some_iff]
      simp [eq_comm, and_comm]
    · rw [if_neg hreach, or_iff_left fun hnew => hreach hnew.2.2]

theorem after_concat (ws : List Write) (w : Write) : after (ws ++ [w]) = w.carryOut (after ws) :=
  List.foldl_concat ..

theorem find?_after {ws : List Write} (h : ∀ w ∈ ws, w.Ordered) (key : String) :
    Table.find? (after ws) key = held ws.reverse key := by
  induction ws using List.reverseRecOn generalizing key with
  | nil => rfl
  | append_singleton ws w ih =>
    have ih := ih fun x hx => h x (List.mem_append_left _ hx)
    rw [after_concat, find?_carryOut (h w (by simp)), List.reverse_append, List.reverse_singleton,
      List.singleton_append, held]
    simp only [ih]

theorem sorted_writeAll (hc : Table.Sorted c) (producer : TaskId) (pairs : List (String × Json)) :
    Table.Sorted (c.writeAll producer pairs).1 := by
  induction pairs generalizing c with
  | nil => exact hc
  | cons q pairs ih =>
    cases hfree : Table.find? c q.1 with
    | some first => simpa [writeAll, write, hfree] using hc
    | none =>
      rw [writeAll, write_of_free hfree]
      exact ih (hc.insert q.1 _)

theorem sorted_after (ws : List Write) : Table.Sorted (after ws) := by
  induction ws using List.reverseRecOn with
  | nil => exact List.Pairwise.nil
  | append_singleton ws w ih =>
    rw [after_concat, carryOut_eq]
    exact sorted_writeAll ih w.producer w.outputs.pairs

theorem shows_of_sorted (hc : Table.Sorted c) {held : String → Option Entry}
    (h : ∀ key, Table.find? c key = held key) : Shows c held where
  get := h
  contains key := by rw [Table.contains_eq_true_iff, Table.mem_keys_iff, h]
  size := ⟨c.keys, hc.nodup_keys, fun key => by rw [Table.mem_keys_iff, h], Table.size_eq_length_keys c⟩
  isEmpty := by
    have hkeys : c.isEmpty = true ↔ c.keys = [] := by simp [Table.isEmpty, Table.keys]
    simp only [hkeys, ← h, Table.find?_eq_none_iff]
    exact List.eq_nil_iff_forall_not_mem
  snapshot key e := by rw [← Table.find?_eq_some_iff hc.nodup_keys, h]
  ascending := hc.imp below_iff_lt.mpr

theorem find?_after_append (ws more : List Write) {e : Entry} (h : Table.find? (after ws) key = some e) :
    Table.find? (after (ws ++ more)) key = some e := by
  induction more using List.reverseRecOn with
  | nil => simpa using h
  | append_singleton more w ih =>
    obtain ⟨kept, hext⟩ := extends_carryOut w (after (ws ++ more))
    rw [← List.append_assoc, after_concat]
    exact hext.mono ih

/-- Each key is written by the one write that came to it first, whatever is written later. -/
theorem single_writer {ws : List Write} (h : ∀ w ∈ ws, w.Ordered) :
    Shows (after ws) (held ws.reverse) ∧ TakesOnce (after ws) ∧
    ∀ (more : List Write) (key : String) (e : Entry), (after ws).find? key = some e →
      (after (ws ++ more)).find? key = some e :=
  ⟨shows_of_sorted (sorted_after ws) (find?_after h), takesOnce _, fun more _ _ => find?_after_append ws more⟩

/-- A second task loses `b` and what comes after it, and keeps `a`. -/
theorem single_writer_second :
    let ws : List Write := [.one "b" 1 .null, .all 2 (.ofList [("a", .bool true), ("b", .null), ("c", .null)])]
    (∀ w ∈ ws, w.Ordered) ∧ (after ws).find? "a" = some ⟨2, .bool true⟩ ∧
    (after (ws ++ [.one "a" 3 .null])).find? "a" = some ⟨2, .bool true⟩ ∧ (after ws).find? "c" = none := by
  intro ws
  have hordered : ∀ w ∈ ws, w.Ordered := by
    simp only [ws, List.forall_mem_cons, Write.Ordered, below_iff_lt]
    refine ⟨Table.Sorted.insert List.Pairwise.nil _ _, Table.Sorted.ofList _, by simp⟩
  obtain ⟨hshows, -, hlasts⟩ := single_writer hordered
  have ha : (after ws).find? "a" = some ⟨2, .bool true⟩ := (hshows.get "a").trans rfl
  exact ⟨hordered, ha, hlasts _ _ _ ha, (hshows.get "c").trans rfl⟩

end Context

end Rollout
