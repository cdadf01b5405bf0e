import Rollout.Proofs.DocumentEdits
import Rollout.Proofs.RecordReading

/-! Readers that give the same for a document that was changed. Free values, lists and tables do so where members
are shuffled, and records also where members are added that they have no field for. -/

namespace Rollout.Doc

variable {α β : Type} {d e : Doc}

/-- Whether what is read stays the same when a whole document is changed in this way. -/
def Steady (R : Doc → Doc → Prop) (read : Doc → Reading α) : Prop :=
  ∀ {d e : Doc} {a : α}, d.Whole → R d e → read d = .ok a → read e = .ok a

theorem steady_of_scalar {read : Doc → Reading α} (harray : ∀ items closed a, read (array items closed) ≠ .ok a)
    (hobject : ∀ ms closed a, read (object ms closed) ≠ .ok a) : Steady Shuffle read := by
  intro d e a hd h hread
  cases h with
  | perm => exact absurd hread (hobject _ _ _)
  | item => exact absurd hread (harray _ _ _)
  | member => exact absurd hread (hobject _ _ _)

theorem steady_readString : Steady Shuffle readString :=
  steady_of_scalar (fun _ _ _ h => by cases h) fun _ _ _ h => by cases h

theorem steady_readBool : Steady Shuffle readBool :=
  steady_of_scalar (fun _ _ _ h => by cases h) fun _ _ _ h => by cases h

theorem steady_readNat (bits : Nat) (type : String) : Steady Shuffle (readNat bits type) :=
  steady_of_scalar (fun _ _ _ h => by cases h) fun _ _ _ h => by cases h

theorem steady_readInteger : Steady Shuffle readInteger :=
  steady_of_scalar (fun _ _ _ h => by cases h) fun _ _ _ h => by cases h

theorem steady_bind {α β : Type} {R : Doc → Doc → Prop} {read : Doc → Reading α} (h : Steady R read)
    (next : α → Reading β) : Steady R fun d => read d >>= next := by
  intro d e b hd hr hread
  obtain ⟨a, ha, hb⟩ := bind_eq_ok.mp hread
  exact bind_eq_ok.mpr ⟨a, h hd hr ha, hb⟩

theorem steady_map {R : Doc → Doc → Prop} {read : Doc → Reading α} (h : Steady R read) (f : α → β) :
    Steady R fun d => f <$> read d := by
  intro d e b hd hr hread
  obtain ⟨a, ha, rfl⟩ := map_eq_ok.mp hread
  exact map_eq_ok.mpr ⟨a, h hd hr ha, rfl⟩

section Lists

variable {read : Doc → Reading α}

theorem readItems_cons {items : List Doc} {closed : Bool} {as : List α} :
    readItems read (d :: items) closed = .ok as ↔
      ∃ a rest, read d = .ok a ∧ readItems read items closed = .ok rest ∧ as = a :: rest := by
  rw [readItems, bind_eq_ok]
  simp only [bind_eq_ok]
  constructor
  · rintro ⟨a, ha, rest, hrest, has⟩
    exact ⟨a, rest, ha, hrest, (Except.ok.inj has).symm⟩
  · rintro ⟨a, rest, ha, hrest, rfl⟩
    exact ⟨a, ha, rest, hrest, rfl⟩

theorem readItems_replace {pre post : List Doc} {closed : Bool} (h : ∀ a, read d = .ok a → read e = .ok a)
    {as : List α} (hread : readItems read (pre ++ d :: post) closed = .ok as) :
    readItems read (pre ++ e :: post) closed = .ok as := by
  induction pre generalizing as with
  | nil =>
    obtain ⟨a, rest, ha, hrest, rfl⟩ := readItems_cons.mp hread
    exact readItems_cons.mpr ⟨a, rest, h a ha, hrest, rfl⟩
  | cons x pre ih =>
    obtain ⟨a, rest, ha, hrest, rfl⟩ := readItems_cons.mp hread
    exact readItems_cons.mpr ⟨a, rest, ha, ih hrest, rfl⟩

theorem readEntries_cons {m : Doc × Doc} {ms : List (Doc × Doc)} {closed : Bool} {ps : List (String × α)} :
    readEntries read (m :: ms) closed = .ok ps ↔ ∃ k a rest, readString m.1 = .ok k ∧ read m.2 = .ok a ∧
      readEntries read ms closed = .ok rest ∧ ps = (k, a) :: rest := by
  obtain ⟨key, d⟩ := m
  rw [readEntries, bind_eq_ok]
  simp only [bind_eq_ok]
  constructor
  · rintro ⟨k, hk, a, ha, rest, hrest, hps⟩
    exact ⟨k, a, rest, hk, ha, hrest, (Except.ok.inj hps).symm⟩
  · rintro ⟨k, a, rest, hk, ha, hrest, rfl⟩
    exact ⟨k, hk, a, ha, rest, hrest, rfl⟩

theorem readEntries_replace {pre post : List (Doc × Doc)} {k : Doc} {closed : Bool}
    (h : ∀ a, read d = .ok a → read e = .ok a) {ps : List (String × α)}
    (hread : readEntries read (pre ++ (k, d) :: post) closed = .ok ps) :
    readEntries read (pre ++ (k, e) :: post) closed = .ok ps := by
  induction pre generalizing ps with
  | nil =>
    obtain ⟨j, a, rest, hj, ha, hrest, rfl⟩ := readEntries_cons.mp hread
    exact readEntries_cons.mpr ⟨j, a, rest, hj, h a ha, hrest, rfl⟩
  | cons m pre ih =>
    obtain ⟨j, a, rest, hj, ha, hrest, rfl⟩ := readEntries_cons.mp hread
    exact readEntries_cons.mpr ⟨j, a, rest, hj, ha, ih hrest, rfl⟩

theorem readEntries_perm {ms ms' : List (Doc × Doc)} {closed : Bool} (h : ms.Perm ms')
    {ps : List (String × α)} (hread : readEntries read ms closed = .ok ps) :
    ∃ ps', readEntries read ms' closed = .ok ps' ∧ ps.Perm ps' := by
  induction h generalizing ps with
  | nil => exact ⟨ps, hread, .refl _⟩
  | cons m _ ih =>
    obtain ⟨k, a, rest, hk, ha, hrest, rfl⟩ := readEntries_cons.mp hread
    obtain ⟨rest', hrest', hperm⟩ := ih hrest
    exact ⟨_, readEntries_cons.mpr ⟨k, a, rest', hk, ha, hrest', rfl⟩, hperm.cons _⟩
  | swap m m' ms =>
    obtain ⟨k, a, rest, hk, ha, hrest, rfl⟩ := readEntries_cons.mp hread
    obtain ⟨k', a', rest', hk', ha', hrest', rfl⟩ := readEntries_cons.mp hrest
    have hsecond := readEntries_cons.mpr ⟨k, a, rest', hk, ha, hrest', rfl⟩
    exact ⟨_, readEntries_cons.mpr ⟨k', a', _, hk', ha', hsecond, rfl⟩, .swap _ _ _⟩
  | trans _ _ ih ih' =>
    obtain ⟨ps', hread', hperm⟩ := ih hread
    obtain ⟨ps'', hread'', hperm'⟩ := ih' hread'
    exact ⟨ps'', hread'', hperm.trans hperm'⟩

/-- Keys that are strings are the keys of what is read. -/
theorem map_fst_of_readEntries {ms : List (Doc × Doc)} (hkeys : ∀ m ∈ ms, ∃ s, m.1 = string s) {closed : Bool}
    {ps : List (String × α)} (hread : readEntries read ms closed = .ok ps) :
    ms.map Prod.fst = ps.map fun p => string (some p.1) := by
  induction ms generalizing ps with
  | nil =>
    cases closed with
    | true =>
      obtain rfl := Except.ok.inj hread
      rfl
    | false => cases hread
  | cons m ms ih =>
    obtain ⟨⟨s, hs⟩, hkeys⟩ := List.forall_mem_cons.mp hkeys
    obtain ⟨k, a, rest, hk, ha, hrest, rfl⟩ := readEntries_cons.mp hread
    rw [hs] at hk
    cases s with
    | none => cases hk
    | some s =>
      obtain rfl := Except.ok.inj hk
      rw [List.map_cons, List.map_cons, hs, ih hkeys hrest]

theorem nodup_of_readEntries {ms : List (Doc × Doc)} (hkeys : ∀ m ∈ ms, ∃ s, m.1 = string s)
    (distinct : Distinct ms) {closed : Bool} {ps : List (String × α)}
    (hread : readEntries read ms closed = .ok ps) : (ps.map Prod.fst).Nodup := by
  have hfst : (ms.map Prod.fst).Pairwise fun k k' => ∀ name, k = string (some name) → k' ≠ string (some name) :=
    List.pairwise_map.mpr distinct
  rw [map_fst_of_readEntries hkeys hread, List.pairwise_map] at hfst
  exact List.pairwise_map.mpr (hfst.imp fun h he => h _ rfl (congrArg (fun k => string (some k)) he.symm))

theorem ofList_readEntries_perm {ms ms' : List (Doc × Doc)} (hkeys : ∀ m ∈ ms, ∃ s, m.1 = string s)
    (distinct : Distinct ms) (h : ms.Perm ms') {closed : Bool} {ps : List (String × α)}
    (hread : readEntries read ms closed = .ok ps) :
    ∃ ps', readEntries read ms' closed = .ok ps' ∧ Table.ofList ps = Table.ofList ps' := by
  obtain ⟨ps', hread', hperm⟩ := readEntries_perm h hread
  exact ⟨ps', hread', Table.ofList_eq_of_perm hperm (nodup_of_readEntries hkeys distinct hread)⟩

theorem isNothing_of_shuffle (h : Shuffle d e) : isNothing d = .ok false ∧ isNothing e = .ok false := by
  cases h <;> exact ⟨rfl, rfl⟩

theorem steady_readOptional {R : Doc → Doc → Prop} (hread : Steady R read)
    (hsome : ∀ {d e}, R d e → isNothing d = .ok false ∧ isNothing e = .ok false) :
    Steady R (readOptional read) := by
  intro d e a hd hr h
  obtain ⟨hd', he'⟩ := hsome hr
  have hoptional : ∀ {x : Doc}, isNothing x = .ok false → readOptional read x = some <$> read x := fun hx => by
    rw [readOptional, hx]
    rfl
  rw [hoptional hd'] at h
  rw [hoptional he']
  exact steady_map hread some hd hr h

theorem steady_readList (hread : Steady Shuffle read) : Steady Shuffle (readList read) := by
  intro d e a hd h hlist
  cases h with
  | perm => cases hlist
  | member => cases hlist
  | item pre post closed h => exact readItems_replace (fun a => hread hd.item h) hlist

theorem steady_readTable (hread : Steady Shuffle read) : Steady Shuffle (readTable read) := by
  intro d e a hd h htable
  cases h with
  | item => cases htable
  | member pre post k closed h =>
    obtain ⟨ps, hps, rfl⟩ := map_eq_ok.mp htable
    exact map_eq_ok.mpr ⟨ps, readEntries_replace (fun a => hread hd.member h) hps, rfl⟩
  | perm distinct h =>
    cases hd with
    | object keys values =>
      obtain ⟨ps, hps, rfl⟩ := map_eq_ok.mp htable
      obtain ⟨ps', hps', he⟩ := ofList_readEntries_perm keys distinct h hps
      exact map_eq_ok.mpr ⟨ps', hps', he.symm⟩

end Lists

theorem readJsonItems_eq (items : List Doc) : readJsonItems items = readItems readJson items true := by
  induction items with
  | nil => rfl
  | cons d items ih => rw [readJsonItems, readItems, ih]

theorem readJsonMembers_eq (ms : List (Doc × Doc)) : readJsonMembers ms = readEntries readJson ms true := by
  induction ms with
  | nil => rfl
  | cons m ms ih => rw [readJsonMembers, readEntries, ih]

theorem readJson_array {items : List Doc} {v : Json} : readJson (array items true) = .ok v ↔
    ∃ vs, readItems readJson items true = .ok vs ∧ v = .array vs := by
  rw [readJson, bind_eq_ok, readJsonItems_eq]
  simp only [if_true, pure, Except.pure, Except.ok.injEq, eq_comm]

theorem readJson_object {ms : List (Doc × Doc)} {v : Json} : readJson (object ms true) = .ok v ↔
    ∃ ps, readEntries readJson ms true = .ok ps ∧ v = .object (Table.ofList ps) := by
  rw [readJson, bind_eq_ok, readJsonMembers_eq]
  simp only [if_true, pure, Except.pure, Except.ok.injEq, eq_comm, Json.ofMembers]

theorem steady_readJson : Steady Shuffle readJson := by
  intro d e v hd h
  induction h generalizing v with
  | perm distinct h =>
    cases hd with
    | object keys values =>
      intro hread
      obtain ⟨ps, hps, rfl⟩ := readJson_object.mp hread
      obtain ⟨ps', hps', he⟩ := ofList_readEntries_perm keys distinct h hps
      exact readJson_object.mpr ⟨ps', hps', congrArg Json.object he⟩
  | item pre post closed h ih =>
    obtain rfl := hd.closed_array
    intro hread
    obtain ⟨vs, hvs, rfl⟩ := readJson_array.mp hread
    exact readJson_array.mpr ⟨vs, readItems_replace (fun a => ih hd.item) hvs, rfl⟩
  | member pre post k closed h ih =>
    obtain rfl := hd.closed_object
    intro hread
    obtain ⟨ps, hps, rfl⟩ := readJson_object.mp hread
    exact readJson_object.mpr ⟨ps, readEntries_replace (fun a => ih hd.member) hps, rfl⟩

theorem mem_of_select {α : Type} {vs : List (Variant α)} {name : String} {v : Variant α}
    (h : Variant.select vs name = .ok v) : v ∈ vs := by
  unfold Variant.select at h
  cases hfind : vs.find? (·.name = name) with
  | none => simp [hfind, fail, throw, throwThe, MonadExceptOf.throw] at h
  | some w =>
    rw [hfind] at h
    obtain rfl := Except.ok.inj h
    exact List.mem_of_find?_eq_some hfind

/-- A choice by name has one member, and its value is read as the name tells. -/
theorem steady_variant {α : Type} {vs : List (Variant α)} (h : ∀ v ∈ vs, Steady Shuffle (v.withValue .buffer)) :
    Steady Shuffle (Variant.read vs .buffer) := by
  intro d e a hd hshuffle hread
  cases hshuffle with
  | @perm ms ms' closed _ hperm =>
    cases ms with
    | nil => cases hread
    | cons m ms => cases ms with
      | nil => rwa [List.perm_singleton.mp hperm.symm]
      | cons => cases hread
  | item => cases hread
  | @member d e pre post k closed hshuffle =>
    cases pre with
    | cons m pre => cases pre <;> cases hread
    | nil => cases post with
      | cons => cases hread
      | nil =>
        have hone : ∀ {x : Doc}, Variant.read vs .buffer (object [(k, x)] closed) =
            (do let v ← Variant.select vs (← Variant.readName k); v.withValue .buffer x) := rfl
        rw [List.nil_append, hone] at hread ⊢
        obtain ⟨name, hname, hread⟩ := bind_eq_ok.mp hread
        obtain ⟨v, hv, hread⟩ := bind_eq_ok.mp hread
        exact bind_eq_ok.mpr ⟨name, hname, bind_eq_ok.mpr
          ⟨v, hv, h v (mem_of_select hv) hd.member hshuffle hread⟩⟩

section Settle

variable {room : Nat} {d' : Doc}

theorem settleItems_eq_ok {items items' : List Doc}
    (h : ∀ d ∈ items, ∀ {d'}, settle room d = .ok d' ↔ d' = d ∧ Fits room d) :
    settleItems room items = .ok items' ↔ items' = items ∧ ∀ d ∈ items, Fits room d := by
  induction items generalizing items' with
  | nil => simp [settleItems, pure, Except.pure, eq_comm]
  | cons d items ih =>
    obtain ⟨hd, h⟩ := List.forall_mem_cons.mp h
    rw [settleItems, bind_eq_ok]
    simp only [bind_eq_ok, hd, ih h, pure, Except.pure, Except.ok.injEq, List.forall_mem_cons]
    constructor
    · rintro ⟨_, ⟨rfl, hfits⟩, _, ⟨rfl, hrest⟩, rfl⟩
      exact ⟨rfl, hfits, hrest⟩
    · rintro ⟨rfl, hfits, hrest⟩
      exact ⟨d, ⟨rfl, hfits⟩, items, ⟨rfl, hrest⟩, rfl⟩

theorem settle_string {s : Option String} :
    settle room (string s) = .ok d' ↔ d' = string s ∧ ∃ k, s = some k := by
  cases s with
  | none => cases room <;> exact ⟨fun h => (by cases h), fun h => (by cases h.2.choose_spec)⟩
  | some k =>
    have hsettle : settle room (string (some k)) = .ok (string (some k)) := by cases room <;> rfl
    simp [hsettle, eq_comm]

theorem settleMembers_eq_ok {ms ms' : List (Doc × Doc)} (hkeys : ∀ m ∈ ms, ∃ s, m.1 = string s)
    (h : ∀ m ∈ ms, ∀ {d'}, settle room m.2 = .ok d' ↔ d' = m.2 ∧ Fits room m.2) :
    settleMembers room ms = .ok ms' ↔
      ms' = ms ∧ (∀ m ∈ ms, ∃ s, m.1 = string (some s)) ∧ ∀ m ∈ ms, Fits room m.2 := by
  induction ms generalizing ms' with
  | nil => simp [settleMembers, pure, Except.pure, eq_comm]
  | cons m ms ih =>
    obtain ⟨k, d⟩ := m
    obtain ⟨hd, hvalues⟩ := List.forall_mem_cons.mp h
    obtain ⟨⟨s, hs⟩, hmore⟩ := List.forall_mem_cons.mp hkeys
    obtain rfl : k = string s := hs
    rw [settleMembers, bind_eq_ok]
    simp only [bind_eq_ok, settle_string, hd, ih hmore hvalues, pure, Except.pure, Except.ok.injEq,
      List.forall_mem_cons]
    constructor
    · rintro ⟨_, ⟨rfl, k, rfl⟩, _, ⟨rfl, hfits⟩, _, ⟨rfl, hrest⟩, rfl⟩
      exact ⟨rfl, ⟨⟨k, rfl⟩, hrest.1⟩, hfits, hrest.2⟩
    · rintro ⟨rfl, ⟨⟨k, hk⟩, hmore⟩, hfits, hrest⟩
      exact ⟨_, ⟨rfl, k, string.inj hk⟩, d, ⟨rfl, hfits⟩, ms, ⟨rfl, hmore, hrest⟩, rfl⟩

/-- A buffer keeps a whole document as it is, if it fits. -/
theorem settle_eq_ok (hd : d.Whole) : settle room d = .ok d' ↔ d' = d ∧ Fits room d := by
  induction hd generalizing room d' with
  | null =>
    have hsettle : settle room null = .ok null := by cases room <;> rfl
    simp [hsettle, Fits.null, eq_comm]
  | bool b =>
    have hsettle : settle room (bool b) = .ok (bool b) := by cases room <;> rfl
    simp [hsettle, Fits.bool b, eq_comm]
  | number n =>
    cases n with
    | none => cases room <;> exact ⟨fun h => (by cases h), fun h => (by cases h.2)⟩
    | some n =>
      have hsettle : settle room (number (some n)) = .ok (number (some n)) := by cases room <;> rfl
      simp [hsettle, Fits.number n, eq_comm]
  | string s =>
    rw [settle_string]
    refine and_congr_right' ⟨?_, ?_⟩
    · rintro ⟨k, rfl⟩
      exact .string k
    · rintro ⟨⟩
      exact ⟨_, rfl⟩
  | @array items values ih =>
    cases room with
    | zero => exact ⟨fun h => (by cases h), fun h => (by cases h.2)⟩
    | succ room =>
      rw [settle, bind_eq_ok]
      simp only [settleItems_eq_ok fun d hd => ih d hd, if_true, pure, Except.pure, Except.ok.injEq]
      constructor
      · rintro ⟨_, ⟨rfl, h⟩, rfl⟩
        exact ⟨rfl, .array h⟩
      · rintro ⟨rfl, h⟩
        cases h with
        | array h => exact ⟨items, ⟨rfl, h⟩, rfl⟩
  | @object members keys values ih =>
    cases room with
    | zero => exact ⟨fun h => (by cases h), fun h => (by cases h.2)⟩
    | succ room =>
      rw [settle, bind_eq_ok]
      simp only [settleMembers_eq_ok keys fun m hm => ih m hm, if_true, pure, Except.pure, Except.ok.injEq]
      constructor
      · rintro ⟨_, ⟨rfl, hkeys, h⟩, rfl⟩
        exact ⟨rfl, .object hkeys h⟩
      · rintro ⟨rfl, h⟩
        cases h with
        | object hkeys h => exact ⟨members, ⟨rfl, hkeys, h⟩, rfl⟩

end Settle

end Rollout.Doc
