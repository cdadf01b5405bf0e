import Rollout.Proofs.SteadyReading

/-! Records are read the same after an edit. Two members change places because taking one in leaves the slots of the
other alone, and a member without a field is skipped. -/

namespace Rollout.Doc.Fields

variable {α ρ σ : Type} {src : Source} {names : List String} {fit : Doc → Prop}
  {part : String → Doc → Doc → Prop}

/-- Every field keeps its value under the changes of its name. -/
def Keeps (src : Source) (R : String → Doc → Doc → Prop) : {ρ σ : Type} → Fields ρ σ → Prop
  | _, _, nil => True
  | _, _, cons f rest => Steady (R f.name) (f.read src) ∧ rest.Keeps src R

@[simp] theorem keeps_cons {f : Field α} {rest : Fields ρ σ} {R : String → Doc → Doc → Prop} :
    (cons f rest).Keeps src R ↔ Steady (R f.name) (f.read src) ∧ rest.Keeps src R := Iff.rfl

theorem Keeps.mono {R S : String → Doc → Doc → Prop} (h : ∀ {name d e}, S name d e → R name d e) :
    ∀ {ρ σ : Type} {fs : Fields ρ σ}, fs.Keeps src R → fs.Keeps src S
  | _, _, nil, _ => trivial
  | _, _, cons _ _, hkeeps => keeps_cons.mpr ⟨fun hd hs => hkeeps.1 hd (h hs), hkeeps.2.mono h⟩

section Put

variable {name other : String} {d e : Doc}

theorem put_cons_self {f : Field α} {rest : Fields ρ σ} {slot : Option α} {slots : σ} {s : Option α × σ} :
    (cons f rest).put src f.name d (slot, slots) = .ok s ↔
      slot = none ∧ ∃ a, f.read src d = .ok a ∧ s = (some a, slots) := by
  rw [put, if_pos rfl]
  cases slot with
  | some a => simp [fail, throw, throwThe, MonadExceptOf.throw]
  | none =>
    simp only [Option.isSome_none, Bool.false_eq_true, if_false, bind_eq_ok, true_and]
    simp only [pure, Except.pure, Except.ok.injEq, eq_comm]

theorem put_cons_of_ne {f : Field α} (hne : f.name ≠ name) {rest : Fields ρ σ} {slot : Option α} {slots : σ}
    {s : Option α × σ} : (cons f rest).put src name d (slot, slots) = .ok s ↔
      ∃ others, rest.put src name d slots = .ok others ∧ s = (slot, others) := by
  rw [put, if_neg hne, bind_eq_ok]
  simp only [pure, Except.pure, Except.ok.injEq, eq_comm]

theorem put_nil {s : Unit} : nil.put src name d () = .ok s ↔ d.skippable = true := by
  rw [put]
  cases d.skippable <;> simp [throw, throwThe, MonadExceptOf.throw, pure, Except.pure]

/-- A member without a field leaves all slots alone. -/
theorem put_of_not_mem (hd : d.skippable = true) : ∀ {ρ σ : Type} (fs : Fields ρ σ) (slots : σ),
    name ∉ fs.names → fs.put src name d slots = .ok slots
  | _, _, nil, (), _ => put_nil.mpr hd
  | _, _, cons f rest, (slot, slots), h => by
    have hne : f.name ≠ name := fun he => h (he ▸ List.mem_cons_self)
    have hrest := put_of_not_mem hd rest slots fun hm => h (List.mem_cons_of_mem _ hm)
    exact (put_cons_of_ne hne).mpr ⟨slots, hrest, rfl⟩

theorem put_changed (R : String → Doc → Doc → Prop) (hd : d.Whole) (hr : R name d e)
    (he : e.skippable = true) : ∀ {ρ σ : Type} {fs : Fields ρ σ} {slots s : σ}, fs.Keeps src R →
      fs.put src name d slots = .ok s → fs.put src name e slots = .ok s
  | _, _, nil, (), (), _, _ => put_nil.mpr he
  | _, _, cons f rest, (slot, slots), s, hkeeps, hput => by
    by_cases hname : f.name = name
    · subst hname
      obtain ⟨hslot, a, ha, rfl⟩ := put_cons_self.mp hput
      exact put_cons_self.mpr ⟨hslot, a, hkeeps.1 hd hr ha, rfl⟩
    · obtain ⟨others, hothers, rfl⟩ := (put_cons_of_ne hname).mp hput
      exact (put_cons_of_ne hname).mpr ⟨others, put_changed R hd hr he hkeeps.2 hothers, rfl⟩

theorem put_swap : ∀ {ρ σ : Type} {fs : Fields ρ σ} {slots s s' : σ}, fs.put src name d slots = .ok s →
    fs.put src other e s = .ok s' →
      ∃ t, fs.put src other e slots = .ok t ∧ fs.put src name d t = .ok s'
  | _, _, nil, (), (), (), hfirst, hsecond => ⟨(), put_nil.mpr (put_nil.mp hsecond), hfirst⟩
  | _, _, cons f rest, (slot, slots), s, s', hfirst, hsecond => by
    by_cases hname : f.name = name
    · subst hname
      obtain ⟨hslot, a, ha, rfl⟩ := put_cons_self.mp hfirst
      by_cases hother : f.name = other
      · subst hother
        obtain ⟨hfull, -⟩ := put_cons_self.mp hsecond
        cases hfull
      · obtain ⟨others, hothers, rfl⟩ := (put_cons_of_ne hother).mp hsecond
        exact ⟨_, (put_cons_of_ne hother).mpr ⟨others, hothers, rfl⟩, put_cons_self.mpr ⟨hslot, a, ha, rfl⟩⟩
    · obtain ⟨others, hothers, rfl⟩ := (put_cons_of_ne hname).mp hfirst
      by_cases hother : f.name = other
      · subst hother
        obtain ⟨hslot, a, ha, rfl⟩ := put_cons_self.mp hsecond
        exact ⟨_, put_cons_self.mpr ⟨hslot, a, ha, rfl⟩, (put_cons_of_ne hname).mpr ⟨others, hothers, rfl⟩⟩
      · obtain ⟨others', hothers', rfl⟩ := (put_cons_of_ne hother).mp hsecond
        obtain ⟨t, ht, ht'⟩ := put_swap hothers hothers'
        exact ⟨_, (put_cons_of_ne hother).mpr ⟨t, ht, rfl⟩, (put_cons_of_ne hname).mpr ⟨others', ht', rfl⟩⟩

end Put

section Members

variable {fs : Fields ρ σ} {slots s : σ} {closed : Bool}

theorem members_cons {m : Doc × Doc} {ms : List (Doc × Doc)} :
    fs.members src (m :: ms) closed slots = .ok s ↔ ∃ name, memberName src fs.names m.1 = .ok name ∧
      ∃ t, fs.put src name m.2 slots = .ok t ∧ fs.members src ms closed t = .ok s := by
  obtain ⟨k, d⟩ := m
  rw [members, bind_eq_ok]
  simp only [bind_eq_ok]

theorem members_perm {ms ms' : List (Doc × Doc)} (h : ms.Perm ms')
    (hread : fs.members src ms closed slots = .ok s) : fs.members src ms' closed slots = .ok s := by
  induction h generalizing slots with
  | nil => exact hread
  | cons m _ ih =>
    obtain ⟨name, hname, t, hput, hrest⟩ := members_cons.mp hread
    exact members_cons.mpr ⟨name, hname, t, hput, ih hrest⟩
  | swap m m' ms =>
    obtain ⟨name, hname, t, hput, hread⟩ := members_cons.mp hread
    obtain ⟨name', hname', t', hput', hrest⟩ := members_cons.mp hread
    obtain ⟨u, hu, hu'⟩ := put_swap hput hput'
    exact members_cons.mpr ⟨name', hname', u, hu, members_cons.mpr ⟨name, hname, t', hu', hrest⟩⟩
  | trans _ _ ih ih' => exact ih' (ih hread)

theorem members_replace {pre post : List (Doc × Doc)} {k d e : Doc}
    (h : ∀ {name slots s}, memberName src fs.names k = .ok name → fs.put src name d slots = .ok s →
      fs.put src name e slots = .ok s)
    (hread : fs.members src (pre ++ (k, d) :: post) closed slots = .ok s) :
    fs.members src (pre ++ (k, e) :: post) closed slots = .ok s := by
  induction pre generalizing slots with
  | nil =>
    obtain ⟨name, hname, t, hput, hrest⟩ := members_cons.mp hread
    exact members_cons.mpr ⟨name, hname, t, h hname hput, hrest⟩
  | cons m pre ih =>
    obtain ⟨name, hname, t, hput, hrest⟩ := members_cons.mp hread
    exact members_cons.mpr ⟨name, hname, t, hput, ih hrest⟩

theorem members_insert {pre post : List (Doc × Doc)} {name : String} {v : Doc} (hname : name ∉ fs.names)
    (hv : v.skippable = true) (hread : fs.members src (pre ++ post) closed slots = .ok s) :
    fs.members src (pre ++ (string (some name), v) :: post) closed slots = .ok s := by
  induction pre generalizing slots with
  | nil => exact members_cons.mpr ⟨name, memberName_string _ name, slots, put_of_not_mem hv fs slots hname, hread⟩
  | cons m pre ih =>
    obtain ⟨name', hname', t, hput, hrest⟩ := members_cons.mp hread
    exact members_cons.mpr ⟨name', hname', t, hput, ih hrest⟩

end Members

theorem positions_cons {total n : Nat} {expected : String} {f : Field α} {rest : Fields ρ σ} {d : Doc}
    {items left : List Doc} {closed : Bool} {r : α × ρ} :
    (cons f rest).positions src total expected n (d :: items) closed = .ok (r, left) ↔
      ∃ a r', f.read src d = .ok a ∧
        rest.positions src total expected (n + 1) items closed = .ok (r', left) ∧ r = (a, r') := by
  rw [positions, bind_eq_ok]
  simp only [bind_eq_ok]
  constructor
  · rintro ⟨a, ha, ⟨r', left'⟩, hrest, hr⟩
    obtain ⟨rfl, rfl⟩ := Prod.mk.inj (Except.ok.inj hr)
    exact ⟨a, r', ha, hrest, rfl⟩
  · rintro ⟨a, r', ha, hrest, rfl⟩
    exact ⟨a, ha, (r', left), hrest, rfl⟩

/-- A change to one item. Items behind the last field are not read. -/
theorem positions_replace {R : String → Doc → Doc → Prop} {d e : Doc} (hd : d.Whole) {total : Nat}
    {expected : String} {post : List Doc} {closed : Bool} :
    ∀ {ρ σ : Type} {fs : Fields ρ σ} {pre : List Doc} {n : Nat} {r : ρ} {left : List Doc}, fs.Keeps src R →
      (∀ name, fs.names[pre.length]? = some name → R name d e) →
      fs.positions src total expected n (pre ++ d :: post) closed = .ok (r, left) →
        ∃ left', fs.positions src total expected n (pre ++ e :: post) closed = .ok (r, left')
  | _, _, nil, pre, n, r, left, _, _, _ => ⟨pre ++ e :: post, rfl⟩
  | _, _, cons f rest, [], n, r, left, hkeeps, hr, hread => by
    obtain ⟨a, r', ha, hrest, rfl⟩ := positions_cons.mp hread
    exact ⟨left, positions_cons.mpr ⟨a, r', hkeeps.1 hd (hr f.name rfl) ha, hrest, rfl⟩⟩
  | _, _, cons f rest, x :: pre, n, r, left, hkeeps, hr, hread => by
    obtain ⟨a, r', ha, hrest, rfl⟩ := positions_cons.mp hread
    obtain ⟨left', hleft⟩ := positions_replace hd hkeeps.2 (fun name hname => hr name hname) hrest
    exact ⟨left', positions_cons.mpr ⟨a, r', ha, hleft, rfl⟩⟩

section Read

variable {fs : Fields ρ σ} {title : String} {r : ρ}

theorem read_object {ms : List (Doc × Doc)} {closed : Bool} : fs.read title src (object ms closed) = .ok r ↔
    ∃ s, fs.members src ms closed fs.vacant = .ok s ∧ fs.finish s = .ok r :=
  bind_eq_ok

theorem read_array {items : List Doc} {closed : Bool} : fs.read title src (array items closed) = .ok r ↔
    src ≠ .yaml ∧ (∃ left, fs.positions src fs.count (title ++ " with " ++ elements fs.count) 0 items closed =
      .ok (r, left)) ∧ surplus src fs.count items.length closed = .ok () := by
  have hread : fs.read title src (array items closed) =
      if src = .yaml then mismatch (array items closed) title
      else fs.positions src fs.count (title ++ " with " ++ elements fs.count) 0 items closed >>= fun found =>
        surplus src fs.count items.length closed >>= fun _ => pure found.1 := rfl
  rw [hread]
  by_cases hsrc : src = .yaml
  · rw [if_pos hsrc]
    exact ⟨fun h => (by cases h), fun h => absurd hsrc h.1⟩
  rw [if_neg hsrc, bind_eq_ok]
  simp only [bind_eq_ok]
  constructor
  · rintro ⟨⟨r', left⟩, hpositions, ⟨⟩, hsurplus, hr⟩
    obtain rfl := Except.ok.inj hr
    exact ⟨hsrc, ⟨left, hpositions⟩, hsurplus⟩
  · rintro ⟨-, ⟨left, hpositions⟩, hsurplus⟩
    exact ⟨(r, left), hpositions, (), hsurplus, rfl⟩

theorem read_array_replace {R : String → Doc → Doc → Prop} (hkeeps : fs.Keeps src R) {pre post : List Doc}
    {d e : Doc} {closed : Bool} (hd : d.Whole) (hr : ∀ name, fs.names[pre.length]? = some name → R name d e)
    (hread : fs.read title src (array (pre ++ d :: post) closed) = .ok r) :
    fs.read title src (array (pre ++ e :: post) closed) = .ok r := by
  obtain ⟨hsrc, ⟨left, hpositions⟩, hsurplus⟩ := read_array.mp hread
  have hlength : (pre ++ d :: post).length = (pre ++ e :: post).length := by simp
  exact read_array.mpr ⟨hsrc, positions_replace hd hkeeps hr hpositions, hlength ▸ hsurplus⟩

/-- A record whose fields keep their values is read the same after an edit. -/
theorem steady_read (hreg : Regular fit part) (hkeeps : fs.Keeps src part) (title : String) :
    Steady (Edit fs.names fit part) (fs.read title src) := by
  have hshuffle : fs.Keeps src fun _ => Shuffle := hkeeps.mono hreg.part_of_shuffle
  intro d e r hd h hread
  cases h with
  | shuffle h =>
    cases h with
    | perm _ h =>
      obtain ⟨s, hmembers, hfinish⟩ := read_object.mp hread
      exact read_object.mpr ⟨s, members_perm h hmembers, hfinish⟩
    | item pre post closed h => exact read_array_replace hshuffle hd.item (fun _ _ => h) hread
    | member pre post k closed h =>
      obtain ⟨s, hmembers, hfinish⟩ := read_object.mp hread
      have hskip := (h.whole hd.member).skippable
      exact read_object.mpr ⟨s, members_replace
        (fun _ => put_changed (fun _ => Shuffle) hd.member h hskip hshuffle) hmembers, hfinish⟩
  | add pre post closed hname hv =>
    obtain ⟨s, hmembers, hfinish⟩ := read_object.mp hread
    exact read_object.mpr ⟨s, members_insert hname (hreg.whole_of_fit hv).skippable hmembers, hfinish⟩
  | @member name d e pre post closed h =>
    obtain ⟨s, hmembers, hfinish⟩ := read_object.mp hread
    refine read_object.mpr ⟨s, members_replace (fun hk => ?_) hmembers, hfinish⟩
    obtain rfl := Except.ok.inj ((memberName_string _ name).symm.trans hk)
    exact put_changed part hd.member h (hreg.whole_of_part h hd.member).skippable hkeeps
  | @item name d e pre post closed hname h =>
    refine read_array_replace hkeeps hd.item (fun name' hname' => ?_) hread
    obtain rfl := Option.some.inj (hname.symm.trans hname')
    exact h

end Read

end Rollout.Doc.Fields
