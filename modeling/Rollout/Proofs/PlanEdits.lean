import Mathlib.Logic.Relation
import Rollout.Proofs.PlanText
import Rollout.Proofs.SteadyRecords

/-! Plans whose texts were changed in ways that do not count: the order of members, and members that nobody reads.
What a payload may be given depends on its kind. -/

namespace Rollout

open Doc

variable {d e : Doc} {room : Nat} {src : Source}

namespace Instance

/-- A change to an instance that stands in a buffer with room for so many levels inside it. -/
def Edit (room : Nat) : Doc → Doc → Prop := Doc.Edit fields.names (Fits room) fun _ => Shuffle

theorem regular (room : Nat) : Regular (Fits room) fun _ => Shuffle := ⟨Fits.whole, Shuffle.whole, fun h => h⟩

theorem steady_read (room : Nat) : Steady (Edit room) (Instance.read src) := by
  refine steady_bind (Fields.steady_read (regular room) ?_ "struct InstanceRef") _
  exact ⟨steady_readString, steady_readString, steady_readString, trivial⟩

end Instance

theorem Address.steady_read : Steady Shuffle (Address.read .buffer) := by
  refine steady_variant fun v hv => ?_
  simp only [List.mem_cons, List.not_mem_nil, or_false] at hv
  rcases hv with rfl | rfl
  · exact steady_map steady_readString _
  · exact steady_map steady_readString _

namespace Payload

/-- The names of the fields of a kind. -/
def fieldNames : Kind → List String
  | .createNamespace | .deleteNamespace => ["namespace"]
  | .createDeployment | .updateDeployment => ["namespace", "name", "manifest"]
  | .deleteDeployment | .deleteService | .deleteSecret => ["namespace", "name"]
  | .createService => ["namespace", "name", "manifest", "output_key"]
  | .createSecret => ["namespace", "name", "data"]
  | .createInstance => ["namespace", "instance", "deployment", "service", "output_key"]
  | .deleteInstance => ["namespace", "instance", "deployment", "service"]
  | .setDependencyAddress => ["instance", "dependency", "provider", "address"]
  | .initializeInstance => ["instance", "run_count", "access_token", "production"]
  | .finalizeInstance | .deleteInstanceRecord => ["instance"]
  | .setStatefulnessParameters => ["instance", "shard_key", "router_address"]
  | .setClientDependency => ["application", "client_type", "client_id", "dependency", "provider", "address"]
  | .disconnectApplicationClients | .addAppRecord | .deleteAppRecord => ["application"]
  | .shardCollection => ["database", "collection"]
  | .moveChunk => ["database", "collection", "key", "shard"]
  | .dropDatabase => ["database", "collections"]
  | .registerApplication => ["application", "descriptor"]
  | .createInstanceRecord => ["instance", "node"]
  | .initializeScheduledJob => ["application", "component", "schedule"]

def HoldsInstance (name : String) : Prop := name = "instance" ∨ name = "provider"

instance : DecidablePred HoldsInstance := fun _ => inferInstanceAs (Decidable (_ ∨ _))

def part (room : Nat) (name : String) : Doc → Doc → Prop :=
  if HoldsInstance name then Instance.Edit room else Shuffle

theorem regular (room : Nat) : Regular (Fits (room + 1)) (part room) where
  whole_of_fit := Fits.whole
  whole_of_part h hd := by
    unfold part at h
    split_ifs at h with hname
    · exact h.whole (Instance.regular room) hd
    · exact h.whole hd
  part_of_shuffle h := by
    unfold part
    split_ifs with hname
    · exact .shuffle h
    · exact h

theorem fits_part {name : String} (h : part room name d e) (hd : Fits (room + 1) d) : Fits (room + 1) e := by
  unfold part at h
  split_ifs at h with hname
  · exact h.fits (fun h hd => h.fits hd) hd
  · exact h.fits hd

theorem shuffle_of_part (h : part room "kind" d e) : Shuffle d e := by
  unfold part at h
  rwa [if_neg (by decide)] at h

section Fields

theorem steady_part {α : Type} {name : String} {read : Doc → Reading α} (hname : ¬ HoldsInstance name)
    (h : Steady Shuffle read) : Steady (part room name) read := by
  unfold part
  rwa [if_neg hname]

theorem steady_instance : Steady (part room "instance") (Instance.read src) := by
  unfold part
  rw [if_pos (show HoldsInstance "instance" from Or.inl rfl)]
  exact Instance.steady_read room

theorem steady_provider : Steady (part room "provider") (readOptional (Instance.read src)) := by
  unfold part
  rw [if_pos (show HoldsInstance "provider" from Or.inr rfl)]
  refine steady_readOptional (Instance.steady_read room) fun h => ?_
  cases h with
  | shuffle h => exact isNothing_of_shuffle h
  | _ => exact ⟨rfl, rfl⟩

theorem bind_read_edit {ρ σ : Type} {fs : Fields ρ σ} (hkeeps : fs.Keeps .buffer (part room)) {title : String}
    {next : ρ → Reading Payload} {p : Payload} (hd : d.Whole)
    (h : Doc.Edit fs.names (Fits (room + 1)) (part room) d e)
    (hread : (fs.read title .buffer d >>= next) = .ok p) : (fs.read title .buffer e >>= next) = .ok p :=
  steady_bind (Fields.steady_read (regular room) hkeeps title) next hd h hread

theorem readFields_edit {k : Kind} {p : Payload} (hd : d.Whole)
    (h : Doc.Edit (fieldNames k) (Fits (room + 1)) (part room) d e) (hread : readFields k d = .ok p) :
    readFields k e = .ok p := by
  have htext : ∀ {name}, ¬ HoldsInstance name → Steady (part room name) readString :=
    fun hname => steady_part hname steady_readString
  have hfree : ∀ {name}, ¬ HoldsInstance name → Steady (part room name) readJson :=
    fun hname => steady_part hname steady_readJson
  have hoptional : ∀ {name}, ¬ HoldsInstance name → Steady (part room name) (readOptional readString) :=
    fun hname => steady_part hname (steady_readOptional steady_readString isNothing_of_shuffle)
  have hinteger : ∀ {name}, ¬ HoldsInstance name → Steady (part room name) readInteger :=
    fun hname => steady_part hname steady_readInteger
  have haddress : Steady (part room "address") (Address.read .buffer) :=
    steady_part (by decide) Address.steady_read
  cases k with
  | createNamespace | deleteNamespace | disconnectApplicationClients | addAppRecord | deleteAppRecord =>
    refine bind_read_edit ?_ hd h hread
    exact ⟨htext (by decide), trivial⟩
  | deleteDeployment | deleteService | deleteSecret | shardCollection =>
    refine bind_read_edit ?_ hd h hread
    exact ⟨htext (by decide), htext (by decide), trivial⟩
  | createDeployment | updateDeployment =>
    refine bind_read_edit ?_ hd h hread
    exact ⟨htext (by decide), htext (by decide), hfree (by decide), trivial⟩
  | createService =>
    refine bind_read_edit ?_ hd h hread
    exact ⟨htext (by decide), htext (by decide), hfree (by decide), hoptional (by decide), trivial⟩
  | createSecret =>
    refine bind_read_edit ?_ hd h hread
    exact ⟨htext (by decide), htext (by decide), steady_part (by decide) (steady_readTable steady_readString), trivial⟩
  | createInstance =>
    refine bind_read_edit ?_ hd h hread
    exact ⟨htext (by decide), steady_instance, hfree (by decide), hfree (by decide), hoptional (by decide), trivial⟩
  | deleteInstance =>
    refine bind_read_edit ?_ hd h hread
    exact ⟨htext (by decide), steady_instance, htext (by decide), htext (by decide), trivial⟩
  | setDependencyAddress =>
    refine bind_read_edit ?_ hd h hread
    exact ⟨steady_instance, htext (by decide), steady_provider, haddress, trivial⟩
  | initializeInstance =>
    refine bind_read_edit ?_ hd h hread
    exact ⟨steady_instance, steady_part (by decide) (steady_map (steady_readNat 32 "u32") _), htext (by decide),
      steady_part (by decide) steady_readBool, trivial⟩
  | finalizeInstance | deleteInstanceRecord =>
    refine bind_read_edit ?_ hd h hread
    exact ⟨steady_instance, trivial⟩
  | setStatefulnessParameters =>
    refine bind_read_edit ?_ hd h hread
    exact ⟨steady_instance, hinteger (by decide), htext (by decide), trivial⟩
  | setClientDependency =>
    refine bind_read_edit ?_ hd h hread
    exact ⟨htext (by decide), htext (by decide), htext (by decide), htext (by decide), steady_provider, haddress,
      trivial⟩
  | moveChunk =>
    refine bind_read_edit ?_ hd h hread
    exact ⟨htext (by decide), htext (by decide), hinteger (by decide), htext (by decide), trivial⟩
  | dropDatabase =>
    refine bind_read_edit ?_ hd h hread
    exact ⟨htext (by decide), steady_part (by decide) (steady_readList steady_readString), trivial⟩
  | registerApplication =>
    refine bind_read_edit ?_ hd h hread
    exact ⟨htext (by decide), hfree (by decide), trivial⟩
  | createInstanceRecord =>
    refine bind_read_edit ?_ hd h hread
    exact ⟨steady_instance, hoptional (by decide), trivial⟩
  | initializeScheduledJob =>
    refine bind_read_edit ?_ hd h hread
    exact ⟨htext (by decide), htext (by decide), htext (by decide), trivial⟩

end Fields

section Gather

-- A payload is read in two steps: its kind is found among the members, and the others are kept in their order and
-- read as the record of this kind. An edit touches either the one or the other.

def tags (ms : List (Doc × Doc)) : List (Doc × Doc) := ms.filter fun m => isTag m.1

def others (ms : List (Doc × Doc)) : List (Doc × Doc) := ms.filter fun m => !isTag m.1

variable {ms : List (Doc × Doc)} {kind : Option Kind} {kept : List (Doc × Doc)}
  {out : Option Kind × List (Doc × Doc)}

section Split

variable {pre post : List (Doc × Doc)} {key x : Doc}

theorem tags_of_tag (h : isTag key = true) : tags (pre ++ (key, x) :: post) = tags pre ++ (key, x) :: tags post := by
  simp [tags, h]

theorem others_of_tag (h : isTag key = true) : others (pre ++ (key, x) :: post) = others pre ++ others post := by
  simp [others, h]

theorem tags_of_other (h : isTag key = false) : tags (pre ++ (key, x) :: post) = tags pre ++ tags post := by
  simp [tags, h]

theorem others_of_other (h : isTag key = false) :
    others (pre ++ (key, x) :: post) = others pre ++ (key, x) :: others post := by
  simp [others, h]

end Split

theorem eq_tag_of_isTag {key : Doc} (h : isTag key = true) : key = string (some "kind") := by
  unfold isTag at h
  split at h
  · rw [of_decide_eq_true h]
  · cases h

theorem gather_tag : gather room ((string (some "kind"), d) :: ms) true kind kept = .ok out ↔
    kind = none ∧ ∃ k, readKind d = .ok k ∧ gather room ms true (some k) kept = .ok out := by
  have hread : gather room ((string (some "kind"), d) :: ms) true kind kept =
      if kind.isSome then fail (.duplicate "kind")
      else readKind d >>= fun k => gather room ms true (some k) kept := rfl
  rw [hread]
  cases kind with
  | some k => exact ⟨fun h => (by cases h), fun h => (by cases h.1)⟩
  | none =>
    rw [Option.isSome_none, if_neg Bool.false_ne_true, bind_eq_ok]
    simp

theorem gather_other {key : Doc} (hkey : ∃ s, key = string s) (htag : isTag key = false) (hd : d.Whole) :
    gather room ((key, d) :: ms) true kind kept = .ok out ↔
      (∃ s, key = string (some s)) ∧ Fits room d ∧ gather room ms true kind ((key, d) :: kept) = .ok out := by
  obtain ⟨s, rfl⟩ := hkey
  rw [gather, bind_eq_ok]
  simp only [settle_string]
  constructor
  · rintro ⟨_, ⟨rfl, k, rfl⟩, hread⟩
    rw [if_neg (by simp [htag]), bind_eq_ok] at hread
    simp only [settle_eq_ok hd] at hread
    obtain ⟨_, ⟨rfl, hfits⟩, hread⟩ := hread
    exact ⟨⟨k, rfl⟩, hfits, hread⟩
  · rintro ⟨⟨k, hk⟩, hfits, hread⟩
    refine ⟨string s, ⟨rfl, k, string.inj hk⟩, ?_⟩
    rw [if_neg (by simp [htag]), bind_eq_ok]
    exact ⟨d, (settle_eq_ok hd).mpr ⟨rfl, hfits⟩, hread⟩

/-- One kind at most is found, and everything else is kept in its order. -/
theorem gather_eq_ok (hkeys : ∀ m ∈ ms, ∃ s, m.1 = string s) (hvalues : ∀ m ∈ ms, m.2.Whole) :
    gather room ms true kind kept = .ok out ↔
      (∃ ks : List Kind, (tags ms).map (fun m => readKind m.2) = ks.map .ok ∧ kind.toList ++ ks = out.1.toList) ∧
      (∀ m ∈ others ms, (∃ s, m.1 = string (some s)) ∧ Fits room m.2) ∧
      out.2 = kept.reverse ++ others ms := by
  induction ms generalizing kind kept with
  | nil =>
    obtain ⟨found, left⟩ := out
    cases kind <;> cases found <;> simp [gather, tags, others, pure, Except.pure, eq_comm]
  | cons m ms ih =>
    obtain ⟨key, d⟩ := m
    obtain ⟨hkey, hmore⟩ := List.forall_mem_cons.mp hkeys
    obtain ⟨hd, hwhole⟩ := List.forall_mem_cons.mp hvalues
    cases htag : isTag key with
    | true =>
      obtain rfl := eq_tag_of_isTag htag
      rw [gather_tag]
      have htags : tags ((string (some "kind"), d) :: ms) = (string (some "kind"), d) :: tags ms := rfl
      have hothers : others ((string (some "kind"), d) :: ms) = others ms := rfl
      simp only [ih hmore hwhole, htags, hothers, List.map_cons]
      constructor
      · rintro ⟨rfl, k, hk, ⟨ks, hks, hfound⟩, hrest⟩
        exact ⟨⟨k :: ks, by rw [hk, hks, List.map_cons], hfound⟩, hrest⟩
      · rintro ⟨⟨ks, hks, hfound⟩, hrest⟩
        obtain ⟨k, ks', rfl, hk, hks⟩ := List.map_eq_cons_iff.mp hks.symm
        cases kind with
        | some j => cases hout : out.1 <;> simp [hout] at hfound
        | none => exact ⟨rfl, k, hk.symm, ⟨ks', hks.symm, hfound⟩, hrest⟩
    | false =>
      have htags : tags ((key, d) :: ms) = tags ms := by simp [tags, htag]
      have hothers : others ((key, d) :: ms) = (key, d) :: others ms := by simp [others, htag]
      rw [gather_other hkey htag hd, ih hmore hwhole, htags, hothers, List.forall_mem_cons, List.reverse_cons,
        List.append_assoc, List.singleton_append]
      constructor
      · rintro ⟨hk, hfits, hfound, hrest, hout⟩
        exact ⟨hfound, ⟨⟨hk, hfits⟩, hrest⟩, hout⟩
      · rintro ⟨hfound, ⟨⟨hk, hfits⟩, hrest⟩, hout⟩
        exact ⟨hk, hfits, hfound, hrest, hout⟩

end Gather

theorem read_object {p : Payload} (hd : (object ms true).Whole) :
    Payload.read room (object ms true) = .ok p ↔ ∃ k, (tags ms).map (fun m => readKind m.2) = [.ok k] ∧
      (∀ m ∈ others ms, (∃ s, m.1 = string (some s)) ∧ Fits room m.2) ∧
      readFields k (object (others ms) true) = .ok p := by
  cases hd with
  | object keys values =>
    rw [Payload.read, bind_eq_ok]
    simp only [gather_eq_ok keys values]
    constructor
    · rintro ⟨⟨found, left⟩, ⟨⟨ks, hks, hfound⟩, hothers, rfl⟩, hfields⟩
      cases found with
      | none => cases hfields
      | some k =>
        obtain rfl : ks = [k] := hfound
        exact ⟨k, hks, hothers, hfields⟩
    · rintro ⟨k, hk, hothers, hfields⟩
      exact ⟨(some k, others ms), ⟨⟨[k], hk, rfl⟩, hothers, rfl⟩, hfields⟩

theorem read_array {items : List Doc} {p : Payload} (hd : (array items true).Whole) :
    Payload.read room (array items true) = .ok p ↔ ∃ tag rest k, items = tag :: rest ∧ readKind tag = .ok k ∧
      (∀ d ∈ rest, Fits room d) ∧ readFields k (array rest true) = .ok p := by
  cases hd with
  | array values =>
    cases items with
    | nil => exact ⟨fun h => (by cases h), fun ⟨_, _, _, h, _⟩ => (by cases h)⟩
    | cons tag rest =>
      have hread : Payload.read room (array (tag :: rest) true) = readKind tag >>= fun k =>
        settleItems room rest >>= fun items => readFields k (array items true) := rfl
      rw [hread, bind_eq_ok]
      simp only [bind_eq_ok, settleItems_eq_ok fun d hd => settle_eq_ok (values d (List.mem_cons_of_mem _ hd))]
      constructor
      · rintro ⟨k, hk, _, ⟨rfl, hfits⟩, hfields⟩
        exact ⟨tag, _, k, rfl, hk, hfits, hfields⟩
      · rintro ⟨_, _, k, he, hk, hfits, hfields⟩
        obtain ⟨rfl, rfl⟩ := List.cons.inj he
        exact ⟨k, hk, _, ⟨rfl, hfits⟩, hfields⟩

theorem kind_of_readFields {k : Kind} {p : Payload} (h : readFields k d = .ok p) : p.kind = k := by
  cases k <;> (obtain ⟨_, -, hp⟩ := bind_eq_ok.mp h; cases hp; rfl)

theorem steady_readKind : Steady Shuffle readKind :=
  steady_of_scalar (fun _ _ _ h => by cases h) fun _ _ _ h => by cases h

/-- Whether a payload is marked with this kind. -/
def Tells (k : Kind) : Doc → Prop
  | object members _ => (string (some "kind"), string (some k.name)) ∈ members
  | array items _ => items.head? = some (string (some k.name))
  | _ => False

theorem kind_of_tells {k : Kind} {p : Payload} (hd : d.Whole) (h : Tells k d)
    (hread : Payload.read room d = .ok p) : p.kind = k := by
  cases d with
  | object ms closed =>
    obtain rfl := hd.closed_object
    obtain ⟨j, hj, -, hfields⟩ := (read_object hd).mp hread
    have htag : (string (some "kind"), string (some k.name)) ∈ tags ms := List.mem_filter.mpr ⟨h, rfl⟩
    have hmem := List.mem_map_of_mem (f := fun m => readKind m.2) htag
    rw [hj, List.mem_singleton] at hmem
    rw [kind_of_readFields hfields]
    exact Except.ok.inj (hmem.symm.trans (readKind_name k))
  | array items closed =>
    obtain rfl := hd.closed_array
    obtain ⟨tag, rest, j, rfl, hj, -, hfields⟩ := (read_array hd).mp hread
    obtain rfl : tag = string (some k.name) := Option.some.inj h
    rw [kind_of_readFields hfields]
    exact Except.ok.inj (hj.symm.trans (readKind_name k))
  | _ => exact h.elim

theorem whole_others (hd : (object ms true).Whole) : (object (others ms) true).Whole := by
  cases hd with
  | object keys values =>
    exact .object (fun m hm => keys m (List.mem_of_mem_filter hm)) fun m hm => values m (List.mem_of_mem_filter hm)

theorem read_object_replace {pre post : List (Doc × Doc)} {key : Doc} {p : Payload}
    (hd : (object (pre ++ (key, d) :: post) true).Whole) (htag : isTag key = true → Shuffle d e)
    (hfits : isTag key = false → Fits (room + 1) d → Fits (room + 1) e)
    (hedit : isTag key = false → ∀ pre post, Doc.Edit (fieldNames p.kind) (Fits (room + 1)) (part room)
      (object (pre ++ (key, d) :: post) true) (object (pre ++ (key, e) :: post) true))
    (hread : Payload.read (room + 1) (object (pre ++ (key, d) :: post) true) = .ok p)
    (he : (object (pre ++ (key, e) :: post) true).Whole) :
    Payload.read (room + 1) (object (pre ++ (key, e) :: post) true) = .ok p := by
  obtain ⟨k, hk, hothers, hfields⟩ := (read_object hd).mp hread
  obtain rfl := kind_of_readFields hfields
  have hwhole := whole_others hd
  refine (read_object he).mpr ⟨p.kind, ?_⟩
  cases hkey : isTag key with
  | true =>
    have hmem := List.mem_map_of_mem (f := fun m : Doc × Doc => readKind m.2)
      (show (key, d) ∈ tags (pre ++ (key, d) :: post) by simp [tags_of_tag hkey])
    rw [hk, List.mem_singleton] at hmem
    have hkind : readKind e = .ok p.kind := steady_readKind hd.member (htag hkey) hmem
    rw [others_of_tag hkey] at hothers hfields ⊢
    simp only [tags_of_tag hkey, List.map_append, List.map_cons, hmem, hkind] at hk ⊢
    exact ⟨hk, hothers, hfields⟩
  | false =>
    rw [tags_of_other hkey] at hk ⊢
    rw [others_of_other hkey] at hothers hfields hwhole ⊢
    refine ⟨hk, forall_mem_replace hothers fun h => ⟨h.1, hfits hkey h.2⟩, ?_⟩
    exact readFields_edit hwhole (hedit hkey _ _) hfields

theorem read_array_replace {pre post : List Doc} {p : Payload}
    (hd : (array (pre ++ d :: post) true).Whole) (he : (array (pre ++ e :: post) true).Whole)
    (htag : pre = [] → Shuffle d e) (hfits : pre ≠ [] → Fits (room + 1) d → Fits (room + 1) e)
    (hedit : ∀ tag pre', pre = tag :: pre' → Doc.Edit (fieldNames p.kind) (Fits (room + 1)) (part room)
      (array (pre' ++ d :: post) true) (array (pre' ++ e :: post) true))
    (hread : Payload.read (room + 1) (array (pre ++ d :: post) true) = .ok p) :
    Payload.read (room + 1) (array (pre ++ e :: post) true) = .ok p := by
  obtain ⟨tag, rest, k, hitems, hk, hrest, hfields⟩ := (read_array hd).mp hread
  obtain rfl := kind_of_readFields hfields
  refine (read_array he).mpr ?_
  cases pre with
  | nil =>
    obtain ⟨rfl, rfl⟩ := List.cons.inj hitems
    exact ⟨e, post, p.kind, rfl, steady_readKind hd.item (htag rfl) hk, hrest, hfields⟩
  | cons t pre =>
    obtain ⟨rfl, rfl⟩ := List.cons.inj hitems
    have hwhole : (array (pre ++ d :: post) true).Whole := by
      cases hd with
      | array values => exact .array (List.forall_mem_cons.mp values).2
    exact ⟨t, pre ++ e :: post, p.kind, rfl, hk, forall_mem_replace hrest (hfits (by simp)),
      readFields_edit hwhole (hedit t pre rfl) hfields⟩

theorem read_perm {ms ms' : List (Doc × Doc)} {p : Payload} (hd : (object ms true).Whole)
    (he : (object ms' true).Whole) (distinct : Distinct ms) (h : ms.Perm ms')
    (hread : Payload.read (room + 1) (object ms true) = .ok p) :
    Payload.read (room + 1) (object ms' true) = .ok p := by
  obtain ⟨k, hk, hothers, hfields⟩ := (read_object hd).mp hread
  have htags : ((tags ms).map fun m => readKind m.2).Perm ((tags ms').map fun m => readKind m.2) :=
    (h.filter _).map _
  have hperm : (others ms).Perm (others ms') := h.filter _
  rw [hk] at htags
  have hedit : Doc.Edit (fieldNames k) (Fits (room + 1)) (part room) (object (others ms) true)
      (object (others ms') true) :=
    .shuffle (.perm (List.Pairwise.filter _ distinct) hperm)
  exact (read_object he).mpr ⟨k, List.perm_singleton.mp htags.symm,
    fun m hm => hothers m (hperm.mem_iff.mpr hm), readFields_edit (whole_others hd) hedit hfields⟩

theorem read_insert {pre post : List (Doc × Doc)} {name : String} {v : Doc} {p : Payload}
    (hd : (object (pre ++ post) true).Whole)
    (he : (object (pre ++ (string (some name), v) :: post) true).Whole)
    (hname : name ∉ "kind" :: fieldNames p.kind) (hv : Fits (room + 1) v)
    (hread : Payload.read (room + 1) (object (pre ++ post) true) = .ok p) :
    Payload.read (room + 1) (object (pre ++ (string (some name), v) :: post) true) = .ok p := by
  rw [List.mem_cons, not_or] at hname
  obtain ⟨hkind, hname⟩ := hname
  have hkey : isTag (string (some name)) = false := decide_eq_false hkind
  obtain ⟨k, hk, hothers, hfields⟩ := (read_object hd).mp hread
  obtain rfl := kind_of_readFields hfields
  have hwhole := whole_others hd
  rw [show tags (pre ++ post) = tags pre ++ tags post from List.filter_append ..] at hk
  rw [show others (pre ++ post) = others pre ++ others post from List.filter_append ..] at hothers hfields hwhole
  refine (read_object he).mpr ⟨p.kind, ?_⟩
  rw [tags_of_other hkey, others_of_other hkey]
  exact ⟨hk, forall_mem_insert hothers ⟨⟨name, rfl⟩, hv⟩, readFields_edit hwhole (.add _ _ _ hname hv) hfields⟩

theorem read_edit {p : Payload} (hd : d.Whole)
    (h : Doc.Edit ("kind" :: fieldNames p.kind) (Fits (room + 1)) (part room) d e)
    (hread : Payload.read (room + 1) d = .ok p) : Payload.read (room + 1) e = .ok p := by
  have he : e.Whole := h.whole (regular room) hd
  cases h with
  | shuffle h =>
    cases h with
    | perm distinct h =>
      obtain rfl := hd.closed_object
      exact read_perm hd he distinct h hread
    | item pre post closed h =>
      obtain rfl := hd.closed_array
      exact read_array_replace hd he (fun _ => h) (fun _ => h.fits)
        (fun _ pre' _ => .shuffle (.item pre' post true h)) hread
    | member pre post k closed h =>
      obtain rfl := hd.closed_object
      exact read_object_replace hd (fun _ => h) (fun _ => h.fits)
        (fun _ pre post => .shuffle (.member pre post k true h)) hread he
  | add pre post closed hname hv =>
    obtain rfl := hd.closed_object
    exact read_insert hd he hname hv hread
  | @member name d e pre post closed h =>
    obtain rfl := hd.closed_object
    refine read_object_replace hd (fun htag => ?_) (fun _ => fits_part h) (fun _ pre post => .member pre post true h)
      hread he
    obtain rfl : name = "kind" := of_decide_eq_true htag
    exact shuffle_of_part h
  | @item name d e pre post closed hname h =>
    obtain rfl := hd.closed_array
    refine read_array_replace hd he (fun hpre => ?_) (fun _ => fits_part h) (fun tag pre' hpre => ?_) hread
    · subst hpre
      obtain rfl := Option.some.inj hname
      exact shuffle_of_part h
    · subst hpre
      exact .item pre' post true hname h

/-- A change to a payload among tasks: in the order of members, or in what its kind has no field for. -/
def Edit (d e : Doc) : Prop :=
  -- a text may nest 127 levels, and plan, tasks, task and payload are four of them
  Shuffle d e ∨ ∃ k, Tells k d ∧ Doc.Edit ("kind" :: fieldNames k) (Fits 123) (part 122) d e

theorem whole_of_edit (h : Edit d e) (hd : d.Whole) : e.Whole := by
  rcases h with h | ⟨k, -, h⟩
  · exact h.whole hd
  · exact h.whole (regular 122) hd

theorem steady_read : Steady Edit (Payload.read 123) := by
  intro d e p hd h hread
  rcases h with h | ⟨k, htells, h⟩
  · exact read_edit hd (.shuffle h) hread
  · obtain rfl := kind_of_tells hd htells hread
    exact read_edit hd h hread

end Payload

namespace Task

def part (name : String) : Doc → Doc → Prop := if name = "payload" then Payload.Edit else Shuffle

def Edit : Doc → Doc → Prop := Doc.Edit Plan.taskFields.names Whole part

theorem regular : Regular Whole part where
  whole_of_fit h := h
  whole_of_part h hd := by
    unfold part at h
    split_ifs at h
    · exact Payload.whole_of_edit h hd
    · exact h.whole hd
  part_of_shuffle h := by
    unfold part
    split_ifs
    · exact Or.inl h
    · exact h

theorem steady_part {α : Type} {name : String} {read : Doc → Reading α} (hname : name ≠ "payload")
    (h : Steady Shuffle read) : Steady (part name) read := by
  unfold part
  rwa [if_neg hname]

theorem steady_read : Steady Edit (Plan.readTask .text) := by
  refine steady_bind (Fields.steady_read regular ?_ "struct Task") _
  refine ⟨steady_part (by decide) (steady_readNat 64 "u64"), ?_, ?_, ?_, trivial⟩
  · exact Payload.steady_read
  · exact steady_part (by decide) (steady_readList (steady_readNat 64 "u64"))
  · exact steady_part (by decide) (steady_readList (steady_readNat 64 "u64"))

end Task

namespace Plan

/-- A change to one of several tasks. -/
inductive TaskEdit : Doc → Doc → Prop
  | mk {d e : Doc} (pre post : List Doc) (closed : Bool) (h : Task.Edit d e) :
    TaskEdit (array (pre ++ d :: post) closed) (array (pre ++ e :: post) closed)

def part (name : String) (d e : Doc) : Prop := Shuffle d e ∨ name = "tasks" ∧ TaskEdit d e

/-- A change to a plan: one object has its members in another order, or a plan, a task, a payload or an instance
has one more member that it has no field for. -/
def Edit : Doc → Doc → Prop := Doc.Edit fields.names Whole part

theorem regular : Regular Whole part where
  whole_of_fit h := h
  whole_of_part h hd := by
    rcases h with h | ⟨-, ⟨pre, post, closed, h⟩⟩
    · exact h.whole hd
    · cases hd with
      | array values => exact .array (forall_mem_replace values (h.whole Task.regular))
  part_of_shuffle := Or.inl

theorem steady_tasks : Steady (part "tasks") (readList (readTask .text)) := by
  intro d e tasks hd h hread
  rcases h with h | ⟨-, ⟨pre, post, closed, h⟩⟩
  · exact steady_readList (fun hd h => Task.steady_read hd (.shuffle h)) hd h hread
  · exact readItems_replace (fun task => Task.steady_read hd.item h) hread

theorem steady_read : Steady Edit (Plan.read .text) := by
  refine steady_bind (Fields.steady_read regular ?_ "struct ExecutionPlan") _
  refine ⟨fun hd h => ?_, steady_tasks, trivial⟩
  exact steady_readString hd (h.resolve_right fun hname => absurd hname.1 (by decide))

theorem read_edits {p : Plan} (hd : d.Whole) (h : Relation.ReflTransGen Edit d e) (hread : read .text d = .ok p) :
    e.Whole ∧ read .text e = .ok p := by
  induction h with
  | refl => exact ⟨hd, hread⟩
  | tail _ hedit ih => exact ⟨hedit.whole regular ih.1, steady_read ih.1 hedit ih.2⟩

/-- A text that is read as a plan is the text of one document. Whatever order the members of this document are
brought into, and whatever members are added that are not read, its text is read as the same plan. -/
theorem ofJson_eq_of_edits {s : String} {p : Plan} (h : Plan.ofJson s = .ok p) :
    (∃ d : Doc, d.Spells s) ∧ ∀ (d e : Doc) (t : String), d.Spells s → Relation.ReflTransGen Edit d e →
      e.Spells t → Plan.ofJson t = .ok p := by
  obtain ⟨d, hd, hread⟩ := ofText_eq_ok.mp h
  refine ⟨⟨d, hd⟩, fun d' e t hd' hedits ht => ?_⟩
  obtain rfl : d = d' := congrArg Prod.fst ((Json.document_eq_iff.mpr hd).symm.trans (Json.document_eq_iff.mpr hd'))
  exact ofText_eq_ok.mpr ⟨e, ht, (read_edits hd.1 hedits hread).2⟩

def instanceValue (more : List (String × Json)) : Json :=
  .object ([("application", .string "app"), ("component", .string "api"), ("instance_id", .string "0")] ++ more)

def kindMember : String × Json := ("kind", .string "delete_instance")

def removalMembers (more : List (String × Json)) : List (String × Json) :=
  [("namespace", .string "ns"), ("instance", instanceValue more), ("deployment", .string "d"), ("service", .string "s")]

/-- A plan with one task, written with more members. -/
def planValue (more payload : List (String × Json)) : Json :=
  .object (more ++ [("namespace", .string "ns"),
    ("tasks", .array [.object [("id", .id 7), ("payload", .object payload)]])])

def removal : Plan := ⟨"ns", [⟨7, .deleteInstance "ns" ⟨"app", "api", "0"⟩ "d" "s", [], []⟩]⟩

theorem edit_planValue {ms ms' : List (String × Json)}
    (h : Payload.Edit (.ofJson (.object ms)) (.ofJson (.object ms'))) :
    Edit (.ofJson (planValue [] ms)) (.ofJson (planValue [] ms')) := by
  have htask : Task.Edit (.ofJson (.object [("id", .id 7), ("payload", .object ms)]))
      (.ofJson (.object [("id", .id 7), ("payload", .object ms')])) :=
    .member [(string (some "id"), .ofJson (.id 7))] [] true h
  exact .member [(string (some "namespace"), string (some "ns"))] [] true (Or.inr ⟨rfl, .mk [] [] true htask⟩)

/-- The kind comes last, and the instance and the plan get members that are not read. -/
theorem ofJson_eq_of_edits_removal :
    Plan.ofJson (planValue [] (kindMember :: removalMembers [])).render = .ok removal ∧
      Plan.ofJson (planValue [("version", .array [.null])]
        (removalMembers [("kind", .null)] ++ [kindMember])).render = .ok removal := by
  have hexact : (planValue [] (kindMember :: removalMembers [])).Exact := by
    simp [planValue, kindMember, removalMembers, instanceValue, Json.Exact, Json.ItemsExact, Json.MembersExact]
  have hexact' :
      (planValue [("version", .array [.null])] (removalMembers [("kind", .null)] ++ [kindMember])).Exact := by
    simp [planValue, kindMember, removalMembers, instanceValue, Json.Exact, Json.ItemsExact, Json.MembersExact]
  have hread : Plan.ofJson (planValue [] (kindMember :: removalMembers [])).render = .ok removal :=
    ofText_render hexact rfl
  have hinstance : Instance.Edit 122 (.ofJson (instanceValue [])) (.ofJson (instanceValue [("kind", .null)])) :=
    .add [_, _, _] [] true (by decide) .null
  have hpayload : Payload.Edit (.ofJson (.object (kindMember :: removalMembers [])))
      (.ofJson (.object (kindMember :: removalMembers [("kind", .null)]))) :=
    Or.inr ⟨.deleteInstance, List.mem_cons_self, .member [_, _] [_, _] true hinstance⟩
  have hkind : Payload.Edit (.ofJson (.object (kindMember :: removalMembers [("kind", .null)])))
      (.ofJson (.object (removalMembers [("kind", .null)] ++ [kindMember]))) :=
    Or.inl (.perm (by simp [Distinct, Doc.ofMembers, kindMember, removalMembers]) (List.perm_append_singleton _ _).symm)
  have hplan : Edit (.ofJson (planValue [] (removalMembers [("kind", .null)] ++ [kindMember])))
      (.ofJson (planValue [("version", .array [.null])] (removalMembers [("kind", .null)] ++ [kindMember]))) :=
    .add [] [_, _] true (by decide) (.array fun d hd => List.mem_singleton.mp hd ▸ .null)
  have hedits := Relation.ReflTransGen.tail
    (.tail (.single (edit_planValue hpayload)) (edit_planValue hkind)) hplan
  exact ⟨hread, (ofJson_eq_of_edits hread).2 _ _ _ (Json.spells_render hexact) hedits (Json.spells_render hexact')⟩

end Plan

end Rollout
