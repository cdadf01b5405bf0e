import Rollout.Plan.Reading
import Rollout.Plan.Writing
import Rollout.Proofs.RecordReading

/-! Plans as texts. A plan that is written as JSON is read as the same plan. -/

namespace Rollout

open Doc

variable {src : Source}

theorem Kind.mem_all (k : Kind) : k ∈ Kind.all := by cases k <;> decide

theorem Kind.name_injective : ∀ k ∈ Kind.all, ∀ j ∈ Kind.all, k.name = j.name → k = j := by decide

theorem Instance.read_toJson (i : Instance) : Instance.read src (.ofJson i.toJson) = .ok i := by
  have hfields : Instance.fields.Written src
      [("application", .string i.application), ("component", .string i.component),
        ("instance_id", .string i.id)]
      (i.application, i.component, i.id, ()) := .needed rfl <| .needed rfl <| .needed rfl rfl
  unfold Instance.read
  rw [Instance.toJson, hfields.read_eq (by decide)]
  rfl

theorem Address.read_toJson (a : Address) : Address.read .buffer (.ofJson a.toJson) = .ok a := by
  cases a <;> rfl

/-- A value as it can stand free in a plan: its numbers are integers, its objects are ordered. -/
def Json.Free (v : Json) : Prop := v.Exact ∧ v.Ordered

namespace Json

@[simp] theorem exact_id (n : UInt64) : (id n).Exact := trivial

@[simp] theorem exact_int (n : Int64) : (int n).Exact := by
  unfold int
  split
  · assumption
  · trivial

@[simp] theorem exact_optional {α : Type} {f : α → Json} (h : ∀ a, (f a).Exact) (o : Option α) :
    (optional f o).Exact := by
  cases o with
  | none => trivial
  | some a => exact h a

@[simp] theorem exact_text (o : Option String) : (text o).Exact :=
  exact_optional (f := string) (fun _ => trivial) o

theorem exact_list {α : Type} {f : α → Json} {xs : List α} (h : ∀ x ∈ xs, (f x).Exact) :
    (list f xs).Exact := by
  change ItemsExact (xs.map f)
  induction xs with
  | nil => trivial
  | cons x xs ih => exact ⟨h x List.mem_cons_self, ih fun y hy => h y (List.mem_cons_of_mem _ hy)⟩

theorem membersExact_map {α : Type} (f : α → Json) (h : ∀ a, (f a).Exact) (ps : List (String × α)) :
    MembersExact (ps.map fun p => (p.1, f p.2)) := by
  induction ps with
  | nil => trivial
  | cons p ps ih => exact ⟨h p.2, ih⟩

end Json

@[simp] theorem Instance.exact_toJson (i : Instance) : i.toJson.Exact := ⟨trivial, trivial, trivial, trivial⟩

@[simp] theorem Address.exact_toJson (a : Address) : a.toJson.Exact := by cases a <;> exact ⟨trivial, trivial⟩

theorem Json.Free.read_eq {v : Json} (h : v.Free) : readJson (.ofJson v) = .ok v := readJson_ofJson h.1 h.2

theorem Doc.ofText_eq_ok {α : Type} {read : Doc → Reading α} {s : String} {a : α} :
    Doc.ofText read s = .ok a ↔ ∃ d, d.Spells s ∧ read d = .ok a := by
  have hread : Doc.ofText read s = (read (Json.document s).1 >>= fun a =>
      if (Json.document s).2 then pure a else throw Fault.malformed) := rfl
  simp only [hread, bind_eq_ok, ← Json.document_eq_iff]
  constructor
  · rintro ⟨a', ha, hclean⟩
    cases hflag : (Json.document s).2 with
    | true =>
      rw [hflag, if_pos rfl] at hclean
      obtain rfl := Except.ok.inj hclean
      exact ⟨_, Prod.ext rfl hflag, ha⟩
    | false =>
      rw [hflag, if_neg Bool.false_ne_true] at hclean
      cases hclean
  · rintro ⟨d, hd, ha⟩
    rw [hd]
    exact ⟨a, ha, rfl⟩

/-- A text that was written for a value is read by reading the value. -/
theorem Doc.ofText_render {α : Type} {read : Doc → Reading α} {v : Json} {a : α} (h : v.Exact)
    (hread : read (.ofJson v) = .ok a) : Doc.ofText read v.render = .ok a :=
  ofText_eq_ok.mpr ⟨.ofJson v, Json.spells_render h, hread⟩

namespace Payload

/-- What a payload holds is in order. -/
def Proper : Payload → Prop
  | createDeployment _ _ manifest | updateDeployment _ _ manifest | createService _ _ manifest _ =>
    manifest.Free
  | createSecret _ _ data => data.Sorted
  | createInstance _ _ deployment service _ => deployment.Free ∧ service.Free
  | registerApplication _ descriptor => descriptor.Free
  | _ => True

theorem bind_read {ρ σ : Type} {fs : Fields ρ σ} {ms : List (String × Json)} {r : ρ} (hnd : fs.names.Nodup)
    (h : fs.Written src ms r) {title : String} {next : ρ → Reading Payload} :
    (fs.read title src (.ofJson (.object ms)) >>= next) = next r := by
  rw [h.read_eq hnd]
  rfl

theorem read_provider (o : Option Instance) :
    readOptional (Instance.read .buffer) (.ofJson (.optional Instance.toJson o)) = .ok o :=
  readOptional_optional (fun _ => rfl) fun i _ => i.read_toJson

/-- The members of a payload are read by the fields of its kind. -/
theorem readFields_members {p : Payload} (h : p.Proper) :
    readFields p.kind (.ofJson (.object p.members)) = .ok p := by
  cases p with
  | createNamespace a | deleteNamespace a | disconnectApplicationClients a | addAppRecord a
  | deleteAppRecord a =>
    refine bind_read (r := (a, ())) (by decide) ?_
    exact ⟨rfl, rfl, rfl⟩
  | deleteDeployment a b | deleteService a b | deleteSecret a b | shardCollection a b =>
    refine bind_read (r := (a, b, ())) (by decide) ?_
    exact ⟨rfl, rfl, rfl, rfl, rfl⟩
  | createDeployment ns name manifest | updateDeployment ns name manifest =>
    refine bind_read (r := (ns, name, manifest, ())) (by decide) ?_
    exact ⟨rfl, rfl, rfl, rfl, rfl, h.read_eq, rfl⟩
  | createService ns name manifest key =>
    refine bind_read (r := (ns, name, manifest, key, ())) (by decide) ?_
    exact ⟨rfl, rfl, rfl, rfl, rfl, h.read_eq, rfl, readOptional_text key, rfl⟩
  | createSecret ns name data =>
    refine bind_read (r := (ns, name, data, ())) (by decide) ?_
    exact ⟨rfl, rfl, rfl, rfl, rfl, readTable_map (fun _ => rfl) h, rfl⟩
  | createInstance ns i deployment service key =>
    refine bind_read (r := (ns, i, deployment, service, key, ())) (by decide) ?_
    exact ⟨rfl, rfl, rfl, i.read_toJson, rfl, h.1.read_eq, rfl, h.2.read_eq, rfl, readOptional_text key, rfl⟩
  | deleteInstance ns i deployment service =>
    refine bind_read (r := (ns, i, deployment, service, ())) (by decide) ?_
    exact ⟨rfl, rfl, rfl, i.read_toJson, rfl, rfl, rfl, rfl, rfl⟩
  | setDependencyAddress i dependency provider address =>
    refine bind_read (r := (i, dependency, provider, address, ())) (by decide) ?_
    exact ⟨rfl, i.read_toJson, rfl, rfl, rfl, read_provider provider, rfl, address.read_toJson, rfl⟩
  | initializeInstance i runCount accessToken production =>
    refine bind_read (r := (i, runCount, accessToken, production, ())) (by decide) ?_
    exact ⟨rfl, i.read_toJson, rfl, readHalfWord_id runCount, rfl, rfl, rfl, rfl, rfl⟩
  | finalizeInstance i | deleteInstanceRecord i =>
    refine bind_read (r := (i, ())) (by decide) ?_
    exact ⟨rfl, i.read_toJson, rfl⟩
  | setStatefulnessParameters i shardKey routerAddress =>
    refine bind_read (r := (i, shardKey, routerAddress, ())) (by decide) ?_
    exact ⟨rfl, i.read_toJson, rfl, readInteger_int shardKey, rfl, rfl, rfl⟩
  | setClientDependency application clientType clientId dependency provider address =>
    refine bind_read (r := (application, clientType, clientId, dependency, provider, address, ()))
      (by decide) ?_
    exact ⟨rfl, rfl, rfl, rfl, rfl, rfl, rfl, rfl, rfl, read_provider provider, rfl, address.read_toJson, rfl⟩
  | moveChunk database collection key shard =>
    refine bind_read (r := (database, collection, key, shard, ())) (by decide) ?_
    exact ⟨rfl, rfl, rfl, rfl, rfl, readInteger_int key, rfl, rfl, rfl⟩
  | dropDatabase database collections =>
    refine bind_read (r := (database, collections, ())) (by decide) ?_
    exact ⟨rfl, rfl, rfl, readList_list fun _ _ => rfl, rfl⟩
  | registerApplication application descriptor =>
    refine bind_read (r := (application, descriptor, ())) (by decide) ?_
    exact ⟨rfl, rfl, rfl, h.read_eq, rfl⟩
  | createInstanceRecord i node =>
    refine bind_read (r := (i, node, ())) (by decide) ?_
    exact ⟨rfl, i.read_toJson, rfl, readOptional_text node, rfl⟩
  | initializeScheduledJob application component schedule =>
    refine bind_read (r := (application, component, schedule, ())) (by decide) ?_
    exact ⟨rfl, rfl, rfl, rfl, rfl, rfl, rfl⟩

theorem not_mem_keys_members (p : Payload) : "kind" ∉ p.members.map Prod.fst := by
  cases p <;> simp [members]

theorem gather_ofMembers {room : Nat} {ms : List (String × Json)} (hkind : "kind" ∉ ms.map Prod.fst)
    (hdepth : Json.membersDepth ms ≤ room) (k : Kind) (others : List (Doc × Doc)) :
    gather room (Doc.ofMembers ms) true (some k) others =
      .ok (some k, others.reverse ++ Doc.ofMembers ms) := by
  induction ms generalizing others with
  | nil =>
    rw [Doc.ofMembers, gather, List.append_nil]
    rfl
  | cons m ms ih =>
    obtain ⟨j, v⟩ := m
    obtain ⟨hv, hms⟩ := Nat.max_le.mp hdepth
    have hj : isTag (string (some j)) = false := by
      rw [isTag, decide_eq_false_iff_not]
      exact fun he => hkind (he ▸ List.mem_cons_self)
    have hsettle : settle 0 (string (some j)) = .ok (string (some j)) := rfl
    -- what was gathered so far stands last one first
    have hrest := ih (fun hm => hkind (List.mem_cons_of_mem _ hm)) hms
      ((string (some j), .ofJson v) :: others)
    rw [Doc.ofMembers, gather, hsettle]
    change (if isTag (string (some j)) = true then _ else _) = _
    rw [hj, if_neg Bool.false_ne_true, settle_ofJson hv]
    change gather room (Doc.ofMembers ms) true (some k) ((string (some j), .ofJson v) :: others) = _
    rw [hrest, List.reverse_cons, List.append_assoc]
    rfl

theorem readKind_name (k : Kind) : readKind (.ofJson (.string k.name)) = .ok k := by
  change (do (← Variant.select Kind.variants k.name).alone) = _
  rw [Kind.variants, select_units k.mem_all fun j hj => Kind.name_injective j hj k k.mem_all]
  rfl

/-- A payload whose values are not nested too deep is read as it is. -/
theorem read_toJson {p : Payload} (h : p.Proper) {room : Nat} (hdepth : Json.membersDepth p.members ≤ room) :
    Payload.read room (.ofJson p.toJson) = .ok p := by
  have hgather : gather room (Doc.ofMembers (("kind", .string p.kind.name) :: p.members)) true none [] =
      .ok (some p.kind, Doc.ofMembers p.members) := by
    rw [Doc.ofMembers, gather]
    change (do
      let k ← readKind (.ofJson (.string p.kind.name))
      gather room (Doc.ofMembers p.members) true (some k) []) = _
    rw [readKind_name]
    exact gather_ofMembers p.not_mem_keys_members hdepth p.kind []
  rw [toJson, Doc.ofJson, Payload.read, hgather]
  exact readFields_members h

theorem membersExact {p : Payload} (h : p.Proper) : Json.MembersExact p.members := by
  cases p with
  | createDeployment _ _ manifest | updateDeployment _ _ manifest => exact ⟨trivial, trivial, h.1, trivial⟩
  | createService _ _ manifest key => exact ⟨trivial, trivial, h.1, Json.exact_text key, trivial⟩
  | createSecret _ _ data =>
    exact ⟨trivial, trivial, Json.membersExact_map Json.string (fun _ => trivial) data.pairs, trivial⟩
  | createInstance _ i deployment service key =>
    exact ⟨trivial, i.exact_toJson, h.1.1, h.2.1, Json.exact_text key, trivial⟩
  | registerApplication _ descriptor => exact ⟨trivial, h.1, trivial⟩
  | dropDatabase _ collections =>
    exact ⟨trivial, Json.exact_list (f := Json.string) fun _ _ => trivial, trivial⟩
  | _ => simp [members, Json.MembersExact, Json.Exact]

end Payload

namespace Plan

def Proper (p : Plan) : Prop := ∀ t ∈ p.tasks, t.payload.Proper

theorem readTask_toJson {t : Task} (h : t.payload.Proper)
    (hdepth : Json.membersDepth t.payload.members ≤ 123) : readTask .text (.ofJson t.toJson) = .ok t := by
  have hfields : taskFields.Written .text
      [("id", .id t.id), ("payload", t.payload.toJson), ("predecessors", .list .id t.predecessors),
        ("successors", .list .id t.successors)] (t.id, t.payload, t.predecessors, t.successors, ()) :=
    .needed (readWord_id t.id) <| .needed (Payload.read_toJson h hdepth) <|
      .default (readList_ids t.predecessors) <| .default (readList_ids t.successors) rfl
  unfold readTask
  rw [Task.toJson, hfields.read_eq (by decide)]
  rfl

theorem exact_toJson {p : Plan} (h : p.Proper) : p.toJson.Exact := by
  refine ⟨trivial, Json.exact_list fun t ht =>
    ⟨trivial, ⟨trivial, Payload.membersExact (h t ht)⟩, ?_, ?_, trivial⟩, trivial⟩
  · exact Json.exact_list fun _ _ => trivial
  · exact Json.exact_list fun _ _ => trivial

theorem membersDepth_le {p : Plan} {n : Nat} (h : p.toJson.depth ≤ n + 4) {t : Task} (ht : t ∈ p.tasks) :
    Json.membersDepth t.payload.members ≤ n := by
  have htask : t.toJson.depth ≤ Json.itemsDepth (p.tasks.map Task.toJson) :=
    Json.depth_le_itemsDepth (List.mem_map_of_mem ht)
  have hpayload : t.payload.toJson.depth + 1 ≤ t.toJson.depth := by
    simp [Task.toJson, Json.depth, Json.membersDepth]
  have hplan : p.toJson.depth = Json.itemsDepth (p.tasks.map Task.toJson) + 2 := by
    simp [toJson, Json.depth, Json.membersDepth, Json.list]
  have hmembers : t.payload.toJson.depth = Json.membersDepth t.payload.members + 1 := by
    simp [Payload.toJson, Json.depth, Json.membersDepth]
  omega

/-- A plan that is written down is read as it is. Each payload is written with its kind, and has no other
member of that name. -/
theorem ofJson_render_toJson {p : Plan} (h : p.Proper) (hdepth : p.toJson.depth ≤ 127) :
    Plan.ofJson p.toJson.render = .ok p ∧
      ∀ t ∈ p.tasks, ∃ ms, t.payload.toJson = .object (("kind", .string t.kind.name) :: ms) ∧
        "kind" ∉ ms.map Prod.fst := by
  refine ⟨?_, fun t _ => ⟨t.payload.members, rfl, t.payload.not_mem_keys_members⟩⟩
  have hfields : fields.Written .text [("namespace", .string p.name), ("tasks", .list Task.toJson p.tasks)]
      (p.name, p.tasks, ()) :=
    .needed rfl <|
      .needed (readList_list fun t ht => readTask_toJson (h t ht) (membersDepth_le hdepth ht)) rfl
  have hread : read .text (.ofJson p.toJson) = .ok p := by
    unfold Plan.read
    rw [toJson, hfields.read_eq (by decide)]
    rfl
  exact Doc.ofText_render (exact_toJson h) hread

/-- A service with a nested manifest and a secret, with the largest ids and characters that are escaped. -/
def sample : Plan :=
  ⟨"a\"b\n\x01é", [
    ⟨18446744073709551615, .createService "ns" "api"
      (.object [("ports", .array [.int (-1), .id 18446744073709551615]), ("tls", .null)]) none, [], [0]⟩,
    ⟨0, .createSecret "ns" "key" (.ofList [("token", "\\")]), [18446744073709551615], []⟩]⟩

theorem ofJson_render_toJson_sample : sample.Proper ∧ sample.toJson.depth ≤ 127 ∧
    Plan.ofJson sample.toJson.render = .ok sample ∧
    ∀ t ∈ sample.tasks, ∃ ms, t.payload.toJson = .object (("kind", .string t.kind.name) :: ms) ∧
      "kind" ∉ ms.map Prod.fst := by
  have hproper : sample.Proper := by
    intro t ht
    rcases List.mem_cons.mp ht with rfl | ht
    · refine ⟨⟨⟨Json.exact_int _, trivial, trivial⟩, trivial, trivial⟩, ?_,
        ⟨⟨trivial, trivial, trivial⟩, trivial, trivial⟩⟩
      unfold Table.Sorted
      decide
    · rw [List.mem_singleton.mp ht]
      exact Table.Sorted.ofList _
  have hdepth : sample.toJson.depth ≤ 127 := by decide
  exact ⟨hproper, hdepth, ofJson_render_toJson hproper hdepth⟩

end Plan

end Rollout
