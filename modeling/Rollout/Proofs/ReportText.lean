import Rollout.Run.Reading
import Rollout.Run.Writing
import Rollout.Proofs.InstantText
import Rollout.Proofs.PlanText

/-! Reports as texts. A report that is written as JSON is read as the same report, and its instants are told
in universal time. -/

namespace Rollout

open Doc

variable (src : Source)

theorem Kind.read_name (k : Kind) : Variant.read Kind.variants src (.ofJson (.string k.name)) = .ok k :=
  read_units k.mem_all (fun j hj => Kind.name_injective j hj k k.mem_all) src

theorem TaskState.read_name (s : TaskState) :
    Variant.read variants src (.ofJson (.string s.name)) = .ok s := by
  refine read_units (by cases s <;> decide) ?_ src
  cases s <;> decide

theorem Status.read_name (s : Status) : Variant.read variants src (.ofJson (.string s.name)) = .ok s := by
  refine read_units (by cases s <;> decide) ?_ src
  cases s <;> decide

theorem Instant.Common.readInstant_toJson {i : Instant} (h : i.Common) :
    readInstant (.ofJson i.toJson) = .ok i := by
  have huntagged : untagged (string (some i.render)) = string (some i.render) := rfl
  rw [Instant.toJson, ofJson, readInstant, huntagged]
  simp only [h.read_of_tells h.tells_render]
  rfl

theorem Instant.exact_toJson (i : Instant) : i.toJson.Exact := trivial

namespace Outcome

/-- When the task was started and when it ended, as far as it was. -/
def times (o : Outcome) : List Instant := o.startedAt.toList ++ o.finishedAt.toList

theorem read_toJson {o : Outcome} {src : Source} (h : ∀ i ∈ o.times, i.Common) :
    Outcome.read src (.ofJson o.toJson) = .ok o := by
  have htime {t : Option Instant} (ht : ∀ i ∈ t, i.Common) :
      readOptional readInstant (.ofJson (.optional Instant.toJson t)) = .ok t :=
    readOptional_optional (fun _ => rfl) fun i hi => (ht i hi).readInstant_toJson
  have hstarted : ∀ i ∈ o.startedAt, i.Common := fun i hi =>
    h i (List.mem_append_left _ (Option.mem_toList.mpr hi))
  have hfinished : ∀ i ∈ o.finishedAt, i.Common := fun i hi =>
    h i (List.mem_append_right _ (Option.mem_toList.mpr hi))
  have hfields : fields.Written src
      [("task_id", .id o.id), ("kind", .string o.kind.name), ("state", .string o.state.name),
        ("diagnostic", .text o.diagnostic), ("started_at", .optional Instant.toJson o.startedAt),
        ("finished_at", .optional Instant.toJson o.finishedAt)]
      (o.id, o.kind, o.state, o.diagnostic, o.startedAt, o.finishedAt, ()) :=
    .needed (readWord_id o.id) <| .needed (o.kind.read_name src) <| .needed (o.state.read_name src) <|
      .optional (readOptional_text o.diagnostic) <| .optional (htime hstarted) <|
      .optional (htime hfinished) rfl
  unfold Outcome.read
  rw [toJson, hfields.read_eq (by decide)]
  rfl

theorem exact_toJson (o : Outcome) : o.toJson.Exact :=
  ⟨trivial, trivial, trivial, Json.exact_text _, Json.exact_optional Instant.exact_toJson _,
    Json.exact_optional Instant.exact_toJson _, trivial⟩

end Outcome

namespace Report

/-- All instants in a report. -/
def times (r : Report) : List Instant := r.startedAt :: r.finishedAt :: r.tasks.flatMap Outcome.times

theorem exact_toJson (r : Report) : r.toJson.Exact :=
  ⟨trivial, trivial, trivial, Json.exact_list fun o _ => o.exact_toJson, Json.exact_list fun _ _ => trivial,
    Json.exact_list fun _ _ => trivial, Json.exact_text _, trivial, trivial, trivial⟩

/-- A report is read as it was written. Its instants are told to the nanosecond, with no more digits than it
takes. -/
theorem ofJson_render_and_tells {r : Report} (h : ∀ i ∈ r.times, i.Common) :
    Report.ofJson r.toJson.render = .ok r ∧
      ∀ i ∈ r.times, ∃ text, i.toJson = .string text ∧ i.Tells text.toList := by
  have htask : ∀ o ∈ r.tasks, Outcome.read .text (.ofJson o.toJson) = .ok o := fun o ho =>
    Outcome.read_toJson fun i hi =>
      h i (List.mem_cons_of_mem _ (List.mem_cons_of_mem _ (List.mem_flatMap.mpr ⟨o, ho, hi⟩)))
  have htime {i : Instant} (hi : i.Common) : plainly readInstant .text (.ofJson i.toJson) = .ok i := by
    rw [plainly]
    exact hi.readInstant_toJson
  have hstarted := htime (h r.startedAt List.mem_cons_self)
  have hfinished := htime (h r.finishedAt (List.mem_cons_of_mem _ List.mem_cons_self))
  have hfields : fields.Written .text
      [("run_id", .string r.runId), ("namespace", .string r.name), ("status", .string r.status.name),
        ("tasks", .list Outcome.toJson r.tasks), ("failed", .list .id r.failed),
        ("skipped", .list .id r.skipped), ("abort_reason", .text r.abortReason),
        ("started_at", r.startedAt.toJson), ("finished_at", r.finishedAt.toJson)]
      (r.runId, r.name, r.status, r.tasks, r.failed, r.skipped, r.abortReason, r.startedAt, r.finishedAt,
        ()) :=
    .needed rfl <| .needed rfl <| .needed (r.status.read_name .text) <| .needed (readList_list htask) <|
      .needed (readList_ids r.failed) <| .needed (readList_ids r.skipped) <|
      .optional (readOptional_text r.abortReason) <| .needed hstarted <| .needed hfinished rfl
  have hread : read .text (.ofJson r.toJson) = .ok r := by
    unfold Report.read
    rw [toJson, hfields.read_eq (by decide)]
    rfl
  exact ⟨Doc.ofText_render (exact_toJson r) hread, fun i hi => ⟨i.render, rfl, (h i hi).tells_render⟩⟩

/-- A failed run with the first and the last instant that can be told, a leap day, and all numbers of
digits. -/
def sample : Report :=
  ⟨"run \"1\"\n", "shop", .failure,
    [⟨0, .createNamespace, .done, none, some ⟨-62167219200, 0⟩, some ⟨1709251199, 500000000⟩⟩,
      ⟨18446744073709551615, .deleteSecret, .failed, some "é\x01", some ⟨1709251199, 123456000⟩, none⟩],
    [18446744073709551615], [], some "gone", ⟨1709251199, 1⟩, ⟨253402300799, 999999999⟩⟩

theorem ofJson_render_and_tells_sample : (∀ i ∈ sample.times, i.Common) ∧
    Report.ofJson sample.toJson.render = .ok sample ∧
    ∀ i ∈ sample.times, ∃ text, i.toJson = .string text ∧ i.Tells text.toList := by
  have hcommon : ∀ i ∈ sample.times, i.Common := by
    intro i hi
    have hall : ∀ i ∈ sample.times, (⟨0, 1, 1⟩ : Time.Date).toDays * 86400 ≤ i.seconds ∧
        i.seconds < (⟨10000, 1, 1⟩ : Time.Date).toDays * 86400 ∧ i.nanos < 1000000000 := by decide
    obtain ⟨hlow, hhigh, hnanos⟩ := hall i hi
    exact ⟨⟨hlow, hhigh⟩, hnanos⟩
  exact ⟨hcommon, ofJson_render_and_tells hcommon⟩

end Report

end Rollout
