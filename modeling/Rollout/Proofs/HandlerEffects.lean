import Rollout.Proofs.HandlerSteps
import Rollout.Proofs.ProcedureEffects
import Rollout.Proofs.TableLookup

/-! What the built-in handlers do, whatever collaborators answer. A task that is to announce an address from
the context announces the one that it read there, and only a task that creates a service leaves anything: the
address with which the service was created. -/

namespace Rollout

open Procedure

namespace Payload

/-- The key under which another task leaves the address that this one announces. -/
def awaits? : Payload → Option String
  | setDependencyAddress _ _ _ (.fromContext key)
  | setClientDependency _ _ _ _ _ (.fromContext key) => some key
  | _ => none

/-- The call by which a task announces an address. -/
def announcement? (address : String) : Payload → Option Call
  | setDependencyAddress i dependency _ _ => some (.setDependencyAddress i dependency address)
  | setClientDependency application clientType clientId dependency _ _ =>
    some (.setClientDependency ⟨application, clientType, clientId, dependency, address⟩)
  | _ => none

end Payload

def Call.announces : Call → Bool
  | setDependencyAddress .. | setClientDependency .. => true
  | _ => false

namespace Handler

variable {s : Settings} {p : Payload} {past : List Act} {course before after : List Moment} {c : Call}
  {r : Except TaskFault Outputs} {key : String}

/-- A call that is made after some acts announces nothing but what was read for it. -/
def Announces (p : Payload) (past : List Act) (c : Call) : Prop :=
  ∀ key, p.awaits? = some key → c.announces = true → ∃ value address,
    .looked key (.ok value) ∈ past ∧ Context.decode key (fun _ => Doc.readString) value = .ok address ∧
      p.announcement? address = some c

/-- What is left after some acts is the address of the service that one of them created. -/
def Delivers (p : Payload) (past : List Act) (o : Outputs) : Prop :=
  match p.leaves? with
  | none => o = .empty
  | some key => ∃ address, created past = [address] ∧ o = Cluster.leave (some key) address

/-- A task that awaits an address makes one call, which announces it. -/
theorem awaits_spec (h : p.awaits? = some key) : p.source = .fromContext key ∧
    ∀ address, ∃ c, p.calls address = [c] ∧ p.announcement? address = some c := by
  cases p with
  | setDependencyAddress i dependency provider a =>
    cases a with
    | fixed address => cases h
    | fromContext key' =>
      obtain rfl := Option.some.inj h
      exact ⟨rfl, fun address => ⟨_, rfl, rfl⟩⟩
  | setClientDependency application clientType clientId dependency provider a =>
    cases a with
    | fixed address => cases h
    | fromContext key' =>
      obtain rfl := Option.some.inj h
      exact ⟨rfl, fun address => ⟨_, rfl, rfl⟩⟩
  | _ => cases h

/-- What is announced was read before. -/
theorem Worked.announces {answer : Except Client.Fault c.Reply}
    (h : Worked s p (before ++ .asked c answer :: after) r) : Announces p (before.map Moment.act) c := by
  intro key hkey hc
  obtain ⟨hsource, hcalls⟩ := awaits_spec hkey
  generalize hcourse : before ++ .asked c answer :: after = course at h
  cases h with
  | unresolved source failed =>
    have hm : .asked c answer ∈ before ++ .asked c answer :: after := List.mem_append_right _ List.mem_cons_self
    rw [hcourse] at hm
    cases List.mem_singleton.mp hm
  | @resolved looks later address r resolves carried =>
    obtain ⟨mid, rfl, rfl⟩ := exists_of_append_eq hcourse.symm (not_asked_of_resolves resolves)
    rw [hsource] at resolves
    cases resolves with
    | @read _ value _ decoded =>
      obtain ⟨c', hcalls, hannounce⟩ := hcalls address
      obtain ⟨step, hstep, htries⟩ := carried.turn.tries_of_mem (List.mem_append_right _ List.mem_cons_self)
      refine ⟨value, address, List.mem_cons_self, decoded, ?_⟩
      obtain rfl := htries.eq
      rcases List.mem_append.mp hstep with hstep | hstep
      · obtain ⟨w, -, rfl⟩ := List.mem_map.mp hstep
        cases hc
      · rw [hcalls] at hstep
        obtain rfl := List.mem_singleton.mp hstep
        exact hannounce

/-- A call that succeeded created something only when it was answered well. -/
theorem created_of_make (h : ((Step.make c).doing s).Runs course (.ok ())) :
    ∃ before reply, course = before ++ [.asked c (.ok reply)] ∧
      created (course.map Moment.act) = (Act.asked c (.ok reply)).address?.toList := by
  obtain ⟨before, reply, rfl, hbefore⟩ := reply_of_make h
  have hnone : created (before.map Moment.act) = [] := by
    refine List.filterMap_eq_nil_iff.mpr fun y hy => ?_
    obtain ⟨x, hx, rfl⟩ := List.mem_map.mp hy
    rcases hbefore x hx with ⟨fault, rfl⟩ | ⟨ms, rfl⟩
    · exact address?_error c fault
    · rfl
  refine ⟨before, reply, rfl, ?_⟩
  rw [List.map_append, created_append, hnone, List.nil_append]
  cases hreply : (Act.asked c (.ok reply)).address? <;>
    simp [created, Moment.act, hreply]

theorem created_of_service {scope name : String} {manifest : Json}
    (h : InTurn s [.make (.createService scope name manifest)] course (.ok ())) : ∃ before address,
      course = before ++ [.asked (.createService scope name manifest) (.ok address)] ∧
        created (course.map Moment.act) = [address] :=
  created_of_make h.single

/-- A task that leaves an address creates one service, at last. -/
theorem Worked.created {o : Outputs} (hkey : p.leaves? = some key) (h : Worked s p course (.ok o)) :
    ∃ before scope name manifest address,
      course = before ++ [.asked (.createService scope name manifest) (.ok address)] ∧
        created (course.map Moment.act) = [address] := by
  cases h with
  | resolved looks resolves carried =>
    have turn := carried.turn
    cases p with
    | createService scope name manifest =>
      cases resolves
      obtain ⟨before, address, hcourse, hcreated⟩ := created_of_service turn
      exact ⟨before, scope, name, manifest, address, hcourse, hcreated⟩
    | createInstance scope i deployment service =>
      cases resolves
      cases turn with
      | @cons _ _ first _ _ ran rest =>
        obtain ⟨before, address, rfl, hcreated⟩ := created_of_service rest
        obtain ⟨_, reply, -, hnone⟩ := created_of_make ran
        rw [List.nil_append]
        refine ⟨first ++ before, scope, _, service, address, (List.append_assoc _ _ _).symm, ?_⟩
        rw [List.map_append, created_append, hnone, hcreated]
        rfl
    | _ => cases hkey

theorem Worked.delivers {o : Outputs} (h : Worked s p course (.ok o)) : Delivers p (course.map Moment.act) o := by
  have hleaves := h.leaves
  rw [Delivers]
  cases hkey : p.leaves? with
  | none =>
    rw [hkey] at hleaves
    exact hleaves
  | some key =>
    rw [hkey] at hleaves
    obtain ⟨before, scope, name, manifest, address, hcourse, rfl⟩ := hleaves
    obtain ⟨before', scope', name', manifest', address', hcourse', hcreated⟩ := h.created hkey
    obtain ⟨-, hlast⟩ := List.append_inj' (hcourse.symm.trans hcourse') rfl
    obtain ⟨he, hanswer⟩ := Moment.asked.inj (List.singleton_inj.mp hlast)
    obtain ⟨rfl, rfl, rfl⟩ := Call.createService.inj he
    obtain rfl := Except.ok.inj (eq_of_heq hanswer)
    exact ⟨address, hcreated, rfl⟩

/-- What a handler ended with, as it is told to the loop. -/
def Ended (p : Payload) (past : List Act) (e : Ending) : Prop := ∀ o, e = .finished o → Delivers p past o

/-- Each built-in handler announces what it read, and leaves what its service answered. -/
theorem ensures_builtin (s : Settings) (id : TaskId) (p : Payload) :
    (builtin s p.kind.collaborator id p).Ensures (Announces p) (Ended p) [] := by
  refine Keeps.ensures ⟨fun before c answer after e h => ?_, fun course e h o ho => ?_⟩
  · obtain ⟨r, hrun, -⟩ := runs_map_iff.mp h
    exact (worked_of_runs hrun).announces
  · obtain ⟨r, hrun, he⟩ := runs_map_iff.mp h
    subst ho
    cases r with
    | ok o' =>
      obtain rfl := Ending.finished.inj he
      exact (worked_of_runs hrun).delivers
    | error f => cases he

theorem Delivers.find?_iff {o : Outputs} {key : String} {value : Json} (h : Delivers p past o) :
    o.find? key = some value ↔
      p.leaves? = some key ∧ ∃ address, created past = [address] ∧ value = .string address := by
  rw [Delivers] at h
  cases hkey : p.leaves? with
  | none =>
    rw [hkey] at h
    subst h
    simp
  | some key' =>
    rw [hkey] at h
    obtain ⟨address, hcreated, rfl⟩ := h
    rw [Cluster.leave, Table.find?_insert, Table.find?_empty, hcreated]
    by_cases hsame : key = key'
    · simp [hsame, eq_comm]
    · simp [hsame, Ne.symm hsame]

theorem decode_string (key s : String) :
    Context.decode key (fun _ => Doc.readString) (.string s) = .ok s := rfl

end Handler

namespace Registry

theorem get?_builtin (s : Handler.Settings) (k : Kind) :
    (Registry.builtin s).get? k = some (Handler.builtin s k.collaborator) := by
  cases k <;> rfl

theorem contains_builtin (s : Handler.Settings) (k : Kind) : (Registry.builtin s).contains k = true := by
  rw [contains, get?_builtin, Option.isSome_some]

end Registry

end Rollout
