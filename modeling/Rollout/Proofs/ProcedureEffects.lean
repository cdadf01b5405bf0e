import Rollout.Proofs.ProcedureCourse
import Rollout.Run.Crew

/-! What a procedure does, whatever is answered to it: which calls it makes after what it has done so far, and
with what it ends. This is read off the courses that it can take. -/

namespace Rollout

namespace Procedure

variable {α : Type} {allowed : List Act → Call → Prop} {result : List Act → α → Prop}
  {p p' : Procedure α} {past : List Act} {x : Act}

/-- Each call is allowed after what was done before it, and so is the result after all that was done. -/
def Ensures (allowed : List Act → Call → Prop) (result : List Act → α → Prop) :
    Procedure α → List Act → Prop
  | done a, past => result past a
  | call c next, past =>
    allowed past c ∧ ∀ answer, (next answer).Ensures allowed result (past ++ [.asked c answer])
  | look key next, past => ∀ answer, (next answer).Ensures allowed result (past ++ [.looked key answer])
  | wait _ next, past | busy _ next, past | cancelRun next, past | note _ next, past =>
    next.Ensures allowed result (past ++ [.passed])

/-- What is done at one moment, as it shows in a run. -/
def Moment.act : Moment → Act
  | asked c answer => .asked c answer
  | looked key answer => .looked key answer
  | waited _ | worked _ | cancelled | noted _ => .passed

theorem exists_runs (p : Procedure α) : ∃ course a, p.Runs course a := by
  induction p with
  | done a => exact ⟨[], a, .done a⟩
  | call c next ih =>
    obtain ⟨course, a, h⟩ := ih (.error (.unavailable "" ""))
    exact ⟨_, a, .cons (.asked c next _) h⟩
  | look key next ih =>
    obtain ⟨course, a, h⟩ := ih (.ok .null)
    exact ⟨_, a, .cons (.looked key next _) h⟩
  | wait ms next ih =>
    obtain ⟨course, a, h⟩ := ih
    exact ⟨_, a, .cons (.waited ms next) h⟩
  | busy ms next ih =>
    obtain ⟨course, a, h⟩ := ih
    exact ⟨_, a, .cons (.worked ms next) h⟩
  | cancelRun next ih =>
    obtain ⟨course, a, h⟩ := ih
    exact ⟨_, a, .cons (.cancelled next) h⟩
  | note n next ih =>
    obtain ⟨course, a, h⟩ := ih
    exact ⟨_, a, .cons (.noted n next) h⟩

/-- The same, said of the courses of the procedure. -/
structure Keeps (allowed : List Act → Call → Prop) (result : List Act → α → Prop) (p : Procedure α)
    (past : List Act) : Prop where
  calls : ∀ before c answer after a, p.Runs (before ++ .asked c answer :: after) a →
    allowed (past ++ before.map Moment.act) c
  ends : ∀ course a, p.Runs course a → result (past ++ course.map Moment.act) a

theorem Keeps.after {q : Procedure α} {x : Moment} (h : p.Keeps allowed result past) (begins : p.Begins x q) :
    q.Keeps allowed result (past ++ [x.act]) := by
  refine ⟨fun before c answer later a hrun => ?_, fun course a hrun => ?_⟩
  · rw [List.append_assoc]
    exact h.calls (x :: before) c answer later a (.cons begins hrun)
  · rw [List.append_assoc]
    exact h.ends (x :: course) a (.cons begins hrun)

theorem Keeps.ensures (h : p.Keeps allowed result past) : p.Ensures allowed result past := by
  induction p generalizing past with
  | done a => exact List.append_nil past ▸ h.ends [] a (.done a)
  | call c next ih =>
    refine ⟨?_, fun answer => ih answer (h.after (.asked c next answer))⟩
    -- whatever is answered, the call is part of some course
    obtain ⟨course, a, hrun⟩ := (next (.error (.unavailable "" ""))).exists_runs
    exact List.append_nil past ▸ h.calls [] c _ course a (.cons (.asked c next _) hrun)
  | look key next ih => exact fun answer => ih answer (h.after (.looked key next answer))
  | wait ms next ih => exact ih (h.after (.waited ms next))
  | busy ms next ih => exact ih (h.after (.worked ms next))
  | cancelRun next ih => exact ih (h.after (.cancelled next))
  | note n next ih => exact ih (h.after (.noted n next))

/-- What is ensured of a procedure is ensured of what it has left to do after one act. -/
theorem Ensures.move {read : String → Except Context.Fault Json} (h : p.Ensures allowed result past)
    (m : Move read p x p') : p'.Ensures allowed result (past ++ [x]) ∧
      ∀ c answer, x = .asked c answer → allowed past c := by
  cases m with
  | asked c next answer =>
    refine ⟨h.2 answer, fun c' answer' he => ?_⟩
    obtain ⟨rfl, -⟩ := Act.asked.inj he
    exact h.1
  | looked key next => exact ⟨h _, fun c' answer' he => by cases he⟩
  | waited | worked | cancelled | noted => exact ⟨h, fun c' answer' he => by cases he⟩

theorem Move.read_eq {read : String → Except Context.Fault Json} {key : String}
    {answer : Except Context.Fault Json} (m : Move read p (.looked key answer) p') : read key = answer := by
  cases m with
  | looked key next => rfl

/-- The address with which a service was created. -/
def Act.address? : Act → Option String
  | asked (.createService ..) (.ok address) => some address
  | _ => none

/-- The addresses of the services that were created, the first one first. -/
def created (past : List Act) : List String := past.filterMap Act.address?

theorem created_append (past more : List Act) : created (past ++ more) = created past ++ created more :=
  List.filterMap_append

@[simp] theorem address?_error (c : Call) (f : Client.Fault) : (Act.asked c (.error f)).address? = none := by
  cases c <;> rfl

end Procedure

end Rollout
