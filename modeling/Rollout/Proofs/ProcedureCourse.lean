import Rollout.Procedure

/-! The courses that a procedure can take: all that it does, with the answers that it gets and the time that
it lets pass, up to its end. -/

namespace Rollout.Procedure

/-- What a procedure does at one point. -/
inductive Moment
  | asked (c : Call) (answer : Except Client.Fault c.Reply)
  | looked (key : String) (answer : Except Context.Fault Json)
  | waited (ms : Nat)
  | worked (ms : Nat)
  | cancelled
  | noted (n : Note)

/-- What a procedure does first, with any answer to it, and what it then has left to do. -/
inductive Begins {α : Type} : Procedure α → Moment → Procedure α → Prop
  | asked (c : Call) (next : Except Client.Fault c.Reply → Procedure α)
      (answer : Except Client.Fault c.Reply) : Begins (.call c next) (.asked c answer) (next answer)
  | looked (key : String) (next : Except Context.Fault Json → Procedure α)
      (answer : Except Context.Fault Json) : Begins (.look key next) (.looked key answer) (next answer)
  | waited (ms : Nat) (next : Procedure α) : Begins (.wait ms next) (.waited ms) next
  | worked (ms : Nat) (next : Procedure α) : Begins (.busy ms next) (.worked ms) next
  | cancelled (next : Procedure α) : Begins (.cancelRun next) .cancelled next
  | noted (n : Note) (next : Procedure α) : Begins (.note n next) (.noted n) next

/-- The procedure can take this course and end like that. -/
inductive Runs {α : Type} : Procedure α → List Moment → α → Prop
  | done (a : α) : Runs (.done a) [] a
  | cons {p q : Procedure α} {x : Moment} {course : List Moment} {a : α} (begins : Begins p x q)
      (rest : Runs q course a) : Runs p (x :: course) a

variable {α β ε : Type} {p q : Procedure α} {f : α → Procedure β} {x : Moment}
  {course first rest : List Moment} {a : α} {b : β}

theorem runs_done_iff {a' : α} : (done a).Runs course a' ↔ course = [] ∧ a' = a := by
  constructor
  · intro h
    cases h with
    | done => exact ⟨rfl, rfl⟩
    | cons begins => cases begins
  · rintro ⟨rfl, rfl⟩
    exact .done _

theorem runs_wait_iff {ms : Nat} :
    (wait ms p).Runs course a ↔ ∃ rest, course = .waited ms :: rest ∧ p.Runs rest a := by
  constructor
  · intro h
    cases h with
    | cons begins rest =>
      cases begins with
      | waited => exact ⟨_, rfl, rest⟩
  · rintro ⟨rest, rfl, h⟩
    exact .cons (.waited ms p) h

theorem runs_call_iff {c : Call} {next : Except Client.Fault c.Reply → Procedure α} :
    (call c next).Runs course a ↔ ∃ answer rest, course = .asked c answer :: rest ∧ (next answer).Runs rest a := by
  constructor
  · intro h
    cases h with
    | cons begins rest =>
      cases begins with
      | asked _ _ answer => exact ⟨answer, _, rfl, rest⟩
  · rintro ⟨answer, rest, rfl, h⟩
    exact .cons (.asked c next answer) h

theorem Runs.exists_call {c : Call} {answer : Except Client.Fault c.Reply}
    (h : p.Runs (.asked c answer :: course) a) : ∃ next, p = call c next ∧ (next answer).Runs course a := by
  cases h with
  | cons begins rest =>
    cases begins with
    | asked c next answer => exact ⟨next, rfl, rest⟩

theorem Runs.exists_look {key : String} {answer : Except Context.Fault Json}
    (h : p.Runs (.looked key answer :: course) a) :
    ∃ next, p = look key next ∧ (next answer).Runs course a := by
  cases h with
  | cons begins rest =>
    cases begins with
    | looked key next answer => exact ⟨next, rfl, rest⟩

theorem Runs.eq_done (h : p.Runs [] a) : p = .done a := by
  cases h with
  | done => rfl

theorem runs_look_iff {key : String} {next : Except Context.Fault Json → Procedure α} :
    (look key next).Runs course a ↔ ∃ answer rest, course = .looked key answer :: rest ∧ (next answer).Runs rest a := by
  constructor
  · intro h
    cases h with
    | cons begins rest =>
      cases begins with
      | looked _ _ answer => exact ⟨answer, _, rfl, rest⟩
  · rintro ⟨answer, rest, rfl, h⟩
    exact .cons (.looked key next answer) h

/-- A call that is made once comes to its answer. -/
theorem runs_ask_iff {c : Call} {answer : Except Client.Fault c.Reply} :
    (call c done).Runs course answer ↔ course = [.asked c answer] := by
  rw [runs_call_iff]
  constructor
  · rintro ⟨answer', rest, rfl, h⟩
    obtain ⟨rfl, rfl⟩ := runs_done_iff.mp h
    rfl
  · rintro rfl
    exact ⟨answer, [], rfl, .done answer⟩

theorem Begins.unique {q' : Procedure α} (h : p.Begins x q) (h' : p.Begins x q') : q = q' := by
  cases h <;> cases h' <;> rfl

/-- A course tells where it ends and with what: what is answered is all that it leaves open. -/
theorem Runs.unique {course' more more' : List Moment} {a' : α} (h : p.Runs course a) (h' : p.Runs course' a')
    (happend : course ++ more = course' ++ more') : course = course' ∧ a = a' := by
  induction h generalizing course' with
  | done a =>
    obtain ⟨rfl, rfl⟩ := runs_done_iff.mp h'
    exact ⟨rfl, rfl⟩
  | cons begins rest ih =>
    cases h' with
    | done => cases begins
    | cons begins' rest' =>
      obtain ⟨rfl, htail⟩ := List.cons.inj happend
      obtain rfl := begins.unique begins'
      obtain ⟨rfl, rfl⟩ := ih rest' htail
      exact ⟨rfl, rfl⟩

theorem Begins.bind (h : p.Begins x q) (f : α → Procedure β) : (p.bind f).Begins x (q.bind f) := by
  cases h with
  | asked c next answer => exact .asked c _ answer
  | looked key next answer => exact .looked key _ answer
  | waited ms next => exact .waited ms _
  | worked ms next => exact .worked ms _
  | cancelled next => exact .cancelled _
  | noted n next => exact .noted n _

theorem begins_of_bind {r : Procedure β} (h : (p.bind f).Begins x r) :
    (∃ a, p = done a) ∨ ∃ q, p.Begins x q ∧ r = q.bind f := by
  cases p with
  | done a => exact Or.inl ⟨a, rfl⟩
  | call c next =>
    cases h with
    | asked _ _ answer => exact Or.inr ⟨_, .asked c next answer, rfl⟩
  | look key next =>
    cases h with
    | looked _ _ answer => exact Or.inr ⟨_, .looked key next answer, rfl⟩
  | wait ms next => cases h; exact Or.inr ⟨_, .waited ms next, rfl⟩
  | busy ms next => cases h; exact Or.inr ⟨_, .worked ms next, rfl⟩
  | cancelRun next => cases h; exact Or.inr ⟨_, .cancelled next, rfl⟩
  | note n next => cases h; exact Or.inr ⟨_, .noted n next, rfl⟩

theorem Runs.bind (h : p.Runs first a) (h' : (f a).Runs rest b) : (p.bind f).Runs (first ++ rest) b := by
  induction h with
  | done a => exact h'
  | cons begins _ ih => exact .cons (begins.bind f) (ih h')

theorem exists_of_runs_bind {r : Procedure β} (h : r.Runs course b) (hr : r = p.bind f) :
    ∃ first a rest, course = first ++ rest ∧ p.Runs first a ∧ (f a).Runs rest b := by
  induction h generalizing p with
  | done b =>
    cases p with
    | done a =>
      have hdone : f a = done b := hr.symm
      exact ⟨[], a, [], rfl, .done a, hdone ▸ .done b⟩
    | _ => cases hr
  | @cons r r' x course b begins rest ih =>
    rw [hr] at begins
    rcases begins_of_bind begins with ⟨a, rfl⟩ | ⟨q, hbegins, hq⟩
    · exact ⟨[], a, x :: course, rfl, .done a, .cons begins rest⟩
    · obtain ⟨first, a, later, rfl, hfirst, hlater⟩ := ih hq
      exact ⟨x :: first, a, later, rfl, .cons hbegins hfirst, hlater⟩

/-- One procedure after another takes a course of the one and then a course of the other. -/
theorem runs_bind_iff : (p.bind f).Runs course b ↔
    ∃ first a rest, course = first ++ rest ∧ p.Runs first a ∧ (f a).Runs rest b := by
  constructor
  · exact fun h => exists_of_runs_bind h rfl
  · rintro ⟨first, a, rest, rfl, hfirst, hrest⟩
    exact hfirst.bind hrest

theorem runs_map_iff {g : α → β} : (p.map g).Runs course b ↔ ∃ a, p.Runs course a ∧ b = g a := by
  rw [map, runs_bind_iff]
  constructor
  · rintro ⟨first, a, rest, rfl, hfirst, hrest⟩
    obtain ⟨rfl, rfl⟩ := runs_done_iff.mp hrest
    exact ⟨a, (List.append_nil first).symm ▸ hfirst, rfl⟩
  · rintro ⟨a, h, rfl⟩
    exact ⟨course, a, [], (List.append_nil course).symm, h, .done _⟩

theorem runs_andThen_iff {p : Procedure (Except ε α)} {f : α → Procedure (Except ε β)} {r : Except ε β} :
    (p.andThen f).Runs course r ↔
      (∃ first a rest, course = first ++ rest ∧ p.Runs first (.ok a) ∧ (f a).Runs rest r) ∨
      ∃ e, p.Runs course (.error e) ∧ r = .error e := by
  rw [andThen, runs_bind_iff]
  constructor
  · rintro ⟨first, o, rest, rfl, hfirst, hrest⟩
    cases o with
    | ok a => exact Or.inl ⟨first, a, rest, rfl, hfirst, hrest⟩
    | error e =>
      obtain ⟨rfl, rfl⟩ := runs_done_iff.mp hrest
      exact Or.inr ⟨e, (List.append_nil first).symm ▸ hfirst, rfl⟩
  · rintro (⟨first, a, rest, rfl, hfirst, hrest⟩ | ⟨e, h, rfl⟩)
    · exact ⟨first, .ok a, rest, rfl, hfirst, hrest⟩
    · exact ⟨course, .error e, [], (List.append_nil course).symm, h, .done _⟩

end Rollout.Procedure
