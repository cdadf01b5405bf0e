import Mathlib.Logic.Function.Basic
import Rollout.Proofs.ProcedureCourse
import Rollout.Retry

/-! Procedures that ask over and over. They ask one time after the other, with a pause between any two, up to the
first answer that ends it. A retry policy makes this of a call that may fail: the attempts go on up to the first
whose outcome another one could not mend. -/

namespace Rollout

namespace RetryPolicy

open Procedure

variable {α : Type}

/-- Whether another attempt could not mend this outcome. -/
def isFinal : Except Client.Fault α → Bool
  | .ok _ => true
  | .error f => !f.isTransient

/-- The attempt whose outcome counts, out of one and so many more: the first with a final outcome, or else the
last one. -/
def deciding (outcome : Nat → Except Client.Fault α) (attempt more : Nat) : Nat :=
  ((List.range' attempt (more + 1)).find? fun i => isFinal (outcome i)).getD (attempt + more)

/-- The calls of one attempt and of so many more, and the pauses between them. -/
def paced (pause : Nat → Nat) (calls : Nat → List Moment) : Nat → Nat → List Moment
  | attempt, 0 => calls attempt
  | attempt, more + 1 => calls attempt ++ .waited (pause attempt) :: paced pause calls (attempt + 1) more

theorem paced_congr {pause : Nat → Nat} {calls calls' : Nat → List Moment} {attempt more : Nat}
    (h : ∀ i, attempt ≤ i → i ≤ attempt + more → calls i = calls' i) :
    paced pause calls attempt more = paced pause calls' attempt more := by
  induction more generalizing attempt with
  | zero => exact h attempt (Nat.le_refl _) (Nat.le_refl _)
  | succ more ih =>
    rw [paced, paced, h attempt (Nat.le_refl _) (Nat.le_add_right _ _),
      ih fun i hi hle => h i (Nat.le_of_succ_le hi) (by omega)]

/-- The last calls come after those before them, which have pauses in between. -/
theorem exists_paced_eq_append (pause : Nat → Nat) (calls : Nat → List Moment) (attempt more : Nat) :
    ∃ before, paced pause calls attempt more = before ++ calls (attempt + more) ∧ ∀ x ∈ before,
      (∃ i, attempt ≤ i ∧ i < attempt + more ∧ x ∈ calls i) ∨ ∃ ms, x = .waited ms := by
  induction more generalizing attempt with
  | zero => exact ⟨[], rfl, fun x hx => absurd hx List.not_mem_nil⟩
  | succ more ih =>
    obtain ⟨before, hbefore, hmem⟩ := ih (attempt + 1)
    refine ⟨calls attempt ++ .waited (pause attempt) :: before, ?_, fun x hx => ?_⟩
    · rw [paced, hbefore, List.append_assoc, List.cons_append, Nat.add_assoc, Nat.add_comm 1]
    · rcases List.mem_append.mp hx with hx | hx
      · exact Or.inl ⟨attempt, Nat.le_refl _, Nat.lt_add_of_pos_right (Nat.succ_pos more), hx⟩
      · rcases List.mem_cons.mp hx with rfl | hx
        · exact Or.inr ⟨_, rfl⟩
        · refine (hmem x hx).imp_left fun ⟨i, hle, hlt, hi⟩ => ⟨i, Nat.le_of_succ_le hle, ?_, hi⟩
          omega

theorem mem_paced {pause : Nat → Nat} {calls : Nat → List Moment} {attempt more : Nat} {x : Moment}
    (h : x ∈ paced pause calls attempt more) : (∃ i, x ∈ calls i) ∨ ∃ ms, x = .waited ms := by
  obtain ⟨before, hbefore, hmem⟩ := exists_paced_eq_append pause calls attempt more
  rw [hbefore] at h
  rcases List.mem_append.mp h with h | h
  · exact (hmem x h).imp_left fun ⟨i, _, _, hi⟩ => ⟨i, hi⟩
  · exact Or.inl ⟨_, h⟩

end RetryPolicy

namespace Procedure

open RetryPolicy (paced paced_congr)

/-- An attempt of a call, or a pause. -/
def Moment.Tries (c : Call) (x : Moment) : Prop := (∃ answer, x = .asked c answer) ∨ ∃ ms, x = .waited ms

theorem Moment.Tries.eq {c c' : Call} {answer : Except Client.Fault c'.Reply}
    (h : Tries c (.asked c' answer)) : c' = c := by
  rcases h with ⟨answer', he⟩ | ⟨ms, he⟩
  · exact (Moment.asked.inj he).1
  · cases he

/-- Nothing happens but attempts of one call and pauses. -/
def Asking (c : Call) (course : List Moment) : Prop := ∀ x ∈ course, x.Tries c

theorem asking_paced {c : Call} {pause : Nat → Nat} {answers : Nat → Except Client.Fault c.Reply} {n more : Nat} :
    Asking c (paced pause (fun i => [.asked c (answers i)]) n more) := by
  intro x hx
  rcases RetryPolicy.mem_paced hx with ⟨i, hi⟩ | hwaited
  · exact Or.inl ⟨_, List.mem_singleton.mp hi⟩
  · exact Or.inr hwaited

def Moment.operation? : Moment → Option String
  | asked c _ => some c.operation
  | _ => none

/-- How often an operation was called. -/
def tally (operation : String) (course : List Moment) : Nat :=
  course.countP fun x => x.operation? == some operation

theorem tally_append (operation : String) (course more : List Moment) :
    tally operation (course ++ more) = tally operation course + tally operation more :=
  List.countP_append

theorem tally_eq_zero {c : Call} {operation : String} {course : List Moment} (h : Asking c course)
    (hne : c.operation ≠ operation) : tally operation course = 0 := by
  refine List.countP_eq_zero.mpr fun x hx => ?_
  rcases h x hx with ⟨answer, rfl⟩ | ⟨ms, rfl⟩
  · simpa [Moment.operation?] using hne
  · simp [Moment.operation?]

theorem tally_paced {c : Call} {pause : Nat → Nat} {answers : Nat → Except Client.Fault c.Reply} {n more : Nat} :
    tally c.operation (paced pause (fun i => [.asked c (answers i)]) n more) = more + 1 := by
  induction more generalizing n with
  | zero => simp [paced, tally, Moment.operation?]
  | succ more ih =>
    have hpause : ∀ ms course, tally c.operation (.waited ms :: course) = tally c.operation course :=
      fun ms course => by simp [tally, Moment.operation?]
    rw [paced, tally_append, hpause, ih, Nat.add_comm]
    simp [tally, Moment.operation?]

/-- A loop that asks over and over: what it asks each time, which answers end it, what it remembers of the
others, what the last answer comes to, and the pauses in between. -/
structure Rounds (γ σ β : Type) where
  ask : Nat → Procedure γ
  ends : γ → Bool
  remember : σ → γ → σ
  result : Nat → σ → γ → β
  pause : Nat → Nat
  /-- The loop itself: it asks once and so many times more at most, from a number on. -/
  play : Nat → Nat → σ → Procedure β
  play_eq : ∀ left n s, play left n s = (ask n).bind fun a =>
    if ends a = true ∨ left = 0 then done (result n s a)
    else wait (pause n) (play (left - 1) (n + 1) (remember s a))

namespace Rounds

variable {γ σ β : Type}

/-- The number of the round that is the last one, out of one and so many more. -/
def last (r : Rounds γ σ β) (answers : Nat → γ) (n left : Nat) : Nat :=
  ((List.range' n (left + 1)).find? fun i => r.ends (answers i)).getD (n + left)

/-- What is remembered after so many rounds. -/
def kept (r : Rounds γ σ β) (answers : Nat → γ) (s : σ) (n count : Nat) : σ :=
  ((List.range' n count).map answers).foldl r.remember s

variable {r : Rounds γ σ β} {answers answers' : Nat → γ} {calls : Nat → List Moment} {course : List Moment}
  {left n count : Nat} {s : σ} {a : γ} {b : β}

theorem last_of_stop (h : r.ends (answers n) = true ∨ left = 0) : r.last answers n left = n := by
  cases he : r.ends (answers n) with
  | true => simp [last, List.range'_succ, he]
  | false =>
    obtain rfl := h.resolve_left (by simp [he])
    simp [last, he]

theorem last_succ (h : r.ends (answers n) = false) :
    r.last answers n (left + 1) = r.last answers (n + 1) left := by
  simp [last, List.range'_succ, h, Nat.add_assoc, Nat.add_comm 1]

theorem last_bounds (r : Rounds γ σ β) (answers : Nat → γ) (n left : Nat) :
    n ≤ r.last answers n left ∧ r.last answers n left ≤ n + left := by
  rw [last]
  cases h : (List.range' n (left + 1)).find? fun i => r.ends (answers i) with
  | none => exact ⟨Nat.le_add_right _ _, Nat.le_refl _⟩
  | some k =>
    obtain ⟨hle, hlt⟩ := List.mem_range'_1.mp (List.mem_of_find?_eq_some h)
    exact ⟨hle, Nat.le_of_lt_succ hlt⟩

theorem ends_of_lt_last {i : Nat} (hi : n ≤ i) (hlt : i < r.last answers n left) :
    r.ends (answers i) = false := by
  induction left generalizing n with
  | zero =>
    rw [last_of_stop (Or.inr rfl)] at hlt
    omega
  | succ left ih =>
    cases he : r.ends (answers n) with
    | true =>
      rw [last_of_stop (Or.inl he)] at hlt
      omega
    | false =>
      rw [last_succ he] at hlt
      rcases Nat.eq_or_lt_of_le hi with rfl | hn
      · exact he
      · exact ih hn hlt

theorem last_of_not_ends (h : r.ends (answers (r.last answers n left)) = false) :
    r.last answers n left = n + left := by
  rw [last] at h ⊢
  cases hf : (List.range' n (left + 1)).find? fun i => r.ends (answers i) with
  | none => rfl
  | some k =>
    rw [hf, Option.getD_some, List.find?_some hf] at h
    cases h

theorem last_congr (h : ∀ i, n ≤ i → answers i = answers' i) :
    r.last answers n left = r.last answers' n left := by
  induction left generalizing n with
  | zero => rw [last_of_stop (Or.inr rfl), last_of_stop (Or.inr rfl)]
  | succ left ih =>
    have hsame := h n (Nat.le_refl _)
    cases he : r.ends (answers n) with
    | true => rw [last_of_stop (Or.inl he), last_of_stop (Or.inl (hsame ▸ he))]
    | false =>
      rw [last_succ he, last_succ (hsame ▸ he)]
      exact ih fun i hi => h i (Nat.le_of_succ_le hi)

theorem kept_congr (h : ∀ i, n ≤ i → answers i = answers' i) :
    r.kept answers s n count = r.kept answers' s n count := by
  rw [kept, kept, List.map_congr_left fun i hi => h i (List.mem_range'_1.mp hi).1]

theorem exists_succ_of_not_stop (h : ¬ (r.ends a = true ∨ left = 0)) :
    r.ends a = false ∧ ∃ more, left = more + 1 := by
  obtain ⟨he, hl⟩ := not_or.mp h
  exact ⟨Bool.eq_false_iff.mpr he, Nat.exists_eq_succ_of_ne_zero hl⟩

/-- The rounds up to the last one can be played. -/
theorem runs_play (h : ∀ i, n ≤ i → i ≤ r.last answers n left → (r.ask i).Runs (calls i) (answers i)) :
    (r.play left n s).Runs (paced r.pause calls n (r.last answers n left - n))
      (r.result (r.last answers n left) (r.kept answers s n (r.last answers n left - n))
        (answers (r.last answers n left))) := by
  induction left using Nat.strongRecOn generalizing n s with
  | _ left ih =>
    have hfirst := h n (Nat.le_refl _) (r.last_bounds answers n left).1
    rw [r.play_eq, runs_bind_iff]
    by_cases hstop : r.ends (answers n) = true ∨ left = 0
    · rw [last_of_stop hstop, Nat.sub_self]
      refine ⟨calls n, answers n, [], (List.append_nil _).symm, hfirst, ?_⟩
      rw [if_pos hstop]
      exact .done _
    · obtain ⟨he, more, rfl⟩ := exists_succ_of_not_stop hstop
      rw [last_succ he] at h ⊢
      have hnext := (r.last_bounds answers (n + 1) more).1
      have hcount : r.last answers (n + 1) more - n = r.last answers (n + 1) more - (n + 1) + 1 := by omega
      rw [hcount, paced]
      refine ⟨calls n, answers n, _, rfl, hfirst, ?_⟩
      rw [if_neg hstop]
      exact .cons (.waited _ _) (ih more (Nat.lt_succ_self _) fun i hi => h i (Nat.le_of_succ_le hi))

/-- Nothing else is done than the rounds up to the last one. -/
theorem exists_of_runs_play (h : (r.play left n s).Runs course b) : ∃ calls answers,
    (∀ i, n ≤ i → i ≤ r.last answers n left → (r.ask i).Runs (calls i) (answers i)) ∧
    course = paced r.pause calls n (r.last answers n left - n) ∧
    b = r.result (r.last answers n left) (r.kept answers s n (r.last answers n left - n))
      (answers (r.last answers n left)) := by
  induction left using Nat.strongRecOn generalizing n s course with
  | _ left ih =>
    rw [r.play_eq, runs_bind_iff] at h
    obtain ⟨first, a, rest, rfl, hfirst, hrest⟩ := h
    by_cases hstop : r.ends a = true ∨ left = 0
    · rw [if_pos hstop] at hrest
      obtain ⟨rfl, rfl⟩ := runs_done_iff.mp hrest
      have hk : r.last (fun _ => a) n left = n := last_of_stop hstop
      refine ⟨fun _ => first, fun _ => a, fun i hi hle => ?_, ?_, ?_⟩
      · obtain rfl : i = n := Nat.le_antisymm (hk ▸ hle) hi
        exact hfirst
      · rw [hk, Nat.sub_self, paced, List.append_nil]
      · rw [hk, Nat.sub_self]
        rfl
    · obtain ⟨he, more, rfl⟩ := exists_succ_of_not_stop hstop
      rw [if_neg hstop] at hrest
      obtain ⟨later, rfl, hlater⟩ := runs_wait_iff.mp hrest
      obtain ⟨calls, answers, hcalls, rfl, rfl⟩ := ih more (Nat.lt_succ_self _) hlater
      -- this round is put in front of those that follow it
      have hne : ∀ i, n + 1 ≤ i → i ≠ n := fun i hi => by omega
      have hanswers : ∀ i, n + 1 ≤ i → (Function.update answers n a) i = answers i :=
        fun i hi => Function.update_of_ne (hne i hi) _ _
      have hk : r.last (Function.update answers n a) n (more + 1) = r.last answers (n + 1) more := by
        rw [last_succ (by rwa [Function.update_self]), last_congr hanswers]
      have hnext := (r.last_bounds answers (n + 1) more).1
      have hcount : r.last answers (n + 1) more - n = r.last answers (n + 1) more - (n + 1) + 1 := by omega
      refine ⟨Function.update calls n first, Function.update answers n a, fun i hi hle => ?_, ?_, ?_⟩
      · rcases Nat.eq_or_lt_of_le hi with rfl | hlt
        · rwa [Function.update_self, Function.update_self]
        · rw [hanswers i hlt, Function.update_of_ne (hne i hlt)]
          exact hcalls i hlt (hk ▸ hle)
      · rw [hk, hcount, paced, Function.update_self,
          paced_congr fun i hi _ => Function.update_of_ne (hne i hi) first calls]
      · have hkept : r.kept (Function.update answers n a) s n (r.last answers (n + 1) more - n) =
            r.kept answers (r.remember s a) (n + 1) (r.last answers (n + 1) more - (n + 1)) := by
          rw [hcount, ← kept_congr hanswers, kept, List.range'_succ, List.map_cons, List.foldl_cons,
            Function.update_self]
          rfl
        rw [hk, hkept, hanswers _ hnext]

/-- Where each round makes the same call, the course is known from the answers. -/
theorem runs_play_call_iff {c : Call} (r : Rounds (Except Client.Fault c.Reply) σ β)
    (hask : ∀ i, r.ask i = call c done) : (r.play left n s).Runs course b ↔ ∃ answers,
      course = paced r.pause (fun i => [.asked c (answers i)]) n (r.last answers n left - n) ∧
      b = r.result (r.last answers n left) (r.kept answers s n (r.last answers n left - n))
        (answers (r.last answers n left)) := by
  constructor
  · intro h
    obtain ⟨calls, answers, hcalls, rfl, rfl⟩ := exists_of_runs_play h
    refine ⟨answers, paced_congr fun i hi hle => ?_, rfl⟩
    have hlast := (r.last_bounds answers n left).1
    have hone := hcalls i hi (by omega)
    rwa [hask, runs_ask_iff] at hone
  · rintro ⟨answers, rfl, rfl⟩
    exact runs_play fun i _ _ => hask i ▸ runs_ask_iff.mpr rfl

end Rounds

end Procedure

namespace RetryPolicy

open Procedure

variable {α : Type} {outcome : Nat → Except Client.Fault α} {calls : Nat → List Moment} {course : List Moment}
  {pause : Nat → Nat} {ask : Nat → Procedure (Except Client.Fault α)} {left attempt : Nat}

/-- After an attempt comes the end, or a pause and the attempts that are left. -/
theorem attempting_eq (pause : Nat → Nat) (ask : Nat → Procedure (Except Client.Fault α))
    (left attempt : Nat) :
    attempting pause ask left attempt = (ask attempt).bind fun o =>
      if isFinal o = true ∨ left = 0 then done (o.mapError (·.afterAttempts attempt))
      else wait (pause attempt) (attempting pause ask (left - 1) (attempt + 1)) := by
  rw [attempting]
  congr 1
  funext o
  cases o with
  | ok a => rfl
  | error f =>
    have herror : (Except.error f : Except Client.Fault α).mapError (·.afterAttempts attempt) =
        .error (f.afterAttempts attempt) := rfl
    cases left <;> cases ht : f.isTransient <;> simp [isFinal, ht, herror]

/-- The attempts as rounds; nothing is remembered of those that failed. -/
def rounds (pause : Nat → Nat) (ask : Nat → Procedure (Except Client.Fault α)) :
    Rounds (Except Client.Fault α) Unit (Except Client.Fault α) where
  ask := ask
  ends := isFinal
  remember _ _ := ()
  result attempt _ o := o.mapError (·.afterAttempts attempt)
  pause := pause
  play left attempt _ := attempting pause ask left attempt
  play_eq left attempt _ := attempting_eq pause ask left attempt

theorem deciding_bounds (outcome : Nat → Except Client.Fault α) (attempt more : Nat) :
    attempt ≤ deciding outcome attempt more ∧ deciding outcome attempt more ≤ attempt + more :=
  (rounds (fun _ => 0) fun i => done (outcome i)).last_bounds outcome attempt more

/-- The attempts up to the one that decides can be made. -/
theorem runs_attempting
    (h : ∀ i, attempt ≤ i → i ≤ deciding outcome attempt left → (ask i).Runs (calls i) (outcome i)) :
    (attempting pause ask left attempt).Runs
      (paced pause calls attempt (deciding outcome attempt left - attempt))
      ((outcome (deciding outcome attempt left)).mapError
        (·.afterAttempts (deciding outcome attempt left))) :=
  (rounds pause ask).runs_play (s := ()) h

/-- Nothing else is done than the attempts up to the one that decides. -/
theorem exists_of_runs_attempting {r : Except Client.Fault α}
    (h : (attempting pause ask left attempt).Runs course r) :
    ∃ calls outcome, (∀ i, attempt ≤ i → i ≤ deciding outcome attempt left →
        (ask i).Runs (calls i) (outcome i)) ∧
      course = paced pause calls attempt (deciding outcome attempt left - attempt) ∧
      r = (outcome (deciding outcome attempt left)).mapError
        (·.afterAttempts (deciding outcome attempt left)) :=
  (rounds pause ask).exists_of_runs_play (s := ()) h

theorem runDrawing_of_steady {p : RetryPolicy} (h : p.jitter = false) (draws : Nat → UInt32)
    (ask : Nat → Procedure (Except Client.Fault α)) : p.runDrawing draws ask = p.run ask := by
  have hpause : (fun i => p.delayDrawn (draws i) i) = p.delay := by
    funext i
    simp [delayDrawn, h]
  rw [runDrawing, hpause, run]

theorem attempts_lt (p : RetryPolicy) : p.attempts < Nat.pow 2 32 :=
  Nat.max_lt.mpr ⟨p.maxAttempts.toNat_lt, by decide⟩

/-- The attempt whose outcome counts: the least with a final outcome, or else the last one that there is. -/
def lastAttempt (p : RetryPolicy) (outcome : Nat → Except Client.Fault α) : Nat :=
  ((List.range' 1 p.attempts).find? fun i => isFinal (outcome i)).getD p.attempts

theorem lastAttempt_eq (p : RetryPolicy) (outcome : Nat → Except Client.Fault α) :
    p.lastAttempt outcome = deciding outcome 1 (p.attempts - 1) := by
  have hpos : 1 ≤ p.attempts := Nat.le_max_right _ _
  rw [lastAttempt, deciding, Nat.sub_add_cancel hpos, Nat.add_sub_cancel' hpos]

/-- A call is made as its attempts say, and comes to the outcome of the one that counts. -/
theorem runs_calling {p : RetryPolicy} {c : Call} {r : Except TaskFault c.Reply} :
    (p.calling c).Runs course r ↔ ∃ answers,
      course = paced p.delay (fun i => [.asked c (answers i)]) 1 (p.lastAttempt answers - 1) ∧
      r = ((answers (p.lastAttempt answers)).mapError (·.afterAttempts (p.lastAttempt answers))).mapError
        TaskFault.client := by
  have hcalls {b} : (p.run fun _ => call c done).Runs course b ↔ _ :=
    (rounds p.delay fun _ => call c done).runs_play_call_iff (s := ()) fun _ => rfl
  have hlast : ∀ answers : Nat → Except Client.Fault c.Reply,
      (rounds p.delay fun _ => call c done).last answers 1 (p.attempts - 1) = p.lastAttempt answers :=
    fun answers => (p.lastAttempt_eq answers).symm
  simp only [hlast] at hcalls
  rw [calling, runs_map_iff]
  constructor
  · rintro ⟨a, h, rfl⟩
    obtain ⟨answers, rfl, rfl⟩ := hcalls.mp h
    exact ⟨answers, rfl, rfl⟩
  · rintro ⟨answers, rfl, rfl⟩
    exact ⟨_, hcalls.mpr ⟨answers, rfl, rfl⟩, rfl⟩

theorem asking_calling {p : RetryPolicy} {c : Call} {r : Except TaskFault c.Reply}
    (h : (p.calling c).Runs course r) : Asking c course := by
  obtain ⟨answers, rfl, -⟩ := runs_calling.mp h
  exact asking_paced

theorem exists_fault_of_lt {p : RetryPolicy} {outcome : Nat → Except Client.Fault α} {i : Nat} (hi : 1 ≤ i)
    (hlt : i < p.lastAttempt outcome) : ∃ fault, outcome i = .error fault := by
  have hfinal : isFinal (outcome i) = false :=
    Rounds.ends_of_lt_last (r := rounds p.delay fun _ => done (outcome 0)) hi (p.lastAttempt_eq outcome ▸ hlt)
  cases h : outcome i with
  | ok a =>
    rw [h] at hfinal
    cases hfinal
  | error fault => exact ⟨fault, rfl⟩

/-- What a call comes to is what its last attempt was answered, all others having failed. A fault tells the number
of attempts. -/
theorem calling_last {p : RetryPolicy} {c : Call} {r : Except TaskFault c.Reply}
    (h : (p.calling c).Runs course r) : ∃ before answer, course = before ++ [.asked c answer] ∧
      (∀ x ∈ before, (∃ fault, x = .asked c (.error fault)) ∨ ∃ ms, x = .waited ms) ∧
      r = (answer.mapError (·.afterAttempts (tally c.operation course))).mapError TaskFault.client := by
  obtain ⟨answers, rfl, rfl⟩ := runs_calling.mp h
  obtain ⟨before, hbefore, hmem⟩ := exists_paced_eq_append p.delay (fun i => [.asked c (answers i)]) 1
    (p.lastAttempt answers - 1)
  have hpos := (deciding_bounds answers 1 (p.attempts - 1)).1
  rw [← lastAttempt_eq] at hpos
  rw [Nat.add_sub_cancel' hpos] at hbefore hmem
  refine ⟨before, _, hbefore, fun x hx => (hmem x hx).imp_left ?_, ?_⟩
  · rintro ⟨i, hi, hlt, hasked⟩
    obtain ⟨fault, hfault⟩ := exists_fault_of_lt hi hlt
    exact ⟨fault, (List.mem_singleton.mp hasked).trans (by rw [hfault])⟩
  · rw [tally_paced, Nat.sub_add_cancel hpos]

theorem afterAttempts_eq {k : Nat} (h : 1 ≤ k) (f : Client.Fault) : f.afterAttempts k =
    if k = 1 then f else { f with detail := f.detail ++ " (after " ++ toString k ++ " attempts)" } := by
  have hone : k ≤ 1 ↔ k = 1 := by omega
  simp only [Client.Fault.afterAttempts, hone]

/-- A policy makes the attempts up to the least one that ends well or with a fault that will not pass, or as
many as it has, whatever the calls do. It waits for the delay of each attempt before the next one. What the
last one comes to is the result; where there was more than one, a fault tells how many. Attempts are counted
within 32 bits. -/
theorem runs_runDrawing_iff (p : RetryPolicy) (draws : Nat → UInt32)
    (ask : Nat → Procedure (Except Client.Fault α)) :
    (∀ course r, (p.runDrawing draws ask).Runs course r ↔ ∃ calls outcome k, k = p.lastAttempt outcome ∧
      (∀ i, 1 ≤ i → i ≤ k → (ask i).Runs (calls i) (outcome i)) ∧
      course = paced (fun i => p.delayDrawn (draws i) i) calls 1 (k - 1) ∧
      r = (outcome k).mapError fun f => if k = 1 then f
        else { f with detail := f.detail ++ " (after " ++ toString k ++ " attempts)" }) ∧
    (∀ outcome : Nat → Except Client.Fault α,
      1 ≤ p.lastAttempt outcome ∧ p.lastAttempt outcome ≤ p.attempts) ∧
    p.attempts = max 1 p.maxAttempts.toNat ∧ p.attempts < Nat.pow 2 32 ∧
    (p.jitter = false → p.runDrawing draws ask = p.run ask) := by
  have hpos : 1 ≤ p.attempts := Nat.le_max_right _ _
  have hbounds : ∀ outcome : Nat → Except Client.Fault α,
      1 ≤ p.lastAttempt outcome ∧ p.lastAttempt outcome ≤ p.attempts := fun outcome => by
    have h := deciding_bounds outcome 1 (p.attempts - 1)
    rwa [← lastAttempt_eq, Nat.add_sub_cancel' hpos] at h
  have htold : ∀ outcome : Nat → Except Client.Fault α,
      (fun f : Client.Fault => f.afterAttempts (p.lastAttempt outcome)) = _ :=
    fun outcome => funext (afterAttempts_eq (hbounds outcome).1)
  refine ⟨fun course r => ⟨fun h => ?_, ?_⟩, hbounds, Nat.max_comm _ _, p.attempts_lt,
    fun h => runDrawing_of_steady h draws ask⟩
  · obtain ⟨calls, outcome, hcalls, hcourse, hr⟩ := exists_of_runs_attempting h
    rw [← lastAttempt_eq] at hcalls hcourse hr
    rw [htold] at hr
    exact ⟨calls, outcome, _, rfl, hcalls, hcourse, hr⟩
  · rintro ⟨calls, outcome, k, rfl, hcalls, rfl, rfl⟩
    rw [lastAttempt_eq] at hcalls
    have h : (p.runDrawing draws ask).Runs _ _ := runs_attempting hcalls
    rw [← lastAttempt_eq, htold] at h
    exact h

example : (RetryPolicy.mk 3 .immediate false).lastAttempt
    (fun i => if i = 2 then .ok () else .error ⟨.timeout, "ping", "no answer"⟩) = 2 := rfl

end Rollout.RetryPolicy
