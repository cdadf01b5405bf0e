import Rollout.Proofs.Attempts

/-! What waiting for a phase comes to. The agent of an instance is polled up to the first answer that settles the
matter; where none does, the fault tells the phase that was answered last. -/

namespace Rollout.PhaseWait

open Procedure
open RetryPolicy (paced)

/-- Whether an answer ends the wait: the instance has come far enough, or a fault will not pass. -/
def settles (required : Phase) : Except Client.Fault Phase → Bool
  | .ok phase => phase.reaches required
  | .error f => !f.isTransient

/-- The phase that an answer tells, and else the one that was told before. -/
def remember (seen : Option Phase) (answer : Except Client.Fault Phase) : Option Phase :=
  answer.toOption.or seen

/-- The phase that was told last in so many answers. -/
def lastSeen (answers : Nat → Except Client.Fault Phase) (n : Nat) : Option Phase :=
  (List.range' 1 n).reverse.findSome? fun i => (answers i).toOption

/-- The poll whose answer counts: the least that settles the matter, or else the last one that there is. -/
def lastPoll (w : PhaseWait) (required : Phase) (answers : Nat → Except Client.Fault Phase) : Nat :=
  ((List.range' 1 w.polls).find? fun n => settles required (answers n)).getD w.polls

/-- What the wait comes to: the answer that settles the matter, or a fault with the phase that was seen last. -/
def verdict (w : PhaseWait) (i : Instance) (required : Phase) (answers : Nat → Except Client.Fault Phase) :
    Except Client.Fault Phase :=
  let answer := answers (w.lastPoll required answers)
  if settles required answer = true then answer
  else .error (timeout i required w.polls (lastSeen answers (w.lastPoll required answers)))

variable {w : PhaseWait} {i : Instance} {required : Phase} {answers : Nat → Except Client.Fault Phase}
  {course : List Moment} {n : Nat}

/-- After a poll comes the end, or a pause and the polls that are left. -/
theorem polling_eq (w : PhaseWait) (ask : Nat → Procedure (Except Client.Fault Phase)) (i : Instance)
    (required : Phase) (left n : Nat) (seen : Option Phase) :
    w.polling ask i required left n seen = (ask n).bind fun answer =>
      if settles required answer = true ∨ left = 0 then
        done (if settles required answer = true then answer
          else .error (timeout i required w.polls (remember seen answer)))
      else wait w.pollInterval.toNat
        (w.polling ask i required (left - 1) (n + 1) (remember seen answer)) := by
  rw [polling]
  congr 1
  funext answer
  cases answer with
  | ok phase =>
    cases left <;> cases hr : phase.reaches required <;> simp [settles, remember, hr, Except.toOption]
  | error f =>
    cases left <;> cases ht : f.isTransient <;> simp [settles, remember, ht, Except.toOption]

/-- The pings of an instance as rounds that remember the phase seen last. -/
def rounds (w : PhaseWait) (i : Instance) (required : Phase) :
    Rounds (Except Client.Fault Phase) (Option Phase) (Except Client.Fault Phase) where
  ask _ := call (.ping i) done
  ends := settles required
  remember := remember
  result _ seen answer := if settles required answer = true then answer
    else .error (timeout i required w.polls (remember seen answer))
  pause _ := w.pollInterval.toNat
  play := w.polling (fun _ => call (.ping i) done) i required
  play_eq := w.polling_eq _ i required

theorem foldl_remember (answers : Nat → Except Client.Fault Phase) (seen : Option Phase) (ns : List Nat) :
    (ns.map answers).foldl remember seen =
      (ns.reverse.findSome? fun n => (answers n).toOption).or seen := by
  induction ns generalizing seen with
  | nil => rfl
  | cons n ns ih =>
    rw [List.map_cons, List.foldl_cons, ih, List.reverse_cons, List.findSome?_append, Option.or_assoc]
    cases h : (answers n).toOption <;> simp [remember, h]

theorem remember_kept (n : Nat) :
    remember ((w.rounds i required).kept answers none 1 n) (answers (1 + n)) = lastSeen answers (1 + n) := by
  have hfold := foldl_remember answers none (List.range' 1 (n + 1))
  rw [List.range'_1_concat, List.map_append, List.foldl_append, Option.or_none] at hfold
  rw [lastSeen, Nat.add_comm, List.range'_1_concat, ← hfold, Nat.add_comm]
  rfl

theorem one_le_polls (w : PhaseWait) : 1 ≤ w.polls := Nat.le_max_right _ _

theorem lastPoll_eq (w : PhaseWait) (i : Instance) (required : Phase)
    (answers : Nat → Except Client.Fault Phase) :
    w.lastPoll required answers = (w.rounds i required).last answers 1 (w.polls - 1) := by
  rw [lastPoll, Rounds.last, Nat.sub_add_cancel w.one_le_polls, Nat.add_sub_cancel' w.one_le_polls]
  rfl

theorem lastPoll_bounds (w : PhaseWait) (required : Phase) (answers : Nat → Except Client.Fault Phase) :
    1 ≤ w.lastPoll required answers ∧ w.lastPoll required answers ≤ w.polls := by
  have h := (w.rounds default required).last_bounds answers 1 (w.polls - 1)
  rwa [← lastPoll_eq, Nat.add_sub_cancel' w.one_le_polls] at h

theorem result_eq_verdict {k : Nat} (hk : w.lastPoll required answers = k) :
    (w.rounds i required).result k ((w.rounds i required).kept answers none 1 (k - 1)) (answers k) =
      w.verdict i required answers := by
  obtain ⟨n, rfl⟩ := Nat.exists_eq_add_of_le (hk ▸ (w.lastPoll_bounds required answers).1)
  rw [verdict, hk, Nat.add_sub_cancel_left, ← w.remember_kept]
  rfl

/-- The wait polls as its rounds say, and comes to their verdict. -/
theorem runs_waitFor {r : Except TaskFault Phase} : (w.waitFor i required).Runs course r ↔ ∃ answers,
    course = paced (fun _ => w.pollInterval.toNat) (fun n => [.asked (.ping i) (answers n)]) 1
      (w.lastPoll required answers - 1) ∧
    r = (w.verdict i required answers).mapError TaskFault.client := by
  have hpings {b} : (w.run (fun _ => call (.ping i) done) i required).Runs course b ↔ _ :=
    (w.rounds i required).runs_play_call_iff (c := .ping i) fun _ => rfl
  simp only [← lastPoll_eq, result_eq_verdict] at hpings
  rw [waitFor, runs_map_iff]
  constructor
  · rintro ⟨a, h, rfl⟩
    obtain ⟨answers, rfl, rfl⟩ := hpings.mp h
    exact ⟨answers, rfl, rfl⟩
  · rintro ⟨answers, rfl, rfl⟩
    exact ⟨_, hpings.mpr ⟨answers, rfl, rfl⟩, rfl⟩

theorem asking_waitFor {r : Except TaskFault Phase} (h : (w.waitFor i required).Runs course r) :
    Asking (.ping i) course := by
  obtain ⟨answers, rfl, -⟩ := runs_waitFor.mp h
  exact asking_paced (c := .ping i)

theorem answer_of_verdict {phase : Phase} (h : w.verdict i required answers = .ok phase) :
    answers (w.lastPoll required answers) = .ok phase ∧ phase.reaches required = true := by
  rw [verdict] at h
  cases hs : settles required (answers (w.lastPoll required answers)) with
  | false =>
    rw [hs] at h
    cases h
  | true =>
    rw [hs] at h
    rw [show answers (w.lastPoll required answers) = .ok phase from h] at hs
    exact ⟨h, hs⟩

/-- A wait ends well only when the instance has come far enough. -/
theorem reached_of_waitFor {phase : Phase} (h : (w.waitFor i required).Runs course (.ok phase)) :
    .asked (.ping i) (.ok phase) ∈ course ∧ phase.reaches required = true := by
  obtain ⟨answers, rfl, hr⟩ := runs_waitFor.mp h
  obtain ⟨before, hbefore, -⟩ := RetryPolicy.exists_paced_eq_append (fun _ => w.pollInterval.toNat)
    (fun n => [.asked (.ping i) (answers n)]) 1 (w.lastPoll required answers - 1)
  rw [Nat.add_sub_cancel' (w.lastPoll_bounds required answers).1] at hbefore
  cases hv : w.verdict i required answers with
  | error f =>
    rw [hv] at hr
    cases hr
  | ok phase' =>
    rw [hv] at hr
    obtain rfl := Except.ok.inj hr
    obtain ⟨hanswer, hreaches⟩ := answer_of_verdict hv
    rw [hbefore, hanswer]
    exact ⟨List.mem_append_right _ List.mem_cons_self, hreaches⟩

theorem paced_eq_intersperse {ms : Nat} {x : Nat → Moment} (n more : Nat) :
    paced (fun _ => ms) (fun i => [x i]) n more =
      ((List.range' n (more + 1)).map x).intersperse (.waited ms) := by
  induction more generalizing n with
  | zero => rfl
  | succ more ih =>
    rw [paced, ih]
    rfl

/-- A wait pings the instance up to the least answer that tells a phase far enough or a fault that will not pass,
or as often as it may, with the poll interval between any two pings and at no other time. The answer that settled
the matter is the result. Where none did, the fault is a timeout that tells the number of polls and the phase
that was answered last, whatever faults came after it. -/
theorem runs_waitFor_iff (w : PhaseWait) (i : Instance) (required : Phase) :
    (∀ course r, (w.waitFor i required).Runs course r ↔ ∃ answers k, k = w.lastPoll required answers ∧
      course = ((List.range' 1 k).map fun n => .asked (.ping i) (answers n)).intersperse
        (.waited w.pollInterval.toNat) ∧
      r = if settles required (answers k) = true then (answers k).mapError .client
        else .error (.client ⟨.timeout, "ping", "instance " ++ i.name ++ " did not reach phase " ++
          required.title ++ " after " ++ toString (max 1 w.maxPolls.toNat) ++ " polls (last seen: " ++
          ((lastSeen answers k).map Phase.title).getD "no answer" ++ ")"⟩)) ∧
    ∀ answers, 1 ≤ w.lastPoll required answers ∧ w.lastPoll required answers ≤ max 1 w.maxPolls.toNat ∧
      (∀ n, 1 ≤ n → n < w.lastPoll required answers → settles required (answers n) = false) ∧
      (settles required (answers (w.lastPoll required answers)) = false →
        w.lastPoll required answers = max 1 w.maxPolls.toNat) := by
  have hpolls : w.polls = max 1 w.maxPolls.toNat := Nat.max_comm _ _
  have hbounds := w.lastPoll_bounds required
  refine ⟨fun course r => ?_, fun answers => ⟨(hbounds answers).1, hpolls ▸ (hbounds answers).2, ?_, ?_⟩⟩
  · rw [runs_waitFor, ← hpolls]
    refine exists_congr fun answers => ?_
    have hcount := Nat.sub_add_cancel (hbounds answers).1
    have hresult : (w.verdict i required answers).mapError TaskFault.client = _ := apply_ite _ _ _ _
    rw [paced_eq_intersperse, hcount, hresult]
    constructor
    · rintro ⟨rfl, rfl⟩
      exact ⟨_, rfl, rfl, rfl⟩
    · rintro ⟨k, rfl, rfl, rfl⟩
      exact ⟨rfl, rfl⟩
  · intro n hn hlt
    rw [lastPoll_eq w i] at hlt
    exact Rounds.ends_of_lt_last hn hlt
  · intro h
    rw [lastPoll_eq w i] at h ⊢
    rw [Rounds.last_of_not_ends h, Nat.add_sub_cancel' w.one_le_polls, hpolls]

/-- An instance that was seen, and whose agent is then out of reach, was seen last as it was. -/
example : (PhaseWait.mk 500 3).verdict ⟨"shop", "web", "1"⟩ .ready
    (fun n => if n = 1 then .ok .init else .error ⟨.unavailable, "ping", "no route"⟩) =
    .error ⟨.timeout, "ping",
      "instance shop/web/1 did not reach phase Ready after 3 polls (last seen: Init)"⟩ := rfl

end Rollout.PhaseWait
