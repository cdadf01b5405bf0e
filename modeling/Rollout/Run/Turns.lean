import Rollout.Run.Loop

/-! The coordination loop where one thread serves it and all handlers. The loop goes on by itself until it
waits and has taken in all completions; only then handlers have their turn. -/

namespace Rollout.Loop

inductive Turn
  | loop
  | handlers
deriving Repr, DecidableEq

/-- Whether the loop does this by itself. -/
def Action.isOwn : Action → Bool
  | ended _ _ | cancel | expire => false
  | _ => true

/-- Steps from one turn to another. A run can be cancelled or late at any time. -/
inductive Turns : Turn → Loop → List Action → Turn → Loop → Prop
  | refl (turn : Turn) (l : Loop) : Turns turn l [] turn l
  | own {turn : Turn} {l : Loop} {turn' : Turn} {m n : Loop} {actions : List Action} {a : Action}
      (path : Turns turn l actions turn' m) (step : Step m a n) (isOwn : a.isOwn = true) :
      Turns turn l (actions ++ [a]) .loop n
  | yields {turn : Turn} {l : Loop} {turn' : Turn} {m : Loop} {actions : List Action}
      (path : Turns turn l actions turn' m) (place : m.place = .waiting) (idle : m.arrived = []) :
      Turns turn l actions .handlers m
  | ended {turn : Turn} {l m n : Loop} {actions : List Action} {id : TaskId} {e : Ending}
      (path : Turns turn l actions .handlers m) (step : Step m (.ended id e) n) :
      Turns turn l (actions ++ [.ended id e]) .handlers n
  | outside {turn : Turn} {l : Loop} {turn' : Turn} {m n : Loop} {actions : List Action} {a : Action}
      (path : Turns turn l actions turn' m) (step : Step m a n)
      (isOutside : a = .cancel ∨ a = .expire) :
      Turns turn l (actions ++ [a]) turn' n

end Rollout.Loop
