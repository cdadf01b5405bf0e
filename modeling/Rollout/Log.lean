import Rollout.Decimal.Reading

/-! Levels of a log. -/

namespace Rollout

inductive Log.Level
  | error
  | warn
  | info
  | debug
  | trace
deriving Repr, DecidableEq

namespace Log.Level

def all : List Log.Level := [error, warn, info, debug, trace]

def name : Log.Level → String
  | error => "ERROR"
  | warn => "WARN"
  | info => "INFO"
  | debug => "DEBUG"
  | trace => "TRACE"

/-- A number from one to five, with a plus sign and zeros in front if need be. -/
def ofNumber? (s : String) : Option Log.Level :=
  let ds := match s.toList with
    | '+' :: r => r
    | r => r
  if ds.isEmpty || !ds.all Decimal.isDigit then none
  else match Decimal.ofDigits ds with
    | 0 => none
    | n + 1 => all[n]?

/-- A name in any case or a number; anything else means the middle level. -/
def read (s : String) : Log.Level :=
  ((ofNumber? s).or (all.find? fun l => l.name = s.toUpper)).getD info

end Log.Level

/-- Whether a subscriber can be installed: only the first one can. -/
def Log.install (installed : Bool) : Bool := !installed

end Rollout
