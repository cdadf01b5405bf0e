import Rollout.Document.Basic
import Rollout.Decimal.Shortest
import Rollout.Text.Quoted
import Rollout.Time.Reading

/-! Why a document is not what a reader expects. -/

namespace Rollout.Doc

inductive Found
  | null
  | bool (b : Bool)
  | whole (n : UInt64)
  | negative (n : Int64)
  | float (x : Float)
  | string (s : String)
  | array
  | object
  | unitVariant

def Found.ofNumber : Json.Number → Found
  | .whole n => whole n
  | .negative n => negative n
  | .float x => float x

def backquoted (s : String) : String := "\x60" ++ s ++ "\x60"

def Found.message : Found → String
  | null => "null"
  | bool b => "boolean " ++ backquoted (if b then "true" else "false")
  | whole n => "integer " ++ backquoted (toString n.toNat)
  | negative n => "integer " ++ backquoted (toString n.toInt)
  | float x => "floating point " ++ backquoted (Decimal.Style.document.render x)
  | string s => "string " ++ Text.shown s
  | array => "sequence"
  | object => "map"
  | unitVariant => "unit variant"

/-- A well-formed document that does not fit. -/
inductive Mismatch
  | wrongType (found : Found) (expected : String)
  | wrongValue (found : Found) (expected : String)
  | wrongLength (n : Nat) (expected : String)
  | unknownVariant (name : String) (known : List String)
  | missing (field : String)
  | duplicate (field : String)
  | notInstant (why : Instant.Fault)

def choice (known : List String) : String :=
  match known.map backquoted with
  | [] => "there are no variants"
  | [a] => "expected " ++ a
  | [a, b] => "expected " ++ a ++ " or " ++ b
  | all => "expected one of " ++ ", ".intercalate all

def Mismatch.message : Mismatch → String
  | wrongType found expected => "invalid type: " ++ found.message ++ ", expected " ++ expected
  | wrongValue found expected => "invalid value: " ++ found.message ++ ", expected " ++ expected
  | wrongLength n expected => "invalid length " ++ toString n ++ ", expected " ++ expected
  | unknownVariant name known => "unknown variant " ++ backquoted name ++ ", " ++ choice known
  | missing field => "missing field " ++ backquoted field
  | duplicate field => "duplicate field " ++ backquoted field
  | notInstant why => why.message

inductive Fault
  | malformed
  | mismatch (m : Mismatch)

abbrev Reading := Except Fault

end Rollout.Doc
