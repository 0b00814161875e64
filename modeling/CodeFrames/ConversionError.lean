import CodeFrames.Assembly.Situation
import CodeFrames.Fault

/-!
Why a conversion fails.  A faulty or unreadable source is a mistake in the input; a mismatch and an
empty stack mean that the events did not come in an order that describes a source.
-/

namespace CodeFrames

inductive ConversionError where
  | mismatch (expected : Requirement) (actual : Situation)
  | emptyStack (stack : Stack)
  /-- A declaration names more than one access level. -/
  | accessConflict (levels : List Access)
  | faultySource (error : SourceError)
  | unreadable (path message : String)
  deriving DecidableEq, Repr

namespace ConversionError

def message : ConversionError → String
  | .mismatch expected actual =>
      "protocol violation: expected " ++ expected.describe ++ ", found " ++ actual.describe
  | .emptyStack stack => "protocol violation: " ++ stack.describe ++ " stack is empty"
  | .accessConflict levels =>
      "conflicting access modifiers: " ++ " ".intercalate (levels.map Access.keyword)
  | .faultySource error => "line " ++ toString error.line ++ ": " ++ error.fault.message
  | .unreadable path message => "error reading '" ++ path ++ "': " ++ message

def concernsInput : ConversionError → Bool
  | .faultySource _ | .unreadable _ _ => true
  | _ => false

end ConversionError

end CodeFrames
