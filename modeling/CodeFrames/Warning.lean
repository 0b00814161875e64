import CodeFrames.Element
import CodeFrames.Fault

/-!
Warnings: details of a source that a frame cannot show and that are left out.
-/

namespace CodeFrames

/-- What a list of modifiers belongs to. -/
inductive ModifierOwner where
  | locals
  | methods
  | constructors
  deriving DecidableEq, Repr

def ModifierOwner.describe : ModifierOwner → String
  | .locals => "variables"
  | .methods => "methods"
  | .constructors => "constructors"

inductive Omission where
  | construct (name : String)
  | label (jump : Jump) (name : Text)
  | variableArity (name type : Text)
  | modifier (text : Text) (owner : ModifierOwner)
  deriving DecidableEq, Repr

def Omission.message : Omission → String
  | .construct name => name ++ " is not supported and was skipped"
  | .label jump name =>
      "labelled " ++ jump.keyword ++ " is not supported; label " ++ quoted name ++ " was dropped"
  | .variableArity name type =>
      "variable-arity parameter " ++ quoted name ++ " is not supported; declared as " ++
        String.ofList type
  | .modifier text owner =>
      "modifier " ++ quoted text ++ " is not supported on " ++ owner.describe ++
        " and was ignored"

structure Warning where
  line : Nat
  omission : Omission
  deriving DecidableEq, Repr

def Warning.message (w : Warning) : String :=
  "line " ++ toString w.line ++ ": " ++ w.omission.message

end CodeFrames
