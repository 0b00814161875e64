import CodeFrames.ConversionError

/-!
Extraction of expression texts and argument texts.  An extraction counts how deep the events have gone
and yields its text when the outermost expression or argument list ends.
-/

namespace CodeFrames

/-! ## Expressions -/

structure Extraction where
  use : ExpressionUse
  depth : Nat
  start : Option Nat
  deriving DecidableEq, Repr

namespace Extraction

def awaiting (use : ExpressionUse) : Extraction := ⟨use, 0, none⟩

def situation (x : Extraction) : Situation := .expression x.use x.depth

def opened (x : Extraction) (start : Nat) : Extraction :=
  { x with depth := x.depth + 1, start := if x.depth = 0 then some start else x.start }

/-- The text of the expression that ends at byte `stop`. -/
def textTo (x : Extraction) (source : Text) (stop : Nat) : Except ConversionError Text :=
  let start := x.start.getD stop
  match Text.slice? source start stop with
  | some text => .ok text
  | none =>
      .error (.mismatch .boundsInside (.bounds start stop (Text.byteSize source)))

/-- Ends the innermost open expression.  The text is there when it was the outermost one. -/
def closed (x : Extraction) (source : Text) (stop : Nat) (isEmpty : Bool) :
    Except ConversionError (Extraction × Option Text) :=
  match x.depth with
  | 0 => .error (.mismatch .openExpression x.situation)
  | 1 => do
      let text ← if isEmpty then .ok [] else x.textTo source stop
      return ({ x with depth := 0 }, some text)
  | depth + 2 => .ok ({ x with depth := depth + 1 }, none)

end Extraction

/-! ## Argument lists -/

/-- Collects the arguments of a constructor's call of another constructor. -/
structure ArgumentCollector where
  kind : DelegateTarget
  depth : Nat
  arguments : List Text
  deriving DecidableEq, Repr

namespace ArgumentCollector

def awaiting (kind : DelegateTarget) : ArgumentCollector := ⟨kind, 0, []⟩

def situation (a : ArgumentCollector) : Situation := .arguments a.kind a.depth

def opened (a : ArgumentCollector) : ArgumentCollector := { a with depth := a.depth + 1 }

/-- Ends the innermost open list. -/
def closed (a : ArgumentCollector) : Except ConversionError ArgumentCollector :=
  match a.depth with
  | 0 => .error (.mismatch .openArguments a.situation)
  | depth + 1 => .ok { a with depth }

end ArgumentCollector

end CodeFrames
