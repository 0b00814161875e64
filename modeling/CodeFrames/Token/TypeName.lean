import CodeFrames.Token.Group
import CodeFrames.Token.Word

/-!
Recognizing types by looking ahead.  Each function says how many tokens the construct at the start of
a token list takes.
-/

namespace CodeFrames

namespace Token

/-- How a token inside type arguments changes the number of open argument lists; `none` where it
cannot stand there.  The shift operators close several lists at once. -/
def typeArgumentChange? (t : Token) : Option Int :=
  match t.kind with
  | .operator =>
      if t.text = ['<'] then some 1
      else if t.text = ['>'] then some (-1)
      else if t.text = ['>', '>'] then some (-2)
      else if t.text = ['>', '>', '>'] then some (-3)
      else if t.text = ['?'] || t.text = ['&'] then some 0
      else none
  | .dot | .comma | .openBracket | .closeBracket => some 0
  | .word =>
      if t.opensType || t.isWordIn ["extends".toList, "super".toList] then some 0 else none
  | _ => none

def typeArgumentsLengthFrom? : Int → List Token → Option Nat
  | _, [] => none
  | depth, t :: ts =>
      match t.typeArgumentChange? with
      | none => none
      | some change =>
          let depth := depth + change
          if depth = 0 then some 1
          else if depth < 0 then none
          else (typeArgumentsLengthFrom? depth ts).map (· + 1)

/-- The length of the type argument list that starts here. -/
def typeArgumentsLength? (tokens : List Token) : Option Nat := typeArgumentsLengthFrom? 0 tokens

/-- The length of the argument list after a type's name, zero when there is none. -/
def optionalArgumentsLength? : List Token → Option Nat
  | [] => some 0
  | t :: ts => if t.isOperator ['<'] then typeArgumentsLength? (t :: ts) else some 0

/-- A dot and a name follow, so that the qualified name goes on. -/
def continuesQualified : List Token → Bool
  | dot :: name :: _ => dot.kind = .dot && name.isName
  | _ => false

/-- The length of what follows the first name of a type, of which `skip` tokens are known to belong
to it. -/
def qualifiedLength? : Nat → List Token → Option Nat
  | _, [] => some 0
  | skip + 1, _ :: ts => (qualifiedLength? skip ts).map (· + 1)
  | 0, t :: ts => do
      let n ← optionalArgumentsLength? (t :: ts)
      if continuesQualified ((t :: ts).drop n) then (qualifiedLength? (n + 1) ts).map (· + 1)
      else some n

/-- The length of a possibly qualified, possibly generic type name. -/
def typeNameLength? : List Token → Option Nat
  | [] => none
  | t :: ts => if t.opensType then (qualifiedLength? 0 ts).map (· + 1) else none

def dimensionsLength : List Token → Nat
  | l :: r :: ts =>
      if l.kind = .openBracket && r.kind = .closeBracket then dimensionsLength ts + 2 else 0
  | _ => 0

/-- The length of a type, array dimensions included. -/
def typeLength? (tokens : List Token) : Option Nat :=
  (typeNameLength? tokens).map fun n => n + dimensionsLength (tokens.drop n)

end Token

end CodeFrames
