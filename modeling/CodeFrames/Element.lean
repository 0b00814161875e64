import CodeFrames.Text.Basic

/-!
The elements of a frame: statements and declarations, with fragments of source text in the places
where the frame editor shows text.  Nothing in them is resolved; a type or an expression is what the
source says.
-/

namespace CodeFrames

/-! ## Fragments and parts of declarations -/

inductive Role where
  | type
  | name
  | expression
  deriving DecidableEq, Repr

structure Fragment where
  role : Role
  text : Text
  deriving DecidableEq, Repr

def Fragment.type (text : Text) : Fragment := ⟨.type, text⟩

def Fragment.name (text : Text) : Fragment := ⟨.name, text⟩

def Fragment.expression (text : Text) : Fragment := ⟨.expression, text⟩

inductive Access where
  | privateAccess
  | protectedAccess
  | publicAccess
  deriving DecidableEq, Repr

def Access.keyword : Access → String
  | .privateAccess => "private"
  | .protectedAccess => "protected"
  | .publicAccess => "public"

structure Parameter where
  type : Fragment
  name : Fragment
  deriving DecidableEq, Repr

/-- Which constructor a constructor calls first. -/
inductive DelegateTarget where
  | super
  | this
  deriving DecidableEq, Repr

def DelegateTarget.keyword : DelegateTarget → String
  | .super => "super"
  | .this => "this"

def DelegateTarget.ofText? (t : Text) : Option DelegateTarget :=
  if t = "super".toList then some .super
  else if t = "this".toList then some .this
  else none

/-- The arguments are the texts of the call's arguments, joined with commas. -/
structure Delegate where
  kind : DelegateTarget
  arguments : Fragment
  deriving DecidableEq, Repr

/-- The statements that leave a loop or its current round. -/
inductive Jump where
  | breakLoop
  | continueLoop
  deriving DecidableEq, Repr

def Jump.keyword : Jump → String
  | .breakLoop => "break"
  | .continueLoop => "continue"

/-! ## Elements -/

inductive Element where
  /-- The condition and the block at each place of the two lists belong together. -/
  | ifChain (condition : Fragment) (thenBlock : List Element) (elseIfConditions : List Fragment)
      (elseIfBlocks : List (List Element)) (elseBlock : Option (List Element))
  | whileLoop (condition : Fragment) (body : List Element)
  | returnValue (value : Option Fragment)
  | call (expression : Fragment)
  | assign (target value : Fragment)
  | localVariable (isFinal : Bool) (type name : Fragment) (value : Option Fragment)
  | jump (jump : Jump)
  | throwValue (expression : Fragment)
  | method (documentation : Option Text) (access : Access) (isStatic isFinal : Bool)
      (returnType name : Fragment) (parameters : List Parameter) (throws : List Fragment)
      (body : List Element)
  | abstractMethod (documentation : Option Text) (access : Access) (returnType name : Fragment)
      (parameters : List Parameter) (throws : List Fragment)
  | constructor (documentation : Option Text) (access : Access) (parameters : List Parameter)
      (throws : List Fragment) (delegate : Option Delegate) (body : List Element)
  deriving Repr

abbrev Block := List Element

end CodeFrames
