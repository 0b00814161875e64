import CodeFrames.ConversionError

/-!
Declarations under construction.  The header of a method or constructor is known first, then its
parameters, its throws clause and its body; modifiers are resolved at the end, and those that an
element cannot show are left over.
-/

namespace CodeFrames

inductive Header where
  | method (returnType name : Fragment)
  | constructor
  deriving DecidableEq, Repr

structure Declaration where
  header : Header
  modifiers : List Text
  documentation : Option Text
  line : Nat
  parameters : List Parameter
  throws : List Fragment
  delegate : Option (DelegateTarget × List Text)
  deriving DecidableEq, Repr

/-- The access levels in the order in which a conflict names them. -/
def Access.all : List Access := [.publicAccess, .protectedAccess, .privateAccess]

def Access.word (a : Access) : Text := a.keyword.toList

/-- The access level that some modifiers name; none named means `protected`. -/
def accessOf (modifiers : List Text) : Except ConversionError Access :=
  match Access.all.filter fun a => modifiers.contains a.word with
  | [] => .ok .protectedAccess
  | [level] => .ok level
  | levels => .error (.accessConflict levels)

def withoutWords (words : List Text) (modifiers : List Text) : List Text :=
  modifiers.filter fun m => !words.contains m

namespace Declaration

def start (header : Header) (modifiers : List Text) (documentation : Option Text) (line : Nat) :
    Declaration :=
  ⟨header, modifiers, documentation, line, [], [], none⟩

def isConstructor (d : Declaration) : Bool := d.header = .constructor

def situation (d : Declaration) : Situation :=
  if d.isConstructor then .constructorHeader else .methodHeader

/-- The words that the finished element shows in some way. -/
def shownWords (d : Declaration) (hasBody : Bool) : List Text :=
  Access.all.map Access.word ++
    match d.header, hasBody with
    | .constructor, _ => []
    | .method _ _, true => ["static".toList, "final".toList]
    | .method _ _, false => ["abstract".toList]

def leftovers (d : Declaration) (hasBody : Bool) : List Text :=
  withoutWords (d.shownWords hasBody) d.modifiers

def delegateCall (d : Declaration) : Option Delegate :=
  d.delegate.map fun (kind, texts) => ⟨kind, .expression (Text.join [','] texts)⟩

def element (d : Declaration) (access : Access) (body : Option Block) : Element :=
  match d.header, body with
  | .constructor, body =>
      .constructor d.documentation access d.parameters d.throws d.delegateCall (body.getD [])
  | .method returnType name, some body =>
      .method d.documentation access (d.modifiers.contains "static".toList)
        (d.modifiers.contains "final".toList) returnType name d.parameters d.throws body
  | .method returnType name, none =>
      .abstractMethod d.documentation access returnType name d.parameters d.throws

def finish (d : Declaration) (body : Option Block) : Except ConversionError Element :=
  (accessOf d.modifiers).map (d.element · body)

end Declaration

/-- The common part of the variables of one declaration. -/
structure VariableHeader where
  isFinal : Bool
  type : Fragment
  deriving DecidableEq, Repr

def VariableHeader.element (h : VariableHeader) (name : Fragment) (value : Option Fragment) :
    Element :=
  .localVariable h.isFinal h.type name value

end CodeFrames
