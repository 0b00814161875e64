import CodeFrames.Element
import CodeFrames.Text.Blank

/-!
The outline of a frame: one line for each element and each branch, indented by two spaces for each
block around it, with the documentation of a declaration in front of it.
-/

namespace CodeFrames

namespace Outline

def line (depth : Nat) (text : Text) : Text := List.replicate (2 * depth) ' ' ++ text

def joined (parts : List String) : Text := (String.join parts).toList

def str (f : Fragment) : String := String.ofList f.text

def documentation (depth : Nat) (text : Option Text) : List Text :=
  (Text.lines (text.getD [])).map fun l => line depth (Text.trimEnd ('#' :: ' ' :: l))

def signature (parameters : List Parameter) (throws : List Fragment) : String :=
  "(" ++ ", ".intercalate (parameters.map fun p => str p.type ++ " " ++ str p.name) ++ ")" ++
    if throws.isEmpty then "" else " throws " ++ ", ".intercalate (throws.map str)

def flag (isSet : Bool) (word : String) : String := if isSet then word else ""

def assigned : Option Fragment → String
  | none => ""
  | some value => " = " ++ str value

/-- The first line of an element, its documentation aside. -/
def head : Element → Text
  | .ifChain condition _ _ _ _ => joined ["if ", str condition]
  | .whileLoop condition _ => joined ["while ", str condition]
  | .returnValue none => "return".toList
  | .returnValue (some value) => joined ["return ", str value]
  | .call expression => expression.text
  | .assign target value => joined [str target, " = ", str value]
  | .localVariable isFinal type name value =>
      joined [flag isFinal "final ", "var ", str type, " ", str name, assigned value]
  | .jump jump => jump.keyword.toList
  | .throwValue expression => joined ["throw ", str expression]
  | .method _ access isStatic isFinal returnType name parameters throws _ =>
      joined [access.keyword, flag isStatic " static", flag isFinal " final", " ", str returnType,
        " ", str name, signature parameters throws]
  | .abstractMethod _ access returnType name parameters throws =>
      joined [access.keyword, " abstract ", str returnType, " ", str name,
        signature parameters throws]
  | .constructor _ access parameters throws _ _ =>
      joined [access.keyword, " constructor", signature parameters throws]

def delegateLine (depth : Nat) : Option Delegate → List Text
  | none => []
  | some d => [line depth (joined [d.kind.keyword, "(", str d.arguments, ")"])]

mutual

def element (depth : Nat) : Element → List Text
  | e@(.ifChain _ thenBlock conditions blocks elseBlock) =>
      line depth (head e) :: block (depth + 1) thenBlock ++ branches depth conditions blocks ++
        otherwise depth elseBlock
  | e@(.whileLoop _ body) => line depth (head e) :: block (depth + 1) body
  | e@(.method text _ _ _ _ _ _ _ body) =>
      documentation depth text ++ line depth (head e) :: block (depth + 1) body
  | e@(.abstractMethod text _ _ _ _ _) => documentation depth text ++ [line depth (head e)]
  | e@(.constructor text _ _ _ delegate body) =>
      documentation depth text ++
        line depth (head e) :: (delegateLine (depth + 1) delegate ++ block (depth + 1) body)
  | e => [line depth (head e)]

def block (depth : Nat) : List Element → List Text
  | [] => []
  | e :: es => element depth e ++ block depth es

/-- The branches with a condition and a block each. -/
def branches (depth : Nat) : List Fragment → List (List Element) → List Text
  | condition :: conditions, body :: bodies =>
      line depth (joined ["else if ", str condition]) :: block (depth + 1) body ++
        branches depth conditions bodies
  | _, _ => []

def otherwise (depth : Nat) : Option (List Element) → List Text
  | none => []
  | some body => line depth "else".toList :: block (depth + 1) body

end

end Outline

/-- The lines of an outline. -/
def outlineLines (elements : Block) : List Text := Outline.block 0 elements

/-- The outline as text, each line with its line feed. -/
def outline (elements : Block) : Text := (outlineLines elements).flatMap (· ++ ['\n'])

end CodeFrames
