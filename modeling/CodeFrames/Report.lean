import CodeFrames.Assembly
import CodeFrames.Json

/-!
Elements, conversions and errors as JSON.
-/

namespace CodeFrames

/-! ## Parts of elements -/

def Role.word : Role → String
  | .type => "type"
  | .name => "name"
  | .expression => "expression"

def Fragment.toJson (f : Fragment) : Json :=
  .ofFields [("role", .ofString f.role.word), ("text", .text f.text)]

def Parameter.toJson (p : Parameter) : Json :=
  .ofFields [("param_type", p.type.toJson), ("name", p.name.toJson)]

def Delegate.toJson (d : Delegate) : Json :=
  .ofFields [("kind", .ofString d.kind.keyword), ("args", d.arguments.toJson)]

def fragments (fs : List Fragment) : Json := .array (fs.map Fragment.toJson)

def parameterList (ps : List Parameter) : Json := .array (ps.map Parameter.toJson)

def documentationJson (d : Option Text) : Json := .ofOption .text d

/-! ## Elements -/

def Element.tag : Element → String
  | .ifChain .. => "if"
  | .whileLoop .. => "while"
  | .returnValue .. => "return"
  | .call .. => "call"
  | .assign .. => "assign"
  | .localVariable .. => "var"
  | .jump kind => kind.keyword
  | .throwValue .. => "throw"
  | .method .. => "normal_method"
  | .abstractMethod .. => "abstract_method"
  | .constructor .. => "constructor"

mutual

def Element.fields : Element → List (String × Json)
  | .ifChain condition thenBlock conditions blocks elseBlock =>
      [("condition", condition.toJson), ("then_block", .array (blockItems thenBlock)),
        ("else_if_conditions", fragments conditions),
        ("else_if_blocks", .array (blockLists blocks)), ("else_block", optionalBlock elseBlock)]
  | .whileLoop condition body =>
      [("condition", condition.toJson), ("body", .array (blockItems body))]
  | .returnValue value => [("value", .ofOption Fragment.toJson value)]
  | .call expression => [("expression", expression.toJson)]
  | .assign target value => [("target", target.toJson), ("value", value.toJson)]
  | .localVariable isFinal type name value =>
      [("is_final", .bool isFinal), ("var_type", type.toJson), ("name", name.toJson),
        ("value", .ofOption Fragment.toJson value)]
  | .jump _ => []
  | .throwValue expression => [("expression", expression.toJson)]
  | .method documentation access isStatic isFinal returnType name parameters throws body =>
      [("documentation", documentationJson documentation), ("access", .ofString access.keyword),
        ("is_static", .bool isStatic), ("is_final", .bool isFinal),
        ("return_type", returnType.toJson), ("name", name.toJson),
        ("params", parameterList parameters), ("throws", fragments throws),
        ("body", .array (blockItems body))]
  | .abstractMethod documentation access returnType name parameters throws =>
      [("documentation", documentationJson documentation), ("access", .ofString access.keyword),
        ("return_type", returnType.toJson), ("name", name.toJson),
        ("params", parameterList parameters), ("throws", fragments throws)]
  | .constructor documentation access parameters throws delegate body =>
      [("documentation", documentationJson documentation), ("access", .ofString access.keyword),
        ("params", parameterList parameters), ("throws", fragments throws),
        ("delegate", .ofOption Delegate.toJson delegate), ("body", .array (blockItems body))]

def blockItems : List Element → List Json
  | [] => []
  | e :: es => .ofFields (("element", .ofString e.tag) :: e.fields) :: blockItems es

def blockLists : List (List Element) → List Json
  | [] => []
  | b :: bs => .array (blockItems b) :: blockLists bs

def optionalBlock : Option (List Element) → Json
  | none => .null
  | some b => .array (blockItems b)

end

/-! ## Conversions and errors -/

def warningList (ws : List Warning) : Json := .array (ws.map fun w => .ofString w.message)

def Conversion.fields (c : Conversion) : List (String × Json) :=
  [("elements", .array (blockItems c.elements)), ("warnings", warningList c.warnings)]

def Conversion.toJson (c : Conversion) : Json := .ofFields c.fields

def ConversionError.tag : ConversionError → String
  | .mismatch _ _ => "protocol"
  | .emptyStack _ => "empty_stack"
  | .accessConflict _ => "modifier_conflict"
  | .faultySource _ => "syntax"
  | .unreadable _ _ => "io"

/-- The kind of an error and the fields that belong to it, in alphabetical order. -/
def ConversionError.detail (e : ConversionError) : Json :=
  let kind : String × Json := ("kind", .ofString e.tag)
  match e with
  | .mismatch expected actual =>
      .ofFields [("actual", .ofString actual.describe), ("expected", .ofString expected.describe),
        kind]
  | .emptyStack stack => .ofFields [kind, ("stack", .ofString stack.describe)]
  | .accessConflict levels =>
      .ofFields [kind, ("modifiers", .array (levels.map fun l => .ofString l.keyword))]
  | .faultySource error =>
      .ofFields [kind, ("line", .number error.line), ("message", .ofString error.fault.message)]
  | .unreadable path message =>
      .ofFields [kind, ("message", .ofString message), ("path", .ofString path)]

end CodeFrames
