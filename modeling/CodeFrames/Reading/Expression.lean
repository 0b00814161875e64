import CodeFrames.Reading.Skip
import CodeFrames.Token.Expression

/-!
Reading expressions.  An expression is reported as a whole, and so are the expressions in it that stand
in parentheses, in brackets or in argument lists; operators are only stepped over.

Productions that contain themselves do so through `Enclosed`, the productions one nesting level
deeper.  Within one level no production contains itself, and at the nesting limit the enclosed
productions refuse.
-/

namespace CodeFrames

/-- The productions that take up a nesting level. -/
structure Enclosed where
  assignment : Reading Unit
  /-- Both branches of a conditional, after the question mark. -/
  branches : Reading Unit
  arrayInitializer : Reading Unit
  statement : Reading Unit

namespace Enclosed

def refused : Enclosed :=
  let tooDeep : Reading Unit := .fail .nestedTooDeep
  ⟨tooDeep, tooDeep, tooDeep, tooDeep⟩

end Enclosed

namespace Reading

/-- One full expression. -/
def expression (inner : Enclosed) : Reading Unit := do
  let first ← here
  if first.endsExpression then refuse .expression
  emit (.openExpression first.toSpan)
  inner.assignment
  emit (.closeExpression (← before).toSpan false)

/-! ## Argument lists and array initializers -/

/-- Arguments in parentheses, each announced before it is reported. -/
def arguments (inner : Enclosed) : Reading Unit := do
  let paren ← expect .openParen "("
  emit (.openArguments paren.toSpan)
  if !(← cursor).isAt .closeParen then
    repeatWhile do
      emit (.argument (← here).toSpan)
      expression inner
      comma
  let paren ← expect .closeParen ")"
  emit (.closeArguments paren.toSpan)

def optionalArguments (inner : Enclosed) : Reading Unit := do
  if (← cursor).isAt .openParen then arguments inner

/-- Values in braces; a comma may stand after the last one. -/
def arrayInitializer (inner : Enclosed) : Reading Unit := do
  let _ ← expect .openBrace "\x7b"
  repeatWhile do
    let c ← cursor
    if c.isAt .closeBrace then return false
    if c.isAt .openBrace then inner.arrayInitializer else expression inner
    comma
  let _ ← expect .closeBrace "\x7d"

/-! ## Operands -/

def dimension (inner : Enclosed) : Reading Bool := do
  if (← cursor).isAt .openBracket then
    let _ ← take
    if !(← cursor).isAt .closeBracket then expression inner
    let _ ← expect .closeBracket "]"
    return true
  else return false

/-- What follows the type of a created object: arguments and perhaps a class body, or dimensions and
perhaps an initializer. -/
def createdObject (inner : Enclosed) : Reading Unit := do
  let t ← here
  match t.kind with
  | .openParen =>
      arguments inner
      let brace ← here
      if brace.kind = .openBrace then
        emit (.unsupported brace.toSpan "anonymous class body")
        skipGroup
  | .openBracket =>
      repeatWhile (dimension inner)
      if (← cursor).isAt .openBrace then arrayInitializer inner
  | _ => refuse .argumentsOfNew

def creation (inner : Enclosed) : Reading Unit := do
  let _ ← take
  match Token.typeNameLength? (← cursor).tokens with
  | none => refuse .typeName
  | some n =>
      forward n
      createdObject inner

inductive OperandShape where
  | literal
  | lambda
  | parenthesized
  | creation
  /-- A name or a reference to the object itself, with or without arguments. -/
  | reference
  | typeLiteral (word : Text)
  | reserved (word : Text)
  | other
  deriving DecidableEq, Repr

def wordShape (c : Cursor) : OperandShape :=
  let word := c.here.text
  if word = "new".toList then .creation
  else if word = "this".toList || word = "super".toList then .reference
  else if word = "true".toList || word = "false".toList || word = "null".toList then .literal
  else if c.here.isPrimitive then .typeLiteral word
  else if !c.here.isName then .reserved word
  else if c.nextIs (·.isOperator "->".toList) then .lambda
  else .reference

/-- A group in parentheses is the head of a lambda when an arrow follows it. -/
def opensLambda (c : Cursor) : Bool :=
  match Token.groupLength? c.tokens with
  | none => false
  | some n => c.tokens[n]?.any (·.isOperator "->".toList)

def operandShape (c : Cursor) : OperandShape :=
  match c.here.kind with
  | .number | .string | .character => .literal
  | .openParen => if opensLambda c then .lambda else .parenthesized
  | .word => wordShape c
  | _ => .other

/-- A type as an operand has to be followed by `.class`. -/
def typeLiteral (word : Text) : Reading Unit := do
  unreportedType
  let c ← cursor
  if !(c.isAt .dot && c.nextIs (·.isWord "class".toList)) then fail (.typeInExpression word)

def operand (inner : Enclosed) : Reading Unit := do
  match operandShape (← cursor) with
  | .literal => let _ ← take
  | .lambda => lambda
  | .parenthesized =>
      let _ ← take
      expression inner
      let _ ← expect .closeParen ")"
  | .creation => creation inner
  | .reference =>
      let _ ← take
      optionalArguments inner
  | .typeLiteral word => typeLiteral word
  | .reserved word => fail (.keywordInExpression word)
  | .other => refuse .expression

/-! ## Selectors, operators and casts -/

/-- Type arguments between a dot and the name of a method. -/
def skipTypeArguments : Reading Unit := do
  let t ← here
  emit (.unsupported t.toSpan "explicit type argument list")
  match Token.typeArgumentsLength? (← cursor).tokens with
  | none => fail .unclosedTypeArguments
  | some n => forward n

/-- What follows a dot. -/
def memberAccess (inner : Enclosed) : Reading Unit := do
  let c ← cursor
  if c.isAtWord "new" then creation inner
  else if c.isAtWord "class" || c.isAtWord "this" || c.isAtWord "super" then let _ ← take
  else
    if c.isAtOperator "<" then skipTypeArguments
    let _ ← expectName
    optionalArguments inner

/-- One selector behind an operand: a member, an index, a method reference, or a step. -/
def selector (inner : Enclosed) : Reading Bool := do
  let c ← cursor
  if c.isAt .dot then
    let _ ← take
    memberAccess inner
    return true
  else if c.isAt .openBracket then
    let _ ← take
    expression inner
    let _ ← expect .closeBracket "]"
    return true
  else if c.isAtOperator "::" then
    let _ ← take
    if (← cursor).isAtWord "new" then let _ ← take
    else let _ ← expectName
    return true
  else if c.here.isOperatorIn Token.stepOperators then
    let _ ← take
    return true
  else return false

/-- Steps over a leading operator or a cast. -/
def leading : Reading Bool := do
  let c ← cursor
  if c.here.isOperatorIn Token.leadingOperators then
    let _ ← take
    return true
  else
    match Token.castLength? c.tokens with
    | some n =>
        forward n
        return true
    | none => return false

def unary (inner : Enclosed) : Reading Unit := do
  repeatWhile leading
  operand inner
  repeatWhile (selector inner)

/-- A type test; it may bind a name to the tested value. -/
def typeTest : Reading Unit := do
  let _ ← take
  if (← cursor).isAtWord "final" then let _ ← take
  unreportedType
  if (← here).isName then let _ ← take

/-- Operands joined by binary operators and type tests.  Precedence plays no role, since the operands
are not reported. -/
def binary (inner : Enclosed) : Reading Unit := do
  unary inner
  repeatWhile do
    let c ← cursor
    if c.isAtWord "instanceof" then
      typeTest
      return true
    else if c.here.isOperatorIn Token.binaryOperators then
      let _ ← take
      unary inner
      return true
    else return false

def conditional (inner : Enclosed) : Reading Unit := do
  binary inner
  if (← cursor).isAtOperator "?" then
    let _ ← take
    inner.branches

def assignment (inner : Enclosed) : Reading Unit := do
  conditional inner
  repeatWhile do
    if (← here).isOperatorIn Token.assignmentOperators then
      let _ ← take
      conditional inner
      return true
    else return false

def branches (inner : Enclosed) : Reading Unit := do
  assignment inner
  let _ ← expectOperator ":"
  conditional inner

end Reading

end CodeFrames
