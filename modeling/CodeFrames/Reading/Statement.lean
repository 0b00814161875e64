import CodeFrames.Reading.Expression

/-!
Reading statements.  A statement is told by its first tokens; those that frames do not have are
reported as unsupported and stepped over.  `Enclosed.within` ties the productions together, one
nesting level inside the other.
-/

namespace CodeFrames

namespace Reading

/-! ## Telling statements apart -/

inductive StatementShape where
  | block
  | empty
  | ifChain
  | whileLoop
  | returned
  | jump (jump : Jump)
  | thrown
  | misplaced (fault : Fault)
  | unsupported (construct : String)
  | locals
  | expression
  deriving DecidableEq, Repr

def unsupportedStatement (word : String) : Text × StatementShape :=
  (word.toList, .unsupported ("'" ++ word ++ "' statement"))

def misplacedWord (word : String) : Text × StatementShape :=
  (word.toList, .misplaced (.outsideStatement word.toList))

/-- The statements that their first word decides. -/
def statementWords : List (Text × StatementShape) :=
  [("if".toList, .ifChain), ("while".toList, .whileLoop), ("return".toList, .returned),
    ("break".toList, .jump .breakLoop), ("continue".toList, .jump .continueLoop),
    ("throw".toList, .thrown), ("else".toList, .misplaced .elseWithoutIf)] ++
  ["case", "default", "catch", "finally"].map misplacedWord ++
  ["for", "do", "switch", "try", "synchronized", "assert"].map unsupportedStatement

/-- A type and a name, and then what can follow the name of a variable. -/
def declaresVariable (tokens : List Token) : Bool :=
  match Token.typeLength? tokens with
  | none => false
  | some n =>
      match tokens.drop n with
      | name :: next :: _ =>
          name.isName &&
            (next.isOperator ['='] || next.kind = .comma || next.kind = .semicolon)
      | _ => false

/-- A declaration of variables: modifiers, or a type and a name. -/
def opensVariables (c : Cursor) : Bool :=
  !(Token.modifierLengths c.tokens).isEmpty || declaresVariable c.tokens

def wordStatementShape (c : Cursor) : StatementShape :=
  match statementWords.lookup c.here.text with
  | some shape => shape
  | none =>
      if c.here.isWordIn Token.typeWords && c.nextIs Token.isAnyWord then
        .unsupported ("local '" ++ String.ofList c.here.text ++ "' declaration")
      else if isLabel c then .unsupported "labelled statement"
      else if opensVariables c then .locals
      else .expression

def statementShape (c : Cursor) : StatementShape :=
  match c.here.kind with
  | .openBrace => .block
  | .semicolon => .empty
  | .word => wordStatementShape c
  | .atSign => .locals
  | _ => .expression

/-! ## Blocks and bodies -/

/-- Statements through the closing brace. -/
def blockRest (inner : Enclosed) : Reading Unit := do
  repeatWhile do
    let t ← here
    if t.kind = .closeBrace then return false
    if t.isEnd then fail .unclosedBlock
    inner.statement
    return true
  reportComments
  let brace ← take
  emit (.closeBlock brace.toSpan)

def block (inner : Enclosed) : Reading Unit := do
  let brace ← expect .openBrace "\x7b"
  emit (.openBlock brace.toSpan)
  blockRest inner

/-- The body of a branch or a loop.  A lone statement is reported as a block of its own. -/
def body (inner : Enclosed) : Reading Unit := do
  if (← cursor).isAt .openBrace then block inner
  else
    emit (.openBlock (← here).toSpan)
    inner.statement
    emit (.closeBlock (← before).toSpan)

/-- An expression in parentheses that are not part of it. -/
def condition (inner : Enclosed) : Reading Unit := do
  let _ ← expect .openParen "("
  expression inner
  let _ ← expect .closeParen ")"

/-! ## Branches and loops -/

/-- One further branch of an if chain, if there is one; after an `else` there is no other. -/
def furtherBranch (inner : Enclosed) : Reading Bool := do
  let c ← cursor
  if !c.isAtWord "else" then return false
  if c.nextIs (·.isWord "if".toList) then
    let _ ← take
    let keyword ← take
    emit (.elseIf keyword.toSpan)
    condition inner
    body inner
    return true
  else
    let keyword ← take
    emit (.otherwise keyword.toSpan)
    body inner
    return false

def ifChain (inner : Enclosed) : Reading Unit := do
  let keyword ← take
  emit (.openIf keyword.toSpan)
  condition inner
  body inner
  repeatWhile (furtherBranch inner)
  emit (.closeIf (← before).toSpan)

def whileLoop (inner : Enclosed) : Reading Unit := do
  let keyword ← take
  emit (.openWhile keyword.toSpan)
  condition inner
  body inner
  emit (.closeWhile (← before).toSpan)

/-! ## Simple statements -/

def semicolon : Reading Token := expect .semicolon ";"

def returned (inner : Enclosed) : Reading Unit := do
  let keyword ← take
  let hasValue := !(← cursor).isAt .semicolon
  emit (.returned keyword.toSpan hasValue)
  if hasValue then expression inner
  let _ ← semicolon

def label : Reading (Option Span) := do
  if (← here).isAnyWord then
    let name ← expectName
    return some name.toSpan
  else return none

def jumped (jump : Jump) : Reading Unit := do
  let keyword ← take
  emit (.jumped jump keyword.toSpan (← label))
  let _ ← semicolon

def thrown (inner : Enclosed) : Reading Unit := do
  let keyword ← take
  emit (.thrown keyword.toSpan)
  expression inner
  let _ ← semicolon

def expressionStatement (inner : Enclosed) : Reading Unit := do
  emit (.expressionStatement (← here).toSpan)
  expression inner
  let _ ← semicolon

/-! ## Variables -/

/-- The value of a variable.  An array initializer counts as one expression. -/
def variableValue (inner : Enclosed) : Reading Unit := do
  let first ← here
  if first.kind = .openBrace then
    emit (.openExpression first.toSpan)
    arrayInitializer inner
    emit (.closeExpression (← before).toSpan false)
  else expression inner

def declarator (inner : Enclosed) : Reading Bool := do
  let name ← expectName
  let c ← cursor
  if c.isAt .openBracket then fail .dimensionsAfterName
  let hasValue := c.isAtOperator "="
  emit (.declarator name.toSpan hasValue)
  if hasValue then
    let _ ← take
    variableValue inner
  comma

def localVariables (inner : Enclosed) : Reading Unit := do
  let first ← here
  let spans ← modifiers
  typeName
  emit (.openVariables first.toSpan spans)
  repeatWhile (declarator inner)
  let semicolon ← semicolon
  emit (.closeVariables semicolon.toSpan)

/-! ## Statements -/

def unsupported (construct : String) : Reading Unit := do
  emit (.unsupported (← here).toSpan construct)
  skipStatement

def statement (inner : Enclosed) : Reading Unit := do
  reportComments
  match statementShape (← cursor) with
  | .block => block inner
  | .empty =>
      let semicolon ← take
      emit (.emptyStatement semicolon.toSpan)
  | .ifChain => ifChain inner
  | .whileLoop => whileLoop inner
  | .returned => returned inner
  | .jump jump => jumped jump
  | .thrown => thrown inner
  | .misplaced fault => fail fault
  | .unsupported construct => unsupported construct
  | .locals => localVariables inner
  | .expression => expressionStatement inner

end Reading

/-- The enclosed productions with so many nesting levels to go. -/
def Enclosed.within : Nat → Enclosed
  | 0 => refused
  | levels + 1 =>
      let inner := within levels
      ⟨Reading.assignment inner, Reading.branches inner, Reading.arrayInitializer inner,
        Reading.statement inner⟩

end CodeFrames
