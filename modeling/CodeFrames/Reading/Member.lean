import CodeFrames.Reading.Statement
import CodeFrames.Token.Lexer

/-!
Reading a whole source: a sequence of members, each a method, a constructor, a statement, or a
declaration that frames do not have.
-/

namespace CodeFrames

namespace Reading

/-! ## Telling members apart -/

inductive MemberShape where
  | directive (word : Text)
  /-- The token `head` places ahead is reported, and what starts `skipped` places ahead is stepped
  over like a statement. -/
  | unsupported (construct : String) (head skipped : Nat)
  | constructor
  | method
  | statement
  deriving DecidableEq, Repr

/-- A name with parameters, and then a body or a throws clause. -/
def declaresConstructor : List Token → Bool
  | name :: rest =>
      name.isName && (rest.head?.any (·.kind = .openParen)) &&
        match Token.groupLength? rest with
        | none => false
        | some n => rest[n]?.any fun t => t.kind = .openBrace || t.isWord "throws".toList
  | [] => false

/-- Type parameters perhaps, a type, a name, and a parenthesis. -/
def declaresMethod (tokens : List Token) : Bool :=
  match Token.optionalArgumentsLength? tokens with
  | none => false
  | some parameters =>
      let rest := tokens.drop parameters
      match Token.typeLength? rest with
      | none => false
      | some n =>
          match rest.drop n with
          | name :: paren :: _ => name.isName && paren.kind = .openParen
          | _ => false

def declarationShape (modifiers : Nat) (tokens : List Token) : MemberShape :=
  match tokens with
  | [] => .statement
  | head :: rest =>
      if head.isWordIn Token.typeWords && rest.head?.any Token.isAnyWord then
        .unsupported ("'" ++ String.ofList head.text ++ "' declaration") modifiers modifiers
      else if head.kind = .atSign then
        .unsupported "annotation type declaration" modifiers (modifiers + 1)
      else if declaresConstructor tokens then .constructor
      else if declaresMethod tokens then .method
      else .statement

def memberShape (c : Cursor) : MemberShape :=
  if c.here.isWordIn ["import".toList, "package".toList] then .directive c.here.text
  else declarationShape c.modifierCount (c.tokens.drop c.modifierCount)

/-! ## Headers -/

def parameter : Reading Bool := do
  let _ ← modifiers
  typeName
  let c ← cursor
  let ellipsis ← if c.isAt .ellipsis then some <$> take else pure none
  let name ← expectName
  emit (.parameter name.toSpan (ellipsis.map Token.toSpan))
  comma

def parameters : Reading Unit := do
  let _ ← expect .openParen "("
  if !(← cursor).isAt .closeParen then repeatWhile parameter
  let _ ← expect .closeParen ")"

def throwsClause : Reading Unit := do
  if (← cursor).isAtWord "throws" then
    let keyword ← take
    emit (.openThrows keyword.toSpan)
    repeatWhile do
      typeName
      comma
    emit .closeThrows

def typeParameters : Reading Unit := do
  let t ← here
  if t.isOperator ['<'] then
    match Token.typeArgumentsLength? (← cursor).tokens with
    | none => fail .unclosedTypeParameters
    | some n =>
        emit (.unsupported t.toSpan "generic method type parameters")
        forward n

/-! ## Members -/

def method (inner : Enclosed) : Reading Unit := do
  let first ← here
  let spans ← modifiers
  typeParameters
  typeName
  let name ← expectName
  emit (.openMethod first.toSpan spans name.toSpan)
  parameters
  throwsClause
  if (← cursor).isAt .semicolon then
    let semicolon ← take
    emit (.closeDeclaration semicolon.toSpan false)
  else
    block inner
    emit (.closeDeclaration (← before).toSpan true)

/-- The call of another constructor at the start of a constructor's body.  It is announced as a
statement like any other. -/
def delegateCall (inner : Enclosed) : Reading Unit := do
  let keyword ← here
  emit (.expressionStatement keyword.toSpan)
  emit (.openExpression keyword.toSpan)
  emit (.delegateCall keyword.toSpan)
  let _ ← take
  arguments inner
  emit (.closeExpression (← before).toSpan false)
  let _ ← semicolon

def opensDelegateCall (c : Cursor) : Bool :=
  (c.isAtWord "super" || c.isAtWord "this") && c.nextIs (·.kind = .openParen)

def constructor (inner : Enclosed) : Reading Unit := do
  let first ← here
  let spans ← modifiers
  let name ← expectName
  emit (.openConstructor first.toSpan spans name.toSpan)
  parameters
  throwsClause
  let brace ← expect .openBrace "\x7b"
  emit (.openBlock brace.toSpan)
  reportComments
  if opensDelegateCall (← cursor) then delegateCall inner
  blockRest inner
  emit (.closeDeclaration (← before).toSpan true)

def directive (word : Text) : Reading Unit := do
  emit (.unsupported (← here).toSpan ("'" ++ String.ofList word ++ "' declaration"))
  skipToSemicolon

def unsupportedMember (construct : String) (head skipped : Nat) : Reading Unit := do
  emit (.unsupported ((← cursor).forward head).here.toSpan construct)
  forward skipped
  skipStatement

def member (inner : Enclosed) : Reading Unit := do
  match memberShape (← cursor) with
  | .directive word => directive word
  | .unsupported construct head skipped => unsupportedMember construct head skipped
  | .constructor => constructor inner
  | .method => method inner
  | .statement => inner.statement

def members (inner : Enclosed) : Reading Unit := do
  repeatWhile do
    if (← here).isEnd then return false
    reportComments
    member inner
    return true
  reportComments

end Reading

/-- The events of a source text, and the fault that ended the reading if it did not get to the end. -/
def readEvents (source : Text) : List Event × Except SourceError Unit :=
  match lex source with
  | .error e => ([], .error e)
  | .ok tokens =>
      match Cursor.ofTokens tokens with
      | none => ([], .ok ())
      | some cursor =>
          let (events, result) := Reading.members (Enclosed.within nestingLimit) cursor
          (events, result.map fun _ => ())

end CodeFrames
