import CodeFrames.Reading.Basic

/-!
Stepping over code that is not reported: bracketed groups, statements that frames do not have, and
lambda expressions.  Statements inside a skipped statement are stepped over the same way.
-/

namespace CodeFrames

namespace Reading

/-- Steps over the group that starts at the cursor. -/
def skipGroup : Reading Unit := do
  match Token.groupLength? (← cursor).tokens with
  | none => fail (.unbalanced (← here).found)
  | some n => forward n

/-- Steps over everything through the next semicolon outside brackets. -/
def skipToSemicolon : Reading Unit :=
  repeatWhile do
    let t ← here
    match t.kind with
    | .semicolon =>
        let _ ← take
        return false
    | .openParen | .openBracket | .openBrace =>
        skipGroup
        return true
    | .endOfInput | .closeBrace => refuse (.symbol ";")
    | _ =>
        let _ ← take
        return true

/-! ## Statements -/

/-- The shapes of statements, as far as finding their end goes. -/
inductive SkipShape where
  | group
  | empty
  | ifElse
  /-- A head in parentheses and a statement. -/
  | loop
  /-- A head in parentheses and a block. -/
  | headAndBlock
  | doWhile
  | tryCatch
  | typeDeclaration (word : Text)
  | labelled
  | simple
  deriving DecidableEq, Repr

def skipWords : List (Text × SkipShape) :=
  [("if".toList, .ifElse), ("for".toList, .loop), ("while".toList, .loop),
    ("switch".toList, .headAndBlock), ("synchronized".toList, .headAndBlock),
    ("do".toList, .doWhile), ("try".toList, .tryCatch)]

def isLabel (c : Cursor) : Bool := c.here.isName && c.nextIs (·.isOperator [':'])

def skipShape (c : Cursor) : SkipShape :=
  match c.here.kind with
  | .openBrace => .group
  | .semicolon => .empty
  | .word =>
      match skipWords.lookup c.here.text with
      | some shape => shape
      | none =>
          if c.here.isWordIn Token.typeWords then .typeDeclaration c.here.text
          else if isLabel c then .labelled
          else .simple
  | _ => .simple

/-- Steps over a head in parentheses or any other group after the word at the cursor. -/
def skipWordAndGroup : Reading Unit := do
  let _ ← take
  skipGroup

def skipTypeBody (word : Text) : Reading Unit := do
  repeatWhile do
    let t ← here
    if t.kind = .openBrace then return false
    else if t.isEnd then fail (.missingBody word)
    else
      let _ ← take
      return true
  skipGroup

def skipTry : Reading Unit := do
  let _ ← take
  if (← cursor).isAt .openParen then skipGroup
  skipGroup
  repeatWhile do
    if (← cursor).isAtWord "catch" then
      skipWordAndGroup
      skipGroup
      return true
    else return false
  if (← cursor).isAtWord "finally" then skipWordAndGroup

/-- Steps over one statement, with a token to spend for each statement that contains it. -/
def skipNested : List Token → Reading Unit
  | [] => skipToSemicolon
  | _ :: budget => do
      match skipShape (← cursor) with
      | .group => skipGroup
      | .empty => let _ ← take
      | .ifElse =>
          skipWordAndGroup
          skipNested budget
          if (← cursor).isAtWord "else" then
            let _ ← take
            skipNested budget
      | .loop =>
          skipWordAndGroup
          skipNested budget
      | .headAndBlock =>
          skipWordAndGroup
          skipGroup
      | .doWhile =>
          let _ ← take
          skipNested budget
          if (← cursor).isAtWord "while" then
            skipWordAndGroup
            let _ ← expect .semicolon ";"
          else fail .doWithoutWhile
      | .tryCatch => skipTry
      | .typeDeclaration word => skipTypeBody word
      | .labelled =>
          forward 2
          skipNested budget
      | .simple => skipToSemicolon

/-- Steps over one statement.  Each statement in it starts behind a token of its own, so the tokens
ahead are budget enough. -/
def skipStatement : Reading Unit := fun c => skipNested c.ahead c

/-! ## Lambda expressions -/

def endsLambdaBody (t : Token) : Bool :=
  match t.kind with
  | .comma | .closeParen | .closeBracket | .closeBrace | .semicolon | .endOfInput => true
  | _ => false

/-- Steps over the body of a lambda: a block, or everything up to the first comma, semicolon or
closing bracket outside brackets. -/
def skipLambdaBody : Reading Unit := do
  let t ← here
  if t.kind = .openBrace then skipGroup
  else if endsLambdaBody t then refuse .lambdaBody
  else
    repeatWhile do
      let t ← here
      if t.kind.isOpener then
        skipGroup
        return true
      else if endsLambdaBody t then return false
      else
        let _ ← take
        return true

/-- Reports a lambda and steps over its parameters, its arrow and its body. -/
def lambda : Reading Unit := do
  let head ← here
  emit (.unsupported head.toSpan "lambda expression")
  if head.kind = .openParen then skipGroup else let _ ← take
  let _ ← take
  skipLambdaBody

end Reading

end CodeFrames
