import CodeFrames.Text.Basic

/-!
What can be wrong with a source text.  Each fault is a cause; `Fault.message` is the only place that
words it.
-/

namespace CodeFrames

/-- Expressions and statements may be nested this deep. -/
def nestingLimit : Nat := 128

/-- What the grammar asks for where something else was found. -/
inductive Expectation where
  | symbol (text : String)
  | identifier
  | expression
  | typeName
  | lambdaBody
  | argumentsOfNew
  deriving DecidableEq, Repr

def Expectation.describe : Expectation → String
  | .symbol text => "'" ++ text ++ "'"
  | .identifier => "an identifier"
  | .expression => "an expression"
  | .typeName => "a type"
  | .lambdaBody => "a lambda body"
  | .argumentsOfNew => "'(' or '[' after 'new'"

inductive Fault where
  | unterminatedComment
  | textBlock
  | unterminatedString
  | unterminatedCharacter
  | unexpectedCharacter (c : Char)
  /-- `found` is `none` at the end of input. -/
  | expected (what : Expectation) (found : Option Text)
  | unbalanced (found : Option Text)
  | unclosedBlock
  | elseWithoutIf
  | outsideStatement (word : Text)
  | dimensionsAfterName
  | doWithoutWhile
  | missingBody (word : Text)
  | typeInExpression (word : Text)
  | keywordInExpression (word : Text)
  | unclosedTypeArguments
  | unclosedTypeParameters
  | nestedTooDeep
  deriving DecidableEq, Repr

def quoted (t : Text) : String := "'" ++ String.ofList t ++ "'"

def describeFound : Option Text → String
  | none => "end of input"
  | some t => quoted t

def Fault.message : Fault → String
  | .unterminatedComment => "unterminated block comment"
  | .textBlock => "text blocks are not supported"
  | .unterminatedString => "unterminated string literal"
  | .unterminatedCharacter => "unterminated character literal"
  | .unexpectedCharacter c => "unexpected character " ++ quoted [c]
  | .expected what found => "expected " ++ what.describe ++ ", found " ++ describeFound found
  | .unbalanced found => "unbalanced " ++ describeFound found
  | .unclosedBlock => "unclosed block: expected '\x7d'"
  | .elseWithoutIf => "'else' without 'if'"
  | .outsideStatement word => quoted word ++ " outside of its statement"
  | .dimensionsAfterName =>
      "array dimensions after a variable name are not supported; put them on the type"
  | .doWithoutWhile => "expected 'while' after 'do' body"
  | .missingBody word => "expected the body of " ++ quoted word
  | .typeInExpression word => "unexpected type " ++ quoted word ++ " in expression"
  | .keywordInExpression word => "unexpected keyword " ++ quoted word ++ " in expression"
  | .unclosedTypeArguments => "unclosed type argument list"
  | .unclosedTypeParameters => "unclosed type parameter list"
  | .nestedTooDeep => "nesting deeper than " ++ toString nestingLimit ++ " levels"

/-- A fault together with the line it was found on. -/
structure SourceError where
  line : Nat
  fault : Fault
  deriving DecidableEq, Repr

end CodeFrames
