import CodeFrames.Element
import CodeFrames.Token

/-!
The events by which a source text is described to whoever builds something from it.  An event names a
construct and the spans that matter for it; the texts are in the source.

An expression is one `openExpression`, any number of inner expressions and argument lists, and one
`closeExpression`.  A condition follows its `openIf`, `elseIf` or `openWhile`, and a block follows the
condition; a value follows `returned`, `declarator` and `thrown` where they announce one.  Types come
before what they belong to.
-/

namespace CodeFrames

inductive Event where
  | openExpression (first : Span)
  | closeExpression (last : Span) (isEmpty : Bool)
  | openArguments (paren : Span)
  | argument (first : Span)
  | closeArguments (paren : Span)
  | openBlock (first : Span)
  | closeBlock (last : Span)
  | openIf (keyword : Span)
  | elseIf (keyword : Span)
  | otherwise (keyword : Span)
  | closeIf (last : Span)
  | openWhile (keyword : Span)
  | closeWhile (last : Span)
  | returned (keyword : Span) (hasValue : Bool)
  | jumped (jump : Jump) (keyword : Span) (label : Option Span)
  | thrown (keyword : Span)
  | emptyStatement (semicolon : Span)
  | expressionStatement (first : Span)
  | unsupported (place : Span) (construct : String)
  | typeName (first last : Span)
  | openVariables (first : Span) (modifiers : List Span)
  | declarator (name : Span) (hasValue : Bool)
  | closeVariables (semicolon : Span)
  | openMethod (first : Span) (modifiers : List Span) (name : Span)
  | openConstructor (first : Span) (modifiers : List Span) (name : Span)
  | parameter (name : Span) (ellipsis : Option Span)
  | openThrows (keyword : Span)
  | closeThrows
  | delegateCall (keyword : Span)
  | closeDeclaration (last : Span) (hasBody : Bool)
  | comment (whole : Span)
  deriving DecidableEq, Repr

end CodeFrames
