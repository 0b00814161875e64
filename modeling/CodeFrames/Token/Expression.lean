import CodeFrames.Token.TypeName

/-!
What can be told about expressions from a few tokens: operators, casts, and the words that start an
operand.
-/

namespace CodeFrames

namespace Token

def binaryOperators : List Text :=
  ["||", "&&", "|", "^", "&", "==", "!=", "<", ">", "<=", ">=", "<<", ">>", ">>>", "+", "-", "*",
    "/", "%"].map String.toList

def assignmentOperators : List Text :=
  ["=", "+=", "-=", "*=", "/=", "%=", "&=", "|=", "^=", "<<=", ">>=", ">>>="].map String.toList

def leadingOperators : List Text := ["+", "-", "!", "~", "++", "--"].map String.toList

def stepOperators : List Text := ["++", "--"].map String.toList

/-- The reserved words that an operand can start with. -/
def operandKeywords : List Text :=
  ["this", "super", "new", "true", "false", "null"].map String.toList

def isLiteral (t : Token) : Bool :=
  match t.kind with
  | .number | .string | .character => true
  | _ => false

/-- The tokens at which no expression can start although one may just have ended. -/
def endsExpression (t : Token) : Bool :=
  match t.kind with
  | .semicolon | .closeParen | .closeBracket | .closeBrace | .comma | .endOfInput => true
  | _ => false

/-- An operand of a cast can start here.  Behind a primitive type it may have any leading operator,
since no binary operator can stand there. -/
def startsCastOperand (primitive : Bool) (t : Token) : Bool :=
  t.isName || t.isWordIn operandKeywords || t.isLiteral || t.kind = .openParen ||
    t.isOperatorIn ["!".toList, "~".toList] || (primitive && t.isOperatorIn leadingOperators)

/-- The length of a type in parentheses that is followed by an operand. -/
def castLength? : List Token → Option Nat
  | paren :: type :: rest =>
      if paren.kind = .openParen then
        (typeLength? (type :: rest)).bind fun n =>
          match (type :: rest).drop n with
          | close :: operand :: _ =>
              if close.kind = .closeParen && startsCastOperand type.isPrimitive operand then
                some (n + 2)
              else none
          | _ => none
      else none
  | _ => none

end Token

end CodeFrames
