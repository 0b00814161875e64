import CodeFrames.Text.Basic

/-!
Tokens of the source language.  A token carries its text together with the span it covers: the line
it starts on and the byte offsets of its first byte and of the byte after its last one.
-/

namespace CodeFrames

structure Span where
  line : Nat
  start : Nat
  stop : Nat
  deriving DecidableEq, Repr

namespace Token

inductive Kind where
  | word
  | number
  | string
  | character
  | operator
  | comment
  | openParen
  | closeParen
  | openBrace
  | closeBrace
  | openBracket
  | closeBracket
  | semicolon
  | comma
  | dot
  | ellipsis
  | atSign
  | endOfInput
  deriving DecidableEq, Repr

def Kind.isOpener : Kind → Bool
  | .openParen | .openBrace | .openBracket => true
  | _ => false

def Kind.isCloser : Kind → Bool
  | .closeParen | .closeBrace | .closeBracket => true
  | _ => false

end Token

structure Token extends Span where
  kind : Token.Kind
  text : Text
  deriving DecidableEq, Repr

namespace Token

def isWord (t : Token) (w : Text) : Bool := t.kind = .word && t.text = w

def isOperator (t : Token) (op : Text) : Bool := t.kind = .operator && t.text = op

def isOperatorIn (t : Token) (ops : List Text) : Bool := t.kind = .operator && ops.contains t.text

def isEnd (t : Token) : Bool := t.kind = .endOfInput

/-- The token as an error message shows it; the end of input has no text. -/
def found (t : Token) : Option Text := if t.isEnd then none else some t.text

/-- The span from the start of `first` to the end of `last`, on the line of `first`. -/
def through (first last : Token) : Span := ⟨first.line, first.start, last.stop⟩

end Token

end CodeFrames
