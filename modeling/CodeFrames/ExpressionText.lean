import CodeFrames.Token.Lexer

/-!
What frames make of the text of an expression: type tests are shown with the subtype operator, and a
statement that assigns is split into its two sides.  Both operations work on the tokens of a text, so
that literals, comments and longer names are left alone; a text that is not made of tokens stays as it
is and has no sides.
-/

namespace CodeFrames

namespace ExpressionText

def subtypeOperator : Text := "<:".toList

/-- Copies a text that starts at byte `copied` of the whole, with the subtype operator in place of
each of the given words. -/
def replaceWords (source : Text) (copied : Nat) : List Token → Text
  | [] => (Text.dropBytes? source copied).getD []
  | word :: words =>
      (Text.slice? source copied word.start).getD [] ++ subtypeOperator ++
        replaceWords source word.stop words

/-- The first plain assignment operator outside all brackets. -/
def topLevelAssignment? : Int → List Token → Option Token
  | _, [] => none
  | depth, t :: ts =>
      if t.kind.isOpener then topLevelAssignment? (depth + 1) ts
      else if t.kind.isCloser then topLevelAssignment? (depth - 1) ts
      else if t.isOperator ['='] && depth = 0 then some t
      else topLevelAssignment? depth ts

end ExpressionText

/-- The text with the subtype operator in place of each `instanceof`. -/
def withSubtypeOperator (source : Text) : Text :=
  match lex source with
  | .error _ => source
  | .ok tokens =>
      ExpressionText.replaceWords source 0 (tokens.filter (·.isWord "instanceof".toList))

/-- The target and the value of an assignment: the trimmed texts on the two sides of the first plain
assignment operator outside all brackets, unless the target is empty. -/
def assignmentSides? (source : Text) : Option (Text × Text) :=
  match lex source with
  | .error _ => none
  | .ok tokens =>
      match ExpressionText.topLevelAssignment? 0 tokens with
      | none => none
      | some sign =>
          let target := Text.trim ((Text.takeBytes? source sign.start).getD [])
          let value := Text.trim ((Text.dropBytes? source sign.stop).getD [])
          if target.isEmpty then none else some (target, value)

end CodeFrames
