import CodeFrames.Token.Group
import CodeFrames.Token.Word

/-!
Modifiers and annotations in front of a declaration.
-/

namespace CodeFrames

namespace Token

/-- The number of tokens of words joined by dots; a dot at the end counts too. -/
def dottedWordsLength : List Token → Nat
  | [] => 0
  | t :: ts =>
      if t.isAnyWord then
        match ts with
        | dot :: ts => if dot.kind = .dot then dottedWordsLength ts + 2 else 1
        | [] => 1
      else 0

/-- The length of an annotation, given the tokens after its `@`: a dotted name, and a group in
parentheses if one follows and is closed. -/
def annotationRestLength (tokens : List Token) : Nat :=
  let name := dottedWordsLength tokens
  match tokens.drop name with
  | [] => name
  | t :: ts =>
      if t.kind = .openParen then name + (groupLength? (t :: ts)).getD 0 else name

/-- The number of tokens that the modifier at the start takes, zero when there is none.  A
`synchronized` before a parenthesis opens a statement, and `@interface` declares a type. -/
def modifierLength : List Token → Nat
  | [] => 0
  | t :: ts =>
      if t.isWordIn modifierWords then
        if t.isWord "synchronized".toList && (ts.head?.any (·.kind = .openParen)) then 0 else 1
      else if t.kind = .atSign && !(ts.head?.any (·.isWord "interface".toList)) then
        annotationRestLength ts + 1
      else 0

/-- The lengths of the modifiers at the start, of which `skip` tokens belong to one found earlier. -/
def modifierLengthsFrom : Nat → List Token → List Nat
  | _, [] => []
  | skip + 1, _ :: ts => modifierLengthsFrom skip ts
  | 0, t :: ts =>
      match modifierLength (t :: ts) with
      | 0 => []
      | n + 1 => (n + 1) :: modifierLengthsFrom n ts

def modifierLengths (tokens : List Token) : List Nat := modifierLengthsFrom 0 tokens

/-- The spans of consecutive pieces of the given lengths. -/
def spansOf : List Nat → List Token → List Span
  | [], _ => []
  | n :: lengths, tokens =>
      match tokens.take n with
      | [] => spansOf lengths (tokens.drop n)
      | t :: ts => t.through (ts.getLastD t) :: spansOf lengths (tokens.drop n)

end Token

end CodeFrames
