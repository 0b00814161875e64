import CodeFrames.Token

/-!
Bracketed groups.  Round, square and curly brackets are counted together: the group ends where as
many brackets have been closed as opened.
-/

namespace CodeFrames

namespace Token

/-- The number of tokens through the closer that ends the group, with `depth` groups open. -/
def groupLengthFrom? : Nat → List Token → Option Nat
  | _, [] => none
  | depth, t :: ts =>
      if t.kind.isOpener then (groupLengthFrom? (depth + 1) ts).map (· + 1)
      else if t.kind.isCloser then
        match depth with
        | 0 => none
        | 1 => some 1
        | depth + 2 => (groupLengthFrom? (depth + 1) ts).map (· + 1)
      else if t.isEnd then none
      else (groupLengthFrom? depth ts).map (· + 1)

/-- The number of tokens through the end of the first group. -/
def groupLength? (tokens : List Token) : Option Nat := groupLengthFrom? 0 tokens

end Token

end CodeFrames
