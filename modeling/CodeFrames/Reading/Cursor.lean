import CodeFrames.Token.Modifier
import CodeFrames.Token.TypeName

/-!
A position among the tokens of a source.  The cursor knows the token it stands on, the one before it,
the ones ahead, and the comments that have not been reported yet.
-/

namespace CodeFrames

structure Cursor where
  before : Token
  here : Token
  ahead : List Token
  comments : List Token
  deriving DecidableEq, Repr

namespace Cursor

/-- The cursor at the start of some tokens; the first token stands for the missing one before it. -/
def ofTokens (tokens : List Token) : Option Cursor :=
  match tokens.filter (·.kind ≠ .comment) with
  | [] => none
  | here :: ahead => some ⟨here, here, ahead, tokens.filter (·.kind = .comment)⟩

/-- The token at the cursor and all tokens ahead. -/
def tokens (c : Cursor) : List Token := c.here :: c.ahead

/-- One token further; the cursor stays on the last token. -/
def advance (c : Cursor) : Cursor :=
  match c.ahead with
  | [] => c
  | t :: ts => { c with before := c.here, here := t, ahead := ts }

def forward : Nat → Cursor → Cursor
  | 0, c => c
  | n + 1, c => forward n c.advance

def isAt (c : Cursor) (kind : Token.Kind) : Bool := c.here.kind = kind

def isAtWord (c : Cursor) (word : String) : Bool := c.here.isWord word.toList

def isAtOperator (c : Cursor) (operator : String) : Bool := c.here.isOperator operator.toList

/-- A test of the token after the one at the cursor. -/
def nextIs (c : Cursor) (p : Token → Bool) : Bool := c.ahead.head?.any p

/-- The number of tokens that the modifiers at the cursor take. -/
def modifierCount (c : Cursor) : Nat := (Token.modifierLengths c.tokens).foldr (· + ·) 0

end Cursor

end CodeFrames
