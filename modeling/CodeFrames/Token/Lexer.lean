import CodeFrames.Fault
import CodeFrames.Text.Alphabetic
import CodeFrames.Text.Blank
import CodeFrames.Token

/-!
Splitting a source text into tokens.  `lexeme` decides what stands at the start of a text and how
many characters it takes; `tokensFrom` walks the text once, keeping the position, and asks for a new
lexeme wherever the last one has ended.
-/

namespace CodeFrames

namespace Token

/-! ## Lexemes -/

/-- What stands at the start of a text: a blank character, or a token of so many characters. -/
inductive Lexeme where
  | blank
  | token (kind : Kind) (size : Nat)
  deriving DecidableEq, Repr

/-- The number of characters through the first `*/`. -/
def commentLength? : Text → Option Nat
  | [] => none
  | '*' :: '/' :: _ => some 2
  | _ :: t => (commentLength? t).map (· + 1)

/-- The number of characters through the closing quote, given the text after the opening one.  A
backslash takes the next character with it, and a literal does not cross a line end. -/
def literalLength? (quote : Char) : Text → Option Nat
  | [] => none
  | '\\' :: t =>
      match t with
      | [] => none
      | _ :: t => (literalLength? quote t).map (· + 2)
  | c :: t =>
      if c = '\n' then none
      else if c = quote then some 1
      else (literalLength? quote t).map (· + 1)

def isDigitOf : Option Char → Bool
  | some c => c.isDigit
  | none => false

/-- The number of characters of a numeric literal.  Letters, digits and underscores belong to it; a
decimal exponent may have a sign; a dot belongs to it before a digit, and once at the end of a
decimal literal unless a letter or another dot follows. -/
def numberLength (hex seenDot started : Bool) : Text → Nat
  | [] => 0
  | c :: t =>
      if c.isAlphanum || c = '_' then
        match t with
        | sign :: t =>
            if !hex && (c = 'e' || c = 'E') && (sign = '+' || sign = '-') then
              numberLength hex seenDot true t + 2
            else numberLength hex seenDot true (sign :: t) + 1
        | [] => 1
      else if c = '.' && isDigitOf t.head? then numberLength hex true true t + 1
      else if c = '.' && started && !seenDot && !hex then
        match t.head? with
        | some d => if d.isAlpha || d = '.' then 0 else numberLength hex true true t + 1
        | none => 1
      else 0

def isHexadecimal : Text → Bool
  | '0' :: 'x' :: _ | '0' :: 'X' :: _ => true
  | _ => false

def startsName (c : Char) : Bool := Text.isAlphabetic c || c = '_' || c = '$'

def continuesName (c : Char) : Bool := Text.isAlphanumeric c || c = '_' || c = '$'

/-- The operators, each before every operator that it starts with. -/
def operators : List Text :=
  [">>>=", "<<=", ">>=", ">>>", "->", "::", "++", "--", "&&", "||", "==", "!=", "<=", ">=", "+=",
    "-=", "*=", "/=", "%=", "&=", "|=", "^=", "<<", ">>", "+", "-", "*", "/", "%", "=", "<", ">",
    "!", "~", "?", ":", "&", "|", "^"].map String.toList

def punctuation? : Text → Option Lexeme
  | '(' :: _ => some (.token .openParen 1)
  | ')' :: _ => some (.token .closeParen 1)
  | '{' :: _ => some (.token .openBrace 1)
  | '}' :: _ => some (.token .closeBrace 1)
  | '[' :: _ => some (.token .openBracket 1)
  | ']' :: _ => some (.token .closeBracket 1)
  | ';' :: _ => some (.token .semicolon 1)
  | ',' :: _ => some (.token .comma 1)
  | '@' :: _ => some (.token .atSign 1)
  | '.' :: '.' :: '.' :: _ => some (.token .ellipsis 3)
  | '.' :: _ => some (.token .dot 1)
  | _ => none

def operator? (t : Text) : Option Lexeme :=
  (operators.find? (·.isPrefixOf t)).map fun op => .token .operator op.length

/-- The lexeme of a string or character literal, given the quote and the text after it. -/
def literal (quote : Char) (t : Text) : Except Fault Lexeme :=
  if quote = '"' then
    if ['"', '"'].isPrefixOf t then .error .textBlock
    else
      match literalLength? quote t with
      | some n => .ok (.token .string (n + 1))
      | none => .error .unterminatedString
  else
    match literalLength? quote t with
    | some n => .ok (.token .character (n + 1))
    | none => .error .unterminatedCharacter

def lineComment (t : Text) : Lexeme := .token .comment (t.takeWhile (· ≠ '\n')).length

def blockComment (t : Text) : Except Fault Lexeme :=
  match commentLength? t with
  | some n => .ok (.token .comment (n + 2))
  | none => .error .unterminatedComment

/-- The lexeme at the start of the text `c :: t`. -/
def lexeme (c : Char) (t : Text) : Except Fault Lexeme :=
  if c = '/' && t.head? = some '/' then .ok (lineComment (c :: t))
  else if c = '/' && t.head? = some '*' then blockComment t.tail
  else if Text.isBlank c then .ok .blank
  else if c = '"' || c = '\'' then literal c t
  else if c.isDigit || (c = '.' && isDigitOf t.head?) then
    .ok (.token .number (numberLength (isHexadecimal (c :: t)) false false (c :: t)))
  else if startsName c then .ok (.token .word ((t.takeWhile continuesName).length + 1))
  else
    match (punctuation? (c :: t)).or (operator? (c :: t)) with
    | some l => .ok l
    | none => .error (.unexpectedCharacter c)

/-! ## Positions and the walk over the text -/

structure Position where
  line : Nat
  offset : Nat
  deriving DecidableEq, Repr

def Position.afterBlank (p : Position) (c : Char) : Position :=
  ⟨if c = '\n' then p.line + 1 else p.line, p.offset + c.utf8Size⟩

/-- Comments count their line ends.  No other token has one, apart from a literal that takes it in
behind a backslash, and there it does not start a new line. -/
def Position.afterToken (p : Position) (kind : Kind) (text : Text) : Position :=
  ⟨if kind = .comment then p.line + text.count '\n' else p.line, p.offset + Text.byteSize text⟩

def ofText (kind : Kind) (text : Text) (p : Position) : Token where
  line := p.line
  start := p.offset
  stop := (p.afterToken kind text).offset
  kind := kind
  text := text

/-- The tokens of a text whose first `skip` characters belong to a token found earlier; `p` is the
position after those characters. -/
def tokensFrom : Nat → Position → Text → Except SourceError (List Token)
  | _, p, [] => .ok [ofText .endOfInput [] p]
  | skip + 1, p, _ :: t => tokensFrom skip p t
  | 0, p, c :: t =>
      match lexeme c t with
      | .error fault => .error ⟨p.line, fault⟩
      | .ok .blank => tokensFrom 0 (p.afterBlank c) t
      | .ok (.token kind size) =>
          let text := (c :: t).take size
          (tokensFrom (size - 1) (p.afterToken kind text) t).map (ofText kind text p :: ·)

end Token

/-- All tokens of a source text, comments included; the last one marks the end of input. -/
def lex (source : Text) : Except SourceError (List Token) := Token.tokensFrom 0 ⟨1, 0⟩ source

end CodeFrames
