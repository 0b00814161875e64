import CodeFrames.Text.Natural

/-!
The text of a configuration file: tables of keys with values.  A line is empty, a table's name in square
brackets, or a key, an equals sign and a value; a comment may end it.  A value is a text in double
quotes without escapes, an integer, or a truth value.
-/

namespace CodeFrames

namespace ConfigText

inductive Value where
  | text (value : Text)
  | integer (value : Int)
  | bool (value : Bool)
  deriving DecidableEq, Repr

inductive Line where
  | empty
  | table (name : Text)
  | entry (key : Text) (value : Value)
  deriving DecidableEq, Repr

/-! ## Characters -/

def isGap (c : Char) : Bool := c = ' ' || c = '\t'

def isKeyChar (c : Char) : Bool := c.isAlphanum || c = '-' || c = '_'

/-- A control character other than the tab, which neither a text nor a comment can hold. -/
def isControl (c : Char) : Bool := (c.toNat < 32 && c != '\t') || c.toNat = 127

def skipGap (t : Text) : Text := t.dropWhile isGap

/-- Nothing is left of a line but blanks and a comment. -/
def endsLine (t : Text) : Bool :=
  match skipGap t with
  | [] => true
  | '#' :: t => !t.any isControl
  | _ => false

/-! ## Values -/

/-- Digits in which single underscores may stand between two digits. -/
def withoutUnderscores? : Text → Option Text
  | [] => none
  | c :: t =>
      if c = '_' then none
      else
        match t with
        | [] => some [c]
        | '_' :: t => (withoutUnderscores? t).map (c :: ·)
        | t => (withoutUnderscores? t).map (c :: ·)

/-- Digits of a base, perhaps with underscores among them. -/
def grouped? (base : Nat) (t : Text) : Option Nat :=
  (withoutUnderscores? t).bind (Text.digits? base)

/-- A decimal number without superfluous zeros in front. -/
def decimal? : Text → Option Nat
  | '0' :: _ :: _ => none
  | t => grouped? 10 t

/-- A number without a sign: behind the mark of base sixteen, eight or two, or else in decimal. -/
def unsigned? : Text → Option Nat
  | '0' :: 'x' :: t => grouped? 16 t
  | '0' :: 'o' :: t => grouped? 8 t
  | '0' :: 'b' :: t => grouped? 2 t
  | t => decimal? t

/-- An integer of at most 64 bits, sign included.  Only a decimal number has a sign. -/
def integer? (t : Text) : Option Int :=
  match t with
  | '-' :: t => ((decimal? t).filter (· ≤ Int64.size / 2)).map fun n => -(n : Int)
  | '+' :: t => ((decimal? t).filter (· < Int64.size / 2)).map Int.ofNat
  | t => ((unsigned? t).filter (· < Int64.size / 2)).map Int.ofNat

def word? (t : Text) : Option Value :=
  if t = "true".toList then some (.bool true)
  else if t = "false".toList then some (.bool false)
  else (integer? t).map .integer

def endsWord (c : Char) : Bool := isGap c || c = '#'

/-- The value that makes up the rest of a line. -/
def value? (t : Text) : Option Value :=
  match t with
  | '"' :: t =>
      let text := t.takeWhile (· ≠ '"')
      if text.any (fun c => isControl c || c = '\\') then none
      else
        match t.dropWhile (· ≠ '"') with
        | '"' :: rest => if endsLine rest then some (.text text) else none
        | _ => none
  | t =>
      if endsLine (t.dropWhile (!endsWord ·)) then word? (t.takeWhile (!endsWord ·)) else none

/-! ## Lines -/

/-- A text without the byte order mark that may stand in front of it. -/
def withoutMark : Text → Text
  | '\ufeff' :: t => t
  | t => t

/-- A key at the start of a text, blanks around it left out, and what follows it. -/
def key? (t : Text) : Option (Text × Text) :=
  let t := skipGap t
  let key := t.takeWhile isKeyChar
  if key.isEmpty then none else some (key, skipGap (t.dropWhile isKeyChar))

def line? (t : Text) : Option Line :=
  if endsLine t then some .empty
  else
    match skipGap t with
    | '[' :: t =>
        match key? t with
        | some (name, ']' :: rest) => if endsLine rest then some (.table name) else none
        | _ => none
    | t =>
        match key? t with
        | some (key, '=' :: rest) => (value? (skipGap rest)).map (.entry key)
        | _ => none

end ConfigText

end CodeFrames
