import CodeFrames.Text.Basic

/-!
Data as JSON text.  An object keeps its fields in the order in which they are given.  The compact
layout has no blanks; the wide layout has one item per line and two spaces for each level.
-/

namespace CodeFrames

inductive Json where
  | null
  | bool (value : Bool)
  | number (value : Nat)
  | text (value : Text)
  | array (items : List Json)
  | object (fields : List (Text × Json))
  deriving Repr

namespace Json

inductive Layout where
  | compact
  | wide
  deriving DecidableEq, Repr

/-! ## Strings -/

def hexDigits (n : Nat) : Text :=
  let digits := Nat.toDigits 16 n
  List.replicate (4 - digits.length) '0' ++ digits

def escapeChar (c : Char) : Text :=
  if c = '"' then ['\\', '"']
  else if c = '\\' then ['\\', '\\']
  else if c = '\n' then ['\\', 'n']
  else if c = '\r' then ['\\', 'r']
  else if c = '\t' then ['\\', 't']
  else if c.toNat = 8 then ['\\', 'b']
  else if c.toNat = 12 then ['\\', 'f']
  else if c.toNat < 32 then '\\' :: 'u' :: hexDigits c.toNat
  else [c]

def quote (t : Text) : Text := '"' :: t.flatMap escapeChar ++ ['"']

/-! ## Layout -/

def newLine : Layout → Nat → Text
  | .compact, _ => []
  | .wide, depth => '\n' :: List.replicate (2 * depth) ' '

def colon : Layout → Text
  | .compact => [':']
  | .wide => [':', ' ']

/-- Items between two brackets, each on a line of its own in the wide layout. -/
def enclose (layout : Layout) (depth : Nat) (opener closer : Char) : List Text → Text
  | [] => [opener, closer]
  | items =>
      opener :: newLine layout (depth + 1) ++
        Text.join (',' :: newLine layout (depth + 1)) items ++ newLine layout depth ++ [closer]

mutual

def render (layout : Layout) (depth : Nat) : Json → Text
  | .null => "null".toList
  | .bool true => "true".toList
  | .bool false => "false".toList
  | .number n => (toString n).toList
  | .text t => quote t
  | .array items => enclose layout depth '[' ']' (renderItems layout (depth + 1) items)
  | .object fields => enclose layout depth '{' '}' (renderFields layout (depth + 1) fields)

def renderItems (layout : Layout) (depth : Nat) : List Json → List Text
  | [] => []
  | item :: items => render layout depth item :: renderItems layout depth items

def renderFields (layout : Layout) (depth : Nat) : List (Text × Json) → List Text
  | [] => []
  | (key, value) :: fields =>
      (quote key ++ colon layout ++ render layout depth value) :: renderFields layout depth fields

end

def print (layout : Layout) (j : Json) : Text := render layout 0 j

/-! ## Building values -/

def ofString (s : String) : Json := .text s.toList

def ofOption {α : Type} (f : α → Json) : Option α → Json
  | none => .null
  | some a => f a

def ofFields (fields : List (String × Json)) : Json :=
  .object (fields.map fun (key, value) => (key.toList, value))

end Json

end CodeFrames
