import CodeFrames.Conversion
import CodeFrames.Path

/-!
A library of sources in memory.  A source is found under every spelling of its path.
-/

namespace CodeFrames

structure Library where
  /-- The latest insertion comes first. -/
  entries : List (List Path.Step × Text)
  deriving Repr

namespace Library

def empty : Library := ⟨[]⟩

def insert (l : Library) (path text : Text) : Library :=
  ⟨(Path.normalize path, text) :: l.entries⟩

def read? (l : Library) (path : Text) : Option Text := l.entries.lookup (Path.normalize path)

@[simp] theorem read?_empty (path : Text) : empty.read? path = none := rfl

/-- An insertion is seen under every spelling of its path, and under no other path. -/
@[simp] theorem read?_insert (l : Library) (path text other : Text) :
    (l.insert path text).read? other =
      if Path.normalize other = Path.normalize path then some text else l.read? other := by
  by_cases h : Path.normalize other = Path.normalize path
  · simp [insert, read?, h]
  · simp [insert, read?, List.lookup_cons, h, beq_eq_false_iff_ne.mpr h]

def notFound (path : Text) : String :=
  "file not found in memory: " ++ String.ofList (Path.spell (Path.normalize path))

def convert (l : Library) (options : Options) (path : Text) :
    Except ConversionError Conversion :=
  match l.read? path with
  | none => .error (.unreadable (String.ofList path) (notFound path))
  | some text => CodeFrames.convert options text

end Library

end CodeFrames
