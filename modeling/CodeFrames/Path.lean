import CodeFrames.Text.Basic

/-!
Paths.  A path is split at its slashes, and its pieces are followed one by one.  Repeated slashes and
single dots vanish, and two dots take back the step before them, whichever it is.
-/

namespace CodeFrames

namespace Path

inductive Step where
  | root
  | name (text : Text)
  deriving DecidableEq, Repr

/-- The pieces of a path around its slashes. -/
def pieces : Text → List Text
  | [] => [[]]
  | '/' :: t => [] :: pieces t
  | c :: t => Text.consFirst c (pieces t)

theorem pieces_ne_nil (t : Text) : pieces t ≠ [] := by
  fun_induction pieces t with
  | case1 => simp
  | case2 => simp
  | case3 c t _ ih =>
      cases h : pieces t with
      | nil => exact absurd h ih
      | cons p ps => simp [Text.consFirst]

/-- Two paths around a slash are split on their own. -/
theorem pieces_append_slash (s t : Text) : pieces (s ++ '/' :: t) = pieces s ++ pieces t := by
  fun_induction pieces s with
  | case1 => simp [pieces]
  | case2 s ih => simp [pieces, ih]
  | case3 c s hc ih =>
      rw [List.cons_append, pieces.eq_3 _ _ hc, ih]
      cases h : pieces s with
      | nil => exact absurd h (pieces_ne_nil s)
      | cons p ps => simp [Text.consFirst]

/-- A piece that leads from a directory to itself. -/
def stays (piece : Text) : Bool := piece = [] || piece = ['.']

/-- The piece that leads from a directory to the one around it. -/
def isUp (piece : Text) : Bool := piece = ['.', '.']

/-- Follows a piece of a path from the steps taken so far, the last one first. -/
def follow (steps : List Step) (piece : Text) : List Step :=
  if stays piece then steps
  else if isUp piece then steps.tail
  else .name piece :: steps

def start : Text → List Step
  | '/' :: _ => [.root]
  | _ => []

/-- The steps that a path comes down to. -/
def normalize (path : Text) : List Step :=
  ((pieces path).foldl follow (start path)).reverse

def Step.text : Step → Text
  | .root => []
  | .name t => t

/-- The steps as a path; the root is the empty name before the first slash. -/
def spell : List Step → Text
  | [.root] => ['/']
  | steps => Text.join ['/'] (steps.map Step.text)

end Path

end CodeFrames
