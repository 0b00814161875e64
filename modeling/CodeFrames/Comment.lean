import CodeFrames.Text.Blank

/-!
The plain text of a comment.  A line comment loses its slashes; a block comment loses its markers and
the asterisk that each of its lines may start with.  The remaining lines form paragraphs, separated by
empty lines and by `p` tags, and a paragraph can be wrapped at a width.
-/

namespace CodeFrames

namespace Comment

/-! ## Paragraphs -/

/-- A line of a block comment without the asterisk at its start. -/
def withoutGutter (line : Text) : Text :=
  match Text.trimStart line with
  | '*' :: t => Text.trim t
  | t => Text.trim t

/-- The pieces of a line around its opening and closing `p` tags. -/
def splitAtTags : Text → List Text
  | [] => [[]]
  | '<' :: 'p' :: '>' :: t => [] :: splitAtTags t
  | '<' :: 'P' :: '>' :: t => [] :: splitAtTags t
  | '<' :: '/' :: 'p' :: '>' :: t => [] :: splitAtTags t
  | '<' :: '/' :: 'P' :: '>' :: t => [] :: splitAtTags t
  | c :: t => Text.consFirst c (splitAtTags t)

/-- What a line adds to the paragraphs: pieces of text, and `none` where a paragraph ends. -/
def lineParts (line : Text) : List (Option Text) :=
  match withoutGutter line with
  | [] => [none]
  | line =>
      (((splitAtTags line).map fun piece => some (Text.trim piece)).intersperse none).filter
        (· ≠ some [])

/-- The pieces between each two paragraph ends. -/
def groups : List (Option Text) → List (List Text)
  | [] => [[]]
  | none :: parts => [] :: groups parts
  | some piece :: parts =>
      match groups parts with
      | [] => [[piece]]
      | pieces :: rest => (piece :: pieces) :: rest

def paragraphs (body : Text) : List Text :=
  ((groups ((Text.lines body).flatMap lineParts)).filter (· ≠ [])).map (Text.join [' '])

/-! ## Wrapping -/

/-- Puts each word on the current line while it fits, and on a new line otherwise. -/
def fillLines (width : Nat) (line : Text) : List Text → List Text
  | [] => [line]
  | word :: words =>
      if line.length + 1 + word.length > width then line :: fillLines width word words
      else fillLines width (line ++ ' ' :: word) words

def wrapLines (width : Nat) : List Text → List Text
  | [] => []
  | word :: words => fillLines width word words

/-- A width of `none` or zero leaves the paragraph as it is. -/
def wrap (width : Option Nat) (paragraph : Text) : Text :=
  match width with
  | none | some 0 => paragraph
  | some width => Text.join ['\n'] (wrapLines width (Text.words paragraph))

/-! ## Whole comments -/

def withoutEndMarker (t : Text) : Text :=
  match t.reverse with
  | '/' :: '*' :: t => t.reverse
  | _ => t

def body : Text → Text
  | '/' :: '*' :: '*' :: t => withoutEndMarker t
  | '/' :: '*' :: t => withoutEndMarker t
  | t => withoutEndMarker t

/-- The paragraphs of a comment given with its markers. -/
def paragraphsOf (raw : Text) : List Text :=
  match Text.trim raw with
  | '/' :: '/' :: t => [Text.trim (t.dropWhile (· = '/'))]
  | t => paragraphs (body t)

end Comment

/-- The text of a comment: its paragraphs, wrapped, with an empty line between each two. -/
def plainComment (width : Option Nat) (raw : Text) : Text :=
  Text.join ['\n', '\n'] ((Comment.paragraphsOf raw).map (Comment.wrap width))

end CodeFrames
