/-!
Text as a list of characters, measured in bytes of its UTF-8 form.  Offsets into a source are byte
offsets; a slice exists only where both ends fall between two characters.
-/

namespace CodeFrames

abbrev Text := List Char

namespace Text

def byteSize (t : Text) : Nat := t.foldr (fun c n => c.utf8Size + n) 0

@[simp] theorem byteSize_nil : byteSize [] = 0 := rfl

@[simp] theorem byteSize_cons (c : Char) (t : Text) :
    byteSize (c :: t) = c.utf8Size + byteSize t := rfl

@[simp] theorem byteSize_append (s t : Text) : byteSize (s ++ t) = byteSize s + byteSize t := by
  induction s with
  | nil => simp
  | cons c s ih => simp [ih, Nat.add_assoc]

/-- What is left after the first `n` bytes, or `none` where byte `n` is inside a character. -/
def dropBytes? : Text → Nat → Option Text
  | t, 0 => some t
  | [], _ + 1 => none
  | c :: t, n + 1 =>
      if c.utf8Size ≤ n + 1 then dropBytes? t (n + 1 - c.utf8Size) else none

/-- The first `n` bytes, or `none` where byte `n` is inside a character. -/
def takeBytes? : Text → Nat → Option Text
  | _, 0 => some []
  | [], _ + 1 => none
  | c :: t, n + 1 =>
      if c.utf8Size ≤ n + 1 then (takeBytes? t (n + 1 - c.utf8Size)).map (c :: ·) else none

/-- The characters from byte `start` up to byte `stop`. -/
def slice? (t : Text) (start stop : Nat) : Option Text :=
  if start ≤ stop then (dropBytes? t start).bind (takeBytes? · (stop - start)) else none

theorem dropBytes?_append (s t : Text) : dropBytes? (s ++ t) (byteSize s) = some t := by
  induction s with
  | nil => simp [dropBytes?]
  | cons c s ih =>
      have hc := c.utf8Size_pos
      obtain ⟨k, hk⟩ : ∃ k, c.utf8Size + byteSize s = k + 1 := ⟨c.utf8Size + byteSize s - 1, by omega⟩
      rw [List.cons_append, byteSize_cons, hk, dropBytes?, if_pos (by omega),
        show k + 1 - c.utf8Size = byteSize s by omega, ih]

theorem takeBytes?_append (s t : Text) : takeBytes? (s ++ t) (byteSize s) = some s := by
  induction s with
  | nil => simp [takeBytes?]
  | cons c s ih =>
      have hc := c.utf8Size_pos
      obtain ⟨k, hk⟩ : ∃ k, c.utf8Size + byteSize s = k + 1 := ⟨c.utf8Size + byteSize s - 1, by omega⟩
      rw [List.cons_append, byteSize_cons, hk, takeBytes?, if_pos (by omega),
        show k + 1 - c.utf8Size = byteSize s by omega, ih, Option.map_some]

/-- A slice is found by the byte sizes of what precedes it and of the slice itself. -/
theorem slice?_append (before mid after : Text) :
    slice? (before ++ (mid ++ after)) (byteSize before) (byteSize before + byteSize mid) =
      some mid := by
  rw [slice?, if_pos (by omega), dropBytes?_append, Option.bind_some, Nat.add_sub_cancel_left,
    takeBytes?_append]

/-- Adds a character in front of the first text of a list. -/
def consFirst (c : Char) : List Text → List Text
  | [] => [[c]]
  | t :: ts => (c :: t) :: ts

/-- The lines of a text.  A line ends at a line feed, a carriage return directly before it included;
a text that ends in a line feed has no empty last line. -/
def lines : Text → List Text
  | [] => []
  | '\n' :: t => [] :: lines t
  | '\r' :: '\n' :: t => [] :: lines t
  | c :: t => consFirst c (lines t)

/-- Joins texts with a separator between each two. -/
def join (separator : Text) : List Text → Text
  | [] => []
  | [t] => t
  | t :: ts => t ++ separator ++ join separator ts

end Text

end CodeFrames
