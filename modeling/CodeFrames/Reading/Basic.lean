import CodeFrames.Event
import CodeFrames.Fault
import CodeFrames.Reading.Cursor

/-!
Readings: computations that walk over the tokens of a source and report events.  The events come out
in order, also those that were reported before a fault was met, and nothing takes an event back.
-/

namespace CodeFrames

def Reading (α : Type) : Type := Cursor → List Event × Except SourceError (α × Cursor)

namespace Reading

protected def pure {α : Type} (a : α) : Reading α := fun c => ([], .ok (a, c))

protected def bind {α β : Type} (r : Reading α) (f : α → Reading β) : Reading β := fun c =>
  match r c with
  | (events, .error e) => (events, .error e)
  | (events, .ok (a, c)) =>
      let (more, result) := f a c
      (events ++ more, result)

instance : Monad Reading where
  pure := Reading.pure
  bind := Reading.bind

theorem bind_of_error {α β : Type} {r : Reading α} {c : Cursor} {events : List Event}
    {e : SourceError} (f : α → Reading β) (h : r c = (events, .error e)) :
    (r >>= f) c = (events, .error e) := by
  change Reading.bind r f c = _
  simp only [Reading.bind, h]

theorem bind_of_ok {α β : Type} {r : Reading α} {c d : Cursor} {events : List Event} {a : α}
    (f : α → Reading β) (h : r c = (events, .ok (a, d))) :
    (r >>= f) c = (events ++ (f a d).1, (f a d).2) := by
  change Reading.bind r f c = _
  simp only [Reading.bind, h]

private theorem bind_bind {α β γ : Type} (r : Reading α) (f : α → Reading β)
    (g : β → Reading γ) : r >>= f >>= g = r >>= fun a => f a >>= g := by
  funext c
  cases hr : r c with
  | mk events result =>
    cases result with
    | error e => rw [bind_of_error _ hr, bind_of_error _ (bind_of_error _ hr)]
    | ok p =>
      obtain ⟨a, d⟩ := p
      rw [bind_of_ok _ hr]
      cases hf : f a d with
      | mk more result =>
        cases result with
        | error e =>
            rw [bind_of_error _ hf, bind_of_error _ (by rw [bind_of_ok _ hr, hf])]
        | ok q =>
            rw [bind_of_ok _ hf, bind_of_ok _ (by rw [bind_of_ok _ hr, hf]), List.append_assoc]

/-- How the steps of a reading are grouped makes no difference. -/
instance : LawfulMonad Reading := LawfulMonad.mk' Reading
  (fun r => by
    funext c
    cases hr : r c with
    | mk events result =>
      cases result with
      | error e => exact bind_of_error _ hr
      | ok p => exact (bind_of_ok _ hr).trans (by simp [Reading.pure]))
  (fun _ _ => rfl)
  bind_bind

/-! ## Steps -/

def emit (e : Event) : Reading Unit := fun c => ([e], .ok ((), c))

/-- A fault on the line of the token at the cursor. -/
def fail {α : Type} (fault : Fault) : Reading α := fun c => ([], .error ⟨c.here.line, fault⟩)

def cursor : Reading Cursor := fun c => ([], .ok (c, c))

def here : Reading Token := fun c => ([], .ok (c.here, c))

/-- The token before the cursor. -/
def before : Reading Token := fun c => ([], .ok (c.before, c))

def forward (n : Nat) : Reading Unit := fun c => ([], .ok ((), c.forward n))

/-- Steps over the token at the cursor. -/
def take : Reading Token := fun c => ([], .ok (c.here, c.advance))

/-- Refuses the token at the cursor because something else has to stand there. -/
def refuse {α : Type} (expected : Expectation) : Reading α := do
  fail (.expected expected (← here).found)

/-- Reports every comment that starts before the token at the cursor. -/
def reportComments : Reading Unit := fun c =>
  let isDue (t : Token) : Bool := t.start < c.here.start
  ((c.comments.takeWhile isDue).map fun t => .comment t.toSpan,
    .ok ((), { c with comments := c.comments.dropWhile isDue }))

/-! ## Tokens that have to be there -/

def expect (kind : Token.Kind) (symbol : String) : Reading Token := do
  if (← cursor).isAt kind then take else refuse (.symbol symbol)

def expectOperator (operator : String) : Reading Token := do
  if (← cursor).isAtOperator operator then take else refuse (.symbol operator)

def expectName : Reading Token := do
  if (← here).isName then take else refuse .identifier

/-! ## Loops -/

def loop (body : Reading Bool) : List Token → Reading Unit
  | [] => do let _ ← body
  | _ :: budget => do if ← body then loop body budget

/-- Repeats `body` until it answers `false`.  A round that answers `true` steps over a token, so the
tokens ahead are budget enough. -/
def repeatWhile (body : Reading Bool) : Reading Unit := fun c => loop body c.ahead c

/-- Steps over a comma, if there is one. -/
def comma : Reading Bool := do
  if (← cursor).isAt .comma then
    let _ ← take
    return true
  else return false

/-! ## Types and modifiers -/

/-- Steps over a type and reports it. -/
def typeName : Reading Unit := do
  match Token.typeLength? (← cursor).tokens with
  | none => refuse .typeName
  | some n =>
      let first ← here
      forward n
      emit (.typeName first.toSpan (← before).toSpan)

/-- Steps over a type that is part of an expression. -/
def unreportedType : Reading Unit := do
  match Token.typeLength? (← cursor).tokens with
  | none => refuse .typeName
  | some n => forward n

/-- Steps over modifiers and annotations; an annotation with its arguments is one span. -/
def modifiers : Reading (List Span) := do
  let c ← cursor
  forward c.modifierCount
  return Token.spansOf (Token.modifierLengths c.tokens) c.tokens

end Reading

end CodeFrames
