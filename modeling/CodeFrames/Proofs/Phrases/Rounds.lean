import CodeFrames.Proofs.Phrases.Limited
import CodeFrames.Proofs.Phrases.Lookahead

/-!
# Rounds of an expression

Between two operands, selectors or dimensions the reading of an expression is in a loop.  What a round
of each loop does is told by the token it starts at.
-/

namespace CodeFrames

open Token

namespace Reading

variable {inner : Enclosed} {c : Cursor} {t next : Token} {ps rest : List Token}

/-- A type test, or a binary operator and the operand behind it. -/
def operationRound (inner : Enclosed) : Reading Bool := do
  let c ← cursor
  if c.isAtWord "instanceof" then
    typeTest
    return true
  else if c.here.isOperatorIn Token.binaryOperators then
    let _ ← take
    unary inner
    return true
  else return false

/-- What stands behind the word of a type test. -/
def testedType : Reading Unit := do
  if (← cursor).isAtWord "final" then let _ ← take
  unreportedType
  if (← here).isName then let _ ← take

/-- The initializer that may stand behind the dimensions of a created array. -/
def initializer (inner : Enclosed) : Reading Unit := do
  if (← cursor).isAt .openBrace then arrayInitializer inner

theorem expect_eq {kind : Kind} (symbol : String) (h : c.here.kind = kind) :
    expect kind symbol c = ([], .ok (c.here, c.advance)) := by
  rw [expect, cursor_bind, if_pos (by simp [Cursor.isAt, h])]
  rfl

theorem passes_expect {kind : Kind} (symbol : String) (ht : t.kind = kind) (hrest : rest ≠ []) :
    Passes (do let _ ← expect kind symbol : Reading Unit) [t] rest True := fun _ hc =>
  .step (expect_eq symbol ((kind_of_faces hc).trans ht)) (.pure (hc.advance hrest))

theorem assignedRound_of_operator (h : c.here.isOperatorIn assignmentOperators = true) :
    assignedRound inner c = (conditional inner >>= fun _ => pure true : Reading Bool) c.advance := by
  rw [assignedRound, here_bind, if_pos h]
  rfl

theorem assignedRound_stop (h : c.here.isOperatorIn assignmentOperators = false) :
    assignedRound inner c = ([], .ok (false, c)) := by
  rw [assignedRound, here_bind, if_neg (by simp [h])]
  rfl

theorem operationRound_of_test (h : c.here.isWord "instanceof".toList = true) :
    operationRound inner c = (testedType >>= fun _ => pure true : Reading Bool) c.advance := by
  rw [operationRound, cursor_bind, Cursor.isAtWord, if_pos h, typeTest, bind_assoc]
  rfl

theorem operationRound_of_operator (htest : c.here.isWord "instanceof".toList = false)
    (h : c.here.isOperatorIn binaryOperators = true) :
    operationRound inner c = (unary inner >>= fun _ => pure true : Reading Bool) c.advance := by
  rw [operationRound, cursor_bind, Cursor.isAtWord, if_neg (Bool.eq_false_iff.mp htest), if_pos h]
  rfl

theorem operationRound_stop (htest : c.here.isWord "instanceof".toList = false)
    (h : c.here.isOperatorIn binaryOperators = false) :
    operationRound inner c = ([], .ok (false, c)) := by
  rw [operationRound, cursor_bind, Cursor.isAtWord, if_neg (Bool.eq_false_iff.mp htest), if_neg (by simp [h])]
  rfl

theorem leading_of_operator (h : c.here.isOperatorIn leadingOperators = true) :
    leading c = ([], .ok (true, c.advance)) := by
  rw [leading, cursor_bind, if_pos h]
  rfl

theorem leading_of_cast {n : Nat} (hkind : c.here.kind = .openParen) (h : castLength? c.tokens = some n) :
    leading c = ([], .ok (true, c.forward n)) := by
  rw [leading, cursor_bind, if_neg (by simp [isOperatorIn, hkind]), h]
  rfl

theorem leading_stop (hkind : c.here.kind ≠ .operator) (h : castLength? c.tokens = none) :
    leading c = ([], .ok (false, c)) := by
  rw [leading, cursor_bind, if_neg (by simp [isOperatorIn, hkind]), h]
  rfl

theorem selector_of_member (h : c.here.kind = .dot) :
    selector inner c = (memberAccess inner >>= fun _ => pure true : Reading Bool) c.advance := by
  rw [selector, cursor_bind, if_pos (by simp [Cursor.isAt, h])]
  rfl

/-- An index behind its opening bracket. -/
def indexRest (inner : Enclosed) : Reading Unit := do
  expression inner
  let _ ← expect .closeBracket "]"

theorem selector_of_index (h : c.here.kind = .openBracket) :
    selector inner c = (indexRest inner >>= fun _ => pure true : Reading Bool) c.advance := by
  rw [selector, cursor_bind, if_neg (by simp [Cursor.isAt, h]), if_pos (by simp [Cursor.isAt, h]), indexRest,
    bind_assoc]
  simp only [bind_assoc, pure_bind]
  rfl

theorem selector_of_step (h : c.here.isOperatorIn stepOperators = true) :
    selector inner c = (pure () >>= fun _ => pure true : Reading Bool) c.advance := by
  have hkind : c.here.kind = .operator := by simpa using (Bool.and_eq_true_iff.mp h).1
  have hreference : c.isAtOperator "::" = false := by
    have hall : ∀ op ∈ stepOperators, op ≠ "::".toList := by decide
    have hmem : c.here.text ∈ stepOperators := by simpa using (Bool.and_eq_true_iff.mp h).2
    rw [Cursor.isAtOperator, isOperator, decide_eq_false (hall _ hmem), Bool.and_false]
  rw [selector, cursor_bind, if_neg (by simp [Cursor.isAt, hkind]), if_neg (by simp [Cursor.isAt, hkind]),
    if_neg (by simp [hreference]), if_pos h]
  rfl

theorem selector_stop (h : Phrase.Category.unary.follow.Has t) (hc : c.Faces (t :: rest)) :
    selector inner c = ([], .ok (false, c)) := by
  have hkind {kind : Kind} (hkind : kind ∉ delimiters) (hoperator : kind ≠ .operator)
      (hword : kind ≠ .word) : c.isAt kind = false := by
    simp [Cursor.isAt, kind_of_faces hc, h.kind_ne hkind hoperator hword]
  have hreference : c.isAtOperator "::" = false := by
    rw [Cursor.isAtOperator, ← isOperator_bare, hc.here_eq]
    refine h.test (p := (·.isOperator "::".toList)) (fun _ => rfl) ?_ (by decide) (by decide)
    simp [Phrase.Category.follow, delimiters, symbol, isOperator]
  have hstep : c.here.isOperatorIn stepOperators = false := by
    rw [← isOperatorIn_bare, hc.here_eq]
    refine h.test (p := (·.isOperatorIn stepOperators)) (fun _ => rfl) ?_ (by decide) (by decide)
    simp [Phrase.Category.follow, delimiters, symbol, isOperatorIn]
  rw [selector, cursor_bind, hkind (by decide) (by decide) (by decide),
    hkind (by decide) (by decide) (by decide), hreference, if_neg (by simp), if_neg (by simp),
    if_neg (by simp), if_neg (by simp [hstep])]
  rfl

theorem dimension_stop (h : t.kind ≠ .openBracket) (hc : c.Faces (t :: rest)) :
    dimension inner c = ([], .ok (false, c)) := by
  rw [dimension, cursor_bind, if_neg (by simp [Cursor.isAt, kind_of_faces hc, h])]
  rfl

/-- A dimension behind its opening bracket. -/
def dimensionRest (inner : Enclosed) : Reading Unit := do
  if !(← cursor).isAt .closeBracket then expression inner
  let _ ← expect .closeBracket "]"

theorem dimension_of_bracket (h : c.here.kind = .openBracket) :
    dimension inner c = (dimensionRest inner >>= fun _ => pure true : Reading Bool) c.advance := by
  have hrest : (do
      if !(← cursor).isAt .closeBracket then expression inner
      let _ ← expect .closeBracket "]"
      return true : Reading Bool) = (dimensionRest inner >>= fun _ => pure true : Reading Bool) := by
    rw [dimensionRest, bind_assoc]
    refine congrArg (cursor >>= ·) (funext fun d => ?_)
    cases d.isAt .closeBracket <;> simp
  rw [dimension, cursor_bind, if_pos (by simp [Cursor.isAt, h]), ← hrest]
  rfl

end Reading

end CodeFrames
