import CodeFrames.Reading.Member

/-!
# What is built up from steps

Every reading is put together from a few steps, and the same few ways of putting readings together
serve for all productions.  What holds of the steps, is kept by these ways, and holds of the three
productions that announce an expression holds of all productions at every nesting level.
-/

namespace CodeFrames

/-- Neither a comment nor an end of an expression. -/
def Event.isPlain : Event → Bool
  | .openExpression _ | .closeExpression _ _ | .comment _ => false
  | _ => true

/-- The productions one nesting level deeper have the property, and what else is asked of them. -/
structure Enclosed.Obeys (P : ∀ α : Type, Reading α → Prop) (Q : Enclosed → Prop)
    (inner : Enclosed) : Prop where
  assignment : P Unit inner.assignment
  branches : P Unit inner.branches
  arrayInitializer : P Unit inner.arrayInitializer
  statement : P Unit inner.statement
  asked : Q inner

namespace Reading

/-- A property of readings that the steps have and that is kept where readings are put together; of
the productions one nesting level deeper also `Q` may be asked. -/
structure Rules (P : ∀ α : Type, Reading α → Prop) (Q : Enclosed → Prop) : Prop where
  pure : ∀ {α : Type} (a : α), P α (Pure.pure a)
  fail : ∀ {α : Type} (fault : Fault), P α (Reading.fail fault)
  emit : ∀ {e : Event}, e.isPlain = true → P Unit (Reading.emit e)
  cursor : P Cursor Reading.cursor
  here : P Token Reading.here
  before : P Token Reading.before
  take : P Token Reading.take
  forward : ∀ n : Nat, P Unit (Reading.forward n)
  reportComments : P Unit Reading.reportComments
  bind : ∀ {α β : Type} {r : Reading α} {f : α → Reading β}, P α r → (∀ a, P β (f a)) →
    P β (r >>= f)
  /-- What is read may depend on the cursor. -/
  choose : ∀ {α : Type} {f : Cursor → Reading α}, (∀ c, P α (f c)) → P α fun c => f c c
  expression : ∀ {inner : Enclosed}, inner.Obeys P Q → P Unit (Reading.expression inner)
  variableValue : ∀ {inner : Enclosed}, inner.Obeys P Q → P Unit (Reading.arrayInitializer inner) →
    P Unit (Reading.expression inner) → P Unit (Reading.variableValue inner)
  delegateCall : ∀ {inner : Enclosed}, inner.Obeys P Q → P Unit (Reading.arguments inner) →
    P Unit (Reading.delegateCall inner)

namespace Rules

variable {P : ∀ α : Type, Reading α → Prop} {Q : Enclosed → Prop}

theorem choice {α : Type} {p : Prop} [Decidable p] {r s : Reading α} (hr : P α r) (hs : P α s) :
    P α (if p then r else s) := by
  split
  · exact hr
  · exact hs

variable (R : Rules P Q)
include R

section Steps

variable {α : Type}

theorem emit_bind {e : Event} {f : Unit → Reading α} (he : e.isPlain = true)
    (hf : ∀ u, P α (f u)) : P α (Reading.emit e >>= f) :=
  R.bind (R.emit he) hf

theorem refuse (expected : Expectation) : P α (Reading.refuse expected) :=
  R.bind R.here fun _ => R.fail _

theorem expect (kind : Token.Kind) (symbol : String) : P Token (Reading.expect kind symbol) :=
  R.bind R.cursor fun _ => choice R.take (R.refuse _)

theorem expectOperator (operator : String) : P Token (Reading.expectOperator operator) :=
  R.bind R.cursor fun _ => choice R.take (R.refuse _)

theorem expectName : P Token Reading.expectName :=
  R.bind R.here fun _ => choice R.take (R.refuse _)

theorem comma : P Bool Reading.comma :=
  R.bind R.cursor fun _ => choice (R.bind R.take fun _ => R.pure _) (R.pure _)

theorem rounds {body : Reading Bool} (h : P Bool body) : P Unit (repeatWhile body) := by
  have hloop (budget : List Token) : P Unit (loop body budget) := by
    induction budget with
    | nil => exact R.bind h fun _ => R.pure ()
    | cons t budget ih => exact R.bind h fun _ => choice ih (R.pure ())
  exact R.choose (f := fun c => loop body c.ahead) fun c => hloop c.ahead

/-- A reading that is done with a token behind it. -/
theorem done {β : Type} {r : Reading α} (h : P α r) (b : β) : P β (r >>= fun _ => Pure.pure b) :=
  R.bind h fun _ => R.pure b

theorem typeName : P Unit Reading.typeName := by
  refine R.bind R.cursor fun c => ?_
  split
  · exact R.refuse _
  · exact R.bind R.here fun _ => R.bind (R.forward _) fun _ => R.bind R.before fun _ =>
      R.emit rfl

theorem unreportedType : P Unit Reading.unreportedType := by
  refine R.bind R.cursor fun c => ?_
  split
  · exact R.refuse _
  · exact R.forward _

theorem modifiers : P (List Span) Reading.modifiers :=
  R.bind R.cursor fun _ => R.done (R.forward _) _

end Steps

/-! ## Stepping over code -/

theorem skipGroup : P Unit Reading.skipGroup := by
  refine R.bind R.cursor fun c => ?_
  split
  · exact R.bind R.here fun _ => R.fail _
  · exact R.forward _

theorem skipToSemicolon : P Unit Reading.skipToSemicolon := by
  refine R.rounds (R.bind R.here fun t => ?_)
  split
  · exact R.done R.take false
  · exact R.done R.skipGroup true
  · exact R.done R.skipGroup true
  · exact R.done R.skipGroup true
  · exact R.refuse _
  · exact R.refuse _
  · exact R.done R.take true

theorem skipWordAndGroup : P Unit Reading.skipWordAndGroup := R.bind R.take fun _ => R.skipGroup

theorem skipTypeBody (word : Text) : P Unit (Reading.skipTypeBody word) :=
  R.bind (R.rounds (R.bind R.here fun _ => choice (R.pure _) (choice (R.fail _)
    (R.done R.take true)))) fun _ => R.skipGroup

theorem skipTry : P Unit Reading.skipTry := by
  have hcatch := R.rounds (R.bind R.cursor fun c : Cursor => choice (p := c.isAtWord "catch" = true)
    (R.bind R.skipWordAndGroup fun _ => R.done R.skipGroup true) (R.pure false))
  have hblocks := R.bind R.skipGroup fun _ => R.bind hcatch fun _ => R.bind R.cursor fun c : Cursor =>
    choice (p := c.isAtWord "finally" = true) R.skipWordAndGroup (R.pure ())
  exact R.bind R.take fun _ => R.bind R.cursor fun _ => choice (R.bind R.skipGroup fun _ => hblocks)
    hblocks

theorem skipNested (budget : List Token) : P Unit (Reading.skipNested budget) := by
  induction budget with
  | nil => exact R.skipToSemicolon
  | cons t budget ih =>
      refine R.bind R.cursor fun c => ?_
      cases skipShape c with
      | group => exact R.skipGroup
      | empty => exact R.done R.take ()
      | ifElse =>
          exact R.bind R.skipWordAndGroup fun _ => R.bind ih fun _ => R.bind R.cursor fun _ =>
            choice (R.bind R.take fun _ => ih) (R.pure _)
      | loop => exact R.bind R.skipWordAndGroup fun _ => ih
      | headAndBlock => exact R.bind R.skipWordAndGroup fun _ => R.skipGroup
      | doWhile =>
          exact R.bind R.take fun _ => R.bind ih fun _ => R.bind R.cursor fun _ =>
            choice (R.bind R.skipWordAndGroup fun _ => R.done (R.expect _ _) ()) (R.fail _)
      | tryCatch => exact R.skipTry
      | typeDeclaration word => exact R.skipTypeBody word
      | labelled => exact R.bind (R.forward 2) fun _ => ih
      | simple => exact R.skipToSemicolon

theorem skipStatement : P Unit Reading.skipStatement :=
  R.choose (f := fun c => Reading.skipNested c.ahead) fun c => R.skipNested c.ahead

theorem skipLambdaBody : P Unit Reading.skipLambdaBody :=
  R.bind R.here fun _ => choice R.skipGroup (choice (R.refuse _) (R.rounds (R.bind R.here fun _ =>
    choice (R.done R.skipGroup true) (choice (R.pure _) (R.done R.take true)))))

theorem lambda : P Unit Reading.lambda := by
  have hbody := R.bind R.take fun _ => R.skipLambdaBody
  exact R.bind R.here fun _ => R.emit_bind rfl fun _ =>
    choice (R.bind R.skipGroup fun _ => hbody) (R.bind R.take fun _ => hbody)

theorem skipTypeArguments : P Unit Reading.skipTypeArguments := by
  refine R.bind R.here fun t => R.emit_bind rfl fun _ => R.bind R.cursor fun c => ?_
  split
  · exact R.fail _
  · exact R.forward _

/-! ## Expressions -/

section Expressions

variable {inner : Enclosed} (h : inner.Obeys P Q)
include h

theorem arguments : P Unit (Reading.arguments inner) := by
  have hround := R.rounds (R.bind R.here fun t : Token =>
    R.emit_bind (e := .argument t.toSpan) rfl fun _ => R.bind (R.expression h) fun _ => R.comma)
  have hclose := R.bind (R.expect .closeParen ")") fun t =>
    R.emit (e := .closeArguments t.toSpan) rfl
  exact R.bind (R.expect _ _) fun _ => R.emit_bind rfl fun _ => R.bind R.cursor fun _ =>
    choice (R.bind hround fun _ => hclose) hclose

theorem optionalArguments : P Unit (Reading.optionalArguments inner) :=
  R.bind R.cursor fun _ => choice (R.arguments h) (R.pure _)

theorem arrayInitializer : P Unit (Reading.arrayInitializer inner) :=
  R.bind (R.expect _ _) fun _ => R.bind (R.rounds (R.bind R.cursor fun _ => choice (R.pure _)
    (choice (R.bind h.arrayInitializer fun _ => R.comma)
      (R.bind (R.expression h) fun _ => R.comma)))) fun _ => R.done (R.expect _ _) ()

theorem dimension : P Bool (Reading.dimension inner) := by
  have hclose := R.done (R.expect .closeBracket "]") true
  exact R.bind R.cursor fun _ => choice (R.bind R.take fun _ => R.bind R.cursor fun _ =>
    choice (R.bind (R.expression h) fun _ => hclose) hclose) (R.pure _)

theorem createdObject : P Unit (Reading.createdObject inner) := by
  refine R.bind R.here fun t => ?_
  split
  · exact R.bind (R.arguments h) fun _ => R.bind R.here fun _ =>
      choice (R.emit_bind rfl fun _ => R.skipGroup) (R.pure _)
  · exact R.bind (R.rounds (R.dimension h)) fun _ => R.bind R.cursor fun _ =>
      choice (R.arrayInitializer h) (R.pure _)
  · exact R.refuse _

theorem creation : P Unit (Reading.creation inner) := by
  refine R.bind R.take fun _ => R.bind R.cursor fun c => ?_
  split
  · exact R.refuse _
  · exact R.bind (R.forward _) fun _ => R.createdObject h

omit h in
theorem typeLiteral (word : Text) : P Unit (Reading.typeLiteral word) :=
  R.bind R.unreportedType fun _ => R.bind R.cursor fun _ => choice (R.fail _) (R.pure _)

theorem operand : P Unit (Reading.operand inner) := by
  refine R.bind R.cursor fun c => ?_
  cases operandShape c with
  | literal => exact R.done R.take ()
  | lambda => exact R.lambda
  | parenthesized =>
      exact R.bind R.take fun _ => R.bind (R.expression h) fun _ => R.done (R.expect _ _) ()
  | creation => exact R.creation h
  | reference => exact R.bind R.take fun _ => R.optionalArguments h
  | typeLiteral word => exact R.typeLiteral word
  | reserved word => exact R.fail _
  | other => exact R.refuse _

theorem memberAccess : P Unit (Reading.memberAccess inner) := by
  have hname := R.bind R.expectName fun _ => R.optionalArguments h
  exact R.bind R.cursor fun _ => choice (R.creation h) (choice (R.done R.take ())
    (choice (R.bind R.skipTypeArguments fun _ => hname) hname))

theorem selector : P Bool (Reading.selector inner) := by
  have hmethod := R.bind R.cursor fun c => choice (p := c.isAtWord "new" = true)
    (R.done R.take true) (R.done R.expectName true)
  exact R.bind R.cursor fun _ => choice (R.bind R.take fun _ => R.done (R.memberAccess h) true)
    (choice (R.bind R.take fun _ => R.bind (R.expression h) fun _ => R.done (R.expect _ _) true)
      (choice (R.bind R.take fun _ => hmethod) (choice (R.done R.take true) (R.pure _))))

omit h in
theorem leading : P Bool Reading.leading := by
  refine R.bind R.cursor fun c => choice (R.done R.take true) ?_
  split
  · exact R.done (R.forward _) true
  · exact R.pure _

theorem unary : P Unit (Reading.unary inner) :=
  R.bind (R.rounds R.leading) fun _ => R.bind (R.operand h) fun _ => R.rounds (R.selector h)

omit h in
theorem typeTest : P Unit Reading.typeTest := by
  have hname := R.bind R.here fun t => choice (p := t.isName = true) (R.done R.take ()) (R.pure ())
  exact R.bind R.take fun _ => R.bind R.cursor fun _ =>
    choice (R.bind R.take fun _ => R.bind R.unreportedType fun _ => hname)
      (R.bind R.unreportedType fun _ => hname)

theorem binary : P Unit (Reading.binary inner) :=
  R.bind (R.unary h) fun _ => R.rounds (R.bind R.cursor fun _ =>
    choice (R.done R.typeTest true)
      (choice (R.bind R.take fun _ => R.done (R.unary h) true) (R.pure _)))

theorem conditional : P Unit (Reading.conditional inner) :=
  R.bind (R.binary h) fun _ => R.bind R.cursor fun _ =>
    choice (R.bind R.take fun _ => h.branches) (R.pure _)

theorem assignment : P Unit (Reading.assignment inner) :=
  R.bind (R.conditional h) fun _ => R.rounds (R.bind R.here fun _ =>
    choice (R.bind R.take fun _ => R.done (R.conditional h) true) (R.pure _))

theorem branches : P Unit (Reading.branches inner) :=
  R.bind (R.assignment h) fun _ => R.bind (R.expectOperator _) fun _ => R.conditional h

end Expressions

/-! ## Statements -/

section Statements

variable {inner : Enclosed} (h : inner.Obeys P Q)
include h

theorem blockRest : P Unit (Reading.blockRest inner) := by
  have hstatement := R.done h.statement true
  exact R.bind (R.rounds (R.bind R.here fun _ => choice (R.pure _)
    (choice (R.bind (R.fail _) fun _ => hstatement) hstatement))) fun _ =>
      R.bind R.reportComments fun _ => R.bind R.take fun _ => R.emit rfl

theorem block : P Unit (Reading.block inner) :=
  R.bind (R.expect _ _) fun _ => R.emit_bind rfl fun _ => R.blockRest h

theorem body : P Unit (Reading.body inner) :=
  R.bind R.cursor fun _ => choice (R.block h) (R.bind R.here fun _ => R.emit_bind rfl fun _ =>
    R.bind h.statement fun _ => R.bind R.before fun _ => R.emit rfl)

theorem condition : P Unit (Reading.condition inner) :=
  R.bind (R.expect _ _) fun _ => R.bind (R.expression h) fun _ => R.done (R.expect _ _) ()

theorem furtherBranch : P Bool (Reading.furtherBranch inner) :=
  R.bind R.cursor fun _ => choice (R.pure _) (choice
    (R.bind R.take fun _ => R.bind R.take fun _ => R.emit_bind rfl fun _ =>
      R.bind (R.condition h) fun _ => R.done (R.body h) true)
    (R.bind R.take fun _ => R.emit_bind rfl fun _ => R.done (R.body h) false))

theorem ifChain : P Unit (Reading.ifChain inner) :=
  R.bind R.take fun _ => R.emit_bind rfl fun _ => R.bind (R.condition h) fun _ =>
    R.bind (R.body h) fun _ => R.bind (R.rounds (R.furtherBranch h)) fun _ =>
      R.bind R.before fun _ => R.emit rfl

theorem whileLoop : P Unit (Reading.whileLoop inner) :=
  R.bind R.take fun _ => R.emit_bind rfl fun _ => R.bind (R.condition h) fun _ =>
    R.bind (R.body h) fun _ => R.bind R.before fun _ => R.emit rfl

omit h in
theorem semicolon : P Unit (do let _ ← Reading.semicolon) := R.done (R.expect _ _) ()

theorem returned : P Unit (Reading.returned inner) :=
  R.bind R.take fun _ => R.bind R.cursor fun _ => R.emit_bind rfl fun _ =>
    choice (R.bind (R.expression h) fun _ => R.semicolon) R.semicolon

omit h in
theorem label : P (Option Span) Reading.label :=
  R.bind R.here fun _ => choice (R.bind R.expectName fun _ => R.pure _) (R.pure _)

omit h in
theorem jumped (jump : Jump) : P Unit (Reading.jumped jump) :=
  R.bind R.take fun _ => R.bind R.label fun _ => R.emit_bind rfl fun _ => R.semicolon

theorem thrown : P Unit (Reading.thrown inner) :=
  R.bind R.take fun _ => R.emit_bind rfl fun _ => R.bind (R.expression h) fun _ => R.semicolon

theorem expressionStatement : P Unit (Reading.expressionStatement inner) :=
  R.bind R.here fun _ => R.emit_bind rfl fun _ => R.bind (R.expression h) fun _ => R.semicolon

theorem declarator : P Bool (Reading.declarator inner) := by
  have hvariable := R.variableValue h (R.arrayInitializer h) (R.expression h)
  have hvalue {name : Token} {hasValue : Bool} := R.emit_bind (e := .declarator name.toSpan hasValue)
    (f := fun _ => do
      if hasValue then
        let _ ← Reading.take
        Reading.variableValue inner
      Reading.comma) rfl fun _ =>
        choice (R.bind R.take fun _ => R.bind hvariable fun _ => R.comma) R.comma
  exact R.bind R.expectName fun _ => R.bind R.cursor fun _ =>
    choice (R.bind (R.fail _) fun _ => hvalue) hvalue

theorem localVariables : P Unit (Reading.localVariables inner) :=
  R.bind R.here fun _ => R.bind R.modifiers fun _ => R.bind R.typeName fun _ =>
    R.emit_bind rfl fun _ => R.bind (R.rounds (R.declarator h)) fun _ =>
      R.bind (R.expect _ _) fun _ => R.emit rfl

omit h in
theorem unsupported (construct : String) : P Unit (Reading.unsupported construct) :=
  R.bind R.here fun _ => R.emit_bind rfl fun _ => R.skipStatement

theorem statement : P Unit (Reading.statement inner) := by
  refine R.bind R.reportComments fun _ => R.bind R.cursor fun c => ?_
  cases statementShape c with
  | block => exact R.block h
  | empty => exact R.bind R.take fun _ => R.emit rfl
  | ifChain => exact R.ifChain h
  | whileLoop => exact R.whileLoop h
  | returned => exact R.returned h
  | jump jump => exact R.jumped jump
  | thrown => exact R.thrown h
  | misplaced fault => exact R.fail fault
  | unsupported construct => exact R.unsupported construct
  | locals => exact R.localVariables h
  | expression => exact R.expressionStatement h

end Statements

/-! ## Members -/

section Members

theorem parameter : P Bool Reading.parameter := by
  have hrest (ellipsis : Option Token) : P Bool (do
      let name ← Reading.expectName
      Reading.emit (.parameter name.toSpan (ellipsis.map Token.toSpan))
      Reading.comma) := R.bind R.expectName fun _ => R.emit_bind rfl fun _ => R.comma
  have hellipsis : P (Option Token) (some <$> Reading.take) := by
    rw [← bind_pure_comp]
    exact R.bind R.take fun _ => R.pure _
  exact R.bind R.modifiers fun _ => R.bind R.typeName fun _ => R.bind R.cursor fun _ =>
    choice (R.bind hellipsis hrest) (R.bind (R.pure none) hrest)

theorem parameters : P Unit Reading.parameters := by
  have hclose := R.done (R.expect .closeParen ")") ()
  exact R.bind (R.expect _ _) fun _ => R.bind R.cursor fun _ =>
    choice (R.bind (R.rounds R.parameter) fun _ => hclose) hclose

theorem throwsClause : P Unit Reading.throwsClause :=
  R.bind R.cursor fun _ => choice (R.bind R.take fun _ => R.emit_bind rfl fun _ =>
    R.bind (R.rounds (R.bind R.typeName fun _ => R.comma)) fun _ => R.emit rfl) (R.pure _)

theorem typeParameters : P Unit Reading.typeParameters := by
  refine R.bind R.here fun t => choice (R.bind R.cursor fun c => ?_) (R.pure _)
  split
  · exact R.fail _
  · exact R.emit_bind rfl fun _ => R.forward _

theorem directive (word : Text) : P Unit (Reading.directive word) :=
  R.bind R.here fun _ => R.emit_bind rfl fun _ => R.skipToSemicolon

theorem unsupportedMember (construct : String) (head skipped : Nat) :
    P Unit (Reading.unsupportedMember construct head skipped) :=
  R.bind R.cursor fun _ => R.emit_bind rfl fun _ => R.bind (R.forward _) fun _ => R.skipStatement

variable {inner : Enclosed} (h : inner.Obeys P Q)
include h

theorem method : P Unit (Reading.method inner) := by
  have hend := R.bind R.cursor fun c => choice (p := c.isAt .semicolon = true)
    (R.bind R.take fun t => R.emit (e := .closeDeclaration t.toSpan false) rfl)
    (R.bind (R.block h) fun _ => R.bind R.before fun t =>
      R.emit (e := .closeDeclaration t.toSpan true) rfl)
  exact R.bind R.here fun _ => R.bind R.modifiers fun _ => R.bind R.typeParameters fun _ =>
    R.bind R.typeName fun _ => R.bind R.expectName fun _ => R.emit_bind rfl fun _ =>
      R.bind R.parameters fun _ => R.bind R.throwsClause fun _ => hend

theorem constructor : P Unit (Reading.constructor inner) := by
  have hrest := R.bind (R.blockRest h) fun _ => R.bind R.before fun t =>
    R.emit (e := .closeDeclaration t.toSpan true) rfl
  exact R.bind R.here fun _ => R.bind R.modifiers fun _ => R.bind R.expectName fun _ =>
    R.emit_bind rfl fun _ => R.bind R.parameters fun _ => R.bind R.throwsClause fun _ =>
      R.bind (R.expect _ _) fun _ => R.emit_bind rfl fun _ => R.bind R.reportComments fun _ =>
        R.bind R.cursor fun _ =>
          choice (R.bind (R.delegateCall h (R.arguments h)) fun _ => hrest) hrest

theorem member : P Unit (Reading.member inner) := by
  refine R.bind R.cursor fun c => ?_
  cases memberShape c with
  | directive word => exact R.directive word
  | unsupported construct head skipped => exact R.unsupportedMember construct head skipped
  | constructor => exact R.constructor h
  | method => exact R.method h
  | statement => exact h.statement

theorem members : P Unit (Reading.members inner) :=
  R.bind (R.rounds (R.bind R.here fun _ => choice (R.pure _) (R.bind R.reportComments fun _ =>
    R.done (R.member h) true))) fun _ => R.reportComments

end Members

/-- The productions at every nesting level have the property. -/
theorem within (hasked : ∀ levels, Q (Enclosed.within levels)) (levels : Nat) :
    (Enclosed.within levels).Obeys P Q := by
  induction levels with
  | zero => exact ⟨R.fail _, R.fail _, R.fail _, R.fail _, hasked 0⟩
  | succ levels ih =>
      exact ⟨R.assignment ih, R.branches ih, R.arrayInitializer ih, R.statement ih, hasked _⟩

end Rules

end Reading

end CodeFrames
