import CodeFrames.Proofs.Brackets.Basic
import CodeFrames.Proofs.Following

/-!
# Brackets in expressions

Every production of an expression pairs the brackets that it reads.  What stands in type arguments,
lambda expressions and class bodies is stepped over.
-/

namespace CodeFrames

open Token (UnreadInside Unread)

/-- The pieces inside an expression may be left unread. -/
class Reading.LeavesInside (U : Reading.Unreading) : Prop extends Reading.Widening U where
  typeArguments {events : List Event} {ts : List Token} {n : Nat} :
    Token.typeArgumentsLength? ts = some n → U events ts (ts.drop n)
  lambda {source : Text} {events inside : List Event} {c d : Cursor} :
    c.Sited source → Reading.operandShape c = .lambda →
    .unsupported c.here.toSpan "lambda expression" ∈ events →
    Reading.lambda c = (inside, .ok ((), d)) → U events c.tokens d.tokens
  classBody {events : List Event} {t : Token} {ts : List Token} {n : Nat} :
    .unsupported t.toSpan "anonymous class body" ∈ events →
    Token.groupLength? (t :: ts) = some n → U events (t :: ts) ((t :: ts).drop n)

/-- The pieces of statements may be left unread, too. -/
class Reading.LeavesStatements (U : Reading.Unreading) : Prop extends Reading.LeavesInside U where
  annotation {events : List Event} {t : Token} {ts : List Token} : t.kind = .atSign →
    U events (t :: ts) ((t :: ts).drop (Token.modifierLength (t :: ts)))
  statement {source : Text} {events inside : List Event} {c d : Cursor} {construct : String} :
    c.Sited source → .unsupported c.here.toSpan construct ∈ events →
    Reading.skipStatement c = (inside, .ok ((), d)) → U events c.tokens d.tokens

instance : Reading.LeavesInside UnreadInside :=
  ⟨.typeArguments, fun _ _ => .lambda, .classBody⟩

instance : Reading.LeavesStatements Unread where
  typeArguments h := .inside (.typeArguments h)
  lambda _ _ hreported hrun := .inside (.lambda hreported hrun)
  classBody hreported hlength := .inside (.classBody hreported hlength)
  annotation := .annotated
  statement _ := .statement

instance (U : Reading.Unreading) [Reading.LeavesInside U] (events : List Event) :
    Token.LeavesTypeArguments (U events) := ⟨Reading.LeavesInside.typeArguments⟩

instance (U : Reading.Unreading) [Reading.LeavesStatements U] (events : List Event) :
    Token.LeavesAnnotations (U events) := ⟨Reading.LeavesStatements.annotation⟩

/-- What is asked of the productions of expressions one nesting level deeper. -/
structure Enclosed.BracketsInside (source : Text) (U : Reading.Unreading) (inner : Enclosed) :
    Prop where
  assignment : inner.assignment.Brackets source U none
  branches : inner.branches.Brackets source U none
  arrayInitializer : inner.arrayInitializer.Brackets source U none

/-- What is asked of all productions one nesting level deeper. -/
structure Enclosed.Brackets (source : Text) (U : Reading.Unreading) (inner : Enclosed) : Prop
    extends inner.BracketsInside source U where
  statement : inner.statement.Brackets source U none
  delivers : inner.Delivers source

namespace Reading

open Brackets

variable {source : Text} {U : Unreading} {inner : Enclosed}

/-! ## Expressions -/

theorem brackets_closeBracket {b : Bool} :
    (do
      let _ ← expect .closeBracket "]"
      return b : Reading Bool).Brackets source U (some .openBracket) :=
  expect_close rfl fun _ => Brackets.pure _

/-- Behind the opening bracket at the cursor. -/
theorem open_of_isAt {c : Cursor} {kind : Token.Kind} {f : Token → Reading Bool}
    (hc : c.Sited source) (hat : c.isAt kind = true) (hopener : kind.isOpener = true)
    (hf : ∀ t, (f t).Brackets source U (some kind)) :
    (take >>= f).BracketsAt U none c := by
  have hkind := kind_of_isAt hat
  refine .open_bind hc (hkind ▸ hopener) ?_
  rw [hkind]
  exact hf _ _ hc.advance

variable [hU : LeavesInside U]

theorem brackets_expression (h : inner.BracketsInside source U) :
    (expression inner).Brackets source U none := by
  refine fun c hc => .here_bind (.ite (fun _ => ?_) fun _ => ?_)
  · exact .of_error (e := ⟨c.here.line, .expected .expression c.here.found⟩) rfl
  · exact .emit_bind ((h.assignment c hc).bind fun _ _ _ _ _ => .before_bind .emit)

theorem brackets_arguments (h : inner.BracketsInside source U) :
    (arguments inner).Brackets source U none := by
  have hround : (argumentRound inner).Brackets source U none :=
    fun c hc => .here_bind (.emit_bind ((brackets_expression h).bind (fun _ => Brackets.comma) c hc))
  have hclose : (do
      let paren ← expect .closeParen ")"
      emit (.closeArguments paren.toSpan) : Reading Unit).Brackets source U
        (some .openParen) := expect_close rfl fun _ _ _ => .emit
  refine expect_open rfl fun paren c hc => .emit_bind (.cursor_bind (.ite (fun _ => ?_) fun _ => ?_))
  · exact (rounds hround).bind (fun _ => hclose) c hc
  · exact hclose c hc

theorem brackets_optionalArguments (h : inner.BracketsInside source U) :
    (optionalArguments inner).Brackets source U none :=
  fun c hc => .cursor_bind (.ite (fun _ => brackets_arguments h c hc) fun _ => .pure _)

theorem brackets_arrayInitializer (h : inner.BracketsInside source U) :
    (arrayInitializer inner).Brackets source U none := by
  have hround : (valueRound inner).Brackets source U none := by
    refine fun c hc => .cursor_bind (.ite (fun _ => .pure _) fun _ => .ite (fun _ => ?_) fun _ => ?_)
    · exact h.arrayInitializer.bind (fun _ => Brackets.comma) c hc
    · exact (brackets_expression h).bind (fun _ => Brackets.comma) c hc
  exact expect_open rfl fun _ => (rounds hround).bind fun _ =>
    expect_close rfl fun _ => Brackets.pure _

/-- An expression in brackets behind the opening one. -/
theorem brackets_index (h : inner.BracketsInside source U) {b : Bool} :
    (do
      expression inner
      let _ ← expect .closeBracket "]"
      return b : Reading Bool).Brackets source U (some .openBracket) :=
  (brackets_expression h).bind fun _ => brackets_closeBracket

theorem brackets_dimension (h : inner.BracketsInside source U) :
    (dimension inner).Brackets source U none := by
  refine fun c hc => .cursor_bind (.ite (fun hat => ?_) fun _ => .pure _)
  refine open_of_isAt hc hat rfl fun _ d hd => .cursor_bind (.ite (fun _ => ?_) fun _ => ?_)
  · exact brackets_index h d hd
  · exact brackets_closeBracket d hd

theorem brackets_classBody :
    (do
      let brace ← here
      if brace.kind = .openBrace then
        emit (.unsupported brace.toSpan "anonymous class body")
        skipGroup : Reading Unit).Brackets source U none := by
  refine fun c hc => .here_bind (.ite (fun _ => .reported_bind fun events d hrun => ?_) fun _ => .pure _)
  rw [skipGroup, cursor_bind] at hrun
  cases hgroup : Token.groupLength? c.tokens with
  | none =>
      rw [hgroup] at hrun
      cases hrun
  | some n =>
      rw [hgroup] at hrun
      obtain ⟨-, hrun⟩ := Prod.mk.injEq .. |>.mp hrun
      obtain rfl : c.forward n = d := by simpa using hrun
      refine ⟨Cursor.reaches_forward n c, ?_⟩
      rw [Cursor.tokens_forward hc.laid (Token.not_isEnd_of_groupFrom hgroup)]
      exact hU.classBody List.mem_cons_self hgroup

theorem brackets_createdObject (h : inner.BracketsInside source U) :
    (createdObject inner).Brackets source U none := by
  refine fun c hc => .here_bind ?_
  split
  · exact (brackets_arguments h).bind (fun _ => brackets_classBody) c hc
  · refine (rounds (brackets_dimension h)).bind (fun _ d hd => .cursor_bind ?_) c hc
    exact .ite (fun _ => brackets_arrayInitializer h d hd) fun _ => .pure _
  · exact .refuse _

theorem brackets_created (h : inner.BracketsInside source U) :
    (do
      match Token.typeNameLength? (← cursor).tokens with
      | none => refuse .typeName
      | some n =>
          forward n
          createdObject inner : Reading Unit).Brackets source U none := by
  intro c hc
  refine .cursor_bind ?_
  cases htype : Token.typeNameLength? c.tokens with
  | none => exact .refuse _
  | some n =>
      have hend : ∀ t ∈ c.tokens.take n, ¬ t.isEnd := fun t ht =>
        Token.not_isEnd_of_typeKinds (Token.typeKinds_of_typeName htype t ht)
      exact .forward_bind (bracketed_forward hc hend (Token.bracketed_typeName htype))
        (brackets_createdObject h _ (hc.forward n))

/-- An object is created behind the word at the cursor. -/
theorem bracketsAt_creation (h : inner.BracketsInside source U) {c : Cursor}
    (hc : c.Sited source) (hkind : c.here.kind = .word) :
    (creation inner).BracketsAt U none c :=
  .take_bind hkind rfl rfl (brackets_created h _ hc.advance)

theorem brackets_typeLiteral (word : Text) :
    (typeLiteral word).Brackets source U none :=
  brackets_unreportedType.bind fun _ _ _ => .cursor_bind (.ite (fun _ => .fail _) fun _ => .pure _)

theorem bracketsAt_lambda {c : Cursor} (hc : c.Sited source) (hshape : operandShape c = .lambda) :
    lambda.BracketsAt U none c := by
  intro events u d hrun
  have hreaches := (@Reports.lambda source).reaches hc.laid hrun
  refine ⟨hreaches, .unread (hU.lambda hc hshape ?_ hrun) (.refl _)⟩
  rw [lambda, here_bind] at hrun
  obtain ⟨first, _, _, _, hemit, -, rfl⟩ := exists_of_bind_ok hrun
  exact List.mem_append_left _ (unsupported_mem_of_emit hemit)

/-- An operand that is not in parentheses starts with a token that is not a bracket. -/
theorem bracket_of_operandShape {c : Cursor} :
    (operandShape c = .parenthesized → c.here.kind = .openParen) ∧
    (operandShape c = .creation ∨ operandShape c = .reference → c.here.kind = .word) ∧
    (operandShape c = .literal → c.here.kind.isOpener = false ∧ c.here.kind.isCloser = false) := by
  rw [operandShape]
  cases hkind : c.here.kind <;> simp [Token.Kind.isOpener, Token.Kind.isCloser]
  case word =>
    rw [wordShape]
    split_ifs <;> simp
  case openParen => cases opensLambda c <;> simp

theorem brackets_operand (h : inner.BracketsInside source U) :
    (operand inner).Brackets source U none := by
  intro c hc
  obtain ⟨hparen, hword, hliteral⟩ := @bracket_of_operandShape c
  have hadvance := hc.advance
  refine .cursor_bind ?_
  cases hshape : operandShape c with
  | literal =>
      obtain ⟨hopener, hcloser⟩ := hliteral hshape
      exact .take_bind rfl hopener hcloser (.pure _)
  | lambda => exact bracketsAt_lambda hc hshape
  | parenthesized =>
      have hkind := hparen hshape
      refine .open_bind hc (by rw [hkind]; rfl) ?_
      rw [hkind]
      exact (brackets_expression h).bind (fun _ => expect_close rfl fun _ => Brackets.pure _) _
        hadvance
  | creation => exact bracketsAt_creation h hc (hword (.inl hshape))
  | reference =>
      exact .take_bind (hword (.inr hshape)) rfl rfl (brackets_optionalArguments h _ hadvance)
  | typeLiteral word => exact brackets_typeLiteral word c hc
  | reserved word => exact .fail _
  | other => exact .refuse _

/-! ## Selectors, operators and casts -/

theorem brackets_skipTypeArguments : skipTypeArguments.Brackets source U none := by
  refine fun c hc => .here_bind (.emit_bind (.cursor_bind ?_))
  cases hlength : Token.typeArgumentsLength? c.tokens with
  | none => exact .fail _
  | some n =>
      have hend : ∀ t ∈ c.tokens.take n, ¬ t.isEnd := fun t ht =>
        Token.not_isEnd_of_typeKinds (Token.typeKinds_of_typeArguments hlength t ht)
      exact .forward (bracketed_forward hc hend (Token.bracketed_typeArguments hlength))

theorem brackets_memberAccess (h : inner.BracketsInside source U) :
    (memberAccess inner).Brackets source U none := by
  have hname := (@Brackets.expectName source U).bind fun _ =>
    brackets_optionalArguments h
  refine fun c hc => .cursor_bind (.ite (fun hnew => ?_) fun _ => .ite (fun hself => ?_) fun _ =>
    .ite (fun _ => ?_) fun _ => hname c hc)
  · exact bracketsAt_creation h hc (kind_of_isWord hnew)
  · have hkind : c.here.kind = .word := by
      simp only [Bool.or_eq_true] at hself
      rcases hself with (hself | hself) | hself <;> exact kind_of_isWord hself
    exact .take_bind hkind rfl rfl (.pure _)
  · exact brackets_skipTypeArguments.bind (fun _ => hname) c hc

theorem brackets_selector (h : inner.BracketsInside source U) :
    (selector inner).Brackets source U none := by
  intro c hc
  have hadvance := hc.advance
  refine .cursor_bind (.ite (fun hdot => ?_) fun _ => .ite (fun hbracket => ?_) fun _ =>
    .ite (fun hreference => ?_) fun _ => .ite (fun hstep => ?_) fun _ => .pure _)
  · exact .take_bind (kind_of_isAt hdot) rfl rfl
      ((brackets_memberAccess h).bind (fun _ => Brackets.pure _) _ hadvance)
  · exact open_of_isAt hc hbracket rfl fun _ => brackets_index h
  · refine .take_bind (kind_of_isOperator hreference) rfl rfl (.cursor_bind (.ite (fun hnew => ?_)
      fun _ => ?_))
    · exact .take_bind (kind_of_isWord hnew) rfl rfl (.pure _)
    · exact Brackets.expectName.bind (fun _ => Brackets.pure _) _ hadvance
  · exact .take_bind (kind_of_isOperatorIn hstep) rfl rfl (.pure _)

theorem brackets_leading : leading.Brackets source U none := by
  refine fun c hc => .cursor_bind (.ite (fun hoperator => ?_) fun _ => ?_)
  · exact .take_bind (kind_of_isOperatorIn hoperator) rfl rfl (.pure _)
  · cases hcast : Token.castLength? c.tokens with
    | none => exact .pure _
    | some n =>
        refine .forward_bind (bracketed_forward hc ?_ (Token.bracketed_cast hcast)) (.pure _)
        exact Token.not_isEnd_of_cast hcast

theorem brackets_unary (h : inner.BracketsInside source U) :
    (unary inner).Brackets source U none :=
  (rounds brackets_leading).bind fun _ => (brackets_operand h).bind fun _ =>
    rounds (brackets_selector h)

theorem brackets_testedName :
    (do if (← here).isName then let _ ← take : Reading Unit).Brackets source U none :=
  fun _ _ => .here_bind (.ite
    (fun hname => .take_bind (Token.kind_of_isName hname) rfl rfl (.pure _)) fun _ => .pure _)

theorem brackets_binary (h : inner.BracketsInside source U) :
    (binary inner).Brackets source U none := by
  have htype := (@brackets_unreportedType source U _ _).bind fun _ => brackets_testedName
  refine (brackets_unary h).bind fun _ => rounds fun c hc => .cursor_bind (.ite (fun htest => ?_)
    fun _ => .ite (fun hoperator => ?_) fun _ => .pure _)
  · have hadvance := hc.advance
    have hbehind : (do
        if (← cursor).isAtWord "final" then let _ ← take
        unreportedType
        if (← here).isName then let _ ← take : Reading Unit).Brackets source U none := by
      refine fun d hd => .cursor_bind (.ite (fun hfinal => ?_) fun _ => htype d hd)
      exact .take_bind (kind_of_isWord hfinal) rfl rfl
        (htype _ hd.advance)
    have hall : typeTest.BracketsAt U none c :=
      .take_bind (kind_of_isWord htest) rfl rfl (hbehind _ hadvance)
    exact hall.bind fun _ _ _ _ _ => .pure _
  · exact .take_bind (kind_of_isOperatorIn hoperator) rfl rfl
      ((brackets_unary h).bind (fun _ => Brackets.pure _) _ hc.advance)

theorem brackets_conditional (h : inner.BracketsInside source U) :
    (conditional inner).Brackets source U none :=
  (brackets_binary h).bind fun _ _ hc => .cursor_bind (.ite
    (fun hmark => .take_bind (kind_of_isOperator hmark) rfl rfl
      (h.branches _ hc.advance)) fun _ => .pure _)

theorem brackets_assignment (h : inner.BracketsInside source U) :
    (assignment inner).Brackets source U none :=
  (brackets_conditional h).bind fun _ => rounds fun _ hc => .here_bind (.ite
    (fun hoperator => .take_bind (kind_of_isOperatorIn hoperator) rfl rfl
      ((brackets_conditional h).bind (fun _ => Brackets.pure _) _ hc.advance))
    fun _ => .pure _)

theorem brackets_branches (h : inner.BracketsInside source U) :
    (branches inner).Brackets source U none :=
  (brackets_assignment h).bind fun _ => Brackets.expectOperator.bind fun _ => brackets_conditional h

end Reading

/-- At every nesting level the brackets in expressions are paired. -/
theorem Enclosed.bracketsInside_within (source : Text) (U : Reading.Unreading) [Reading.LeavesInside U]
    (levels : Nat) : (Enclosed.within levels).BracketsInside source U := by
  induction levels with
  | zero => exact ⟨fun _ _ => .fail _, fun _ _ => .fail _, fun _ _ => .fail _⟩
  | succ levels ih =>
      exact ⟨Reading.brackets_assignment ih, Reading.brackets_branches ih,
        Reading.brackets_arrayInitializer ih⟩

end CodeFrames
