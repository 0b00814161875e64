import CodeFrames.Proofs.Reporting.Expression
import CodeFrames.Reading.Member

/-!
# Nesting levels

A reading with fewer nesting levels to go does what the reading with more does, or stops before with
the fault that the nesting is too deep.
-/

namespace CodeFrames

namespace Reading

variable {α β : Type}

/-- The first reading does as the second one, or it stops because the nesting is too deep, and then the
second one reports at least as much. -/
def Below (r s : Reading α) : Prop :=
  ∀ c, r c = s c ∨
    ∃ events line, r c = (events, .error ⟨line, .nestedTooDeep⟩) ∧ events <+: (s c).1

namespace Below

variable {r s : Reading α} {f g : α → Reading β}

theorem refl (r : Reading α) : r.Below r := fun _ => .inl rfl

/-- What the first reading comes to the end of, so does the second. -/
theorem eq_of_ok (h : r.Below s) {c d : Cursor} {events : List Event} {a : α}
    (hrun : r c = (events, .ok (a, d))) : s c = (events, .ok (a, d)) := by
  obtain heq | ⟨more, line, herror, -⟩ := h c
  · exact heq.symm.trans hrun
  · cases hrun.symm.trans herror

theorem tooDeep (s : Reading α) : (Reading.fail .nestedTooDeep : Reading α).Below s := fun c =>
  .inr ⟨[], c.here.line, rfl, List.nil_prefix⟩

theorem bind (h : r.Below s) (hf : ∀ a, (f a).Below (g a)) : (r >>= f).Below (s >>= g) := by
  intro c
  rcases h c with heq | ⟨events, line, hr, hprefix⟩
  · cases hs : s c with
    | mk events result =>
        rw [hs] at heq
        cases result with
        | error e => exact .inl (by rw [bind_of_error f heq, bind_of_error g hs])
        | ok p =>
            obtain ⟨a, d⟩ := p
            rw [bind_of_ok f heq, bind_of_ok g hs]
            rcases hf a d with hfg | ⟨more, line, hfg, hmore⟩
            · exact .inl (by rw [hfg])
            · refine .inr ⟨events ++ more, line, by rw [hfg], ?_⟩
              exact (List.prefix_append_right_inj events).mpr hmore
  · refine .inr ⟨events, line, bind_of_error f hr, hprefix.trans ?_⟩
    cases hs : s c with
    | mk all result =>
        cases result with
        | error e => rw [bind_of_error g hs]
        | ok p =>
            obtain ⟨a, d⟩ := p
            rw [bind_of_ok g hs]
            exact List.prefix_append _ _

theorem behind (hf : ∀ a, (f a).Below (g a)) : (r >>= f).Below (r >>= g) := (refl r).bind hf

theorem front (h : r.Below s) : (r >>= f).Below (s >>= f) := h.bind fun _ => refl _

theorem ite {p : Prop} [Decidable p] {r' s' : Reading α} (h : r.Below s) (h' : r'.Below s') :
    (if p then r else r').Below (if p then s else s') := by
  split
  · exact h
  · exact h'

theorem rounds {body body' : Reading Bool} (h : body.Below body') :
    (Reading.repeatWhile body).Below (Reading.repeatWhile body') := by
  have hloop (budget : List Token) : (loop body budget).Below (loop body' budget) := by
    induction budget with
    | nil => exact h.front
    | cons t budget ih => exact h.bind fun again => ite ih (refl _)
  exact fun c => hloop c.ahead c

end Below

end Reading

structure Enclosed.Below (inner inner' : Enclosed) : Prop where
  assignment : inner.assignment.Below inner'.assignment
  branches : inner.branches.Below inner'.branches
  arrayInitializer : inner.arrayInitializer.Below inner'.arrayInitializer
  statement : inner.statement.Below inner'.statement

namespace Reading

variable {inner inner' : Enclosed}

open Below

/-! ## Expressions -/

theorem below_expression (h : inner.Below inner') : (expression inner).Below (expression inner') :=
  behind fun _ => ite (refl _) (behind fun _ => h.assignment.front)

theorem below_arguments (h : inner.Below inner') : (arguments inner).Below (arguments inner') := by
  have hround := rounds (behind (r := here) fun t : Token =>
    behind (r := emit (.argument t.toSpan)) fun _ => (below_expression h).front (f := fun _ => comma))
  exact behind fun _ => behind fun _ => behind fun _ => ite hround.front (refl _)

theorem below_optionalArguments (h : inner.Below inner') :
    (optionalArguments inner).Below (optionalArguments inner') :=
  behind fun _ => ite (below_arguments h) (refl _)

theorem below_arrayInitializer (h : inner.Below inner') :
    (arrayInitializer inner).Below (arrayInitializer inner') :=
  behind fun _ => (rounds (behind fun _ => ite (refl _)
    (ite h.arrayInitializer.front (below_expression h).front))).front

theorem below_dimension (h : inner.Below inner') : (dimension inner).Below (dimension inner') :=
  behind fun _ => ite (behind fun _ => behind fun _ => ite (below_expression h).front (refl _))
    (refl _)

theorem below_createdObject (h : inner.Below inner') :
    (createdObject inner).Below (createdObject inner') := by
  refine behind fun t => ?_
  split
  · exact (below_arguments h).front
  · exact (rounds (below_dimension h)).bind fun _ => behind fun _ =>
      ite (below_arrayInitializer h) (refl _)
  · exact refl _

theorem below_creation (h : inner.Below inner') : (creation inner).Below (creation inner') := by
  refine behind fun _ => behind fun c => ?_
  split
  · exact refl _
  · exact behind fun _ => below_createdObject h

theorem below_operand (h : inner.Below inner') : (operand inner).Below (operand inner') := by
  refine behind fun c => ?_
  cases operandShape c with
  | parenthesized => exact behind fun _ => (below_expression h).front
  | creation => exact below_creation h
  | reference => exact behind fun _ => below_optionalArguments h
  | literal => exact refl _
  | lambda => exact refl _
  | typeLiteral word => exact refl _
  | reserved word => exact refl _
  | other => exact refl _

theorem below_memberAccess (h : inner.Below inner') :
    (memberAccess inner).Below (memberAccess inner') := by
  have hname := behind (r := expectName) fun _ : Token => below_optionalArguments h
  exact behind fun _ => ite (below_creation h) (ite (refl _) (ite (behind fun _ => hname) hname))

theorem below_selector (h : inner.Below inner') : (selector inner).Below (selector inner') :=
  behind fun _ => ite (behind fun _ => (below_memberAccess h).front)
    (ite (behind fun _ => (below_expression h).front) (refl _))

theorem below_unary (h : inner.Below inner') : (unary inner).Below (unary inner') :=
  behind fun _ => (below_operand h).bind fun _ => rounds (below_selector h)

theorem below_binary (h : inner.Below inner') : (binary inner).Below (binary inner') :=
  (below_unary h).bind fun _ => rounds (behind fun _ => ite (refl _)
    (ite (behind fun _ => (below_unary h).front) (refl _)))

theorem below_conditional (h : inner.Below inner') :
    (conditional inner).Below (conditional inner') :=
  (below_binary h).bind fun _ => behind fun _ => ite (behind fun _ => h.branches) (refl _)

theorem below_assignment (h : inner.Below inner') : (assignment inner).Below (assignment inner') :=
  (below_conditional h).bind fun _ => rounds (behind fun _ =>
    ite (behind fun _ => (below_conditional h).front) (refl _))

theorem below_branches (h : inner.Below inner') : (branches inner).Below (branches inner') :=
  (below_assignment h).bind fun _ => behind fun _ => below_conditional h

/-! ## Statements -/

theorem below_blockRest (h : inner.Below inner') : (blockRest inner).Below (blockRest inner') :=
  (rounds (behind fun _ => ite (refl _) (ite (refl _) h.statement.front))).front

theorem below_block (h : inner.Below inner') : (block inner).Below (block inner') :=
  behind fun _ => behind fun _ => below_blockRest h

theorem below_body (h : inner.Below inner') : (body inner).Below (body inner') :=
  behind fun _ => ite (below_block h) (behind fun _ => behind fun _ => h.statement.front)

theorem below_condition (h : inner.Below inner') : (condition inner).Below (condition inner') :=
  behind fun _ => (below_expression h).front

theorem below_furtherBranch (h : inner.Below inner') :
    (furtherBranch inner).Below (furtherBranch inner') :=
  behind fun _ => ite (refl _) (ite
    (behind fun _ => behind fun _ => behind fun _ => (below_condition h).bind fun _ =>
      (below_body h).front)
    (behind fun _ => behind fun _ => (below_body h).front))

theorem below_ifChain (h : inner.Below inner') : (ifChain inner).Below (ifChain inner') :=
  behind fun _ => behind fun _ => (below_condition h).bind fun _ => (below_body h).bind fun _ =>
    (rounds (below_furtherBranch h)).front

theorem below_whileLoop (h : inner.Below inner') : (whileLoop inner).Below (whileLoop inner') :=
  behind fun _ => behind fun _ => (below_condition h).bind fun _ => (below_body h).front

theorem below_returned (h : inner.Below inner') : (returned inner).Below (returned inner') :=
  behind fun _ => behind fun _ => behind fun _ => ite (below_expression h).front (refl _)

theorem below_thrown (h : inner.Below inner') : (thrown inner).Below (thrown inner') :=
  behind fun _ => behind fun _ => (below_expression h).front

theorem below_expressionStatement (h : inner.Below inner') :
    (expressionStatement inner).Below (expressionStatement inner') :=
  behind fun _ => behind fun _ => (below_expression h).front

theorem below_variableValue (h : inner.Below inner') :
    (variableValue inner).Below (variableValue inner') :=
  behind fun _ => ite (behind fun _ => (below_arrayInitializer h).front) (below_expression h)

theorem below_declarator (h : inner.Below inner') : (declarator inner).Below (declarator inner') :=
  behind fun _ => behind fun _ => ite (refl _)
    (behind fun _ => ite (behind fun _ => (below_variableValue h).front) (refl _))

theorem below_localVariables (h : inner.Below inner') :
    (localVariables inner).Below (localVariables inner') :=
  behind fun _ => behind fun _ => behind fun _ => behind fun _ =>
    (rounds (below_declarator h)).front

theorem below_statement (h : inner.Below inner') : (statement inner).Below (statement inner') := by
  refine behind fun _ => behind fun c => ?_
  cases statementShape c with
  | block => exact below_block h
  | ifChain => exact below_ifChain h
  | whileLoop => exact below_whileLoop h
  | returned => exact below_returned h
  | thrown => exact below_thrown h
  | locals => exact below_localVariables h
  | expression => exact below_expressionStatement h
  | empty => exact refl _
  | jump jump => exact refl _
  | misplaced fault => exact refl _
  | unsupported construct => exact refl _

/-! ## Members -/

theorem below_method (h : inner.Below inner') : (method inner).Below (method inner') :=
  behind fun _ => behind fun _ => behind fun _ => behind fun _ => behind fun _ => behind fun _ =>
    behind fun _ => behind fun _ => behind fun _ => ite (refl _) (below_block h).front

theorem below_delegateCall (h : inner.Below inner') :
    (delegateCall inner).Below (delegateCall inner') :=
  behind fun _ => behind fun _ => behind fun _ => behind fun _ => behind fun _ =>
    (below_arguments h).front

theorem below_constructor (h : inner.Below inner') :
    (constructor inner).Below (constructor inner') :=
  behind fun _ => behind fun _ => behind fun _ => behind fun _ => behind fun _ => behind fun _ =>
    behind fun _ => behind fun _ => behind fun _ => behind fun _ =>
      ite ((below_delegateCall h).bind fun _ => (below_blockRest h).front)
        (below_blockRest h).front

theorem below_member (h : inner.Below inner') : (member inner).Below (member inner') := by
  refine behind fun c => ?_
  cases memberShape c with
  | constructor => exact below_constructor h
  | method => exact below_method h
  | statement => exact h.statement
  | directive word => exact refl _
  | unsupported construct head skipped => exact refl _

theorem below_members (h : inner.Below inner') : (members inner).Below (members inner') :=
  (rounds (behind fun _ => ite (refl _) (behind fun _ => (below_member h).front))).front

end Reading

theorem Enclosed.below_within {levels levels' : Nat} (h : levels ≤ levels') :
    (Enclosed.within levels).Below (Enclosed.within levels') := by
  induction levels generalizing levels' with
  | zero => exact ⟨.tooDeep _, .tooDeep _, .tooDeep _, .tooDeep _⟩
  | succ levels ih =>
      cases levels' with
      | zero => omega
      | succ levels' =>
          have hinner := ih (Nat.le_of_succ_le_succ h)
          exact ⟨Reading.below_assignment hinner, Reading.below_branches hinner,
            Reading.below_arrayInitializer hinner, Reading.below_statement hinner⟩

end CodeFrames
