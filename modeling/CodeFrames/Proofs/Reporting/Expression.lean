import CodeFrames.Proofs.Reporting.Basic
import CodeFrames.Reading.Expression

/-!
# What the readings of expressions report

Every production inside an expression reports the events of `insides`, and a whole expression is
closed over a slice of the source, since the reading of an expression steps over a token at least.
-/

namespace CodeFrames

open scoped Computability
open Sentence

namespace Reading

variable {α β : Type} {source : Text} {width : Option Nat}

/-! ## Readings that step over a token -/

/-- Every successful run from the cursor steps over a token. -/
def AdvancesAt (r : Reading α) (c : Cursor) : Prop :=
  ∀ events a d, r c = (events, .ok (a, d)) → c.Passes d

/-- Every successful run steps over a token. -/
def Advances (source : Text) (r : Reading α) : Prop :=
  ∀ c : Cursor, Token.Laid source c.tokens → r.AdvancesAt c

theorem Reports.reaches {r : Reading α} {L : Language Event} (h : r.Reports source L) {c d : Cursor}
    (hc : Token.Laid source c.tokens) {events : List Event} {a : α}
    (hr : r c = (events, .ok (a, d))) : c.Reaches d :=
  ((h c hc).mem_and_reaches hr).2

theorem exists_of_bind_ok {r : Reading α} {f : α → Reading β} {c e : Cursor} {events : List Event}
    {b : β} (h : (r >>= f) c = (events, .ok (b, e))) :
    ∃ first a d more, r c = (first, .ok (a, d)) ∧ f a d = (more, .ok (b, e)) ∧
      events = first ++ more := by
  cases hr : r c with
  | mk first result =>
      cases result with
      | error error => simp [bind_of_error f hr] at h
      | ok p =>
          obtain ⟨a, d⟩ := p
          rw [bind_of_ok f hr, Prod.mk.injEq] at h
          exact ⟨first, a, d, (f a d).1, rfl, Prod.ext rfl h.2, h.1.symm⟩

theorem AdvancesAt.bind_left {r : Reading α} {f : α → Reading β} {c : Cursor} {L : Language Event}
    (hc : Token.Laid source c.tokens) (h : r.AdvancesAt c) (hf : ∀ a, (f a).Reports source L) :
    (r >>= f).AdvancesAt c := by
  intro events b e hbind
  obtain ⟨first, a, d, more, hr, hrest, -⟩ := exists_of_bind_ok hbind
  have hpasses := h first a d hr
  exact hpasses.trans_reaches ((hf a).reaches (hpasses.reaches.laid hc) hrest)

theorem Advances.bind_left {r : Reading α} {f : α → Reading β} {L : Language Event}
    (h : r.Advances source) (hf : ∀ a, (f a).Reports source L) : (r >>= f).Advances source :=
  fun c hc => (h c hc).bind_left hc hf

theorem Advances.bind_right {r : Reading α} {f : α → Reading β} {L : Language Event}
    (h : r.Reports source L) (hf : ∀ a, (f a).Advances source) : (r >>= f).Advances source := by
  intro c hc events b e hbind
  obtain ⟨first, a, d, more, hr, hrest, -⟩ := exists_of_bind_ok hbind
  have hreaches := h.reaches hc hr
  exact hreaches.trans_passes (hf a d (hreaches.laid hc) more b e hrest)

theorem advancesAt_take {c : Cursor} (hc : Token.Laid source c.tokens) (hend : ¬ c.here.isEnd) :
    take.AdvancesAt c := by
  rintro events a d h
  obtain ⟨rfl, h⟩ := Prod.mk.injEq .. |>.mp h
  obtain ⟨rfl, rfl⟩ := by simpa using h
  exact Cursor.passes_advance hc hend

theorem advancesAt_forward {c : Cursor} (hc : Token.Laid source c.tokens) (hend : ¬ c.here.isEnd)
    {n : Nat} (hn : 0 < n) : (forward n).AdvancesAt c := by
  rintro events a d h
  obtain ⟨n, rfl⟩ : ∃ k, n = k + 1 := ⟨n - 1, by omega⟩
  obtain ⟨rfl, h⟩ := Prod.mk.injEq .. |>.mp h
  obtain ⟨-, rfl⟩ := by simpa using h
  exact Cursor.passes_forward hc hend n

theorem advancesAt_of_error {r : Reading α} {c : Cursor} {events : List Event} {e : SourceError}
    (h : r c = (events, .error e)) : r.AdvancesAt c := by
  intro more a d hr
  simp [h] at hr

end Reading

/-! ## Stepping over code -/

namespace Reading.Reports

variable {source : Text} {L : Language Event}

theorem skipGroup : Reading.skipGroup.Reports source 1 := by
  refine cursor.silent fun c => ?_
  split
  · exact here.silent fun _ => fail _
  · exact forward _

theorem skipToSemicolon : Reading.skipToSemicolon.Reports source 1 := by
  refine repeatWhile_silent (here.silent fun t => ?_)
  split
  · exact take.silent fun _ => pure _
  · exact skipGroup.silent fun _ => pure _
  · exact skipGroup.silent fun _ => pure _
  · exact skipGroup.silent fun _ => pure _
  · exact refuse _
  · exact refuse _
  · exact take.silent fun _ => pure _

theorem skipWordAndGroup : Reading.skipWordAndGroup.Reports source 1 :=
  take.silent fun _ => skipGroup

theorem skipTypeBody (word : Text) : (Reading.skipTypeBody word).Reports source 1 := by
  refine (repeatWhile_silent (here.silent fun t => ?_)).silent fun _ => skipGroup
  refine ite (fun _ => pure _) fun _ => ite (fun _ => fail _) fun _ => ?_
  exact take.silent fun _ => pure _

/-- What follows the resources of a `try`. -/
theorem tryBlocks : (do
    Reading.skipGroup
    Reading.repeatWhile do
      if (← Reading.cursor).isAtWord "catch" then
        Reading.skipWordAndGroup
        Reading.skipGroup
        return true
      else return false
    if (← Reading.cursor).isAtWord "finally" then Reading.skipWordAndGroup :
      Reading Unit).Reports source 1 := by
  refine skipGroup.silent fun _ => (repeatWhile_silent ?_).silent fun _ =>
    cursor.silent fun _ => ite (fun _ => skipWordAndGroup) fun _ => pure _
  exact cursor.silent fun _ => ite (fun _ => skipWordAndGroup.silent fun _ =>
    skipGroup.silent fun _ => pure _) fun _ => pure _

theorem skipTry : Reading.skipTry.Reports source 1 :=
  take.silent fun _ => cursor.silent fun _ => ite (fun _ => skipGroup.silent fun _ => tryBlocks)
    fun _ => tryBlocks

theorem skipNested (budget : List Token) : (Reading.skipNested budget).Reports source 1 := by
  induction budget with
  | nil => exact skipToSemicolon
  | cons t budget ih =>
      refine cursor.silent fun c => ?_
      split
      · exact skipGroup
      · exact take.silent fun _ => pure _
      · exact skipWordAndGroup.silent fun _ => ih.silent fun _ => cursor.silent fun _ =>
          ite (fun _ => take.silent fun _ => ih) fun _ => pure _
      · exact skipWordAndGroup.silent fun _ => ih
      · exact skipWordAndGroup.silent fun _ => skipGroup
      · exact take.silent fun _ => ih.silent fun _ => cursor.silent fun _ =>
          ite (fun _ => skipWordAndGroup.silent fun _ => (expect _ _).silent fun _ => pure _)
            fun _ => fail _
      · exact skipTry
      · exact skipTypeBody _
      · exact (forward 2).silent fun _ => ih
      · exact skipToSemicolon

theorem skipStatement : Reading.skipStatement.Reports source 1 := fun c hc =>
  skipNested c.ahead c hc

theorem skipLambdaBody : Reading.skipLambdaBody.Reports source 1 := by
  refine here.silent fun t => ite (fun _ => skipGroup) fun _ => ite (fun _ => refuse _) fun _ => ?_
  refine repeatWhile_silent (here.silent fun t => ?_)
  refine ite (fun _ => skipGroup.silent fun _ => pure _) fun _ => ite (fun _ => pure _) fun _ => ?_
  exact take.silent fun _ => pure _

theorem unsupported (place : Span) (construct : String) :
    (Reading.emit (.unsupported place construct)).Reports source insides :=
  (emit_single (fun u : Span × String => Event.unsupported u.1 u.2) (place, construct)).mono
    unsupported_le_insides

theorem lambda : Reading.lambda.Reports source insides := by
  have hrest (u : Unit) : (do let _ ← Reading.take; Reading.skipLambdaBody :
      Reading Unit).Reports source 1 := take.silent fun _ => skipLambdaBody
  refine here.silent fun head => (unsupported _ _).bind_silent fun _ => ?_
  exact ite (fun _ => skipGroup.silent hrest) fun _ => take.silent fun _ => hrest ()

theorem skipTypeArguments : Reading.skipTypeArguments.Reports source insides := by
  refine here.silent fun t => (unsupported _ _).bind_silent fun _ => cursor.silent fun c => ?_
  split
  · exact fail _
  · exact forward _

end Reading.Reports

/-! ## Productions of expressions -/

/-- What is asked of the productions one nesting level deeper. -/
structure Enclosed.Reports (source : Text) (width : Option Nat) (inner : Enclosed) : Prop where
  assignment : inner.assignment.Reports source insides
  advances : inner.assignment.Advances source
  branches : inner.branches.Reports source insides
  arrayInitializer : inner.arrayInitializer.Reports source insides
  statement : inner.statement.Reports source (items source width)

namespace Reading

variable {α β : Type} {source : Text} {width : Option Nat} {inner : Enclosed}

/-- Two readings inside an expression, one after the other. -/
theorem Reports.inside {r : Reading α} {f : α → Reading β} (h : r.Reports source insides)
    (hf : ∀ a, (f a).Reports source insides) : (r >>= f).Reports source insides :=
  (h.bind hf).mono insides_mul_insides

theorem Reports.insides_of_silent {r : Reading α} (h : r.Reports source 1) :
    r.Reports source insides := by
  refine h.mono ?_
  rintro _ rfl
  exact nil_mem_insides

/-- A loop whose rounds are inside an expression. -/
theorem Reports.repeatWhile_insides {body : Reading Bool} (h : body.Reports source insides) :
    (Reading.repeatWhile body).Reports source insides :=
  (repeatWhile_kstar h).mono insides_kstar

/-- The events of an expression around what is inside it.  Where the inside is stepped over to the
end, the bounds cut a text out of the source. -/
theorem reportsAt_whole {r : Reading Unit} (h : r.Reports source insides) {c : Cursor}
    (hc : Token.Laid source c.tokens) (hr : r.AdvancesAt c) :
    (do
      emit (.openExpression c.here.toSpan)
      r
      emit (.closeExpression (← before).toSpan false) : Reading Unit).ReportsAt c
      (expressions source) := by
  have hinside := h c hc
  unfold ReportsAt at hinside
  cases hrun : r c with
  | mk events result =>
      rw [hrun] at hinside
      cases result with
      | error e =>
          obtain ⟨more, warnings, hinside⟩ := hinside
          have hwhole : Expression source _ _ _ := .empty c.here.toSpan c.here.toSpan hinside
          rw [List.append_assoc, ← List.cons_append] at hwhole
          refine ReportsAt.of_error (e := e) ?_ ⟨_, _, hwhole⟩
          rw [bind_of_ok _ rfl, bind_of_error _ hrun]
          rfl
      | ok p =>
          obtain ⟨u, d⟩ := p
          obtain ⟨⟨warnings, hinside⟩, hreaches⟩ := hinside
          have hslice := hc.slice?_isSome (hr events u d hrun).before_mem
          obtain ⟨text, htext⟩ := Option.isSome_iff_exists.mp hslice
          refine ReportsAt.of_ok (a := ()) (d := d) ?_
            ⟨_, _, .bounded c.here.toSpan d.before.toSpan hinside htext⟩ hreaches
          rw [bind_of_ok _ rfl, bind_of_ok _ hrun]
          rfl

theorem reports_expression (h : inner.Reports source width) :
    (expression inner).Reports source (expressions source) := by
  intro c hc
  have hwhole := reportsAt_whole h.assignment hc (h.advances c hc)
  change (if c.here.endsExpression = true then _ else _ : Reading Unit).ReportsAt c _
  split
  · exact Reports.refuse_bind .expression _ c hc
  · exact hwhole

theorem reports_announced (h : inner.Reports source width) :
    (do
      emit (.argument (← here).toSpan)
      expression inner
      comma : Reading Bool).Reports source (single .argument * expressions source) :=
  Reports.here.silent fun first => (Reports.emit_single Event.argument first.toSpan).bind fun _ =>
    (reports_expression h).bind_silent fun _ => Reports.comma

/-- An argument list as one of a call of another constructor would be. -/
theorem reports_arguments (h : inner.Reports source width) :
    (arguments inner).Reports source
      (single .openArguments * (argumentLists source * single .closeArguments)) := by
  have hclose (u : Unit) : (do
      let paren ← expect .closeParen ")"
      emit (.closeArguments paren.toSpan) : Reading Unit).Reports source
        (single .closeArguments) :=
    (Reports.expect _ _).silent fun paren => Reports.emit_single Event.closeArguments paren.toSpan
  refine (Reports.expect _ _).silent fun paren =>
    (Reports.emit_single Event.openArguments paren.toSpan).bind fun _ =>
      Reports.cursor.silent fun c => Reports.ite (fun _ => ?_) fun _ => ?_
  · exact (Reports.repeatWhile_kstar (reports_announced h)).bind hclose
  · refine (hclose ()).mono ?_
    rintro events hevents
    exact ⟨[], Language.nil_mem_kstar _, events, hevents, rfl⟩

theorem reports_arguments_insides (h : inner.Reports source width) :
    (arguments inner).Reports source insides :=
  (reports_arguments h).mono arguments_le_insides

theorem reports_optionalArguments (h : inner.Reports source width) :
    (optionalArguments inner).Reports source insides :=
  Reports.cursor.silent fun _ => Reports.ite (fun _ => reports_arguments_insides h) fun _ =>
    (Reports.pure ()).insides_of_silent

theorem reports_expression_insides (h : inner.Reports source width) :
    (expression inner).Reports source insides :=
  (reports_expression h).mono expressions_le_insides

/-- The values of an array initializer behind its opening brace. -/
theorem reports_values (h : inner.Reports source width) :
    (do
      repeatWhile do
        let c ← cursor
        if c.isAt .closeBrace then return false
        if c.isAt .openBrace then inner.arrayInitializer else expression inner
        comma
      let _ ← expect .closeBrace "\x7d" : Reading Unit).Reports source insides := by
  refine (Reports.repeatWhile_insides ?_).bind_silent fun _ =>
    (Reports.expect _ _).silent fun _ => Reports.pure ()
  refine Reports.cursor.silent fun c => Reports.ite (fun _ => (Reports.pure false).insides_of_silent)
    fun _ => Reports.ite (fun _ => ?_) fun _ => ?_
  · exact h.arrayInitializer.bind_silent fun _ => Reports.comma
  · exact (reports_expression_insides h).bind_silent fun _ => Reports.comma

theorem reports_arrayInitializer (h : inner.Reports source width) :
    (arrayInitializer inner).Reports source insides :=
  (Reports.expect _ _).silent fun _ => reports_values h

theorem reports_dimension (h : inner.Reports source width) :
    (dimension inner).Reports source insides := by
  have hclose (u : Unit) : (do
      let _ ← expect .closeBracket "]"
      return true : Reading Bool).Reports source 1 :=
    (Reports.expect _ _).silent fun _ => Reports.pure true
  refine Reports.cursor.silent fun c => Reports.ite (fun _ => ?_) fun _ =>
    (Reports.pure false).insides_of_silent
  exact Reports.take.silent fun _ => Reports.cursor.silent fun _ =>
    Reports.ite (fun _ => (reports_expression_insides h).bind_silent hclose) fun _ =>
      (hclose ()).insides_of_silent

theorem reports_createdObject (h : inner.Reports source width) :
    (createdObject inner).Reports source insides := by
  refine Reports.here.silent fun t => ?_
  split
  · refine (reports_arguments_insides h).inside fun _ => Reports.here.silent fun brace =>
      Reports.ite (fun _ => ?_) fun _ => (Reports.pure ()).insides_of_silent
    exact (Reports.unsupported _ _).bind_silent fun _ => Reports.skipGroup
  · refine (Reports.repeatWhile_insides (reports_dimension h)).inside fun _ =>
      Reports.cursor.silent fun _ => Reports.ite (fun _ => ?_) fun _ =>
        (Reports.pure ()).insides_of_silent
    exact reports_arrayInitializer h
  · exact Reports.refuse _

theorem reports_creation (h : inner.Reports source width) :
    (creation inner).Reports source insides := by
  refine Reports.take.silent fun _ => Reports.cursor.silent fun c => ?_
  split
  · exact Reports.refuse _
  · exact (Reports.forward _).silent fun _ => reports_createdObject h

theorem reports_typeLiteral (word : Text) : (typeLiteral word).Reports source 1 :=
  Reports.unreportedType.silent fun _ => Reports.cursor.silent fun _ =>
    Reports.ite (fun _ => Reports.fail _) fun _ => Reports.pure ()

theorem reports_operand (h : inner.Reports source width) :
    (operand inner).Reports source insides := by
  refine Reports.cursor.silent fun c => ?_
  split
  · exact (Reports.take.silent fun _ => Reports.pure ()).insides_of_silent
  · exact Reports.lambda
  · exact Reports.take.silent fun _ => (reports_expression_insides h).bind_silent fun _ =>
      (Reports.expect _ _).silent fun _ => Reports.pure ()
  · exact reports_creation h
  · exact Reports.take.silent fun _ => reports_optionalArguments h
  · exact (reports_typeLiteral _).insides_of_silent
  · exact Reports.fail _
  · exact Reports.refuse _

theorem reports_memberAccess (h : inner.Reports source width) :
    (memberAccess inner).Reports source insides := by
  have hname (u : Unit) : (do let _ ← expectName; optionalArguments inner :
      Reading Unit).Reports source insides :=
    Reports.expectName.silent fun _ => reports_optionalArguments h
  refine Reports.cursor.silent fun c => Reports.ite (fun _ => reports_creation h) fun _ =>
    Reports.ite (fun _ => ?_) fun _ => Reports.ite (fun _ => ?_) fun _ => hname ()
  · exact (Reports.take.silent fun _ => Reports.pure ()).insides_of_silent
  · exact Reports.skipTypeArguments.inside hname

theorem reports_selector (h : inner.Reports source width) :
    (selector inner).Reports source insides := by
  refine Reports.cursor.silent fun c => Reports.ite (fun _ => ?_) fun _ =>
    Reports.ite (fun _ => ?_) fun _ => Reports.ite (fun _ => ?_) fun _ =>
      Reports.ite (fun _ => ?_) fun _ => (Reports.pure false).insides_of_silent
  · exact Reports.take.silent fun _ => (reports_memberAccess h).bind_silent fun _ =>
      Reports.pure true
  · exact Reports.take.silent fun _ => (reports_expression_insides h).bind_silent fun _ =>
      (Reports.expect _ _).silent fun _ => Reports.pure true
  · refine Reports.take.silent fun _ => Reports.cursor.silent fun _ => Reports.insides_of_silent ?_
    exact Reports.ite (fun _ => Reports.take.silent fun _ => Reports.pure true) fun _ =>
      Reports.expectName.silent fun _ => Reports.pure true
  · exact (Reports.take.silent fun _ => Reports.pure true).insides_of_silent

theorem reports_leading : leading.Reports source 1 := by
  refine Reports.cursor.silent fun c => Reports.ite (fun _ => ?_) fun _ => ?_
  · exact Reports.take.silent fun _ => Reports.pure true
  · split
    · exact (Reports.forward _).silent fun _ => Reports.pure true
    · exact Reports.pure false

theorem reports_unary (h : inner.Reports source width) : (unary inner).Reports source insides :=
  (Reports.repeatWhile_silent reports_leading).silent fun _ => (reports_operand h).inside fun _ =>
    Reports.repeatWhile_insides (reports_selector h)

theorem reports_typeTest : typeTest.Reports source 1 := by
  have hrest (u : Unit) : (do
      unreportedType
      if (← here).isName then let _ ← take : Reading Unit).Reports source 1 :=
    Reports.unreportedType.silent fun _ => Reports.here.silent fun _ =>
      Reports.ite (fun _ => Reports.take.silent fun _ => Reports.pure ()) fun _ => Reports.pure ()
  refine Reports.take.silent fun _ => Reports.cursor.silent fun _ =>
    Reports.ite (fun _ => Reports.take.silent fun _ => hrest ()) fun _ => hrest ()

/-- What stands behind the first operand of operators. -/
theorem reports_operations (h : inner.Reports source width) :
    (repeatWhile do
      let c ← cursor
      if c.isAtWord "instanceof" then
        typeTest
        return true
      else if c.here.isOperatorIn Token.binaryOperators then
        let _ ← take
        unary inner
        return true
      else return false).Reports source insides := by
  refine Reports.repeatWhile_insides (Reports.cursor.silent fun c => Reports.ite (fun _ => ?_)
    fun _ => Reports.ite (fun _ => ?_) fun _ => (Reports.pure false).insides_of_silent)
  · exact (reports_typeTest.silent fun _ => Reports.pure true).insides_of_silent
  · exact Reports.take.silent fun _ => (reports_unary h).bind_silent fun _ => Reports.pure true

theorem reports_binary (h : inner.Reports source width) : (binary inner).Reports source insides :=
  (reports_unary h).inside fun _ => reports_operations h

theorem reports_optionalBranches (h : inner.Reports source width) :
    (do
      if (← cursor).isAtOperator "?" then
        let _ ← take
        inner.branches : Reading Unit).Reports source insides :=
  Reports.cursor.silent fun _ => Reports.ite (fun _ => Reports.take.silent fun _ => h.branches)
    fun _ => (Reports.pure ()).insides_of_silent

theorem reports_conditional (h : inner.Reports source width) :
    (conditional inner).Reports source insides :=
  (reports_binary h).inside fun _ => reports_optionalBranches h

theorem reports_assigned (h : inner.Reports source width) :
    (repeatWhile do
      if (← here).isOperatorIn Token.assignmentOperators then
        let _ ← take
        conditional inner
        return true
      else return false).Reports source insides := by
  refine Reports.repeatWhile_insides (Reports.here.silent fun t => Reports.ite (fun _ => ?_)
    fun _ => (Reports.pure false).insides_of_silent)
  exact Reports.take.silent fun _ => (reports_conditional h).bind_silent fun _ => Reports.pure true

theorem reports_assignment (h : inner.Reports source width) :
    (assignment inner).Reports source insides :=
  (reports_conditional h).inside fun _ => reports_assigned h

theorem reports_branches (h : inner.Reports source width) :
    (branches inner).Reports source insides :=
  (reports_assignment h).inside fun _ => (Reports.expectOperator _).silent fun _ =>
    reports_conditional h

/-! ## Operands step over a token -/

theorem groupLengthFrom?_pos {depth n : Nat} {tokens : List Token}
    (h : Token.groupLengthFrom? depth tokens = some n) : 0 < n := by
  unfold Token.groupLengthFrom? at h
  repeat' split at h
  all_goals simp only [Option.map_eq_some_iff, Option.some.injEq, reduceCtorEq] at h
  all_goals first | (obtain ⟨m, -, rfl⟩ := h; exact Nat.succ_pos m) | omega

theorem typeLength?_pos {n : Nat} {tokens : List Token} (h : Token.typeLength? tokens = some n) :
    0 < n := by
  unfold Token.typeLength? at h
  obtain ⟨m, hname, rfl⟩ := Option.map_eq_some_iff.mp h
  unfold Token.typeNameLength? at hname
  repeat' split at hname
  all_goals simp only [Option.map_eq_some_iff, reduceCtorEq] at hname
  obtain ⟨k, -, rfl⟩ := hname
  omega

theorem cursor_bind (f : Cursor → Reading α) (c : Cursor) : (cursor >>= f) c = f c c := rfl

theorem here_bind (f : Token → Reading α) (c : Cursor) : (here >>= f) c = f c.here c := rfl

theorem take_bind (f : Token → Reading α) (c : Cursor) : (take >>= f) c = f c.here c.advance := rfl

theorem advancesAt_cursor {f : Cursor → Reading α} {c : Cursor} (h : (f c).AdvancesAt c) :
    (cursor >>= f).AdvancesAt c := h

theorem advancesAt_here {f : Token → Reading α} {c : Cursor} (h : (f c.here).AdvancesAt c) :
    (here >>= f).AdvancesAt c := h

theorem advancesAt_emit {e : Event} {f : Unit → Reading α} {c : Cursor} (h : (f ()).AdvancesAt c) :
    (emit e >>= f).AdvancesAt c := by
  intro events a d hrun
  obtain ⟨first, u, e, more, hfirst, hrest, -⟩ := exists_of_bind_ok hrun
  obtain ⟨-, h'⟩ := Prod.mk.injEq .. |>.mp hfirst
  obtain ⟨-, rfl⟩ := by simpa using h'
  exact h more a d hrest

theorem advancesAt_skipGroup {c : Cursor} (hc : Token.Laid source c.tokens)
    (hend : ¬ c.here.isEnd) : skipGroup.AdvancesAt c := by
  refine advancesAt_cursor ?_
  split
  · exact advancesAt_of_error (e := ⟨c.here.line, _⟩) rfl
  · next n hn => exact advancesAt_forward hc hend (groupLengthFrom?_pos hn)

theorem advancesAt_lambda {c : Cursor} (hc : Token.Laid source c.tokens) (hend : ¬ c.here.isEnd) :
    lambda.AdvancesAt c := by
  have hrest (u : Unit) : (do let _ ← take; skipLambdaBody : Reading Unit).Reports source 1 :=
    Reports.take.silent fun _ => Reports.skipLambdaBody
  refine advancesAt_here (advancesAt_emit ?_)
  split
  · exact (advancesAt_skipGroup hc hend).bind_left hc hrest
  · exact (advancesAt_take hc hend).bind_left hc fun _ => hrest ()

theorem advancesAt_typeLiteral {c : Cursor} (hc : Token.Laid source c.tokens)
    (hend : ¬ c.here.isEnd) (word : Text) : (typeLiteral word).AdvancesAt c := by
  have htype : unreportedType.AdvancesAt c := by
    refine advancesAt_cursor ?_
    split
    · exact advancesAt_of_error (e := ⟨c.here.line, _⟩) rfl
    · next n hn => exact advancesAt_forward hc hend (typeLength?_pos hn)
  exact htype.bind_left (L := 1) hc fun _ => Reports.cursor.silent fun _ =>
    Reports.ite (fun _ => Reports.fail _) fun _ => Reports.pure ()

theorem not_isEnd_of_operandShape {c : Cursor} (h : operandShape c ≠ .other) : ¬ c.here.isEnd := by
  intro hend
  simp only [Token.isEnd, decide_eq_true_eq] at hend
  exact h (by simp [operandShape, hend])

theorem advances_operand (h : inner.Reports source width) : (operand inner).Advances source := by
  intro c hc
  by_cases hother : operandShape c = .other
  · refine advancesAt_cursor ?_
    rw [hother]
    exact advancesAt_of_error (e := ⟨c.here.line, _⟩) rfl
  have hend := not_isEnd_of_operandShape hother
  have htake := advancesAt_take hc hend
  refine advancesAt_cursor ?_
  split
  · exact htake.bind_left (L := 1) hc fun _ => Reports.pure ()
  · exact advancesAt_lambda hc hend
  · exact htake.bind_left (L := insides) hc fun _ =>
      (reports_expression_insides h).bind_silent fun _ =>
        (Reports.expect _ _).silent fun _ => Reports.pure ()
  · refine htake.bind_left (L := insides) hc fun _ => Reports.cursor.silent fun c => ?_
    split
    · exact Reports.refuse _
    · exact (Reports.forward _).silent fun _ => reports_createdObject h
  · exact htake.bind_left hc fun _ => reports_optionalArguments h
  · exact advancesAt_typeLiteral hc hend _
  · exact advancesAt_of_error (e := ⟨c.here.line, _⟩) rfl
  · next hshape => exact absurd hshape hother

theorem advances_assignment (h : inner.Reports source width) :
    (assignment inner).Advances source := by
  have hunary : (unary inner).Advances source :=
    .bind_right (Reports.repeatWhile_silent reports_leading) fun _ =>
      (advances_operand h).bind_left fun _ => Reports.repeatWhile_insides (reports_selector h)
  have hbinary : (binary inner).Advances source := hunary.bind_left fun _ => reports_operations h
  have hconditional : (conditional inner).Advances source :=
    hbinary.bind_left fun _ => reports_optionalBranches h
  exact hconditional.bind_left fun _ => reports_assigned h

theorem advances_expect {kind : Token.Kind} (hkind : kind ≠ .endOfInput) (symbol : String) :
    (expect kind symbol).Advances source := by
  intro c hc
  refine advancesAt_cursor ?_
  split
  · next hat =>
      simp only [Cursor.isAt, decide_eq_true_eq] at hat
      exact advancesAt_take hc (by simp [Token.isEnd, hat, hkind])
  · exact advancesAt_of_error (e := ⟨c.here.line, _⟩) rfl

theorem advances_arrayInitializer (h : inner.Reports source width) :
    (arrayInitializer inner).Advances source :=
  (advances_expect (by decide) _).bind_left fun _ => reports_values h

end Reading

end CodeFrames
