import CodeFrames.Proofs.Reporting.Expression
import CodeFrames.Reading.Statement

/-!
# What the readings of statements report

Each statement reports a word of `statements`, and comments come between statements only.  The
enclosed productions report their languages at every nesting level.
-/

namespace CodeFrames

open scoped Computability
open Sentence

namespace Reading

variable {source : Text} {width : Option Nat} {inner : Enclosed}

/-! ## Blocks and bodies -/

theorem reports_blockRest (h : inner.Reports source width) :
    (blockRest inner).Reports source (items source width * single .closeBlock) := by
  have hround : (do
      let t ← here
      if t.kind = .closeBrace then return false
      if t.isEnd then fail .unclosedBlock
      inner.statement
      return true : Reading Bool).Reports source (items source width) := by
    refine Reports.here.silent fun t => Reports.ite
      (fun _ => Reports.pure_of_nil_mem false nil_mem_items) fun _ =>
        Reports.ite (fun _ => Reports.fail_bind _ _) fun _ => ?_
    exact h.statement.bind_silent fun _ => Reports.pure true
  have hcomments : reportComments.Reports source (items source width) :=
    Reports.reportComments.mono comments_le_items
  have hrest := ((Reports.repeatWhile_kstar hround).mono items_kstar).bind fun _ =>
    hcomments.bind fun _ => Reports.take.silent fun brace =>
      Reports.emit_single Event.closeBlock brace.toSpan
  refine hrest.mono ?_
  rw [← mul_assoc]
  exact mul_le_mul_left items_mul_items _

theorem reports_block (h : inner.Reports source width) :
    (block inner).Reports source (blocks source width) :=
  (Reports.expect _ _).silent fun brace => (Reports.emit_single Event.openBlock brace.toSpan).bind
    fun _ => reports_blockRest h

theorem reports_body (h : inner.Reports source width) :
    (body inner).Reports source (blocks source width) := by
  refine Reports.cursor.silent fun c => Reports.ite (fun _ => reports_block h) fun _ => ?_
  exact Reports.here.silent fun t => (Reports.emit_single Event.openBlock t.toSpan).bind fun _ =>
    h.statement.bind fun _ => Reports.before.silent fun u =>
      Reports.emit_single Event.closeBlock u.toSpan

theorem reports_condition (h : inner.Reports source width) :
    (condition inner).Reports source (expressions source) :=
  (Reports.expect _ _).silent fun _ => (reports_expression h).bind_silent fun _ =>
    (Reports.expect _ _).silent fun _ => Reports.pure ()

/-! ## Branches and loops -/

/-- A round that answers `true` is an `else if`, and the one that answers `false` may be an `else`. -/
theorem reports_furtherBranch_bind (h : inner.Reports source width) {more : Bool → Reading Unit}
    (hmore : (more true).Reports source
      (Sentence.branches source width * otherwises source width))
    (hlast : (more false).Reports source 1) :
    (furtherBranch inner >>= more).Reports source
      (Sentence.branches source width * otherwises source width) := by
  have hmore' := fun keyword : Token => ((Reports.emit_single Event.elseIf keyword.toSpan).bind
    fun _ => (reports_condition h).bind fun _ => (reports_body h).bind fun _ => hmore)
  have hlast' := fun keyword : Token => ((Reports.emit_single Event.otherwise keyword.toSpan).bind
    fun _ => (reports_body h).bind_silent fun _ => hlast)
  unfold furtherBranch
  rw [bind_assoc]
  refine Reports.cursor.silent fun c => ?_
  split
  · rw [pure_bind]
    refine hlast.mono ?_
    rintro _ rfl
    exact ⟨[], nil_mem_branches, [], nil_mem_otherwises, rfl⟩
  split
  · simp only [bind_assoc, pure_bind]
    refine Reports.take.silent fun _ => Reports.take.silent fun keyword => (hmore' keyword).mono ?_
    rw [← mul_assoc, ← mul_assoc, ← mul_assoc, mul_assoc (single _)]
    exact mul_le_mul_left elseIf_mul_branches _
  · simp only [bind_assoc, pure_bind]
    refine Reports.take.silent fun keyword => (hlast' keyword).mono ?_
    intro events hevents
    exact ⟨[], nil_mem_branches, events, otherwise_le_otherwises hevents, rfl⟩

theorem reports_furtherBranches (h : inner.Reports source width) :
    (repeatWhile (furtherBranch inner)).Reports source
      (Sentence.branches source width * otherwises source width) := by
  have hloop (budget : List Token) : (loop (furtherBranch inner) budget).Reports source
      (Sentence.branches source width * otherwises source width) := by
    induction budget with
    | nil =>
        refine reports_furtherBranch_bind h ?_ (Reports.pure ())
        exact Reports.pure_of_nil_mem () ⟨[], nil_mem_branches, [], nil_mem_otherwises, rfl⟩
    | cons t budget ih => exact reports_furtherBranch_bind h ih (Reports.pure ())
  exact fun c hc => hloop c.ahead c hc

theorem reports_ifChain (h : inner.Reports source width) :
    (ifChain inner).Reports source (statements source width) := by
  have hchain := fun keyword : Token => (Reports.emit_single Event.openIf keyword.toSpan).bind
    fun _ => (reports_condition h).bind fun _ => (reports_body h).bind fun _ =>
      (reports_furtherBranches h).bind fun _ => Reports.before.silent fun last =>
        Reports.emit_single Event.closeIf last.toSpan
  exact Reports.take.silent fun keyword => (hchain keyword).mono ifChain_le_statements

theorem reports_whileLoop (h : inner.Reports source width) :
    (whileLoop inner).Reports source (statements source width) := by
  have hloop := fun keyword : Token => (Reports.emit_single Event.openWhile keyword.toSpan).bind
    fun _ => (reports_condition h).bind fun _ => (reports_body h).bind fun _ =>
      Reports.before.silent fun last => Reports.emit_single Event.closeWhile last.toSpan
  exact Reports.take.silent fun keyword => (hloop keyword).mono whileLoop_le_statements

/-! ## Simple statements -/

theorem reports_semicolon (source : Text) : (do let _ ← semicolon : Reading Unit).Reports source 1 :=
  (Reports.expect _ _).silent fun _ => Reports.pure ()

theorem reports_returned (h : inner.Reports source width) :
    (returned inner).Reports source (statements source width) := by
  refine Reports.take.silent fun keyword => Reports.cursor.silent fun c => ?_
  cases !c.isAt .semicolon with
  | true =>
      have hvalue := (Reports.emit_single (fun s => Event.returned s true) keyword.toSpan).bind
        fun _ => (reports_expression h).bind_silent fun _ => reports_semicolon source
      exact hvalue.mono returnedValue_le_statements
  | false =>
      have hnone := (Reports.emit_single (fun s => Event.returned s false) keyword.toSpan).bind_silent
        fun _ => reports_semicolon source
      exact hnone.mono (single_le_statements fun keyword _ => ⟨_, _, .returned keyword⟩)

theorem reports_label : label.Reports source 1 :=
  Reports.here.silent fun _ => Reports.ite (fun _ => Reports.expectName.silent fun _ =>
    Reports.pure _) fun _ => Reports.pure none

theorem reports_jumped (jump : Jump) : (jumped jump).Reports source (statements source width) := by
  have hjump := fun (keyword : Token) (label : Option Span) =>
    (Reports.emit_single (fun j : Span × Option Span => Event.jumped jump j.1 j.2)
      (keyword.toSpan, label)).bind_silent fun _ => reports_semicolon source
  exact Reports.take.silent fun keyword => reports_label.silent fun label =>
    (hjump keyword label).mono (jumped_le_statements jump)

theorem reports_thrown (h : inner.Reports source width) :
    (thrown inner).Reports source (statements source width) := by
  have hthrown := fun keyword : Token => (Reports.emit_single Event.thrown keyword.toSpan).bind
    fun _ => (reports_expression h).bind_silent fun _ => reports_semicolon source
  exact Reports.take.silent fun keyword => (hthrown keyword).mono thrown_le_statements

theorem reports_expressionStatement (h : inner.Reports source width) :
    (expressionStatement inner).Reports source (statements source width) := by
  have hexpression := fun first : Token =>
    (Reports.emit_single Event.expressionStatement first.toSpan).bind fun _ =>
      (reports_expression h).bind_silent fun _ => reports_semicolon source
  exact Reports.here.silent fun first => (hexpression first).mono expression_le_statements

/-! ## Variables -/

theorem reports_variableValue (h : inner.Reports source width) :
    (variableValue inner).Reports source (expressions source) := by
  intro c hc
  change (if c.here.kind = .openBrace then _ else _ : Reading Unit).ReportsAt c _
  split
  · exact reportsAt_whole (reports_arrayInitializer h) hc (advances_arrayInitializer h c hc)
  · exact reports_expression h c hc

theorem reports_declarator (h : inner.Reports source width) :
    (declarator inner).Reports source (declarators source) := by
  have hrest (name : Token) (hasValue : Bool) : (do
      emit (.declarator name.toSpan hasValue)
      if hasValue then
        let _ ← take
        variableValue inner
      comma : Reading Bool).Reports source (declarators source) := by
    cases hasValue with
    | true =>
        have hvalue := (Reports.emit_single (fun s => Event.declarator s true) name.toSpan).bind
          fun _ => Reports.take.silent fun _ => (reports_variableValue h).bind_silent fun _ =>
            Reports.comma
        exact hvalue.mono initialized_le_declarators
    | false =>
        have hbare := (Reports.emit_single (fun s => Event.declarator s false) name.toSpan).bind_silent
          fun _ => @Reports.comma source
        exact hbare.mono bare_le_declarators
  exact Reports.expectName.silent fun name => Reports.cursor.silent fun c =>
    Reports.ite (fun _ => Reports.fail_bind _ _) fun _ => hrest name _

theorem reports_localVariables (h : inner.Reports source width) :
    (localVariables inner).Reports source (statements source width) := by
  have hvariables := fun (first : Token) (spans : List Span) => Reports.typeName.bind fun _ =>
    (Reports.emit_single (fun v : Span × List Span => Event.openVariables v.1 v.2)
      (first.toSpan, spans)).bind fun _ => (Reports.repeatWhile (reports_declarator h)).bind
        fun _ => (Reports.expect .semicolon ";").silent fun semicolon =>
          Reports.emit_single Event.closeVariables semicolon.toSpan
  exact Reports.here.silent fun first => Reports.modifiers.silent fun spans =>
    (hvariables first spans).mono variables_le_statements

/-! ## Statements -/

theorem reports_emptyStatement :
    (do
      let semicolon ← take
      emit (.emptyStatement semicolon.toSpan) : Reading Unit).Reports source
      (statements source width) :=
  Reports.take.silent fun semicolon =>
    (Reports.emit_single Event.emptyStatement semicolon.toSpan).mono
      (single_le_statements fun semicolon _ => ⟨_, _, .empty semicolon⟩)

/-- An unsupported construct where a statement could stand. -/
theorem reports_unsupported (place : Span) (construct : String) :
    (emit (.unsupported place construct)).Reports source (statements source width) :=
  (Reports.emit_single (fun u : Span × String => Event.unsupported u.1 u.2) (place, construct)).mono
    (single_le_statements fun u _ => ⟨_, _, .unsupported u.1 u.2⟩)

def statementOf (inner : Enclosed) : StatementShape → Reading Unit
  | .block => block inner
  | .empty => do
      let semicolon ← take
      emit (.emptyStatement semicolon.toSpan)
  | .ifChain => ifChain inner
  | .whileLoop => whileLoop inner
  | .returned => returned inner
  | .jump jump => jumped jump
  | .thrown => thrown inner
  | .misplaced fault => fail fault
  | .unsupported construct => unsupported construct
  | .locals => localVariables inner
  | .expression => expressionStatement inner

theorem statement_eq_reported (inner : Enclosed) : statement inner = (do
    reportComments
    let c ← cursor
    statementOf inner (statementShape c)) := rfl

theorem reports_statementOf (h : inner.Reports source width) (shape : StatementShape) :
    (statementOf inner shape).Reports source (statements source width) := by
  cases shape with
  | block => exact (reports_block h).mono blocks_le_statements
  | empty => exact reports_emptyStatement
  | ifChain => exact reports_ifChain h
  | whileLoop => exact reports_whileLoop h
  | returned => exact reports_returned h
  | jump jump => exact reports_jumped jump
  | thrown => exact reports_thrown h
  | misplaced fault => exact Reports.fail fault
  | unsupported construct =>
      exact Reports.here.silent fun t => (reports_unsupported _ _).bind_silent fun _ =>
        Reports.skipStatement
  | locals => exact reports_localVariables h
  | expression => exact reports_expressionStatement h

theorem reports_statement (h : inner.Reports source width) :
    (statement inner).Reports source (items source width) := by
  have hone : (cursor >>= fun c => statementOf inner (statementShape c)).Reports source
      (statements source width) := Reports.cursor.silent fun c => reports_statementOf h _
  rw [statement_eq_reported]
  refine ((Reports.reportComments.mono comments_le_items).bind fun _ =>
    hone.mono statements_le_items).mono items_mul_items

end Reading

/-- At every nesting level the enclosed productions report their languages. -/
theorem Enclosed.reports_within (source : Text) (width : Option Nat) (levels : Nat) :
    (Enclosed.within levels).Reports source width := by
  induction levels with
  | zero =>
      refine ⟨Reading.Reports.fail _, ?_, Reading.Reports.fail _, Reading.Reports.fail _,
        Reading.Reports.fail _⟩
      exact fun c _ => Reading.advancesAt_of_error (e := ⟨c.here.line, .nestedTooDeep⟩) rfl
  | succ levels ih =>
      exact ⟨Reading.reports_assignment ih, Reading.advances_assignment ih,
        Reading.reports_branches ih, Reading.reports_arrayInitializer ih,
        Reading.reports_statement ih⟩

end CodeFrames
