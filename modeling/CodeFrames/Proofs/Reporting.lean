import CodeFrames.Proofs.Reporting.Statement
import CodeFrames.Reading.Member

/-!
# What the reading of a source reports

The events of a source that can be read are a sentence of the grammar, and those of any other source
begin one.
-/

namespace CodeFrames

open scoped Computability
open Sentence

namespace Reading

variable {source : Text} {width : Option Nat} {inner : Enclosed}

/-! ## Headers -/

theorem reports_parameter : parameter.Reports source parameterEvents := by
  have hrest (ellipsis : Option Token) : (do
      let name ← expectName
      emit (.parameter name.toSpan (ellipsis.map Token.toSpan))
      comma : Reading Bool).Reports source
        (single fun p : Span × Option Span => .parameter p.1 p.2) :=
    Reports.expectName.silent fun name => (Reports.emit_single
      (fun p : Span × Option Span => Event.parameter p.1 p.2)
      (name.toSpan, ellipsis.map Token.toSpan)).bind_silent fun _ => Reports.comma
  have hellipsis : (some <$> take : Reading (Option Token)).Reports source 1 := by
    rw [← bind_pure_comp]
    exact Reports.take.silent fun _ => Reports.pure _
  exact Reports.modifiers.silent fun _ => Reports.typeName.bind fun _ => Reports.cursor.silent
    fun _ => Reports.ite (fun _ => hellipsis.silent hrest) fun _ =>
      (Reports.pure none).silent hrest

theorem reports_parameters : parameters.Reports source (parameterLists source) := by
  have hclose (u : Unit) : (do let _ ← expect .closeParen ")" : Reading Unit).Reports source 1 :=
    (Reports.expect _ _).silent fun _ => Reports.pure ()
  refine (Reports.expect _ _).silent fun _ => Reports.cursor.silent fun _ =>
    Reports.ite (fun _ => ?_) fun _ => ?_
  · exact ((Reports.repeatWhile_kstar reports_parameter).mono parameterEvents_kstar).bind_silent
      hclose
  · refine (hclose ()).mono ?_
    rintro _ rfl
    exact ⟨_, _, .nothing⟩

theorem reports_throwsRound (source : Text) :
    (do
      typeName
      comma : Reading Bool).Reports source types :=
  Reports.typeName.bind_silent fun _ => Reports.comma

theorem reports_throwsClause : throwsClause.Reports source (throwsClauses source) := by
  have hclause := fun keyword : Token => (Reports.emit_single Event.openThrows keyword.toSpan).bind
    fun _ => (Reports.repeatWhile (reports_throwsRound source)).bind fun _ => Reports.emit .closeThrows
  exact Reports.cursor.silent fun _ => Reports.ite (fun _ => Reports.take.silent fun keyword =>
    (hclause keyword).mono clause_le_throwsClauses) fun _ =>
      Reports.pure_of_nil_mem () nil_mem_throwsClauses

/-- The type parameters of a method are an unsupported construct in front of it. -/
theorem reports_typeParameters : typeParameters.Reports source (items source width) := by
  refine Reports.here.silent fun t => Reports.ite (fun _ => Reports.cursor.silent fun c => ?_)
    fun _ => Reports.pure_of_nil_mem () nil_mem_items
  split
  · exact Reports.fail _
  · exact (((reports_unsupported _ _).mono statements_le_items).bind_silent fun _ =>
      Reports.forward _)

/-! ## Members -/

theorem reports_method (h : inner.Reports source width) :
    (method inner).Reports source (items source width) := by
  have hend : (do
      if (← cursor).isAt .semicolon then
        let semicolon ← take
        emit (.closeDeclaration semicolon.toSpan false)
      else
        block inner
        emit (.closeDeclaration (← before).toSpan true) : Reading Unit).Reports source
      (closings false + blocks source width * closings true) := by
    refine Reports.cursor.silent fun _ => Reports.ite (fun _ => ?_) fun _ => ?_
    · exact (Reports.take.silent fun semicolon => Reports.emit_single
        (fun s => Event.closeDeclaration s false) semicolon.toSpan).mono le_self_add
    · exact ((reports_block h).bind fun _ => Reports.before.silent fun last => Reports.emit_single
        (fun s => Event.closeDeclaration s true) last.toSpan).mono le_add_self
  have hmethod := fun (first : Token) (spans : List Span) => Reports.typeName.bind fun _ =>
    Reports.expectName.silent fun name => (Reports.emit_single
      (fun m : (Span × List Span) × Span => Event.openMethod m.1.1 m.1.2 m.2)
      ((first.toSpan, spans), name.toSpan)).bind fun _ => reports_parameters.bind fun _ =>
        reports_throwsClause.bind fun _ => hend
  refine Reports.here.silent fun first => Reports.modifiers.silent fun spans =>
    (reports_typeParameters.bind fun _ => (hmethod first spans).mono ?_).mono items_mul_items
  simp only [mul_add]
  exact (add_le abstractMethod_le_statements method_le_statements).trans statements_le_items

theorem delegateTarget_of_opensDelegateCall {c : Cursor} (hc : Token.Laid source c.tokens)
    (h : opensDelegateCall c = true) :
    ∃ kind, DelegateTarget.ofText? (c.here.toSpan.textIn source) = some kind := by
  have htext : c.here.toSpan.textIn source = c.here.text := by
    rw [Span.textIn, (hc.liesIn c.here List.mem_cons_self).slice?_eq, Option.getD_some]
  rw [htext]
  simp only [opensDelegateCall, Cursor.isAtWord, Token.isWord, Bool.and_eq_true, Bool.or_eq_true,
    decide_eq_true_eq] at h
  rcases h with ⟨⟨-, hword⟩ | ⟨-, hword⟩, -⟩
  · exact ⟨.super, by rw [hword]; rfl⟩
  · exact ⟨.this, by rw [hword]; rfl⟩

theorem not_isEnd_of_opensDelegateCall {c : Cursor} (h : opensDelegateCall c = true) :
    ¬ c.here.isEnd := by
  simp only [opensDelegateCall, Cursor.isAtWord, Token.isWord, Bool.and_eq_true, Bool.or_eq_true,
    decide_eq_true_eq] at h
  rcases h with ⟨⟨hword, -⟩ | ⟨hword, -⟩, -⟩ <;> simp [Token.isEnd, hword]

theorem reportsAt_delegateCall (h : inner.Reports source width) {c : Cursor}
    (hc : Token.Laid source c.tokens) (hopens : opensDelegateCall c = true) :
    (delegateCall inner).ReportsAt c (delegateCalls source) := by
  obtain ⟨kind, hkind⟩ := delegateTarget_of_opensDelegateCall hc hopens
  have hpasses := Cursor.passes_advance hc (not_isEnd_of_opensDelegateCall hopens)
  let closers : Language Event :=
    {es | ∃ last ∈ c.tokens, es = [.closeExpression last.toSpan false]}
  have hviable : Viable closers := .of_mem ⟨c.here, List.mem_cons_self, rfl⟩
  have hrest (d : Cursor) (hd : c.Passes d) : (do
      emit (.closeExpression (← before).toSpan false)
      let _ ← semicolon : Reading Unit).ReportsAt d closers := by
    have hclose := (Reports.emit (.closeExpression d.before.toSpan false)).bind_silent
      (fun _ => reports_semicolon source) d (hd.reaches.laid hc)
    refine ReportsAt.mono hclose ?_
    rintro _ rfl
    exact ⟨d.before, hd.before_mem, rfl⟩
  have hcall := (reports_arguments h c.advance (hpasses.reaches.laid hc)).bind
    fun _ _ d _ hreaches => hrest d (hpasses.trans_reaches hreaches)
  have hstart : (delegateCall inner) c = ([.expressionStatement c.here.toSpan,
    .openExpression c.here.toSpan, .delegateCall c.here.toSpan] ++ _, _) := rfl
  refine ReportsAt.of_start hstart hpasses.reaches hcall ?_
  rintro _ ⟨_, ⟨_, ⟨opening, rfl⟩, _, ⟨arguments, harguments, _, ⟨closing, rfl⟩, rfl⟩, rfl⟩, _,
    ⟨last, hlast, rfl⟩, rfl⟩
  exact ⟨c.here.toSpan, c.here.toSpan, c.here.toSpan, opening, closing, last.toSpan, arguments,
    kind, by simp, hkind, harguments, hc.slice?_isSome hlast⟩

/-- Behind the comments after the opening brace. -/
theorem reports_constructorRest (h : inner.Reports source width) :
    (do
      if opensDelegateCall (← cursor) then delegateCall inner
      blockRest inner
      emit (.closeDeclaration (← before).toSpan true) : Reading Unit).Reports source
      ((items source width * single .closeBlock +
        delegateCalls source * (items source width * single .closeBlock)) * closings true) := by
  have hrest (u : Unit) : (do
      blockRest inner
      emit (.closeDeclaration (← before).toSpan true) : Reading Unit).Reports source
      (items source width * single .closeBlock * closings true) :=
    (reports_blockRest h).bind fun _ => Reports.before.silent fun last =>
      Reports.emit_single (fun s => Event.closeDeclaration s true) last.toSpan
  intro c hc
  change (if opensDelegateCall c = true then _ else _ : Reading Unit).ReportsAt c _
  rw [add_mul, mul_assoc (delegateCalls source)]
  split
  · next hopens =>
      refine ((reportsAt_delegateCall h hc hopens).bind fun _ u d _ hreaches => ?_).mono le_add_self
      exact hrest u d (hreaches.laid hc)
  · exact (hrest () c hc).mono le_self_add

theorem reports_constructor (h : inner.Reports source width) :
    (constructor inner).Reports source (statements source width) := by
  have hbrace : (expect .openBrace "\x7b").Reports source 1 := Reports.expect _ _
  have hbody := hbrace.silent fun brace =>
    (Reports.emit_single Event.openBlock brace.toSpan).bind fun _ =>
      Reports.reportComments.bind fun _ => reports_constructorRest h
  have hconstructor := fun (first : Token) (spans : List Span) (name : Token) =>
    (Reports.emit_single (fun m : (Span × List Span) × Span => Event.openConstructor m.1.1 m.1.2 m.2)
      ((first.toSpan, spans), name.toSpan)).bind fun _ => reports_parameters.bind fun _ =>
        reports_throwsClause.bind fun _ => hbody
  refine Reports.here.silent fun first => Reports.modifiers.silent fun spans =>
    Reports.expectName.silent fun name => (hconstructor first spans name).mono ?_
  refine le_trans ?_ constructor_le_statements
  rw [← mul_assoc (single Event.comment)∗, ← mul_assoc (single .openBlock), mul_add, mul_add]
  refine mul_le_mul_right (mul_le_mul_right (mul_le_mul_right (mul_le_mul_left (add_le ?_ ?_) _)
    _) _) _
  · rw [← mul_assoc (single Event.comment)∗]
    exact (mul_le_mul_right (mul_le_mul_left ((mul_le_mul_left comments_le_items _).trans
      items_mul_items) _) _).trans blocks_le_constructorBodies
  · exact delegating_le_constructorBodies

theorem reports_directive (word : Text) :
    (directive word).Reports source (statements source width) :=
  Reports.here.silent fun _ => (reports_unsupported _ _).bind_silent fun _ =>
    Reports.skipToSemicolon

theorem reports_unsupportedMember (construct : String) (head skipped : Nat) :
    (unsupportedMember construct head skipped).Reports source (statements source width) :=
  Reports.cursor.silent fun _ => (reports_unsupported _ _).bind_silent fun _ =>
    (Reports.forward _).silent fun _ => Reports.skipStatement

theorem reports_member (h : inner.Reports source width) :
    (member inner).Reports source (items source width) := by
  refine Reports.cursor.silent fun c => ?_
  cases memberShape c with
  | directive word => exact (reports_directive word).mono statements_le_items
  | unsupported construct head skipped =>
      exact (reports_unsupportedMember construct head skipped).mono statements_le_items
  | constructor => exact (reports_constructor h).mono statements_le_items
  | method => exact reports_method h
  | statement => exact h.statement

theorem reports_members (h : inner.Reports source width) :
    (members inner).Reports source (items source width) := by
  have hcomments : reportComments.Reports source (items source width) :=
    Reports.reportComments.mono comments_le_items
  refine (Reports.bind ((Reports.repeatWhile_kstar ?_).mono items_kstar) fun _ => hcomments).mono
    items_mul_items
  refine Reports.here.silent fun t => Reports.ite
    (fun _ => Reports.pure_of_nil_mem false nil_mem_items) fun _ => ?_
  exact (hcomments.bind fun _ => (reports_member h).bind_silent fun _ => Reports.pure true).mono
    items_mul_items

end Reading

/-! ## Sources -/

/-- The events of a source begin a sentence, which is complete where the reading gets to the end. -/
theorem readEvents_begins (source : Text) (width : Option Nat) :
    ∃ more, (readEvents source).1 ++ more ∈ items source width ∧
      ((readEvents source).2 = .ok () → more = []) := by
  unfold readEvents
  cases hlex : lex source with
  | error e => exact ⟨[], nil_mem_items, fun _ => rfl⟩
  | ok tokens =>
      have hlaid := laid_of_lex hlex
      obtain ⟨c, hc⟩ := Cursor.exists_ofTokens hlaid
      have hreports := Reading.reports_members (Enclosed.reports_within source width nestingLimit) c
        (Cursor.laid_of_ofTokens hlaid hc)
      unfold Reading.ReportsAt at hreports
      simp only [hc]
      rcases hrun : Reading.members (Enclosed.within nestingLimit) c with ⟨events, e | p⟩
      · rw [hrun] at hreports
        obtain ⟨more, hmore⟩ := hreports
        exact ⟨more, hmore, fun hok => by cases hok⟩
      · rw [hrun] at hreports
        exact ⟨[], by simpa using hreports.1, fun _ => rfl⟩

/-- The events of a source are a sentence of the grammar if the source can be read to its end, and
begin one if it cannot. -/
theorem readEvents_sentence (source : Text) (width : Option Nat) :
    match readEvents source with
    | (events, .ok ()) => ∃ elements warnings, Items source width none events elements warnings
    | (events, .error _) =>
        ∃ more elements warnings, Items source width none (events ++ more) elements warnings := by
  obtain ⟨more, hmore, hend⟩ := readEvents_begins source width
  rcases hread : readEvents source with ⟨events, e | u⟩
  · rw [hread] at hmore
    exact ⟨more, hmore none⟩
  · rw [hread] at hmore hend
    obtain rfl := hend rfl
    simpa using hmore none

end CodeFrames
