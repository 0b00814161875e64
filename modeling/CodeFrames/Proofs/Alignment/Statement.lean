import CodeFrames.Proofs.Alignment.Expression

/-!
# Sources read side by side

Statements and members are told by kinds and texts of tokens, so two sources whose tokens belong
together have readings that resemble each other.
-/

namespace CodeFrames

variable {C : Comparison} {K : Pairing C}

namespace Pairing.Aligned

variable {c c' : Cursor}

theorem isLabel (h : K.Aligned c c') : Reading.isLabel c = Reading.isLabel c' := by
  rw [Reading.isLabel, Reading.isLabel, ← h.same_here (f := Token.isName) fun _ => rfl,
    ← h.nextIs fun _ => rfl]

theorem skipShape (h : K.Aligned c c') : Reading.skipShape c = Reading.skipShape c' := by
  rw [Reading.skipShape, Reading.skipShape, ← h.kind_here, ← h.text_here, ← h.isLabel,
    ← h.same_here (f := (·.isWordIn Token.typeWords)) fun _ => rfl]

theorem statementShape (h : K.Aligned c c') :
    Reading.statementShape c = Reading.statementShape c' := by
  have hvariables : Reading.opensVariables c = Reading.opensVariables c' := by
    rw [Reading.opensVariables, Reading.opensVariables, ← h.same Token.modifierLengths_bare,
      ← h.same Reading.declaresVariable_bare]
  rw [Reading.statementShape, Reading.statementShape, Reading.wordStatementShape,
    Reading.wordStatementShape, ← h.kind_here, ← h.text_here, ← h.isLabel, ← hvariables,
    ← h.same_here (f := (·.isWordIn Token.typeWords)) fun _ => rfl, ← h.nextIs fun _ => rfl]

theorem modifierCount (h : K.Aligned c c') : c.modifierCount = c'.modifierCount :=
  congrArg (List.foldr (· + ·) 0) (h.same Token.modifierLengths_bare)

theorem memberShape (h : K.Aligned c c') : Reading.memberShape c = Reading.memberShape c' := by
  have hdeclaration := h.same
    (f := fun ts => Reading.declarationShape c.modifierCount (ts.drop c.modifierCount)) fun ts => by
      rw [← List.map_drop, Reading.declarationShape_bare]
  rw [Reading.memberShape, Reading.memberShape, ← h.modifierCount, ← hdeclaration, ← h.text_here,
    ← h.same_here (f := (·.isWordIn ["import".toList, "package".toList])) fun _ => rfl]

end Pairing.Aligned

namespace Reading

open Mirrors

variable {inner : Enclosed} {c c' : Cursor}

/-! ## Stepping over statements -/

theorem mirrors_skipToSemicolon : skipToSemicolon.MirrorsSelf K := by
  refine rounds fun c c' hc => .here_bind ?_
  rw [← hc.kind_here]
  have hgroup : MirrorsAt K Eq (do
      skipGroup
      return true : Reading Bool) (do
      skipGroup
      return true : Reading Bool) c c' :=
    (mirrors_skipGroup c c' hc).bind_eq fun _ _ _ hd => .pure rfl hd
  split
  · exact .take_bind (.pure rfl hc.advance)
  · exact hgroup
  · exact hgroup
  · exact hgroup
  · exact .refuse hc _
  · exact .refuse hc _
  · exact .take_bind (.pure rfl hc.advance)

theorem mirrors_skipWordAndGroup : skipWordAndGroup.MirrorsSelf K :=
  mirrors_take fun _ _ => mirrors_skipGroup

theorem mirrors_skipTypeBody (word : Text) : (skipTypeBody word).MirrorsSelf K := by
  refine (rounds fun c c' hc => ?_).bind_eq fun _ => mirrors_skipGroup
  exact .here_bind (.ite (by rw [hc.kind_here]) (fun _ => .pure rfl hc) fun _ =>
    .cond (hc.same_here (f := Token.isEnd) fun _ => rfl) (fun _ => .fail _) fun _ =>
      .take_bind (.pure rfl hc.advance))

theorem mirrors_skipTry : skipTry.MirrorsSelf K := by
  have hcatch : (do
      if (← cursor).isAtWord "catch" then
        skipWordAndGroup
        skipGroup
        return true
      else return false : Reading Bool).MirrorsSelf K := fun c c' hc =>
    .cursor_bind (.cond (hc.isAtWord _) (fun _ => (mirrors_skipWordAndGroup c c' hc).bind_eq
      fun _ _ _ hd => (mirrors_skipGroup _ _ hd).bind_eq fun _ _ _ he => .pure rfl he)
      fun _ => .pure rfl hc)
  have hblocks : (do
      skipGroup
      repeatWhile do
        if (← cursor).isAtWord "catch" then
          skipWordAndGroup
          skipGroup
          return true
        else return false
      if (← cursor).isAtWord "finally" then skipWordAndGroup : Reading Unit).MirrorsSelf K :=
    mirrors_skipGroup.bind_eq fun _ => (rounds hcatch).bind_eq fun _ _ _ hc =>
      .cursor_bind (.cond (hc.isAtWord _) (fun _ => mirrors_skipWordAndGroup _ _ hc)
        fun _ => .pure rfl hc)
  refine mirrors_take fun _ _ c c' hc => .cursor_bind (.cond (hc.isAt _) (fun _ => ?_)
    fun _ => hblocks c c' hc)
  exact (mirrors_skipGroup c c' hc).bind_eq fun _ _ _ hd => hblocks _ _ hd

theorem mirrors_skipNested {budget budget' : List Token} (hlength : budget.length = budget'.length) :
    (skipNested budget).Mirrors K Eq (skipNested budget') := by
  induction budget generalizing budget' with
  | nil =>
      obtain rfl := List.eq_nil_of_length_eq_zero hlength.symm
      exact mirrors_skipToSemicolon
  | cons t budget ih =>
      cases budget' with
      | nil => cases hlength
      | cons t' budget' =>
      have hnested := @ih budget' (by simpa using hlength)
      intro c c' hc
      refine .cursor_bind ?_
      rw [← hc.skipShape]
      cases skipShape c with
      | group => exact mirrors_skipGroup c c' hc
      | empty => exact .take_bind (.pure rfl hc.advance)
      | ifElse =>
          refine (mirrors_skipWordAndGroup c c' hc).bind_eq fun _ _ _ hd =>
            (hnested _ _ hd).bind_eq fun _ e e' he => .cursor_bind (.cond (he.isAtWord _)
              (fun _ => .take_bind (hnested _ _ he.advance)) fun _ => .pure rfl he)
      | loop =>
          exact (mirrors_skipWordAndGroup c c' hc).bind_eq fun _ _ _ hd => hnested _ _ hd
      | headAndBlock =>
          exact (mirrors_skipWordAndGroup c c' hc).bind_eq fun _ _ _ hd => mirrors_skipGroup _ _ hd
      | doWhile =>
          refine .take_bind ((hnested _ _ hc.advance).bind_eq fun _ _ _ hd => .cursor_bind
            (.cond (hd.isAtWord _) (fun _ => ?_) fun _ => .fail _))
          exact (mirrors_skipWordAndGroup _ _ hd).bind_eq fun _ _ _ he =>
            .expect_bind he fun hf => .pure rfl hf
      | tryCatch => exact mirrors_skipTry c c' hc
      | typeDeclaration word => exact mirrors_skipTypeBody word c c' hc
      | labelled => exact .forward_bind (hnested _ _ (hc.forward 2))
      | simple => exact mirrors_skipToSemicolon c c' hc

theorem mirrors_skipStatement : skipStatement.MirrorsSelf K :=
  fun c c' hc => mirrors_skipNested hc.length_ahead c c' hc

/-! ## Blocks and branches -/

theorem mirrors_blockRest (h : inner.Mirrors K) : (blockRest inner).MirrorsSelf K := by
  have hclose : (do
      reportComments
      let brace ← take
      emit (.closeBlock brace.toSpan) : Reading Unit).MirrorsSelf K :=
    fun c c' hc => (Mirrors.reportComments c c' hc).bind_eq fun _ _ _ hd =>
      .take_bind (.emit hd.advance (.closeBlock _ _))
  refine (rounds fun c c' hc => .here_bind ?_).bind_eq fun _ => hclose
  refine .ite (by rw [hc.kind_here]) (fun _ => .pure rfl hc) fun _ =>
    .cond (hc.same_here (f := Token.isEnd) fun _ => rfl) (fun _ => .fail _) fun _ => ?_
  exact (h.statement c c' hc).bind_eq fun _ _ _ hd => .pure rfl hd

theorem mirrors_block (h : inner.Mirrors K) : (block inner).MirrorsSelf K := fun _ _ hc =>
  .expect_bind hc fun hd => .emit_bind (.openBlock _ _) (mirrors_blockRest h _ _ hd)

theorem mirrors_body (h : inner.Mirrors K) : (body inner).MirrorsSelf K := by
  intro c c' hc
  refine .cursor_bind (.cond (hc.isAt _) (fun _ => mirrors_block h c c' hc) fun _ =>
    .here_bind (.emit_bind (.openBlock _ _) ?_))
  exact (h.statement c c' hc).bind_eq fun _ _ _ hd => .before_bind (.emit hd (.closeBlock _ _))

theorem mirrors_condition (h : inner.Mirrors K) : (condition inner).MirrorsSelf K := fun _ _ hc =>
  .expect_bind hc fun hd => (mirrors_expression h _ _ hd).bind_eq fun _ _ _ he =>
    .expect_bind he fun hf => .pure rfl hf

theorem mirrors_furtherBranch (h : inner.Mirrors K) : (furtherBranch inner).MirrorsSelf K := by
  intro c c' hc
  refine .cursor_bind (.cond (by rw [hc.isAtWord]) (fun _ => .pure rfl hc) fun _ =>
    .cond (hc.nextIs fun _ => rfl) (fun _ => ?_) fun _ => ?_)
  · exact .take_bind (.take_bind (.emit_bind (.elseIf _ _)
      ((mirrors_condition h _ _ hc.advance.advance).bind_eq fun _ _ _ hd =>
        (mirrors_body h _ _ hd).bind_eq fun _ _ _ he => .pure rfl he)))
  · exact .take_bind (.emit_bind (.otherwise _ _) ((mirrors_body h _ _ hc.advance).bind_eq
      fun _ _ _ hd => .pure rfl hd))

theorem mirrors_ifChain (h : inner.Mirrors K) : (ifChain inner).MirrorsSelf K := fun _ _ hc =>
  .take_bind (.emit_bind (.openIf _ _) ((mirrors_condition h _ _ hc.advance).bind_eq fun _ _ _ hd =>
    (mirrors_body h _ _ hd).bind_eq fun _ _ _ he => (rounds (mirrors_furtherBranch h) _ _ he).bind_eq
      fun _ _ _ hf => .before_bind (.emit hf (.closeIf _ _))))

theorem mirrors_whileLoop (h : inner.Mirrors K) : (whileLoop inner).MirrorsSelf K := fun _ _ hc =>
  .take_bind (.emit_bind (.openWhile _ _) ((mirrors_condition h _ _ hc.advance).bind_eq
    fun _ _ _ hd => (mirrors_body h _ _ hd).bind_eq fun _ _ _ he =>
      .before_bind (.emit he (.closeWhile _ _))))

/-! ## Simple statements -/

theorem mirrors_semicolon : (do let _ ← semicolon : Reading Unit).MirrorsSelf K :=
  fun _ _ hc => .expect_bind hc fun hd => .pure rfl hd

theorem mirrors_returned (h : inner.Mirrors K) : (returned inner).MirrorsSelf K := by
  intro c c' hc
  refine .take_bind (.cursor_bind ?_)
  rw [← hc.advance.isAt]
  refine .emit_bind (.returned _ _ _) (.cond rfl (fun _ => ?_) fun _ => mirrors_semicolon _ _ hc.advance)
  exact (mirrors_expression h _ _ hc.advance).bind_eq fun _ _ _ hd => mirrors_semicolon _ _ hd

theorem mirrors_label : label.Mirrors K
    (Option.Rel fun s s' => s.textIn C.source = s'.textIn C.source') label := fun _ _ hc =>
  .here_bind (.cond (hc.same_here (f := Token.isAnyWord) fun _ => rfl)
    (fun _ => .expectName_bind hc fun hd => .pure (.some hc.textIn) hd) fun _ => .pure .none hc)

theorem mirrors_jumped (jump : Jump) : (jumped jump).MirrorsSelf K := by
  intro c c' hc
  refine .take_bind ((mirrors_label _ _ hc.advance).bind fun l l' d d' hl hd => .emit_bind ?_
    (mirrors_semicolon d d' hd))
  cases hl with
  | none => exact .jumped jump _ _
  | some hl => exact .jumpedTo jump hc.line hl

theorem mirrors_thrown (h : inner.Mirrors K) : (thrown inner).MirrorsSelf K := fun _ _ hc =>
  .take_bind (.emit_bind (.thrown _ _) ((mirrors_expression h _ _ hc.advance).bind_eq
    fun _ _ _ hd => mirrors_semicolon _ _ hd))

theorem mirrors_expressionStatement (h : inner.Mirrors K) :
    (expressionStatement inner).MirrorsSelf K := fun c c' hc =>
  .here_bind (.emit_bind (.expressionStatement _ _) ((mirrors_expression h c c' hc).bind_eq
    fun _ _ _ hd => mirrors_semicolon _ _ hd))

theorem mirrors_variableValue (h : inner.Mirrors K) : (variableValue inner).MirrorsSelf K := by
  intro c c' hc
  refine .here_bind (.ite (by rw [hc.kind_here]) (fun _ => ?_) fun _ => mirrors_expression h c c' hc)
  exact mirrorsAt_whole hc (mirrors_arrayInitializer h) (advances_arrayInitializer h.reports)
    (settles_arrayInitializer h.settles.delivers) (.arrayInitializer h.delivers')

theorem mirrors_declarator (h : inner.Mirrors K) : (declarator inner).MirrorsSelf K := by
  intro c c' hc
  refine .expectName_bind hc fun hd => .cursor_bind (.cond (hd.isAt _) (fun _ => .fail _) fun _ => ?_)
  rw [← hd.isAtOperator]
  refine .emit_bind (.declarator _ hc.textIn) (.cond rfl (fun _ => .take_bind ?_) fun _ => Mirrors.comma _ _ hd)
  exact (mirrors_variableValue h _ _ hd.advance).bind_eq fun _ _ _ he => Mirrors.comma _ _ he

theorem mirrors_localVariables (h : inner.Mirrors K) : (localVariables inner).MirrorsSelf K := by
  intro c c' hc
  refine .here_bind ((Mirrors.modifiers c c' hc).bind fun spans spans' d d' hspans hd =>
    (Mirrors.typeName d d' hd).bind_eq fun _ e e' he =>
    .emit_bind (.openVariables hc.line hspans) ((rounds (mirrors_declarator h) e e' he).bind_eq
      fun _ f f' hf => .expect_bind hf fun hg => .emit hg (.closeVariables _ _)))

theorem mirrors_unsupported (construct : String) : (unsupported construct).MirrorsSelf K :=
  fun c c' hc => .here_bind (.emit_bind (.unsupported _ hc.line) (mirrors_skipStatement c c' hc))

theorem mirrors_statement (h : inner.Mirrors K) : (statement inner).MirrorsSelf K := by
  intro c c' hc
  refine (Mirrors.reportComments c c' hc).bind_eq fun _ c c' hc => .cursor_bind ?_
  rw [← hc.statementShape]
  cases statementShape c with
  | block => exact mirrors_block h c c' hc
  | empty => exact .take_bind (.emit hc.advance (.emptyStatement _ _))
  | ifChain => exact mirrors_ifChain h c c' hc
  | whileLoop => exact mirrors_whileLoop h c c' hc
  | returned => exact mirrors_returned h c c' hc
  | jump jump => exact mirrors_jumped jump c c' hc
  | thrown => exact mirrors_thrown h c c' hc
  | misplaced fault => exact .fail fault
  | unsupported construct => exact mirrors_unsupported construct c c' hc
  | locals => exact mirrors_localVariables h c c' hc
  | expression => exact mirrors_expressionStatement h c c' hc

/-! ## Headers -/

theorem mirrors_parameter : parameter.MirrorsSelf K := by
  have hname {ellipsis ellipsis' : Option Token} (he : ellipsis.isSome = ellipsis'.isSome) :
      (do
        let name ← expectName
        emit (.parameter name.toSpan (ellipsis.map Token.toSpan))
        comma : Reading Bool).Mirrors K Eq (do
        let name ← expectName
        emit (.parameter name.toSpan (ellipsis'.map Token.toSpan))
        comma) := fun c c' hc =>
    .expectName_bind hc fun hd => .emit_bind (.parameter hc.line hc.textIn (by simpa using he))
      (Mirrors.comma _ _ hd)
  intro c c' hc
  refine (Mirrors.modifiers c c' hc).bind fun _ _ _ _ _ hd => (Mirrors.typeName _ _ hd).bind_eq
    fun _ e e' he => .cursor_bind (.cond (he.isAt _) (fun _ => ?_) fun _ => ?_)
  · exact @hname (some e.here) (some e'.here) rfl _ _ he.advance
  · exact @hname none none rfl _ _ he

theorem mirrors_parameters : parameters.MirrorsSelf K := by
  have hclose : (do let _ ← expect .closeParen ")" : Reading Unit).MirrorsSelf K :=
    fun _ _ hc => .expect_bind hc fun hd => .pure rfl hd
  intro c c' hc
  refine .expect_bind hc fun hd => .cursor_bind (.cond (by rw [hd.isAt]) (fun _ => ?_)
    fun _ => hclose _ _ hd)
  exact (rounds mirrors_parameter _ _ hd).bind_eq fun _ _ _ he => hclose _ _ he

theorem mirrors_throwsClause : throwsClause.MirrorsSelf K := by
  have hround : (do
      typeName
      comma : Reading Bool).MirrorsSelf K := Mirrors.typeName.bind_eq fun _ => Mirrors.comma
  intro c c' hc
  refine .cursor_bind (.cond (hc.isAtWord _) (fun _ => .take_bind (.emit_bind (.openThrows _ _) ?_))
    fun _ => .pure rfl hc)
  exact (rounds hround _ _ hc.advance).bind_eq fun _ _ _ hd => .emit hd .closeThrows

theorem mirrors_typeParameters : typeParameters.MirrorsSelf K := by
  intro c c' hc
  refine .here_bind (.cond (hc.same_here (f := (·.isOperator ['<'])) fun _ => rfl)
    (fun _ => .cursor_bind ?_) fun _ => .pure rfl hc)
  rw [← hc.same (f := Token.typeArgumentsLength?) (Token.typeArgumentsLengthFrom?_bare 0)]
  cases Token.typeArgumentsLength? c.tokens with
  | none => exact .fail _
  | some n => exact .emit_bind (.unsupported _ hc.line) (.ok .nil rfl (hc.forward n))

/-! ## Members -/

theorem mirrors_method (h : inner.Mirrors K) : (method inner).MirrorsSelf K := by
  have hbody : (do
      if (← cursor).isAt .semicolon then
        let semicolon ← take
        emit (.closeDeclaration semicolon.toSpan false)
      else
        block inner
        emit (.closeDeclaration (← before).toSpan true) : Reading Unit).MirrorsSelf K :=
    fun c c' hc => .cursor_bind (.cond (hc.isAt _)
      (fun _ => .take_bind (.emit hc.advance (.closeDeclaration _ _ _)))
      fun _ => (mirrors_block h c c' hc).bind_eq fun _ _ _ hd =>
        .before_bind (.emit hd (.closeDeclaration _ _ _)))
  intro c c' hc
  refine .here_bind ((Mirrors.modifiers c c' hc).bind fun _ _ _ _ hspans hd =>
    (mirrors_typeParameters _ _ hd).bind_eq fun _ _ _ he => (Mirrors.typeName _ _ he).bind_eq
      fun _ f f' hf => .expectName_bind hf fun hg => .emit_bind (.openMethod hc.line hspans hf.textIn) ?_)
  exact (mirrors_parameters _ _ hg).bind_eq fun _ _ _ hi => (mirrors_throwsClause _ _ hi).bind_eq
    fun _ _ _ hj => hbody _ _ hj

theorem mirrors_delegateCall (h : inner.Mirrors K) : (delegateCall inner).MirrorsSelf K := by
  have hmoves : (arguments inner).Moves C.source := .front (.expect (by decide) _) fun paren =>
    (Delivers.openedArguments h.settles.delivers paren).carries
  intro c c' hc
  have hadvance := hc.advance
  refine .here_bind (.emit_bind (.expressionStatement _ _) (.emit_bind
    (.openExpression (K.start hc.paired)) (.emit_bind (.delegateCall hc.textIn) (.take_bind ?_))))
  exact mirrorsAt_closing hadvance (mirrors_arguments h _ _ hadvance)
    (fun _ _ _ => hmoves _ _ _ _ hadvance.sited) (settles_arguments h.settles.delivers _ hadvance.sited)
    (.arguments h.delivers') fun _ _ hd hstop =>
      .emit_bind (.closeExpression false hstop) (mirrors_semicolon _ _ hd)

theorem mirrors_constructor (h : inner.Mirrors K) : (constructor inner).MirrorsSelf K := by
  have hdelegate (c c' : Cursor) (hc : K.Aligned c c') :
      opensDelegateCall c = opensDelegateCall c' := by
    rw [opensDelegateCall, opensDelegateCall, ← hc.isAtWord, ← hc.isAtWord, ← hc.nextIs fun _ => rfl]
  have hrest : (do
      blockRest inner
      emit (.closeDeclaration (← before).toSpan true) : Reading Unit).MirrorsSelf K :=
    (mirrors_blockRest h).bind_eq fun _ _ _ hc => .before_bind (.emit hc (.closeDeclaration _ _ _))
  have hbody : (do
      let brace ← expect .openBrace "\x7b"
      emit (.openBlock brace.toSpan)
      reportComments
      if opensDelegateCall (← cursor) then delegateCall inner
      blockRest inner
      emit (.closeDeclaration (← before).toSpan true) : Reading Unit).MirrorsSelf K := by
    intro c c' hc
    refine .expect_bind hc fun hd => .emit_bind (.openBlock _ _)
      ((Mirrors.reportComments _ _ hd).bind_eq fun _ e e' he => .cursor_bind (.cond (hdelegate e e' he)
        (fun _ => ?_) fun _ => hrest e e' he))
    exact (mirrors_delegateCall h e e' he).bind_eq fun _ _ _ hf => hrest _ _ hf
  intro c c' hc
  refine .here_bind ((Mirrors.modifiers c c' hc).bind fun _ _ d d' hspans hd =>
    .expectName_bind hd fun he => .emit_bind (.openConstructor _ _ hc.line hspans) ?_)
  exact (mirrors_parameters _ _ he).bind_eq fun _ _ _ hf => (mirrors_throwsClause _ _ hf).bind_eq
    fun _ _ _ hg => hbody _ _ hg

theorem mirrors_directive (word : Text) : (directive word).MirrorsSelf K := fun c c' hc =>
  .here_bind (.emit_bind (.unsupported _ hc.line) (mirrors_skipToSemicolon c c' hc))

theorem mirrors_unsupportedMember (construct : String) (head skipped : Nat) :
    (unsupportedMember construct head skipped).MirrorsSelf K := fun _ _ hc =>
  .cursor_bind (.emit_bind (.unsupported _ (hc.forward head).line)
    (.forward_bind (mirrors_skipStatement _ _ (hc.forward skipped))))

theorem mirrors_member (h : inner.Mirrors K) : (member inner).MirrorsSelf K := by
  intro c c' hc
  refine .cursor_bind ?_
  rw [← hc.memberShape]
  cases memberShape c with
  | directive word => exact mirrors_directive word c c' hc
  | unsupported construct head skipped =>
      exact mirrors_unsupportedMember construct head skipped c c' hc
  | constructor => exact mirrors_constructor h c c' hc
  | method => exact mirrors_method h c c' hc
  | statement => exact h.statement c c' hc

theorem mirrors_memberRound (h : inner.Mirrors K) : (memberRound inner).MirrorsSelf K := fun c c' hc => by
  refine .here_bind (.cond (hc.same_here (f := Token.isEnd) fun _ => rfl) (fun _ => .pure rfl hc) fun _ => ?_)
  exact (Mirrors.reportComments c c' hc).bind_eq fun _ _ _ hd => (mirrors_member h _ _ hd).bind_eq
    fun _ _ _ he => .pure rfl he

theorem mirrors_members (h : inner.Mirrors K) : (members inner).MirrorsSelf K := by
  rw [members_eq]
  exact (rounds (mirrors_memberRound h)).bind_eq fun _ => Mirrors.reportComments

end Reading

theorem Enclosed.mirrors_within (K : Pairing C) (levels : Nat) : (Enclosed.within levels).Mirrors K := by
  have hreports := Enclosed.reports_within C.source none
  have hsettles := Enclosed.settles_within C.source
  have hdelivers := Enclosed.delivers_within C.source'
  induction levels with
  | zero =>
      have hfail : (Reading.fail .nestedTooDeep : Reading Unit).MirrorsSelf K :=
        fun _ _ _ => .fail .nestedTooDeep
      exact ⟨hfail, hfail, hfail, hfail, hreports 0, hsettles 0, hdelivers 0⟩
  | succ levels ih =>
      exact ⟨Reading.mirrors_assignment ih, Reading.mirrors_branches ih,
        Reading.mirrors_arrayInitializer ih, Reading.mirrors_statement ih, hreports _, hsettles _,
        hdelivers _⟩

/-- The readings of two sources whose tokens belong together. -/
theorem Pairing.readEvents (K : Pairing C) {tokens tokens' : List Token}
    (hlex : lex C.source = .ok tokens) (hlex' : lex C.source' = .ok tokens')
    (h : K.Paired (tokens.filter (·.kind ≠ .comment)) (tokens'.filter (·.kind ≠ .comment))) :
    EventsResemble C (readEvents C.source).1 (readEvents C.source').1 ∧
      (((readEvents C.source).2 = .ok () ∧ (readEvents C.source').2 = .ok ()) ∨
        ∃ e e', (readEvents C.source).2 = .error e ∧ (readEvents C.source').2 = .error e' ∧
          e.fault = e'.fault) := by
  obtain ⟨c, hc⟩ := Cursor.exists_ofTokens (laid_of_lex hlex)
  obtain ⟨c', hc'⟩ := Cursor.exists_ofTokens (laid_of_lex hlex')
  rw [← Cursor.tokens_of_ofTokens hc, ← Cursor.tokens_of_ofTokens hc'] at h
  have hmirror := Reading.mirrors_members (Enclosed.mirrors_within K nestingLimit) c c'
    ⟨h, Cursor.sited_of_ofTokens (laid_of_lex hlex) hc, Cursor.sited_of_ofTokens (laid_of_lex hlex') hc'⟩
  unfold Reading.MirrorsAt at hmirror
  simp only [CodeFrames.readEvents, hlex, hlex', hc, hc']
  generalize Reading.members (Enclosed.within nestingLimit) c = x,
    Reading.members (Enclosed.within nestingLimit) c' = y at hmirror
  cases hmirror with
  | ok hevents _ _ => exact ⟨hevents, .inl ⟨rfl, rfl⟩⟩
  | error hevents hfault => exact ⟨hevents, .inr ⟨_, _, rfl, rfl, hfault⟩⟩

end CodeFrames
