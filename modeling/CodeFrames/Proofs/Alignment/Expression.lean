import CodeFrames.Proofs.Alignment.Basic

/-!
# Expressions read side by side

Corresponding expressions end behind corresponding tokens, and nothing in an expression is told by
the places of its tokens.
-/

namespace CodeFrames

variable {C : Comparison} {K : Pairing C}

/-- The last tokens that two readings have stepped over correspond. -/
theorem Pairing.Aligned.stop {c c' d d' : Cursor} (h : K.Aligned c c') (hd : K.Aligned d d')
    (hpasses : c.Passes d) (hreaches : c'.Reaches d') (hsettled : d.Settled) :
    C.stop d.before.stop d'.before.stop := by
  obtain ⟨passed, hne, htokens, hbefore⟩ := hpasses
  obtain ⟨passed', htokens', hbefore'⟩ := hreaches
  have hlength := congrArg List.length (K.bare h.paired)
  have hahead := congrArg List.length (K.bare hd.paired)
  have hpaired := h.paired
  rw [htokens, htokens'] at hlength hpaired
  simp only [List.length_map, List.length_append] at hlength hahead
  obtain ⟨inside, t, rfl⟩ := (List.eq_nil_or_concat passed).resolve_left hne
  rcases List.eq_nil_or_concat passed' with rfl | ⟨inside', t', rfl⟩
  · simp at hlength
    omega
  simp only [List.concat_eq_append, List.length_append, List.length_singleton] at *
  have hinside : inside'.length = inside.length := by omega
  have hlast := K.drop (n := inside.length) hpaired (by simp)
  rw [List.append_assoc, List.append_assoc, List.drop_left, ← hinside, List.drop_left] at hlast
  rw [List.getLastD_concat] at hbefore hbefore'
  rw [hbefore, hbefore']
  exact K.stop hlast fun hdot => hsettled (hbefore ▸ hdot)

namespace Pairing.Aligned

variable {c c' : Cursor}

theorem opensLambda (h : K.Aligned c c') : Reading.opensLambda c = Reading.opensLambda c' := by
  rw [Reading.opensLambda, Reading.opensLambda, ← h.same Token.groupLength?_bare]
  cases Token.groupLength? c.tokens with
  | none => rfl
  | some n =>
      refine h.same (f := fun ts => ts[n]?.any (·.isOperator "->".toList)) fun ts => ?_
      rw [List.getElem?_map, Option.any_map]
      rfl

theorem operandShape (h : K.Aligned c c') : Reading.operandShape c = Reading.operandShape c' := by
  rw [Reading.operandShape, Reading.operandShape, Reading.wordShape, Reading.wordShape,
    ← h.kind_here, ← h.text_here, ← h.opensLambda, ← h.same_here (f := Token.isPrimitive) fun _ => rfl,
    ← h.same_here (f := Token.isName) fun _ => rfl, ← h.nextIs fun _ => rfl]

end Pairing.Aligned

/-- The productions one nesting level deeper go the same way. -/
structure Enclosed.Mirrors (K : Pairing C) (inner : Enclosed) : Prop where
  assignment : inner.assignment.MirrorsSelf K
  branches : inner.branches.MirrorsSelf K
  arrayInitializer : inner.arrayInitializer.MirrorsSelf K
  statement : inner.statement.MirrorsSelf K
  reports : inner.Reports C.source none
  settles : inner.Settles C.source
  delivers' : inner.Delivers C.source'

namespace Reading

open Mirrors

variable {inner : Enclosed} {c c' : Cursor}

/-! ## Whole expressions -/

/-- Where a reading that may end an expression is done, corresponding tokens are behind. -/
theorem mirrorsAt_closing {r : Reading Unit} (hc : K.Aligned c c') (h : MirrorsAt K Eq r r c c')
    (hadvances : r.AdvancesAt c) (hsettles : r.SettlesAt c) (hd' : r.Delivers C.source')
    {f g : Token → Reading Unit}
    (hfg : ∀ d d', K.Aligned d d' → C.stop d.before.stop d'.before.stop →
      MirrorsAt K Eq (f d.before) (g d'.before) d d') :
    MirrorsAt K Eq (r >>= fun _ => Reading.before >>= f) (r >>= fun _ => Reading.before >>= g) c c' := by
  unfold MirrorsAt at h ⊢
  generalize hrun : r c = x, hrun' : r c' = y at h
  cases h with
  | @ok events events' _ _ d d' hevents _ hd =>
      rw [bind_of_ok _ hrun, bind_of_ok _ hrun']
      obtain ⟨_, hdelivers⟩ := hd'.carries _ _ _ _ hc.sited' hrun'
      have hstop := hc.stop hd (hadvances _ _ _ hrun) hdelivers.reaches (hsettles _ _ _ hrun)
      exact (hfg d d' hd hstop).behind hevents
  | error hevents hfault =>
      rw [bind_of_error _ hrun, bind_of_error _ hrun']
      exact .error hevents hfault

/-- A whole expression, from its first token on. -/
theorem mirrorsAt_whole {r : Reading Unit} (hc : K.Aligned c c') (h : r.MirrorsSelf K)
    (hadvances : r.Advances C.source) (hsettles : r.Settles C.source)
    (hd' : r.Delivers C.source') :
    MirrorsAt K Eq (do
        emit (.openExpression c.here.toSpan)
        r
        emit (.closeExpression (← before).toSpan false))
      (do
        emit (.openExpression c'.here.toSpan)
        r
        emit (.closeExpression (← before).toSpan false)) c c' :=
  .emit_bind (.openExpression (K.start hc.paired)) (mirrorsAt_closing hc (h c c' hc)
    (hadvances c hc.sited.laid) (hsettles c hc.sited) hd' fun _ _ hd hstop =>
      .emit hd (.closeExpression false hstop))

theorem mirrors_expression (h : inner.Mirrors K) : (expression inner).MirrorsSelf K := by
  intro c c' hc
  refine .here_bind (.cond (hc.same_here (f := Token.endsExpression) fun _ => rfl)
    (fun _ => .refuse hc _) fun _ => ?_)
  exact mirrorsAt_whole hc h.assignment h.reports.advances h.settles.assignment h.delivers'.assignment

/-! ## Stepping over code -/

theorem mirrors_take {α : Type} {f : Token → Reading α} (h : ∀ t t', (f t).Mirrors K Eq (f t')) :
    (take >>= f).MirrorsSelf K := fun _ _ hc => .take_bind (h _ _ _ _ hc.advance)

theorem mirrors_skipGroup : skipGroup.MirrorsSelf K := by
  intro c c' hc
  refine .cursor_bind ?_
  rw [← hc.same Token.groupLength?_bare]
  cases Token.groupLength? c.tokens with
  | none =>
      refine .here_bind ?_
      rw [← hc.same_here (f := Token.found) fun _ => rfl]
      exact .fail _
  | some n => exact .ok .nil rfl (hc.forward n)

theorem mirrors_skipLambdaBody : skipLambdaBody.MirrorsSelf K := by
  intro c c' hc
  refine .here_bind (.ite (by rw [hc.kind_here]) (fun _ => mirrors_skipGroup c c' hc) fun _ =>
    .cond (hc.same_here (f := endsLambdaBody) fun _ => rfl) (fun _ => .refuse hc _) fun _ => ?_)
  refine rounds (fun c c' hc => .here_bind (.cond (by rw [hc.kind_here]) (fun _ => ?_) fun _ =>
    .cond (hc.same_here (f := endsLambdaBody) fun _ => rfl) (fun _ => .pure rfl hc) fun _ => ?_)) c c' hc
  · exact (mirrors_skipGroup c c' hc).bind_eq fun _ _ _ hd => .pure rfl hd
  · exact .take_bind (.pure rfl hc.advance)

theorem mirrors_lambda : lambda.MirrorsSelf K := by
  have hrest : (do
      let _ ← take
      skipLambdaBody : Reading Unit).MirrorsSelf K := mirrors_take fun _ _ => mirrors_skipLambdaBody
  intro c c' hc
  refine .here_bind (.emit_bind (.unsupported _ hc.line) (.ite (by rw [hc.kind_here]) (fun _ => ?_)
    fun _ => .take_bind (hrest _ _ hc.advance)))
  exact (mirrors_skipGroup c c' hc).bind_eq fun _ _ _ hd => hrest _ _ hd

/-! ## Argument lists and array initializers -/

theorem mirrors_arguments (h : inner.Mirrors K) : (arguments inner).MirrorsSelf K := by
  have hclose : (do
      let paren ← expect .closeParen ")"
      emit (.closeArguments paren.toSpan) : Reading Unit).MirrorsSelf K :=
    fun c c' hc => .expect_bind hc fun hc => .emit hc (.closeArguments _ _)
  have hround : (do
      emit (.argument (← here).toSpan)
      expression inner
      comma : Reading Bool).MirrorsSelf K := fun c c' hc =>
    .here_bind (.emit_bind (.argument _ _) ((mirrors_expression h c c' hc).bind_eq
      fun _ _ _ hd => Mirrors.comma _ _ hd))
  intro c c' hc
  refine .expect_bind hc fun hc => .emit_bind (.openArguments _ _) (.cursor_bind
    (.cond (by rw [hc.isAt]) (fun _ => ?_) fun _ => hclose _ _ hc))
  exact (rounds hround _ _ hc).bind_eq fun _ _ _ hd => hclose _ _ hd

theorem mirrors_optionalArguments (h : inner.Mirrors K) :
    (optionalArguments inner).MirrorsSelf K := fun c c' hc =>
  .cursor_bind (.cond (hc.isAt _) (fun _ => mirrors_arguments h c c' hc) fun _ => .pure rfl hc)

theorem mirrors_arrayInitializer (h : inner.Mirrors K) :
    (arrayInitializer inner).MirrorsSelf K := by
  intro c c' hc
  refine .expect_bind hc fun hc => (rounds (fun c c' hc => ?_) _ _ hc).bind_eq fun _ _ _ hd =>
    .expect_bind hd fun he => .pure rfl he
  refine .cursor_bind (.cond (hc.isAt _) (fun _ => .pure rfl hc) fun _ => .cond (hc.isAt _)
    (fun _ => ?_) fun _ => ?_)
  · exact (h.arrayInitializer c c' hc).bind_eq fun _ _ _ hd => Mirrors.comma _ _ hd
  · exact (mirrors_expression h c c' hc).bind_eq fun _ _ _ hd => Mirrors.comma _ _ hd

/-! ## Operands -/

theorem mirrors_dimension (h : inner.Mirrors K) : (dimension inner).MirrorsSelf K := by
  have hclose : (do
      let _ ← expect .closeBracket "]"
      return true : Reading Bool).MirrorsSelf K :=
    fun c c' hc => .expect_bind hc fun hc => .pure rfl hc
  intro c c' hc
  refine .cursor_bind (.cond (hc.isAt _) (fun _ => .take_bind (.cursor_bind (.cond
    (by rw [hc.advance.isAt]) (fun _ => ?_) fun _ => hclose _ _ hc.advance))) fun _ => .pure rfl hc)
  exact (mirrors_expression h _ _ hc.advance).bind_eq fun _ _ _ hd => hclose _ _ hd

theorem mirrors_createdObject (h : inner.Mirrors K) : (createdObject inner).MirrorsSelf K := by
  intro c c' hc
  refine .here_bind ?_
  rw [← hc.kind_here]
  split
  · refine (mirrors_arguments h c c' hc).bind_eq fun _ d d' hd => .here_bind
      (.ite (by rw [hd.kind_here]) (fun _ => ?_) fun _ => .pure rfl hd)
    exact .emit_bind (.unsupported _ hd.line) (mirrors_skipGroup d d' hd)
  · exact (rounds (mirrors_dimension h) c c' hc).bind_eq fun _ d d' hd => .cursor_bind
      (.cond (hd.isAt _) (fun _ => mirrors_arrayInitializer h d d' hd) fun _ => .pure rfl hd)
  · exact .refuse hc _

theorem mirrors_creation (h : inner.Mirrors K) : (creation inner).MirrorsSelf K := by
  refine mirrors_take fun _ _ c c' hc => .cursor_bind ?_
  rw [← hc.same Token.typeNameLength?_bare]
  cases Token.typeNameLength? c.tokens with
  | none => exact .refuse hc _
  | some n => exact .forward_bind (mirrors_createdObject h _ _ (hc.forward n))

theorem mirrors_typeLiteral (word : Text) : (typeLiteral word).MirrorsSelf K := by
  intro c c' hc
  refine (Mirrors.unreportedType c c' hc).bind_eq fun _ d d' hd => .cursor_bind (.cond ?_ (fun _ => .fail _)
    fun _ => .pure rfl hd)
  rw [hd.isAt, hd.nextIs fun _ => rfl]

theorem mirrors_operand (h : inner.Mirrors K) : (operand inner).MirrorsSelf K := by
  intro c c' hc
  refine .cursor_bind ?_
  rw [← hc.operandShape]
  cases operandShape c with
  | literal => exact .take_bind (.pure rfl hc.advance)
  | lambda => exact mirrors_lambda c c' hc
  | parenthesized =>
      exact .take_bind ((mirrors_expression h _ _ hc.advance).bind_eq fun _ _ _ hd =>
        .expect_bind hd fun he => .pure rfl he)
  | creation => exact mirrors_creation h c c' hc
  | reference => exact .take_bind (mirrors_optionalArguments h _ _ hc.advance)
  | typeLiteral word => exact mirrors_typeLiteral word c c' hc
  | reserved word => exact .fail _
  | other => exact .refuse hc _

/-! ## Selectors, operators and casts -/

theorem mirrors_skipTypeArguments : skipTypeArguments.MirrorsSelf K := by
  intro c c' hc
  refine .here_bind (.emit_bind (.unsupported _ hc.line) (.cursor_bind ?_))
  rw [← hc.same (f := Token.typeArgumentsLength?) (Token.typeArgumentsLengthFrom?_bare 0)]
  cases Token.typeArgumentsLength? c.tokens with
  | none => exact .fail _
  | some n => exact .ok .nil rfl (hc.forward n)

theorem mirrors_memberAccess (h : inner.Mirrors K) : (memberAccess inner).MirrorsSelf K := by
  have hname : (do
      let _ ← expectName
      optionalArguments inner : Reading Unit).MirrorsSelf K :=
    fun c c' hc => .expectName_bind hc fun hc => mirrors_optionalArguments h _ _ hc
  intro c c' hc
  refine .cursor_bind (.cond (hc.isAtWord _) (fun _ => mirrors_creation h c c' hc) fun _ => .cond
    (by rw [hc.isAtWord, hc.isAtWord, hc.isAtWord]) (fun _ => .take_bind (.pure rfl hc.advance))
    fun _ => .cond (hc.isAtOperator _) (fun _ => ?_) fun _ => hname c c' hc)
  exact (mirrors_skipTypeArguments c c' hc).bind_eq fun _ _ _ hd => hname _ _ hd

theorem mirrors_selector (h : inner.Mirrors K) : (selector inner).MirrorsSelf K := by
  intro c c' hc
  refine .cursor_bind (.cond (hc.isAt _) (fun _ => .take_bind ?_) fun _ => .cond (hc.isAt _)
    (fun _ => .take_bind ?_) fun _ => .cond (hc.isAtOperator _) (fun _ => .take_bind ?_) fun _ =>
      .cond (hc.same_here (f := (·.isOperatorIn Token.stepOperators)) fun _ => rfl)
        (fun _ => .take_bind (.pure rfl hc.advance)) fun _ => .pure rfl hc)
  · exact (mirrors_memberAccess h _ _ hc.advance).bind_eq fun _ _ _ hd => .pure rfl hd
  · exact (mirrors_expression h _ _ hc.advance).bind_eq fun _ _ _ hd =>
      .expect_bind hd fun he => .pure rfl he
  · exact .cursor_bind (.cond (hc.advance.isAtWord _)
      (fun _ => .take_bind (.pure rfl hc.advance.advance)) fun _ =>
        .expectName_bind hc.advance fun he => .pure rfl he)

theorem mirrors_leading : leading.MirrorsSelf K := by
  intro c c' hc
  refine .cursor_bind (.cond (hc.same_here (f := (·.isOperatorIn Token.leadingOperators))
    fun _ => rfl) (fun _ => .take_bind (.pure rfl hc.advance)) fun _ => ?_)
  rw [← hc.same Token.castLength?_bare]
  cases Token.castLength? c.tokens with
  | none => exact .pure rfl hc
  | some n => exact .forward_bind (.pure rfl (hc.forward n))

theorem mirrors_unary (h : inner.Mirrors K) : (unary inner).MirrorsSelf K :=
  (rounds mirrors_leading).bind_eq fun _ => (mirrors_operand h).bind_eq fun _ =>
    rounds (mirrors_selector h)

theorem mirrors_typeTest : typeTest.MirrorsSelf K := by
  have htested : (do
      unreportedType
      if (← here).isName then let _ ← take : Reading Unit).MirrorsSelf K :=
    fun c c' hc => (Mirrors.unreportedType c c' hc).bind_eq fun _ _ _ hd => .here_bind
      (.cond (hd.same_here (f := Token.isName) fun _ => rfl)
        (fun _ => .take_bind (.pure rfl hd.advance)) fun _ => .pure rfl hd)
  exact mirrors_take fun _ _ c c' hc => .cursor_bind (.cond (hc.isAtWord _)
    (fun _ => .take_bind (htested _ _ hc.advance)) fun _ => htested c c' hc)

theorem mirrors_binary (h : inner.Mirrors K) : (binary inner).MirrorsSelf K := by
  refine (mirrors_unary h).bind_eq fun _ => rounds fun _ _ hc => .cursor_bind (.cond
    (hc.isAtWord _) (fun _ => ?_) fun _ => .cond
      (hc.same_here (f := (·.isOperatorIn Token.binaryOperators)) fun _ => rfl) (fun _ => ?_)
      fun _ => .pure rfl hc)
  · exact (mirrors_typeTest _ _ hc).bind_eq fun _ _ _ hd => .pure rfl hd
  · exact .take_bind ((mirrors_unary h _ _ hc.advance).bind_eq fun _ _ _ hd => .pure rfl hd)

theorem mirrors_conditional (h : inner.Mirrors K) : (conditional inner).MirrorsSelf K :=
  (mirrors_binary h).bind_eq fun _ _ _ hc => .cursor_bind (.cond (hc.isAtOperator _)
    (fun _ => .take_bind (h.branches _ _ hc.advance)) fun _ => .pure rfl hc)

theorem mirrors_assignment (h : inner.Mirrors K) : (assignment inner).MirrorsSelf K := by
  refine (mirrors_conditional h).bind_eq fun _ => rounds fun _ _ hc => .here_bind (.cond
    (hc.same_here (f := (·.isOperatorIn Token.assignmentOperators)) fun _ => rfl) (fun _ => ?_)
    fun _ => .pure rfl hc)
  exact .take_bind ((mirrors_conditional h _ _ hc.advance).bind_eq fun _ _ _ hd => .pure rfl hd)

theorem mirrors_branches (h : inner.Mirrors K) : (branches inner).MirrorsSelf K :=
  (mirrors_assignment h).bind_eq fun _ _ _ hc => .expectOperator_bind hc fun hd =>
    mirrors_conditional h _ _ hd

end Reading

end CodeFrames
