import CodeFrames.Proofs.Skipping.Basic

/-!
# Expressions hold no semicolon outside groups

No production of an expression steps over a semicolon, except inside a block of a lambda or the body of
a class, and these are stepped over as groups.
-/

namespace CodeFrames

open Token (Unbroken)

namespace Reading

/-! ## Readings that pass unbroken tokens -/

variable {α β : Type} {source : Text}

/-- What a run from the cursor steps over is unbroken. -/
def UnbrokenAt (r : Reading α) (c : Cursor) : Prop :=
  ∀ events a d, r c = (events, .ok (a, d)) → ∃ passed, c.Spans passed d ∧ Unbroken passed

def UnbrokenIn (source : Text) (r : Reading α) : Prop := ∀ c : Cursor, c.Sited source → r.UnbrokenAt c

namespace UnbrokenAt

variable {r : Reading α} {f : α → Reading β} {c : Cursor}

theorem of_error {events : List Event} {e : SourceError} (h : r c = (events, .error e)) :
    r.UnbrokenAt c := by
  intro more a d hrun
  rw [h] at hrun
  cases hrun

theorem fail (fault : Fault) : (Reading.fail fault : Reading α).UnbrokenAt c :=
  of_error (e := ⟨c.here.line, fault⟩) rfl

theorem refuse (expected : Expectation) : (Reading.refuse expected : Reading α).UnbrokenAt c :=
  of_error (e := ⟨c.here.line, .expected expected c.here.found⟩) rfl

theorem of_ok {a : α} {d : Cursor} {passed : List Token} (events : List Event)
    (h : r c = (events, .ok (a, d))) (hspans : c.Spans passed d) (hpassed : Unbroken passed) :
    r.UnbrokenAt c := by
  intro more b e hrun
  cases h.symm.trans hrun
  exact ⟨passed, hspans, hpassed⟩

theorem pure (a : α) : (Pure.pure a : Reading α).UnbrokenAt c :=
  of_ok [] rfl (Cursor.spans_nil rfl rfl) .nil

theorem here_bind {f : Token → Reading β} (h : (f c.here).UnbrokenAt c) :
    (Reading.here >>= f).UnbrokenAt c := h

theorem before_bind {f : Token → Reading β} (h : (f c.before).UnbrokenAt c) :
    (Reading.before >>= f).UnbrokenAt c := h

theorem cursor_bind {f : Cursor → Reading β} (h : (f c).UnbrokenAt c) :
    (Reading.cursor >>= f).UnbrokenAt c := h

theorem ite {p : Prop} [Decidable p] {s : Reading α} (hr : p → r.UnbrokenAt c)
    (hs : ¬ p → s.UnbrokenAt c) : (if p then r else s).UnbrokenAt c := by
  split
  · exact hr ‹_›
  · exact hs ‹_›

theorem bind (h : r.UnbrokenAt c)
    (hf : ∀ events a d, r c = (events, .ok (a, d)) → c.Reaches d → (f a).UnbrokenAt d) :
    (r >>= f).UnbrokenAt c := by
  intro events b e hrun
  obtain ⟨first, a, d, more, hr, hmore, rfl⟩ := exists_of_bind_ok hrun
  obtain ⟨passed, hspans, hpassed⟩ := h first a d hr
  obtain ⟨others, hothers, hunbroken⟩ := hf first a d hr ⟨passed, hspans⟩ more b e hmore
  exact ⟨passed ++ others, hspans.trans hothers, hpassed.append hunbroken⟩

theorem emit {e : Event} : (Reading.emit e).UnbrokenAt c :=
  of_ok [e] rfl (Cursor.spans_nil rfl rfl) .nil

theorem emit_bind {e : Event} {f : Unit → Reading β} (h : (f ()).UnbrokenAt c) :
    (Reading.emit e >>= f).UnbrokenAt c :=
  emit.bind fun events u d hrun _ => by
    cases hrun
    exact h

theorem take {kind : Token.Kind} (hkind : c.here.kind = kind) (hstop : kind.isStop = false) :
    Reading.take.UnbrokenAt c := by
  obtain ⟨before, here, ahead, comments⟩ := c
  cases ahead with
  | nil => exact of_ok [] rfl (Cursor.spans_nil rfl rfl) .nil
  | cons t ts => exact of_ok [] rfl ⟨rfl, rfl⟩ (.singleton (hkind ▸ hstop))

theorem take_bind {f : Token → Reading β} {kind : Token.Kind} (hkind : c.here.kind = kind)
    (hstop : kind.isStop = false) (hf : (f c.here).UnbrokenAt c.advance) :
    (Reading.take >>= f).UnbrokenAt c :=
  (take hkind hstop).bind fun events t d hrun _ => by
    cases hrun
    exact hf

/-- Steps over tokens that are found to be unbroken by looking ahead. -/
theorem forward {n : Nat} (hc : c.Sited source) (hend : ∀ t ∈ c.tokens.take n, ¬ t.isEnd)
    (h : Unbroken (c.tokens.take n)) : (Reading.forward n).UnbrokenAt c := by
  intro events u d hrun
  cases hrun
  exact ⟨c.tokens.take n, Cursor.spans_forward hc.laid hend, h⟩

theorem forward_bind {n : Nat} {f : Unit → Reading β} (hc : c.Sited source)
    (hend : ∀ t ∈ c.tokens.take n, ¬ t.isEnd) (h : Unbroken (c.tokens.take n))
    (hf : (f ()).UnbrokenAt (c.forward n)) : (Reading.forward n >>= f).UnbrokenAt c :=
  (forward hc hend h).bind fun events u d hrun _ => by
    cases hrun
    exact hf

theorem skipGroup (hc : c.Sited source) (hopener : c.here.kind.isOpener = true) :
    Reading.skipGroup.UnbrokenAt c := by
  rw [Reading.skipGroup]
  refine .cursor_bind ?_
  cases hgroup : Token.groupLength? c.tokens with
  | none => exact .fail _
  | some n =>
      refine .forward hc (Token.not_isEnd_of_groupFrom hgroup) ?_
      obtain ⟨ps, us, htokens, rfl, hps⟩ := Token.exists_of_groupLength? hgroup
      rw [htokens, List.take_left]
      obtain ⟨t, ps, rfl⟩ := List.exists_cons_of_ne_nil hps.ne_nil
      obtain ⟨hhere, -⟩ := List.cons.inj (htokens : c.here :: c.ahead = t :: (ps ++ us))
      exact .of_closing hps (hhere ▸ hopener)

theorem skipGroup_bind {f : Unit → Reading β} (hc : c.Sited source)
    (hopener : c.here.kind.isOpener = true) (hf : ∀ d, d.Sited source → (f ()).UnbrokenAt d) :
    (Reading.skipGroup >>= f).UnbrokenAt c :=
  (skipGroup hc hopener).bind fun _ _ d _ hreaches => hf d (hc.reaching hreaches)

end UnbrokenAt

namespace UnbrokenIn

theorem bind {r : Reading α} {f : α → Reading β} (h : r.UnbrokenIn source)
    (hf : ∀ a, (f a).UnbrokenIn source) : (r >>= f).UnbrokenIn source :=
  fun c hc => (h c hc).bind fun _ a d _ hreaches => hf a d (hc.reaching hreaches)

theorem pure (a : α) : (Pure.pure a : Reading α).UnbrokenIn source := fun _ _ => .pure a

theorem done {r : Reading α} (h : r.UnbrokenIn source) (b : β) :
    (r >>= fun _ => Pure.pure b).UnbrokenIn source := h.bind fun _ => pure b

theorem expect {kind : Token.Kind} {symbol : String} (hstop : kind.isStop = false) :
    (Reading.expect kind symbol).UnbrokenIn source :=
  fun _ _ => .cursor_bind (.ite (fun hat => .take (kind_of_isAt hat) hstop) fun _ => .refuse _)

theorem expectOperator {operator : String} : (Reading.expectOperator operator).UnbrokenIn source :=
  fun _ _ => .cursor_bind (.ite (fun hat => .take (kind_of_isOperator hat) rfl) fun _ => .refuse _)

theorem expectName : Reading.expectName.UnbrokenIn source :=
  fun _ _ => .here_bind (.ite (fun hat => .take (Token.kind_of_isName hat) rfl) fun _ => .refuse _)

theorem comma : Reading.comma.UnbrokenIn source :=
  fun _ _ => .cursor_bind (.ite (fun hat => .take_bind (kind_of_isAt hat) rfl (.pure _)) fun _ => .pure _)

theorem rounds {body : Reading Bool} (h : body.UnbrokenIn source) :
    (repeatWhile body).UnbrokenIn source := by
  have hloop (budget : List Token) : (loop body budget).UnbrokenIn source := by
    induction budget with
    | nil => exact h.bind fun _ => pure ()
    | cons t budget ih => exact h.bind fun _ c hc => .ite (fun _ => ih c hc) fun _ => .pure ()
  exact fun c => hloop c.ahead c

end UnbrokenIn

open UnbrokenIn

/-! ## Types -/

theorem isStop_of_typeKinds {t : Token} (h : t.kind ∈ Token.typeKinds) : t.kind.isStop = false := by
  revert h
  cases t.kind <;> decide

/-- A type, or a part of one, is unbroken. -/
theorem UnbrokenAt.forward_of_typeKinds {c : Cursor} {n : Nat} (hc : c.Sited source)
    (h : ∀ t ∈ c.tokens.take n, t.kind ∈ Token.typeKinds) : (Reading.forward n).UnbrokenAt c :=
  .forward hc (fun t ht => Token.not_isEnd_of_typeKinds (h t ht))
    (.of_forall fun t ht => isStop_of_typeKinds (h t ht))

theorem unbroken_unreportedType : unreportedType.UnbrokenIn source := by
  refine fun c hc => .cursor_bind ?_
  cases htype : Token.typeLength? c.tokens with
  | none => exact .refuse _
  | some n => exact .forward_of_typeKinds hc (Token.typeKinds_of_type htype)

/-- A cast is a type in parentheses. -/
theorem unbroken_of_cast {ts : List Token} {n : Nat} (h : Token.castLength? ts = some n) :
    Unbroken (ts.take n) := by
  obtain ⟨paren, type, rest, m, close, operand, more, rfl, hparen, hm, hdrop, hclose, -, rfl⟩ :=
    Token.castLength?_eq_some.mp h
  have htype := Token.typeKinds_of_type hm
  rw [List.take_succ_cons, List.take_add_one, ← List.head?_drop, hdrop]
  refine .plain (by rw [hparen]; rfl) (.append (.of_forall fun t ht => isStop_of_typeKinds (htype t ht)) ?_)
  exact .singleton (by rw [hclose]; rfl)

/-! ## Lambda expressions -/

/-- One round of the walk over the body of a lambda. -/
def lambdaRound : Reading Bool := do
  let t ← here
  if t.kind.isOpener then
    skipGroup
    return true
  else if endsLambdaBody t then return false
  else
    let _ ← take
    return true

theorem unbroken_skipLambdaBody : skipLambdaBody.UnbrokenIn source := by
  have hround : lambdaRound.UnbrokenIn source := by
    refine fun c hc => .here_bind (.ite (fun hopener => ?_) fun _ => .ite (fun _ => .pure _) fun hends => ?_)
    · exact .skipGroup_bind hc hopener fun _ _ => .pure _
    · refine .take_bind rfl ?_ (.pure _)
      revert hends
      rw [endsLambdaBody]
      cases c.here.kind <;> simp [Token.Kind.isStop]
  refine fun c hc => .here_bind (.ite (fun hbrace => ?_) fun _ => .ite (fun _ => .refuse _) fun _ => ?_)
  · exact .skipGroup hc (by rw [hbrace]; rfl)
  · exact rounds hround c hc

theorem unbrokenAt_lambda {c : Cursor} (hc : c.Sited source) (hshape : operandShape c = .lambda) :
    lambda.UnbrokenAt c := by
  obtain ⟨d, hrun, hreaches, harrow⟩ := exists_arrow hc hshape
  have hparameters : lambdaParameters.UnbrokenAt c := by
    refine .here_bind (.ite (fun hparen => .skipGroup hc (by rw [hparen]; rfl)) fun hparen => ?_)
    exact .take_bind (kind_of_lambda hshape hparen) rfl (.pure _)
  rw [lambda_eq]
  refine .here_bind (.emit_bind (hparameters.bind fun events u e he _ => ?_))
  cases hrun.symm.trans he
  exact .take_bind (kind_of_isOperator harrow) rfl
    (unbroken_skipLambdaBody _ (hc.reaching hreaches).advance)

/-! ## Expressions -/

end Reading

/-- What is asked of the productions of expressions one nesting level deeper. -/
structure Enclosed.UnbrokenIn (source : Text) (inner : Enclosed) : Prop where
  assignment : inner.assignment.UnbrokenIn source
  branches : inner.branches.UnbrokenIn source
  arrayInitializer : inner.arrayInitializer.UnbrokenIn source

namespace Reading

open UnbrokenIn

variable {source : Text} {inner : Enclosed}

theorem unbroken_expression (h : inner.UnbrokenIn source) : (expression inner).UnbrokenIn source :=
  fun c hc => .here_bind (.ite (fun _ => .of_error (e := ⟨c.here.line, .expected .expression c.here.found⟩) rfl)
    fun _ => .emit_bind ((h.assignment c hc).bind fun _ _ _ _ _ => .before_bind .emit))

theorem unbroken_arguments (h : inner.UnbrokenIn source) : (arguments inner).UnbrokenIn source := by
  have hround : (argumentRound inner).UnbrokenIn source :=
    fun c hc => .here_bind (.emit_bind ((unbroken_expression h).bind (fun _ => UnbrokenIn.comma) c hc))
  have hclose : (do
      let paren ← expect .closeParen ")"
      emit (.closeArguments paren.toSpan) : Reading Unit).UnbrokenIn source :=
    (UnbrokenIn.expect rfl).bind fun _ _ _ => .emit
  refine (UnbrokenIn.expect rfl).bind fun _ c hc => .emit_bind (.cursor_bind (.ite (fun _ => ?_) fun _ => ?_))
  · exact (rounds hround).bind (fun _ => hclose) c hc
  · exact hclose c hc

theorem unbroken_optionalArguments (h : inner.UnbrokenIn source) :
    (optionalArguments inner).UnbrokenIn source :=
  fun c hc => .cursor_bind (.ite (fun _ => unbroken_arguments h c hc) fun _ => .pure _)

theorem unbroken_arrayInitializer (h : inner.UnbrokenIn source) :
    (arrayInitializer inner).UnbrokenIn source := by
  have hround : (valueRound inner).UnbrokenIn source :=
    fun c hc => .cursor_bind (.ite (fun _ => .pure _) fun _ => .ite
      (fun _ => h.arrayInitializer.bind (fun _ => UnbrokenIn.comma) c hc)
      fun _ => (unbroken_expression h).bind (fun _ => UnbrokenIn.comma) c hc)
  exact (UnbrokenIn.expect rfl).bind fun _ => (rounds hround).bind fun _ =>
    (UnbrokenIn.expect rfl).done _

/-- An expression in brackets behind the opening one. -/
theorem unbroken_index (h : inner.UnbrokenIn source) {b : Bool} : (do
    expression inner
    let _ ← expect .closeBracket "]"
    return b : Reading Bool).UnbrokenIn source :=
  (unbroken_expression h).bind fun _ => (UnbrokenIn.expect rfl).done _

theorem unbroken_dimension (h : inner.UnbrokenIn source) : (dimension inner).UnbrokenIn source := by
  refine fun c hc => .cursor_bind (.ite (fun hat => ?_) fun _ => .pure _)
  refine .take_bind (kind_of_isAt hat) rfl (.cursor_bind (.ite (fun _ => ?_) fun _ => ?_))
  · exact unbroken_index h _ hc.advance
  · exact (UnbrokenIn.expect rfl).done _ _ hc.advance

theorem unbroken_createdObject (h : inner.UnbrokenIn source) :
    (createdObject inner).UnbrokenIn source := by
  refine fun c hc => .here_bind ?_
  split
  · refine (unbroken_arguments h).bind (fun _ d hd => .here_bind (.ite (fun hbrace => ?_) fun _ => .pure _)) c hc
    exact .emit_bind (.skipGroup hd (by rw [hbrace]; rfl))
  · refine (rounds (unbroken_dimension h)).bind (fun _ d hd => .cursor_bind ?_) c hc
    exact .ite (fun _ => unbroken_arrayInitializer h d hd) fun _ => .pure _
  · exact .refuse _

/-- An object is created behind the word at the cursor. -/
theorem unbrokenAt_creation (h : inner.UnbrokenIn source) {c : Cursor} (hc : c.Sited source)
    (hkind : c.here.kind = .word) : (creation inner).UnbrokenAt c := by
  refine .take_bind hkind rfl (.cursor_bind ?_)
  cases htype : Token.typeNameLength? c.advance.tokens with
  | none => exact .refuse _
  | some n =>
      exact (UnbrokenAt.forward_of_typeKinds hc.advance (Token.typeKinds_of_typeName htype)).bind
        fun _ _ d _ hreaches => unbroken_createdObject h d (hc.advance.reaching hreaches)

theorem unbroken_typeLiteral (word : Text) : (typeLiteral word).UnbrokenIn source :=
  unbroken_unreportedType.bind fun _ _ _ => .cursor_bind (.ite (fun _ => .fail _) fun _ => .pure _)

theorem unbroken_operand (h : inner.UnbrokenIn source) : (operand inner).UnbrokenIn source := by
  intro c hc
  obtain ⟨hparen, hword, hliteral⟩ := @bracket_of_operandShape c
  refine .cursor_bind ?_
  cases hshape : operandShape c with
  | literal =>
      refine .take_bind rfl ?_ (.pure _)
      rw [operandShape] at hshape
      revert hshape
      cases c.here.kind <;> simp [Token.Kind.isStop]
  | lambda => exact unbrokenAt_lambda hc hshape
  | parenthesized =>
      exact .take_bind (hparen hshape) rfl ((unbroken_expression h).bind
        (fun _ => (UnbrokenIn.expect rfl).done _) _ hc.advance)
  | creation => exact unbrokenAt_creation h hc (hword (.inl hshape))
  | reference => exact .take_bind (hword (.inr hshape)) rfl (unbroken_optionalArguments h _ hc.advance)
  | typeLiteral word => exact unbroken_typeLiteral word c hc
  | reserved word => exact .fail _
  | other => exact .refuse _

/-! ## Selectors, operators and casts -/

theorem unbroken_memberAccess (h : inner.UnbrokenIn source) : (memberAccess inner).UnbrokenIn source := by
  have hname := (@UnbrokenIn.expectName source).bind fun _ => unbroken_optionalArguments h
  refine fun c hc => .cursor_bind (.ite (fun hnew => ?_) fun _ => .ite (fun hself => ?_) fun _ =>
    .ite (fun _ => ?_) fun _ => hname c hc)
  · exact unbrokenAt_creation h hc (kind_of_isWord hnew)
  · have hkind : c.here.kind = .word := by
      simp only [Bool.or_eq_true] at hself
      rcases hself with (hself | hself) | hself <;> exact kind_of_isWord hself
    exact .take_bind hkind rfl (.pure _)
  · refine UnbrokenAt.bind (.here_bind (.emit_bind (.cursor_bind ?_))) fun _ _ d _ hreaches =>
      hname d (hc.reaching hreaches)
    cases hlength : Token.typeArgumentsLength? c.tokens with
    | none => exact .fail _
    | some n => exact .forward_of_typeKinds hc (Token.typeKinds_of_typeArguments hlength)

theorem unbroken_selector (h : inner.UnbrokenIn source) : (selector inner).UnbrokenIn source := by
  intro c hc
  have hadvance := hc.advance
  refine .cursor_bind (.ite (fun hdot => ?_) fun _ => .ite (fun hbracket => ?_) fun _ =>
    .ite (fun hreference => ?_) fun _ => .ite (fun hstep => ?_) fun _ => .pure _)
  · exact .take_bind (kind_of_isAt hdot) rfl ((unbroken_memberAccess h).done _ _ hadvance)
  · exact .take_bind (kind_of_isAt hbracket) rfl (unbroken_index h _ hadvance)
  · refine .take_bind (kind_of_isOperator hreference) rfl (.cursor_bind (.ite (fun hnew => ?_) fun _ => ?_))
    · exact .take_bind (kind_of_isWord hnew) rfl (.pure _)
    · exact UnbrokenIn.expectName.done _ _ hadvance
  · exact .take_bind (kind_of_isOperatorIn hstep) rfl (.pure _)

theorem unbroken_leading : leading.UnbrokenIn source := by
  refine fun c hc => .cursor_bind (.ite (fun hoperator => ?_) fun _ => ?_)
  · exact .take_bind (kind_of_isOperatorIn hoperator) rfl (.pure _)
  · cases hcast : Token.castLength? c.tokens with
    | none => exact .pure _
    | some n =>
        exact .forward_bind hc (Token.not_isEnd_of_cast hcast) (unbroken_of_cast hcast) (.pure _)

theorem unbroken_unary (h : inner.UnbrokenIn source) : (unary inner).UnbrokenIn source :=
  (rounds unbroken_leading).bind fun _ => (unbroken_operand h).bind fun _ => rounds (unbroken_selector h)

theorem unbrokenAt_typeTest {c : Cursor} (hc : c.Sited source) (hkind : c.here.kind = .word) :
    typeTest.UnbrokenAt c := by
  have hname : (do if (← here).isName then let _ ← take : Reading Unit).UnbrokenIn source :=
    fun _ _ => .here_bind (.ite (fun hname => .take_bind (Token.kind_of_isName hname) rfl (.pure _))
      fun _ => .pure _)
  have htype := (@unbroken_unreportedType source).bind fun _ => hname
  refine .take_bind hkind rfl (.cursor_bind (.ite (fun hfinal => ?_) fun _ => htype _ hc.advance))
  exact .take_bind (kind_of_isWord hfinal) rfl (htype _ hc.advance.advance)

theorem unbroken_binary (h : inner.UnbrokenIn source) : (binary inner).UnbrokenIn source := by
  refine (unbroken_unary h).bind fun _ => rounds fun c hc => .cursor_bind (.ite (fun htest => ?_)
    fun _ => .ite (fun hoperator => ?_) fun _ => .pure _)
  · exact (unbrokenAt_typeTest hc (kind_of_isWord htest)).bind fun _ _ _ _ _ => .pure _
  · exact .take_bind (kind_of_isOperatorIn hoperator) rfl ((unbroken_unary h).done _ _ hc.advance)

theorem unbroken_conditional (h : inner.UnbrokenIn source) : (conditional inner).UnbrokenIn source :=
  (unbroken_binary h).bind fun _ _ hc => .cursor_bind (.ite
    (fun hmark => .take_bind (kind_of_isOperator hmark) rfl (h.branches _ hc.advance)) fun _ => .pure _)

theorem unbroken_assignment (h : inner.UnbrokenIn source) : (assignment inner).UnbrokenIn source :=
  (unbroken_conditional h).bind fun _ => rounds fun _ hc => .here_bind (.ite
    (fun hoperator => .take_bind (kind_of_isOperatorIn hoperator) rfl
      ((unbroken_conditional h).done _ _ hc.advance)) fun _ => .pure _)

theorem unbroken_branches (h : inner.UnbrokenIn source) : (branches inner).UnbrokenIn source :=
  (unbroken_assignment h).bind fun _ => UnbrokenIn.expectOperator.bind fun _ => unbroken_conditional h

end Reading

/-- At every nesting level what an expression steps over is unbroken. -/
theorem Enclosed.unbroken_within (source : Text) (levels : Nat) :
    (Enclosed.within levels).UnbrokenIn source := by
  induction levels with
  | zero => exact ⟨fun _ _ => .fail _, fun _ _ => .fail _, fun _ _ => .fail _⟩
  | succ levels ih =>
      exact ⟨Reading.unbroken_assignment ih, Reading.unbroken_branches ih,
        Reading.unbroken_arrayInitializer ih⟩

end CodeFrames
