import CodeFrames.Proofs.Brackets.Expression
import CodeFrames.Proofs.Documentation

/-!
# The brackets of an accepted source

Statements and members pair the brackets that they read, so the tokens of a source that can be read to
its end are well bracketed from the first to the last.  Statements and declarations that frames do not
have are stepped over by functions with rules of their own, and brackets in them need not match.
-/

namespace CodeFrames

open Token (Unread)

namespace Reading

variable {α : Type} {source : Text} {U : Unreading} {inner : Enclosed}

/-! ## Comments -/

theorem BracketsAt.comments_bind [hU : Widening U] {opener? : Option Token.Kind}
    {f : Unit → Reading α} {c : Cursor} (hf : (f ()).BracketsAt U opener? c.relieved) :
    (reportComments >>= f).BracketsAt U opener? c := by
  intro events a d hrun
  obtain ⟨more, hmore, rfl⟩ := exists_of_reported hrun
  obtain ⟨hreaches, hbrackets⟩ := hf more a d hmore
  exact ⟨hreaches, hbrackets.mono fun _ _ hpiece => hU.mono hpiece (List.subset_append_right _ _)⟩

open Brackets

theorem Brackets.comments [Widening U] :
    reportComments.Brackets source U none := by
  intro c hc
  rw [← bind_pure reportComments]
  exact .comments_bind (.pure _)

variable [hU : LeavesStatements U]

/-! ## Blocks and bodies -/

theorem brackets_blockRound (h : inner.Brackets source U) :
    (blockRound inner).Brackets source U none := by
  refine fun c hc => .here_bind (.ite (fun _ => .pure _) fun _ => .ite (fun _ => ?_) fun _ => ?_)
  · exact .of_error (e := ⟨c.here.line, .unclosedBlock⟩) rfl
  · exact h.statement.bind (fun _ => Brackets.pure _) c hc

/-- The rounds of a block end in front of its closing brace. -/
theorem brackets_blockRest (h : inner.Brackets source U) :
    (blockRest inner).Brackets source U (some .openBrace) := by
  refine fun c hc => ((rounds (brackets_blockRound h)) c hc).bind fun events u d hrun hreaches => ?_
  obtain ⟨e, last, -, -, hlast⟩ := exists_last_round
    (fun c events d hc hrun => blockRound_true h.delivers hc hrun) hc hrun
  have hd : d.relieved.Sited source := (hc.reaching hreaches).relieved
  refine .comments_bind (.close_bind hd ?_ .emit)
  exact (congrArg (Token.Kind.matches .openBrace) (blockRound_false hlast)).trans rfl

theorem brackets_block (h : inner.Brackets source U) : (block inner).Brackets source U none :=
  expect_open rfl fun _ c hc => .emit_bind (brackets_blockRest h c hc)

theorem brackets_body (h : inner.Brackets source U) : (body inner).Brackets source U none :=
  fun c hc => .cursor_bind (.ite (fun _ => brackets_block h c hc) fun _ => .here_bind (.emit_bind
    ((h.statement c hc).bind fun _ _ _ _ _ => .before_bind .emit)))

theorem brackets_condition (h : inner.Brackets source U) :
    (condition inner).Brackets source U none :=
  expect_open rfl fun _ => (brackets_expression h.toBracketsInside).bind fun _ =>
    expect_close rfl fun _ => Brackets.pure _

/-! ## Branches and loops -/

/-- A condition and what it decides on. -/
theorem brackets_branch (h : inner.Brackets source U) {f : Unit → Reading α}
    (hf : (f ()).Brackets source U none) :
    (do
      condition inner
      body inner
      f () : Reading α).Brackets source U none :=
  (brackets_condition h).bind fun _ => (brackets_body h).bind fun _ => hf

theorem brackets_furtherBranch (h : inner.Brackets source U) :
    (furtherBranch inner).Brackets source U none := by
  have helse := (brackets_body h).bind fun _ => @Brackets.pure _ source U false
  refine fun c hc => .cursor_bind (.ite (fun _ => .pure _) fun hword => ?_)
  have hkind : c.here.kind = .word := kind_of_isWord (by simpa [Cursor.isAtWord] using hword)
  refine .ite (fun hnext => ?_) fun _ => ?_
  · refine .take_bind hkind rfl rfl (.take_bind (show _ = .word from ?_) rfl rfl (.emit_bind ?_))
    · obtain ⟨before, here, ahead, comments⟩ := c
      cases ahead with
      | nil => cases hnext
      | cons t ts => exact kind_of_isWord hnext
    · exact brackets_branch h (f := fun _ => Pure.pure true) (Brackets.pure true) _ hc.advance.advance
  · exact .take_bind hkind rfl rfl (.emit_bind (helse _ hc.advance))

theorem bracketsAt_ifChain (h : inner.Brackets source U) {c : Cursor} (hc : c.Sited source)
    (hkind : c.here.kind = .word) : (ifChain inner).BracketsAt U none c :=
  .take_bind hkind rfl rfl (.emit_bind (brackets_branch h (f := fun _ => _)
    ((rounds (brackets_furtherBranch h)).bind fun _ _ _ => .before_bind .emit) _ hc.advance))

theorem bracketsAt_whileLoop (h : inner.Brackets source U) {c : Cursor} (hc : c.Sited source)
    (hkind : c.here.kind = .word) : (whileLoop inner).BracketsAt U none c :=
  .take_bind hkind rfl rfl (.emit_bind (brackets_branch h (f := fun _ => _)
    (fun _ _ => .before_bind .emit) _ hc.advance))

/-! ## Simple statements -/

theorem brackets_semicolon {opener? : Option Token.Kind} {f : Token → Reading α}
    (hf : ∀ t, (f t).Brackets source U opener?) :
    (semicolon >>= f).Brackets source U opener? :=
  Brackets.bind (Brackets.expect rfl rfl) hf

theorem brackets_value (h : inner.Brackets source U) :
    (do
      expression inner
      let _ ← semicolon : Reading Unit).Brackets source U none :=
  (brackets_expression h.toBracketsInside).bind fun _ => brackets_semicolon fun _ => Brackets.pure _

theorem bracketsAt_returned (h : inner.Brackets source U) {c : Cursor} (hc : c.Sited source)
    (hkind : c.here.kind = .word) : (returned inner).BracketsAt U none c :=
  .take_bind hkind rfl rfl (.cursor_bind (.emit_bind (.ite
    (fun _ => brackets_value h _ hc.advance)
    fun _ => brackets_semicolon (fun _ => Brackets.pure _) _ hc.advance)))

theorem brackets_label : label.Brackets source U none :=
  fun c hc => .here_bind (.ite (fun _ => Brackets.expectName.bind (fun _ => Brackets.pure _) c hc)
    fun _ => .pure _)

theorem bracketsAt_jumped (jump : Jump) {c : Cursor} (hc : c.Sited source)
    (hkind : c.here.kind = .word) : (jumped jump).BracketsAt U none c :=
  .take_bind hkind rfl rfl (brackets_label.bind
    (fun _ d hd => .emit_bind (brackets_semicolon (fun _ => Brackets.pure _) d hd)) _ hc.advance)

theorem bracketsAt_thrown (h : inner.Brackets source U) {c : Cursor} (hc : c.Sited source)
    (hkind : c.here.kind = .word) : (thrown inner).BracketsAt U none c :=
  .take_bind hkind rfl rfl (.emit_bind (brackets_value h _ hc.advance))

theorem brackets_expressionStatement (h : inner.Brackets source U) :
    (expressionStatement inner).Brackets source U none :=
  fun c hc => .here_bind (.emit_bind (brackets_value h c hc))

/-! ## Variables -/

theorem brackets_variableValue (h : inner.Brackets source U) :
    (variableValue inner).Brackets source U none := by
  refine fun c hc => .here_bind (.ite (fun _ => .emit_bind ?_) fun _ => ?_)
  · exact (brackets_arrayInitializer h.toBracketsInside).bind (fun _ _ _ => .before_bind .emit) c hc
  · exact brackets_expression h.toBracketsInside c hc

theorem brackets_declarator (h : inner.Brackets source U) :
    (declarator inner).Brackets source U none := by
  refine Brackets.expectName.bind fun name c hc => .cursor_bind (.ite (fun _ => ?_) fun _ =>
    .emit_bind (.ite (fun hvalue => ?_) fun _ => Brackets.comma c hc))
  · exact .of_error (e := ⟨c.here.line, .dimensionsAfterName⟩) rfl
  · exact .take_bind (kind_of_isOperator hvalue) rfl rfl
      ((brackets_variableValue h).bind (fun _ => Brackets.comma) _ hc.advance)

theorem brackets_localVariables (h : inner.Brackets source U) :
    (localVariables inner).Brackets source U none :=
  fun c hc => .here_bind (brackets_modifiers.bind (fun _ => brackets_typeName.bind fun _ d hd =>
    .emit_bind ((rounds (brackets_declarator h)).bind
      (fun _ => brackets_semicolon fun _ _ _ => .emit) d hd)) c hc)

/-! ## Statements -/

theorem brackets_unsupported (construct : String) :
    (unsupported construct).Brackets source U none := by
  refine fun c hc => .here_bind (.reported_bind fun events d hrun => ?_)
  exact ⟨(advances_skipStatement c hc.laid events () d hrun).reaches,
    hU.statement hc List.mem_cons_self hrun⟩

/-- A statement that is told by its first word starts with a word. -/
theorem kind_of_statementShape {c : Cursor} {shape : StatementShape} (h : statementShape c = shape)
    (hshape : shape = .ifChain ∨ shape = .whileLoop ∨ shape = .returned ∨
      (∃ jump, shape = .jump jump) ∨ shape = .thrown) : c.here.kind = .word := by
  unfold statementShape at h
  split at h <;> first | assumption | simp [← h] at hshape

/-- No word makes an empty statement. -/
theorem wordStatementShape_ne_empty (c : Cursor) : wordStatementShape c ≠ .empty := by
  have hwords : ∀ entry ∈ statementWords, entry.2 ≠ .empty := by decide
  unfold wordStatementShape
  split
  · next shape hlookup =>
      obtain ⟨front, back, hsplit, -⟩ := List.lookup_eq_some_iff.mp hlookup
      exact hwords (c.here.text, shape) (by simp [hsplit])
  · split_ifs <;> simp

theorem kind_of_empty {c : Cursor} (h : statementShape c = .empty) : c.here.kind = .semicolon := by
  unfold statementShape at h
  split at h
  · cases h
  · assumption
  · exact absurd h (wordStatementShape_ne_empty c)
  · cases h
  · cases h

theorem bracketsAt_statementOf (h : inner.Brackets source U) {c : Cursor} (hc : c.Sited source) :
    (statementOf inner (statementShape c)).BracketsAt U none c := by
  have hword := @kind_of_statementShape c _ rfl
  cases hshape : statementShape c with
  | block => exact brackets_block h c hc
  | empty => exact .take_bind (kind_of_empty hshape) rfl rfl .emit
  | ifChain => exact bracketsAt_ifChain h hc (hword (by simp [hshape]))
  | whileLoop => exact bracketsAt_whileLoop h hc (hword (by simp [hshape]))
  | returned => exact bracketsAt_returned h hc (hword (by simp [hshape]))
  | jump jump => exact bracketsAt_jumped jump hc (hword (by simp [hshape]))
  | thrown => exact bracketsAt_thrown h hc (hword (by simp [hshape]))
  | misplaced fault => exact .fail _
  | unsupported construct => exact brackets_unsupported construct c hc
  | locals => exact brackets_localVariables h c hc
  | expression => exact brackets_expressionStatement h c hc

theorem brackets_statement (h : inner.Brackets source U) :
    (statement inner).Brackets source U none :=
  fun _ hc => .comments_bind (.cursor_bind (bracketsAt_statementOf h hc.relieved))

end Reading

/-- At every nesting level brackets are paired. -/
theorem Enclosed.brackets_within (source : Text) (U : Reading.Unreading) [Reading.LeavesStatements U]
    (levels : Nat) : (Enclosed.within levels).Brackets source U := by
  have hinside := Enclosed.bracketsInside_within source U
  have hdelivers := Enclosed.delivers_within source
  induction levels with
  | zero => exact ⟨hinside 0, fun _ _ => .fail _, hdelivers 0⟩
  | succ levels ih =>
      exact ⟨hinside (levels + 1), Reading.brackets_statement ih, hdelivers (levels + 1)⟩

/-! ## Headers -/

namespace Reading

open Brackets

variable {α : Type} {source : Text} {inner : Enclosed}

section Parameters

variable {U : Unreading} [Widening U] [Token.LeavesTypeArguments (U [])] [Token.LeavesAnnotations (U [])]

theorem brackets_parameter : parameter.Brackets source U none := by
  have hname (ellipsis : Option Token) : (do
      let name ← expectName
      emit (.parameter name.toSpan (ellipsis.map Token.toSpan))
      comma : Reading Bool).Brackets source U none :=
    Brackets.expectName.bind fun _ c hc => .emit_bind (Brackets.comma c hc)
  refine brackets_modifiers.bind fun _ => brackets_typeName.bind fun _ c hc => .cursor_bind ?_
  refine .ite (fun hat => ?_) fun _ => hname none c hc
  have htaken : (some <$> take : Reading (Option Token)).BracketsAt U none c := by
    rw [← bind_pure_comp]
    exact .take_bind (kind_of_isAt hat) rfl rfl (.pure _)
  exact htaken.bind fun _ ellipsis d _ hreaches => hname ellipsis d (hc.reaching hreaches)

theorem brackets_parameters : parameters.Brackets source U none := by
  have hclose : (do
      let _ ← expect .closeParen ")" : Reading Unit).Brackets source U (some .openParen) :=
    expect_close rfl fun _ => Brackets.pure _
  refine expect_open rfl fun _ c hc => .cursor_bind (.ite (fun _ => ?_) fun _ => hclose c hc)
  exact (rounds brackets_parameter).bind (fun _ => hclose) c hc

end Parameters

theorem brackets_throwsClause : throwsClause.Brackets source Unread none := by
  have hround := (@brackets_typeName source Unread _ _).bind fun _ => Brackets.comma
  refine fun c hc => .cursor_bind (.ite (fun hword => ?_) fun _ => .pure _)
  exact .take_bind (kind_of_isWord hword) rfl rfl (.emit_bind
    ((rounds hround).bind (fun _ _ _ => .emit) _ hc.advance))

theorem brackets_typeParameters : typeParameters.Brackets source Unread none := by
  refine fun c hc => .here_bind (.ite (fun _ => .cursor_bind ?_) fun _ => .pure _)
  cases hlength : Token.typeArgumentsLength? c.tokens with
  | none => exact .fail _
  | some n =>
      have hend : ∀ t ∈ c.tokens.take n, ¬ t.isEnd := fun t ht =>
        Token.not_isEnd_of_typeKinds (Token.typeKinds_of_typeArguments hlength t ht)
      exact .emit_bind (.forward ((bracketed_forward hc hend
        (Token.bracketed_typeArguments hlength)).mono fun _ _ => .inside))

/-! ## Members -/

theorem brackets_method (h : inner.Brackets source Unread) :
    (method inner).Brackets source Unread none := by
  have hbody : (do
      if (← cursor).isAt .semicolon then
        let semicolon ← take
        emit (.closeDeclaration semicolon.toSpan false)
      else
        block inner
        emit (.closeDeclaration (← before).toSpan true) : Reading Unit).Brackets source Unread none :=
    fun c hc => .cursor_bind (.ite (fun hat => .take_bind (kind_of_isAt hat) rfl rfl .emit)
      fun _ => (brackets_block h).bind (fun _ _ _ => .before_bind .emit) c hc)
  exact fun c hc => .here_bind (brackets_modifiers.bind (fun _ => brackets_typeParameters.bind
    fun _ => brackets_typeName.bind fun _ => Brackets.expectName.bind fun _ d hd => .emit_bind
      (brackets_parameters.bind (fun _ => brackets_throwsClause.bind fun _ => hbody) d hd)) c hc)

theorem bracketsAt_delegateCall (h : inner.Brackets source Unread) {c : Cursor} (hc : c.Sited source)
    (hopens : opensDelegateCall c = true) : (delegateCall inner).BracketsAt Unread none c := by
  have hkind : c.here.kind = .word := by
    simp only [opensDelegateCall, Bool.and_eq_true, Bool.or_eq_true] at hopens
    exact hopens.1.elim kind_of_isWord kind_of_isWord
  refine .here_bind (.emit_bind (.emit_bind (.emit_bind (.take_bind hkind rfl rfl ?_))))
  exact (brackets_arguments h.toBracketsInside).bind (fun _ d hd => .before_bind (.emit_bind
    (brackets_semicolon (fun _ => Brackets.pure _) d hd))) _ hc.advance

/-- From behind the opening brace of a constructor on. -/
theorem brackets_constructorRest (h : inner.Brackets source Unread) :
    (do
      if opensDelegateCall (← cursor) then delegateCall inner
      blockRest inner
      emit (.closeDeclaration (← before).toSpan true) : Reading Unit).Brackets source Unread
      (some .openBrace) := by
  have hrest (u : Unit) : (do
      blockRest inner
      emit (.closeDeclaration (← before).toSpan true) : Reading Unit).Brackets source Unread
      (some .openBrace) := fun c hc => (brackets_blockRest h c hc).bind_in
        fun _ _ _ _ _ => .before_bind .emit
  refine fun c hc => .cursor_bind (.ite (fun hopens => ?_) fun _ => hrest () c hc)
  exact (bracketsAt_delegateCall h hc hopens).bind fun _ u d _ hreaches =>
    hrest u d (hc.reaching hreaches)

theorem brackets_constructor (h : inner.Brackets source Unread) :
    (constructor inner).Brackets source Unread none := by
  have hbody : (do
      let brace ← expect .openBrace "\x7b"
      emit (.openBlock brace.toSpan)
      reportComments
      if opensDelegateCall (← cursor) then delegateCall inner
      blockRest inner
      emit (.closeDeclaration (← before).toSpan true) : Reading Unit).Brackets source Unread none :=
    expect_open rfl fun _ _ hc => .emit_bind (.comments_bind
      (brackets_constructorRest h _ hc.relieved))
  exact fun c hc => .here_bind (brackets_modifiers.bind (fun _ => Brackets.expectName.bind
    fun _ d hd => .emit_bind (brackets_parameters.bind (fun _ => brackets_throwsClause.bind
      fun _ => hbody) d hd)) c hc)

theorem brackets_directive (word : Text) : (directive word).Brackets source Unread none := by
  refine fun c hc => .here_bind (.reported_bind fun events d hrun => ?_)
  exact ⟨(advances_skipToSemicolon c hc.laid events () d hrun).reaches,
    .directive List.mem_cons_self hrun⟩

/-- A declaration that is skipped is reported at the token behind its modifiers, and skipped from that
token on or, behind the sign of an annotation, from the next one on. -/
theorem unsupported_of_memberShape {c : Cursor} {construct : String} {head skipped : Nat}
    (hc : c.Sited source) (h : memberShape c = .unsupported construct head skipped) :
    head = c.modifierCount ∧ (skipped = head ∨
      skipped = head + 1 ∧ (c.forward head).here.kind = .atSign) := by
  have htokens := Cursor.tokens_forward hc.laid (Token.not_isEnd_of_modifiers c.tokens)
  unfold memberShape at h
  split at h
  · cases h
  unfold declarationShape at h
  split at h
  · cases h
  · next t ts hdrop =>
      have hhere : (c.forward c.modifierCount).here = t := by
        have := htokens.trans hdrop
        exact (List.cons.inj this).1
      split at h
      · cases h
        exact ⟨rfl, .inl rfl⟩
      split at h
      · next hat =>
          cases h
          exact ⟨rfl, .inr ⟨rfl, hhere ▸ hat⟩⟩
      · split_ifs at h

theorem not_isEnd_of_take_succ {c : Cursor} (hc : c.Sited source) {n : Nat}
    (hcode : ∀ t ∈ c.tokens.take n, ¬ t.isEnd) (hhere : ¬ (c.forward n).here.isEnd) :
    ∀ t ∈ c.tokens.take (n + 1), ¬ t.isEnd := by
  intro t ht
  rw [List.take_add_one] at ht
  rcases List.mem_append.mp ht with ht | ht
  · exact hcode t ht
  · have htokens := Cursor.tokens_forward hc.laid hcode
    rw [← List.head?_drop, ← htokens] at ht
    obtain rfl : t = (c.forward n).here := by simpa [Cursor.tokens] using ht
    exact hhere

/-- What stands in front of a declaration that is skipped is not the end of input. -/
theorem not_isEnd_of_skipped {c : Cursor} {construct : String} {head skipped : Nat} (hc : c.Sited source)
    (h : memberShape c = .unsupported construct head skipped) :
    ∀ t ∈ c.tokens.take skipped, ¬ t.isEnd := by
  have hmodifiers := Token.not_isEnd_of_modifiers c.tokens
  obtain ⟨rfl, rfl | ⟨rfl, hat⟩⟩ := unsupported_of_memberShape hc h
  · exact hmodifiers
  · exact not_isEnd_of_take_succ hc hmodifiers (not_isEnd_of_kind hat (by decide))

theorem forward_succ (n : Nat) (c : Cursor) : c.forward (n + 1) = (c.forward n).advance := by
  induction n generalizing c with
  | zero => rfl
  | succ n ih => exact ih c.advance

theorem bracketsAt_unsupportedMember {c : Cursor} {construct : String} {head skipped : Nat}
    (hc : c.Sited source) (h : memberShape c = .unsupported construct head skipped) :
    (unsupportedMember construct head skipped).BracketsAt Unread none c := by
  obtain ⟨rfl, hskipped⟩ := unsupported_of_memberShape hc h
  intro events u d hrun
  rw [unsupportedMember, cursor_bind] at hrun
  obtain ⟨reported, _, _, rest, hemit, hrest, rfl⟩ := exists_of_bind_ok hrun
  cases hemit
  obtain ⟨_, _, e, later, hforward, hskip, rfl⟩ := exists_of_bind_ok hrest
  cases hforward
  let events : List Event :=
    [.unsupported (c.forward c.modifierCount).here.toSpan construct] ++ ([] ++ later)
  have hreported : .unsupported (c.forward c.modifierCount).here.toSpan construct ∈ events :=
    List.mem_append_left _ List.mem_cons_self
  have hmodifiers := bracketed_forward hc (Token.not_isEnd_of_modifiers c.tokens)
    (@Token.bracketed_modifiers (Unread events) _ c.tokens)
  have hreaches := Cursor.reaches_forward skipped c
  refine ⟨hreaches.trans (advances_skipStatement _ (hc.reaching hreaches).laid _ _ _ hskip).reaches,
    hmodifiers.trans (.unread ?_ (.refl _))⟩
  rcases hskipped with rfl | ⟨rfl, hat⟩
  · exact .statement hreported hskip
  · rw [forward_succ] at hskip
    exact .annotationType hreported hat hskip

theorem brackets_member (h : inner.Brackets source Unread) :
    (member inner).Brackets source Unread none := by
  intro c hc
  refine .cursor_bind ?_
  cases hshape : memberShape c with
  | directive word => exact brackets_directive word c hc
  | unsupported construct head skipped => exact bracketsAt_unsupportedMember hc hshape
  | constructor => exact brackets_constructor h c hc
  | method => exact brackets_method h c hc
  | statement => exact h.statement c hc

theorem brackets_memberRound (h : inner.Brackets source Unread) :
    (memberRound inner).Brackets source Unread none :=
  fun _ hc => .here_bind (.ite (fun _ => .pure _) fun _ => .comments_bind
    ((brackets_member h).bind (fun _ => Brackets.pure _) _ hc.relieved))

/-- Members are read up to the end of input. -/
theorem brackets_members (h : inner.Brackets source Unread) {c d : Cursor} {events : List Event}
    (hc : c.Sited source) (hrun : members inner c = (events, .ok ((), d))) :
    d.here.isEnd = true ∧ c.Reaches d ∧ Token.Bracketed (Unread events) c.tokens d.tokens := by
  have hmembers : (members inner).Brackets source Unread none := by
    rw [members_eq]
    exact (rounds (brackets_memberRound h)).bind fun _ => Brackets.comments
  refine ⟨?_, hmembers c hc events () d hrun⟩
  rw [members_eq] at hrun
  obtain ⟨first, _, e, later, hrounds, hcomments, -⟩ := exists_of_bind_ok hrun
  obtain ⟨f, last, -, -, hlast⟩ := exists_last_round
    (fun c events d hc hrun => memberRound_true h.delivers hc hrun) hc hrounds
  obtain ⟨hend, -, rfl⟩ := eq_of_memberRound_false hlast
  cases e.reportComments_eq.symm.trans hcomments
  exact hend

end Reading

/-! ## Whole sources -/

theorem Token.Laid.eq_singleton {source : Text} {t : Token} {ts : List Token}
    (h : Token.Laid source (t :: ts)) (hend : t.isEnd = true) : t :: ts = [t] := by
  obtain ⟨inside, last, hsplit, -, hinside⟩ := h.ended
  cases inside with
  | nil => rw [hsplit, (List.cons.inj hsplit).1, List.nil_append]
  | cons u inside =>
      obtain rfl := (List.cons.inj hsplit).1
      exact absurd hend (hinside t List.mem_cons_self)

/-- A method with calls in its body, behind a statement that is skipped. -/
def callsBehindLoop : Text := "for (;;) \x7b \x7d void f() \x7b g(a[0], (b)); \x7d".toList

/-- A loop whose head is closed by a bracket of another kind. -/
def loopClosedByBracket : Text := "for (int i = 0; i < n] \x7b \x7d".toList

end CodeFrames
