import CodeFrames.Proofs.Seam.Statement

/-!
# Members in front of a seam

-/

namespace CodeFrames

open Token (AtLeast CallEnds GroupEnds Growing Halts Marked Matched Modified Past Sealed Unparenthesized)

namespace Reading

variable {α β : Type} {source : Text} {s : Seam} {c : Cursor} {inner : Enclosed} {n : Nat}

/-! ## Headers -/

theorem local_modifiedType : (modifiers >>= fun _ => typeName).Local source s :=
  .of_at fun c hc => (modifiers_bind hc (fun _ => id) fun _ _ hd => by
    rw [← bind_pure typeName]
    exact typeName_modified hd fun _ _ => .pure ()).start fun _ => Past.sealed

theorem localRound_parameter : LocalRound source s Sealed Sealed parameter := by
  have hname (ellipsis : Option Token) {n : Nat} {c : Cursor} (hc : c.Sited source) : (do
      let name ← expectName
      emit (.parameter name.toSpan (ellipsis.map Token.toSpan))
      comma : Reading Bool).LocalAt s (AtLeast n Sealed) (Left n Sealed Sealed) c :=
    .expectName_bind (P := AtLeast n Sealed) hc (fun _ => .emit_bind (local_comma hc.advance))
      fun _ _ => AtLeast.cons_self
  intro n c hc
  rw [parameter, ← bind_assoc]
  refine (local_modifiedType n c hc).bind fun _ _ e _ hreaches => ?_
  have he := hc.reaching hreaches
  refine .cursor_bind (.ite (fun hat => ?_) fun _ => hname none he) fun ps c' hps hc' => by
    rw [hc'.isAt_eq hps.2.ne_nil]
  have htaken : (some <$> take : Reading (Option Token)).LocalAt s (AtLeast n Sealed)
      (fun _ => AtLeast n Sealed) e := by
    rw [← bind_pure_comp]
    exact .take_bind he (not_isEnd_of_kind (kind_of_isAt hat) (by decide)) (.pure _) fun _ =>
      AtLeast.cons_self
  exact htaken.bind fun _ ellipsis _ _ hreaches => hname ellipsis (he.reaching hreaches)

theorem local_parameters : parameters.Local source s := by
  have hrounds : (repeatWhile parameter).Local source s := localRound_parameter.rounds
  refine fun n c hc => .expect_bind hc (by decide) (fun _ => .cursor_bind (.ite (fun _ => ?_) fun _ => ?_)
    fun ps c' hps hc' => by rw [hc'.isAt_eq hps.2.ne_nil]) fun _ _ => AtLeast.cons_self
  · exact (hrounds.bind fun _ => local_expect (by decide) ()) n _ hc.advance
  · exact local_expect (by decide) () n _ hc.advance

theorem moves_parameters : parameters.Moves source := by
  have hclose : (expect .closeParen ")" >>= fun _ => Pure.pure ()).Delivers source :=
    (Delivers.expect .closeParen ")").bind fun _ => Delivers.pure ()
  exact (Moves.expect (by decide) _).front fun _ => (Delivers.cursor.bind fun _ =>
    Delivers.ite ((Delivers.rounds Delivers.parameter).bind fun _ => hclose) hclose).carries

/-- Parameters end in front of what follows them. -/
theorem parameters_bind {Q : α → List Token → Prop} {f : Unit → Reading α} (hc : c.Sited source)
    (hf : ∀ d, d.Sited source → (f ()).LocalAt s Sealed Q d) :
    (parameters >>= f).LocalAt s (fun ps => Sealed ps ∧ (Matched ps → GroupEnds ps)) Q c := by
  refine .bind (Q := fun _ => Sealed) ((local_parameters.at hc).start_of_run fun events u d ps qs hrun hps hqs
    hsealed hend => ⟨hsealed, ?_⟩) fun _ _ d _ hreaches => hf d (hc.reaching hreaches)
  obtain ⟨passed, hpassed, hkeeps⟩ := Token.Bracketed.even
    (brackets_parameters (U := Token.Even) c hc events u d hrun).2
  obtain ⟨front, hne, hfront, -⟩ := moves_parameters c events u d hc hrun
  obtain rfl := List.append_cancel_right (hpassed.symm.trans hfront)
  rw [hps, hqs, ← List.append_assoc] at hpassed
  obtain rfl := List.append_cancel_right hpassed
  exact hkeeps.groupEnds hne hend.ne_nil

theorem local_throwsClause : throwsClause.Local source s := by
  have hround : LocalRound source s Sealed Sealed (do
      typeName
      comma) := fun n c hc => (local_typeName n c hc).bind fun _ _ _ _ hreaches =>
    local_comma (hc.reaching hreaches)
  refine fun n c hc => .cursor_bind (.ite (fun hword => ?_) fun _ => .pure _) fun ps c' hps hc' => by
    rw [hc'.isAtWord_eq hps.2.ne_nil]
  exact .take_bind hc (not_isEnd_of_kind (kind_of_isWord hword) (by decide)) (.emit_bind
    ((hround.rounds n _ hc.advance).bind fun _ _ _ _ _ => .emit _)) fun _ => AtLeast.cons_self

theorem local_typeParameters : typeParameters.Local source s := by
  refine fun n c hc => .here_bind (.ite (fun _ => ?_) fun _ => .pure _) ne_nil_of_sealed
  refine .length_bind (fun ps us vs hps => hps.2.guarded.typeArgumentsLength?_eq us vs) (.fail _)
    fun m hm => .emit_bind ?_
  rw [← bind_pure (Reading.forward m)]
  exact .passing hc (fun t ht => Token.not_isEnd_of_typeKinds (Token.typeKinds_of_typeArguments hm t ht))
    fun _ _ => .pure ()

end Reading

theorem Seam.At.opensDelegateCall_eq {s : Seam} {ps : List Token} {c c' : Cursor} (h : s.At ps c c')
    (hps : Sealed ps) : Reading.opensDelegateCall c' = Reading.opensDelegateCall c := by
  rw [Reading.opensDelegateCall, Reading.opensDelegateCall, h.isAtWord_eq hps.ne_nil,
    h.isAtWord_eq hps.ne_nil]
  cases hword : c.isAtWord "super" || c.isAtWord "this" with
  | false => rfl
  | true =>
      have hkind : c.here.kind = .word := by
        rcases (Bool.or_eq_true _ _).mp hword with hword | hword <;> exact Reading.kind_of_isWord hword
      rw [h.nextIs_of_marked hps.marked hkind]

namespace Reading

variable {α β : Type} {source : Text} {s : Seam} {c : Cursor} {inner : Enclosed} {n : Nat}

/-! ## Declarations -/

/-- What stands in front of the body of a method. -/
def methodHead : Reading Unit := do
  let first ← here
  let spans ← modifiers
  typeParameters
  typeName
  let name ← expectName
  emit (.openMethod first.toSpan spans name.toSpan)
  parameters
  throwsClause

/-- The body of a method, if it has one. -/
def methodEnd (inner : Enclosed) : Reading Unit := do
  if (← cursor).isAt .semicolon then
    let semicolon ← take
    emit (.closeDeclaration semicolon.toSpan false)
  else
    block inner
    emit (.closeDeclaration (← before).toSpan true)

theorem method_eq_head (inner : Enclosed) : method inner = methodHead >>= fun _ => methodEnd inner := by
  simp only [methodHead, bind_assoc]
  rfl

theorem methodHead_local (hc : c.Sited source) :
    methodHead.LocalAt s (Past c.modifierCount Modified) (fun _ => Sealed) c := by
  have hnamed {c : Cursor} (hc : c.Sited source) (first : Token) (spans : List Span) : (do
      let name ← expectName
      emit (.openMethod first.toSpan spans name.toSpan)
      parameters
      throwsClause : Reading Unit).LocalAt s Sealed (fun _ => Sealed) c :=
    .expectName_bind hc (fun _ => .emit_bind (local_parameters.followed hc.advance fun _ _ hd =>
      local_throwsClause.at hd)) fun _ _ => Sealed.cons
  refine .here_bind (modifiers_bind hc (fun _ => id) fun spans d hd => ?_) fun _ hps => hps.sealed.ne_nil
  refine (local_typeParameters.followed hd fun _ _ he => local_typeName.followed he fun _ _ hf =>
    hnamed hf c.here spans).modified fun hparen => ?_
  have hnone : typeParameters d = ([], .ok ((), d)) := by
    rw [typeParameters, here_bind, if_neg (by simp [Token.isOperator, hparen])]
    rfl
  rw [bind_of_ok _ hnone]
  exact typeName_refuses hparen

theorem methodEnd_local (h : inner.LocalInside source s) (hc : c.Sited source) :
    (methodEnd inner).LocalAt s Sealed Anything c := by
  refine .cursor_bind (.ite (fun hat => ?_) fun _ => ?_) fun ps c' hps hc' => by
    rw [hc'.isAt_eq hps.ne_nil]
  · have hkind := kind_of_isAt hat
    exact .take_bind (P := fun _ => True) hc (not_isEnd_of_kind hkind (by decide)) (.emit _)
      fun _ _ => .here (by rw [hkind]; decide)
  · exact (block_local h hc).bind fun _ _ _ _ _ => .before_bind (.emit _)

theorem method_local (h : inner.LocalInside source s) (hc : c.Sited source) :
    (method inner).LocalAt s (Past c.modifierCount Modified) Anything c := by
  rw [method_eq_head]
  exact (methodHead_local hc).bind fun _ _ _ _ hreaches => methodEnd_local h (hc.reaching hreaches)

theorem delegateCall_local (h : inner.LocalInside source s) (hc : c.Sited source)
    (hopens : opensDelegateCall c = true) :
    (delegateCall inner).LocalAt s Sealed Anything c := by
  have hkind : c.here.kind = .word := by
    simp only [opensDelegateCall, Bool.and_eq_true, Bool.or_eq_true] at hopens
    exact hopens.1.elim kind_of_isWord kind_of_isWord
  refine .here_bind (.emit_bind (.emit_bind (.emit_bind (.take_bind hc
    (not_isEnd_of_kind hkind (by decide)) ?_ fun _ => Sealed.cons)))) fun _ => Sealed.ne_nil
  exact (local_arguments h.toLocal).followed hc.advance fun _ _ hd => .before_bind (.emit_bind
    (.expect_bind (P := fun _ => True) hd (by decide) (fun _ => .pure ()) fun _ hkind _ =>
      .here (by rw [hkind]; decide)))

/-- What stands in front of the body of a constructor. -/
def constructorHead : Reading Unit := do
  let first ← here
  let spans ← modifiers
  let name ← expectName
  emit (.openConstructor first.toSpan spans name.toSpan)
  parameters
  throwsClause

theorem constructor_eq_head (inner : Enclosed) : constructor inner = constructorHead >>= fun _ =>
    expect .openBrace "\x7b" >>= fun brace => emit (.openBlock brace.toSpan) >>= fun _ =>
      reportComments >>= fun _ => constructorBody inner := by
  simp only [constructorHead, bind_assoc]
  rfl

/-- The parameters of a constructor end in front of its body. -/
theorem constructorHead_local (hc : c.Sited source) :
    constructorHead.LocalAt s (Past c.modifierCount fun us => Modified us ∧ (Matched us → CallEnds us))
      (fun _ => Sealed) c := by
  refine .here_bind (modifiers_bind hc (fun _ => And.left) fun spans d hd => ?_) fun _ hps =>
    (hps.imp fun _ => And.left).sealed.ne_nil
  refine .expectName_bind hd (fun _ => .emit_bind (parameters_bind hd.advance fun _ he =>
    local_throwsClause.at he)) fun us hname hus => ?_
  refine ⟨⟨hus.1.cons, fun t ht hopen => ?_⟩, fun hmatched t ps hsplit _ => ?_⟩
  · obtain rfl := Option.some.inj ht
    simp [Token.kind_of_isName hname] at hopen
  · obtain ⟨-, rfl⟩ := List.cons.inj hsplit
    exact hus.2 hmatched.tail

theorem constructorBody_local (h : inner.LocalInside source s) (hc : c.Sited source) :
    (constructorBody inner).LocalAt s Sealed Anything c := by
  have hrest {c : Cursor} (hc : c.Sited source) : (do
      blockRest inner
      emit (.closeDeclaration (← before).toSpan true) : Reading Unit).LocalAt s Sealed Anything c :=
    (blockRest_local h hc).bind fun _ _ _ _ _ => .before_bind (.emit _)
  refine .cursor_bind (.ite (fun hopens => ?_) fun _ => hrest hc) fun ps c' hps hc' => ?_
  · exact (delegateCall_local h hc hopens).bind fun _ _ _ _ hreaches =>
      (hrest (hc.reaching hreaches)).start fun _ _ => trivial
  · rw [hc'.opensDelegateCall_eq hps]

theorem constructor_local (h : inner.LocalInside source s) (hc : c.Sited source) :
    (constructor inner).LocalAt s (Past c.modifierCount fun us => Modified us ∧ (Matched us → CallEnds us))
      Anything c := by
  rw [constructor_eq_head]
  refine (constructorHead_local hc).bind fun _ _ d _ hreaches => ?_
  have hd := hc.reaching hreaches
  exact .expect_bind hd (by decide) (fun _ => .emit_bind (.comments_bind (P := Sealed)
    (constructorBody_local h hd.advance.relieved) fun _ => Sealed.ne_nil)) fun _ _ => Sealed.cons

theorem directive_local (word : Text) (hc : c.Sited source) :
    (directive word).LocalAt s Sealed Anything c :=
  .here_bind (.emit_bind (skipToSemicolon_local hc)) fun _ => Sealed.ne_nil

/-- A skipped declaration starts behind its modifiers, or behind the sign of an annotation there. -/
theorem unsupportedMember_local {construct : String} {head skipped : Nat} (hc : c.Sited source)
    (h : memberShape c = .unsupported construct head skipped) :
    (unsupportedMember construct head skipped).LocalAt s (Past head fun us =>
      Marked us ∧ (skipped = head + 1 → 2 ≤ us.length)) Anything c := by
  have hcode := not_isEnd_of_skipped hc h
  obtain ⟨rfl, hskipped⟩ := unsupported_of_memberShape hc h
  refine .cursor_bind (.emit_bind (.forward_bind hc hcode (skipStatement_local (hc.forward skipped))
    fun ps us _ hlength hus => ?_)) fun ps c' hps hc' => ?_
  · rcases hskipped with rfl | ⟨rfl, -⟩
    · exact ⟨ps, us, rfl, hlength, hus, fun h => absurd h (Nat.ne_of_lt (Nat.lt_succ_self _))⟩
    · refine ⟨ps.take c.modifierCount, ps.drop c.modifierCount ++ us, ?_, ?_, hus.append_left _, fun _ => ?_⟩
      · rw [← List.append_assoc, List.take_append_drop]
      · rw [List.length_take]
        omega
      · have hus := List.length_pos_of_ne_nil hus.ne_nil
        rw [List.length_append, List.length_drop]
        omega
  · obtain ⟨front, us, rfl, hfront, hus, -⟩ := hps
    have hforward := hc'.forward
    rw [hfront] at hforward
    rw [hforward.here_eq hus.ne_nil]

/-! ## Telling members apart -/

theorem declarationShape_of_memberShape {shape : MemberShape} (h : memberShape c = shape)
    (hshape : ∀ word, shape ≠ .directive word) :
    declarationShape c.modifierCount (c.tokens.drop c.modifierCount) = shape := by
  rw [memberShape] at h
  split at h
  · exact absurd h.symm (hshape _)
  · exact h

theorem declarationShape_ne_directive (m : Nat) (ts : List Token) (word : Text) :
    declarationShape m ts ≠ .directive word := by
  cases ts with
  | nil => simp [declarationShape]
  | cons t ts =>
      rw [declarationShape]
      split_ifs <;> simp

/-- What a member of the shape starts with, behind its modifiers. -/
theorem declares_of_declarationShape {m : Nat} {t : Token} {ts : List Token} {shape : MemberShape}
    (h : declarationShape m (t :: ts) = shape)
    (hshape : shape = .constructor ∨ shape = .method ∨ shape = .statement) :
    (t.isWordIn Token.typeWords && ts.head?.any Token.isAnyWord) = false ∧ t.kind ≠ .atSign ∧
      (shape = .constructor ↔ declaresConstructor (t :: ts) = true) ∧
      (shape = .method → declaresMethod (t :: ts) = true) := by
  rw [declarationShape] at h
  split at h
  · subst h
    simp at hshape
  split at h
  · subst h
    simp at hshape
  · next htype hat =>
      refine ⟨by simpa using htype, hat, ?_⟩
      split at h
      · next hconstructor => subst h; simp [hconstructor]
      · next hconstructor =>
          split at h
          · next hmethod => subst h; simp [hconstructor, hmethod]
          · subst h
            simp [hconstructor]

end Reading

namespace Seam.At

variable {s : Seam} {ps front us : List Token} {c c' : Cursor} {last : Token}

/-- Behind the modifiers no other one starts, whatever follows. -/
theorem memberShape_of_halts (h : s.At (front ++ us) c c') (hfront : front.length = c.modifierCount)
    (hus : Halts us) (hparen : front ≠ [] → Unparenthesized us)
    (hshape : Reading.declarationShape c.modifierCount (us ++ s.rest) =
      Reading.declarationShape c.modifierCount (us ++ s.rest')) :
    Reading.memberShape c' = Reading.memberShape c := by
  have hlengths : Token.modifierLengths c'.tokens = Token.modifierLengths c.tokens := by
    rw [h.tokens', h.tokens]
    refine (Token.modifierLengths_eq hus hparen ?_).symm
    rw [← h.tokens, hfront]
    rfl
  have hcount : c'.modifierCount = c.modifierCount := by
    rw [Cursor.modifierCount, hlengths, Cursor.modifierCount]
  have hdrop (rest : List Token) : (front ++ us ++ rest).drop c.modifierCount = us ++ rest := by
    rw [List.append_assoc, ← hfront, List.drop_left]
  rw [Reading.memberShape, Reading.memberShape, h.here_eq (List.append_ne_nil_of_right_ne_nil _ hus.1),
    hcount, h.tokens, h.tokens', hdrop, hdrop, hshape]

theorem drop_modifiers (h : s.At (front ++ us) c c') (hfront : front.length = c.modifierCount) :
    c.tokens.drop c.modifierCount = us ++ s.rest := by
  rw [h.tokens, List.append_assoc, ← hfront, List.drop_left]

theorem modifierLength_eq_zero (h : s.At (front ++ us) c c') (hfront : front.length = c.modifierCount) :
    Token.modifierLength (us ++ s.rest) = 0 := by
  rw [← h.drop_modifiers hfront]
  exact Token.modifierLength_drop c.tokens

theorem memberShape_unsupported {construct : String} {head skipped : Nat} (h : s.At ps c c')
    (hshape : Reading.memberShape c = .unsupported construct head skipped) (hhead : head = c.modifierCount)
    (hps : Past head (fun us => Marked us ∧ (skipped = head + 1 → 2 ≤ us.length)) ps) :
    Reading.memberShape c' = Reading.memberShape c := by
  subst hhead
  obtain ⟨front, us, rfl, hfront, hmarked, hlength⟩ := hps
  have hdeclaration := Reading.declarationShape_of_memberShape hshape (by simp)
  rw [h.drop_modifiers hfront] at hdeclaration
  have hzero := h.modifierLength_eq_zero hfront
  obtain ⟨t, us, rfl⟩ := List.exists_cons_of_ne_nil hmarked.ne_nil
  refine h.memberShape_of_halts hfront (hmarked.halts (fun u hu hat => hlength ?_) hzero) (fun _ u hu hopen => ?_) ?_
  · obtain rfl := Option.some.inj hu
    have hword : t.isWordIn Token.typeWords = false := by simp [Token.isWordIn, Token.isAnyWord, hat]
    simp only [List.cons_append, Reading.declarationShape, hword, hat, Bool.false_and, Bool.false_eq_true,
      if_false, if_true, Reading.MemberShape.unsupported.injEq] at hdeclaration
    exact hdeclaration.2.2.symm
  · obtain rfl := Option.some.inj hu
    have hword : t.isWordIn Token.typeWords = false := by simp [Token.isWordIn, Token.isAnyWord, hopen]
    simp only [List.cons_append, Reading.declarationShape, hword, hopen, Bool.false_and, Bool.false_eq_true,
      if_false, reduceCtorEq] at hdeclaration
    split_ifs at hdeclaration
  · refine Token.declarationShape_eq _ _ _ (fun hword hnil => ?_) fun hfirst hat => ?_
    · have hkind : t.kind = .word := by simpa [Token.isAnyWord] using (Bool.and_eq_true_iff.mp hword).1
      have := hmarked.two_le_length hkind
      simp [hnil] at this
    · simp only [List.cons_append, Reading.declarationShape, hfirst, hat, Bool.false_eq_true,
        if_false] at hdeclaration
      split_ifs at hdeclaration

/-- A declaration, a local variable or an expression is told in front of its end, unless the parentheses
of a call are the last tokens. -/
theorem memberShape_sealed (h : s.At (front ++ us) c c') (hfront : front.length = c.modifierCount)
    (hus : Sealed us) (hparen : front ≠ [] → Unparenthesized us) (hcall : CallEnds us) :
    Reading.memberShape c' = Reading.memberShape c := by
  refine h.memberShape_of_halts hfront (hus.halts (h.modifierLength_eq_zero hfront)) hparen ?_
  obtain ⟨t, us, rfl⟩ := List.exists_cons_of_ne_nil hus.ne_nil
  have hword (hkind : t.kind = .word) : us ≠ [] := (hus.tail (by rw [hkind]; decide)).ne_nil
  refine Token.declarationShape_eq _ _ _ (fun htype => hword ?_) fun _ _ => ⟨?_, ?_⟩
  · simpa [Token.isAnyWord] using (Bool.and_eq_true_iff.mp htype).1
  · exact Token.declaresConstructor_eq _ _ (fun hname => hword (Token.kind_of_isName hname)) (hcall t us rfl)
  · exact hus.guarded.declaresMethod_eq _ _

theorem memberShape_modified (h : s.At ps c c')
    (hps : Past c.modifierCount (fun us => Modified us ∧ (Matched us → CallEnds us)) ps) :
    Reading.memberShape c' = Reading.memberShape c := by
  obtain ⟨front, us, rfl, hfront, hus, hcall⟩ := hps
  exact h.memberShape_sealed hfront hus.1 (fun _ => hus.2) (hcall h.matched.of_append.2)

theorem memberShape_method (h : s.At ps c c') (hshape : Reading.memberShape c = .method)
    (hps : Past c.modifierCount Modified ps) : Reading.memberShape c' = .method := by
  obtain ⟨front, us, rfl, hfront, hus⟩ := hps
  have hdeclaration := Reading.declarationShape_of_memberShape hshape (by simp)
  rw [h.drop_modifiers hfront] at hdeclaration
  have hcall : CallEnds us := by
    obtain ⟨t, us, rfl⟩ := List.exists_cons_of_ne_nil hus.1.ne_nil
    exact Token.callEnds_of_declaresMethod _
      ((Reading.declares_of_declarationShape hdeclaration (by simp)).2.2.2 rfl)
  rw [h.memberShape_modified ⟨front, us, rfl, hfront, hus, fun _ => hcall⟩, hshape]

end Seam.At

namespace Reading

variable {source : Text} {c : Cursor}

/-- What opens no declaration, whatever follows. -/
theorem memberShape_of_head (hdirective : c.here.isWordIn ["import".toList, "package".toList] = false)
    (htype : c.here.isWordIn Token.typeWords = false) (hat : c.here.kind ≠ .atSign)
    (hopens : c.here.opensType = false) (hangle : c.here.isOperator ['<'] = false)
    (hzero : Token.modifierLength c.tokens = 0) : memberShape c = .statement := by
  have hcount : c.modifierCount = 0 := by
    rw [Cursor.modifierCount, Cursor.tokens, Token.modifierLengths_cons, ← Cursor.tokens, hzero]
    rfl
  have hname : c.here.isName = false := (Bool.or_eq_false_iff.mp hopens).2
  have hconstructor : declaresConstructor (c.here :: c.ahead) = false := by
    rw [declaresConstructor, hname, Bool.false_and, Bool.false_and]
  rw [memberShape, hdirective, hcount]
  simp only [Bool.false_eq_true, if_false, List.drop_zero, Cursor.tokens, declarationShape, htype,
    Bool.false_and, hat, hconstructor, Token.declaresMethod_of_head hangle hopens]

/-- A brace or a semicolon opens no declaration. -/
theorem memberShape_of_mark {kind : Token.Kind} (hkind : c.here.kind = kind)
    (hmark : kind ∉ [Token.Kind.word, .atSign, .operator]) : memberShape c = .statement := by
  have hword : kind ≠ .word := fun h => hmark (by simp [h])
  have hat : kind ≠ .atSign := fun h => hmark (by simp [h])
  have hoperator : kind ≠ .operator := fun h => hmark (by simp [h])
  have hwords (words : List Text) : c.here.isWordIn words = false := by
    simp [Token.isWordIn, Token.isAnyWord, hkind, hword]
  refine memberShape_of_head (hwords _) (hwords _) (hkind ▸ hat) ?_ ?_ ?_
  · simp [Token.opensType, Token.isPrimitive, hwords, Token.isName, Token.isAnyWord, hkind, hword]
  · simp [Token.isOperator, hkind, hoperator]
  · rw [Cursor.tokens, Token.modifierLength, hwords]
    simp [hkind, hat]

/-- A word that tells a statement opens no declaration, unless it is a modifier. -/
theorem memberShape_of_statementWord {shape : StatementShape} (hkind : c.here.kind = .word)
    (hword : statementWords.lookup c.here.text = some shape)
    (hlock : c.here.text = "synchronized".toList → c.nextIs (·.kind = .openParen) = true) :
    memberShape c = .statement := by
  have hwords : ∀ entry ∈ statementWords, entry.1 ∈ Token.keywords ∧ entry.1 ∉ Token.primitiveTypes ∧
      entry.1 ∉ Token.typeWords ∧ entry.1 ∉ ["import".toList, "package".toList] ∧
      (entry.1 ∈ Token.modifierWords → entry.1 = "synchronized".toList) := by decide
  obtain ⟨front, back, hsplit, -⟩ := List.lookup_eq_some_iff.mp hword
  obtain ⟨hkeyword, hprimitive, htype, hdirective, hmodifier⟩ :=
    hwords (c.here.text, shape) (by simp [hsplit])
  have hnot {words : List Text} (h : c.here.text ∉ words) : c.here.isWordIn words = false := by
    simp [Token.isWordIn, h]
  refine memberShape_of_head (hnot hdirective) (hnot htype) (by simp [hkind]) ?_
    (by simp [Token.isOperator, hkind]) ?_
  · simp [Token.opensType, Token.isPrimitive, hnot hprimitive, Token.isName, hkeyword]
  · rw [Cursor.tokens, Token.modifierLength]
    by_cases hmem : c.here.text ∈ Token.modifierWords
    · have htext := hmodifier hmem
      have hparen : (c.ahead.head?.any (·.kind = .openParen)) = true := hlock htext
      have hin : c.here.isWordIn Token.modifierWords = true := by
        rw [Token.isWordIn, Token.isAnyWord, hkind, List.contains_iff_mem.mpr hmem]
        rfl
      have hlocked : c.here.isWord "synchronized".toList = true :=
        Bool.and_eq_true_iff.mpr ⟨decide_eq_true hkind, decide_eq_true htext⟩
      rw [if_pos hin, hlocked, hparen]
      rfl
    · rw [hnot hmem]
      simp [hkind]

theorem modifierCount_of_word (hkind : c.here.kind ≠ .atSign) (hword : c.here.text ∉ Token.modifierWords) :
    c.modifierCount = 0 := by
  rw [Cursor.modifierCount, Cursor.tokens, modifierLengths_of_word hword hkind]
  rfl

theorem not_modifier_of_not_keyword {w : Text} (h : w ∉ Token.keywords) : w ∉ Token.modifierWords :=
  fun hmem => h ((show ∀ w ∈ Token.modifierWords, w ∈ Token.keywords by decide) w hmem)

theorem modifierCount_of_isName (h : c.here.isName = true) : c.modifierCount = 0 := by
  refine modifierCount_of_word (by simp [Token.kind_of_isName h]) (not_modifier_of_not_keyword ?_)
  simpa [Token.isName] using (Bool.and_eq_true_iff.mp h).2

/-- An expression has no modifiers. -/
theorem modifierCount_of_expression (h : statementShape c = .expression) : c.modifierCount = 0 := by
  rw [statementShape] at h
  split at h
  · cases h
  · cases h
  · rw [wordStatementShape] at h
    split at h
    · next hlookup =>
        have hwords : ∀ entry ∈ statementWords, entry.2 ≠ .expression := by decide
        obtain ⟨front, back, hsplit, -⟩ := List.lookup_eq_some_iff.mp hlookup
        exact absurd h (hwords (c.here.text, _) (by simp [hsplit]))
    · split_ifs at h
      next hvariables =>
        cases hlengths : Token.modifierLengths c.tokens with
        | nil => rw [Cursor.modifierCount, hlengths]; rfl
        | cons n lengths => exact absurd (by rw [opensVariables, hlengths]; rfl) hvariables
  · cases h
  · next hword hat =>
      have hzero : Token.modifierLength (c.here :: c.ahead) = 0 := by
        have hnot : c.here.isWordIn Token.modifierWords = false := by
          rw [Token.isWordIn, Token.isAnyWord, decide_eq_false hword, Bool.false_and]
        rw [Token.modifierLength, hnot, decide_eq_false hat]
        rfl
      rw [Cursor.modifierCount, Cursor.tokens, Token.modifierLengths_cons, hzero]
      rfl

/-- A local declaration of a type is no statement among members. -/
theorem not_memberShape_of_typeWord (hword : c.here.isWordIn Token.typeWords = true)
    (hnext : c.nextIs Token.isAnyWord = true) : memberShape c ≠ .statement := by
  have hmem : c.here.text ∈ Token.typeWords :=
    List.contains_iff_mem.mp (Bool.and_eq_true_iff.mp hword).2
  have hkind : c.here.kind = .word := of_decide_eq_true (Bool.and_eq_true_iff.mp hword).1
  have hnot : ∀ w ∈ Token.typeWords, w ∉ Token.modifierWords := by decide
  intro h
  have hdeclaration := declarationShape_of_memberShape h (by simp)
  rw [modifierCount_of_word (by simp [hkind]) (hnot _ hmem), List.drop_zero, Cursor.tokens] at hdeclaration
  have hfirst := (declares_of_declarationShape hdeclaration (by simp)).1
  rw [hword, Bool.true_and] at hfirst
  exact Bool.false_ne_true (hfirst.symm.trans hnext)

end Reading

namespace Seam.At

variable {s : Seam} {ps : List Token} {c c' : Cursor}

theorem memberShape_label (h : s.At ps c c') (hlabel : Reading.isLabel c = true) (hps : Marked ps) :
    Reading.memberShape c' = Reading.memberShape c := by
  obtain ⟨hname, hcolon⟩ := Bool.and_eq_true_iff.mp hlabel
  have hword := Token.kind_of_isName hname
  have hcount := Reading.modifierCount_of_isName hname
  obtain ⟨t, us, rfl⟩ := List.exists_cons_of_ne_nil hps.ne_nil
  have hhere : c.here = t := (List.cons.inj h.tokens).1
  rw [hhere] at hname hword
  have hlength := hps.two_le_length hword
  obtain ⟨u, us, rfl⟩ := List.exists_cons_of_ne_nil
    (List.ne_nil_of_length_pos (Nat.le_of_succ_le_succ hlength))
  have hmark : u.isOperator [':'] = true := by
    rw [Cursor.nextIs, h.ahead_eq.1] at hcolon
    exact hcolon
  have hguarded : Token.Guarded (t :: u :: us) :=
    .cons (.here (Token.guards_of_operator hmark (by decide)))
  have hfront : ([] : List Token).length = c.modifierCount := by rw [hcount]; rfl
  refine memberShape_of_halts (show s.At ([] ++ _) c c' from h) hfront (hps.halts (fun v hv hat => ?_)
    (modifierLength_eq_zero (show s.At ([] ++ _) c c' from h) hfront)) (fun hne => absurd rfl hne) ?_
  · obtain rfl := Option.some.inj hv
    simp [hword] at hat
  · refine Token.declarationShape_eq _ _ _ (fun _ => List.cons_ne_nil _ _) fun _ _ => ⟨?_, ?_⟩
    · refine Token.declaresConstructor_eq _ _ (fun _ => List.cons_ne_nil _ _) fun _ hparen => ?_
      simp [Reading.kind_of_isOperator hmark] at hparen
    · exact hguarded.declaresMethod_eq _ _

/-- A statement that is told by its first tokens is told by them among members too. -/
theorem memberShape_told (h : s.At ps c c') (hshape : Reading.memberShape c = .statement) (hps : Marked ps)
    (hlocals : Reading.statementShape c ≠ .locals) (hexpression : Reading.statementShape c ≠ .expression)
    (hlock : Reading.statementShape c = .unsupported "'synchronized' statement" →
      c.nextIs (·.kind = .openParen) = true) :
    Reading.memberShape c' = .statement := by
  have hhere := h.here_eq hps.ne_nil
  rw [Reading.statementShape] at hlocals hexpression hlock
  cases hkind : c.here.kind with
  | openBrace => exact Reading.memberShape_of_mark (hhere ▸ hkind) (by decide)
  | semicolon => exact Reading.memberShape_of_mark (hhere ▸ hkind) (by decide)
  | atSign => exact absurd (by rw [hkind]) hlocals
  | word =>
      rw [hkind] at hlocals hexpression hlock
      simp only [Reading.wordStatementShape] at hlocals hexpression hlock
      split at hlocals
      · next shape hlookup =>
          refine Reading.memberShape_of_statementWord (hhere ▸ hkind) (hhere ▸ hlookup) fun htext => ?_
          rw [h.nextIs_of_marked hps hkind]
          refine hlock ?_
          rw [hhere] at htext
          rw [htext]
          rfl
      · next hlookup =>
          rw [hlookup] at hexpression
          split at hlocals
          · next htype =>
              obtain ⟨hword, hnext⟩ := Bool.and_eq_true_iff.mp htype
              exact absurd hshape (Reading.not_memberShape_of_typeWord hword hnext)
          · next htype =>
              split at hlocals
              · next hlabel => rw [h.memberShape_label hlabel hps, hshape]
              · next hlabel =>
                  simp only [htype, hlabel, if_false, Bool.false_eq_true] at hexpression
                  split at hlocals
                  · exact absurd rfl hlocals
                  · next hvariables => exact absurd (if_neg hvariables) hexpression
  | _ => exact absurd (by rw [hkind]) hexpression

/-- A statement among members is no other member for what follows, if calls end in front of the seam and
locks are told by their parentheses. -/
theorem memberShape_statement (h : s.At ps c c') (hshape : Reading.memberShape c = .statement)
    (hps : Reading.startOf c.modifierCount (Reading.statementShape c) ps)
    (hends : Reading.statementShape c = .locals ∨ Reading.statementShape c = .expression →
      ∀ front us, ps = front ++ us → front.length = c.modifierCount → CallEnds us)
    (hlock : Reading.statementShape c = .unsupported "'synchronized' statement" →
      c.nextIs (·.kind = .openParen) = true) :
    Reading.memberShape c' = .statement := by
  by_cases hlocals : Reading.statementShape c = .locals
  · rw [hlocals] at hps
    obtain ⟨front, us, rfl, hfront, hus⟩ := hps
    rw [h.memberShape_sealed hfront hus.1 (fun _ => hus.2) (hends (.inl hlocals) front us rfl hfront), hshape]
  by_cases hexpression : Reading.statementShape c = .expression
  · rw [hexpression] at hps
    have hcount := Reading.modifierCount_of_expression hexpression
    rw [memberShape_sealed (show s.At ([] ++ ps) c c' from h) hcount.symm hps (fun hne => absurd rfl hne)
      (hends (.inr hexpression) [] ps rfl hcount.symm), hshape]
  exact h.memberShape_told hshape (Reading.marked_of_startOf hps) hlocals hexpression hlock

end Seam.At

namespace Token

variable {ps qs : List Token} {t : Token} {kinds : List Kind}

/-- A call that is followed by another token, with all brackets of the call closed in front of it, does not
end at the end of the tokens. -/
theorem callEnds_of_keepsRank (hps : Matched (ps ++ t :: qs)) (hkeeps : KeepsRank ps)
    (ht : t.kind = .semicolon) : CallEnds (ps ++ t :: qs) := by
  rintro name more hcons hname
  rcases ps with _ | ⟨p, _ | ⟨paren, ps⟩⟩
  · obtain ⟨rfl, -⟩ := List.cons.inj hcons
    rw [kind_of_isName hname] at ht
    cases ht
  · obtain ⟨-, rfl⟩ := List.cons.inj hcons
    intro hparen
    simp [ht] at hparen
  · obtain ⟨rfl, rfl⟩ := List.cons.inj hcons
    exact (hkeeps.tail_of_word (kind_of_isName hname)).groupEnds (List.cons_ne_nil _ _) (List.cons_ne_nil _ _)
      hps.tail

end Token

namespace Reading

variable {source : Text} {c d : Cursor} {inner : Enclosed} {events : List Event} {ps us qs rest : List Token}

theorem callEnds_of_expressionStatement (h : inner.BracketsInside source Token.Even) (hc : c.Sited source)
    (hrun : expressionStatement inner c = (events, .ok ((), d))) (hps : c.tokens = ps ++ rest)
    (hqs : d.tokens = qs ++ rest) (hmatched : Token.Matched ps) : CallEnds ps := by
  obtain ⟨_, _, _, more, ⟨⟩, hvalue, -⟩ := exists_of_bind_ok
    (show (emit (.expressionStatement c.here.toSpan) >>= fun _ => expression inner >>= fun _ =>
      semicolon >>= fun _ => Pure.pure ()) c = (events, .ok ((), d)) from hrun)
  obtain ⟨inside, _, e, last, hexpression, hsemicolon, -⟩ := exists_of_bind_ok hvalue
  obtain ⟨hreaches, hbrackets⟩ := brackets_expression h c hc _ _ _ hexpression
  obtain ⟨passed, hpassed, hkeeps⟩ := Token.Bracketed.even hbrackets
  obtain ⟨hkind, rfl⟩ : e.here.kind = .semicolon ∧ d = e.advance := by
    obtain ⟨_, t, f, _, hexpect, ⟨⟩, -⟩ := exists_of_bind_ok hsemicolon
    obtain ⟨hkind, -, hd⟩ := exists_of_expect hexpect
    exact ⟨hkind, hd⟩
  have he := hc.reaching hreaches
  have htokens := Cursor.tokens_forward (n := 1) he.laid
    (by simpa [Cursor.tokens] using not_isEnd_of_kind hkind (by decide))
  obtain rfl : ps = passed ++ e.here :: qs := by
    refine List.append_cancel_right (show _ ++ rest = _ ++ rest from ?_)
    rw [← hps, hpassed, List.append_assoc, List.cons_append, ← hqs]
    exact congrArg (passed ++ e.here :: ·) (by simpa [Cursor.tokens, Cursor.forward] using htokens.symm)
  exact Token.callEnds_of_keepsRank hmatched hkeeps hkind

/-- The first round of a loop that comes to its end. -/
theorem exists_of_repeatWhile {body : Reading Bool} {u : Unit}
    (h : repeatWhile body c = (events, .ok (u, d))) :
    ∃ first again e, body c = (first, .ok (again, e)) := by
  rw [repeatWhile] at h
  cases hahead : c.ahead with
  | nil =>
      rw [hahead] at h
      obtain ⟨first, again, e, -, hfirst, -⟩ := exists_of_bind_ok h
      exact ⟨first, again, e, hfirst⟩
  | cons t ts =>
      rw [hahead] at h
      obtain ⟨first, again, e, -, hfirst, -⟩ := exists_of_bind_ok h
      exact ⟨first, again, e, hfirst⟩

/-- No call stands behind the modifiers of variables. -/
theorem callEnds_of_localVariables (hc : c.Sited source)
    (hrun : localVariables inner c = (events, .ok ((), d))) (hus : c.tokens.drop c.modifierCount = us ++ rest) :
    CallEnds us := by
  rintro t more rfl hname hparen
  obtain ⟨p, more, rfl⟩ : ∃ p us, more = p :: us := by
    cases more with
    | nil => cases hparen
    | cons p ps => exact ⟨p, ps, rfl⟩
  have hkind : p.kind = .openParen := of_decide_eq_true hparen
  obtain ⟨_, spans, f, _, hmodifiers, hrest, -⟩ := exists_of_bind_ok (show (modifiers >>= fun spans =>
    typeName >>= fun _ => emit (.openVariables c.here.toSpan spans) >>= fun _ =>
      repeatWhile (declarator inner) >>= fun _ => semicolon >>= fun semicolon =>
        emit (.closeVariables semicolon.toSpan)) c = (events, .ok ((), d)) from hrun)
  obtain ⟨-, hforward⟩ := Prod.mk.injEq .. |>.mp ((modifiers_eq c).symm.trans hmodifiers)
  obtain ⟨-, rfl⟩ := by simpa using hforward
  obtain ⟨_, _, e, _, htype, hrest, -⟩ := exists_of_bind_ok hrest
  obtain ⟨_, _, _, _, ⟨⟩, hrest, -⟩ := exists_of_bind_ok hrest
  obtain ⟨_, _, _, _, hdeclarators, -, -⟩ := exists_of_bind_ok hrest
  obtain ⟨first, again, g, hfirst⟩ := exists_of_repeatWhile hdeclarators
  obtain ⟨_, _, _, _, hdeclared, -, -⟩ := exists_of_bind_ok (show (expectName >>= fun _ => _) e = _ from hfirst)
  obtain ⟨-, hnamed, -⟩ := Reading.exists_of_expectName hdeclared
  have htokens := Cursor.tokens_forward hc.laid (Token.not_isEnd_of_modifiers c.tokens)
  have hbehind : (c.forward c.modifierCount).tokens = t :: p :: (more ++ rest) := htokens.trans hus
  have hlength : Token.typeLength? (t :: p :: (more ++ rest)) = some 1 := Token.typeLength?_of_call hname hkind
  rw [← hbehind] at hlength
  obtain rfl : e = (c.forward c.modifierCount).advance := by
    rw [typeName, cursor_bind, hlength] at htype
    cases htype
    rfl
  rw [Cursor.advance_eq (List.cons.inj hbehind).2] at hnamed
  simp [Token.isName, Token.isAnyWord, hkind] at hnamed

/-- Behind the modifiers of a statement there is no call that ends with it. -/
theorem callEnds_of_statement {levels : Nat} (hc : c.Sited source)
    (hrun : statement (Enclosed.within levels) c = (events, .ok ((), d))) (hps : c.tokens = ps ++ rest)
    (hqs : d.tokens = qs ++ rest) (hmatched : Token.Matched ps)
    (hshape : statementShape c = .locals ∨ statementShape c = .expression) {front : List Token}
    (hsplit : ps = front ++ us) (hfront : front.length = c.modifierCount) : CallEnds us := by
  obtain ⟨more, hmore, -⟩ := exists_of_reported ((congrFun (statement_eq_reported _) c).symm.trans hrun)
  change statementOf _ (statementShape c) c.relieved = _ at hmore
  rcases hshape with hshape | hshape
  · rw [hshape] at hmore
    refine callEnds_of_localVariables hc.relieved hmore (show _ = us ++ rest from ?_)
    change c.tokens.drop c.modifierCount = us ++ rest
    rw [hps, hsplit, List.append_assoc, ← hfront, List.drop_left]
  · rw [modifierCount_of_expression hshape] at hfront
    obtain rfl := List.eq_nil_of_length_eq_zero hfront
    rw [hshape] at hmore
    obtain rfl : ps = us := hsplit
    exact callEnds_of_expressionStatement (Enclosed.bracketsInside_within source Token.Even levels)
      hc.relieved hmore hps hqs hmatched

/-! ## Members -/

/-- A member that is told in front of the seam to be of its shape. -/
theorem LocalAt.member {P : List Token → Prop} {shape : MemberShape} (hshape : memberShape c = shape)
    (h : (memberOf inner shape).LocalAt s P Anything c) (hne : ∀ ps, P ps → ps ≠ [])
    (hsame : ∀ ps c', P ps → s.At ps c c' → memberShape c' = shape) :
    (Reading.member inner).LocalAt s (· ≠ []) Anything c := by
  subst hshape
  refine .start (P := P) (.cursor_bind (f := fun c => memberOf inner (memberShape c)) h
    fun ps c' hps hc' => ?_) hne
  rw [hsame ps c' hps hc']

/-- A member is read the same whatever follows, unless it is a lock without parentheses. -/
theorem member_local {levels : Nat} (hc : c.Sited source) (hlock : memberShape c = .statement →
      statementShape c = .unsupported "'synchronized' statement" → c.nextIs (·.kind = .openParen) = true) :
    (member (Enclosed.within (levels + 1))).LocalAt s (· ≠ []) Anything c := by
  have h := Enclosed.localInside_within source s levels
  have h' := Enclosed.localInside_within source s (levels + 1)
  cases hshape : memberShape c with
  | directive word =>
      refine .member hshape (directive_local word hc) (fun _ => Sealed.ne_nil) fun ps c' hps hc' => ?_
      rw [memberShape] at hshape ⊢
      rw [hc'.here_eq hps.ne_nil]
      split_ifs at hshape with hword
      · rw [if_pos hword, hshape]
      · exact absurd hshape (declarationShape_ne_directive _ _ _)
  | unsupported construct head skipped =>
      refine .member hshape (unsupportedMember_local hc hshape) (fun ps hps => ?_) fun ps c' hps hc' => ?_
      · obtain ⟨front, us, rfl, -, hus, -⟩ := hps
        exact List.append_ne_nil_of_right_ne_nil _ hus.ne_nil
      · rw [hc'.memberShape_unsupported hshape (unsupported_of_memberShape hc hshape).1 hps, hshape]
  | constructor =>
      exact .member hshape (constructor_local h' hc) (fun _ hps => (hps.imp fun _ => And.left).sealed.ne_nil)
        fun _ _ hps hc' => (hc'.memberShape_modified hps).trans hshape
  | method =>
      exact .member hshape (method_local h' hc) (fun _ hps => hps.sealed.ne_nil) fun _ _ hps hc' =>
        hc'.memberShape_method hshape hps
  | statement =>
      have hstatement := (statement_localAt h hc).start_of_run (T := fun ps =>
        startOf c.modifierCount (statementShape c) ps ∧ (Token.Matched ps →
          statementShape c = .locals ∨ statementShape c = .expression →
            ∀ front us, ps = front ++ us → front.length = c.modifierCount → CallEnds us))
        fun events _ d ps qs hrun hps hqs hstart _ => ⟨hstart, fun hmatched hvalue front us hsplit hfront =>
          callEnds_of_statement hc hrun hps hqs hmatched hvalue hsplit hfront⟩
      exact .member hshape hstatement (fun _ hps => (marked_of_startOf hps.1).ne_nil) fun _ _ hps hc' =>
        hc'.memberShape_statement hshape hps.1 (hps.2 hc'.matched) (hlock hshape)

end Reading

end CodeFrames
