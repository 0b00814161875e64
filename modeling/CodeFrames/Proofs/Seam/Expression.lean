import CodeFrames.Proofs.Seam.Basic

/-!
# Expressions in front of a seam

An expression is part of something that ends behind it: a statement, a block or parentheses.  Where the
end stands in front of the seam, the expression is read the same whatever follows the seam.
-/

namespace CodeFrames

open Token (AtLeast CastEnds GroupEnds Growing Matched Sealed)

/-! ## What is told in front of the end -/

namespace Seam.At

variable {s : Seam} {ps : List Token} {c c' : Cursor}

/-- Behind a token at which an expression does not end there is another one in front of the seam. -/
theorem nextIs_of_sealed (h : s.At ps c c') (hps : Sealed ps)
    (hhere : c.here.kind ∉ Token.sealKinds) (p : Token → Bool) :
    c'.nextIs p = c.nextIs p := by
  obtain ⟨t, ps, rfl⟩ := List.exists_cons_of_ne_nil hps.ne_nil
  rw [show c.here = t from (List.cons.inj h.tokens).1] at hhere
  exact h.nextIs_eq (Nat.succ_le_succ (List.length_pos_of_ne_nil (hps.tail hhere).ne_nil)) p

/-- The parentheses are closed in front of another token. -/
theorem opensLambda_eq (h : s.At ps c c') (hps : ps ≠ []) (hparen : c.here.kind = .openParen)
    (hends : GroupEnds ps) : Reading.opensLambda c' = Reading.opensLambda c := by
  obtain ⟨t, ps, rfl⟩ := List.exists_cons_of_ne_nil hps
  obtain ⟨n, hlt, hn⟩ := hends (decide_eq_true (by rw [← hparen, show c.here = t from (List.cons.inj h.tokens).1]))
  rw [Reading.opensLambda, Reading.opensLambda, h.tokens, h.tokens', Token.groupLength?_append hn,
    Token.groupLength?_append hn]
  simp only [List.getElem?_append_left hlt]

theorem operandShape_eq (h : s.At ps c c') (hps : Sealed ps) (hends : GroupEnds ps) :
    Reading.operandShape c' = Reading.operandShape c := by
  rw [Reading.operandShape, Reading.operandShape, h.here_eq hps.ne_nil]
  cases hkind : c.here.kind <;> simp only
  case openParen => rw [h.opensLambda_eq hps.ne_nil hkind hends]
  case word =>
    rw [Reading.wordShape, Reading.wordShape, h.here_eq hps.ne_nil,
      h.nextIs_of_sealed hps (by rw [hkind]; decide)]

end Seam.At

namespace Reading

variable {α β : Type} {source : Text} {s : Seam}

/-- In front of the end of what it is part of, the reading sees nothing of what follows the seam. -/
def Local (source : Text) (s : Seam) (r : Reading α) : Prop :=
  ∀ n c, c.Sited source → r.LocalAt s (AtLeast n Sealed) (fun _ => AtLeast n Sealed) c

theorem Local.bind {r : Reading α} {f : α → Reading β} (hr : r.Local source s)
    (hf : ∀ a, (f a).Local source s) : (r >>= f).Local source s := fun n c hc =>
  (hr n c hc).bind fun _ a d _ hreaches => hf a n d (hc.reaching hreaches)

theorem ne_nil_of_sealed {n : Nat} (ps : List Token) (h : AtLeast n Sealed ps) : ps ≠ [] := h.2.ne_nil

end Reading

/-- What is asked of the productions of expressions one nesting level deeper. -/
structure Enclosed.Local (source : Text) (s : Seam) (inner : Enclosed) : Prop where
  brackets : inner.BracketsInside source Token.Even
  reports : inner.Reports source none
  assignment : inner.assignment.Local source s
  branches : inner.branches.Local source s
  arrayInitializer : inner.arrayInitializer.Local source s

namespace Reading

variable {α β : Type} {source : Text} {s : Seam} {n : Nat} {P : List Token → Prop} {c : Cursor}

namespace LocalAt

/-- Behind a token; a token more is left at the start than at the end. -/
theorem step [Growing P] {R : β → List Token → Prop} {f : Token → Reading β} (hc : c.Sited source)
    (hcode : ¬ c.here.isEnd) (h : (f c.here).LocalAt s (AtLeast (n - 1) P) R c.advance) :
    (Reading.take >>= f).LocalAt s (AtLeast n P) R c :=
  .take_bind hc hcode h fun _ => Token.AtLeast.cons

theorem skipGroup_bind {R : β → List Token → Prop} {P T : List Token → Prop} {f : Unit → Reading β}
    (hc : c.Sited source)
    (hf : ∀ n, Token.groupLength? c.tokens = some n → (f ()).LocalAt s P R (c.forward n))
    (hP : ∀ ps us, Token.Marked ps → P us → T (ps ++ us)) :
    (Reading.skipGroup >>= f).LocalAt s T R c := by
  rw [Reading.skipGroup, bind_assoc]
  cases hgroup : Token.groupLength? c.tokens with
  | none =>
      refine .of_error (e := ⟨c.here.line, .unbalanced c.here.found⟩) ?_
      rw [Reading.cursor_bind, hgroup]
      rfl
  | some n =>
      have hforward := forward_bind (T := fun ps => T ps ∧ Token.groupLength? ps = some n) hc
        (Token.not_isEnd_of_groupFrom hgroup) (hf n hgroup) fun ps us hps hlength hus => by
          obtain ⟨group, rest, htokens, hn, hclosing⟩ := Token.exists_of_groupLength? hgroup
          obtain rfl : ps = group := by rw [hps, htokens, ← hn, List.take_left]
          refine ⟨hP ps us hclosing.marked hus, Token.groupLength?_append ?_ us⟩
          exact Token.groupLengthFrom?_eq_some.mpr ⟨ps, [], (List.append_nil ps).symm, hlength, hclosing⟩
      intro events b d hrun
      rw [Reading.cursor_bind, hgroup] at hrun
      obtain ⟨hreaches, hlocal⟩ := hforward events b d hrun
      refine ⟨hreaches, fun qs hqs hend => ?_⟩
      obtain ⟨ps, htokens, ⟨hstart, hsame⟩, hrest⟩ := hlocal qs hqs hend
      refine ⟨ps, htokens, hstart, fun c' hc' => ?_⟩
      obtain ⟨d', hd', hat⟩ := hrest c' hc'
      refine ⟨d', ?_, hat⟩
      rw [Reading.cursor_bind, hc'.tokens', Token.groupLength?_append hsame, hd']

theorem skipGroup [Growing P] (hc : c.Sited source) :
    Reading.skipGroup.LocalAt s (AtLeast n P) (fun _ => AtLeast (n - 1) P) c := by
  rw [← bind_pure Reading.skipGroup]
  exact skipGroup_bind hc (fun _ _ => .pure ()) fun ps us hps h => h.append_left_of_ne_nil hps.ne_nil

/-- Tokens are stepped over if a length is found, and the length is the same whatever follows. -/
theorem length_bind {R : β → List Token → Prop} {f : List Token → Option Nat} {refused : Reading β}
    {g : Nat → Reading β} (hsame : ∀ ps us vs, P ps → f (ps ++ us) = f (ps ++ vs))
    (hnone : refused.LocalAt s P R c) (hsome : ∀ m, f c.tokens = some m → (g m).LocalAt s P R c) :
    (Reading.cursor >>= fun c => match f c.tokens with
      | none => refused
      | some m => g m).LocalAt s P R c := by
  refine .cursor_bind (f := fun c => match f c.tokens with
    | none => refused
    | some m => g m) ?_ fun ps c' hps hc' => ?_
  · cases hlength : f c.tokens with
    | none => exact hnone
    | some m => exact hsome m hlength
  · rw [hc'.tokens, hc'.tokens', hsame ps s.rest' s.rest hps]

theorem passing [Growing P] {R : β → List Token → Prop} {m : Nat} {f : Unit → Reading β}
    (hc : c.Sited source) (hcode : ∀ t ∈ c.tokens.take m, ¬ t.isEnd)
    (h : ∀ d, d.Sited source → (f ()).LocalAt s (AtLeast n P) R d) :
    (Reading.forward m >>= f).LocalAt s (AtLeast n P) R c :=
  .forward_bind hc hcode (h _ (hc.forward m)) fun _ _ _ _ => AtLeast.append_left

end LocalAt

/-! ## Expressions -/

variable {inner : Enclosed}

theorem local_expression (h : inner.Local source s) : (expression inner).Local source s := by
  intro n c hc
  refine .here_bind (.ite (fun _ => ?_) fun _ => ?_) ne_nil_of_sealed
  · exact .of_error (e := ⟨c.here.line, .expected .expression c.here.found⟩) rfl
  · refine .emit_bind ((h.assignment n c hc).bind fun _ _ _ _ _ => .before_bind (.emit _))

theorem local_comma (hc : c.Sited source) :
    comma.LocalAt s (AtLeast n Sealed) (Left n Sealed Sealed) c := by
  refine .cursor_bind (.ite (fun hat => ?_) fun _ => .pure _) fun ps c' hps hc' => ?_
  · exact .step hc (not_isEnd_of_kind (kind_of_isAt hat) (by decide)) (.pure _)
  · rw [hc'.isAt_eq hps.2.ne_nil]

theorem local_arguments (h : inner.Local source s) : (arguments inner).Local source s := by
  have hround : LocalRound source s Sealed Sealed (argumentRound inner) := fun n c hc =>
    .here_bind (.emit_bind ((local_expression h n c hc).bind fun _ _ d _ hreaches =>
      local_comma (hc.reaching hreaches))) ne_nil_of_sealed
  have hclose : (do
      let paren ← expect .closeParen ")"
      emit (.closeArguments paren.toSpan) : Reading Unit).Local source s := fun n c hc =>
    .expect_bind hc (by decide) (fun _ => .emit _) fun _ _ => AtLeast.cons_self
  intro n c hc
  refine .expect_bind hc (by decide) (fun _ => .emit_bind ?_) fun _ _ => AtLeast.cons_self
  have hadvance := hc.advance
  refine .cursor_bind (.ite (fun _ => ?_) fun _ => ?_) fun ps c' hps hc' => ?_
  · exact (hround.rounds n _ hadvance).bind fun _ _ d _ hreaches => hclose n d (hadvance.reaching hreaches)
  · exact hclose n _ hadvance
  · rw [hc'.isAt_eq hps.2.ne_nil]

theorem local_optionalArguments (h : inner.Local source s) :
    (optionalArguments inner).Local source s := fun n c hc =>
  .cursor_bind (.ite (fun _ => local_arguments h n c hc) fun _ => .pure _) fun ps c' hps hc' => by
    rw [hc'.isAt_eq hps.2.ne_nil]

theorem local_expect {kind : Token.Kind} {symbol : String} (hkind : kind ≠ .endOfInput) (a : α) :
    (do
      let _ ← expect kind symbol
      return a : Reading α).Local source s := fun _ _ hc =>
  .expect_bind hc hkind (fun _ => .pure _) fun _ _ => AtLeast.cons_self

theorem local_arrayInitializer (h : inner.Local source s) :
    (arrayInitializer inner).Local source s := by
  have hround : LocalRound source s Sealed Sealed (valueRound inner) := by
    refine fun n c hc => .cursor_bind (.ite (fun _ => .pure _) fun _ => .ite (fun _ => ?_) fun _ => ?_)
      fun ps c' hps hc' => by rw [hc'.isAt_eq hps.2.ne_nil, hc'.isAt_eq hps.2.ne_nil]
    · exact (h.arrayInitializer n c hc).bind fun _ _ d _ hreaches => local_comma (hc.reaching hreaches)
    · exact (local_expression h n c hc).bind fun _ _ d _ hreaches => local_comma (hc.reaching hreaches)
  intro n c hc
  refine .expect_bind hc (by decide) (fun _ => ?_) fun _ _ => AtLeast.cons_self
  exact (hround.rounds n _ hc.advance).bind fun _ _ d _ hreaches =>
    local_expect (by decide) _ n d (hc.advance.reaching hreaches)

theorem closeBracket_local (hc : c.Sited source) :
    (do
      let _ ← expect .closeBracket "]"
      return true : Reading Bool).LocalAt s (AtLeast (n - 1) Sealed) (Left n Sealed Sealed) c :=
  .expect_bind hc (by decide) (fun _ => .pure _) fun _ _ => AtLeast.cons_self

/-- An expression in brackets behind the opening one. -/
theorem index_local (h : inner.Local source s) (hc : c.Sited source) :
    (do
      expression inner
      let _ ← expect .closeBracket "]"
      return true : Reading Bool).LocalAt s (AtLeast (n - 1) Sealed) (Left n Sealed Sealed) c :=
  (local_expression h (n - 1) c hc).bind fun _ _ _ _ hreaches =>
    closeBracket_local (hc.reaching hreaches)

/-! ## Operands -/

theorem localRound_dimension (h : inner.Local source s) : LocalRound source s Sealed Sealed (dimension inner) := by
  refine fun n c hc => .cursor_bind (.ite (fun hat => ?_) fun _ => .pure _) fun ps c' hps hc' => by
    rw [hc'.isAt_eq hps.2.ne_nil]
  refine .step hc (not_isEnd_of_kind (kind_of_isAt hat) (by decide)) ?_
  refine .cursor_bind (.ite (fun _ => ?_) fun _ => ?_) fun ps c' hps hc' => by
    rw [hc'.isAt_eq hps.2.ne_nil]
  · exact index_local h hc.advance
  · exact closeBracket_local hc.advance

theorem local_classBody :
    (do
      let brace ← here
      if brace.kind = .openBrace then
        emit (.unsupported brace.toSpan "anonymous class body")
        skipGroup : Reading Unit).Local source s := fun n _ hc =>
  .here_bind (.ite (fun _ => .emit_bind ((LocalAt.skipGroup hc (n := n)).imp (fun _ => id) fun _ _ h =>
    ⟨(Nat.sub_le n 1).trans h.1, h.2⟩)) fun _ => .pure _) ne_nil_of_sealed

theorem local_createdObject (h : inner.Local source s) : (createdObject inner).Local source s := by
  refine fun n c hc => .here_bind ?_ ne_nil_of_sealed
  split
  · exact ((local_arguments h).bind fun _ => local_classBody) n c hc
  · refine ((localRound_dimension h).rounds n c hc).bind fun _ _ d _ hreaches => ?_
    have hd := hc.reaching hreaches
    exact .cursor_bind (.ite (fun _ => local_arrayInitializer h n d hd) fun _ => .pure _)
      fun ps c' hps hc' => by rw [hc'.isAt_eq hps.2.ne_nil]
  · exact .refuse _

/-- An object is created behind the word at the cursor. -/
theorem creation_local (h : inner.Local source s) (hc : c.Sited source) (hcode : ¬ c.here.isEnd) :
    (creation inner).LocalAt s (AtLeast n Sealed) (fun _ => AtLeast n Sealed) c := by
  refine .take_bind hc hcode ?_ fun _ => AtLeast.cons_self
  refine .length_bind (fun ps us vs hps => hps.2.guarded.typeNameLength?_eq us vs) (.refuse _)
    fun m hm => .passing hc.advance (fun t ht => ?_) (local_createdObject h n)
  exact Token.not_isEnd_of_typeKinds (Token.typeKinds_of_typeName hm t ht)

/-- Behind a type at the cursor. -/
theorem type_local {R : β → List Token → Prop} {f : Unit → Reading β} {m : Nat} (hc : c.Sited source)
    (hm : Token.typeLength? c.tokens = some m)
    (hf : ∀ d, d.Sited source → (f ()).LocalAt s (AtLeast n Sealed) R d) :
    (Reading.forward m >>= f).LocalAt s (AtLeast n Sealed) R c :=
  .passing hc (fun t ht => Token.not_isEnd_of_typeKinds (Token.typeKinds_of_type hm t ht)) hf

theorem local_unreportedType : unreportedType.Local source s := fun _ _ hc =>
  .length_bind (fun _ us vs hps => hps.2.guarded.typeLength?_eq us vs) (.refuse _) fun m hm => by
    rw [← bind_pure (Reading.forward m)]
    exact type_local hc hm fun _ _ => .pure ()

theorem local_typeName : Reading.typeName.Local source s := fun _ _ hc =>
  .length_bind (fun _ us vs hps => hps.2.guarded.typeLength?_eq us vs) (.refuse _) fun _ hm =>
    .here_bind (type_local hc hm fun _ _ => .before_bind (.emit _)) ne_nil_of_sealed

theorem local_typeLiteral (word : Text) : (typeLiteral word).Local source s := by
  refine local_unreportedType.bind fun _ n c hc => ?_
  refine .cursor_bind (.ite (fun _ => .fail _) fun _ => .pure _) fun ps c' hps hc' => ?_
  have hsame : (c'.isAt .dot && c'.nextIs (·.isWord "class".toList)) =
      (c.isAt .dot && c.nextIs (·.isWord "class".toList)) := by
    rw [hc'.isAt_eq hps.2.ne_nil]
    cases hdot : c.isAt .dot with
    | false => rfl
    | true => rw [hc'.nextIs_of_sealed hps.2 (by rw [kind_of_isAt hdot]; decide)]
  rw [hsame]

theorem local_skipGroup : skipGroup.Local source s := fun n _ hc =>
  (LocalAt.skipGroup hc (n := n)).imp (fun _ => id) fun _ _ h => ⟨(Nat.sub_le n 1).trans h.1, h.2⟩

theorem local_skipLambdaBody : skipLambdaBody.Local source s := by
  refine fun n c hc => .here_bind (.ite (fun _ => local_skipGroup n c hc) fun _ =>
    .ite (fun _ => .refuse _) fun _ => LocalRound.rounds (fun n c hc => ?_) n c hc) ne_nil_of_sealed
  refine .here_bind (.ite (fun _ => ?_) fun _ => .ite (fun _ => .pure _) fun hends => ?_) ne_nil_of_sealed
  · exact (LocalAt.skipGroup hc).bind fun _ _ _ _ _ => .pure _
  · refine .step hc (fun hend => hends ?_) (.pure _)
    simp only [Token.isEnd, decide_eq_true_eq] at hend
    rw [endsLambdaBody, hend]

/-- The parameters of a lambda have an arrow behind them. -/
theorem lambda_local (hc : c.Sited source) (hshape : operandShape c = .lambda) :
    lambda.LocalAt s (AtLeast n Sealed) (fun _ => AtLeast n Sealed) c := by
  have hbody {d : Cursor} (hd : d.Sited source) (harrow : d.here.isOperator "->".toList = true) :
      (do
        let _ ← take
        skipLambdaBody : Reading Unit).LocalAt s (AtLeast n Sealed) (fun _ => AtLeast n Sealed) d :=
    .take_bind hd (not_isEnd_of_kind (kind_of_isOperator harrow) (by decide))
      (local_skipLambdaBody n _ hd.advance) fun _ => AtLeast.cons_self
  refine .here_bind (.emit_bind (.ite (fun hparen => ?_) fun hparen => ?_)) ne_nil_of_sealed
  · exact .skipGroup_bind hc (fun m hgroup => hbody (hc.forward m) (arrow_of_group hc hshape hparen hgroup))
      fun _ _ _ => AtLeast.append_left
  · have hword := not_isEnd_of_kind (kind_of_lambda hshape hparen) (by decide)
    exact .take_bind hc hword (hbody hc.advance (arrow_of_name hshape hparen)) fun _ => AtLeast.cons_self

/-- The tokens of an operand leave as many parentheses open as there were. -/
theorem operable_of_operand (h : inner.Local source s) (hc : c.Sited source) {events : List Event}
    {u : Unit} {d : Cursor} {ps qs rest : List Token} (hrun : operand inner c = (events, .ok (u, d)))
    (hps : c.tokens = ps ++ rest) (hqs : d.tokens = qs ++ rest) (hsealed : Sealed qs) :
    Token.Operable ps := by
  obtain ⟨passed, hpassed, hkeeps⟩ := Token.Bracketed.even (brackets_operand h.brackets c hc _ _ _ hrun).2
  obtain ⟨front, hne, hfront, -⟩ := advances_operand h.reports c hc.laid _ _ _ hrun
  obtain rfl := List.append_cancel_right (hpassed.symm.trans hfront)
  rw [hps, hqs, ← List.append_assoc] at hpassed
  obtain rfl := List.append_cancel_right hpassed
  exact ⟨hsealed.append_left, hkeeps.groupEnds hne hsealed.ne_nil, hkeeps.castEnds hne hsealed.ne_nil⟩

theorem operand_local (h : inner.Local source s) (hc : c.Sited source) :
    (operand inner).LocalAt s (AtLeast n Token.Operable) (fun _ => AtLeast n Sealed) c := by
  have hadvance := hc.advance
  have hcode (hother : operandShape c ≠ .other) := not_isEnd_of_operandShape hother
  suffices hshape : LocalAt s (AtLeast n Sealed) (fun _ => AtLeast n Sealed) _ c by
    refine .cursor_bind (hshape.start_of_run fun events a d ps qs hrun hps hqs hstart hend =>
      ⟨hstart.1, operable_of_operand h hc hrun hps hqs hend.2⟩) fun ps c' hps hc' => ?_
    rw [hc'.operandShape_eq hps.2.sealed (hps.2.group hc'.matched)]
  cases hshape : operandShape c with
  | literal => exact .take_bind hc (hcode (by simp [hshape])) (.pure _) fun _ => AtLeast.cons_self
  | lambda => exact lambda_local hc hshape
  | parenthesized =>
      refine .take_bind hc (hcode (by simp [hshape])) ?_ fun _ => AtLeast.cons_self
      exact (local_expression h).bind (fun _ => local_expect (by decide) ()) n _ hadvance
  | creation => exact creation_local h hc (hcode (by simp [hshape]))
  | reference =>
      exact .take_bind hc (hcode (by simp [hshape])) (local_optionalArguments h n _ hadvance) fun _ =>
        AtLeast.cons_self
  | typeLiteral word => exact local_typeLiteral word n c hc
  | reserved word => exact .fail _
  | other => exact .refuse _

/-! ## Selectors, operators and casts -/

theorem local_skipTypeArguments : skipTypeArguments.Local source s := by
  refine fun n c hc => .here_bind (.emit_bind ?_) ne_nil_of_sealed
  refine .length_bind (fun ps us vs hps => hps.2.guarded.typeArgumentsLength?_eq us vs) (.fail _)
    fun m hm => ?_
  rw [← bind_pure (Reading.forward m)]
  exact .passing hc (fun t ht => Token.not_isEnd_of_typeKinds (Token.typeKinds_of_typeArguments hm t ht))
    fun _ _ => .pure ()

theorem local_memberAccess (h : inner.Local source s) : (memberAccess inner).Local source s := by
  have hname : (do
      let _ ← expectName
      optionalArguments inner : Reading Unit).Local source s := fun n c hc =>
    .expectName_bind hc (fun _ => local_optionalArguments h n _ hc.advance) fun _ _ => AtLeast.cons_self
  refine fun n c hc => .cursor_bind (.ite (fun hnew => ?_) fun _ => .ite (fun hself => ?_) fun _ =>
    .ite (fun _ => ?_) fun _ => hname n c hc) fun ps c' hps hc' => ?_
  · exact creation_local h hc (not_isEnd_of_kind (kind_of_isWord hnew) (by decide))
  · have hkind : c.here.kind = .word := by
      simp only [Bool.or_eq_true] at hself
      rcases hself with (hself | hself) | hself <;> exact kind_of_isWord hself
    exact .take_bind hc (not_isEnd_of_kind hkind (by decide)) (.pure _) fun _ => AtLeast.cons_self
  · exact local_skipTypeArguments.bind (fun _ => hname) n c hc
  · simp only [hc'.isAtWord_eq hps.2.ne_nil, hc'.isAtOperator_eq hps.2.ne_nil]

theorem localRound_selector (h : inner.Local source s) : LocalRound source s Sealed Sealed (selector inner) := by
  intro n c hc
  have hadvance := hc.advance
  have hcode {kind : Token.Kind} (hkind : c.here.kind = kind) (hne : kind ≠ .endOfInput) : ¬ c.here.isEnd :=
    not_isEnd_of_kind hkind hne
  refine .cursor_bind (.ite (fun hdot => ?_) fun _ => .ite (fun hbracket => ?_) fun _ =>
    .ite (fun hreference => ?_) fun _ => .ite (fun hstep => ?_) fun _ => .pure _) fun ps c' hps hc' => ?_
  · exact .step hc (hcode (kind_of_isAt hdot) (by decide))
      ((local_memberAccess h _ _ hadvance).bind fun _ _ _ _ _ => .pure _)
  · exact .step hc (hcode (kind_of_isAt hbracket) (by decide)) (index_local h hadvance)
  · refine .step hc (hcode (kind_of_isOperator hreference) (by decide)) (.cursor_bind
      (.ite (fun hnew => ?_) fun _ => ?_) fun ps c' hps hc' => by rw [hc'.isAtWord_eq hps.2.ne_nil])
    · exact .take_bind hadvance (not_isEnd_of_kind (kind_of_isWord hnew) (by decide)) (.pure _) fun _ =>
        AtLeast.cons_self
    · exact .expectName_bind hadvance (fun _ => .pure _) fun _ _ => AtLeast.cons_self
  · exact .step hc (hcode (kind_of_isOperatorIn hstep) (by decide)) (.pure _)
  · simp only [hc'.isAt_eq hps.2.ne_nil, hc'.isAtOperator_eq hps.2.ne_nil, hc'.here_eq hps.2.ne_nil]

theorem localRound_leading : LocalRound source s Token.Castable Token.Castable leading := by
  refine fun n c hc => .cursor_bind (.ite (fun hoperator => ?_) fun _ => ?_) fun ps c' hps hc' => ?_
  · have hkind := kind_of_isOperatorIn hoperator
    refine .take_bind hc (not_isEnd_of_kind hkind (by decide)) (.pure _) fun us hus => ?_
    exact ⟨(AtLeast.cons (P := fun _ => True) ⟨hus.1, trivial⟩).1, hus.2.1.cons,
      fun _ => Token.castEnds_of_kind (by simp [hkind])⟩
  · cases hcast : Token.castLength? c.tokens with
    | none => exact .pure _
    | some m =>
        obtain ⟨_, _, _, k, _, _, _, -, -, -, -, -, -, rfl⟩ := Token.castLength?_eq_some.mp hcast
        have hforward : LocalAt s (fun ps => AtLeast n Sealed ps ∧ k + 2 < ps.length)
            (Left n Token.Castable Token.Castable) (do Reading.forward (k + 2); return true) c :=
          .forward_bind hc (Token.not_isEnd_of_cast hcast) (.pure true) fun ps us _ hlength hus => by
            have hus' := List.length_pos_of_ne_nil hus.2.1.ne_nil
            refine ⟨⟨?_, hus.2.1.append_left⟩, ?_⟩
            · have := hus.1
              simp only [List.length_append]
              omega
            · simp only [List.length_append]
              omega
        exact hforward.start_of_run fun _ _ _ ps _ _ htokens _ hstart _ =>
          ⟨hstart.1.1, hstart.1.2, fun _ => Token.castEnds_of_lt (htokens ▸ hcast) hstart.2⟩
  · rw [hc'.here_eq hps.2.1.ne_nil, hc'.tokens, hc'.tokens',
      (hps.2.2 hc'.matched).castLength?_eq s.rest s.rest']

theorem local_unary (h : inner.Local source s) : (unary inner).Local source s := fun n c hc =>
  ((localRound_leading.rounds n c hc).bind fun _ _ _ _ hreaches =>
    ((operand_local h (hc.reaching hreaches)).start fun _ hps =>
      ⟨hps.1, hps.2.sealed, hps.2.cast⟩).bind fun _ _ e _ hreaches' =>
        (localRound_selector h).rounds n e ((hc.reaching hreaches).reaching hreaches')).start fun _ hps =>
          ⟨hps.1, hps.2.1⟩

theorem local_typeTest (hc : c.Sited source) (hcode : ¬ c.here.isEnd) :
    (do
      typeTest
      return true : Reading Bool).LocalAt s (AtLeast n Sealed) (Left n Sealed Sealed) c := by
  have hname : (do if (← here).isName then let _ ← take : Reading Unit).Local source s := fun n c hc =>
    .here_bind (.ite (fun hname => .take_bind hc
      (not_isEnd_of_kind (Token.kind_of_isName hname) (by decide)) (.pure _) fun _ => AtLeast.cons_self)
      fun _ => .pure _) ne_nil_of_sealed
  have htype := (@local_unreportedType source s).bind fun _ => hname
  have hfinal : (do
      if (← cursor).isAtWord "final" then let _ ← take
      unreportedType
      if (← here).isName then let _ ← take : Reading Unit).Local source s := by
    refine fun n c hc => .cursor_bind (.ite (fun hfinal => ?_) fun _ => htype n c hc) fun ps c' hps hc' => by
      rw [hc'.isAtWord_eq hps.2.ne_nil]
    exact .take_bind hc (not_isEnd_of_kind (kind_of_isWord hfinal) (by decide)) (htype n _ hc.advance)
      fun _ => AtLeast.cons_self
  have hall : typeTest.LocalAt s (AtLeast n Sealed) (fun _ => AtLeast (n - 1) Sealed) c :=
    .step hc hcode (hfinal (n - 1) _ hc.advance)
  exact hall.bind fun _ _ _ _ _ => .pure _

theorem local_binary (h : inner.Local source s) : (binary inner).Local source s := by
  have hround : LocalRound source s Sealed Sealed (do
      let c ← cursor
      if c.isAtWord "instanceof" then
        typeTest
        return true
      else if c.here.isOperatorIn Token.binaryOperators then
        let _ ← take
        unary inner
        return true
      else return false) := by
    refine fun n c hc => .cursor_bind (.ite (fun htest => ?_) fun _ => .ite (fun hoperator => ?_)
      fun _ => .pure _) fun ps c' hps hc' => ?_
    · exact local_typeTest hc (not_isEnd_of_kind (kind_of_isWord htest) (by decide))
    · exact .step hc (not_isEnd_of_kind (kind_of_isOperatorIn hoperator) (by decide))
        ((local_unary h _ _ hc.advance).bind fun _ _ _ _ _ => .pure _)
    · simp only [hc'.isAtWord_eq hps.2.ne_nil, hc'.here_eq hps.2.ne_nil]
  exact (local_unary h).bind fun _ => hround.rounds

theorem local_conditional (h : inner.Local source s) : (conditional inner).Local source s :=
  (local_binary h).bind fun _ n _ hc => .cursor_bind (.ite
    (fun hmark => .take_bind hc (not_isEnd_of_kind (kind_of_isOperator hmark) (by decide))
      (h.branches n _ hc.advance) fun _ => AtLeast.cons_self) fun _ => .pure _)
    fun ps c' hps hc' => by rw [hc'.isAtOperator_eq hps.2.ne_nil]

theorem local_assignment (h : inner.Local source s) : (assignment inner).Local source s := by
  refine (local_conditional h).bind fun _ => LocalRound.rounds fun n c hc => ?_
  exact .here_bind (.ite (fun hoperator => .step hc
    (not_isEnd_of_kind (kind_of_isOperatorIn hoperator) (by decide))
    ((local_conditional h _ _ hc.advance).bind fun _ _ _ _ _ => .pure _)) fun _ => .pure _)
    ne_nil_of_sealed

theorem local_branches (h : inner.Local source s) : (branches inner).Local source s :=
  (local_assignment h).bind fun _ n _ hc => .expectOperator_bind hc
    (fun _ => local_conditional h n _ hc.advance) fun _ => AtLeast.cons_self

end Reading

/-- At every nesting level the expressions in front of a seam are read the same. -/
theorem Enclosed.local_within (source : Text) (s : Seam) (levels : Nat) :
    (Enclosed.within levels).Local source s := by
  have hbrackets := Enclosed.bracketsInside_within source Token.Even
  have hreports := Enclosed.reports_within source none
  induction levels with
  | zero => exact ⟨hbrackets 0, hreports 0, fun _ _ _ => .fail _, fun _ _ _ => .fail _, fun _ _ _ => .fail _⟩
  | succ levels ih =>
      exact ⟨hbrackets _, hreports _, Reading.local_assignment ih, Reading.local_branches ih,
        Reading.local_arrayInitializer ih⟩

end CodeFrames
