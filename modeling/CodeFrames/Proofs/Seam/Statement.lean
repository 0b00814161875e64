import CodeFrames.Proofs.Brackets
import CodeFrames.Proofs.Seam.Skip

/-!
# Statements in front of a seam

What ends a statement stands in front of the seam, so a statement is read the same whatever follows,
and so is a block.
-/

namespace CodeFrames

open Token (AtLeast Growing Marked Modified Past Sealed)

/-- What is asked of all productions one nesting level deeper. -/
structure Enclosed.LocalInside (source : Text) (s : Seam) (inner : Enclosed) : Prop
    extends inner.Local source s where
  statement (c : Cursor) : c.Sited source → inner.statement.LocalAt s Marked Reading.Anything c
  delivers : inner.Delivers source

namespace Reading

variable {α β : Type} {source : Text} {s : Seam} {P : List Token → Prop} {Q : α → List Token → Prop}
  {R : List Token → Prop} {c : Cursor} {inner : Enclosed} {n : Nat}

namespace LocalAt

variable {S : β → List Token → Prop}

theorem comments_bind {f : Unit → Reading β} (hf : (f ()).LocalAt s P S c.relieved)
    (hne : ∀ ps, P ps → ps ≠ []) : (reportComments >>= f).LocalAt s P S c := by
  intro events a d hrun
  obtain ⟨more, hmore, rfl⟩ := exists_of_reported hrun
  obtain ⟨hreaches, hlocal⟩ := hf more a d hmore
  refine ⟨hreaches, fun qs hqs hend => ?_⟩
  obtain ⟨ps, htokens, hstart, hsame⟩ := hlocal qs hqs hend
  refine ⟨ps, htokens, hstart, fun c' hc' => ?_⟩
  obtain ⟨hdue, hat⟩ := hc'.relieved (hne ps hstart)
  obtain ⟨d', hd', hat'⟩ := hsame _ hat
  exact ⟨d', by rw [bind_of_ok f c'.reportComments_eq, hd', hdue], hat'⟩

/-- A reading that steps over a token. -/
theorem moving [Growing R] {r : Reading α} (h : r.LocalAt s P Anything c)
    (hpasses : ∀ events a d, r c = (events, .ok (a, d)) → c.Passes d) :
    r.LocalAt s (fun ps => P ps ∧ AtLeast n R ps) (fun _ => AtLeast (n - 1) R) c := by
  intro events a d hrun
  obtain ⟨hreaches, hlocal⟩ := h events a d hrun
  refine ⟨hreaches, fun qs hqs hend => ?_⟩
  obtain ⟨ps, htokens, hstart, hsame⟩ := hlocal qs hqs trivial
  refine ⟨ps, htokens, ⟨hstart, ?_⟩, hsame⟩
  obtain ⟨passed, hne, hpassed, -⟩ := hpasses events a d hrun
  rw [htokens, hqs, ← List.append_assoc] at hpassed
  rw [List.append_cancel_right hpassed]
  exact hend.append_left_of_ne_nil hne

end LocalAt

/-- Where only the end is of interest, and not how many tokens are left. -/
theorem Local.at {r : Reading α} (h : r.Local source s) (hc : c.Sited source) :
    r.LocalAt s Sealed (fun _ => Sealed) c :=
  (h 0 c hc).imp (fun _ hps => hps.2) fun _ _ hqs => ⟨Nat.zero_le _, hqs⟩

/-- What is read behind it follows in front of the same end. -/
theorem Local.followed {r : Reading α} {f : α → Reading β} {S : β → List Token → Prop}
    (h : r.Local source s) (hc : c.Sited source)
    (hf : ∀ a d, d.Sited source → (f a).LocalAt s Sealed S d) : (r >>= f).LocalAt s Sealed S c :=
  (h.at hc).bind fun _ a d _ hreaches => hf a d (hc.reaching hreaches)

theorem Local.of_at {r : Reading α} (h : ∀ c, c.Sited source → r.LocalAt s Sealed (fun _ => Sealed) c) :
    r.Local source s := fun n c hc =>
  ((h c hc).frame (R := AtLeast n Sealed)).imp (fun _ hps => hps.2) fun _ _ hqs => ⟨hqs.2, hqs⟩

/-! ## Blocks and bodies -/

theorem localRound_block (h : inner.LocalInside source s) :
    LocalRound source s Sealed Sealed (blockRound inner) := by
  refine fun n c hc => .here_bind (.ite (fun _ => .pure _) fun _ => .ite (fun _ => ?_) fun _ => ?_)
    ne_nil_of_sealed
  · exact .of_error (e := ⟨c.here.line, .unclosedBlock⟩) rfl
  · have hmoving := ((h.statement c hc).moving (n := n) (R := Sealed) fun events a d hrun =>
      h.delivers.moves c events a d hc hrun).start fun _ hps => hps.2
    exact hmoving.bind fun _ _ _ _ _ => .pure true

theorem blockRest_local (h : inner.LocalInside source s) (hc : c.Sited source) :
    (blockRest inner).LocalAt s Sealed Anything c := by
  refine (((localRound_block h).rounds 0 c hc).bind fun events u d hrun hreaches => ?_).start
    fun _ hps => hps.2
  obtain ⟨e, last, -, -, hlast⟩ := exists_last_round
    (fun c events d hc hrun => blockRound_true h.delivers hc hrun) hc hrun
  have hkind := blockRound_false hlast
  have hd : d.relieved.Sited source := (hc.reaching hreaches).relieved
  refine (LocalAt.comments_bind (P := Sealed) ?_ fun _ => Sealed.ne_nil).start fun ps hps =>
    ⟨Nat.zero_le _, hps⟩
  exact .take_bind hd (not_isEnd_of_kind hkind (by decide)) (.emit _) fun us _ =>
    .here (by rw [show d.relieved.here.kind = _ from hkind]; decide)

theorem block_local (h : inner.LocalInside source s) (hc : c.Sited source) :
    (block inner).LocalAt s Sealed Anything c :=
  .expect_bind hc (by decide) (fun _ => .emit_bind (blockRest_local h hc.advance)) fun _ _ => .cons

theorem body_local (h : inner.LocalInside source s) (hc : c.Sited source) :
    (body inner).LocalAt s Marked Anything c := by
  refine .cursor_bind (.ite (fun _ => (block_local h hc).start fun _ => Sealed.marked) fun _ => ?_)
    fun ps c' hps hc' => by rw [hc'.isAt_eq hps.ne_nil]
  exact .here_bind (.emit_bind ((h.statement c hc).bind fun _ _ _ _ _ => .before_bind (.emit _)))
    fun _ => Marked.ne_nil

theorem condition_local (h : inner.LocalInside source s) (hc : c.Sited source) :
    (condition inner).LocalAt s Sealed Anything c :=
  .expect_bind hc (by decide) (fun _ => ((local_expression h.toLocal).at hc.advance).bind
    fun _ _ _ _ hreaches => .expect_bind (hc.advance.reaching hreaches) (by decide) (fun _ => .pure ())
      fun _ hkind _ => .here (by rw [hkind]; decide)) fun _ _ => .cons

/-! ## Branches and loops -/

/-- A condition and what it decides on. -/
theorem branch_local [Growing R] (h : inner.LocalInside source s) {f : Unit → Reading α}
    (hc : c.Sited source) (hf : ∀ d, d.Sited source → (f ()).LocalAt s R Q d) :
    (do
      condition inner
      body inner
      f () : Reading α).LocalAt s (fun ps => Sealed ps ∧ R ps) Q c := by
  refine ((condition_local h hc).frame (R := R)).bind fun _ _ d _ hreaches => ?_
  have hd := hc.reaching hreaches
  refine LocalAt.start (((body_local h hd).frame (R := R)).bind fun _ _ e _ hreaches =>
    (hf e (hd.reaching hreaches)).start fun _ hps => ⟨trivial, hps⟩) fun ps hps => ⟨trivial, hps.2⟩

theorem localRound_furtherBranch (h : inner.LocalInside source s) :
    LocalRound source s (fun _ => True) (fun _ => True) (furtherBranch inner) := by
  intro n c hc
  refine (LocalAt.cursor_bind (P := fun ps => AtLeast n (fun _ => True) ps ∧
    (c.isAtWord "else" = true → 2 ≤ ps.length)) (.ite (fun helse => ?_) fun helse => ?_)
    fun ps c' hps hc' => ?_).start fun _ hps => hps.1
  · exact (LocalAt.pure false).start fun ps hps => ⟨hps, fun hat => by simp [hat] at helse⟩
  · have hkind : c.here.kind = .word := kind_of_isWord (by simpa [Cursor.isAtWord] using helse)
    have hcode := not_isEnd_of_kind hkind (by decide)
    have hadvance := hc.advance
    refine .ite (fun hnext => ?_) fun _ => ?_
    · have hif : ¬ c.advance.here.isEnd := by
        refine not_isEnd_of_kind (show _ = .word from ?_) (by decide)
        obtain ⟨before, here, ahead, comments⟩ := c
        cases ahead with
        | nil => cases hnext
        | cons t ts => exact kind_of_isWord hnext
      have hbranch := branch_local (R := AtLeast (n - 1) fun _ => True) h hadvance.advance
        (f := fun _ => Pure.pure true) (Q := Left n (fun _ => True) fun _ => True) fun _ _ => .pure true
      refine .take_bind hc hcode (.take_bind (T := fun ps => AtLeast (n - 1) (fun _ => True) ps ∧ ps ≠ [])
        hadvance hif (.emit_bind hbranch) fun us hus => ⟨hus.2.cons_self, List.cons_ne_nil _ _⟩) fun us hus =>
          ⟨hus.1.cons, fun _ => Nat.succ_le_succ (List.length_pos_of_ne_nil hus.2)⟩
    · have hbody : (do
          body inner
          return false : Reading Bool).LocalAt s (fun ps => Marked ps ∧ AtLeast n (fun _ => True) ps)
            (Left n (fun _ => True) fun _ => True) c.advance :=
        ((body_local h hadvance).frame (R := AtLeast n fun _ => True)).bind fun _ _ _ _ _ =>
          (LocalAt.pure false).start fun _ hps => ⟨trivial, hps⟩
      exact .take_bind hc hcode (.emit_bind hbody) fun us hus => ⟨hus.2.cons_self, fun _ =>
        Nat.succ_le_succ (List.length_pos_of_ne_nil hus.1.ne_nil)⟩
  · have hword := hc'.isAtWord_of_word (w := "else") (by decide) fun hat =>
      List.ne_nil_of_length_pos (Nat.lt_of_lt_of_le Nat.two_pos (hps.2 hat))
    rw [hword]
    cases hat : c.isAtWord "else" with
    | false => rfl
    | true => rw [hc'.nextIs_eq (hps.2 hat)]

/-- Past the word that opens a statement. -/
theorem marked_of_take {f : Token → Reading β} {S : β → List Token → Prop} (hc : c.Sited source)
    (hkind : c.here.kind = .word) (hf : (f c.here).LocalAt s Sealed S c.advance) :
    (take >>= f).LocalAt s Marked S c :=
  .take_marked hc (not_isEnd_of_kind hkind (by decide)) (hf.start fun _ => Sealed.marked)

theorem ifChain_local (h : inner.LocalInside source s) (hc : c.Sited source)
    (hkind : c.here.kind = .word) : (ifChain inner).LocalAt s Marked Anything c := by
  have hrest (d : Cursor) (hd : d.Sited source) : (do
      repeatWhile (furtherBranch inner)
      emit (.closeIf (← before).toSpan) : Reading Unit).LocalAt s (fun _ => True) Anything d :=
    (((localRound_furtherBranch h).rounds 0 d hd).bind fun _ _ _ _ _ => .before_bind
      ((LocalAt.emit (Q := Anything) _).start fun _ _ => ⟨Nat.zero_le _, trivial⟩)).start fun _ _ => trivial
  exact marked_of_take hc hkind (.emit_bind ((branch_local h (f := fun _ => _) hc.advance hrest).start
    fun _ hps => hps.1))

theorem whileLoop_local (h : inner.LocalInside source s) (hc : c.Sited source)
    (hkind : c.here.kind = .word) : (whileLoop inner).LocalAt s Marked Anything c := by
  have hrest (d : Cursor) (_ : d.Sited source) : (do
      emit (.closeWhile (← before).toSpan) : Reading Unit).LocalAt s (fun _ => True) Anything d :=
    .before_bind (.emit _)
  exact marked_of_take hc hkind (.emit_bind ((branch_local h (f := fun _ => _) hc.advance hrest).start
    fun _ hps => hps.1))

/-! ## Simple statements -/

theorem semicolon_local {f : Token → Reading Unit} (hc : c.Sited source)
    (hf : ∀ t d, (f t).LocalAt s (fun _ => True) Anything d) :
    (semicolon >>= f).LocalAt s Sealed Anything c :=
  .expect_bind hc (by decide) (fun _ => hf _ _) fun _ hkind _ => .here (by rw [hkind]; decide)

theorem value_local (h : inner.LocalInside source s) (hc : c.Sited source) :
    (do
      expression inner
      let _ ← semicolon : Reading Unit).LocalAt s Sealed Anything c :=
  (local_expression h.toLocal).followed hc fun _ _ hd => semicolon_local hd fun _ _ => .pure ()

theorem returned_local (h : inner.LocalInside source s) (hc : c.Sited source)
    (hkind : c.here.kind = .word) : (returned inner).LocalAt s Marked Anything c := by
  have hadvance := hc.advance
  refine marked_of_take hc hkind (.cursor_bind (.emit_bind (.ite (fun _ => value_local h hadvance)
    fun _ => semicolon_local hadvance fun _ _ => .pure ())) fun ps c' hps hc' => ?_)
  rw [hc'.isAt_eq hps.ne_nil]

theorem local_label : label.Local source s := fun _ _ hc =>
  .here_bind (.ite (fun _ => .expectName_bind hc (fun _ => .pure _) fun _ _ => AtLeast.cons_self)
    fun _ => .pure _) ne_nil_of_sealed

theorem jumped_local (jump : Jump) (hc : c.Sited source) (hkind : c.here.kind = .word) :
    (jumped jump).LocalAt s Marked Anything c :=
  marked_of_take hc hkind (local_label.followed hc.advance fun _ _ hd =>
    .emit_bind (semicolon_local hd fun _ _ => .pure ()))

theorem thrown_local (h : inner.LocalInside source s) (hc : c.Sited source)
    (hkind : c.here.kind = .word) : (thrown inner).LocalAt s Marked Anything c :=
  marked_of_take hc hkind (.emit_bind (value_local h hc.advance))

theorem expressionStatement_local (h : inner.LocalInside source s) (hc : c.Sited source) :
    (expressionStatement inner).LocalAt s Sealed Anything c :=
  .here_bind (.emit_bind (value_local h hc)) fun _ => Sealed.ne_nil

/-! ## Variables -/

/-- What the modifiers belong to ends in front of the seam, so that no more is needed to tell them. -/
theorem modifiers_local (hc : c.Sited source) (hR : ∀ us, R us → Modified us) :
    Reading.modifiers.LocalAt s (Past c.modifierCount R) (fun _ => R) c := by
  intro events spans d hrun
  obtain ⟨rfl, hrun⟩ := Prod.mk.injEq .. |>.mp (show (([] : List Event),
    Except.ok (Token.spansOf (Token.modifierLengths c.tokens) c.tokens,
      c.forward c.modifierCount)) = (events, .ok (spans, d)) from hrun)
  obtain ⟨rfl, rfl⟩ := by simpa using hrun
  have hcode : ∀ t ∈ c.tokens.take c.modifierCount, ¬ t.isEnd := Token.not_isEnd_of_modifiers c.tokens
  refine ⟨Cursor.reaches_forward _ c, fun qs hqs hend => ?_⟩
  rw [Cursor.tokens_forward hc.laid hcode] at hqs
  have hhalts : Token.Halts qs := (hR qs hend).1.halts (show Token.modifierLength (qs ++ s.rest) = 0 by
    rw [← hqs]
    exact Token.modifierLength_drop c.tokens)
  let ps := c.tokens.take c.modifierCount
  have hlength : ps.length = c.modifierCount :=
    List.length_take_of_le (hc.laid.lt_length hcode).le
  have htokens : c.tokens = (ps ++ qs) ++ s.rest := by
    rw [List.append_assoc, ← hqs, List.take_append_drop]
  refine ⟨ps ++ qs, htokens, ⟨ps, qs, rfl, hlength, hend⟩, fun c' hc' => ?_⟩
  have hlengths : Token.modifierLengths c'.tokens = Token.modifierLengths c.tokens := by
    rw [hc'.tokens', hc'.tokens]
    exact (Token.modifierLengths_eq hhalts (fun _ => (hR qs hend).2) (by rw [← htokens, hlength]; rfl)).symm
  have hcount : c'.modifierCount = c.modifierCount := by
    rw [Cursor.modifierCount, hlengths, Cursor.modifierCount]
  have hforward := hc'.forward
  rw [hlength] at hforward
  refine ⟨_, ?_, hforward⟩
  change (([] : List Event), Except.ok (Token.spansOf (Token.modifierLengths c'.tokens) c'.tokens,
    c'.forward c'.modifierCount)) = _
  have hle : c.modifierCount ≤ (ps ++ qs).length := by
    rw [List.length_append, hlength]
    exact Nat.le_add_right _ _
  have hspans (us : List Token) : Token.spansOf (Token.modifierLengths c.tokens) (ps ++ qs ++ us) =
      Token.spansOf (Token.modifierLengths c.tokens) (ps ++ qs) := Token.spansOf_append _ hle us
  rw [hcount, hlengths, hc'.tokens', hspans, ← hspans s.rest, ← htokens]

theorem modifiers_bind {f : List Span → Reading α} (hc : c.Sited source) (hR : ∀ us, R us → Modified us)
    (hf : ∀ spans d, d.Sited source → (f spans).LocalAt s R Q d) :
    (Reading.modifiers >>= f).LocalAt s (Past c.modifierCount R) Q c :=
  (modifiers_local hc hR).bind fun _ spans d _ hreaches => hf spans d (hc.reaching hreaches)

theorem LocalAt.modified {r : Reading α} (h : r.LocalAt s Sealed Q c)
    (hparen : c.here.kind = .openParen → ∃ e, (r c).2 = .error e) : r.LocalAt s Modified Q c := by
  refine h.start_of_run fun events a d ps qs hrun htokens _ hsealed _ => ⟨hsealed, fun t ht hopen => ?_⟩
  obtain ⟨us, rfl⟩ := List.head?_eq_some_iff.mp ht
  obtain ⟨e, he⟩ := hparen (by rw [show c.here = t from (List.cons.inj htokens).1, hopen])
  rw [hrun] at he
  cases he

/-- A type opens with no parenthesis. -/
theorem typeName_refuses {f : Unit → Reading α} (hparen : c.here.kind = .openParen) :
    ∃ e, ((Reading.typeName >>= f) c).2 = .error e := by
  have hnone : Token.typeLength? c.tokens = none := by
    simp [Cursor.tokens, Token.typeLength?, Token.typeNameLength?, Token.opensType, Token.isPrimitive,
      Token.isWordIn, Token.isName, Token.isAnyWord, hparen]
  have hfails : Reading.typeName c = ([], .error ⟨c.here.line, .expected .typeName c.here.found⟩) := by
    rw [Reading.typeName, Reading.cursor_bind, hnone]
    rfl
  exact ⟨_, congrArg Prod.snd (bind_of_error f hfails)⟩

theorem typeName_modified {f : Unit → Reading α} (hc : c.Sited source)
    (hf : ∀ d, d.Sited source → (f ()).LocalAt s Sealed Q d) :
    (Reading.typeName >>= f).LocalAt s Modified Q c :=
  (local_typeName.followed hc fun _ => hf).modified typeName_refuses

theorem local_variableValue (h : inner.LocalInside source s) : (variableValue inner).Local source s :=
  fun n c hc => .here_bind (.ite (fun _ => .emit_bind ((local_arrayInitializer h.toLocal n c hc).bind
    fun _ _ _ _ _ => .before_bind (.emit _))) fun _ => local_expression h.toLocal n c hc) ne_nil_of_sealed

theorem localRound_declarator (h : inner.LocalInside source s) :
    LocalRound source s Sealed Sealed (declarator inner) := by
  intro n c hc
  have hadvance := hc.advance
  refine .expectName_bind (P := AtLeast n Sealed) hc (fun _ => .cursor_bind ?_ fun ps c' hps hc' => ?_)
    fun _ _ => AtLeast.cons_self
  · refine .ite (fun _ => ?_) fun _ => .emit_bind (.ite (fun hvalue => ?_) fun _ => local_comma hadvance)
    · exact .of_error (e := ⟨c.advance.here.line, .dimensionsAfterName⟩) rfl
    · refine .take_bind (P := AtLeast n Sealed) hadvance
        (not_isEnd_of_kind (kind_of_isOperator hvalue) (by decide))
        ((local_variableValue h n _ hadvance.advance).bind fun _ _ _ _ hreaches =>
          local_comma (hadvance.advance.reaching hreaches)) fun _ => AtLeast.cons_self
  · rw [hc'.isAt_eq hps.2.ne_nil, hc'.isAtOperator_eq hps.2.ne_nil]

theorem localVariables_local (h : inner.LocalInside source s) (hc : c.Sited source) :
    (localVariables inner).LocalAt s (Past c.modifierCount Modified) Anything c := by
  have hdeclarators : (repeatWhile (declarator inner)).Local source s := (localRound_declarator h).rounds
  refine .here_bind (modifiers_bind hc (fun _ => id) fun spans d hd => ?_) fun _ hps => hps.sealed.ne_nil
  exact typeName_modified hd fun e he => .emit_bind
    (hdeclarators.followed he fun _ f hf => semicolon_local hf fun _ _ => .emit _)

/-! ## Statements -/

theorem unsupported_local (construct : String) (hc : c.Sited source) :
    (unsupported construct).LocalAt s Marked Anything c :=
  .here_bind (.emit_bind (skipStatement_local hc)) fun _ => Marked.ne_nil

/-- What has to be in front of the seam when a statement of the shape is read, with so many tokens of
modifiers. -/
def startOf (m : Nat) : StatementShape → List Token → Prop
  | .locals => Past m Modified
  | .expression => Sealed
  | _ => Marked

theorem marked_of_startOf {m : Nat} {shape : StatementShape} {ps : List Token} (h : startOf m shape ps) :
    Marked ps := by
  cases shape <;> first | exact h | exact Sealed.marked h | exact Sealed.marked (Past.sealed h)

theorem statementOf_local (h : inner.LocalInside source s) (hc : c.Sited source) :
    (statementOf inner (statementShape c)).LocalAt s (startOf c.modifierCount (statementShape c)) Anything c := by
  have hword := @kind_of_statementShape c _ rfl
  cases hshape : statementShape c with
  | block => exact (block_local h hc).start fun _ => Sealed.marked
  | empty =>
      have hkind := kind_of_empty hshape
      exact .take_bind (P := fun _ => True) hc (not_isEnd_of_kind hkind (by decide)) (.emit _) fun _ _ =>
        Token.marked_cons (by simp [hkind])
  | ifChain => exact ifChain_local h hc (hword (by simp [hshape]))
  | whileLoop => exact whileLoop_local h hc (hword (by simp [hshape]))
  | returned => exact returned_local h hc (hword (by simp [hshape]))
  | jump jump => exact jumped_local jump hc (hword (by simp [hshape]))
  | thrown => exact thrown_local h hc (hword (by simp [hshape]))
  | misplaced fault => exact .fail _
  | unsupported construct => exact unsupported_local construct hc
  | locals => exact localVariables_local h hc
  | expression => exact expressionStatement_local h hc

end Reading

namespace Seam.At

variable {s : Seam} {ps : List Token} {c c' : Cursor}

theorem opensVariables_eq (h : s.At ps c c') (hps : Sealed ps) :
    Reading.opensVariables c' = Reading.opensVariables c := by
  rw [Reading.opensVariables, Reading.opensVariables, h.tokens, h.tokens',
    hps.isEmpty_modifierLengths s.rest' s.rest, hps.guarded.declaresVariable_eq s.rest' s.rest]

/-- Variables and expressions are told by what is in front of their ends, everything else by one or two
tokens. -/
theorem statementShape_eq (h : s.At ps c c')
    {m : Nat} (hps : Reading.startOf m (Reading.statementShape c) ps) :
    Reading.statementShape c' = Reading.statementShape c := by
  have hmarked := Reading.marked_of_startOf hps
  have hhere := h.here_eq hmarked.ne_nil
  cases hkind : c.here.kind with
  | word =>
      have hnext := h.nextIs_of_marked hmarked hkind
      have hlabel : Reading.isLabel c' = Reading.isLabel c := by
        rw [Reading.isLabel, Reading.isLabel, hhere, hnext]
      rw [Reading.statementShape, hkind] at hps
      rw [Reading.statementShape, Reading.statementShape, hhere, hkind]
      simp only [Reading.wordStatementShape, hhere, hnext, hlabel] at hps ⊢
      split
      · rfl
      · next hlookup =>
          split
          · rfl
          · next htype =>
              split
              · rfl
              · next hnot =>
                  have hsealed : Sealed ps := by
                    simp only [hlookup, htype, hnot, if_false, Bool.false_eq_true] at hps
                    split at hps
                    · exact hps.sealed
                    · exact hps
                  rw [h.opensVariables_eq hsealed]
  | _ => rw [Reading.statementShape, Reading.statementShape, hhere, hkind]

end Seam.At

namespace Reading

variable {source : Text} {s : Seam} {c : Cursor} {inner : Enclosed}

theorem statement_localAt (h : inner.LocalInside source s) (hc : c.Sited source) :
    (statement inner).LocalAt s (startOf c.modifierCount (statementShape c)) Anything c := by
  rw [statement_eq_reported]
  refine .comments_bind (.cursor_bind (statementOf_local h hc.relieved) fun ps c' hps hc' => ?_)
    fun _ hps => (marked_of_startOf hps).ne_nil
  rw [hc'.statementShape_eq hps]

theorem statement_local (h : inner.LocalInside source s) (hc : c.Sited source) :
    (statement inner).LocalAt s Marked Anything c :=
  (statement_localAt h hc).start fun _ => marked_of_startOf

end Reading

theorem Enclosed.localInside_within (source : Text) (s : Seam) (levels : Nat) :
    (Enclosed.within levels).LocalInside source s := by
  have hinside := Enclosed.local_within source s
  have hdelivers := Enclosed.delivers_within source
  induction levels with
  | zero => exact ⟨hinside 0, fun _ _ => .fail _, hdelivers 0⟩
  | succ levels ih =>
      exact ⟨hinside (levels + 1), fun _ => Reading.statement_local ih, hdelivers (levels + 1)⟩

end CodeFrames
