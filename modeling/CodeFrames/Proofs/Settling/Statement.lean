import CodeFrames.Proofs.Brackets
import CodeFrames.Proofs.Settling
import CodeFrames.Proofs.Skipping.Shapes

/-!
# How statements end

Every statement and every member that is read ends in a semicolon or in a closing bracket, and so does
every one that is stepped over.  So a number and a dot at the end of it are not taken for one number,
whatever follows.
-/

namespace CodeFrames

namespace Reading

open Settles

variable {source : Text} {inner : Enclosed}

/-- A loop ends where its last round ends. -/
theorem settles_rounds {body : Reading Bool}
    (hpasses : ∀ c events d, c.Sited source → body c = (events, .ok (true, d)) → c.Passes d)
    (hlast : ∀ c events d, c.Sited source → body c = (events, .ok (false, d)) → d.Settled) :
    (repeatWhile body).Settles source := by
  intro c hc events u d hrun
  obtain ⟨e, last, he, -, hend⟩ := exists_last_round (fun c events d (hc : c.Sited source) h =>
    have hpass := hpasses c events d hc h
    ⟨hpass, hc.reaching hpass.reaches⟩) hc hrun
  exact hlast e last d he hend

/-! ## Statements that are stepped over -/

theorem settles_skipToSemicolon : skipToSemicolon.Settles source := by
  refine settles_rounds (fun c events d hc h => passes_semicolonRound hc.laid h) fun c events d hc h => ?_
  change semicolonRound c.here c = _ at h
  cases hkind : c.here.kind <;> simp only [semicolonRound, hkind] at h
  case semicolon =>
    cases h
    exact settled_advance hc (not_isEnd_of_kind hkind (by decide)) (by rw [hkind]; decide)
  all_goals first | cases h | (obtain ⟨hfalse, -⟩ := exists_of_bind_pure h; cases hfalse)

theorem settles_skipWordAndGroup : skipWordAndGroup.Settles source :=
  behind .take fun _ => settles_skipGroup

theorem settles_skipTypeBody (word : Text) : (skipTypeBody word).Settles source :=
  behind (.rounds (Delivers.here.bind fun _ => .ite (.pure _) (.ite (.fail _) (Delivers.take.bind fun _ =>
    .pure _)))) fun _ => settles_skipGroup

theorem settles_skipTry : skipTry.Settles source := by
  have hround := Delivers.cursor.bind fun c : Cursor => Delivers.ite (p := c.isAtWord "catch" = true)
    (Delivers.skipWordAndGroup.bind fun _ => Delivers.skipGroup.bind fun _ => @Delivers.pure Bool source true)
    (.pure false)
  have hblocks := (@settles_skipGroup source).front .skipGroup fun _ => StaysSettled.bind (.rounds
    (fun c hc hsettled => SettlesAt.ite (p := c.isAtWord "catch" = true) (fun _ => .behind .skipWordAndGroup hc
      fun _ => settles_skipGroup.front .skipGroup fun _ => .pure true) fun _ => StaysSettled.pure false c hc hsettled)
    hround) (.rounds hround) fun _ c hc hsettled => SettlesAt.ite (p := c.isAtWord "finally" = true)
      (fun _ => settles_skipWordAndGroup c hc) fun _ => StaysSettled.pure () c hc hsettled
  exact behind .take fun _ => behind .cursor fun _ => ite (behind .skipGroup fun _ => hblocks) hblocks

theorem settles_skipNested (budget : List Token) : (skipNested budget).Settles source := by
  induction budget with
  | nil => exact settles_skipToSemicolon
  | cons t budget ih =>
      intro c hc
      refine .cursor_bind ?_
      cases hshape : skipShape c with
      | group => exact settles_skipGroup c hc
      | empty =>
          exact .bind (.take (by decide) (by decide) hc (kind_of_skipEmpty hshape)) .take hc fun _ => .pure ()
      | ifElse =>
          exact SettlesAt.behind .skipWordAndGroup hc fun _ => ih.front (.skipNested budget) fun _ c hc hsettled =>
            SettlesAt.ite (p := c.isAtWord "else" = true) (fun _ => .behind .take hc fun _ => ih)
              fun _ => StaysSettled.pure () c hc hsettled
      | loop => exact .behind .skipWordAndGroup hc fun _ => ih
      | headAndBlock => exact .behind .skipWordAndGroup hc fun _ => settles_skipGroup
      | doWhile =>
          exact .behind .take hc fun _ => behind (.skipNested budget) fun _ => behind .cursor fun _ =>
            ite (behind .skipWordAndGroup fun _ => settles_close (by decide) (by decide) fun _ => .pure ()) (.fail _)
      | tryCatch => exact settles_skipTry c hc
      | typeDeclaration word => exact settles_skipTypeBody word c hc
      | labelled => exact .behind (.forward 2) hc fun _ => ih
      | simple => exact settles_skipToSemicolon c hc

theorem settles_skipStatement : skipStatement.Settles source := fun c => settles_skipNested c.ahead c

/-! ## Statements that are read -/

theorem settles_semicolon : (do let _ ← semicolon : Reading Unit).Settles source :=
  settles_close (by decide) (by decide) fun _ => .pure ()

/-- The token behind the cursor is still there. -/
theorem stays_before {f : Token → Event} : (do emit (f (← before)) : Reading Unit).StaysSettled source :=
  fun c hc hsettled => StaysSettled.emit (f c.before) c hc hsettled

theorem settles_blockRest (h : inner.Delivers source) : (blockRest inner).Settles source := by
  intro c hc events u d hrun
  obtain ⟨first, v, e, more, hrounds, hclose, -⟩ := exists_of_bind_ok hrun
  obtain ⟨f, last, -, -, hlast⟩ := exists_last_round
    (fun c events d (hc : c.Sited source) hround => blockRound_true h hc hround) hc hrounds
  obtain ⟨⟨comments, hdelivers⟩, -⟩ := Delivers.rounds (.blockRound h) c first v e hc hrounds
  obtain ⟨later, htake, -⟩ := exists_of_reported hclose
  cases htake
  have hkind : e.relieved.here.kind = .closeBrace := (blockRound_false hlast :)
  exact settled_advance (hc.reaching hdelivers.reaches).relieved (not_isEnd_of_kind hkind (by decide))
    (by rw [hkind]; decide)

theorem settles_block (h : inner.Delivers source) : (block inner).Settles source :=
  behind (.expect _ _) fun _ => behind (.emit rfl rfl) fun _ => settles_blockRest h

section Inner

variable (h : inner.Settles source) (hstatement : inner.statement.Settles source)

include h hstatement

theorem settles_body : (body inner).Settles source :=
  behind .cursor fun _ => ite (settles_block h.delivers) (behind .here fun _ => behind (.emit rfl rfl) fun _ =>
    hstatement.front h.delivers.statement fun _ => stays_before)

theorem stays_furtherBranch : (furtherBranch inner).StaysSettled source := by
  have hbody (again : Bool) : (do
      body inner
      return again : Reading Bool).Settles source :=
    (settles_body h hstatement).front (.body h.delivers) fun _ => .pure again
  exact fun c hc hsettled => SettlesAt.ite (p := (!c.isAtWord "else") = true)
    (fun _ => StaysSettled.pure false c hc hsettled) fun _ => .ite (fun _ => .behind .take hc fun _ =>
      behind .take fun _ => behind (.emit rfl rfl) fun _ => behind (.condition h.delivers) fun _ => hbody true)
        fun _ => .behind .take hc fun _ => behind (.emit rfl rfl) fun _ => hbody false

theorem settles_statementOf (shape : StatementShape) {c : Cursor} (hc : c.Sited source)
    (hshape : statementShape c = shape) : (statementOf inner shape).SettlesAt c := by
  cases shape with
  | block => exact settles_block h.delivers c hc
  | empty => exact .bind (.take (by decide) (by decide) hc (kind_of_empty hshape)) .take hc fun _ => .emit _
  | ifChain =>
      exact .behind .take hc fun _ => behind (.emit rfl rfl) fun _ => behind (.condition h.delivers) fun _ =>
        (settles_body h hstatement).front (.body h.delivers) fun _ =>
          .bind (.rounds (stays_furtherBranch h hstatement) (.furtherBranch h.delivers))
            (.rounds (.furtherBranch h.delivers)) fun _ => stays_before
  | whileLoop =>
      exact .behind .take hc fun _ => behind (.emit rfl rfl) fun _ => behind (.condition h.delivers) fun _ =>
        (settles_body h hstatement).front (.body h.delivers) fun _ => stays_before
  | returned =>
      exact .behind .take hc fun _ => behind .cursor fun _ => behind (.emit rfl rfl) fun _ =>
        ite (behind (.expression h.delivers) fun _ => settles_semicolon) settles_semicolon
  | jump jump =>
      exact .behind .take hc fun _ => behind .label fun _ => behind (.emit rfl rfl) fun _ => settles_semicolon
  | thrown =>
      exact .behind .take hc fun _ => behind (.emit rfl rfl) fun _ => behind (.expression h.delivers) fun _ =>
        settles_semicolon
  | misplaced fault => exact .fail fault
  | unsupported construct =>
      exact .behind .here hc fun _ => behind (.emit rfl rfl) fun _ => settles_skipStatement
  | locals =>
      exact .behind .here hc fun _ => behind .modifiers fun _ => behind .typeName fun _ => behind (.emit rfl rfl)
        fun _ => behind (.rounds (.declarator h.delivers)) fun _ => settles_close (by decide) (by decide) fun _ => .emit _
  | expression =>
      exact .behind .here hc fun _ => behind (.emit rfl rfl) fun _ => behind (.expression h.delivers) fun _ =>
        settles_semicolon

theorem settles_statement : (statement inner).Settles source := by
  intro c hc events u d hrun
  obtain ⟨more, hmore, -⟩ := exists_of_reported ((congrFun (statement_eq_reported _) c).symm.trans hrun)
  exact settles_statementOf h hstatement _ hc.relieved rfl more u d hmore

end Inner

/-! ## Members -/

theorem settles_emitted {α : Type} {e : Event} {f : Unit → Reading α} (h : (f ()).Settles source) :
    (emit e >>= f).Settles source := by
  intro c hc events a d hrun
  obtain ⟨_, _, _, more, ⟨⟩, hmore, -⟩ := exists_of_bind_ok hrun
  exact h c hc more a d hmore

theorem settles_methodRest (h : inner.Delivers source) : (methodRest inner).Settles source := by
  refine behind .parameters fun _ => behind .throwsClause fun _ c hc => .cursor_bind (.ite (fun hat => ?_) fun _ => ?_)
  · exact .bind (.take (by decide) (by decide) hc (kind_of_isAt hat)) .take hc fun _ => .emit _
  · exact (settles_block h c hc).bind (Delivers.block h).delivers hc fun _ => stays_before

theorem settles_method (h : inner.Delivers source) : (method inner).Settles source := by
  rw [method_eq]
  exact behind .here fun _ => behind .modifiers fun _ => behind .typeParameters fun _ => behind .typeName fun _ =>
    behind .expectName fun _ => settles_emitted (settles_methodRest h)

theorem settles_delegateCall (h : inner.Delivers source) : (delegateCall inner).Settles source :=
  behind .here fun _ => settles_emitted (settles_emitted (settles_emitted (behind .take fun _ =>
    behind (.arguments h) fun _ => behind .before fun _ => settles_emitted settles_semicolon)))

theorem settles_constructor (h : inner.Delivers source) : (constructor inner).Settles source := by
  have hrest : (do
      blockRest inner
      emit (.closeDeclaration (← before).toSpan true) : Reading Unit).Settles source :=
    (settles_blockRest h).front (Delivers.blockRest h).1 fun _ => stays_before
  have hbody : (reportComments >>= fun _ => constructorBody inner).Settles source := by
    intro c hc events u d hrun
    obtain ⟨more, hmore, -⟩ := exists_of_reported hrun
    exact behind .cursor (fun _ => ite (behind (delivers_delegateCall h) fun _ => hrest) hrest) _ hc.relieved
      more u d hmore
  exact behind .here fun _ => behind .modifiers fun _ => behind .expectName fun _ => settles_emitted
    (behind .parameters fun _ => behind .throwsClause fun _ => behind (.expect _ _) fun _ =>
      behind (.emit rfl rfl) fun _ => hbody)

theorem settles_member (h : inner.Delivers source) (hstatement : inner.statement.Settles source) :
    (member inner).Settles source := by
  refine behind .cursor fun c => ?_
  cases memberShape c with
  | directive word => exact behind .here fun _ => behind (.emit rfl rfl) fun _ => settles_skipToSemicolon
  | unsupported construct head skipped =>
      exact behind .cursor fun _ => behind (.emit rfl rfl) fun _ => behind (.forward _) fun _ => settles_skipStatement
  | constructor => exact settles_constructor h
  | method => exact settles_method h
  | statement => exact hstatement

end Reading

theorem Enclosed.settles_statement (source : Text) (levels : Nat) :
    (Enclosed.within levels).statement.Settles source := by
  induction levels with
  | zero => exact .fail _
  | succ levels ih => exact Reading.settles_statement (settles_within source levels) ih

end CodeFrames
