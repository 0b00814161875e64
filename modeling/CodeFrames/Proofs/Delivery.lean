import Mathlib.Data.List.TakeWhile
import CodeFrames.Proofs.Pending
import CodeFrames.Proofs.Progress

/-!
# The delivery of comments

Comments wait at the cursor and are reported between statements.  Whatever is read, the comments that
were waiting are those that have been reported, in order, and those that still wait; and what a
statement or a block has reported starts before the last token it stepped over.  So a comment behind
that token is still waiting.
-/

namespace CodeFrames

open scoped Computability
open Sentence

namespace Cursor

variable {source : Text} {c d e : Cursor} {comments more : List Token} {events later : List Event}

/-- The tokens ahead lie in the source, and none of them before the one behind the cursor. -/
structure Sited (source : Text) (c : Cursor) : Prop where
  laid : Token.Laid source c.tokens
  behind : ∀ t ∈ c.tokens, c.before.start ≤ t.start

theorem Reaches.sited (h : c.Reaches d) (hc : c.Sited source) :
    d.Sited source ∧ c.before.start ≤ d.before.start := by
  refine ⟨⟨h.laid hc.laid, ?_⟩, ?_⟩
  all_goals
    obtain ⟨passed, htokens, hbefore⟩ := h
    rcases List.eq_nil_or_concat passed with rfl | ⟨passed, last, rfl⟩
  · intro t ht
    rw [hbefore]
    exact hc.behind t (by simpa [htokens] using ht)
  · intro t ht
    have hordered := hc.laid.ordered
    have hlies := hc.laid.liesIn last (by simp [htokens])
    rw [htokens, List.pairwise_append] at hordered
    have := hordered.2.2 last (by simp) t ht
    have := hlies.start_le_stop
    rw [hbefore, List.concat_eq_append, List.getLastD_concat]
    omega
  · rw [hbefore]
    exact le_rfl
  · rw [hbefore]
    simpa using hc.behind last (by simp [htokens])

/-- The cursor has stepped over the token that it was at. -/
theorem Passes.start_le (h : c.Passes d) (hc : c.Sited source) : c.here.start ≤ d.before.start := by
  obtain ⟨passed, hne, htokens, hbefore⟩ := h
  obtain ⟨t, passed, rfl⟩ := List.exists_cons_of_ne_nil hne
  obtain ⟨rfl, hahead⟩ := by simpa [Cursor.tokens] using htokens
  rw [List.getLastD_cons] at hbefore
  rcases List.eq_nil_or_concat passed with rfl | ⟨passed, last, rfl⟩
  · exact (congrArg (·.start) hbefore).ge
  · have hordered := hc.laid.ordered
    rw [Cursor.tokens, List.pairwise_cons] at hordered
    have := hordered.1 last (by simp [hahead])
    have := (hc.laid.liesIn c.here (by simp [Cursor.tokens])).start_le_stop
    rw [hbefore, List.concat_eq_append, List.getLastD_concat]
    omega

theorem sited_of_ofTokens {tokens : List Token} (h : Token.Laid source tokens)
    (hc : ofTokens tokens = some c) : c.Sited source := by
  have hlaid := laid_of_ofTokens h hc
  unfold ofTokens at hc
  split at hc
  · cases hc
  · next here ahead hcode =>
      cases hc
      refine ⟨hlaid, fun t ht => ?_⟩
      rcases List.mem_cons.mp ht with rfl | ht
      · exact le_rfl
      · exact (hlaid.liesIn here List.mem_cons_self).start_le_stop.trans
          ((List.pairwise_cons.mp hlaid.ordered).1 t ht)

/-- The comments that are reported between two cursors.  Each starts before the token that was stepped
over last. -/
structure Delivers (c : Cursor) (comments : List Token) (events : List Event) (d : Cursor) : Prop where
  reaches : c.Reaches d
  comments_eq : c.comments = comments ++ d.comments
  spans_eq : events.filterMap Event.comment? = comments.map Token.toSpan
  passed : ∀ t ∈ comments, t.start < d.before.start

theorem Delivers.trans (hc : c.Sited source) (h : c.Delivers comments events d)
    (g : d.Delivers more later e) : c.Delivers (comments ++ more) (events ++ later) e where
  reaches := h.reaches.trans g.reaches
  comments_eq := by rw [h.comments_eq, g.comments_eq, List.append_assoc]
  spans_eq := by rw [List.filterMap_append, h.spans_eq, g.spans_eq, List.map_append]
  passed := by
    intro t ht
    rcases List.mem_append.mp ht with ht | ht
    · exact (h.passed t ht).trans_le (g.reaches.sited (h.reaches.sited hc).1).2
    · exact g.passed t ht

theorem Delivers.of_reaches (h : c.Reaches d) (hcomments : d.comments = c.comments)
    (hevents : events.filterMap Event.comment? = []) : c.Delivers [] events d :=
  ⟨h, by simp [hcomments], by simpa using hevents, by simp⟩

end Cursor

namespace Reading

variable {α β : Type} {source : Text}

/-- The reading delivers comments. -/
def Carries (source : Text) (r : Reading α) : Prop :=
  ∀ (c : Cursor) (events : List Event) (a : α) (d : Cursor), c.Sited source →
    r c = (events, .ok (a, d)) → ∃ comments, c.Delivers comments events d

/-- The reading delivers comments and neither begins nor ends a declaration. -/
def Delivers (source : Text) (r : Reading α) : Prop :=
  ∀ (c : Cursor) (events : List Event) (a : α) (d : Cursor), c.Sited source →
    r c = (events, .ok (a, d)) →
      (∃ comments, c.Delivers comments events d) ∧ ∀ e ∈ events, e.declares = false

theorem Delivers.carries {r : Reading α} (h : r.Delivers source) : r.Carries source :=
  fun c events a d hc hrun => (h c events a d hc hrun).1

theorem Carries.sited {r : Reading α} (h : r.Carries source) {c d : Cursor} {events : List Event}
    {a : α} (hc : c.Sited source) (hrun : r c = (events, .ok (a, d))) : d.Sited source := by
  obtain ⟨comments, hdelivers⟩ := h c events a d hc hrun
  exact (hdelivers.reaches.sited hc).1

/-- Every successful run of the reading steps over a token. -/
def Moves (source : Text) (r : Reading α) : Prop :=
  ∀ (c : Cursor) (events : List Event) (a : α) (d : Cursor), c.Sited source →
    r c = (events, .ok (a, d)) → c.Passes d

end Reading

namespace Reading.Delivers

variable {α β : Type} {source : Text} {r : Reading α} {f : α → Reading β}

theorem bind (h : r.Delivers source) (hf : ∀ a, (f a).Delivers source) :
    (r >>= f).Delivers source := by
  intro c events b e hc hrun
  obtain ⟨first, a, d, more, hr, hmore, rfl⟩ := exists_of_bind_ok hrun
  obtain ⟨⟨comments, hfirst⟩, hplain⟩ := h c first a d hc hr
  obtain ⟨⟨others, hothers⟩, hrest⟩ := hf a d more b e (hfirst.reaches.sited hc).1 hmore
  refine ⟨⟨comments ++ others, hfirst.trans hc hothers⟩, fun e he => ?_⟩
  rcases List.mem_append.mp he with he | he
  · exact hplain e he
  · exact hrest e he

/-- A step that reports nothing and leaves the comments where they are. -/
theorem of_step (next : Cursor → Cursor) (value : Cursor → α)
    (hreaches : ∀ c : Cursor, c.Reaches (next c)) (hcomments : ∀ c : Cursor, (next c).comments = c.comments) :
    Delivers source (fun c => ([], .ok (value c, next c)) : Reading α) := by
  intro c events a d hc hrun
  obtain ⟨rfl, hrun⟩ := Prod.mk.injEq .. |>.mp hrun
  obtain ⟨-, rfl⟩ := by simpa using hrun
  exact ⟨⟨[], .of_reaches (hreaches c) (hcomments c) rfl⟩, by simp⟩

theorem pure (a : α) : (Pure.pure a : Reading α).Delivers source :=
  of_step id (fun _ => a) .refl fun _ => rfl

theorem cursor : Reading.cursor.Delivers source := of_step id id .refl fun _ => rfl

theorem here : Reading.here.Delivers source := of_step id Cursor.here .refl fun _ => rfl

theorem before : Reading.before.Delivers source := of_step id Cursor.before .refl fun _ => rfl

theorem comments_advance (c : Cursor) : c.advance.comments = c.comments := by
  obtain ⟨before, here, ahead, comments⟩ := c
  cases ahead <;> rfl

theorem comments_forward (n : Nat) (c : Cursor) : (c.forward n).comments = c.comments := by
  induction n generalizing c with
  | zero => rfl
  | succ n ih => exact (ih c.advance).trans (comments_advance c)

theorem take : Reading.take.Delivers source :=
  of_step Cursor.advance Cursor.here Cursor.reaches_advance comments_advance

theorem forward (n : Nat) : (Reading.forward n).Delivers source :=
  of_step (Cursor.forward n) (fun _ => ()) (Cursor.reaches_forward n) (comments_forward n)

theorem emit {e : Event} (hcomment : e.comment? = none) (hdeclares : e.declares = false) :
    (Reading.emit e).Delivers source := by
  intro c events u d hc hrun
  obtain ⟨rfl, hrun⟩ := Prod.mk.injEq .. |>.mp hrun
  obtain ⟨-, rfl⟩ := by simpa using hrun
  exact ⟨⟨[], .of_reaches (.refl c) rfl (by simp [hcomment])⟩, by simp [hdeclares]⟩

theorem emit_bind {e : Event} {f : Unit → Reading α} (hcomment : e.comment? = none)
    (hdeclares : e.declares = false) (hf : ∀ u, (f u).Delivers source) :
    (Reading.emit e >>= f).Delivers source :=
  (emit hcomment hdeclares).bind hf

theorem fail (fault : Fault) : (Reading.fail fault : Reading α).Delivers source := by
  intro c events a d hc hrun
  cases hrun

theorem refuse (expected : Expectation) : (Reading.refuse expected : Reading α).Delivers source :=
  here.bind fun _ => fail _

theorem ite {p : Prop} [Decidable p] {s : Reading α} (hr : r.Delivers source)
    (hs : s.Delivers source) : (if p then r else s).Delivers source := by
  split
  · exact hr
  · exact hs

theorem expect (kind : Token.Kind) (symbol : String) : (Reading.expect kind symbol).Delivers source :=
  cursor.bind fun _ => ite take (refuse _)

theorem expectOperator (operator : String) : (Reading.expectOperator operator).Delivers source :=
  cursor.bind fun _ => ite take (refuse _)

theorem expectName : Reading.expectName.Delivers source :=
  here.bind fun _ => ite take (refuse _)

theorem comma : Reading.comma.Delivers source :=
  cursor.bind fun _ => ite (take.bind fun _ => pure _) (pure _)

theorem rounds {body : Reading Bool} (h : body.Delivers source) :
    (repeatWhile body).Delivers source := by
  have hloop (budget : List Token) : (loop body budget).Delivers source := by
    induction budget with
    | nil => exact h.bind fun _ => pure ()
    | cons t budget ih => exact h.bind fun _ => ite ih (pure ())
  exact fun c => hloop c.ahead c

theorem typeName : Reading.typeName.Delivers source := by
  refine cursor.bind fun c => ?_
  split
  · exact refuse _
  · exact here.bind fun _ => (forward _).bind fun _ => before.bind fun _ => emit rfl rfl

theorem unreportedType : Reading.unreportedType.Delivers source := by
  refine cursor.bind fun c => ?_
  split
  · exact refuse _
  · exact forward _

theorem modifiers : Reading.modifiers.Delivers source :=
  cursor.bind fun _ => (forward _).bind fun _ => pure _

/-! ### Stepping over code -/

theorem skipGroup : Reading.skipGroup.Delivers source := by
  refine cursor.bind fun c => ?_
  split
  · exact here.bind fun _ => fail _
  · exact forward _

theorem skipToSemicolon : Reading.skipToSemicolon.Delivers source := by
  refine rounds (here.bind fun t => ?_)
  split
  · exact take.bind fun _ => pure _
  · exact skipGroup.bind fun _ => pure _
  · exact skipGroup.bind fun _ => pure _
  · exact skipGroup.bind fun _ => pure _
  · exact refuse _
  · exact refuse _
  · exact take.bind fun _ => pure _

theorem skipWordAndGroup : Reading.skipWordAndGroup.Delivers source :=
  take.bind fun _ => skipGroup

theorem skipTypeBody (word : Text) : (Reading.skipTypeBody word).Delivers source :=
  (rounds (here.bind fun _ => ite (pure _) (ite (fail _) (take.bind fun _ => pure _)))).bind
    fun _ => skipGroup

theorem skipTry : Reading.skipTry.Delivers source := by
  have hcatch := rounds (cursor.bind fun c : Cursor => ite (p := c.isAtWord "catch" = true)
    (skipWordAndGroup.bind fun _ => skipGroup.bind fun _ => @pure Bool source true) (pure false))
  have hblocks := skipGroup.bind fun _ => hcatch.bind fun _ => cursor.bind fun c : Cursor =>
    ite (p := c.isAtWord "finally" = true) skipWordAndGroup (@pure Unit source ())
  exact take.bind fun _ => cursor.bind fun _ => ite (skipGroup.bind fun _ => hblocks) hblocks

theorem skipNested (budget : List Token) : (Reading.skipNested budget).Delivers source := by
  induction budget with
  | nil => exact skipToSemicolon
  | cons t budget ih =>
      refine cursor.bind fun c => ?_
      cases skipShape c with
      | group => exact skipGroup
      | empty => exact take.bind fun _ => pure _
      | ifElse =>
          exact skipWordAndGroup.bind fun _ => ih.bind fun _ => cursor.bind fun _ =>
            ite (take.bind fun _ => ih) (pure _)
      | loop => exact skipWordAndGroup.bind fun _ => ih
      | headAndBlock => exact skipWordAndGroup.bind fun _ => skipGroup
      | doWhile =>
          exact take.bind fun _ => ih.bind fun _ => cursor.bind fun _ =>
            ite (skipWordAndGroup.bind fun _ => (expect _ _).bind fun _ => pure _) (fail _)
      | tryCatch => exact skipTry
      | typeDeclaration word => exact skipTypeBody word
      | labelled => exact (forward 2).bind fun _ => ih
      | simple => exact skipToSemicolon

theorem skipStatement : Reading.skipStatement.Delivers source := fun c => skipNested c.ahead c

theorem skipLambdaBody : Reading.skipLambdaBody.Delivers source :=
  here.bind fun _ => ite skipGroup (ite (refuse _) (rounds (here.bind fun _ =>
    ite (skipGroup.bind fun _ => pure _) (ite (pure _) (take.bind fun _ => pure _)))))

theorem lambda : Reading.lambda.Delivers source :=
  here.bind fun _ => emit_bind rfl rfl fun _ =>
    ite (skipGroup.bind fun _ => take.bind fun _ => skipLambdaBody)
      (take.bind fun _ => take.bind fun _ => skipLambdaBody)

theorem skipTypeArguments : Reading.skipTypeArguments.Delivers source := by
  refine here.bind fun t => emit_bind rfl rfl fun _ => cursor.bind fun c => ?_
  split
  · exact fail _
  · exact forward _

end Reading.Delivers

/-- What is asked of the productions one nesting level deeper. -/
structure Enclosed.Delivers (source : Text) (inner : Enclosed) : Prop where
  assignment : inner.assignment.Delivers source
  branches : inner.branches.Delivers source
  arrayInitializer : inner.arrayInitializer.Delivers source
  statement : inner.statement.Delivers source
  moves : inner.statement.Moves source

namespace Reading.Delivers

variable {α : Type} {source : Text} {inner : Enclosed}

/-! ## Expressions -/

theorem expression (h : inner.Delivers source) : (Reading.expression inner).Delivers source := by
  have hrest := h.assignment.bind fun _ => before.bind fun t =>
    @emit source (.closeExpression t.toSpan false) rfl rfl
  exact here.bind fun _ => ite ((refuse _).bind fun _ => emit_bind rfl rfl fun _ => hrest)
    (emit_bind rfl rfl fun _ => hrest)

/-- Arguments behind their opening parenthesis. -/
theorem openedArguments (h : inner.Delivers source) (paren : Token) : (do
    Reading.emit (.openArguments paren.toSpan)
    if !(← Reading.cursor).isAt .closeParen then
      Reading.repeatWhile do
        Reading.emit (.argument (← Reading.here).toSpan)
        Reading.expression inner
        Reading.comma
    let paren ← Reading.expect .closeParen ")"
    Reading.emit (.closeArguments paren.toSpan) : Reading Unit).Delivers source := by
  have hround := rounds (here.bind fun t : Token => @emit_bind _ source (.argument t.toSpan) _ rfl rfl
    fun _ => (expression h).bind fun _ => comma)
  have hclose := (expect .closeParen ")").bind fun t =>
    @emit source (.closeArguments t.toSpan) rfl rfl
  exact emit_bind rfl rfl fun _ => cursor.bind fun _ => ite (hround.bind fun _ => hclose) hclose

theorem arguments (h : inner.Delivers source) : (Reading.arguments inner).Delivers source :=
  (expect _ _).bind (openedArguments h)

theorem optionalArguments (h : inner.Delivers source) :
    (Reading.optionalArguments inner).Delivers source :=
  cursor.bind fun _ => ite (arguments h) (pure _)

theorem arrayInitializer (h : inner.Delivers source) :
    (Reading.arrayInitializer inner).Delivers source :=
  (expect _ _).bind fun _ => (rounds (cursor.bind fun _ => ite (pure _)
    (ite (h.arrayInitializer.bind fun _ => comma)
      ((expression h).bind fun _ => comma)))).bind fun _ => (expect _ _).bind fun _ => pure _

theorem dimension (h : inner.Delivers source) : (Reading.dimension inner).Delivers source := by
  have hclose := (@expect source .closeBracket "]").bind fun _ => @pure Bool source true
  exact cursor.bind fun _ => ite (take.bind fun _ => cursor.bind fun _ =>
    ite ((expression h).bind fun _ => hclose) hclose) (pure _)

theorem createdObject (h : inner.Delivers source) :
    (Reading.createdObject inner).Delivers source := by
  refine here.bind fun t => ?_
  split
  · exact (arguments h).bind fun _ => here.bind fun _ =>
      ite (emit_bind rfl rfl fun _ => skipGroup) (pure _)
  · exact (rounds (dimension h)).bind fun _ => cursor.bind fun _ =>
      ite (arrayInitializer h) (pure _)
  · exact refuse _

theorem creation (h : inner.Delivers source) : (Reading.creation inner).Delivers source := by
  refine take.bind fun _ => cursor.bind fun c => ?_
  split
  · exact refuse _
  · exact (forward _).bind fun _ => createdObject h

theorem typeLiteral (word : Text) : (Reading.typeLiteral word).Delivers source :=
  unreportedType.bind fun _ => cursor.bind fun _ => ite (fail _) (pure _)

theorem operand (h : inner.Delivers source) : (Reading.operand inner).Delivers source := by
  refine cursor.bind fun c => ?_
  cases operandShape c with
  | literal => exact take.bind fun _ => pure _
  | lambda => exact lambda
  | parenthesized =>
      exact take.bind fun _ => (expression h).bind fun _ => (expect _ _).bind fun _ => pure _
  | creation => exact creation h
  | reference => exact take.bind fun _ => optionalArguments h
  | typeLiteral word => exact typeLiteral word
  | reserved word => exact fail _
  | other => exact refuse _

theorem memberAccess (h : inner.Delivers source) : (Reading.memberAccess inner).Delivers source := by
  have hname := (@expectName source).bind fun _ => optionalArguments h
  exact cursor.bind fun _ => ite (creation h) (ite (take.bind fun _ => pure _)
    (ite (skipTypeArguments.bind fun _ => hname) hname))

theorem selector (h : inner.Delivers source) : (Reading.selector inner).Delivers source := by
  have hmethod := (@cursor source).bind fun c => ite (p := c.isAtWord "new" = true)
    (take.bind fun _ => @pure Bool source true) (expectName.bind fun _ => pure true)
  exact cursor.bind fun _ => ite (take.bind fun _ => (memberAccess h).bind fun _ => pure _)
    (ite (take.bind fun _ => (expression h).bind fun _ => (expect _ _).bind fun _ => pure _)
      (ite (take.bind fun _ => hmethod) (ite (take.bind fun _ => pure _) (pure _))))

theorem leading : Reading.leading.Delivers source := by
  refine cursor.bind fun c => ite (take.bind fun _ => pure _) ?_
  split
  · exact (forward _).bind fun _ => pure _
  · exact pure _

theorem unary (h : inner.Delivers source) : (Reading.unary inner).Delivers source :=
  (rounds leading).bind fun _ => (operand h).bind fun _ =>
    rounds (selector h)

theorem typeTest : Reading.typeTest.Delivers source := by
  have hname := (@here source).bind fun t => ite (p := t.isName = true)
    (take.bind fun _ => @pure Unit source ()) (pure ())
  exact take.bind fun _ => cursor.bind fun _ =>
    ite (take.bind fun _ => unreportedType.bind fun _ => hname) (unreportedType.bind fun _ => hname)

theorem binary (h : inner.Delivers source) : (Reading.binary inner).Delivers source :=
  (unary h).bind fun _ => rounds (cursor.bind fun _ =>
    ite (typeTest.bind fun _ => pure _)
      (ite (take.bind fun _ => (unary h).bind fun _ => pure _) (pure _)))

theorem conditional (h : inner.Delivers source) : (Reading.conditional inner).Delivers source :=
  (binary h).bind fun _ => cursor.bind fun _ => ite (take.bind fun _ => h.branches) (pure _)

theorem assignment (h : inner.Delivers source) : (Reading.assignment inner).Delivers source :=
  (conditional h).bind fun _ => rounds (here.bind fun _ =>
    ite (take.bind fun _ => (conditional h).bind fun _ => pure _) (pure _))

theorem branches (h : inner.Delivers source) : (Reading.branches inner).Delivers source :=
  (assignment h).bind fun _ => (expectOperator _).bind fun _ => conditional h

end Reading.Delivers

/-! ## Readings that step over a token -/

namespace Reading.Moves

variable {α β : Type} {source : Text} {r : Reading α} {f : α → Reading β}

theorem of_advances (h : r.Advances source) : r.Moves source := fun c events a d hc hrun =>
  h c hc.laid events a d hrun

theorem front (h : r.Moves source) (hf : ∀ a, (f a).Carries source) :
    (r >>= f).Moves source := by
  intro c events b e hc hrun
  obtain ⟨first, a, d, more, hfirst, hmore, -⟩ := exists_of_bind_ok hrun
  have hpasses := h c first a d hc hfirst
  obtain ⟨comments, hrest⟩ := hf a d more b e (hpasses.reaches.sited hc).1 hmore
  exact hpasses.trans_reaches hrest.reaches

theorem behind (h : r.Delivers source) (hf : ∀ a, (f a).Moves source) : (r >>= f).Moves source := by
  intro c events b e hc hrun
  obtain ⟨first, a, d, more, hfirst, hmore, -⟩ := exists_of_bind_ok hrun
  obtain ⟨⟨comments, hdelivers⟩, -⟩ := h c first a d hc hfirst
  exact hdelivers.reaches.trans_passes
    (hf a d more b e (hdelivers.reaches.sited hc).1 hmore)

theorem ite {p : Prop} [Decidable p] {s : Reading α} (hr : r.Moves source) (hs : s.Moves source) :
    (if p then r else s).Moves source := by
  split
  · exact hr
  · exact hs

theorem expect {kind : Token.Kind} (hkind : kind ≠ .endOfInput) (symbol : String) :
    (Reading.expect kind symbol).Moves source :=
  of_advances (advances_expect hkind symbol)

end Reading.Moves

namespace Reading

variable {α β : Type} {source : Text} {inner : Enclosed}

/-- The reading delivers comments, and except at the end of input it steps over a token. -/
structure Opens (source : Text) (r : Reading α) : Prop where
  delivers : r.Delivers source
  passes : ∀ (c : Cursor) (events : List Event) (a : α) (d : Cursor), c.Sited source →
    ¬ c.here.isEnd → r c = (events, .ok (a, d)) → c.Passes d

theorem Opens.of_moves {r : Reading α} (hdelivers : r.Delivers source) (hmoves : r.Moves source) :
    r.Opens source :=
  ⟨hdelivers, fun c events a d hc _ => hmoves c events a d hc⟩

theorem Opens.taken {f : Token → Reading β} (hf : ∀ t, (f t).Delivers source) :
    (take >>= f).Opens source := by
  refine ⟨Delivers.take.bind hf, fun c events a d hc hend hrun => ?_⟩
  have hpasses := Cursor.passes_advance hc.laid hend
  obtain ⟨first, t, e, more, hfirst, hmore, -⟩ := exists_of_bind_ok hrun
  obtain ⟨-, hfirst⟩ := Prod.mk.injEq .. |>.mp hfirst
  obtain ⟨rfl, rfl⟩ := by simpa using hfirst
  obtain ⟨⟨comments, hrest⟩, -⟩ := hf _ _ more a d (hpasses.reaches.sited hc).1 hmore
  exact hpasses.trans_reaches hrest.reaches

end Reading

/-! ## Comments before a reading that steps over a token -/

namespace Cursor

variable {source : Text} {c d : Cursor} {comments : List Token} {events : List Event}

/-- The waiting comments in front of the token at the cursor. -/
def due (c : Cursor) : List Token := c.comments.takeWhile fun t => t.start < c.here.start

/-- The cursor once the comments in front of its token have been reported. -/
def relieved (c : Cursor) : Cursor :=
  { c with comments := c.comments.dropWhile fun t => t.start < c.here.start }

theorem Sited.relieved (h : c.Sited source) : c.relieved.Sited source := ⟨h.laid, h.behind⟩

theorem reportComments_eq (c : Cursor) :
    Reading.reportComments c = (c.due.map fun t => .comment t.toSpan, .ok ((), c.relieved)) := rfl

theorem start_lt_of_due {t : Token} (ht : t ∈ c.due) : t.start < c.here.start := by
  simpa using List.mem_takeWhile_imp ht

theorem comments_eq_due (c : Cursor) : c.comments = c.due ++ c.relieved.comments :=
  List.takeWhile_append_dropWhile.symm

theorem Delivers.of_relieved (hc : c.Sited source) (h : c.relieved.Delivers comments events d)
    (hpasses : c.relieved.Passes d) :
    c.Delivers (c.due ++ comments) ((c.due.map fun t => .comment t.toSpan) ++ events) d where
  reaches := h.reaches
  comments_eq := by rw [c.comments_eq_due, h.comments_eq, List.append_assoc]
  spans_eq := by
    rw [List.filterMap_append, h.spans_eq, List.map_append, List.filterMap_map]
    exact congrArg (· ++ comments.map Token.toSpan) (congrFun List.filterMap_eq_map c.due)
  passed := by
    intro t ht
    rcases List.mem_append.mp ht with ht | ht
    · exact (start_lt_of_due ht).trans_le (hpasses.start_le hc.relieved)
    · exact h.passed t ht

end Cursor

namespace Reading

variable {α : Type} {source : Text} {r : Reading α}

theorem declares_comment (comments : List Token) :
    ∀ e ∈ comments.map fun t => Event.comment t.toSpan, e.declares = false := by
  intro e he
  obtain ⟨t, -, rfl⟩ := List.mem_map.mp he
  rfl

theorem exists_of_reported {β : Type} {f : Unit → Reading β} {c d : Cursor} {events : List Event}
    {b : β} (h : (reportComments >>= f) c = (events, .ok (b, d))) :
    ∃ more, f () c.relieved = (more, .ok (b, d)) ∧
      events = (c.due.map fun t => .comment t.toSpan) ++ more := by
  rw [bind_of_ok f c.reportComments_eq, Prod.mk.injEq] at h
  exact ⟨_, Prod.ext rfl h.2, h.1.symm⟩

/-- Comments are reported in front of a reading that steps over a token. -/
theorem delivers_reported (h : r.Delivers source) {c d : Cursor} {events : List Event} {a : α}
    (hpasses : ∀ events a d, r c.relieved = (events, .ok (a, d)) → c.relieved.Passes d)
    (hc : c.Sited source) (hrun : (reportComments >>= fun _ => r) c = (events, .ok (a, d))) :
    ((∃ comments, c.Delivers comments events d) ∧ ∀ e ∈ events, e.declares = false) ∧
      c.Passes d := by
  obtain ⟨more, hmore, rfl⟩ := exists_of_reported hrun
  have hpasses := hpasses more a d hmore
  obtain ⟨⟨comments, hdelivers⟩, hplain⟩ := h _ more a d hc.relieved hmore
  refine ⟨⟨⟨_, hdelivers.of_relieved hc hpasses⟩, fun e he => ?_⟩, hpasses⟩
  rcases List.mem_append.mp he with he | he
  · exact declares_comment c.due e he
  · exact hplain e he

theorem Delivers.reported (h : r.Delivers source) (hmoves : r.Moves source) :
    (reportComments >>= fun _ => r).Delivers source := fun _ _ _ _ hc hrun =>
  (delivers_reported h (fun events a d => hmoves _ events a d hc.relieved) hc hrun).1

theorem Moves.reported (hmoves : r.Moves source) (h : r.Delivers source) :
    (reportComments >>= fun _ => r).Moves source := fun _ _ _ _ hc hrun =>
  (delivers_reported h (fun events a d => hmoves _ events a d hc.relieved) hc hrun).2

end Reading

/-! ## Statements -/

namespace Reading

variable {source : Text} {inner : Enclosed}

theorem blockRound_true (h : inner.Delivers source) {c d : Cursor} {events : List Event}
    (hc : c.Sited source) (hrun : blockRound inner c = (events, .ok (true, d))) :
    c.Passes d ∧ d.Sited source := by
  change (if c.here.kind = .closeBrace then _ else _ : Reading Bool) c = _ at hrun
  split at hrun
  · cases hrun
  · split at hrun
    · cases hrun
    · obtain ⟨-, u, hstatement⟩ := exists_of_bind_pure hrun
      have hpasses := h.moves c events u d hc hstatement
      exact ⟨hpasses, (hpasses.reaches.sited hc).1⟩

theorem blockRound_false {c d : Cursor} {events : List Event}
    (hrun : blockRound inner c = (events, .ok (false, d))) : d.here.kind = .closeBrace := by
  change (if c.here.kind = .closeBrace then _ else _ : Reading Bool) c = _ at hrun
  split at hrun
  · next hkind =>
      cases hrun
      exact hkind
  · split at hrun
    · cases hrun
    · obtain ⟨hfalse, -⟩ := exists_of_bind_pure hrun
      cases hfalse

namespace Delivers

theorem blockRound (h : inner.Delivers source) : (Reading.blockRound inner).Delivers source :=
  here.bind fun _ => ite (pure _) (ite ((fail _).bind fun _ => h.statement.bind fun _ => pure _)
    (h.statement.bind fun _ => pure _))

/-- The comments in front of the closing brace of a block are reported in front of it. -/
theorem blockRest (h : inner.Delivers source) :
    (Reading.blockRest inner).Delivers source ∧ (Reading.blockRest inner).Moves source := by
  have hrun {c d : Cursor} {events : List Event} {u : Unit} (hc : c.Sited source)
      (hrest : Reading.blockRest inner c = (events, .ok (u, d))) :
      ((∃ comments, c.Delivers comments events d) ∧ ∀ e ∈ events, e.declares = false) ∧
        c.Passes d := by
    obtain ⟨first, u, e, more, hfirst, hmore, rfl⟩ := exists_of_bind_ok hrest
    obtain ⟨f, last, -, -, hlast⟩ := exists_last_round
      (fun c events d hc hrun => blockRound_true h hc hrun) hc hfirst
    have hkind := blockRound_false hlast
    obtain ⟨⟨comments, hrounds⟩, hplain⟩ := rounds (blockRound h) c first u e hc hfirst
    have he := (hrounds.reaches.sited hc).1
    have hclosed : (do
        let brace ← Reading.take
        Reading.emit (.closeBlock brace.toSpan) : Reading Unit).Opens source :=
      Opens.taken fun _ => emit rfl rfl
    obtain ⟨⟨⟨others, hothers⟩, hclosing⟩, hpasses⟩ := delivers_reported hclosed.delivers
      (fun events a d => hclosed.passes e.relieved events a d he.relieved
        (not_isEnd_of_kind hkind (by decide))) he hmore
    refine ⟨⟨⟨_, hrounds.trans hc hothers⟩, fun e he => ?_⟩, hrounds.reaches.trans_passes hpasses⟩
    rcases List.mem_append.mp he with he | he
    · exact hplain e he
    · exact hclosing e he
  exact ⟨fun c events u d hc h => (hrun hc h).1, fun c events u d hc h => (hrun hc h).2⟩

theorem block (h : inner.Delivers source) : (Reading.block inner).Opens source :=
  .of_moves ((expect _ _).bind fun _ => emit_bind rfl rfl fun _ => (blockRest h).1)
    ((Moves.expect (by decide) _).front fun _ =>
      (emit_bind rfl rfl fun _ => (blockRest h).1).carries)

theorem body (h : inner.Delivers source) : (Reading.body inner).Delivers source :=
  cursor.bind fun _ => ite (block h).delivers (here.bind fun _ => emit_bind rfl rfl fun _ =>
    h.statement.bind fun _ => before.bind fun _ => emit rfl rfl)

theorem condition (h : inner.Delivers source) : (Reading.condition inner).Delivers source :=
  (expect _ _).bind fun _ => (expression h).bind fun _ => (expect _ _).bind fun _ => pure _

theorem furtherBranch (h : inner.Delivers source) : (Reading.furtherBranch inner).Delivers source :=
  cursor.bind fun _ => ite (pure _) (ite
    (take.bind fun _ => take.bind fun _ => emit_bind rfl rfl fun _ => (condition h).bind fun _ =>
      (body h).bind fun _ => pure _)
    (take.bind fun _ => emit_bind rfl rfl fun _ => (body h).bind fun _ => pure _))

theorem ifChain (h : inner.Delivers source) : (Reading.ifChain inner).Opens source :=
  .taken fun _ => emit_bind rfl rfl fun _ => (condition h).bind fun _ => (body h).bind fun _ =>
    (rounds (furtherBranch h)).bind fun _ => before.bind fun _ => emit rfl rfl

theorem whileLoop (h : inner.Delivers source) : (Reading.whileLoop inner).Opens source :=
  .taken fun _ => emit_bind rfl rfl fun _ => (condition h).bind fun _ => (body h).bind fun _ =>
    before.bind fun _ => emit rfl rfl

theorem semicolon : (do let _ ← Reading.semicolon : Reading Unit).Delivers source :=
  (expect _ _).bind fun _ => pure _

theorem returned (h : inner.Delivers source) : (Reading.returned inner).Opens source :=
  .taken fun _ => cursor.bind fun _ => emit_bind rfl rfl fun _ =>
    ite ((expression h).bind fun _ => semicolon) semicolon

theorem label : Reading.label.Delivers source :=
  here.bind fun _ => ite (expectName.bind fun _ => pure _) (pure _)

theorem jumped (jump : Jump) : (Reading.jumped jump).Opens source :=
  .taken fun _ => label.bind fun _ => emit_bind rfl rfl fun _ => semicolon

theorem thrown (h : inner.Delivers source) : (Reading.thrown inner).Opens source :=
  .taken fun _ => emit_bind rfl rfl fun _ => (expression h).bind fun _ => semicolon

theorem expressionStatement (h : inner.Delivers source) :
    (Reading.expressionStatement inner).Delivers source :=
  here.bind fun _ => emit_bind rfl rfl fun _ => (expression h).bind fun _ => semicolon

theorem variableValue (h : inner.Delivers source) : (Reading.variableValue inner).Delivers source :=
  here.bind fun _ => ite (emit_bind rfl rfl fun _ => (arrayInitializer h).bind fun _ =>
    before.bind fun _ => emit rfl rfl) (expression h)

theorem declarator (h : inner.Delivers source) : (Reading.declarator inner).Delivers source := by
  have hvalue {name : Token} {hasValue : Bool} := @emit_bind Bool source
    (.declarator name.toSpan hasValue) (fun _ => do
      if hasValue then
        let _ ← Reading.take
        Reading.variableValue inner
      Reading.comma) rfl rfl fun _ =>
        ite (take.bind fun _ => (variableValue h).bind fun _ => comma) comma
  exact expectName.bind fun _ => cursor.bind fun _ => ite ((fail _).bind fun _ => hvalue) hvalue

theorem localVariables (h : inner.Delivers source) :
    (Reading.localVariables inner).Delivers source :=
  here.bind fun _ => modifiers.bind fun _ => typeName.bind fun _ => emit_bind rfl rfl fun _ =>
    (rounds (declarator h)).bind fun _ => (expect _ _).bind fun _ => emit rfl rfl

theorem unsupported (construct : String) : (Reading.unsupported construct).Delivers source :=
  here.bind fun _ => emit_bind rfl rfl fun _ => skipStatement

end Delivers

namespace Moves

theorem semicolon : (do let _ ← Reading.semicolon : Reading Unit).Moves source :=
  (expect (by decide) _).front fun _ => (Delivers.pure _).carries

theorem expressionStatement (h : inner.Delivers source) :
    (Reading.expressionStatement inner).Moves source :=
  .behind .here fun _ => .behind (.emit rfl rfl) fun _ => .behind (.expression h) fun _ => semicolon

theorem localVariables (h : inner.Delivers source) : (Reading.localVariables inner).Moves source :=
  .behind .here fun _ => .behind .modifiers fun _ => .behind .typeName fun _ =>
    .behind (.emit rfl rfl) fun _ => .behind (.rounds (.declarator h)) fun _ =>
      (expect (by decide) _).front fun _ => (Delivers.emit rfl rfl).carries

theorem unsupported (construct : String) : (Reading.unsupported construct).Moves source :=
  .behind .here fun _ => .behind (.emit rfl rfl) fun _ => .of_advances advances_skipStatement

end Moves

/-- The shapes that are told by a token that is not the end of input. -/
theorem opens_statementOf (h : inner.Delivers source) (shape : StatementShape) :
    (statementOf inner shape).Opens source := by
  cases shape with
  | block => exact Delivers.block h
  | empty => exact .taken fun _ => .emit rfl rfl
  | ifChain => exact Delivers.ifChain h
  | whileLoop => exact Delivers.whileLoop h
  | returned => exact Delivers.returned h
  | jump jump => exact Delivers.jumped jump
  | thrown => exact Delivers.thrown h
  | misplaced fault => exact .of_moves (.fail fault) fun _ _ _ _ _ hrun => nomatch hrun
  | unsupported construct => exact .of_moves (.unsupported construct) (.unsupported construct)
  | locals => exact .of_moves (.localVariables h) (.localVariables h)
  | expression => exact .of_moves (.expressionStatement h) (.expressionStatement h)

theorem moves_statementOf (h : inner.Delivers source) {c d : Cursor} {events : List Event} {u : Unit}
    (hc : c.Sited source) (hrun : statementOf inner (statementShape c) c = (events, .ok (u, d))) :
    c.Passes d := by
  by_cases hlocals : statementShape c = .locals
  · rw [hlocals] at hrun
    exact Moves.localVariables h c events u d hc hrun
  by_cases hexpression : statementShape c = .expression
  · rw [hexpression] at hrun
    exact Moves.expressionStatement h c events u d hc hrun
  · exact (opens_statementOf h _).passes c events u d hc
      (not_isEnd_of_statementShape rfl hlocals hexpression) hrun

theorem delivers_statement (h : inner.Delivers source) :
    (statement inner).Delivers source ∧ (statement inner).Moves source := by
  have hshaped : (do
      let c ← cursor
      statementOf inner (statementShape c) : Reading Unit).Delivers source :=
    Delivers.cursor.bind fun c => (opens_statementOf h _).delivers
  have hmoves : (do
      let c ← cursor
      statementOf inner (statementShape c) : Reading Unit).Moves source :=
    fun c events u d hc hrun => moves_statementOf h hc hrun
  rw [statement_eq_reported]
  exact ⟨hshaped.reported hmoves, hmoves.reported hshaped⟩

end Reading

/-- At every nesting level comments are delivered, and a statement steps over a token. -/
theorem Enclosed.delivers_within (source : Text) (levels : Nat) :
    (Enclosed.within levels).Delivers source := by
  induction levels with
  | zero => exact ⟨.fail _, .fail _, .fail _, .fail _, fun _ _ _ _ _ hrun => nomatch hrun⟩
  | succ levels ih =>
      exact ⟨.assignment ih, .branches ih, .arrayInitializer ih, (Reading.delivers_statement ih).1,
        (Reading.delivers_statement ih).2⟩

end CodeFrames
