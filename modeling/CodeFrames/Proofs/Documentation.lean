import CodeFrames.Proofs.Delivery
import CodeFrames.Proofs.Lookahead
import Mathlib.Algebra.GroupWithZero.Nat

/-!
# Documentation

Which comment becomes the documentation of a declaration.  It is never any other than the last comment
in front of the declaration, wherever that comment stands, and a comment directly in front of the
declaration is claimed unless type parameters stand between its modifiers and its return type.
-/

namespace CodeFrames

open scoped Computability
open Sentence

namespace Reading

variable {α : Type} {source : Text} {inner : Enclosed}

/-! ## The body and the end of a declaration -/

/-- The events end with the end of a declaration, and nothing else in them begins or ends one. -/
def EndsDeclaration (events : List Event) : Prop :=
  ∃ inside last hasBody, events = inside ++ [.closeDeclaration last hasBody] ∧
    ∀ e ∈ inside, e.declares = false

/-- The reading delivers comments up to the end of the declaration that is open. -/
def Closes (source : Text) (r : Reading Unit) : Prop :=
  ∀ (c : Cursor) (events : List Event) (u : Unit) (d : Cursor), c.Sited source →
    r c = (events, .ok (u, d)) → (∃ comments, c.Delivers comments events d) ∧ EndsDeclaration events

namespace Closes

theorem closeDeclaration (last : Span) (hasBody : Bool) :
    (emit (.closeDeclaration last hasBody)).Closes source := by
  intro c events u d hc hrun
  obtain ⟨rfl, hrun⟩ := Prod.mk.injEq .. |>.mp hrun
  obtain ⟨-, rfl⟩ := by simpa using hrun
  exact ⟨⟨[], .of_reaches (.refl c) rfl rfl⟩, [], last, hasBody, rfl, by simp⟩

theorem behind {r : Reading α} {f : α → Reading Unit} (h : r.Delivers source)
    (hf : ∀ a, (f a).Closes source) : (r >>= f).Closes source := by
  intro c events u e hc hrun
  obtain ⟨first, a, d, more, hfirst, hmore, rfl⟩ := exists_of_bind_ok hrun
  obtain ⟨⟨comments, hdelivers⟩, hplain⟩ := h c first a d hc hfirst
  obtain ⟨⟨others, hothers⟩, inside, last, hasBody, rfl, hinside⟩ :=
    hf a d more u e (hdelivers.reaches.sited hc).1 hmore
  refine ⟨⟨_, hdelivers.trans hc hothers⟩, first ++ inside, last, hasBody, by simp, fun e he => ?_⟩
  rcases List.mem_append.mp he with he | he
  · exact hplain e he
  · exact hinside e he

theorem ite {p : Prop} [Decidable p] {r s : Reading Unit} (hr : r.Closes source)
    (hs : s.Closes source) : (if p then r else s).Closes source := by
  split
  · exact hr
  · exact hs

theorem reported {r : Reading Unit} (h : r.Closes source) (hmoves : r.Moves source) :
    (reportComments >>= fun _ => r).Closes source := by
  intro c events u d hc hrun
  obtain ⟨more, hmore, rfl⟩ := exists_of_reported hrun
  obtain ⟨⟨comments, hdelivers⟩, inside, last, hasBody, rfl, hinside⟩ :=
    h _ more u d hc.relieved hmore
  refine ⟨⟨_, hdelivers.of_relieved hc (hmoves _ _ u d hc.relieved hmore)⟩,
    (c.due.map fun t => .comment t.toSpan) ++ inside, last, hasBody, by simp, fun e he => ?_⟩
  rcases List.mem_append.mp he with he | he
  · exact declares_comment c.due e he
  · exact hinside e he

theorem carries {r : Reading Unit} (h : r.Closes source) : r.Carries source :=
  fun c events u d hc hrun => (h c events u d hc hrun).1

end Closes

/-! ## Headers -/

namespace Delivers

theorem parameter : Reading.parameter.Delivers source := by
  have hname {ellipsis : Option Token} : (do
      let name ← Reading.expectName
      Reading.emit (.parameter name.toSpan (ellipsis.map Token.toSpan))
      Reading.comma : Reading Bool).Delivers source :=
    expectName.bind fun _ => emit_bind rfl rfl fun _ => comma
  have hellipsis : (some <$> Reading.take : Reading (Option Token)).Delivers source := by
    rw [← bind_pure_comp]
    exact take.bind fun _ => pure _
  exact modifiers.bind fun _ => typeName.bind fun _ => cursor.bind fun _ =>
    ite (hellipsis.bind fun _ => hname) ((pure none).bind fun _ => hname)

theorem parameters : Reading.parameters.Delivers source := by
  have hclose := (@expect source .closeParen ")").bind fun _ => @pure Unit source ()
  exact (expect _ _).bind fun _ => cursor.bind fun _ =>
    ite ((rounds parameter).bind fun _ => hclose) hclose

theorem throwsClause : Reading.throwsClause.Delivers source := by
  have htypes := rounds ((@typeName source).bind fun _ => comma)
  exact cursor.bind fun _ => ite (take.bind fun _ => emit_bind rfl rfl fun _ => htypes.bind fun _ =>
    emit rfl rfl) (pure _)

end Delivers

/-- What follows the name of a method. -/
def methodRest (inner : Enclosed) : Reading Unit := do
  parameters
  throwsClause
  if (← cursor).isAt .semicolon then
    let semicolon ← take
    emit (.closeDeclaration semicolon.toSpan false)
  else
    block inner
    emit (.closeDeclaration (← before).toSpan true)

theorem closes_methodRest (h : inner.Delivers source) : (methodRest inner).Closes source :=
  .behind .parameters fun _ => .behind .throwsClause fun _ => .behind .cursor fun _ =>
    .ite (.behind .take fun _ => .closeDeclaration _ _)
      (.behind (Delivers.block h).delivers fun _ => .behind .before fun _ => .closeDeclaration _ _)

/-- What follows the opening brace of a constructor's body and the comments behind it. -/
def constructorBody (inner : Enclosed) : Reading Unit := do
  if opensDelegateCall (← cursor) then delegateCall inner
  blockRest inner
  emit (.closeDeclaration (← before).toSpan true)

/-- What follows the name of a constructor. -/
def constructorRest (inner : Enclosed) : Reading Unit := do
  parameters
  throwsClause
  let brace ← expect .openBrace "\x7b"
  emit (.openBlock brace.toSpan)
  reportComments
  if opensDelegateCall (← cursor) then delegateCall inner
  blockRest inner
  emit (.closeDeclaration (← before).toSpan true)

theorem delivers_delegateCall (h : inner.Delivers source) : (delegateCall inner).Delivers source :=
  Delivers.here.bind fun _ => .emit_bind rfl rfl fun _ => .emit_bind rfl rfl fun _ =>
    .emit_bind rfl rfl fun _ => Delivers.take.bind fun _ => (Delivers.arguments h).bind fun _ =>
      Delivers.before.bind fun _ => .emit_bind rfl rfl fun _ => .semicolon

theorem closes_constructorRest (h : inner.Delivers source) :
    (constructorRest inner).Closes source := by
  have hclosing : (do emit (.closeDeclaration (← before).toSpan true) : Reading Unit).Closes source :=
    .behind .before fun _ => .closeDeclaration _ _
  have hrest := Closes.behind (Delivers.blockRest h).1 fun _ => hclosing
  have hmoves := (Delivers.blockRest h).2.front fun _ => hclosing.carries
  have hbody : (constructorBody inner).Closes source :=
    .behind .cursor fun _ => .ite (.behind (delivers_delegateCall h) fun _ => hrest) hrest
  have hpasses : (constructorBody inner).Moves source :=
    .behind .cursor fun _ => .ite (.behind (delivers_delegateCall h) fun _ => hmoves) hmoves
  exact .behind .parameters fun _ => .behind .throwsClause fun _ => .behind (.expect _ _) fun _ =>
    .behind (.emit rfl rfl) fun _ => hbody.reported hpasses

/-! ## Declarations -/

/-- Type parameters stand behind the modifiers at the cursor. -/
def hasTypeParameters (c : Cursor) : Bool := (c.forward c.modifierCount).here.isOperator ['<']

/-- The events of a declaration that begins at the cursor. -/
inductive Declares (c : Cursor) : List Event → Prop
  | constructor (spans : List Span) (name : Span) {rest : List Event}
      (hnone : hasTypeParameters c = false) (hends : EndsDeclaration rest) :
      Declares c (.openConstructor c.here.toSpan spans name :: rest)
  | method (first last : Span) (spans : List Span) (name : Span) {rest : List Event}
      (hnone : hasTypeParameters c = false) (hends : EndsDeclaration rest) :
      Declares c (.typeName first last :: .openMethod c.here.toSpan spans name :: rest)
  | generic (place : Span) (construct : String) (first last : Span) (spans : List Span) (name : Span)
      {rest : List Event} (hsome : hasTypeParameters c = true) (hends : EndsDeclaration rest) :
      Declares c (.unsupported place construct :: .typeName first last ::
        .openMethod c.here.toSpan spans name :: rest)

theorem modifiers_eq (c : Cursor) : modifiers c =
    ([], .ok (Token.spansOf (Token.modifierLengths c.tokens) c.tokens, c.forward c.modifierCount)) :=
  rfl

theorem exists_of_expectName {c d : Cursor} {events : List Event} {name : Token}
    (h : expectName c = (events, .ok (name, d))) : events = [] ∧ c.here.isName = true ∧ d = c.advance := by
  change (if c.here.isName then take else refuse .identifier : Reading Token) c = _ at h
  split at h
  · next hname =>
      cases h
      exact ⟨rfl, hname, rfl⟩
  · cases h

theorem exists_of_typeName {c d : Cursor} {events : List Event} {u : Unit}
    (h : typeName c = (events, .ok (u, d))) : ∃ first last, events = [.typeName first last] := by
  obtain ⟨first, e, c', more, hfirst, hmore, rfl⟩ := exists_of_bind_ok h
  obtain ⟨rfl, hfirst⟩ := Prod.mk.injEq .. |>.mp hfirst
  obtain ⟨rfl, rfl⟩ := by simpa using hfirst
  cases hlength : Token.typeLength? c.tokens with
  | none =>
      rw [hlength] at hmore
      cases hmore
  | some n =>
      rw [hlength] at hmore
      cases hmore
      exact ⟨_, _, rfl⟩

theorem exists_of_typeParameters {c d : Cursor} {events : List Event} {u : Unit}
    (h : typeParameters c = (events, .ok (u, d))) :
    (c.here.isOperator ['<'] = false ∧ events = []) ∨
      (c.here.isOperator ['<'] = true ∧ ∃ place construct, events = [.unsupported place construct]) := by
  change (if c.here.isOperator ['<'] = true then _ else _ : Reading Unit) c = _ at h
  split at h
  · next hsome =>
      obtain ⟨first, e, c', more, hfirst, hmore, rfl⟩ := exists_of_bind_ok h
      obtain ⟨rfl, hfirst⟩ := Prod.mk.injEq .. |>.mp hfirst
      obtain ⟨rfl, rfl⟩ := by simpa using hfirst
      cases hlength : Token.typeArgumentsLength? c.tokens with
      | none =>
          rw [hlength] at hmore
          cases hmore
      | some n =>
          rw [hlength] at hmore
          cases hmore
          exact .inr ⟨hsome, _, _, rfl⟩
  · next hnone =>
      cases h
      exact .inl ⟨by simpa using hnone, rfl⟩

namespace Delivers

theorem typeParameters : Reading.typeParameters.Delivers source := by
  refine here.bind fun t => ite (cursor.bind fun c => ?_) (pure _)
  split
  · exact fail _
  · exact emit_bind rfl rfl fun _ => forward _

end Delivers

theorem method_eq (inner : Enclosed) : method inner = (do
    let first ← here
    let spans ← modifiers
    typeParameters
    typeName
    let name ← expectName
    emit (.openMethod first.toSpan spans name.toSpan)
    methodRest inner) := rfl

theorem constructor_eq (inner : Enclosed) : constructor inner = (do
    let first ← here
    let spans ← modifiers
    let name ← expectName
    emit (.openConstructor first.toSpan spans name.toSpan)
    constructorRest inner) := rfl

/-! ### Readings that begin a declaration -/

namespace Carries

variable {r : Reading α} {f : α → Reading Unit}

theorem behind (h : r.Delivers source) (hf : ∀ a, (f a).Carries source) : (r >>= f).Carries source := by
  intro c events u e hc hrun
  obtain ⟨first, a, d, more, hfirst, hmore, rfl⟩ := exists_of_bind_ok hrun
  obtain ⟨⟨comments, hdelivers⟩, -⟩ := h c first a d hc hfirst
  obtain ⟨others, hothers⟩ := hf a d more u e (hdelivers.reaches.sited hc).1 hmore
  exact ⟨_, hdelivers.trans hc hothers⟩

theorem emit_bind {e : Event} {f : Unit → Reading Unit} (hcomment : e.comment? = none)
    (hf : ∀ u, (f u).Carries source) : (emit e >>= f).Carries source := by
  intro c events u d hc hrun
  obtain ⟨first, v, d', more, hfirst, hmore, rfl⟩ := exists_of_bind_ok hrun
  obtain ⟨rfl, hfirst⟩ := Prod.mk.injEq .. |>.mp hfirst
  obtain ⟨rfl, rfl⟩ := by simpa using hfirst
  obtain ⟨comments, h⟩ := hf _ c more u d hc hmore
  exact ⟨comments, h.reaches, h.comments_eq, by simp [hcomment, h.spans_eq], h.passed⟩

end Carries

theorem Moves.expectName : Reading.expectName.Moves source := by
  intro c events name d hc hrun
  obtain ⟨-, hname, rfl⟩ := exists_of_expectName hrun
  exact Cursor.passes_advance hc.laid (not_isEnd_of_kind (Token.kind_of_isName hname) (by decide))

theorem carries_method (h : inner.Delivers source) :
    (method inner).Carries source ∧ (method inner).Moves source := by
  have hrest (first : Token) (spans : List Span) (name : Token) : (do
      emit (.openMethod first.toSpan spans name.toSpan)
      methodRest inner : Reading Unit).Carries source :=
    .emit_bind rfl fun _ => (closes_methodRest h).carries
  rw [method_eq]
  exact ⟨.behind .here fun _ => .behind .modifiers fun _ => .behind .typeParameters fun _ =>
      .behind .typeName fun _ => .behind .expectName fun _ => hrest _ _ _,
    .behind .here fun _ => .behind .modifiers fun _ => .behind .typeParameters fun _ =>
      .behind .typeName fun _ => Moves.expectName.front fun _ => hrest _ _ _⟩

theorem carries_constructor (h : inner.Delivers source) :
    (constructor inner).Carries source ∧ (constructor inner).Moves source := by
  have hrest (first : Token) (spans : List Span) (name : Token) : (do
      emit (.openConstructor first.toSpan spans name.toSpan)
      constructorRest inner : Reading Unit).Carries source :=
    .emit_bind rfl fun _ => (closes_constructorRest h).carries
  rw [constructor_eq]
  exact ⟨.behind .here fun _ => .behind .modifiers fun _ => .behind .expectName fun _ => hrest _ _ _,
    .behind .here fun _ => .behind .modifiers fun _ => Moves.expectName.front fun _ => hrest _ _ _⟩

theorem bind_of_silent {β : Type} {r : Reading α} {c d : Cursor} {a : α} (f : α → Reading β)
    (h : r c = ([], .ok (a, d))) : (r >>= f) c = f a d := by
  rw [bind_of_ok f h]
  rfl

/-- The name of a declaration, its header and what follows. -/
theorem exists_of_named {rest : Reading Unit} {opening : Token → Event} {c d : Cursor}
    {events : List Event} {u : Unit} (hc : c.Sited source) (hclose : rest.Closes source)
    (hrun : (do
      let name ← expectName
      emit (opening name)
      rest : Reading Unit) c = (events, .ok (u, d))) :
    c.here.isName = true ∧
      ∃ name inside, events = opening name :: inside ∧ EndsDeclaration inside := by
  obtain ⟨first, name, c₁, more, hfirst, hmore, rfl⟩ := exists_of_bind_ok hrun
  obtain ⟨rfl, hname, rfl⟩ := exists_of_expectName hfirst
  obtain ⟨announced, v, c₂, inside, hannounced, hinside, rfl⟩ := exists_of_bind_ok hmore
  cases hannounced
  have hends := (hclose _ inside u d ((Cursor.reaches_advance c).sited hc).1 hinside).2
  exact ⟨hname, name, inside, rfl, hends⟩

theorem declares_method (h : inner.Delivers source) {c d : Cursor} {events : List Event} {u : Unit}
    (hc : c.Sited source) (hrun : method inner c = (events, .ok (u, d))) : Declares c events := by
  rw [method_eq, bind_of_silent _ (show here c = ([], .ok (c.here, c)) from rfl),
    bind_of_silent _ (modifiers_eq c)] at hrun
  obtain ⟨front, _, c₁, rest, hfront, hrest, rfl⟩ := exists_of_bind_ok hrun
  obtain ⟨typed, _, c₂, more, htyped, hmore, rfl⟩ := exists_of_bind_ok hrest
  have hc₁ := Delivers.typeParameters.carries.sited ((Cursor.reaches_forward _ c).sited hc).1 hfront
  have hc₂ := Delivers.typeName.carries.sited hc₁ htyped
  obtain ⟨first, last, rfl⟩ := exists_of_typeName htyped
  obtain ⟨-, name, inside, rfl, hends⟩ := exists_of_named hc₂ (closes_methodRest h) hmore
  rcases exists_of_typeParameters hfront with ⟨hnone, rfl⟩ | ⟨hsome, place, construct, rfl⟩
  · exact .method first last _ name.toSpan hnone hends
  · exact .generic place construct first last _ name.toSpan hsome hends

theorem declares_constructor (h : inner.Delivers source) {c d : Cursor} {events : List Event}
    {u : Unit} (hc : c.Sited source) (hrun : constructor inner c = (events, .ok (u, d))) :
    Declares c events := by
  rw [constructor_eq, bind_of_silent _ (show here c = ([], .ok (c.here, c)) from rfl),
    bind_of_silent _ (modifiers_eq c)] at hrun
  obtain ⟨hname, name, inside, rfl, hends⟩ :=
    exists_of_named ((Cursor.reaches_forward _ c).sited hc).1 (closes_constructorRest h) hrun
  have hkind := Token.kind_of_isName hname
  exact .constructor _ name.toSpan (by simp [hasTypeParameters, Token.isOperator, hkind]) hends

/-! ## Members -/

/-- A member that is neither a constructor nor a method declares nothing. -/
theorem delivers_memberOf (h : inner.Delivers source) {shape : MemberShape}
    (hconstructor : shape ≠ .constructor) (hmethod : shape ≠ .method) :
    (memberOf inner shape).Delivers source ∧ (memberOf inner shape).Moves source := by
  cases shape with
  | directive word =>
      exact ⟨Delivers.here.bind fun _ => .emit_bind rfl rfl fun _ => .skipToSemicolon,
        .behind .here fun _ => .behind (.emit rfl rfl) fun _ => .of_advances advances_skipToSemicolon⟩
  | unsupported construct head skipped =>
      exact ⟨Delivers.cursor.bind fun _ => .emit_bind rfl rfl fun _ =>
          (Delivers.forward _).bind fun _ => .skipStatement,
        .behind .cursor fun _ => .behind (.emit rfl rfl) fun _ => .behind (.forward _) fun _ =>
          .of_advances advances_skipStatement⟩
  | constructor => exact absurd rfl hconstructor
  | method => exact absurd rfl hmethod
  | statement => exact ⟨h.statement, h.moves⟩

/-- A member delivers comments and steps over a token, and it declares something or nothing. -/
theorem exists_of_member (h : inner.Delivers source) {c d : Cursor} {events : List Event} {u : Unit}
    (hc : c.Sited source) (hrun : member inner c = (events, .ok (u, d))) :
    (∃ comments, c.Delivers comments events d) ∧ c.Passes d ∧
      ((∀ e ∈ events, e.declares = false) ∨ Declares c events) := by
  change memberOf inner (memberShape c) c = _ at hrun
  by_cases hconstructor : memberShape c = .constructor
  · rw [hconstructor] at hrun
    exact ⟨(carries_constructor h).1 c events u d hc hrun,
      (carries_constructor h).2 c events u d hc hrun, .inr (declares_constructor h hc hrun)⟩
  by_cases hmethod : memberShape c = .method
  · rw [hmethod] at hrun
    exact ⟨(carries_method h).1 c events u d hc hrun,
      (carries_method h).2 c events u d hc hrun, .inr (declares_method h hc hrun)⟩
  · obtain ⟨hdelivers, hmoves⟩ := delivers_memberOf h hconstructor hmethod
    obtain ⟨hcomments, hplain⟩ := hdelivers c events u d hc hrun
    exact ⟨hcomments, hmoves c events u d hc hrun, .inl hplain⟩

theorem eq_of_memberRound_false {c d : Cursor} {events : List Event}
    (hrun : memberRound inner c = (events, .ok (false, d))) :
    c.here.isEnd = true ∧ events = [] ∧ d = c := by
  change (if c.here.isEnd = true then _ else _ : Reading Bool) c = _ at hrun
  split at hrun
  · next hend =>
      cases hrun
      exact ⟨hend, rfl, rfl⟩
  · obtain ⟨later, hmember, -⟩ := exists_of_reported hrun
    obtain ⟨hfalse, -⟩ := exists_of_bind_pure hmember
    cases hfalse

theorem exists_of_memberRound_true {c d : Cursor} {events : List Event}
    (hrun : memberRound inner c = (events, .ok (true, d))) :
    ∃ more, member inner c.relieved = (more, .ok ((), d)) ∧
      events = (c.due.map fun t => .comment t.toSpan) ++ more := by
  change (if c.here.isEnd = true then _ else _ : Reading Bool) c = _ at hrun
  split at hrun
  · cases hrun
  · obtain ⟨more, hmember, rfl⟩ := exists_of_reported hrun
    obtain ⟨-, _, hmember⟩ := exists_of_bind_pure hmember
    exact ⟨more, hmember, rfl⟩

theorem memberRound_true (h : inner.Delivers source) {c d : Cursor} {events : List Event}
    (hc : c.Sited source) (hrun : memberRound inner c = (events, .ok (true, d))) :
    c.Passes d ∧ d.Sited source := by
  obtain ⟨later, hmember, -⟩ := exists_of_memberRound_true hrun
  obtain ⟨-, hpasses, -⟩ := exists_of_member h hc.relieved hmember
  exact ⟨hpasses, (Cursor.Reaches.sited (c := c) hpasses.reaches hc).1⟩

end Reading

/-! ## What the assembly makes of a declaration -/

/-- Where a declaration begins. -/
def Event.declared? : Event → Option Span
  | .openMethod first _ _ | .openConstructor first _ _ => some first
  | _ => none

/-- The first tokens of the declarations that some events report. -/
def declarationStarts (events : List Event) : List Span := events.filterMap Event.declared?

theorem declarationStarts_append (events more : List Event) :
    declarationStarts (events ++ more) = declarationStarts events ++ declarationStarts more :=
  List.filterMap_append

theorem declarationStarts_of_plain {events : List Event} (h : ∀ e ∈ events, e.declares = false) :
    declarationStarts events = [] := by
  refine List.filterMap_eq_nil_iff.mpr fun e he => ?_
  have := h e he
  cases e <;> first | rfl | cases this

theorem declarationStarts_of_ends {events : List Event} (h : Reading.EndsDeclaration events) :
    declarationStarts events = [] := by
  obtain ⟨inside, last, hasBody, rfl, hinside⟩ := h
  rw [declarationStarts_append, declarationStarts_of_plain hinside]
  rfl

namespace Assembly

variable {a b : Assembly}

theorem openDocumentations_openDeclaration (header : Header) (first : Span) (modifiers : List Span) :
    (a.openDeclaration header first modifiers).openDocumentations =
      a.comment :: a.openDocumentations := rfl

/-- A header claims the pending comment for the declaration that it begins. -/
theorem documentations_of_header {opening : Event} {rest : List Event} {c : Assembly}
    (hopening : a.step opening = .ok b) (hdeclared : (opening.declared?).isSome)
    (hends : Reading.EndsDeclaration rest) (hrun : b.run rest = .ok c) :
    documentations (a.completions (opening :: rest)) = [a.comment] ∧
      c.openDocumentations = a.openDocumentations := by
  obtain ⟨inside, last, hasBody, rfl, hinside⟩ := hends
  refine documentations_declaration hopening ?_ ?_ hinside hrun
  · cases opening with
    | openMethod first modifiers name =>
        obtain ⟨⟨type, next⟩, hclaim, h⟩ := Except.exists_of_bind hopening
        cases h
        have hkeeps := keeps_claimType hclaim
        rw [openDocumentations_openDeclaration, hkeeps.documentations_eq]
        unfold claimType at hclaim
        split at hclaim <;> cases hclaim
        rfl
    | openConstructor first modifiers name =>
        cases hopening
        rfl
    | _ => cases hdeclared
  · cases opening <;> first | rfl | cases hdeclared

/-- A declaration with some events in front of its header. -/
theorem documentations_behind (front : List Event) {rest : List Event} {opening : Event} {place : Span}
    (hfront : ∀ e ∈ front, e.declares = false) {claimed : Option Text}
    (hclaimed : ∀ next, a.run front = .ok next → next.comment = claimed)
    (hdeclared : opening.declared? = some place) (hends : Reading.EndsDeclaration rest)
    (hrun : a.run (front ++ opening :: rest) = .ok b) :
    documentations (a.completions (front ++ opening :: rest)) = [claimed] ∧
      b.openDocumentations = a.openDocumentations ∧
      declarationStarts (front ++ opening :: rest) = [place] := by
  have hstarts : declarationStarts (front ++ opening :: rest) = [place] := by
    have hrest := declarationStarts_of_ends hends
    rw [declarationStarts_append, declarationStarts_of_plain hfront, declarationStarts,
      List.filterMap_cons_some hdeclared]
    exact congrArg (place :: ·) hrest
  rw [run_append] at hrun
  obtain ⟨next, hnext, hrun⟩ := Except.exists_of_bind hrun
  obtain ⟨opened, hopening, hrest⟩ := Except.exists_of_bind hrun
  obtain ⟨hone, hopen⟩ := documentations_of_header hopening (by simp [hdeclared]) hends hrest
  refine ⟨?_, hopen.trans (openDocumentations_run hnext hfront), hstarts⟩
  rw [completions_append hnext, documentations_append, documentations_completions hnext hfront, hone,
    hclaimed next hnext, List.nil_append]

/-- The documentation of a declaration is the comment that is pending where it begins, unless it has
type parameters. -/
theorem documentations_of_declares {c : Cursor} {events : List Event}
    (h : Reading.Declares c events) (hrun : a.run events = .ok b) :
    documentations (a.completions events) =
        [if Reading.hasTypeParameters c then none else a.comment] ∧
      b.openDocumentations = a.openDocumentations ∧ declarationStarts events = [c.here.toSpan] := by
  cases h with
  | constructor spans name hnone hends =>
      rw [hnone]
      refine documentations_behind [] (by simp) ?_ rfl hends hrun
      rintro _ ⟨⟩
      rfl
  | method first last spans name hnone hends =>
      rw [hnone]
      refine documentations_behind [.typeName first last] ?_ ?_ rfl hends hrun
      · simp [Event.declares]
      · rintro _ ⟨⟩
        rfl
  | generic place construct first last spans name hsome hends =>
      rw [hsome]
      refine documentations_behind [.unsupported place construct, .typeName first last] ?_
        ?_ rfl hends hrun
      · simp [Event.declares]
      · rintro _ ⟨⟩
        rfl

end Assembly

/-! ## Comments in front of a place -/

namespace Token

/-- The comments in front of a place with no other token between, the nearest first. -/
def commentsDirectlyBefore (tokens : List Token) (place : Span) : List Token :=
  (tokens.filter (·.start < place.start)).reverse.takeWhile (·.kind = .comment)

/-- The last comment in front of a place, whatever stands between. -/
def lastCommentBefore? (tokens : List Token) (place : Span) : Option Token :=
  (tokens.filter fun t => t.kind = .comment && t.start < place.start).getLast?

/-- Type parameters stand behind the modifiers of the declaration that begins at the place. -/
def hasTypeParametersAt (tokens : List Token) (place : Span) : Bool :=
  let code := tokens.filter fun t => t.kind ≠ .comment && place.start ≤ t.start
  (code.drop (modifierLengths code).sum).head?.any (·.isOperator ['<'])

end Token

/-- Stepping forward and looking ahead come to the same token, if it is not the end of input. -/
theorem Cursor.any_head?_drop {source : Text} {c : Cursor} (h : Token.Laid source c.tokens)
    {p : Token → Bool} (hp : ∀ t, t.isEnd → p t = false) (n : Nat) :
    (c.tokens.drop n).head?.any p = p (c.forward n).here := by
  induction n generalizing c with
  | zero => rfl
  | succ n ih =>
      obtain ⟨before, here, ahead, comments⟩ := c
      cases ahead with
      | nil =>
          have hend : here.isEnd := by
            by_contra hend
            exact (h.tail hend).ne_nil rfl
          have hstay := ih (c := ⟨before, here, [], comments⟩) h
          cases n with
          | zero => exact (hp here hend).symm
          | succ n => simpa [Cursor.tokens, Cursor.forward, Cursor.advance] using hstay
      | cons t ts =>
          have hlaid : Token.Laid source ([here] ++ t :: ts) := h
          exact ih (c := ⟨here, t, ts, comments⟩) (hlaid.drop (List.cons_ne_nil _ _))

/-- Where a cursor is on its way through the tokens of a source, with the comments that have been
reported. -/
structure Underway (source : Text) (tokens reported : List Token) (c : Cursor) : Prop where
  laid : Token.Laid source tokens
  solid : ∀ t ∈ tokens, ¬ t.isEnd → t.start < t.stop
  sited : c.Sited source
  exists_passed : ∃ passed, tokens.filter (·.kind ≠ .comment) = passed ++ c.tokens ∧
    ∀ t ∈ reported, ∃ u ∈ passed, t.start < u.start
  comments_eq : tokens.filter (·.kind = .comment) = reported ++ c.comments

theorem filter_eq_takeWhile {tokens : List Token} {n : Nat}
    (h : tokens.Pairwise fun t u => t.start ≤ u.start) :
    tokens.filter (·.start < n) = tokens.takeWhile (·.start < n) := by
  induction tokens with
  | nil => rfl
  | cons t tokens ih =>
      obtain ⟨hle, hrest⟩ := List.pairwise_cons.mp h
      by_cases ht : t.start < n
      · rw [List.filter_cons_of_pos (by simpa using ht), List.takeWhile_cons_of_pos (by simpa using ht),
          ih hrest]
      · rw [List.takeWhile_cons_of_neg (by simpa using ht), List.filter_eq_nil_iff]
        intro u hu
        rcases List.mem_cons.mp hu with rfl | hu
        · simpa using ht
        · have := hle u hu
          simp
          omega

namespace Underway

variable {source : Text} {tokens reported comments : List Token} {c d : Cursor} {events : List Event}

theorem passed_stop_le (h : Underway source tokens reported c) {passed : List Token}
    (hpassed : tokens.filter (·.kind ≠ .comment) = passed ++ c.tokens) :
    ∀ u ∈ passed, u ∈ tokens ∧ u.start < u.stop ∧ ∀ t ∈ c.tokens, u.stop ≤ t.start := by
  intro u hu
  have hcode : u ∈ tokens.filter (·.kind ≠ .comment) := hpassed ▸ List.mem_append_left _ hu
  have hmem := (List.mem_filter.mp hcode).1
  have hlaid := h.laid.filter (p := fun t => decide (t.kind ≠ .comment)) fun t ht => by
    simp only [Token.isEnd, decide_eq_true_eq] at ht
    simp [ht]
  rw [hpassed] at hlaid
  have hend := hlaid.not_isEnd (List.cons_ne_nil _ _) u hu
  exact ⟨hmem, h.solid u hmem hend, (List.pairwise_append.mp hlaid.ordered).2.2 u hu⟩

/-- The comments in front of the token at the cursor have been reported, or it is their turn. -/
theorem filter_before (h : Underway source tokens reported c) :
    (tokens.filter fun t => t.kind = .comment && t.start < c.here.start) = reported ++ c.due := by
  obtain ⟨passed, hpassed, hreported⟩ := h.exists_passed
  have hordered : (tokens.filter (·.kind = .comment)).Pairwise fun t u => t.start ≤ u.start := by
    refine (h.laid.ordered.filter _).imp_of_mem fun ht _ hle => ?_
    exact (h.laid.liesIn _ (List.mem_filter.mp ht).1).start_le_stop.trans hle
  have hfilter : (reported ++ c.comments).filter (·.start < c.here.start) = reported ++ c.due := by
    rw [h.comments_eq] at hordered
    rw [List.filter_append, filter_eq_takeWhile (List.pairwise_append.mp hordered).2.1]
    refine congrArg (· ++ c.due) (List.filter_eq_self.mpr fun t ht => ?_)
    obtain ⟨u, hu, hlt⟩ := hreported t ht
    obtain ⟨-, hsolid, hle⟩ := h.passed_stop_le hpassed u hu
    have := hle c.here List.mem_cons_self
    simp only [decide_eq_true_eq]
    omega
  rw [← hfilter, ← h.comments_eq, List.filter_filter]
  exact List.filter_congr fun t _ => Bool.and_comm ..

theorem lastCommentBefore?_eq (h : Underway source tokens reported c) :
    Token.lastCommentBefore? tokens c.here.toSpan = (reported ++ c.due).getLast? := by
  rw [Token.lastCommentBefore?, ← h.filter_before]

/-- A comment directly in front of the token at the cursor has not been reported before. -/
theorem due_getLast? (h : Underway source tokens reported c) {t : Token}
    (ht : (Token.commentsDirectlyBefore tokens c.here.toSpan).head? = some t) :
    c.due.getLast? = some t := by
  obtain ⟨hkind, before, hbefore⟩ : t.kind = .comment ∧
      ∃ before, tokens.filter (·.start < c.here.start) = before ++ [t] := by
    rw [Token.commentsDirectlyBefore] at ht
    cases hreverse : (tokens.filter (·.start < c.here.start)).reverse with
    | nil => simp [hreverse] at ht
    | cons u rest =>
        rw [hreverse, List.takeWhile_cons] at ht
        split at ht
        · next hkind =>
            cases ht
            exact ⟨by simpa using hkind, rest.reverse, by simpa using congrArg List.reverse hreverse⟩
        · cases ht
  have hcomments : reported ++ c.due = before.filter (·.kind = .comment) ++ [t] := by
    rw [← h.filter_before, ← List.filter_filter, hbefore, List.filter_append]
    simp [hkind]
  rcases List.eq_nil_or_concat c.due with hdue | ⟨others, last, hdue⟩
  · obtain ⟨passed, hpassed, hreported⟩ := h.exists_passed
    rw [hdue, List.append_nil] at hcomments
    obtain ⟨u, hu, hlt⟩ := hreported t (by simp [hcomments])
    obtain ⟨hmem, hsolid, hle⟩ := h.passed_stop_le hpassed u hu
    have hhere := hle c.here List.mem_cons_self
    have hfront : u ∈ before ++ [t] := hbefore ▸ List.mem_filter.mpr ⟨hmem, by simp; omega⟩
    have hordered := h.laid.ordered.filter (p := (·.start < c.here.start))
    rw [hbefore, List.pairwise_append] at hordered
    rcases List.mem_append.mp hfront with hu | hu
    · have := hordered.2.2 u hu t (by simp)
      omega
    · obtain rfl := List.mem_singleton.mp hu
      omega
  · rw [hdue, List.concat_eq_append, ← List.append_assoc] at hcomments
    have hlast := (List.append_inj' hcomments rfl).2
    rw [hdue, List.concat_eq_append, hlast, List.getLast?_concat]

theorem hasTypeParametersAt_eq (h : Underway source tokens reported c) :
    Token.hasTypeParametersAt tokens c.here.toSpan = Reading.hasTypeParameters c := by
  obtain ⟨passed, hpassed, -⟩ := h.exists_passed
  have hcode : (tokens.filter fun t => t.kind ≠ .comment && c.here.start ≤ t.start) = c.tokens := by
    have hfront : passed.filter (c.here.start ≤ ·.start) = [] := by
      refine List.filter_eq_nil_iff.mpr fun u hu => ?_
      obtain ⟨-, hsolid, hle⟩ := h.passed_stop_le hpassed u hu
      have := hle c.here List.mem_cons_self
      simp
      omega
    have hbehind : c.tokens.filter (c.here.start ≤ ·.start) = c.tokens := by
      refine List.filter_eq_self.mpr fun t ht => ?_
      rcases List.mem_cons.mp ht with rfl | ht
      · simp
      · have := (List.pairwise_cons.mp h.sited.laid.ordered).1 t ht
        have := (h.sited.laid.liesIn c.here List.mem_cons_self).start_le_stop
        simp
        omega
    rw [← hbehind, ← List.nil_append (c.tokens.filter _), ← hfront, ← List.filter_append, ← hpassed,
      List.filter_filter]
    exact List.filter_congr fun t _ => Bool.and_comm ..
  simp only [Token.hasTypeParametersAt, hcode]
  exact Cursor.any_head?_drop h.sited.laid (fun t ht => by
    simp only [Token.isEnd, decide_eq_true_eq] at ht
    simp [Token.isOperator, ht]) c.modifierCount

theorem liesIn_of_comment (h : Underway source tokens reported c) {t : Token}
    (ht : t ∈ c.comments) : t.LiesIn source := by
  have hmem : t ∈ tokens.filter (·.kind = .comment) := by
    rw [h.comments_eq]
    exact List.mem_append_right _ ht
  exact h.laid.liesIn t (List.mem_filter.mp hmem).1

theorem delivered (h : Underway source tokens reported c) (hdelivers : c.Delivers comments events d)
    (hpasses : c.Passes d) : Underway source tokens (reported ++ comments) d where
  laid := h.laid
  solid := h.solid
  sited := (hdelivers.reaches.sited h.sited).1
  exists_passed := by
    obtain ⟨passed, hcode, hreported⟩ := h.exists_passed
    obtain ⟨more, hne, htokens, hbefore⟩ := hpasses
    refine ⟨passed ++ more, by rw [hcode, htokens, List.append_assoc], fun t ht => ?_⟩
    rcases List.mem_append.mp ht with ht | ht
    · obtain ⟨u, hu, hlt⟩ := hreported t ht
      exact ⟨u, List.mem_append_left _ hu, hlt⟩
    · refine ⟨d.before, List.mem_append_right _ ?_, hdelivers.passed t ht⟩
      rw [hbefore, List.getLastD_eq_getLast?, List.getLast?_eq_some_getLast hne]
      exact List.getLast_mem hne
  comments_eq := by rw [h.comments_eq, hdelivers.comments_eq, List.append_assoc]

end Underway

/-! ## Rounds of members -/

/-- An assembly on its way through the events of a source: what is pending is the last comment that has
been reported, or nothing. -/
structure Assembling (source : Text) (options : Options) (reported : List Token) (a : Assembly) :
    Prop where
  source_eq : a.source = source
  options_eq : a.options = options
  comment : a.comment = none ∨
    a.comment = reported.getLast?.map fun t => plainComment options.commentWidth t.text

namespace Assembling

variable {source : Text} {options : Options} {reported comments : List Token} {a b : Assembly}
  {events : List Event}

theorem pendingAfter_eq (h : Assembling source options reported a)
    (hspans : events.filterMap Event.comment? = comments.map Token.toSpan)
    (hlies : ∀ t ∈ comments, t.LiesIn source) :
    a.pendingAfter events =
      (comments.getLast?.map fun t => plainComment options.commentWidth t.text).or a.comment := by
  rw [Assembly.pendingAfter, hspans, List.getLast?_map, Option.map_map, h.options_eq]
  congr 1
  cases hlast : comments.getLast? with
  | none => rfl
  | some t =>
      have hslice := (hlies t (List.mem_of_getLast? hlast)).slice?_eq
      simp [Assembly.textOf, h.source_eq, hslice]

theorem follows (h : Assembling source options reported a) (hfollows : a.Follows events b)
    (hspans : events.filterMap Event.comment? = comments.map Token.toSpan)
    (hlies : ∀ t ∈ comments, t.LiesIn source) :
    Assembling source options (reported ++ comments) b where
  source_eq := hfollows.source_eq.trans h.source_eq
  options_eq := hfollows.options_eq.trans h.options_eq
  comment := by
    rcases hfollows.comment with hpending | hnone
    · rw [hpending, h.pendingAfter_eq hspans hlies, List.getLast?_append, Option.map_or]
      cases comments.getLast? with
      | none => simpa using h.comment
      | some t => exact .inr rfl
    · exact .inl hnone

end Assembling

theorem Assembly.comment_of_comments (comments : List Token) {a b : Assembly}
    (h : a.run (comments.map fun t => .comment t.toSpan) = .ok b) :
    b.comment = a.pendingAfter (comments.map fun t => .comment t.toSpan) := by
  rcases List.eq_nil_or_concat comments with rfl | ⟨others, last, rfl⟩
  · cases h
    rfl
  · rw [List.concat_eq_append, List.map_append] at h ⊢
    rw [run_append] at h
    obtain ⟨c, hothers, hlast⟩ := Except.exists_of_bind h
    have hfollows := follows_run hothers
    rw [pendingAfter_append hfollows.source_eq hfollows.options_eq]
    cases hlast
    rfl

/-- What is told of the documentation of a declaration that begins at a place. -/
structure Documented (tokens : List Token) (width : Option Nat) (place : Span)
    (documentation : Option Text) : Prop where
  claimed : ∀ text, documentation = some text →
    ∃ t, Token.lastCommentBefore? tokens place = some t ∧ text = plainComment width t.text
  kept : ∀ t, (Token.commentsDirectlyBefore tokens place).head? = some t →
    documentation =
      if Token.hasTypeParametersAt tokens place then none else some (plainComment width t.text)

namespace Reading

variable {source : Text} {options : Options} {inner : Enclosed} {tokens reported : List Token}

theorem hasTypeParameters_relieved (c : Cursor) :
    hasTypeParameters c.relieved = hasTypeParameters c := by
  have hforward (n : Nat) (c : Cursor) (comments : List Token) :
      (Cursor.forward n { c with comments }).here = (c.forward n).here := by
    induction n generalizing c with
    | zero => rfl
    | succ n ih =>
        obtain ⟨before, here, ahead, waiting⟩ := c
        cases ahead with
        | nil => exact ih ⟨before, here, [], waiting⟩
        | cons t ts => exact ih ⟨here, t, ts, waiting⟩
  exact congrArg (·.isOperator ['<']) (hforward _ c _)

/-- The documentation of a declaration in front of which the comments have just been reported. -/
theorem documented_of_due {c : Cursor} {a b : Assembly} (hc : Underway source tokens reported c)
    (ha : Assembling source options reported a)
    (hrun : a.run (c.due.map fun t => .comment t.toSpan) = .ok b) :
    Documented tokens options.commentWidth c.here.toSpan
      (if hasTypeParameters c then none else b.comment) := by
  have hlies : ∀ t ∈ c.due, t.LiesIn source := fun t ht => hc.liesIn_of_comment (by
    rw [c.comments_eq_due]
    exact List.mem_append_left _ ht)
  have hspans : (c.due.map fun t => Event.comment t.toSpan).filterMap Event.comment? =
      c.due.map Token.toSpan := by
    rw [List.filterMap_map]
    exact congrFun List.filterMap_eq_map c.due
  constructor
  · intro text htext
    rw [hc.lastCommentBefore?_eq]
    split at htext
    · cases htext
    · rcases (ha.follows (Assembly.follows_run hrun) hspans hlies).comment with hnone | hlast
      · rw [hnone] at htext
        cases htext
      · rw [hlast] at htext
        obtain ⟨t, ht, rfl⟩ := Option.map_eq_some_iff.mp htext
        exact ⟨t, ht, rfl⟩
  · intro t ht
    rw [hc.hasTypeParametersAt_eq, Assembly.comment_of_comments c.due hrun,
      ha.pendingAfter_eq hspans hlies, hc.due_getLast? ht]
    rfl

/-- The comments in front of a member are reported, and then the member. -/
theorem underway_member (h : inner.Delivers source) {c d : Cursor} {events : List Event}
    (hc : Underway source tokens reported c)
    (hrun : member inner c.relieved = (events, .ok ((), d))) :
    ∃ more, Underway source tokens (reported ++ more) d ∧
      c.Delivers more ((c.due.map fun t => .comment t.toSpan) ++ events) d := by
  obtain ⟨⟨comments, hdelivers⟩, hpasses, -⟩ := exists_of_member h hc.sited.relieved hrun
  have hwhole := hdelivers.of_relieved hc.sited hpasses
  exact ⟨_, hc.delivered hwhole hpasses, hwhole⟩

theorem documented_round (h : inner.Delivers source) {c d : Cursor} {events : List Event}
    {again : Bool} {a b : Assembly} (hc : Underway source tokens reported c)
    (ha : Assembling source options reported a)
    (hread : memberRound inner c = (events, .ok (again, d))) (hrun : a.run events = .ok b) :
    ∃ more, Underway source tokens (reported ++ more) d ∧
      Assembling source options (reported ++ more) b ∧
      List.Forall₂ (Documented tokens options.commentWidth) (declarationStarts events)
        (documentations (a.completions events)) := by
  cases again with
  | false =>
      obtain ⟨-, rfl, rfl⟩ := eq_of_memberRound_false hread
      cases hrun
      exact ⟨[], by simpa using hc, by simpa using ha, .nil⟩
  | true =>
      obtain ⟨later, hmember, rfl⟩ := exists_of_memberRound_true hread
      obtain ⟨more, hd, hwhole⟩ := underway_member h hc hmember
      have hlies : ∀ t ∈ more, t.LiesIn source := fun t ht => hc.liesIn_of_comment (by
        rw [hwhole.comments_eq]
        exact List.mem_append_left _ ht)
      refine ⟨more, hd, ha.follows (Assembly.follows_run hrun) hwhole.spans_eq hlies, ?_⟩
      rw [Assembly.run_append] at hrun
      obtain ⟨next, hdue, hrest⟩ := Except.exists_of_bind hrun
      have hcomments := declares_comment c.due
      rw [declarationStarts_append, declarationStarts_of_plain hcomments,
        Assembly.completions_append hdue, documentations_append,
        Assembly.documentations_completions hdue hcomments, List.nil_append, List.nil_append]
      rcases (exists_of_member h hc.sited.relieved hmember).2.2 with hplain | hdeclares
      · rw [declarationStarts_of_plain hplain, Assembly.documentations_completions hrest hplain]
        exact .nil
      · obtain ⟨hone, -, hstart⟩ := Assembly.documentations_of_declares hdeclares hrest
        rw [hone, hstart, hasTypeParameters_relieved]
        exact .cons (documented_of_due hc ha hdue) .nil

/-- The rounds of members, whatever the budget. -/
theorem documented_loop (h : inner.Delivers source) (budget : List Token) {c d : Cursor}
    {events : List Event} {u : Unit} {a b : Assembly} (hc : Underway source tokens reported c)
    (ha : Assembling source options reported a)
    (hread : loop (memberRound inner) budget c = (events, .ok (u, d))) (hrun : a.run events = .ok b) :
    List.Forall₂ (Documented tokens options.commentWidth) (declarationStarts events)
      (documentations (a.completions events)) := by
  induction budget generalizing reported c a events with
  | nil =>
      obtain ⟨again, hround⟩ := (exists_of_bind_pure hread).2
      obtain ⟨more, -, -, hdocumented⟩ := documented_round h hc ha hround hrun
      exact hdocumented
  | cons t budget ih =>
      obtain ⟨first, again, e, rest, hround, hrest, rfl⟩ := exists_of_bind_ok hread
      rw [Assembly.run_append] at hrun
      obtain ⟨next, hfirst, hrun⟩ := Except.exists_of_bind hrun
      obtain ⟨more, he, hnext, hdocumented⟩ := documented_round h hc ha hround hfirst
      rw [declarationStarts_append, Assembly.completions_append hfirst, documentations_append]
      refine List.rel_append hdocumented ?_
      cases again with
      | false =>
          cases hrest
          cases hrun
          exact .nil
      | true => exact ih he hnext hrest hrun

end Reading

/-! ## Whole sources -/

theorem Underway.of_lex {source : Text} {tokens : List Token} {c : Cursor}
    (htokens : lex source = .ok tokens) (hc : Cursor.ofTokens tokens = some c) :
    Underway source tokens [] c := by
  have hsited := Cursor.sited_of_ofTokens (laid_of_lex htokens) hc
  unfold Cursor.ofTokens at hc
  split at hc
  · cases hc
  · next here ahead hcode =>
      cases hc
      exact ⟨laid_of_lex htokens, start_lt_stop_of_lex htokens, hsited, ⟨[], hcode, by simp⟩, rfl⟩

/-- A source that can be read to its end is read as members from its first token on. -/
theorem exists_members_of_readEvents {source : Text} {tokens : List Token}
    (htokens : lex source = .ok tokens) (hread : (readEvents source).2 = .ok ()) :
    ∃ c d, Cursor.ofTokens tokens = some c ∧
      Reading.members (Enclosed.within nestingLimit) c = ((readEvents source).1, .ok ((), d)) := by
  obtain ⟨c, hc⟩ := Cursor.exists_ofTokens (laid_of_lex htokens)
  simp only [readEvents, htokens, hc] at hread ⊢
  cases hresult : Reading.members (Enclosed.within nestingLimit) c with
  | mk events result =>
      rw [hresult] at hread
      cases result with
      | error e => cases hread
      | ok behind => exact ⟨c, behind.2, rfl, hresult⟩

theorem documented_readEvents {options : Options} {source : Text} {tokens : List Token}
    {a : Assembly} (htokens : lex source = .ok tokens) (hread : (readEvents source).2 = .ok ())
    (hrun : (Assembly.start source options).run (readEvents source).1 = .ok a) :
    List.Forall₂ (Documented tokens options.commentWidth) (declarationStarts (readEvents source).1)
      (documentations ((Assembly.start source options).completions (readEvents source).1)) := by
  obtain ⟨c, d, hc, hmembers⟩ := exists_members_of_readEvents htokens hread
  rw [Reading.members_eq] at hmembers
  obtain ⟨rounds, u, e, comments, hrounds, hcomments, hevents⟩ := Reading.exists_of_bind_ok hmembers
  rw [hevents, Assembly.run_append] at hrun
  obtain ⟨next, hfirst, hlast⟩ := Except.exists_of_bind hrun
  cases (e.reportComments_eq.symm.trans hcomments)
  have hplain := Reading.declares_comment e.due
  rw [hevents, declarationStarts_append, declarationStarts_of_plain hplain,
    Assembly.completions_append hfirst, documentations_append,
    Assembly.documentations_completions hlast hplain, List.append_nil, List.append_nil]
  exact Reading.documented_loop (Enclosed.delivers_within source nestingLimit) c.ahead
    (.of_lex htokens hc) ⟨rfl, rfl, .inl rfl⟩ hrounds hfirst

theorem documented_convert {options : Options} {source : Text} {tokens : List Token}
    {conversion : Conversion} (h : convert options source = .ok conversion)
    (htokens : lex source = .ok tokens) :
    List.Forall₂ (Documented tokens options.commentWidth) (declarationStarts (readEvents source).1)
      (documentations (blockPostOrder conversion.elements)) := by
  obtain ⟨events, a, hread, hrun, hfinish⟩ := exists_of_convert h
  obtain rfl : (readEvents source).1 = events := congrArg Prod.fst hread
  rw [Assembly.blockPostOrder_of_finish hrun hfinish]
  exact documented_readEvents htokens (congrArg Prod.snd hread) hrun

/-- A class whose body has a comment in it, and a method behind the class. -/
def commentInClass : Text := "class A { /* inner */ } void f() {}".toList

/-- The nearest comment directly in front of a declaration becomes its documentation, unless the
declaration has type parameters, and then it has no documentation. -/
theorem documentation_nearest_comment {options : Options} {source : Text} {tokens : List Token}
    {conversion : Conversion} (h : convert options source = .ok conversion)
    (htokens : lex source = .ok tokens) :
    List.Forall₂ (fun place documentation => ∀ t,
        (Token.commentsDirectlyBefore tokens place).head? = some t →
          documentation = if Token.hasTypeParametersAt tokens place then none
            else some (plainComment options.commentWidth t.text))
      (declarationStarts (readEvents source).1)
      (documentations (blockPostOrder conversion.elements)) :=
  (documented_convert h htokens).imp fun _ _ hdocumented => hdocumented.kept

/-- A comment directly in front of a method with type parameters. -/
def commentBeforeGeneric : Text := "/** doc */ <T> void f() {}".toList

theorem documentation_nearest_comment_generic : ∃ conversion tokens,
    convert .default commentBeforeGeneric = .ok conversion ∧ lex commentBeforeGeneric = .ok tokens ∧
    List.Forall₂ (fun place documentation => ∀ t,
        (Token.commentsDirectlyBefore tokens place).head? = some t →
          documentation = if Token.hasTypeParametersAt tokens place then none
            else some (plainComment none t.text))
      (declarationStarts (readEvents commentBeforeGeneric).1)
      (documentations (blockPostOrder conversion.elements)) := by
  obtain ⟨conversion, h⟩ : ∃ conversion, convert .default commentBeforeGeneric = .ok conversion :=
    Except.exists_of_isOk (by decide +kernel)
  obtain ⟨tokens, htokens⟩ : ∃ tokens, lex commentBeforeGeneric = .ok tokens :=
    Except.exists_of_isOk (by decide +kernel)
  exact ⟨conversion, tokens, h, htokens, documentation_nearest_comment h htokens⟩

/-- The report of type parameters drops the comment in front of the method. -/
theorem not_documentation_of_generic : ¬ ∀ (options : Options) (source : Text)
    (tokens : List Token) (conversion : Conversion), convert options source = .ok conversion →
    lex source = .ok tokens →
    List.Forall₂ (fun place documentation => ∀ t,
        (Token.commentsDirectlyBefore tokens place).head? = some t →
          documentation = some (plainComment options.commentWidth t.text))
      (declarationStarts (readEvents source).1)
      (documentations (blockPostOrder conversion.elements)) := by
  intro hall
  obtain ⟨conversion, h, hdocumentations⟩ : ∃ conversion,
      convert .default commentBeforeGeneric = .ok conversion ∧
        documentations (blockPostOrder conversion.elements) = [none] :=
    Except.exists_of_map_eq (by decide +kernel)
  obtain ⟨tokens, htokens, hbefore⟩ : ∃ tokens, lex commentBeforeGeneric = .ok tokens ∧
      (declarationStarts (readEvents commentBeforeGeneric).1).map
        (fun place => (Token.commentsDirectlyBefore tokens place).isEmpty) = [false] :=
    Except.exists_of_map_eq (by decide +kernel)
  have hone := hall .default commentBeforeGeneric tokens conversion h htokens
  rw [hdocumentations] at hone
  obtain ⟨place, places, hclaim, hnil, hstarts⟩ := List.forall₂_cons_right_iff.mp hone
  rw [hstarts, List.map_cons, List.cons.injEq] at hbefore
  cases hcomments : Token.commentsDirectlyBefore tokens place with
  | nil => simp [hcomments] at hbefore
  | cons t rest => cases hclaim t (by simp [hcomments])

end CodeFrames
