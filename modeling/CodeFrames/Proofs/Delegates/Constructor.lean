import CodeFrames.Proofs.Delegates.Arguments
import CodeFrames.Proofs.Documentation

/-!
# Constructors that call another one

A constructor whose body opens with a call of another constructor is described by an element with that
call as its delegate.  What comes behind the semicolon of the call, and nothing else, is described by the
body of the element.
-/

namespace CodeFrames

open Sentence

/-! ## The events of constructors -/

namespace Event

/-- The first token of the block that is opened. -/
def opened? : Event → Option Span
  | .openBlock first => some first
  | _ => none

/-- A constructor begins. -/
def constructs : Event → Bool
  | .openConstructor _ _ _ => true
  | _ => false

end Event

/-- The first tokens of the bodies of the constructors that some events report. -/
def bodyBraces : List Event → List Span
  | [] => []
  | .openConstructor _ _ _ :: rest => (rest.findSome? Event.opened?).toList ++ bodyBraces rest
  | _ :: rest => bodyBraces rest

theorem bodyBraces_append {events : List Event} (h : ∀ e ∈ events, e.constructs = false)
    (more : List Event) : bodyBraces (events ++ more) = bodyBraces more := by
  induction events with
  | nil => rfl
  | cons e events ih =>
      obtain ⟨he, hrest⟩ := List.forall_mem_cons.mp h
      cases e <;> first | exact ih hrest | cases he

/-- The events of one constructor, with the first token of its body. -/
def OpensBody (brace : Span) (events : List Event) : Prop :=
  ∃ first modifiers name header rest,
    events = .openConstructor first modifiers name :: (header ++ .openBlock brace :: rest) ∧
    (∀ e ∈ header, e.opened? = none) ∧
    ∀ e ∈ header ++ .openBlock brace :: rest, e.constructs = false

theorem OpensBody.bodyBraces_append {brace : Span} {events : List Event} (h : OpensBody brace events)
    (more : List Event) : bodyBraces (events ++ more) = brace :: bodyBraces more := by
  obtain ⟨first, modifiers, name, header, rest, rfl, hheader, hplain⟩ := h
  have hfirst : (header ++ .openBlock brace :: rest ++ more).findSome? Event.opened? = some brace := by
    rw [List.append_assoc, List.findSome?_append, List.findSome?_eq_none_iff.mpr hheader]
    rfl
  rw [List.cons_append, bodyBraces, hfirst, CodeFrames.bodyBraces_append hplain]
  rfl

theorem constructs_of_declares {events : List Event} (h : ∀ e ∈ events, e.declares = false) :
    ∀ e ∈ events, e.constructs = false := by
  intro e he
  have := h e he
  cases e <;> first | rfl | cases this

theorem constructs_of_ends {events : List Event} (h : Reading.EndsDeclaration events) :
    ∀ e ∈ events, e.constructs = false := by
  obtain ⟨inside, last, hasBody, rfl, hinside⟩ := h
  exact List.forall_mem_append.mpr ⟨constructs_of_declares hinside, by simp [Event.constructs]⟩

theorem Sentence.Parameters.opened_eq_none {source : Text} {events : List Event}
    {parameters : List Parameter} {warnings : List Warning}
    (h : Parameters source events parameters warnings) : ∀ e ∈ events, e.opened? = none := by
  induction h with
  | nothing => simp
  | parameter first last name ellipsis _ ih => simpa [Event.opened?] using ih

theorem Sentence.Throws.opened_eq_none {source : Text} {events : List Event} {throws : List Fragment}
    (h : Throws source events throws) : ∀ e ∈ events, e.opened? = none := by
  cases h with
  | nothing => simp
  | clause keyword types _ =>
      refine List.forall_mem_cons.mpr ⟨rfl, List.forall_mem_append.mpr ⟨fun e he => ?_, by simp [Event.opened?]⟩⟩
      obtain ⟨t, -, rfl⟩ := List.mem_map.mp he
      rfl

namespace Reading

variable {source : Text} {width : Option Nat} {inner : Enclosed} {c d : Cursor} {events : List Event}

/-! ## The call -/

/-- A call of another constructor at the start of a body: the tokens behind its opening parenthesis are
those of the arguments, the closing parenthesis, a semicolon and the rest of the body. -/
structure OpeningCall (source : Text) (inner : Enclosed) (keyword : Token) (behind : List Token) where
  target : DelegateTarget
  arguments : List (List Token)
  between : List Token
  closing : Token
  semicolon : Token
  rest : List Token
  target_eq : DelegateTarget.ofText? keyword.text = some target
  behind_eq : behind = between ++ closing :: semicolon :: rest
  closing_kind : closing.kind = .closeParen
  semicolon_kind : semicolon.kind = .semicolon
  list : ArgumentList source inner (closing :: semicolon :: rest) arguments between

theorem exists_of_delegateCall (hinner : inner.Bounding source) (hc : c.Sited source)
    (hopens : opensDelegateCall c = true) (h : delegateCall inner c = (events, .ok ((), d))) :
    ∃ paren behind inside warnings, ∃ call : OpeningCall source inner c.here behind,
      c.tokens = c.here :: paren :: behind ∧ call.rest = d.tokens ∧ c.Reaches d ∧
      events = .expressionStatement c.here.toSpan :: .openExpression c.here.toSpan ::
        .delegateCall c.here.toSpan :: .openArguments paren.toSpan ::
          (inside ++ [.closeArguments call.closing.toSpan, .closeExpression call.closing.toSpan false]) ∧
      DelegateTarget.ofText? (c.here.toSpan.textIn source) = some call.target ∧
      (Text.slice? source c.here.start call.closing.stop).isSome = true ∧
      DelegateArguments source inside (argumentTexts source call.arguments) warnings := by
  obtain ⟨target, htarget⟩ := delegateTarget_of_opensDelegateCall hc.laid hopens
  have htext : c.here.toSpan.textIn source = c.here.text := by
    rw [Span.textIn, (hc.laid.liesIn c.here List.mem_cons_self).slice?_eq, Option.getD_some]
  have hkeyword := Cursor.spans_advance hc.laid (not_isEnd_of_opensDelegateCall hopens)
  change (emit (.expressionStatement c.here.toSpan) >>= fun _ =>
    emit (.openExpression c.here.toSpan) >>= fun _ => emit (.delegateCall c.here.toSpan) >>= fun _ =>
      take >>= fun _ => arguments inner >>= fun _ => before >>= fun last =>
        emit (.closeExpression last.toSpan false) >>= fun _ => semicolon >>= fun _ => pure ()) c = _ at h
  obtain ⟨rest₁, h₁, rfl⟩ := exists_of_emit_bind h
  obtain ⟨rest₂, h₂, rfl⟩ := exists_of_emit_bind h₁
  obtain ⟨rest₃, h₃, rfl⟩ := exists_of_emit_bind h₂
  rw [bind_of_silent _ (show take c = ([], .ok (c.here, c.advance)) from rfl)] at h₃
  obtain ⟨given, _, e, closed, harguments, hclosed, rfl⟩ := exists_of_bind_ok h₃
  obtain ⟨arguments, between, closing, inside, warnings, -, hclosing, hspans, hlist, rfl, hdescribed⟩ :=
    exists_of_arguments hinner hc.advance harguments
  have he := hc.advance.reaching ⟨_, hspans⟩
  have hbefore : e.before = closing := by
    have := hspans.2
    rwa [List.getLastD_cons, List.getLastD_concat] at this
  rw [bind_of_silent _ (show before e = ([], .ok (e.before, e)) from rfl)] at hclosed
  obtain ⟨rest₄, h₄, rfl⟩ := exists_of_emit_bind hclosed
  obtain ⟨hsemicolon, hadvance, h₅⟩ := exists_of_expect_bind he (by decide) h₄
  cases h₅
  have hrest : e.tokens = e.here :: e.advance.tokens := hadvance.1
  have hparen : c.advance.tokens = c.advance.here :: (between ++ closing :: e.here :: e.advance.tokens) := by
    rw [hspans.1, hrest]
    simp
  have htokens : c.tokens = c.here :: c.advance.tokens := hkeyword.1
  have hmem : closing ∈ c.tokens := by
    rw [htokens, hparen]
    simp
  have hslice := hc.laid.slice?_isSome hmem
  rw [hrest] at hlist
  refine ⟨c.advance.here, _, inside, warnings, ⟨target, arguments, between, closing, e.here, e.advance.tokens,
    by rw [← htext, htarget], rfl, hclosing, hsemicolon, hlist⟩, by rw [htokens, hparen], rfl,
    ⟨_, hkeyword.trans (hspans.trans hadvance)⟩, ?_, htarget, hslice, hdescribed⟩
  rw [hbefore]
  simp

/-! ## The body -/

/-- The elements are what the rest of a block is described by. -/
def BlockShows (source : Text) (width : Option Nat) (inner : Enclosed) (rest : List Token)
    (body : Block) : Prop :=
  ∃ c d events last pending warnings, c.Sited source ∧ c.tokens = rest ∧
    blockRest inner c = (events ++ [.closeBlock last], .ok ((), d)) ∧
    Items source width pending events body warnings

theorem constructorRest_eq (inner : Enclosed) : constructorRest inner = (do
    parameters
    throwsClause
    let brace ← expect .openBrace "\x7b"
    emit (.openBlock brace.toSpan)
    reportComments
    constructorBody inner) := rfl

theorem exists_of_blockRest (hreports : inner.Reports source width) (hc : c.Sited source)
    (h : blockRest inner c = (events, .ok ((), d))) :
    ∃ inside last, events = inside ++ [.closeBlock last] ∧ inside ∈ items source width := by
  obtain ⟨⟨inside, hinside, _, ⟨last, rfl⟩, rfl⟩, -⟩ :=
    (reports_blockRest hreports c hc.laid).mem_and_reaches h
  exact ⟨inside, last, rfl, hinside⟩

/-- A call at the start of a body becomes the delegate, and only what comes behind it becomes the body. -/
def ShowsCall (source : Text) (width : Option Nat) (inner : Enclosed) (body : Cursor)
    (delegate : Option Delegate) (elements : Block) : Prop :=
  ∃ paren behind, ∃ call : OpeningCall source inner body.here behind,
    body.tokens = body.here :: paren :: behind ∧
    delegate = some ⟨call.target, .expression (Text.join [','] (argumentTexts source call.arguments))⟩ ∧
    BlockShows source width inner call.rest elements

theorem exists_of_constructorBody (hinner : inner.Bounding source) (hreports : inner.Reports source width)
    (brace : Span) (comments : List Span) (hc : c.Sited source)
    (h : constructorBody inner c = (events, .ok ((), d))) :
    ∃ inside last delegate body warnings, events = inside ++ [.closeDeclaration last true] ∧
      ConstructorBody source width (.openBlock brace :: (comments.map Event.comment ++ inside)) delegate
        (some body) warnings ∧
      (opensDelegateCall c = true → ShowsCall source width inner c delegate body) := by
  have hrest {e : Cursor} {rest : List Event} (he : e.Sited source)
      (h : (do
        blockRest inner
        emit (.closeDeclaration (← before).toSpan true) : Reading Unit) e = (rest, .ok ((), d))) :
      ∃ inside finish, inside ∈ items source width ∧
        rest = inside ++ [.closeBlock finish] ++ [.closeDeclaration d.before.toSpan true] ∧
        blockRest inner e = (inside ++ [.closeBlock finish], .ok ((), d)) := by
    obtain ⟨first, _, f, closed, hblock, hclosed, rfl⟩ := exists_of_bind_ok h
    cases hclosed
    obtain ⟨inside, finish, rfl, hinside⟩ := exists_of_blockRest hreports he hblock
    exact ⟨inside, finish, hinside, rfl, hblock⟩
  change (if opensDelegateCall c = true then delegateCall inner >>= _ else _ : Reading Unit) c = _ at h
  split at h
  · next hopens =>
      obtain ⟨called, _, e, rest, hcall, hbehind, rfl⟩ := exists_of_bind_ok h
      obtain ⟨paren, behind, given, w₁, call, htokens, hcallRest, hreaches, rfl, hkind, hslice, harguments⟩ :=
        exists_of_delegateCall hinner hc hopens hcall
      have he := hc.reaching hreaches
      obtain ⟨inside, finish, hinside, rfl, hblock⟩ := hrest he hbehind
      obtain ⟨body, w₂, hitems⟩ := hinside (kept w₁ (afterComments source width comments none))
      have hbody := ConstructorBody.delegating brace c.here.toSpan c.here.toSpan c.here.toSpan paren.toSpan
        call.closing.toSpan call.closing.toSpan finish false comments hkind harguments (.inr hslice) hitems
      refine ⟨_, d.before.toSpan, _, body, w₁ ++ w₂, (List.append_assoc ..).symm, ?_, fun _ =>
        ⟨paren, behind, call, htokens, rfl, e, d, inside, finish, _, w₂, he, hcallRest.symm, hblock,
          hitems⟩⟩
      simpa using hbody
  · next hopens =>
      obtain ⟨inside, finish, hinside, rfl, -⟩ := hrest hc h
      have hcomments : comments.map Event.comment ∈ items source width :=
        comments_le_items (map_mem_kstar Event.comment comments)
      obtain ⟨body, warnings, hitems⟩ := items_mul_items (Language.append_mem_mul hcomments hinside) none
      refine ⟨_, d.before.toSpan, none, body, warnings, rfl, ?_, fun h => absurd h hopens⟩
      have hbody : ConstructorBody source width _ none (some body) warnings := .plain (.block brace finish hitems)
      simpa using hbody

/-! ## Whole constructors -/

/-- The header of a constructor and the brace behind it, in front of the body. -/
theorem exists_of_constructorRest (hc : c.Sited source)
    (h : constructorRest inner c = (events, .ok ((), d))) :
    ∃ parameterEvents given warnings clause throws e rest,
      Parameters source parameterEvents given warnings ∧ Throws source clause throws ∧
      c.Reaches e ∧ e.here.kind = .openBrace ∧ e.Spans [e.here] e.advance ∧
      constructorBody inner e.advance.relieved = (rest, .ok ((), d)) ∧
      events = (parameterEvents ++ clause) ++ .openBlock e.here.toSpan ::
        ((e.advance.due.map Token.toSpan).map Event.comment ++ rest) := by
  rw [constructorRest_eq] at h
  obtain ⟨parameterEvents, _, e₁, rest₁, hparameters, h₁, rfl⟩ := exists_of_bind_ok h
  obtain ⟨⟨given, warnings, hgiven⟩, hreaches₁⟩ :=
    (reports_parameters c hc.laid).mem_and_reaches hparameters
  have hc₁ := hc.reaching hreaches₁
  obtain ⟨clause, _, e₂, rest₂, hclause, h₂, rfl⟩ := exists_of_bind_ok h₁
  obtain ⟨⟨throws, hthrows⟩, hreaches₂⟩ := (reports_throwsClause e₁ hc₁.laid).mem_and_reaches hclause
  have hc₂ := hc₁.reaching hreaches₂
  obtain ⟨hbrace, hadvance, h₃⟩ := exists_of_expect_bind hc₂ (by decide) h₂
  obtain ⟨rest₃, h₄, rfl⟩ := exists_of_emit_bind h₃
  obtain ⟨rest₄, hbody, rfl⟩ := exists_of_reported h₄
  exact ⟨_, _, _, _, _, e₂, rest₄, hgiven, hthrows, hreaches₁.trans hreaches₂, hbrace, hadvance, hbody,
    by simp [Function.comp_def]⟩

/-- What a constructor is described by, whatever comment is pending in front of it. -/
def ShowsConstructor (source : Text) (width : Option Nat) (inner : Enclosed) (body : Cursor)
    (events : List Event) : Prop :=
  ∀ pending, ∃ access parameters throws delegate elements warnings,
    Statement source width pending events
      [.constructor pending access parameters throws delegate elements] warnings ∧
    (opensDelegateCall body = true → ShowsCall source width inner body delegate elements)

theorem exists_of_constructor (hinner : inner.Bounding source) (hdelivers : inner.Delivers source)
    (hreports : inner.Reports source width) (hc : c.Sited source)
    (h : constructor inner c = (events, .ok ((), d))) :
    ∃ brace front e, OpensBody brace.toSpan events ∧ ¬ brace.isEnd ∧
      c.tokens = front ++ brace :: e.tokens ∧ ShowsConstructor source width inner e events := by
  rw [constructor_eq, bind_of_silent _ (show here c = ([], .ok (c.here, c)) from rfl),
    bind_of_silent _ (modifiers_eq c)] at h
  obtain ⟨named, name, e₁, rest₁, hname, h₁, rfl⟩ := exists_of_bind_ok h
  obtain ⟨rfl, -, rfl⟩ := exists_of_expectName hname
  obtain ⟨rest₂, h₂, rfl⟩ := exists_of_emit_bind h₁
  have hreaches := (c.reaches_forward c.modifierCount).trans (Cursor.reaches_advance _)
  have hsited := hc.reaching hreaches
  obtain ⟨-, hends⟩ := closes_constructorRest hdelivers _ _ _ _ hsited h₂
  obtain ⟨parameterEvents, given, w₁, clause, throws, e, rest, hgiven, hthrows, hheader, hbrace, hadvance,
    hrest, rfl⟩ := exists_of_constructorRest hsited h₂
  obtain ⟨inside, last, delegate, body, w₂, rfl, hbody, hshows⟩ := exists_of_constructorBody hinner hreports
    e.here.toSpan (e.advance.due.map Token.toSpan) (hsited.reaching hheader).advance.relieved hrest
  obtain ⟨front, hfront, -⟩ := hreaches.trans hheader
  refine ⟨e.here, front, e.advance.relieved, ⟨_, _, _, _, _, rfl, ?_, constructs_of_ends hends⟩,
    not_isEnd_of_kind hbrace (by decide), by rw [hfront]; exact congrArg (front ++ ·) hadvance.1, ?_⟩
  · exact List.forall_mem_append.mpr ⟨hgiven.opened_eq_none, hthrows.opened_eq_none⟩
  · intro pending
    have hwhole : Statement source width pending _ _ _ := .constructor c.here.toSpan name.toSpan last
      (Token.spansOf (Token.modifierLengths c.tokens) c.tokens) hgiven hthrows hbody
    exact ⟨_, _, _, _, _, _, by simpa using hwhole, hshows⟩

end Reading

end CodeFrames
