import CodeFrames.Proofs.Following
import CodeFrames.Proofs.Framing

/-!
# The arguments of a call

What the reading of an argument list steps over, and which text of each argument the events describe.
Whatever is nested in an argument is reported between the two ends of the argument, so the list has one
text for each expression that stands directly between the parentheses.
-/

namespace CodeFrames

open Sentence

/-- The text of a source from the first of some tokens to the last. -/
def Token.textOf (source : Text) : List Token → Text
  | [] => []
  | t :: ts => textThrough source t.toSpan (ts.getLastD t).toSpan

/-- The text of an argument, type tests shown as frames show them. -/
def Token.shownText (source : Text) (argument : List Token) : Text :=
  withSubtypeOperator (Token.textOf source argument)

namespace Reading

variable {source : Text} {inner : Enclosed} {c d : Cursor} {events : List Event}

theorem exists_of_emit_bind {α : Type} {e : Event} {f : Unit → Reading α} {a : α}
    (h : (emit e >>= f) c = (events, .ok (a, d))) :
    ∃ more, f () c = (more, .ok (a, d)) ∧ events = e :: more := by
  rw [bind_of_ok f (show emit e c = ([e], .ok ((), c)) from rfl), Prod.mk.injEq] at h
  exact ⟨_, Prod.ext rfl h.2, h.1.symm⟩

/-- Behind a token that is asked for. -/
theorem exists_of_expect_bind {α : Type} {kind : Token.Kind} {symbol : String} {f : Token → Reading α}
    {a : α} (hc : c.Sited source) (hkind : kind ≠ .endOfInput)
    (h : (expect kind symbol >>= f) c = (events, .ok (a, d))) :
    c.here.kind = kind ∧ c.Spans [c.here] c.advance ∧ f c.here c.advance = (events, .ok (a, d)) := by
  obtain ⟨first, t, e, rest, hfirst, hrest, rfl⟩ := exists_of_bind_ok h
  obtain ⟨hat, rfl, rfl⟩ := exists_of_expect hfirst
  have hevents : first = [] := by
    change (if c.isAt kind = true then take else refuse (.symbol symbol) : Reading Token) c = _ at hfirst
    rw [if_pos (by simp [Cursor.isAt, hat])] at hfirst
    cases hfirst
    rfl
  rw [hevents, List.nil_append]
  exact ⟨hat, Cursor.spans_advance hc.laid (not_isEnd_of_kind hat hkind), hrest⟩

/-! ## One argument -/

/-- An expression of the source is read off the tokens, with others behind them. -/
def ReadsOff (source : Text) (inner : Enclosed) (argument behind : List Token) : Prop :=
  ∃ c d events, c.Sited source ∧ c.tokens = argument ++ behind ∧ d.tokens = behind ∧
    expression inner c = (events, .ok ((), d))

/-- What an expression steps over, and that its events describe the text of that. -/
theorem exists_of_expression (hinner : inner.Bounding source) (hc : c.Sited source)
    (h : expression inner c = (events, .ok ((), d))) :
    ∃ argument, argument ≠ [] ∧ c.Spans argument d ∧ d.Settled ∧ ∃ warnings,
      Expression source events (Token.shownText source argument) warnings := by
  change (if c.here.endsExpression = true then _ else _ : Reading Unit) c = _ at h
  split at h
  · cases h
  obtain ⟨rest, hrest, rfl⟩ := exists_of_emit_bind h
  obtain ⟨inside, _, e, closing, hinside, hclosing, rfl⟩ := exists_of_bind_ok hrest
  cases hclosing
  have hpasses := hinner.reports.advances c hc.laid inside () d hinside
  obtain ⟨text, htext⟩ := Option.isSome_iff_exists.mp (hc.laid.slice?_isSome hpasses.before_mem)
  obtain ⟨⟨warnings, hevents⟩, -⟩ := (hinner.reports.assignment c hc.laid).mem_and_reaches hinside
  obtain ⟨argument, hne, hspans⟩ := hpasses
  refine ⟨argument, hne, hspans, hinner.settles.assignment c hc inside () d hinside, warnings, ?_⟩
  obtain ⟨t, ts, rfl⟩ := List.exists_cons_of_ne_nil hne
  obtain rfl : c.here = t := (List.cons.inj hspans.1).1
  have hlast : ts.getLastD c.here = d.before := by rw [hspans.2, List.getLastD_cons]
  rw [Token.shownText, Token.textOf, hlast, textThrough, htext, Option.getD_some]
  exact .bounded _ _ hevents htext

/-- A round of an argument list: an argument, and perhaps the comma behind it. -/
theorem exists_of_argumentRound (hinner : inner.Bounding source) (hc : c.Sited source) {again : Bool}
    (h : argumentRound inner c = (events, .ok (again, d))) :
    ∃ argument e inside warnings, c.Spans argument e ∧ ReadsOff source inner argument e.tokens ∧
      events = .argument c.here.toSpan :: inside ∧
      Expression source inside (Token.shownText source argument) warnings ∧
      if again then e.here.kind = .comma ∧ d = e.advance else d = e := by
  change (emit (.argument c.here.toSpan) >>= fun _ => expression inner >>= fun _ => comma) c = _ at h
  obtain ⟨rest, hrest, rfl⟩ := exists_of_emit_bind h
  obtain ⟨inside, _, e, _, hexpression, hcomma, rfl⟩ := exists_of_bind_ok hrest
  obtain ⟨argument, -, hspans, -, warnings, hdescribed⟩ := exists_of_expression hinner hc hexpression
  have hreads : ReadsOff source inner argument e.tokens :=
    ⟨c, e, inside, hc, hspans.1, rfl, hexpression⟩
  change (if e.isAt .comma = true then _ else _ : Reading Bool) e = _ at hcomma
  split at hcomma
  · next hat =>
      cases hcomma
      exact ⟨argument, e, inside, warnings, hspans, hreads, by simp, hdescribed, kind_of_isAt hat, rfl⟩
  · cases hcomma
    exact ⟨argument, d, inside, warnings, hspans, hreads, by simp, hdescribed, rfl⟩

theorem passes_argumentRound (hinner : inner.Bounding source) (hc : c.Sited source)
    (h : argumentRound inner c = (events, .ok (true, d))) : c.Passes d ∧ d.Sited source := by
  obtain ⟨argument, e, _, _, hspans, _, _, _, hcomma, rfl⟩ := exists_of_argumentRound hinner hc h
  have he := hc.reaching ⟨argument, hspans⟩
  have hadvance := Cursor.spans_advance he.laid (not_isEnd_of_kind hcomma (by decide))
  exact ⟨⟨_, by simp, hspans.trans hadvance⟩, he.advance⟩

/-! ## Argument lists -/

/-- The arguments of a call, with commas between them, in front of the tokens behind the last one. -/
inductive ArgumentList (source : Text) (inner : Enclosed) (behind : List Token) :
    List (List Token) → List Token → Prop
  | none : ArgumentList source inner behind [] []
  | last {argument : List Token} : ReadsOff source inner argument behind →
      ArgumentList source inner behind [argument] argument
  | more {argument next tokens : List Token} {arguments : List (List Token)} {comma : Token} :
      ReadsOff source inner argument (comma :: (tokens ++ behind)) → comma.kind = .comma →
      ArgumentList source inner behind (next :: arguments) tokens →
      ArgumentList source inner behind (argument :: next :: arguments) (argument ++ comma :: tokens)

/-- The texts that are read off the events of an argument list. -/
def argumentTexts (source : Text) (arguments : List (List Token)) : List Text :=
  arguments.map fun argument => Text.trim (Token.shownText source argument)

theorem exists_of_argumentRounds (hinner : inner.Bounding source) (hc : c.Sited source)
    (h : Rounds (argumentRound inner) c events d) :
    ∃ argument arguments between warnings, c.Spans between d ∧
      ArgumentList source inner d.tokens (argument :: arguments) between ∧
      DelegateArguments source events (argumentTexts source (argument :: arguments)) warnings := by
  induction h with
  | @last c d events hround =>
      obtain ⟨argument, e, inside, warnings, hspans, hreads, rfl, hdescribed, rfl⟩ :=
        exists_of_argumentRound hinner hc hround
      have hone := DelegateArguments.argument c.here.toSpan hdescribed .nothing
      rw [List.append_nil] at hone
      exact ⟨argument, [], argument, _, hspans, .last hreads, hone⟩
  | @more c d' d events others hround _ _ ih =>
      obtain ⟨argument, e, inside, warnings, hspans, hreads, rfl, hdescribed, hcomma, rfl⟩ :=
        exists_of_argumentRound hinner hc hround
      have he := hc.reaching ⟨argument, hspans⟩
      have hadvance := Cursor.spans_advance he.laid (not_isEnd_of_kind hcomma (by decide))
      obtain ⟨next, arguments, between, later, hrest, hlist, hmore⟩ := ih he.advance
      have htokens : e.tokens = e.here :: (between ++ d.tokens) := by
        rw [hadvance.1, hrest.1, List.singleton_append]
      refine ⟨argument, next :: arguments, argument ++ e.here :: between, _, ?_,
        .more (htokens ▸ hreads) hcomma hlist, .argument c.here.toSpan hdescribed hmore⟩
      exact hspans.trans (hadvance.trans hrest)

/-- What an argument list steps over, and that its events describe the texts of the arguments. -/
theorem exists_of_arguments (hinner : inner.Bounding source) (hc : c.Sited source)
    (h : arguments inner c = (events, .ok ((), d))) :
    ∃ arguments between closing inside warnings, c.here.kind = .openParen ∧ closing.kind = .closeParen ∧
      c.Spans (c.here :: (between ++ [closing])) d ∧
      ArgumentList source inner (closing :: d.tokens) arguments between ∧
      events = .openArguments c.here.toSpan :: (inside ++ [.closeArguments closing.toSpan]) ∧
      DelegateArguments source inside (argumentTexts source arguments) warnings := by
  obtain ⟨hopen, hparen, h⟩ := exists_of_expect_bind hc (by decide) h
  obtain ⟨rest, hrest, rfl⟩ := exists_of_emit_bind h
  have hclose {e : Cursor} {closed : List Event} (he : e.Sited source)
      (h : (do
        let paren ← expect .closeParen ")"
        emit (.closeArguments paren.toSpan) : Reading Unit) e = (closed, .ok ((), d))) :
      e.here.kind = .closeParen ∧ e.Spans [e.here] d ∧ closed = [.closeArguments e.here.toSpan] := by
    obtain ⟨hkind, hspans, h⟩ := exists_of_expect_bind he (by decide) h
    cases h
    exact ⟨hkind, hspans, rfl⟩
  change (if (!c.advance.isAt .closeParen) = true then _ else _ : Reading Unit) c.advance = _ at hrest
  split at hrest
  · obtain ⟨inside, _, e, closed, hrounds, hclosed, rfl⟩ := exists_of_bind_ok hrest
    have hrounds := rounds_of_repeatWhile (fun _ _ _ he hround => passes_argumentRound hinner he hround)
      hc.advance hrounds
    obtain ⟨argument, arguments, between, warnings, hspans, hlist, hdescribed⟩ :=
      exists_of_argumentRounds hinner hc.advance hrounds
    obtain ⟨hkind, hclosing, rfl⟩ := hclose (hc.advance.reaching ⟨between, hspans⟩) hclosed
    have htokens : e.tokens = e.here :: d.tokens := hclosing.1
    exact ⟨_, between, e.here, inside, warnings, hopen, hkind,
      hparen.trans (hspans.trans hclosing), htokens ▸ hlist, rfl, hdescribed⟩
  · obtain ⟨hkind, hspans, rfl⟩ := hclose hc.advance hrest
    exact ⟨[], [], c.advance.here, [], [], hopen, hkind, hparen.trans hspans, .none, rfl, .nothing⟩

end Reading

end CodeFrames
