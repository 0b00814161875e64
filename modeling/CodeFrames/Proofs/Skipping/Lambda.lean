import CodeFrames.Proofs.Skipping.Expression

/-!
# Where a skipped lambda ends

The body of a lambda is skipped up to the first comma, semicolon or closing bracket outside brackets.
An expression holds no such token, apart from the commas in type arguments.  So a skipped lambda ends
where its body ends, if a token follows that ends it; the colon of a conditional is none.
-/

namespace CodeFrames

open Token (outside openBrackets?)

namespace Reading

variable {source : Text}

theorem stepsOver_lambdaRound : StepsOver endsLambdaBody lambdaRound where
  group c hopener := by
    rw [lambdaRound, here_bind, if_pos hopener]
  plain c hopener hends := by
    rw [lambdaRound, here_bind, if_neg hopener, if_neg (by simp [hends])]

theorem lambdaRound_stop {c : Cursor} (hopener : ¬ c.here.kind.isOpener)
    (h : endsLambdaBody c.here = true) : lambdaRound c = ([], .ok (false, c)) := by
  rw [lambdaRound, here_bind, if_neg hopener, if_pos h]
  rfl

/-- The tokens that end the body of a lambda are a comma, closing brackets, a semicolon and the end of
input. -/
theorem endsLambdaBody_iff {t : Token} :
    endsLambdaBody t = true ↔ t.kind = .comma ∨ t.kind.isCloser = true ∨ t.kind.isStop = true := by
  rw [endsLambdaBody]
  cases t.kind <;> simp [Token.Kind.isCloser, Token.Kind.isStop]

theorem not_isOpener_of_endsLambdaBody {t : Token} (h : endsLambdaBody t = true) :
    ¬ t.kind.isOpener := by
  revert h
  rw [endsLambdaBody]
  cases t.kind <;> simp [Token.Kind.isOpener]

theorem lambdaRound_false {c d : Cursor} {events : List Event}
    (h : lambdaRound c = (events, .ok (false, d))) : endsLambdaBody d.here = true := by
  rw [lambdaRound, here_bind] at h
  split at h
  · exact absurd (exists_of_bind_pure h).1 (by simp)
  split at h
  · next hends =>
      cases h
      exact hends
  · exact absurd (exists_of_bind_pure h).1 (by simp)

/-- Behind the arrow the body is stepped over. -/
theorem lambda_of_arrow {c arrow : Cursor} (harrow : lambdaParameters c = ([], .ok ((), arrow))) :
    lambda c = (.unsupported c.here.toSpan "lambda expression" :: (skipLambdaBody arrow.advance).1,
      (skipLambdaBody arrow.advance).2) := by
  rw [lambda_eq, here_bind, bind_of_ok _ rfl, bind_of_ok _ harrow, bind_of_ok _ rfl]
  rfl

/-- A body that is no block is walked over round by round. -/
theorem skipLambdaBody_of_rounds {c : Cursor} (hbrace : c.here.kind ≠ .openBrace) :
    skipLambdaBody c = if endsLambdaBody c.here then refuse .lambdaBody c
      else repeatWhile lambdaRound c := by
  rw [skipLambdaBody, here_bind, if_neg hbrace]
  split <;> rfl

theorem rounds_lambdaRound {c d : Cursor} {events : List Event} (hc : c.Sited source)
    (h : repeatWhile lambdaRound c = (events, .ok ((), d))) : endsLambdaBody d.here = true := by
  have hround (c : Cursor) (events : List Event) (d : Cursor) (hc : c.Sited source)
      (h : lambdaRound c = (events, .ok (true, d))) : c.Passes d ∧ d.Sited source := by
    have hpasses : c.Passes d := by
      rw [lambdaRound, here_bind] at h
      split at h
      · obtain ⟨-, u, hskip⟩ := exists_of_bind_pure h
        exact advances_skipGroup c hc.laid events u d hskip
      split at h
      · cases h
      · next hends =>
          obtain ⟨-, t, htake⟩ := exists_of_bind_pure h
          refine advancesAt_take hc.laid (fun hend => hends ?_) events t d htake
          have hkind : c.here.kind = .endOfInput := by simpa [Token.isEnd] using hend
          exact endsLambdaBody_iff.mpr (.inr (.inr (by rw [hkind]; rfl)))
    exact ⟨hpasses, hc.reaching hpasses.reaches⟩
  obtain ⟨e, last, -, -, hlast⟩ := exists_last_round hround hc h
  exact lambdaRound_false hlast

/-- A lambda whose body is an expression is skipped to the end of that expression just when a token
follows that ends the body, and no comma stands in the expression outside brackets. -/
theorem lambda_ends_iff {levels : Nat} {c arrow d : Cursor} {events : List Event} {part : List Token}
    (hc : c.Sited source) (hshape : operandShape c = .lambda)
    (harrow : lambdaParameters c = ([], .ok ((), arrow)))
    (hbrace : arrow.advance.here.kind ≠ .openBrace)
    (hread : assignment (Enclosed.within levels) arrow.advance = (events, .ok ((), d)))
    (hpart : arrow.advance.tokens = part ++ d.tokens) (hnested : openBrackets? [] part = some []) :
    (∃ e, lambda c = ([.unsupported c.here.toSpan "lambda expression"], .ok ((), e)) ∧
      e.tokens = d.tokens) ↔
      endsLambdaBody d.here = true ∧ ∀ t ∈ outside part, t.kind ≠ .comma := by
  obtain ⟨a, ha, hreaches, -⟩ := exists_arrow hc hshape
  cases harrow.symm.trans ha
  have hb : arrow.advance.Sited source := (hc.reaching hreaches).advance
  rw [lambda_of_arrow harrow, skipLambdaBody_of_rounds hbrace]
  generalize arrow.advance = b at *
  have hgrouped := Token.grouped_of_openBrackets?
    (Token.Laid.not_isEnd (hpart ▸ hb.laid) (List.cons_ne_nil _ _)) hnested
  have hstop : ∀ t ∈ outside part, endsLambdaBody t = true → t.kind = .comma := by
    obtain ⟨passed, hspans, hpassed⟩ :=
      unbroken_assignment (Enclosed.unbroken_within source levels) b hb events () d hread
    obtain rfl := List.append_cancel_right (hspans.1.symm.trans hpart)
    intro t ht hends
    have hplain := Token.not_bracket_of_outsideFrom t ht
    rcases endsLambdaBody_iff.mp hends with hcomma | hcloser | hbreak
    · exact hcomma
    · exact absurd hcloser hplain.2
    · rw [hpassed.outsideFrom 0 t ht] at hbreak
      cases hbreak
  have hne : part ≠ [] := by
    rintro rfl
    have hadvances := advances_assignment (Enclosed.reports_within source none levels) b hb.laid _ _ _ hread
    have hlength := hadvances.length_lt
    simp only [Cursor.tokens, List.nil_append, List.cons.injEq] at hpart
    simp [hpart] at hlength
  constructor
  · rintro ⟨e, hrun, he⟩
    obtain ⟨hevents, hend⟩ := Prod.mk.inj hrun
    split at hend
    · cases hend
    have hhere : e.here = d.here := (List.cons.inj he).1
    refine ⟨hhere ▸ rounds_lambdaRound hb (Prod.ext rfl hend), fun t ht hcomma => ?_⟩
    rcases hgrouped.exists_stop endsLambdaBody with hout | ⟨before, u, after, rfl, hbefore, hout, hopener, hu⟩
    · have := hout t ht
      rw [endsLambdaBody_iff.mpr (.inl hcomma)] at this
      cases this
    · -- The walk ends at the first comma, in front of the end of the body.
      obtain ⟨m, hm, -, hrounds⟩ := stepsOver_lambdaRound.exists_passed hbefore hout hb.laid
        (hpart.trans (List.append_assoc ..))
      have hhere : m.here = u := (List.cons.inj hm).1
      have hlast := lambdaRound_stop (c := m) (hhere ▸ hopener) (hhere ▸ hu)
      have hloop : repeatWhile lambdaRound b = ([], .ok ((), m)) :=
        (hrounds m (.last hlast)).loop le_rfl
      rw [hloop] at hend
      cases hend
      have hlength := congrArg List.length (hm.symm.trans he)
      simp only [List.length_append, List.length_cons] at hlength
      omega
  · rintro ⟨hends, hcomma⟩
    have hout : ∀ t ∈ outside part, endsLambdaBody t = false := fun t ht =>
      Bool.eq_false_iff.mpr fun hends => hcomma t ht (hstop t ht hends)
    have hstart : endsLambdaBody b.here = false := by
      obtain ⟨t, part, rfl⟩ := List.exists_cons_of_ne_nil hne
      obtain ⟨hhere, -⟩ := List.cons.inj (hpart : b.here :: b.ahead = t :: (part ++ d.tokens))
      rw [hhere]
      rcases hgrouped.start with hopener | hmem
      · exact Bool.eq_false_iff.mpr fun hends => not_isOpener_of_endsLambdaBody hends hopener
      · exact hout t hmem
    obtain ⟨e, he, -, hrounds⟩ := stepsOver_lambdaRound.exists_passed hgrouped hout hb.laid hpart
    have hhere : e.here = d.here := (List.cons.inj he).1
    have hlast := lambdaRound_stop (not_isOpener_of_endsLambdaBody (hhere ▸ hends)) (hhere ▸ hends)
    rw [if_neg (by simp [hstart])]
    refine ⟨e, ?_, he⟩
    rw [show repeatWhile lambdaRound b = ([], .ok ((), e)) from (hrounds e (.last hlast)).loop le_rfl]

/-- A lambda as the first of two arguments. -/
def lambdaArgument : Text := "f(x -> 1, y);".toList

/-- The cursor so many tokens from the start. -/
def lambdaArgumentAt (n : Nat) : Cursor :=
  let name : Token := ⟨⟨1, 0, 1⟩, .word, ['f']⟩
  Cursor.forward n ⟨name, name,
    [⟨⟨1, 1, 2⟩, .openParen, ['(']⟩, ⟨⟨1, 2, 3⟩, .word, ['x']⟩, ⟨⟨1, 4, 6⟩, .operator, ['-', '>']⟩,
      ⟨⟨1, 7, 8⟩, .number, ['1']⟩, ⟨⟨1, 8, 9⟩, .comma, [',']⟩, ⟨⟨1, 10, 11⟩, .word, ['y']⟩,
      ⟨⟨1, 11, 12⟩, .closeParen, [')']⟩, ⟨⟨1, 12, 13⟩, .semicolon, [';']⟩, ⟨⟨1, 13, 13⟩, .endOfInput, []⟩],
    []⟩

theorem lambda_ends_iff_argument : (lambdaArgumentAt 2).Sited lambdaArgument ∧
    operandShape (lambdaArgumentAt 2) = .lambda ∧
    lambdaParameters (lambdaArgumentAt 2) = ([], .ok ((), lambdaArgumentAt 3)) ∧
    (lambdaArgumentAt 3).advance.here.kind ≠ .openBrace ∧
    assignment (Enclosed.within 1) (lambdaArgumentAt 3).advance = ([], .ok ((), lambdaArgumentAt 5)) ∧
    (lambdaArgumentAt 5).here.kind = .comma ∧
    ∃ e, lambda (lambdaArgumentAt 2) = ([.unsupported ⟨1, 2, 3⟩ "lambda expression"], .ok ((), e)) ∧
      e.tokens = (lambdaArgumentAt 5).tokens := by
  obtain ⟨tokens, htokens, hstart⟩ : ∃ tokens, lex lambdaArgument = .ok tokens ∧
      Cursor.ofTokens tokens = some (lambdaArgumentAt 0) := Except.exists_of_map_eq (by decide +kernel)
  have hsited : (lambdaArgumentAt 2).Sited lambdaArgument :=
    (Cursor.sited_of_ofTokens (laid_of_lex htokens) hstart).forward 2
  have hread : assignment (Enclosed.within 1) (lambdaArgumentAt 3).advance =
      ([], .ok ((), lambdaArgumentAt 5)) := by decide +kernel
  exact ⟨hsited, by decide, rfl, by decide, hread, rfl,
    (lambda_ends_iff hsited (by decide) rfl (by decide) hread (show _ = [_] ++ _ from rfl)
      (by decide)).mpr ⟨by decide, by decide⟩⟩

/-- Lambdas as the branches of a conditional. -/
def lambdaBranch : Text := "f = c ? x -> 1 : y -> 2;".toList

/-- The cursor so many tokens from the start. -/
def lambdaBranchAt (n : Nat) : Cursor :=
  let name : Token := ⟨⟨1, 0, 1⟩, .word, ['f']⟩
  Cursor.forward n ⟨name, name,
    [⟨⟨1, 2, 3⟩, .operator, ['=']⟩, ⟨⟨1, 4, 5⟩, .word, ['c']⟩, ⟨⟨1, 6, 7⟩, .operator, ['?']⟩,
      ⟨⟨1, 8, 9⟩, .word, ['x']⟩, ⟨⟨1, 10, 12⟩, .operator, ['-', '>']⟩, ⟨⟨1, 13, 14⟩, .number, ['1']⟩,
      ⟨⟨1, 15, 16⟩, .operator, [':']⟩, ⟨⟨1, 17, 18⟩, .word, ['y']⟩, ⟨⟨1, 19, 21⟩, .operator, ['-', '>']⟩,
      ⟨⟨1, 22, 23⟩, .number, ['2']⟩, ⟨⟨1, 23, 24⟩, .semicolon, [';']⟩, ⟨⟨1, 24, 24⟩, .endOfInput, []⟩],
    []⟩

/-- The colon behind the first branch of a conditional does not end the body of a lambda. -/
theorem not_lambda_ends : ¬ ∀ (source : Text) (tokens : List Token) (start c arrow d : Cursor)
    (levels : Nat) (events : List Event), lex source = .ok tokens → openBrackets? [] tokens = some [] →
      Cursor.ofTokens tokens = some start → start.Reaches c → operandShape c = .lambda →
      lambdaParameters c = ([], .ok ((), arrow)) → arrow.advance.here.kind ≠ .openBrace →
      assignment (Enclosed.within levels) arrow.advance = (events, .ok ((), d)) →
      ∃ inside, lambda c = (inside, .ok ((), d)) := by
  intro hall
  obtain ⟨tokens, htokens, hfacts⟩ : ∃ tokens, lex lambdaBranch = .ok tokens ∧
      (openBrackets? [] tokens, Cursor.ofTokens tokens) = (some [], some (lambdaBranchAt 0)) :=
    Except.exists_of_map_eq (by decide +kernel)
  obtain ⟨hopen, hstart⟩ := Prod.mk.inj hfacts
  have hread : assignment (Enclosed.within 1) (lambdaBranchAt 5).advance =
      ([], .ok ((), lambdaBranchAt 7)) := by decide +kernel
  obtain ⟨inside, hrun⟩ := hall lambdaBranch tokens _ (lambdaBranchAt 4) (lambdaBranchAt 5) _ 1 []
    htokens hopen hstart (Cursor.reaches_forward 4 (lambdaBranchAt 0)) (by decide) rfl (by decide) hread
  have hpassed : lambda (lambdaBranchAt 4) =
      ([.unsupported ⟨1, 8, 9⟩ "lambda expression"], .ok ((), lambdaBranchAt 11)) := by decide +kernel
  rw [hpassed] at hrun
  exact absurd (Prod.mk.inj hrun).2 (by decide)

end Reading

end CodeFrames
