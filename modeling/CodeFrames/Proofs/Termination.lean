import CodeFrames.Proofs.Brackets
import CodeFrames.Proofs.Skipping.Shapes
import CodeFrames.Proofs.Strides

/-!
# Reading ends

Reading a source ends, well formed or not.  What is told by looking ahead ends in front of the end of
input, members, statements and expressions that can be read step over a token, and each further round of a
loop and each statement in a skipped one starts behind a token of its own.  So no budget is used up.
-/

namespace CodeFrames

/-! ## Looking ahead -/

namespace Cursor

variable {source : Text} {c : Cursor}

/-- Tokens that are not the end of input are in front of it. -/
theorem le_length_ahead {n : Nat} (hc : Token.Laid source c.tokens)
    (h : ∀ t ∈ c.tokens.take n, ¬ t.isEnd) : n ≤ c.ahead.length := by
  by_contra hlong
  obtain ⟨inside, last, htokens, hlast, -⟩ := hc.ended
  have htake : c.tokens.take n = c.tokens :=
    List.take_of_length_le (by rw [tokens, List.length_cons]; omega)
  exact h last (by rw [htake, htokens]; simp) hlast

/-- Whatever is told by looking ahead from the cursor ends in front of the end of input. -/
structure Overlooks (c : Cursor) : Prop where
  type : ∀ n, Token.typeLength? c.tokens = some n → n ≤ c.ahead.length
  typeName : ∀ n, Token.typeNameLength? c.tokens = some n → n ≤ c.ahead.length
  typeArguments : ∀ n, Token.typeArgumentsLength? c.tokens = some n → n ≤ c.ahead.length
  cast : ∀ n, Token.castLength? c.tokens = some n → n ≤ c.ahead.length
  group : ∀ n, Token.groupLength? c.tokens = some n → n ≤ c.ahead.length
  annotation : c.here.kind = .atSign → Token.annotationRestLength c.ahead + 1 ≤ c.ahead.length
  modifiers : c.modifierCount ≤ c.ahead.length
  skippedFront : ∀ construct head skipped,
    Reading.memberShape c = .unsupported construct head skipped → skipped ≤ c.ahead.length
  label : Reading.isLabel c = true → 2 ≤ c.ahead.length

theorem Sited.overlooks (hc : c.Sited source) : c.Overlooks where
  type _ h := le_length_ahead hc.laid fun t ht =>
    Token.not_isEnd_of_typeKinds (Token.typeKinds_of_type h t ht)
  typeName _ h := le_length_ahead hc.laid fun t ht =>
    Token.not_isEnd_of_typeKinds (Token.typeKinds_of_typeName h t ht)
  typeArguments _ h := le_length_ahead hc.laid fun t ht =>
    Token.not_isEnd_of_typeKinds (Token.typeKinds_of_typeArguments h t ht)
  cast _ h := le_length_ahead hc.laid (Token.not_isEnd_of_cast h)
  group _ h := le_length_ahead hc.laid (Token.not_isEnd_of_groupFrom h)
  annotation hat := by
    refine le_length_ahead hc.laid ?_
    rw [tokens, List.take_succ_cons, List.forall_mem_cons]
    exact ⟨Reading.not_isEnd_of_kind hat (by decide), Token.not_isEnd_of_annotationRest c.ahead⟩
  modifiers := le_length_ahead hc.laid (Token.not_isEnd_of_modifiers c.tokens)
  skippedFront _ _ _ h := le_length_ahead hc.laid (Reading.not_isEnd_of_skipped hc h)
  label h := le_length_ahead hc.laid (Reading.not_isEnd_of_isLabel h)

/-- The cursor is in front of the token with such an index, and the token before it is the last one that
was stepped over. -/
def IsAt (start : Cursor) (index : Nat) (c : Cursor) : Prop :=
  c.tokens = start.tokens.drop index ∧ c.before = (start.tokens.take index).getLastD start.before

theorem Reaches.exists_isAt {start : Cursor} (h : start.Reaches c) :
    ∃ index ≤ start.ahead.length, start.IsAt index c := by
  obtain ⟨passed, htokens, hbefore⟩ := h
  have hlength := congrArg List.length htokens
  simp only [tokens, List.length_append, List.length_cons] at hlength
  refine ⟨passed.length, by omega, ?_, ?_⟩
  · rw [htokens, List.drop_left]
  · rw [htokens, List.take_left, hbefore]

end Cursor

/-! ## Getting on -/

namespace Reading

variable {source : Text} {inner : Enclosed} {c : Cursor}

theorem advancesAt_expression (hadvances : inner.assignment.Advances source) (hc : c.Sited source) :
    (expression inner).AdvancesAt c := by
  have hclose (u : Unit) : (do emit (.closeExpression (← before).toSpan false) : Reading Unit).Strides
      source never := .of_delivers (Delivers.before.bind fun _ => .emit rfl rfl)
  have hassigned : inner.assignment.Strides source always := .of_moves (.of_advances hadvances)
  have hexpression : (expression inner).StridesAt source always c :=
    .here_bind (.ite (fun _ => .refuse_bind _) fun _ => .emit_bind ((hassigned c).step hclose))
  exact hexpression.advancesAt hc

/-- Whatever is read from the cursor goes forward and ends, and members, statements and expressions that
can be read step over a token. -/
structure GetsOn (inner : Enclosed) (c : Cursor) : Prop where
  parts : ∀ r, IsPart inner r → ∀ events u d, r c = (events, .ok (u, d)) → c.Reaches d
  member : (Reading.member inner).AdvancesAt c
  statement : (Reading.statement inner).AdvancesAt c
  expression : (Reading.expression inner).AdvancesAt c
  skipStatement : Reading.skipStatement.AdvancesAt c
  /-- Each statement in a skipped one starts behind a token of it. -/
  skipOver : ∀ deep : Reading Unit, (∀ d, c.Passes d → deep d = Reading.skipStatement d) →
    Reading.skipStatement c = Reading.skipOver deep 1 c
  loops : ∀ body, IsRound inner body → Repeats body c (repeatWhile body c)

theorem getsOn (h : inner.Delivers source) (hadvances : inner.assignment.Advances source)
    (hc : c.Sited source) : GetsOn inner c where
  parts _ hr events u d hrun := (hr.strides h c hc events u d hrun).1
  member := (strides_member h c).advancesAt hc
  statement events u d := (delivers_statement h).2 c events u d hc
  expression := advancesAt_expression hadvances hc
  skipStatement := advances_skipStatement c hc.laid
  skipOver _ hdeep := skipStatement_eq_skipOver hc.laid hdeep
  loops _ hbody := (hbody.strides h).repeats hc

end Reading

open Reading

/-- Reading a source, whether or not it gets to the end, only ever gets on: from any cursor in front of its
tokens what is told by looking ahead ends in front of the end of input, and whatever is read goes forward
and ends. -/
theorem readEvents_progress {source : Text} {tokens : List Token} (htokens : lex source = .ok tokens) :
    ∃ start inside last, Cursor.ofTokens tokens = some start ∧ start.tokens = inside ++ [last] ∧
      last.isEnd ∧ (∀ t ∈ inside, ¬ t.isEnd) ∧
      (readEvents source).2 = (members (Enclosed.within nestingLimit) start).2.map (fun _ => ()) ∧
      ∀ c, start.Reaches c → (∃ index ≤ inside.length, start.IsAt index c) ∧ c.Overlooks ∧
        ∀ levels, GetsOn (Enclosed.within levels) c := by
  have hlaid := laid_of_lex htokens
  obtain ⟨start, hstart⟩ := Cursor.exists_ofTokens hlaid
  have hsited := Cursor.sited_of_ofTokens hlaid hstart
  obtain ⟨inside, last, hsplit, hlast, hinside⟩ := hsited.laid.ended
  refine ⟨start, inside, last, hstart, hsplit, hlast, hinside, ?_, fun c hreaches => ?_⟩
  · simp only [readEvents, htokens, hstart]
  · have hc := hsited.reaching hreaches
    obtain ⟨index, hindex, hat⟩ := hreaches.exists_isAt
    have hlength : start.ahead.length = inside.length := by
      simpa [Cursor.tokens] using congrArg List.length hsplit
    exact ⟨⟨index, hlength ▸ hindex, hat⟩, hc.overlooks, fun levels =>
      getsOn (Enclosed.delivers_within source levels)
        (Enclosed.reports_within source none levels).advances hc⟩

/-- A call that is not closed, behind a loop that is skipped with the loop in it. -/
def unclosedCall : Text := "for (;;) for (;;) x(); f(a".toList

/-- Reading the call stops at the end of input, and with it the loop over the members. -/
theorem readEvents_progress_unclosedCall : ∃ tokens start, lex unclosedCall = .ok tokens ∧
    Cursor.ofTokens tokens = some start ∧ start.Overlooks ∧
    (readEvents unclosedCall).2 = .error ⟨1, .expected (.symbol ")") none⟩ ∧
    Repeats (memberRound (Enclosed.within nestingLimit)) start
      (repeatWhile (memberRound (Enclosed.within nestingLimit)) start) := by
  obtain ⟨tokens, htokens⟩ : ∃ tokens, lex unclosedCall = .ok tokens :=
    Except.exists_of_isOk (by decide +kernel)
  obtain ⟨start, inside, last, hstart, -, -, -, -, hall⟩ := readEvents_progress htokens
  obtain ⟨-, hoverlooks, hgetsOn⟩ := hall start (.refl start)
  exact ⟨tokens, start, htokens, hstart, hoverlooks, by decide +kernel,
    (hgetsOn nestingLimit).loops _ .members⟩

end CodeFrames
