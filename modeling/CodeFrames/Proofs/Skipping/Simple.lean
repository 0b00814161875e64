import CodeFrames.Proofs.Skipping.Expression
import CodeFrames.Proofs.Skipping.Tokenwise
import CodeFrames.Proofs.Brackets
import Mathlib.Algebra.GroupWithZero.Nat

/-!
# Simple statements end at their semicolon

A statement that is read up to a semicolon holds no other one outside groups.  So skipping to the next
semicolon outside brackets comes to the same end, where the brackets of the statement nest.
-/

namespace CodeFrames

open Token (Unbroken outside openBrackets?)

namespace Token

/-! ## Modifiers -/

theorem unbroken_modifier (t : Token) (ts : List Token) :
    Unbroken ((t :: ts).take (modifierLength (t :: ts))) := by
  by_cases hat : t.kind = .atSign
  · rcases exists_of_annotation hat ts with hnone | ⟨words, group, hsplit, hwords, hgroup⟩
    · exact hnone ▸ .nil
    have hword (u : Token) (hu : u ∈ words) : u.kind.isStop = false := by
      rcases hwords u hu with h | h <;> rw [h] <;> rfl
    rw [hsplit]
    refine .plain (by rw [hat]; rfl) ((Unbroken.of_forall hword).append ?_)
    rcases hgroup with rfl | ⟨paren, ps, rfl, hparen, hclosing⟩
    · exact .nil
    · exact .of_closing hclosing (by rw [hparen]; rfl)
  · rw [modifierLength]
    split
    · next hword =>
        have hkind : t.kind = .word := by
          simp only [isWordIn, isAnyWord, Bool.and_eq_true, decide_eq_true_eq] at hword
          exact hword.1
        split
        · exact .nil
        · exact .singleton (by rw [hkind]; rfl)
    · rw [if_neg (by simp [hat])]
      exact .nil

theorem unbroken_modifiersFrom (skip : Nat) (ts : List Token) :
    Unbroken ((ts.drop skip).take (modifierLengthsFrom skip ts).sum) := by
  induction ts generalizing skip with
  | nil => simpa using Unbroken.nil
  | cons t ts ih =>
      cases skip with
      | succ skip => exact ih skip
      | zero =>
          rw [modifierLengthsFrom]
          split
          · simpa using Unbroken.nil
          · next n hlength =>
              have hfirst := unbroken_modifier t ts
              rw [hlength] at hfirst
              rw [List.drop_zero, List.sum_cons, List.take_add]
              exact hfirst.append (ih n)

theorem unbroken_modifiers (ts : List Token) : Unbroken (ts.take (modifierLengths ts).sum) :=
  unbroken_modifiersFrom 0 ts

end Token

namespace Reading

variable {α β : Type} {source : Text} {inner : Enclosed} {c d : Cursor} {events : List Event}

/-! ## Readings that end with a semicolon -/

/-- A run from the cursor steps over unbroken tokens and a semicolon. -/
def ClosedAt (r : Reading α) (c : Cursor) : Prop :=
  ∀ events a d, r c = (events, .ok (a, d)) →
    ∃ passed last, c.tokens = passed ++ last :: d.tokens ∧ Unbroken passed ∧ last.kind = .semicolon

namespace ClosedAt

variable {r : Reading α} {f : α → Reading β}

theorem bind (h : r.UnbrokenAt c)
    (hf : ∀ events a d, r c = (events, .ok (a, d)) → c.Reaches d → (f a).ClosedAt d) :
    (r >>= f).ClosedAt c := by
  intro events b e hrun
  obtain ⟨first, a, d, more, hr, hmore, rfl⟩ := exists_of_bind_ok hrun
  obtain ⟨passed, hspans, hpassed⟩ := h first a d hr
  obtain ⟨others, last, htokens, hothers, hlast⟩ := hf first a d hr ⟨passed, hspans⟩ more b e hmore
  exact ⟨passed ++ others, last, by rw [hspans.1, htokens, List.append_assoc], hpassed.append hothers, hlast⟩

theorem bind_in (h : r.UnbrokenIn source) (hc : c.Sited source)
    (hf : ∀ a d, d.Sited source → (f a).ClosedAt d) : (r >>= f).ClosedAt c :=
  bind (h c hc) fun _ a d _ hreaches => hf a d (hc.reaching hreaches)

theorem emit_bind {e : Event} {f : Unit → Reading β} (h : (f ()).ClosedAt c) :
    (Reading.emit e >>= f).ClosedAt c :=
  bind .emit fun events u d hrun _ => by
    cases hrun
    exact h

theorem take_bind {f : Token → Reading β} {kind : Token.Kind} (hkind : c.here.kind = kind)
    (hstop : kind.isStop = false) (hf : (f c.here).ClosedAt c.advance) : (Reading.take >>= f).ClosedAt c :=
  bind (.take hkind hstop) fun events t d hrun _ => by
    cases hrun
    exact hf

theorem ite {p : Prop} [Decidable p] {s : Reading α} (hr : p → r.ClosedAt c) (hs : ¬ p → s.ClosedAt c) :
    (if p then r else s).ClosedAt c := by
  split
  · exact hr ‹_›
  · exact hs ‹_›

/-- The semicolon, with nothing more to read behind it. -/
theorem semicolon_bind {f : Token → Reading β} (hc : c.Sited source)
    (hf : ∀ t d events b e, f t d = (events, .ok (b, e)) → e = d) :
    (Reading.semicolon >>= f).ClosedAt c := by
  intro events b e hrun
  obtain ⟨first, t, d, more, hsemicolon, hmore, -⟩ := exists_of_bind_ok hrun
  obtain rfl := hf t d more b e hmore
  rw [semicolon, expect, cursor_bind] at hsemicolon
  split at hsemicolon
  · next hat =>
      have hkind := kind_of_isAt hat
      cases hsemicolon
      exact ⟨[], c.here, Cursor.tokens_advance hc.laid (not_isEnd_of_kind hkind (by decide)), .nil, hkind⟩
  · cases hsemicolon

theorem semicolon (hc : c.Sited source) : (do let _ ← Reading.semicolon : Reading Unit).ClosedAt c :=
  semicolon_bind hc fun t d events b e hrun => by
    cases hrun
    rfl

end ClosedAt

open UnbrokenIn

theorem closed_value (h : inner.UnbrokenIn source) (hc : c.Sited source) : (do
    expression inner
    let _ ← semicolon : Reading Unit).ClosedAt c :=
  .bind_in (unbroken_expression h) hc fun _ _ => .semicolon

theorem closed_returned (h : inner.UnbrokenIn source) (hc : c.Sited source) (hkind : c.here.kind = .word) :
    (returned inner).ClosedAt c := by
  have hrest (hasValue : Bool) : (do
      emit (.returned c.here.toSpan hasValue)
      if hasValue then expression inner
      let _ ← semicolon : Reading Unit).ClosedAt c.advance :=
    .emit_bind (.ite (fun _ => closed_value h hc.advance) fun _ => .semicolon hc.advance)
  exact .take_bind hkind rfl (hrest _)

theorem unbroken_label : label.UnbrokenIn source :=
  fun c hc => .here_bind (.ite (fun _ => UnbrokenIn.expectName.bind (fun _ => UnbrokenIn.pure _) c hc)
    fun _ => .pure _)

theorem closed_jumped (jump : Jump) (hc : c.Sited source) (hkind : c.here.kind = .word) :
    (jumped jump).ClosedAt c :=
  .take_bind hkind rfl (.bind_in unbroken_label hc.advance fun _ _ hd => .emit_bind (.semicolon hd))

theorem closed_thrown (h : inner.UnbrokenIn source) (hc : c.Sited source) (hkind : c.here.kind = .word) :
    (thrown inner).ClosedAt c :=
  .take_bind hkind rfl (.emit_bind (closed_value h hc.advance))

theorem closed_expressionStatement (h : inner.UnbrokenIn source) (hc : c.Sited source) :
    (expressionStatement inner).ClosedAt c := by
  have hrest : (do
      emit (.expressionStatement c.here.toSpan)
      expression inner
      let _ ← semicolon : Reading Unit).ClosedAt c := .emit_bind (closed_value h hc)
  exact hrest

/-! ## Variables -/

theorem unbroken_typeName : typeName.UnbrokenIn source := by
  refine fun c hc => .cursor_bind ?_
  cases htype : Token.typeLength? c.tokens with
  | none => exact .refuse _
  | some n =>
      exact .here_bind ((UnbrokenAt.forward_of_typeKinds hc (Token.typeKinds_of_type htype)).bind
        fun _ _ _ _ _ => .before_bind .emit)

theorem unbroken_readModifiers : modifiers.UnbrokenIn source :=
  fun c hc => .cursor_bind (.forward_bind hc (Token.not_isEnd_of_modifiers c.tokens)
    (Token.unbroken_modifiers c.tokens) (.pure _))

theorem unbroken_variableValue (h : inner.UnbrokenIn source) : (variableValue inner).UnbrokenIn source := by
  refine fun c hc => .here_bind (.ite (fun _ => .emit_bind ?_) fun _ => unbroken_expression h c hc)
  exact (unbroken_arrayInitializer h c hc).bind fun _ _ _ _ _ => .before_bind .emit

theorem unbroken_declarator (h : inner.UnbrokenIn source) : (declarator inner).UnbrokenIn source := by
  refine UnbrokenIn.expectName.bind fun name c hc => .cursor_bind (.ite (fun _ => ?_) fun _ =>
    .emit_bind (.ite (fun hvalue => ?_) fun _ => UnbrokenIn.comma c hc))
  · exact .of_error (e := ⟨c.here.line, .dimensionsAfterName⟩) rfl
  · exact .take_bind (kind_of_isOperator hvalue) rfl
      ((unbroken_variableValue h).bind (fun _ => UnbrokenIn.comma) _ hc.advance)

theorem closed_localVariables (h : inner.UnbrokenIn source) (hc : c.Sited source) :
    (localVariables inner).ClosedAt c := by
  have hrest : (do
      let spans ← modifiers
      typeName
      emit (.openVariables c.here.toSpan spans)
      repeatWhile (declarator inner)
      let semicolon ← semicolon
      emit (.closeVariables semicolon.toSpan) : Reading Unit).ClosedAt c :=
    .bind_in unbroken_readModifiers hc fun _ _ hd => .bind_in unbroken_typeName hd fun _ _ he =>
      .emit_bind (.bind_in (rounds (unbroken_declarator h)) he fun _ _ hf =>
        .semicolon_bind hf fun t d events b e hrun => by
          cases hrun
          rfl)
  exact hrest

/-! ## Telling how a statement is skipped -/

theorem skipShape_of_word {word : Text} {shape : SkipShape} (h : c.here.isWord word = true)
    (hlookup : skipWords.lookup word = some shape) : skipShape c = shape := by
  simp only [Token.isWord, Bool.and_eq_true, decide_eq_true_eq] at h
  rw [skipShape, h.1, h.2]
  simp only [hlookup]

/-- The word that tells branches or loops. -/
theorem isWord_of_statementShape {shape : StatementShape} {word : Text} (h : statementShape c = shape)
    (hshape : shape = .ifChain ∨ shape = .whileLoop)
    (hwords : ∀ entry ∈ statementWords, entry.2 = shape → entry.1 = word) : c.here.isWord word = true := by
  have hkind : c.here.kind = .word := kind_of_statementShape h (by tauto)
  rw [statementShape, hkind] at h
  change wordStatementShape c = shape at h
  rw [wordStatementShape] at h
  split at h
  · next hlookup =>
      obtain ⟨front, back, hsplit, -⟩ := List.lookup_eq_some_iff.mp hlookup
      have htext : c.here.text = word := hwords (c.here.text, _) (by simp [hsplit]) h
      simp [Token.isWord, hkind, htext]
  · rcases hshape with rfl | rfl <;> split_ifs at h

/-- Simple statements are told by their first word, by the sign of an annotation, or not at all. -/
def StatementShape.isSimple : StatementShape → Bool
  | .returned | .jump _ | .thrown | .locals | .expression => true
  | _ => false

/-- The words that open the declaration of a type are keywords, apart from `record`. -/
theorem isWord_or_reserved (h : c.here.isWordIn Token.typeWords = true) :
    c.here.isWord "record".toList = true ∨ operandShape c = .reserved c.here.text ∧
      Token.modifierLength c.tokens = 0 ∧ c.here.opensType = false := by
  obtain ⟨hkind, htext⟩ : c.here.kind = .word ∧ c.here.text ∈ Token.typeWords := by
    simpa [Token.isWordIn, Token.isAnyWord] using h
  have hwords : ∀ text ∈ Token.typeWords, text = "record".toList ∨
      text ∈ Token.keywords ∧ text ∉ Token.modifierWords ∧ text ∉ Token.primitiveTypes ∧
      text ∉ ["new", "this", "super", "true", "false", "null"].map String.toList := by decide
  rcases hwords _ htext with hrecord | ⟨hkeyword, hmodifier, hprimitive, hoperand⟩
  · exact .inl (by simp [Token.isWord, hkind, hrecord])
  · refine .inr ⟨?_, ?_, ?_⟩
    · simp at hoperand
      simp [operandShape, hkind, wordShape, hoperand, Token.isPrimitive, Token.isWordIn, hprimitive,
        Token.isName, hkeyword]
    · simp [Cursor.tokens, Token.modifierLength, Token.isWordIn, hmodifier, hkind]
    · simp [Token.opensType, Token.isPrimitive, Token.isWordIn, hprimitive, Token.isName, hkeyword]

/-- No expression starts with a reserved word. -/
theorem unary_of_reserved {word : Text} (hkind : c.here.kind = .word) (h : operandShape c = .reserved word) :
    ∃ events e, unary inner c = (events, .error e) := by
  have hcast : Token.castLength? c.tokens = none := castLength?_of_kind (by rw [hkind]; decide)
  have hleading : leading c = ([], .ok (false, c)) := by
    rw [leading, cursor_bind, if_neg (by simp [Token.isOperatorIn, hkind])]
    simp only [hcast]
    rfl
  have hrounds : repeatWhile leading c = ([], .ok ((), c)) := (Rounds.last hleading).loop le_rfl
  have hoperand : operand inner c = ([], .error ⟨c.here.line, .keywordInExpression word⟩) := by
    rw [operand, cursor_bind, h]
    rfl
  rw [unary, bind_of_ok _ hrounds, bind_of_error _ hoperand]
  exact ⟨_, _, rfl⟩

theorem expression_of_reserved {word : Text} {levels : Nat} (hkind : c.here.kind = .word)
    (h : operandShape c = .reserved word) :
    ∃ events e, expression (Enclosed.within levels) c = (events, .error e) := by
  have hassignment : ∃ events e, (Enclosed.within levels).assignment c = (events, .error e) := by
    cases levels with
    | zero => exact ⟨_, _, rfl⟩
    | succ levels =>
        obtain ⟨events, e, hunary⟩ := @unary_of_reserved (Enclosed.within levels) c _ hkind h
        exact ⟨events, e, bind_of_error _ (bind_of_error _ (bind_of_error _ hunary))⟩
  obtain ⟨events, e, herror⟩ := hassignment
  have hrest : (do
      emit (.openExpression c.here.toSpan)
      (Enclosed.within levels).assignment
      emit (.closeExpression (← before).toSpan false) : Reading Unit) c =
        ([.openExpression c.here.toSpan] ++ events, .error e) := by
    rw [bind_of_ok _ (show emit _ c = ([.openExpression c.here.toSpan], .ok ((), c)) from rfl),
      bind_of_error _ herror]
  refine ⟨[.openExpression c.here.toSpan] ++ events, e, ?_⟩
  rw [expression, here_bind, if_neg (by simp [Token.endsExpression, hkind])]
  exact hrest

/-- Where a word opens the declaration of a type but no declaration follows, nothing can be read. -/
theorem not_typeWord_of_run {levels : Nat}
    (hdeclares : ¬ (c.here.isWordIn Token.typeWords && c.nextIs Token.isAnyWord) = true)
    (hlabel : ¬ isLabel c)
    (hrun : statementOf (Enclosed.within levels) (if opensVariables c then .locals else .expression) c =
      (events, .ok ((), d)))
    (hrecord : c.here.isWord "record".toList = true →
      c.nextIs (fun u => u.isAnyWord || u.isOperator [':']) = true) :
    ¬ c.here.isWordIn Token.typeWords := by
  intro htype
  have hkind : c.here.kind = .word := by
    simp only [Token.isWordIn, Token.isAnyWord, Bool.and_eq_true, decide_eq_true_eq] at htype
    exact htype.1
  rcases isWord_or_reserved htype with hword | ⟨hreserved, hmodifier, hopens⟩
  · have hnext := hrecord hword
    simp only [Token.isWord, Bool.and_eq_true, decide_eq_true_eq] at hword
    have hname : c.here.isName = true := by
      rw [Token.isName, Token.isAnyWord, hword.1, hword.2]
      decide
    rw [htype, Bool.true_and] at hdeclares
    rw [isLabel, hname, Bool.true_and] at hlabel
    cases hahead : c.ahead with
    | nil => simp [Cursor.nextIs, hahead] at hnext
    | cons u us => simp_all [Cursor.nextIs]
  · have hvariables : opensVariables c = false := by
      rw [Cursor.tokens] at hmodifier
      simp [opensVariables, Token.modifierLengths, Cursor.tokens, Token.modifierLengthsFrom, hmodifier,
        declaresVariable, Token.typeLength?, Token.typeNameLength?, hopens]
    rw [hvariables, if_neg Bool.false_ne_true] at hrun
    rw [statementOf, expressionStatement, here_bind] at hrun
    obtain ⟨_, _, _, _, hemit, hrest, -⟩ := exists_of_bind_ok hrun
    cases hemit
    obtain ⟨_, _, _, _, hexpression, -⟩ := exists_of_bind_ok hrest
    obtain ⟨_, _, hfailed⟩ := @expression_of_reserved c _ levels hkind hreserved
    cases hfailed.symm.trans hexpression

/-- A simple statement that can be read is skipped as one, unless it begins with `record` and neither a
word nor a colon follows. -/
theorem skipShape_of_isSimple {levels : Nat} (h : (statementShape c).isSimple = true)
    (hrun : statementOf (Enclosed.within levels) (statementShape c) c = (events, .ok ((), d)))
    (hrecord : c.here.isWord "record".toList = true →
      c.nextIs (fun u => u.isAnyWord || u.isOperator [':']) = true) : skipShape c = .simple := by
  rw [skipShape]
  cases hkind : c.here.kind <;> simp only
  case openBrace => simp [statementShape, hkind, StatementShape.isSimple] at h
  case semicolon => simp [statementShape, hkind, StatementShape.isSimple] at h
  case word =>
    have hshape : statementShape c = wordStatementShape c := by rw [statementShape, hkind]
    rw [hshape, wordStatementShape] at h hrun
    cases hlookup : statementWords.lookup c.here.text with
    | some shape =>
        have hwords : ∀ entry ∈ statementWords, entry.2.isSimple = true →
            skipWords.lookup entry.1 = none ∧ entry.1 ∉ Token.typeWords ∧ entry.1 ∈ Token.keywords := by
          decide
        obtain ⟨front, back, hsplit, -⟩ := List.lookup_eq_some_iff.mp hlookup
        simp only [hlookup] at h
        obtain ⟨hskip, htype, hkeyword⟩ := hwords (c.here.text, shape) (by simp [hsplit]) h
        simp [hskip, Token.isWordIn, htype, isLabel, Token.isName, hkeyword]
    | none =>
        have hwords : ∀ entry ∈ skipWords, (statementWords.lookup entry.1).isSome = true := by decide
        have hskip : skipWords.lookup c.here.text = none := by
          cases hsome : skipWords.lookup c.here.text with
          | none => rfl
          | some shape =>
              obtain ⟨front, back, hsplit, -⟩ := List.lookup_eq_some_iff.mp hsome
              have hword := hwords (c.here.text, shape) (by simp [hsplit])
              rw [hlookup] at hword
              cases hword
        simp only [hlookup] at h hrun
        split at h
        · cases h
        · next hdeclares =>
            rw [if_neg hdeclares] at hrun
            split at h
            · cases h
            · next hlabel =>
                rw [if_neg hlabel] at hrun
                simp only [hskip]
                rw [if_neg (not_typeWord_of_run hdeclares hlabel hrun hrecord), if_neg hlabel]

/-! ## Skipping to the semicolon -/

/-- The tokens at which the walk to a semicolon ends or fails. -/
def stopsAtSemicolon (t : Token) : Bool := t.kind.isStop || t.kind = .closeBrace

theorem stepsOver_semicolonRound : StepsOver stopsAtSemicolon (do semicolonRound (← here)) where
  group c hopener := by
    rw [here_bind, semicolonRound]
    cases hkind : c.here.kind <;> simp [hkind, Token.Kind.isOpener] at hopener ⊢
  plain c hopener hstop := by
    rw [here_bind, semicolonRound]
    cases hkind : c.here.kind <;>
      simp [hkind, Token.Kind.isOpener, stopsAtSemicolon, Token.Kind.isStop] at hopener hstop ⊢

/-- Tokens that nest and hold no semicolon but the last are skipped up to it. -/
theorem skips_simple {part us : List Token} {last : Token} (hc : Token.Laid source c.tokens)
    (hshape : skipShape c = .simple) (htokens : c.tokens = part ++ last :: us) (hus : us ≠ [])
    (hpart : Unbroken part) (hlast : last.kind = .semicolon)
    (hnested : openBrackets? [] (part ++ [last]) = some []) : Skips c.tokens us := by
  have hend : ∀ t ∈ part, ¬ t.isEnd := Token.Laid.not_isEnd (htokens ▸ hc) (List.cons_ne_nil _ _)
  have hopen : openBrackets? [] part = some [] := by
    rw [Token.openBrackets?_append] at hnested
    obtain ⟨opened, hopened, hrest⟩ := Option.bind_eq_some_iff.mp hnested
    rw [Token.openBrackets?_plain_singleton (by rw [hlast]; decide) (by rw [hlast]; decide)] at hrest
    rw [hopened, hrest]
  have hout : ∀ t ∈ outside part, stopsAtSemicolon t = false := by
    intro t ht
    have hcloser := (Token.not_bracket_of_outsideFrom t ht).2
    rw [stopsAtSemicolon, hpart.outsideFrom 0 t ht, Bool.false_or, decide_eq_false_iff_not]
    exact fun hbrace => hcloser (by rw [hbrace]; rfl)
  obtain ⟨d, hd, -, hrounds⟩ := stepsOver_semicolonRound.exists_passed
    (Token.grouped_of_openBrackets? hend hopen) hout hc htokens
  have hhere : d.here.kind = .semicolon := (List.cons.inj hd).1 ▸ hlast
  have hround : (do semicolonRound (← here) : Reading Bool) d = ([], .ok (false, d.advance)) := by
    rw [here_bind, semicolonRound, hhere]
    rfl
  have hrun : skipToSemicolon c = ([], .ok ((), d.advance)) :=
    (hrounds d.advance (.last hround)).loop le_rfl
  have hadvanced : d.advance.tokens = us := by
    obtain ⟨u, us, rfl⟩ := List.exists_cons_of_ne_nil hus
    rw [Cursor.advance, (List.cons.inj hd).2]
    rfl
  refine hadvanced ▸ skips_of_run d.advance [] ?_
  rw [skipStatement_unfold hc, skipOver, cursor_bind, hshape]
  exact hrun

end Reading

end CodeFrames
