import CodeFrames.Proofs.ExpressionTexts
import CodeFrames.Proofs.Framing
import CodeFrames.Proofs.Stretches

/-!
# The slices that become texts of expressions

The assembly cuts the text of an expression out of the source between the two ends of it.  What it
cuts out is split into the tokens that were read for the expression.
-/

namespace CodeFrames

open Token

namespace Assembly

variable {a b : Assembly}

/-- The text that is cut out of the source where an expression ends, if it is the outermost one. -/
def handed? (a : Assembly) (last : Span) (isEmpty : Bool) : Option Text :=
  a.expressions.head?.bind fun top =>
    match top.closed a.source last.stop isEmpty with
    | .ok (_, text) => text
    | .error _ => none

/-- The text that is handed over becomes a text of the frame, type tests shown as frames show them. -/
theorem step_of_handed {last : Span} {isEmpty : Bool} {text : Text}
    (h : a.handed? last isEmpty = some text) : ∃ use below,
      a.step (.closeExpression last isEmpty) =
        ({ a with expressions := below } : Assembly).fulfil use (withSubtypeOperator text) := by
  unfold handed? at h
  cases hexpressions : a.expressions with
  | nil => simp [hexpressions] at h
  | cons top below =>
      rw [hexpressions, List.head?_cons, Option.bind_some] at h
      cases hclosed : top.closed a.source last.stop isEmpty with
      | error e => simp [hclosed] at h
      | ok p =>
          obtain ⟨top', text'⟩ := p
          obtain rfl : text' = some text := by simpa [hclosed] using h
          refine ⟨top'.use, below, ?_⟩
          simp only [step, closeExpression, hexpressions, hclosed, Except.ok_bind]

/-! ## What a step does to the open extractions -/

theorem expressions_report {e : Element} (h : a.report e = .ok b) : b.expressions = a.expressions := by
  unfold report at h
  split at h
  · cases h
  · obtain ⟨top, -, rfl⟩ := Except.exists_of_map h
    rfl

theorem expressions_reports {es : List Element} (h : es.foldlM report a = .ok b) :
    b.expressions = a.expressions := by
  induction es generalizing a with
  | nil =>
      cases h
      rfl
  | cons e es ih =>
      obtain ⟨c, hreport, h⟩ := Except.exists_of_bind h
      rw [ih h, expressions_report hreport]

theorem expressions_updateChain {f : OpenChain → Except ConversionError OpenChain}
    (h : a.updateChain f = .ok b) : b.expressions = a.expressions := by
  unfold updateChain at h
  split at h
  · cases h
  · obtain ⟨chain, -, rfl⟩ := Except.exists_of_map h
    rfl
  · cases h

theorem expressions_updateDeclaration {f : Declaration → Except ConversionError Declaration}
    (h : a.updateDeclaration f = .ok b) : b.expressions = a.expressions := by
  unfold updateDeclaration at h
  split at h
  · cases h
  · obtain ⟨d, -, rfl⟩ := Except.exists_of_map h
    rfl

theorem expressions_claimType {type : Fragment} (h : a.claimType = .ok (type, b)) :
    b.expressions = a.expressions := by
  unfold claimType at h
  split at h <;> cases h
  rfl

theorem expressions_fulfil {use : ExpressionUse} {text : Text} (h : a.fulfil use text = .ok b) :
    b.expressions = a.expressions := by
  cases use with
  | ifCondition | whileCondition | discarded =>
      cases h
      rfl
  | elseIfCondition => exact expressions_updateChain h
  | returnValue | statement | thrown => exact expressions_report h
  | initializer name =>
      simp only [fulfil] at h
      split at h
      · cases h
      · exact expressions_report h
  | argument =>
      simp only [fulfil] at h
      split at h <;> cases h
      rfl

theorem expressions_openBlock (h : a.openBlock = .ok b) : b.expressions = a.expressions := by
  unfold openBlock at h
  cases hhandlers : a.handlers with
  | nil => simp [hhandlers] at h
  | cons top below =>
    simp only [hhandlers] at h
    have hnested (h : (if top.collects = true then
          Except.ok { a with handlers := .block .nested :: top :: below }
        else Except.error (ConversionError.mismatch .readyForBlock top.situation)) = .ok b) :
        b.expressions = a.expressions := by
      split at h <;> cases h
      rfl
    cases top with
    | root elements => exact hnested h
    | block body =>
        simp only at h
        split at h
        · cases h
          rfl
        · exact hnested h
    | chain c =>
        simp only at h
        split at h
        · obtain ⟨d, -, rfl⟩ := Except.exists_of_map h
          rfl
        · exact hnested h
    | loop w =>
        simp only at h
        split at h
        · obtain ⟨d, -, rfl⟩ := Except.exists_of_map h
          rfl
        · exact hnested h

theorem expressions_closeBlock (h : a.closeBlock = .ok b) : b.expressions = a.expressions := by
  unfold closeBlock at h
  split at h
  · cases h
  · dsimp only at h
    split at h
    · split at h
      · split at h
        · cases h
          rfl
        · exact (expressions_reports h :)
      · cases h
    · obtain ⟨d, -, rfl⟩ := Except.exists_of_map h
      rfl
    · obtain ⟨d, -, rfl⟩ := Except.exists_of_map h
      rfl
    · cases h

/-- An event that is no end of an expression leaves the open extractions as they are, puts one above
them that has not begun, or changes the use of the innermost one. -/
inductive Awaits : List Extraction → List Extraction → Prop
  | same (xs : List Extraction) : Awaits xs xs
  | awaited (use : ExpressionUse) (xs : List Extraction) : Awaits xs (.awaiting use :: xs)
  | discarded (use : ExpressionUse) (x : Extraction) (xs : List Extraction) :
      Awaits (x :: xs) ({ x with use } :: xs)

theorem Awaits.of_eq (h : b.expressions = a.expressions) : Awaits a.expressions b.expressions :=
  h ▸ .same _

theorem expressions_step {e : Event} (h : a.step e = .ok b) (he : e.boundsExpression = false) :
    Awaits a.expressions b.expressions := by
  cases e with
  | openExpression first => cases he
  | closeExpression last isEmpty => cases he
  | openArguments paren =>
      cases h
      unfold openArguments
      split <;> exact .same _
  | argument first =>
      cases h
      unfold argument
      split
      · exact .same _
      · split
        · exact .awaited _ _
        · exact .same _
  | closeArguments paren =>
      simp only [step, closeArguments] at h
      split at h
      · cases h
        exact .same _
      · obtain ⟨list, -, h⟩ := Except.exists_of_bind h
        split at h
        · exact .of_eq (expressions_updateDeclaration h :)
        · cases h
          exact .same _
  | openBlock first => exact .of_eq (expressions_openBlock h)
  | closeBlock last => exact .of_eq (expressions_closeBlock h)
  | openIf keyword | openWhile keyword | thrown keyword | expressionStatement first =>
      cases h
      exact .awaited _ _
  | elseIf keyword =>
      obtain ⟨c, hupdate, rfl⟩ := Except.exists_of_map h
      exact expressions_updateChain hupdate ▸ .awaited _ _
  | otherwise keyword => exact .of_eq (expressions_updateChain h)
  | closeIf last =>
      simp only [step, closeIf] at h
      split at h
      · cases h
      · obtain ⟨e, -, h⟩ := Except.exists_of_bind h
        exact .of_eq (expressions_report h :)
      · cases h
  | closeWhile last =>
      simp only [step, closeWhile] at h
      split at h
      · cases h
      · obtain ⟨e, -, h⟩ := Except.exists_of_bind h
        exact .of_eq (expressions_report h :)
      · cases h
  | returned keyword hasValue =>
      simp only [step, returned] at h
      split at h
      · cases h
        exact .awaited _ _
      · exact .of_eq (expressions_report h)
  | jumped jump keyword label =>
      simp only [step, jumped] at h
      refine .of_eq ((expressions_report h).trans ?_)
      split <;> rfl
  | openVariables first modifiers =>
      obtain ⟨⟨type, c⟩, hclaim, h⟩ := Except.exists_of_bind h
      cases h
      exact .of_eq (expressions_claimType hclaim :)
  | declarator name hasValue =>
      simp only [step, declarator] at h
      split at h
      · cases h
        exact .awaited _ _
      · split at h
        · cases h
        · exact .of_eq (expressions_report h)
  | openMethod first modifiers name =>
      obtain ⟨⟨type, c⟩, hclaim, h⟩ := Except.exists_of_bind h
      cases h
      exact .of_eq (expressions_claimType hclaim :)
  | parameter name ellipsis =>
      obtain ⟨⟨type, c⟩, hclaim, h⟩ := Except.exists_of_bind h
      refine .of_eq ((expressions_updateDeclaration h).trans (.trans ?_ (expressions_claimType hclaim)))
      split <;> rfl
  | closeVariables last =>
      simp only [step, closeVariables] at h
      split at h <;> cases h
      exact .same _
  | openThrows keyword =>
      simp only [step, openThrows] at h
      split at h <;> cases h
      exact .same _
  | closeThrows =>
      simp only [step, closeThrows] at h
      split at h
      · cases h
      · split at h
        · cases h
        · exact .of_eq (expressions_updateDeclaration h :)
  | delegateCall keyword =>
      simp only [step, delegateCall] at h
      split at h
      · cases h
      · obtain ⟨c, hupdate, h⟩ := Except.exists_of_bind h
        have hsame := expressions_updateDeclaration hupdate
        split at h
        · cases h
        · next top below hexpressions =>
            split at h <;> cases h
            rw [← hsame, hexpressions]
            exact .discarded _ _ _
  | closeDeclaration last hasBody =>
      obtain ⟨body, below, d, outer, e, -, -, -, -, -, hreport⟩ := exists_of_closeDeclaration h
      exact .of_eq (expressions_report hreport :)
  | emptyStatement semicolon | unsupported place construct | comment whole | typeName first last
  | openConstructor first modifiers name =>
      cases h
      exact .same _

/-! ## Extractions and the expressions that are open -/

/-- Each extraction stands for as many of the open expressions as it is deep, and its text starts
where the outermost of them does. -/
def Owns : List Extraction → List Span → Prop
  | [], _ => True
  | x :: xs, opened => ∃ inner outer, opened = inner ++ outer ∧ inner.length = x.depth ∧
      (∀ first ∈ inner.getLast?, x.start = some first.start) ∧ Owns xs outer

theorem Owns.awaits {xs ys : List Extraction} {opened : List Span} (h : Owns xs opened)
    (hawaits : Awaits xs ys) : Owns ys opened := by
  cases hawaits with
  | same => exact h
  | awaited use => exact ⟨[], opened, rfl, rfl, by simp, h⟩
  | discarded use x xs => exact h

theorem owns_openExpression {opened : List Span} (h : Owns a.expressions opened) (first : Span) :
    Owns (a.openExpression first).expressions (first :: opened) := by
  unfold openExpression
  split
  · next hexpressions =>
      rw [hexpressions]
      trivial
  · next top below hexpressions =>
      rw [hexpressions] at h
      obtain ⟨inner, outer, rfl, hlength, hstart, hbelow⟩ := h
      refine ⟨first :: inner, outer, rfl, by simp [hlength, Extraction.opened], ?_, hbelow⟩
      cases inner with
      | nil => simp [Extraction.opened, ← hlength]
      | cons span inner =>
          rw [List.getLast?_cons_cons]
          intro last hlast
          simp [Extraction.opened, ← hlength, hstart last hlast]

theorem owns_closeExpression {opened : List Span} (h : Owns a.expressions opened) {last : Span}
    {isEmpty : Bool} (hstep : a.closeExpression last isEmpty = .ok b) :
    Owns b.expressions opened.tail := by
  unfold closeExpression at hstep
  split at hstep
  · next hexpressions =>
      cases hstep
      rw [hexpressions]
      trivial
  · next top below hexpressions =>
      rw [hexpressions] at h
      obtain ⟨inner, outer, rfl, hlength, hstart, hbelow⟩ := h
      obtain ⟨⟨x, ended⟩, hclosed, hstep⟩ := Except.exists_of_bind hstep
      unfold Extraction.closed at hclosed
      split at hclosed
      · cases hclosed
      · next hdepth =>
          obtain ⟨text, rfl⟩ : ∃ text, ended = some text := by
            cases isEmpty with
            | true => exact ⟨[], by cases hclosed; rfl⟩
            | false =>
                obtain ⟨text, -, hclosed⟩ := Except.exists_of_bind hclosed
                exact ⟨text, by cases hclosed; rfl⟩
          obtain ⟨first, rfl⟩ := List.length_eq_one_iff.mp (hlength.trans hdepth)
          exact (expressions_fulfil hstep :) ▸ hbelow
      · next depth hdepth =>
          cases hclosed
          cases hstep
          obtain ⟨first, inner, rfl⟩ := List.exists_cons_of_length_pos (l := inner) (by omega)
          have hmore : inner ≠ [] := by
            rintro rfl
            simp at hlength
            omega
          refine ⟨inner, outer, rfl, by simp at hlength; simp; omega, fun span hspan => ?_, hbelow⟩
          exact hstart span (by rw [List.getLast?_cons, hspan]; rfl)

theorem owns_run {events : List Event} (h : a.run events = .ok b) {opened : List Span}
    (ha : Owns a.expressions opened) : Owns b.expressions (openedBy opened events) := by
  induction events generalizing a opened with
  | nil =>
      cases h
      exact ha
  | cons e events ih =>
      obtain ⟨c, hstep, hrest⟩ := Except.exists_of_bind h
      cases he : e.boundsExpression with
      | false =>
          rw [openedBy_other he]
          exact ih hrest (ha.awaits (expressions_step hstep he))
      | true =>
          cases e with
          | openExpression first =>
              cases hstep
              exact ih hrest (owns_openExpression ha first)
          | closeExpression last isEmpty => exact ih hrest (owns_closeExpression ha hstep)
          | _ => cases he

/-- What is handed over is cut out from the start of the innermost open expression on. -/
theorem slice?_of_handed {first last : Span} {outer : List Span} {text : Text}
    (ha : Owns a.expressions (first :: outer)) (h : a.handed? last false = some text) :
    Text.slice? a.source first.start last.stop = some text := by
  unfold handed? at h
  obtain ⟨top, htop, h⟩ := Option.bind_eq_some_iff.mp h
  obtain ⟨below, hexpressions⟩ := List.head?_eq_some_iff.mp htop
  rw [hexpressions] at ha
  obtain ⟨inner, outer', heq, hlength, hstart, -⟩ := ha
  cases hclosed : top.closed a.source last.stop false with
  | error e => simp [hclosed] at h
  | ok p =>
      obtain ⟨top', text'⟩ := p
      obtain rfl : text' = some text := by simpa [hclosed] using h
      unfold Extraction.closed at hclosed
      split at hclosed
      · cases hclosed
      · next hdepth =>
          obtain ⟨text', htext, hclosed⟩ := Except.exists_of_bind hclosed
          cases hclosed
          obtain ⟨span, rfl⟩ := List.length_eq_one_iff.mp (hlength.trans hdepth)
          obtain rfl := (List.cons.inj heq).1
          change top.textTo a.source last.stop = .ok text at htext
          rw [Extraction.textTo, hstart first (by simp)] at htext
          simp only [Option.getD_some] at htext
          split at htext
          · next hslice =>
              cases htext
              exact hslice
          · cases htext
      · cases hclosed

end Assembly

/-! ## Stretches between two cursors -/

theorem mem_of_openedBy {opened : List Span} {events : List Event} {span : Span}
    (h : span ∈ openedBy opened events) : span ∈ opened ∨ .openExpression span ∈ events := by
  induction events generalizing opened with
  | nil => exact .inl h
  | cons e events ih =>
      cases he : e.boundsExpression with
      | false =>
          rw [openedBy_other he] at h
          exact (ih h).imp_right (List.mem_cons_of_mem _)
      | true =>
          cases e with
          | openExpression first =>
              rcases ih h with hmem | hmem
              · rcases List.mem_cons.mp hmem with rfl | hmem
                · exact .inr List.mem_cons_self
                · exact .inl hmem
              · exact .inr (List.mem_cons_of_mem _ hmem)
          | closeExpression last isEmpty =>
              exact (ih h).imp List.mem_of_mem_tail (List.mem_cons_of_mem _)
          | _ => cases he

/-- Consecutive tokens that are no comments are those of a stretch from the first to the last. -/
theorem exists_stretch_of_code {tokens passed inside behind : List Token} {first last : Token}
    (h : code tokens = passed ++ (inside ++ behind)) (hfirst : first ∈ inside.head?)
    (hlast : last ∈ inside.getLast?) : ∃ before stretch after,
      tokens = before ++ (stretch ++ after) ∧ first ∈ stretch.head? ∧ last ∈ stretch.getLast? ∧
        code stretch = inside ∧ code after = behind := by
  obtain ⟨before, rest, rfl, -, hrest⟩ := List.filter_eq_append_iff.mp h
  obtain ⟨more, rfl⟩ := List.head?_eq_some_iff.mp hfirst
  rw [List.cons_append] at hrest
  obtain ⟨gap, rest, rfl, -, hkind, hrest⟩ := List.filter_eq_cons_iff.mp hrest
  have hkind : first.kind ≠ .comment := by simpa using hkind
  rcases List.eq_nil_or_concat more with rfl | ⟨more, final, rfl⟩
  · obtain rfl : first = last := by simpa using hlast
    exact ⟨before ++ gap, [first], rest, by simp, rfl, rfl, by rw [code_cons hkind, code_nil], hrest⟩
  · rw [List.concat_eq_append] at hlast hrest
    rw [← List.cons_append, List.getLast?_concat] at hlast
    obtain rfl : final = last := Option.some.inj hlast
    rw [List.append_assoc] at hrest
    obtain ⟨front, rest, rfl, hfront, hrest⟩ := List.filter_eq_append_iff.mp hrest
    obtain ⟨gap', rest, rfl, hgap, hkind', hrest⟩ := List.filter_eq_cons_iff.mp hrest
    have hkind' : final.kind ≠ .comment := by simpa using hkind'
    have hnone : code gap' = [] := List.filter_eq_nil_iff.mpr hgap
    refine ⟨before ++ gap, first :: (front ++ gap' ++ [final]), rest, by simp, rfl,
      by rw [← List.cons_append, List.getLast?_concat]; rfl, ?_, hrest⟩
    rw [code_cons hkind, code_append, code_append, hnone, code_cons hkind', code_nil,
      show code front = more from hfront, List.concat_eq_append, List.append_nil]

/-- The tokens between two bounds make up a stretch, and what is cut out between the two is split into
them. -/
theorem Cursor.Bounds.exists_stretch {source : Text} {tokens : List Token} {start : Cursor}
    {first last : Span} (h : start.Bounds first last) (htokens : lex source = .ok tokens)
    (hstart : Cursor.ofTokens tokens = some start) :
    ∃ before stretch behind initial final, tokens = before ++ (stretch ++ behind) ∧
      initial ∈ stretch.head? ∧ final ∈ stretch.getLast? ∧ (∀ t ∈ stretch, ¬ t.isEnd) ∧
      initial.toSpan = first ∧ final.toSpan = last ∧
      ∃ text, Text.slice? source first.start last.stop = some text ∧
        SplitsInto text initial stretch := by
  obtain ⟨c, d, ⟨passed, htokens', -⟩, ⟨inside, hne, hinside, hbefore⟩, hsettled, rfl, rfl⟩ := h
  rw [Cursor.tokens_of_ofTokens hstart, hinside] at htokens'
  obtain ⟨t, inside, rfl⟩ := List.exists_cons_of_ne_nil hne
  obtain ⟨rfl, -⟩ := List.cons.inj hinside
  have hfinal : d.before ∈ (c.here :: inside).getLast? := by
    rw [hbefore, List.getLastD_cons, List.getLast?_cons, List.getLastD_eq_getLast?]
    rfl
  obtain ⟨before, stretch, behind, rfl, hhead, hlast, -, hbehind⟩ :=
    exists_stretch_of_code htokens' rfl hfinal
  have hend : ∀ t ∈ stretch, ¬ t.isEnd := by
    have hlaid := laid_of_lex htokens
    rw [← List.append_assoc] at hlaid
    have hbehind : behind ≠ [] := by
      rintro rfl
      cases hbehind
    exact fun t ht => hlaid.not_isEnd hbehind t (List.mem_append_right _ ht)
  have hdot (hkind : d.before.kind = .dot) : ∀ t ∈ (code behind).head?,
      Reading.endsLambdaBody t = true := by
    intro t ht
    rw [hbehind] at ht
    obtain rfl : d.here = t := by simpa [Cursor.tokens] using ht
    exact hsettled hkind
  exact ⟨before, stretch, behind, c.here, d.before, rfl, hhead, hlast, hend, rfl, rfl,
    Token.exists_stretch htokens rfl hhead hlast hend hdot⟩

/-- What is cut out of a source from the start of one token to the end of another is split into the
same tokens again, unless the last one is a dot.  So is each text that the assembly cuts out of a
source that is converted: it is split into the tokens from the one that the expression was announced
at to the one that it ended with. -/
theorem lex_slices {source : Text} {tokens : List Token} (htokens : lex source = .ok tokens) :
    (∀ (before stretch behind : List Token) (first last : Token),
      tokens = before ++ (stretch ++ behind) → first ∈ stretch.head? → last ∈ stretch.getLast? →
      (∀ t ∈ stretch, ¬ t.isEnd) → last.kind ≠ .dot →
      ∃ text, Text.slice? source first.start last.stop = some text ∧
        SplitsInto text first stretch) ∧
    ∀ (options : Options) (conversion : Conversion), convert options source = .ok conversion →
      ∀ (earlier later : List Event) (last : Span) (isEmpty : Bool) (a : Assembly) (text : Text),
        (readEvents source).1 = earlier ++ .closeExpression last isEmpty :: later →
        (Assembly.start source options).run earlier = .ok a → a.handed? last isEmpty = some text →
        (∃ use below, a.step (.closeExpression last isEmpty) =
          ({ a with expressions := below } : Assembly).fulfil use (withSubtypeOperator text)) ∧
        ∃ before stretch behind first final, tokens = before ++ (stretch ++ behind) ∧
          first ∈ stretch.head? ∧ final ∈ stretch.getLast? ∧ (∀ t ∈ stretch, ¬ t.isEnd) ∧
          .openExpression first.toSpan ∈ earlier ∧ final.toSpan = last ∧
          Text.slice? source first.start last.stop = some text ∧ SplitsInto text first stretch := by
  refine ⟨fun before stretch behind first last hsplit hfirst hlast hend hdot =>
    Token.exists_stretch htokens hsplit hfirst hlast hend fun hkind => absurd hkind hdot, ?_⟩
  intro options conversion hconvert earlier later last isEmpty a text hevents hrun hhanded
  refine ⟨Assembly.step_of_handed hhanded, ?_⟩
  obtain ⟨events, hread, -⟩ := exists_events_of_convert hconvert
  obtain ⟨start, hstart, hframed⟩ := framed_of_lex htokens (congrArg Prod.snd hread)
  obtain ⟨rfl, span, outer, hopened, hbounds⟩ := hframed.exists_opened hevents []
  have howns := Assembly.owns_run hrun (show Assembly.Owns [] [] from trivial)
  rw [hopened] at howns
  have hslice := Assembly.slice?_of_handed howns hhanded
  rw [(Assembly.follows_run hrun).source_eq] at hslice
  obtain ⟨before, stretch, behind, first, final, hsplit, hfirst, hfinal, hend, rfl, rfl, text', hslice',
    hsplits⟩ := hbounds.exists_stretch htokens hstart
  obtain rfl : text' = text := Option.some.inj (hslice'.symm.trans hslice)
  refine ⟨before, stretch, behind, first, final, hsplit, hfirst, hfinal, hend, ?_, rfl, hslice, hsplits⟩
  exact (mem_of_openedBy (hopened ▸ List.mem_cons_self)).resolve_left (by simp)

/-- The body of the lambda ends with a dot, and so does the text of the statement. -/
def dottedLambda : Text := "f = x -> y.;".toList

def dottedTokens : List Token :=
  [⟨⟨1, 0, 1⟩, .word, ['f']⟩, ⟨⟨1, 2, 3⟩, .operator, ['=']⟩, ⟨⟨1, 4, 5⟩, .word, ['x']⟩,
    ⟨⟨1, 6, 8⟩, .operator, ['-', '>']⟩, ⟨⟨1, 9, 10⟩, .word, ['y']⟩, ⟨⟨1, 10, 11⟩, .dot, ['.']⟩,
    ⟨⟨1, 11, 12⟩, .semicolon, [';']⟩, ⟨⟨1, 12, 12⟩, .endOfInput, []⟩]

theorem lex_slices_dottedLambda : lex dottedLambda = .ok dottedTokens ∧
    (∃ text, Text.slice? dottedLambda 4 10 = some text ∧
      SplitsInto text ⟨⟨1, 4, 5⟩, .word, ['x']⟩ ((dottedTokens.drop 2).take 3)) ∧
    ∃ before stretch behind first final, dottedTokens = before ++ (stretch ++ behind) ∧
      first ∈ stretch.head? ∧ final ∈ stretch.getLast? ∧ final.toSpan = ⟨1, 10, 11⟩ ∧
      SplitsInto "f = x -> y.".toList first stretch := by
  have hlex : lex dottedLambda = .ok dottedTokens := by rfl
  refine ⟨hlex, ?_, ?_⟩
  · exact (lex_slices hlex).1 (dottedTokens.take 2) ((dottedTokens.drop 2).take 3)
      (dottedTokens.drop 5) ⟨⟨1, 4, 5⟩, .word, ['x']⟩ ⟨⟨1, 9, 10⟩, .word, ['y']⟩ (by decide) (by decide)
      (by decide) (by decide) (by decide)
  · obtain ⟨conversion, hconversion⟩ : ∃ conversion, convert .default dottedLambda = .ok conversion :=
      Except.exists_of_isOk (by decide +kernel)
    let earlier : List Event := [.expressionStatement ⟨1, 0, 1⟩, .openExpression ⟨1, 0, 1⟩,
      .unsupported ⟨1, 4, 5⟩ "lambda expression"]
    have hevents : (readEvents dottedLambda).1 = earlier ++ [.closeExpression ⟨1, 10, 11⟩ false] := by
      decide +kernel
    obtain ⟨a, hrun⟩ : ∃ a, (Assembly.start dottedLambda .default).run earlier = .ok a :=
      ⟨_, rfl⟩
    have hhanded : a.handed? ⟨1, 10, 11⟩ false = some "f = x -> y.".toList := by
      cases hrun
      decide +kernel
    obtain ⟨-, before, stretch, behind, first, final, hsplit, hfirst, hfinal, -, -, hspan, -, hsplits⟩ :=
      (lex_slices hlex).2 .default conversion hconversion earlier [] _ _ a _ hevents hrun hhanded
    exact ⟨before, stretch, behind, first, final, hsplit, hfirst, hfinal, hspan, hsplits⟩

end CodeFrames
