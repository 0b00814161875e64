import CodeFrames.Proofs.Printing

/-!
# Reading simple statements back

Each simple statement is read in front of any text as it was printed, and reports what it is with no
warnings.
-/

namespace CodeFrames

open scoped Computability
open Sentence Text

/-! ## What is reported -/

namespace Reading

variable (source : Text) (width : Option Nat)

/-- No event begins a declaration with more than one access level. -/
def clears : Language Event := {es | ∀ event ∈ es, event.AccessClear source}

/-- The events of one statement or declaration. -/
def stated (e : Element) : Language Event :=
  {es | Statement source width none es [e] [] ∧ es ∈ clears source}

/-- The events of elements in a row. -/
def listed (elements : Block) : Language Event :=
  {es | Items source width none es elements [] ∧ es ∈ clears source}

variable {source width} {α β : Type} {e : Text} {es more : List Event}

theorem accessClear_of_modifiers {event : Event} (h : event.modifiers = []) :
    event.AccessClear source := by
  rw [Event.AccessClear, h, List.map_nil]
  decide

theorem nil_mem_clears : [] ∈ clears source := fun _ h => (List.not_mem_nil h).elim

theorem cons_mem_clears {event : Event} (hevent : event.AccessClear source)
    (h : es ∈ clears source) : event :: es ∈ clears source :=
  List.forall_mem_cons.mpr ⟨hevent, h⟩

theorem append_mem_clears (h : es ∈ clears source) (g : more ∈ clears source) :
    es ++ more ∈ clears source := List.forall_mem_append.mpr ⟨h, g⟩

theorem single_mem_clears {event : Event} (h : event.AccessClear source) : [event] ∈ clears source :=
  cons_mem_clears h nil_mem_clears

theorem clears_of_expressed (h : es ∈ expressed source e) : es ∈ clears source := by
  have hevents : ∀ event ∈ es, event.modifiers = [] := by
    rcases h with ⟨first, last, inside, -⟩ | ⟨first, last, inside⟩
    all_goals
      refine List.forall_mem_cons.mpr ⟨rfl, List.forall_mem_append.mpr ⟨inside.modifiers, ?_⟩⟩
      exact List.forall_mem_cons.mpr ⟨rfl, fun _ h => (List.not_mem_nil h).elim⟩
  exact fun event hevent => accessClear_of_modifiers (hevents event hevent)

end Reading

/-! ## Steps -/

namespace Reading.CompletesAt

variable {α β : Type} {source t u : Text} {c : Cursor} {L M : Language Event}
  {R : β → Cursor → Prop}

theorem emit_bind {e : Event} {f : Unit → Reading β} (h : (f ()).CompletesAt c M R) :
    (Reading.emit e >>= f).CompletesAt c ({[e]} * M) R :=
  (CompletesAt.emit (Q := fun _ d => d = c) rfl).bind fun _ _ hd => hd ▸ h

theorem of_statementShape {inner : Enclosed} {shape : StatementShape} {Q : Unit → Cursor → Prop}
    (hcomments : c.comments = []) (hshape : statementShape c = shape)
    (h : (statementOf inner shape).CompletesAt c L Q) : (statement inner).CompletesAt c L Q := by
  rw [CompletesAt, statement_eq hcomments, hshape]
  exact h

theorem semicolon {Q : Unit → Cursor → Prop} (hc : c.StandsAt source (';' :: u))
    (hQ : ∀ d, d.StandsAt source u → Q () d) :
    (do let _ ← Reading.semicolon : Reading Unit).CompletesAt c 1 Q :=
  @expect_bind _ source u c 1 Q ';' .semicolon ";" _ hc (by decide) fun d hd =>
    CompletesAt.pure (hQ d hd)

end Reading.CompletesAt

namespace Reading

variable {options : Options} {source u e : Text} {width : Option Nat} {levels : Nat} {c : Cursor}

theorem splits_word {w u : Text} (hw : Token.symbols w = [Token.symbol .word w, Token.symbol .endOfInput []])
    (hu : IsApart u) : Splits w u [Token.symbol .word w] :=
  (spells_iff.mpr ⟨hw, by simp [Token.symbol]⟩ : w.Spells [Token.symbol .word w]).splits hu

theorem delimits_mark {ch : Char} (kind : Token.Kind) (hmark : (ch, kind) ∈ Token.marks)
    (hkind : kind ∈ Token.delimiters) (u : Text) :
    ∃ first rest, Token.symbols (ch :: u) = first :: rest ∧ first.Delimits :=
  ⟨_, _, symbols_mark hmark u, hkind⟩

theorem kind_mark {ch : Char} {kind : Token.Kind} (hc : c.StandsAt source (ch :: u))
    (hmark : (ch, kind) ∈ Token.marks) : c.here.kind = kind :=
  congrArg Token.kind (hc.advance (splits_punctuation (Token.lexeme_mark hmark) u)).1

/-- An expression and the semicolon behind it. -/
theorem completesAt_ended (he : e.IsExpression options) (hlevels : 127 ≤ levels)
    (hc : c.StandsAt source (e ++ ';' :: u)) :
    (do
      expression (Enclosed.within levels)
      let _ ← semicolon : Reading Unit).CompletesAt c (expressed source e)
      fun _ d => d.StandsAt source u :=
  (he.completesAt hlevels hc (isApart_cons (by decide) _)
    (delimits_mark .semicolon (by decide) (by decide) _)).bind_silent
      fun _ _ hd => CompletesAt.semicolon hd fun _ h => h

variable {name : Text}

theorem advance_word {w : Text} (hc : c.StandsAt source (w ++ u))
    (hw : Token.symbols w = [Token.symbol .word w, Token.symbol .endOfInput []]) (hu : IsApart u) :
    c.here.bare = Token.symbol .word w ∧ c.advance.StandsAt source u :=
  hc.advance (splits_word hw hu)

/-- A statement that its first word decides. -/
theorem completesAt_keyword {w : Text} {shape : StatementShape} {inner : Enclosed}
    {L : Language Event} {Q : Unit → Cursor → Prop} (hc : c.StandsAt source (w ++ u))
    (hw : Token.symbols w = [Token.symbol .word w, Token.symbol .endOfInput []])
    (hshape : statementWords.lookup w = some shape) (hu : IsApart u)
    (h : c.advance.StandsAt source u → (statementOf inner shape).CompletesAt c L Q) :
    (statement inner).CompletesAt c L Q := by
  obtain ⟨hhere, hadvance⟩ := advance_word hc hw hu
  exact CompletesAt.of_statementShape hc.comments_eq (statementShape_of_word hhere hshape) (h hadvance)

theorem expressed_le_thrown (keyword : Span) :
    {[.thrown keyword]} * expressed source e ≤
      stated source width (.throwValue (.expression e)) := by
  rintro _ ⟨_, rfl, events, h, rfl⟩
  exact ⟨.thrown keyword h, cons_mem_clears (accessClear_of_modifiers rfl) (clears_of_expressed h)⟩

theorem completesAt_thrown (he : e.IsExpression options) (hlevels : 127 ≤ levels)
    (hc : c.StandsAt source (Print.element name (.throwValue (.expression e)) ++ u)) :
    (statement (Enclosed.within levels)).CompletesAt c
      (stated source width (.throwValue (.expression e))) fun _ d => d.StandsAt source u := by
  simp only [Print.element, List.append_assoc, List.cons_append] at hc
  refine completesAt_keyword hc (by decide) (show _ = some .thrown by decide)
    (isApart_cons (by decide) _) fun hadvance => ?_
  exact CompletesAt.mono (CompletesAt.take_bind (CompletesAt.emit_bind
    (completesAt_ended he hlevels hadvance.of_blank))) (expressed_le_thrown _)

theorem expressed_le_returned (keyword : Span) :
    {[.returned keyword true]} * expressed source e ≤
      stated source width (.returnValue (some (.expression e))) := by
  rintro _ ⟨_, rfl, events, h, rfl⟩
  exact ⟨.returnedValue keyword h,
    cons_mem_clears (accessClear_of_modifiers rfl) (clears_of_expressed h)⟩

/-- An expression can start where one is printed. -/
theorem opens_of_expression (he : e.IsExpression options) (hu : IsApart u)
    (hc : c.StandsAt source (e ++ u)) : c.here.endsExpression = false := by
  obtain ⟨ps, hps, -⟩ := he.nested
  obtain ⟨p, rest, rfl, hends, -⟩ := he.exists_first hps
  have hfaces := hc.faces
  rw [(hps.splits hu).symbols_eq] at hfaces
  exact (congrArg Token.endsExpression hfaces.here_eq).trans hends

theorem not_semicolon_of_expression (he : e.IsExpression options) (hu : IsApart u)
    (hc : c.StandsAt source (e ++ u)) : c.isAt .semicolon = false := by
  have hends := opens_of_expression he hu hc
  simp only [Cursor.isAt, decide_eq_false_iff_not]
  intro hsemicolon
  rw [endsExpression_of_semicolon hsemicolon] at hends
  cases hends

theorem completesAt_returnedValue (he : e.IsExpression options) (hlevels : 127 ≤ levels)
    (hc : c.StandsAt source (Print.element name (.returnValue (some (.expression e))) ++ u)) :
    (statement (Enclosed.within levels)).CompletesAt c
      (stated source width (.returnValue (some (.expression e)))) fun _ d => d.StandsAt source u := by
  simp only [Print.element, List.append_assoc, List.cons_append] at hc
  refine completesAt_keyword hc (by decide) (show _ = some .returned by decide)
    (isApart_cons (by decide) _) fun hadvance => ?_
  have hvalue := not_semicolon_of_expression he (isApart_cons (by decide) _) hadvance.of_blank
  refine CompletesAt.mono (CompletesAt.take_bind (CompletesAt.cursor_bind ?_))
    (expressed_le_returned c.here.toSpan)
  rw [hvalue]
  exact CompletesAt.emit_bind (completesAt_ended he hlevels hadvance.of_blank)

theorem completesAt_returned {inner : Enclosed}
    (hc : c.StandsAt source (Print.element name (.returnValue none) ++ u)) :
    (statement inner).CompletesAt c (stated source width (.returnValue none))
      fun _ d => d.StandsAt source u := by
  rw [Print.element, List.append_assoc] at hc
  refine completesAt_keyword hc (by decide) (show _ = some .returned by decide)
    (isApart_cons (by decide) _) fun hadvance => ?_
  have hsemicolon : c.advance.isAt .semicolon = true := by
    have hkind := @kind_mark _ _ _ ';' .semicolon hadvance (by decide)
    simp [Cursor.isAt, hkind]
  refine CompletesAt.mono (CompletesAt.take_bind (CompletesAt.cursor_bind ?_))
    (L := {[.returned c.here.toSpan false]}) ?_
  · rw [hsemicolon]
    exact CompletesAt.mono (CompletesAt.emit_bind (CompletesAt.semicolon hadvance fun _ h => h))
      (mul_one _).le
  · rintro _ rfl
    exact ⟨.returned _, cons_mem_clears (accessClear_of_modifiers rfl) nil_mem_clears⟩

theorem completesAt_jump {inner : Enclosed} (jump : Jump)
    (hc : c.StandsAt source (Print.element name (.jump jump) ++ u)) :
    (statement inner).CompletesAt c (stated source width (.jump jump))
      fun _ d => d.StandsAt source u := by
  rw [Print.element, List.append_assoc] at hc
  refine completesAt_keyword hc (by cases jump <;> decide)
    (show _ = some (.jump jump) by cases jump <;> decide) (isApart_cons (by decide) _)
    fun hadvance => ?_
  have hkind := @kind_mark _ _ _ ';' .semicolon hadvance (by decide)
  have hlabel : label c.advance = ([], .ok (none, c.advance)) := by
    rw [label, here_bind, if_neg (by simp [Token.isAnyWord, hkind])]
    rfl
  refine CompletesAt.mono (L := {[.jumped jump c.here.toSpan none]}) (CompletesAt.take_bind ?_) ?_
  · have hnone : label.CompletesAt c.advance 1 fun l d => l = none ∧ d.StandsAt source (';' :: u) :=
      ⟨[], none, c.advance, hlabel, Language.nil_mem_one, rfl, hadvance⟩
    refine hnone.silent ?_
    rintro _ d ⟨rfl, hd⟩
    exact CompletesAt.mono (CompletesAt.emit_bind (CompletesAt.semicolon hd fun _ h => h))
      (mul_one _).le
  · rintro _ rfl
    exact ⟨.jumped jump _, cons_mem_clears (accessClear_of_modifiers rfl) nil_mem_clears⟩

/-! ## Modifiers -/

theorem symbols_of_modifier {w : Text} (h : w ∈ Token.modifierWords) :
    Token.symbols w = [Token.symbol .word w, Token.symbol .endOfInput []] := by
  have hall : ∀ w ∈ Token.modifierWords,
      Token.symbols w = [Token.symbol .word w, Token.symbol .endOfInput []] := by decide
  exact hall w h

theorem modifiers_cons (w : Text) (words : List Text) :
    Print.modifiers (w :: words) = w ++ ' ' :: Print.modifiers words := by
  simp [Print.modifiers]

/-- Modifiers in front of a text are as many tokens. -/
theorem stands_behind_modifiers {words : List Text} (hwords : AreModifiers words)
    (hc : c.StandsAt source (Print.modifiers words ++ u)) :
    c.Faces (words.map (Token.symbol .word) ++ Token.symbols u) ∧
      (c.forward words.length).StandsAt source u := by
  induction words generalizing c with
  | nil => exact ⟨hc.faces, hc⟩
  | cons w words ih =>
      rw [modifiers_cons, List.append_assoc, List.cons_append] at hc
      obtain ⟨hhere, hadvance⟩ := advance_word hc
        (symbols_of_modifier (hwords w List.mem_cons_self).1) (isApart_cons (by decide) _)
      obtain ⟨hfaces, hforward⟩ := ih (fun v hv => hwords v (List.mem_cons_of_mem w hv))
        hadvance.of_blank
      refine ⟨⟨?_, hc.comments_eq⟩, hforward⟩
      have hword := splits_word (symbols_of_modifier (hwords w List.mem_cons_self).1)
        (@isApart_cons ' ' (by decide) (Print.modifiers words ++ u))
      rw [hc.faces.tokens_eq, hword.symbols_eq]
      exact congrArg (Token.symbol .word w :: ·)
        (hadvance.of_blank.faces.tokens_eq.symm.trans hfaces.tokens_eq)

theorem completesAt_modifiers {words : List Text} (hwords : AreModifiers words)
    (hc : c.StandsAt source (Print.modifiers words ++ u))
    (hu : ∃ p rest, Token.symbols u = p :: rest ∧ p.kind = .word ∧ p.text ∉ Token.modifierWords) :
    modifiers.CompletesAt c 1 fun spans d =>
      spans.map (Span.textIn source) = words ∧ d.StandsAt source u := by
  obtain ⟨hfaces, hforward⟩ := stands_behind_modifiers hwords hc
  obtain ⟨p, rest, hsymbols, hp, hmodifier⟩ := hu
  obtain ⟨taken, behind, htokens, htaken, hbehind⟩ := List.map_eq_append_iff.mp hfaces.tokens_eq
  rw [hsymbols] at hbehind
  obtain ⟨t, ts, rfl, rfl, -⟩ := List.map_eq_cons_iff.mp hbehind
  have hlengths : Token.modifierLengths c.tokens = List.replicate words.length 1 := by
    rw [htokens]
    exact modifierLengths_append hwords htaken
      (modifierLengths_of_word hmodifier (by simp [show t.kind = .word from hp]))
  have hlength : taken.length = words.length := by simpa using congrArg List.length htaken
  rw [modifiers]
  refine CompletesAt.cursor_bind ?_
  simp only [hlengths]
  refine CompletesAt.forward_bind (CompletesAt.pure ⟨?_, ?_⟩)
  · have hlies : ∀ t ∈ taken, (Span.textIn source ∘ Token.toSpan) t = t.bare.text := fun t ht => by
      have hmem : t ∈ c.tokens := htokens ▸ List.mem_append_left _ ht
      rw [Function.comp_apply, Span.textIn, (hc.laid.liesIn t hmem).slice?_eq, Option.getD_some]
      rfl
    rw [htokens, spansOf_replicate hlength, List.map_map, List.map_congr_left hlies,
      ← Function.comp_def Token.text, ← List.map_map, htaken, List.map_map]
    exact List.map_id words
  · rw [modifierCount_of_replicate hlengths]
    exact hforward

/-! ## Local variables -/

/-- The tokens of a type and a name. -/
theorem symbols_declared {type v w : Text} (ht : type.IsType) (hv : v.IsIdentifier) (hw : IsApart w) :
    ∃ ps, TypeName.Whole (ps.flatMap Token.angles) ∧
      (∀ p ∈ ps, p.isWord "record".toList = false) ∧
      Token.symbols (type ++ ' ' :: (v ++ w)) = ps ++ Token.symbol .word v :: Token.symbols w := by
  obtain ⟨-, ps, hps, hwhole, hrecord⟩ := ht
  refine ⟨ps, hwhole, hrecord, ?_⟩
  rw [(hps.splits (isApart_cons (by decide) _)).symbols_eq, symbols_blank,
    (hv.spells.splits hw).symbols_eq]
  rfl

theorem splits_assign (u : Text) : Splits ['='] (' ' :: u) [Token.symbol .operator ['=']] :=
  (spells_iff.mpr ⟨by decide, by simp [Token.symbol]⟩ : Spells ['='] [Token.symbol .operator ['=']]).splits
    (isApart_cons (by decide) _)

theorem isApart_value (initial : Option Text) (u : Text) :
    IsApart (Print.value (initial.map .expression) ++ ';' :: u) := by
  cases initial with
  | none => exact isApart_cons (by decide) u
  | some value => exact isApart_cons (by decide) _

theorem symbols_value (initial : Option Text) (u : Text) :
    ∃ next rest, Token.symbols (Print.value (initial.map .expression) ++ ';' :: u) = next :: rest ∧
      (next.isOperator ['='] || next.kind = .comma || next.kind = .semicolon) = true := by
  cases initial with
  | none => exact ⟨_, _, @symbols_mark ';' .semicolon (by decide) u, by decide⟩
  | some value => exact ⟨_, _, (splits_assign (value ++ ';' :: u)).symbols_eq, by decide⟩

def declared (source : Text) (header : VariableHeader) (e : Element) : Language Event :=
  {es | Declarators source header es [e] [] ∧ es ∈ clears source}

theorem completesAt_comma (hc : c.StandsAt source (';' :: u)) :
    comma.CompletesAt c 1 fun again d => again = false ∧ d.StandsAt source (';' :: u) := by
  have hkind := @kind_mark _ _ _ ';' .semicolon hc (by decide)
  rw [comma]
  exact CompletesAt.cursor_bind (CompletesAt.ite_false (by simp [Cursor.isAt, hkind])
    (CompletesAt.pure ⟨rfl, hc⟩))

theorem completesAt_variableValue (he : e.IsExpression options) (hlevels : 127 ≤ levels)
    (hc : c.StandsAt source (e ++ ';' :: u)) :
    (variableValue (Enclosed.within levels)).CompletesAt c (expressed source e)
      fun _ d => d.StandsAt source (';' :: u) := by
  obtain ⟨ps, hps, -⟩ := he.nested
  obtain ⟨p, rest, rfl, -, hbrace⟩ := he.exists_first hps
  have hfaces := hc.faces
  rw [(hps.splits (isApart_cons (by decide) _)).symbols_eq] at hfaces
  have hkind : c.here.bare.kind = p.kind := congrArg Token.kind hfaces.here_eq
  rw [variableValue]
  exact CompletesAt.here_bind (CompletesAt.ite_false (show ¬ c.here.bare.kind = .openBrace by rwa [hkind])
    (he.completesAt hlevels hc (isApart_cons (by decide) _)
      (delimits_mark .semicolon (by decide) (by decide) _)))

/-- A variable, perhaps with a value, that is the last one of its statement. -/
theorem completesAt_declarator {v : Text} {initial : Option Text} (header : VariableHeader)
    (hv : v.IsIdentifier) (hinitial : ∀ e ∈ initial, e.IsExpression options)
    (hlevels : 127 ≤ levels)
    (hc : c.StandsAt source (v ++ (Print.value (initial.map .expression) ++ ';' :: u))) :
    (declarator (Enclosed.within levels)).CompletesAt c
      (declared source header (.localVariable header.isFinal header.type (.name v)
        (initial.map .expression)))
      fun again d => again = false ∧ d.StandsAt source (';' :: u) := by
  rw [declarator]
  refine CompletesAt.expectName_bind hc hv (isApart_value initial u) fun htext d hd => ?_
  refine CompletesAt.cursor_bind ?_
  cases initial with
  | none =>
      have hkind := @kind_mark _ _ _ ';' .semicolon hd (by decide)
      refine CompletesAt.ite_false (by simp [Cursor.isAt, hkind]) ?_
      have hoperator : d.isAtOperator "=" = false := by
        simp [Cursor.isAtOperator, Token.isOperator, hkind]
      simp only [hoperator]
      refine CompletesAt.mono (CompletesAt.emit_bind (completesAt_comma hd)) ?_
      rw [mul_one]
      rintro _ rfl
      refine ⟨.last (htext ▸ .bare _), cons_mem_clears (accessClear_of_modifiers rfl) nil_mem_clears⟩
  | some e =>
      have hd : d.StandsAt source (['='] ++ ' ' :: (e ++ ';' :: u)) := hd.of_blank
      obtain ⟨hhere, hadvance⟩ := hd.advance (splits_assign _)
      have hkind : d.here.kind = .operator := congrArg Token.kind hhere
      refine CompletesAt.ite_false (by simp [Cursor.isAt, hkind]) ?_
      have hoperator : d.isAtOperator "=" = true := by
        simp [Cursor.isAtOperator, Token.isOperator, hkind, show d.here.text = ['='] from congrArg Token.text hhere]
      simp only [hoperator]
      refine CompletesAt.mono (CompletesAt.emit_bind (CompletesAt.take_bind
        ((completesAt_variableValue (hinitial e rfl) hlevels hadvance.of_blank).bind_silent
          fun _ _ => completesAt_comma))) ?_
      rintro _ ⟨_, rfl, events, h, rfl⟩
      exact ⟨.last (htext ▸ .initialized _ h),
        cons_mem_clears (accessClear_of_modifiers rfl) (clears_of_expressed h)⟩

theorem variables_le_stated (width : Option Nat) (first : Span) {spans : List Span} {type : Text}
    {e : Element}
    (hleft : leftoverWarnings first.line .locals ["final".toList] (spans.map (Span.textIn source)) = []) :
    typed source type * ({[.openVariables first spans]} *
      (declared source ⟨(spans.map (Span.textIn source)).contains "final".toList, .type type⟩ e *
        single Event.closeVariables)) ≤ stated source width e := by
  rintro _ ⟨_, ⟨start, stop, rfl, rfl⟩, _, ⟨_, rfl, _, ⟨events, ⟨h, hclear⟩, _, ⟨last, rfl⟩, rfl⟩, rfl⟩, rfl⟩
  have hwhole : Statement source width none _ _ _ :=
    .variables start stop first last spans h
  rw [hleft] at hwhole
  refine ⟨hwhole, append_mem_clears (single_mem_clears (accessClear_of_modifiers rfl))
    (append_mem_clears (single_mem_clears (accessClear_of_modifiers rfl))
      (append_mem_clears hclear (single_mem_clears (accessClear_of_modifiers rfl))))⟩

/-- The modifiers of a local variable, as they are printed and as they are read. -/
theorem areModifiers_final (isFinal : Bool) : AreModifiers (Print.flag isFinal "final") := by
  cases isFinal with
  | false => simp [AreModifiers, Print.flag]
  | true =>
      have hall : ∀ w ∈ Print.flag true "final", w ∈ Token.modifierWords ∧ w ≠ "synchronized".toList := by
        decide
      exact hall

theorem statementShape_localVariable {type v : Text} {initial : Option Text} (isFinal : Bool)
    (ht : type.IsType) (hv : v.IsIdentifier)
    (hc : c.StandsAt source (Print.modifiers (Print.flag isFinal "final") ++
      (type ++ ' ' :: (v ++ (Print.value (initial.map .expression) ++ ';' :: u))))) :
    statementShape c = .locals := by
  cases isFinal with
  | true =>
      obtain ⟨hfaces, -⟩ := stands_behind_modifiers (areModifiers_final true) hc
      exact statementShape_final hfaces
  | false =>
      obtain ⟨ps, hwhole, hrecord, hsymbols⟩ := symbols_declared ht hv (isApart_value initial u)
      obtain ⟨next, rest, hnext, hends⟩ := symbols_value initial u
      have hfaces : c.Faces (ps ++ Token.symbol .word v :: next :: rest) := by
        rw [← hnext, ← hsymbols]
        exact hc.faces
      exact statementShape_locals hwhole hrecord (Token.isName_of_isIdentifier hv.isIdentifier) hends
        hfaces

theorem completesAt_localVariables {type v : Text} {initial : Option Text} (isFinal : Bool)
    (ht : type.IsType) (hv : v.IsIdentifier) (hinitial : ∀ e ∈ initial, e.IsExpression options)
    (hlevels : 127 ≤ levels)
    (hc : c.StandsAt source (Print.modifiers (Print.flag isFinal "final") ++
      (type ++ ' ' :: (v ++ (Print.value (initial.map .expression) ++ ';' :: u))))) :
    (localVariables (Enclosed.within levels)).CompletesAt c
      (stated source width (.localVariable isFinal (.type type) (.name v) (initial.map .expression)))
      fun _ d => d.StandsAt source u := by
  obtain ⟨ps, hwhole, -, hsymbols⟩ := symbols_declared ht hv (isApart_value initial u)
  have hfirst : ∃ p rest, Token.symbols (type ++ ' ' :: (v ++
      (Print.value (initial.map .expression) ++ ';' :: u))) = p :: rest ∧ p.kind = .word ∧
      p.text ∉ Token.modifierWords := by
    obtain ⟨p, qs, rfl, hopens⟩ := TypeName.exists_first_of_whole hwhole
    exact ⟨p, _, hsymbols, Token.kind_of_opensType hopens, not_mem_of_opensType hopens (by decide)⟩
  rw [localVariables]
  refine CompletesAt.here_bind ((completesAt_modifiers (areModifiers_final isFinal) hc hfirst).silent ?_)
  rintro spans d ⟨hspans, hd⟩
  have hfinal : (spans.map (Span.textIn source)).contains "final".toList = isFinal := by
    rw [hspans]
    cases isFinal <;> decide
  have hleft : leftoverWarnings c.here.toSpan.line .locals ["final".toList]
      (spans.map (Span.textIn source)) = [] := by
    rw [hspans]
    cases isFinal <;> rfl
  have hname : TypeName.Ends (Token.symbols (' ' :: (v ++
      (Print.value (initial.map .expression) ++ ';' :: u)))) := by
    rw [symbols_blank, (hv.spells.splits (isApart_value initial u)).symbols_eq]
    exact ends_of_word rfl
  have hvariables := @variables_le_stated source width c.here.toSpan _ type
    (.localVariable isFinal (.type type) (.name v) (initial.map .expression)) hleft
  rw [hfinal] at hvariables
  refine CompletesAt.mono ((completesAt_typeName hd ht (isApart_cons (by decide) _) hname).bind
    fun _ d hd => CompletesAt.emit_bind ?_) hvariables
  have hround := completesAt_declarator ⟨isFinal, .type type⟩ hv hinitial hlevels hd.of_blank
  refine (RepeatsAt.last hround).repeatWhile.bind fun _ _ hd => ?_
  exact @CompletesAt.expect_bind _ _ _ _ _ _ ';' .semicolon _ _ hd (by decide) fun _ hd =>
    CompletesAt.emit_single Event.closeVariables _ hd

/-- A local variable, perhaps with a value. -/
theorem completesAt_localVariable {type v : Text} {initial : Option Text} (isFinal : Bool)
    (ht : type.IsType) (hv : v.IsIdentifier) (hinitial : ∀ e ∈ initial, e.IsExpression options)
    (hlevels : 127 ≤ levels)
    (hc : c.StandsAt source (Print.element name
      (.localVariable isFinal (.type type) (.name v) (initial.map .expression)) ++ u)) :
    (statement (Enclosed.within levels)).CompletesAt c
      (stated source width (.localVariable isFinal (.type type) (.name v) (initial.map .expression)))
      fun _ d => d.StandsAt source u := by
  simp only [Print.element, List.append_assoc, List.cons_append] at hc
  exact CompletesAt.of_statementShape hc.comments_eq (statementShape_localVariable isFinal ht hv hc)
    (completesAt_localVariables isFinal ht hv hinitial hlevels hc)

end Reading

end CodeFrames
