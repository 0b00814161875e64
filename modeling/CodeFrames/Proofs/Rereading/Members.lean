import CodeFrames.Proofs.Documentation
import CodeFrames.Proofs.Levels
import CodeFrames.Proofs.Rereading.Headers

/-!
# Reading members back

Methods and constructors are told by what stands behind their modifiers, and every statement that is
printed is read as a statement where a declaration could stand.  So a printed source is read back as
the elements it was printed from, unless they are nested too deep.
-/

namespace CodeFrames

open scoped Computability
open Token Sentence Text Plain

namespace Reading

variable {options : Options} {source u name type v e : Text} {width : Option Nat} {c : Cursor}
  {words : List Text} {ps : List Parameter} {types : List Fragment} {body : Block}

/-! ## How members are told -/

theorem memberShape_keyword {w : Text} (hc : c.StandsAt source (w ++ u))
    (hw : symbols w = [symbol .word w, symbol .endOfInput []]) (hu : IsApart u)
    (hopens : opensStatement w = true) : memberShape c = .statement :=
  memberShape_of_word (advance_word hc hw hu).1 hopens

theorem memberShape_localVariable {initial : Option Text} (isFinal : Bool) (ht : type.IsType)
    (hv : v.IsIdentifier)
    (hc : c.StandsAt source (Print.modifiers (Print.flag isFinal "final") ++
      (type ++ ' ' :: (v ++ (Print.value (initial.map .expression) ++ ';' :: u))))) :
    memberShape c = .statement := by
  obtain ⟨hfaces, -⟩ := stands_behind_modifiers (areModifiers_final isFinal) hc
  obtain ⟨qs, hwhole, hrecord, hsymbols⟩ := symbols_declared ht hv (isApart_value initial u)
  obtain ⟨next, rest, hnext, hends⟩ := symbols_value initial u
  rw [hsymbols, hnext] at hfaces
  rw [memberShape_of_type (areModifiers_final isFinal) hwhole hrecord (isName_of_isIdentifier hv.isIdentifier)
    hfaces, if_neg]
  intro hkind
  simp [isOperator, hkind] at hends

theorem memberShape_statement {everywhere : Bool} {element : Element}
    (h : Plain.Statement options everywhere element)
    (hc : c.StandsAt source (Print.element name element ++ u)) : memberShape c = .statement := by
  cases h
  case call ht => exact memberShape_call ht hc
  case assign ht hvalue => exact memberShape_assign ht hc
  case localVariable isFinal ht hv =>
      simp only [Print.element, List.append_assoc, List.cons_append] at hc
      have hshape {c : Cursor} := @memberShape_localVariable source u _ _ c none isFinal ht hv
      exact hshape hc
  case initialized value isFinal ht hv hvalue =>
      simp only [Print.element, List.append_assoc, List.cons_append] at hc
      have hshape {c : Cursor} := @memberShape_localVariable source u _ _ c (some value) isFinal ht hv
      exact hshape hc
  case jump jump =>
      simp only [Print.element, List.append_assoc] at hc
      cases jump <;> exact memberShape_keyword hc (by decide) (isApart_cons (by decide) _) (by decide)
  all_goals
    simp only [Print.element, List.append_assoc, List.cons_append] at hc
    exact memberShape_keyword hc (by decide) (isApart_cons (by decide) _) (by decide)

theorem memberShape_method (hwords : AreModifiers words) (ht : type.IsType) (hv : v.IsIdentifier)
    (hc : c.StandsAt source
      (Print.modifiers words ++ (type ++ ' ' :: (v ++ (Print.parameters ps ++ u))))) :
    memberShape c = .method := by
  obtain ⟨hfaces, -⟩ := stands_behind_modifiers hwords hc
  obtain ⟨qs, hwhole, hrecord, hsymbols⟩ := symbols_declared ht hv
    (@isApart_cons '(' (by decide) (Text.join ", ".toList (ps.map Print.parameter) ++ [')'] ++ u))
  rw [Print.parameters, List.cons_append, hsymbols, @symbols_mark '(' .openParen (by decide)] at hfaces
  rw [memberShape_of_type hwords hwhole hrecord (isName_of_isIdentifier hv.isIdentifier) hfaces]
  rfl

/-- What follows the parameters of a constructor. -/
def FollowsParameters (u : Text) : Prop :=
  ∃ p rest, symbols u = p :: rest ∧ (p.kind = .openBrace ∨ p.isWord "throws".toList = true)

theorem followsParameters_brace (types : List Fragment) (u : Text) :
    FollowsParameters (Print.throwsClause types ++ ' ' :: '{' :: u) := by
  cases types with
  | nil => exact ⟨_, _, @symbols_mark '{' .openBrace (by decide) u, .inl rfl⟩
  | cons f types =>
      rw [Print.throwsClause_cons, List.cons_append, List.append_assoc, List.cons_append]
      exact ⟨_, _, symbols_word (by decide) (isApart_cons (by decide) _), .inr (by decide)⟩

theorem memberShape_constructor (hwords : AreModifiers words) (hname : name.IsIdentifier)
    (hps : ∀ p ∈ ps, IsParameter p) (hu : FollowsParameters u)
    (hc : c.StandsAt source (Print.modifiers words ++ (name ++ (Print.parameters ps ++ u)))) :
    memberShape c = .constructor := by
  obtain ⟨hfaces, -⟩ := stands_behind_modifiers hwords hc
  obtain ⟨ts, hts, hgroup⟩ := groupLength?_parameters hps u
  obtain ⟨p, rest, hp, hfollows⟩ := hu
  have hapart : IsApart (Print.parameters ps ++ u) := by
    rw [Print.parameters]
    exact isApart_cons (by decide) _
  have hisName := isName_of_isIdentifier hname.isIdentifier
  have hopens : (symbol .word name).opensType = true := by simp [opensType, hisName]
  have hrecord : (symbol .word name).isWord "record".toList = false := by
    have hidentifier := hname.isIdentifier
    rw [isIdentifier, Bool.and_eq_true] at hidentifier
    simpa using hidentifier.2
  rw [(hname.spells.splits hapart).symbols_eq, List.singleton_append, hts] at hfaces
  have hbehind : (symbol .openParen ['('] :: (ts ++ symbol .closeParen [')'] :: symbols u))[ts.length + 2]? =
      some p := by
    rw [hp, List.getElem?_cons_succ, List.getElem?_append_right (by omega)]
    simp
  have hdeclares : declaresConstructor (symbol .word name :: symbol .openParen ['('] ::
      (ts ++ symbol .closeParen [')'] :: symbols u)) = true := by
    rw [declaresConstructor, hgroup]
    simp only [hbehind, hisName]
    simpa [symbol] using hfollows
  rw [memberShape_of_modifiers hwords hfaces rfl (not_mem_of_opensType hopens (by decide))
    (not_mem_of_opensType hopens (by decide)),
    declarationShape_of_word rfl (not_typeWord hopens hrecord), if_pos hdeclares]

/-! ## What is reported -/

variable (source width) in
/-- The body of a method, if it has one. -/
def bodied (body : Option Block) : Language Event :=
  {es | Body source width es body [] ∧ es ∈ clears source}

variable (source) in
/-- The report that a declaration begins, with its modifiers and its name. -/
def headed (event : Span → List Span → Span → Event) (words : List Text) (name : Text) : Language Event :=
  {es | ∃ first spans s, es = [event first spans s] ∧ spans.map (Span.textIn source) = words ∧
    s.textIn source = name}

theorem nil_mem_bodied : [] ∈ bodied source width none := ⟨.missing, nil_mem_clears⟩

theorem braced_le_bodied : braced source width body ≤ bodied source width (some body) := by
  intro es h
  obtain ⟨first, last, events, rfl, ⟨hitems, -⟩, hclear⟩ := exists_of_braced h
  exact ⟨.block first last hitems, hclear⟩

theorem headed_le_clears {event : Span → List Span → Span → Event}
    (hevent : ∀ first spans s, (event first spans s).modifiers = spans)
    (hwords : Access.IsClear words) : headed source event words v ≤ clears source := by
  rintro _ ⟨first, spans, s, rfl, rfl, -⟩
  exact single_mem_clears (by rwa [Event.AccessClear, hevent])

/-- A method whose modifiers it can all show. -/
theorem method_le_stated {body : Option Block} (hclear : Access.IsClear words)
    (hshown : withoutWords (methodWords body.isSome) words = []) :
    typed source type * (headed source .openMethod words v * (parametersOf source ps *
      (throwing source types * (bodied source width body * closings body.isSome)))) ≤
      stated source width (methodElement none words type v ps types body) := by
  rintro _ ⟨_, ⟨start, stop, rfl, htype⟩, _, ⟨_, hheaded, _, ⟨events, ⟨hps, hpsClear⟩, _, ⟨clause,
    ⟨hthrows, hthrowsClear⟩, _, ⟨bodyEvents, ⟨hbody, hbodyClear⟩, _, ⟨last, rfl⟩, rfl⟩, rfl⟩, rfl⟩, rfl⟩, rfl⟩
  have hheadedClear := headed_le_clears (fun _ _ _ => rfl) hclear hheaded
  obtain ⟨first, spans, s, rfl, hspans, hname⟩ := hheaded
  have h : Sentence.Statement source width none _ _ _ :=
    .method start stop first s last spans hps hthrows hbody
  rw [leftoverWarnings, hspans, hshown, htype, hname] at h
  refine ⟨by simpa using h, append_mem_clears (single_mem_clears_of rfl) (append_mem_clears hheadedClear
    (append_mem_clears hpsClear (append_mem_clears hthrowsClear (append_mem_clears hbodyClear
      (single_mem_clears_of rfl)))))⟩

variable (source width) in
/-- The body of a constructor. -/
def constructed (delegate : Option Delegate) (body : Block) : Language Event :=
  {es | ConstructorBody source width es delegate (some body) [] ∧ es ∈ clears source}

theorem braced_le_constructed : braced source width body ≤ constructed source width none body := by
  intro es h
  obtain ⟨hbody, hclear⟩ := braced_le_bodied h
  exact ⟨.plain hbody, hclear⟩

variable (source) in
/-- The call of another constructor. -/
def delegating (delegate : Delegate) : Language Event :=
  {es | ∃ (start first keyword opening closing last : Span) (arguments : List Event) (texts : List Text),
    es = .expressionStatement start :: .openExpression first :: .delegateCall keyword ::
      .openArguments opening :: (arguments ++ [.closeArguments closing, .closeExpression last false]) ∧
    DelegateTarget.ofText? (keyword.textIn source) = some delegate.kind ∧
    delegate.arguments = .expression (Text.join [','] texts) ∧
    arguments ∈ delegateArguments source texts ∧
    (Text.slice? source first.start last.stop).isSome = true}

theorem delegating_le_constructed {delegate : Delegate} :
    single .openBlock * (delegating source delegate * (listed source width body * single .closeBlock)) ≤
      constructed source width (some delegate) body := by
  rintro _ ⟨_, ⟨brace, rfl⟩, _, ⟨_, ⟨start, first, keyword, opening, closing, last, arguments, texts, rfl,
    hkind, htexts, ⟨harguments, hargumentsClear⟩, hslice⟩, _, ⟨events, ⟨hitems, hitemsClear⟩, _,
    ⟨finish, rfl⟩, rfl⟩, rfl⟩, rfl⟩
  have h := ConstructorBody.delegating brace start first keyword opening closing last finish false []
    hkind harguments (.inr hslice) (items_kept hitems)
  obtain ⟨kind, _⟩ := delegate
  obtain rfl := htexts
  refine ⟨by simpa using h, ?_⟩
  have hplain {es : List Event} (hes : ∀ event ∈ es, event.modifiers = []) : es ∈ clears source :=
    fun event hevent => accessClear_of_modifiers (hes event hevent)
  refine append_mem_clears (single_mem_clears_of rfl) (append_mem_clears ?_ (append_mem_clears hitemsClear
    (single_mem_clears_of rfl)))
  exact @append_mem_clears source [_, _, _, _] _ (hplain (by simp [Event.modifiers]))
    (append_mem_clears hargumentsClear (hplain (by simp [Event.modifiers])))

theorem constructor_le_stated {delegate : Option Delegate} (hclear : Access.IsClear words)
    (hshown : withoutWords (Access.all.map Access.word) words = []) :
    headed source .openConstructor words name * (parametersOf source ps *
      (throwing source types * (constructed source width delegate body * closings true))) ≤
      stated source width (.constructor none (Access.named words) ps types delegate body) := by
  rintro _ ⟨_, hheaded, _, ⟨events, ⟨hps, hpsClear⟩, _, ⟨clause, ⟨hthrows, hthrowsClear⟩, _,
    ⟨bodyEvents, ⟨hbody, hbodyClear⟩, _, ⟨last, rfl⟩, rfl⟩, rfl⟩, rfl⟩, rfl⟩
  have hheadedClear := headed_le_clears (fun _ _ _ => rfl) hclear hheaded
  obtain ⟨first, spans, s, rfl, hspans, -⟩ := hheaded
  have h : Sentence.Statement source width none _ _ _ :=
    .constructor first s last spans hps hthrows hbody
  rw [leftoverWarnings, hspans, hshown] at h
  refine ⟨by simpa using h, append_mem_clears hheadedClear (append_mem_clears hpsClear
    (append_mem_clears hthrowsClear (append_mem_clears hbodyClear (single_mem_clears_of rfl))))⟩

/-! ## Methods -/

/-- Reading a method behind its header. -/
def methodBody (inner : Enclosed) : Reading Unit := do
  if (← cursor).isAt .semicolon then
    let semicolon ← take
    emit (.closeDeclaration semicolon.toSpan false)
  else
    block inner
    emit (.closeDeclaration (← before).toSpan true)

theorem completesAt_noBody {inner : Enclosed} (hc : c.StandsAt source (';' :: u)) :
    (methodBody inner).CompletesAt c (bodied source width none * closings false)
      fun _ d => d.StandsAt source u := by
  have hkind := @kind_mark _ _ _ ';' .semicolon hc (by decide)
  obtain ⟨-, hadvance⟩ := hc.advance (splits_punctuation (lexeme_mark (show
    (';', Kind.semicolon) ∈ marks by decide)) u)
  refine CompletesAt.cursor_bind (CompletesAt.ite_true (by simp [Cursor.isAt, hkind])
    (CompletesAt.mono (CompletesAt.take_bind (CompletesAt.emit_single
      (fun last => Event.closeDeclaration last false) _ hadvance)) ?_))
  exact fun es hes => ⟨[], nil_mem_bodied, es, hes, rfl⟩

theorem completesAt_bodied {inner : Enclosed}
    (hrounds : ∀ c : Cursor, c.StandsAt source (Print.items name body ++ ([' ', '}'] ++ u)) →
      RepeatsAt (blockRound inner) c (listed source width body) (·.StandsAt source ('}' :: u)))
    (hc : c.StandsAt source (Print.block name body ++ u)) :
    (methodBody inner).CompletesAt c (bodied source width (some body) * closings true)
      fun _ d => d.StandsAt source u := by
  have hkind : c.here.kind = .openBrace := by
    rw [Print.block] at hc
    exact @kind_mark _ _ _ '{' .openBrace hc.of_blank (by decide)
  have hblock := CompletesAt.mono (completesAt_block hrounds hc) braced_le_bodied
  exact CompletesAt.cursor_bind (CompletesAt.ite_false (by simp [Cursor.isAt, hkind])
    (hblock.bind fun _ d hd => CompletesAt.before_bind (CompletesAt.emit_single
      (fun last => Event.closeDeclaration last true) _ hd)))

theorem completesAt_typeParameters (hkind : c.here.kind = .word) :
    typeParameters.CompletesAt c 1 fun _ d => d = c :=
  CompletesAt.here_bind (CompletesAt.ite_false (by simp [isOperator, hkind]) (CompletesAt.pure rfl))

theorem isApart_parameters (ps : List Parameter) (u : Text) : IsApart (Print.parameters ps ++ u) := by
  rw [Print.parameters]
  exact isApart_cons (by decide) _

/-- A method whose modifiers it can all show, with what stands behind its header. -/
theorem completesAt_method {inner : Enclosed} {w : Text} {body : Option Block} (hwords : AreModifiers words)
    (hclear : Access.IsClear words) (hshown : withoutWords (methodWords body.isSome) words = [])
    (ht : type.IsType) (hv : v.IsIdentifier) (hps : ∀ p ∈ ps, IsParameter p) (htypes : AreTypes types)
    (hu : EndsHeader u)
    (hbody : ∀ d : Cursor, d.StandsAt source u → (methodBody inner).CompletesAt d
      (bodied source width body * closings body.isSome) fun _ d => d.StandsAt source w)
    (hc : c.StandsAt source (Print.modifiers words ++ (type ++ ' ' :: (v ++ (Print.parameters ps ++
      (Print.throwsClause types ++ u)))))) :
    (method inner).CompletesAt c (stated source width (methodElement none words type v ps types body))
      fun _ d => d.StandsAt source w := by
  have hapart := isApart_parameters ps (Print.throwsClause types ++ u)
  obtain ⟨qs, hwhole, -, hsymbols⟩ := symbols_declared ht hv hapart
  obtain ⟨p, behind, rfl, hopens⟩ := TypeName.exists_first_of_whole hwhole
  have hkind := kind_of_opensType hopens
  refine CompletesAt.here_bind ((completesAt_modifiers hwords hc
    ⟨p, _, hsymbols, hkind, not_mem_of_opensType hopens (by decide)⟩).silent ?_)
  rintro spans d ⟨hspans, hd⟩
  have hhere : d.here.kind = .word := by
    have hfaces := hd.faces
    rw [hsymbols] at hfaces
    exact (kind_of_faces hfaces).trans hkind
  refine (completesAt_typeParameters hhere).silent ?_
  rintro _ _ rfl
  refine CompletesAt.mono ((completesAt_typeName hd ht (isApart_cons (by decide) _)
    (symbols_blank (v ++ _) ▸ ends_identifier hv hapart)).bind (M := headed source .openMethod words v *
      (parametersOf source ps * (throwing source types * (bodied source width body * closings body.isSome))))
    fun _ d hd => ?_) (method_le_stated hclear hshown)
  refine CompletesAt.expectName_bind hd.of_blank hv hapart fun htext d hd => ?_
  have hheaded : (emit (.openMethod c.here.toSpan spans _) : Reading Unit).CompletesAt d
      (headed source .openMethod words v) fun _ e => e = d :=
    CompletesAt.mono (CompletesAt.emit rfl) (Set.singleton_subset_iff.mpr ⟨_, _, _, rfl, hspans, htext⟩)
  refine hheaded.bind ?_
  rintro _ _ rfl
  exact (completesAt_parameters hps hd).bind fun _ d hd =>
    (completesAt_throwsClause htypes hu hd).bind fun _ d hd => hbody d hd

/-! ## Constructors -/

/-- The end of a reading is one that it has stepped to. -/
theorem CompletesAt.reaching {α : Type} {r : Reading α} {L M : Language Event} {Q : α → Cursor → Prop}
    (h : r.CompletesAt c L Q) (hr : r.Reports source M) (hc : Laid source c.tokens) :
    r.CompletesAt c L fun a d => Q a d ∧ c.Reaches d := by
  obtain ⟨events, a, d, hrun, hmem, hQ⟩ := h
  exact ⟨events, a, d, hrun, hmem, hQ, hr.reaches hc hrun⟩

theorem completesAt_delegateCall {levels : Nat} {delegate : Delegate} (hd : IsDelegate options delegate)
    (hlevels : 127 ≤ levels) (hc : c.StandsAt source (Print.delegate (some delegate) ++ u)) :
    opensDelegateCall c = true ∧ (delegateCall (Enclosed.within levels)).CompletesAt c
      (delegating source delegate) fun _ d => d.StandsAt source u := by
  obtain ⟨es, htexts, hes⟩ := hd
  have hkeyword : symbols delegate.kind.keyword.toList =
      [symbol .word delegate.kind.keyword.toList, symbol .endOfInput []] := by
    cases delegate.kind <;> decide
  have hc : c.StandsAt source (' ' :: (delegate.kind.keyword.toList ++ '(' :: (Text.join [','] es ++
      ')' :: ';' :: u))) := by
    simpa [Print.delegate, htexts, Fragment.expression] using hc
  obtain ⟨hhere, hadvance⟩ := advance_word hc.of_blank hkeyword (isApart_cons (by decide) _)
  have hparen := @kind_mark _ _ _ '(' .openParen hadvance (by decide)
  have hend : c.here.isEnd = false := by
    rw [show c.here.isEnd = c.here.bare.isEnd from rfl, hhere]
    rfl
  refine ⟨?_, ?_⟩
  · have hahead : c.ahead ≠ [] := (hc.laid.tail (by simpa using hend)).ne_nil
    have hword : (c.isAtWord "super" || c.isAtWord "this") = true := by
      have hword : c.isAtWord delegate.kind.keyword = true := isWord_of_bare hhere
      cases hkind : delegate.kind <;> rw [hkind] at hword <;> simp_all [DelegateTarget.keyword]
    rw [opensDelegateCall, hword, Cursor.nextIs_eq hahead]
    simpa using hparen
  · have hpasses := Cursor.passes_advance hc.laid (by simpa using hend)
    let closers : Language Event := {es | ∃ last ∈ c.tokens, es = [.closeExpression last.toSpan false]}
    have hclosed {d : Cursor} (hd : d.StandsAt source (';' :: u) ∧ c.advance.Reaches d) : (do
        emit (.closeExpression (← before).toSpan false)
        let _ ← semicolon : Reading Unit).CompletesAt d closers fun _ e => e.StandsAt source u := by
      refine CompletesAt.before_bind (CompletesAt.mono (L := {[.closeExpression d.before.toSpan false]}) ?_ ?_)
      · exact CompletesAt.mono (CompletesAt.emit_bind (CompletesAt.semicolon hd.1 fun _ h => h)) (mul_one _).le
      · exact Set.singleton_subset_iff.mpr ⟨d.before, (hpasses.trans_reaches hd.2).before_mem, rfl⟩
    have harguments := (completesAt_delegateArguments hes hlevels hadvance).reaching
      (reports_arguments (Enclosed.reports_within source none levels)) hadvance.laid
    refine CompletesAt.mono (CompletesAt.here_bind (CompletesAt.emit_bind (CompletesAt.emit_bind
      (CompletesAt.emit_bind (CompletesAt.take_bind (harguments.bind fun _ _ hd => hclosed hd)))))) ?_
    have htext : DelegateTarget.ofText? (c.here.toSpan.textIn source) = some delegate.kind := by
      rw [hc.textIn_here, show c.here.text = c.here.bare.text from rfl, hhere]
      cases delegate.kind <;> decide
    rintro _ ⟨_, rfl, _, ⟨_, rfl, _, ⟨_, rfl, _, ⟨_, ⟨_, ⟨opening, rfl⟩, _, ⟨arguments, hlist, _,
      ⟨closing, rfl⟩, rfl⟩, rfl⟩, _, ⟨last, hlast, rfl⟩, rfl⟩, rfl⟩, rfl⟩, rfl⟩
    exact ⟨c.here.toSpan, c.here.toSpan, c.here.toSpan, opening, closing, last.toSpan, arguments, es,
      by simp, htext, htexts, hlist, hc.laid.slice?_isSome hlast⟩

theorem not_opensDelegateCall (hstarts : ∀ e ∈ body, ∀ u, StartsElement (Print.element name e ++ u))
    (hc : c.StandsAt source (Print.items name body ++ ([' ', '}'] ++ u))) :
    opensDelegateCall c = false := by
  have hword {w : Text} (hw : w ∈ continuingWords) : c.here.isWord w = false := by
    cases body with
    | nil =>
        rw [Print.items] at hc
        have hkind := @kind_mark _ _ _ '}' .closeBrace hc.of_blank (by decide)
        simp [isWord, hkind]
    | cons e body =>
        rw [Print.items, List.cons_append, List.append_assoc] at hc
        obtain ⟨p, rest, hsymbols, -, hnot⟩ := hstarts e List.mem_cons_self
          (Print.items name body ++ ([' ', '}'] ++ u))
        have hfaces := hc.of_blank.faces
        rw [hsymbols] at hfaces
        have htext : c.here.bare.text = p.text := congrArg Token.text hfaces.here_eq
        rw [Bool.eq_false_iff]
        intro h
        have hmem : c.here.text ∈ continuingWords := text_of_isWord h ▸ hw
        exact hnot (htext ▸ hmem)
  rw [opensDelegateCall, Cursor.isAtWord, Cursor.isAtWord, hword (by decide), hword (by decide)]
  rfl

theorem completesAt_constructorBody {levels : Nat} {delegate : Option Delegate}
    (hdelegate : ∀ d ∈ delegate, IsDelegate options d) (hlevels : 127 ≤ levels)
    (hstarts : ∀ e ∈ body, ∀ u, StartsElement (Print.element name e ++ u))
    (hrounds : ∀ c : Cursor, c.StandsAt source (Print.items name body ++ ([' ', '}'] ++ u)) →
      RepeatsAt (blockRound (Enclosed.within levels)) c (listed source width body)
        (·.StandsAt source ('}' :: u)))
    (hc : c.StandsAt source (' ' :: '{' :: (Print.delegate delegate ++
      (Print.items name body ++ ([' ', '}'] ++ u))))) :
    (do
      let brace ← expect .openBrace "\x7b"
      emit (.openBlock brace.toSpan)
      reportComments
      constructorBody (Enclosed.within levels) : Reading Unit).CompletesAt c
      (constructed source width delegate body * closings true) fun _ d => d.StandsAt source u := by
  have hbehind {d : Cursor} (hd : d.StandsAt source (Print.items name body ++ ([' ', '}'] ++ u))) : (do
      blockRest (Enclosed.within levels)
      emit (.closeDeclaration (← before).toSpan true) : Reading Unit).CompletesAt d
      (listed source width body * single .closeBlock * closings true) fun _ e => e.StandsAt source u :=
    (completesAt_blockRest (hrounds d hd)).bind fun _ d hd => CompletesAt.before_bind
      (CompletesAt.emit_single (fun last => Event.closeDeclaration last true) _ hd)
  have hopening {L : Language Event} (h : ∀ d : Cursor, d.StandsAt source (Print.delegate delegate ++
      (Print.items name body ++ ([' ', '}'] ++ u))) →
        (constructorBody (Enclosed.within levels)).CompletesAt d L fun _ e => e.StandsAt source u) : (do
      let brace ← expect .openBrace "\x7b"
      emit (.openBlock brace.toSpan)
      reportComments
      constructorBody (Enclosed.within levels) : Reading Unit).CompletesAt c (single .openBlock * L)
      fun _ d => d.StandsAt source u := by
    refine @CompletesAt.expect_bind _ _ _ _ _ _ '{' .openBrace _ _ hc.of_blank (by decide) fun d hd => ?_
    have hcomments : reportComments.CompletesAt d 1 fun _ e => e = d :=
      ⟨[], (), d, reportComments_of_nil hd.comments_eq, Language.nil_mem_one, rfl⟩
    have hannounced : (emit (.openBlock c.here.toSpan)).CompletesAt d (single .openBlock) fun _ e => e = d :=
      CompletesAt.emit_single Event.openBlock _ rfl
    refine hannounced.bind ?_
    rintro _ _ rfl
    refine hcomments.silent ?_
    rintro _ _ rfl
    exact h _ hd
  cases delegate with
  | none =>
      refine CompletesAt.mono (hopening fun d hd => CompletesAt.cursor_bind (CompletesAt.ite_false
        (not_opensDelegateCall hstarts hd ▸ Bool.false_ne_true) (hbehind hd))) ?_
      rw [← mul_assoc]
      exact mul_le_mul_left braced_le_constructed _
  | some delegate =>
      refine CompletesAt.mono (hopening fun d hd => ?_) ?_ (L := single .openBlock *
        (delegating source delegate * (listed source width body * single .closeBlock * closings true)))
      · obtain ⟨hopens, hcall⟩ := completesAt_delegateCall (hdelegate delegate rfl) hlevels hd
        exact CompletesAt.cursor_bind (CompletesAt.ite_true hopens (hcall.bind fun _ _ => hbehind))
      · rw [← mul_assoc, ← mul_assoc, mul_assoc (single _)]
        exact mul_le_mul_left delegating_le_constructed _

theorem completesAt_constructor {levels : Nat} {delegate : Option Delegate} (hwords : AreModifiers words)
    (hclear : Access.IsClear words) (hshown : withoutWords (Access.all.map Access.word) words = [])
    (hname : name.IsIdentifier) (hps : ∀ p ∈ ps, IsParameter p) (htypes : AreTypes types)
    (hdelegate : ∀ d ∈ delegate, IsDelegate options d) (hlevels : 127 ≤ levels)
    (hstarts : ∀ e ∈ body, ∀ u, StartsElement (Print.element name e ++ u))
    (hrounds : ∀ c : Cursor, c.StandsAt source (Print.items name body ++ ([' ', '}'] ++ u)) →
      RepeatsAt (blockRound (Enclosed.within levels)) c (listed source width body)
        (·.StandsAt source ('}' :: u)))
    (hc : c.StandsAt source (Print.modifiers words ++ (name ++ (Print.parameters ps ++
      (Print.throwsClause types ++ ' ' :: '{' :: (Print.delegate delegate ++
        (Print.items name body ++ ([' ', '}'] ++ u)))))))) :
    (constructor (Enclosed.within levels)).CompletesAt c
      (stated source width (.constructor none (Access.named words) ps types delegate body))
      fun _ d => d.StandsAt source u := by
  have hidentifier := isName_of_isIdentifier hname.isIdentifier
  have hsymbols := (hname.spells.splits (isApart_parameters ps (Print.throwsClause types ++ ' ' :: '{' ::
    (Print.delegate delegate ++ (Print.items name body ++ ([' ', '}'] ++ u)))))).symbols_eq
  have hopens : (symbol .word name).opensType = true := by simp [opensType, hidentifier]
  refine CompletesAt.here_bind ((completesAt_modifiers hwords hc
    ⟨_, _, hsymbols, rfl, not_mem_of_opensType hopens (by decide)⟩).silent ?_)
  rintro spans d ⟨hspans, hd⟩
  refine CompletesAt.mono (CompletesAt.expectName_bind hd hname (isApart_parameters ps _)
    fun htext d hd => ?_) (@constructor_le_stated source name width words ps types body delegate hclear hshown)
  have hheaded : (emit (.openConstructor c.here.toSpan spans _) : Reading Unit).CompletesAt d
      (headed source .openConstructor words name) fun _ e => e = d :=
    CompletesAt.mono (CompletesAt.emit rfl) (Set.singleton_subset_iff.mpr ⟨_, _, _, rfl, hspans, htext⟩)
  refine hheaded.bind ?_
  rintro _ _ rfl
  exact (completesAt_parameters hps hd).bind fun _ d hd =>
    (completesAt_throwsClause htypes (endsHeader_brace _) hd).bind fun _ d hd =>
      completesAt_constructorBody hdelegate hlevels hstarts hrounds hd

/-! ## Members -/

theorem CompletesAt.of_memberShape {inner : Enclosed} {shape : MemberShape} {L : Language Event}
    {Q : Unit → Cursor → Prop} (hshape : memberShape c = shape)
    (h : (memberOf inner shape).CompletesAt c L Q) : (member inner).CompletesAt c L Q := by
  rw [CompletesAt, member_eq, hshape]
  exact h

/-- With enough nesting levels to go the member is read back wherever it stands. -/
def RereadsMember (name : Text) (e : Element) : Prop :=
  ∀ᶠ levels in Filter.atTop, ∀ source width (c : Cursor) u, NoElse u →
    c.StandsAt source (Print.element name e ++ u) →
    (member (Enclosed.within levels)).CompletesAt c (stated source width e)
      fun _ d => d.StandsAt source u

theorem rereadsMember_statement (hname : name.IsIdentifier) {element : Element}
    (h : Plain.Statement options false element) : RereadsMember name element := by
  filter_upwards [eventually_succ (rereads_statement hname h)] with levels hstatement source width c u hu hc
  obtain ⟨fewer, rfl, hstatement⟩ := hstatement
  exact CompletesAt.of_memberShape (memberShape_statement h hc) (hstatement source width c u hu hc)

/-- What a method is printed with says what it is. -/
theorem methodElement_flags (access : Access) (isStatic isFinal : Bool) (type v : Text) (ps : List Parameter)
    (types : List Fragment) (body : Block) :
    methodElement none (access.keyword.toList :: (Print.flag isStatic "static" ++ Print.flag isFinal "final"))
      type v ps types (some body) = .method none access isStatic isFinal (.type type) (.name v) ps types body := by
  cases access <;> cases isStatic <;> cases isFinal <;> rfl

theorem rereadsMember_method (access : Access) (isStatic isFinal : Bool) (ht : type.IsType)
    (hv : v.IsIdentifier) (hps : ∀ p ∈ ps, IsParameter p) (htypes : AreTypes types)
    (hbody : RereadsAll name body) : RereadsMember name
      (.method none access isStatic isFinal (.type type) (.name v) ps types body) := by
  filter_upwards [hbody] with levels hrounds source width c u _ hc
  simp only [Print.element, List.append_assoc, List.cons_append] at hc
  have hwords := areModifiers_declaration access fun _ => @mem_methodFlags isStatic isFinal _
  rw [← methodElement_flags]
  refine CompletesAt.of_memberShape (memberShape_method hwords ht hv hc) (completesAt_method hwords ?_ ?_ ht hv
    hps htypes (endsHeader_block name body u) (fun d hd => completesAt_bodied (hrounds source width · u) hd) hc)
  · cases access <;> cases isStatic <;> cases isFinal <;> decide
  · cases access <;> cases isStatic <;> cases isFinal <;> rfl

theorem rereadsMember_abstractMethod (access : Access) (ht : type.IsType) (hv : v.IsIdentifier)
    (hps : ∀ p ∈ ps, IsParameter p) (htypes : AreTypes types) :
    RereadsMember name (.abstractMethod none access (.type type) (.name v) ps types) := by
  refine Filter.Eventually.of_forall fun levels source width c u _ hc => ?_
  simp only [Print.element, List.append_assoc, List.cons_append] at hc
  have hwords := @areModifiers_declaration access ["abstract".toList] (by simp)
  have helement : methodElement none [access.keyword.toList, "abstract".toList] type v ps types none =
      .abstractMethod none access (.type type) (.name v) ps types := by cases access <;> rfl
  rw [← helement]
  refine CompletesAt.of_memberShape (memberShape_method hwords ht hv hc) (completesAt_method hwords ?_ ?_ ht hv
    hps htypes (endsHeader_semicolon u) (fun d hd => completesAt_noBody hd) hc)
  · cases access <;> decide
  · cases access <;> rfl

theorem rereadsMember_constructor (access : Access) (hname : name.IsIdentifier) {delegate : Option Delegate}
    (hps : ∀ p ∈ ps, IsParameter p) (htypes : AreTypes types)
    (hdelegate : ∀ d ∈ delegate, IsDelegate options d)
    (hstarts : ∀ e ∈ body, ∀ u, StartsElement (Print.element name e ++ u))
    (hbody : RereadsAll name body) :
    RereadsMember name (.constructor none access ps types delegate body) := by
  filter_upwards [hbody, Filter.eventually_ge_atTop 127] with levels hrounds hlevels source width c u _ hc
  simp only [Print.element, List.append_assoc, List.cons_append] at hc
  have hwords := @areModifiers_declaration access [] (by simp)
  have hnamed : Access.named [access.keyword.toList] = access := by cases access <;> rfl
  rw [← hnamed]
  refine CompletesAt.of_memberShape
    (memberShape_constructor hwords hname hps (followsParameters_brace types _) hc)
    (completesAt_constructor hwords ?_ ?_ hname hps htypes hdelegate hlevels hstarts (hrounds source width · u) hc)
  · cases access <;> decide
  · cases access <;> rfl

theorem rereadsMember_elements (hname : name.IsIdentifier) : ∀ {elements : Block},
    Plain.Elements options false true elements → ∀ e ∈ elements, RereadsMember name e
  | _, .nil => by simp
  | _, .statement he hes => List.forall_mem_cons.mpr
      ⟨rereadsMember_statement hname he, rereadsMember_elements hname hes⟩
  | _, .method access isStatic isFinal ht hv hps htypes hbody hes => List.forall_mem_cons.mpr
      ⟨rereadsMember_method access isStatic isFinal ht hv hps htypes (rereadsAll_elements hname hbody),
        rereadsMember_elements hname hes⟩
  | _, .abstractMethod access ht hv hps htypes hes => List.forall_mem_cons.mpr
      ⟨rereadsMember_abstractMethod access ht hv hps htypes, rereadsMember_elements hname hes⟩
  | _, .constructor access hps htypes hdelegate hbody hes => List.forall_mem_cons.mpr
      ⟨rereadsMember_constructor access hname hps htypes hdelegate (startsElement_elements hbody)
        (rereadsAll_elements hname hbody), rereadsMember_elements hname hes⟩

end Reading

end CodeFrames
