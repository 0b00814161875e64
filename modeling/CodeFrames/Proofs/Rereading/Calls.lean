import CodeFrames.Proofs.Rereading.Reference

/-!
# Calls and assignments as statements

A statement that starts with a dotted name and goes on with arguments, indexes or the sign of an
assignment is told from declarations by what stands behind the name.  Its text is split at the first
plain assignment operator outside of brackets, and a call has none there.
-/

namespace CodeFrames

open scoped Computability
open Token Sentence Text Plain

variable {options : Options} {ps rest names : List Token}

namespace Reading

variable {c : Cursor} {next first : Token} {more : List Token}

/-! ## Told from declarations -/

/-- An index is no pair of empty brackets. -/
def NoDimension (next : Token) (more : List Token) : Prop :=
  next.kind = .openBracket → ∀ t ∈ more.head?, t.kind ≠ .closeBracket

theorem typeLength?_of_names (h : DottedName names) (hnext : FollowsNames next)
    (hdimension : NoDimension next more) :
    typeLength? (names ++ next :: more) = some names.length := by
  have hless : next.isOperator ['<'] = false := by
    rcases hnext with hkind | hkind | rfl
    · simp [isOperator, hkind]
    · simp [isOperator, hkind]
    · decide
  have hdot : next.kind ≠ .dot := by
    rcases hnext with hkind | hkind | rfl
    · simp [hkind]
    · simp [hkind]
    · decide
  obtain ⟨name, behind, rfl, hname, hlength⟩ :=
    @TypeName.qualifiedLength?_of_qualified _ _ (next :: more) h.qualified h.angles_eq
      (by simp [hless, hdot])
  have hzero : dimensionsLength (next :: more) = 0 := by
    cases more with
    | nil => rfl
    | cons t more =>
        rw [dimensionsLength, if_neg]
        intro hboth
        obtain ⟨hopening, hclosing⟩ := by simpa using hboth
        exact hdimension hopening t rfl hclosing
  rw [typeLength?, List.cons_append, typeNameLength?, if_pos (by simp [opensType, hname]), hlength]
  simp [hzero]

theorem isName_of_follows (h : FollowsNames next) : next.isName = false := by
  rcases h with hkind | hkind | rfl
  · simp [isName, isAnyWord, hkind]
  · simp [isName, isAnyWord, hkind]
  · decide

theorem not_declaresVariable_of_names (h : DottedName names) (hnext : FollowsNames next)
    (hdimension : NoDimension next more) : declaresVariable (names ++ next :: more) = false := by
  rw [declaresVariable, typeLength?_of_names h hnext hdimension]
  simp only [List.drop_left]
  cases more with
  | nil => rfl
  | cons t more => simp [isName_of_follows hnext]

theorem not_declaresMethod_of_names (h : DottedName names) (hnext : FollowsNames next)
    (hdimension : NoDimension next more) : declaresMethod (names ++ next :: more) = false := by
  obtain ⟨name, behind, rfl, hname⟩ := h.exists_first
  have hparameters : optionalArgumentsLength? (name :: behind ++ next :: more) = some 0 := by
    simp [optionalArgumentsLength?, isOperator, kind_of_isIdentifier hname]
  rw [declaresMethod, hparameters]
  simp only [List.drop_zero, typeLength?_of_names h hnext hdimension, List.drop_left]
  cases more with
  | nil => rfl
  | cons t more => simp [isName_of_follows hnext]

theorem exists_identifier (h : DottedName names) (hc : c.Faces (names ++ ps)) :
    ∃ p, c.here.bare = p ∧ p.opensType = true ∧ p.isWord "record".toList = false := by
  obtain ⟨name, behind, rfl, hname⟩ := h.exists_first
  refine ⟨name, hc.here_eq, ?_, ?_⟩
  · simp [opensType, isName_of_isIdentifier hname]
  · rw [isIdentifier, Bool.and_eq_true] at hname
    simpa using hname.2

theorem statementShape_of_names (h : DottedName names) (hnext : FollowsNames next)
    (hdimension : NoDimension next more) (hc : c.Faces (names ++ next :: more)) :
    statementShape c = .expression := by
  obtain ⟨p, hhere, hopens, hrecord⟩ := exists_identifier h hc
  have hvariable : declaresVariable c.tokens = false := by
    rw [← declaresVariable_bare, hc.tokens_eq]
    exact not_declaresVariable_of_names h hnext hdimension
  rw [statementShape_of_opensType hhere hopens hrecord (nextIs_of_names h hnext (by decide) hc)
    (modifierLengths_of_opensType (opensType_of_bare hhere hopens)), hvariable]
  rfl

theorem memberShape_of_names (h : DottedName names) (hnext : FollowsNames next)
    (hdimension : NoDimension next more)
    (hconstructor : declaresConstructor (names ++ next :: more) = false)
    (hc : c.Faces (names ++ next :: more)) : memberShape c = .statement := by
  have hmethod := not_declaresMethod_of_names h hnext hdimension
  obtain ⟨p, hhere, hopens, hrecord⟩ := exists_identifier h hc
  obtain ⟨name, behind, rfl, -⟩ := h.exists_first
  obtain rfl : p = name := hhere.symm.trans hc.here_eq
  have hkind := kind_of_opensType hopens
  rw [List.cons_append] at hc hconstructor hmethod
  have hnone : AreModifiers [] := fun _ h => (List.not_mem_nil h).elim
  rw [memberShape_of_modifiers hnone hc hkind
    (not_mem_of_opensType hopens (by decide)) (not_mem_of_opensType hopens (by decide)),
    declarationShape_of_word hkind (not_typeWord hopens hrecord), hconstructor, hmethod]
  rfl

/-- A call that a semicolon follows does not look like the header of a constructor. -/
theorem not_declaresConstructor_of_call (h : CallTokens options ps) (hfirst : first.kind = .semicolon) :
    declaresConstructor (ps ++ first :: rest) = false := by
  obtain @⟨_, opening, arguments, closing, hnames, hopening, harguments, hclosing⟩ := h
  cases hnames with
  | last hname =>
      have hmatches : Kind.matches opening.kind closing.kind = true := by rw [hopening, hclosing]; rfl
      have hgroup := groupLength?_nested hmatches (nested_arguments harguments) (first :: rest)
      simp only [List.cons_append, List.nil_append, List.append_assoc, declaresConstructor, hgroup]
      simp [hfirst, isWord]
  | more hname hdot _ => simp [declaresConstructor, hdot]

theorem not_declaresConstructor_of_kind (h : DottedName names) (hnext : next.kind ≠ .openParen) :
    declaresConstructor (names ++ next :: more) = false := by
  cases h with
  | last hname => simp [declaresConstructor, hnext]
  | more hname hdot _ => simp [declaresConstructor, hdot]

end Reading

/-! ## The sign of an assignment -/

namespace ExpressionText

theorem topLevelAssignment?_plain {depth : Int} {t : Token} (hopener : t.kind.isOpener = false)
    (hcloser : t.kind.isCloser = false) (hsign : (t.isOperator ['='] && depth = 0) = false)
    (ts : List Token) : topLevelAssignment? depth (t :: ts) = topLevelAssignment? depth ts := by
  rw [topLevelAssignment?, hopener, hcloser, hsign]
  rfl

/-- Inside of brackets no sign counts. -/
theorem topLevelAssignment?_nested (h : Nested ps) {depth : Int} (hdepth : 0 < depth)
    (rest : List Token) : topLevelAssignment? depth (ps ++ rest) = topLevelAssignment? depth rest := by
  induction h generalizing depth rest with
  | nil => rfl
  | plain hopener hcloser _ _ ih =>
      rw [List.cons_append, topLevelAssignment?_plain (by simpa using hopener) (by simpa using hcloser)
        (by simp; omega), ih hdepth]
  | group hmatches _ _ ihinside ihts =>
      obtain ⟨hopener, hnot, hcloser⟩ := isOpener_of_matches hmatches
      rw [List.cons_append, topLevelAssignment?, if_pos hopener, List.append_assoc,
        ihinside (by omega), List.cons_append, topLevelAssignment?, hnot, hcloser, if_neg (by simp),
        if_pos rfl, Int.add_sub_cancel, ihts hdepth]

theorem topLevelAssignment?_group {opener closer : Token} (hmatches : Kind.matches opener.kind closer.kind)
    (h : Nested ps) (rest : List Token) :
    topLevelAssignment? 0 (opener :: (ps ++ closer :: rest)) = topLevelAssignment? 0 rest := by
  obtain ⟨hopener, hnot, hcloser⟩ := isOpener_of_matches hmatches
  rw [topLevelAssignment?, if_pos hopener, topLevelAssignment?_nested h (by decide),
    topLevelAssignment?, hnot, hcloser, if_neg (by simp), if_pos rfl]
  rfl

theorem topLevelAssignment?_names (h : DottedName names) (rest : List Token) :
    topLevelAssignment? 0 (names ++ rest) = topLevelAssignment? 0 rest := by
  have hstep {t : Token} {kind : Kind} (ht : t.kind = kind)
      (hkind : kind.isOpener = false ∧ kind.isCloser = false ∧ kind ≠ .operator) (ts : List Token) :
      topLevelAssignment? 0 (t :: ts) = topLevelAssignment? 0 ts :=
    topLevelAssignment?_plain (by rw [ht]; exact hkind.1) (by rw [ht]; exact hkind.2.1)
      (by simp [isOperator, ht, hkind.2.2]) ts
  induction h with
  | last hname => exact hstep (kind_of_isIdentifier hname) (by decide) rest
  | more hname hdot _ ih =>
      rw [List.cons_append, List.cons_append, hstep (kind_of_isIdentifier hname) (by decide),
        hstep hdot (by decide), ih]

theorem topLevelAssignment?_call (h : CallTokens options ps) (rest : List Token) :
    topLevelAssignment? 0 (ps ++ rest) = topLevelAssignment? 0 rest := by
  obtain ⟨hnames, hopening, harguments, hclosing⟩ := h
  rw [List.append_assoc, topLevelAssignment?_names hnames, List.cons_append, List.append_assoc]
  exact topLevelAssignment?_group (by rw [hopening, hclosing]; rfl) (nested_arguments harguments) rest

theorem topLevelAssignment?_target (h : TargetTokens options ps) (rest : List Token) :
    topLevelAssignment? 0 (ps ++ rest) = topLevelAssignment? 0 rest := by
  obtain @⟨names, indexes, hnames, hindexes⟩ := h
  rw [List.append_assoc, topLevelAssignment?_names hnames]
  induction hindexes with
  | nothing => rfl
  | more hopening he hps hclosing _ ih =>
      rw [List.cons_append, List.append_assoc, List.cons_append,
        topLevelAssignment?_group (by rw [hopening, hclosing]; rfl) (he.nested_of_spells hps), ih]

/-- Tokens that are stepped over without their places are stepped over with them. -/
theorem topLevelAssignment?_of_bare {ts : List Token} {depth final : Int}
    (h : ∀ rest, topLevelAssignment? depth (ts.map bare ++ rest) = topLevelAssignment? final rest)
    (rest : List Token) : topLevelAssignment? depth (ts ++ rest) = topLevelAssignment? final rest := by
  induction ts generalizing depth with
  | nil => exact h rest
  | cons t ts ih =>
      have hstep (us : List Token) : topLevelAssignment? depth (t.bare :: us) =
          if t.kind.isOpener then topLevelAssignment? (depth + 1) us
          else if t.kind.isCloser then topLevelAssignment? (depth - 1) us
          else if t.isOperator ['='] && depth = 0 then some t.bare
          else topLevelAssignment? depth us := rfl
      simp only [List.map_cons, List.cons_append, hstep] at h
      rw [List.cons_append, topLevelAssignment?]
      split at h
      · next hopener => rw [if_pos hopener, ih h]
      · next hopener =>
          rw [if_neg hopener]
          split at h
          · next hcloser => rw [if_pos hcloser, ih h]
          · next hcloser =>
              rw [if_neg hcloser]
              split at h
              · have hnone := h []
                cases hnone
              · next hsign => rw [if_neg hsign, ih h]

end ExpressionText

namespace Text

theorem trimStart_eq {t : Text} (h : ∀ c ∈ t.head?, ¬ isBlank c) : trimStart t = t := by
  cases t with
  | nil => rfl
  | cons c t => exact List.dropWhile_cons_of_neg (h c rfl)

/-- Blanks around a text are trimmed, and nothing else. -/
theorem trim_of_tight {t : Text} (h : t.IsTight) : trim t = t := by
  rw [trim, trimStart_eq h.1, trimEnd, trimStart_eq (by simpa using h.2), List.reverse_reverse]

theorem trim_blank_append {t : Text} (h : t.IsTight) (hne : t ≠ []) : trim (t ++ [' ']) = t := by
  have hhead : ∀ c ∈ (t ++ [' ']).head?, ¬ isBlank c := by
    rw [List.head?_append_of_ne_nil _ hne]
    exact h.1
  have hblank : isBlank ' ' = true := by decide
  rw [trim, trimStart_eq hhead, trimEnd, List.reverse_append]
  have hrest : trimStart ([' '].reverse ++ t.reverse) = t.reverse := by
    rw [List.reverse_singleton, List.singleton_append, trimStart, List.dropWhile_cons_of_pos hblank]
    exact trimStart_eq (by simpa using h.2)
  rw [hrest, List.reverse_reverse]

theorem trim_blank_cons {t : Text} (h : t.IsTight) : trim (' ' :: t) = t := by
  have hblank : isBlank ' ' = true := by decide
  rw [trim, trimStart, List.dropWhile_cons_of_pos hblank]
  exact trim_of_tight h

end Text

/-! ## The elements of calls and assignments -/

theorem statementElement_of_call {t : Text} (h : IsCall options t) :
    Assembly.statementElement t = .call (.expression t) := by
  obtain ⟨-, ps, hps, hcall⟩ := h
  obtain ⟨tokens, last, hlex, rfl, -⟩ := hps
  obtain ⟨inside, final, happend, hfinal⟩ := exists_end_of_tokensFrom hlex
  obtain ⟨rfl, rfl⟩ := List.append_inj' happend rfl |>.imp id (by simpa using ·)
  have hkind : last.kind = .endOfInput := congrArg Token.kind hfinal
  have hnone : ExpressionText.topLevelAssignment? 0 (tokens ++ [last]) = none := by
    rw [ExpressionText.topLevelAssignment?_of_bare (ExpressionText.topLevelAssignment?_call hcall),
      ExpressionText.topLevelAssignment?_plain (by rw [hkind]; rfl) (by rw [hkind]; rfl)
        (by simp [isOperator, hkind])]
    rfl
  rw [Assembly.statementElement, assignmentSides?, hlex]
  simp only [hnone]

/-- The tokens of an assignment, its sign in its place. -/
theorem lex_assignment {target value : Text} {qs : List Token} (htarget : target.Spells ps)
    (hvalue : value.Spells qs) :
    ∃ tokens sign others, lex (target ++ ' ' :: '=' :: ' ' :: value) = .ok (tokens ++ sign :: others) ∧
      tokens.map bare = ps ∧ sign.bare = symbol .operator ['='] ∧
      sign.start = byteSize target + 1 ∧ sign.stop = byteSize target + 2 := by
  obtain ⟨tokens, p, hbare, hp, hwalk, -⟩ :=
    (htarget.splits (@isApart_cons ' ' (by decide) ('=' :: ' ' :: value))).walk ⟨1, 0⟩
  obtain ⟨signs, q, hsigns, hq, hsignWalk, hfills⟩ :=
    (Reading.splits_assign value).walk (p.afterBlank ' ')
  obtain ⟨sign, none, rfl, hsign, hnone⟩ := List.map_eq_cons_iff.mp hsigns
  obtain rfl : none = [] := by simpa using hnone
  have hequals : isBlank '=' = false := by decide
  have htight : Text.IsTight ['='] := ⟨by simp [hequals], by simp [hequals]⟩
  obtain ⟨hstart, hstop⟩ := hfills (by simp) htight
  obtain ⟨others, hothers⟩ := exists_tokensFrom hvalue.symbols_eq (q.afterBlank ' ')
  have hblank (r : Position) (u : Text) : tokensFrom 0 r (' ' :: u) = tokensFrom 0 (r.afterBlank ' ') u := rfl
  refine ⟨tokens, sign, others, ?_, hbare, hsign, ?_, ?_⟩
  · rw [lex, hwalk, hblank]
    change ((tokensFrom 0 (p.afterBlank ' ') (['='] ++ ' ' :: value)).map (tokens ++ ·)) = _
    rw [hsignWalk, hblank, hothers]
    rfl
  · have hoffset : sign.start = (p.afterBlank ' ').offset := by simpa using hstart
    have hzero : p.offset = byteSize target := by simpa using hp
    rw [hoffset, Position.afterBlank, hzero]
    rfl
  · have hoffset : sign.stop = q.offset := by simpa using hstop
    have hzero : p.offset = byteSize target := by simpa using hp
    rw [hoffset, hq, Position.afterBlank, hzero]
    rfl

theorem statementElement_of_assignment {target value : Text} {qs : List Token}
    (htarget : IsTarget options target) (hvalue : value.Spells qs) (htight : value.IsTight) :
    Assembly.statementElement (target ++ ' ' :: '=' :: ' ' :: value) =
      .assign (.expression target) (.expression value) := by
  obtain ⟨htargetTight, ps, hps, htokens⟩ := htarget
  obtain ⟨tokens, sign, others, hlex, rfl, hsign, hstart, hstop⟩ := lex_assignment hps hvalue
  have hne : target ≠ [] := by
    obtain ⟨p, others, hfirst⟩ := htokens.exists_first
    exact ne_nil_of_spells (hfirst ▸ hps)
  have hfound : ExpressionText.topLevelAssignment? 0 (tokens ++ sign :: others) = some sign := by
    rw [ExpressionText.topLevelAssignment?_of_bare (ExpressionText.topLevelAssignment?_target htokens),
      ExpressionText.topLevelAssignment?, ← bare_kind, ← isOperator_bare, hsign]
    rfl
  have htake : takeBytes? (target ++ ' ' :: '=' :: ' ' :: value) sign.start = some (target ++ [' ']) := by
    have hbytes := takeBytes?_append (target ++ [' ']) ('=' :: ' ' :: value)
    rw [List.append_assoc] at hbytes
    rw [hstart]
    simpa [Char.utf8Size] using hbytes
  have hdrop : dropBytes? (target ++ ' ' :: '=' :: ' ' :: value) sign.stop = some (' ' :: value) := by
    have hbytes := dropBytes?_append (target ++ [' ', '=']) (' ' :: value)
    rw [List.append_assoc] at hbytes
    rw [hstop]
    simpa [Char.utf8Size] using hbytes
  rw [Assembly.statementElement, assignmentSides?, hlex]
  simp only [hfound, htake, hdrop, Option.getD_some, trim_blank_append htargetTight hne,
    trim_blank_cons htight]
  simp [hne]

/-! ## Reading them back -/

namespace Reading

variable {source t u value name : Text} {width : Option Nat} {levels : Nat} {c : Cursor}

/-- A text that is read as one expression, with a semicolon behind it. -/
theorem completesAt_expressionStatement {inner : Enclosed} {e : Element}
    (hreports : inner.Reports source none) (hc : c.StandsAt source (t ++ ';' :: u))
    (hspells : t.Spells ps) (hname : c.here.isName = true) (htight : t.IsTight)
    (hnoTest : ∀ p ∈ ps, p.isWord "instanceof".toList = false) (hps : ps ≠ [])
    (hshape : statementShape c = .expression) (helement : Assembly.statementElement t = e)
    (hrun : inner.assignment.CompletesAt c quiets fun _ d => d.Faces (symbols (';' :: u))) :
    (statement inner).CompletesAt c (stated source width e) fun _ d => d.StandsAt source u := by
  have hne : t ≠ [] := by
    obtain ⟨p, behind, rfl⟩ := List.exists_cons_of_ne_nil hps
    exact ne_nil_of_spells hspells
  have hopens : c.here.endsExpression = false := by
    simp [endsExpression, kind_of_isName hname]
  have hexpression := completesAt_expressed hreports hc hspells (isApart_cons (by decide) u) hne htight
    hnoTest hopens hrun
  refine CompletesAt.of_statementShape hc.comments_eq hshape (CompletesAt.mono
    (CompletesAt.here_bind (CompletesAt.emit_bind (hexpression.bind_silent
      fun _ d hd => CompletesAt.semicolon hd fun _ h => h))) ?_)
  rintro _ ⟨_, rfl, events, h, rfl⟩
  exact ⟨helement ▸ .expression _ h,
    cons_mem_clears (accessClear_of_modifiers rfl) (clears_of_expressed h)⟩

theorem faces_of_stands (hc : c.StandsAt source (t ++ ';' :: u)) (hspells : t.Spells ps) :
    c.Faces (ps ++ symbol .semicolon [';'] :: symbols u) := by
  have hfaces := hc.faces
  rwa [(hspells.splits (isApart_cons (by decide) u)).symbols_eq, @symbols_mark ';' .semicolon (by decide)]
    at hfaces

theorem completesAt_call (ht : IsCall options t) (hlevels : 128 ≤ levels)
    (hc : c.StandsAt source (Print.element name (.call (.expression t)) ++ u)) :
    (statement (Enclosed.within levels)).CompletesAt c (stated source width (.call (.expression t)))
      fun _ d => d.StandsAt source u := by
  obtain ⟨levels, rfl⟩ : ∃ n, levels = n + 1 := ⟨levels - 1, by omega⟩
  have hlevels : 127 ≤ levels := Nat.le_of_succ_le_succ hlevels
  have helement := statementElement_of_call ht
  obtain ⟨htight, ps, hps, hcall⟩ := ht
  simp only [Print.element, List.append_assoc, List.singleton_append] at hc
  have hfaces := faces_of_stands hc hps
  have hnoTest := hcall.noTest
  have hrun := completesAt_callTokens hlevels hcall rfl hfaces
  rw [← @symbols_mark ';' .semicolon (by decide)] at hrun
  obtain ⟨hnames, hopening, harguments, hclosing⟩ := hcall
  rw [List.append_assoc] at hfaces
  exact completesAt_expressionStatement (Enclosed.reports_within source none _) hc hps
    (isName_here hnames hfaces) htight hnoTest (by simp)
    (statementShape_of_names hnames (.inl hopening) (by simp [NoDimension, hopening]) hfaces)
    helement hrun

theorem memberShape_call (ht : IsCall options t)
    (hc : c.StandsAt source (Print.element name (.call (.expression t)) ++ u)) :
    memberShape c = .statement := by
  obtain ⟨-, ps, hps, hcall⟩ := ht
  simp only [Print.element, List.append_assoc, List.singleton_append] at hc
  have hfaces := faces_of_stands hc hps
  have hconstructor := @not_declaresConstructor_of_call _ _ (symbols u) (symbol .semicolon [';']) hcall rfl
  obtain ⟨hnames, hopening, harguments, hclosing⟩ := hcall
  rw [List.append_assoc] at hfaces hconstructor
  exact memberShape_of_names hnames (.inl hopening) (by simp [NoDimension, hopening]) hconstructor hfaces

/-- Indexes, the sign of an assignment and what stands behind it. -/
theorem exists_behind_names {indexes : List Token} (h : Indexes options indexes) :
    ∃ next more, indexes ++ symbol .operator ['='] :: rest = next :: more ∧ FollowsNames next ∧
      NoDimension next more ∧ next.kind ≠ .openParen := by
  cases h with
  | nothing =>
      have hdimension (more : List Token) : NoDimension (symbol .operator ['=']) more := fun h => by
        cases h
      exact ⟨_, _, rfl, .inr (.inr rfl), hdimension _, by decide⟩
  | more hopening he hps hclosing _ =>
      refine ⟨_, _, rfl, .inr (.inl hopening), fun _ t ht => ?_, by simp [hopening]⟩
      obtain ⟨p, behind, rfl, hends, -⟩ := he.exists_first hps
      obtain rfl := by simpa using ht
      intro hkind
      simp [endsExpression, hkind] at hends

theorem spells_assignment {qs : List Token} (ht : t.Spells ps) (hvalue : value.Spells qs) :
    (t ++ ' ' :: '=' :: ' ' :: value).Spells (ps ++ symbol .operator ['='] :: qs) := by
  obtain ⟨-, hcomment⟩ := spells_iff.mp ht
  obtain ⟨hsymbols, hcomment'⟩ := spells_iff.mp hvalue
  refine spells_iff.mpr ⟨?_, ?_⟩
  · rw [(ht.splits (isApart_cons (by decide) _)).symbols_eq, symbols_blank,
      show '=' :: ' ' :: value = ['='] ++ ' ' :: value from rfl, (splits_assign value).symbols_eq,
      symbols_blank, hsymbols]
    simp
  · refine List.forall_mem_append.mpr ⟨hcomment, List.forall_mem_cons.mpr ⟨by simp [symbol], hcomment'⟩⟩

theorem tight_assignment (ht : t.IsTight) (hne : t ≠ []) (hvalue : value.IsTight) (hnot : value ≠ []) :
    (t ++ ' ' :: '=' :: ' ' :: value).IsTight := by
  constructor
  · rw [List.head?_append_of_ne_nil _ hne]
    exact ht.1
  · have hlast : (t ++ ' ' :: '=' :: ' ' :: value).getLast? = value.getLast? := by
      rw [show t ++ ' ' :: '=' :: ' ' :: value = (t ++ [' ', '=', ' ']) ++ value by simp,
        List.getLast?_append_of_ne_nil _ hnot]
    rw [hlast]
    exact hvalue.2

/-- The reading of an assignment through its value. -/
theorem completesAt_assignTokens {indexes qs : List Token} (hlevels : 127 ≤ levels)
    (hnames : DottedName names) (hindexes : Indexes options indexes)
    (hvalue : value.IsExpression options) (hqs : value.Spells qs)
    (hlaid : Token.Laid source c.tokens)
    (hc : c.Faces (names ++ (indexes ++ symbol .operator ['='] ::
      (qs ++ symbol .semicolon [';'] :: rest)))) :
    (assignment (Enclosed.within levels)).CompletesAt c quiets
      fun _ d => d.Faces (symbol .semicolon [';'] :: rest) := by
  obtain ⟨next, more, hmore, hnext, -⟩ :=
    @exists_behind_names _ (qs ++ symbol .semicolon [';'] :: rest) _ hindexes
  have hsign : EndsReference (symbol .operator ['=']) := .inr rfl
  have hreports := Enclosed.reports_within source none levels
  have hconditional := (completesAt_conditional hnames hsign hnext hmore
    (fun d hd => selects_indexes hlevels hindexes hsign hd) hc).laid (reports_conditional hreports) hlaid
  refine hconditional.quiet_bind fun _ d hend => ?_
  obtain ⟨hd, hlaid⟩ := hend
  have hat : d.here.isOperatorIn assignmentOperators = true := by
    rw [← isOperatorIn_bare, hd.here_eq]
    decide
  have hrun : (Enclosed.within (levels + 1)).assignment.CompletesAt d.advance quiets
      fun _ d => d.Faces (symbol .semicolon [';'] :: rest) :=
    hvalue.completesAt_assignment hqs (Nat.le_succ_of_le hlevels) (delimits_of_semicolon rfl)
      (faces_advance_of_more hd)
  exact (repeatsAt_of_assignment hreports hlaid hat hrun).repeatWhile

theorem completesAt_assign (ht : IsTarget options t) (hvalue : value.IsExpression options)
    (hlevels : 128 ≤ levels)
    (hc : c.StandsAt source (Print.element name (.assign (.expression t) (.expression value)) ++ u)) :
    (statement (Enclosed.within levels)).CompletesAt c
      (stated source width (.assign (.expression t) (.expression value))) fun _ d => d.StandsAt source u := by
  obtain ⟨levels, rfl⟩ : ∃ n, levels = n + 1 := ⟨levels - 1, by omega⟩
  have hlevels : 127 ≤ levels := Nat.le_of_succ_le_succ hlevels
  obtain ⟨qs, hqs, -⟩ := hvalue.nested
  have helement := statementElement_of_assignment ht hqs hvalue.tight
  obtain ⟨htight, ps, hps, htarget⟩ := ht
  have hne {t : Text} {ps : List Token} (hps : t.Spells ps) (h : ∃ p behind, ps = p :: behind) :
      t ≠ [] := by
    obtain ⟨p, behind, rfl⟩ := h
    exact ne_nil_of_spells hps
  have hnonempty := hne hps htarget.exists_first
  have hvalueNonempty := hne hqs (by
    obtain ⟨p, behind, rfl, -⟩ := hvalue.exists_first hqs
    exact ⟨p, behind, rfl⟩)
  have hsource : Print.element name (.assign (.expression t) (.expression value)) ++ u =
      (t ++ ' ' :: '=' :: ' ' :: value) ++ ';' :: u := by
    simp [Print.element, Fragment.expression]
  rw [hsource] at hc
  have hspells := spells_assignment hps hqs
  have hfaces := faces_of_stands hc hspells
  have hnoTest : ∀ p ∈ ps ++ symbol .operator ['='] :: qs, p.isWord "instanceof".toList = false :=
    List.forall_mem_append.mpr ⟨htarget.noTest, List.forall_mem_cons.mpr ⟨by decide, hvalue.noTest hqs⟩⟩
  obtain @⟨names, indexes, hnames, hindexes⟩ := htarget
  simp only [List.append_assoc, List.cons_append] at hfaces
  obtain ⟨next, more, hmore, hnext, hdimension, -⟩ :=
    @exists_behind_names _ (qs ++ symbol .semicolon [';'] :: symbols u) _ hindexes
  have hrun := completesAt_assignTokens hlevels hnames hindexes hvalue hqs hc.laid hfaces
  rw [← @symbols_mark ';' .semicolon (by decide)] at hrun
  have hname := isName_here hnames hfaces
  rw [hmore] at hfaces
  exact completesAt_expressionStatement (Enclosed.reports_within source none _) hc hspells hname
    (tight_assignment htight hnonempty hvalue.tight hvalueNonempty) hnoTest (by simp)
    (statementShape_of_names hnames hnext hdimension hfaces) helement hrun

theorem memberShape_assign (ht : IsTarget options t)
    (hc : c.StandsAt source (Print.element name (.assign (.expression t) (.expression value)) ++ u)) :
    memberShape c = .statement := by
  obtain ⟨-, ps, hps, htarget⟩ := ht
  have hfaces := hc.faces
  have hsource : Print.element name (.assign (.expression t) (.expression value)) ++ u =
      t ++ ' ' :: (['='] ++ ' ' :: (value ++ ';' :: u)) := by
    simp [Print.element, Fragment.expression]
  rw [hsource, (hps.splits (isApart_cons (by decide) _)).symbols_eq, symbols_blank,
    (splits_assign _).symbols_eq] at hfaces
  obtain @⟨names, indexes, hnames, hindexes⟩ := htarget
  obtain ⟨next, more, hmore, hnext, hdimension, hparen⟩ :=
    @exists_behind_names _ (symbols (' ' :: (value ++ ';' :: u))) _ hindexes
  rw [List.append_assoc, List.singleton_append, hmore] at hfaces
  exact memberShape_of_names hnames hnext hdimension (not_declaresConstructor_of_kind hnames hparen)
    hfaces

end Reading

end CodeFrames
