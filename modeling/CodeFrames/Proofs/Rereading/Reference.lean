import CodeFrames.Proofs.Rereading.Simple
import CodeFrames.Proofs.Progress

/-!
# Reading calls and assignments back

A dotted name with arguments is a call, and a dotted name, perhaps with indexes, is the target of an
assignment.  Both are read as one operand, and nothing in them is a plain assignment operator outside
of brackets.
-/

namespace CodeFrames

open scoped Computability
open Token Sentence Text Plain

variable {options : Options} {ps qs rest names : List Token} {t first : Token}

/-! ## What the tokens are -/

namespace Token

theorem Nested.append (h : Nested ps) (g : Nested qs) : Nested (ps ++ qs) := by
  induction h with
  | nil => exact g
  | plain hopener hcloser hend _ ih => exact .plain hopener hcloser hend ih
  | group hmatches hinside _ _ ih =>
      rw [List.cons_append, List.append_assoc, List.cons_append]
      exact .group hmatches hinside ih

theorem nested_of_kind {kind : Kind} (h : t.kind = kind)
    (hkind : kind.isOpener = false ∧ kind.isCloser = false ∧ kind ≠ .endOfInput) : Nested [t] := by
  obtain ⟨hopener, hcloser, hend⟩ := hkind
  exact .plain (by simp [h, hopener]) (by simp [h, hcloser]) (by simp [isEnd, h, hend]) .nil

theorem kind_of_isIdentifier (h : t.isIdentifier = true) : t.kind = .word :=
  kind_of_isName (isName_of_isIdentifier h)

theorem noTest_of_isIdentifier (h : t.isIdentifier = true) :
    t.isWord "instanceof".toList = false := by
  have hname := isName_of_isIdentifier h
  rw [Bool.eq_false_iff]
  intro hword
  have hkeyword : keywords.contains "instanceof".toList = true := by decide
  rw [isName, text_of_isWord hword, hkeyword] at hname
  simp at hname

theorem noTest_of_kind {kind : Kind} (h : t.kind = kind) (hkind : kind ≠ .word) :
    t.isWord "instanceof".toList = false := by
  simp [isWord, h, hkind]

end Token

namespace Plain

theorem DottedName.exists_first (h : DottedName names) :
    ∃ name behind, names = name :: behind ∧ name.isIdentifier = true := by
  cases h with
  | last hname => exact ⟨_, _, rfl, hname⟩
  | more hname => exact ⟨_, _, rfl, hname⟩

theorem DottedName.noTest (h : DottedName names) :
    ∀ p ∈ names, p.isWord "instanceof".toList = false := by
  induction h with
  | last hname => simpa using noTest_of_isIdentifier hname
  | more hname hdot _ ih =>
      exact List.forall_mem_cons.mpr ⟨noTest_of_isIdentifier hname,
        List.forall_mem_cons.mpr ⟨noTest_of_kind hdot (by decide), ih⟩⟩

theorem DottedName.qualified (h : DottedName names) : TypeName.Qualified names := by
  induction h with
  | last hname => exact .last (isName_of_isIdentifier hname) .nothing
  | more hname hdot _ ih => exact .more (isName_of_isIdentifier hname) .nothing hdot ih

theorem DottedName.angles_eq (h : DottedName names) : names.flatMap angles = names := by
  induction h with
  | last hname => simp [angles, isOperator, kind_of_isIdentifier hname]
  | more hname hdot _ ih => simp [angles, isOperator, kind_of_isIdentifier hname, hdot, ih]

theorem Listed.nested (h : Listed options ps) : Nested ps := by
  induction h with
  | last he hps => exact he.nested_of_spells hps
  | more he hps hcomma _ ih =>
      exact (he.nested_of_spells hps).append
        ((nested_of_kind hcomma (by decide)).append ih)

theorem Listed.noTest (h : Listed options ps) : ∀ p ∈ ps, p.isWord "instanceof".toList = false := by
  induction h with
  | last he hps => exact he.noTest hps
  | more he hps hcomma _ ih =>
      exact List.forall_mem_append.mpr ⟨he.noTest hps,
        List.forall_mem_cons.mpr ⟨noTest_of_kind hcomma (by decide), ih⟩⟩

theorem Indexes.noTest (h : Indexes options ps) :
    ∀ p ∈ ps, p.isWord "instanceof".toList = false := by
  induction h with
  | nothing => simp
  | more hopening he hps hclosing _ ih =>
      exact List.forall_mem_cons.mpr ⟨noTest_of_kind hopening (by decide),
        List.forall_mem_append.mpr ⟨he.noTest hps,
          List.forall_mem_cons.mpr ⟨noTest_of_kind hclosing (by decide), ih⟩⟩⟩

theorem nested_arguments (h : ps = [] ∨ Listed options ps) : Nested ps := by
  rcases h with rfl | h
  · exact .nil
  · exact h.nested

theorem CallTokens.noTest (h : CallTokens options ps) :
    ∀ p ∈ ps, p.isWord "instanceof".toList = false := by
  obtain ⟨hnames, hopening, harguments, hclosing⟩ := h
  have hlast := noTest_of_kind hclosing (by decide)
  refine List.forall_mem_append.mpr ⟨hnames.noTest, List.forall_mem_cons.mpr
    ⟨noTest_of_kind hopening (by decide), List.forall_mem_append.mpr ⟨?_, by simpa using hlast⟩⟩⟩
  rcases harguments with rfl | h
  · simp
  · exact h.noTest

theorem TargetTokens.exists_first (h : TargetTokens options ps) :
    ∃ name behind, ps = name :: behind := by
  obtain ⟨hnames, -⟩ := h
  obtain ⟨name, behind, rfl, -⟩ := hnames.exists_first
  exact ⟨name, _, rfl⟩

theorem TargetTokens.noTest (h : TargetTokens options ps) :
    ∀ p ∈ ps, p.isWord "instanceof".toList = false := by
  obtain ⟨hnames, hindexes⟩ := h
  exact List.forall_mem_append.mpr ⟨hnames.noTest, hindexes.noTest⟩

end Plain

/-! ## Quiet readings -/

theorem quiets_mul_quiets : quiets * quiets ≤ quiets := by
  rintro _ ⟨_, h, _, g, rfl⟩
  exact append_mem_quiets.mpr ⟨h, g⟩

namespace Reading.CompletesAt

variable {α β : Type} {r : Reading α} {f : α → Reading β} {c : Cursor} {Q : α → Cursor → Prop}
  {R : β → Cursor → Prop}

theorem quiet_bind (h : r.CompletesAt c quiets Q)
    (hf : ∀ a d, Q a d → (f a).CompletesAt d quiets R) : (r >>= f).CompletesAt c quiets R :=
  (h.bind hf).mono quiets_mul_quiets

theorem emit_quiet_bind {e : Event} {f : Unit → Reading β}
    (he : ∀ place construct, e ≠ .unsupported place construct) (h : (f ()).CompletesAt c quiets R) :
    (Reading.emit e >>= f).CompletesAt c quiets R := by
  refine (CompletesAt.emit_bind h).mono ?_
  rintro _ ⟨_, rfl, es, hes, rfl⟩
  exact (cons_mem_quiets he).mpr hes

theorem laid {source : Text} {L M : Language Event} (h : r.CompletesAt c L Q) (hr : r.Reports source M)
    (hc : Token.Laid source c.tokens) :
    r.CompletesAt c L fun a d => Q a d ∧ Token.Laid source d.tokens := by
  obtain ⟨events, a, d, hrun, hmem, hQ⟩ := h
  exact ⟨events, a, d, hrun, hmem, hQ, (hr.reaches hc hrun).laid hc⟩

theorem pure_quiet {a : α} (h : Q a c) : (Pure.pure a : Reading α).CompletesAt c quiets Q :=
  ⟨[], a, c, rfl, nil_mem_quiets, h⟩

end Reading.CompletesAt

namespace Reading

variable {inner : Enclosed} {levels : Nat} {c d : Cursor}

theorem comma_of_kind (h : c.here.kind = .comma) : comma c = ([], .ok (true, c.advance)) := by
  change (if c.isAt .comma = true then _ else _ : Reading Bool) c = _
  rw [if_pos (by simp [Cursor.isAt, h])]
  rfl

theorem comma_of_kind_ne (h : c.here.kind ≠ .comma) : comma c = ([], .ok (false, c)) := by
  change (if c.isAt .comma = true then _ else _ : Reading Bool) c = _
  rw [if_neg (by simp [Cursor.isAt, h])]
  rfl

theorem kind_of_faces (hc : c.Faces (t :: rest)) : c.here.kind = t.kind := by
  rw [← bare_kind, hc.here_eq]

theorem faces_advance_of_more (hc : c.Faces (t :: (ps ++ first :: rest))) :
    c.advance.Faces (ps ++ first :: rest) := hc.advance (by simp)

theorem RepeatsAt.more_quiet {body : Reading Bool} {P Q : Cursor → Prop}
    (h : body.CompletesAt c quiets fun again d =>
      again = true ∧ d.ahead.length < c.ahead.length ∧ P d)
    (hrest : ∀ d, P d → RepeatsAt body d quiets Q) : RepeatsAt body c quiets Q :=
  (RepeatsAt.more h hrest).mono quiets_mul_quiets

/-! ## Arguments and indexes -/

theorem length_ahead_lt {us vs : List Token} (hc : c.Faces us) (hd : d.Faces vs)
    (h : vs.length < us.length) : d.ahead.length < c.ahead.length := by
  have hcs := hc.length_ahead
  have hds := hd.length_ahead
  omega

/-- Arguments through the closing parenthesis, which is left. -/
theorem repeatsAt_listed (hlevels : 127 ≤ levels) (h : Listed options ps)
    (hfirst : first.kind = .closeParen) (hc : c.Faces (ps ++ first :: rest)) :
    RepeatsAt (argumentRound (Enclosed.within levels)) c quiets (·.Faces (first :: rest)) := by
  have hcloses : first.Delimits := by simp [Token.Delimits, delimiters, hfirst]
  have hannounced {c : Cursor} {Q : Bool → Cursor → Prop}
      (h : (do
        expression (Enclosed.within levels)
        comma : Reading Bool).CompletesAt c quiets Q) :
      (argumentRound (Enclosed.within levels)).CompletesAt c quiets Q :=
    CompletesAt.here_bind (CompletesAt.emit_quiet_bind (by simp) h)
  induction h generalizing c with
  | last he hps =>
      refine .last (hannounced ((he.completesAt_quiets hps hlevels hcloses hc).quiet_bind
        fun _ d hd => ?_))
      exact ⟨[], false, d, comma_of_kind_ne (by simp [kind_of_faces hd, hfirst]), nil_mem_quiets, rfl,
        hd⟩
  | @more e ps comma others he hps hcomma hothers ih =>
      rw [List.append_assoc, List.cons_append] at hc
      have hdelimits : comma.Delimits := by simp [Token.Delimits, delimiters, hcomma]
      refine .more_quiet (P := (·.Faces (others ++ first :: rest))) (hannounced
        ((he.completesAt_quiets hps hlevels hdelimits hc).quiet_bind fun _ d hd => ?_)) fun d hd => ih hd
      have hmore := faces_advance_of_more hd
      exact ⟨[], true, d.advance, comma_of_kind ((kind_of_faces hd).trans hcomma), nil_mem_quiets, rfl,
        length_ahead_lt hc hmore (by simp; omega), hmore⟩

theorem expect_of_faces {β : Type} {kind : Kind} {symbol : String} {f : Token → Reading β}
    {L : Language Event} {R : β → Cursor → Prop} (ht : t.kind = kind) (hc : c.Faces (t :: rest))
    (hrest : rest ≠ []) (hf : ∀ d, d.Faces rest → (f c.here).CompletesAt d L R) :
    (expect kind symbol >>= f).CompletesAt c L R := by
  refine (CompletesAt.expect (Q := fun t d => t = c.here ∧ d.Faces rest)
    ((kind_of_faces hc).trans ht) ⟨rfl, hc.advance hrest⟩).silent ?_
  rintro _ d ⟨rfl, hd⟩
  exact hf d hd

theorem completesAt_arguments_quiet {opening closing : Token} (hlevels : 127 ≤ levels)
    (hopening : opening.kind = .openParen) (hps : ps = [] ∨ Listed options ps)
    (hclosing : closing.kind = .closeParen) (hrest : rest ≠ [])
    (hc : c.Faces (opening :: (ps ++ closing :: rest))) :
    (arguments (Enclosed.within levels)).CompletesAt c quiets fun _ d => d.Faces rest := by
  rw [arguments]
  refine expect_of_faces hopening hc (by simp) fun d hd => CompletesAt.emit_quiet_bind (by simp)
    (CompletesAt.cursor_bind ?_)
  have hclosed {d : Cursor} (hd : d.Faces (closing :: rest)) :
      (do
        let paren ← expect .closeParen ")"
        emit (.closeArguments paren.toSpan) : Reading Unit).CompletesAt d quiets
        fun _ d => d.Faces rest :=
    expect_of_faces hclosing hd hrest fun d hd =>
      CompletesAt.mono (CompletesAt.emit hd) (by
        rintro _ rfl
        exact (cons_mem_quiets (by simp)).mpr nil_mem_quiets)
  rcases hps with rfl | hps
  · refine CompletesAt.ite_false ?_ (hclosed hd)
    simp [Cursor.isAt, kind_of_faces hd, hclosing]
  · have hfirst : d.here.kind ≠ .closeParen := by
      have hcloser {e : Text} {ps others : List Token} (he : e.IsExpression options) (hps : e.Spells ps)
          (hd : d.Faces (ps ++ others)) : d.here.kind ≠ .closeParen := by
        obtain ⟨p, behind, rfl, hends, -⟩ := he.exists_first hps
        rw [kind_of_faces hd]
        intro hkind
        simp [endsExpression, hkind] at hends
      cases hps with
      | last he hps => exact hcloser he hps hd
      | more he hps _ _ =>
          rw [List.append_assoc] at hd
          exact hcloser he hps hd
    refine CompletesAt.ite_true (by simp [Cursor.isAt, hfirst]) ?_
    exact (repeatsAt_listed hlevels hps hclosing hd).repeatWhile.quiet_bind fun _ d hd => hclosed hd

/-! ## The rest of an operand -/

/-- A name has been read, and what belongs to it is read quietly to the end of the operand. -/
def Selects (inner : Enclosed) (c : Cursor) (rest : List Token) : Prop :=
  (optionalArguments inner).CompletesAt c quiets fun _ d =>
    RepeatsAt (selector inner) d quiets (·.Faces rest) ∧ d.ahead.length ≤ c.ahead.length

/-- The tokens that can stand behind a call or the target of an assignment. -/
def EndsReference (t : Token) : Prop := t = symbol .semicolon [';'] ∨ t = symbol .operator ['=']

theorem selector_of_ends (ht : EndsReference t) (hc : c.Faces (t :: rest)) :
    selector inner c = ([], .ok (false, c)) := by
  have hhere := hc.here_eq
  have hdot : c.isAt .dot = false := by
    rw [Cursor.isAt, ← bare_kind, hhere]
    rcases ht with rfl | rfl <;> decide
  have hbracket : c.isAt .openBracket = false := by
    rw [Cursor.isAt, ← bare_kind, hhere]
    rcases ht with rfl | rfl <;> decide
  have hreference : c.isAtOperator "::" = false := by
    rw [Cursor.isAtOperator, ← isOperator_bare, hhere]
    rcases ht with rfl | rfl <;> decide
  have hstep : c.here.isOperatorIn stepOperators = false := by
    rw [← isOperatorIn_bare, hhere]
    rcases ht with rfl | rfl <;> decide
  rw [selector, cursor_bind]
  simp only [hdot, hbracket, hreference, hstep]
  rfl

theorem repeatsAt_selector_end (ht : EndsReference t) (hc : c.Faces (t :: rest)) :
    RepeatsAt (selector inner) c quiets (·.Faces (t :: rest)) :=
  .last ⟨[], false, c, selector_of_ends ht hc, nil_mem_quiets, rfl, hc⟩

theorem optionalArguments_of_kind (h : c.here.kind ≠ .openParen) :
    optionalArguments inner c = ([], .ok ((), c)) := by
  rw [optionalArguments, cursor_bind, if_neg (by simp [Cursor.isAt, h])]
  rfl

/-- Arguments at the end. -/
theorem selects_arguments {opening closing : Token} (hlevels : 127 ≤ levels)
    (hopening : opening.kind = .openParen) (hps : ps = [] ∨ Listed options ps)
    (hclosing : closing.kind = .closeParen) (ht : EndsReference t)
    (hc : c.Faces (opening :: (ps ++ [closing]) ++ t :: rest)) :
    Selects (Enclosed.within levels) c (t :: rest) := by
  rw [List.cons_append, List.append_assoc, List.singleton_append] at hc
  have harguments := completesAt_arguments_quiet hlevels hopening hps hclosing (by simp) hc
  rw [Selects, optionalArguments]
  refine CompletesAt.cursor_bind (CompletesAt.ite_true
    (by simp [Cursor.isAt, kind_of_faces hc, hopening]) (harguments.imp fun _ d hd =>
      ⟨repeatsAt_selector_end ht hd, (length_ahead_lt hc hd (by simp; omega)).le⟩))

theorem repeatsAt_indexes (hlevels : 127 ≤ levels) (h : Indexes options ps) (ht : EndsReference t)
    (hc : c.Faces (ps ++ t :: rest)) :
    RepeatsAt (selector (Enclosed.within levels)) c quiets (·.Faces (t :: rest)) := by
  induction h generalizing c with
  | nothing => exact repeatsAt_selector_end ht hc
  | @more opening e ps closing others hopening he hps hclosing hothers ih =>
      rw [List.cons_append, List.append_assoc, List.cons_append] at hc
      have hkind := (kind_of_faces hc).trans hopening
      have hdelimits : closing.Delimits := by simp [Token.Delimits, delimiters, hclosing]
      refine .more_quiet (P := (·.Faces (others ++ t :: rest))) ?_ fun d hd => ih hd
      rw [selector]
      refine CompletesAt.cursor_bind (CompletesAt.ite_false (by simp [Cursor.isAt, hkind])
        (CompletesAt.ite_true (by simp [Cursor.isAt, hkind]) (CompletesAt.take_bind
          ((he.completesAt_quiets hps hlevels hdelimits (faces_advance_of_more hc)).quiet_bind
            fun _ d hd => expect_of_faces hclosing hd (by simp) fun d hd =>
              CompletesAt.pure_quiet ⟨rfl, length_ahead_lt hc hd (by simp; omega), hd⟩))))

/-- Indexes at the end. -/
theorem selects_indexes (hlevels : 127 ≤ levels) (h : Indexes options ps) (ht : EndsReference t)
    (hc : c.Faces (ps ++ t :: rest)) : Selects (Enclosed.within levels) c (t :: rest) := by
  have hkind : c.here.kind ≠ .openParen := by
    cases h with
    | nothing =>
        rw [kind_of_faces hc]
        rcases ht with rfl | rfl <;> decide
    | more hopening => rw [(kind_of_faces hc).trans hopening]; decide
  exact ⟨[], (), c, optionalArguments_of_kind hkind, nil_mem_quiets,
    repeatsAt_indexes hlevels h ht hc, le_rfl⟩

theorem not_isWord_of_isName (hname : t.isName = true) {w : Text} (hw : keywords.contains w = true) :
    t.isWord w = false := by
  rw [Bool.eq_false_iff]
  intro hword
  rw [isName, text_of_isWord hword, hw] at hname
  simp at hname

theorem memberAccess_of_name (hname : c.here.isName = true) :
    memberAccess inner c = optionalArguments inner c.advance := by
  have hnew : c.isAtWord "new" = false := not_isWord_of_isName hname (by decide)
  have hclass : c.isAtWord "class" = false := not_isWord_of_isName hname (by decide)
  have hthis : c.isAtWord "this" = false := not_isWord_of_isName hname (by decide)
  have hsuper : c.isAtWord "super" = false := not_isWord_of_isName hname (by decide)
  have hopening : c.isAtOperator "<" = false := by
    simp [Cursor.isAtOperator, isOperator, kind_of_isName hname]
  rw [memberAccess, cursor_bind, hnew, hclass, hthis, hsuper, hopening, if_neg (by simp),
    if_neg (by simp), if_neg (by simp)]
  change ((if c.here.isName = true then take else refuse .identifier) >>= fun _ =>
    optionalArguments inner : Reading Unit) c = _
  rw [if_pos hname]
  rfl

theorem selector_of_dot {name dot : Token} {behind : List Token} (hdot : dot.kind = .dot)
    (hname : name.isIdentifier = true) (hc : c.Faces (dot :: name :: (behind ++ first :: rest))) :
    selector inner c = (do
      optionalArguments inner
      return true : Reading Bool) c.advance.advance := by
  have hadvance : c.advance.Faces (name :: (behind ++ first :: rest)) := hc.advance (by simp)
  have hisName : c.advance.here.isName = true := by
    rw [← isName_bare, hadvance.here_eq]
    exact isName_of_isIdentifier hname
  change (if c.isAt .dot = true then take >>= fun _ => memberAccess inner >>= fun _ => pure true
    else _ : Reading Bool) c = _
  rw [if_pos (by simp [Cursor.isAt, kind_of_faces hc, hdot])]
  change (memberAccess inner >>= fun _ => pure true : Reading Bool) c.advance = _
  change Reading.bind (memberAccess inner) _ c.advance =
    Reading.bind (optionalArguments inner) _ c.advance.advance
  simp only [Reading.bind, memberAccess_of_name hisName]

/-- Names joined by dots in front of what belongs to the last one. -/
theorem selects_names {after : List Token} (h : DottedName names)
    (hafter : ∀ d, d.Faces (after ++ first :: rest) → Selects inner d (first :: rest))
    (hc : c.Faces (names ++ (after ++ first :: rest))) : Selects inner c.advance (first :: rest) := by
  induction h generalizing c with
  | last hname => exact hafter _ (hc.advance (by simp))
  | @more name dot names hname hdot hnames ih =>
      have hadvance : c.advance.Faces (dot :: (names ++ (after ++ first :: rest))) :=
        hc.advance (by simp)
      obtain ⟨next, behind, rfl, hnext⟩ := hnames.exists_first
      have hmore : c.advance.advance.Faces (next :: behind ++ (after ++ first :: rest)) :=
        hadvance.advance (by simp)
      have hbehind : c.advance.advance.advance.Faces (behind ++ (after ++ first :: rest)) :=
        hmore.advance (by simp)
      have hdotKind : c.advance.here.kind = .dot := (kind_of_faces hadvance).trans hdot
      refine ⟨[], (), c.advance, optionalArguments_of_kind (by simp [hdotKind]), nil_mem_quiets, ?_, le_rfl⟩
      have hround : (selector inner).CompletesAt c.advance quiets fun again d =>
          again = true ∧ d.ahead.length < c.advance.ahead.length ∧
            RepeatsAt (selector inner) d quiets (·.Faces (first :: rest)) := by
        have hselects := ih hmore
        have hrun : selector inner c.advance = (do
            optionalArguments inner
            return true : Reading Bool) c.advance.advance.advance := by
          have hfaces := hadvance
          rw [List.cons_append, ← List.append_assoc] at hfaces
          exact selector_of_dot hdot hnext hfaces
        rw [CompletesAt, hrun]
        refine CompletesAt.quiet_bind hselects fun _ d hd =>
          CompletesAt.pure_quiet ⟨rfl, Nat.lt_of_le_of_lt hd.2 ?_, hd.1⟩
        refine length_ahead_lt hadvance hbehind ?_
        simp only [List.cons_append, List.length_cons]
        omega
      exact .more_quiet hround fun d hd => hd

/-! ## Operands and what assigns to them -/

/-- The tokens that can stand directly behind the names. -/
def FollowsNames (t : Token) : Prop :=
  t.kind = .openParen ∨ t.kind = .openBracket ∨ t = symbol .operator ['=']

theorem second_of_names {next second : Token} {name : Token} {more ts : List Token}
    (h : DottedName names) (hts : names ++ next :: more = name :: second :: ts) :
    second.kind = .dot ∨ second = next := by
  cases h with
  | last =>
      obtain ⟨-, rfl, -⟩ := by simpa using hts
      exact .inr rfl
  | more _ hdot =>
      obtain ⟨-, rfl, -⟩ := by simpa using hts
      exact .inl hdot

theorem exists_second (h : DottedName names) {next : Token} {more : List Token}
    (hc : c.Faces (names ++ next :: more)) :
    ∃ t ts, c.ahead = t :: ts ∧ (t.kind = .dot ∨ t.bare = next) := by
  obtain ⟨name, behind, rfl, -⟩ := h.exists_first
  obtain ⟨second, ts, hsecond⟩ := List.exists_cons_of_ne_nil (l := behind ++ next :: more) (by simp)
  have hahead : c.ahead.map bare = behind ++ next :: more := hc.ahead_eq
  rw [hsecond] at hahead
  obtain ⟨t, us, ht, rfl, -⟩ := List.map_eq_cons_iff.mp hahead
  exact ⟨t, us, ht, second_of_names h (congrArg (name :: ·) hsecond)⟩

/-- No operator but the sign of an assignment is next. -/
theorem nextIs_of_names (h : DottedName names) {next : Token} {more : List Token}
    (hnext : FollowsNames next) {op : Text} (hop : op ≠ ['=']) (hc : c.Faces (names ++ next :: more)) :
    c.nextIs (·.isOperator op) = false := by
  obtain ⟨t, ts, hahead, ht⟩ := exists_second h hc
  rw [Cursor.nextIs, hahead]
  rcases ht with hdot | rfl
  · simp [isOperator, hdot]
  · rcases hnext with hkind | hkind | heq
    · simp [isOperator, show t.kind = .openParen from hkind]
    · simp [isOperator, show t.kind = .openBracket from hkind]
    · have htext : t.text = ['='] := congrArg Token.text heq
      simp [isOperator, htext, hop.symm]

theorem isName_here (h : DottedName names) (hc : c.Faces (names ++ ps)) : c.here.isName = true := by
  obtain ⟨name, behind, rfl, hname⟩ := h.exists_first
  rw [← isName_bare, hc.here_eq]
  exact isName_of_isIdentifier hname

theorem operandShape_of_name (hname : c.here.isName = true)
    (hnext : c.nextIs (·.isOperator "->".toList) = false) : operandShape c = .reference := by
  have hword (w : Text) (hw : keywords.contains w = true) : c.here.text ≠ w := by
    rintro rfl
    rw [isName, hw] at hname
    simp at hname
  have hprimitive : c.here.isPrimitive = false := by
    have hall : ∀ w ∈ primitiveTypes, keywords.contains w = true := by decide
    rw [isPrimitive, isWordIn, Bool.and_eq_false_iff, List.contains_eq_mem, decide_eq_false_iff_not]
    exact .inr fun hmem => hword _ (hall _ hmem) rfl
  rw [operandShape, kind_of_isName hname]
  simp only [wordShape, hword _ (show keywords.contains "new".toList = true by decide),
    hword _ (show keywords.contains "this".toList = true by decide),
    hword _ (show keywords.contains "super".toList = true by decide),
    hword _ (show keywords.contains "true".toList = true by decide),
    hword _ (show keywords.contains "false".toList = true by decide),
    hword _ (show keywords.contains "null".toList = true by decide), hprimitive, hname, hnext]
  simp

theorem operandShape_of_names (h : DottedName names) {next : Token} {more : List Token}
    (hnext : FollowsNames next) (hc : c.Faces (names ++ next :: more)) :
    operandShape c = .reference :=
  operandShape_of_name (isName_here h hc) (nextIs_of_names h hnext (by decide) hc)

/-- A name and what belongs to it, read as an operand and its selectors. -/
theorem completesAt_conditional {after : List Token} {next : Token} {more : List Token}
    (h : DottedName names) (hends : EndsReference first) (hnext : FollowsNames next)
    (htail : after ++ first :: rest = next :: more)
    (hafter : ∀ d, d.Faces (after ++ first :: rest) → Selects inner d (first :: rest))
    (hc : c.Faces (names ++ (after ++ first :: rest))) :
    (conditional inner).CompletesAt c quiets fun _ d => d.Faces (first :: rest) := by
  have hselects := selects_names h hafter hc
  have hname := isName_here h hc
  have hkind := kind_of_isName hname
  rw [htail] at hc
  have hleading : leading c = ([], .ok (false, c)) := by
    rw [leading, cursor_bind, if_neg (by simp [isOperatorIn, hkind]), Cursor.tokens,
      castLength?_of_kind (by simp [hkind])]
    rfl
  have hoperand : (operand inner >>= fun _ => repeatWhile (selector inner)).CompletesAt c quiets
      fun _ d => d.Faces (first :: rest) := by
    have hrun : operand inner c = optionalArguments inner c.advance := by
      rw [operand, cursor_bind, operandShape_of_names h hnext hc]
      rfl
    have hoperand : (operand inner).CompletesAt c quiets fun _ d =>
        RepeatsAt (selector inner) d quiets (·.Faces (first :: rest)) ∧
          d.ahead.length ≤ c.advance.ahead.length := by
      rw [CompletesAt, hrun]
      exact hselects
    exact hoperand.quiet_bind fun _ d hd => hd.1.repeatWhile
  have hunary : (unary inner).CompletesAt c quiets fun _ d => d.Faces (first :: rest) :=
    (RepeatsAt.last (Q := fun d => d = c) ⟨[], false, c, hleading, nil_mem_quiets, rfl, rfl⟩).repeatWhile
      |>.quiet_bind fun _ d hd => hd ▸ hoperand
  have hnone {d : Cursor} (hd : d.Faces (first :: rest)) : d.isAtWord "instanceof" = false ∧
      d.here.isOperatorIn binaryOperators = false ∧ d.isAtOperator "?" = false := by
    rw [Cursor.isAtWord, Cursor.isAtOperator, ← isWord_bare, ← isOperatorIn_bare, ← isOperator_bare,
      hd.here_eq]
    rcases hends with rfl | rfl <;> decide
  refine (hunary.quiet_bind fun _ d hd => ?_ : (binary inner).CompletesAt c quiets
    fun _ d => d.Faces (first :: rest)).quiet_bind fun _ d hd => ?_
  · obtain ⟨htest, hoperator, -⟩ := hnone hd
    exact (RepeatsAt.last (CompletesAt.cursor_bind (CompletesAt.ite_false (by simp [htest])
      (CompletesAt.ite_false (by simp [hoperator]) (CompletesAt.pure_quiet ⟨rfl, hd⟩))))).repeatWhile
  · exact CompletesAt.cursor_bind (CompletesAt.ite_false (by simp [(hnone hd).2.2])
      (CompletesAt.pure_quiet hd))

/-- A loop over assignments ends in front of a semicolon. -/
theorem repeatsAt_assigned_end (hfirst : first.kind = .semicolon) (hc : c.Faces (first :: rest)) :
    RepeatsAt (assignedRound inner) c quiets (·.Faces (first :: rest)) := by
  have hkind := (kind_of_faces hc).trans hfirst
  exact .last (CompletesAt.here_bind (CompletesAt.ite_false (by simp [isOperatorIn, hkind])
    (CompletesAt.pure_quiet ⟨rfl, hc⟩)))

/-- A call is read to its end. -/
theorem completesAt_callTokens (hlevels : 127 ≤ levels) (h : CallTokens options ps)
    (hfirst : first = symbol .semicolon [';']) (hc : c.Faces (ps ++ first :: rest)) :
    (assignment (Enclosed.within levels)).CompletesAt c quiets fun _ d => d.Faces (first :: rest) := by
  obtain @⟨names, opening, arguments, closing, hnames, hopening, harguments, hclosing⟩ := h
  rw [List.append_assoc] at hc
  refine (completesAt_conditional hnames (.inl hfirst) (.inl hopening) rfl (fun d hd =>
    selects_arguments hlevels hopening harguments hclosing (.inl hfirst) hd) hc).quiet_bind
      fun _ d hd => ?_
  exact (repeatsAt_assigned_end (by rw [hfirst]; rfl) hd).repeatWhile

/-- The reading of an assignment, told as rounds. -/
theorem repeatsAt_of_assignment {source : Text} {width : Option Nat} {Q : Cursor → Prop}
    (hreports : inner.Reports source width) (hlaid : Token.Laid source c.tokens)
    (hat : c.here.isOperatorIn assignmentOperators = true)
    (h : (assignment inner).CompletesAt c.advance quiets fun _ => Q) :
    RepeatsAt (assignedRound inner) c quiets Q := by
  have hround (c : Cursor) (events : List Event) (d : Cursor) (hc : Token.Laid source c.tokens)
      (hrun : assignedRound inner c = (events, .ok (true, d))) :
      c.Passes d ∧ Token.Laid source d.tokens := by
    have hkind : ¬ c.here.isEnd := by
      intro hend
      rw [assignedRound, here_bind, if_neg (by simp_all [isOperatorIn, isEnd])] at hrun
      cases hrun
    have hpasses : c.Passes d := by
      rw [assignedRound, here_bind] at hrun
      by_cases hoperator : c.here.isOperatorIn assignmentOperators = true
      · rw [if_pos hoperator] at hrun
        exact (advancesAt_take hc hkind).bind_left hc
          (fun _ => (reports_conditional hreports).bind_silent fun _ => Reports.pure true) _ _ _ hrun
      · rw [if_neg hoperator] at hrun
        cases hrun
    exact ⟨hpasses, hpasses.reaches.laid hc⟩
  obtain ⟨events, _, d, hrun, hquiet, hQ⟩ := h
  obtain ⟨value, _, e, more, hvalue, hmore, rfl⟩ := exists_of_bind_ok hrun
  obtain ⟨hfirst, hothers⟩ := append_mem_quiets.mp hquiet
  have hone : assignedRound inner c = (value, .ok (true, e)) := by
    rw [assignedRound, here_bind, if_pos hat]
    change (conditional inner >>= fun _ => pure true : Reading Bool) c.advance = _
    rw [bind_of_ok _ hvalue]
    simp [pure, Reading.pure]
  obtain ⟨hpasses, he⟩ := hround c value e hlaid hone
  exact ⟨value ++ more, d, .more hone hpasses.length_lt (rounds_of_repeatWhile hround he hmore),
    append_mem_quiets.mpr ⟨hfirst, hothers⟩, hQ⟩

end Reading

end CodeFrames
