import CodeFrames.Proofs.Phrases.Basic

/-!
# Looking ahead in a tree

What is told by looking ahead from a token of a tree is what the tree says: a group in parentheses is a
cast where the tree has one, it opens no lambda, and the type of a created object ends where its
arguments or its dimensions start.
-/

namespace CodeFrames

open Token Text

/-! ## Brackets -/

namespace Token

variable {ps qs rest : List Token} {t : Token}

theorem Nested.cons {kind : Kind} (ht : t.kind = kind)
    (hkind : kind.isOpener = false ∧ kind.isCloser = false ∧ kind ≠ .endOfInput) (h : Nested ps) :
    Nested (t :: ps) := (nested_of_kind ht hkind).append h

theorem Nested.of_cons (h : Nested (t :: ps)) (ht : t.kind.isOpener = false) : Nested ps := by
  cases h with
  | plain _ _ _ hps => exact hps
  | group hmatches =>
      rw [(isOpener_of_matches hmatches).1] at ht
      cases ht

/-- Where the tokens nest with the shift operators taken apart, they nest as they are. -/
theorem nested_of_angles (h : Nested (ps.flatMap angles)) : Nested ps := by
  generalize hqs : ps.flatMap angles = qs at h
  induction h generalizing ps with
  | nil => exact TypeName.flatMap_angles_eq_nil hqs ▸ .nil
  | @plain t ts hopener hcloser hend _ ih =>
      cases ps with
      | nil => cases hqs
      | cons p ps =>
          let angle : Token := symbol .operator ['>']
          rw [List.flatMap_cons] at hqs
          rcases TypeName.angles_cases p with ⟨hp, -⟩ | ⟨hop, hp⟩ | ⟨hop, hp⟩
          · rw [hp] at hqs
            obtain ⟨rfl, rfl⟩ := by simpa using hqs
            exact .plain hopener hcloser hend (ih rfl)
          · -- A shift operator gives its first angle bracket away and keeps the others.
            rw [hp] at hqs
            have hnested := @ih (angle :: ps) (List.cons.inj hqs).2
            exact (hnested.of_cons rfl).cons (kind_of_isOperator hop) (by decide)
          · rw [hp] at hqs
            have hnested := @ih (angle :: angle :: ps) (List.cons.inj hqs).2
            exact ((hnested.of_cons rfl).of_cons rfl).cons (kind_of_isOperator hop) (by decide)
  | @group opener closer inside ts hmatches hinside _ ihinside ihts =>
      have hkind : opener.kind ≠ .operator ∧ closer.kind ≠ .operator := by
        revert hmatches
        cases opener.kind <;> cases closer.kind <;> simp [Kind.matches]
      obtain ⟨rs, rfl, hrs⟩ := TypeName.split_first hqs hkind.1
      obtain ⟨us, vs, rfl, hus, hvs⟩ := TypeName.split_of_flatMap_angles hrs hkind.2
      exact .group hmatches (ihinside hus) (ihts hvs)

/-- In nested tokens a closing parenthesis has the opening one before it. -/
theorem Nested.exists_openParen {before behind : List Token} (h : Nested ps)
    (hps : ps = before ++ t :: behind) (ht : t.kind = .closeParen) : ∃ p ∈ before, p.kind = .openParen := by
  induction h generalizing before behind with
  | nil => simp at hps
  | @plain p ts _ hcloser _ _ ih =>
      cases before with
      | nil =>
          obtain ⟨rfl, -⟩ := List.cons.inj hps
          exact absurd (by rw [ht]; rfl) hcloser
      | cons q before =>
          obtain ⟨p, hp, hkind⟩ := ih (List.cons.inj hps).2
          exact ⟨p, List.mem_cons_of_mem _ hp, hkind⟩
  | @group opener closer inside ts hmatches _ _ ihinside ihts =>
      cases before with
      | nil =>
          obtain ⟨rfl, -⟩ := List.cons.inj hps
          rw [ht] at hmatches
          cases hmatches
      | cons q before =>
          obtain ⟨rfl, hrest⟩ := List.cons.inj hps
          rcases List.append_eq_append_iff.mp hrest with ⟨more, rfl, hmore⟩ | ⟨more, rfl, hmore⟩
          · cases more with
            | nil =>
                obtain ⟨rfl, -⟩ := List.cons.inj hmore
                refine ⟨opener, List.mem_cons_self, ?_⟩
                rw [ht] at hmatches
                revert hmatches
                cases opener.kind <;> simp [Kind.matches]
            | cons u more =>
                obtain ⟨p, hp, hkind⟩ := ihts (List.cons.inj hmore).2
                exact ⟨p, by simp [hp], hkind⟩
          · cases more with
            | nil =>
                obtain ⟨rfl, -⟩ := List.cons.inj hmore
                refine ⟨opener, List.mem_cons_self, ?_⟩
                rw [ht] at hmatches
                revert hmatches
                cases opener.kind <;> simp [Kind.matches]
            | cons u more =>
                obtain ⟨rfl, -⟩ := List.cons.inj hmore
                obtain ⟨p, hp, hkind⟩ := ihinside rfl
                exact ⟨p, List.mem_cons_of_mem _ hp, hkind⟩

end Token

namespace TypeName

theorem nested_dimensions {ds : List Token} (h : Dimensions ds) : Nested ds := by
  induction h with
  | nothing => exact .nil
  | more hl hr _ ih => exact @Nested.group _ _ [] _ (by rw [hl, hr]; rfl) .nil ih

mutual
theorem nested_whole : ∀ {ts : List Token}, Whole ts → Nested ts
  | _, .primitive ht hds => (nested_dimensions hds).cons (kind_of_isWordIn ht) (by decide)
  | _, .named hts hds => (nested_qualified hts).append (nested_dimensions hds)
theorem nested_qualified : ∀ {ts : List Token}, Qualified ts → Nested ts
  | _, .last hname hargs => (nested_optionalArguments hargs).cons (kind_of_isName hname) (by decide)
  | _, .more hname hargs hdot hts =>
      ((nested_optionalArguments hargs).append ((nested_qualified hts).cons hdot (by decide))).cons
        (kind_of_isName hname) (by decide)
theorem nested_optionalArguments : ∀ {ts : List Token}, OptionalArguments ts → Nested ts
  | _, .nothing => .nil
  | _, .list hopening hts hclosing =>
      ((nested_arguments hts).append (nested_of_kind (kind_of_isOperator hclosing) (by decide))).cons
        (kind_of_isOperator hopening) (by decide)
theorem nested_arguments : ∀ {ts : List Token}, Arguments ts → Nested ts
  | _, .last hts => nested_argument hts
  | _, .more hts hcomma hus =>
      (nested_argument hts).append ((nested_arguments hus).cons hcomma (by decide))
theorem nested_argument : ∀ {ts : List Token}, Argument ts → Nested ts
  | _, .type hts => nested_whole hts
  | _, .wildcard hmark => nested_of_kind (kind_of_isOperator hmark) (by decide)
  | _, .bounded hmark hword hts =>
      ((nested_whole hts).cons (kind_of_isWordIn hword) (by decide)).cons (kind_of_isOperator hmark)
        (by decide)
end

theorem nested_diamond {ts : List Token} (h : Diamond ts) : Nested ts := by
  induction h with
  | last hname hless hgreater =>
      exact ((nested_of_kind (kind_of_isOperator hgreater) (by decide)).cons (kind_of_isOperator hless)
        (by decide)).cons (kind_of_isName hname) (by decide)
  | more hname hargs hdot _ ih =>
      exact ((nested_optionalArguments hargs).append (ih.cons hdot (by decide))).cons
        (kind_of_isName hname) (by decide)

theorem nested_created {ts : List Token} (h : Created ts) : Nested ts := by
  cases h with
  | primitive ht => exact nested_of_kind (kind_of_isWordIn ht) (by decide)
  | named hts => exact nested_qualified hts
  | inferred hts => exact nested_diamond hts

end TypeName

namespace Phrase

variable {s : Category}

theorem WholeType.nested (type : WholeType) : Nested type.tokens :=
  nested_of_angles (TypeName.nested_whole type.whole)

theorem CreatedType.nested (type : CreatedType) : Nested type.tokens :=
  nested_of_angles (TypeName.nested_created type.created)

theorem kind_of_literal (l : Literal) :
    l.token.kind.isOpener = false ∧ l.token.kind.isCloser = false ∧ l.token.kind ≠ .endOfInput := by
  have hliteral := l.isLiteral
  rw [isLiteral, isWordIn, isAnyWord] at hliteral
  revert hliteral
  cases l.token.kind <;> simp [Kind.isOpener, Kind.isCloser]

theorem nested (e : Phrase s) : Nested e.tokens := by
  have hparens {ps qs : List Token} (h : Nested ps) (g : Nested qs) :
      Nested (openParen :: (ps ++ closeParen :: qs)) := .group rfl h g
  have hbrackets {ps : List Token} (h : Nested ps) : Nested (openBracket :: (ps ++ [closeBracket])) :=
    .group rfl h .nil
  have hoperator {ps : List Token} (op : Text) (h : Nested ps) : Nested (symbol .operator op :: ps) :=
    h.cons (show (symbol .operator op).kind = .operator from rfl) (by decide)
  have hword {ps : List Token} (w : Text) (h : Nested ps) : Nested (symbol .word w :: ps) :=
    h.cons (show (symbol .word w).kind = .word from rfl) (by decide)
  have hname {ps : List Token} (n : Name) (h : Nested ps) : Nested (n.token :: ps) :=
    h.cons (kind_of_isName n.isName) (by decide)
  have hdot {ps : List Token} (h : Nested ps) : Nested (dot :: ps) :=
    h.cons (show dot.kind = .dot from rfl) (by decide)
  induction e with
  | value _ ih | operation _ ih | single _ ih | unsigned _ ih | operand _ ih | last _ ih => exact ih
  | assigned op _ _ _ ih ih' | joined op _ _ _ _ ih ih' => exact ih.append (hoperator op ih')
  | chosen _ _ _ ih ih' ih'' => exact ih.append (hoperator _ (ih'.append (hoperator _ ih'')))
  | tested _ type ih => exact ih.append (hword _ type.nested)
  | signed op _ _ ih | inverted op _ _ ih => exact hoperator op ih
  | primitiveCast type _ _ ih | cast type _ ih => exact hparens type.nested ih
  | literal l => exact nested_of_kind rfl (kind_of_literal l)
  | name n => exact hname n .nil
  | this => exact hword _ .nil
  | call n _ ih => exact hname n ih
  | parenthesized _ ih | given _ ih => exact hparens ih .nil
  | noArguments => exact @hparens [] [] .nil .nil
  | object type _ ih => exact hword _ (type.nested.append ih)
  | array type _ ih => exact hword _ (type.nested.append (hbrackets ih))
  | openArray type => exact hword _ (type.nested.append (@hbrackets [] .nil))
  | dimension _ ih => exact ih.append (@hbrackets [] .nil)
  | index _ _ ih ih' => exact ih.append (hbrackets ih')
  | field _ n ih => exact ih.append (hdot (hname n .nil))
  | method _ n _ ih ih' => exact ih.append (hdot (hname n ih'))
  | stepped op _ _ ih => exact ih.append (hoperator op .nil)
  | more _ _ ih ih' => exact ih.append (ih'.cons (show comma.kind = .comma from rfl) (by decide))

/-! ## What stands behind a tree -/

/-- Tokens that can stand in a place: of some kinds, some operators and some words. -/
structure Follow where
  kinds : List Kind
  operators : List Text
  words : List Text

def Follow.Has (f : Follow) (t : Token) : Prop :=
  t.kind ∈ f.kinds ∨ t.isOperatorIn f.operators = true ∨ t.isWordIn f.words = true

/-- The tokens that can stand behind a tree of the category. -/
def Category.follow : Category → Follow
  | .assignment => ⟨delimiters, [[':']], []⟩
  | .values => ⟨[.closeParen], [], []⟩
  | .conditional => ⟨delimiters, [':'] :: assignmentOperators, []⟩
  | .operation true => ⟨delimiters, [':'] :: ['?'] :: (assignmentOperators ++ logicalOperators), []⟩
  | .operation false | .unary | .unsigned =>
      ⟨delimiters, [':'] :: ['?'] :: (assignmentOperators ++ binaryOperators), ["instanceof".toList]⟩
  | .operand _ | .arguments =>
      ⟨.dot :: .openBracket :: delimiters,
        [':'] :: ['?'] :: (assignmentOperators ++ (binaryOperators ++ stepOperators)), ["instanceof".toList]⟩

namespace Follow.Has

variable {f g : Follow} {t : Token}

theorem mono (h : f.Has t) (hkinds : ∀ kind ∈ f.kinds, kind ∈ g.kinds)
    (hoperators : ∀ op ∈ f.operators, op ∈ g.operators) (hwords : ∀ w ∈ f.words, w ∈ g.words) :
    g.Has t := by
  simp only [Follow.Has, isOperatorIn, isWordIn, Bool.and_eq_true, List.contains_eq_mem, decide_eq_true_eq]
    at h ⊢
  rcases h with h | ⟨hkind, h⟩ | ⟨hkind, h⟩
  · exact .inl (hkinds _ h)
  · exact .inr (.inl ⟨hkind, hoperators _ h⟩)
  · exact .inr (.inr ⟨hkind, hwords _ h⟩)

/-- A test that none of the tokens passes. -/
theorem test (h : f.Has t) {p : Token → Bool} (hp : ∀ t, p t.bare = p t)
    (hkinds : ∀ kind ∈ f.kinds, ∀ w, p (symbol kind w) = false)
    (hoperators : ∀ op ∈ f.operators, p (symbol .operator op) = false)
    (hwords : ∀ w ∈ f.words, p (symbol .word w) = false) : p t = false := by
  have hsymbol : t.bare = symbol t.kind t.text := rfl
  rw [← hp, hsymbol]
  simp only [Follow.Has, isOperatorIn, isWordIn, isAnyWord, Bool.and_eq_true, List.contains_eq_mem,
    decide_eq_true_eq] at h
  rcases h with h | ⟨hkind, h⟩ | ⟨hkind, h⟩
  · exact hkinds _ h _
  · rw [hkind]
    exact hoperators _ h
  · rw [hkind]
    exact hwords _ h

theorem kind_ne (h : f.Has t) {kind : Kind} (hkind : kind ∉ f.kinds) (hoperator : kind ≠ .operator)
    (hword : kind ≠ .word) : t.kind ≠ kind := by
  simp only [Follow.Has, isOperatorIn, isWordIn, isAnyWord, Bool.and_eq_true, decide_eq_true_eq] at h
  rintro rfl
  rcases h with h | ⟨h, -⟩ | ⟨h, -⟩
  · exact hkind h
  · exact hoperator h
  · exact hword h

end Follow.Has

section Follow

variable {t : Token} {s : Category}

theorem Follow.Has.operation {tested : Bool} (h : Category.conditional.follow.Has t) :
    (Category.operation tested).follow.Has t := by
  cases tested <;> exact h.mono (by decide) (by decide) (by decide)

theorem Follow.Has.unary {tested : Bool} (h : (Category.operation tested).follow.Has t) :
    Category.unary.follow.Has t := by
  cases tested <;> exact h.mono (by decide) (by decide) (by decide)

theorem Follow.Has.operand {array : Bool} (h : Category.unary.follow.Has t) :
    (Category.operand array).follow.Has t := by
  cases array <;> exact h.mono (by decide) (by decide) (by decide)

theorem not_startsCastOperand {array : Bool} (h : (Category.operand array).follow.Has t) :
    t.startsCastOperand false = false := by
  have h : (Category.operand false).follow.Has t := h
  refine h.test (fun _ => rfl) ?_ (by decide) (by decide)
  simp [Category.follow, delimiters, startsCastOperand, isName, isAnyWord, isWordIn, isLiteral, symbol,
    isOperatorIn]

theorem not_arrow {array : Bool} (h : (Category.operand array).follow.Has t) :
    t.isOperator "->".toList = false := by
  have h : (Category.operand false).follow.Has t := h
  refine h.test (p := (·.isOperator "->".toList)) (fun _ => rfl) ?_ (by decide) (by decide)
  simp [Category.follow, delimiters, symbol, isOperator]

end Follow

/-! ## Groups in parentheses -/

section Groups

variable {t : Token} {ps rest : List Token}

theorem not_isPrimitive_of_first {p : Token} {primitive : Bool} (h : p.startsCastOperand primitive = true) :
    p.isPrimitive = false := by
  rw [Bool.eq_false_iff]
  intro hprimitive
  obtain ⟨hkind, hmem⟩ : p.kind = .word ∧ p.text ∈ primitiveTypes := by
    simpa [isPrimitive, isWordIn, isAnyWord] using hprimitive
  have hall : ∀ w ∈ primitiveTypes, ∀ primitive, (symbol .word w).startsCastOperand primitive = false := by
    decide
  have hsymbol : p.startsCastOperand primitive = (symbol .word p.text).startsCastOperand primitive := by
    rw [← startsCastOperand_bare, bare, hkind]
    rfl
  rw [hsymbol, hall _ hmem] at h
  cases h

/-- An expression in parentheses is no cast. -/
theorem castLength?_parenthesized {s : Category} (e : Phrase s) (ht : t.startsCastOperand false = false) :
    castLength? (openParen :: (e.tokens ++ closeParen :: t :: rest)) = none := by
  rw [Option.eq_none_iff_forall_ne_some]
  intro n hn
  obtain ⟨paren, type, more, m, close, operand, behind, htokens, -, hm, hdrop, hclose, hoperand, -⟩ :=
    castLength?_eq_some.mp hn
  obtain ⟨-, hmore⟩ := List.cons.inj htokens
  rw [← hmore] at hm hdrop
  have hkinds := typeKinds_of_type hm
  have hle : m ≤ e.tokens.length := le_length_of_forall_take hkinds (by simp [closeParen, symbol, typeKinds])
  rw [List.drop_append_of_le_length hle] at hdrop
  rcases hbehind : e.tokens.drop m with _ | ⟨last, others⟩
  · -- The type is the whole expression, and what stands behind the parenthesis is no operand.
    obtain ⟨first, ps, hfirst, hstarts⟩ := e.exists_first
    have htype : type = first := by
      rw [hfirst] at hmore
      exact (List.cons.inj hmore).1.symm
    rw [hbehind] at hdrop
    obtain ⟨-, rfl, -⟩ := by simpa using hdrop
    rw [htype, not_isPrimitive_of_first hstarts, ht] at hoperand
    cases hoperand
  · -- The type ends at a parenthesis in the expression, which is opened there as well.
    rw [hbehind] at hdrop
    obtain ⟨rfl, -⟩ := List.cons.inj hdrop
    have hsplit : e.tokens = e.tokens.take m ++ last :: others := by rw [← hbehind, List.take_append_drop]
    obtain ⟨p, hp, hkind⟩ := e.nested.exists_openParen hsplit hclose
    have := hkinds p (by rw [List.take_append_of_le_length hle]; exact hp)
    simp [hkind, typeKinds] at this

theorem castLength?_cast (type : WholeType)
    (ht : ∀ p ∈ type.tokens.head?, t.startsCastOperand p.isPrimitive = true) :
    castLength? (openParen :: (type.tokens ++ closeParen :: t :: rest)) = some (type.tokens.length + 2) := by
  have hlength := @TypeName.typeLength?_of_whole _ (closeParen :: t :: rest) type.whole
    (by simp [TypeName.Ends, isOperator, closeParen, symbol])
  obtain ⟨first, ps, hfirst, -⟩ := TypeName.exists_first_of_whole type.whole
  rw [hfirst] at hlength ht ⊢
  exact castLength?_eq_some.mpr ⟨_, first, ps ++ closeParen :: t :: rest, _, closeParen, t, rest, rfl, rfl,
    hlength, List.drop_left, rfl, ht first rfl, rfl⟩

theorem not_opensLambda {s : Category} (e : Phrase s) {c : Cursor} (ht : t.isOperator "->".toList = false)
    (hc : c.Faces (openParen :: (e.tokens ++ closeParen :: t :: rest))) :
    Reading.opensLambda c = false := by
  have hlength := @groupLength?_nested openParen closeParen _ rfl e.nested (t :: rest)
  have hbehind : c.tokens[e.tokens.length + 2]?.map bare = some t := by
    rw [← List.getElem?_map, hc.tokens_eq]
    simp
  obtain ⟨u, hu, rfl⟩ := Option.map_eq_some_iff.mp hbehind
  rw [← hc.tokens_eq, groupLength?_bare] at hlength
  simp only [Reading.opensLambda, hlength, hu, Option.any_some]
  exact ht

end Groups

/-! ## Created types -/

section Created

variable {t : Token} {rest : List Token}

theorem qualifiedLength?_of_diamond {ps ts : List Token} (h : TypeName.Diamond ts)
    (hps : ps.flatMap angles = ts) (ht : t.kind ≠ .dot) :
    ∃ name tail, ps = name :: tail ∧ name.isName = true ∧
      qualifiedLength? 0 (tail ++ t :: rest) = some tail.length := by
  induction h generalizing ps with
  | @last name less greater hname hless hgreater =>
      obtain ⟨tail, rfl, htail⟩ := TypeName.split_first hps (by simp [kind_of_isName hname])
      refine ⟨name, tail, rfl, hname, TypeName.qualifiedLength?_last ?_ ?_⟩
      · exact TypeName.optionalArgumentsLength?_of_scans hless .nil hgreater htail _
      · rw [List.drop_left]
        exact TypeName.not_continuesQualified (by simpa using ht)
  | @more name args dot ts hname hargs hdot _ ih =>
      obtain ⟨tail, rfl, htail⟩ := TypeName.split_first hps (by simp [kind_of_isName hname])
      obtain ⟨args, others, rfl, hargsEq, hothers⟩ := TypeName.split_of_flatMap_angles htail (by simp [hdot])
      obtain ⟨next, behind, rfl, hnext, hlength⟩ := ih hothers
      have hnot : dot.isOperator ['<'] = false := by simp [isOperator, hdot]
      have hfirst := @TypeName.optionalArgumentsLength?_of_arguments _ _
        (dot :: next :: (behind ++ t :: rest)) hargs hargsEq (by simpa using hnot)
      have hwhole := TypeName.qualifiedLength?_more hfirst List.drop_left hdot hnext hlength
      refine ⟨name, _, rfl, hname, ?_⟩
      rw [List.append_assoc, List.cons_append, List.cons_append, hwhole]
      simp
      omega

/-- The type of a created object ends where its arguments or its dimensions start. -/
theorem typeNameLength?_created (type : CreatedType) (ht : t.kind = .openParen ∨ t.kind = .openBracket) :
    typeNameLength? (type.tokens ++ t :: rest) = some type.tokens.length := by
  have hless : t.isOperator ['<'] = false := by rcases ht with h | h <;> simp [isOperator, h]
  have hdot : t.kind ≠ .dot := by rcases ht with h | h <;> simp [h]
  have hnamed {name : Token} {tail : List Token} (hname : name.opensType = true)
      (hlength : qualifiedLength? 0 (tail ++ t :: rest) = some tail.length) :
      typeNameLength? (name :: tail ++ t :: rest) = some (name :: tail).length := by
    rw [List.cons_append, typeNameLength?, if_pos hname, hlength]
    rfl
  generalize hts : type.tokens.flatMap angles = ts
  have hcreated := type.created
  rw [hts] at hcreated
  cases hcreated with
  | @primitive p hp =>
      obtain ⟨tail, htail, hnil⟩ := TypeName.split_first hts (by simp [kind_of_isWordIn hp])
      obtain rfl := TypeName.flatMap_angles_eq_nil hnil
      rw [htail]
      refine hnamed (by simp [opensType, hp]) (TypeName.qualifiedLength?_last ?_ ?_)
      · simp [optionalArgumentsLength?, hless]
      · exact TypeName.not_continuesQualified (by simpa using hdot)
  | named h =>
      obtain ⟨name, tail, htail, hname, hlength⟩ :=
        @TypeName.qualifiedLength?_of_qualified _ _ (t :: rest) h hts (by simp [hless, hdot])
      rw [htail]
      exact hnamed (opensType_of_isName hname) hlength
  | inferred h =>
      obtain ⟨name, tail, htail, hname, hlength⟩ := qualifiedLength?_of_diamond h hts hdot
      rw [htail]
      exact hnamed (opensType_of_isName hname) hlength

end Created

end Phrase

end CodeFrames
