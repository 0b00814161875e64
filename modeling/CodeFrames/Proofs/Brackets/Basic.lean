import CodeFrames.Proofs.Delivery
import CodeFrames.Proofs.Lookahead
import CodeFrames.Reading.Member
import Mathlib.Algebra.GroupWithZero.Nat

/-!
# Brackets

The readings pair every bracket with one of its own kind.  The functions that step over code without
reading it do not: they count all kinds of brackets together, or pass closing brackets that belong to
nothing.  So an accepted source is well bracketed except in the pieces that are left unread.
-/

namespace CodeFrames

namespace Token

/-! ## Open brackets -/

/-- The brackets that are open behind the tokens, the innermost first, or `none` where a closing
bracket does not belong to the innermost open one. -/
def openBrackets? : List Kind → List Token → Option (List Kind)
  | opened, [] => some opened
  | opened, t :: ts =>
      if t.kind.isOpener then openBrackets? (t.kind :: opened) ts
      else if t.kind.isCloser then
        match opened with
        | [] => none
        | opener :: opened =>
            if Kind.matches opener t.kind then openBrackets? opened ts else none
      else openBrackets? opened ts

section Open

variable {t : Token} {ts : List Token} {opened : List Kind}

theorem openBrackets?_opener (h : t.kind.isOpener = true) :
    openBrackets? opened (t :: ts) = openBrackets? (t.kind :: opened) ts := by
  rw [openBrackets?.eq_def]
  exact if_pos h

theorem openBrackets?_closer {kind : Kind} (h : Kind.matches kind t.kind = true) :
    openBrackets? (kind :: opened) (t :: ts) = openBrackets? opened ts := by
  obtain ⟨-, hnot, hcloser⟩ := isOpener_of_matches h
  rw [openBrackets?.eq_def]
  simp [hnot, hcloser, h]

theorem openBrackets?_plain (h : ¬ t.kind.isOpener) (hcloser : ¬ t.kind.isCloser) :
    openBrackets? opened (t :: ts) = openBrackets? opened ts := by
  rw [openBrackets?.eq_def]
  simp [h, hcloser]

/-- Nested tokens leave the same brackets open. -/
theorem openBrackets?_nested (h : Nested ts) (opened : List Kind) (rest : List Token) :
    openBrackets? opened (ts ++ rest) = openBrackets? opened rest := by
  induction h generalizing opened rest with
  | nil => rfl
  | plain hopener hcloser _ _ ih => rw [List.cons_append, openBrackets?_plain hopener hcloser, ih]
  | group hmatches _ _ ihinside ihts =>
      obtain ⟨hopener, -, -⟩ := isOpener_of_matches hmatches
      rw [List.cons_append, openBrackets?_opener hopener, List.append_assoc, ihinside,
        List.cons_append, openBrackets?_closer hmatches, ihts]

end Open

/-! ## Brackets in pairs -/

/-- From some tokens to those further on, every bracket on the way is one of a pair of its own kind
and pairs do not cross, apart from the pieces that are left unread. -/
inductive Bracketed (Unread : List Token → List Token → Prop) : List Token → List Token → Prop
  | refl (ts) : Bracketed Unread ts ts
  | plain {t ts us} : ¬ t.kind.isOpener → ¬ t.kind.isCloser → Bracketed Unread ts us →
      Bracketed Unread (t :: ts) us
  | pair {opener closer ts us vs} : Kind.matches opener.kind closer.kind →
      Bracketed Unread ts (closer :: us) → Bracketed Unread us vs → Bracketed Unread (opener :: ts) vs
  | unread {ts us vs} : Unread ts us → Bracketed Unread us vs → Bracketed Unread ts vs

/-- The same from behind an opening bracket, whose closing one is on the way. -/
def BracketedIn (Unread : List Token → List Token → Prop) :
    Option Kind → List Token → List Token → Prop
  | none, ts, vs => Bracketed Unread ts vs
  | some opener, ts, vs => ∃ closer us, Kind.matches opener closer.kind = true ∧
      Bracketed Unread ts (closer :: us) ∧ Bracketed Unread us vs

section Bracketed

variable {Unread Unread' : List Token → List Token → Prop} {opener? : Option Kind}
  {ts us vs : List Token}

theorem Bracketed.trans (h : Bracketed Unread ts us) (g : Bracketed Unread us vs) :
    Bracketed Unread ts vs := by
  induction h with
  | refl => exact g
  | plain hopener hcloser _ ih => exact .plain hopener hcloser (ih g)
  | pair hmatches hinside _ _ ih => exact .pair hmatches hinside (ih g)
  | unread hpiece _ ih => exact .unread hpiece (ih g)

theorem Bracketed.trans_in (h : Bracketed Unread ts us) (g : BracketedIn Unread opener? us vs) :
    BracketedIn Unread opener? ts vs := by
  cases opener? with
  | none => exact h.trans g
  | some opener =>
      obtain ⟨closer, rest, hmatches, hinside, hrest⟩ := g
      exact ⟨closer, rest, hmatches, h.trans hinside, hrest⟩

theorem BracketedIn.trans (h : BracketedIn Unread opener? ts us) (g : Bracketed Unread us vs) :
    BracketedIn Unread opener? ts vs := by
  cases opener? with
  | none => exact Bracketed.trans h g
  | some opener =>
      obtain ⟨closer, rest, hmatches, hinside, hrest⟩ := h
      exact ⟨closer, rest, hmatches, hinside, hrest.trans g⟩

theorem Bracketed.mono (h : Bracketed Unread ts us) (hmono : ∀ ts us, Unread ts us → Unread' ts us) :
    Bracketed Unread' ts us := by
  induction h with
  | refl ts => exact .refl ts
  | plain hopener hcloser _ ih => exact .plain hopener hcloser ih
  | pair hmatches _ _ ihinside ihrest => exact .pair hmatches ihinside ihrest
  | unread hpiece _ ih => exact .unread (hmono _ _ hpiece) ih

theorem BracketedIn.mono (h : BracketedIn Unread opener? ts us)
    (hmono : ∀ ts us, Unread ts us → Unread' ts us) : BracketedIn Unread' opener? ts us := by
  cases opener? with
  | none => exact Bracketed.mono h hmono
  | some opener =>
      obtain ⟨closer, rest, hmatches, hinside, hrest⟩ := h
      exact ⟨closer, rest, hmatches, hinside.mono hmono, hrest.mono hmono⟩

/-- Where nothing is left unread, the brackets nest. -/
theorem Bracketed.nested (h : Bracketed (fun _ _ => False) ts us) :
    ∃ passed, ts = passed ++ us ∧ ∀ kinds, openBrackets? kinds ts = openBrackets? kinds us := by
  induction h with
  | refl ts => exact ⟨[], rfl, fun _ => rfl⟩
  | @plain t _ _ hopener hcloser _ ih =>
      obtain ⟨passed, rfl, hopen⟩ := ih
      exact ⟨t :: passed, rfl, fun kinds => by rw [openBrackets?_plain hopener hcloser, hopen]⟩
  | @pair opener closer _ _ _ hmatches _ _ ihinside ihrest =>
      obtain ⟨inside, rfl, hinside⟩ := ihinside
      obtain ⟨passed, rfl, hopen⟩ := ihrest
      obtain ⟨hopener, -, -⟩ := isOpener_of_matches hmatches
      refine ⟨opener :: (inside ++ closer :: passed), by simp, fun kinds => ?_⟩
      rw [openBrackets?_opener hopener, hinside, openBrackets?_closer hmatches, hopen]
  | unread hpiece _ _ => exact hpiece.elim

end Bracketed

/-! ## What is left unread -/

/-- The pieces inside an expression that are left unread: type arguments, and what the events report
as a lambda or as the body of a class. -/
inductive UnreadInside (events : List Event) : List Token → List Token → Prop
  | typeArguments {ts n} : typeArgumentsLength? ts = some n → UnreadInside events ts (ts.drop n)
  | lambda {c d : Cursor} {inside : List Event} :
      .unsupported c.here.toSpan "lambda expression" ∈ events →
      Reading.lambda c = (inside, .ok ((), d)) → UnreadInside events c.tokens d.tokens
  | classBody {t ts n} :
      .unsupported t.toSpan "anonymous class body" ∈ events → groupLength? (t :: ts) = some n →
      UnreadInside events (t :: ts) ((t :: ts).drop n)

/-- The pieces of a source that are left unread: those inside expressions, annotations, and what the
events report as a statement or declaration that is skipped. -/
inductive Unread (events : List Event) : List Token → List Token → Prop
  | inside {ts us} : UnreadInside events ts us → Unread events ts us
  | annotated {t ts} : t.kind = .atSign →
      Unread events (t :: ts) ((t :: ts).drop (modifierLength (t :: ts)))
  | statement {c d : Cursor} {construct : String} {inside : List Event} :
      .unsupported c.here.toSpan construct ∈ events →
      Reading.skipStatement c = (inside, .ok ((), d)) → Unread events c.tokens d.tokens
  | annotationType {c d : Cursor} {construct : String} {inside : List Event} :
      .unsupported c.here.toSpan construct ∈ events → c.here.kind = .atSign →
      Reading.skipStatement c.advance = (inside, .ok ((), d)) → Unread events c.tokens d.tokens
  | directive {c d : Cursor} {construct : String} {inside : List Event} :
      .unsupported c.here.toSpan construct ∈ events →
      Reading.skipToSemicolon c = (inside, .ok ((), d)) → Unread events c.tokens d.tokens

section Unread

variable {events more : List Event} {ts us : List Token}

theorem UnreadInside.mono (h : UnreadInside events ts us) (hmore : events ⊆ more) :
    UnreadInside more ts us := by
  cases h with
  | typeArguments hlength => exact .typeArguments hlength
  | lambda hreported hrun => exact .lambda (hmore hreported) hrun
  | classBody hreported hlength => exact .classBody (hmore hreported) hlength

theorem Unread.mono (h : Unread events ts us) (hmore : events ⊆ more) : Unread more ts us := by
  cases h with
  | inside h => exact .inside (h.mono hmore)
  | annotated hat => exact .annotated hat
  | statement hreported hrun => exact .statement (hmore hreported) hrun
  | annotationType hreported hat hrun => exact .annotationType (hmore hreported) hat hrun
  | directive hreported hrun => exact .directive (hmore hreported) hrun

end Unread

/-- Type arguments may be left unread. -/
class LeavesTypeArguments (Piece : List Token → List Token → Prop) : Prop where
  leaves {ts : List Token} {n : Nat} : typeArgumentsLength? ts = some n → Piece ts (ts.drop n)

instance (events : List Event) : LeavesTypeArguments (UnreadInside events) := ⟨.typeArguments⟩

instance (events : List Event) : LeavesTypeArguments (Unread events) :=
  ⟨fun h => .inside (.typeArguments h)⟩

/-- Annotations may be left unread. -/
class LeavesAnnotations (Piece : List Token → List Token → Prop) : Prop where
  leaves {t : Token} {ts : List Token} : t.kind = .atSign →
    Piece (t :: ts) ((t :: ts).drop (modifierLength (t :: ts)))

instance (events : List Event) : LeavesAnnotations (Unread events) := ⟨.annotated⟩

/-! ## Types -/

section Types

variable {Piece : List Token → List Token → Prop} {ts us : List Token} {n : Nat}

theorem bracketed_dimensions (ts : List Token) :
    Bracketed Piece ts (ts.drop (dimensionsLength ts)) := by
  fun_induction dimensionsLength ts with
  | case1 l r ts h ih =>
      simp only [Bool.and_eq_true, decide_eq_true_eq] at h
      exact .pair (by rw [h.1, h.2]; rfl) (.refl _) ih
  | case2 => exact .refl _
  | case3 => exact .refl _

theorem not_bracket_of_kind {t : Token} {kind : Kind} (h : t.kind = kind)
    (hopener : kind.isOpener = false) (hcloser : kind.isCloser = false) :
    ¬ t.kind.isOpener ∧ ¬ t.kind.isCloser := by
  rw [h, hopener, hcloser]
  simp

theorem Bracketed.plain_of_kind {Unread : List Token → List Token → Prop} {t : Token} {kind : Kind}
    (h : t.kind = kind) (hopener : kind.isOpener = false) (hcloser : kind.isCloser = false)
    (hrest : Bracketed Unread ts us) : Bracketed Unread (t :: ts) us := by
  obtain ⟨hnot, hnot'⟩ := not_bracket_of_kind h hopener hcloser
  exact .plain hnot hnot' hrest

variable [LeavesTypeArguments Piece]

theorem bracketed_typeArguments (h : typeArgumentsLength? ts = some n) :
    Bracketed Piece ts (ts.drop n) :=
  .unread (LeavesTypeArguments.leaves h) (.refl _)

theorem bracketed_optionalArguments (h : optionalArgumentsLength? ts = some n) :
    Bracketed Piece ts (ts.drop n) := by
  cases ts with
  | nil => simpa using Bracketed.refl _
  | cons t ts =>
      rw [optionalArgumentsLength?] at h
      split at h
      · exact bracketed_typeArguments h
      · obtain rfl : 0 = n := by simpa using h
        exact .refl _

theorem bracketed_qualified {skip : Nat} (h : qualifiedLength? skip ts = some n)
    (hskip : skip ≤ ts.length) : Bracketed Piece (ts.drop skip) (ts.drop n) := by
  induction ts generalizing skip n with
  | nil => simpa using Bracketed.refl _
  | cons t ts ih =>
      cases skip with
      | succ skip =>
          obtain ⟨m, hm, rfl⟩ := Option.map_eq_some_iff.mp h
          exact ih hm (by simpa using hskip)
      | zero =>
          rw [qualifiedLength?] at h
          obtain ⟨m, hm, h⟩ := Option.bind_eq_some_iff.mp h
          have harguments := @bracketed_optionalArguments Piece _ _ _ hm
          split at h
          · next hmore =>
              obtain ⟨k, hk, rfl⟩ := Option.map_eq_some_iff.mp h
              have hlength := le_of_continuesQualified hmore
              obtain ⟨dot, name, rest, hdrop, hdot, hname⟩ := exists_of_continuesQualified hmore
              rw [hdrop] at harguments
              have hrest : rest = ts.drop (m + 1) := by
                have := congrArg (List.drop 2) hdrop
                simpa [List.drop_drop] using this.symm
              refine harguments.trans ?_
              refine .plain_of_kind hdot (by decide) (by decide)
                (.plain_of_kind (kind_of_isName hname) (by decide) (by decide) ?_)
              rw [hrest]
              exact ih hk (by simp at hlength ⊢; omega)
          · obtain rfl : m = n := by simpa using h
            exact harguments

theorem bracketed_typeName (h : typeNameLength? ts = some n) :
    Bracketed Piece ts (ts.drop n) := by
  cases ts with
  | nil => simpa using Bracketed.refl _
  | cons t ts =>
      rw [typeNameLength?] at h
      split at h
      · next hopens =>
          obtain ⟨k, hk, rfl⟩ := Option.map_eq_some_iff.mp h
          exact .plain_of_kind (kind_of_opensType hopens) (by decide) (by decide)
            (bracketed_qualified hk (Nat.zero_le _))
      · cases h

theorem bracketed_type (h : typeLength? ts = some n) :
    Bracketed Piece ts (ts.drop n) := by
  obtain ⟨m, hm, rfl⟩ := Option.map_eq_some_iff.mp h
  have hdimensions := @bracketed_dimensions Piece (ts.drop m)
  rw [List.drop_drop] at hdimensions
  exact (bracketed_typeName hm).trans hdimensions

theorem bracketed_cast (h : castLength? ts = some n) :
    Bracketed Piece ts (ts.drop n) := by
  obtain ⟨paren, type, rest, m, close, operand, more, rfl, hparen, hm, hdrop, hclose, -, rfl⟩ :=
    castLength?_eq_some.mp h
  have htype := @bracketed_type Piece _ _ _ hm
  rw [hdrop] at htype
  have hbehind : (paren :: type :: rest).drop (m + 2) = operand :: more := by
    have := congrArg (List.drop 1) hdrop
    simpa [List.drop_drop] using this
  rw [hbehind]
  exact .pair (by rw [hparen, hclose]; rfl) htype (.refl _)

omit [LeavesTypeArguments Piece] in
theorem bracketed_modifier [LeavesAnnotations Piece] {t : Token} (h : modifierLength (t :: ts) = n)
    (hn : n ≠ 0) : Bracketed Piece (t :: ts) ((t :: ts).drop n) := by
  by_cases hat : t.kind = .atSign
  · exact h ▸ .unread (LeavesAnnotations.leaves hat) (.refl _)
  · have hword : t.isWordIn modifierWords = true := by
      by_contra hnot
      rw [modifierLength, if_neg hnot, if_neg (by simp [hat])] at h
      exact hn h.symm
    have hone : n = 1 := by
      rw [modifierLength, if_pos hword] at h
      split at h <;> omega
    rw [hone]
    have hkind : t.kind = .word := by
      simp only [isWordIn, isAnyWord, Bool.and_eq_true, decide_eq_true_eq] at hword
      exact hword.1
    exact .plain_of_kind hkind (by decide) (by decide) (.refl _)

omit [LeavesTypeArguments Piece] in
theorem bracketed_modifiersFrom [LeavesAnnotations Piece] (skip : Nat) (ts : List Token) :
    Bracketed Piece (ts.drop skip)
      (ts.drop (skip + (modifierLengthsFrom skip ts).sum)) := by
  induction ts generalizing skip with
  | nil => simpa using Bracketed.refl _
  | cons t ts ih =>
      cases skip with
      | succ skip =>
          rw [show skip + 1 + (modifierLengthsFrom (skip + 1) (t :: ts)).sum =
            skip + (modifierLengthsFrom skip ts).sum + 1 by rw [modifierLengthsFrom]; omega]
          exact ih skip
      | zero =>
          rw [modifierLengthsFrom]
          split
          · exact .refl _
          · next n hlength =>
              rw [List.sum_cons, show 0 + (n + 1 + (modifierLengthsFrom n ts).sum) =
                n + (modifierLengthsFrom n ts).sum + 1 by omega]
              exact (bracketed_modifier hlength (by simp)).trans (ih n)

omit [LeavesTypeArguments Piece] in
theorem bracketed_modifiers [LeavesAnnotations Piece] (ts : List Token) :
    Bracketed Piece ts (ts.drop (modifierLengths ts).sum) := by
  simpa [modifierLengths] using @bracketed_modifiersFrom Piece _ 0 ts

end Types

/-! ## No end of input on the way -/

theorem not_isEnd_of_typeKinds {t : Token} (h : t.kind ∈ typeKinds) : ¬ t.isEnd := by
  intro hend
  rw [isEnd, decide_eq_true_eq] at hend
  rw [hend] at h
  revert h
  decide

theorem not_isEnd_of_groupFrom {depth n : Nat} {ts : List Token}
    (h : groupLengthFrom? depth ts = some n) : ∀ t ∈ ts.take n, ¬ t.isEnd := by
  induction ts generalizing depth n with
  | nil => cases h
  | cons t ts ih =>
      have hnext {depth n : Nat} (ht : ¬ t.isEnd)
          (h : (groupLengthFrom? depth ts).map (· + 1) = some n) :
          ∀ u ∈ (t :: ts).take n, ¬ u.isEnd := by
        obtain ⟨m, hm, rfl⟩ := Option.map_eq_some_iff.mp h
        simp only [List.take_succ_cons, List.mem_cons, forall_eq_or_imp]
        exact ⟨ht, ih hm⟩
      have hbracket (hkind : t.kind.isOpener = true ∨ t.kind.isCloser = true) : ¬ t.isEnd := by
        intro hend
        rw [isEnd, decide_eq_true_eq] at hend
        simp [hend, Kind.isOpener, Kind.isCloser] at hkind
      rw [groupLengthFrom?.eq_def] at h
      simp only at h
      split at h
      · exact hnext (hbracket (.inl ‹_›)) h
      · split at h
        · have ht := hbracket (.inr ‹_›)
          split at h
          · cases h
          · obtain rfl : 1 = n := by simpa using h
            simpa using ht
          · exact hnext ht h
        · split at h
          · cases h
          · exact hnext ‹_› h

theorem not_isEnd_of_take_append {ts : List Token} {m n : Nat} (h : ∀ t ∈ ts.take m, ¬ t.isEnd)
    (g : ∀ t ∈ (ts.drop m).take n, ¬ t.isEnd) : ∀ t ∈ ts.take (m + n), ¬ t.isEnd := by
  intro t ht
  rw [List.take_add] at ht
  exact (List.mem_append.mp ht).elim (h t) (g t)

theorem not_isEnd_of_cast {ts : List Token} {n : Nat} (h : castLength? ts = some n) :
    ∀ t ∈ ts.take n, ¬ t.isEnd := by
  obtain ⟨paren, type, rest, m, close, operand, more, rfl, hparen, hm, hdrop, hclose, -, rfl⟩ :=
    castLength?_eq_some.mp h
  have htype : ∀ t ∈ (type :: rest).take m, ¬ t.isEnd := fun t ht =>
    not_isEnd_of_typeKinds (typeKinds_of_type hm t ht)
  have hcloses : ∀ t ∈ ((type :: rest).drop m).take 1, ¬ t.isEnd := by
    simp [hdrop, isEnd, hclose]
  intro t ht
  rw [List.take_succ_cons, List.mem_cons] at ht
  rcases ht with rfl | ht
  · simp [isEnd, hparen]
  · exact not_isEnd_of_take_append htype hcloses t ht

theorem not_isEnd_of_dottedWords (ts : List Token) :
    ∀ t ∈ ts.take (dottedWordsLength ts), ¬ t.isEnd := by
  have hkind {t : Token} {kind : Kind} (h : t.kind = kind) (hne : kind ≠ .endOfInput) :
      ¬ t.isEnd := by simp [isEnd, h, hne]
  fun_induction dottedWordsLength ts with
  | case1 => simp
  | case2 t hword dot ts hdot ih =>
      simp only [List.take_succ_cons, List.mem_cons, forall_eq_or_imp]
      exact ⟨hkind (by simpa [isAnyWord] using hword) (by decide), hkind hdot (by decide), ih⟩
  | case3 t hword dot ts hdot =>
      simp [hkind (by simpa [isAnyWord] using hword) (by decide)]
  | case4 t hword => simpa using hkind (by simpa [isAnyWord] using hword) (by decide)
  | case5 => simp

theorem not_isEnd_of_annotationRest (ts : List Token) :
    ∀ t ∈ ts.take (annotationRestLength ts), ¬ t.isEnd := by
  rw [annotationRestLength]
  split
  · exact not_isEnd_of_dottedWords ts
  · next u us hdrop =>
      split
      · refine not_isEnd_of_take_append (not_isEnd_of_dottedWords ts) ?_
        rw [hdrop]
        cases hgroup : groupLength? (u :: us) with
        | none => simp
        | some n => exact not_isEnd_of_groupFrom hgroup
      · exact not_isEnd_of_dottedWords ts

theorem not_isEnd_of_modifier (ts : List Token) :
    ∀ t ∈ ts.take (modifierLength ts), ¬ t.isEnd := by
  rcases ts with _ | ⟨t, ts⟩
  · simp
  rw [modifierLength]
  split
  · next hword =>
      have ht : ¬ t.isEnd := by
        simp only [isWordIn, isAnyWord, Bool.and_eq_true, decide_eq_true_eq] at hword
        simp [isEnd, hword.1]
      split <;> simp [ht]
  · split
    · next hat =>
        have ht : ¬ t.isEnd := by
          simp only [Bool.and_eq_true, decide_eq_true_eq] at hat
          simp [isEnd, hat.1]
        simp only [List.take_succ_cons, List.mem_cons, forall_eq_or_imp]
        exact ⟨ht, not_isEnd_of_annotationRest ts⟩
    · simp

theorem not_isEnd_of_modifiersFrom (skip : Nat) (ts : List Token) :
    ∀ t ∈ (ts.drop skip).take (modifierLengthsFrom skip ts).sum, ¬ t.isEnd := by
  induction ts generalizing skip with
  | nil => simp
  | cons t ts ih =>
      cases skip with
      | succ skip => exact ih skip
      | zero =>
          rw [modifierLengthsFrom]
          split
          · simp
          · next n hlength =>
              rw [List.drop_zero, List.sum_cons]
              refine not_isEnd_of_take_append ?_ (ih n)
              have hfirst := not_isEnd_of_modifier (t :: ts)
              rwa [hlength] at hfirst

theorem not_isEnd_of_modifiers (ts : List Token) :
    ∀ t ∈ ts.take (modifierLengths ts).sum, ¬ t.isEnd := not_isEnd_of_modifiersFrom 0 ts

end Token

/-- Steps that do not reach the end of input take as many tokens away. -/
theorem Cursor.tokens_forward {source : Text} {c : Cursor} {n : Nat}
    (hc : Token.Laid source c.tokens) (h : ∀ t ∈ c.tokens.take n, ¬ t.isEnd) :
    (c.forward n).tokens = c.tokens.drop n := by
  induction n generalizing c with
  | zero => rfl
  | succ n ih =>
      obtain ⟨before, here, ahead, comments⟩ := c
      have hhere : ¬ here.isEnd := h here List.mem_cons_self
      have hrest := hc.tail hhere
      cases ahead with
      | nil => exact absurd rfl hrest.ne_nil
      | cons t ts => exact ih hrest fun u hu => h u (List.mem_cons_of_mem _ hu)

theorem Cursor.spans_forward {source : Text} {c : Cursor} {n : Nat}
    (hc : Token.Laid source c.tokens) (h : ∀ t ∈ c.tokens.take n, ¬ t.isEnd) :
    c.Spans (c.tokens.take n) (c.forward n) := by
  obtain ⟨passed, hspans⟩ := Cursor.reaches_forward n c
  have htokens := hspans.1
  rw [Cursor.tokens_forward hc h] at htokens
  rwa [List.append_cancel_right ((List.take_append_drop n c.tokens).trans htokens)]

theorem Cursor.tokens_advance {source : Text} {c : Cursor} (hc : Token.Laid source c.tokens)
    (hend : ¬ c.here.isEnd) : c.tokens = c.here :: c.advance.tokens := by
  obtain ⟨before, here, ahead, comments⟩ := c
  cases ahead with
  | nil => exact absurd rfl (hc.tail hend).ne_nil
  | cons t ts => rfl

namespace Cursor.Sited

variable {source : Text} {c d : Cursor}

theorem reaching (hc : c.Sited source) (h : c.Reaches d) : d.Sited source := (h.sited hc).1

theorem advance (hc : c.Sited source) : c.advance.Sited source := hc.reaching (reaches_advance c)

theorem forward (hc : c.Sited source) (n : Nat) : (c.forward n).Sited source :=
  hc.reaching (reaches_forward n c)

end Cursor.Sited

namespace Reading

/-! ## Readings that pair brackets -/

/-- Which pieces are left unread, given the events that are reported. -/
abbrev Unreading := List Event → List Token → List Token → Prop

/-- More events leave no less unread. -/
class Widening (U : Unreading) : Prop where
  mono {events more : List Event} {ts us : List Token} : U events ts us → events ⊆ more → U more ts us

instance : Widening Token.UnreadInside := ⟨Token.UnreadInside.mono⟩

instance : Widening Token.Unread := ⟨Token.Unread.mono⟩

variable {α β : Type} {source : Text} {U : Unreading} {opener? : Option Token.Kind}

/-- The tokens that a run from the cursor steps over are bracketed; with an opening bracket given, its
closing one is among them. -/
def BracketsAt (U : Unreading) (opener? : Option Token.Kind) (r : Reading α) (c : Cursor) : Prop :=
  ∀ events a d, r c = (events, .ok (a, d)) →
    c.Reaches d ∧ Token.BracketedIn (U events) opener? c.tokens d.tokens

def Brackets (source : Text) (U : Unreading) (opener? : Option Token.Kind) (r : Reading α) : Prop :=
  ∀ c : Cursor, c.Sited source → r.BracketsAt U opener? c

namespace BracketsAt

variable {r : Reading α} {f : α → Reading β} {c : Cursor}

theorem of_error {events : List Event} {e : SourceError} (h : r c = (events, .error e)) :
    r.BracketsAt U opener? c := by
  intro more a d hrun
  rw [h] at hrun
  cases hrun

theorem fail (fault : Fault) : (Reading.fail fault : Reading α).BracketsAt U opener? c :=
  of_error (e := ⟨c.here.line, fault⟩) rfl

theorem refuse (expected : Expectation) :
    (Reading.refuse expected : Reading α).BracketsAt U opener? c :=
  of_error (e := ⟨c.here.line, .expected expected c.here.found⟩) rfl

theorem pure (a : α) : (Pure.pure a : Reading α).BracketsAt U none c := by
  intro events b d hrun
  obtain ⟨-, hrun⟩ := Prod.mk.injEq .. |>.mp hrun
  obtain ⟨-, rfl⟩ := by simpa using hrun
  exact ⟨.refl c, .refl _⟩

/-- A step to a cursor that depends on nothing but the one before it. -/
theorem of_step {step : Cursor → Cursor} {value : Cursor → α}
    (hr : r c = ([], .ok (value c, step c))) (hreaches : c.Reaches (step c))
    (h : Token.Bracketed (U []) c.tokens (step c).tokens) : r.BracketsAt U none c := by
  intro events a d hrun
  rw [hr] at hrun
  obtain ⟨rfl, hrun⟩ := Prod.mk.injEq .. |>.mp hrun
  obtain ⟨-, rfl⟩ := by simpa using hrun
  exact ⟨hreaches, h⟩

theorem here_bind {f : Token → Reading β} (h : (f c.here).BracketsAt U opener? c) :
    (Reading.here >>= f).BracketsAt U opener? c := h

theorem before_bind {f : Token → Reading β} (h : (f c.before).BracketsAt U opener? c) :
    (Reading.before >>= f).BracketsAt U opener? c := h

theorem cursor_bind {f : Cursor → Reading β} (h : (f c).BracketsAt U opener? c) :
    (Reading.cursor >>= f).BracketsAt U opener? c := h

theorem ite {p : Prop} [Decidable p] {s : Reading α} (hr : p → r.BracketsAt U opener? c)
    (hs : ¬ p → s.BracketsAt U opener? c) : (if p then r else s).BracketsAt U opener? c := by
  split
  · exact hr ‹_›
  · exact hs ‹_›

/-- A piece that the events report, left unread from the cursor on. -/
theorem reported_bind {e : Event} {f : Unit → Reading Unit}
    (h : ∀ events d, f () c = (events, .ok ((), d)) →
      c.Reaches d ∧ U (e :: events) c.tokens d.tokens) :
    (Reading.emit e >>= f).BracketsAt U none c := by
  rintro events ⟨⟩ d hrun
  obtain ⟨first, a, c', more, hr, hmore, rfl⟩ := exists_of_bind_ok hrun
  obtain ⟨rfl, hr⟩ := Prod.mk.injEq .. |>.mp hr
  obtain ⟨-, rfl⟩ := by simpa using hr
  obtain ⟨hreaches, hpiece⟩ := h more d hmore
  exact ⟨hreaches, .unread hpiece (.refl _)⟩

/-- A step over a token that is not a bracket. -/
theorem take {kind : Token.Kind} (hkind : c.here.kind = kind) (hopener : kind.isOpener = false)
    (hcloser : kind.isCloser = false) : Reading.take.BracketsAt U none c := by
  refine @of_step _ _ _ _ Cursor.advance Cursor.here rfl (Cursor.reaches_advance c) ?_
  obtain ⟨before, here, ahead, comments⟩ := c
  cases ahead with
  | nil => exact .refl _
  | cons t ts => exact .plain_of_kind hkind hopener hcloser (.refl _)

/-- From an opening bracket on, if what follows goes on behind its closing one. -/
theorem open_bind {f : Token → Reading β} (hc : c.Sited source)
    (hopener : c.here.kind.isOpener = true)
    (hf : (f c.here).BracketsAt U (some c.here.kind) c.advance) :
    (Reading.take >>= f).BracketsAt U none c := by
  intro events b d hrun
  have hrest := hf events b d hrun
  have hend : ¬ c.here.isEnd := by
    intro hend
    rw [Token.isEnd, decide_eq_true_eq] at hend
    rw [hend] at hopener
    cases hopener
  obtain ⟨before, here, ahead, comments⟩ := c
  cases ahead with
  | nil => exact absurd rfl (hc.laid.tail hend).ne_nil
  | cons t ts =>
      obtain ⟨hreaches, closer, us, hmatches, hinside, hbehind⟩ := hrest
      exact ⟨(Cursor.reaches_advance _).trans hreaches, .pair hmatches hinside hbehind⟩

/-- The closing bracket that is waited for. -/
theorem close_bind {f : Token → Reading β} {opener : Token.Kind} (hc : c.Sited source)
    (hmatches : Token.Kind.matches opener c.here.kind = true)
    (hf : (f c.here).BracketsAt U none c.advance) :
    (Reading.take >>= f).BracketsAt U (some opener) c := by
  intro events b d hrun
  obtain ⟨hreaches, hrest⟩ := hf events b d hrun
  obtain ⟨-, -, hcloser⟩ := Token.isOpener_of_matches hmatches
  have hend : ¬ c.here.isEnd := by
    intro hend
    rw [Token.isEnd, decide_eq_true_eq] at hend
    rw [hend] at hcloser
    cases hcloser
  obtain ⟨before, here, ahead, comments⟩ := c
  cases ahead with
  | nil => exact absurd rfl (hc.laid.tail hend).ne_nil
  | cons t ts => exact ⟨(Cursor.reaches_advance _).trans hreaches, here, t :: ts, hmatches, .refl _, hrest⟩

variable [hU : Widening U]

theorem bind (h : r.BracketsAt U none c)
    (hf : ∀ events a d, r c = (events, .ok (a, d)) → c.Reaches d → (f a).BracketsAt U opener? d) :
    (r >>= f).BracketsAt U opener? c := by
  intro events b e hrun
  obtain ⟨first, a, d, more, hr, hmore, rfl⟩ := exists_of_bind_ok hrun
  obtain ⟨hreaches, hfirst⟩ := h first a d hr
  obtain ⟨hreaches', hrest⟩ := hf first a d hr hreaches more b e hmore
  refine ⟨hreaches.trans hreaches', ?_⟩
  have hwide : Token.Bracketed (U (first ++ more)) c.tokens d.tokens :=
    Token.Bracketed.mono hfirst fun _ _ hpiece => hU.mono hpiece (List.subset_append_left _ _)
  exact hwide.trans_in (hrest.mono fun _ _ hpiece => hU.mono hpiece (List.subset_append_right _ _))

/-- What follows the closing bracket. -/
theorem bind_in (h : r.BracketsAt U opener? c)
    (hf : ∀ events a d, r c = (events, .ok (a, d)) → c.Reaches d → (f a).BracketsAt U none d) :
    (r >>= f).BracketsAt U opener? c := by
  intro events b e hrun
  obtain ⟨first, a, d, more, hr, hmore, rfl⟩ := exists_of_bind_ok hrun
  obtain ⟨hreaches, hfirst⟩ := h first a d hr
  obtain ⟨hreaches', hrest⟩ := hf first a d hr hreaches more b e hmore
  have hwide : Token.BracketedIn (U (first ++ more)) opener? c.tokens d.tokens :=
    hfirst.mono fun _ _ hpiece => hU.mono hpiece (List.subset_append_left _ _)
  refine ⟨hreaches.trans hreaches', hwide.trans ?_⟩
  exact Token.Bracketed.mono hrest fun _ _ hpiece => hU.mono hpiece (List.subset_append_right _ _)

theorem emit_bind {e : Event} {f : Unit → Reading β} (h : (f ()).BracketsAt U opener? c) :
    (Reading.emit e >>= f).BracketsAt U opener? c := by
  intro events b d hrun
  obtain ⟨first, a, c', more, hr, hmore, rfl⟩ := exists_of_bind_ok hrun
  obtain ⟨rfl, hr⟩ := Prod.mk.injEq .. |>.mp hr
  obtain ⟨-, rfl⟩ := by simpa using hr
  obtain ⟨hreaches, hrest⟩ := h more b d hmore
  exact ⟨hreaches, hrest.mono fun _ _ hpiece => hU.mono hpiece (List.subset_append_right _ _)⟩

theorem emit {e : Event} : (Reading.emit e).BracketsAt U none c := emit_bind (f := Pure.pure) (pure ())

theorem take_bind {f : Token → Reading β} {kind : Token.Kind} (hkind : c.here.kind = kind)
    (hopener : kind.isOpener = false) (hcloser : kind.isCloser = false)
    (hf : (f c.here).BracketsAt U opener? c.advance) :
    (Reading.take >>= f).BracketsAt U opener? c := by
  refine (take hkind hopener hcloser).bind fun events t d hrun _ => ?_
  obtain ⟨-, hrun⟩ := Prod.mk.injEq .. |>.mp hrun
  obtain ⟨rfl, rfl⟩ := by simpa using hrun
  exact hf

theorem forward_bind {f : Unit → Reading β} {n : Nat}
    (h : Token.Bracketed (U []) c.tokens (c.forward n).tokens)
    (hf : (f ()).BracketsAt U opener? (c.forward n)) :
    (Reading.forward n >>= f).BracketsAt U opener? c := by
  have hforward : (Reading.forward n).BracketsAt U none c :=
    @of_step _ _ _ _ (Cursor.forward n) (fun _ => ()) rfl (Cursor.reaches_forward n c) h
  refine hforward.bind fun events u d hrun _ => ?_
  obtain ⟨-, hrun⟩ := Prod.mk.injEq .. |>.mp hrun
  obtain ⟨-, rfl⟩ := by simpa using hrun
  exact hf

theorem forward {n : Nat} (h : Token.Bracketed (U []) c.tokens (c.forward n).tokens) :
    (Reading.forward n).BracketsAt U none c := forward_bind (f := Pure.pure) h (pure ())

end BracketsAt

/-! ## Rules -/

theorem kind_of_isWord {t : Token} {word : Text} (h : t.isWord word = true) : t.kind = .word := by
  simp only [Token.isWord, Bool.and_eq_true, decide_eq_true_eq] at h
  exact h.1

theorem kind_of_isOperator {t : Token} {operator : Text} (h : t.isOperator operator = true) :
    t.kind = .operator := by
  simp only [Token.isOperator, Bool.and_eq_true, decide_eq_true_eq] at h
  exact h.1

theorem kind_of_isOperatorIn {t : Token} {operators : List Text}
    (h : t.isOperatorIn operators = true) : t.kind = .operator := by
  simp only [Token.isOperatorIn, Bool.and_eq_true, decide_eq_true_eq] at h
  exact h.1

theorem kind_of_isAt {c : Cursor} {kind : Token.Kind} (h : c.isAt kind = true) :
    c.here.kind = kind := by simpa [Cursor.isAt] using h

theorem exists_of_expect {c d : Cursor} {kind : Token.Kind} {symbol : String} {t : Token}
    {events : List Event} (hrun : expect kind symbol c = (events, .ok (t, d))) :
    c.here.kind = kind ∧ t = c.here ∧ d = c.advance := by
  change (if c.isAt kind = true then take else refuse (.symbol symbol) : Reading Token) c = _ at hrun
  split at hrun
  · next hat =>
      cases hrun
      exact ⟨kind_of_isAt hat, rfl, rfl⟩
  · cases hrun

namespace Brackets

theorem bind [Widening U] {r : Reading α} {f : α → Reading β} (h : r.Brackets source U none)
    (hf : ∀ a, (f a).Brackets source U opener?) : (r >>= f).Brackets source U opener? :=
  fun c hc => (h c hc).bind fun _ a d _ hreaches => hf a d (hc.reaching hreaches)

theorem pure (a : α) : (Pure.pure a : Reading α).Brackets source U none := fun _ _ => .pure a

theorem expect {kind : Token.Kind} {symbol : String} (hopener : kind.isOpener = false)
    (hcloser : kind.isCloser = false) : (Reading.expect kind symbol).Brackets source U none :=
  fun _ _ => .cursor_bind (.ite (fun hat => .take (kind_of_isAt hat) hopener hcloser)
    fun _ => .refuse _)

theorem expectOperator {operator : String} :
    (Reading.expectOperator operator).Brackets source U none :=
  fun _ _ => .cursor_bind (.ite (fun hat => .take (kind_of_isOperator hat) rfl rfl)
    fun _ => .refuse _)

theorem expectName : Reading.expectName.Brackets source U none :=
  fun _ _ => .here_bind (.ite (fun hat => .take (Token.kind_of_isName hat) rfl rfl)
    fun _ => .refuse _)

theorem expect_open {kind : Token.Kind} {symbol : String} {f : Token → Reading β}
    (hopener : kind.isOpener = true) (hf : ∀ t, (f t).Brackets source U (some kind)) :
    (Reading.expect kind symbol >>= f).Brackets source U none := by
  intro c hc
  change ((if c.isAt kind = true then Reading.take else Reading.refuse (.symbol symbol)) >>=
    f).BracketsAt U none c
  split
  · next hat =>
      have hkind := kind_of_isAt hat
      refine .open_bind hc (hkind ▸ hopener) ?_
      rw [hkind]
      exact hf _ _ hc.advance
  · exact .of_error (e := ⟨c.here.line, .expected (.symbol symbol) c.here.found⟩) rfl

theorem expect_close {opener kind : Token.Kind} {symbol : String} {f : Token → Reading β}
    (hmatches : Token.Kind.matches opener kind = true) (hf : ∀ t, (f t).Brackets source U none) :
    (Reading.expect kind symbol >>= f).Brackets source U (some opener) := by
  intro c hc
  change ((if c.isAt kind = true then Reading.take else Reading.refuse (.symbol symbol)) >>=
    f).BracketsAt U (some opener) c
  split
  · next hat =>
      refine .close_bind hc (kind_of_isAt hat ▸ hmatches) ?_
      exact hf _ _ hc.advance
  · exact .of_error (e := ⟨c.here.line, .expected (.symbol symbol) c.here.found⟩) rfl

theorem comma [Widening U] : Reading.comma.Brackets source U none :=
  fun _ _ => .cursor_bind (.ite
    (fun hat => .take_bind (kind_of_isAt hat) rfl rfl (.pure _)) fun _ => .pure _)

theorem rounds [Widening U] {body : Reading Bool} (h : body.Brackets source U none) :
    (repeatWhile body).Brackets source U none := by
  have hloop (budget : List Token) : (loop body budget).Brackets source U none := by
    induction budget with
    | nil => exact h.bind fun _ => pure ()
    | cons t budget ih => exact h.bind fun _ c hc => .ite (fun _ => ih c hc) fun _ => .pure ()
  exact fun c => hloop c.ahead c

theorem mono {V : Unreading} {r : Reading α} (h : r.Brackets source U opener?)
    (hUV : ∀ events ts us, U events ts us → V events ts us) : r.Brackets source V opener? :=
  fun c hc events a d hrun =>
    have ⟨hreaches, hbrackets⟩ := h c hc events a d hrun
    ⟨hreaches, hbrackets.mono (hUV events)⟩

end Brackets

/-! ## Types -/

theorem bracketed_forward {c : Cursor} {n : Nat} (hc : c.Sited source)
    (hend : ∀ t ∈ c.tokens.take n, ¬ t.isEnd) {Piece : List Token → List Token → Prop}
    (h : Token.Bracketed Piece c.tokens (c.tokens.drop n)) :
    Token.Bracketed Piece c.tokens (c.forward n).tokens := by
  rwa [Cursor.tokens_forward hc.laid hend]

theorem bracketed_forward_type {c : Cursor} {n : Nat} (hc : c.Sited source)
    (h : Token.typeLength? c.tokens = some n) {Piece : List Token → List Token → Prop}
    [Token.LeavesTypeArguments Piece] : Token.Bracketed Piece c.tokens (c.forward n).tokens :=
  bracketed_forward hc (fun t ht => Token.not_isEnd_of_typeKinds (Token.typeKinds_of_type h t ht))
    (Token.bracketed_type h)

theorem brackets_unreportedType [Widening U] [Token.LeavesTypeArguments (U [])] :
    unreportedType.Brackets source U none := by
  refine fun _ hc => .cursor_bind ?_
  cases htype : Token.typeLength? _ with
  | none => exact .refuse _
  | some n => exact .forward (bracketed_forward_type hc htype)

theorem brackets_typeName [Widening U] [Token.LeavesTypeArguments (U [])] :
    typeName.Brackets source U none := by
  refine fun _ hc => .cursor_bind ?_
  cases htype : Token.typeLength? _ with
  | none => exact .refuse _
  | some n =>
      exact .here_bind (.forward_bind (bracketed_forward_type hc htype) (.before_bind .emit))

theorem brackets_modifiers [Widening U] [Token.LeavesAnnotations (U [])] :
    modifiers.Brackets source U none :=
  fun _ hc => .cursor_bind (.forward_bind (bracketed_forward hc (Token.not_isEnd_of_modifiers _)
    (Token.bracketed_modifiers _)) (.pure _))

end Reading

end CodeFrames
