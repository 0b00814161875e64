import CodeFrames.Proofs.Sides
import Mathlib.Algebra.Ring.Int.Defs

/-!
# Showing a text with the subtype operator

The subtype operator takes the place of type tests and of nothing else: words, literals with quotes and
comments stay what they are, and a text without tests is shown as it is.  Where a statement is split into
two sides is not changed either, so that the sides can be cut out before or after.
-/

namespace CodeFrames

open Text

namespace Token

/-! ## The tokens that stay -/

/-- A blank between tokens. -/
def isGap (p : Token) : Bool := p.kind = .comment && p.text.head?.any isBlank

/-- A text in pieces is split into the pieces that are no blanks. -/
theorem Pieced.exists_tokens {ps : List Token} (h : Pieced [] ps) (p : Position) :
    ∃ ts, tokensFrom 0 p (spelled ps) = .ok ts ∧
      ts.map bare = ps.filter (fun q => !q.isGap) ++ [symbol .endOfInput []] := by
  induction h generalizing p with
  | nil => exact ⟨_, rfl, rfl⟩
  | @blank c ps hblank _ ih =>
      obtain ⟨ts, hts, hbare⟩ := ih (p.afterBlank c)
      have hgap : (symbol .comment [c]).isGap = true := by simp [isGap, symbol, hblank]
      refine ⟨ts, (tokensFrom_blank (lexeme_of_isBlank hblank _)).trans hts, ?_⟩
      rw [hbare, List.filter_cons, hgap]
      rfl
  | @token kind c t ps hlexeme _ ih =>
      obtain ⟨ts, hts, hbare⟩ := ih (p.afterToken kind (c :: t))
      rw [List.append_nil] at hlexeme
      have htake : (c :: (t ++ spelled ps)).take (t.length + 1) = c :: t := by simp
      have hgap : (symbol kind (c :: t)).isGap = false := by
        by_cases hkind : kind = .comment
        · subst hkind
          obtain ⟨rfl, -⟩ := lexeme_comment hlexeme
          rfl
        · simp [isGap, symbol, hkind]
      refine ⟨ofText kind (c :: t) p :: ts, ?_, ?_⟩
      · change tokensFrom 0 p (c :: (t ++ spelled ps)) = _
        rw [tokensFrom_token hlexeme, htake, Nat.add_sub_cancel, tokensFrom_length, hts]
        rfl
      · rw [List.map_cons, hbare, List.filter_cons, hgap]
        rfl

/-- What stays of the tokens is what stays of the pieces, blanks apart. -/
theorem Pieced.verbatim_tokens {ps ts : List Token} (h : Pieced [] ps) (hts : CodeFrames.lex (spelled ps) = .ok ts) :
    (verbatim ts).map bare = (verbatim ps).filter (fun q => !q.isGap) ∧
      (verbatim (untested ts)).map bare = (verbatim (untested ps)).filter (fun q => !q.isGap) := by
  obtain ⟨us, hus, hbare⟩ := h.exists_tokens ⟨1, 0⟩
  obtain rfl : us = ts := Except.ok.inj (hus.symm.trans hts)
  have hverbatim (us : List Token) : (verbatim us).map bare = verbatim (us.map bare) := by
    rw [verbatim, verbatim, List.filter_map]
    rfl
  have huntested (us : List Token) : (untested us).map bare = untested (us.map bare) := by
    rw [untested, untested, List.filter_map]
    rfl
  have hend : verbatim [symbol .endOfInput []] = [] := rfl
  have hend' : verbatim (untested [symbol .endOfInput []]) = [] := rfl
  constructor
  · rw [hverbatim, hbare, verbatim, List.filter_append, ← verbatim, ← verbatim, hend, List.append_nil]
    exact List.filter_comm _ _ _
  · rw [hverbatim, huntested, hbare, untested, List.filter_append, verbatim, List.filter_append, ← verbatim,
      ← verbatim, ← untested, ← untested, hend', List.append_nil]
    simp only [verbatim, untested, List.filter_filter]
    refine List.filter_congr fun q _ => ?_
    cases q.isVerbatim <;> cases q.isTest <;> cases q.isGap <;> rfl

theorem Shown.not_isTest {ps qs : List Token} (h : Shown ps qs) : ∀ q ∈ qs, ¬ q.isTest = true := by
  intro q hq htest
  have hkept : q ∈ verbatim qs := List.mem_filter.mpr ⟨hq, by simp [isVerbatim, (isTest_symbol htest).1]⟩
  rw [h.verbatim_eq] at hkept
  simpa [htest] using (List.mem_filter.mp (List.mem_filter.mp hkept).1).2

end Token

open Token

theorem withSubtypeOperator_of_error {text : Text} {e : SourceError} (h : lex text = .error e) :
    withSubtypeOperator text = text := by
  rw [withSubtypeOperator, h]

theorem withSubtypeOperator_of_not_isTest {qs : List Token} (h : Pieced [] qs)
    (hqs : ∀ q ∈ qs, ¬ q.isTest = true) : withSubtypeOperator (spelled qs) = spelled qs := by
  rw [h.withSubtypeOperator, List.flatMap_congr fun q hq => shown_of_not_test (hqs q hq),
    List.flatMap_singleton']

/-- The text that is shown for one that can be split into tokens can be split itself.  It has no type test,
and its words, literals with quotes and comments are those of the text without the type tests.  A second
time nothing changes, whether or not a text can be split. -/
theorem withSubtypeOperator_verbatim :
    (∀ text tokens, lex text = .ok tokens → ∃ others, lex (withSubtypeOperator text) = .ok others ∧
      (∀ t ∈ others, t.isTest = false) ∧
      (verbatim others).map bare = (verbatim (untested tokens)).map bare) ∧
    ∀ text, withSubtypeOperator (withSubtypeOperator text) = withSubtypeOperator text := by
  constructor
  · intro text tokens hlex
    obtain ⟨ps, hps, rfl, -⟩ := exists_placed_of_lex hlex
    obtain ⟨qs, hqs⟩ := exists_shown hps
    obtain ⟨others, hothers, -⟩ := hqs.pieced.lex
    obtain ⟨hverbatim, -⟩ := hqs.pieced.verbatim_tokens hothers
    obtain ⟨-, huntested⟩ := hps.verbatim_tokens hlex
    refine ⟨others, by rw [hps.withSubtypeOperator, ← hqs.spelled_eq, hothers], fun t ht => ?_, ?_⟩
    · refine Bool.eq_false_iff.mpr fun htest => ?_
      have hkept : t.bare ∈ (verbatim others).map bare :=
        List.mem_map_of_mem (List.mem_filter.mpr ⟨ht, by simp [isVerbatim, (isTest_symbol htest).1]⟩)
      rw [hverbatim] at hkept
      exact hqs.not_isTest t.bare (List.mem_filter.mp (List.mem_filter.mp hkept).1).1 htest
    · rw [hverbatim, huntested, hqs.verbatim_eq]
  · intro text
    cases hlex : lex text with
    | error e => rw [withSubtypeOperator_of_error hlex, withSubtypeOperator_of_error hlex]
    | ok tokens =>
        obtain ⟨ps, hps, rfl, -⟩ := exists_placed_of_lex hlex
        obtain ⟨qs, hqs⟩ := exists_shown hps
        rw [hps.withSubtypeOperator, ← hqs.spelled_eq]
        exact withSubtypeOperator_of_not_isTest hqs.pieced hqs.not_isTest

/-- The number takes the dot in, and the rest is as it was. -/
theorem withSubtypeOperator_verbatim_number : ∃ tokens others,
    lex "1.instanceof /* T */ T".toList = .ok tokens ∧ lex "1.<: /* T */ T".toList = .ok others ∧
      (verbatim others).map bare = (verbatim (untested tokens)).map bare := by
  obtain ⟨tokens, hlex⟩ : ∃ tokens, lex "1.instanceof /* T */ T".toList = .ok tokens :=
    Except.exists_of_isOk (by decide +kernel)
  have hshown : withSubtypeOperator "1.instanceof /* T */ T".toList = "1.<: /* T */ T".toList := by
    decide +kernel
  obtain ⟨others, hothers, -, hverbatim⟩ := withSubtypeOperator_verbatim.1 _ _ hlex
  rw [hshown] at hothers
  exact ⟨tokens, others, hlex, hothers, hverbatim⟩

/-! ## The sides of an assignment -/

namespace Token

theorem outline_append (ps qs : List Token) : outline (ps ++ qs) = outline ps ++ outline qs :=
  List.filter_append ps qs

/-- How the tokens change the number of open brackets. -/
def totalNesting (ps : List Token) : Int := (ps.map nesting).sum

theorem totalNesting_cons (p : Token) (ps : List Token) :
    totalNesting (p :: ps) = p.nesting + totalNesting ps := by
  simp [totalNesting]

theorem totalNesting_outline (ps : List Token) : totalNesting (outline ps) = totalNesting ps := by
  induction ps with
  | nil => rfl
  | cons p ps ih =>
      by_cases hp : p.isOutline = true
      · rw [show outline (p :: ps) = p :: outline ps by simp [outline, hp], totalNesting_cons, ih,
          totalNesting_cons]
      · have hp : p.isOutline = false := Bool.eq_false_iff.mpr hp
        rw [outline_cons_skip hp, ih, totalNesting_cons]
        simp only [isOutline, Bool.or_eq_false_iff] at hp
        simp [nesting, hp]

/-- A text is split at a sign when no sign in front of it is outside all brackets and it is itself. -/
theorem sides_append {sign : Token} (hsign : sign.isOperator ['='] = true) (depth : Int)
    (ps qs : List Token) :
    sides depth (ps ++ sign :: qs) = some (ps, qs) ↔
      sides depth ps = none ∧ depth + totalNesting ps = 0 := by
  induction ps generalizing depth with
  | nil =>
      have hfirst : sides depth (sign :: qs) =
          if depth = 0 then some ([], qs)
          else (sides (depth + sign.nesting) qs).map fun x => (sign :: x.1, x.2) := by
        simp [sides, hsign]
      have hnone : sides depth [] = none := rfl
      rw [List.nil_append, hfirst, hnone]
      by_cases hdepth : depth = 0 <;> simp [hdepth, totalNesting]
  | cons p ps ih =>
      rw [List.cons_append, sides, sides, totalNesting_cons, ← Int.add_assoc]
      split
      · simp
      · rw [Option.map_eq_none_iff, ← ih]
        simp

/-- What a text with two sides is shown as is split at the same sign, into what its sides are shown as. -/
theorem exists_shown_sides {ps left right : List Token} (h : Pieced [] ps)
    (hsides : sides 0 ps = some (left, right)) :
    ∃ qs ls rs, Shown ps qs ∧ sides 0 qs = some (ls, rs) ∧ spelled ls = spelled (left.flatMap shown) ∧
      spelled rs = spelled (right.flatMap shown) := by
  obtain ⟨sign, hsign, rfl⟩ := sides_eq hsides
  obtain ⟨hnone, hdepth⟩ := (sides_append hsign 0 left right).mp hsides
  have hoperator : sign.kind = .operator ∧ sign.text = ['='] := by
    simpa only [isOperator, Bool.and_eq_true, decide_eq_true_eq] using hsign
  have hbehind : Pieced [] (sign :: right) := h.right
  obtain ⟨rs, hrs⟩ := exists_shown (@Pieced.right [] [sign] right hbehind)
  have hsigned : Shown (sign :: right) (sign :: rs) := by
    cases hbehind with
    | blank => simp [symbol] at hoperator
    | token hlexeme hright =>
        rw [List.append_nil] at hlexeme
        obtain ⟨hkind, htext⟩ := hoperator
        refine hrs.other hright hlexeme (by simp [isTest, isWord, hkind]) (fun hless => ?_) fun hnumber => ?_
        · exact absurd (hless.symm.trans htext) (by decide)
        · exact absurd (hnumber.symm.trans hkind) (by decide)
  obtain ⟨⟨ls, hls⟩, -⟩ := exists_shown_append hsigned (by simp [hsign]) h
  have hspelled : spelled ls = spelled (left.flatMap shown) := by
    have heq := hls.spelled_eq
    rwa [spelled_append, hsigned.spelled_eq, List.flatMap_append, spelled_append,
      List.append_left_inj] at heq
  have houtline : outline ls = outline left := by
    have heq := hls.outline_eq
    rwa [outline_append, hsigned.outline_eq, outline_append, List.append_left_inj] at heq
  refine ⟨_, ls, rs, hls, (sides_append hsign 0 ls rs).mpr ⟨?_, ?_⟩, hspelled, hrs.spelled_eq⟩
  · rw [← Option.not_isSome_iff_eq_none, ← sides_outline, houtline, sides_outline, hnone]
    simp
  · rw [← totalNesting_outline, houtline, totalNesting_outline, hdepth]

end Token

/-! ## Trimming -/

namespace Text

theorem isTight_trim (t : Text) : (trim t).IsTight := by
  constructor
  · intro c hc
    have hhead := List.head?_dropWhile_not isBlank t
    have hprefix : trim t <+: trimStart t := by
      rw [trim, trimEnd, ← List.reverse_suffix, List.reverse_reverse]
      exact List.dropWhile_suffix isBlank
    obtain ⟨u, hu⟩ := hprefix
    obtain ⟨v, hv⟩ := List.head?_eq_some_iff.mp hc
    rw [← trimStart, ← hu, hv] at hhead
    simpa using hhead
  · intro c hc
    have hhead := List.head?_dropWhile_not isBlank (trimStart t).reverse
    rw [trim, trimEnd, List.getLast?_reverse] at hc
    rw [← trimStart, Option.mem_def.mp hc] at hhead
    simpa using hhead

/-- Blanks around a tight text are all that is trimmed. -/
theorem trim_between {before t behind : Text} (h : t.IsTight) (hbefore : ∀ c ∈ before, isBlank c = true)
    (hbehind : ∀ c ∈ behind, isBlank c = true) : trim (before ++ t ++ behind) = t := by
  have hskip {b : Text} (hb : ∀ c ∈ b, isBlank c = true) (u : Text) : trimStart (b ++ u) = trimStart u := by
    rw [trimStart, trimStart, List.dropWhile_append_of_pos hb]
  have hend {u : Text} (hu : u.IsTight) : trimEnd (u ++ behind) = u := by
    rw [trimEnd, List.reverse_append, hskip (by simpa using hbehind), ← trimEnd]
    have := trim_of_tight hu
    rwa [trim, trimStart_eq hu.1] at this
  rw [trim, List.append_assoc, hskip hbefore]
  cases t with
  | nil =>
      rw [List.nil_append, trimStart, List.dropWhile_eq_nil_iff.mpr hbehind]
      rfl
  | cons c t =>
      rw [trimStart_eq (by simpa using h.1), hend h]

end Text

namespace Token

/-- What a tight text is shown as is tight. -/
theorem Pieced.isTight_shown {ps : List Token} (h : Pieced [] ps) (htight : (spelled ps).IsTight) :
    (spelled (ps.flatMap shown)).IsTight := by
  have hless : isBlank '<' = false := by decide
  have hcolon : isBlank ':' = false := by decide
  constructor
  · intro c hc
    cases ps with
    | nil => cases hc
    | cons p ps =>
        rw [List.flatMap_cons, spelled_append] at hc
        by_cases htest : p.isTest = true
        · rw [(spelled_shown_test htest).1] at hc
          obtain rfl : '<' = c := by simpa using hc
          simp [hless]
        · obtain ⟨d, t, htext⟩ := List.exists_cons_of_ne_nil (h.text_ne_nil p List.mem_cons_self)
          rw [shown_of_not_test htest] at hc
          refine htight.1 c ?_
          simpa [htext] using hc
  · intro c hc
    rcases List.eq_nil_or_concat ps with rfl | ⟨init, p, rfl⟩
    · cases hc
    · rw [List.concat_eq_append, List.flatMap_append, List.flatMap_singleton, spelled_append] at hc
      by_cases htest : p.isTest = true
      · rw [(spelled_shown_test htest).1] at hc
        obtain rfl : ':' = c := by simpa using hc
        simp [hcolon]
      · have hne := h.text_ne_nil p (by simp)
        rw [shown_of_not_test htest, spelled_cons, spelled_nil, List.append_nil, List.getLast?_append,
          List.getLast?_eq_some_getLast hne] at hc
        refine htight.2 c ?_
        rw [List.concat_eq_append, spelled_append, spelled_cons, spelled_nil, List.append_nil,
          List.getLast?_append, List.getLast?_eq_some_getLast hne]
        exact hc

theorem Pieced.shown_eq_nil {ps : List Token} (h : Pieced [] ps) :
    spelled (ps.flatMap shown) = [] ↔ spelled ps = [] := by
  cases ps with
  | nil => simp
  | cons p ps =>
      have hne := h.text_ne_nil p List.mem_cons_self
      by_cases htest : p.isTest = true
      · simp [List.flatMap_cons, (spelled_shown_test htest).1, hne]
      · simp [List.flatMap_cons, shown_of_not_test htest, hne]

/-- Trimming a text and showing it with the subtype operator do not disturb each other. -/
theorem Pieced.trim_shown {ps : List Token} (h : Pieced [] ps) :
    trim (spelled (ps.flatMap shown)) = CodeFrames.withSubtypeOperator (trim (spelled ps)) := by
  obtain ⟨qs, before, behind, hqs, hspelled, -, hbefore, hbehind, hreplaced⟩ := h.exists_trimmed
  have htight : (spelled qs).IsTight := hspelled ▸ isTight_trim (spelled ps)
  rw [hreplaced shown fun p hp => shown_of_kind (by simp [hp]),
    trim_between (hqs.isTight_shown htight) hbefore hbehind, ← hspelled, hqs.withSubtypeOperator]

end Token

/-- Whether and where a text is split into two sides is the same before and after it is shown with the
subtype operator, and so are the sides. -/
theorem assignmentSides?_withSubtypeOperator (text : Text) :
    assignmentSides? (withSubtypeOperator text) =
      (assignmentSides? text).map fun x => (withSubtypeOperator x.1, withSubtypeOperator x.2) := by
  cases hlex : lex text with
  | error e => simp [withSubtypeOperator_of_error hlex, assignmentSides?, hlex]
  | ok tokens =>
      obtain ⟨ps, hps, rfl, -⟩ := exists_placed_of_lex hlex
      rw [hps.withSubtypeOperator, hps.assignmentSides?_eq]
      cases hsides : sides 0 ps with
      | none =>
          obtain ⟨qs, hqs⟩ := exists_shown hps
          have hnone : sides 0 qs = none := by
            rw [← Option.not_isSome_iff_eq_none, ← sides_outline, hqs.outline_eq, sides_outline, hsides]
            simp
          rw [← hqs.spelled_eq, hqs.pieced.assignmentSides?_eq, hnone]
          rfl
      | some x =>
          obtain ⟨left, right⟩ := x
          obtain ⟨qs, ls, rs, hqs, hqsides, hls, hrs⟩ := exists_shown_sides hps hsides
          obtain ⟨hleft, hright⟩ := hps.pieced_sides hsides
          rw [← hqs.spelled_eq, hqs.pieced.assignmentSides?_eq, hqsides, Option.bind_some, Option.bind_some, hls,
            hrs, hleft.trim_shown, hright.trim_shown]
          have hempty : (withSubtypeOperator (trim (spelled left))).isEmpty = (trim (spelled left)).isEmpty := by
            obtain ⟨us, hus, hspelled, -⟩ := hleft.trimmed
            rw [← hspelled, hus.withSubtypeOperator, Bool.eq_iff_iff, List.isEmpty_iff, List.isEmpty_iff,
              hus.shown_eq_nil]
          rw [hempty]
          cases (trim (spelled left)).isEmpty <;> rfl

end CodeFrames
