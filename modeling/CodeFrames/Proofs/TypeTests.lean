import CodeFrames.Proofs.Pieces

/-!
# Type tests among the pieces of a text

A frame shows a text with the subtype operator in place of each type test.  The operator can run into
the token in front of it or behind it where the word did not: a less sign becomes a shift, a number
takes a dot in, a colon is doubled.  Apart from these places the pieces stay as they are, and nowhere
do brackets or assignment operators come or go.
-/

namespace CodeFrames

open Text

namespace Token

def isTest (t : Token) : Bool := t.isWord "instanceof".toList

/-- The tokens that a token is shown as. -/
def shown (t : Token) : List Token :=
  if t.isTest then [symbol .operator ['<'], symbol .operator [':']] else [t]

theorem shown_of_not_test {t : Token} (h : ¬ t.isTest = true) : shown t = [t] := if_neg h

theorem shown_of_kind {t : Token} (h : t.kind ≠ .word) : shown t = [t] :=
  shown_of_not_test (by simp [isTest, isWord, h])

theorem spelled_shown_test {t : Token} (h : t.isTest = true) :
    spelled (shown t) = ['<', ':'] ∧ t.text = "instanceof".toList := by
  refine ⟨by rw [shown, if_pos h]; rfl, ?_⟩
  simp only [isTest, isWord, Bool.and_eq_true, decide_eq_true_eq] at h
  exact h.2

/-- A type test touches a token that the subtype operator in its place runs into.  (The places of
symbols are all the same, so that symbols next to each other touch.) -/
inductive Glued : List Token → Prop
  | behindLess {t test : Token} {ts : List Token} : t.isOperator ['<'] = true → t.stop = test.start →
      test.isTest = true → Glued (t :: test :: ts)
  | behindNumber {number dot test : Token} {ts : List Token} : number.kind = .number →
      number.stop = dot.start → dot.kind = .dot → dot.stop = test.start → test.isTest = true →
      Glued (number :: dot :: test :: ts)
  | beforeColon {test t : Token} {ts : List Token} : test.isTest = true → test.stop = t.start →
      t.isOperatorIn [[':'], [':', ':']] = true → Glued (test :: t :: ts)
  | later {t : Token} {ts : List Token} : Glued ts → Glued (t :: ts)

theorem Glued.append {ts : List Token} (h : Glued ts) (us : List Token) : Glued (ts ++ us) := by
  induction h with
  | behindLess ht hplace htest => exact .behindLess ht hplace htest
  | behindNumber hn hplace hd hplace' htest => exact .behindNumber hn hplace hd hplace' htest
  | beforeColon htest hplace ht => exact .beforeColon htest hplace ht
  | later _ ih => exact .later ih

theorem Glued.behind {ts : List Token} (h : Glued ts) (us : List Token) : Glued (us ++ ts) := by
  induction us with
  | nil => exact h
  | cons u us ih => exact .later ih

/-- Type tests that are glued among the pieces are glued in the text. -/
theorem Placed.glued {n : Nat} {ps ts : List Token} (h : Placed n ps ts) (hps : Glued ps) : Glued ts := by
  have hnext {n : Nat} {p : Token} {ps ts : List Token} (hp : p.kind ≠ .comment)
      (h : Placed n (p :: ps) ts) : ∃ t us, ts = t :: us ∧ t.bare = p ∧ t.start = n ∧
        Placed t.stop ps us := by
    cases h with
    | blank => exact absurd rfl hp
    | token _ hstart _ h => exact ⟨_, _, rfl, rfl, hstart, h⟩
  have htestKind {p : Token} (hp : p.isTest = true) : p.kind ≠ .comment := by
    simp only [isTest, isWord, Bool.and_eq_true, decide_eq_true_eq] at hp
    simp [hp.1]
  have hoperatorKind {p : Token} {ops : List Text} (hp : p.isOperatorIn ops = true) :
      p.kind ≠ .comment := by
    simp only [isOperatorIn, Bool.and_eq_true, decide_eq_true_eq] at hp
    simp [hp.1]
  induction hps generalizing n ts with
  | behindLess ht _ htest =>
      obtain ⟨t, ts, rfl, rfl, -, h⟩ := hnext (by
        simp only [isOperator, Bool.and_eq_true, decide_eq_true_eq] at ht
        simp [ht.1]) h
      obtain ⟨u, ts, rfl, rfl, hplace, -⟩ := hnext (htestKind htest) h
      exact .behindLess ht hplace.symm htest
  | behindNumber hn _ hd _ htest =>
      obtain ⟨t, ts, rfl, rfl, -, h⟩ := hnext (by simp [hn]) h
      obtain ⟨d, ts, rfl, rfl, hplace, h⟩ := hnext (by simp [hd]) h
      obtain ⟨u, ts, rfl, rfl, hplace', -⟩ := hnext (htestKind htest) h
      exact .behindNumber hn hplace.symm hd hplace'.symm htest
  | beforeColon htest _ ht =>
      obtain ⟨u, ts, rfl, rfl, -, h⟩ := hnext (htestKind htest) h
      obtain ⟨t, ts, rfl, rfl, hplace, -⟩ := hnext (hoperatorKind ht) h
      exact .beforeColon htest hplace.symm ht
  | later _ ih =>
      cases h with
      | blank _ h => exact ih h
      | token _ _ _ h => exact .later (ih h)

/-! ## The text that is shown -/

theorem isTest_bare (t : Token) : t.bare.isTest = t.isTest := rfl

theorem Placed.replaceWords {n : Nat} {ps ts : List Token} (h : Placed n ps ts) {source before mid : Text}
    (hsource : source = before ++ mid ++ spelled ps) (hn : n = byteSize (before ++ mid)) :
    ExpressionText.replaceWords source (byteSize before) (ts.filter isTest) =
      mid ++ spelled (ps.flatMap shown) := by
  induction h generalizing before mid with
  | @nil n t ht hstart hstop =>
      have htest : t.isTest = false := by rw [← isTest_bare, ht]; rfl
      rw [List.filter_cons, if_neg (by simp [htest]), List.filter_nil, ExpressionText.replaceWords,
        hsource, List.append_assoc, dropBytes?_append]
      simp
  | @blank n c ps ts hblank _ ih =>
      rw [@ih before (mid ++ [c]) (by simp [hsource, symbol]) (by simp [hn, Nat.add_assoc])]
      simp [shown, isTest, isWord, symbol]
  | @token n t ps ts hend hstart hstop _ ih =>
      by_cases htest : t.isTest = true
      · have hslice : Text.slice? source (byteSize before) t.start = some mid := by
          rw [hstart, hn, byteSize_append, hsource, List.append_assoc, slice?_append]
        have hrest := @ih (before ++ mid ++ t.text) [] (by simp [hsource]) (by simp [hstop, hn, Nat.add_assoc])
        have hplace : t.stop = byteSize (before ++ mid ++ t.text) := by
          simp [hstop, hn, Nat.add_assoc]
        rw [List.filter_cons, if_pos htest, ExpressionText.replaceWords, hslice, hplace, hrest,
          List.flatMap_cons, spelled_append, (spelled_shown_test (t := t.bare) htest).1]
        simp [ExpressionText.subtypeOperator]
      · rw [List.filter_cons, if_neg htest, @ih before (mid ++ t.text) (by simp [hsource])
          (by simp [hstop, hn, Nat.add_assoc]), List.flatMap_cons, shown_of_not_test (t := t.bare) htest]
        simp

theorem Pieced.withSubtypeOperator {ps : List Token} (h : Pieced [] ps) :
    withSubtypeOperator (spelled ps) = spelled (ps.flatMap shown) := by
  obtain ⟨ts, hts, hplaced⟩ := h.lex
  rw [CodeFrames.withSubtypeOperator, hts]
  exact @Placed.replaceWords 0 ps ts hplaced (spelled ps) [] [] rfl rfl

/-- Either nothing changes, or a less sign is the first change. -/
theorem spelled_shown (ps : List Token) :
    spelled (ps.flatMap shown) = spelled ps ∨ ∃ passed test rest v w, ps = passed ++ test :: rest ∧
      test.isTest = true ∧ spelled ps = spelled passed ++ 'i' :: v ∧
      spelled (ps.flatMap shown) = spelled passed ++ '<' :: w := by
  induction ps with
  | nil => exact .inl rfl
  | cons p ps ih =>
      by_cases hp : p.isTest = true
      · obtain ⟨hshown, htext⟩ := spelled_shown_test hp
        refine .inr ⟨[], p, ps, "nstanceof".toList ++ spelled ps, ':' :: spelled (ps.flatMap shown), rfl, hp,
          ?_, ?_⟩
        · rw [spelled_cons, htext]
          rfl
        · rw [List.flatMap_cons, spelled_append, hshown]
          rfl
      · rw [List.flatMap_cons, shown_of_not_test hp]
        obtain hsame | ⟨passed, test, rest, v, w, rfl, htest, hspelled, hless⟩ := ih
        · exact .inl (by simp [hsame])
        · exact .inr ⟨p :: passed, test, rest, v, w, rfl, htest, by simp [hspelled],
            by rw [spelled_append, hless]; simp⟩

/-! ## The pieces of the text that is shown -/

/-- Brackets and assignment operators. -/
def isOutline (t : Token) : Bool := t.kind.isOpener || t.kind.isCloser || t.isOperator ['=']

def outline (ps : List Token) : List Token := ps.filter isOutline

theorem outline_cons_skip {p : Token} (h : p.isOutline = false) (ps : List Token) :
    outline (p :: ps) = outline ps := by
  simp [outline, h]

theorem outline_cons_congr (p : Token) {ps qs : List Token} (h : outline ps = outline qs) :
    outline (p :: ps) = outline (p :: qs) := by
  unfold outline at h ⊢
  rw [List.filter_cons, List.filter_cons, h]

theorem not_isOutline_operator {op : Text} (h : op ≠ ['=']) :
    (symbol .operator op).isOutline = false := by
  simp [isOutline, symbol, Kind.isOpener, Kind.isCloser, isOperator, h]

theorem isTest_symbol {t : Token} (h : t.isTest = true) :
    t.kind = .word ∧ t.isOutline = false := by
  simp only [isTest, isWord, Bool.and_eq_true, decide_eq_true_eq] at h
  simp [h.1, isOutline, Kind.isOpener, Kind.isCloser, isOperator]

/-- Words, literals with quotes and comments. -/
def isVerbatim (t : Token) : Bool := t.kind ∈ [Kind.word, Kind.string, Kind.character, Kind.comment]

def verbatim (ps : List Token) : List Token := ps.filter isVerbatim

def untested (ps : List Token) : List Token := ps.filter fun p => !p.isTest

theorem verbatim_cons_skip {p : Token} (h : p.isVerbatim = false) (ps : List Token) :
    verbatim (p :: ps) = verbatim ps := by
  simp [verbatim, h]

theorem untested_cons_skip {p : Token} (h : p.isTest = true) (ps : List Token) :
    untested (p :: ps) = untested ps := by
  simp [untested, h]

theorem untested_cons {p : Token} (h : ¬ p.isTest = true) (ps : List Token) :
    untested (p :: ps) = p :: untested ps := by
  simp [untested, h]

theorem verbatim_cons_congr (p : Token) {ps qs : List Token} (h : verbatim ps = verbatim qs) :
    verbatim (p :: ps) = verbatim (p :: qs) := by
  unfold verbatim at h ⊢
  rw [List.filter_cons, List.filter_cons, h]

/-- `qs` are the pieces of what the text in pieces `ps` is shown as. -/
structure Shown (ps qs : List Token) : Prop where
  pieced : Pieced [] qs
  spelled_eq : spelled qs = spelled (ps.flatMap shown)
  outline_eq : outline qs = outline ps
  verbatim_eq : verbatim qs = verbatim (untested ps)
  starts : StartsInCode ps → StartsInCode qs
  head_eq : qs.head?.any (·.isOperator ['=']) = ps.head?.any (·.isOperator ['='])
  exact : ¬ Glued ps → qs = ps.flatMap shown

/-- The same behind the colon of a subtype operator. -/
structure ShownBehindColon (ps qs : List Token) : Prop where
  pieced : Pieced [] qs
  spelled_eq : spelled qs = ':' :: spelled (ps.flatMap shown)
  outline_eq : outline qs = outline ps
  verbatim_eq : verbatim qs = verbatim (untested ps)
  exact : ¬ Glued ps → (∀ p ∈ ps.head?, ¬ p.isOperatorIn [[':'], [':', ':']] = true) →
    qs = symbol .operator [':'] :: ps.flatMap shown

/-- A token to which nothing happens. -/
theorem Shown.other {kind : Kind} {c : Char} {t : Text} {ps qs : List Token} (h : Shown ps qs)
    (hps : Pieced [] ps) (hlexeme : lexeme c (t ++ spelled ps) = .ok (.token kind (t.length + 1)))
    (htest : ¬ (symbol kind (c :: t)).isTest = true)
    (hless : c :: t = ['<'] → ∀ p ∈ ps.head?, ¬ p.isTest = true)
    (hnumber : kind = .number → ∀ dot test rest, ps = dot :: test :: rest → dot.kind = .dot →
      ¬ test.isTest = true) :
    Shown (symbol kind (c :: t) :: ps) (symbol kind (c :: t) :: qs) := by
  refine ⟨.token ?_ h.pieced, ?_, outline_cons_congr _ h.outline_eq, ?_, id, rfl, fun hglued => ?_⟩
  · rw [List.append_nil, h.spelled_eq]
    obtain hsame | ⟨passed, test, rest, v, w, rfl, hisTest, hspelled, hshown⟩ := spelled_shown ps
    · rw [hsame, hlexeme]
    · rw [hspelled, ← List.append_assoc] at hlexeme
      rw [hshown, ← List.append_assoc]
      refine lexeme_before_test hlexeme (by simp) (fun halone => ?_) (fun hkind hdrop => ?_) w
      · obtain ⟨rfl, ht⟩ := List.cons.inj halone
        obtain ⟨rfl, hpassed⟩ := List.append_eq_nil_iff.mp ht
        obtain rfl := hps.left.eq_nil hpassed
        exact hless rfl test rfl hisTest
      · rw [Nat.add_sub_cancel, List.drop_left] at hdrop
        obtain ⟨d, rfl, hd⟩ := hps.left.single_dot hdrop
        exact hnumber hkind d test rest rfl hd hisTest
  · rw [spelled_cons, h.spelled_eq, List.flatMap_cons, shown_of_not_test htest]
    rfl
  · rw [untested_cons htest, verbatim_cons_congr _ h.verbatim_eq]
  · rw [h.exact fun hmore => hglued (.later hmore), List.flatMap_cons, shown_of_not_test htest]
    rfl

theorem Shown.blank {c : Char} {ps qs : List Token} (h : Shown ps qs) (hblank : isBlank c = true) :
    Shown (symbol .comment [c] :: ps) (symbol .comment [c] :: qs) := by
  have htest : ¬ (symbol .comment [c]).isTest = true := by simp [isTest, isWord, symbol]
  refine ⟨.blank hblank h.pieced, ?_, outline_cons_congr _ h.outline_eq, ?_, id, rfl, fun hglued => ?_⟩
  · rw [spelled_cons, h.spelled_eq, List.flatMap_cons, shown_of_not_test htest]
    rfl
  · rw [untested_cons htest, verbatim_cons_congr _ h.verbatim_eq]
  · rw [h.exact fun hmore => hglued (.later hmore), List.flatMap_cons, shown_of_not_test htest]
    rfl

theorem ShownBehindColon.test {kind : Kind} {t : Text} {ps qs : List Token}
    (h : ShownBehindColon ps qs) (hps : Pieced [] ps) (htest : (symbol kind t).isTest = true) :
    Shown (symbol kind t :: ps) (symbol .operator ['<'] :: qs) := by
  refine ⟨.token ?_ h.pieced, ?_, ?_, ?_, fun _ => by simp [StartsInCode, symbol], ?_, fun hglued => ?_⟩
  · rw [h.spelled_eq]
    exact lexeme_less _
  · rw [spelled_cons, h.spelled_eq, List.flatMap_cons, spelled_append, (spelled_shown_test htest).1]
    rfl
  · rw [outline_cons_skip (not_isOutline_operator (by decide)), outline_cons_skip (isTest_symbol htest).2,
      h.outline_eq]
  · rw [verbatim_cons_skip rfl, untested_cons_skip htest, h.verbatim_eq]
  · change false = (symbol kind t).isOperator ['=']
    rw [isOperator, (isTest_symbol htest).1]
    rfl
  · rw [List.flatMap_cons, shown, if_pos htest, h.exact (fun hmore => hglued (.later hmore)) ?_]
    · rfl
    · intro p hp hcolon
      obtain ⟨ps, rfl⟩ := List.head?_eq_some_iff.mp hp
      exact hglued (.beforeColon htest (hps.place p List.mem_cons_self).1.symm hcolon)

/-- A less sign and the subtype operator become a shift and a colon. -/
theorem ShownBehindColon.less {kind kind' : Kind} {t : Text} {ps qs : List Token}
    (h : ShownBehindColon ps qs) (htest : (symbol kind' t).isTest = true) (hkind : kind = .operator) :
    Shown (symbol kind ['<'] :: symbol kind' t :: ps) (symbol .operator ['<', '<'] :: qs) := by
  subst hkind
  refine ⟨.token ?_ h.pieced, ?_, ?_, ?_, fun _ => by simp [StartsInCode, symbol], rfl, fun hglued => ?_⟩
  · rw [h.spelled_eq]
    exact lexeme_less_less _
  · rw [spelled_cons, h.spelled_eq, List.flatMap_cons, List.flatMap_cons, spelled_append, spelled_append,
      (spelled_shown_test htest).1]
    rfl
  · rw [outline_cons_skip (not_isOutline_operator (by decide)),
      outline_cons_skip (not_isOutline_operator (by decide)), outline_cons_skip (isTest_symbol htest).2,
      h.outline_eq]
  · rw [verbatim_cons_skip rfl, untested_cons (by simp [isTest, isWord, symbol]), verbatim_cons_skip rfl,
      untested_cons_skip htest, h.verbatim_eq]
  · exact absurd (.behindLess rfl rfl htest) hglued

/-- A number may take in the dot between it and the subtype operator. -/
theorem ShownBehindColon.number {kind : Kind} {c : Char} {t t' : Text} {ps qs : List Token}
    (h : ShownBehindColon ps qs) (hlexeme : lexeme c (t ++ '.' :: t' ++ spelled ps) =
      .ok (.token .number (t.length + 1)))
    (htest : (symbol kind t').isTest = true) :
    Shown (symbol .number (c :: t) :: symbol .dot ['.'] :: symbol kind t' :: ps)
        (symbol .number (c :: t) :: symbol .dot ['.'] :: symbol .operator ['<'] :: qs) ∨
      Shown (symbol .number (c :: t) :: symbol .dot ['.'] :: symbol kind t' :: ps)
        (symbol .number (c :: (t ++ ['.'])) :: symbol .operator ['<'] :: qs) := by
  obtain ⟨hshown, htext⟩ := spelled_shown_test htest
  have htext : t' = "instanceof".toList := htext
  have hverbatim : verbatim qs =
      verbatim (untested (symbol .number (c :: t) :: symbol .dot ['.'] :: symbol kind t' :: ps)) := by
    rw [untested_cons (by simp [isTest, isWord, symbol]), untested_cons (by simp [isTest, isWord, symbol]),
      untested_cons_skip htest, verbatim_cons_skip rfl, verbatim_cons_skip rfl, h.verbatim_eq]
  obtain ⟨size, hnumber, rfl | rfl⟩ := @lexeme_number_before_test c t ("nstanceof".toList ++ spelled ps)
    (by simpa [htext] using hlexeme) (spelled qs)
  · refine .inl ⟨?_, ?_, ?_, ?_, fun _ => by simp [StartsInCode, symbol], rfl,
      fun hglued => absurd (.behindNumber rfl rfl rfl rfl htest) hglued⟩
    · refine .token ?_ (.token ?_ (.token ?_ h.pieced))
      · simpa [symbol] using hnumber
      · rfl
      · rw [h.spelled_eq]
        exact lexeme_less _
    · simp only [List.flatMap_cons, spelled_append, spelled_cons, hshown, h.spelled_eq,
        shown_of_kind (t := symbol .number (c :: t)) (by simp [symbol]),
        shown_of_kind (t := symbol .dot ['.']) (by simp [symbol])]
      simp [symbol]
    · rw [outline_cons_skip rfl, outline_cons_skip rfl, outline_cons_skip rfl, outline_cons_skip rfl,
        outline_cons_skip rfl, outline_cons_skip (isTest_symbol htest).2, h.outline_eq]
    · rw [verbatim_cons_skip rfl, verbatim_cons_skip rfl, verbatim_cons_skip rfl, hverbatim]
  · refine .inr ⟨?_, ?_, ?_, ?_, fun _ => by simp [StartsInCode, symbol], rfl,
      fun hglued => absurd (.behindNumber rfl rfl rfl rfl htest) hglued⟩
    · refine .token ?_ (.token ?_ h.pieced)
      · simpa [symbol] using hnumber
      · rw [h.spelled_eq]
        exact lexeme_less _
    · simp only [List.flatMap_cons, spelled_append, spelled_cons, hshown, h.spelled_eq,
        shown_of_kind (t := symbol .number (c :: t)) (by simp [symbol]),
        shown_of_kind (t := symbol .dot ['.']) (by simp [symbol])]
      simp [symbol]
    · rw [outline_cons_skip rfl, outline_cons_skip rfl, outline_cons_skip rfl, outline_cons_skip rfl,
        outline_cons_skip (isTest_symbol htest).2, h.outline_eq]
    · rw [verbatim_cons_skip rfl, verbatim_cons_skip rfl, hverbatim]

theorem Shown.behindColon {ps qs : List Token} (h : Shown ps qs)
    (hcolon : (spelled (ps.flatMap shown)).head? ≠ some ':') :
    ShownBehindColon ps (symbol .operator [':'] :: qs) := by
  refine ⟨.token ?_ h.pieced, ?_, ?_, ?_, fun hglued _ => ?_⟩
  · rw [List.nil_append, List.append_nil, h.spelled_eq, lexeme_colon, if_neg hcolon]
    rfl
  · rw [spelled_cons, h.spelled_eq]
    rfl
  · rw [outline_cons_skip rfl, h.outline_eq]
  · rw [verbatim_cons_skip rfl, h.verbatim_eq]
  · rw [h.exact hglued]

/-- Two colons become one token. -/
theorem Shown.doubled {ps qs : List Token} (h : Shown ps qs) :
    ShownBehindColon (symbol .operator [':'] :: ps) (symbol .operator [':', ':'] :: qs) := by
  refine ⟨.token ?_ h.pieced, ?_, ?_, ?_, fun _ hcolon => ?_⟩
  · exact lexeme_colon _
  · rw [spelled_cons, h.spelled_eq, List.flatMap_cons, shown_of_kind (by simp [symbol])]
    rfl
  · rw [outline_cons_skip rfl, outline_cons_skip rfl, h.outline_eq]
  · rw [untested_cons (by simp [isTest, isWord, symbol]), verbatim_cons_skip rfl, verbatim_cons_skip rfl,
      h.verbatim_eq]
  · exact absurd rfl (hcolon _ rfl)

/-- A colon in front of a double one leaves a colon over. -/
theorem ShownBehindColon.doubled {ps qs : List Token} (h : ShownBehindColon ps qs) :
    ShownBehindColon (symbol .operator [':', ':'] :: ps) (symbol .operator [':', ':'] :: qs) := by
  refine ⟨.token ?_ h.pieced, ?_, ?_, ?_, fun _ hcolon => ?_⟩
  · exact lexeme_colon _
  · rw [spelled_cons, h.spelled_eq, List.flatMap_cons, shown_of_kind (by simp [symbol])]
    rfl
  · rw [outline_cons_skip rfl, outline_cons_skip rfl, h.outline_eq]
  · rw [untested_cons (by simp [isTest, isWord, symbol]), verbatim_cons_skip rfl, verbatim_cons_skip rfl,
      h.verbatim_eq]
  · exact absurd rfl (hcolon _ rfl)

/-- What is shown for a text goes over into what is shown for a rest that is empty or starts with an
assignment operator. -/
theorem exists_shown_append {rest rs : List Token} (hrest : Shown rest rs)
    (hsign : ∀ p ∈ rest.head?, p.isOperator ['='] = true) {ps : List Token} (h : Pieced [] (ps ++ rest)) :
    (∃ qs, Shown (ps ++ rest) (qs ++ rs)) ∧ ∃ qs, ShownBehindColon (ps ++ rest) (qs ++ rs) := by
  have hinside {t : Token} {ps ts : List Token} (heq : ps ++ rest = t :: ts)
      (ht : t.isOperator ['='] = false) : ∃ us, ps = t :: us ∧ ts = us ++ rest := by
    cases ps with
    | nil =>
        have := hsign t (by simp [show rest = _ from heq])
        simp [ht] at this
    | cons p ps =>
        obtain ⟨rfl, rfl⟩ := List.cons.inj heq
        exact ⟨ps, rfl, rfl⟩
  have hnoSign {t : Token} (ht : t.kind ≠ .operator) : t.isOperator ['='] = false := by
    simp [isOperator, ht]
  have hnoTest {t : Token} (htest : t.isTest = true) : t.isOperator ['='] = false :=
    hnoSign (by simp [(isTest_symbol htest).1])
  induction hn : ps.length using Nat.strong_induction_on generalizing ps with
  | _ n ih =>
      subst hn
      have hshown : ∃ qs, Shown (ps ++ rest) (qs ++ rs) := by
        cases ps with
        | nil => exact ⟨[], hrest⟩
        | cons p ps =>
            cases h with
            | @blank c _ hblank hps =>
                obtain ⟨⟨qs, hqs⟩, -⟩ := ih _ (by simp) hps rfl
                exact ⟨_ :: qs, hqs.blank hblank⟩
            | @token kind c t _ hlexeme hps =>
                rw [List.append_nil] at hlexeme
                obtain ⟨⟨qs, hqs⟩, bs, hbs⟩ := ih _ (by simp) hps rfl
                by_cases htest : (symbol kind (c :: t)).isTest = true
                · exact ⟨_ :: bs, hbs.test hps htest⟩
                by_cases hless : c :: t = ['<'] → ∀ p ∈ (ps ++ rest).head?, ¬ p.isTest = true
                · by_cases hnumber : kind = .number → ∀ dot test more, ps ++ rest = dot :: test :: more →
                      dot.kind = .dot → ¬ test.isTest = true
                  · exact ⟨_ :: qs, hqs.other hps hlexeme htest hless hnumber⟩
                  · push Not at hnumber
                    obtain ⟨rfl, dot, test, more, heq, hdot, htest⟩ := hnumber
                    -- Neither the dot nor the test is the sign that the rest starts with.
                    obtain ⟨ps, rfl, hmore⟩ := hinside heq (hnoSign (by simp [hdot]))
                    obtain ⟨ps, rfl, -⟩ := hinside hmore.symm (hnoTest htest)
                    cases hps with
                    | blank => cases hdot
                    | @token _ d u _ hdotLexeme hps =>
                        obtain rfl : _ = Kind.dot := hdot
                        obtain ⟨rfl, hu⟩ := single_dot_of_lexeme hdotLexeme
                        obtain rfl := List.eq_nil_of_length_eq_zero (Nat.succ.inj hu)
                        cases hps with
                        | blank => simp [isTest, isWord, symbol] at htest
                        | token _ hps =>
                            obtain ⟨-, bs, hbs⟩ := ih _ (by simp only [List.length_cons]; omega) hps rfl
                            rcases hbs.number (by simpa [symbol] using hlexeme) htest with hcs | hcs
                            · exact ⟨_ :: _ :: _ :: bs, hcs⟩
                            · exact ⟨_ :: _ :: bs, hcs⟩
                · push Not at hless
                  obtain ⟨hsingle, p, hp, htestBehind⟩ := hless
                  obtain ⟨rfl, rfl⟩ := List.cons.inj hsingle
                  obtain ⟨more, hmore⟩ := List.head?_eq_some_iff.mp hp
                  obtain ⟨ps, rfl, -⟩ := hinside hmore (hnoTest htestBehind)
                  cases hps with
                  | blank => simp [isTest, isWord, symbol] at htestBehind
                  | token _ hps =>
                      obtain ⟨-, bs, hbs⟩ := ih _ (by simp only [List.length_cons]; omega) hps rfl
                      exact ⟨_ :: bs, hbs.less htestBehind (kind_of_lexeme_operator (by decide) hlexeme)⟩
      refine ⟨hshown, ?_⟩
      by_cases hcolon : (spelled ((ps ++ rest).flatMap shown)).head? = some ':'
      · cases ps with
        | nil =>
            exfalso
            cases rest with
            | nil => cases hcolon
            | cons sign rest =>
                have htext : sign.text = ['='] := by
                  have := hsign sign rfl
                  simp only [isOperator, Bool.and_eq_true, decide_eq_true_eq] at this
                  exact this.2
                have htest : ¬ sign.isTest = true := fun htest => by
                  simpa [hnoTest htest] using hsign sign rfl
                rw [List.nil_append, List.flatMap_cons, shown_of_not_test htest, spelled_append, spelled_cons,
                  htext] at hcolon
                simp at hcolon
        | cons p ps =>
            cases h with
            | @blank c _ hblank hps =>
                obtain rfl : c = ':' := by
                  rw [List.cons_append, List.flatMap_cons, shown_of_kind (by simp [symbol])] at hcolon
                  simpa [symbol] using hcolon
                simp [show isBlank ':' = false by decide] at hblank
            | @token kind c t _ hlexeme hps =>
                by_cases htest : (symbol kind (c :: t)).isTest = true
                · rw [List.cons_append, List.flatMap_cons, spelled_append, (spelled_shown_test htest).1] at hcolon
                  simp at hcolon
                · obtain rfl : c = ':' := by
                    rw [List.cons_append, List.flatMap_cons, shown_of_not_test htest] at hcolon
                    simpa [symbol] using hcolon
                  obtain ⟨⟨qs, hqs⟩, bs, hbs⟩ := ih _ (by simp) hps rfl
                  obtain rfl := kind_of_lexeme_operator (by decide) hlexeme
                  rw [lexeme_colon] at hlexeme
                  rw [List.append_nil] at hlexeme
                  split at hlexeme
                  · next hdouble =>
                      have hsize : t.length = 1 := by simpa using hlexeme.symm
                      obtain ⟨d, rfl⟩ := List.length_eq_one_iff.mp hsize
                      obtain rfl : d = ':' := by simpa using hdouble
                      exact ⟨_ :: bs, hbs.doubled⟩
                  · have hsize : t.length = 0 := by simpa using hlexeme.symm
                    obtain rfl := List.eq_nil_of_length_eq_zero hsize
                    exact ⟨_ :: qs, hqs.doubled⟩
      · obtain ⟨qs, hqs⟩ := hshown
        exact ⟨_ :: qs, hqs.behindColon hcolon⟩

theorem shown_nil : Shown [] [] := ⟨.nil, rfl, rfl, rfl, id, rfl, fun _ => rfl⟩

/-- The text that is shown for a text in pieces is in pieces itself. -/
theorem exists_shown {ps : List Token} (h : Pieced [] ps) : ∃ qs, Shown ps qs := by
  obtain ⟨⟨qs, hqs⟩, -⟩ := exists_shown_append shown_nil (by simp) (by rwa [List.append_nil])
  rw [List.append_nil, List.append_nil] at hqs
  exact ⟨qs, hqs⟩

end Token

end CodeFrames
