import CodeFrames.Proofs.Rereading
import CodeFrames.Proofs.Skipping.Shapes

/-!
# The nesting limit

The limit guards the productions that report what they read.  How deep they go is told by putting any
other readings in the place of what lies deeper: if a source is accepted, these are never asked for.
Stepping over a statement is not guarded, so the statements in a skipped one may be nested to any depth.
-/

namespace CodeFrames

open Token Text

/-! ## Readings above others -/

namespace Enclosed

/-- The enclosed productions, where `deep` reads what is nested deeper than so many levels. -/
def beneath (deep : Enclosed) : Nat → Enclosed
  | 0 => deep
  | levels + 1 =>
      let inner := deep.beneath levels
      ⟨Reading.assignment inner, Reading.branches inner, Reading.arrayInitializer inner,
        Reading.statement inner⟩

/-- Refusing what is nested deeper is reading within the levels. -/
theorem beneath_refused (levels : Nat) : refused.beneath levels = within levels := by
  induction levels with
  | zero => rfl
  | succ levels ih => rw [beneath, within, ih]

/-- Levels beneath levels are so many levels. -/
theorem beneath_within (deep levels : Nat) : (within deep).beneath levels = within (deep + levels) := by
  induction levels with
  | zero => rfl
  | succ levels ih => rw [beneath, ih, Nat.add_succ, within]

/-- Refusing what is nested too deep does as any other readings there, or stops before. -/
theorem below_beneath (deep : Enclosed) (levels : Nat) : (within levels).Below (deep.beneath levels) := by
  induction levels with
  | zero => exact ⟨.tooDeep _, .tooDeep _, .tooDeep _, .tooDeep _⟩
  | succ levels ih =>
      exact ⟨Reading.below_assignment ih, Reading.below_branches ih, Reading.below_arrayInitializer ih,
        Reading.below_statement ih⟩

end Enclosed

/-- The events of a source if `deep` reads what is nested deeper than the limit. -/
def readEventsOver (deep : Enclosed) (source : Text) : List Event × Except SourceError Unit :=
  match lex source with
  | .error e => ([], .error e)
  | .ok tokens =>
      match Cursor.ofTokens tokens with
      | none => ([], .ok ())
      | some cursor =>
          let (events, result) := Reading.members (deep.beneath nestingLimit) cursor
          (events, result.map fun _ => ())

/-- Whatever would be read deeper than the limit, it makes no difference, or the source is refused for
its nesting, the events before that being the same. -/
theorem readEvents_limited (deep : Enclosed) (source : Text) :
    readEventsOver deep source = readEvents source ∨
      ∃ line, (readEvents source).2 = .error ⟨line, .nestedTooDeep⟩ ∧
        (readEvents source).1 <+: (readEventsOver deep source).1 := by
  cases htokens : lex source with
  | error e => exact .inl (by simp only [readEventsOver, readEvents, htokens])
  | ok tokens =>
      obtain ⟨c, hc⟩ := Cursor.exists_ofTokens (laid_of_lex htokens)
      rcases Reading.below_members (Enclosed.below_beneath deep nestingLimit) c with
        hsame | ⟨events, line, hstop, hbegins⟩
      · exact .inl (by simp only [readEventsOver, readEvents, htokens, hc, hsame])
      · refine .inr ⟨line, ?_, ?_⟩
        · simp only [readEvents, htokens, hc, hstop]
          rfl
        · simpa only [readEventsOver, readEvents, htokens, hc, hstop] using hbegins

/-! ## Skipped statements -/

namespace Reading

/-- The levels that a skipped statement may have are not limited but by the tokens ahead. -/
theorem skipNested_eq (budget : List Token) :
    skipNested budget = skipOver skipToSemicolon budget.length := by
  induction budget with
  | nil => rfl
  | cons t budget ih =>
      rw [List.length_cons, skipOver, ← ih]
      refine congrArg (cursor >>= ·) (funext fun c => ?_)
      cases skipShape c <;> rfl

theorem skipStatement_eq (c : Cursor) :
    skipStatement c = skipOver skipToSemicolon c.ahead.length c := by
  rw [skipStatement, skipNested_eq]

end Reading

/-! ## Loops in loops -/

def loopHead : Text := "for(;;)".toList

/-- A loop in a loop, and so on, around an empty statement. -/
def forLoops (n : Nat) : Text := (List.replicate n loopHead).flatten ++ [';']

theorem forLoops_succ (n : Nat) : forLoops (n + 1) = loopHead ++ forLoops n := by
  rw [forLoops, List.replicate_succ, List.flatten_cons, List.append_assoc]
  rfl

def forHead : List Token :=
  [symbol .word "for".toList, symbol .openParen ['('], symbol .semicolon [';'],
    symbol .semicolon [';'], symbol .closeParen [')']]

theorem symbols_loopHead (u : Text) : symbols (loopHead ++ u) = forHead ++ symbols u := by
  have hword : symbols ("for".toList ++ '(' :: (";;)".toList ++ u)) =
      [symbol .word "for".toList] ++ symbols ('(' :: (";;)".toList ++ u)) :=
    (Spells.splits (spells_iff.mpr ⟨by decide +kernel, by simp [symbol]⟩)
      (isApart_cons (by decide) _)).symbols_eq
  have hmarks : symbols ('(' :: (";;)".toList ++ u)) = forHead.tail ++ symbols u := by
    change symbols ('(' :: ';' :: ';' :: ')' :: u) = _
    rw [@symbols_mark '(' .openParen (by decide), @symbols_mark ';' .semicolon (by decide),
      @symbols_mark ';' .semicolon (by decide), @symbols_mark ')' .closeParen (by decide)]
    rfl
  rw [show loopHead ++ u = "for".toList ++ '(' :: (";;)".toList ++ u) from rfl, hword, hmarks]
  rfl

theorem symbols_forLoops_zero :
    symbols (forLoops 0) = [symbol .semicolon [';'], symbol .endOfInput []] := by
  change symbols [';'] = _
  rw [@symbols_mark ';' .semicolon (by decide)]
  rfl

theorem exists_symbols_forLoops (n : Nat) :
    ∃ ps, (forLoops n).Spells (ps ++ [symbol .semicolon [';']]) ∧ 5 * n = ps.length := by
  have hsymbols (n : Nat) : symbols (forLoops n) =
      (List.replicate n forHead).flatten ++ [symbol .semicolon [';'], symbol .endOfInput []] := by
    induction n with
    | zero => exact symbols_forLoops_zero
    | succ n ih =>
        rw [forLoops_succ, symbols_loopHead, ih, List.replicate_succ, List.flatten_cons, List.append_assoc]
  refine ⟨(List.replicate n forHead).flatten, spells_iff.mpr ⟨?_, fun p hp => ?_⟩, ?_⟩
  · rw [hsymbols, List.append_assoc]
    rfl
  · have hhead : ∀ q ∈ forHead, q.kind ≠ .comment := by decide
    rcases List.mem_append.mp hp with hp | hp
    · obtain ⟨head, hmem, hp⟩ := List.mem_flatten.mp hp
      obtain ⟨-, rfl⟩ := List.mem_replicate.mp hmem
      exact hhead p hp
    · rw [List.mem_singleton.mp hp]
      decide
  · simp [forHead, Nat.mul_comm]

namespace Reading

variable {c : Cursor} {n : Nat}

theorem skipWordAndGroup_forHead {ps : List Token} (hc : c.Faces (forHead ++ ps)) (hps : ps ≠ []) :
    ∃ d, skipWordAndGroup c = ([], .ok ((), d)) ∧ d.Faces ps := by
  have hnext : c.advance.Faces (forHead.tail ++ ps) := hc.advance (by simp)
  have hgroup : groupLength? c.advance.tokens = some 4 := by
    rw [← groupLength?_bare, hnext.tokens_eq]
    rfl
  have hskip : skipGroup c.advance = ([], .ok ((), c.advance.forward 4)) := by
    rw [skipGroup, cursor_bind, hgroup]
    rfl
  refine ⟨c.advance.forward 4, ?_, @Cursor.Faces.forward c.advance forHead.tail ps hnext hps⟩
  rw [skipWordAndGroup, bind_of_ok _ (show take c = ([], .ok (c.here, c.advance)) from rfl), hskip]
  rfl

theorem skipShape_forHead {ps : List Token} (hc : c.Faces (forHead ++ ps)) : skipShape c = .loop := by
  have hhere : c.here.bare = symbol .word "for".toList := hc.here_eq
  have hkind : c.here.kind = .word := congrArg Token.kind hhere
  have htext : c.here.text = "for".toList := congrArg Token.text hhere
  rw [skipShape, hkind, htext]
  rfl

/-- Each loop takes one level. -/
theorem skipOver_forLoops (deep : Reading Unit) (levels : Nat)
    (hc : c.Faces (symbols (forLoops n))) :
    ∃ d, d.Faces (symbols (forLoops 0)) ∧ skipOver deep (n + levels) c = skipOver deep levels d := by
  induction n generalizing c with
  | zero => exact ⟨c, hc, by rw [Nat.zero_add]⟩
  | succ n ih =>
      rw [forLoops_succ, symbols_loopHead] at hc
      obtain ⟨ps, hspells, -⟩ := exists_symbols_forLoops n
      obtain ⟨d, hhead, hd⟩ := skipWordAndGroup_forHead hc (by simp [hspells.symbols_eq])
      obtain ⟨e, he, hrest⟩ := ih hd
      refine ⟨e, he, ?_⟩
      rw [Nat.add_right_comm, skipOver, cursor_bind, skipShape_forHead hc]
      change (skipWordAndGroup >>= fun _ => skipOver deep (n + levels)) c = _
      rw [bind_of_ok _ hhead, hrest]
      rfl

theorem skipStatement_forLoops (hc : c.Faces (symbols (forLoops n))) :
    skipStatement.CompletesAt c 1 fun _ d => d.Faces [symbol .endOfInput []] := by
  obtain ⟨ps, hspells, hlength⟩ := exists_symbols_forLoops n
  have hahead : c.ahead.length = n + (4 * n + 1) := by
    have := hc.length_ahead
    rw [hspells.symbols_eq] at this
    simp only [List.length_append, List.length_singleton] at this
    omega
  obtain ⟨d, hd, hrest⟩ := skipOver_forLoops skipToSemicolon (4 * n + 1) hc
  have hsemicolon : d.Faces [symbol .semicolon [';'], symbol .endOfInput []] := by
    rwa [symbols_forLoops_zero] at hd
  have hkind : d.here.kind = .semicolon := congrArg Token.kind hsemicolon.here_eq
  refine ⟨[], (), d.advance, ?_, Language.nil_mem_one, hsemicolon.advance (by simp)⟩
  rw [skipStatement_eq, hahead, hrest, skipOver, cursor_bind, skipShape, hkind]
  rfl

theorem memberShape_forLoops (hc : c.Faces (symbols (forLoops (n + 1)))) :
    memberShape c = .statement ∧ statementShape c = .unsupported "'for' statement" := by
  rw [forLoops_succ, symbols_loopHead] at hc
  have hhere : c.here.bare = symbol .word "for".toList := hc.here_eq
  exact ⟨memberShape_of_word hhere (by decide), statementShape_of_word hhere (by decide)⟩

/-- The outermost loop is reported and stepped over with all that is in it. -/
theorem completesAt_forLoops {inner : Enclosed} (hc : c.Faces (symbols (forLoops (n + 1)))) :
    (statement inner).CompletesAt c {[.unsupported c.here.toSpan "'for' statement"]} fun _ d =>
      d.Faces [symbol .endOfInput []] := by
  rw [CompletesAt, statement_eq hc.comments_eq, (memberShape_forLoops hc).2]
  exact CompletesAt.here_bind ((CompletesAt.emit (Q := fun _ d => d = c) rfl).bind_silent (by
    rintro _ d rfl
    exact skipStatement_forLoops hc))

end Reading

/-- The loops are skipped, however many there are. -/
theorem readEvents_forLoops (n : Nat) : (readEvents (forLoops (n + 1))).2 = .ok () := by
  obtain ⟨ps, hspells, -⟩ := exists_symbols_forLoops (n + 1)
  obtain ⟨c, hc, hread⟩ := exists_start hspells
  have hfaces := hc.faces
  have hend : c.here.isEnd = false := by
    rw [forLoops_succ, symbols_loopHead] at hfaces
    rw [show c.here.isEnd = c.here.bare.isEnd from rfl, hfaces.here_eq]
    rfl
  have hmember : (Reading.member (Enclosed.within nestingLimit)).CompletesAt c
      {[.unsupported c.here.toSpan "'for' statement"]} fun _ d => d.Faces [symbol .endOfInput []] := by
    rw [Reading.CompletesAt, Reading.member_eq, (Reading.memberShape_forLoops hfaces).1]
    exact @Reading.completesAt_forLoops c n (Enclosed.within (nestingLimit - 1)) hfaces
  have hlast (d : Cursor) (hd : d.Faces [symbol .endOfInput []]) :
      Reading.RepeatsAt (Reading.memberRound (Enclosed.within nestingLimit)) d 1
        (·.Faces [symbol .endOfInput []]) := by
    have hend : d.here.isEnd = true := by
      rw [show d.here.isEnd = d.here.bare.isEnd from rfl, hd.here_eq]
      rfl
    exact .last (.here_bind (.ite_true hend (.pure ⟨rfl, hd⟩)))
  have hrounds := Reading.RepeatsAt.more
    ((Reading.completesAt_memberRound hend hc.comments_eq hmember).imp fun again d hd => ⟨hd.1, ?_, hd.2⟩)
    hlast
  · obtain ⟨events, u, d, hrun, -⟩ := hrounds.repeatWhile.bind_silent fun _ d hd =>
      (⟨[], (), d, Reading.reportComments_of_nil hd.comments_eq, Language.nil_mem_one, trivial⟩ :
        Reading.reportComments.CompletesAt d 1 fun _ _ => True)
    rw [hread, show Reading.members (Enclosed.within nestingLimit) c = _ from hrun]
    rfl
  · have hless := hfaces.length_ahead
    have hnone := hd.2.length_ahead
    rw [hspells.symbols_eq] at hless
    simp only [List.length_append, List.length_singleton] at hless hnone
    omega

/-- The first cursor of a source without comments stands in front of all its tokens. -/
theorem faces_of_ofTokens {source : Text} {ps tokens : List Token} {c : Cursor} (h : source.Spells ps)
    (hlex : lex source = .ok tokens) (hc : Cursor.ofTokens tokens = some c) :
    c.Faces (symbols source) := by
  have hbare : tokens.map bare = symbols source := map_bare_of_tokensFrom hlex
  have hcode : ∀ t ∈ tokens, t.kind ≠ .comment := fun t ht => by
    have hmem : t.bare ∈ ps ++ [symbol .endOfInput []] := by
      rw [← h.symbols_eq, ← hbare]
      exact List.mem_map_of_mem ht
    rcases List.mem_append.mp hmem with hmem | hmem
    · exact (spells_iff.mp h).2 t.bare hmem
    · exact fun hkind => by simpa [symbol, hkind] using congrArg Token.kind (List.mem_singleton.mp hmem)
  refine ⟨?_, ?_⟩
  · rw [Cursor.tokens_of_ofTokens hc, List.filter_eq_self.mpr fun t ht => by simpa using hcode t ht, hbare]
  · rw [Cursor.comments_of_ofTokens hc]
    exact List.filter_eq_nil_iff.mpr fun t ht => by simpa using hcode t ht

/-- No constant bounds how deep skipped statements are nested in the sources that are accepted. -/
theorem not_skipOver_limited : ¬ ∃ slack, ∀ (deep : Reading Unit) (source : Text) (tokens : List Token)
    (c : Cursor), lex source = .ok tokens → Cursor.ofTokens tokens = some c →
      (readEvents source).2 = .ok () →
      (∃ construct, Reading.statementShape c = .unsupported construct) →
      Reading.skipOver deep (nestingLimit + slack) c = Reading.skipStatement c := by
  rintro ⟨slack, hall⟩
  obtain ⟨n, hn⟩ : ∃ n, nestingLimit + slack = n + 1 :=
    ⟨127 + slack, by rw [show nestingLimit = 128 from rfl]; omega⟩
  obtain ⟨ps, hspells, -⟩ := exists_symbols_forLoops (n + 1)
  obtain ⟨tokens, last, hlex, -⟩ := id hspells
  obtain ⟨c, hc⟩ := Cursor.exists_ofTokens (laid_of_lex hlex)
  have hfaces := faces_of_ofTokens hspells hlex hc
  have hsame := hall (Reading.fail .nestedTooDeep) _ _ c hlex hc (readEvents_forLoops n)
    ⟨_, (Reading.memberShape_forLoops hfaces).2⟩
  obtain ⟨d, -, hdeep⟩ := Reading.skipOver_forLoops (Reading.fail .nestedTooDeep) 0 hfaces
  obtain ⟨events, u, e, hskip, -⟩ := Reading.skipStatement_forLoops hfaces
  rw [hn, ← Nat.add_zero (n + 1), hdeep, hskip] at hsame
  cases hsame

end CodeFrames
