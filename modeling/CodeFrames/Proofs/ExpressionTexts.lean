import CodeFrames.Proofs.Following
import CodeFrames.Proofs.Outcome
import CodeFrames.Proofs.Shapes
import CodeFrames.Proofs.Spelling

/-!
# Expression texts

A text is an expression if a `return` in front of it and a semicolon behind it make a source that
converts to the return of exactly that text.  Wherever such a text stands in front of a delimiter it
is read as one expression, to its end.
-/

namespace CodeFrames

open scoped Computability
open Token Sentence Text

/-- The text has no comment, its brackets are nested, and it is what a `return` in front of it
returns. -/
structure Text.IsExpression (options : Options) (e : Text) : Prop where
  nested : ∃ ps, e.Spells ps ∧ Nested ps
  converts : convert options ("return ".toList ++ e ++ ";".toList) =
    .ok ⟨[.returnValue (some (.expression e))], []⟩

/-! ## Conversions and sentences -/

variable {options : Options} {source : Text}

theorem exists_events_of_convert {conversion : Conversion}
    (h : convert options source = .ok conversion) :
    ∃ events, readEvents source = (events, .ok ()) ∧ ∀ elements warnings,
      Items source options.commentWidth none events elements warnings →
        conversion = ⟨elements, warnings⟩ := by
  obtain ⟨events, a, hread, hrun, hfinish⟩ := exists_of_convert h
  refine ⟨events, hread, fun elements warnings hitems => ?_⟩
  obtain ⟨comment, rfl⟩ := Assembly.run_of_sentence hitems a hrun
  rw [Assembly.finish_updated] at hfinish
  exact (Except.ok.inj hfinish).symm

theorem convert_of_items {events : List Event} {elements : Block} {warnings : List Warning}
    (hread : readEvents source = (events, .ok ()))
    (hitems : Items source options.commentWidth none events elements warnings)
    (hclear : ∀ event ∈ events, event.AccessClear source) :
    convert options source = .ok ⟨elements, warnings⟩ := by
  obtain ⟨comment, hrun | ⟨-, event, hmem, hconflict⟩⟩ := Assembly.leads_sentence hitems
  · simp [convert, hread, hrun, Except.ok_bind, Assembly.finish_updated]
  · exact absurd (hclear event hmem) hconflict

/-! ## What is inside an expression -/

namespace Sentence

mutual
theorem Inside.modifiers : ∀ {events : List Event} {warnings : List Warning}, Inside events warnings →
    ∀ event ∈ events, event.modifiers = []
  | _, _, .nothing => by simp
  | _, _, .expression first last isEmpty inner rest => by
      have hinner := Inside.modifiers inner
      have hrest := Inside.modifiers rest
      intro event hevent
      simp only [List.mem_cons, List.mem_append] at hevent
      rcases hevent with rfl | hevent | rfl | hevent
      · rfl
      · exact hinner event hevent
      · rfl
      · exact hrest event hevent
  | _, _, .arguments opening closing inner rest => by
      have hinner := Arguments.modifiers inner
      have hrest := Inside.modifiers rest
      intro event hevent
      simp only [List.mem_cons, List.mem_append] at hevent
      rcases hevent with rfl | hevent | rfl | hevent
      · rfl
      · exact hinner event hevent
      · rfl
      · exact hrest event hevent
  | _, _, .unsupported place construct rest => by
      have hrest := Inside.modifiers rest
      simp only [List.mem_cons, forall_eq_or_imp]
      exact ⟨rfl, hrest⟩
theorem Arguments.modifiers : ∀ {events : List Event} {warnings : List Warning},
    Arguments events warnings → ∀ event ∈ events, event.modifiers = []
  | _, _, .nothing => by simp
  | _, _, .argument announced first last isEmpty inner rest => by
      have hinner := Inside.modifiers inner
      have hrest := Arguments.modifiers rest
      intro event hevent
      simp only [List.mem_cons, List.mem_append] at hevent
      rcases hevent with rfl | rfl | hevent | rfl | hevent
      · rfl
      · rfl
      · exact hinner event hevent
      · rfl
      · exact hrest event hevent
end

mutual
/-- Only unsupported constructs warn. -/
theorem Inside.quiet : ∀ {events : List Event} {warnings : List Warning}, Inside events warnings →
    (warnings = [] ↔ events ∈ quiets)
  | _, _, .nothing => ⟨fun _ => nil_mem_quiets, fun _ => rfl⟩
  | _, _, .expression first last isEmpty inner rest => by
      rw [List.append_eq_nil_iff, Inside.quiet inner, Inside.quiet rest, cons_mem_quiets (by simp),
        append_mem_quiets, cons_mem_quiets (by simp)]
  | _, _, .arguments opening closing inner rest => by
      rw [List.append_eq_nil_iff, Arguments.quiet inner, Inside.quiet rest,
        cons_mem_quiets (by simp), append_mem_quiets, cons_mem_quiets (by simp)]
  | _, _, .unsupported place construct rest => by
      refine ⟨fun h => (List.cons_ne_nil _ _ h).elim, fun h => ?_⟩
      exact absurd List.mem_cons_self (h place construct)
theorem Arguments.quiet : ∀ {events : List Event} {warnings : List Warning},
    Arguments events warnings → (warnings = [] ↔ events ∈ quiets)
  | _, _, .nothing => ⟨fun _ => nil_mem_quiets, fun _ => rfl⟩
  | _, _, .argument announced first last isEmpty inner rest => by
      rw [List.append_eq_nil_iff, Inside.quiet inner, Arguments.quiet rest,
        cons_mem_quiets (by simp), cons_mem_quiets (by simp), append_mem_quiets,
        cons_mem_quiets (by simp)]
end

end Sentence

/-! ## Rounds of members -/

namespace Reading

variable {c d : Cursor} {inner : Enclosed}

theorem memberRound_of_member (hend : c.here.isEnd = false) (hcomments : c.comments = []) :
    memberRound inner c = (do
      member inner
      return true : Reading Bool) c := by
  change (if c.here.isEnd = true then _ else _ : Reading Bool) c = _
  rw [if_neg (by simp [hend]), bind_of_ok _ (reportComments_of_nil hcomments)]
  rfl

theorem reports_memberRound {width : Option Nat} (h : inner.Reports source width) :
    (memberRound inner).Reports source (items source width) := by
  have hcomments : reportComments.Reports source (items source width) :=
    Reports.reportComments.mono comments_le_items
  refine Reports.here.silent fun t => Reports.ite
    (fun _ => Reports.pure_of_nil_mem false nil_mem_items) fun _ => ?_
  exact (hcomments.bind fun _ => (reports_member h).bind_silent fun _ => Reports.pure true).mono
    items_mul_items

/-- The first member of a source that can be read, and the events of the rest. -/
theorem exists_first_member {width : Option Nat} (h : inner.Reports source width)
    (hc : Token.Laid source c.tokens) (hend : c.here.isEnd = false) (hcomments : c.comments = [])
    (hahead : c.ahead ≠ []) {events : List Event} (hrun : members inner c = (events, .ok ((), d))) :
    ∃ first e more, member inner c = (first, .ok ((), e)) ∧ more ∈ items source width ∧
      events = first ++ more := by
  rw [members_eq] at hrun
  obtain ⟨rounds, u, d₁, comments, hrounds, hlast, rfl⟩ := exists_of_bind_ok hrun
  obtain ⟨t, budget, hbudget⟩ := List.exists_cons_of_ne_nil hahead
  rw [repeatWhile, hbudget, loop] at hrounds
  obtain ⟨one, again, d₂, others, hone, hothers, rfl⟩ := exists_of_bind_ok hrounds
  rw [memberRound_of_member hend hcomments] at hone
  obtain ⟨first, v, e, none, hfirst, hnone, rfl⟩ := exists_of_bind_ok hone
  obtain ⟨rfl, hnone⟩ := Prod.mk.injEq .. |>.mp hnone
  obtain ⟨rfl, rfl⟩ := by simpa using hnone
  have hlaid := ((reports_member h).reaches hc hfirst).laid hc
  have hloop := Reports.loop (reports_memberRound h) budget
  rw [if_pos rfl] at hothers
  have hmore := (hloop d₂ hlaid).mem_and_reaches hothers
  have hcommentEvents := (Reports.reportComments d₁ (hmore.2.laid hlaid)).mem_and_reaches hlast
  have hle : items source width * (items source width)∗ ≤ items source width :=
    mul_kstar_le_kstar.trans items_kstar
  exact ⟨first, d₂, others ++ comments, hfirst, items_mul_items
    (Language.append_mem_mul (hle hmore.1) (comments_le_items hcommentEvents.1)), by simp⟩

end Reading

/-! ## The text behind a return -/

namespace Text.IsExpression

variable {e : Text}

/-- The run behind the `return`. -/
structure ReturnedAs (source e : Text) (c : Cursor) (events : List Event) (d : Cursor) : Prop where
  stands : c.StandsAt source (e ++ [';'])
  run : (Enclosed.within 127).assignment c = (events, .ok ((), d))
  inside : Sentence.Inside events []
  reaches : c.Reaches d
  opens : c.here.endsExpression = false
  ended : d.here.kind = .semicolon
  slice : ∃ s, slice? source c.here.start d.before.stop = some s ∧ withSubtypeOperator s = e

theorem exists_of_expression {inner : Enclosed} {c d : Cursor} {events : List Event}
    (h : Reading.expression inner c = (events, .ok ((), d))) :
    ∃ inside, inner.assignment c = (inside, .ok ((), d)) ∧ c.here.endsExpression = false ∧
      events = .openExpression c.here.toSpan ::
        (inside ++ [.closeExpression d.before.toSpan false]) := by
  change (if c.here.endsExpression = true then _ else _ : Reading Unit) c = _ at h
  by_cases hends : c.here.endsExpression = true
  · rw [if_pos hends] at h
    cases h
  · rw [if_neg hends] at h
    obtain ⟨opening, _, _, rest, hopening, hrest, rfl⟩ := Reading.exists_of_bind_ok h
    obtain ⟨rfl, hopening⟩ := Prod.mk.injEq .. |>.mp hopening
    obtain ⟨-, rfl⟩ := by simpa using hopening
    obtain ⟨inside, _, d', closing, hinside, hclosing, rfl⟩ := Reading.exists_of_bind_ok hrest
    have hclosing : ([Event.closeExpression d'.before.toSpan false], Except.ok ((), d')) =
      (closing, (Except.ok ((), d) : Except SourceError (Unit × Cursor))) := hclosing
    obtain ⟨rfl, rfl⟩ := by simpa using hclosing
    exact ⟨inside, hinside, by simpa using hends, rfl⟩

theorem spells_return {ps : List Token} (h : e.Spells ps) :
    Spells ("return ".toList ++ e ++ ";".toList)
      (symbol .word "return".toList :: (ps ++ [symbol .semicolon [';']])) := by
  have hword : Spells "return".toList [symbol .word "return".toList] :=
    spells_iff.mpr ⟨by decide, by decide⟩
  obtain ⟨hsymbols, hcomment⟩ := spells_iff.mp h
  rw [List.append_assoc]
  refine spells_iff.mpr ⟨?_, ?_⟩
  · change symbols ("return".toList ++ ' ' :: (e ++ [';'])) = _
    rw [(hword.splits (isApart_cons (by decide) _)).symbols_eq, symbols_blank,
      (h.splits (isApart_cons (by decide) _)).symbols_eq, @symbols_mark ';' .semicolon (by decide)]
    simp [symbols, symbolsFrom]
  · simpa [or_imp, forall_and, symbol] using hcomment

theorem exists_of_semicolon {c d : Cursor} {events : List Event}
    (h : (do let _ ← Reading.semicolon : Reading Unit) c = (events, .ok ((), d))) :
    c.here.kind = .semicolon ∧ events = [] := by
  have hkind : c.here.kind = .semicolon := Reading.kind_of_expect h
  obtain ⟨first, t, e, rest, htake, hrest, rfl⟩ := Reading.exists_of_bind_ok h
  change (if c.isAt .semicolon = true then Reading.take else _ : Reading Token) c = _ at htake
  rw [if_pos (by simp [Cursor.isAt, hkind])] at htake
  obtain ⟨rfl, -⟩ := Prod.mk.injEq .. |>.mp htake
  obtain ⟨rfl, -⟩ := Prod.mk.injEq .. |>.mp hrest
  exact ⟨hkind, rfl⟩

/-- What the reading of a return has done. -/
theorem exists_of_returned {inner : Enclosed} {c d : Cursor} {events : List Event}
    (h : Reading.returned inner c = (events, .ok ((), d))) :
    events = [.returned c.here.toSpan false] ∨
      ∃ value e, c.advance.here.kind ≠ .semicolon ∧ e.here.kind = .semicolon ∧
        Reading.expression inner c.advance = (value, .ok ((), e)) ∧
        events = .returned c.here.toSpan true :: value := by
  change (Reading.emit (.returned c.here.toSpan (!c.advance.isAt .semicolon)) >>= fun _ =>
    if (!c.advance.isAt .semicolon) = true then
      Reading.expression inner >>= fun _ => (do let _ ← Reading.semicolon : Reading Unit)
    else (do let _ ← Reading.semicolon : Reading Unit)) c.advance = _ at h
  obtain ⟨announced, _, e, rest, hannounced, hrest, rfl⟩ := Reading.exists_of_bind_ok h
  obtain ⟨rfl, hannounced⟩ := Prod.mk.injEq .. |>.mp hannounced
  obtain ⟨-, rfl⟩ := by simpa using hannounced
  by_cases hkind : c.advance.isAt .semicolon = true
  · rw [if_neg (by simp [hkind])] at hrest
    rw [(exists_of_semicolon hrest).2, hkind]
    exact .inl rfl
  · rw [if_pos (by simp [hkind])] at hrest
    obtain ⟨value, _, e, more, hvalue, hmore, rfl⟩ := Reading.exists_of_bind_ok hrest
    obtain ⟨hend, rfl⟩ := exists_of_semicolon hmore
    refine .inr ⟨value, e, by simpa [Cursor.isAt] using hkind, hend, hvalue, ?_⟩
    simp [hkind]

theorem exists_run (h : e.IsExpression options) :
    ∃ source c events d, ReturnedAs source e c events d := by
  obtain ⟨ps, hps, -⟩ := h.nested
  have hspells := spells_return hps
  obtain ⟨c, hc, hread⟩ := exists_start hspells
  obtain ⟨events, hevents, hitems⟩ := exists_events_of_convert h.converts
  have hreports := Enclosed.reports_within ("return ".toList ++ e ++ ";".toList) options.commentWidth
  rcases hrun : Reading.members (Enclosed.within nestingLimit) c with ⟨all, error | ⟨u, d⟩⟩
  · rw [hread, hrun] at hevents
    cases hevents
  rw [hread, hrun] at hevents
  obtain ⟨rfl, -⟩ := by simpa using hevents
  have hfaces := hc.faces
  rw [hspells.symbols_eq] at hfaces
  have hhere := hfaces.here_eq
  have hend : c.here.isEnd = false := by
    rw [show c.here.isEnd = c.here.bare.isEnd from rfl, hhere]
    rfl
  have hahead : c.ahead ≠ [] := by
    have := congrArg List.length hfaces.ahead_eq
    exact List.ne_nil_of_length_pos (by simp at this; omega)
  obtain ⟨first, e', more, hmember, hmore, rfl⟩ :=
    Reading.exists_first_member (hreports nestingLimit) hc.laid hend hc.comments_eq hahead hrun
  have hreturned : Reading.returned (Enclosed.within 127) c = (first, .ok ((), e')) := by
    rw [← hmember, Reading.member_eq, Reading.memberShape_of_word hhere (by decide)]
    change _ = Reading.statement (Enclosed.within 127) c
    rw [Reading.statement_eq hc.comments_eq,
      show Reading.statementShape c = .returned from
        Reading.statementShape_of_word hhere (by decide)]
    rfl
  obtain ⟨others, later, hothers⟩ := hmore none
  rcases exists_of_returned hreturned with rfl | ⟨value, f, hkind, hended, hvalue, rfl⟩
  · have hall := hitems _ _ (.statement (.returned c.here.toSpan) hothers)
    simp at hall
  obtain ⟨inside, hinside, hopens, rfl⟩ := exists_of_expression hvalue
  have hstands : c.advance.StandsAt ("return ".toList ++ e ++ ";".toList) (e ++ [';']) := by
    have hword : Spells "return".toList [symbol .word "return".toList] :=
      spells_iff.mpr ⟨by decide, by decide⟩
    have hwhole : "return ".toList ++ e ++ ";".toList = "return".toList ++ ' ' :: (e ++ [';']) := by
      rw [List.append_assoc]
      rfl
    rw [hwhole] at hc ⊢
    exact (hc.advance (hword.splits (isApart_cons (by decide) _))).2.of_blank
  have hpasses := (hreports 127).advances _ hstands.laid _ _ _ hinside
  obtain ⟨⟨warnings, hwarnings⟩, hreaches⟩ :=
    ((hreports 127).assignment _ hstands.laid).mem_and_reaches hinside
  obtain ⟨s, hs⟩ := Option.isSome_iff_exists.mp (hstands.laid.slice?_isSome hpasses.before_mem)
  have hitem := hitems _ _ (.statement (.returnedValue c.here.toSpan
    (.bounded c.advance.here.toSpan f.before.toSpan hwarnings hs)) hothers)
  simp only [List.singleton_append, Conversion.mk.injEq, List.cons.injEq, Element.returnValue.injEq,
    Option.some.injEq, Fragment.expression, Fragment.mk.injEq, true_and, List.nil_eq,
    List.append_eq_nil_iff] at hitem
  obtain ⟨⟨htext, -⟩, hnone, -⟩ := hitem
  exact ⟨_, c.advance, inside, f, hstands, hinside, hnone ▸ hwarnings, hreaches, hopens, hended, s, hs,
    htext.symm⟩

/-- The tokens of an expression behind the `return`, and the two behind it. -/
structure Bounds (source e : Text) (c : Cursor) (ps tokens : List Token) (q : Position) : Prop where
  bare_eq : tokens.map bare = ps
  tokens_eq : ∃ semicolon last, c.tokens = tokens ++ [semicolon, last] ∧ semicolon.start = q.offset ∧
    last.isEnd
  source_eq : ∃ before, source = before ++ (e ++ [';']) ∧ q.offset = byteSize before + byteSize e ∧
    ∀ t ∈ c.tokens, byteSize before ≤ t.start

theorem exists_bounds {c : Cursor} (h : c.StandsAt source (e ++ [';'])) {ps : List Token}
    (hps : e.Spells ps) : ∃ tokens q, Bounds source e c ps tokens q := by
  obtain ⟨before, p, hsource, hoffset, hwalk⟩ := h.walk
  obtain ⟨tokens, q, hbare, hq, hsplit, -⟩ :=
    (hps.splits (u := [';']) (isApart_cons (by decide) _)).walk p
  have hlast : tokensFrom 0 q [';'] = .ok [ofText .semicolon [';'] q,
      ofText .endOfInput [] (q.afterToken .semicolon [';'])] := by
    rw [tokensFrom, @lexeme_mark ';' .semicolon (by decide)]
    rfl
  have hstart := (tokensFrom_laid hsource (by simpa using hoffset) hwalk).2
  rw [hwalk, hlast] at hsplit
  exact ⟨tokens, q, hbare, ⟨_, _, by simpa [Except.map] using hsplit, rfl, rfl⟩, before, hsource,
    by omega, fun t ht => hoffset ▸ hstart t ht⟩

/-- The tokens that the run has stepped over are the first ones of the expression. -/
structure Passed (tokens passed behind : List Token) (c d : Cursor) (q : Position) : Prop where
  ne_nil : passed ≠ []
  tokens_eq : tokens = passed ++ behind
  behind_eq : d.tokens.length = behind.length + 2 ∧ ∀ t ∈ behind.head?, t = d.here
  here_mem : c.here ∈ passed
  before_mem : d.before ∈ passed
  stop_le : ∀ t ∈ tokens, t.stop ≤ q.offset
  ordered : ∀ t ∈ behind, d.before.stop ≤ t.start

theorem ReturnedAs.exists_passed {c d : Cursor} {events : List Event} {ps tokens : List Token}
    {q : Position} (h : ReturnedAs source e c events d) (hbounds : Bounds source e c ps tokens q) :
    ∃ passed behind, Passed tokens passed behind c d q := by
  obtain ⟨semicolon, last, htokens, hsemicolon, hlast⟩ := hbounds.tokens_eq
  obtain ⟨passed, hpassed, hbefore⟩ := h.reaches
  have hordered := h.stands.laid.ordered
  have hne : passed ≠ [] := by
    rintro rfl
    have hsame : c.here = d.here := (List.cons.inj hpassed).1
    have hopens := h.opens
    rw [hsame, Token.endsExpression, h.ended] at hopens
    cases hopens
  obtain ⟨behind, rfl, hd⟩ : ∃ behind, tokens = passed ++ behind ∧
      d.tokens = behind ++ [semicolon, last] := by
    rcases List.append_eq_append_iff.mp (hpassed.symm.trans htokens) with
      ⟨behind, hbehind, hd⟩ | ⟨behind, rfl, hd⟩
    · exact ⟨behind, hbehind, hd⟩
    · rcases behind with _ | ⟨t, _ | ⟨u, _ | _⟩⟩
      · exact ⟨[], by simp, by simpa using hd.symm⟩
      · obtain ⟨-, hhere, -⟩ := by simpa [Cursor.tokens] using hd
        rw [hhere, Token.isEnd, h.ended] at hlast
        simp at hlast
      · simp [Cursor.tokens] at hd
      · simp [Cursor.tokens] at hd
  have hmem : d.before ∈ passed := by
    rw [hbefore, List.getLastD_eq_getLast?, List.getLast?_eq_some_getLast hne]
    exact List.getLast_mem hne
  have hhere : c.here ∈ passed := by
    cases passed with
    | nil => exact absurd rfl hne
    | cons t ts => exact (List.cons.inj hpassed).1 ▸ List.mem_cons_self
  rw [htokens] at hordered
  refine ⟨passed, behind, hne, rfl, ⟨by simp [hd], ?_⟩, hhere, hmem, ?_, ?_⟩
  · intro t ht
    cases behind with
    | nil => cases ht
    | cons u behind =>
        obtain rfl := by simpa using ht
        exact (List.cons.inj hd).1.symm
  · intro t ht
    rw [← hsemicolon]
    exact (List.pairwise_append.mp hordered).2.2 t ht semicolon List.mem_cons_self
  · intro t ht
    rw [List.append_assoc] at hordered
    exact (List.pairwise_append.mp hordered).2.2 d.before hmem t (List.mem_append_left _ ht)

/-- The text between the bounds is the whole expression. -/
theorem ReturnedAs.fits {c d : Cursor} {events : List Event} {ps tokens passed behind : List Token}
    {q : Position} (h : ReturnedAs source e c events d) (hbounds : Bounds source e c ps tokens q)
    (hpassed : Passed tokens passed behind c d q) :
    c.here.start + byteSize e = q.offset ∧ d.before.stop = q.offset ∧
      ∀ others, lex e = .ok others → ∀ t ∈ others, t.isWord "instanceof".toList = false := by
  obtain ⟨before, hsource, hq, hstart⟩ := hbounds.source_eq
  obtain ⟨s, hslice, hs⟩ := h.slice
  have hlaid := h.stands.laid
  have hmem {t : Token} (ht : t ∈ passed) : t ∈ c.tokens := by
    obtain ⟨semicolon, last, htokens, -⟩ := hbounds.tokens_eq
    simp [htokens, hpassed.tokens_eq, ht]
  have hle : c.here.start ≤ d.before.stop := by
    refine Nat.le_of_not_lt fun hlt => ?_
    rw [slice?, if_neg (by omega)] at hslice
    cases hslice
  obtain ⟨s', hslice', hsize⟩ := (hlaid.liesIn _ (hmem hpassed.here_mem)).isCut_start.exists_slice
    (hlaid.liesIn _ (hmem hpassed.before_mem)).isCut_stop hle
  obtain rfl : s = s' := by simpa [hslice] using hslice'
  obtain ⟨hshorter, hnone⟩ := byteSize_withSubtypeOperator s
  have hfirst := hstart c.here (hmem hpassed.here_mem)
  have hlast := hpassed.stop_le d.before (by simp [hpassed.tokens_eq, hpassed.before_mem])
  rw [hs] at hshorter hnone
  have hsame : s = e := by
    have hwhole := slice?_append before e [';']
    rw [← hsource, show byteSize before = c.here.start by omega,
      show c.here.start + byteSize e = d.before.stop by omega, hslice] at hwhole
    exact Option.some.inj hwhole
  refine ⟨by omega, by omega, ?_⟩
  rw [hsame] at hnone
  exact hnone (Nat.le_refl _)

theorem ReturnedAs.whole {c d : Cursor} {events : List Event} {ps : List Token}
    (h : ReturnedAs source e c events d) (hps : e.Spells ps) :
    d.tokens.length = 2 ∧ e.IsTight ∧ ∀ p ∈ ps, p.isWord "instanceof".toList = false := by
  obtain ⟨tokens, q, hbounds⟩ := exists_bounds h.stands hps
  obtain ⟨passed, behind, hpassed⟩ := h.exists_passed hbounds
  obtain ⟨hstart, hstop, hnone⟩ := h.fits hbounds hpassed
  obtain ⟨semicolon, last, htokens, -⟩ := hbounds.tokens_eq
  have hbare := hbounds.bare_eq
  have hlies {t : Token} (ht : t ∈ tokens) : t.LiesIn source :=
    h.stands.laid.liesIn t (by simp [htokens, ht])
  have htight {t : Token} (ht : t ∈ tokens) : t.text ≠ [] ∧ t.text.IsTight := by
    have hmem : t.bare ∈ ps := hbare ▸ List.mem_map_of_mem ht
    exact @tight_of_spells e ps hps t.bare hmem
  have hfirst : c.here ∈ tokens := by simp [hpassed.tokens_eq, hpassed.here_mem]
  have hlast : d.before ∈ tokens := by simp [hpassed.tokens_eq, hpassed.before_mem]
  refine ⟨?_, ?_, ?_⟩
  · cases behind with
    | nil => simpa using hpassed.behind_eq.1
    | cons t behind =>
        have ht : t ∈ tokens := by simp [hpassed.tokens_eq]
        obtain ⟨_, _, -, hfrom, hto⟩ := hlies ht
        have hordered := hpassed.ordered t List.mem_cons_self
        have hle := hpassed.stop_le t ht
        exact absurd (byteSize_eq_zero (by omega)) (htight ht).1
  · obtain ⟨before, hsource, hq, -⟩ := hbounds.source_eq
    have hne : e ≠ [] := by
      rintro rfl
      have hempty : ps = [] := by simpa [symbols, symbolsFrom] using hps.symbols_eq
      rw [List.map_eq_nil_iff.mp (hbare.trans hempty)] at hfirst
      cases hfirst
    obtain ⟨left, after, hleft, hfrom, -⟩ := hlies hfirst
    obtain ⟨left', after', hleft', -, hto⟩ := hlies hlast
    have hhead := (append_inj_of_byteSize (hleft.symm.trans hsource) (by omega)).2
    have htail := (append_inj_of_byteSize (t := after') (v := [';'])
      (s := left' ++ d.before.text) (u := before ++ e)
      (by simpa using hleft'.symm.trans hsource) (by simp; omega)).1
    constructor
    · have heq := congrArg List.head? hhead
      rw [List.head?_append_of_ne_nil _ (htight hfirst).1, List.head?_append_of_ne_nil _ hne] at heq
      exact heq ▸ (htight hfirst).2.1
    · have heq := congrArg List.getLast? htail
      rw [List.getLast?_append_of_ne_nil _ (htight hlast).1, List.getLast?_append_of_ne_nil _ hne]
        at heq
      exact heq ▸ (htight hlast).2.2
  · obtain ⟨others, final, hlex, rfl, -⟩ := hps
    intro p hp
    obtain ⟨t, ht, rfl⟩ := List.mem_map.mp hp
    exact hnone _ hlex t (List.mem_append_left _ ht)

end Text.IsExpression

/-! ## Reading an expression wherever it stands -/

namespace Token

theorem Nested.closed {ps : List Token} (h : Nested ps) : ∀ t ts, t :: ts <:+ ps →
    t.kind.isOpener = true → ∃ inside closer rest, ts = inside ++ closer :: rest ∧
      Kind.matches t.kind closer.kind = true ∧ Nested inside := by
  induction h with
  | nil =>
      intro t ts hsuffix
      simp at hsuffix
  | plain hopener hcloser hend hrest ih =>
      intro t ts hsuffix hopens
      rcases List.suffix_cons_iff.mp hsuffix with heq | hsuffix
      · obtain ⟨rfl, rfl⟩ := List.cons.inj heq
        exact absurd hopens hopener
      · exact ih t ts hsuffix hopens
  | @group opener closer inside rest hmatches hinside hrest ihinside ihrest =>
      intro t ts hsuffix hopens
      rcases List.suffix_cons_iff.mp hsuffix with heq | hsuffix
      · obtain ⟨rfl, rfl⟩ := List.cons.inj heq
        exact ⟨inside, closer, rest, rfl, hmatches, hinside⟩
      obtain ⟨front, hfront⟩ := hsuffix
      rcases List.append_eq_append_iff.mp hfront with ⟨mid, hmid, hts⟩ | ⟨mid, -, hmid⟩
      · cases mid with
        | nil =>
            obtain ⟨rfl, rfl⟩ := List.cons.inj hts
            rw [(isOpener_of_matches hmatches).2.1] at hopens
            cases hopens
        | cons u mid =>
            obtain ⟨rfl, rfl⟩ := List.cons.inj hts
            obtain ⟨inner, last, behind, rfl, hlast, hinner⟩ :=
              ihinside t mid ⟨front, hmid.symm⟩ hopens
            exact ⟨inner, last, behind ++ closer :: rest, by simp, hlast, hinner⟩
      · cases mid with
        | nil =>
            obtain ⟨rfl, rfl⟩ := List.cons.inj hmid
            rw [(isOpener_of_matches hmatches).2.1] at hopens
            cases hopens
        | cons u mid =>
            obtain ⟨-, hmid⟩ := List.cons.inj hmid
            exact ihrest t ts ⟨mid, hmid.symm⟩ hopens

end Token

namespace Reading

theorem not_openBrace_of_assignment {inner : Enclosed} {c d : Cursor} {events : List Event}
    (h : assignment inner c = (events, .ok ((), d))) : c.here.kind ≠ .openBrace := by
  intro hkind
  obtain ⟨_, _, _, _, hconditional, -⟩ := exists_of_bind_ok h
  obtain ⟨_, _, _, _, hbinary, -⟩ := exists_of_bind_ok hconditional
  obtain ⟨_, _, _, _, hunary, -⟩ := exists_of_bind_ok hbinary
  obtain ⟨_, _, e, _, hleading, hrest, -⟩ := exists_of_bind_ok hunary
  obtain ⟨_, _, _, _, hoperand, -⟩ := exists_of_bind_ok hrest
  have hround : leading c = ([], .ok (false, c)) := by
    rw [leading, cursor_bind, if_neg (by simp [isOperatorIn, hkind]), Cursor.tokens,
      castLength?_of_kind (by simp [hkind])]
    rfl
  rw [repeatWhile, loop_of_false hround] at hleading
  obtain ⟨-, rfl⟩ := by simpa using hleading
  rw [operand, cursor_bind, operandShape, hkind] at hoperand
  cases hoperand

end Reading

namespace Text.IsExpression

variable {e : Text} {ps : List Token}

theorem tight (h : e.IsExpression options) : e.IsTight := by
  obtain ⟨ps, hps, -⟩ := h.nested
  obtain ⟨source, c, events, d, hrun⟩ := h.exists_run
  exact (hrun.whole hps).2.1

theorem noTest (h : e.IsExpression options) (hps : e.Spells ps) :
    ∀ p ∈ ps, p.isWord "instanceof".toList = false := by
  obtain ⟨source, c, events, d, hrun⟩ := h.exists_run
  exact (hrun.whole hps).2.2

theorem nested_of_spells (h : e.IsExpression options) (hps : e.Spells ps) : Nested ps := by
  obtain ⟨qs, hqs, hnested⟩ := h.nested
  have hsame := hqs.symbols_eq.symm.trans hps.symbols_eq
  exact List.append_cancel_right hsame ▸ hnested

theorem exists_first (h : e.IsExpression options) (hps : e.Spells ps) :
    ∃ p rest, ps = p :: rest ∧ p.endsExpression = false ∧ p.kind ≠ .openBrace := by
  obtain ⟨source, c, events, d, hrun⟩ := h.exists_run
  have hfaces := hrun.stands.faces
  rw [(hps.splits (isApart_cons (by decide) _)).symbols_eq] at hfaces
  have hopens := hrun.opens
  have hbrace := Reading.not_openBrace_of_assignment hrun.run
  cases ps with
  | nil =>
      rw [@symbols_mark ';' .semicolon (by decide)] at hfaces
      rw [show c.here.endsExpression = c.here.bare.endsExpression from rfl, hfaces.here_eq] at hopens
      cases hopens
  | cons p rest =>
      have hhere : c.here.bare = p := hfaces.here_eq
      exact ⟨p, rest, rfl, hhere ▸ hopens, hhere ▸ hbrace⟩

/-- In front of a delimiter the text is read to its end. -/
theorem completesAt_assignment (h : e.IsExpression options) (hps : e.Spells ps) {levels : Nat}
    (hlevels : 127 ≤ levels) {first : Token} {rest : List Token} (hfirst : first.Delimits)
    {c : Cursor} (hc : c.Faces (ps ++ first :: rest)) :
    (Enclosed.within levels).assignment.CompletesAt c quiets fun _ d => d.Faces (first :: rest) := by
  obtain ⟨source, c₁, events, d₁, hrun⟩ := h.exists_run
  obtain ⟨hlength, -, hnoTest⟩ := hrun.whole hps
  have hfaces := hrun.stands.faces
  rw [(hps.splits (isApart_cons (by decide) _)).symbols_eq, @symbols_mark ';' .semicolon (by decide)]
    at hfaces
  have halike : Alike ⟨symbol .semicolon [';'], symbols [], first, rest⟩ ps c₁ c :=
    ⟨⟨(h.nested_of_spells hps).closed, hnoTest⟩, rfl, hfirst, hfaces, hc⟩
  obtain ⟨events', u, d, left, hrun', hquiet, -, hends, -⟩ :=
    (Enclosed.follows_within _ hlevels).assignment ps c₁ c halike events () d₁ hrun.run
      (hrun.inside.quiet.mp rfl) trivial
  have hleft : left = [] := by
    have hsame := congrArg List.length hends.faces.tokens_eq
    have hrest : (symbols []).length = 1 := rfl
    simp only [List.length_map, hlength, List.length_append, List.length_cons, hrest] at hsame
    exact List.eq_nil_of_length_eq_zero (by omega)
  have hfaces' := hends.faces'
  rw [hleft] at hfaces'
  exact ⟨events', u, d, hrun', hquiet, hfaces'⟩

end Text.IsExpression

namespace Reading

variable {c : Cursor} {t u : Text} {ps : List Token} {inner : Enclosed}

/-- The events of an expression with the given text that nothing in it warns about. -/
def expressed (source t : Text) : Language Event := {es | Expression source es t []}

theorem expression_of_run {d : Cursor} {events : List Event}
    (hopens : c.here.endsExpression = false) (hrun : inner.assignment c = (events, .ok ((), d))) :
    expression inner c = (.openExpression c.here.toSpan ::
      (events ++ [.closeExpression d.before.toSpan false]), .ok ((), d)) := by
  change (if c.here.endsExpression = true then _ else _ : Reading Unit) c = _
  rw [if_neg (by simp [hopens]), bind_of_ok _ rfl, bind_of_ok _ hrun]
  rfl

theorem completesAt_quiet {Q : Cursor → Prop} (hopens : c.here.endsExpression = false)
    (hrun : inner.assignment.CompletesAt c quiets fun _ => Q) :
    (expression inner).CompletesAt c quiets fun _ => Q := by
  obtain ⟨events, u, d, hrun, hquiet, hQ⟩ := hrun
  refine ⟨_, (), d, expression_of_run hopens hrun, ?_, hQ⟩
  rw [cons_mem_quiets (by simp), append_mem_quiets, cons_mem_quiets (by simp)]
  exact ⟨hquiet, nil_mem_quiets⟩

/-- The reading of an expression in front of the text `u`. -/
theorem completesAt_shown {width : Option Nat} (hreports : inner.Reports source width)
    (hc : c.StandsAt source (t ++ u)) (hspells : t.Spells ps) (hu : IsApart u) (hne : t ≠ [])
    (htight : t.IsTight) (hopens : c.here.endsExpression = false)
    (hrun : inner.assignment.CompletesAt c quiets fun _ d => d.Faces (symbols u)) :
    (expression inner).CompletesAt c (expressed source (withSubtypeOperator t))
      fun _ d => d.StandsAt source u := by
  obtain ⟨events, v, d, hrun, hquiet, hfaces⟩ := hrun
  obtain ⟨⟨warnings, hinside⟩, hreaches⟩ := (hreports.assignment c hc.laid).mem_and_reaches hrun
  obtain rfl := hinside.quiet.mpr hquiet
  obtain ⟨hstands, hslice⟩ := hc.of_reaches (hspells.splits hu) hreaches hfaces
  exact ⟨_, (), d, expression_of_run hopens hrun,
    Expression.bounded c.here.toSpan d.before.toSpan hinside (hslice hne htight), hstands⟩

/-- The reading of an expression that makes no type test, in front of the text `u`. -/
theorem completesAt_expressed {width : Option Nat} (hreports : inner.Reports source width)
    (hc : c.StandsAt source (t ++ u)) (hspells : t.Spells ps) (hu : IsApart u) (hne : t ≠ [])
    (htight : t.IsTight) (hnoTest : ∀ p ∈ ps, p.isWord "instanceof".toList = false)
    (hopens : c.here.endsExpression = false)
    (hrun : inner.assignment.CompletesAt c quiets fun _ d => d.Faces (symbols u)) :
    (expression inner).CompletesAt c (expressed source t) fun _ d => d.StandsAt source u := by
  have hshown := completesAt_shown hreports hc hspells hu hne htight hopens hrun
  rwa [withSubtypeOperator_eq hspells hnoTest] at hshown

end Reading

namespace Text.IsExpression

variable {e u : Text} {ps : List Token} {levels : Nat} {c : Cursor}

theorem completesAt_quiets (h : e.IsExpression options) (hps : e.Spells ps)
    (hlevels : 127 ≤ levels) {first : Token} {rest : List Token} (hfirst : first.Delimits)
    (hc : c.Faces (ps ++ first :: rest)) :
    (Reading.expression (Enclosed.within levels)).CompletesAt c quiets
      fun _ d => d.Faces (first :: rest) := by
  obtain ⟨p, ts, rfl, hopens, -⟩ := h.exists_first hps
  have hhere : c.here.endsExpression = false :=
    (congrArg Token.endsExpression hc.here_eq).trans hopens
  exact Reading.completesAt_quiet hhere (h.completesAt_assignment hps hlevels hfirst hc)

/-- In front of a text that starts with a delimiter the expression is read as it is written. -/
theorem completesAt (h : e.IsExpression options) (hlevels : 127 ≤ levels)
    (hc : c.StandsAt source (e ++ u)) (hu : IsApart u)
    (hdelimits : ∃ first rest, symbols u = first :: rest ∧ first.Delimits) :
    (Reading.expression (Enclosed.within levels)).CompletesAt c (Reading.expressed source e)
      fun _ d => d.StandsAt source u := by
  obtain ⟨ps, hps, -⟩ := h.nested
  obtain ⟨first, rest, hsymbols, hfirst⟩ := hdelimits
  have hfaces := hc.faces
  rw [(hps.splits hu).symbols_eq, hsymbols] at hfaces
  have hrun := h.completesAt_assignment hps hlevels hfirst hfaces
  obtain ⟨p, ts, rfl, hopens, -⟩ := h.exists_first hps
  have hhere : c.here.endsExpression = false :=
    (congrArg Token.endsExpression hfaces.here_eq).trans hopens
  rw [← hsymbols] at hrun
  exact Reading.completesAt_expressed (Enclosed.reports_within source none levels) hc hps hu
    (ne_nil_of_spells hps) h.tight (h.noTest hps) hhere hrun

end Text.IsExpression

end CodeFrames
