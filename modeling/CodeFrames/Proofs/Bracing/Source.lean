import CodeFrames.Proofs.Bracing.Lexing
import CodeFrames.Proofs.Bracing.Member
import CodeFrames.Proofs.Nesting

/-!
# Sources with braces around a statement

A stretch of a source is a statement there if the source is not read to its end when just that
statement is refused.  Then the tokens of the source are those in front of the statement, those of the
statement and those behind it, and with the braces the source is read with one level more.
-/

namespace CodeFrames

open Token

namespace Token

variable {source : Text} {ps after : List Token} {t : Token}

theorem kind_of_mem_code (h : t ∈ code ps) : t.kind ≠ .comment := by
  simpa using (List.mem_filter.mp h).2

/-- Tokens that all brackets are closed behind. -/
theorem Laid.matched (h : Laid source (ps ++ after)) (hafter : after ≠ [])
    (hclosed : openBrackets? [] (ps ++ after) = some []) : Matched (code ps) := by
  rw [openBrackets?_append] at hclosed
  obtain ⟨opened, hopened, -⟩ := Option.bind_eq_some_iff.mp hclosed
  exact ⟨⟨[], opened, (openBrackets?_code [] ps).trans hopened⟩, fun t ht =>
    h.not_isEnd hafter t (List.mem_of_mem_filter ht)⟩

theorem code_map_shift (lines bytes : Nat) (ts : List Token) :
    code (ts.map (shift lines bytes)) = (code ts).map (shift lines bytes) :=
  filter_map_shift (fun _ _ _ => rfl) lines bytes ts

end Token

/-- Every statement has something behind it. -/
theorem Enclosed.without_nil (whole : List Token) (levels : Nat) : without whole [] levels = within levels := by
  induction levels with
  | zero => rfl
  | succ levels ih =>
      refine congrArg (fun statement => { within (levels + 1) with statement }) (funext fun c => ?_)
      change (Reading.statement (without whole [] levels) >>= fun _ => Reading.cursor >>= fun d =>
        if c.tokens = whole ∧ d.tokens = [] then Reading.fail .nestedTooDeep else Pure.pure ()) c =
          Reading.statement (within levels) c
      rw [ih]
      cases hrun : Reading.statement (within levels) c with
      | mk events outcome =>
          cases outcome with
          | error e => rw [Reading.bind_of_error _ hrun]
          | ok behind =>
              obtain ⟨u, d⟩ := behind
              rw [Reading.bind_of_ok _ hrun, Reading.cursor_bind, if_neg fun h => List.cons_ne_nil _ _ h.2]
              exact Prod.ext (List.append_nil _) rfl

/-- The events of a source if the statement from the first tokens to the second is refused. -/
def readEventsWithout (whole rest : List Token) (source : Text) : List Event × Except SourceError Unit :=
  match lex source with
  | .error e => ([], .error e)
  | .ok tokens =>
      match Cursor.ofTokens tokens with
      | none => ([], .ok ())
      | some cursor =>
          let (events, result) := Reading.members (Enclosed.without whole rest nestingLimit) cursor
          (events, result.map fun _ => ())

namespace Bracing

/-- The stretch is a statement that is read in the source. -/
structure IsStatement (b : Bracing) (tokens inside behind : List Token) : Prop where
  split : ∃ passed, code tokens = passed ++ (inside ++ behind)
  start : inside.head?.map (·.start) = some b.start
  stop : inside.getLast?.map (·.stop) = some b.stop
  read : (readEventsWithout (inside ++ behind) behind b.source).2 ≠ .ok ()

/-- The tokens of a source are those at the place of the statement and those in front. -/
structure Site.Splits {b : Bracing} (σ : b.Site) (tokens passed pending : List Token) : Prop where
  code_eq : code tokens = passed ++ σ.rest
  comments_eq : tokens.filter (·.kind = .comment) = pending ++ σ.comments
  matched : Matched passed
  early : ∀ t ∈ passed, ∀ u ∈ σ.comments ++ σ.comments', t.start ≤ u.start

variable {b : Bracing} {tokens inside behind : List Token}

/-- The place of a statement in a source, and the tokens of the source with the braces. -/
theorem IsStatement.exists_site (h : b.IsStatement tokens inside behind) (hlex : lex b.source = .ok tokens)
    (hclosed : openBrackets? [] tokens = some []) (hbehind : behind ≠ []) :
    ∃ (σ : b.Site) (passed pending : List Token), σ.Splits tokens passed pending ∧
      σ.inside = inside ∧ σ.behind = behind ∧
      ((∀ t ∈ passed.getLast?, t.kind = .dot → ∀ u ∈ inside.head?, Reading.endsLambdaBody u = true) →
        (∀ t ∈ inside.getLast?, t.kind = .dot → ∀ u ∈ behind.head?, Reading.endsLambdaBody u = true) →
        ∃ tokens', lex b.braced = .ok tokens' ∧ code tokens' = passed ++ σ.opening :: σ.rest' ∧
          tokens'.filter (·.kind = .comment) = pending ++ σ.comments') := by
  obtain ⟨passed, hsplit⟩ := h.split
  obtain ⟨first, hfirst, hstart⟩ := Option.map_eq_some_iff.mp h.start
  obtain ⟨last, hlast, hstop⟩ := Option.map_eq_some_iff.mp h.stop
  obtain ⟨before, stretch, after, rfl, hhead, hfinal, rfl, rfl⟩ := exists_stretch_of_code hsplit hfirst hlast
  obtain rfl : code before = passed := by
    rw [code_append, code_append] at hsplit
    exact List.append_cancel_right hsplit
  have hmem {t : Token} {ts : List Token} (ht : t ∈ code ts) : t ∈ ts := List.mem_of_mem_filter ht
  have hafter : after ≠ [] := by
    rintro rfl
    exact hbehind rfl
  have hlaid := laid_of_lex hlex
  have hlater : Laid b.source (stretch ++ after) := hlaid.drop (List.append_ne_nil_of_right_ne_nil _ hafter)
  have hlastMem : last ∈ stretch := List.mem_of_getLast? hfinal
  have hmatched : Matched (code before ++ code stretch) := by
    rw [← code_append]
    rw [← List.append_assoc] at hlaid hclosed
    exact hlaid.matched hafter hclosed
  obtain ⟨opening, closing, hopening, hopeningStart, hclosing, hclosingStart, hbraced⟩ :=
    exists_braces hlex rfl hhead hfinal (hlater.not_isEnd hafter last hlastMem)
      (kind_of_mem_code (List.mem_of_head? hfirst)) (kind_of_mem_code (List.mem_of_getLast? hlast)) hstart hstop
  have hwhole : first ∈ (stretch ++ after).head? := by
    rw [List.head?_append, hhead]
    rfl
  let σ : b.Site :=
    { inside := code stretch
      behind := code after
      insideComments := stretch.filter (·.kind = .comment)
      behindComments := after.filter (·.kind = .comment)
      opening, closing
      inside_ne := List.ne_nil_of_mem (List.mem_of_getLast? hlast)
      behind_ne := hbehind
      opening_kind := hopening
      closing_kind := hclosing
      opening_start := hopeningStart
      closing_start := hclosingStart
      first := fun t ht => by rw [Option.some.inj (ht.symm.trans hfirst), hstart]
      stops := fun t ht => hstop ▸ hlater.stop_le_of_getLast hfinal (hmem ht)
      starts := fun t ht => hstop ▸ hlater.stop_le_start hlastMem (hmem ht)
      matched := hmatched.of_append.2
      early := fun t ht u hu => hlater.start_le_start (hmem ht) (List.mem_of_mem_filter hu)
      late := fun u hu => hstart ▸ hlater.start_le_of_head hwhole (by
        rw [← List.filter_append] at hu
        exact List.mem_of_mem_filter hu) }
  have hcomments : σ.comments = (stretch ++ after).filter (·.kind = .comment) := (List.filter_append ..).symm
  refine ⟨σ, code before, before.filter (·.kind = .comment), ⟨hsplit, ?_, hmatched.of_append.1, fun t ht => ?_⟩,
    rfl, rfl, fun hfront hback => ⟨_, hbraced (fun t ht hdot => hfront t ht hdot first hfirst)
      (fun hdot t ht => hback last hlast hdot t ht), ?_, ?_⟩⟩
  · rw [List.filter_append, hcomments]
  · exact σ.le_start_of_comments fun u hu =>
      hlaid.start_le_start (hmem ht) (List.mem_of_mem_filter (hcomments ▸ hu))
  · have hopen : opening.kind ≠ .comment := by rw [hopening]; decide
    have hclose : closing.kind ≠ .comment := by rw [hclosing]; decide
    rw [code_append, code_cons hopen, code_append, code_cons hclose, code_map_shift, code_map_shift]
    rfl
  · have hshift := @filter_map_shift (fun t => decide (t.kind = .comment)) (fun _ _ _ => rfl) 0
    simp [List.filter_append, hshift, hopening, hclosing, Site.comments', σ]

theorem IsStatement.members_ne {c d : Cursor} {events : List Event} (h : b.IsStatement tokens inside behind)
    (hlex : lex b.source = .ok tokens) (hc : Cursor.ofTokens tokens = some c)
    (hrun : Reading.members (Enclosed.within nestingLimit) c = (events, .ok ((), d))) :
    Reading.members (.without (inside ++ behind) behind nestingLimit) c ≠
      Reading.members (Enclosed.within nestingLimit) c := fun heq =>
  h.read (by simp only [readEventsWithout, hlex, hc, heq.trans hrun]; rfl)

/-- A statement that is read has something behind it. -/
theorem IsStatement.behind_ne (h : b.IsStatement tokens inside behind) (hlex : lex b.source = .ok tokens)
    (hread : (readEvents b.source).2 = .ok ()) : behind ≠ [] := by
  obtain ⟨c, d, hc, hrun⟩ := exists_members_of_readEvents hlex hread
  rintro rfl
  exact h.members_ne hlex hc hrun (by rw [Enclosed.without_nil])

/-- A dot in front of the statement or at its end has the end of a lambda behind it. -/
theorem Site.Hole.endsLambdaBody {σ : b.Site} {passed : List Token} {c hole : Cursor} (h : σ.Hole hole)
    (hspans : c.Spans passed hole) (hsettled : passed = [] ∨ hole.Settled) :
    (∀ t ∈ passed.getLast?, t.kind = .dot → ∀ u ∈ σ.inside.head?, Reading.endsLambdaBody u = true) ∧
      (∀ t ∈ σ.inside.getLast?, t.kind = .dot → ∀ u ∈ σ.behind.head?, Reading.endsLambdaBody u = true) := by
  obtain ⟨levels, events, d, hrun, hend⟩ := h.read
  obtain ⟨more, -, hinside, hbefore⟩ := (Enclosed.delivers_within b.source levels).moves _ _ _ _ h.sited hrun
  obtain rfl : σ.inside = more :=
    List.append_cancel_right (h.tokens.symm.trans (hinside.trans (congrArg _ hend)))
  have hlast {ts : List Token} {t s : Token} (ht : t ∈ ts.getLast?) : ts.getLastD s = t := by
    rw [List.getLastD_eq_getLast?, ht]
    rfl
  refine ⟨fun t ht hdot u hu => ?_, fun t ht hdot u hu => ?_⟩
  · rcases hsettled with rfl | hsettled
    · cases ht
    · obtain ⟨us, hus⟩ := List.head?_eq_some_iff.mp hu
      obtain rfl : hole.here = u :=
        (List.cons.inj (show hole.tokens = u :: (us ++ σ.behind) by rw [h.tokens, Site.rest, hus]; rfl)).1
      exact hsettled (by rwa [hspans.2, hlast ht])
  · have hsettles := Enclosed.settles_statement b.source levels hole h.sited events () d hrun
    obtain ⟨us, hus⟩ := List.head?_eq_some_iff.mp hu
    obtain rfl : d.here = u := (List.cons.inj (show d.tokens = u :: us from hend.trans hus)).1
    exact hsettles (by rwa [hbefore, hlast ht])

/-- The source starts at the same place with the braces. -/
theorem Site.start_eq {σ : b.Site} {passed : List Token} {c c' : Cursor} (h : c.tokens = passed ++ σ.rest)
    (h' : c'.tokens = passed ++ σ.opening :: σ.rest') : c'.here.start = c.here.start := by
  cases passed with
  | nil =>
      have hhere : c.here ∈ σ.rest.head? := by
        rw [← show c.tokens = σ.rest from h]
        rfl
      rw [show c'.here = σ.opening from (List.cons.inj h').1, σ.opening_start, start_of_head hhere]
  | cons t ts => rw [(List.cons.inj h').1, (List.cons.inj h).1]

/-- With the braces the source is read with one level more. -/
theorem IsStatement.exists_members (h : b.IsStatement tokens inside behind) (hlex : lex b.source = .ok tokens)
    (hclosed : openBrackets? [] tokens = some []) (hread : (readEvents b.source).2 = .ok ())
    (hlocks : LocksParenthesized (readEvents b.source).1 (code tokens)) :
    ∃ tokens' start c d events, lex b.braced = .ok tokens' ∧ Cursor.ofTokens tokens' = some start ∧
      c.Sited b.braced ∧ c.tokens = start.tokens ∧
      Reading.members (Enclosed.within (nestingLimit + 1)) c = (events, .ok ((), d)) ∧
      b.Twin (Assembly.Poised b.source b.options.commentWidth) (readEvents b.source).1 events := by
  obtain ⟨c, d, hc, hmembers⟩ := exists_members_of_readEvents hlex hread
  obtain ⟨σ, passed, pending, hsplits, rfl, rfl, hbraced⟩ := h.exists_site hlex hclosed (h.behind_ne hlex hread)
  have hsited := Cursor.sited_of_ofTokens (laid_of_lex hlex) hc
  have htokens : c.tokens = passed ++ σ.rest := (Cursor.tokens_of_ofTokens hc).trans hsplits.code_eq
  obtain ⟨first, e, -, hrounds, hevents⟩ :=
    Reading.exists_rounds_of_members (Enclosed.delivers_within b.source nestingLimit) hsited hmembers
  have hreadable : Site.Readable b.source 127 c := ⟨hsited, first, e, hrounds,
    (hevents ▸ (show c.tokens = code tokens from Cursor.tokens_of_ofTokens hc) ▸ hlocks : LocksParenthesized _ _).left⟩
  obtain ⟨ps, hole, hspans, hsettled, hhole, -, hsame⟩ :=
    Site.crosses_members (σ := σ) hreadable hsited _ () d hmembers (h.members_ne hlex hc hmembers)
  obtain rfl : passed = ps := List.append_cancel_right (htokens.symm.trans (hspans.1.trans (congrArg _ hhole.tokens)))
  obtain ⟨hfront, hback⟩ := hhole.endsLambdaBody hspans hsettled
  obtain ⟨tokens', hlex', hcode', hcomments'⟩ := hbraced hfront hback
  obtain ⟨start, hstart⟩ := Cursor.exists_ofTokens (laid_of_lex hlex')
  have hsited' := Cursor.sited_of_ofTokens (laid_of_lex hlex') hstart
  have htokens' : start.tokens = passed ++ σ.opening :: σ.rest' := (Cursor.tokens_of_ofTokens hstart).trans hcode'
  -- A source is taken to have its first token behind its start, and the brace may be the first one.
  let c' : Cursor := { start with before := c.before }
  have hc' : c'.Sited b.braced := by
    refine ⟨hsited'.laid, fun t ht => le_trans (le_of_eq ?_) (hsited'.behind t ht)⟩
    rw [show c'.before = c.here from Cursor.before_of_ofTokens hc, Cursor.before_of_ofTokens hstart,
      Site.start_eq htokens htokens']
  obtain ⟨events, d', hrun, htwin, -⟩ := hsame c'
    { tokens := htokens
      tokens' := htokens'
      before := rfl
      comments := ⟨pending, (Cursor.comments_of_ofTokens hc).trans hsplits.comments_eq,
        (Cursor.comments_of_ofTokens hstart).trans hcomments'⟩
      matched := hsplits.matched
      early := hsplits.early
      sited' := hc' }
  exact ⟨tokens', start, c', d', events, hlex', hstart, hc', rfl, hrun, htwin⟩

/-- Comments apart, the events of the source with the braces lead from the same assemblies to the same ones. -/
theorem IsStatement.exists_readEventsOver (h : b.IsStatement tokens inside behind) (hlex : lex b.source = .ok tokens)
    (hclosed : openBrackets? [] tokens = some []) (hread : (readEvents b.source).2 = .ok ())
    (hlocks : LocksParenthesized (readEvents b.source).1 (code tokens)) :
    ∃ events later, readEventsOver (Enclosed.within 1) b.braced = (later, .ok ()) ∧
      b.Twin (Assembly.Poised b.source b.options.commentWidth) (readEvents b.source).1 events ∧
      EventsResemble (standingIn b.options b.braced b.braced (fun _ => True) 0 0) events later ∧
      events ∈ Sentence.items b.braced b.options.commentWidth ∧
      later ∈ Sentence.items b.braced b.options.commentWidth := by
  obtain ⟨tokens', start, c, d, events, hlex', hstart, hc, htokens, hrun, htwin⟩ :=
    h.exists_members hlex hclosed hread hlocks
  have hsited := Cursor.sited_of_ofTokens (laid_of_lex hlex') hstart
  have hshares : b.braced.Shares b.braced (fun _ => True) 0 := fun _ _ hs => hs
  have hmirror := Reading.mirrors_members (Enclosed.mirrors_within (standingIn_pairing b.options hshares 0)
    (nestingLimit + 1)) c start
    ⟨⟨hc.laid, fun _ _ => ⟨trivial, trivial⟩, by rw [map_shift_zero, htokens]⟩, hc, hsited⟩
  have hreports := Reading.reports_members
    (Enclosed.reports_within b.braced b.options.commentWidth (nestingLimit + 1))
  unfold Reading.MirrorsAt at hmirror
  rw [hrun] at hmirror
  generalize hother : Reading.members (Enclosed.within (nestingLimit + 1)) start = outcome at hmirror
  cases hmirror with
  | @ok _ later _ _ _ e hevents _ _ =>
      refine ⟨events, later, ?_, htwin, hevents, ((hreports c hc.laid).mem_and_reaches hrun).1,
        ((hreports start hsited.laid).mem_and_reaches hother).1⟩
      simp only [readEventsOver, hlex', hstart, Enclosed.beneath_within, Nat.add_comm 1, hother]
      rfl

end Bracing

end CodeFrames
