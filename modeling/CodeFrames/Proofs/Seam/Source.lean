import CodeFrames.Proofs.ExpressionTexts
import CodeFrames.Proofs.Seam.Run
import CodeFrames.Proofs.Seam.Standing

/-!
# Readings of sources one behind the other

A source in which every bracket is closed is read the same with another source behind it, and then the
other source is read as it is alone.
-/

namespace CodeFrames

open Token Sentence

namespace Token

theorem openBrackets?_code (kinds : List Kind) (ts : List Token) :
    openBrackets? kinds (ts.filter (·.kind ≠ .comment)) = openBrackets? kinds ts := by
  induction ts generalizing kinds with
  | nil => rfl
  | cons t ts ih =>
      by_cases hcomment : t.kind = .comment
      · have hopener : ¬ t.kind.isOpener := by rw [hcomment]; decide
        have hcloser : ¬ t.kind.isCloser := by rw [hcomment]; decide
        rw [List.filter_cons_of_neg (by simpa using hcomment), ih, openBrackets?_plain hopener hcloser]
      · rw [List.filter_cons_of_pos (by simpa using hcomment), openBrackets?_cons, openBrackets?_cons _ t ts]
        exact congrArg _ (funext fun opened => ih opened)

theorem filter_map_shift {p : Token → Bool} (hp : ∀ t lines bytes, p (shift lines bytes t) = p t)
    (lines bytes : Nat) (ts : List Token) :
    (ts.map (shift lines bytes)).filter p = (ts.filter p).map (shift lines bytes) := by
  rw [List.filter_map]
  exact congrArg _ (List.filter_congr fun t _ => hp t lines bytes)

theorem map_shift_zero (ts : List Token) : ts.map (shift 0 0) = ts := by
  rw [show shift 0 0 = id from rfl, List.map_id]

end Token

namespace Reading

variable {C : Comparison} {c d : Cursor} {events : List Event} {source : Text} {inner : Enclosed}

/-- A reading of a whole source: rounds up to the end of input, and then what comments are left. -/
theorem exists_rounds_of_members {u : Unit} (h : inner.Delivers source) (hc : c.Sited source)
    (hrun : members inner c = (events, .ok (u, d))) :
    ∃ first e, repeatWhile (memberRound inner) c = (first, .ok ((), e)) ∧
      Rounds (memberRound inner) c first e ∧ events = first ++ e.due.map fun t => .comment t.toSpan := by
  rw [members_eq] at hrun
  obtain ⟨first, _, e, later, hrepeat, hcomments, rfl⟩ := exists_of_bind_ok hrun
  cases e.reportComments_eq.symm.trans hcomments
  exact ⟨first, e, hrepeat, rounds_of_repeatWhile (P := (·.Sited source))
    (fun _ _ _ hc hrun => memberRound_true h hc hrun) hc hrepeat, rfl⟩

/-- Where rounds lead, the rest of the source is read. -/
theorem members_of_rounds {c' : Cursor} {first more : List Event} {d : Cursor}
    (hgo : ∀ more e, Rounds (memberRound inner) c more e → Rounds (memberRound inner) c' (first ++ more) e)
    (h : inner.Delivers source) (hc : c.Sited source) {u : Unit} (hrun : members inner c = (more, .ok (u, d))) :
    members inner c' = (first ++ more, .ok ((), d)) := by
  rw [members_eq] at hrun ⊢
  obtain ⟨others, _, e, later, hrepeat, hcomments, rfl⟩ := exists_of_bind_ok hrun
  have hrounds : repeatWhile (memberRound inner) c' = (first ++ others, .ok ((), e)) :=
    (hgo others e (rounds_of_repeatWhile (P := (·.Sited source))
      (fun _ _ _ hc hrun => memberRound_true h hc hrun) hc hrepeat)).loop (Nat.le_refl _)
  rw [bind_of_ok _ hrounds, hcomments, List.append_assoc]

end Reading

/-- Comments make no difference where no documentation is compared. -/
theorem EventsResemble.comments_nil {C : Comparison} (hany : ∀ d d', C.documentation d d') (ts : List Token) :
    EventsResemble C (ts.map fun t => .comment t.toSpan) [] := by
  induction ts with
  | nil => exact .nil
  | cons t ts ih => exact .commentLeft t.toSpan hany ih

section Sources

variable {front back : Text} {tokens : List Token} {last : Token}

theorem Cursor.before_of_ofTokens {c : Cursor} (hc : Cursor.ofTokens tokens = some c) : c.before = c.here := by
  unfold Cursor.ofTokens at hc
  split at hc <;> cases hc
  rfl

/-- The first source is read up to its end, and then there are the tokens of the other source. -/
theorem exists_rounds_of_append {c' : Cursor} {more whole : List Token}
    (hfront : lex front = .ok tokens) (hback : lex back = .ok more) (hlast : tokens.getLast? = some last)
    (hwhole : lex (front ++ '\n' :: back) = .ok whole) (hc' : Cursor.ofTokens whole = some c')
    (hread : (readEvents front).2 = .ok ()) (hread' : (readEvents back).2 = .ok ())
    (hclosed : openBrackets? [] tokens = some [])
    (hlocks : LocksParenthesized (readEvents front).1 (tokens.filter (·.kind ≠ .comment))) :
    ∃ c first e d', Cursor.ofTokens tokens = some c ∧
      Reading.repeatWhile (Reading.memberRound (Enclosed.within nestingLimit)) c = (first, .ok ((), e)) ∧
      (readEvents front).1 = first ++ (e.due.map fun t => .comment t.toSpan) ∧
      d'.tokens = (more.filter (·.kind ≠ .comment)).map (shift last.line (Text.byteSize front + 1)) ∧
      d'.Sited (front ++ '\n' :: back) ∧
      ∀ later f, Reading.Rounds (Reading.memberRound (Enclosed.within nestingLimit)) d' later f →
        Reading.Rounds (Reading.memberRound (Enclosed.within nestingLimit)) c' (first ++ later) f := by
  obtain ⟨inside, final, rfl, hend, -, hboth⟩ := lex_append hfront hback
  obtain rfl : final = last := by simpa using hlast
  obtain rfl := Except.ok.inj (hwhole.symm.trans hboth)
  obtain ⟨c, d, hc, hmembers⟩ := exists_members_of_readEvents hfront hread
  obtain ⟨b, f, hb, hother⟩ := exists_members_of_readEvents hback hread'
  have hsited := Cursor.sited_of_ofTokens (laid_of_lex hfront) hc
  have hsited' := Cursor.sited_of_ofTokens (laid_of_lex hwhole) hc'
  obtain ⟨first, e, hrepeat, hrounds, hevents⟩ :=
    Reading.exists_rounds_of_members (Enclosed.delivers_within front nestingLimit) hsited hmembers
  have hkind : final.kind = .endOfInput := of_decide_eq_true hend
  let passed := inside.filter (·.kind ≠ .comment)
  let later := (more.filter (·.kind ≠ .comment)).map (shift final.line (Text.byteSize front + 1))
  have htokens : c.tokens = passed ++ [final] := by
    rw [Cursor.tokens_of_ofTokens hc, List.filter_append]
    simp [passed, hkind]
  have htokens' : c'.tokens = passed ++ later := by
    rw [Cursor.tokens_of_ofTokens hc', List.filter_append]
    exact congrArg _ (filter_map_shift (fun _ _ _ => rfl) _ _ _)
  have hcomments : c'.comments = c.comments ++
      (more.filter (·.kind = .comment)).map (shift final.line (Text.byteSize front + 1)) := by
    rw [Cursor.comments_of_ofTokens hc', Cursor.comments_of_ofTokens hc, List.filter_append, List.filter_append,
      filter_map_shift (fun _ _ _ => rfl)]
    simp [hkind]
  have hstart : later.head? = some (b.here.shift final.line (Text.byteSize front + 1)) := by
    simp only [later, ← Cursor.tokens_of_ofTokens hb]
    rfl
  have hwords := Reading.not_misplaced_of_members
    (show Reading.members (Enclosed.within (127 + 1)) b = _ from hother)
  let s : Seam :=
    { rest := [final], rest' := later,
      comments := []
      comments' := (more.filter (·.kind = .comment)).map (shift final.line (Text.byteSize front + 1))
      source' := front ++ '\n' :: back
      rest_ne := List.cons_ne_nil _ _
      rest_ne' := by
        rintro hnil
        rw [hnil] at hstart
        cases hstart
      word := fun hw hat => by
        rw [hstart] at hat
        exact absurd ((hwords _ hw).symm.trans hat) Bool.false_ne_true }
  by_cases hnone : passed = []
  · rw [hnone] at htokens htokens'
    have hhere : c.here.isEnd = true := by rwa [(List.cons.inj htokens).1]
    have hround : Reading.memberRound (Enclosed.within nestingLimit) c = ([], .ok (false, c)) := by
      change (if c.here.isEnd = true then _ else _ : Reading Bool) c = _
      rw [if_pos hhere]
      rfl
    cases (Reading.loop_of_false hround c.ahead).symm.trans hrepeat
    exact ⟨c, [], c, c', hc, hrepeat, hevents, htokens', hsited', fun later f h => h⟩
  · have hat : s.At passed c c' :=
      { tokens := htokens
        tokens' := htokens'
        before := by
          rw [Cursor.before_of_ofTokens hc', Cursor.before_of_ofTokens hc]
          obtain ⟨t, ts, hpassed⟩ := List.exists_cons_of_ne_nil hnone
          rw [hpassed] at htokens htokens'
          exact (List.cons.inj htokens').1.trans (List.cons.inj htokens).1.symm
        comments := ⟨c.comments, (List.append_nil _).symm, hcomments⟩
        matched := by
          refine ⟨⟨[], [], ?_⟩, ?_⟩
          · rw [← openBrackets?_code, ← Cursor.tokens_of_ofTokens hc, htokens, openBrackets?_append] at hclosed
            obtain ⟨opened, hopened, hrest⟩ := Option.bind_eq_some_iff.mp hclosed
            rw [openBrackets?_plain_singleton (by rw [hkind]; decide) (by rw [hkind]; decide)] at hrest
            rw [hopened, Option.some.inj hrest]
          · exact (htokens ▸ hsited.laid).not_isEnd (List.cons_ne_nil _ _)
        early := fun t ht u hu => by
          have hle := (List.pairwise_append.mp (laid_of_lex hwhole).ordered).2.2 t (List.mem_of_mem_filter ht) u
            ((List.filter_sublist.map _).subset hu)
          exact (((laid_of_lex hwhole).liesIn t (List.mem_append_left _
            (List.mem_of_mem_filter ht))).start_le_stop).trans hle
        sited' := hsited' }
    obtain ⟨d', hd', hgo⟩ := Reading.rounds_over_seam rfl hsited
      (show Reading.Rounds (Reading.memberRound (Enclosed.within (127 + 1))) _ _ _ from hrounds)
      (hevents ▸ Cursor.tokens_of_ofTokens hc ▸ hlocks).left hat
    exact ⟨c, first, e, d', hc, hrepeat, hevents, hd'.tokens', hd'.sited', hgo⟩

/-- The other source is read behind the first one as it is alone. -/
theorem readEvents_append (options : Options) {more : List Token}
    (hfront : lex front = .ok tokens) (hback : lex back = .ok more) (hlast : tokens.getLast? = some last)
    (hread : (readEvents front).2 = .ok ()) (hread' : (readEvents back).2 = .ok ())
    (hclosed : openBrackets? [] tokens = some [])
    (hlocks : LocksParenthesized (readEvents front).1 (tokens.filter (·.kind ≠ .comment))) :
    ∃ first later, readEvents (front ++ '\n' :: back) = (first ++ later, .ok ()) ∧
      EventsResemble (standingIn options front (front ++ '\n' :: back) (fun _ => True) 0 0)
        (readEvents front).1 first ∧
      EventsResemble (standingIn options back (front ++ '\n' :: back) (fun _ => True) last.line
        (Text.byteSize front + 1)) (readEvents back).1 later ∧
      first ∈ items (front ++ '\n' :: back) options.commentWidth ∧
      later ∈ items (front ++ '\n' :: back) options.commentWidth := by
  obtain ⟨inside, final, -, -, -, hwhole⟩ := lex_append hfront hback
  obtain ⟨c', hc'⟩ := Cursor.exists_ofTokens (laid_of_lex hwhole)
  obtain ⟨c, first, e, d', hc, hrepeat, hevents, htokens, hd', hgo⟩ :=
    exists_rounds_of_append hfront hback hlast hwhole hc' hread hread' hclosed hlocks
  obtain ⟨b, f, hb, hother⟩ := exists_members_of_readEvents hback hread'
  have hsited := Cursor.sited_of_ofTokens (laid_of_lex hfront) hc
  have hsited' := Cursor.sited_of_ofTokens (laid_of_lex hback) hb
  have hstands := Text.standsIn_left front ('\n' :: back)
  have hlaid := hsited.laid.standing hstands 0
  rw [map_shift_zero] at hlaid
  have hfirst := Reading.Mirrors.rounds (Reading.mirrors_memberRound (Enclosed.mirrors_within
    (standingIn_pairing options hstands.shares 0) nestingLimit)) c c
    ⟨⟨hsited.laid, fun _ _ => ⟨trivial, trivial⟩, (map_shift_zero _).symm⟩, hsited, hlaid, hsited.behind⟩
  have hlater := Reading.mirrors_members (Enclosed.mirrors_within
    (standingIn_pairing options (Text.standsIn_behind front back).shares last.line) nestingLimit) b d'
    ⟨⟨hsited'.laid, fun _ _ => ⟨trivial, trivial⟩, by rw [htokens, Cursor.tokens_of_ofTokens hb]⟩, hsited', hd'⟩
  have hreports := Reading.Reports.repeatWhile_kstar (Reading.reports_memberRound
    (Enclosed.reports_within (front ++ '\n' :: back) options.commentWidth nestingLimit)) c hlaid
  have hreports' := Reading.reports_members
    (Enclosed.reports_within (front ++ '\n' :: back) options.commentWidth nestingLimit) d' hd'.laid
  unfold Reading.MirrorsAt at hfirst hlater
  unfold Reading.ReportsAt at hreports hreports'
  rw [hrepeat] at hfirst hreports
  rw [hother] at hlater
  generalize hmembers : Reading.members (Enclosed.within nestingLimit) d' = result at hlater hreports'
  cases hfirst with
  | ok hfirst =>
      cases hlater with
      | @ok _ later _ _ _ g hlater =>
          refine ⟨first, later, ?_, ?_, hlater, items_kstar hreports.1, hreports'.1⟩
          · simp only [readEvents, hwhole, hc', Reading.members_of_rounds hgo
              (Enclosed.delivers_within (front ++ '\n' :: back) nestingLimit) hd' hmembers]
            rfl
          · rw [hevents, ← List.append_nil first, List.append_assoc]
            exact hfirst.append (EventsResemble.comments_nil (fun _ _ => trivial) e.due)

end Sources

end CodeFrames
