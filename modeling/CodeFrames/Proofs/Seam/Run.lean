import CodeFrames.Proofs.Seam.Member

/-!
# Runs over a seam

Members are read one by one.  Where the source ended, the run goes on with what stands there instead,
and up to there it has reported the same events.
-/

namespace CodeFrames

open Token (Marked)

/-- Every lock that some events report as stepped over has a parenthesis right behind its word. -/
def LocksParenthesized (events : List Event) (tokens : List Token) : Prop :=
  ∀ before t next after, tokens = before ++ t :: next :: after →
    .unsupported t.toSpan "'synchronized' statement" ∈ events → next.kind = .openParen

namespace LocksParenthesized

variable {events more : List Event} {passed tokens : List Token}

/-- It is enough to look at the pairs of neighbours. -/
theorem of_zip (h : ∀ p ∈ tokens.zip tokens.tail,
    .unsupported p.1.toSpan "'synchronized' statement" ∈ events → p.2.kind = .openParen) :
    LocksParenthesized events tokens := by
  rintro before t next after rfl
  refine h (t, next) (List.mem_iff_getElem?.mpr ⟨before.length, ?_⟩)
  rw [List.getElem?_zip_eq_some, List.getElem?_tail]
  simp

theorem of_append (h : LocksParenthesized events (passed ++ tokens)) : LocksParenthesized events tokens :=
  fun before t next after hsplit => h (passed ++ before) t next after (by rw [hsplit, List.append_assoc])

theorem left (h : LocksParenthesized (events ++ more) tokens) : LocksParenthesized events tokens :=
  fun before t next after hsplit hmem => h before t next after hsplit (List.mem_append_left _ hmem)

theorem right (h : LocksParenthesized (events ++ more) tokens) : LocksParenthesized more tokens :=
  fun before t next after hsplit hmem => h before t next after hsplit (List.mem_append_right _ hmem)

end LocksParenthesized

namespace Reading

variable {source : Text} {s : Seam} {c d : Cursor} {events : List Event} {levels : Nat} {last : Token}

theorem kind_of_unsupported {construct : String} (h : statementShape c = .unsupported construct) :
    c.here.kind = .word := by
  rw [statementShape] at h
  split at h <;> first | assumption | cases h

/-- A lock is reported where it is stepped over. -/
theorem nextIs_of_locks (hc : c.Sited source) (hrun : member (Enclosed.within (levels + 1)) c = (events, .ok ((), d)))
    (hlocks : LocksParenthesized events c.tokens) (hshape : memberShape c = .statement)
    (hlock : statementShape c = .unsupported "'synchronized' statement") :
    c.nextIs (·.kind = .openParen) = true := by
  change memberOf _ (memberShape c) c = _ at hrun
  rw [hshape] at hrun
  obtain ⟨more, hmore, rfl⟩ := exists_of_reported
    ((congrFun (statement_eq_reported (Enclosed.within levels)) c).symm.trans hrun)
  change statementOf _ (statementShape c) c.relieved = _ at hmore
  rw [hlock] at hmore
  obtain ⟨first, _, _, _, hemit, -, rfl⟩ := exists_of_bind_ok (show
    (emit (.unsupported c.here.toSpan "'synchronized' statement") >>= fun _ => skipStatement) c.relieved =
      (more, .ok ((), d)) from hmore)
  have hcode := not_isEnd_of_kind (kind_of_unsupported hlock) (by decide)
  obtain ⟨next, after, hahead⟩ := List.exists_cons_of_length_pos (Nat.lt_of_succ_lt_succ
    (hc.laid.lt_length (n := 1) (by simpa [Cursor.tokens] using hcode)))
  rw [Cursor.nextIs, hahead]
  refine decide_eq_true (hlocks [] c.here next after ?_ (List.mem_append_right _ (List.mem_append_left _
    (unsupported_mem_of_emit hemit))))
  rw [Cursor.tokens, hahead, List.nil_append]

/-- A member is read the same in front of a seam if there is one. -/
theorem memberRound_local (hc : c.Sited source)
    (hlock : memberShape c = .statement → statementShape c = .unsupported "'synchronized' statement" →
      c.nextIs (·.kind = .openParen) = true) :
    (memberRound (Enclosed.within (levels + 1))).LocalAt s (· ≠ []) (fun again _ => again = true) c := by
  refine .here_bind (.ite (fun _ => (LocalAt.pure false).start fun _ => nofun) fun _ => ?_) fun _ => id
  exact .comments_bind ((member_local hc.relieved hlock).bind fun _ _ _ _ _ =>
    (LocalAt.pure true).start fun _ _ => trivial) fun _ => id

/-- What is read up to the end of input is read the same where something else stands there, and then
the run goes on. -/
theorem rounds_over_seam (hrest : s.rest = [last]) (hc : c.Sited source)
    (hrounds : Rounds (memberRound (Enclosed.within (levels + 1))) c events d)
    (hlocks : LocksParenthesized events c.tokens) {ps : List Token} {c' : Cursor} (hc' : s.At ps c c') :
    ∃ d', s.At [] d d' ∧ ∀ more e, Rounds (memberRound (Enclosed.within (levels + 1))) d' more e →
      Rounds (memberRound (Enclosed.within (levels + 1))) c' (events ++ more) e := by
  induction hrounds generalizing ps c' with
  | @last c d events hrun =>
      obtain ⟨hend, rfl, rfl⟩ := eq_of_memberRound_false hrun
      have hone := hc'.tokens.symm.trans (hc.laid.eq_singleton hend)
      rw [hrest] at hone
      obtain rfl : ps = [] := List.eq_nil_of_length_eq_zero (by simpa using congrArg List.length hone)
      exact ⟨c', hc', fun more e h => h⟩
  | @more c d e first others hfirst hless _ ih =>
      obtain ⟨more, hmember, rfl⟩ := exists_of_memberRound_true hfirst
      obtain ⟨hreaches, hlocal⟩ := memberRound_local hc
        (nextIs_of_locks (c := c.relieved) hc.relieved hmember hlocks.left.right) _ true d hfirst
      have hd := hc.reaching hreaches
      obtain ⟨passed, hpassed, -⟩ := hreaches
      obtain ⟨qs, final, hqs⟩ := (List.eq_nil_or_concat d.tokens).resolve_left (List.cons_ne_nil _ _)
      have hsplit : ps ++ [last] = (passed ++ qs) ++ [final] := by
        rw [← hrest, ← hc'.tokens, hpassed, hqs, List.concat_eq_append, List.append_assoc]
      obtain ⟨hps, hfinal⟩ := List.append_inj' hsplit rfl
      have htokens : d.tokens = qs ++ s.rest := by rw [hqs, hrest, hfinal, List.concat_eq_append]
      obtain ⟨ps', hps', -, hsame⟩ := hlocal qs htokens rfl
      obtain rfl := List.append_cancel_right (hc'.tokens.symm.trans hps')
      obtain ⟨d', hd', hat⟩ := hsame c' hc'
      obtain ⟨e', hend, hgo⟩ := ih hd (hpassed ▸ hlocks.right).of_append hat
      refine ⟨e', hend, fun later f h => ?_⟩
      rw [List.append_assoc]
      refine .more hd' (hc'.length_lt hat ?_) (hgo later f h)
      have hone := congrArg List.length hc'.tokens
      have htwo := congrArg List.length htokens
      simp only [Cursor.tokens, List.length_cons, List.length_append] at hone htwo
      omega

/-! ## How a source starts -/

/-- No source that can be read starts with a word that goes on with a statement. -/
theorem not_misplaced_of_members {u : Unit} (hrun : members (Enclosed.within (levels + 1)) c = (events, .ok (u, d))) :
    ∀ w ∈ ["else", "catch", "finally"], c.here.isWord w.toList = false := by
  rw [members_eq] at hrun
  obtain ⟨_, _, _, _, hrounds, -⟩ := exists_of_bind_ok hrun
  obtain ⟨first, again, e, hfirst⟩ := exists_of_repeatWhile hrounds
  cases again with
  | false =>
      have hkind : c.here.kind = .endOfInput := of_decide_eq_true (eq_of_memberRound_false hfirst).1
      exact fun w _ => by simp [Token.isWord, hkind]
  | true =>
      obtain ⟨more, hmember, -⟩ := exists_of_memberRound_true hfirst
      change memberOf _ (memberShape c) c.relieved = _ at hmember
      refine fun w hw => Bool.eq_false_iff.mpr fun hword => ?_
      obtain ⟨fault, hlookup⟩ : ∃ fault, statementWords.lookup w.toList = some (.misplaced fault) := by
        simp only [List.mem_cons, List.not_mem_nil, or_false] at hw
        rcases hw with rfl | rfl | rfl <;> exact ⟨_, rfl⟩
      have hkind := kind_of_isWord hword
      have htext : c.here.text = w.toList := of_decide_eq_true (Bool.and_eq_true_iff.mp hword).2
      rw [← htext] at hlookup
      rw [memberShape_of_statementWord hkind hlookup fun hlock => ?_] at hmember
      · obtain ⟨_, hmore, -⟩ := exists_of_reported
          ((congrFun (statement_eq_reported (Enclosed.within levels)) c.relieved).symm.trans hmember)
        change statementOf _ (statementShape c) c.relieved.relieved = _ at hmore
        rw [show statementShape c = .misplaced fault by
          simp [statementShape, hkind, wordStatementShape, hlookup]] at hmore
        cases hmore
      · rw [hlock] at hlookup
        cases hlookup

end Reading

end CodeFrames
