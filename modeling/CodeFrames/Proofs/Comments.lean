import CodeFrames.Proofs.Brackets
import CodeFrames.Proofs.Walk

/-!
# Every comment is reported once

The comments of a source wait at the cursor in their order.  A walk takes them from the front, so what
it has reported is the first of them whatever it steps over, and a walk that gets to the end of input
has reported all: none of them starts behind it.
-/

namespace CodeFrames

/-- No comment is the end of input, so each starts in front of it. -/
theorem start_lt_of_isEnd {source : Text} {tokens : List Token} (htokens : lex source = .ok tokens)
    {t last : Token} (ht : t ∈ tokens) (hkind : t.kind = .comment) (hmem : last ∈ tokens)
    (hlast : last.isEnd = true) : t.start < last.start := by
  have hlaid := laid_of_lex htokens
  have hend : ¬ t.isEnd := by simp [Token.isEnd, hkind]
  have hnonempty := start_lt_stop_of_lex htokens t ht hend
  obtain ⟨inside, end', rfl, -, hinside⟩ := hlaid.ended
  obtain rfl : last = end' := by
    rcases List.mem_append.mp hmem with hmem | hmem
    · exact absurd hlast (hinside last hmem)
    · simpa using hmem
  obtain ⟨-, -, hordered⟩ := List.pairwise_append.mp hlaid.ordered
  refine Nat.lt_of_lt_of_le hnonempty (hordered t ?_ last List.mem_cons_self)
  rcases List.mem_append.mp ht with ht | ht
  · exact ht
  · obtain rfl := List.mem_singleton.mp ht
    exact absurd hlast hend

namespace Reading

/-- Reading members ends with the comments in front of the end of input. -/
theorem exists_relieved_of_members {inner : Enclosed} {c d : Cursor} {events : List Event}
    (hrun : members inner c = (events, .ok ((), d))) : ∃ e : Cursor, d = e.relieved := by
  rw [members_eq] at hrun
  obtain ⟨first, _, e, later, -, hcomments, -⟩ := exists_of_bind_ok hrun
  cases e.reportComments_eq.symm.trans hcomments
  exact ⟨e, rfl⟩

/-- At the end of input no comment waits. -/
theorem comments_of_members {source : Text} {tokens : List Token} {inner : Enclosed} {c d : Cursor}
    {events : List Event} (htokens : lex source = .ok tokens) (hinner : inner.Brackets source Token.Unread)
    (hc : Cursor.ofTokens tokens = some c) (hrun : members inner c = (events, .ok ((), d)))
    (hsuffix : d.comments <:+ c.comments) : d.comments = [] := by
  have hsited := Cursor.sited_of_ofTokens (laid_of_lex htokens) hc
  obtain ⟨hend, ⟨passed, hpassed, -⟩, -⟩ := brackets_members hinner hsited hrun
  obtain ⟨e, rfl⟩ := exists_relieved_of_members hrun
  have hcode := Cursor.tokens_of_ofTokens hc
  have hhere : e.here ∈ tokens := by
    have : e.here ∈ c.tokens := hpassed ▸ List.mem_append_right _ List.mem_cons_self
    rw [hcode] at this
    exact (List.mem_filter.mp this).1
  refine List.eq_nil_iff_forall_not_mem.mpr ?_
  have hbehind {t : Token} (ht : t ∈ e.relieved.comments) : t.start < e.here.start := by
    have hmem := hsuffix.subset ht
    rw [Cursor.comments_of_ofTokens hc, List.mem_filter, decide_eq_true_eq] at hmem
    exact start_lt_of_isEnd htokens hmem.1 hmem.2 hhere hend
  -- The first comment that still waits is not due.
  cases hcomments : e.relieved.comments with
  | nil => simp
  | cons t rest =>
      have hdue := List.head?_dropWhile_not (fun t : Token => decide (t.start < e.here.start)) e.comments
      rw [show e.comments.dropWhile _ = t :: rest from hcomments, List.head?_cons] at hdue
      exact absurd (hbehind (hcomments ▸ List.mem_cons_self)) (by simpa using hdue)

end Reading

/-- The comments are reported from the first on, all of them if the source is read to its end, and each
at a cursor whose token stands behind it. -/
theorem comments_reported {source : Text} {tokens : List Token} (htokens : lex source = .ok tokens) :
    (readEvents source).1.filterMap Event.comment? <+:
        (tokens.filter (·.kind = .comment)).map Token.toSpan ∧
      ((readEvents source).2 = .ok () → (readEvents source).1.filterMap Event.comment? =
        (tokens.filter (·.kind = .comment)).map Token.toSpan) ∧
      ∃ start, Cursor.ofTokens tokens = some start ∧
        (∃ trace result, (Reading.members (Enclosed.within nestingLimit)).Walk start trace result) ∧
        ∀ trace result, (Reading.members (Enclosed.within nestingLimit)).Walk start trace result →
          trace.map Prod.fst = (readEvents source).1 ∧
          (result.map fun _ => ()) = (readEvents source).2 ∧
          ∀ e c, (e, c) ∈ trace → ∀ comment, e.comment? = some comment →
            comment.start < c.here.start := by
  obtain ⟨c, hc⟩ := Cursor.exists_ofTokens (laid_of_lex htokens)
  obtain ⟨trace, hwalk, htrace⟩ := Reading.Walks.members (Enclosed.walks_within nestingLimit) c
  have hevents : (readEvents source).1 =
      (Reading.members (Enclosed.within nestingLimit) c).1 := by simp only [readEvents, htokens, hc]
  have hresult : (readEvents source).2 =
      (Reading.members (Enclosed.within nestingLimit) c).2.map fun _ => () := by
    simp only [readEvents, htokens, hc]
  obtain ⟨reported, rest, hcomments, hspans, hrest⟩ := hwalk.comments_eq
  have hreported : (readEvents source).1.filterMap Event.comment? = reported.map Token.toSpan := by
    rw [hevents, ← htrace, List.filterMap_map]
    exact hspans
  rw [Cursor.comments_of_ofTokens hc] at hcomments
  refine ⟨?_, fun hread => ?_, c, hc, ⟨trace, _, hwalk⟩, fun other result hother => ?_⟩
  · rw [hreported, hcomments, List.map_append]
    exact List.prefix_append _ _
  · obtain ⟨c', d, hc', hrun⟩ := exists_members_of_readEvents htokens hread
    obtain rfl : c = c' := Option.some.inj (hc.symm.trans hc')
    obtain rfl : d.comments = rest := hrest () d (congrArg Prod.snd hrun)
    have hnone : d.comments = [] :=
      Reading.comments_of_members htokens (Enclosed.brackets_within source Token.Unread nestingLimit) hc hrun
        ⟨reported, by rw [Cursor.comments_of_ofTokens hc, hcomments]⟩
    rw [hreported, hcomments, hnone, List.append_nil]
  · have hrun := hother.run_eq
    exact ⟨by rw [hevents, hrun], by rw [hresult, hrun], hother.start_lt_of_comment⟩

/-- Comments at the start, inside a call and at the end. -/
def commentedCall : Text := "/* a */ f(/* b */);\n// c".toList

theorem comments_reported_call :
    (readEvents commentedCall).1.filterMap Event.comment? = [⟨1, 0, 7⟩, ⟨1, 10, 17⟩, ⟨2, 20, 24⟩] := by
  obtain ⟨tokens, htokens⟩ : ∃ tokens, lex commentedCall = .ok tokens :=
    Except.exists_of_isOk (by decide +kernel)
  have hcomments : (tokens.filter (·.kind = .comment)).map Token.toSpan =
      [⟨1, 0, 7⟩, ⟨1, 10, 17⟩, ⟨2, 20, 24⟩] := by
    have h : (lex commentedCall).toOption.map (fun tokens =>
        (tokens.filter (·.kind = .comment)).map Token.toSpan) =
          some [⟨1, 0, 7⟩, ⟨1, 10, 17⟩, ⟨2, 20, 24⟩] := by decide +kernel
    rw [htokens] at h
    exact Option.some.inj h
  rw [(comments_reported htokens).2.1 (by decide +kernel), hcomments]

end CodeFrames
