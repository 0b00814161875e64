import CodeFrames.Proofs.Bracing.Source
import CodeFrames.Proofs.Concatenation

/-!
# Redundant braces

Braces around a statement make no difference to the elements, wherever the statement stands: in a block,
as the lone body of a branch or a loop, or outside of all declarations.  The word of a lock is the only
one that can be taken for a modifier when a brace stands further on, so it has to have its parenthesis.
-/

namespace CodeFrames

open Token

/-- With braces around a statement an accepted source has the same elements, but for the documentation,
and the same warnings, unless the nesting gets too deep. -/
theorem convert_braced {b : Bracing} {x : Conversion} {tokens inside behind : List Token}
    (hx : convert b.options b.source = .ok x) (htokens : lex b.source = .ok tokens)
    (hclosed : openBrackets? [] tokens = some []) (hstatement : b.IsStatement tokens inside behind)
    (hlocks : LocksParenthesized (readEvents b.source).1 (code tokens)) :
    (∃ line, convert b.options b.braced = .error (.faultySource ⟨line, .nestedTooDeep⟩)) ∨
      ∃ z, convert b.options b.braced = .ok z ∧
        undocumentedBlock z.elements = undocumentedBlock x.elements ∧ z.warnings = x.warnings := by
  obtain ⟨hread, comment, hrun⟩ := exists_run_of_convert hx
  obtain ⟨events, later, hover, htwin, hevents, hitems, hitems'⟩ :=
    hstatement.exists_readEventsOver htokens hclosed hread hlocks
  obtain ⟨others, left, hothers, hsame⟩ := htwin.exists_run hitems hrun
  obtain ⟨elements, pending, hlater, hsame'⟩ := Assembly.exists_run_of_standingIn (fun _ _ hs => hs) hevents hitems'
    hothers [] [] none
  rw [List.nil_append, List.nil_append, show (x.warnings.map fun w => (⟨w.line + 0, w.omission⟩ : Warning)) =
    x.warnings from List.map_id' _] at hlater
  rcases readEvents_limited (Enclosed.within 1) b.braced with hall | ⟨line, hdeep, hbegins⟩
  · have hbraced : readEvents b.braced = (later, .ok ()) := hall.symm.trans hover
    refine .inr ⟨⟨elements, x.warnings⟩, ?_, hsame'.trans hsame, rfl⟩
    have hwhole : (Assembly.start b.braced b.options).run later = _ := hlater
    simp only [convert, hbraced, hwhole, Except.ok_bind, Assembly.finish_updated]
  · refine .inl ⟨line, ?_⟩
    rw [hover] at hbegins
    obtain ⟨rest, rfl⟩ := hbegins
    rw [Assembly.run_append] at hlater
    obtain ⟨a, hbegun, -⟩ := Except.exists_of_bind hlater
    have hstopped : readEvents b.braced = ((readEvents b.braced).1, .error ⟨line, .nestedTooDeep⟩) :=
      Prod.ext rfl hdeep
    have hpart : (Assembly.start b.braced b.options).run (readEvents b.braced).1 = .ok a := hbegun
    rw [convert, hstopped]
    exact congrArg (· >>= _) hpart

/-- The tokens of a stretch that is read as a statement, told from how many are in front of it and how
many are in it. -/
theorem Bracing.exists_isStatement {b : Bracing} (before length : Nat)
    (h : (lex b.source).toOption.map (fun tokens =>
      let rest := (code tokens).drop before
      (openBrackets? [] tokens, (rest.take length).head?.map (·.start), (rest.take length).getLast?.map (·.stop),
        (readEventsWithout rest (rest.drop length) b.source).2.isOk)) = some (some [], some b.start, some b.stop, false)) :
    ∃ tokens inside behind, lex b.source = .ok tokens ∧ openBrackets? [] tokens = some [] ∧
      b.IsStatement tokens inside behind := by
  obtain ⟨tokens, hlex, hall⟩ := Except.exists_of_map_eq h
  simp only [Prod.mk.injEq] at hall
  obtain ⟨hclosed, hstart, hstop, hread⟩ := hall
  let rest := (code tokens).drop before
  refine ⟨tokens, rest.take length, rest.drop length, hlex, hclosed, ⟨(code tokens).take before, ?_⟩, hstart, hstop,
    fun hok => ?_⟩
  · rw [List.take_append_drop, List.take_append_drop]
  · rw [List.take_append_drop] at hok
    rw [hok] at hread
    cases hread

/-- A chain in a branch of another one, and a lock in front. -/
def danglingElse : Bracing :=
  ⟨.default, "synchronized (a) \x7b \x7d if (b) ".toList, "if (c) f(); else g();".toList, " h();".toList⟩

theorem convert_danglingElse_braced : ∃ x z, convert .default danglingElse.source = .ok x ∧
    convert .default danglingElse.braced = .ok z ∧
    undocumentedBlock z.elements = undocumentedBlock x.elements ∧ z.warnings = x.warnings := by
  obtain ⟨x, hx⟩ : ∃ x, convert .default danglingElse.source = .ok x := Except.exists_of_isOk (by decide +kernel)
  obtain ⟨tokens, inside, behind, htokens, hclosed, hstatement⟩ :=
    @Bracing.exists_isStatement danglingElse 10 13 (by decide +kernel)
  obtain ⟨others, hothers, hlocks⟩ := @Except.exists_of_map_eq _ _ _ (lex danglingElse.source)
    (fun tokens => decide (∀ p ∈ (code tokens).zip (code tokens).tail,
      Event.unsupported p.1.toSpan "'synchronized' statement" ∈ (readEvents danglingElse.source).1 →
        p.2.kind = .openParen)) true (by decide +kernel)
  obtain rfl := Except.ok.inj (htokens.symm.trans hothers)
  obtain ⟨line, herror⟩ | ⟨z, hz, helements, hwarnings⟩ :=
    convert_braced (b := danglingElse) hx htokens hclosed hstatement (.of_zip (of_decide_eq_true hlocks))
  · obtain ⟨z, hz⟩ : ∃ z, convert .default danglingElse.braced = .ok z := Except.exists_of_isOk (by decide +kernel)
    cases hz.symm.trans herror
  · exact ⟨x, z, hx, hz, helements, hwarnings⟩

/-- A lock without parentheses behind the word, what would be the name and the parameters of a
constructor, and a call. -/
def lockInFront : Bracing := ⟨.default, "synchronized @c() foo() ".toList, "z();".toList, []⟩

/-- The lock is stepped over through the arguments of the annotation and then through the parentheses
of the first call.  With the braces all of it is a constructor with two modifiers. -/
theorem not_convert_braced_everywhere : ¬ ∀ (b : Bracing) (x : Conversion) (tokens inside behind : List Token),
    convert b.options b.source = .ok x → lex b.source = .ok tokens → openBrackets? [] tokens = some [] →
    b.IsStatement tokens inside behind →
    (∃ line, convert b.options b.braced = .error (.faultySource ⟨line, .nestedTooDeep⟩)) ∨
      ∃ z, convert b.options b.braced = .ok z ∧
        undocumentedBlock z.elements = undocumentedBlock x.elements ∧ z.warnings.length = x.warnings.length := by
  intro hall
  obtain ⟨x, hx, hone⟩ : ∃ x, convert .default lockInFront.source = .ok x ∧ x.warnings.length = 1 :=
    Except.exists_of_map_eq (by decide +kernel)
  obtain ⟨z, hz, htwo⟩ : ∃ z, convert .default lockInFront.braced = .ok z ∧ z.warnings.length = 2 :=
    Except.exists_of_map_eq (by decide +kernel)
  obtain ⟨tokens, inside, behind, htokens, hclosed, hstatement⟩ :=
    @Bracing.exists_isStatement lockInFront 8 4 (by decide +kernel)
  obtain ⟨line, herror⟩ | ⟨z', hz', -, hwarnings⟩ :=
    hall lockInFront x tokens inside behind hx htokens hclosed hstatement
  · cases hz.symm.trans herror
  · obtain rfl := Except.ok.inj (hz.symm.trans hz')
    rw [hone, htwo] at hwarnings
    cases hwarnings

end CodeFrames
