import CodeFrames.Proofs.Seam.Assembly
import CodeFrames.Proofs.Seam.Source

/-!
# Sources one behind the other

A source in which every bracket is closed gives the same elements with another source behind it, and
then the elements of the other source follow.  The word of a lock is the only one that can be taken for
a modifier of what stands behind the seam, so it has to have its parenthesis.
-/

namespace CodeFrames

open Token

variable {options : Options} {front back : Text} {x y : Conversion} {tokens : List Token} {last : Token}

/-- The events of an accepted source lead to the elements and the warnings of its conversion. -/
theorem exists_run_of_convert (h : convert options front = .ok x) :
    (readEvents front).2 = .ok () ∧ ∃ comment,
      (Assembly.start front options).run (readEvents front).1 =
        .ok ((Assembly.start front options).updated [.root x.elements] x.warnings comment) := by
  obtain ⟨events, a, hread, hrun, hfinish⟩ := exists_of_convert h
  obtain rfl : (readEvents front).1 = events := congrArg Prod.fst hread
  obtain ⟨elements, warnings, comment, rfl, hend⟩ :=
    finish_readEvents options front a (congrArg Prod.snd hread) hrun
  obtain rfl := Except.ok.inj (hend.symm.trans hfinish)
  exact ⟨congrArg Prod.snd hread, comment, hrun⟩

/-- A source that is read to its end has tokens. -/
theorem exists_lex_of_readEvents (h : (readEvents back).2 = .ok ()) : ∃ more, lex back = .ok more := by
  cases hlex : lex back with
  | error e =>
      rw [readEvents, hlex] at h
      cases h
  | ok more => exact ⟨more, rfl⟩

/-- Two accepted sources, with a line end between them, are accepted as one source: the elements of the
second follow those of the first, and so do the warnings, with their lines counted on. -/
theorem convert_append (hx : convert options front = .ok x) (hy : convert options back = .ok y)
    (htokens : lex front = .ok tokens) (hclosed : openBrackets? [] tokens = some [])
    (hlast : tokens.getLast? = some last)
    (hlocks : LocksParenthesized (readEvents front).1 (tokens.filter (·.kind ≠ .comment))) :
    ∃ z, convert options (front ++ '\n' :: back) = .ok z ∧
      undocumentedBlock z.elements = undocumentedBlock (x.elements ++ y.elements) ∧
      z.warnings = x.warnings ++ y.warnings.map fun w => ⟨w.line + last.line, w.omission⟩ := by
  obtain ⟨hread, comment, hrun⟩ := exists_run_of_convert hx
  obtain ⟨hread', comment', hrun'⟩ := exists_run_of_convert hy
  obtain ⟨more, hback⟩ := exists_lex_of_readEvents hread'
  obtain ⟨first, later, hboth, hfirst, hlater, hitems, hitems'⟩ :=
    readEvents_append options htokens hback hlast hread hread' hclosed hlocks
  obtain ⟨elements, pending, hrunfirst, hsame⟩ := Assembly.exists_run_of_standingIn
    (Text.standsIn_left front ('\n' :: back)).shares hfirst hitems hrun [] [] none
  rw [List.nil_append, List.nil_append, show (x.warnings.map fun w => (⟨w.line + 0, w.omission⟩ : Warning)) =
    x.warnings from List.map_id' _] at hrunfirst
  obtain ⟨others, left, hrunlater, hsame'⟩ := Assembly.exists_run_of_standingIn
    (Text.standsIn_behind front back).shares hlater hitems' hrun' elements x.warnings pending
  refine ⟨⟨elements ++ others, _⟩, ?_, ?_, rfl⟩
  · have hwhole : (Assembly.start (front ++ '\n' :: back) options).run (first ++ later) = _ :=
      (Assembly.run_append_of_ok later hrunfirst).trans hrunlater
    simp only [convert, hboth, hwhole, Except.ok_bind, Assembly.finish_updated]
  · rw [undocumentedBlock_append, undocumentedBlock_append, hsame, hsame']

/-- A loop that is skipped, and a call. -/
def loopAndCall : Text := "for (;;) \x7b \x7d f();".toList

/-- A lock with parentheses. -/
def lockAndCall : Text := "synchronized (a) \x7b \x7d g();".toList

theorem convert_append_lockAndCall : ∃ x y z, convert .default lockAndCall = .ok x ∧
    convert .default loopAndCall = .ok y ∧ convert .default (lockAndCall ++ '\n' :: loopAndCall) = .ok z ∧
    undocumentedBlock z.elements = undocumentedBlock (x.elements ++ y.elements) ∧
    z.warnings = x.warnings ++ y.warnings.map fun w => ⟨w.line + 1, w.omission⟩ := by
  obtain ⟨x, hx⟩ : ∃ x, convert .default lockAndCall = .ok x := Except.exists_of_isOk (by decide +kernel)
  obtain ⟨y, hy⟩ : ∃ y, convert .default loopAndCall = .ok y := Except.exists_of_isOk (by decide +kernel)
  obtain ⟨tokens, htokens, hclosed, hlast, hlocks⟩ : ∃ tokens, lex lockAndCall = .ok tokens ∧
      openBrackets? [] tokens = some [] ∧ tokens.getLast? = some ⟨⟨1, 25, 25⟩, .endOfInput, []⟩ ∧
      ∀ p ∈ (tokens.filter (·.kind ≠ .comment)).zip (tokens.filter (·.kind ≠ .comment)).tail,
        .unsupported p.1.toSpan "'synchronized' statement" ∈ (readEvents lockAndCall).1 →
          p.2.kind = .openParen := by
    obtain ⟨tokens, htokens, h⟩ := @Except.exists_of_map_eq _ _ _ (lex lockAndCall)
      (fun tokens : List Token =>
        let code := tokens.filter fun t => t.kind ≠ .comment
        (openBrackets? [] tokens, tokens.getLast?, decide (∀ p ∈ code.zip code.tail,
          Event.unsupported p.1.toSpan "'synchronized' statement" ∈ (readEvents lockAndCall).1 →
            p.2.kind = .openParen)))
      (some [], some ⟨⟨1, 25, 25⟩, .endOfInput, []⟩, true) (by decide +kernel)
    obtain ⟨hclosed, hlast, hlocks⟩ := Prod.mk.inj h |>.imp_right Prod.mk.inj
    exact ⟨tokens, htokens, hclosed, hlast, of_decide_eq_true hlocks⟩
  obtain ⟨z, hz⟩ := convert_append hx hy htokens hclosed hlast (.of_zip hlocks)
  exact ⟨x, y, z, hx, hy, hz⟩

/-- A lock without parentheses behind the word, and what would be the name and the parameters of a
constructor. -/
def lockOfCall : Text := "synchronized @c() foo()".toList

def emptyBraces : Text := "{ }".toList

/-- The lock is stepped over through the arguments of the annotation and then through the parentheses
of the call.  With braces behind it, all of it is a constructor. -/
theorem not_convert_append_everywhere : ¬ ∀ (options : Options) (front back : Text)
    (x y : Conversion) (tokens : List Token) (last : Token), convert options front = .ok x →
    convert options back = .ok y → lex front = .ok tokens → openBrackets? [] tokens = some [] →
    tokens.getLast? = some last →
    ∃ z, convert options (front ++ '\n' :: back) = .ok z ∧
      List.Forall₂ (Element.Resembles .exceptDocumentation) (x.elements ++ y.elements) z.elements ∧
      z.warnings = x.warnings ++ y.warnings.map fun w => ⟨w.line + last.line, w.omission⟩ := by
  intro hall
  obtain ⟨x, hx, hnone⟩ : ∃ x, convert .default lockOfCall = .ok x ∧ x.elements.length = 0 :=
    Except.exists_of_map_eq (by decide +kernel)
  obtain ⟨y, hy, hnone'⟩ : ∃ y, convert .default emptyBraces = .ok y ∧ y.elements.length = 0 :=
    Except.exists_of_map_eq (by decide +kernel)
  obtain ⟨z, hz, hone⟩ : ∃ z, convert .default (lockOfCall ++ '\n' :: emptyBraces) = .ok z ∧
      z.elements.length = 1 := Except.exists_of_map_eq (by decide +kernel)
  obtain ⟨tokens, htokens, hclosed, hlast⟩ : ∃ tokens, lex lockOfCall = .ok tokens ∧
      openBrackets? [] tokens = some [] ∧ tokens ≠ [] := by
    obtain ⟨tokens, htokens, h⟩ := @Except.exists_of_map_eq _ _ _ (lex lockOfCall)
      (fun tokens => (openBrackets? [] tokens, tokens.isEmpty)) (some [], false) (by decide +kernel)
    refine ⟨tokens, htokens, (Prod.mk.inj h).1, ?_⟩
    rintro rfl
    cases (Prod.mk.inj h).2
  obtain ⟨z', hz', helements, -⟩ := hall .default lockOfCall emptyBraces x y tokens _ hx hy htokens
    hclosed (List.getLast?_eq_some_getLast hlast)
  obtain rfl := Except.ok.inj (hz.symm.trans hz')
  have hlength := helements.length_eq
  rw [List.length_append, hnone, hnone', hone] at hlength
  cases hlength

end CodeFrames
