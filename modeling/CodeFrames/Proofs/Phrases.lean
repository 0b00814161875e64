import CodeFrames.Proofs.Phrases.Operand
import CodeFrames.Proofs.Rereading

/-!
# Returning an expression

A statement that returns a printed tree is converted to a return of the whole text, in which only the
type tests are shown in another way, or it is refused because it is nested too deep.
-/

namespace CodeFrames

open Token Text

namespace Phrase

open Reading

variable {source u : Text} {width : Option Nat} {levels : Nat} {rest : List Token} {c : Cursor}
  (e : Phrase .assignment)

/-- The source that returns the expression. -/
def returned : Text := "return ".toList ++ e.text ++ ";".toList

theorem return_append (t : Text) :
    "return ".toList ++ t ++ ";".toList = "return".toList ++ ' ' :: (t ++ [';']) := by
  rw [List.append_assoc]
  rfl

theorem returned_eq : e.returned = "return".toList ++ ' ' :: (e.text ++ [';']) := return_append e.text

/-- The tokens of that source. -/
def returnTokens : List Token :=
  symbol .word "return".toList :: (e.tokens ++ [symbol .semicolon [';']])

theorem spells_returned : e.returned.Spells e.returnTokens :=
  Text.IsExpression.spells_return e.spells_text

/-! ## Nesting -/

/-- Behind the word the expression is read to the semicolon. -/
theorem limited_statement (hrest : rest ≠ []) (hc : c.Faces (e.returnTokens ++ rest)) :
    (statement (Enclosed.within levels)).Limited c (e.nesting + 1 ≤ levels) fun _ d => d.Faces rest := by
  have hvalue : c.advance.Faces (e.tokens ++ symbol .semicolon [';'] :: rest) := by
    simpa using hc.advance (by simp)
  have hsemicolon : c.advance.here.kind ≠ .semicolon := kind_first e hvalue (by decide)
  have hrun : statement (Enclosed.within levels) c = Reading.returned (Enclosed.within levels) c := by
    rw [statement_eq hc.comments_eq, statementShape_of_word hc.here_eq (show _ = some .returned by decide)]
    rfl
  refine Limited.of_eq (.step (r := take) rfl (.step (r := cursor) rfl (.emit_bind (by simp) ?_))) hrun
  rw [if_pos (by simp [Cursor.isAt, hsemicolon])]
  have hexpression := e.isRead.expression levels (.inl (by decide)) c.advance hvalue
  exact hexpression.before fun _ d hd => (passes_expect ";" rfl hrest d hd).completes trivial

theorem limited_memberRound (hrest : rest ≠ []) (hc : c.Faces (e.returnTokens ++ rest)) :
    (memberRound (Enclosed.within levels)).Limited c (e.nesting + 2 ≤ levels) fun again d =>
      again = true ∧ d.Faces rest := by
  have hend : c.here.isEnd = false := by simp [isEnd, kind_of_faces hc, symbol]
  refine Limited.of_eq (Limited.before ?_ fun _ d hd => CompletesAt.pure_quiet ⟨rfl, hd⟩)
    (memberRound_of_member hend hc.comments_eq)
  have hrun : member (Enclosed.within levels) c = (Enclosed.within levels).statement c := by
    rw [member_eq, memberShape_of_word hc.here_eq (by decide)]
    rfl
  refine Limited.of_eq ?_ hrun
  cases levels with
  | zero => exact ⟨fun h => absurd h (by simp), fun _ => ⟨[], _, rfl⟩⟩
  | succ levels => exact (e.limited_statement hrest hc).congr (by omega)

/-- The statement takes up a level, and so does its expression as a whole. -/
theorem limited_members (levels : Nat) (hc : c.Faces (e.returnTokens ++ [symbol .endOfInput []])) :
    (members (Enclosed.within levels)).Limited c (e.nesting + 2 ≤ levels) fun _ _ => True := by
  have hstop : ReadsOn (memberRound (Enclosed.within levels)) reportComments [symbol .endOfInput []] True
      fun _ => True := by
    refine .stop (fun c hc => ?_) fun c hc => .of_completes
      ⟨[], (), c, reportComments_of_nil hc.comments_eq, nil_mem_quiets, trivial⟩
    rw [memberRound, here_bind, if_pos (by simp [isEnd, kind_of_faces hc, symbol])]
    rfl
  have hmore := ReadsOn.more (fun c hc => e.limited_memberRound (by simp) hc) (by simp [returnTokens])
    (by simp) hstop
  exact (hmore.repeatWhile hc).congr (by simp)

/-! ## Events -/

/-- With levels enough the statement returns the text of the expression. -/
theorem completesAt_statement (hlevels : e.nesting + 1 ≤ levels) (hc : c.StandsAt source (e.returned ++ u)) :
    (statement (Enclosed.within levels)).CompletesAt c
      (stated source width (.returnValue (some (.expression (withSubtypeOperator e.text)))))
      fun _ d => d.StandsAt source u := by
  rw [returned_eq] at hc
  simp only [List.append_assoc, List.cons_append, List.nil_append] at hc
  refine completesAt_keyword hc (by decide) (show _ = some .returned by decide)
    (isApart_cons (by decide) _) fun hadvance => ?_
  have hvalue : c.advance.StandsAt source (e.text ++ ';' :: u) := hadvance.of_blank
  have hfaces := faces_of_stands hvalue e.spells_text
  have hsemicolon : c.advance.here.kind ≠ .semicolon := kind_first e hfaces (by decide)
  have hrun : (Enclosed.within levels).assignment.CompletesAt c.advance quiets
      fun _ d => d.Faces (symbols (';' :: u)) := by
    obtain ⟨fewer, rfl⟩ := Nat.exists_eq_add_of_le' (Nat.le_of_add_left_le hlevels)
    rw [@symbols_mark ';' .semicolon (by decide)]
    exact (e.isRead.assignment (.inl (by decide)) c.advance hfaces).completes (by omega)
  have hne : e.text ≠ [] := by
    obtain ⟨p, ps, htokens, -⟩ := e.exists_first
    exact ne_nil_of_spells (htokens ▸ e.spells_text)
  have hexpression := completesAt_shown (Enclosed.reports_within source none levels) hvalue e.spells_text
    (isApart_cons (by decide) u) hne e.tight_text (endsExpression_first e hfaces) hrun
  refine CompletesAt.mono (CompletesAt.take_bind (CompletesAt.cursor_bind ?_))
    (expressed_le_returned c.here.toSpan)
  rw [show c.advance.isAt .semicolon = false by simp [Cursor.isAt, hsemicolon]]
  exact CompletesAt.emit_bind (hexpression.bind_silent fun _ d hd => CompletesAt.semicolon hd fun _ h => h)

theorem completesAt_members (width : Option Nat) (hlevels : e.nesting + 2 ≤ levels) (hc : c.StandsAt source e.returned) :
    (members (Enclosed.within levels)).CompletesAt c
      (listed source width [.returnValue (some (.expression (withSubtypeOperator e.text)))])
      fun _ _ => True := by
  obtain ⟨fewer, rfl⟩ := Nat.exists_eq_add_of_le' (by omega : 1 ≤ levels)
  have hfaces := hc.faces
  rw [e.spells_returned.symbols_eq] at hfaces
  have hhere := hfaces.here_eq
  have hend : c.here.isEnd = false := by simp [isEnd, kind_of_faces hfaces, symbol]
  have hmember : (member (Enclosed.within (fewer + 1))).CompletesAt c
      (stated source width (.returnValue (some (.expression (withSubtypeOperator e.text)))))
      fun _ d => d.StandsAt source [] := by
    refine CompletesAt.of_memberShape (memberShape_of_word hhere (by decide)) ?_
    exact e.completesAt_statement (by omega) (by simpa using hc)
  have hround := completesAt_memberRound hend hc.comments_eq hmember
  have hrounds := RepeatsAt.more (hround.imp fun again d hd =>
    ⟨hd.1, length_ahead_lt hfaces hd.2.faces (by simp [returnTokens, symbols, symbolsFrom]), hd.2⟩)
    fun d hd => memberRound_end hd
  refine CompletesAt.mono (hrounds.repeatWhile.bind_silent fun _ d hd => ?_) ?_
  · exact ⟨[], (), d, reportComments_of_nil hd.comments_eq, Language.nil_mem_one, trivial⟩
  · rintro _ ⟨first, hfirst, _, rfl, rfl⟩
    exact stated_mul_listed _ [] (Language.append_mem_mul hfirst nil_mem_listed)

end Phrase

/-- A source whose reading stops in the midst of what could be assembled is refused where it stops. -/
theorem convert_of_stop {options : Options} {source : Text} {events all : List Event} {fault : SourceError}
    {elements : Block} {warnings : List Warning} (hread : readEvents source = (events, .error fault))
    (hall : events <+: all) (hitems : Sentence.Items source options.commentWidth none all elements warnings)
    (hclear : ∀ event ∈ all, event.AccessClear source) :
    convert options source = .error (.faultySource fault) := by
  obtain ⟨comment, hassembled | ⟨-, event, hmem, hconflict⟩⟩ := Assembly.leads_sentence hitems
  · obtain ⟨a, hrun⟩ := Assembly.exists_run_of_prefix hall hassembled
    simp [convert, hread, hrun, Except.ok_bind]
  · exact absurd (hclear event hmem) hconflict

/-- A printed expression that is returned is read to its end, with nothing to warn about, if its nesting
fits the limit beside the levels for the statement and for the expression as a whole.  Elsewhere the
conversion stops. -/
theorem convert_returned (options : Options) (e : Phrase .assignment) :
    ∃ line, convert options e.returned =
      if e.nesting + 2 ≤ nestingLimit then
        .ok ⟨[.returnValue (some (.expression (withSubtypeOperator e.text)))], []⟩
      else .error (.faultySource ⟨line, .nestedTooDeep⟩) := by
  obtain ⟨c, hc, hread⟩ := exists_start e.spells_returned
  obtain ⟨events, u, d, hrun, ⟨hitems, hclear⟩, -⟩ := e.completesAt_members options.commentWidth
    (Nat.le_max_right nestingLimit (e.nesting + 2)) hc
  have hlimited := e.limited_members nestingLimit (e.spells_returned.symbols_eq ▸ hc.faces)
  by_cases hfits : e.nesting + 2 ≤ nestingLimit
  · simp only [if_pos hfits]
    rw [Nat.max_eq_left hfits] at hrun
    exact ⟨0, convert_of_items (by rw [hread, hrun]; rfl) hitems hclear⟩
  · simp only [if_neg hfits]
    obtain ⟨fewer, line, hstop⟩ := hlimited.stops hfits
    -- The events before the stop are the first of those that are read with levels enough.
    rcases Reading.below_members (Enclosed.below_within (Nat.le_max_left nestingLimit (e.nesting + 2))) c with
      hsame | ⟨before, other, hbefore, hall⟩
    · rw [hsame, hrun] at hstop
      cases hstop
    · rw [hrun] at hall
      exact ⟨other, convert_of_stop (by rw [hread, hbefore]; rfl) hall hitems hclear⟩

end CodeFrames
