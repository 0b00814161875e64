import CodeFrames.Proofs.Completing
import CodeFrames.Proofs.Reporting

/-!
# Every statement and every member steps over a token

A statement that can be read is not empty, skipped ones included.  So a loop over statements ends
because its body answers `false`, never because its budget is used up.
-/

namespace CodeFrames

open scoped Computability
open Sentence

/-- A cursor has not moved past itself. -/
theorem Cursor.Passes.length_lt {c d : Cursor} (h : c.Passes d) : d.ahead.length < c.ahead.length := by
  obtain ⟨passed, hne, htokens, -⟩ := h
  have hlength := congrArg List.length htokens
  have hpos := List.length_pos_of_ne_nil hne
  simp only [Cursor.tokens, List.length_cons, List.length_append] at hlength
  omega

namespace Reading

variable {α : Type} {source : Text} {width : Option Nat} {inner : Enclosed}

/-! ## Loops -/

/-- Rounds that answer `true` step over a token, so a loop that is done has ended in a round that
answers `false`. -/
theorem rounds_of_repeatWhile {body : Reading Bool} {P : Cursor → Prop}
    (hround : ∀ c events d, P c → body c = (events, .ok (true, d)) → c.Passes d ∧ P d)
    {c d : Cursor} (hc : P c) {events : List Event}
    (h : repeatWhile body c = (events, .ok ((), d))) : Rounds body c events d := by
  have hloop (budget : List Token) : ∀ (c : Cursor) (events : List Event), P c →
      c.ahead.length ≤ budget.length → loop body budget c = (events, .ok ((), d)) →
      Rounds body c events d := by
    induction budget with
    | nil =>
        intro c events hc hlength h
        obtain ⟨first, again, e, more, hfirst, hmore, rfl⟩ := exists_of_bind_ok h
        obtain ⟨hnone, hmore⟩ := Prod.mk.injEq .. |>.mp hmore
        obtain rfl : e = d := by simpa using hmore
        rw [← hnone, List.append_nil]
        cases again with
        | false => exact .last hfirst
        | true =>
            have := (hround c first e hc hfirst).1.length_lt
            simp at hlength
            simp [hlength] at this
    | cons t budget ih =>
        intro c events hc hlength h
        obtain ⟨first, again, e, more, hfirst, hmore, rfl⟩ := exists_of_bind_ok h
        cases again with
        | false =>
            obtain ⟨hnone, hmore⟩ := Prod.mk.injEq .. |>.mp hmore
            obtain rfl : e = d := by simpa using hmore
            rw [← hnone, List.append_nil]
            exact .last hfirst
        | true =>
            obtain ⟨hpasses, he⟩ := hround c first e hc hfirst
            have hshort := hpasses.length_lt
            rw [List.length_cons] at hlength
            exact .more hfirst hshort (ih e more he (by omega) hmore)
  exact hloop c.ahead c events hc le_rfl h

theorem exists_last_round {body : Reading Bool} {P : Cursor → Prop}
    (hround : ∀ c events d, P c → body c = (events, .ok (true, d)) → c.Passes d ∧ P d)
    {c d : Cursor} (hc : P c) {events : List Event}
    (h : repeatWhile body c = (events, .ok ((), d))) :
    ∃ e last, P e ∧ c.Reaches e ∧ body e = (last, .ok (false, d)) := by
  have hrounds := rounds_of_repeatWhile hround hc h
  clear h
  induction hrounds with
  | @last c d events hlast => exact ⟨c, events, hc, .refl c, hlast⟩
  | more hmore _ _ ih =>
      obtain ⟨hpasses, hd⟩ := hround _ _ _ hc hmore
      obtain ⟨e, last, he, hreaches, hlast⟩ := ih hd
      exact ⟨e, last, he, hpasses.reaches.trans hreaches, hlast⟩

/-! ## Skipped statements -/

theorem not_isEnd_of_kind {t : Token} {kind : Token.Kind} (h : t.kind = kind)
    (hkind : kind ≠ .endOfInput) : ¬ t.isEnd := by simp [Token.isEnd, h, hkind]

/-- A reading that is done with a token behind it. -/
theorem exists_of_bind_pure {β : Type} {r : Reading α} {b b' : β} {c d : Cursor} {events : List Event}
    (h : (r >>= fun _ => pure b) c = (events, .ok (b', d))) :
    b' = b ∧ ∃ a, r c = (events, .ok (a, d)) := by
  obtain ⟨first, a, e, more, hfirst, hmore, rfl⟩ := exists_of_bind_ok h
  obtain ⟨rfl, hmore⟩ := Prod.mk.injEq .. |>.mp hmore
  obtain ⟨rfl, rfl⟩ := by simpa using hmore
  exact ⟨rfl, a, by simpa using hfirst⟩

/-- One round of the walk to a semicolon, with the token at the cursor. -/
def semicolonRound (t : Token) : Reading Bool := do
  match t.kind with
  | .semicolon =>
      let _ ← take
      return false
  | .openParen | .openBracket | .openBrace =>
      skipGroup
      return true
  | .endOfInput | .closeBrace => refuse (.symbol ";")
  | _ =>
      let _ ← take
      return true

theorem passes_semicolonRound {c d : Cursor} {events : List Event} {again : Bool}
    (hc : Token.Laid source c.tokens) (h : semicolonRound c.here c = (events, .ok (again, d))) :
    c.Passes d := by
  have hgroup (hkind : ¬ c.here.isEnd) (h : (do
      skipGroup
      return true : Reading Bool) c = (events, .ok (again, d))) : c.Passes d := by
    obtain ⟨-, u, h⟩ := exists_of_bind_pure h
    exact advancesAt_skipGroup hc hkind events u d h
  have htake {b : Bool} (hkind : ¬ c.here.isEnd) (h : (do
      let _ ← take
      return b : Reading Bool) c = (events, .ok (again, d))) : c.Passes d := by
    obtain ⟨-, u, h⟩ := exists_of_bind_pure h
    exact advancesAt_take hc hkind events u d h
  cases hkind : c.here.kind <;> simp only [semicolonRound, hkind] at h
  case openParen => exact hgroup (not_isEnd_of_kind hkind (by decide)) h
  case openBracket => exact hgroup (not_isEnd_of_kind hkind (by decide)) h
  case openBrace => exact hgroup (not_isEnd_of_kind hkind (by decide)) h
  case endOfInput => cases h
  case closeBrace => cases h
  all_goals exact htake (not_isEnd_of_kind hkind (by decide)) h

theorem advances_skipToSemicolon : skipToSemicolon.Advances source := by
  intro c hc events u d h
  have hround (c : Cursor) (events : List Event) (d : Cursor) (hc : Token.Laid source c.tokens)
      (h : semicolonRound c.here c = (events, .ok (true, d))) :
      c.Passes d ∧ Token.Laid source d.tokens :=
    have hpasses := passes_semicolonRound hc h
    ⟨hpasses, hpasses.reaches.laid hc⟩
  obtain ⟨e, last, he, hreaches, hlast⟩ := exists_last_round hround hc h
  exact hreaches.trans_passes (passes_semicolonRound he hlast)

theorem advances_skipGroup : skipGroup.Advances source := by
  intro c hc
  by_cases hend : c.here.isEnd
  · refine advancesAt_cursor ?_
    have hnone : Token.groupLength? c.tokens = none := by
      have hkind : c.here.kind = .endOfInput := by simpa [Token.isEnd] using hend
      simp [Token.groupLength?, Cursor.tokens, Token.groupLengthFrom?, hkind, Token.Kind.isOpener,
        Token.Kind.isCloser, hend]
    rw [hnone]
    exact advancesAt_of_error (e := ⟨c.here.line, _⟩) rfl
  · exact advancesAt_skipGroup hc hend

theorem advances_skipTypeBody (word : Text) : (skipTypeBody word).Advances source := by
  refine Advances.bind_right (L := 1) (Reports.repeatWhile_silent ?_) fun _ => advances_skipGroup
  exact Reports.here.silent fun t => Reports.ite (fun _ => Reports.pure _) fun _ =>
    Reports.ite (fun _ => Reports.fail _) fun _ => Reports.take.silent fun _ => Reports.pure _

/-- What stands at the cursor when a statement with such a shape is skipped. -/
theorem kind_of_skipShape {c : Cursor} {shape : SkipShape} (h : skipShape c = shape)
    (hsimple : shape ≠ .simple) :
    c.here.kind = .openBrace ∨ c.here.kind = .semicolon ∨ c.here.kind = .word := by
  unfold skipShape at h
  split at h
  · next hkind => exact .inl hkind
  · next hkind => exact .inr (.inl hkind)
  · next hkind => exact .inr (.inr hkind)
  · exact absurd h.symm hsimple

theorem advancesAt_skipTry {c : Cursor} (hc : Token.Laid source c.tokens) (hend : ¬ c.here.isEnd) :
    skipTry.AdvancesAt c :=
  (advancesAt_take hc hend).bind_left hc fun _ => Reports.cursor.silent fun _ =>
    Reports.ite (fun _ => Reports.skipGroup.silent fun _ => Reports.tryBlocks)
      fun _ => Reports.tryBlocks

theorem advances_skipNested (budget : List Token) : (skipNested budget).Advances source := by
  cases budget with
  | nil => exact advances_skipToSemicolon
  | cons t budget =>
      intro c hc
      have hstart (hshape : skipShape c ≠ .simple) : ¬ c.here.isEnd := by
        rcases kind_of_skipShape rfl hshape with h | h | h <;>
          exact not_isEnd_of_kind h (by decide)
      have htake (hshape : skipShape c ≠ .simple) {f : Token → Reading Unit}
          (hf : ∀ t, (f t).Reports source 1) : (take >>= f).AdvancesAt c :=
        (advancesAt_take hc (hstart hshape)).bind_left hc hf
      have hhead (hshape : skipShape c ≠ .simple) {f : Unit → Reading Unit}
          (hf : ∀ u, (f u).Reports source 1) : (skipWordAndGroup >>= f).AdvancesAt c := by
        have hword : skipWordAndGroup.AdvancesAt c := htake hshape fun _ => Reports.skipGroup
        exact hword.bind_left hc hf
      refine advancesAt_cursor ?_
      cases hshape : skipShape c with
      | group => exact advances_skipGroup c hc
      | empty => exact htake (by simp [hshape]) fun _ => Reports.pure ()
      | ifElse => 
          exact hhead (by simp [hshape]) fun _ => (Reports.skipNested budget).silent fun _ =>
            Reports.cursor.silent fun _ => Reports.ite (fun _ => Reports.take.silent fun _ => 
              Reports.skipNested budget) fun _ => Reports.pure ()
      | loop => exact hhead (by simp [hshape]) fun _ => Reports.skipNested budget
      | headAndBlock => exact hhead (by simp [hshape]) fun _ => Reports.skipGroup
      | doWhile =>
          exact htake (by simp [hshape]) fun _ => (Reports.skipNested budget).silent fun _ =>
            Reports.cursor.silent fun _ => Reports.ite (fun _ => Reports.skipWordAndGroup.silent 
              fun _ => (Reports.expect _ _).silent fun _ => Reports.pure ()) fun _ => Reports.fail _
      | tryCatch => exact advancesAt_skipTry hc (hstart (by simp [hshape]))
      | typeDeclaration word => exact advances_skipTypeBody word c hc
      | labelled =>
          exact (advancesAt_forward hc (hstart (by simp [hshape])) (by decide)).bind_left hc
            fun _ => Reports.skipNested budget
      | simple => exact advances_skipToSemicolon c hc

theorem advances_skipStatement : skipStatement.Advances source := fun c hc =>
  advances_skipNested c.ahead c hc

/-! ## Rounds -/

/-- One round of a block: a statement, unless the block ends. -/
def blockRound (inner : Enclosed) : Reading Bool := do
  let t ← here
  if t.kind = .closeBrace then return false
  if t.isEnd then fail .unclosedBlock
  inner.statement
  return true

def memberOf (inner : Enclosed) : MemberShape → Reading Unit
  | .directive word => directive word
  | .unsupported construct head skipped => unsupportedMember construct head skipped
  | .constructor => constructor inner
  | .method => method inner
  | .statement => inner.statement

/-- One member, unless the source is at its end. -/
def memberRound (inner : Enclosed) : Reading Bool := do
  if (← here).isEnd then return false
  reportComments
  member inner
  return true

theorem members_eq (inner : Enclosed) :
    members inner = (repeatWhile (memberRound inner) >>= fun _ => reportComments) := rfl

/-! ## Statements -/

theorem not_isEnd_of_statementShape {c : Cursor} {shape : StatementShape} (h : statementShape c = shape)
    (hlocals : shape ≠ .locals) (hexpression : shape ≠ .expression) : ¬ c.here.isEnd := by
  unfold statementShape at h
  split at h
  · next hkind => exact not_isEnd_of_kind hkind (by decide)
  · next hkind => exact not_isEnd_of_kind hkind (by decide)
  · next hkind => exact not_isEnd_of_kind hkind (by decide)
  · exact absurd h.symm hlocals
  · exact absurd h.symm hexpression

end Reading

end CodeFrames
