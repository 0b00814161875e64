import CodeFrames.Proofs.Skipping.Basic
import CodeFrames.Proofs.Skipping.Shapes

/-!
# Skipping as a relation of tokens

Skipping looks at nothing but the tokens at the cursor and ahead.  So where a skipped statement ends is
a relation of tokens, and a statement that embeds others ends where the last of them does.
-/

namespace CodeFrames

open Token (Closing Grouped outside)

/-- What depends on the tokens only is the same at cursors in front of the same tokens. -/
theorem Cursor.eq_of_tokens {β : Sort _} {f : Cursor → β}
    (hf : ∀ b b' here ahead k k', f ⟨b', here, ahead, k'⟩ = f ⟨b, here, ahead, k⟩) {c c' : Cursor}
    (h : c'.tokens = c.tokens) : f c' = f c := by
  obtain ⟨before, here, ahead, comments⟩ := c
  obtain ⟨before', here', ahead', comments'⟩ := c'
  obtain ⟨rfl, rfl⟩ := List.cons.inj h
  exact hf ..

namespace Reading

variable {α β : Type} {source : Text} {c : Cursor}

/-! ## Readings of tokens only -/

/-- From cursors in front of the same tokens a run comes to the same tokens. -/
def Tokenwise (r : Reading α) : Prop :=
  ∀ c c' : Cursor, c'.tokens = c.tokens → ∀ events a d, r c = (events, .ok (a, d)) →
    ∃ d', r c' = (events, .ok (a, d')) ∧ d'.tokens = d.tokens

namespace Tokenwise

theorem of_error {r : Reading α} (h : ∀ c, ∃ events e, r c = (events, .error e)) : r.Tokenwise := by
  intro c c' _ events a d hrun
  obtain ⟨more, e, herror⟩ := h c
  cases herror.symm.trans hrun

theorem fail (fault : Fault) : (Reading.fail fault : Reading α).Tokenwise := of_error fun _ => ⟨_, _, rfl⟩

theorem refuse (expected : Expectation) : (Reading.refuse expected : Reading α).Tokenwise :=
  of_error fun c => ⟨[], ⟨c.here.line, .expected expected c.here.found⟩, rfl⟩

theorem pure (a : α) : (Pure.pure a : Reading α).Tokenwise := by
  intro c c' htokens events b d hrun
  cases hrun
  exact ⟨c', rfl, htokens⟩

theorem bind {r : Reading α} {f : α → Reading β} (h : r.Tokenwise) (hf : ∀ a, (f a).Tokenwise) :
    (r >>= f).Tokenwise := by
  intro c c' htokens events b e hrun
  obtain ⟨first, a, d, more, hr, hmore, rfl⟩ := exists_of_bind_ok hrun
  obtain ⟨d', hd', hd⟩ := h c c' htokens first a d hr
  obtain ⟨e', he', he⟩ := hf a d d' hd more b e hmore
  exact ⟨e', by rw [bind_of_ok f hd', he'], he⟩

theorem cursor_bind {f : Cursor → Reading α} (h : ∀ c, (f c).Tokenwise)
    (hf : ∀ b b' here ahead k k', f ⟨b', here, ahead, k'⟩ = f ⟨b, here, ahead, k⟩) :
    (Reading.cursor >>= f).Tokenwise := by
  intro c c' htokens events a d hrun
  obtain ⟨d', hd', hd⟩ := h c c c' htokens events a d hrun
  exact ⟨d', (congrFun (Cursor.eq_of_tokens hf htokens) c').trans hd', hd⟩

theorem here : Reading.here.Tokenwise := by
  intro c c' htokens events t d hrun
  cases hrun
  exact ⟨c', by rw [Reading.here, (List.cons.inj htokens).1], htokens⟩

theorem take : Reading.take.Tokenwise := by
  intro c c' htokens events t d hrun
  cases hrun
  exact ⟨c'.advance, by rw [Reading.take, (List.cons.inj htokens).1],
    Cursor.eq_of_tokens (f := fun c => c.advance.tokens) (fun _ _ _ ahead _ _ => by cases ahead <;> rfl) htokens⟩

theorem forward (n : Nat) : (Reading.forward n).Tokenwise := by
  induction n with
  | zero => exact pure ()
  | succ n ih => exact take.bind fun _ => ih

theorem ite {p : Prop} [Decidable p] {r s : Reading α} (hr : r.Tokenwise) (hs : s.Tokenwise) :
    (if p then r else s).Tokenwise := by
  split
  · exact hr
  · exact hs

theorem expect (kind : Token.Kind) (symbol : String) : (Reading.expect kind symbol).Tokenwise :=
  cursor_bind (fun _ => ite take (refuse _)) fun _ _ _ _ _ _ => rfl

theorem rounds {body : Reading Bool} (h : body.Tokenwise) : (repeatWhile body).Tokenwise := by
  have hloop (budget : List Token) : (loop body budget).Tokenwise := by
    induction budget with
    | nil => exact h.bind fun _ => pure ()
    | cons t budget ih => exact h.bind fun _ => ite ih (pure ())
  intro c c' htokens events a d hrun
  obtain ⟨d', hd', hd⟩ := hloop c.ahead c c' htokens events a d hrun
  exact ⟨d', by rw [repeatWhile, (List.cons.inj htokens).2, hd'], hd⟩

theorem skipGroup : Reading.skipGroup.Tokenwise := by
  refine cursor_bind (fun c => ?_) fun _ _ _ _ _ _ => rfl
  split
  · exact here.bind fun _ => fail _
  · exact forward _

theorem skipWordAndGroup : Reading.skipWordAndGroup.Tokenwise := take.bind fun _ => skipGroup

theorem skipToSemicolon : Reading.skipToSemicolon.Tokenwise := by
  refine rounds (here.bind fun t => ?_)
  split
  · exact take.bind fun _ => pure _
  · exact skipGroup.bind fun _ => pure _
  · exact skipGroup.bind fun _ => pure _
  · exact skipGroup.bind fun _ => pure _
  · exact refuse _
  · exact refuse _
  · exact take.bind fun _ => pure _

theorem skipTypeBody (word : Text) : (Reading.skipTypeBody word).Tokenwise :=
  (rounds (here.bind fun _ => ite (pure _) (ite (fail _) (take.bind fun _ => pure _)))).bind
    fun _ => skipGroup

theorem skipTry : Reading.skipTry.Tokenwise := by
  have hround : (do
      if (← cursor).isAtWord "catch" then
        Reading.skipWordAndGroup
        Reading.skipGroup
        return true
      else return false : Reading Bool).Tokenwise :=
    cursor_bind (fun _ => ite (skipWordAndGroup.bind fun _ => skipGroup.bind fun _ => pure _) (pure _))
      fun _ _ _ _ _ _ => rfl
  have hblocks : (do
      Reading.skipGroup
      repeatWhile do
        if (← cursor).isAtWord "catch" then
          Reading.skipWordAndGroup
          Reading.skipGroup
          return true
        else return false
      if (← cursor).isAtWord "finally" then Reading.skipWordAndGroup : Reading Unit).Tokenwise :=
    skipGroup.bind fun _ => (rounds hround).bind fun _ =>
      cursor_bind (fun _ => ite skipWordAndGroup (pure _)) fun _ _ _ _ _ _ => rfl
  exact take.bind fun _ => cursor_bind (fun _ => ite (skipGroup.bind fun _ => hblocks) hblocks)
    fun _ _ _ _ _ _ => rfl

theorem skipNested (budget : List Token) : (Reading.skipNested budget).Tokenwise := by
  induction budget with
  | nil => exact skipToSemicolon
  | cons t budget ih =>
      refine cursor_bind (fun c => ?_) fun _ _ _ _ _ _ => rfl
      cases skipShape c with
      | group => exact skipGroup
      | empty => exact take.bind fun _ => pure _
      | ifElse =>
          exact skipWordAndGroup.bind fun _ => ih.bind fun _ =>
            cursor_bind (fun _ => ite (take.bind fun _ => ih) (pure _)) fun _ _ _ _ _ _ => rfl
      | loop => exact skipWordAndGroup.bind fun _ => ih
      | headAndBlock => exact skipWordAndGroup.bind fun _ => skipGroup
      | doWhile =>
          exact take.bind fun _ => ih.bind fun _ => cursor_bind (fun _ => ite
            (skipWordAndGroup.bind fun _ => (expect _ _).bind fun _ => pure _) (fail _))
            fun _ _ _ _ _ _ => rfl
      | tryCatch => exact skipTry
      | typeDeclaration word => exact skipTypeBody word
      | labelled => exact (forward 2).bind fun _ => ih
      | simple => exact skipToSemicolon

theorem skipStatement : Reading.skipStatement.Tokenwise := by
  intro c c' htokens events a d hrun
  obtain ⟨d', hd', hd⟩ := skipNested c.ahead c c' htokens events a d hrun
  exact ⟨d', by rw [Reading.skipStatement, (List.cons.inj htokens).2, hd'], hd⟩

end Tokenwise

/-! ## Where a skipped statement ends -/

/-- The statement in front of some tokens is skipped up to those further on. -/
def Skips (ts us : List Token) : Prop :=
  ∀ c : Cursor, c.tokens = ts → ∃ events d, skipStatement c = (events, .ok ((), d)) ∧ d.tokens = us

variable {w : Token} {head ts us vs : List Token}

theorem skips_of_run (d : Cursor) (events : List Event) (h : skipStatement c = (events, .ok ((), d))) :
    Skips c.tokens d.tokens := fun c' htokens =>
  have ⟨d', hd', hd⟩ := Tokenwise.skipStatement c c' htokens events () d h
  ⟨events, d', hd', hd⟩

theorem skips_group (hc : Token.Laid source c.tokens) (hbrace : c.here.kind = .openBrace)
    (htokens : c.tokens = head ++ us) (hhead : Closing 0 head) : Skips c.tokens us := by
  have hshape : skipShape c = .group := by rw [skipShape, hbrace]
  obtain ⟨d, hrun, -, hd⟩ := exists_skipGroup hc htokens hhead
  refine hd ▸ skips_of_run d [] ?_
  rw [skipStatement_unfold hc, skipOver, cursor_bind, hshape]
  exact hrun

theorem skips_empty (hc : Token.Laid source c.tokens) (hkind : c.here.kind = .semicolon) :
    Skips c.tokens c.advance.tokens := by
  have hshape : skipShape c = .empty := by rw [skipShape, hkind]
  refine skips_of_run c.advance [] ?_
  rw [skipStatement_unfold hc, skipOver, cursor_bind, hshape]
  rfl

/-- Over the word at the cursor and the head behind it. -/
theorem exists_skipHead (hc : Token.Laid source c.tokens) (hend : ¬ c.here.isEnd)
    (htokens : c.tokens = w :: (head ++ ts)) (hhead : Closing 0 head) :
    ∃ d, skipWordAndGroup c = ([], .ok ((), d)) ∧ c.Passes d ∧ d.tokens = ts := by
  have hpasses := Cursor.passes_advance hc hend
  have hadvanced : c.advance.tokens = head ++ ts :=
    (List.cons.inj ((Cursor.tokens_advance hc hend).symm.trans htokens)).2
  obtain ⟨d, hrun, hd, hts⟩ := exists_skipGroup (hpasses.reaches.laid hc) hadvanced hhead
  refine ⟨d, ?_, hpasses.trans_reaches hd.reaches, hts⟩
  rw [skipWordAndGroup, bind_of_ok _ (show take c = ([], .ok (c.here, c.advance)) from rfl), hrun]
  rfl

/-- A loop ends where the statement behind its head ends. -/
theorem skips_loop (hc : Token.Laid source c.tokens) (hshape : skipShape c = .loop)
    (htokens : c.tokens = w :: (head ++ ts)) (hhead : Closing 0 head) (hbody : Skips ts us) :
    Skips c.tokens us := by
  have hend := not_isEnd_of_skipShape hshape (by simp)
  obtain ⟨d, hrun, -, hts⟩ := exists_skipHead hc hend htokens hhead
  obtain ⟨events, e, he, hus⟩ := hbody d hts
  refine hus ▸ skips_of_run e events ?_
  rw [skipStatement_unfold hc, skipOver, cursor_bind, hshape]
  change (skipWordAndGroup >>= fun _ => skipStatement) c = _
  rw [bind_of_ok _ hrun, he]
  rfl

/-- A branch ends where the statement behind its head ends, or the one behind the `else` that follows. -/
theorem skips_ifElse (hc : Token.Laid source c.tokens) (hshape : skipShape c = .ifElse)
    (htokens : c.tokens = w :: (head ++ ts)) (hhead : Closing 0 head) (hbody : Skips ts us)
    (hrest : (∃ e rest, us = e :: rest ∧ rest ≠ [] ∧ e.isWord "else".toList = true ∧ Skips rest vs) ∨
      (us.head?.any (·.isWord "else".toList) = false ∧ vs = us)) :
    Skips c.tokens vs := by
  have hend := not_isEnd_of_skipShape hshape (by simp)
  obtain ⟨d, hrun, -, hts⟩ := exists_skipHead hc hend htokens hhead
  obtain ⟨events, e, he, hus⟩ := hbody d hts
  have hexpand (more : List Event) (f : Cursor) (hf : (do
      if (← cursor).isAtWord "else" then
        let _ ← take
        skipStatement : Reading Unit) e = (more, .ok ((), f))) :
      skipStatement c = ([] ++ (events ++ more), .ok ((), f)) := by
    rw [skipStatement_unfold hc, skipOver, cursor_bind, hshape]
    change (skipWordAndGroup >>= fun _ => skipStatement >>= fun _ => _) c = _
    rw [bind_of_ok _ hrun, bind_of_ok _ he]
    exact congrArg (fun run => ([] ++ (events ++ run.1), run.2)) hf
  rcases hrest with ⟨word, rest, rfl, hne, helse, hskips⟩ | ⟨helse, rfl⟩
  · obtain ⟨hhere, hahead⟩ := List.cons.inj (hus : e.here :: e.ahead = word :: rest)
    have hadvanced : e.advance.tokens = rest := by
      obtain ⟨u, rest, rfl⟩ := List.exists_cons_of_ne_nil hne
      rw [Cursor.advance, hahead]
      rfl
    obtain ⟨more, f, hf, hvs⟩ := hskips e.advance hadvanced
    refine hvs ▸ skips_of_run f _ (hexpand more f ?_)
    have hat : e.isAtWord "else" = true := by rw [Cursor.isAtWord, hhere, helse]
    rw [cursor_bind, if_pos hat]
    exact hf
  · refine hus ▸ skips_of_run e _ (hexpand [] e ?_)
    have hat : ¬ e.isAtWord "else" := by
      rw [← hus] at helse
      simpa [Cursor.tokens, Cursor.isAtWord] using helse
    rw [cursor_bind, if_neg hat]
    rfl

end Reading

end CodeFrames
