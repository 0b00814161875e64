import CodeFrames.Proofs.Seam.Expression
import CodeFrames.Proofs.Skipping.Shapes

/-!
# Skipped statements in front of a seam

A skipped statement ends with a semicolon or a group, so that no more of it is looked at than its own
tokens, apart from a word that would go on with it.
-/

namespace CodeFrames

open Token (AtLeast Growing Marked Sealed)

namespace Reading

variable {α β : Type} {source : Text} {s : Seam} {P Q : List Token → Prop} {c : Cursor}

/-! ## Groups and semicolons -/

/-- Nothing is asked of what is left. -/
abbrev Anything {α : Type} : α → List Token → Prop := fun _ _ => True

namespace LocalAt

variable {R : β → List Token → Prop}

theorem skipGroup_marked {f : Unit → Reading β} (hc : c.Sited source)
    (hf : ∀ d, d.Sited source → (f ()).LocalAt s P R d) :
    (Reading.skipGroup >>= f).LocalAt s Marked R c :=
  .skipGroup_bind hc (fun n _ => hf _ (hc.forward n)) fun _ us hps _ => hps.append_right us

theorem marked_skipGroup (hc : c.Sited source) : Reading.skipGroup.LocalAt s Marked Anything c := by
  rw [← bind_pure Reading.skipGroup]
  exact skipGroup_marked hc fun _ _ => .pure ()

/-- Behind a word, where something that is no word follows. -/
theorem take_marked {f : Token → Reading β} (hc : c.Sited source) (hcode : ¬ c.here.isEnd)
    (hf : (f c.here).LocalAt s Marked R c.advance) : (Reading.take >>= f).LocalAt s Marked R c :=
  .take_bind hc hcode hf fun _ hus => hus.append_left [c.here]

theorem skipWordAndGroup_marked {f : Unit → Reading β} (hc : c.Sited source) (hcode : ¬ c.here.isEnd)
    (hf : ∀ d, d.Sited source → (f ()).LocalAt s P R d) :
    (Reading.skipWordAndGroup >>= f).LocalAt s Marked R c := by
  rw [Reading.skipWordAndGroup, bind_assoc]
  exact take_marked hc hcode (skipGroup_marked hc.advance hf)

end LocalAt

/-- The semicolon at the end stands in front of the seam. -/
theorem localRound_semicolon (hc : c.Sited source) {n : Nat} :
    (semicolonRound c.here).LocalAt s (AtLeast n Sealed) (Left n Sealed fun _ => True) c := by
  have hgroup : (do
      skipGroup
      return true : Reading Bool).LocalAt s (AtLeast n Sealed) (Left n Sealed fun _ => True) c :=
    (LocalAt.skipGroup hc).bind fun _ _ _ _ _ => .pure true
  have htake {kind : Token.Kind} (hkind : c.here.kind = kind) (hne : kind ≠ .endOfInput) : (do
      let _ ← take
      return true : Reading Bool).LocalAt s (AtLeast n Sealed) (Left n Sealed fun _ => True) c :=
    .step hc (not_isEnd_of_kind hkind hne) (.pure true)
  cases hkind : c.here.kind <;> simp only [semicolonRound, hkind]
  case openParen => exact hgroup
  case openBracket => exact hgroup
  case openBrace => exact hgroup
  case endOfInput => exact .refuse _
  case closeBrace => exact .refuse _
  case semicolon =>
    refine .take_bind hc (not_isEnd_of_kind hkind (by decide)) (.pure false) fun us hus => ?_
    exact ⟨hus.1.trans (Nat.le_succ _), .here (by rw [hkind]; decide)⟩
  all_goals exact htake hkind (by decide)

theorem skipToSemicolon_local (hc : c.Sited source) :
    skipToSemicolon.LocalAt s Sealed Anything c := by
  have hround : LocalRound source s Sealed (fun _ => True) (do semicolonRound (← here)) :=
    fun n c hc => .here_bind (localRound_semicolon hc) ne_nil_of_sealed
  refine (hround.rounds_of_passes (fun c events d hc hrun => passes_semicolonRound hc.laid hrun) 0 hc).imp
    (fun ps hps => hps.2) fun _ qs _ => ⟨Nat.zero_le _, trivial⟩

theorem skipTypeBody_local (word : Text) (hc : c.Sited source) :
    (skipTypeBody word).LocalAt s Marked Anything c := by
  have hround : LocalRound source s Marked Marked (do
      let t ← here
      if t.kind = .openBrace then return false
      else if t.isEnd then fail (.missingBody word)
      else
        let _ ← take
        return true) := fun n c hc =>
    .here_bind (.ite (fun _ => .pure false) fun _ => .ite (fun _ => .fail _) fun hcode =>
      .step hc hcode (.pure true)) fun ps hps => hps.2.ne_nil
  refine ((hround.rounds 0 c hc).bind fun _ _ d _ hreaches => ?_).start fun ps hps => hps.2
  exact (LocalAt.marked_skipGroup (hc.reaching hreaches)).start fun ps hps => ⟨Nat.zero_le _, hps⟩

/-! ## Skipped statements -/

/-- What may go on with a statement: a clause for what was thrown. -/
theorem localRound_catch : LocalRound source s (fun _ => True) (fun _ => True) (do
    if (← cursor).isAtWord "catch" then
      skipWordAndGroup
      skipGroup
      return true
    else return false) := by
  intro n c hc
  refine (LocalAt.cursor_bind (P := fun ps => AtLeast n (fun _ => True) ps ∧
    (c.isAtWord "catch" = true → ps ≠ [])) (.ite (fun hcatch => ?_) fun hcatch => ?_)
    fun ps c' hps hc' => by rw [hc'.isAtWord_of_word (by decide) hps.2]).start fun _ h => h.1
  · have hgroups {d : Cursor} (hd : d.Sited source) : (do
        skipGroup
        skipGroup
        return true : Reading Bool).LocalAt s (AtLeast (n - 1) fun _ => True)
          (Left n (fun _ => True) fun _ => True) d :=
      .skipGroup_bind (P := AtLeast (n - 1) fun _ => True) hd (fun m _ => .skipGroup_bind (hd.forward m)
        (fun _ _ => .pure true) fun _ _ _ (h : AtLeast (n - 1) (fun _ => True) _) => h.append_left)
        fun _ _ _ => AtLeast.append_left
    rw [skipWordAndGroup, bind_assoc]
    exact .take_bind hc (not_isEnd_of_kind (kind_of_isWord hcatch) (by decide)) (hgroups hc.advance)
      fun us hus => ⟨hus.cons, fun _ => List.cons_ne_nil _ _⟩
  · exact (LocalAt.pure false).start fun ps hps => ⟨hps, fun hat => absurd hat hcatch⟩

theorem skipShape_eq {ps : List Token} {c' : Cursor} (hc' : s.At ps c c') (hps : Marked ps) :
    skipShape c' = skipShape c := by
  rw [skipShape, skipShape, hc'.here_eq hps.ne_nil]
  cases hkind : c.here.kind <;> simp only
  rw [isLabel, isLabel, hc'.here_eq hps.ne_nil, hc'.nextIs_of_marked hps hkind]

/-- A clause with a block, if there is one. -/
theorem local_finally (hc : c.Sited source) :
    (do if (← cursor).isAtWord "finally" then skipWordAndGroup : Reading Unit).LocalAt s
      (fun _ => True) Anything c := by
  refine (LocalAt.cursor_bind (P := fun ps => c.isAtWord "finally" = true → ps ≠ [])
    (.ite (fun hat => ?_) fun hat => ?_)
    fun ps c' hps hc' => by rw [hc'.isAtWord_of_word (by decide) hps]).start fun _ _ => trivial
  · rw [← bind_pure skipWordAndGroup]
    exact (LocalAt.skipWordAndGroup_marked hc (not_isEnd_of_kind (kind_of_isWord hat) (by decide))
      fun _ _ => .pure ()).start fun ps hps _ => hps.ne_nil
  · exact (LocalAt.pure ()).start fun ps _ h => absurd h hat

theorem skipTry_local (hc : c.Sited source) (hcode : ¬ c.here.isEnd) :
    skipTry.LocalAt s Marked Anything c := by
  have hclauses {d : Cursor} (hd : d.Sited source) : (do
      repeatWhile do
        if (← cursor).isAtWord "catch" then
          skipWordAndGroup
          skipGroup
          return true
        else return false
      if (← cursor).isAtWord "finally" then skipWordAndGroup : Reading Unit).LocalAt s
        (fun _ => True) Anything d :=
    ((localRound_catch.rounds 0 d hd).bind fun _ _ e _ hreaches =>
      (local_finally (hd.reaching hreaches)).start fun _ _ => ⟨Nat.zero_le _, trivial⟩).start
        fun _ _ => trivial
  refine .take_marked hc hcode ?_
  have hadvance := hc.advance
  refine .cursor_bind (.ite (fun _ => ?_) fun _ => ?_) fun ps c' hps hc' => by
    rw [hc'.isAt_eq hps.ne_nil]
  · exact .skipGroup_marked hadvance fun d hd => .skipGroup_marked hd fun _ => hclauses
  · exact .skipGroup_marked hadvance fun _ => hclauses

theorem skipNested_local (budget : List Token) (c : Cursor) (hc : c.Sited source) :
    (skipNested budget).LocalAt s Marked Anything c := by
  induction budget generalizing c with
  | nil => exact (skipToSemicolon_local hc).start fun _ => Sealed.marked
  | cons t budget ih =>
      refine .cursor_bind ?_ fun ps c' hps hc' => by rw [skipShape_eq hc' hps]
      have hcode (hshape : skipShape c ≠ .simple) : ¬ c.here.isEnd := by
        rcases kind_of_skipShape rfl hshape with h | h | h <;> exact not_isEnd_of_kind h (by decide)
      have helse {d : Cursor} (hd : d.Sited source) : (do
          if (← cursor).isAtWord "else" then
            let _ ← take
            skipNested budget : Reading Unit).LocalAt s (fun _ => True) Anything d := by
        refine (LocalAt.cursor_bind (P := fun ps => d.isAtWord "else" = true → ps ≠ [])
          (.ite (fun hat => ?_) fun hat => ?_)
          fun ps c' hps hc' => by rw [hc'.isAtWord_of_word (by decide) hps]).start fun _ _ => trivial
        · exact (LocalAt.take_marked hd (not_isEnd_of_kind (kind_of_isWord hat) (by decide))
            (ih _ hd.advance)).start fun ps hps _ => hps.ne_nil
        · exact (LocalAt.pure ()).start fun ps _ h => absurd h hat
      have hwhile {d : Cursor} (hd : d.Sited source) : (do
          if (← cursor).isAtWord "while" then
            skipWordAndGroup
            let _ ← expect .semicolon ";"
          else fail .doWithoutWhile : Reading Unit).LocalAt s Marked Anything d := by
        refine .cursor_bind (.ite (fun hat => ?_) fun _ => .fail _) fun ps c' hps hc' => by
          rw [hc'.isAtWord_eq hps.ne_nil]
        exact .skipWordAndGroup_marked hd (not_isEnd_of_kind (kind_of_isWord hat) (by decide))
          fun e he => .expect_bind (T := fun _ => True) he (by decide) (fun _ => .pure ()) fun _ _ _ => trivial
      cases hshape : skipShape c with
      | group => exact .marked_skipGroup hc
      | empty =>
          refine .take_bind (P := fun _ => True) hc (hcode (by simp [hshape])) (.pure ()) fun us _ => ?_
          exact Token.marked_cons (by simp [kind_of_skipEmpty hshape])
      | ifElse =>
          refine .skipWordAndGroup_marked (P := Marked) hc (hcode (by simp [hshape])) fun d hd => ?_
          exact (ih d hd).bind fun _ _ e _ hreaches => helse (hd.reaching hreaches)
      | loop => exact .skipWordAndGroup_marked hc (hcode (by simp [hshape])) fun d hd => ih d hd
      | headAndBlock =>
          exact .skipWordAndGroup_marked hc (hcode (by simp [hshape])) fun d hd => .marked_skipGroup hd
      | doWhile =>
          refine .take_marked hc (hcode (by simp [hshape])) ((ih _ hc.advance).bind fun _ _ e _ hreaches => ?_)
          exact (hwhile (hc.advance.reaching hreaches)).start fun _ _ => trivial
      | tryCatch => exact skipTry_local hc (hcode (by simp [hshape]))
      | typeDeclaration word => exact skipTypeBody_local word hc
      | labelled =>
          refine .forward_bind hc ?_ (ih _ (hc.forward 2)) fun ps us _ _ hus => hus.append_left ps
          exact not_isEnd_of_isLabel (isLabel_of_skipLabelled hshape)
      | simple => exact (skipToSemicolon_local hc).start fun _ => Sealed.marked

/-- A skipped statement in front of the seam is stepped over the same way whatever follows. -/
theorem skipStatement_local (hc : c.Sited source) : skipStatement.LocalAt s Marked Anything c := by
  intro events u d hrun
  have hbudget (rest : List Token) : skipStatement c = skipNested (c.ahead ++ rest) c :=
    skipNested_of_budget hc.laid le_rfl (by simp)
  obtain ⟨hreaches, hlocal⟩ := @skipNested_local source s c.ahead c hc events u d hrun
  refine ⟨hreaches, fun qs hqs _ => ?_⟩
  obtain ⟨ps, htokens, hstart, -⟩ := hlocal qs hqs trivial
  refine ⟨ps, htokens, hstart, fun c' hc' => ?_⟩
  have hrun' := (hbudget c'.ahead).symm.trans hrun
  obtain ⟨ps', htokens', -, hsame⟩ :=
    (skipNested_local (c.ahead ++ c'.ahead) c hc events u d hrun').2 qs hqs trivial
  obtain rfl := List.append_cancel_right (htokens.symm.trans htokens')
  obtain ⟨d', hd', hat⟩ := hsame c' hc'
  refine ⟨d', ?_, hat⟩
  rw [skipStatement, skipNested_of_budget hc'.sited'.laid le_rfl
    (show c'.ahead.length ≤ (c.ahead ++ c'.ahead).length by simp), hd']

end Reading

end CodeFrames
