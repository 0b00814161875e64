import CodeFrames.Proofs.Searches.Skipping

/-!
# What is stepped over as a statement

The tokens that the recovery takes for one statement, with the groups in them where the heads and the
blocks of the statement are looked for.  A statement that is stepped over is one of these, and its groups
are the ones that the searches of the run have come to.
-/

namespace CodeFrames

/-! ## Statements made of groups -/

section Grammar

-- whether tokens can be the group in such a role
variable (G : GroupRole → List Token → Prop)

/-- A group that starts with its bracket. -/
def SeenGroup (kind : Token.Kind) (ps : List Token) : Prop :=
  G .seen ps ∧ ∃ bracket rest, ps = bracket :: rest ∧ bracket.kind = kind

/-- The handlers of a `try` statement. -/
inductive Handlers : List Token → Prop
  | none : Handlers []
  | more {t head block ps} : t.isWord "catch".toList → G .head head → G .block block → Handlers ps →
      Handlers (t :: (head ++ (block ++ ps)))

/-- The block behind `finally`, or nothing. -/
inductive Finally : List Token → Prop
  | none : Finally []
  | block {t block} : t.isWord "finally".toList → G .block block → Finally (t :: block)

/-- Tokens through a semicolon, and groups between them. -/
inductive ThroughSemicolon : List Token → Prop
  | last {t} : t.kind = .semicolon → ThroughSemicolon [t]
  | plain {t ps} : ¬ t.kind.isOpener → t.kind ≠ .semicolon → t.kind ≠ .closeBrace → ¬ t.isEnd →
      ThroughSemicolon ps → ThroughSemicolon (t :: ps)
  | group {ps qs} : G .seen ps → ThroughSemicolon qs → ThroughSemicolon (ps ++ qs)

/-- One statement as the recovery takes it. -/
inductive SkippedStatement : List Token → Prop
  | block {ps} : SeenGroup G .openBrace ps → SkippedStatement ps
  | empty {t} : t.kind = .semicolon → SkippedStatement [t]
  | branch {t head ps} : t.isWord "if".toList → G .head head → SkippedStatement ps →
      SkippedStatement (t :: (head ++ ps))
  | branches {t head ps u qs} : t.isWord "if".toList → G .head head → SkippedStatement ps →
      u.isWord "else".toList → SkippedStatement qs → SkippedStatement (t :: (head ++ (ps ++ u :: qs)))
  | loop {t head ps} : t.isWord "for".toList ∨ t.isWord "while".toList → G .head head →
      SkippedStatement ps → SkippedStatement (t :: (head ++ ps))
  | headAndBlock {t head block} : t.isWord "switch".toList ∨ t.isWord "synchronized".toList →
      G .head head → G .block block → SkippedStatement (t :: (head ++ block))
  | doWhile {t ps u head semicolon} : t.isWord "do".toList → SkippedStatement ps →
      u.isWord "while".toList → G .head head → semicolon.kind = .semicolon →
      SkippedStatement (t :: (ps ++ u :: (head ++ [semicolon])))
  | tryCatch {t resources block handlers ps} : t.isWord "try".toList →
      resources = [] ∨ SeenGroup G .openParen resources → G .block block → Handlers G handlers →
      Finally G ps → SkippedStatement (t :: (resources ++ (block ++ (handlers ++ ps))))
  | typeDeclaration {t front body} : t.isWordIn Token.typeWords → (∀ u ∈ front, u.kind ≠ .openBrace) →
      SeenGroup G .openBrace body → SkippedStatement (t :: (front ++ body))
  | labelled {name colon ps} : name.isName → colon.isOperator [':'] → SkippedStatement ps →
      SkippedStatement (name :: colon :: ps)
  /-- No other form of statement starts with the first of the tokens. -/
  | simple {t ps} : t.kind ≠ .openBrace → t.kind ≠ .semicolon →
      (t.kind = .word → Reading.skipWords.lookup t.text = none) → ¬ t.isWordIn Token.typeWords →
      ThroughSemicolon G (t :: ps) → SkippedStatement (t :: ps)

end Grammar

/-! ## Runs over tokens -/

/-- The search stands for a group in its role, if it comes to one. -/
def Search.Grants (G : GroupRole → List Token → Prop) (q : Search) : Prop :=
  ∀ ps d, (Reading.skipGroup q.start).2 = .ok ((), d) → q.start.Spans ps d → G q.role ps

namespace Searching

open Reading (here cursor take expect skipShape kind_of_isAt not_isEnd_of_kind not_isEnd_of_isAtWord
  not_isEnd_of_skipShape exists_word_of_skipShape)

variable {α β : Type} {source : Text} {G : GroupRole → List Token → Prop}

/-- A run from the cursor whose searches stand for groups steps over such tokens. -/
def StepsAt (G : GroupRole → List Token → Prop) (s : Searching α) (c : Cursor)
    (P : α → List Token → Prop) : Prop :=
  ∀ searches a d, s c = (searches, .ok (a, d)) → (∀ q ∈ searches, q.Grants G) →
    ∃ ps, c.Spans ps d ∧ P a ps

namespace StepsAt

variable {s t : Searching α} {f : α → Searching β} {c : Cursor} {P Q : α → List Token → Prop}
  {R : β → List Token → Prop}

theorem of_error {r : Reading α} {e : SourceError} (h : (r c).2 = .error e) :
    (liftM r : Searching α).StepsAt G c P := by
  intro searches a d hrun
  obtain ⟨events, hr⟩ := (Follows.lift r).run hrun
  simp [hr] at h

theorem imp (h : s.StepsAt G c P) (hPQ : ∀ a ps, P a ps → Q a ps) : s.StepsAt G c Q := by
  intro searches a d hrun hgrants
  obtain ⟨ps, hspans, hps⟩ := h searches a d hrun hgrants
  exact ⟨ps, hspans, hPQ a ps hps⟩

theorem bind (h : s.StepsAt G c P)
    (hf : ∀ a d ps, P a ps → c.Spans ps d → (f a).StepsAt G d fun b qs => R b (ps ++ qs)) :
    (s >>= f).StepsAt G c R := by
  intro searches b e hrun hgrants
  obtain ⟨first, a, d, more, hs, hmore, rfl⟩ := exists_of_bind_ok hrun
  obtain ⟨ps, hspans, hps⟩ := h first a d hs fun q hq => hgrants q (List.mem_append_left _ hq)
  obtain ⟨qs, hspans', hqs⟩ := hf a d ps hps hspans more b e hmore
    fun q hq => hgrants q (List.mem_append_right _ hq)
  exact ⟨ps ++ qs, hspans.trans hspans', hqs⟩

theorem pure {a : α} (h : P a []) : (Pure.pure a : Searching α).StepsAt G c P := by
  intro searches b d hrun _
  cases hrun
  exact ⟨[], Cursor.spans_nil rfl rfl, h⟩

theorem ite {p : Prop} [Decidable p] (h : p → s.StepsAt G c P) (h' : ¬ p → t.StepsAt G c P) :
    (if p then s else t).StepsAt G c P := by
  split
  · exact h ‹_›
  · exact h' ‹_›

theorem cursor_bind {f : Cursor → Searching β} (h : (f c).StepsAt G c R) :
    ((liftM cursor : Searching Cursor) >>= f).StepsAt G c R := h

theorem here_bind {f : Token → Searching β} (h : (f c.here).StepsAt G c R) :
    ((liftM here : Searching Token) >>= f).StepsAt G c R := h

theorem take_bind {f : Token → Searching β} (hc : c.Sited source) (hend : ¬ c.here.isEnd)
    (hf : (f c.here).StepsAt G c.advance fun b ps => R b (c.here :: ps)) :
    ((liftM take : Searching Token) >>= f).StepsAt G c R := by
  intro searches b e hrun hgrants
  obtain ⟨ps, hspans, hps⟩ := hf searches b e hrun hgrants
  exact ⟨c.here :: ps, (Cursor.spans_advance hc.laid hend).trans hspans, hps⟩

theorem expect_bind {kind : Token.Kind} {symbol : String} {f : Token → Searching β} (hc : c.Sited source)
    (hkind : kind ≠ .endOfInput)
    (hf : c.here.kind = kind → (f c.here).StepsAt G c.advance fun b ps => R b (c.here :: ps)) :
    ((liftM (expect kind symbol) : Searching Token) >>= f).StepsAt G c R := by
  intro searches b e hrun hgrants
  obtain ⟨first, a, d, more, hfirst, hmore, rfl⟩ := exists_of_bind_ok hrun
  obtain ⟨events, hexpect⟩ := (Follows.lift _).run hfirst
  obtain ⟨hat, rfl, rfl⟩ := Reading.exists_of_expect hexpect
  obtain ⟨ps, hspans, hps⟩ := hf hat more b e hmore fun q hq => hgrants q (List.mem_append_right _ hq)
  exact ⟨c.here :: ps, (Cursor.spans_advance hc.laid (not_isEnd_of_kind hat hkind)).trans hspans, hps⟩

/-- The tokens that are stepped over are the group that has been searched for. -/
theorem group (hc : c.Sited source) (role : GroupRole) :
    (Searching.group role).StepsAt G c fun _ ps => G role ps ∧ ∃ rest, ps = c.here :: rest := by
  intro searches u d hrun hgrants
  obtain ⟨rfl, hresult⟩ := Prod.mk.injEq .. |>.mp hrun
  obtain ⟨hreaches, hpasses⟩ := Reading.strides_skipGroup c hc _ u d (Prod.ext rfl hresult)
  obtain ⟨ps, hspans⟩ := hreaches
  exact ⟨ps, hspans, hgrants _ List.mem_cons_self ps d hresult hspans,
    hspans.exists_cons (hspans.ne_nil_of_passes (hpasses trivial))⟩

theorem seenGroup {kind : Token.Kind} (hc : c.Sited source) (h : c.here.kind = kind) :
    (Searching.group .seen).StepsAt G c fun _ ps => SeenGroup G kind ps :=
  (group hc .seen).imp fun _ _ ⟨hps, rest, hrest⟩ => ⟨hps, c.here, rest, hrest, h⟩

/-- A word, and the group behind it. -/
theorem wordAndGroup (hc : c.Sited source) (hend : ¬ c.here.isEnd) (role : GroupRole) :
    (skipWordAndGroup role).StepsAt G c fun _ ps => ∃ head, ps = c.here :: head ∧ G role head :=
  take_bind hc hend ((group hc.advance role).imp fun _ _ h => ⟨_, rfl, h.1⟩)

end StepsAt

/-! ## Loops -/

/-- What a further round adds to the tokens behind it, and what the last one steps over. -/
def RoundOf (Q : List Token → Prop) : Bool → List Token → Prop
  | true, ps => ps ≠ [] ∧ ∀ qs, Q qs → Q (ps ++ qs)
  | false, ps => Q ps

theorem StepsAt.rounds {body : Searching Bool} {Q : List Token → Prop} {c : Cursor}
    (hbody : ∀ c : Cursor, c.Sited source → body.StepsAt G c (RoundOf Q)) (hc : c.Sited source) :
    (repeatWhile body).StepsAt G c fun _ ps => Q ps := by
  -- each further round is over a token, so the loop is never ended by its budget
  have hloop (budget : List Token) : ∀ c : Cursor, c.Sited source → c.ahead.length ≤ budget.length →
      (loop body budget).StepsAt G c fun _ ps => Q ps := by
    induction budget with
    | nil =>
        intro c hc hlength
        refine (hbody c hc).bind fun again d ps hps hspans => .pure ?_
        cases again with
        | false => rwa [List.append_nil]
        | true =>
            have hpasses : c.Passes d := ⟨ps, hps.1, hspans⟩
            exact absurd (hpasses.length_lt.trans_le hlength) (Nat.not_lt_zero _)
    | cons t budget ih =>
        intro c hc hlength
        refine (hbody c hc).bind fun again d ps hps hspans => ?_
        cases again with
        | false => exact .pure (by rwa [List.append_nil])
        | true =>
            have hpasses : c.Passes d := ⟨ps, hps.1, hspans⟩
            have hshort := hpasses.length_lt
            rw [List.length_cons] at hlength
            exact (ih d (hc.reaching hpasses.reaches) (by omega)).imp fun _ qs => hps.2 qs
  exact hloop c.ahead c hc le_rfl

/-! ## The recovery over statements -/

section Recovery

variable {c : Cursor}

theorem steps_semicolonRound (hc : c.Sited source) :
    semicolonRound.StepsAt G c (RoundOf (ThroughSemicolon G)) := by
  refine .here_bind ?_
  have hgroup : (do
      group .seen
      return true : Searching Bool).StepsAt G c (RoundOf (ThroughSemicolon G)) :=
    (StepsAt.group hc .seen).bind fun _ _ _ ⟨hps, rest, hrest⟩ _ => .pure ⟨by simp [hrest],
      fun _ hqs => by simpa using ThroughSemicolon.group hps hqs⟩
  have hplain (hopener : ¬ c.here.kind.isOpener) (hsemicolon : c.here.kind ≠ .semicolon)
      (hbrace : c.here.kind ≠ .closeBrace) (hend : c.here.kind ≠ .endOfInput) :
      (do
        let _ ← take
        return true : Searching Bool).StepsAt G c (RoundOf (ThroughSemicolon G)) :=
    have hend : ¬ c.here.isEnd := by simpa [Token.isEnd] using hend
    .take_bind hc hend (.pure ⟨List.cons_ne_nil _ _, fun _ => .plain hopener hsemicolon hbrace hend⟩)
  cases hkind : c.here.kind with
  | semicolon => exact .take_bind hc (not_isEnd_of_kind hkind (by decide)) (.pure (.last hkind))
  | openParen | openBracket | openBrace => exact hgroup
  | endOfInput | closeBrace => exact .of_error rfl
  | _ => refine hplain ?_ ?_ ?_ ?_ <;> simp [hkind, Token.Kind.isOpener]

theorem steps_skipToSemicolon (hc : c.Sited source) :
    skipToSemicolon.StepsAt G c fun _ ps => ThroughSemicolon G ps :=
  .rounds (fun _ => steps_semicolonRound) hc

theorem steps_catchRound (hc : c.Sited source) : catchRound.StepsAt G c (RoundOf (Handlers G)) := by
  refine .cursor_bind (.ite (fun hword => ?_) fun _ => .pure .none)
  refine (StepsAt.wordAndGroup hc (not_isEnd_of_isAtWord hword) .head).bind ?_
  rintro _ d _ ⟨head, rfl, hhead⟩ hspans
  refine (StepsAt.group (hc.reaching ⟨_, hspans⟩) .block).bind fun _ _ _ hblock _ => .pure ?_
  refine ⟨List.cons_ne_nil _ _, fun _ hqs => ?_⟩
  simpa using Handlers.more hword hhead hblock.1 hqs

theorem steps_finally (hc : c.Sited source) : (do
    if (← cursor).isAtWord "finally" then skipWordAndGroup .block : Searching Unit).StepsAt G c
      fun _ ps => Finally G ps := by
  refine .cursor_bind (.ite (fun hword => ?_) fun _ => .pure .none)
  refine (StepsAt.wordAndGroup hc (not_isEnd_of_isAtWord hword) .block).imp ?_
  rintro _ _ ⟨block, rfl, hblock⟩
  exact .block hword hblock

theorem steps_skipTry (hc : c.Sited source) (hword : c.here.isWord "try".toList) :
    skipTry.StepsAt G c fun _ ps => SkippedStatement G ps := by
  -- behind the resources
  have hrest {d : Cursor} {resources : List Token} (hd : d.Sited source)
      (hresources : resources = [] ∨ SeenGroup G .openParen resources) :
      (group .block >>= fun _ => repeatWhile catchRound >>= fun _ => do
        if (← cursor).isAtWord "finally" then skipWordAndGroup .block : Searching Unit).StepsAt G d
        fun _ ps => SkippedStatement G (c.here :: (resources ++ ps)) := by
    refine (StepsAt.group hd .block).bind fun _ e block hblock hspans => ?_
    have he := hd.reaching ⟨_, hspans⟩
    refine (StepsAt.rounds (fun _ => steps_catchRound) he).bind fun _ f handlers hhandlers hspans' => ?_
    refine (steps_finally (he.reaching ⟨_, hspans'⟩)).imp fun _ ps hps => ?_
    simpa using SkippedStatement.tryCatch hword hresources hblock.1 hhandlers hps
  refine .take_bind hc (not_isEnd_of_isAtWord hword) (.cursor_bind (.ite (fun hparen => ?_) fun _ => ?_))
  · refine (StepsAt.seenGroup hc.advance (kind_of_isAt hparen)).bind fun _ d resources hresources hspans => ?_
    exact hrest (hc.advance.reaching ⟨_, hspans⟩) (.inr hresources)
  · simpa using hrest hc.advance (.inl rfl)

theorem steps_skipTypeBody {word : Text} (hc : c.Sited source) (hword : c.here.isWordIn Token.typeWords) :
    (skipTypeBody word).StepsAt G c fun _ ps => SkippedStatement G ps := by
  intro searches u e hrun hgrants
  obtain ⟨first, _, d, more, hwalk, hbody, rfl⟩ := exists_of_bind_ok hrun
  obtain ⟨events, hfront⟩ := (Follows.lift _).run hwalk
  obtain ⟨front, hspans, hbraces, hbrace⟩ := exists_front_of_typeBody hc hfront
  obtain ⟨body, hspans', hseen⟩ := StepsAt.seenGroup (hc.reaching ⟨_, hspans⟩) hbrace _ _ _ hbody
    fun q hq => hgrants q (List.mem_append_right _ hq)
  cases front with
  | nil =>
      have hhere : c.here = d.here := (List.cons.inj hspans.1).1
      exact absurd (hhere ▸ hbrace) (by rw [Token.kind_of_isWordIn hword]; decide)
  | cons t front =>
      obtain rfl : c.here = t := (List.cons.inj hspans.1).1
      have hfront := List.forall_mem_of_forall_mem_cons hbraces
      exact ⟨_, hspans.trans hspans', .typeDeclaration hword hfront hseen⟩

theorem steps_skipNested {budget : List Token} (hc : c.Sited source)
    (hbudget : c.ahead.length ≤ budget.length) :
    (skipNested budget).StepsAt G c fun _ ps => SkippedStatement G ps := by
  induction budget generalizing c with
  | nil =>
      -- the budget is as long as what is ahead: there is no semicolon to come to
      intro searches u d hrun
      obtain ⟨events, hskip⟩ := follows_skipToSemicolon.run hrun
      have hpasses := Reading.advances_skipToSemicolon c hc.laid events u d hskip
      exact absurd (hpasses.length_lt.trans_le hbudget) (Nat.not_lt_zero _)
  | cons t budget ih =>
      -- a statement in this one starts further on, with a token less to spend
      have inner {d : Cursor} (hd : c.Passes d) :
          (skipNested budget).StepsAt G d fun _ ps => SkippedStatement G ps := by
        have hlength := hd.length_lt
        rw [List.length_cons] at hbudget
        exact ih (hc.reaching hd.reaches) (by omega)
      refine .cursor_bind ?_
      cases hshape : skipShape c with
      | group =>
          exact (StepsAt.seenGroup hc (Reading.kind_of_skipGroup hshape)).imp fun _ _ h => .block h
      | empty =>
          exact .take_bind hc (not_isEnd_of_skipShape hshape (by simp))
            (.pure (.empty (Reading.kind_of_skipEmpty hshape)))
      | ifElse =>
          obtain ⟨word, hword, hmem⟩ := exists_word_of_skipShape hshape (by decide)
          obtain rfl : word = "if".toList := by simpa [Reading.skipWords] using hmem
          refine (StepsAt.wordAndGroup hc (not_isEnd_of_isAtWord hword) .head).bind ?_
          rintro _ d _ ⟨head, rfl, hhead⟩ hspans
          have hd : c.Passes d := ⟨_, List.cons_ne_nil _ _, hspans⟩
          refine (inner hd).bind fun _ e ps hps hspans' => .cursor_bind ?_
          refine .ite (fun helse => ?_) fun _ => .pure ?_
          · have he := hd.trans_reaches ⟨_, hspans'⟩
            refine .take_bind (hc.reaching he.reaches) (not_isEnd_of_isAtWord helse) ?_
            refine (inner (he.trans_reaches (Cursor.reaches_advance e))).imp fun _ qs hqs => ?_
            simpa using SkippedStatement.branches hword hhead hps helse hqs
          · simpa using SkippedStatement.branch hword hhead hps
      | loop =>
          have hword : c.here.isWord "for".toList ∨ c.here.isWord "while".toList := by
            obtain ⟨word, hword, hmem⟩ := exists_word_of_skipShape hshape (by decide)
            obtain rfl | rfl : word = "for".toList ∨ word = "while".toList := by
              simpa [Reading.skipWords] using hmem
            · exact .inl hword
            · exact .inr hword
          refine (StepsAt.wordAndGroup hc (not_isEnd_of_skipShape hshape (by simp)) .head).bind ?_
          rintro _ d _ ⟨head, rfl, hhead⟩ hspans
          refine (inner ⟨_, List.cons_ne_nil _ _, hspans⟩).imp fun _ ps hps => ?_
          exact .loop hword hhead hps
      | headAndBlock =>
          have hword : c.here.isWord "switch".toList ∨ c.here.isWord "synchronized".toList := by
            obtain ⟨word, hword, hmem⟩ := exists_word_of_skipShape hshape (by decide)
            obtain rfl | rfl : word = "switch".toList ∨ word = "synchronized".toList := by
              simpa [Reading.skipWords] using hmem
            · exact .inl hword
            · exact .inr hword
          refine (StepsAt.wordAndGroup hc (not_isEnd_of_skipShape hshape (by simp)) .head).bind ?_
          rintro _ d _ ⟨head, rfl, hhead⟩ hspans
          refine (StepsAt.group (hc.reaching ⟨_, hspans⟩) .block).imp fun _ ps hps => ?_
          exact .headAndBlock hword hhead hps.1
      | doWhile =>
          obtain ⟨word, hword, hmem⟩ := exists_word_of_skipShape hshape (by decide)
          obtain rfl : word = "do".toList := by simpa [Reading.skipWords] using hmem
          have hend := not_isEnd_of_isAtWord hword
          have hd := Cursor.passes_advance hc.laid hend
          refine .take_bind hc hend ((inner hd).bind fun _ e ps hps hspans => ?_)
          have he := hc.reaching (hd.trans_reaches ⟨_, hspans⟩).reaches
          refine .cursor_bind (.ite (fun hwhile => ?_) fun _ => .of_error rfl)
          refine (StepsAt.wordAndGroup he (not_isEnd_of_isAtWord hwhile) .head).bind ?_
          rintro _ f _ ⟨head, rfl, hhead⟩ hspans'
          refine .expect_bind (he.reaching ⟨_, hspans'⟩) (by decide) fun hsemicolon => .pure ?_
          simpa using SkippedStatement.doWhile hword hps hwhile hhead hsemicolon
      | tryCatch =>
          obtain ⟨word, hword, hmem⟩ := exists_word_of_skipShape hshape (by decide)
          obtain rfl : word = "try".toList := by simpa [Reading.skipWords] using hmem
          exact steps_skipTry hc hword
      | typeDeclaration word => exact steps_skipTypeBody hc (Reading.isTypeWord_of_skipShape hshape)
      | labelled =>
          have hlabel := Reading.isLabel_of_skipLabelled hshape
          have hspans := Cursor.spans_forward hc.laid (Reading.not_isEnd_of_isLabel hlabel)
          obtain ⟨before, name, ahead, comments⟩ := c
          obtain ⟨hname, hcolon⟩ := Bool.and_eq_true_iff.mp hlabel
          cases ahead with
          | nil => cases hcolon
          | cons colon ahead =>
              intro searches u d hrun hgrants
              have hrest := inner ⟨_, List.cons_ne_nil _ _, hspans⟩
              obtain ⟨ps, hspans', hps⟩ := hrest searches u d hrun hgrants
              exact ⟨_, hspans.trans hspans', .labelled hname hcolon hps⟩
      | simple =>
          intro searches u d hrun hgrants
          obtain ⟨events, hskip⟩ := follows_skipToSemicolon.run hrun
          have hpasses := Reading.advances_skipToSemicolon c hc.laid events u d hskip
          obtain ⟨ps, hspans, hps⟩ := steps_skipToSemicolon hc searches u d hrun hgrants
          obtain ⟨rest, rfl⟩ := hspans.exists_cons (hspans.ne_nil_of_passes hpasses)
          obtain ⟨hbrace, hsemicolon, hwords, htype⟩ := Reading.starts_of_skipSimple hshape
          exact ⟨_, hspans, .simple hbrace hsemicolon hwords htype hps⟩

theorem steps_skipStatement (hc : c.Sited source) :
    skipStatement.StepsAt G c fun _ ps => SkippedStatement G ps := steps_skipNested hc le_rfl

end Recovery

end Searching

end CodeFrames
