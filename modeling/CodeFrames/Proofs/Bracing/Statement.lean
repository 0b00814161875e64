import CodeFrames.Proofs.Bracing.Path
import CodeFrames.Proofs.Strides

/-!
# Statements over the place of the statement

A statement that the statement is part of is a block, a branch or a loop.  By induction on the nesting
levels each is read over the braces, from the body that the statement stands in outwards.
-/

namespace CodeFrames

open scoped Computability
open Reading
open Token (Marked Sealed)

/-- The enclosed productions, but the statement from the first tokens to the second is refused. -/
def Enclosed.without (whole rest : List Token) : Nat → Enclosed
  | 0 => refused
  | levels + 1 =>
      { within (levels + 1) with
        statement := do
          let start ← cursor
          Reading.statement (without whole rest levels)
          if start.tokens = whole ∧ (← cursor).tokens = rest then fail .nestedTooDeep }

/-- The statements that others are part of. -/
def Reading.StatementShape.isCompound : StatementShape → Bool
  | .block | .ifChain | .whileLoop => true
  | _ => false

theorem Reading.startOf_of_isCompound {shape : StatementShape} (h : shape.isCompound = true) {m : Nat}
    {ps : List Token} (hps : Marked ps) : startOf m shape ps := by
  cases shape <;> first | exact hps | cases h

namespace Bracing

/-- Where a statement may stand in the source. -/
abbrev Poised (b : Bracing) : Assembly → Prop := Assembly.Poised b.source b.options.commentWidth

/-- Where no expression is open. -/
abbrev Calm (b : Bracing) : Assembly → Prop := Assembly.Calm b.source b.options.commentWidth

namespace Site

variable {b : Bracing} (σ : b.Site) {α : Type} {c : Cursor} {n : Nat}

abbrev refusing (n : Nat) : Enclosed := .without σ.rest σ.behind n

/-- A statement so deep in the source either is the statement or has it in it. -/
def Inside (n : Nat) : Prop :=
  ∀ c, c.Sited b.source → ∀ events d, (Enclosed.within n).statement c = (events, .ok ((), d)) →
    (σ.refusing n).statement c ≠ (Enclosed.within n).statement c →
      (c.tokens = σ.rest ∧ d.tokens = σ.behind) ∨
        σ.Crossed b.Poised (fun ps => Marked ps ∧ (statementShape c).isCompound = true)
          (Enclosed.within (n + 1)).statement c events () d

/-! Productions that no statement is part of. -/

theorem expression_refusing : expression (σ.refusing n) = expression (Enclosed.within n) := by
  cases n <;> rfl

theorem arrayInitializer_refusing : arrayInitializer (σ.refusing n) = arrayInitializer (Enclosed.within n) := by
  cases n <;> rfl

theorem condition_refusing : condition (σ.refusing n) = condition (Enclosed.within n) := by
  rw [condition, condition, expression_refusing]

theorem returned_refusing : returned (σ.refusing n) = returned (Enclosed.within n) := by
  simp only [returned, expression_refusing]

theorem thrown_refusing : thrown (σ.refusing n) = thrown (Enclosed.within n) := by
  simp only [thrown, expression_refusing]

theorem expressionStatement_refusing :
    expressionStatement (σ.refusing n) = expressionStatement (Enclosed.within n) := by
  simp only [expressionStatement, expression_refusing]

theorem localVariables_refusing : localVariables (σ.refusing n) = localVariables (Enclosed.within n) := by
  simp only [localVariables, declarator, variableValue, expression_refusing, arrayInitializer_refusing]

variable {σ}

theorem mirrors_within (part : Part) (n : Nat) : (Enclosed.within n).Mirrors (b.pairing part) :=
  Enclosed.mirrors_within _ n

theorem below_next (n : Nat) : (Enclosed.within n).Below (Enclosed.within (n + 1)) :=
  Enclosed.below_within (Nat.le_succ n)

theorem delivers (n : Nat) : (Enclosed.within n).Delivers b.source := Enclosed.delivers_within _ n

theorem reports (n : Nat) : (Enclosed.within n).Reports b.source b.options.commentWidth :=
  Enclosed.reports_within _ _ n

theorem settles_body (n : Nat) : (body (Enclosed.within n)).Settles b.source :=
  Reading.settles_body (Enclosed.settles_within _ n) (Enclosed.settles_statement _ n)

theorem settles_condition (n : Nat) : (condition (Enclosed.within n)).Settles b.source :=
  .behind (.expect _ _) fun _ => .behind (.expression (delivers n)) fun _ =>
    settles_close (by decide) (by decide) fun _ => .pure ()

theorem head_eq_opening {c' : Cursor} (h : σ.seam.At [] c c') : c'.here = σ.opening := (List.cons.inj h.tokens').1

theorem hole_of_run (hc : c.Sited b.source) (htokens : c.tokens = σ.rest) {events : List Event} {d : Cursor}
    (hrun : (Enclosed.within n).statement c = (events, .ok ((), d))) (hend : d.tokens = σ.behind) : σ.Hole c :=
  ⟨hc, htokens, n, events, d, hrun, hend⟩

/-- Where the statement is one of a list. -/
theorem crosses_inside (h : σ.Inside n) : σ.Crosses b.Poised (fun ps => ps = [] ∨ Marked ps)
    (σ.refusing n).statement (Enclosed.within n).statement (Enclosed.within (n + 1)).statement c := by
  intro hc events u d hrun hne
  obtain ⟨htokens, hend⟩ | hcrossed := h c hc events d hrun hne
  · exact ⟨[], c, Cursor.spans_nil rfl rfl, .inl rfl, hole_of_run hc htokens hrun hend, .inl rfl, fun c' hc' =>
      exists_nested hc hrun hend hc'⟩
  · exact hcrossed.imp (fun _ ha => ha) fun _ hps => .inr hps.1

/-! ## Blocks -/

theorem blockRound_of_statement {inner : Enclosed} (hclose : c.here.kind ≠ .closeBrace) (hend : ¬ c.here.isEnd) :
    blockRound inner c = (inner.statement >>= fun _ => Pure.pure true) c := by
  change (if c.here.kind = .closeBrace then _ else _ : Reading Bool) c = _
  rw [if_neg hclose, if_neg hend]

theorem mirrors_blockRound {C : Comparison} {K : Pairing C} {inner : Enclosed} (h : inner.Mirrors K) :
    (blockRound inner).MirrorsSelf K := fun c c' hc => by
  refine .here_bind (.ite (by rw [hc.kind_here]) (fun _ => .pure rfl hc) fun _ =>
    .cond (hc.same_here (f := Token.isEnd) fun _ => rfl) (fun _ => .fail _) fun _ => ?_)
  exact (h.statement c c' hc).bind_eq fun _ _ _ hd => .pure rfl hd

theorem below_blockRound {inner inner' : Enclosed} (h : inner.Below inner') :
    (blockRound inner).Below (blockRound inner') :=
  .behind fun _ => .ite (.refl _) (.ite (.refl _) h.statement.front)

theorem reports_blockRound {source : Text} {width : Option Nat} {inner : Enclosed} (h : inner.Reports source width) :
    (blockRound inner).Reports source (Sentence.items source width) :=
  Reports.here.silent fun _ => Reports.ite (fun _ => Reports.pure_of_nil_mem false Sentence.nil_mem_items) fun _ =>
    Reports.ite (fun _ => Reports.fail_bind _ _) fun _ => h.statement.bind_silent fun _ => Reports.pure true

theorem blockRound_local {source : Text} {s : Seam} {inner : Enclosed} (h : inner.LocalInside source s)
    (hc : c.Sited source) : (blockRound inner).LocalAt s (fun _ => True) (fun again _ => again = true) c :=
  (LocalAt.here_bind (P := Marked) (.ite (fun _ => (LocalAt.pure false).start nofun) fun _ =>
    .ite (fun _ => .of_error (e := ⟨c.here.line, .unclosedBlock⟩) rfl) fun _ =>
      (h.statement c hc).bind fun _ _ _ _ _ => (LocalAt.pure true).start fun _ _ => trivial)
    fun _ => Marked.ne_nil).start fun _ _ => trivial

theorem inFront_blockRound (n : Nat) (hc : c.Sited b.source) :
    σ.InFront b.Poised b.Poised (fun _ => True) (fun again _ => again = true) (blockRound (Enclosed.within n))
      (blockRound (Enclosed.within (n + 1))) c where
  near := fun {s} _ => blockRound_local (Enclosed.localInside_within b.source s n) hc
  mirrors := ⟨Eq, mirrors_blockRound (mirrors_within .front n)⟩
  takes := ⟨_, reports_blockRound (reports n) c hc.laid, Assembly.Takes.items⟩
  settles := fun {events again d} hrun hagain => by
    subst hagain
    change (if c.here.kind = .closeBrace then _ else _ : Reading Bool) c = _ at hrun
    split at hrun
    · cases hrun
    · split at hrun
      · cases hrun
      · obtain ⟨-, u, hstatement⟩ := exists_of_bind_pure hrun
        exact .inl (Enclosed.settles_statement b.source n c hc events u d hstatement)
  below := below_blockRound (below_next n)

theorem crosses_blockRound (h : σ.Inside n) (c : Cursor) : σ.Crosses b.Poised (fun _ => True)
    (blockRound (σ.refusing n)) (blockRound (Enclosed.within n)) (blockRound (Enclosed.within (n + 1))) c := by
  intro hc events again d hrun hne
  by_cases hclose : c.here.kind = .closeBrace
  · have hnone (inner : Enclosed) : blockRound inner c = ([], .ok (false, c)) := by
      change (if c.here.kind = .closeBrace then _ else _ : Reading Bool) c = _
      rw [if_pos hclose]
      rfl
    exact absurd ((hnone _).trans (hnone _).symm) hne
  by_cases hend : c.here.isEnd
  · change (if c.here.kind = .closeBrace then _ else _ : Reading Bool) c = _ at hrun
    rw [if_neg hclose, if_pos hend] at hrun
    cases hrun
  rw [blockRound_of_statement hclose hend] at hrun hne
  rw [blockRound_of_statement hclose hend] at hne
  refine ((crosses_inside h).returning true hc events again d hrun hne).imp (fun _ h => h) (fun _ h => h)
    |>.of_run (fun ps c' hps hc' events again d hrun => ?_) |>.imp (fun _ h => h) fun _ _ => trivial
  rw [blockRound_of_statement _ _, hrun]
  all_goals
    rcases hps with rfl | hps
    · rw [head_eq_opening hc']
      first | rw [σ.opening_kind]; decide | rw [Token.isEnd, σ.opening_kind]; decide
    · rw [hc'.here_eq hps.ne_nil]
      assumption

theorem mirrors_closeBlock {C : Comparison} {K : Pairing C} : (do
    reportComments
    let brace ← take
    emit (.closeBlock brace.toSpan) : Reading Unit).MirrorsSelf K := fun c c' hc =>
  (Mirrors.reportComments c c' hc).bind_eq fun _ _ _ hd => .take_bind (.emit hd.advance (.closeBlock _ _))

theorem crosses_blockRest (h : σ.Inside n) (hc : c.Sited b.source) : σ.Crosses b.Poised (fun _ => True)
    (blockRest (σ.refusing n)) (blockRest (Enclosed.within n)) (blockRest (Enclosed.within (n + 1))) c :=
  .behind (.rounds (I := (·.Sited b.source)) (fun _ _ _ hc hrun => blockRound_true (delivers n) hc hrun)
    (fun _ hc => hc) (fun _ hc => inFront_blockRound n hc) (fun c _ => crosses_blockRound h c)
    (mirrors_blockRound (mirrors_within .back n))
    (fun _ _ _ hc hrun => (blockRound_true (Enclosed.delivers_within b.braced (n + 1)) hc hrun).1) hc)
    (fun _ => mirrors_closeBlock) fun _ => .refl _

/-- The opening brace of a block. -/
def openedBlock : Reading Unit := do
  let brace ← expect .openBrace "\x7b"
  emit (.openBlock brace.toSpan)

theorem block_eq (inner : Enclosed) : block inner = (openedBlock >>= fun _ => blockRest inner) := by
  rw [openedBlock, bind_assoc]
  rfl

theorem inFront_openedBlock (hc : c.Sited b.source) :
    σ.InFront b.Calm b.Poised Sealed (fun _ _ => True) openedBlock openedBlock c where
  near := fun _ => .expect_bind (P := fun _ => True) hc (by decide) (fun _ => .emit _) fun _ hkind _ =>
    .here (by rw [hkind]; decide)
  mirrors := ⟨Eq, fun _ _ hc => .expect_bind hc fun hd => .emit hd (.openBlock _ _)⟩
  takes := ⟨_, ((Reports.expect _ _).silent fun brace => Reports.emit_single Event.openBlock brace.toSpan) c hc.laid,
    Assembly.Takes.openBlock⟩
  settles := fun hrun _ => .inl (settles_close (by decide) (by decide) (fun _ => .emit _) c hc _ _ _ hrun)
  below := .refl _

theorem crosses_block (h : σ.Inside n) : σ.Crosses b.Calm Sealed (block (σ.refusing n))
    (block (Enclosed.within n)) (block (Enclosed.within (n + 1))) c := by
  intro hc
  rw [block_eq, block_eq, block_eq]
  exact Crosses.front (inFront_openedBlock hc) (fun _ _ _ _ hd => crosses_blockRest h hd) hc

/-- The end of a block that a lone statement makes up. -/
def closedBlock : Reading Unit := do
  emit (.closeBlock (← before).toSpan)

/-- A body without braces. -/
def loneBody (first : Token) (inner : Enclosed) : Reading Unit := do
  emit (.openBlock first.toSpan)
  inner.statement
  closedBlock

theorem body_of_brace {inner : Enclosed} (hat : c.isAt .openBrace = true) : body inner c = block inner c := by
  rw [body, Reading.cursor_bind, if_pos hat]

theorem body_of_lone {inner : Enclosed} (hat : ¬ c.isAt .openBrace = true) :
    body inner c = loneBody c.here inner c := by
  rw [body, Reading.cursor_bind, if_neg hat]
  rfl

theorem inFront_loneOpening (first : Token) (hc : c.Sited b.source) :
    σ.InFront b.Calm b.Poised Marked (fun _ => Marked) (emit (.openBlock first.toSpan))
      (emit (.openBlock first.toSpan)) c where
  near := fun _ => .emit _
  mirrors := ⟨Eq, fun _ _ hd => .emit hd (.openBlock _ _)⟩
  takes := ⟨_, Reports.emit_single Event.openBlock first.toSpan c hc.laid, Assembly.Takes.openBlock⟩
  settles := fun _ hnil => absurd rfl hnil.ne_nil
  below := .refl _

/-- A body without braces is the statement, which makes up a block anyway, or has it in it. -/
theorem crosses_loneBody (h : σ.Inside n) (hat : ¬ c.isAt .openBrace = true) : σ.Crosses b.Calm (fun _ => True)
    (loneBody c.here (σ.refusing n)) (loneBody c.here (Enclosed.within n)) (body (Enclosed.within (n + 1))) c := by
  intro hc events u d hrun hne
  have hopened (inner : Enclosed) : loneBody c.here inner c = ([.openBlock c.here.toSpan] ++ ((inner.statement >>=
      fun _ => closedBlock) c).1, ((inner.statement >>= fun _ => closedBlock) c).2) := bind_of_ok _ rfl
  obtain ⟨_, _, _, _, ⟨⟩, hmore, rfl⟩ := exists_of_bind_ok hrun
  obtain ⟨inside, _, _, _, hstatement, ⟨⟩, rfl⟩ := exists_of_bind_ok hmore
  have hother : (σ.refusing n).statement c ≠ (Enclosed.within n).statement c := fun heq => hne (by
    rw [hopened, hopened, bind_of_ok _ (heq.trans hstatement), bind_of_ok _ hstatement])
  obtain ⟨htokens, hend⟩ | hcrossed := h c hc inside d hstatement hother
  · refine ⟨[], c, Cursor.spans_nil rfl rfl, .inl rfl, hole_of_run hc htokens hstatement hend, trivial,
      fun c' hc' => ?_⟩
    obtain ⟨events', d', hblock, htwin, hd⟩ := exists_lone hc hstatement hend hc' c.here.toSpan d.before.toSpan
    have hat' : c'.isAt .openBrace = true := decide_eq_true (head_eq_opening hc' ▸ σ.opening_kind)
    exact ⟨events', d', (body_of_brace hat').trans hblock, htwin, hd⟩
  · have hclosed : closedBlock.MirrorsSelf (b.pairing .back) := fun _ _ hd => .before_bind (.emit hd (.closeBlock _ _))
    have hlone : σ.Crossed b.Calm Marked (loneBody c.here (Enclosed.within (n + 1))) c _ _ _ :=
      (inFront_loneOpening c.here hc).crossed hc rfl ((hcrossed.imp (fun _ ha => ha) fun _ => And.left).behind
        (f := fun _ => closedBlock) rfl hclosed (.refl _))
    refine hlone.of_run (fun ps c' hps hc' events u d hrun => ?_) |>.imp (fun _ h => h) fun _ _ => trivial
    rw [body_of_lone (by rwa [hc'.isAt_eq hps.ne_nil]), hc'.here_eq hps.ne_nil, hrun]

/-- The body of a branch or a loop: the statement on its own, or what it is part of. -/
theorem crosses_body (h : σ.Inside n) : σ.Crosses b.Calm (fun _ => True) (body (σ.refusing n))
    (body (Enclosed.within n)) (body (Enclosed.within (n + 1))) c := by
  intro hc events u d hrun hne
  by_cases hat : c.isAt .openBrace = true
  · rw [body_of_brace hat] at hrun hne
    rw [body_of_brace hat] at hne
    refine (crosses_block h hc events u d hrun hne).of_run (fun ps c' hps hc' events u d hrun => ?_)
      |>.imp (fun _ h => h) fun _ _ => trivial
    rw [body_of_brace ((hc'.isAt_eq hps.ne_nil _).trans hat), hrun]
  · rw [body_of_lone hat] at hrun hne
    rw [body_of_lone hat] at hne
    exact crosses_loneBody h hat hc events u d hrun hne

/-! ## Branches and loops -/

/-- The keyword of a branch or a loop, and the condition. -/
def announced (announce : Span → Event) (inner : Enclosed) : Reading Unit := do
  let keyword ← take
  emit (announce keyword.toSpan)
  condition inner

theorem reports_announced {source : Text} {width : Option Nat} {inner : Enclosed} (announce : Span → Event)
    (h : inner.Reports source width) :
    (announced announce inner).Reports source (Sentence.single announce * Sentence.expressions source) :=
  Reports.take.silent fun keyword => (Reports.emit_single announce keyword.toSpan).bind fun _ => reports_condition h

theorem settles_announced (announce : Span → Event) (n : Nat) :
    (announced announce (Enclosed.within n)).Settles b.source := by
  intro c hc events u d hrun
  obtain ⟨_, _, _, _, ⟨⟩, hmore, -⟩ := exists_of_bind_ok hrun
  obtain ⟨_, _, _, _, ⟨⟩, hcondition, -⟩ := exists_of_bind_ok hmore
  exact settles_condition n _ hc.advance _ _ _ hcondition

theorem inFront_announced {announce : Span → Event}
    (hannounce : ∀ keyword keyword', (announce keyword).Resembles (b.comparison .front) (announce keyword'))
    (htakes : Assembly.Takes b.Calm b.Calm (Sentence.single announce * Sentence.expressions b.source)) (n : Nat)
    (hc : c.Sited b.source) (hkind : c.here.kind = .word) :
    σ.InFront b.Calm b.Calm Marked (fun _ _ => True) (announced announce (Enclosed.within n))
      (announced announce (Enclosed.within (n + 1))) c where
  near := fun {s} _ => marked_of_take hc hkind (.emit_bind
    (condition_local (Enclosed.localInside_within b.source s n) hc.advance))
  mirrors := ⟨Eq, fun _ _ hc => .take_bind (.emit_bind (hannounce _ _)
    (mirrors_condition (mirrors_within .front n) _ _ hc.advance))⟩
  takes := ⟨_, reports_announced announce (reports n) c hc.laid, htakes⟩
  settles := fun hrun _ => .inl (settles_announced announce n c hc _ _ _ hrun)
  below := .behind fun _ => .behind fun _ => below_condition (below_next n)

theorem announced_refusing (announce : Span → Event) :
    announced announce (σ.refusing n) = announced announce (Enclosed.within n) := by
  rw [announced, announced, condition_refusing]

theorem ifChain_eq (inner : Enclosed) : ifChain inner = (announced .openIf inner >>= fun _ => body inner >>= fun _ =>
    repeatWhile (furtherBranch inner) >>= fun _ => do emit (.closeIf (← before).toSpan)) := by
  simp only [announced, bind_assoc]
  rfl

theorem whileLoop_eq (inner : Enclosed) : whileLoop inner = (announced .openWhile inner >>= fun _ =>
    body inner >>= fun _ => do emit (.closeWhile (← before).toSpan)) := by
  simp only [announced, bind_assoc]
  rfl

theorem inFront_body (n : Nat) (hc : c.Sited b.source) :
    σ.InFront b.Calm b.Calm (fun _ => True) (fun _ _ => True) (body (Enclosed.within n))
      (body (Enclosed.within (n + 1))) c where
  near := fun {s} _ => (body_local (Enclosed.localInside_within b.source s n) hc).start fun _ _ => trivial
  mirrors := ⟨Eq, mirrors_body (mirrors_within .front n)⟩
  takes := ⟨_, reports_body (reports n) c hc.laid, Assembly.Takes.blocks⟩
  settles := fun hrun _ => .inl (settles_body n c hc _ _ _ hrun)
  below := below_body (below_next n)

theorem crosses_whileLoop (h : σ.Inside n) (hkind : c.here.kind = .word) : σ.Crosses b.Calm Marked
    (whileLoop (σ.refusing n)) (whileLoop (Enclosed.within n)) (whileLoop (Enclosed.within (n + 1))) c := by
  intro hc
  rw [whileLoop_eq, whileLoop_eq, whileLoop_eq, announced_refusing]
  exact Crosses.front (inFront_announced (fun _ _ => .openWhile _ _) Assembly.Takes.openWhile n hc hkind)
    (fun _ _ _ _ _ => (crosses_body h).behind (fun _ _ _ hd => .before_bind (.emit hd (.closeWhile _ _)))
      fun _ => .refl _) hc

/-- The words of an `else if`, and the condition. -/
theorem inFront_elseIf (n : Nat) (hc : c.Sited b.source) (hkind : c.here.kind = .word)
    (hnext : c.nextIs (·.isWord "if".toList) = true) :
    σ.InFront b.Calm b.Calm (fun ps => 2 ≤ ps.length) (fun _ _ => True)
      (take >>= fun _ => announced .elseIf (Enclosed.within n))
      (take >>= fun _ => announced .elseIf (Enclosed.within (n + 1))) c := by
  have hif : c.advance.here.kind = .word := by
    obtain ⟨before, here, ahead, comments⟩ := c
    cases ahead with
    | nil => cases hnext
    | cons t ts => exact kind_of_isWord hnext
  have h : σ.InFront b.Calm b.Calm Marked (fun _ _ => True) (announced .elseIf (Enclosed.within n))
      (announced .elseIf (Enclosed.within (n + 1))) c.advance :=
    inFront_announced (fun _ _ => .elseIf _ _) Assembly.Takes.elseIf n hc.advance hif
  obtain ⟨A, hmirrors⟩ := h.mirrors
  refine ⟨fun hs => .take_bind hc (not_isEnd_of_kind hkind (by decide)) (h.near hs) fun us hus => ?_,
    ⟨A, fun _ _ hc => .take_bind (hmirrors _ _ hc.advance)⟩,
    ⟨_, (Reports.take.silent fun _ => reports_announced .elseIf (reports n)) c hc.laid, Assembly.Takes.elseIf⟩,
    fun hrun _ => ?_, .behind fun _ => h.below⟩
  · exact Nat.succ_le_succ (List.length_pos_of_ne_nil hus.ne_nil)
  · obtain ⟨_, _, _, _, ⟨⟩, hmore, -⟩ := exists_of_bind_ok hrun
    exact .inl (settles_announced .elseIf n _ hc.advance _ _ _ hmore)

theorem furtherBranch_local {source : Text} {s : Seam} {inner : Enclosed} (h : inner.LocalInside source s)
    (hc : c.Sited source) :
    (furtherBranch inner).LocalAt s (fun _ => True) (fun again _ => again = true) c :=
  (localRound_furtherBranch h 0 c hc).imp (fun _ _ => trivial) fun again _ hagain => by
    subst hagain
    exact ⟨Nat.zero_le _, trivial⟩

theorem reports_furtherBranch {source : Text} {width : Option Nat} {inner : Enclosed} (h : inner.Reports source width) :
    (furtherBranch inner).Reports source (1 + (Sentence.single Event.elseIf * (Sentence.expressions source *
      Sentence.blocks source width) + Sentence.single Event.otherwise * Sentence.blocks source width)) := by
  have hbody (again : Bool) := (reports_body h).bind_silent fun _ => @Reports.pure Bool source again
  have helse := Reports.take.silent fun _ => Reports.take.silent fun keyword : Token =>
    (Reports.emit_single Event.elseIf keyword.toSpan).bind fun _ => (reports_condition h).bind fun _ => hbody true
  have hlast := Reports.take.silent fun keyword : Token =>
    (Reports.emit_single Event.otherwise keyword.toSpan).bind fun _ => hbody false
  exact Reports.cursor.silent fun c => Reports.ite (fun _ => (Reports.pure false).mono fun _ => .inl) fun _ =>
    Reports.ite (fun _ => helse.mono fun _ hmem => .inr (.inl hmem)) fun _ => hlast.mono fun _ hmem => .inr (.inr hmem)

theorem takes_furtherBranch : Assembly.Takes b.Calm b.Calm (1 + (Sentence.single Event.elseIf *
    (Sentence.expressions b.source * Sentence.blocks b.source b.options.commentWidth) +
      Sentence.single Event.otherwise * Sentence.blocks b.source b.options.commentWidth)) := by
  refine (Assembly.Takes.nil fun _ ha => ha).add (.add ?_ ((Assembly.Takes.quiet fun _ => rfl).mul Assembly.Takes.blocks))
  rw [← mul_assoc]
  exact Assembly.Takes.elseIf.mul Assembly.Takes.blocks

theorem stays_furtherBranch (n : Nat) : (furtherBranch (Enclosed.within n)).StaysSettled b.source :=
  Reading.stays_furtherBranch (Enclosed.settles_within _ n) (Enclosed.settles_statement _ n)

theorem inFront_furtherBranch (n : Nat) (hc : c.Sited b.source) (hsettled : c.Settled) :
    σ.InFront b.Calm b.Calm (fun _ => True) (fun again _ => again = true) (furtherBranch (Enclosed.within n))
      (furtherBranch (Enclosed.within (n + 1))) c where
  near := fun {s} _ => furtherBranch_local (Enclosed.localInside_within b.source s n) hc
  mirrors := ⟨Eq, mirrors_furtherBranch (mirrors_within .front n)⟩
  takes := ⟨_, reports_furtherBranch (reports n) c hc.laid, takes_furtherBranch⟩
  settles := fun hrun _ => .inl (stays_furtherBranch n c hc hsettled _ _ _ hrun)
  below := below_furtherBranch (below_next n)

/-- The word of an `else`. -/
theorem inFront_otherwise (hc : c.Sited b.source) (hkind : c.here.kind = .word) :
    σ.InFront b.Calm b.Calm (· ≠ []) (fun _ _ => True) (do
        let keyword ← take
        emit (.otherwise keyword.toSpan)) (do
        let keyword ← take
        emit (.otherwise keyword.toSpan)) c where
  near := fun _ => .take_bind (P := fun _ => True) hc (not_isEnd_of_kind hkind (by decide)) (.emit _)
    fun _ _ => List.cons_ne_nil _ _
  mirrors := ⟨Eq, fun _ _ hc => .take_bind (.emit hc.advance (.otherwise _ _))⟩
  takes := ⟨_, (Reports.take.silent fun keyword => Reports.emit_single Event.otherwise keyword.toSpan) c hc.laid,
    Assembly.Takes.quiet fun _ => rfl⟩
  settles := fun hrun _ => by
    cases hrun
    exact .inl (settled_advance hc (not_isEnd_of_kind hkind (by decide)) (by rw [hkind]; decide))
  below := .refl _

theorem furtherBranch_eq (inner : Enclosed) : furtherBranch inner = (cursor >>= fun c =>
    if (!c.isAtWord "else") = true then Pure.pure false
    else if c.nextIs (·.isWord "if".toList) = true then
      (take >>= fun _ => announced .elseIf inner) >>= fun _ => body inner >>= fun _ => Pure.pure true
    else (do
      let keyword ← take
      emit (.otherwise keyword.toSpan)) >>= fun _ => body inner >>= fun _ => Pure.pure false) := by
  simp only [announced, bind_assoc]
  rfl

theorem crosses_furtherBranch (h : σ.Inside n) : σ.Crosses b.Calm (fun _ => True) (furtherBranch (σ.refusing n))
    (furtherBranch (Enclosed.within n)) (furtherBranch (Enclosed.within (n + 1))) c := by
  intro hc
  rw [furtherBranch_eq, furtherBranch_eq, furtherBranch_eq, announced_refusing]
  have hbody (again : Bool) {c : Cursor} : σ.Crosses b.Calm (fun _ => True)
      (body (σ.refusing n) >>= fun _ => Pure.pure again) (body (Enclosed.within n) >>= fun _ => Pure.pure again)
      (body (Enclosed.within (n + 1)) >>= fun _ => Pure.pure again) c :=
    (crosses_body h).behind (fun _ _ _ hd => .pure rfl hd) fun _ => .refl _
  refine (Crosses.cursor_bind (P := fun ps => c.isAtWord "else" = true →
    ps ≠ [] ∧ (c.nextIs (·.isWord "if".toList) = true → 2 ≤ ps.length)) (.ite (fun _ => .same) fun helse => ?_)
    fun ps c' hps hc' => ?_).imp (fun _ ha => ha) (fun _ _ => trivial) hc
  · have hkind : c.here.kind = .word := kind_of_isWord (by simpa [Cursor.isAtWord] using helse)
    refine .ite (fun hnext => ?_) fun hnext => ?_
    · exact (Crosses.front (inFront_elseIf n hc hkind hnext) fun _ _ _ _ _ => hbody true).imp (fun _ ha => ha)
        fun ps hps _ => ⟨List.ne_nil_of_length_pos (Nat.lt_of_lt_of_le Nat.two_pos hps), fun _ => hps⟩
    · exact (Crosses.front (inFront_otherwise hc hkind) fun _ _ _ _ _ => hbody false).imp (fun _ ha => ha)
        fun ps hps _ => ⟨hps, fun hif => absurd hif hnext⟩
  · have hword := hc'.isAtWord_of_word (w := "else") (by decide) fun hat => (hps hat).1
    rw [hword]
    cases hat : c.isAtWord "else" with
    | false => rfl
    | true =>
        obtain ⟨hne, htwo⟩ := hps hat
        have hnext : c'.nextIs (·.isWord "if".toList) = c.nextIs (·.isWord "if".toList) := by
          by_cases hlength : 2 ≤ ps.length
          · exact hc'.nextIs_eq hlength _
          · obtain ⟨t, rfl⟩ := List.length_eq_one_iff.mp
              (Nat.le_antisymm (Nat.le_of_lt_succ (not_le.mp hlength)) (List.length_pos_of_ne_nil hne))
            have hopening : c'.ahead = σ.opening :: σ.rest' := hc'.ahead_eq.2
            rw [Bool.eq_false_iff.mpr fun hif => hlength (htwo hif), Cursor.nextIs, hopening]
            simp [Token.isWord, σ.opening_kind]
        rw [hnext]

theorem crosses_ifChain (h : σ.Inside n) (hkind : c.here.kind = .word) : σ.Crosses b.Calm Marked
    (ifChain (σ.refusing n)) (ifChain (Enclosed.within n)) (ifChain (Enclosed.within (n + 1))) c := by
  intro hc
  rw [ifChain_eq, ifChain_eq, ifChain_eq, announced_refusing]
  have hlast : (do emit (.closeIf (← before).toSpan) : Reading Unit).MirrorsSelf (b.pairing .back) :=
    fun _ _ hd => .before_bind (.emit hd (.closeIf _ _))
  have hfurther : (furtherBranch (Enclosed.within n)).MirrorsSelf (b.pairing .back) :=
    mirrors_furtherBranch (mirrors_within .back n)
  refine Crosses.front (inFront_announced (fun _ _ => .openIf _ _) Assembly.Takes.openIf n hc hkind)
    (fun _ _ d _ hd => ?_) hc
  refine (crosses_body h).bind (fun _ => (Mirrors.rounds hfurther).bind_eq fun _ => hlast)
    (fun _ => (Below.rounds (below_furtherBranch (below_next n))).front) (inFront_body n hd) fun events _ e hrun he => ?_
  refine .behind (.rounds (I := fun c => c.Sited b.source ∧ c.Settled) (fun c events d hc hrun => ?_) (fun _ hc => hc.1)
    (fun c hc => inFront_furtherBranch n hc.1 hc.2) (fun c _ => crosses_furtherBranch h) hfurther
    (fun c events d hc hrun => (strides_furtherBranch (Enclosed.delivers_within b.braced (n + 1)) c hc _ _ _ hrun).2 rfl)
    ⟨he, settles_body n d hd _ _ _ hrun⟩) (fun _ => hlast) fun _ => .refl _
  have hpasses := (strides_furtherBranch (delivers n) c hc.1 _ _ _ hrun).2 rfl
  exact ⟨hpasses, hc.1.reaching hpasses.reaches, stays_furtherBranch n c hc.1 hc.2 _ _ _ hrun⟩

/-! ## Statements -/

theorem crosses_statementOf (h : σ.Inside n) :
    σ.Crosses b.Poised (fun ps => Marked ps ∧ (statementShape c).isCompound = true)
      (statementOf (σ.refusing n) (statementShape c)) (statementOf (Enclosed.within n) (statementShape c))
      (statementOf (Enclosed.within (n + 1)) (statementShape c)) c := by
  have hword := @kind_of_statementShape c _ rfl
  have hsame {r r' r₀ : Reading Unit} (hr : r₀ = r) {P : List Token → Prop} : σ.Crosses b.Poised P r₀ r r' c :=
    hr ▸ .same
  cases hshape : statementShape c with
  | block => exact (crosses_block h).imp (fun _ ha => ha.toCalm) fun _ hps => ⟨hps.marked, rfl⟩
  | ifChain =>
      exact (crosses_ifChain h (hword (by simp [hshape]))).imp (fun _ ha => ha.toCalm) fun _ hps => ⟨hps, rfl⟩
  | whileLoop =>
      exact (crosses_whileLoop h (hword (by simp [hshape]))).imp (fun _ ha => ha.toCalm) fun _ hps => ⟨hps, rfl⟩
  | empty | jump | misplaced | unsupported =>
      simp only [statementOf]
      exact .same
  | returned => exact hsame (returned_refusing σ)
  | thrown => exact hsame (thrown_refusing σ)
  | locals => exact hsame (localVariables_refusing σ)
  | expression => exact hsame (expressionStatement_refusing σ)

theorem inFront_comments {P : List Token → Prop} (hc : c.Sited b.source) :
    σ.InFront b.Poised b.Poised P (fun _ => P) reportComments reportComments c where
  near := fun hs => .comments hs.level _ c
  mirrors := ⟨Eq, Mirrors.reportComments⟩
  takes := ⟨_, (Reports.reportComments.mono Sentence.comments_le_items) c hc.laid, Assembly.Takes.items⟩
  settles := fun hrun _ => by
    cases hrun
    exact .inr rfl
  below := .refl _

theorem crosses_statement (h : σ.Inside n) :
    σ.Crosses b.Poised (fun ps => Marked ps ∧ (statementShape c).isCompound = true) (statement (σ.refusing n))
      (statement (Enclosed.within n)) (statement (Enclosed.within (n + 1))) c := by
  intro hc
  refine Crosses.front (inFront_comments hc) (fun events _ d hrun _ => ?_) hc
  cases hrun
  exact .cursor_bind (crosses_statementOf h) fun ps c' hps hc' => by
    rw [hc'.statementShape_eq (startOf_of_isCompound (m := 0) hps.2 hps.1)]

theorem inside_within (n : Nat) : σ.Inside n := by
  induction n with
  | zero => exact fun _ _ _ _ hrun => nomatch hrun
  | succ n ih =>
      intro c hc events d hrun hne
      by_cases hsame : statement (σ.refusing n) c = statement (Enclosed.within n) c
      · refine .inl (not_not.mp fun hnot => hne ?_)
        have hread : (statement (σ.refusing n) >>= fun _ => cursor >>= fun e =>
            if c.tokens = σ.rest ∧ e.tokens = σ.behind then fail .nestedTooDeep else Pure.pure ()) c =
              (events, .ok ((), d)) := by
          rw [bind_of_ok _ (hsame.trans hrun), Reading.cursor_bind, if_neg hnot]
          exact Prod.ext (List.append_nil _) rfl
        exact hread.trans hrun.symm
      · exact .inr (crosses_statement ih hc events () d hrun hsame)

end Site

end Bracing

end CodeFrames
