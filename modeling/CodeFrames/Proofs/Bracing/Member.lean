import CodeFrames.Proofs.Bracing.Statement

/-!
# Members over the place of the statement

The bodies of methods and constructors are blocks.  A member in front of the statement is no other
member when the statement stands in braces, unless it is a lock without parentheses.
-/

namespace CodeFrames

open scoped Computability
open Reading
open Token (CallEnds Marked Matched Modified Past Sealed)

/-! ## Heads of declarations -/

namespace Sentence

theorem nil_mem_quietly : [] ∈ quietly := List.forall_mem_nil _

instance : Viable quietly := .of_mem nil_mem_quietly

theorem quietly_mul_quietly : quietly * quietly ≤ quietly := by
  rintro _ ⟨events, hevents, more, hmore, rfl⟩
  exact List.forall_mem_append.mpr ⟨hevents, hmore⟩

theorem single_le_quietly {ι : Type} {event : ι → Event} (h : ∀ i, (event i).isQuiet = true) :
    single event ≤ quietly := by
  rintro _ ⟨i, rfl⟩
  exact List.forall_mem_singleton.mpr (h i)

variable {source : Text}

theorem parameterLists_le_quietly : parameterLists source ≤ quietly := by
  rintro events ⟨parameters, warnings, h⟩
  induction h with
  | nothing => exact nil_mem_quietly
  | parameter first last name ellipsis _ ih =>
      exact List.forall_mem_cons.mpr ⟨rfl, List.forall_mem_cons.mpr ⟨rfl, ih⟩⟩

theorem throwsClauses_le_quietly : throwsClauses source ≤ quietly := by
  rintro events ⟨throws, h⟩
  cases h with
  | nothing => exact nil_mem_quietly
  | clause keyword types hne =>
      refine List.forall_mem_cons.mpr ⟨rfl, List.forall_mem_append.mpr ⟨?_, List.forall_mem_singleton.mpr rfl⟩⟩
      exact List.forall_mem_map.mpr fun _ _ => rfl

end Sentence

open Sentence

namespace Reading

variable {α β : Type} {source : Text} {r : Reading α} {f : α → Reading β}

theorem Reports.quietly_bind (h : r.Reports source quietly) (hf : ∀ a, (f a).Reports source quietly) :
    (r >>= f).Reports source quietly := (h.bind hf).mono quietly_mul_quietly

theorem Reports.quiet {e : Event} (h : e.isQuiet = true) : (Reading.emit e).Reports source quietly :=
  (Reports.emit e).mono fun _ hmem => by
    obtain rfl := Set.mem_singleton_iff.mp hmem
    exact List.forall_mem_singleton.mpr h

theorem quietly_typeParameters : typeParameters.Reports source quietly := by
  refine Reports.here.silent fun t => Reports.ite (fun _ => Reports.cursor.silent fun c => ?_)
    fun _ => Reports.pure_of_nil_mem () nil_mem_quietly
  split
  · exact Reports.fail _
  · exact (Reports.quiet rfl).bind_silent fun _ => Reports.forward _

theorem quietly_header : (parameters >>= fun _ => throwsClause).Reports source quietly :=
  (reports_parameters.mono parameterLists_le_quietly).quietly_bind fun _ =>
    reports_throwsClause.mono throwsClauses_le_quietly

theorem quietly_methodHead : methodHead.Reports source quietly :=
  Reports.here.silent fun _ => Reports.modifiers.silent fun _ => quietly_typeParameters.quietly_bind fun _ =>
    (Reports.typeName.mono (single_le_quietly fun _ => rfl)).quietly_bind fun _ => Reports.expectName.silent fun _ =>
      (Reports.quiet rfl).quietly_bind fun _ => quietly_header

theorem quietly_constructorHead : constructorHead.Reports source quietly :=
  Reports.here.silent fun _ => Reports.modifiers.silent fun _ => Reports.expectName.silent fun _ =>
    (Reports.quiet rfl).quietly_bind fun _ => quietly_header

variable {C : Comparison} {K : Pairing C}

theorem mirrors_header : (parameters >>= fun _ => throwsClause).MirrorsSelf K :=
  mirrors_parameters.bind_eq fun _ => mirrors_throwsClause

theorem mirrors_methodHead : methodHead.MirrorsSelf K := fun c c' hc =>
  .here_bind ((Mirrors.modifiers c c' hc).bind fun _ _ _ _ hspans hd => (mirrors_typeParameters _ _ hd).bind_eq
    fun _ _ _ he => (Mirrors.typeName _ _ he).bind_eq fun _ _ _ hf => .expectName_bind hf fun hg =>
      .emit_bind (.openMethod hc.line hspans hf.textIn) (mirrors_header _ _ hg))

theorem mirrors_constructorHead : constructorHead.MirrorsSelf K := fun c c' hc =>
  .here_bind ((Mirrors.modifiers c c' hc).bind fun _ _ _ _ hspans hd => .expectName_bind hd fun he =>
    .emit_bind (.openConstructor _ _ hc.line hspans) (mirrors_header _ _ he))

end Reading

namespace Bracing.Site

variable {b : Bracing} {σ : b.Site} {c : Cursor} {n : Nat}

theorem inFront_methodHead (hc : c.Sited b.source) :
    σ.InFront b.Calm b.Calm (Past c.modifierCount Modified) (fun _ => Sealed) methodHead methodHead c where
  near := fun _ => methodHead_local hc
  mirrors := ⟨Eq, mirrors_methodHead⟩
  takes := ⟨_, quietly_methodHead c hc.laid, Assembly.Takes.quietly⟩
  settles := fun _ hsealed => absurd rfl hsealed.ne_nil
  below := .refl _

theorem inFront_constructorHead (hc : c.Sited b.source) :
    σ.InFront b.Calm b.Calm (Past c.modifierCount fun us => Modified us ∧ (Matched us → CallEnds us))
      (fun _ => Sealed) constructorHead constructorHead c where
  near := fun _ => constructorHead_local hc
  mirrors := ⟨Eq, mirrors_constructorHead⟩
  takes := ⟨_, quietly_constructorHead c hc.laid, Assembly.Takes.quietly⟩
  settles := fun _ hsealed => absurd rfl hsealed.ne_nil
  below := .refl _

/-! ## Bodies of declarations -/

theorem mirrors_closeDeclaration {C : Comparison} {K : Pairing C} : (do
    emit (.closeDeclaration (← before).toSpan true) : Reading Unit).MirrorsSelf K :=
  fun _ _ hd => .before_bind (.emit hd (.closeDeclaration _ _ _))

theorem crosses_method (h : σ.Inside n) : σ.Crosses b.Calm (Past c.modifierCount Modified)
    (method (σ.refusing n)) (method (Enclosed.within n)) (method (Enclosed.within (n + 1))) c := by
  intro hc
  rw [method_eq_head, method_eq_head, method_eq_head]
  refine Crosses.front (inFront_methodHead hc) (fun _ _ d _ _ => ?_) hc
  exact .cursor_bind (.ite (fun _ => .same) fun _ => (crosses_block h).behind (fun _ => mirrors_closeDeclaration)
    fun _ => .refl _) fun ps c' hps hc' => by rw [hc'.isAt_eq hps.ne_nil]

theorem inFront_delegateCall (n : Nat) (hc : c.Sited b.source) (hopens : opensDelegateCall c = true) :
    σ.InFront b.Poised b.Poised Sealed (fun _ _ => True) (delegateCall (Enclosed.within n))
      (delegateCall (Enclosed.within (n + 1))) c where
  near := fun {s} _ => delegateCall_local (Enclosed.localInside_within b.source s n) hc hopens
  mirrors := ⟨Eq, mirrors_delegateCall (mirrors_within .front n)⟩
  takes := ⟨_, reportsAt_delegateCall (reports n) hc.laid hopens, Assembly.Takes.delegateCalls⟩
  settles := fun hrun _ => .inl (settles_delegateCall (delivers n) c hc _ _ _ hrun)
  below := below_delegateCall (below_next n)

theorem delegateCall_refusing : delegateCall (σ.refusing n) = delegateCall (Enclosed.within n) := by
  simp only [delegateCall, arguments, expression_refusing]

/-- A call of another constructor has a parenthesis, and the braces have none. -/
theorem opensDelegateCall_eq {ps : List Token} {c' : Cursor} (hc' : σ.seam.At ps c c')
    (hps : opensDelegateCall c = true → Sealed ps) : opensDelegateCall c' = opensDelegateCall c := by
  cases hopens : opensDelegateCall c with
  | true => rw [hc'.opensDelegateCall_eq (hps hopens), hopens]
  | false =>
      match ps with
      | [] =>
          simp [opensDelegateCall, Cursor.isAtWord, head_eq_opening hc', Token.isWord, σ.opening_kind]
      | [t] =>
          have hopening : c'.ahead = σ.opening :: σ.rest' := hc'.ahead_eq.2
          simp [opensDelegateCall, Cursor.nextIs, hopening, σ.opening_kind]
      | t :: u :: us =>
          rw [← hopens, opensDelegateCall, opensDelegateCall, hc'.isAtWord_eq (List.cons_ne_nil _ _),
            hc'.isAtWord_eq (List.cons_ne_nil _ _), hc'.nextIs_eq (Nat.le_add_left 2 us.length)]

theorem crosses_constructorBody (h : σ.Inside n) (hc : c.Sited b.source) : σ.Crosses b.Poised (fun _ => True)
    (constructorBody (σ.refusing n)) (constructorBody (Enclosed.within n)) (constructorBody (Enclosed.within (n + 1))) c := by
  have hrest {c : Cursor} (hc : c.Sited b.source) : σ.Crosses b.Poised (fun _ => True)
      (blockRest (σ.refusing n) >>= fun _ => before >>= fun last => emit (.closeDeclaration last.toSpan true))
      (blockRest (Enclosed.within n) >>= fun _ => before >>= fun last => emit (.closeDeclaration last.toSpan true))
      (blockRest (Enclosed.within (n + 1)) >>= fun _ => before >>= fun last => emit (.closeDeclaration last.toSpan true)) c :=
    (crosses_blockRest h hc).behind (fun _ => mirrors_closeDeclaration) fun _ => .refl _
  refine (Crosses.cursor_bind (P := fun ps => opensDelegateCall c = true → Sealed ps) (.ite (fun hopens => ?_)
    fun hopens => ?_) fun ps c' hps hc' => ?_).imp (fun _ ha => ha) fun _ _ => trivial
  · rw [delegateCall_refusing]
    exact (Crosses.front (inFront_delegateCall n hc hopens) fun _ _ _ _ hd => hrest hd).imp (fun _ ha => ha)
      fun _ hps _ => hps
  · exact (hrest hc).imp (fun _ ha => ha) fun _ _ hopen => absurd hopen hopens
  · rw [opensDelegateCall_eq hc' hps]

theorem crosses_constructor (h : σ.Inside n) :
    σ.Crosses b.Calm (Past c.modifierCount fun us => Modified us ∧ (Matched us → CallEnds us))
      (constructor (σ.refusing n)) (constructor (Enclosed.within n)) (constructor (Enclosed.within (n + 1))) c := by
  intro hc
  have hopened (inner : Enclosed) : constructor inner = constructorHead >>= fun _ => openedBlock >>= fun _ =>
      reportComments >>= fun _ => constructorBody inner := by
    rw [constructor_eq_head, openedBlock]
    simp only [bind_assoc]
  rw [hopened, hopened, hopened]
  exact Crosses.front (inFront_constructorHead hc) (fun _ _ _ _ hd => .front (inFront_openedBlock hd) fun _ _ _ _ he =>
    .front (inFront_comments he) fun _ _ _ _ hf => crosses_constructorBody h hf) hc

/-! ## Members -/

theorem crosses_memberOf (h : σ.Inside n) : σ.Crosses b.Poised
    (fun ps => ∀ c', σ.seam.At ps c c' → memberShape c' = memberShape c) (memberOf (σ.refusing n) (memberShape c))
      (memberOf (Enclosed.within n) (memberShape c)) (memberOf (Enclosed.within (n + 1)) (memberShape c)) c := by
  cases hshape : memberShape c with
  | directive word =>
      simp only [memberOf]
      exact .same
  | unsupported construct head skipped =>
      simp only [memberOf]
      exact .same
  | constructor =>
      exact (crosses_constructor h).imp (fun _ ha => ha.toCalm) fun _ hps _ hc' =>
        (hc'.memberShape_modified hps).trans hshape
  | method =>
      exact (crosses_method h).imp (fun _ ha => ha.toCalm) fun _ hps _ hc' => hc'.memberShape_method hshape hps
  | statement =>
      intro hc events u d hrun hne
      obtain ⟨htokens, hend⟩ | hcrossed := h c hc events d hrun hne
      · refine ⟨[], c, Cursor.spans_nil rfl rfl, .inl rfl, hole_of_run hc htokens hrun hend, fun c' hc' => ?_,
          fun c' hc' => exists_nested hc hrun hend hc'⟩
        exact memberShape_of_mark (head_eq_opening hc' ▸ σ.opening_kind) (by decide)
      · refine hcrossed.imp (fun _ ha => ha) fun ps hps c' hc' => ?_
        have hcompound := hps.2
        refine hc'.memberShape_told hshape hps.1 (fun hlocals => ?_) (fun hexpression => ?_) fun hlock => ?_
        · rw [hlocals] at hcompound
          cases hcompound
        · rw [hexpression] at hcompound
          cases hcompound
        · rw [hlock] at hcompound
          cases hcompound

theorem crosses_member (h : σ.Inside n) : σ.Crosses b.Poised
    (fun ps => ∀ c', σ.seam.At ps c c' → memberShape c' = memberShape c) (member (σ.refusing n))
      (member (Enclosed.within n)) (member (Enclosed.within (n + 1))) c := by
  have hshape (inner : Enclosed) : member inner = cursor >>= fun c => memberOf inner (memberShape c) := rfl
  rw [hshape, hshape, hshape]
  exact .cursor_bind (crosses_memberOf h) fun ps c' hps hc' => by rw [hps c' hc']

theorem memberRound_of_member (inner : Enclosed) (hend : ¬ c.here.isEnd) : memberRound inner c =
    (reportComments >>= fun _ => member inner >>= fun _ => Pure.pure true) c := by
  change (if c.here.isEnd = true then _ else _ : Reading Bool) c = _
  rw [if_neg hend]

theorem crosses_memberRound (h : σ.Inside n) (c : Cursor) : σ.Crosses b.Poised (fun _ => True)
    (memberRound (σ.refusing n)) (memberRound (Enclosed.within n)) (memberRound (Enclosed.within (n + 1))) c := by
  intro hc events again d hrun hne
  by_cases hend : c.here.isEnd
  · have hnone (inner : Enclosed) : memberRound inner c = ([], .ok (false, c)) := by
      change (if c.here.isEnd = true then _ else _ : Reading Bool) c = _
      rw [if_pos hend]
      rfl
    exact absurd ((hnone _).trans (hnone _).symm) hne
  rw [memberRound_of_member _ hend] at hrun hne
  rw [memberRound_of_member _ hend] at hne
  refine (Crosses.front (P := fun _ => True) (inFront_comments hc) (fun _ _ _ _ _ => ((crosses_member h).returning
    true).imp (fun _ ha => ha) fun _ _ => trivial) hc events again d hrun hne).of_run
      fun ps c' _ hc' events again d hrun => ?_
  rw [memberRound_of_member _ _, hrun]
  cases ps with
  | nil => rw [head_eq_opening hc', Token.isEnd, σ.opening_kind]; decide
  | cons t ts => rwa [hc'.here_eq (List.cons_ne_nil _ _)]

/-! ## Sources -/

/-- From the cursor on, members are read up to the end of the source, and locks have parentheses. -/
structure Readable (source : Text) (levels : Nat) (c : Cursor) : Prop where
  sited : c.Sited source
  rounds : ∃ events d, Rounds (memberRound (Enclosed.within (levels + 1))) c events d ∧
    LocksParenthesized events c.tokens

variable {levels : Nat} {d : Cursor} {events : List Event}

theorem Readable.next {source : Text} (h : Readable source levels c)
    (hrun : memberRound (Enclosed.within (levels + 1)) c = (events, .ok (true, d))) :
    c.Passes d ∧ Readable source levels d := by
  obtain ⟨hpasses, hd⟩ := memberRound_true (Enclosed.delivers_within source (levels + 1)) h.sited hrun
  obtain ⟨all, e, hrounds, hlocks⟩ := h.rounds
  refine ⟨hpasses, hd, ?_⟩
  cases hrounds with
  | last hlast => cases hrun.symm.trans hlast
  | @more _ _ _ first others hfirst _ hrest =>
      cases hrun.symm.trans hfirst
      obtain ⟨passed, hpassed, -⟩ := hpasses.reaches
      exact ⟨others, e, hrest, (hpassed ▸ hlocks.right).of_append⟩

theorem Readable.nextIs {source : Text} (h : Readable source levels c) (hshape : memberShape c = .statement)
    (hlock : statementShape c = .unsupported "'synchronized' statement") :
    c.nextIs (·.kind = .openParen) = true := by
  obtain ⟨events, d, hrounds, hlocks⟩ := h.rounds
  cases hrounds with
  | last hlast =>
      have hend := (eq_of_memberRound_false hlast).1
      simp [Token.isEnd, kind_of_unsupported hlock] at hend
  | more hfirst _ _ =>
      obtain ⟨more, hmember, rfl⟩ := exists_of_memberRound_true hfirst
      exact nextIs_of_locks (c := c.relieved) h.sited.relieved hmember hlocks.left.right hshape hlock

theorem inFront_memberRound (h : Readable b.source levels c) :
    σ.InFront b.Poised b.Poised (fun _ => True) (fun again _ => again = true)
      (memberRound (Enclosed.within (levels + 1))) (memberRound (Enclosed.within (levels + 1 + 1))) c where
  near := fun _ => (memberRound_local h.sited h.nextIs).start fun _ _ => trivial
  mirrors := ⟨Eq, mirrors_memberRound (mirrors_within .front _)⟩
  takes := ⟨_, reports_memberRound (reports _) c h.sited.laid, Assembly.Takes.items⟩
  settles := fun {events again d} hrun hagain => by
    subst hagain
    obtain ⟨more, hmember, -⟩ := exists_of_memberRound_true hrun
    exact .inl (settles_member (delivers (levels + 1)) (Enclosed.settles_statement b.source (levels + 1)) _
      h.sited.relieved more () d hmember)
  below := .behind fun _ => .ite (.refl _) (.behind fun _ => (below_member (below_next _)).front)

/-- A source that the statement is part of. -/
theorem crosses_members (h : Readable b.source levels c) : σ.Crosses b.Poised (fun _ => True)
    (members (σ.refusing (levels + 1))) (members (Enclosed.within (levels + 1)))
      (members (Enclosed.within (levels + 1 + 1))) c := by
  rw [members_eq, members_eq, members_eq]
  exact .behind (.rounds (I := Readable b.source levels) (fun _ _ _ hc hrun => hc.next hrun) (fun _ hc => hc.sited)
    (fun _ hc => inFront_memberRound hc) (fun c _ => crosses_memberRound (inside_within _) c)
    (mirrors_memberRound (mirrors_within .back _))
    (fun _ _ _ hc hrun => (memberRound_true (Enclosed.delivers_within b.braced _) hc hrun).1) h)
    (fun _ => Mirrors.reportComments) fun _ => .refl _

end Bracing.Site

end CodeFrames
