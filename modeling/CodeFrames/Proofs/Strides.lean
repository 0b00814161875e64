import CodeFrames.Proofs.Documentation
import CodeFrames.Proofs.Phrases.Rounds
import CodeFrames.Proofs.Skipping.Expression

/-!
# Rounds of loops

A reading goes forward, and for some of its answers it steps over a token for certain.  A loop whose
rounds step over a token where they answer `true` needs no budget: the tokens ahead get fewer with
each of them.  All loops of the reader are such loops.
-/

namespace CodeFrames

namespace Reading

variable {α β : Type} {source : Text}

/-- The run from a cursor in the source goes forward, and it steps over a token where its answer is such
a one. -/
def StridesAt (source : Text) (Q : α → Prop) (r : Reading α) (c : Cursor) : Prop :=
  c.Sited source → ∀ events a d, r c = (events, .ok (a, d)) → c.Reaches d ∧ (Q a → c.Passes d)

def Strides (source : Text) (Q : α → Prop) (r : Reading α) : Prop := ∀ c, r.StridesAt source Q c

/-- The answers for which a reading steps over a token: all of them. -/
abbrev always : α → Prop := fun _ => True

abbrev never : α → Prop := fun _ => False

namespace StridesAt

variable {r : Reading α} {f : α → Reading β} {c : Cursor} {P : α → Prop} {Q : β → Prop}

theorem advancesAt (h : r.StridesAt source always c) (hc : c.Sited source) : r.AdvancesAt c :=
  fun events a d hrun => (h hc events a d hrun).2 trivial

theorem of_advancesAt (h : c.Sited source → r.AdvancesAt c) : r.StridesAt source P c :=
  fun hc events a d hrun => ⟨(h hc events a d hrun).reaches, fun _ => h hc events a d hrun⟩

theorem of_carries (h : r.Carries source) : r.StridesAt source never c := by
  intro hc events a d hrun
  obtain ⟨comments, hdelivers⟩ := h c events a d hc hrun
  exact ⟨hdelivers.reaches, nofun⟩

theorem of_delivers (h : r.Delivers source) : r.StridesAt source never c := of_carries h.carries

theorem idle (h : r.StridesAt source P c) : r.StridesAt source never c :=
  fun hc events a d hrun => ⟨(h hc events a d hrun).1, nofun⟩

/-- What follows has to step over a token where one is asked for. -/
theorem bind (h : r.StridesAt source P c) (hf : ∀ a, (f a).Strides source Q) :
    (r >>= f).StridesAt source Q c := by
  intro hc events b e hrun
  obtain ⟨first, a, d, more, hr, hmore, -⟩ := exists_of_bind_ok hrun
  have hreaches := (h hc first a d hr).1
  obtain ⟨hfurther, hpasses⟩ := hf a d (hc.reaching hreaches) more b e hmore
  exact ⟨hreaches.trans hfurther, fun hb => hreaches.trans_passes (hpasses hb)⟩

/-- A token has been stepped over before what follows. -/
theorem step (h : r.StridesAt source always c) (hf : ∀ a, (f a).Strides source never) :
    (r >>= f).StridesAt source Q c := by
  refine of_advancesAt fun hc events b e hrun => ?_
  obtain ⟨first, a, d, more, hr, hmore, -⟩ := exists_of_bind_ok hrun
  have hpasses := h.advancesAt hc first a d hr
  exact hpasses.trans_reaches (hf a d (hc.reaching hpasses.reaches) more b e hmore).1

theorem pure {a : α} (ha : ¬ P a) : (Pure.pure a : Reading α).StridesAt source P c := by
  intro hc events b d hrun
  cases hrun
  exact ⟨.refl c, fun hb => absurd hb ha⟩

theorem fail (fault : Fault) : (Reading.fail fault : Reading α).StridesAt source P c := fun _ => nofun

theorem refuse (expected : Expectation) : (Reading.refuse expected : Reading α).StridesAt source P c :=
  fun _ => nofun

theorem fail_bind (fault : Fault) : (Reading.fail fault >>= f).StridesAt source Q c := fun _ => nofun

theorem refuse_bind (expected : Expectation) : (Reading.refuse expected >>= f).StridesAt source Q c :=
  fun _ => nofun

theorem ite {p : Prop} [Decidable p] {s : Reading α} (hr : p → r.StridesAt source P c)
    (hs : ¬ p → s.StridesAt source P c) : (if p then r else s).StridesAt source P c := by
  split
  · exact hr ‹_›
  · exact hs ‹_›

theorem cursor_bind {f : Cursor → Reading β} (h : (f c).StridesAt source Q c) :
    (Reading.cursor >>= f).StridesAt source Q c := h

theorem here_bind {f : Token → Reading β} (h : (f c.here).StridesAt source Q c) :
    (Reading.here >>= f).StridesAt source Q c := h

theorem emit_bind {e : Event} {f : Unit → Reading β} (h : (f ()).StridesAt source Q c) :
    (Reading.emit e >>= f).StridesAt source Q c := by
  intro hc events b d hrun
  obtain ⟨_, _, _, more, ⟨⟩, hmore, -⟩ := exists_of_bind_ok hrun
  exact h hc more b d hmore

/-! ### Steps -/

theorem take (hend : ¬ c.here.isEnd) : Reading.take.StridesAt source always c :=
  of_advancesAt fun hc => advancesAt_take hc.laid hend

theorem take_bind {f : Token → Reading β} (hend : ¬ c.here.isEnd)
    (hf : (f c.here).StridesAt source never c.advance) : (Reading.take >>= f).StridesAt source Q c := by
  refine of_advancesAt fun hc events b e hrun => ?_
  obtain ⟨_, _, _, more, ⟨⟩, hmore, -⟩ := exists_of_bind_ok hrun
  have hpasses := Cursor.passes_advance hc.laid hend
  exact hpasses.trans_reaches (hf (hc.reaching hpasses.reaches) more b e hmore).1

theorem forward {n : Nat} (hn : 0 < n) (hend : ¬ c.here.isEnd) :
    (Reading.forward n).StridesAt source always c :=
  of_advancesAt fun hc => advancesAt_forward hc.laid hend hn

end StridesAt

namespace Strides

variable {r : Reading α} {f : α → Reading β} {P : α → Prop} {Q : β → Prop}

theorem bind (h : r.Strides source P) (hf : ∀ a, (f a).Strides source Q) : (r >>= f).Strides source Q :=
  fun c => (h c).bind hf

theorem step (h : r.Strides source always) (hf : ∀ a, (f a).Strides source never) :
    (r >>= f).Strides source Q := fun c => (h c).step hf

theorem idle (h : r.Strides source P) : r.Strides source never := fun c => (h c).idle

theorem pure {a : α} (ha : ¬ P a) : (Pure.pure a : Reading α).Strides source P := fun _ => .pure ha

theorem of_moves (h : r.Moves source) : r.Strides source always :=
  fun c => .of_advancesAt fun hc events a d => h c events a d hc

theorem of_carries (h : r.Carries source) : r.Strides source never := fun _ => .of_carries h

theorem of_delivers (h : r.Delivers source) : r.Strides source never := .of_carries h.carries

/-! ### Tokens that have to be there -/

theorem expect {kind : Token.Kind} (hkind : kind ≠ .endOfInput) (symbol : String) :
    (Reading.expect kind symbol).Strides source always :=
  fun _ => .cursor_bind (.ite (fun hat => .take (not_isEnd_of_kind (kind_of_isAt hat) hkind))
    fun _ => .refuse _)

theorem expectName : Reading.expectName.Strides source always :=
  fun _ => .here_bind (.ite
    (fun hat => .take (not_isEnd_of_kind (Token.kind_of_isName hat) (by decide))) fun _ => .refuse _)

theorem comma : Reading.comma.Strides source (· = true) :=
  fun _ => .cursor_bind (.ite
    (fun hat => .take_bind (not_isEnd_of_kind (kind_of_isAt hat) (by decide)) (.pure id))
    fun _ => .pure (by simp))

end Strides

/-! ## Loops -/

/-- What a loop comes to: rounds that answer `true`, each of them over a token at least, and then one that
answers `false` or fails. -/
inductive Repeats (body : Reading Bool) :
    Cursor → List Event × Except SourceError (Unit × Cursor) → Prop
  | last {c d : Cursor} {events : List Event} :
      body c = (events, .ok (false, d)) → c.Reaches d → Repeats body c (events, .ok ((), d))
  | failed {c : Cursor} {events : List Event} {e : SourceError} :
      body c = (events, .error e) → Repeats body c (events, .error e)
  | more {c d : Cursor} {events others : List Event} {result : Except SourceError (Unit × Cursor)} :
      body c = (events, .ok (true, d)) → c.Passes d → Repeats body d (others, result) →
      Repeats body c (events ++ others, result)

section Loops

variable {body : Reading Bool} {c : Cursor}

theorem Repeats.reaches {events : List Event} {result : Except SourceError (Unit × Cursor)}
    (h : Repeats body c (events, result)) {u : Unit} {d : Cursor} (hresult : result = .ok (u, d)) :
    c.Reaches d := by
  generalize hrun : (events, result) = run at h
  induction h generalizing events with
  | last _ hreaches =>
      cases hrun
      cases hresult
      exact hreaches
  | failed =>
      cases hrun
      cases hresult
  | more _ hpasses _ ih =>
      cases hrun
      exact hpasses.reaches.trans (ih rfl)

/-- A round that does not answer `true` ends the loop. -/
theorem repeats_of_last (h : body.Strides source (· = true)) (hc : c.Sited source)
    (hlast : ∀ events d, body c ≠ (events, .ok (true, d))) (budget : List Token) :
    Repeats body c (loop body budget c) := by
  cases hround : body c with
  | mk events result =>
      rcases result with e | ⟨_ | _, d⟩
      · have hloop : loop body budget c = (events, .error e) := by
          cases budget <;> exact bind_of_error _ hround
        rw [hloop]
        exact .failed hround
      · rw [loop_of_false hround]
        exact .last hround (h c hc events false d hround).1
      · exact absurd hround (hlast events d)

/-- A loop whose rounds step over a token is not ended by its budget, if the tokens ahead do not exceed
it. -/
theorem repeats_loop (h : body.Strides source (· = true)) (hc : c.Sited source) {budget : List Token}
    (hlength : c.ahead.length ≤ budget.length) : Repeats body c (loop body budget c) := by
  induction budget generalizing c with
  | nil =>
      refine repeats_of_last h hc (fun events d hround => ?_) []
      have hshort := ((h c hc events true d hround).2 rfl).length_lt
      rw [List.length_nil] at hlength
      omega
  | cons t budget ih =>
      by_cases hmore : ∃ events d, body c = (events, .ok (true, d))
      · obtain ⟨events, d, hround⟩ := hmore
        have hpasses := (h c hc events true d hround).2 rfl
        have hshort := hpasses.length_lt
        rw [List.length_cons] at hlength
        rw [loop_of_true hround]
        exact .more hround hpasses (ih (hc.reaching hpasses.reaches) (by omega))
      · exact repeats_of_last h hc (fun events d hround => hmore ⟨events, d, hround⟩) (t :: budget)

theorem Strides.repeats (h : body.Strides source (· = true)) (hc : c.Sited source) :
    Repeats body c (Reading.repeatWhile body c) := repeats_loop h hc le_rfl

theorem Strides.repeatWhile (h : body.Strides source (· = true)) :
    (Reading.repeatWhile body).Strides source never :=
  fun _ hc _ _ _ hrun => ⟨(hrun ▸ h.repeats hc).reaches rfl, nofun⟩

end Loops

/-! ## Rounds over skipped code -/

variable {inner : Enclosed} {c : Cursor}

theorem strides_skipGroup : skipGroup.Strides source always := .of_moves (.of_advances advances_skipGroup)

theorem strides_semicolonRound : (here >>= semicolonRound).Strides source (· = true) :=
  fun _ => .of_advancesAt fun hc _ _ _ hrun => passes_semicolonRound hc.laid hrun

/-- One round of the walk to the body of a type. -/
def typeBodyRound (word : Text) : Reading Bool := do
  let t ← here
  if t.kind = .openBrace then return false
  else if t.isEnd then fail (.missingBody word)
  else
    let _ ← take
    return true

theorem strides_typeBodyRound (word : Text) : (typeBodyRound word).Strides source (· = true) :=
  fun _ => .here_bind (.ite (fun _ => .pure (by simp)) fun _ => .ite (fun _ => .fail _) fun hend =>
    .take_bind hend (.pure id))

/-- A handler of a `try` statement, if there is another one. -/
def catchRound : Reading Bool := do
  if (← cursor).isAtWord "catch" then
    skipWordAndGroup
    skipGroup
    return true
  else return false

theorem not_isEnd_of_isAtWord {word : String} (h : c.isAtWord word = true) : ¬ c.here.isEnd :=
  not_isEnd_of_kind (kind_of_isWord h) (by decide)

theorem strides_catchRound : catchRound.Strides source (· = true) := by
  refine fun c => .cursor_bind (.ite (fun hat => ?_) fun _ => .pure (by simp))
  have hhead : skipWordAndGroup.StridesAt source always c :=
    .take_bind (not_isEnd_of_isAtWord hat) (.of_delivers .skipGroup)
  exact hhead.step fun _ => strides_skipGroup.idle.bind fun _ => .pure id

theorem strides_lambdaRound : lambdaRound.Strides source (· = true) := by
  refine fun c => .here_bind (.ite (fun _ => (strides_skipGroup c).step fun _ => .pure id) fun _ =>
    .ite (fun _ => .pure (by simp)) fun hbody => .take_bind (fun hend => hbody ?_) (.pure id))
  rw [Token.isEnd, decide_eq_true_eq] at hend
  rw [endsLambdaBody, hend]

/-! ## Rounds in expressions -/

theorem strides_argumentRound (h : inner.Delivers source) :
    (argumentRound inner).Strides source (· = true) :=
  fun _ => .here_bind (.emit_bind ((StridesAt.of_delivers (.expression h)).bind fun _ => .comma))

theorem strides_valueRound (h : inner.Delivers source) : (valueRound inner).Strides source (· = true) :=
  fun _ => .cursor_bind (.ite (fun _ => .pure (by simp)) fun _ => .ite
    (fun _ => (StridesAt.of_delivers h.arrayInitializer).bind fun _ => .comma)
    fun _ => (StridesAt.of_delivers (.expression h)).bind fun _ => .comma)

theorem strides_dimension (h : inner.Delivers source) : (dimension inner).Strides source (· = true) := by
  have hclose (u : Unit) : (do
      let _ ← expect .closeBracket "]"
      return true : Reading Bool).Strides source never :=
    .of_delivers ((Delivers.expect _ _).bind fun _ => .pure _)
  refine fun c => .cursor_bind (.ite (fun hat => ?_) fun _ => .pure (by simp))
  exact .take_bind (not_isEnd_of_kind (kind_of_isAt hat) (by decide)) (.cursor_bind (.ite
    (fun _ => (StridesAt.of_delivers (.expression h)).bind hclose) fun _ => hclose () _))

theorem strides_selector (h : inner.Delivers source) : (selector inner).Strides source (· = true) := by
  refine fun c => .cursor_bind (.ite (fun hat => ?_) fun _ => .ite (fun hat => ?_) fun _ =>
    .ite (fun hat => ?_) fun _ => .ite (fun hat => ?_) fun _ => .pure (by simp))
  · exact .take_bind (not_isEnd_of_kind (kind_of_isAt hat) (by decide))
      ((StridesAt.of_delivers (.memberAccess h)).bind fun _ => .pure id)
  · exact .take_bind (not_isEnd_of_kind (kind_of_isAt hat) (by decide))
      ((StridesAt.of_delivers (.expression h)).bind fun _ =>
        (Strides.expect (by decide) _).bind fun _ => .pure id)
  · refine .take_bind (not_isEnd_of_kind (kind_of_isOperator hat) (by decide)) (.cursor_bind (.ite
      (fun hword => .take_bind (not_isEnd_of_isAtWord hword) (.pure id)) fun _ => ?_))
    exact (Strides.expectName _).bind fun _ => .pure id
  · exact .take_bind (not_isEnd_of_kind (kind_of_isOperatorIn hat) (by decide)) (.pure id)

theorem strides_leading : leading.Strides source (· = true) := by
  refine fun c => .cursor_bind (.ite (fun hat => ?_) fun _ => ?_)
  · exact .take_bind (not_isEnd_of_kind (kind_of_isOperatorIn hat) (by decide)) (.pure id)
  · cases hcast : Token.castLength? c.tokens with
    | none => exact .pure (by simp)
    | some n =>
        have hn : 0 < n := by
          obtain ⟨-, -, -, -, -, -, -, -, -, -, -, -, -, rfl⟩ := Token.castLength?_eq_some.mp hcast
          omega
        have hhere : c.here ∈ c.tokens.take n := by
          obtain ⟨n, rfl⟩ := Nat.exists_eq_succ_of_ne_zero hn.ne'
          exact List.mem_cons_self
        exact (StridesAt.forward hn (Token.not_isEnd_of_cast hcast c.here hhere)).step fun _ => .pure id

theorem stridesAt_typeTest (hend : ¬ c.here.isEnd) : typeTest.StridesAt source always c := by
  have hrest (u : Token) : (do
      unreportedType
      if (← here).isName then let _ ← take : Reading Unit).Strides source never :=
    .of_delivers (Delivers.unreportedType.bind fun _ => Delivers.here.bind fun _ =>
      .ite (Delivers.take.bind fun _ => .pure _) (.pure _))
  exact .take_bind hend (.cursor_bind (.ite
    (fun hat => .take_bind (not_isEnd_of_isAtWord hat) (hrest c.here _)) fun _ => hrest c.here _))

theorem strides_operationRound (h : inner.Delivers source) :
    (operationRound inner).Strides source (· = true) := by
  refine fun c => .cursor_bind (.ite (fun hat => ?_) fun _ => .ite (fun hat => ?_) fun _ =>
    .pure (by simp))
  · exact (stridesAt_typeTest (not_isEnd_of_isAtWord hat)).step fun _ => .pure id
  · exact .take_bind (not_isEnd_of_kind (kind_of_isOperatorIn hat) (by decide))
      ((StridesAt.of_delivers (.unary h)).bind fun _ => .pure id)

theorem strides_assignedRound (h : inner.Delivers source) :
    (assignedRound inner).Strides source (· = true) :=
  fun _ => .here_bind (.ite
    (fun hat => .take_bind (not_isEnd_of_kind (kind_of_isOperatorIn hat) (by decide))
      ((StridesAt.of_delivers (.conditional h)).bind fun _ => .pure id))
    fun _ => .pure (by simp))

/-! ## Rounds in statements and members -/

theorem strides_blockRound (h : inner.Delivers source) : (blockRound inner).Strides source (· = true) :=
  fun _ => .here_bind (.ite (fun _ => .pure (by simp)) fun _ => .ite (fun _ => .fail_bind _)
    fun _ => (Strides.of_moves h.moves _).step fun _ => .pure id)

theorem strides_furtherBranch (h : inner.Delivers source) :
    (furtherBranch inner).Strides source (· = true) := by
  have hbranch (again : Bool) (u : Unit) :
      (body inner >>= fun _ => Pure.pure again : Reading Bool).Strides source never :=
    .of_delivers ((Delivers.body h).bind fun _ => .pure _)
  refine fun c => .cursor_bind (.ite (fun _ => .pure (by simp)) fun helse => ?_)
  have hend : ¬ c.here.isEnd := not_isEnd_of_isAtWord (by simpa using helse)
  refine .ite (fun hif => ?_) fun _ => .take_bind hend (.emit_bind (hbranch false () _))
  have hnext : ¬ c.advance.here.isEnd := by
    obtain ⟨before, here, ahead, comments⟩ := c
    cases ahead with
    | nil => cases hif
    | cons t ts => exact not_isEnd_of_kind (kind_of_isWord (t := t) hif) (by decide)
  exact .take_bind hend (.take_bind hnext (.emit_bind
    ((StridesAt.of_delivers (.condition h)).bind (hbranch true))))

theorem strides_declarator (h : inner.Delivers source) : (declarator inner).Strides source (· = true) := by
  refine Strides.expectName.bind fun _ c => .cursor_bind (.ite (fun _ => .fail_bind _) fun _ =>
    .emit_bind (.ite (fun hat => ?_) fun _ => Strides.comma c))
  exact .take_bind (not_isEnd_of_kind (kind_of_isOperator hat) (by decide))
    ((StridesAt.of_delivers (.variableValue h)).bind fun _ => Strides.comma.idle)

theorem strides_parameter : parameter.Strides source (· = true) := by
  have hname (ellipsis : Option Token) : (do
      let name ← expectName
      emit (.parameter name.toSpan (ellipsis.map Token.toSpan))
      comma : Reading Bool).Strides source (· = true) :=
    Strides.expectName.bind fun _ c => .emit_bind (Strides.comma c)
  have hellipsis : (some <$> take : Reading (Option Token)).Strides source never := by
    rw [← bind_pure_comp]
    exact .of_delivers (Delivers.take.bind fun _ => .pure _)
  exact (Strides.of_delivers .modifiers).bind fun _ => (Strides.of_delivers .typeName).bind fun _ c =>
    .cursor_bind (.ite (fun _ => (hellipsis c).bind hname) fun _ => hname none c)

theorem strides_thrownRound : thrownRound.Strides source (· = true) :=
  (Strides.of_delivers .typeName).bind fun _ => .comma

theorem strides_memberRound (h : inner.Delivers source) : (memberRound inner).Strides source (· = true) := by
  intro c hc events again d hrun
  cases again with
  | false =>
      obtain ⟨-, -, rfl⟩ := eq_of_memberRound_false hrun
      exact ⟨.refl d, nofun⟩
  | true =>
      obtain ⟨hpasses, -⟩ := memberRound_true h hc hrun
      exact ⟨hpasses.reaches, fun _ => hpasses⟩

/-! ## All loops -/

/-- The rounds of the loops of the reader, called after the readings that loop. -/
inductive IsRound (inner : Enclosed) : Reading Bool → Prop
  | members : IsRound inner (memberRound inner)
  | parameters : IsRound inner parameter
  | throwsClause : IsRound inner thrownRound
  | blockRest : IsRound inner (blockRound inner)
  | ifChain : IsRound inner (furtherBranch inner)
  | localVariables : IsRound inner (declarator inner)
  | arguments : IsRound inner (argumentRound inner)
  | arrayInitializer : IsRound inner (valueRound inner)
  | createdObject : IsRound inner (dimension inner)
  | unaryFront : IsRound inner leading
  | unaryBack : IsRound inner (selector inner)
  | binary : IsRound inner (operationRound inner)
  | assignment : IsRound inner (assignedRound inner)
  | skipToSemicolon : IsRound inner (here >>= semicolonRound)
  | skipTypeBody (word : Text) : IsRound inner (typeBodyRound word)
  | skipTry : IsRound inner catchRound
  | skipLambdaBody : IsRound inner lambdaRound

theorem IsRound.strides {body : Reading Bool} (hbody : IsRound inner body) (h : inner.Delivers source) :
    body.Strides source (· = true) := by
  cases hbody with
  | members => exact strides_memberRound h
  | parameters => exact strides_parameter
  | throwsClause => exact strides_thrownRound
  | blockRest => exact strides_blockRound h
  | ifChain => exact strides_furtherBranch h
  | localVariables => exact strides_declarator h
  | arguments => exact strides_argumentRound h
  | arrayInitializer => exact strides_valueRound h
  | createdObject => exact strides_dimension h
  | unaryFront => exact strides_leading
  | unaryBack => exact strides_selector h
  | binary => exact strides_operationRound h
  | assignment => exact strides_assignedRound h
  | skipToSemicolon => exact strides_semicolonRound
  | skipTypeBody word => exact strides_typeBodyRound word
  | skipTry => exact strides_catchRound
  | skipLambdaBody => exact strides_lambdaRound

/-! ## All readings -/

theorem strides_members (h : inner.Delivers source) : (members inner).Strides source never := by
  have hcomments : reportComments.Strides source never := fun c hc events u d hrun =>
    ⟨Reports.reportComments.reaches hc.laid hrun, nofun⟩
  exact (strides_memberRound h).repeatWhile.bind fun _ => hcomments

theorem strides_member (h : inner.Delivers source) : (member inner).Strides source always :=
  fun _ => .of_advancesAt fun hc _ _ _ hrun => (exists_of_member h hc hrun).2.1

/-- The readings that the reader is made of. -/
inductive IsPart (inner : Enclosed) : Reading Unit → Prop
  | members : IsPart inner (members inner)
  | member : IsPart inner (member inner)
  | directive (word : Text) : IsPart inner (directive word)
  | unsupportedMember (construct : String) (head skipped : Nat) :
      IsPart inner (unsupportedMember construct head skipped)
  | constructor : IsPart inner (constructor inner)
  | delegateCall : IsPart inner (delegateCall inner)
  | method : IsPart inner (method inner)
  | typeParameters : IsPart inner typeParameters
  | parameters : IsPart inner parameters
  | throwsClause : IsPart inner throwsClause
  | statement : IsPart inner (statement inner)
  | block : IsPart inner (block inner)
  | blockRest : IsPart inner (blockRest inner)
  | body : IsPart inner (body inner)
  | condition : IsPart inner (condition inner)
  | ifChain : IsPart inner (ifChain inner)
  | whileLoop : IsPart inner (whileLoop inner)
  | returned : IsPart inner (returned inner)
  | jumped (jump : Jump) : IsPart inner (jumped jump)
  | thrown : IsPart inner (thrown inner)
  | expressionStatement : IsPart inner (expressionStatement inner)
  | localVariables : IsPart inner (localVariables inner)
  | variableValue : IsPart inner (variableValue inner)
  | unsupported (construct : String) : IsPart inner (unsupported construct)
  | expression : IsPart inner (expression inner)
  | assignment : IsPart inner (assignment inner)
  | branches : IsPart inner (branches inner)
  | conditional : IsPart inner (conditional inner)
  | binary : IsPart inner (binary inner)
  | typeTest : IsPart inner typeTest
  | unary : IsPart inner (unary inner)
  | operand : IsPart inner (operand inner)
  | creation : IsPart inner (creation inner)
  | createdObject : IsPart inner (createdObject inner)
  | arrayInitializer : IsPart inner (arrayInitializer inner)
  | arguments : IsPart inner (arguments inner)
  | optionalArguments : IsPart inner (optionalArguments inner)
  | memberAccess : IsPart inner (memberAccess inner)
  | skipTypeArguments : IsPart inner skipTypeArguments
  | typeLiteral (word : Text) : IsPart inner (typeLiteral word)
  | typeName : IsPart inner typeName
  | unreportedType : IsPart inner unreportedType
  | lambda : IsPart inner lambda
  | skipLambdaBody : IsPart inner skipLambdaBody
  | skipStatement : IsPart inner skipStatement
  | skipTypeBody (word : Text) : IsPart inner (skipTypeBody word)
  | skipTry : IsPart inner skipTry
  | skipToSemicolon : IsPart inner skipToSemicolon
  | skipWordAndGroup : IsPart inner skipWordAndGroup
  | skipGroup : IsPart inner skipGroup

theorem IsPart.strides {r : Reading Unit} (hr : IsPart inner r) (h : inner.Delivers source) :
    r.Strides source never := by
  cases hr with
  | members => exact strides_members h
  | member => exact (strides_member h).idle
  | directive word => exact .of_delivers (@delivers_memberOf _ _ h (.directive word) nofun nofun).1
  | unsupportedMember construct head skipped =>
      exact .of_delivers (@delivers_memberOf _ _ h (.unsupported construct head skipped) nofun nofun).1
  | constructor => exact .of_carries (carries_constructor h).1
  | delegateCall => exact .of_delivers (delivers_delegateCall h)
  | method => exact .of_carries (carries_method h).1
  | typeParameters => exact .of_delivers .typeParameters
  | parameters => exact .of_delivers .parameters
  | throwsClause => exact .of_delivers .throwsClause
  | statement => exact .of_delivers (delivers_statement h).1
  | block => exact .of_delivers (Delivers.block h).delivers
  | blockRest => exact .of_delivers (Delivers.blockRest h).1
  | body => exact .of_delivers (.body h)
  | condition => exact .of_delivers (.condition h)
  | ifChain => exact .of_delivers (Delivers.ifChain h).delivers
  | whileLoop => exact .of_delivers (Delivers.whileLoop h).delivers
  | returned => exact .of_delivers (Delivers.returned h).delivers
  | jumped jump => exact .of_delivers (Delivers.jumped jump).delivers
  | thrown => exact .of_delivers (Delivers.thrown h).delivers
  | expressionStatement => exact .of_delivers (.expressionStatement h)
  | localVariables => exact .of_delivers (.localVariables h)
  | variableValue => exact .of_delivers (.variableValue h)
  | unsupported construct => exact .of_delivers (.unsupported construct)
  | expression => exact .of_delivers (.expression h)
  | assignment => exact .of_delivers (.assignment h)
  | branches => exact .of_delivers (.branches h)
  | conditional => exact .of_delivers (.conditional h)
  | binary => exact .of_delivers (.binary h)
  | typeTest => exact .of_delivers .typeTest
  | unary => exact .of_delivers (.unary h)
  | operand => exact .of_delivers (.operand h)
  | creation => exact .of_delivers (.creation h)
  | createdObject => exact .of_delivers (.createdObject h)
  | arrayInitializer => exact .of_delivers (.arrayInitializer h)
  | arguments => exact .of_delivers (.arguments h)
  | optionalArguments => exact .of_delivers (.optionalArguments h)
  | memberAccess => exact .of_delivers (.memberAccess h)
  | skipTypeArguments => exact .of_delivers .skipTypeArguments
  | typeLiteral word => exact .of_delivers (.typeLiteral word)
  | typeName => exact .of_delivers .typeName
  | unreportedType => exact .of_delivers .unreportedType
  | lambda => exact .of_delivers .lambda
  | skipLambdaBody => exact .of_delivers .skipLambdaBody
  | skipStatement => exact .of_delivers .skipStatement
  | skipTypeBody word => exact .of_delivers (.skipTypeBody word)
  | skipTry => exact .of_delivers .skipTry
  | skipToSemicolon => exact .of_delivers .skipToSemicolon
  | skipWordAndGroup => exact .of_delivers .skipWordAndGroup
  | skipGroup => exact .of_delivers .skipGroup

end Reading

end CodeFrames
