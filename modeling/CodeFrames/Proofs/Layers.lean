import CodeFrames.Proofs.Handlers

/-!
# Handlers on a root

Whatever events an assembly takes, its handlers stand on the root, and the bodies among them are as many
as the open declarations.  So no event finds the handlers empty: an event that is refused is refused by
a handler or for the want of something else.
-/

namespace CodeFrames

open Handler

/-- Handlers on a root, each body among them with a declaration. -/
inductive Layered : List Handler → List Declaration → Prop
  | root (elements : Block) : Layered [.root elements] []
  | inner {h : Handler} {handlers : List Handler} {declarations : List Declaration} :
      h.isRoot = false → h.isBody = false → Layered handlers declarations →
      Layered (h :: handlers) declarations
  | body {h : Handler} (d : Declaration) {handlers : List Handler} {declarations : List Declaration} :
      h.isBody = true → Layered handlers declarations → Layered (h :: handlers) (d :: declarations)

namespace Layered

variable {top other : Handler} {handlers below others : List Handler} {declarations : List Declaration}

theorem exists_root (h : Layered handlers declarations) :
    ∃ above elements, handlers = above ++ [.root elements] ∧ ∀ h ∈ above, h.isRoot = false := by
  induction h with
  | root elements => exact ⟨[], elements, rfl, by simp⟩
  | @inner h _ _ hroot _ _ ih =>
      obtain ⟨above, elements, rfl, habove⟩ := ih
      exact ⟨h :: above, elements, rfl, List.forall_mem_cons.mpr ⟨hroot, habove⟩⟩
  | @body h _ _ _ hbody _ ih =>
      obtain ⟨above, elements, rfl, habove⟩ := ih
      exact ⟨h :: above, elements, rfl,
        List.forall_mem_cons.mpr ⟨isRoot_eq_false_of_isBody hbody, habove⟩⟩

theorem countP_isBody (h : Layered handlers declarations) :
    handlers.countP isBody = declarations.length := by
  induction h with
  | root elements => rfl
  | inner _ hbody _ ih => rw [List.countP_cons_of_neg (by simp [hbody]), ih]
  | body d hbody _ ih => rw [List.countP_cons_of_pos hbody, ih, List.length_cons]

theorem ne_nil (h : Layered handlers declarations) : handlers ≠ [] := by
  cases h <;> exact List.cons_ne_nil _ _

/-- Another handler of the same kind on top. -/
theorem retop (h : Layered (top :: below) declarations) (hroot : other.isRoot = top.isRoot)
    (hbody : other.isBody = top.isBody) : Layered (other :: below) declarations := by
  cases h with
  | root elements =>
      cases other with
      | root others => exact .root others
      | block b | chain c | loop w => cases hroot
  | inner htop hnot hrest => exact .inner (hroot.trans htop) (hbody.trans hnot) hrest
  | body d htop hrest => exact .body d (hbody.trans htop) hrest

theorem receives {elements : Block} (h : Layered handlers declarations)
    (hreceives : Receives handlers elements others) : Layered others declarations := by
  cases hreceives with
  | nothing => exact h
  | elements below hpush =>
      obtain ⟨hroot, hbody⟩ := kind_of_pushAll hpush
      exact h.retop hroot hbody

theorem of_inner (h : Layered (top :: below) declarations) (hroot : top.isRoot = false)
    (hbody : top.isBody = false) : Layered below declarations := by
  cases h with
  | root elements => cases hroot
  | inner _ _ hrest => exact hrest
  | body d htop _ => simp [hbody] at htop

theorem of_body (h : Layered (top :: below) declarations) (hbody : top.isBody = true) :
    ∃ d outer, declarations = d :: outer ∧ Layered below outer := by
  cases h with
  | root elements => cases hbody
  | inner _ hnot _ => simp [hbody] at hnot
  | body d _ hrest => exact ⟨d, _, rfl, hrest⟩

end Layered

namespace Assembly

variable {a b : Assembly}

theorem layered_step {event : Event} (h : a.step event = .ok b) (ha : Layered a.handlers a.begun) :
    Layered b.handlers b.begun := by
  cases moves_step h with
  | received hbegun _ hreceives =>
      rw [hbegun]
      exact ha.receives hreceives
  | pushed hbegun hnew hb =>
      rw [hbegun, hb]
      exact .inner hnew.isRoot hnew.isBody ha
  | turned hbegun hhandlers hb hturns =>
      rw [hbegun, hb]
      exact (hhandlers ▸ ha).retop hturns.kind.1 hturns.kind.2
  | popped hbegun hhandlers hroot hbody hreceives =>
      rw [hbegun]
      exact ((hhandlers ▸ ha).of_inner hroot hbody).receives hreceives
  | began hbegins hbegun hb =>
      rw [hbegun, hb]
      exact .body _ rfl ha
  | ended hbegun hhandlers hbody hreceives =>
      obtain ⟨d, outer, hdeclarations, hrest⟩ := (hhandlers ▸ ha).of_body hbody
      obtain ⟨-, rfl⟩ := List.cons.inj (hbegun.symm.trans hdeclarations)
      exact hrest.receives hreceives

theorem layered_run {events : List Event} (h : a.run events = .ok b)
    (ha : Layered a.handlers a.begun) : Layered b.handlers b.begun := by
  induction events generalizing a with
  | nil =>
      cases h
      exact ha
  | cons event events ih =>
      obtain ⟨next, hstep, hrest⟩ := Except.exists_of_bind h
      exact ih hrest (layered_step hstep ha)

theorem layered_start (source : Text) (options : Options) :
    Layered (start source options).handlers (start source options).begun := .root []

end Assembly

/-! ## Refusals -/

/-- What a handler asks for that refuses an element. -/
def Handler.refusals : List Requirement :=
  [.openCollector, .chainWithOpenBlock, .chainAt .inBlock, .situation (.loop .inBody)]

theorem Handler.exists_of_push_error {h : Handler} {e : Element} {error : ConversionError}
    (hpush : h.push e = .error error) :
    ∃ expected ∈ refusals, ∃ actual, error = .mismatch expected actual := by
  cases h with
  | root elements => cases hpush
  | block b =>
      simp only [push, OpenBlock.push] at hpush
      split at hpush <;> cases hpush
      exact ⟨_, by simp [refusals], _, rfl⟩
  | chain c =>
      simp only [push, OpenChain.push, OpenChain.refuse] at hpush
      split at hpush
      · split at hpush <;> cases hpush
        exact ⟨_, by simp [refusals], _, rfl⟩
      · cases hpush
        exact ⟨_, by simp [refusals], _, rfl⟩
  | loop w =>
      simp only [push, OpenLoop.push, OpenLoop.require] at hpush
      split at hpush <;> cases hpush
      exact ⟨_, by simp [refusals], _, rfl⟩

/-- The computation does not fail for want of a handler. -/
def FindsHandler {α : Type} (x : Except ConversionError α) : Prop :=
  x ≠ .error (.emptyStack .statement)

namespace FindsHandler

variable {α β : Type} {x : Except ConversionError α}

theorem ok (value : α) : FindsHandler (.ok value) := by
  simp [FindsHandler]

theorem mismatch (expected : Requirement) (actual : Situation) :
    FindsHandler (.error (.mismatch expected actual) : Except ConversionError α) := by
  simp [FindsHandler]

theorem emptyStack {stack : Stack} (h : stack ≠ .statement) :
    FindsHandler (.error (.emptyStack stack) : Except ConversionError α) := by
  simpa [FindsHandler] using h

theorem bind {f : α → Except ConversionError β} (hx : FindsHandler x)
    (hf : ∀ value, x = .ok value → FindsHandler (f value)) : FindsHandler (x >>= f) := by
  cases x with
  | error error => exact fun h => hx (congrArg _ (Except.error.inj h))
  | ok value => exact hf value rfl

theorem map {f : α → β} (hx : FindsHandler x) : FindsHandler (x.map f) := by
  cases x with
  | error error => exact fun h => hx (congrArg _ (Except.error.inj h))
  | ok value => exact .ok (f value)

theorem ite {p : Prop} [Decidable p] {y : Except ConversionError α} (hx : p → FindsHandler x)
    (hy : ¬ p → FindsHandler y) : FindsHandler (if p then x else y) := by
  split
  · exact hx ‹_›
  · exact hy ‹_›

end FindsHandler

namespace Assembly

variable {a b : Assembly}

theorem exists_of_report_error {e : Element} {error : ConversionError} (ha : a.handlers ≠ [])
    (h : a.report e = .error error) :
    ∃ expected ∈ refusals, ∃ actual, error = .mismatch expected actual := by
  unfold report at h
  split at h
  · contradiction
  · next top below _ =>
      cases hpush : top.push e with
      | error refusal =>
          rw [hpush] at h
          cases h
          exact exists_of_push_error hpush
      | ok grown => simp [hpush, Except.map] at h

theorem findsHandler_report (e : Element) (ha : a.handlers ≠ []) : FindsHandler (a.report e) := by
  intro herror
  obtain ⟨expected, -, actual, hmismatch⟩ := exists_of_report_error ha herror
  cases hmismatch

theorem findsHandler_reports {elements : Block} (ha : a.handlers ≠ []) :
    FindsHandler (elements.foldlM report a) := by
  induction elements generalizing a with
  | nil => exact .ok a
  | cons e elements ih =>
      rw [List.foldlM_cons]
      exact .bind (findsHandler_report e ha) fun next hnext => ih ((receives_report hnext).ne_nil ha)

theorem findsHandler_claimType : FindsHandler a.claimType := by
  unfold claimType
  split
  · exact .emptyStack (by decide)
  · exact .ok _

theorem findsHandler_updateChain {f : OpenChain → Except ConversionError OpenChain}
    (hf : ∀ c, FindsHandler (f c)) (ha : a.handlers ≠ []) : FindsHandler (a.updateChain f) := by
  unfold updateChain
  split
  · contradiction
  · exact .map (hf _)
  · exact .mismatch _ _

theorem findsHandler_updateDeclaration {f : Declaration → Except ConversionError Declaration}
    (hf : ∀ d, FindsHandler (f d)) : FindsHandler (a.updateDeclaration f) := by
  unfold updateDeclaration
  split
  · exact .emptyStack (by decide)
  · exact .map (hf _)

theorem findsHandler_requireConstructor (d : Declaration) : FindsHandler (requireConstructor d) :=
  .ite (fun _ => .ok _) fun _ => .mismatch _ _

theorem findsHandler_fulfil {use : ExpressionUse} {text : Text} (ha : a.handlers ≠ []) :
    FindsHandler (a.fulfil use text) := by
  cases use with
  | ifCondition | whileCondition | discarded => exact .ok _
  | elseIfCondition =>
      refine findsHandler_updateChain (fun c => ?_) ha
      exact .ite (fun _ => .ok _) fun _ => .mismatch _ _
  | returnValue | statement | thrown => exact findsHandler_report _ ha
  | initializer name =>
      simp only [fulfil]
      split
      · exact .emptyStack (by decide)
      · exact findsHandler_report _ ha
  | argument =>
      simp only [fulfil]
      split
      · exact .emptyStack (by decide)
      · exact .ok _

theorem findsHandler_closed (x : Extraction) (source : Text) (stop : Nat) (isEmpty : Bool) :
    FindsHandler (x.closed source stop isEmpty) := by
  have htext : FindsHandler (x.textTo source stop) := by
    unfold Extraction.textTo
    dsimp only
    split
    · exact .ok _
    · exact .mismatch _ _
  unfold Extraction.closed
  split
  · exact .mismatch _ _
  · exact .ite (fun _ => .ok _) fun _ => .bind htext fun text _ => .ok _
  · exact .ok _

theorem findsHandler_closeExpression {last : Span} {isEmpty : Bool} (ha : a.handlers ≠ []) :
    FindsHandler (a.closeExpression last isEmpty) := by
  unfold closeExpression
  split
  · exact .ok _
  · refine .bind (findsHandler_closed _ _ _ _) fun ended _ => ?_
    split
    · exact .ok _
    · exact findsHandler_fulfil ha

theorem findsHandler_closeArguments : FindsHandler a.closeArguments := by
  unfold closeArguments
  split
  · exact .ok _
  · refine .bind ?_ fun list _ => .ite (fun _ => ?_) fun _ => .ok _
    · unfold ArgumentCollector.closed
      split
      · exact .mismatch _ _
      · exact .ok _
    · exact findsHandler_updateDeclaration fun d =>
        .bind (findsHandler_requireConstructor d) fun _ _ => .ok _

theorem findsHandler_chainOpenBlock (c : OpenChain) : FindsHandler c.openBlock := by
  unfold OpenChain.openBlock
  split
  · exact .ok _
  · exact .mismatch _ _
  · exact .ok _
  · exact .mismatch _ _

theorem findsHandler_require (w : OpenLoop) (stage : LoopStage) : FindsHandler (w.require stage) :=
  .ite (fun _ => .ok _) fun _ => .mismatch _ _

theorem findsHandler_openBlock (ha : a.handlers ≠ []) : FindsHandler a.openBlock := by
  unfold openBlock
  split
  · contradiction
  · next top below _ =>
      have hnested : FindsHandler (if top.collects then
          Except.ok { a with handlers := .block .nested :: a.handlers }
        else Except.error (ConversionError.mismatch .readyForBlock top.situation)) :=
        .ite (fun _ => .ok _) fun _ => .mismatch _ _
      cases top with
      | root elements => exact hnested
      | block b => exact .ite (fun _ => .ok _) fun _ => hnested
      | chain c => exact .ite (fun _ => .map (findsHandler_chainOpenBlock c)) fun _ => hnested
      | loop w =>
          refine .ite (fun _ => .map ?_) fun _ => hnested
          exact .bind (findsHandler_require w _) fun _ _ => .ok _

/-- A block among statements is not the root, so there is a handler below it that takes what it holds. -/
theorem findsHandler_closeBlock (ha : Layered a.handlers a.begun) : FindsHandler a.closeBlock := by
  unfold closeBlock
  split
  · next hnone => exact absurd hnone ha.ne_nil
  · next top below hhandlers =>
      cases top with
      | root elements => exact .mismatch _ _
      | block b =>
          refine .ite (fun _ => .ite (fun _ => .ok _) fun hbody => ?_) fun _ => .mismatch _ _
          refine findsHandler_reports (a := { a.dropComment with handlers := below }) ?_
          exact ((hhandlers ▸ ha).of_inner rfl (show b.isBody = false by simpa using hbody)).ne_nil
      | chain c => exact .map (.ite (fun _ => .ok _) fun _ => .mismatch _ _)
      | loop w => exact .map (.bind (findsHandler_require w _) fun _ _ => .ok _)

theorem findsHandler_closeIf (ha : Layered a.handlers a.begun) : FindsHandler a.closeIf := by
  unfold closeIf
  split
  · next hnone => exact absurd hnone ha.ne_nil
  · next chain below hhandlers =>
      refine .bind ?_ fun e _ => ?_
      · unfold OpenChain.finish
        split
        · split
          · exact .ok _
          · exact .mismatch _ _
        · exact .mismatch _ _
      · exact findsHandler_report e ((hhandlers ▸ ha).of_inner rfl rfl).ne_nil
  · exact .mismatch _ _

theorem findsHandler_closeWhile (ha : Layered a.handlers a.begun) : FindsHandler a.closeWhile := by
  unfold closeWhile
  split
  · next hnone => exact absurd hnone ha.ne_nil
  · next loop below hhandlers =>
      refine .bind (.bind (findsHandler_require _ _) fun _ _ => .ok _) fun e _ => ?_
      exact findsHandler_report e ((hhandlers ▸ ha).of_inner rfl rfl).ne_nil
  · exact .mismatch _ _

theorem findsHandler_delegateCall {keyword : Span} : FindsHandler (a.delegateCall keyword) := by
  unfold delegateCall
  dsimp only
  split
  · exact .mismatch _ _
  · refine .bind (findsHandler_updateDeclaration fun d => .map (findsHandler_requireConstructor d))
      fun b _ => ?_
    split
    · exact .emptyStack (by decide)
    · exact .ite (fun _ => .ok _) fun _ => .mismatch _ _

theorem exists_of_finish_error {declaration : Declaration} {body : Option Block}
    {error : ConversionError} (h : declaration.finish body = .error error) :
    ∃ levels, error = .accessConflict levels := by
  unfold Declaration.finish accessOf at h
  split at h <;> cases h
  exact ⟨_, rfl⟩

/-- What a declaration asks for at its end. -/
def bodyRequirements : List Requirement :=
  .situation (.block true .closed) :: .situation (.block true .unopened) :: refusals

/-- The end of a declaration is refused for the state of its body, for its access levels, or by the
handler around it. -/
theorem error_closeDeclaration {hasBody : Bool} {error : ConversionError}
    (ha : Layered a.handlers a.begun) (h : a.closeDeclaration hasBody = .error error) :
    (∃ levels, error = .accessConflict levels) ∨
      ∃ expected ∈ bodyRequirements, ∃ actual, error = .mismatch expected actual := by
  have hrefused {top : Handler} (h : (Except.error (.mismatch (.situation (.block true
      (if hasBody then .closed else .unopened))) top.situation) : Except ConversionError Assembly) =
        .error error) : ∃ expected ∈ bodyRequirements, ∃ actual, error = .mismatch expected actual := by
    cases h
    refine ⟨_, ?_, _, rfl⟩
    cases hasBody <;> simp [bodyRequirements]
  cases hhandlers : a.handlers with
  | nil => exact absurd hhandlers ha.ne_nil
  | cons top below =>
      simp only [closeDeclaration, hhandlers] at h
      cases top with
      | root elements => exact .inr (hrefused h)
      | chain c => exact .inr (hrefused h)
      | loop w => exact .inr (hrefused h)
      | block b =>
          dsimp only at h
          by_cases hstage : (b.isBody &&
              decide (b.stage = if hasBody then .closed else .unopened)) = true
          · rw [if_pos hstage] at h
            rw [Bool.and_eq_true] at hstage
            -- A body has its declaration, so the declarations are not empty either.
            obtain ⟨_, _, hbegun, hbelow⟩ := (hhandlers ▸ ha).of_body hstage.1
            obtain ⟨d, outer, hdeclarations, -, -⟩ := List.map_eq_cons_iff.mp hbegun
            rw [hdeclarations] at h
            cases hfinish : d.finish (if hasBody then some b.statements else none) with
            | error conflict =>
                simp only [hfinish, Except.error_bind, Except.error.injEq] at h
                exact .inl (h ▸ exists_of_finish_error hfinish)
            | ok e =>
                simp only [hfinish, Except.ok_bind] at h
                obtain ⟨expected, hexpected, hactual⟩ := exists_of_report_error hbelow.ne_nil h
                exact .inr ⟨expected, by simp [bodyRequirements, hexpected], hactual⟩
          · rw [if_neg hstage] at h
            exact .inr (hrefused h)

theorem findsHandler_step (ha : Layered a.handlers a.begun) (event : Event) :
    FindsHandler (a.step event) := by
  have hne := ha.ne_nil
  cases event with
  | openExpression first | openArguments paren | argument first | openIf keyword | openWhile keyword
  | thrown keyword | emptyStatement semicolon | expressionStatement first
  | unsupported place construct | typeName first last | openConstructor first modifiers name
  | comment whole => exact .ok _
  | closeExpression last isEmpty => exact findsHandler_closeExpression hne
  | closeArguments paren => exact findsHandler_closeArguments
  | openBlock first => exact findsHandler_openBlock hne
  | closeBlock last => exact findsHandler_closeBlock ha
  | elseIf keyword =>
      exact .map (findsHandler_updateChain (fun c => .ite (fun _ => .ok _) fun _ => .mismatch _ _) hne)
  | otherwise keyword =>
      exact findsHandler_updateChain (fun c => .ite (fun _ => .ok _) fun _ => .mismatch _ _) hne
  | closeIf last => exact findsHandler_closeIf ha
  | closeWhile last => exact findsHandler_closeWhile ha
  | returned keyword hasValue => exact .ite (fun _ => .ok _) fun _ => findsHandler_report _ hne
  | jumped jump keyword label =>
      show FindsHandler (report _ (.jump jump))
      refine findsHandler_report _ ?_
      split <;> exact hne
  | openVariables first modifiers => exact .bind findsHandler_claimType fun _ _ => .ok _
  | declarator name hasValue =>
      refine .ite (fun _ => .ok _) fun _ => ?_
      split
      · exact .emptyStack (by decide)
      · exact findsHandler_report _ hne
  | closeVariables semicolon =>
      simp only [step, closeVariables]
      split
      · exact .emptyStack (by decide)
      · exact .ok _
  | openMethod first modifiers name => exact .bind findsHandler_claimType fun _ _ => .ok _
  | parameter name ellipsis =>
      exact .bind findsHandler_claimType fun _ _ => findsHandler_updateDeclaration fun _ => .ok _
  | openThrows keyword =>
      simp only [step, openThrows]
      split
      · exact .emptyStack (by decide)
      · exact .ok _
  | closeThrows =>
      simp only [step, closeThrows]
      split
      · exact .emptyStack (by decide)
      · exact .ite (fun _ => .mismatch _ _) fun _ => findsHandler_updateDeclaration fun _ => .ok _
  | delegateCall keyword => exact findsHandler_delegateCall
  | closeDeclaration last hasBody =>
      intro herror
      rcases error_closeDeclaration ha herror with ⟨levels, hlevels⟩ | ⟨expected, -, actual, hmismatch⟩
      · cases hlevels
      · cases hmismatch

theorem exists_of_leftOpen {error : ConversionError} (h : a.leftOpen? = some error) :
    ∃ expected actual, error = .mismatch expected actual := by
  unfold leftOpen? at h
  split at h
  · exact ⟨_, _, (Option.some.inj h).symm⟩
  · exact ⟨_, _, (Option.some.inj h).symm⟩
  · exact ⟨_, _, (Option.some.inj h).symm⟩
  · exact ⟨_, _, (Option.some.inj h).symm⟩
  · split at h
    · cases h
    · exact ⟨_, _, (Option.some.inj h).symm⟩

theorem findsHandler_finish (ha : Layered a.handlers a.begun) : FindsHandler a.finish := by
  unfold finish
  split
  · next error _ hopen =>
      obtain ⟨expected, actual, rfl⟩ := exists_of_leftOpen hopen
      exact .mismatch expected actual
  · exact .ok _
  · exact .mismatch _ _
  · next hnone => exact absurd hnone ha.ne_nil

end Assembly

end CodeFrames
