import CodeFrames.Proofs.PostOrder

/-!
# What a step enters into the books

Besides the handlers, which hold the elements, an assembly keeps the open declarations, the pending
comment and the warnings.  What one event does to these is said once, for all events; what holds of a
whole run follows from it.
-/

namespace CodeFrames

/-! ## What is kept -/

/-- The declaration as it was when it began, before its parameters, its throws clause and its call of
another constructor were known. -/
def Declaration.begun (d : Declaration) : Declaration :=
  .start d.header d.modifiers d.documentation d.line

def Declaration.owner (d : Declaration) : ModifierOwner :=
  if d.isConstructor then .constructors else .methods

/-- The part of an assembly that comments, modifiers and warnings are about. -/
structure Ledger where
  source : Text
  options : Options
  begun : List Declaration
  comment : Option Text
  warnings : List Warning

/-- The event ends a block or stands for a statement without an element, or it begins a declaration. -/
def Event.drops : Event → Bool
  | .closeBlock _ | .emptyStatement _ | .unsupported _ _ | .openMethod _ _ _
  | .openConstructor _ _ _ => true
  | _ => false

namespace Assembly

/-- The open declarations as they began, the innermost first. -/
def begun (a : Assembly) : List Declaration := a.declarations.map Declaration.begun

def ledger (a : Assembly) : Ledger := ⟨a.source, a.options, a.begun, a.comment, a.warnings⟩

/-- The pending comment belongs to no declaration behind the event. -/
def drops (a : Assembly) (e : Event) : Bool := e.drops || a.completes e

def commentAfter (a : Assembly) : Event → Option Text
  | .comment whole => some (plainComment a.options.commentWidth (a.textOf whole))
  | e => if a.drops e then none else a.comment

/-- The declaration that an event begins. -/
def begins? (a : Assembly) : Event → Option Declaration
  | .openMethod first modifiers name =>
      a.types.head?.map fun type =>
        .start (.method type (.name (a.textOf name))) (modifiers.map a.textOf) a.comment first.line
  | .openConstructor first modifiers _ =>
      some (.start .constructor (modifiers.map a.textOf) a.comment first.line)
  | _ => none

def begunAfter (a : Assembly) : Event → List Declaration
  | .closeDeclaration _ _ => a.begun.tail
  | e => (a.begins? e).toList ++ a.begun

/-- The warnings that an event gives rise to. -/
def raised (a : Assembly) : Event → List Warning
  | .unsupported place construct => [⟨place.line, .construct construct⟩]
  | .jumped jump keyword (some label) => [⟨keyword.line, .label jump (a.textOf label)⟩]
  | .parameter name (some _) =>
      a.types.head?.toList.map fun type => ⟨name.line, .variableArity (a.textOf name) type.text⟩
  | .openVariables first modifiers =>
      (withoutWords ["final".toList] (modifiers.map a.textOf)).map fun m =>
        ⟨first.line, .modifier m .locals⟩
  | .closeDeclaration _ hasBody =>
      a.begun.head?.toList.flatMap fun d =>
        (d.leftovers hasBody).map fun m => ⟨d.line, .modifier m d.owner⟩
  | _ => []

variable {a b : Assembly}

/-! ## Parts of events -/

theorem ledger_report {e : Element} (h : a.report e = .ok b) :
    b.ledger = { a.ledger with comment := none } := by
  unfold report at h
  split at h
  · cases h
  · obtain ⟨top, -, rfl⟩ := Except.exists_of_map h
    rfl

theorem ledger_reports {elements : Block} (h : elements.foldlM report a = .ok b)
    (hcomment : a.comment = none) : b.ledger = a.ledger := by
  induction elements generalizing a with
  | nil =>
      obtain rfl : a = b := by simpa [pure, Except.pure] using h
      rfl
  | cons e elements ih =>
      rw [List.foldlM_cons] at h
      obtain ⟨next, hreport, hrest⟩ := Except.exists_of_bind h
      have hnext := ledger_report hreport
      rw [ih hrest (congrArg Ledger.comment hnext), hnext, ledger, hcomment]

theorem exists_of_claimType {type : Fragment} (h : a.claimType = .ok (type, b)) :
    ∃ types, a.types = type :: types ∧ b = { a with types } := by
  unfold claimType at h
  split at h
  · cases h
  · next first types htypes =>
      cases h
      exact ⟨types, htypes, rfl⟩

theorem ledger_updateChain {f : OpenChain → Except ConversionError OpenChain}
    (h : a.updateChain f = .ok b) : b.ledger = a.ledger := by
  unfold updateChain at h
  split at h
  · cases h
  · obtain ⟨chain, -, rfl⟩ := Except.exists_of_map h
    rfl
  · cases h

theorem ledger_updateDeclaration {f : Declaration → Except ConversionError Declaration}
    (hf : ∀ {d d' : Declaration}, f d = .ok d' → d'.begun = d.begun)
    (h : a.updateDeclaration f = .ok b) : b.ledger = a.ledger := by
  unfold updateDeclaration at h
  split at h
  · cases h
  · next top below hdeclarations =>
      obtain ⟨d, hd, rfl⟩ := Except.exists_of_map h
      simp [ledger, begun, hdeclarations, hf hd]

theorem ledger_fulfil {use : ExpressionUse} {text : Text} (h : a.fulfil use text = .ok b) :
    b.ledger = { a.ledger with comment := if use.makesElement then none else a.comment } := by
  cases use with
  | ifCondition | whileCondition | discarded =>
      cases h
      rfl
  | elseIfCondition => exact ledger_updateChain h
  | returnValue | statement | thrown => exact ledger_report h
  | initializer name =>
      simp only [fulfil] at h
      split at h
      · cases h
      · exact ledger_report h
  | argument =>
      simp only [fulfil] at h
      split at h <;> cases h
      rfl

/-! ## Events -/

theorem ledger_closeExpression {last : Span} {isEmpty : Bool}
    (h : a.closeExpression last isEmpty = .ok b) :
    b.ledger = { a.ledger with
      comment := if a.completes (.closeExpression last isEmpty) then none else a.comment } := by
  unfold closeExpression at h
  cases hexpressions : a.expressions with
  | nil =>
      simp only [hexpressions, Except.ok.injEq] at h
      subst h
      simp [completes, hexpressions, ledger]
  | cons x below =>
      simp only [hexpressions] at h
      obtain ⟨⟨y, ended⟩, hclosed, h⟩ := Except.exists_of_bind h
      cases ended with
      | none =>
          cases h
          simp [completes, hexpressions, closed_none hclosed, ledger, begun]
      | some text =>
          obtain ⟨hdepth, huse⟩ := closed_text hclosed
          rw [ledger_fulfil h]
          simp [completes, hexpressions, hdepth, huse, ledger, begun]

theorem ledger_closeArguments (h : a.closeArguments = .ok b) : b.ledger = a.ledger := by
  unfold closeArguments at h
  split at h
  · cases h
    rfl
  · obtain ⟨list, -, h⟩ := Except.exists_of_bind h
    split at h
    · refine (ledger_updateDeclaration ?_ h :)
      intro d d' hd
      obtain ⟨u, -, hd⟩ := Except.exists_of_bind hd
      cases hd
      rfl
    · cases h
      rfl

theorem ledger_openBlock (h : a.openBlock = .ok b) : b.ledger = a.ledger := by
  unfold openBlock at h
  cases hhandlers : a.handlers with
  | nil => simp [hhandlers] at h
  | cons top below =>
    simp only [hhandlers] at h
    have hnested (h : (if top.collects = true then
          Except.ok { a with handlers := .block .nested :: top :: below }
        else Except.error (ConversionError.mismatch .readyForBlock top.situation)) = .ok b) :
        b.ledger = a.ledger := by
      split at h <;> cases h
      rfl
    cases top with
    | root elements => exact hnested h
    | block body =>
        simp only at h
        split at h
        · cases h
          rfl
        · exact hnested h
    | chain c =>
        simp only at h
        split at h
        · obtain ⟨d, -, rfl⟩ := Except.exists_of_map h
          rfl
        · exact hnested h
    | loop w =>
        simp only at h
        split at h
        · obtain ⟨d, -, rfl⟩ := Except.exists_of_map h
          rfl
        · exact hnested h

/-- The end of a block drops the pending comment, also where the block hands on what it holds. -/
theorem ledger_closeBlock (h : a.closeBlock = .ok b) :
    b.ledger = { a.ledger with comment := none } := by
  unfold closeBlock at h
  split at h
  · cases h
  · dsimp only at h
    split at h
    · split at h
      · split at h
        · cases h
          rfl
        · exact (ledger_reports h rfl :)
      · cases h
    · obtain ⟨d, -, rfl⟩ := Except.exists_of_map h
      rfl
    · obtain ⟨d, -, rfl⟩ := Except.exists_of_map h
      rfl
    · cases h

theorem ledger_closeIf (h : a.closeIf = .ok b) : b.ledger = { a.ledger with comment := none } := by
  unfold closeIf at h
  split at h
  · cases h
  · obtain ⟨e, -, h⟩ := Except.exists_of_bind h
    exact (ledger_report h :)
  · cases h

theorem ledger_closeWhile (h : a.closeWhile = .ok b) :
    b.ledger = { a.ledger with comment := none } := by
  unfold closeWhile at h
  split at h
  · cases h
  · obtain ⟨e, -, h⟩ := Except.exists_of_bind h
    exact (ledger_report h :)
  · cases h

theorem ledger_openVariables {first : Span} {modifiers : List Span}
    (h : a.openVariables first modifiers = .ok b) :
    b.ledger = { a.ledger with
      warnings := a.warnings ++ a.raised (.openVariables first modifiers) } := by
  obtain ⟨⟨type, c⟩, hclaim, h⟩ := Except.exists_of_bind h
  obtain ⟨types, -, rfl⟩ := exists_of_claimType hclaim
  cases h
  rfl

theorem ledger_declarator {name : Span} {hasValue : Bool} (h : a.declarator name hasValue = .ok b) :
    b.ledger = { a.ledger with comment := if hasValue then a.comment else none } := by
  unfold declarator at h
  dsimp only at h
  cases hasValue with
  | true =>
      cases h
      rfl
  | false =>
      rw [if_neg (by simp)] at h
      split at h
      · cases h
      · exact ledger_report h

theorem ledger_parameter {name : Span} {ellipsis : Option Span}
    (h : a.parameter name ellipsis = .ok b) :
    b.ledger = { a.ledger with warnings := a.warnings ++ a.raised (.parameter name ellipsis) } := by
  obtain ⟨⟨type, c⟩, hclaim, h⟩ := Except.exists_of_bind h
  obtain ⟨types, htypes, rfl⟩ := exists_of_claimType hclaim
  refine (ledger_updateDeclaration ?_ h).trans ?_
  · intro d d' hd
    cases hd
    rfl
  · cases ellipsis with
    | none => simp [raised, ledger, begun]
    | some ellipsis => simp [raised, htypes, ledger, begun, warn, textOf]

theorem ledger_closeThrows (h : a.closeThrows = .ok b) : b.ledger = a.ledger := by
  unfold closeThrows at h
  split at h
  · cases h
  · dsimp only at h
    split at h
    · cases h
    · refine (ledger_updateDeclaration ?_ h :)
      intro d d' hd
      cases hd
      rfl

theorem ledger_delegateCall {keyword : Span} (h : a.delegateCall keyword = .ok b) :
    b.ledger = a.ledger := by
  unfold delegateCall at h
  dsimp only at h
  split at h
  · cases h
  · obtain ⟨c, hupdate, h⟩ := Except.exists_of_bind h
    have hledger : c.ledger = a.ledger := by
      refine ledger_updateDeclaration ?_ hupdate
      intro d d' hd
      obtain ⟨u, -, rfl⟩ := Except.exists_of_map hd
      rfl
    split at h
    · cases h
    · split at h <;> cases h
      exact hledger

theorem ledger_closeDeclaration {last : Span} {hasBody : Bool}
    (h : a.closeDeclaration hasBody = .ok b) :
    b.ledger = { a.ledger with
      begun := a.begun.tail
      comment := none
      warnings := a.warnings ++ a.raised (.closeDeclaration last hasBody) } := by
  obtain ⟨body, below, d, outer, e, -, hdeclarations, -, -, -, hreport⟩ := exists_of_closeDeclaration h
  rw [ledger_report hreport]
  simp only [ledger, begun, raised, warnModifiers, hdeclarations, List.map_cons, List.tail_cons,
    List.head?_cons, Option.toList_some, List.flatMap_singleton]
  rfl

/-! ## Steps and runs -/

/-- What an event does that begins and ends no declaration and gives rise to no warning. -/
theorem ledger_of_quiet {event : Event} (hbegun : a.begunAfter event = a.begun)
    (hraised : a.raised event = [])
    (h : b.ledger = { a.ledger with comment := a.commentAfter event }) :
    b.ledger = ⟨a.source, a.options, a.begunAfter event, a.commentAfter event,
      a.warnings ++ a.raised event⟩ := by
  rw [h, hbegun, hraised, List.append_nil]
  rfl

/-- What a step does to everything but the handlers. -/
theorem ledger_step {event : Event} (h : a.step event = .ok b) :
    b.ledger = ⟨a.source, a.options, a.begunAfter event, a.commentAfter event,
      a.warnings ++ a.raised event⟩ := by
  cases event with
  | openExpression first =>
      refine ledger_of_quiet rfl rfl ?_
      cases h
      unfold openExpression
      split <;> rfl
  | closeExpression last isEmpty => exact ledger_of_quiet rfl rfl (ledger_closeExpression h)
  | openArguments paren =>
      refine ledger_of_quiet rfl rfl ?_
      cases h
      unfold openArguments
      split <;> rfl
  | argument first =>
      refine ledger_of_quiet rfl rfl ?_
      cases h
      unfold argument
      split
      · rfl
      · split <;> rfl
  | closeArguments paren => exact ledger_of_quiet rfl rfl (ledger_closeArguments h)
  | openBlock first => exact ledger_of_quiet rfl rfl (ledger_openBlock h)
  | closeBlock last => exact ledger_of_quiet rfl rfl (ledger_closeBlock h)
  | openIf keyword | openWhile keyword | thrown keyword | expressionStatement first
  | typeName first last | emptyStatement semicolon | comment whole =>
      cases h
      exact ledger_of_quiet rfl rfl rfl
  | elseIf keyword =>
      obtain ⟨c, hupdate, rfl⟩ := Except.exists_of_map h
      have hledger : (c.await .elseIfCondition).ledger = c.ledger := rfl
      exact ledger_of_quiet rfl rfl (hledger.trans (ledger_updateChain hupdate))
  | otherwise keyword => exact ledger_of_quiet rfl rfl (ledger_updateChain h)
  | closeIf last => exact ledger_of_quiet rfl rfl (ledger_closeIf h)
  | closeWhile last => exact ledger_of_quiet rfl rfl (ledger_closeWhile h)
  | returned keyword hasValue =>
      cases hasValue with
      | true =>
          cases h
          exact ledger_of_quiet rfl rfl rfl
      | false => exact ledger_of_quiet rfl rfl (ledger_report h)
  | jumped jump keyword label =>
      cases label with
      | none => exact ledger_of_quiet rfl rfl (ledger_report h)
      | some label => exact ledger_report h
  | unsupported place construct =>
      cases h
      rfl
  | openVariables first modifiers => exact ledger_openVariables h
  | declarator name hasValue =>
      refine ledger_of_quiet rfl rfl ((ledger_declarator h).trans ?_)
      cases hasValue <;> rfl
  | closeVariables semicolon =>
      refine ledger_of_quiet rfl rfl ?_
      simp only [step, closeVariables] at h
      split at h <;> cases h
      rfl
  | openMethod first modifiers name =>
      obtain ⟨⟨type, c⟩, hclaim, h⟩ := Except.exists_of_bind h
      obtain ⟨types, htypes, rfl⟩ := exists_of_claimType hclaim
      cases h
      simp only [begunAfter, begins?, htypes, raised, List.append_nil]
      rfl
  | openConstructor first modifiers name =>
      cases h
      simp only [raised, List.append_nil]
      rfl
  | parameter name ellipsis => exact ledger_parameter h
  | openThrows keyword =>
      refine ledger_of_quiet rfl rfl ?_
      simp only [step, openThrows] at h
      split at h <;> cases h
      rfl
  | closeThrows => exact ledger_of_quiet rfl rfl (ledger_closeThrows h)
  | delegateCall keyword => exact ledger_of_quiet rfl rfl (ledger_delegateCall h)
  | closeDeclaration last hasBody => exact ledger_closeDeclaration h

end Assembly

end CodeFrames
