import CodeFrames.Proofs.Ledger

/-!
# The comment that a declaration could claim

An event other than a comment keeps the pending comment or drops it, and only the events that begin or
end a declaration change which documentations the open declarations have.
-/

namespace CodeFrames

namespace Event

/-- The comment that is reported. -/
def comment? : Event → Option Span
  | .comment whole => some whole
  | _ => none

/-- The event begins or ends a declaration. -/
def declares : Event → Bool
  | .openMethod _ _ _ | .openConstructor _ _ _ | .closeDeclaration _ _ => true
  | _ => false

end Event

namespace Assembly

/-- The documentations of the open declarations, the innermost first. -/
def openDocumentations (a : Assembly) : List (Option Text) := a.declarations.map (·.documentation)

/-- The modifiers of the open declarations, the innermost first. -/
def openModifiers (a : Assembly) : List (List Text) := a.declarations.map (·.modifiers)

/-- What an event changes neither of the source nor of the open declarations, and does to the pending
comment at most that it drops it. -/
structure Keeps (a b : Assembly) : Prop where
  source_eq : b.source = a.source
  options_eq : b.options = a.options
  documentations_eq : b.openDocumentations = a.openDocumentations
  modifiers_eq : b.openModifiers = a.openModifiers
  comment : b.comment = a.comment ∨ b.comment = none

variable {a b : Assembly}

/-! ## Steps and runs -/

theorem openDocumentations_eq (a : Assembly) : a.openDocumentations = a.begun.map (·.documentation) := by
  rw [openDocumentations, begun, List.map_map]
  rfl

theorem openModifiers_eq (a : Assembly) : a.openModifiers = a.begun.map (·.modifiers) := by
  rw [openModifiers, begun, List.map_map]
  rfl

theorem keeps_of_ledger {comment : Option Text} {warnings : List Warning}
    (h : b.ledger = { a.ledger with comment, warnings }) (hcomment : comment = a.comment ∨ comment = none) :
    a.Keeps b := by
  obtain ⟨hsource, hoptions, hbegun, hpending, -⟩ := Ledger.mk.inj h
  refine ⟨hsource, hoptions, ?_, ?_, hpending ▸ hcomment⟩
  · rw [openDocumentations_eq, hbegun, openDocumentations_eq]
    rfl
  · rw [openModifiers_eq, hbegun, openModifiers_eq]
    rfl

theorem keeps_report {e : Element} (h : a.report e = .ok b) : a.Keeps b :=
  keeps_of_ledger (ledger_report h) (.inr rfl)

theorem keeps_claimType {type : Fragment} (h : a.claimType = .ok (type, b)) : a.Keeps b := by
  obtain ⟨types, -, rfl⟩ := exists_of_claimType h
  exact ⟨rfl, rfl, rfl, rfl, .inl rfl⟩

theorem commentAfter_of_none {event : Event} (h : event.comment? = none) :
    a.commentAfter event = if a.drops event then none else a.comment := by
  cases event <;> first | rfl | cases h

theorem begunAfter_of_not_declares {event : Event} (h : event.declares = false) :
    a.begunAfter event = a.begun := by
  cases event <;> first | rfl | cases h

theorem keeps_step {event : Event} (h : a.step event = .ok b) (hcomment : event.comment? = none)
    (hdeclares : event.declares = false) : a.Keeps b := by
  have hledger : b.ledger = { a.ledger with
      comment := a.commentAfter event
      warnings := a.warnings ++ a.raised event } := by
    rw [ledger_step h, begunAfter_of_not_declares hdeclares]
    rfl
  refine keeps_of_ledger hledger ?_
  rw [commentAfter_of_none hcomment]
  split <;> simp

/-- The comment that is pending behind some events unless one of them drops it. -/
def pendingAfter (a : Assembly) (events : List Event) : Option Text :=
  ((events.filterMap Event.comment?).getLast?.map fun whole =>
    plainComment a.options.commentWidth (a.textOf whole)).or a.comment

theorem pendingAfter_append (hsource : b.source = a.source) (hoptions : b.options = a.options)
    (events more : List Event) :
    a.pendingAfter (events ++ more) =
      ((more.filterMap Event.comment?).getLast?.map fun whole =>
        plainComment b.options.commentWidth (b.textOf whole)).or (a.pendingAfter events) := by
  have htext : b.textOf = a.textOf := by
    funext s
    rw [textOf, textOf, hsource]
  rw [pendingAfter, pendingAfter, hoptions, htext, List.filterMap_append, List.getLast?_append,
    Option.map_or, Option.or_assoc]

/-- What a run does to the source, to the options and to the pending comment. -/
structure Follows (a : Assembly) (events : List Event) (b : Assembly) : Prop where
  source_eq : b.source = a.source
  options_eq : b.options = a.options
  comment : b.comment = a.pendingAfter events ∨ b.comment = none

theorem Follows.append {events more : List Event} {c : Assembly} (h : a.Follows events b)
    (g : b.Follows more c) : a.Follows (events ++ more) c where
  source_eq := g.source_eq.trans h.source_eq
  options_eq := g.options_eq.trans h.options_eq
  comment := by
    rw [pendingAfter_append h.source_eq h.options_eq events more]
    rcases g.comment with hg | hg
    · rw [hg, pendingAfter]
      rcases h.comment with hcomment | hcomment
      · exact .inl (by rw [hcomment])
      · cases (more.filterMap Event.comment?).getLast? with
        | none => exact .inr (by simp [hcomment])
        | some whole => exact .inl rfl
    · exact .inr hg

theorem follows_step {event : Event} (h : a.step event = .ok b) : a.Follows [event] b := by
  obtain ⟨hsource, hoptions, -, hcomment, -⟩ := Ledger.mk.inj (ledger_step h)
  refine ⟨hsource, hoptions, ?_⟩
  rw [hcomment]
  cases hreported : event.comment? with
  | none =>
      rw [commentAfter_of_none hreported]
      split <;> simp [pendingAfter, hreported]
  | some whole =>
      cases event <;> cases hreported
      exact .inl rfl

theorem follows_run {events : List Event} (h : a.run events = .ok b) : a.Follows events b := by
  induction events generalizing a with
  | nil =>
      cases h
      exact ⟨rfl, rfl, .inl rfl⟩
  | cons event events ih =>
      obtain ⟨next, hstep, hrest⟩ := Except.exists_of_bind h
      exact (follows_step hstep).append (ih hrest)

/-! ## Documentations -/

/-- A run in which no declaration begins or ends leaves the open declarations as they are. -/
theorem openDocumentations_run {events : List Event} (h : a.run events = .ok b)
    (hplain : ∀ e ∈ events, e.declares = false) : b.openDocumentations = a.openDocumentations := by
  induction events generalizing a with
  | nil =>
      cases h
      rfl
  | cons event events ih =>
      obtain ⟨next, hstep, hrest⟩ := Except.exists_of_bind h
      rw [ih hrest fun e he => hplain e (List.mem_cons_of_mem _ he)]
      cases hcomment : event.comment? with
      | none => exact (keeps_step hstep hcomment (hplain event List.mem_cons_self)).documentations_eq
      | some whole =>
          cases event <;> cases hcomment
          cases hstep
          rfl

end Assembly

/-- The documentation of a declaration. -/
def Element.documentation? : Element → Option (Option Text)
  | .method documentation _ _ _ _ _ _ _ _ => some documentation
  | .abstractMethod documentation _ _ _ _ _ => some documentation
  | .constructor documentation _ _ _ _ _ => some documentation
  | _ => none

/-- The documentations of the declarations among some elements. -/
def documentations (elements : List Element) : List (Option Text) :=
  elements.filterMap Element.documentation?

theorem documentations_append (elements others : List Element) :
    documentations (elements ++ others) = documentations elements ++ documentations others :=
  List.filterMap_append

theorem Declaration.documentation?_finish {d : Declaration} {body : Option Block} {e : Element}
    (h : d.finish body = .ok e) : e.documentation? = some d.documentation := by
  obtain ⟨access, -, rfl⟩ := Except.exists_of_map h
  unfold Declaration.element
  split <;> rfl

namespace Assembly

variable {a b : Assembly}

theorem documentation?_statementElement (text : Text) :
    (statementElement text).documentation? = none := by
  unfold statementElement
  split <;> rfl

theorem documentation?_chain {chain : OpenChain} {e : Element}
    (h : chain.finish.toOption = some e) : e.documentation? = none := by
  unfold OpenChain.finish at h
  split at h
  · split at h <;> cases h
    rfl
  · cases h

theorem documentation?_loop {loop : OpenLoop} {e : Element} (h : loop.finish.toOption = some e) :
    e.documentation? = none := by
  unfold OpenLoop.finish OpenLoop.require at h
  split at h <;> cases h
  rfl

theorem documentation?_variable {headers : List VariableHeader} {name : Fragment}
    {value : Option Fragment} {e : Element}
    (h : headers.head?.map (·.element name value) = some e) : e.documentation? = none := by
  obtain ⟨header, -, rfl⟩ := Option.map_eq_some_iff.mp h
  rfl

theorem documentation?_fulfilled? {use : ExpressionUse} {text : Text} {e : Element}
    (h : a.fulfilled? use text = some e) : e.documentation? = none := by
  cases use with
  | statement =>
      cases h
      exact documentation?_statementElement text
  | initializer name => exact documentation?_variable h
  | returnValue | thrown =>
      cases h
      rfl
  | ifCondition | elseIfCondition | whileCondition | argument | discarded => cases h

/-- Only the end of a declaration completes one. -/
theorem documentation?_completed? {event : Event} {e : Element} (h : a.completed? event = some e)
    (hdeclares : event.declares = false) : e.documentation? = none := by
  cases event with
  | returned keyword hasValue =>
      cases hasValue <;> cases h
      rfl
  | jumped jump keyword label =>
      cases h
      rfl
  | declarator name hasValue =>
      cases hasValue with
      | false => exact documentation?_variable h
      | true => cases h
  | closeExpression last isEmpty =>
      obtain ⟨x, -, h⟩ := Option.bind_eq_some_iff.mp h
      split at h
      · exact documentation?_fulfilled? h
      · cases h
  | closeIf last =>
      simp only [completed?] at h
      split at h
      · exact documentation?_chain h
      · cases h
  | closeWhile last =>
      simp only [completed?] at h
      split at h
      · exact documentation?_loop h
      · cases h
  | closeDeclaration last hasBody => cases hdeclares
  | _ => cases h

/-- A run in which no declaration ends completes none. -/
theorem documentations_completions {events : List Event} (h : a.run events = .ok b)
    (hplain : ∀ e ∈ events, e.declares = false) : documentations (a.completions events) = [] := by
  induction events generalizing a with
  | nil => rfl
  | cons event events ih =>
      obtain ⟨next, hstep, hrest⟩ := Except.exists_of_bind h
      rw [completions_cons_of_ok events hstep, documentations_append,
        ih hrest fun e he => hplain e (List.mem_cons_of_mem _ he), List.append_nil]
      cases hcompleted : a.completed? event with
      | none => rfl
      | some e =>
          have hnone := documentation?_completed? hcompleted (hplain event List.mem_cons_self)
          simp [documentations, hnone]

/-- The end of a declaration completes the innermost one that is open. -/
theorem documentation_closeDeclaration {last : Span} {hasBody : Bool}
    (h : a.step (.closeDeclaration last hasBody) = .ok b) :
    ∃ documentation, a.openDocumentations = documentation :: b.openDocumentations ∧
      documentations (a.completions [.closeDeclaration last hasBody]) = [documentation] := by
  obtain ⟨body, below, d, outer, e, hhandlers, hdeclarations, -, -, he, hreport⟩ :=
    exists_of_closeDeclaration h
  refine ⟨d.documentation, ?_, ?_⟩
  · rw [(keeps_report hreport).documentations_eq]
    simp [openDocumentations, hdeclarations, warnModifiers]
  · have hcompleted : a.completed? (.closeDeclaration last hasBody) = some e := by
      simp [completed?, hhandlers, hdeclarations, he, Except.toOption]
    rw [completions_cons_of_ok [] h, hcompleted]
    simp [documentations, Declaration.documentation?_finish he, completions, history]

theorem completions_append {events : List Event} (h : a.run events = .ok b) (more : List Event) :
    a.completions (events ++ more) = a.completions events ++ b.completions more := by
  induction events generalizing a with
  | nil =>
      cases h
      rfl
  | cons event events ih =>
      obtain ⟨next, hstep, hrest⟩ := Except.exists_of_bind h
      rw [List.cons_append, completions_cons_of_ok _ hstep, completions_cons_of_ok _ hstep,
        ih hrest, List.append_assoc]

/-- From the header of a declaration to its end, with nothing declared in it, one declaration is
completed, and its documentation is the comment that was pending at the header. -/
theorem documentations_declaration {opening : Event} {inside : List Event} {last : Span}
    {hasBody : Bool} {c : Assembly}
    (hopening : a.step opening = .ok b) (hdocumented : b.openDocumentations = a.comment :: a.openDocumentations)
    (hcompleted : a.completed? opening = none)
    (hplain : ∀ e ∈ inside, e.declares = false)
    (h : b.run (inside ++ [.closeDeclaration last hasBody]) = .ok c) :
    documentations (a.completions (opening :: (inside ++ [.closeDeclaration last hasBody]))) =
        [a.comment] ∧ c.openDocumentations = a.openDocumentations := by
  rw [run_append] at h
  obtain ⟨d, hinside, hclose⟩ := Except.exists_of_bind h
  rw [run_singleton] at hclose
  obtain ⟨documentation, hopen, hone⟩ := documentation_closeDeclaration hclose
  rw [openDocumentations_run hinside hplain, hdocumented, List.cons.injEq] at hopen
  refine ⟨?_, hopen.2.symm⟩
  rw [completions_cons_of_ok _ hopening, hcompleted, completions_append hinside, Option.toList_none,
    List.nil_append, documentations_append, documentations_completions hinside hplain, hone, hopen.1,
    List.nil_append]

end Assembly

end CodeFrames
