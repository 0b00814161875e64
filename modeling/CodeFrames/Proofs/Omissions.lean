import CodeFrames.Proofs.Ledger
import Mathlib.Algebra.GroupWithZero.Nat

/-!
# What is left out

Every detail that a frame cannot show is reported once.  Which details these are can be read off the
events: an unsupported construct, a label, and a variable arity where they stand, and the modifiers of a
declaration that its element does not show where the declaration ends.  The warnings of a run are the
omissions of its events in that order, and a later event neither removes nor moves one.
-/

namespace CodeFrames

/-! ## Headings -/

/-- What the modifiers in front of a declaration belong to, and the line that the declaration begins
on. -/
structure Heading where
  owner : ModifierOwner
  line : Nat
  modifiers : List Text

/-- The heading that begins with a token and has some modifiers. -/
def Heading.of (source : Text) (owner : ModifierOwner) (first : Span) (modifiers : List Span) :
    Heading :=
  ⟨owner, first.line, modifiers.map (·.textIn source)⟩

/-- The words for access levels. -/
def accessWords : List Text := ["public".toList, "protected".toList, "private".toList]

/-- The modifiers that an element shows. -/
def shownModifiers (owner : ModifierOwner) (hasBody : Bool) : List Text :=
  match owner, hasBody with
  | .locals, _ => ["final".toList]
  | .constructors, _ => accessWords
  | .methods, true => accessWords ++ ["static".toList, "final".toList]
  | .methods, false => accessWords ++ ["abstract".toList]

namespace Heading

/-- The modifiers that the element does not show, in their order and with their repetitions. -/
def unshown (h : Heading) (hasBody : Bool) : List Text :=
  h.modifiers.filter fun m => !(shownModifiers h.owner hasBody).contains m

/-- One warning for each modifier that is not shown, with the line of the heading. -/
def omissions (h : Heading) (hasBody : Bool) : List Warning :=
  (h.unshown hasBody).map fun m => ⟨h.line, .modifier m h.owner⟩

end Heading

namespace Event

def heading? (source : Text) : Event → Option Heading
  | .openVariables first modifiers => some (.of source .locals first modifiers)
  | .openMethod first modifiers _ => some (.of source .methods first modifiers)
  | .openConstructor first modifiers _ => some (.of source .constructors first modifiers)
  | _ => none

/-- The heading that an event is the last word on, and whether a body came with it: the heading of
variables at once, and that of a method or constructor where the declaration ends. -/
def settled (source : Text) (waiting : List Heading) : Event → List (Heading × Bool)
  | .openVariables first modifiers => [(.of source .locals first modifiers, false)]
  | .closeDeclaration _ hasBody => waiting.head?.toList.map fun h => (h, hasBody)
  | _ => []

/-- The headings of the open methods and constructors behind the event, the innermost first. -/
def waiting (source : Text) (waiting : List Heading) : Event → List Heading
  | .openMethod first modifiers _ => .of source .methods first modifiers :: waiting
  | .openConstructor first modifiers _ =>
      .of source .constructors first modifiers :: waiting
  | .closeDeclaration _ _ => waiting.tail
  | _ => waiting

/-- What an event leaves out.  The type of a variable-arity parameter is not part of it. -/
def omissions (source : Text) (waiting : List Heading) : Event → List Warning
  | .unsupported place construct => [⟨place.line, .construct construct⟩]
  | .jumped jump keyword (some label) => [⟨keyword.line, .label jump (label.textIn source)⟩]
  | .parameter name (some _) => [⟨name.line, .variableArity (name.textIn source) []⟩]
  | e => (e.settled source waiting).flatMap fun (h, hasBody) => h.omissions hasBody

def isUnsupported : Event → Bool
  | .unsupported _ _ => true
  | _ => false

def isLabelled : Event → Bool
  | .jumped _ _ (some _) => true
  | _ => false

def isVariableArity : Event → Bool
  | .parameter _ (some _) => true
  | _ => false

end Event

/-- The headings among some events, each where the last word on it is said. -/
def settledHeadings (source : Text) : List Heading → List Event → List (Heading × Bool)
  | _, [] => []
  | waiting, e :: events =>
      e.settled source waiting ++ settledHeadings source (e.waiting source waiting) events

/-- What some events leave out, while some declarations are open. -/
def omissions (source : Text) : List Heading → List Event → List Warning
  | _, [] => []
  | waiting, e :: events =>
      e.omissions source waiting ++ omissions source (e.waiting source waiting) events

def waitingAfter (source : Text) (waiting : List Heading) (events : List Event) : List Heading :=
  events.foldl (fun waiting e => e.waiting source waiting) waiting

/-! ## Counting -/

theorem length_omissions_event (source : Text) (waiting : List Heading) (e : Event) :
    (e.omissions source waiting).length =
      [e].countP Event.isUnsupported + [e].countP Event.isLabelled + [e].countP Event.isVariableArity +
        ((e.settled source waiting).map fun (h, hasBody) => (h.unshown hasBody).length).sum := by
  cases e with
  | unsupported place construct => rfl
  | jumped jump keyword label => cases label <;> rfl
  | parameter name ellipsis => cases ellipsis <;> rfl
  | _ => simp [Event.omissions, Heading.omissions, Event.isUnsupported, Event.isLabelled,
      Event.isVariableArity, List.length_flatMap]

theorem length_omissions (source : Text) (waiting : List Heading) (events : List Event) :
    (omissions source waiting events).length =
      events.countP Event.isUnsupported + events.countP Event.isLabelled +
        events.countP Event.isVariableArity +
        ((settledHeadings source waiting events).map fun (h, hasBody) => (h.unshown hasBody).length).sum := by
  induction events generalizing waiting with
  | nil => rfl
  | cons e events ih =>
      have hcount (p : Event → Bool) : (e :: events).countP p = [e].countP p + events.countP p := by
        rw [← List.countP_append]
        rfl
      rw [omissions, settledHeadings, List.length_append, ih, length_omissions_event, List.map_append,
        List.sum_append, hcount, hcount, hcount]
      omega

theorem settled_perm (source : Text) (waiting : List Heading) (e : Event) :
    ((e.settled source waiting).map Prod.fst ++ e.waiting source waiting).Perm
      (waiting ++ (e.heading? source).toList) := by
  cases e with
  | openVariables first modifiers => exact List.perm_append_comm
  | openMethod first modifiers name => exact (List.perm_append_singleton _ waiting).symm
  | openConstructor first modifiers name => exact (List.perm_append_singleton _ waiting).symm
  | closeDeclaration last hasBody => cases waiting <;> simp [Event.settled, Event.waiting, Event.heading?]
  | _ => simp [Event.settled, Event.waiting, Event.heading?]

/-- Each heading is settled once unless its declaration is still open. -/
theorem settledHeadings_perm (source : Text) (waiting : List Heading) (events : List Event) :
    ((settledHeadings source waiting events).map Prod.fst ++ waitingAfter source waiting events).Perm
      (waiting ++ events.filterMap (Event.heading? source)) := by
  induction events generalizing waiting with
  | nil => simp [settledHeadings, waitingAfter]
  | cons e events ih =>
      have hheadings : (e :: events).filterMap (Event.heading? source) =
          (e.heading? source).toList ++ events.filterMap (Event.heading? source) := by
        cases h : e.heading? source <;> simp [h]
      rw [settledHeadings, waitingAfter, List.foldl_cons, ← waitingAfter, List.map_append,
        List.append_assoc, hheadings, ← List.append_assoc waiting]
      have hrest := (ih (e.waiting source waiting)).append_left ((e.settled source waiting).map Prod.fst)
      rw [← List.append_assoc _ (e.waiting source waiting)] at hrest
      exact hrest.trans ((settled_perm source waiting e).append_right _)

/-! ## Warnings -/

/-- A warning without the type that is named for a variable-arity parameter. -/
def Warning.withoutType (w : Warning) : Warning :=
  match w.omission with
  | .variableArity name _ => ⟨w.line, .variableArity name []⟩
  | _ => w

def Declaration.heading (d : Declaration) : Heading := ⟨d.owner, d.line, d.modifiers⟩

theorem Declaration.shownWords_eq (d : Declaration) (hasBody : Bool) :
    d.shownWords hasBody = shownModifiers d.owner hasBody := by
  unfold shownWords owner isConstructor
  cases d.header with
  | constructor => rfl
  | method returnType name => cases hasBody <;> rfl

/-- What a declaration leaves over are the modifiers that its element does not show. -/
theorem Declaration.leftovers_eq (d : Declaration) (hasBody : Bool) :
    d.leftovers hasBody = d.heading.unshown hasBody := by
  rw [leftovers, shownWords_eq]
  rfl

theorem withoutType_modifiers (h : Heading) (hasBody : Bool) :
    (h.omissions hasBody).map Warning.withoutType = h.omissions hasBody := by
  rw [Heading.omissions, List.map_map]
  rfl

namespace Assembly

variable {a b : Assembly}

def headings (a : Assembly) : List Heading := a.begun.map Declaration.heading

theorem headings_step {e : Event} (h : a.step e = .ok b) :
    b.headings = e.waiting a.source a.headings := by
  obtain ⟨-, -, hbegun, -, -⟩ := Ledger.mk.inj (ledger_step h)
  rw [headings, hbegun]
  cases e with
  | openMethod first modifiers name =>
      obtain ⟨⟨type, c⟩, hclaim, -⟩ := Except.exists_of_bind h
      obtain ⟨types, htypes, -⟩ := exists_of_claimType hclaim
      simp only [begunAfter, begins?, htypes]
      rfl
  | closeDeclaration last hasBody => simp [begunAfter, Event.waiting, headings]
  | _ => rfl

theorem raised_step {e : Event} (h : a.step e = .ok b) :
    (a.raised e).map Warning.withoutType = e.omissions a.source a.headings := by
  cases e with
  | jumped jump keyword label => cases label <;> rfl
  | parameter name ellipsis =>
      obtain ⟨⟨type, c⟩, hclaim, -⟩ := Except.exists_of_bind h
      obtain ⟨types, htypes, -⟩ := exists_of_claimType hclaim
      cases ellipsis with
      | none => rfl
      | some ellipsis =>
          simp only [raised, htypes]
          rfl
  | openVariables first modifiers =>
      have hraised : a.raised (.openVariables first modifiers) =
          (Heading.of a.source .locals first modifiers).omissions false := by
        simp only [raised]
        rfl
      rw [hraised, withoutType_modifiers]
      exact (List.flatMap_singleton _ _).symm
  | closeDeclaration last hasBody =>
      cases hbegun : a.begun with
      | nil => simp [raised, Event.omissions, Event.settled, headings, hbegun]
      | cons d outer =>
          have hraised : a.raised (.closeDeclaration last hasBody) = d.heading.omissions hasBody := by
            simp only [raised, hbegun, List.head?_cons, Option.toList_some, List.flatMap_singleton,
              d.leftovers_eq]
            rfl
          rw [hraised, withoutType_modifiers]
          simp [Event.omissions, Event.settled, headings, hbegun]
  | _ => rfl

/-- The warnings of a run are what its events leave out, behind the warnings that were there. -/
theorem warnings_run {events : List Event} (h : a.run events = .ok b) :
    b.headings = waitingAfter a.source a.headings events ∧ ∃ more, b.warnings = a.warnings ++ more ∧
      more.map Warning.withoutType = omissions a.source a.headings events := by
  induction events generalizing a with
  | nil =>
      cases h
      exact ⟨rfl, [], by simp, rfl⟩
  | cons e events ih =>
      obtain ⟨next, hstep, hrest⟩ := Except.exists_of_bind h
      obtain ⟨hsource, -, -, -, hwarnings⟩ := Ledger.mk.inj (ledger_step hstep)
      obtain ⟨hheadings, more, hmore, hwithout⟩ := ih hrest
      change next.source = a.source at hsource
      change next.warnings = _ at hwarnings
      rw [hsource, headings_step hstep] at hheadings hwithout
      refine ⟨hheadings, a.raised e ++ more, ?_, ?_⟩
      · rw [hmore, hwarnings, List.append_assoc]
      · rw [List.map_append, raised_step hstep, hwithout, omissions]

theorem declarations_of_finish {conversion : Conversion} (h : a.finish = .ok conversion) :
    a.declarations = [] ∧ conversion.warnings = a.warnings := by
  unfold finish at h
  split at h
  · cases h
  · next hopen hhandlers =>
      cases h
      refine ⟨?_, rfl⟩
      unfold leftOpen? at hopen
      split at hopen
      all_goals first | assumption | cases hopen
  · cases h
  · cases h

/-- Every detail that the frame of a finished assembly cannot show is reported once: the warnings are
what the events leave out, in the order in which the last word on it was said.  So there are as many
warnings as unsupported constructs, labelled jumps, variable-arity parameters and modifiers that no
element shows, every heading among the events being settled once.  No event takes back a warning that
was there in front of it. -/
theorem warnings_of_finish {source : Text} {options : Options} {events : List Event}
    {conversion : Conversion} (hrun : (start source options).run events = .ok a)
    (hfinish : a.finish = .ok conversion) :
    conversion.warnings.map Warning.withoutType = omissions source [] events ∧
      conversion.warnings.length = events.countP Event.isUnsupported +
        events.countP Event.isLabelled + events.countP Event.isVariableArity +
        ((settledHeadings source [] events).map fun (h, hasBody) => (h.unshown hasBody).length).sum ∧
      ((settledHeadings source [] events).map Prod.fst).Perm
        (events.filterMap (Event.heading? source)) ∧
      ∀ earlier later b, events = earlier ++ later → (start source options).run earlier = .ok b →
        b.warnings <+: conversion.warnings := by
  obtain ⟨hdeclarations, hwarnings⟩ := declarations_of_finish hfinish
  obtain ⟨hheadings, more, hmore, hwithout⟩ := warnings_run hrun
  have hall : conversion.warnings.map Warning.withoutType = omissions source [] events := by
    rw [hwarnings, hmore]
    exact hwithout
  have hdone : waitingAfter source [] events = [] := by
    have hnone : a.headings = [] := by simp [headings, begun, hdeclarations]
    exact hheadings.symm.trans hnone
  refine ⟨hall, ?_, ?_, ?_⟩
  · rw [← length_omissions, ← hall, List.length_map]
  · simpa [hdone] using settledHeadings_perm source [] events
  · rintro earlier later b rfl hearlier
    rw [run_append_of_ok later hearlier] at hrun
    obtain ⟨-, more, hmore, -⟩ := warnings_run hrun
    exact ⟨more, by rw [hwarnings, hmore]⟩

/-- The events of `static C(int... a){break x;}`. -/
def labelledConstructorEvents : List Event :=
  [.openConstructor ⟨1, 0, 6⟩ [⟨1, 0, 6⟩] ⟨1, 7, 8⟩, .typeName ⟨1, 9, 12⟩ ⟨1, 9, 12⟩,
    .parameter ⟨1, 16, 17⟩ (some ⟨1, 12, 15⟩), .openBlock ⟨1, 18, 19⟩,
    .jumped .breakLoop ⟨1, 19, 24⟩ (some ⟨1, 25, 26⟩), .closeBlock ⟨1, 27, 28⟩,
    .closeDeclaration ⟨1, 27, 28⟩ true]

/-- The modifier comes last although it stands first: only at the end of the declaration it is known
that no element shows it. -/
theorem warnings_of_finish_constructor :
    ∃ a conversion,
      (start "static C(int... a){break x;}".toList .default).run labelledConstructorEvents = .ok a ∧
      a.finish = .ok conversion ∧
      conversion.warnings.map Warning.withoutType =
        [⟨1, .variableArity "a".toList []⟩, ⟨1, .label .breakLoop "x".toList⟩,
          ⟨1, .modifier "static".toList .constructors⟩] := by
  obtain ⟨a, conversion, hrun, hfinish⟩ : ∃ a conversion,
      (start "static C(int... a){break x;}".toList .default).run labelledConstructorEvents = .ok a ∧
        a.finish = .ok conversion := ⟨_, _, rfl, rfl⟩
  exact ⟨a, conversion, hrun, hfinish, (warnings_of_finish hrun hfinish).1⟩

end Assembly

end CodeFrames
