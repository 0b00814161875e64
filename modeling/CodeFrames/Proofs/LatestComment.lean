import CodeFrames.Proofs.Pending
import Mathlib.Algebra.Ring.Int.Defs

/-!
# The latest comment

Whatever events come, a declaration begins with the latest comment behind which nothing has dropped it,
or without a documentation if there is none, and its documentation stays what it was when it began.
-/

namespace CodeFrames

/-- How many more declarations are open behind the event than in front of it. -/
def Event.declarationChange : Event → Int
  | .openMethod _ _ _ | .openConstructor _ _ _ => 1
  | .closeDeclaration _ _ => -1
  | _ => 0

/-- How many more declarations the events begin than they end. -/
def declarationsBehind (events : List Event) : Int := (events.map Event.declarationChange).sum

theorem declarationsBehind_cons (event : Event) (events : List Event) :
    declarationsBehind (event :: events) = event.declarationChange + declarationsBehind events := by
  simp [declarationsBehind]

namespace Assembly

variable {a b : Assembly}

/-! ## The pending comment -/

/-- The event neither is a comment nor drops one. -/
def Passes (a : Assembly) (event : Event) : Prop := event.comment? = none ∧ a.drops event = false

theorem commentAfter_eq_some {event : Event} {text : Text} :
    a.commentAfter event = some text ↔
      (a.comment = some text ∧ a.Passes event) ∨
        ∃ whole, event = .comment whole ∧
          text = plainComment a.options.commentWidth (a.textOf whole) := by
  cases hcomment : event.comment? with
  | some whole =>
      cases event <;> cases hcomment
      simp only [commentAfter, Option.some.injEq, Passes, Event.comment?, reduceCtorEq, false_and,
        and_false, Event.comment.injEq, exists_eq_left', false_or]
      exact eq_comm
  | none =>
      have hnot (whole : Span) : event ≠ .comment whole := by
        rintro rfl
        cases hcomment
      rw [commentAfter_of_none hcomment, Passes, hcomment]
      cases a.drops event <;> simp [hnot]

/-- A comment that is pending behind a run was pending in front of it or is the latest that the run met,
and no event behind it drops it. -/
theorem comment_run_iff {events : List Event} (h : a.run events = .ok b) (text : Text) :
    b.comment = some text ↔
      (a.comment = some text ∧ ∀ met ∈ a.history events, met.1.Passes met.2) ∨
      ∃ before state whole between, a.history events = before ++ (state, .comment whole) :: between ∧
        (∀ met ∈ between, met.1.Passes met.2) ∧
        text = plainComment a.options.commentWidth (whole.textIn a.source) := by
  induction events generalizing a with
  | nil =>
      cases h
      simp [history]
  | cons event events ih =>
      obtain ⟨next, hstep, hrest⟩ := Except.exists_of_bind h
      obtain ⟨hsource, hoptions, -, hcomment, -⟩ := Ledger.mk.inj (ledger_step hstep)
      change next.source = a.source at hsource
      change next.options = a.options at hoptions
      change next.comment = _ at hcomment
      rw [ih hrest, hcomment, commentAfter_eq_some, hsource, hoptions, history_cons_of_ok _ hstep]
      constructor
      · rintro (⟨⟨hpending, hevent⟩ | ⟨whole, rfl, rfl⟩, hpass⟩ |
          ⟨before, state, whole, between, hhistory, hpass, rfl⟩)
        · exact .inl ⟨hpending, List.forall_mem_cons.mpr ⟨hevent, hpass⟩⟩
        · exact .inr ⟨[], a, whole, _, rfl, hpass, rfl⟩
        · exact .inr ⟨(a, event) :: before, state, whole, between, by rw [hhistory]; rfl, hpass, rfl⟩
      · rintro (⟨hpending, hpass⟩ | ⟨before, state, whole, between, hhistory, hpass, rfl⟩)
        · obtain ⟨hevent, hpass⟩ := List.forall_mem_cons.mp hpass
          exact .inl ⟨.inl ⟨hpending, hevent⟩, hpass⟩
        · cases before with
          | nil =>
              obtain ⟨hmet, rfl⟩ := List.cons.inj hhistory
              obtain ⟨rfl, rfl⟩ := Prod.mk.inj hmet
              exact .inl ⟨.inr ⟨whole, rfl, rfl⟩, hpass⟩
          | cons met before =>
              obtain ⟨-, hhistory⟩ := List.cons.inj hhistory
              exact .inr ⟨before, state, whole, between, hhistory, hpass, rfl⟩

/-! ## Open declarations -/

/-- A declaration begins with the pending comment, and only the innermost one can end. -/
theorem begun_step {event : Event} (h : a.step event = .ok b) :
    (event.declarationChange = 1 ∧ ∃ d, b.begun = d :: a.begun ∧ d.documentation = a.comment) ∨
      (event.declarationChange = -1 ∧ ∃ d, a.begun = d :: b.begun) ∨
      (event.declarationChange = 0 ∧ b.begun = a.begun) := by
  obtain ⟨-, -, hbegun, -, -⟩ := Ledger.mk.inj (ledger_step h)
  change b.begun = _ at hbegun
  rw [hbegun]
  cases event with
  | openMethod first modifiers name =>
      obtain ⟨⟨type, c⟩, hclaim, -⟩ := Except.exists_of_bind h
      obtain ⟨types, htypes, -⟩ := exists_of_claimType hclaim
      refine .inl ⟨rfl, .start (.method type (.name (a.textOf name))) (modifiers.map a.textOf) a.comment
        first.line, ?_, rfl⟩
      simp [begunAfter, begins?, htypes]
  | openConstructor first modifiers name => exact .inl ⟨rfl, _, rfl, rfl⟩
  | closeDeclaration last hasBody =>
      obtain ⟨body, below, d, outer, e, -, hdeclarations, -⟩ := exists_of_closeDeclaration h
      exact .inr (.inl ⟨rfl, d.begun, by simp [begunAfter, begun, hdeclarations]⟩)
  | _ => exact .inr (.inr ⟨rfl, rfl⟩)

/-- As long as no more declarations have ended than begun, those that were open stay as they began. -/
theorem exists_begun_of_run {events : List Event} {inner outer : List Declaration}
    (h : a.run events = .ok b) (hbegun : a.begun = inner ++ outer)
    (hopen : ∀ prior, prior <+: events → 0 ≤ inner.length + declarationsBehind prior) :
    ∃ later, b.begun = later ++ outer ∧ later.length = inner.length + declarationsBehind events := by
  induction events generalizing a inner with
  | nil =>
      cases h
      exact ⟨inner, hbegun, by simp [declarationsBehind]⟩
  | cons event events ih =>
      obtain ⟨next, hstep, hrest⟩ := Except.exists_of_bind h
      have hprior (prior : List Event) (hstart : prior <+: events) :=
        hopen (event :: prior) (List.cons_prefix_cons.mpr ⟨rfl, hstart⟩)
      simp only [declarationsBehind_cons] at hprior ⊢
      -- The rest of the events starts with one declaration more or less on top of the outer ones.
      have hgo {others : List Declaration} (hnext : next.begun = others ++ outer)
          (hlength : (others.length : Int) = inner.length + event.declarationChange) :
          ∃ later, b.begun = later ++ outer ∧
            later.length = inner.length + (event.declarationChange + declarationsBehind events) := by
        obtain ⟨later, hlater, hcount⟩ := ih hrest hnext fun prior hstart => by
          have := hprior prior hstart
          omega
        exact ⟨later, hlater, by omega⟩
      rcases begun_step hstep with ⟨hchange, d, hnext, -⟩ | ⟨hchange, d, hnext⟩ | ⟨hchange, hnext⟩
      · exact hgo (by rw [hnext, hbegun, List.cons_append]) (by simp [hchange])
      · cases inner with
        | nil =>
            have := hprior [] List.nil_prefix
            simp [declarationsBehind, hchange] at this
        | cons first inner =>
            obtain ⟨-, hinner⟩ := List.cons.inj (hnext.symm.trans hbegun)
            exact hgo hinner (by rw [hchange, List.length_cons]; omega)
      · exact hgo (hnext.trans hbegun) (by simp [hchange])

/-- The documentation of a declaration is the latest comment in front of it that no event in between
drops, however the events are mixed: there is one exactly if there is such a comment.  As long as the
declaration is open its documentation stays the same, and the element that its end completes has it. -/
theorem documentation_of_latestComment {source : Text} {options : Options} {earlier : List Event}
    {opening : Event} (hrun : (start source options).run earlier = .ok a)
    (hopening : a.step opening = .ok b) (hopens : opening.declarationChange = 1) :
    ∃ documentation, b.openDocumentations = documentation :: a.openDocumentations ∧
      (∀ text, documentation = some text ↔
        ∃ before state whole between,
          (start source options).history earlier = before ++ (state, .comment whole) :: between ∧
          (∀ met ∈ between, met.1.Passes met.2) ∧
          text = plainComment options.commentWidth (whole.textIn source)) ∧
      ∀ later c, b.run later = .ok c → (∀ prior, prior <+: later → 0 ≤ declarationsBehind prior) →
        ∃ inner, c.openDocumentations = inner ++ documentation :: a.openDocumentations ∧
          inner.length = declarationsBehind later ∧
          ∀ last hasBody d, declarationsBehind later = 0 →
            c.step (.closeDeclaration last hasBody) = .ok d →
            documentations (c.completions [.closeDeclaration last hasBody]) = [documentation] := by
  obtain ⟨-, d, hbegun, hdocumentation⟩ | ⟨hchange, -⟩ | ⟨hchange, -⟩ := begun_step hopening
  · have hopen : b.openDocumentations = d.documentation :: a.openDocumentations := by
      rw [openDocumentations_eq, hbegun, openDocumentations_eq, List.map_cons]
    refine ⟨d.documentation, hopen, fun text => ?_, fun later c hlater hkept => ?_⟩
    · rw [hdocumentation, comment_run_iff hrun text]
      simp [start]
    · have hnone : b.begun = [] ++ d :: a.begun := hbegun
      obtain ⟨others, hothers, hlength⟩ := exists_begun_of_run hlater hnone (by simpa using hkept)
      have hinner : c.openDocumentations =
          others.map (·.documentation) ++ d.documentation :: a.openDocumentations := by
        rw [openDocumentations_eq, hothers, openDocumentations_eq, List.map_append, List.map_cons]
      have hcount : (others.length : Int) = declarationsBehind later := by simpa using hlength
      refine ⟨others.map (·.documentation), hinner, by rw [List.length_map, hcount], ?_⟩
      intro last hasBody e hlevel hclose
      obtain ⟨documentation, hfirst, hcompleted⟩ := documentation_closeDeclaration hclose
      obtain rfl : others = [] := List.length_eq_zero_iff.mp (by omega)
      obtain ⟨rfl, -⟩ := List.cons.inj (hinner.symm.trans hfirst)
      exact hcompleted
  · omega
  · omega

/-- The events of `/*x*/;/*y*/int f();` up to the name of the method. -/
def secondCommentEvents : List Event :=
  [.comment ⟨1, 0, 5⟩, .emptyStatement ⟨1, 5, 6⟩, .comment ⟨1, 6, 11⟩,
    .typeName ⟨1, 11, 14⟩ ⟨1, 11, 14⟩]

theorem documentation_of_latestComment_second :
    ∃ a b, (start "/*x*/;/*y*/int f();".toList .default).run secondCommentEvents = .ok a ∧
      a.step (.openMethod ⟨1, 11, 14⟩ [] ⟨1, 15, 16⟩) = .ok b ∧
      b.openDocumentations.head? = some (some "y".toList) := by
  obtain ⟨a, b, hrun, hopening⟩ :
      ∃ a b, (start "/*x*/;/*y*/int f();".toList .default).run secondCommentEvents = .ok a ∧
        a.step (.openMethod ⟨1, 11, 14⟩ [] ⟨1, 15, 16⟩) = .ok b := ⟨_, _, rfl, rfl⟩
  obtain ⟨documentation, hopen, hlatest, -⟩ := documentation_of_latestComment hrun hopening rfl
  refine ⟨a, b, hrun, hopening, ?_⟩
  rw [hopen, List.head?_cons, (hlatest "y".toList).mpr]
  refine ⟨[_, _], _, ⟨1, 6, 11⟩, [_], rfl, ?_, by decide⟩
  simp [Passes, Event.comment?, drops, Event.drops, completes]

end Assembly

end CodeFrames
