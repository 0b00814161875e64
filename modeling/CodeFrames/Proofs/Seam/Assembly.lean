import CodeFrames.Proofs.Pending
import CodeFrames.Proofs.Resemblance.Conversion
import CodeFrames.Proofs.Seam.Standing

/-!
# Assemblies one behind the other

The run of an assembly that leaves no declaration open has met no conflict of access levels, and then
what is assembled does not depend on what was assembled before.  So the events of a text that stands in
another one add the same elements there, wherever they come in.
-/

namespace CodeFrames

open Sentence

/-! ## Access levels -/

theorem Access.isClear_nil : Access.IsClear [] := fun _ _ h => (List.not_mem_nil h).elim

theorem Access.isClear_of_accessOf {modifiers : List Text} {level : Access}
    (h : accessOf modifiers = .ok level) : Access.IsClear modifiers := by
  intro first second hfirst hsecond
  have hmem {named : Access} (hnamed : named.word ∈ modifiers) :
      named ∈ Access.all.filter fun a => modifiers.contains a.word :=
    List.mem_filter.mpr ⟨named.mem_all, List.contains_iff_mem.mpr hnamed⟩
  have hone := hmem hfirst
  have htwo := hmem hsecond
  unfold accessOf at h
  split at h
  · next hnone =>
      rw [hnone] at hone
      cases hone
  · next only honly =>
      rw [honly, List.mem_singleton] at hone htwo
      rw [hone, htwo]
  · cases h

namespace Assembly

variable {a b : Assembly}

/-- A declaration that is done with is free of conflicts, and an event begins at most one. -/
theorem openModifiers_step {event : Event} (h : a.step event = .ok b) :
    b.openModifiers = event.modifiers.map (Span.textIn a.source) :: a.openModifiers ∨
      event.modifiers = [] ∧ (b.openModifiers = a.openModifiers ∨
        ∃ words, Access.IsClear words ∧ a.openModifiers = words :: b.openModifiers) := by
  cases event with
  | comment whole =>
      cases h
      exact .inr ⟨rfl, .inl rfl⟩
  | openMethod first modifiers name =>
      obtain ⟨⟨type, c⟩, hclaim, h⟩ := Except.exists_of_bind h
      cases h
      have hkeeps := keeps_claimType hclaim
      refine .inl ?_
      rw [← hkeeps.modifiers_eq, ← hkeeps.source_eq]
      rfl
  | openConstructor first modifiers name =>
      cases h
      exact .inl rfl
  | closeDeclaration last hasBody =>
      obtain ⟨body, below, d, outer, e, -, hdeclarations, -, -, he, hreport⟩ := exists_of_closeDeclaration h
      obtain ⟨level, hlevel, -⟩ := Except.exists_of_map he
      refine .inr ⟨rfl, .inr ⟨d.modifiers, Access.isClear_of_accessOf hlevel, ?_⟩⟩
      rw [(keeps_report hreport).modifiers_eq]
      simp [openModifiers, hdeclarations, warnModifiers]
  | _ => exact .inr ⟨rfl, .inl (keeps_step h rfl rfl).modifiers_eq⟩

theorem isClear_of_run {events : List Event} (h : a.run events = .ok b) :
    (∀ words ∈ a.openModifiers, Access.IsClear words ∨ words ∈ b.openModifiers) ∧
      ∀ event ∈ events, event.AccessClear a.source ∨
        event.modifiers.map (Span.textIn a.source) ∈ b.openModifiers := by
  induction events generalizing a with
  | nil =>
      cases h
      exact ⟨fun _ => .inr, fun _ h => (List.not_mem_nil h).elim⟩
  | cons event events ih =>
      obtain ⟨next, hstep, hrest⟩ := Except.exists_of_bind h
      obtain ⟨hopen, hevents⟩ := ih hrest
      rw [(follows_step hstep).source_eq] at hevents
      obtain hbegun | ⟨hnone, hkept | ⟨words, hwords, hended⟩⟩ := openModifiers_step hstep
      · rw [hbegun, List.forall_mem_cons] at hopen
        exact ⟨hopen.2, List.forall_mem_cons.mpr ⟨hopen.1, hevents⟩⟩
      all_goals
        have hclear : event.AccessClear a.source := by
          rw [Event.AccessClear, hnone]
          exact Access.isClear_nil
      · exact ⟨hkept ▸ hopen, List.forall_mem_cons.mpr ⟨.inl hclear, hevents⟩⟩
      · refine ⟨?_, List.forall_mem_cons.mpr ⟨.inl hclear, hevents⟩⟩
        rw [hended, List.forall_mem_cons]
        exact ⟨.inl hwords, hopen⟩

/-- Every declaration in a run that leaves none open names at most one access level. -/
theorem accessClear_of_run {events : List Event} (h : a.run events = .ok b)
    (hdeclarations : b.declarations = []) : ∀ event ∈ events, event.AccessClear a.source := by
  intro event hevent
  refine ((isClear_of_run h).2 event hevent).resolve_right ?_
  rw [openModifiers, hdeclarations]
  exact List.not_mem_nil

theorem run_of_leads {source : Text} {events : List Event} (h : Leads source a events b)
    (hclear : ∀ event ∈ events, event.AccessClear source) : a.run events = .ok b :=
  h.resolve_right fun ⟨_, event, hmem, hconflict⟩ => hconflict (hclear event hmem)

/-- The events of a source add their elements also where they come in from another text that the source
stands in, and whichever comment is pending there. -/
theorem exists_items_of_standingIn {options : Options} {source source' : Text}
    {range : Nat → Prop} {lines bytes : Nat} (hsource : source.Shares source' range bytes) {events events' : List Event}
    (hevents : EventsResemble (standingIn options source source' range lines bytes) events events')
    (hitems : events' ∈ items source' options.commentWidth) {elements : Block} {warnings : List Warning}
    {comment : Option Text} (hrun : (start source options).run events =
      .ok ((start source options).updated [.root elements] warnings comment)) (pending : Option Text) :
    ∃ others later, Items source' options.commentWidth pending events' others later ∧
      (∀ event ∈ events', event.AccessClear source') ∧
      List.Forall₂ (Element.Resembles (standingIn options source source' range lines bytes).toLikeness)
        elements others ∧
      List.Forall₂ (Warning.Resembles (standingIn options source source' range lines bytes).toLikeness)
        warnings later := by
  let C := standingIn options source source' range lines bytes
  have hsound : C.Sound := standingIn_sound options hsource lines
  let there := (start source' options).updated [.root []] [] pending
  have hstart : (start source options).Resembles C there :=
    { start_resembles options options hsound rfl rfl with comment := trivial }
  have hagree := hstart.run hsound hevents
  obtain ⟨others, later, hothers⟩ := hitems pending
  obtain ⟨left, hleads⟩ := leads_items hothers (a := there) ⟨rfl, rfl, rfl⟩ rfl trivial rfl
  rw [hrun] at hagree
  rcases hleads with hok | ⟨⟨levels, hconflict⟩, -⟩
  · rw [hok] at hagree
    cases hagree with
    | ok hresembles =>
        obtain ⟨htop, -⟩ := List.forall₂_cons.mp hresembles.handlers
        cases htop with
        | root helements => exact ⟨others, later, hothers, accessClear_of_run hok rfl, by simpa using helements,
            by simpa [updated, there, start] using hresembles.warnings⟩
  · rw [hconflict] at hagree
    cases hagree with
    | right _ hnever => exact absurd rfl (hnever levels)

/-- What they add there is the same but for the documentation, and the warnings are about the lines
further on. -/
theorem exists_run_of_standingIn {options : Options} {source source' : Text}
    {range : Nat → Prop} {lines bytes : Nat} (hsource : source.Shares source' range bytes) {events events' : List Event}
    (hevents : EventsResemble (standingIn options source source' range lines bytes) events events')
    (hitems : events' ∈ items source' options.commentWidth) {elements : Block} {warnings : List Warning}
    {comment : Option Text} (hrun : (start source options).run events =
      .ok ((start source options).updated [.root elements] warnings comment)) (before : Block)
    (earlier : List Warning) (pending : Option Text) :
    ∃ others left, ((start source' options).updated [.root before] earlier pending).run events' =
        .ok ((start source' options).updated [.root (before ++ others)]
          (earlier ++ warnings.map fun w => ⟨w.line + lines, w.omission⟩) left) ∧
      undocumentedBlock others = undocumentedBlock elements := by
  obtain ⟨others, later, hothers, hclear, helements, hwarnings⟩ :=
    exists_items_of_standingIn hsource hevents hitems hrun pending
  obtain rfl := Warning.eq_map_of_resembles (L := (standingIn options source source' range lines bytes).toLikeness)
    (f := (· + lines)) (fun _ _ h => h) (fun m n h => (show n = m + lines from h).symm) hwarnings
  obtain ⟨left, hleads⟩ := leads_items hothers (a := (start source' options).updated [.root before] earlier pending)
    ⟨rfl, rfl, rfl⟩ rfl trivial rfl
  refine ⟨others, left, ?_, (undocumentedBlock_eq (fun _ _ h => h) (fun _ _ h => h) helements).symm⟩
  rw [updated_updated] at hleads
  exact run_of_leads hleads hclear

end Assembly

end CodeFrames
