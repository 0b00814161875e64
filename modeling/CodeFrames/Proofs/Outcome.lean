import CodeFrames.Proofs.Decoding
import CodeFrames.Proofs.Reporting

/-!
# How a conversion can end

The events of a source never leave the protocol of the assembly.  So a conversion gives elements, or
the fault that ended the reading, or the access levels that one declaration combines.
-/

namespace CodeFrames

open Sentence

variable {source : Text} {options : Options}

namespace Assembly

/-- Events that begin a sentence are taken unless access levels conflict. -/
theorem run_of_begins {events more : List Event} {elements : Block} {warnings : List Warning}
    (h : Items source options.commentWidth none (events ++ more) elements warnings) :
    ∀ e, (start source options).run events = .error e → ∃ levels, e = .accessConflict levels := by
  intro e hrun
  have hwhole : (start source options).run (events ++ more) = .error e := by
    rw [run_append, hrun, Except.error_bind]
  obtain ⟨comment, hleads | ⟨⟨levels, hleads⟩, -⟩⟩ := leads_sentence h
  · rw [hwhole] at hleads
    cases hleads
  · rw [hwhole] at hleads
    exact ⟨levels, by injection hleads⟩

/-- What the run of a whole sentence leaves can be finished. -/
theorem run_of_sentence {events : List Event} {elements : Block} {warnings : List Warning}
    (h : Items source options.commentWidth none events elements warnings) :
    ∀ a, (start source options).run events = .ok a → ∃ comment,
      a = (start source options).updated [.root elements] warnings comment := by
  intro a hrun
  obtain ⟨comment, hleads | ⟨⟨levels, hleads⟩, -⟩⟩ := leads_sentence h
  · rw [hrun] at hleads
    exact ⟨comment, by injection hleads⟩
  · rw [hrun] at hleads
    cases hleads

end Assembly

/-- The events of a source, also of one that cannot be read to its end. -/
theorem run_readEvents (options : Options) (source : Text) :
    ∀ e, (Assembly.start source options).run (readEvents source).1 = .error e →
      ∃ levels, e = .accessConflict levels := by
  obtain ⟨more, hmore, -⟩ := readEvents_begins source options.commentWidth
  obtain ⟨elements, warnings, h⟩ := hmore none
  exact Assembly.run_of_begins h

/-- Behind a source that has been read to its end nothing is left open. -/
theorem finish_readEvents (options : Options) (source : Text) :
    ∀ a, (readEvents source).2 = .ok () →
      (Assembly.start source options).run (readEvents source).1 = .ok a →
      ∃ elements warnings comment,
        a = (Assembly.start source options).updated [.root elements] warnings comment ∧
        a.finish = .ok ⟨elements, warnings⟩ := by
  intro a hok hrun
  obtain ⟨more, hmore, hend⟩ := readEvents_begins source options.commentWidth
  obtain ⟨elements, warnings, h⟩ := hmore none
  rw [hend hok, List.append_nil] at h
  obtain ⟨comment, rfl⟩ := Assembly.run_of_sentence h a hrun
  exact ⟨elements, warnings, comment, rfl, Assembly.finish_updated _ _ _ _ _⟩

/-- A conversion gives elements, the fault that ended the reading, or the access levels that one
declaration combines: the run of the events fails for the last reason only, and behind a source that
has been read to its end every stack is back where it started. -/
theorem convert_outcome (options : Options) (source : Text) :
    (∀ e, (Assembly.start source options).run (readEvents source).1 = .error e →
      ∃ levels, e = .accessConflict levels) ∧
    (∀ a, (readEvents source).2 = .ok () →
      (Assembly.start source options).run (readEvents source).1 = .ok a →
      ∃ elements warnings comment,
        a = (Assembly.start source options).updated [.root elements] warnings comment ∧
        a.finish = .ok ⟨elements, warnings⟩) ∧
    ((∃ conversion, convert options source = .ok conversion) ∨
      (∃ e, convert options source = .error (.faultySource e)) ∨
      ∃ levels, convert options source = .error (.accessConflict levels)) := by
  refine ⟨run_readEvents options source, finish_readEvents options source, ?_⟩
  have hconflict := run_readEvents options source
  have hfinish := finish_readEvents options source
  unfold convert
  rcases hread : readEvents source with ⟨events, result⟩
  rw [hread] at hconflict hfinish
  cases hrun : (Assembly.start source options).run events with
  | error e =>
      obtain ⟨levels, rfl⟩ := hconflict e hrun
      exact .inr (.inr ⟨levels, by simp [hrun, Except.error_bind]⟩)
  | ok a =>
      cases result with
      | error e => exact .inr (.inl ⟨e, by simp [hrun, Except.ok_bind]⟩)
      | ok u =>
          obtain ⟨elements, warnings, comment, -, hend⟩ := hfinish a rfl hrun
          exact .inl ⟨⟨elements, warnings⟩, by simp [hrun, Except.ok_bind, hend]⟩

end CodeFrames
