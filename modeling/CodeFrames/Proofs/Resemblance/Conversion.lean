import CodeFrames.Proofs.Outcome
import CodeFrames.Proofs.Resemblance.Assembly

/-!
# Conversions that resemble each other

Sources whose events resemble each other are converted to frames that resemble each other, or both
are refused.
-/

namespace CodeFrames

variable {C : Comparison} (options options' : Options)

theorem Assembly.start_resembles (hC : C.Sound) (hwidth : options.commentWidth = C.width)
    (hwidth' : options'.commentWidth = C.width') :
    (Assembly.start C.source options).Resembles C (Assembly.start C.source' options') where
  source := rfl
  source' := rfl
  width := hwidth
  width' := hwidth'
  handlers := .cons (.root .nil) .nil
  expressions := .nil
  arguments := .nil
  declarations := .nil
  locals := .nil
  types := .nil
  throwsStarts := rfl
  comment := hC.none
  warnings := .nil

/-- The runs of two sources with such events go the same way. -/
theorem run_resembles (hC : C.Sound) (hwidth : options.commentWidth = C.width)
    (hwidth' : options'.commentWidth = C.width')
    (hevents : EventsResemble C (readEvents C.source).1 (readEvents C.source').1) :
    (∃ a a', (Assembly.start C.source options).run (readEvents C.source).1 = .ok a ∧
      (Assembly.start C.source' options').run (readEvents C.source').1 = .ok a' ∧
      a.Resembles C a') ∨
    ∃ levels,
      (Assembly.start C.source options).run (readEvents C.source).1 =
        .error (.accessConflict levels) ∧
      (Assembly.start C.source' options').run (readEvents C.source').1 =
        .error (.accessConflict levels) := by
  have hagree := (Assembly.start_resembles options options' hC hwidth hwidth').run hC hevents
  have hconflict := run_readEvents options C.source
  have hconflict' := run_readEvents options' C.source'
  generalize (Assembly.start C.source options).run (readEvents C.source).1 = result,
    (Assembly.start C.source' options').run (readEvents C.source').1 = result'
    at hagree hconflict hconflict' ⊢
  cases hagree with
  | ok h => exact .inl ⟨_, _, rfl, rfl, h⟩
  | conflict levels => exact .inr ⟨levels, rfl, rfl⟩
  | left y h =>
      obtain ⟨levels, hlevels⟩ := hconflict _ rfl
      exact absurd hlevels (h levels)
  | right x h =>
      obtain ⟨levels, hlevels⟩ := hconflict' _ rfl
      exact absurd hlevels (h levels)

/-- How two conversions compare where the events resemble each other and either both readings get to
the end or neither does. -/
inductive Comparable (L : Likeness) (source source' : Text) :
    Except ConversionError Conversion → Except ConversionError Conversion → Prop
  | ok {x y : Conversion} : x.Resembles L y → Comparable L source source' (.ok x) (.ok y)
  | conflict (levels : List Access) :
      Comparable L source source' (.error (.accessConflict levels)) (.error (.accessConflict levels))
  | faulty {e e' : SourceError} :
      (readEvents source).2 = .error e → (readEvents source').2 = .error e' →
      Comparable L source source' (.error (.faultySource e)) (.error (.faultySource e'))

theorem convert_comparable (hC : C.Sound) (hwidth : options.commentWidth = C.width)
    (hwidth' : options'.commentWidth = C.width')
    (hevents : EventsResemble C (readEvents C.source).1 (readEvents C.source').1)
    (hends : (readEvents C.source).2 = .ok () ↔ (readEvents C.source').2 = .ok ()) :
    Comparable C.toLikeness C.source C.source' (convert options C.source)
      (convert options' C.source') := by
  unfold convert
  obtain ⟨a, a', ha, ha', h⟩ | ⟨levels, hl, hl'⟩ :=
    run_resembles options options' hC hwidth hwidth' hevents
  · simp only [ha, ha', Except.ok_bind]
    cases hend : (readEvents C.source).2 with
    | error e =>
        cases hend' : (readEvents C.source').2 with
        | error e' => exact .faulty hend hend'
        | ok _ => simp [hend, hend'] at hends
    | ok _ =>
        cases hend' : (readEvents C.source').2 with
        | error e' => simp [hend, hend'] at hends
        | ok _ =>
            obtain ⟨elements, warnings, comment, -, hfinish⟩ :=
              finish_readEvents options C.source a hend ha
            obtain ⟨elements', warnings', comment', -, hfinish'⟩ :=
              finish_readEvents options' C.source' a' hend' ha'
            have hconversion := h.finish
            simp only [hfinish, hfinish'] at hconversion ⊢
            cases hconversion with
            | ok hconversion => exact .ok hconversion
  · simp only [hl, hl', Except.error_bind]
    exact .conflict levels

end CodeFrames
