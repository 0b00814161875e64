import CodeFrames.Command.Run
import CodeFrames.Proofs.CommentWidth

/-!
# Many files at once

A command deals with each file on its own.  What it says about a list of files is what it says about the
parts of the list, one after the other, and the exit code depends on nothing but which of the files are
not converted and which have warnings.  Neither depends on how the results are shown, so both commands
end with the same code.
-/

namespace CodeFrames

/-- The width of comments decides neither whether a source is converted nor what is warned of. -/
theorem warnings_convert_eq (options options' : Options) (source : Text) :
    (convert options source).map Conversion.warnings =
      (convert options' source).map Conversion.warnings := by
  have hcomparable := convert_comparable options options'
    (Comparison.sound_rewrapped source options.commentWidth options'.commentWidth) rfl rfl
    (Comparison.events_rewrapped _) .rfl
  change Comparable _ source source (convert options source) (convert options' source)
    at hcomparable
  generalize convert options source = result, convert options' source = result'
    at hcomparable ⊢
  cases hcomparable with
  | @ok x y h =>
      exact congrArg Except.ok (Warning.eq_of_resembles (fun _ _ => id) (fun _ _ => id) h.warnings)
  | conflict levels => rfl
  | @faulty e e' he he' =>
      obtain rfl : e = e' := Except.error.inj (he.symm.trans he')
      rfl

namespace Command

/-! ## How a file fares -/

/-- There is no text under the name, or the text is not converted. -/
def Fails (disk : Disk) (s : Settings) (file : Text) : Prop :=
  ∀ text, disk file = .ok text → ∀ c, convert s.options text ≠ .ok c

/-- The text under the name is converted with a warning. -/
def Warns (disk : Disk) (s : Settings) (file : Text) : Prop :=
  ∃ text c, disk file = .ok text ∧ convert s.options text = .ok c ∧ c.warnings ≠ []

variable {disk : Disk} {s t : Settings}

theorem fails_iff (file : Text) :
    Fails disk s file ↔ (FileResult.ofFile disk s.options file).converted?.isNone = true := by
  unfold Fails FileResult.converted? FileResult.ofFile
  cases hfile : disk file with
  | error fault => simp
  | ok text => cases hconvert : convert s.options text <;> simp [hconvert]

theorem warns_iff (file : Text) :
    Warns disk s file ↔ (FileResult.ofFile disk s.options file).converted?.any
      (fun (_, c) => !c.warnings.isEmpty) = true := by
  unfold Warns FileResult.converted? FileResult.ofFile
  cases hfile : disk file with
  | error fault => simp
  | ok text => cases hconvert : convert s.options text <;> simp [hconvert]

instance (file : Text) : Decidable (Fails disk s file) := decidable_of_iff _ (fails_iff file).symm

instance (file : Text) : Decidable (Warns disk s file) := decidable_of_iff _ (warns_iff file).symm

/-- How a file fares is the same however comments are wrapped and results are shown. -/
theorem fails_congr (file : Text) : Fails disk s file ↔ Fails disk t file := by
  refine forall₂_congr fun text _ => ?_
  have hwarnings := warnings_convert_eq s.options t.options text
  cases hconvert : convert s.options text <;> cases hconvert' : convert t.options text <;>
    simp_all [Except.map]

theorem warns_congr (file : Text) : Warns disk s file ↔ Warns disk t file := by
  refine exists_congr fun text => ?_
  have hwarnings := warnings_convert_eq s.options t.options text
  cases hconvert : convert s.options text <;> cases hconvert' : convert t.options text <;>
    simp_all [Except.map]

/-! ## Exit codes -/

/-- The code that a run with these settings ends with. -/
theorem code_runFiles (i : Invocation) :
    (runFiles disk s i).code =
      if ∃ file ∈ i.files, Fails disk s file then 1
      else if s.denyWarnings = true ∧ ∃ file ∈ i.files, Warns disk s file then 2 else 0 := by
  have hfails : ((i.files.map (FileResult.ofFile disk s.options)).any fun r =>
      r.converted?.isNone) = true ↔ ∃ file ∈ i.files, Fails disk s file := by
    simp [fails_iff]
  have hwarns : (s.denyWarnings && (i.files.map (FileResult.ofFile disk s.options)).any fun r =>
      r.converted?.any fun (_, c) => !c.warnings.isEmpty) = true ↔
        s.denyWarnings = true ∧ ∃ file ∈ i.files, Warns disk s file := by
    rw [Bool.and_eq_true, List.any_map, List.any_eq_true]
    simp only [warns_iff, Function.comp_apply]
  simp only [runFiles, exitCode, hfails, hwarns]

theorem code_runFiles_congr {i j : Invocation} (hdeny : s.denyWarnings = t.denyWarnings)
    (hfiles : ∀ file, file ∈ i.files ↔ file ∈ j.files) :
    (runFiles disk s i).code = (runFiles disk t j).code := by
  simp only [code_runFiles, hdeny, hfiles, fails_congr (s := s) (t := t),
    warns_congr (s := s) (t := t)]

/-! ## Settings -/

theorem run_of_settings {i : Invocation} (h : settings disk i = .ok s) :
    run disk i = runFiles disk s i := by
  simp only [run, h]

/-- Neither the command nor the way in which results are shown decides whether the settings resolve and
whether warnings are denied. -/
theorem exists_settings {i : Invocation} (h : settings disk i = .ok s) (verb : Verb)
    (files : List Text) (output : Option Format) (width : Option Nat) :
    ∃ t, settings disk { i with verb, files, choices := { i.choices with output, commentWidth := width } } =
      .ok t ∧ t.denyWarnings = s.denyWarnings := by
  unfold settings at h ⊢
  cases hconfig : loadConfig disk i.config with
  | error e => simp [hconfig, Except.error_bind] at h
  | ok config =>
      simp only [hconfig, Except.ok_bind, Settings.resolve] at h ⊢
      -- The level of the log is all that may not resolve, and what it depends on is the same.
      have hlevel : Settings.resolveLevel config { i.choices with output, commentWidth := width } =
        Settings.resolveLevel config i.choices := rfl
      rw [hlevel]
      cases hresolved : Settings.resolveLevel config i.choices with
      | error e => rw [hresolved] at h; cases h
      | ok level =>
          rw [hresolved] at h
          cases h
          exact ⟨_, rfl, rfl⟩

/-! ## Texts -/

theorem checkText_append (s : Settings) (converted others : List (Text × Conversion)) :
    checkText s (converted ++ others) = checkText s converted ++ checkText s others :=
  List.flatMap_append

/-- Checking some files and then others says the same as checking all of them. -/
theorem runFiles_append {i : Invocation} (hverb : i.verb = .check) (hformat : s.format = .text)
    (xs ys : List Text) :
    (runFiles disk s { i with files := xs ++ ys }).output =
        (runFiles disk s { i with files := xs }).output ++
          (runFiles disk s { i with files := ys }).output ∧
      (runFiles disk s { i with files := xs ++ ys }).errors =
        (runFiles disk s { i with files := xs }).errors ++
          (runFiles disk s { i with files := ys }).errors := by
  simp only [runFiles, output, warnings, hverb, hformat, List.map_append, List.filterMap_append,
    checkText_append, List.flatMap_append, List.append_nil, and_self]

/-- A clean file, one with a warning and one that is not converted. -/
def threeFiles : Disk := fun name =>
  if name = "clean.java".toList then .ok "f();".toList
  else if name = "labelled.java".toList then .ok "break x;".toList
  else if name = "broken.java".toList then .ok "f(".toList
  else .error .missing

/-- `--deny-warnings check` -/
def denyingCheck : Invocation := ⟨.check, [], none, ⟨none, false, 0, true, none⟩⟩

end Command

end CodeFrames
