import CodeFrames.Proofs.Decoding.Expression

/-!
# What a taken event tells

Most events leave the handlers alone.  A text comes out of an extraction only where the outermost
expression ends, and a declaration ends only with its own body on top of the handlers.
-/

namespace CodeFrames

namespace Assembly

variable {a b : Assembly}

/-! ## Events that leave the handlers alone -/

theorem handlers_claimType {type : Fragment} (h : a.claimType = .ok (type, b)) :
    b.handlers = a.handlers := by
  unfold claimType at h
  split at h
  · cases h
  · cases h; rfl

theorem handlers_updateDeclaration {f : Declaration → Except ConversionError Declaration}
    (h : a.updateDeclaration f = .ok b) : b.handlers = a.handlers := by
  unfold updateDeclaration at h
  split at h
  · cases h
  · obtain ⟨d, -, rfl⟩ := Except.exists_of_map h
    rfl

theorem handlers_closeArguments (h : a.closeArguments = .ok b) : b.handlers = a.handlers := by
  unfold closeArguments at h
  split at h
  · cases h; rfl
  · obtain ⟨list, -, h⟩ := Except.exists_of_bind h
    split at h
    · exact (handlers_updateDeclaration h :)
    · cases h; rfl

theorem handlers_openVariables {first : Span} {modifiers : List Span}
    (h : a.openVariables first modifiers = .ok b) : b.handlers = a.handlers := by
  obtain ⟨⟨type, c⟩, hclaim, h⟩ := Except.exists_of_bind h
  cases h
  exact (handlers_claimType hclaim :)

theorem handlers_closeVariables (h : a.closeVariables = .ok b) : b.handlers = a.handlers := by
  unfold closeVariables at h
  split at h <;> cases h
  rfl

theorem handlers_parameter {name : Span} {ellipsis : Option Span}
    (h : a.parameter name ellipsis = .ok b) : b.handlers = a.handlers := by
  obtain ⟨⟨type, c⟩, hclaim, h⟩ := Except.exists_of_bind h
  rw [handlers_updateDeclaration h, ← handlers_claimType hclaim]
  split <;> rfl

theorem handlers_openThrows (h : a.openThrows = .ok b) : b.handlers = a.handlers := by
  unfold openThrows at h
  split at h <;> cases h
  rfl

theorem handlers_closeThrows (h : a.closeThrows = .ok b) : b.handlers = a.handlers := by
  unfold closeThrows at h
  split at h
  · cases h
  · dsimp only at h
    split at h
    · cases h
    · exact (handlers_updateDeclaration h :)

theorem handlers_delegateCall {keyword : Span} (h : a.delegateCall keyword = .ok b) :
    b.handlers = a.handlers := by
  unfold delegateCall at h
  dsimp only at h
  split at h
  · cases h
  · obtain ⟨c, hupdate, h⟩ := Except.exists_of_bind h
    split at h
    · cases h
    · split at h <;> cases h
      exact (handlers_updateDeclaration hupdate :)

/-! ## Ends of expressions and declarations -/

/-- Only the end of the outermost expression yields a text, and the use stays the same. -/
theorem closed_text {x y : Extraction} {source text : Text} {stop : Nat} {isEmpty : Bool}
    (h : x.closed source stop isEmpty = .ok (y, some text)) : x.depth = 1 ∧ y.use = x.use := by
  obtain ⟨use, depth, first⟩ := x
  match depth with
  | 0 => simp [Extraction.closed] at h
  | 1 =>
      simp only [Extraction.closed] at h
      split at h
      · cases h
        exact ⟨rfl, rfl⟩
      · obtain ⟨cut, -, h⟩ := Except.exists_of_bind h
        cases h
        exact ⟨rfl, rfl⟩
  | depth + 2 => simp [Extraction.closed] at h

theorem closed_none {x y : Extraction} {source : Text} {stop : Nat} {isEmpty : Bool}
    (h : x.closed source stop isEmpty = .ok (y, none)) : x.depth ≠ 1 := by
  obtain ⟨use, depth, first⟩ := x
  rintro rfl
  simp only [Extraction.closed] at h
  split at h
  · cases h
  · obtain ⟨cut, -, h⟩ := Except.exists_of_bind h
    cases h

/-- A declaration ends with its own body on top of the handlers, in the stage that it announces. -/
theorem exists_of_closeDeclaration {hasBody : Bool} (h : a.closeDeclaration hasBody = .ok b) :
    ∃ body below d outer e, a.handlers = .block body :: below ∧ a.declarations = d :: outer ∧
      body.isBody = true ∧ body.stage = (if hasBody then .closed else .unopened) ∧
      d.finish (if hasBody then some body.statements else none) = .ok e ∧
      ({ a with handlers := below, declarations := outer }.warnModifiers d.line
        (if d.isConstructor then .constructors else .methods) (d.leftovers hasBody)).report e =
          .ok b := by
  cases hhandlers : a.handlers with
  | nil => simp [closeDeclaration, hhandlers] at h
  | cons top below =>
    cases top with
    | root elements => simp [closeDeclaration, hhandlers] at h
    | chain c => simp [closeDeclaration, hhandlers] at h
    | loop w => simp [closeDeclaration, hhandlers] at h
    | block body =>
        simp only [closeDeclaration, hhandlers] at h
        by_cases hstage : (body.isBody &&
            decide (body.stage = if hasBody then .closed else .unopened)) = true
        · rw [if_pos hstage] at h
          rw [Bool.and_eq_true, decide_eq_true_eq] at hstage
          cases hdeclarations : a.declarations with
          | nil => simp [hdeclarations] at h
          | cons d outer =>
              simp only [hdeclarations] at h
              obtain ⟨e, he, h⟩ := Except.exists_of_bind h
              exact ⟨body, below, d, outer, e, rfl, rfl, hstage.1, hstage.2, he, h⟩
        · rw [if_neg hstage] at h
          cases h

end Assembly

end CodeFrames
