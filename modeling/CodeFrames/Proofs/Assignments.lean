import CodeFrames.Proofs.Concatenation
import CodeFrames.Proofs.PostOrder
import CodeFrames.Proofs.Sides
import CodeFrames.Proofs.Slices

/-!
# Targets of assignments

An assignment is told from a call by the tokens of its text alone: it is split at the first plain
assignment operator outside all brackets.  So no such operator is left in its target.  A compound one can
be, where a plain one follows it.
-/

namespace CodeFrames

open Text

namespace Token

/-- The tokens outside all brackets, `depth` of them being open in front of the first token. -/
def outermost : Int → List Token → List Token
  | _, [] => []
  | depth, t :: ts =>
      if depth = 0 then t :: outermost (depth + t.nesting) ts else outermost (depth + t.nesting) ts

theorem isSome_topLevelAssignment? (depth : Int) (ts : List Token) :
    (ExpressionText.topLevelAssignment? depth ts).isSome =
      (outermost depth ts).any (·.isOperator ['=']) := by
  induction ts generalizing depth with
  | nil => rfl
  | cons t ts ih =>
      rw [topLevelAssignment?_cons, outermost]
      by_cases hdepth : depth = 0
      · rw [if_pos hdepth, List.any_cons]
        cases hsign : t.isOperator ['='] with
        | true => simp [hdepth]
        | false => simpa [hdepth] using ih (0 + t.nesting)
      · simpa [hdepth] using ih (depth + t.nesting)

/-- Left of the sign there is no further one. -/
theorem sides_left {depth : Int} {ps left right : List Token} (h : sides depth ps = some (left, right)) :
    sides depth left = none := by
  induction ps generalizing depth left with
  | nil => cases h
  | cons t ts ih =>
      rw [sides] at h
      split at h
      · obtain ⟨rfl, -⟩ := by simpa using h
        rfl
      · next hsign =>
          obtain ⟨⟨left', right'⟩, hsides, heq⟩ := Option.map_eq_some_iff.mp h
          obtain ⟨rfl, rfl⟩ := by simpa using heq
          rw [sides, if_neg hsign, ih hsides]
          rfl

/-- The target of an assignment has no plain assignment operator outside all brackets. -/
theorem outermost_of_assignmentSides? {text : Text} {x : Text × Text} (h : assignmentSides? text = some x) :
    ∃ tokens, lex x.1 = .ok tokens ∧ ∀ t ∈ outermost 0 tokens, t.isOperator ['='] = false := by
  cases hlex : lex text with
  | error e => simp [assignmentSides?, hlex] at h
  | ok tokens =>
      obtain ⟨ps, hps, rfl, -⟩ := exists_placed_of_lex hlex
      obtain ⟨left, right, hsides, hleft, -, htarget, -⟩ := hps.exists_sides h
      obtain ⟨qs, hqs, hspelled, hcode⟩ := hleft.trimmed
      obtain ⟨ts, hts, hplaced⟩ := hqs.lex
      have hnone : sides 0 qs = none := by
        have hmap := sides_code 0 qs
        rw [hcode, sides_code, sides_left hsides] at hmap
        exact Option.map_eq_none_iff.mp hmap.symm
      refine ⟨ts, by rw [← htarget, ← hspelled, hts], fun t ht => ?_⟩
      have hrel := hplaced.topLevelAssignment? 0
      have hany := isSome_topLevelAssignment? 0 ts
      rw [hnone] at hrel
      generalize ExpressionText.topLevelAssignment? 0 ts = found at hrel hany
      cases hrel
      exact Bool.eq_false_iff.mpr (List.any_eq_false.mp hany.symm t ht)

end Token

open Token

namespace Assembly

theorem statementElement_of_outermost {text : Text} {tokens : List Token} (hlex : lex text = .ok tokens)
    (h : ∀ t ∈ outermost 0 tokens, t.isOperator ['='] = false) :
    statementElement text = .call (.expression text) := by
  have hnone : ExpressionText.topLevelAssignment? 0 tokens = none := by
    rw [← Option.not_isSome_iff_eq_none, isSome_topLevelAssignment?, List.any_eq_true]
    rintro ⟨t, ht, hsign⟩
    simp [h t ht] at hsign
  rw [statementElement, assignmentSides?, hlex]
  simp only [hnone]

end Assembly

/-- A call or an assignment, which the text of a statement becomes, or a chain. -/
def Element.isStatementOrChain : Element → Bool
  | .call _ | .assign _ _ | .ifChain _ _ _ _ _ => true
  | _ => false

namespace Assembly

/-- Only the text that is handed over for a statement becomes a call or an assignment, and only an open
chain becomes a chain. -/
theorem cases_of_completed? {a : Assembly} {event : Event} {e : Element} (h : a.completed? event = some e) :
    (∃ last isEmpty text, event = .closeExpression last isEmpty ∧ a.handed? last isEmpty = some text ∧
      statementElement (withSubtypeOperator text) = e) ∨
    (∃ last chain below, event = .closeIf last ∧ a.handlers = .chain chain :: below ∧
      chain.finish = .ok e) ∨
    e.isStatementOrChain = false := by
  cases event with
  | closeExpression last isEmpty =>
      obtain ⟨x, hx, h⟩ := Option.bind_eq_some_iff.mp h
      split at h
      · next text hclosed =>
          unfold fulfilled? at h
          split at h
          · exact .inr (.inr (Option.some.inj h ▸ rfl))
          · exact .inl ⟨last, isEmpty, text, rfl, by rw [handed?, hx, Option.bind_some, hclosed],
              Option.some.inj h⟩
          · exact .inr (.inr (Option.some.inj h ▸ rfl))
          · obtain ⟨header, -, rfl⟩ := Option.map_eq_some_iff.mp h
            exact .inr (.inr rfl)
          · cases h
      · cases h
  | closeIf last =>
      simp only [completed?] at h
      split at h
      · next chain below hhandlers =>
          cases hfinish : chain.finish with
          | error e => simp [hfinish, Except.toOption] at h
          | ok element =>
              obtain rfl : element = e := by simpa [hfinish, Except.toOption] using h
              exact .inr (.inl ⟨last, chain, below, rfl, hhandlers, hfinish⟩)
      · cases h
  | closeWhile last =>
      simp only [completed?] at h
      split at h
      · next loop below hhandlers =>
          cases hfinish : loop.finish with
          | error e => simp [hfinish, Except.toOption] at h
          | ok element =>
              obtain rfl : element = e := by simpa [hfinish, Except.toOption] using h
              obtain ⟨-, -, hwhile⟩ := Except.exists_of_bind hfinish
              cases hwhile
              exact .inr (.inr rfl)
      · cases h
  | closeDeclaration last hasBody =>
      simp only [completed?] at h
      split at h
      · next b below d declarations hhandlers hdeclarations =>
          cases hfinish : d.finish (if hasBody then some b.statements else none) with
          | error e => simp [hfinish, Except.toOption] at h
          | ok element =>
              obtain rfl : element = e := by simpa [hfinish, Except.toOption] using h
              obtain ⟨access, -, rfl⟩ := Except.exists_of_map hfinish
              unfold Declaration.element
              split <;> exact .inr (.inr rfl)
      · cases h
  | returned keyword hasValue =>
      cases hasValue with
      | true => cases h
      | false => exact .inr (.inr (Option.some.inj h ▸ rfl))
  | declarator name hasValue =>
      cases hasValue with
      | true => cases h
      | false =>
          obtain ⟨header, -, rfl⟩ := Option.map_eq_some_iff.mp h
          exact .inr (.inr rfl)
  | jumped jump keyword label => exact .inr (.inr (Option.some.inj h ▸ rfl))
  | _ => cases h

/-- The chain that an open one becomes has a block for each of its conditions. -/
theorem exists_ifChain_of_finish {chain : OpenChain} {e : Element} (h : chain.finish = .ok e) :
    ∃ condition thenBlock conditions blocks elseBlock,
      e = .ifChain condition thenBlock conditions blocks elseBlock ∧
        (chain.Paired → conditions.length = blocks.length) := by
  unfold OpenChain.finish at h
  split at h
  · next hstage =>
      split at h
      · next condition conditions block blocks hconditions hblocks =>
          cases h
          refine ⟨_, _, _, _, _, rfl, fun hpaired => ?_⟩
          rw [OpenChain.Paired, hconditions, hblocks] at hpaired
          have hmore : conditions.length ≤ blocks.length := by
            rcases (Bool.or_eq_true _ _).mp hstage with hbetween | hafter
            · simp_all
            · simp_all
          rw [List.length_take, Nat.min_eq_left hmore]
      · cases h
  · cases h

theorem statementElement_of_completed? {a : Assembly} {event : Event} {target value : Fragment}
    (h : a.completed? event = some (.assign target value)) :
    ∃ text, statementElement text = .assign target value := by
  rcases cases_of_completed? h with
    ⟨last, isEmpty, text, -, -, htext⟩ | ⟨last, chain, below, -, -, hfinish⟩ | hother
  · exact ⟨_, htext⟩
  · obtain ⟨_, _, _, _, _, heq, -⟩ := exists_ifChain_of_finish hfinish
    cases heq
  · cases hother

end Assembly

/-- In the target of an assignment, at whatever depth the assignment stands, there is no plain assignment
operator outside all brackets, and the text of a statement without such an operator is that of a call. -/
theorem assign_target {options : Options} {source : Text} {conversion : Conversion}
    (h : convert options source = .ok conversion) :
    (∀ target value, Element.assign target value ∈ blockPostOrder conversion.elements →
      ∃ tokens, lex target.text = .ok tokens ∧ ∀ t ∈ outermost 0 tokens, t.isOperator ['='] = false) ∧
    ∀ text tokens, lex text = .ok tokens → (∀ t ∈ outermost 0 tokens, t.isOperator ['='] = false) →
      Assembly.statementElement text = .call (.expression text) := by
  refine ⟨fun target value hmem => ?_, fun text tokens => Assembly.statementElement_of_outermost⟩
  obtain ⟨hread, comment, hrun⟩ := exists_run_of_convert h
  rw [Assembly.blockPostOrder_of_finish hrun (Assembly.finish_updated _ _ _ _ _)] at hmem
  obtain ⟨met, -, hcompleted⟩ := List.mem_filterMap.mp hmem
  obtain ⟨text, htext⟩ := Assembly.statementElement_of_completed? hcompleted
  unfold Assembly.statementElement at htext
  split at htext
  · next left right hsides =>
      obtain ⟨rfl, rfl⟩ := by simpa using htext
      exact outermost_of_assignmentSides? hsides
  · cases htext

/-- The sides of the assignment that is the first element. -/
def firstAssignment? : Block → Option (Fragment × Fragment)
  | .assign target value :: _ => some (target, value)
  | _ => none

theorem assign_of_firstAssignment? {block : Block} {target value : Fragment}
    (h : firstAssignment? block = some (target, value)) :
    .assign target value ∈ blockPostOrder block := by
  unfold firstAssignment? at h
  split at h
  · obtain ⟨rfl, rfl⟩ := by simpa using h
    exact List.mem_cons_self
  · cases h

/-- The sign in the brackets is none of the statement. -/
theorem assign_target_chained : ∃ conversion, convert .default "a[i = 0] = b = c;".toList = .ok conversion ∧
    .assign (.expression "a[i = 0]".toList) (.expression "b = c".toList) ∈
      blockPostOrder conversion.elements ∧
    ∃ tokens, lex "a[i = 0]".toList = .ok tokens ∧
      ∀ t ∈ outermost 0 tokens, t.isOperator ['='] = false := by
  obtain ⟨conversion, hconversion, hfirst⟩ : ∃ conversion,
      convert .default "a[i = 0] = b = c;".toList = .ok conversion ∧
        firstAssignment? conversion.elements =
          some (.expression "a[i = 0]".toList, .expression "b = c".toList) :=
    Except.exists_of_map_eq (by decide +kernel)
  have hmem := assign_of_firstAssignment? hfirst
  have htarget := (assign_target hconversion).1 _ _ hmem
  simp only [Fragment.expression] at htarget
  exact ⟨conversion, hconversion, hmem, htarget⟩

/-- A compound assignment operator can be in a target. -/
theorem not_assign_target_compound : ¬ ∀ (options : Options) (source : Text) (conversion : Conversion),
    convert options source = .ok conversion → ∀ target value,
      .assign target value ∈ blockPostOrder conversion.elements →
        ∃ tokens, lex target.text = .ok tokens ∧
          ∀ t ∈ outermost 0 tokens, t.isOperatorIn assignmentOperators = false := by
  intro hall
  obtain ⟨conversion, hconversion, hfirst⟩ : ∃ conversion,
      convert .default "x += y = 1;".toList = .ok conversion ∧
        firstAssignment? conversion.elements = some (.expression "x += y".toList, .expression "1".toList) :=
    Except.exists_of_map_eq (by decide +kernel)
  obtain ⟨tokens, htokens, hnone⟩ := hall _ _ _ hconversion _ _ (assign_of_firstAssignment? hfirst)
  obtain ⟨others, hothers, hany⟩ : ∃ tokens, lex "x += y".toList = .ok tokens ∧
      (outermost 0 tokens).any (·.isOperatorIn assignmentOperators) = true :=
    Except.exists_of_map_eq (by decide +kernel)
  obtain rfl : others = tokens := Except.ok.inj (hothers.symm.trans htokens)
  obtain ⟨t, ht, hoperator⟩ := List.any_eq_true.mp hany
  exact Bool.false_ne_true ((hnone t ht).symm.trans hoperator)

end CodeFrames
