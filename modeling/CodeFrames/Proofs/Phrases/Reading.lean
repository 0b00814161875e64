import CodeFrames.Proofs.Phrases.Rounds

/-!
# Reading a tree

The reading of an expression steps over a printed tree, no more and no less, where the tree fits the
nesting levels, and stops elsewhere because the nesting is too deep.  For each category there is a
reading that does so in front of every token that can stand behind it.
-/

namespace CodeFrames

open Token

namespace Phrase

open Reading

/-- What the readings with so many nesting levels to go do in front of the tokens of a tree of the
category, which stand in front of others. -/
def Category.Reads (levels : Nat) (ps rest : List Token) (fits : Prop) : Category → Prop :=
  let inner := Enclosed.within levels
  fun
  | .assignment => Proceeds (Reading.conditional inner) (assignedRound inner) ps rest fits
  | .conditional => Passes (Reading.conditional inner) ps rest fits
  | .operation _ => Proceeds (Reading.unary inner) (operationRound inner) ps rest fits
  | .unary | .unsigned =>
      ReadsOn leading (do
        Reading.operand inner
        repeatWhile (selector inner)) (ps ++ rest) fits (·.Faces rest)
  | .operand false => Proceeds (Reading.operand inner) (selector inner) ps rest fits
  | .operand true => ∀ k, Enters (Reading.operand inner >>= fun _ => k) (Reading.dimension inner)
      (initializer inner >>= fun _ => k) ps rest fits
  | .arguments => Passes (Reading.arguments inner) ps rest fits
  | .values => ReadsOn (argumentRound inner) (pure ()) (ps ++ rest) fits (·.Faces rest)

/-- The tree is read in front of every token that can stand behind it. -/
def IsRead {s : Category} (e : Phrase s) : Prop :=
  ∀ levels first rest, s.follow.Has first → s.Reads levels e.tokens (first :: rest) (e.nesting ≤ levels)

variable {levels : Nat} {t first : Token} {ps rest : List Token} {c : Cursor}

/-! ## Assignments and conditionals -/

section Assignment

variable {target value : Phrase .conditional} {e yes : Phrase .assignment} {no : Phrase .conditional}
  {tested : Bool} {condition : Phrase (.operation tested)}

theorem has_operator {f : Follow} {op : Text} (h : op ∈ f.operators) : f.Has (symbol .operator op) :=
  .inr (.inl (by simpa [isOperatorIn, symbol] using h))

theorem here_operator {op : Text} {ops : List Text} (hop : op ∈ ops)
    (hc : c.Faces (symbol .operator op :: rest)) : c.here.isOperatorIn ops = true := by
  rw [← isOperatorIn_bare, hc.here_eq]
  simpa [isOperatorIn, symbol] using hop

theorem isRead_value (h : value.IsRead) : (Phrase.value value).IsRead := fun levels first rest hfirst =>
  Proceeds.of_passes (h levels first rest (hfirst.mono (by decide) (by decide) (by decide)))

theorem isRead_assigned {op : Text} (hop : op ∈ assignmentOperators) (htarget : target.IsRead)
    (h : e.IsRead) : (Phrase.assigned op hop target e).IsRead := by
  intro levels first rest hfirst
  have hhead := htarget levels (symbol .operator op) (e.tokens ++ first :: rest)
    (has_operator (List.mem_cons_of_mem _ hop))
  rw [nesting, Nat.max_le]
  exact (Proceeds.of_passes hhead).join (fun c hc => assignedRound_of_operator (here_operator hop hc)) (by simp)
    (h levels first rest hfirst)

/-- An assignment is over in front of what can stand behind it. -/
theorem assignedRound_end (h : Category.assignment.follow.Has t) (hc : c.Faces (t :: rest))
    (inner : Enclosed) : assignedRound inner c = ([], .ok (false, c)) := by
  refine assignedRound_stop ?_
  rw [← isOperatorIn_bare, hc.here_eq]
  refine h.test (p := (·.isOperatorIn assignmentOperators)) (fun _ => rfl) ?_ (by decide) (by decide)
  simp [Category.follow, delimiters, symbol, isOperatorIn]

theorem IsRead.assignment (h : e.IsRead) (hfirst : Category.assignment.follow.Has first) :
    Passes (Reading.assignment (Enclosed.within levels)) e.tokens (first :: rest) (e.nesting ≤ levels) :=
  (h levels first rest hfirst).passes fun _ hc => assignedRound_end hfirst hc _

/-- An operation is over in front of a question mark and what can stand behind a conditional. -/
theorem operationRound_end (h : Category.conditional.follow.Has t ∨ t = symbol .operator ['?'])
    (hc : c.Faces (t :: rest)) (inner : Enclosed) : operationRound inner c = ([], .ok (false, c)) := by
  refine operationRound_stop ?_ ?_
  · rw [← isWord_bare, hc.here_eq]
    rcases h with h | rfl
    · refine h.test (p := (·.isWord "instanceof".toList)) (fun _ => rfl) ?_ (by decide) (by decide)
      simp [Category.follow, delimiters, symbol, isWord]
    · rfl
  · rw [← isOperatorIn_bare, hc.here_eq]
    rcases h with h | rfl
    · refine h.test (p := (·.isOperatorIn binaryOperators)) (fun _ => rfl) ?_ (by decide) (by decide)
      simp [Category.follow, delimiters, symbol, isOperatorIn]
    · decide

theorem IsRead.binary (h : condition.IsRead)
    (hfirst : Category.conditional.follow.Has first ∨ first = symbol .operator ['?']) :
    Passes (Reading.binary (Enclosed.within levels)) condition.tokens (first :: rest)
      (condition.nesting ≤ levels) := by
  have hfollow : (Category.operation tested).follow.Has first := by
    rcases hfirst with h | rfl
    · exact h.operation
    · cases tested <;> exact has_operator (by decide)
  exact (h levels first rest hfollow).passes fun _ hc => operationRound_end hfirst hc _

theorem isRead_operation (h : condition.IsRead) : (Phrase.operation condition).IsRead := by
  intro levels first rest hfirst c hc
  refine (h.binary (.inl hfirst) c hc).before fun _ d hd => ?_
  have hquestion : d.isAtOperator "?" = false := by
    rw [Cursor.isAtOperator, ← isOperator_bare, hd.here_eq]
    refine hfirst.test (p := (·.isOperator "?".toList)) (fun _ => rfl) ?_ (by decide) (by decide)
    simp [Category.follow, delimiters, symbol, isOperator]
  exact CompletesAt.cursor_bind (CompletesAt.ite_false (by simp [hquestion]) (CompletesAt.pure_quiet hd))

theorem isRead_chosen (hcondition : condition.IsRead) (hyes : yes.IsRead) (hno : no.IsRead) :
    (Phrase.chosen condition yes no).IsRead := by
  intro levels first rest hfirst c hc
  rw [tokens, List.append_assoc, List.cons_append, List.append_assoc, List.cons_append] at hc
  rw [nesting, Nat.max_le]
  refine (hcondition.binary (.inr rfl) c hc).bind fun _ d hd => ?_
  have hquestion : d.isAtOperator "?" = true := by
    rw [Cursor.isAtOperator, ← isOperator_bare, hd.here_eq]
    rfl
  refine .step rfl (.ite_true hquestion (.step rfl ?_))
  cases levels with
  | zero => exact ⟨fun h => absurd h (by simp), fun _ => ⟨[], _, rfl⟩⟩
  | succ levels =>
      rw [Nat.add_le_add_iff_right, Nat.max_le]
      have hbranch : Category.assignment.follow.Has (symbol .operator [':']) := has_operator (by decide)
      refine (hyes.assignment hbranch _ (hd.advance (by simp))).bind fun _ e he => ?_
      have hcolon : expectOperator ":" e = ([], .ok (e.here, e.advance)) := by
        rw [expectOperator, cursor_bind, Cursor.isAtOperator, ← isOperator_bare, he.here_eq]
        rfl
      exact .step hcolon (hno levels first rest hfirst _ (he.advance (by simp)))

end Assignment

/-! ## Operations -/

section Operation

variable {tested tested' : Bool} {left : Phrase (.operation tested)} {right : Phrase (.operation tested')}
  {e : Phrase .unary} {condition : Phrase (.operation false)}

theorem IsRead.unary (h : e.IsRead) (hfirst : Category.unary.follow.Has first) :
    Passes (Reading.unary (Enclosed.within levels)) e.tokens (first :: rest) (e.nesting ≤ levels) :=
  fun _ hc => (h levels first rest hfirst).repeatWhile hc

theorem isRead_single (h : e.IsRead) : (Phrase.single e).IsRead := fun _ _ _ hfirst =>
  Proceeds.of_passes (h.unary hfirst)

theorem isRead_joined {op : Text} (hop : op ∈ binaryOperators)
    (htested : tested = true → op ∈ logicalOperators) (hleft : left.IsRead) (hright : right.IsRead) :
    (Phrase.joined op hop htested left right).IsRead := by
  intro levels first rest hfirst
  have hfollow : (Category.operation tested).follow.Has (symbol .operator op) := by
    refine has_operator ?_
    cases tested with
    | false => simp [Category.follow, hop]
    | true => simp [Category.follow, htested rfl]
  rw [nesting_joined_le]
  refine Proceeds.join (hleft levels (symbol .operator op) (right.tokens ++ first :: rest) hfollow)
    (fun c hc => operationRound_of_operator ?_ (here_operator hop hc)) (by simp)
    (hright levels first rest hfirst)
  rw [← isWord_bare, hc.here_eq]
  rfl

/-- A type is stepped over where it is a part of an expression. -/
theorem passes_unreportedType (type : WholeType) (hends : TypeName.Ends rest) (hrest : rest ≠ []) :
    Passes unreportedType type.tokens rest True := by
  intro c hc
  have hlength : typeLength? c.tokens = some type.tokens.length := by
    rw [← typeLength?_bare, hc.tokens_eq]
    exact TypeName.typeLength?_of_whole type.whole hends
  refine .step (r := cursor) rfl ?_
  rw [hlength]
  exact .of_completes ⟨[], (), _, rfl, nil_mem_quiets, hc.forward hrest⟩

/-- The first token of a type is not the word `final`. -/
theorem not_final (type : WholeType) (hc : c.Faces (type.tokens ++ rest)) : c.isAtWord "final" = false := by
  obtain ⟨p, ps, htokens, hopens⟩ := TypeName.exists_first_of_whole type.whole
  rw [htokens] at hc
  have hnot : p.text ∉ ["final".toList] := not_mem_of_opensType hopens (by decide)
  rw [Cursor.isAtWord, ← isWord_bare, hc.here_eq, isWord, Bool.and_eq_false_iff]
  exact .inr (decide_eq_false (by simpa using hnot))

theorem isRead_tested {type : WholeType} (h : condition.IsRead) : (Phrase.tested condition type).IsRead := by
  intro levels first rest hfirst
  have htest {p : Token → Bool} (hp : ∀ t, p t.bare = p t)
      (hkinds : ∀ kind ∈ delimiters, ∀ w, p (symbol kind w) = false)
      (hoperators : ∀ op ∈ (Category.operation true).follow.operators, p (symbol .operator op) = false) :
      p first = false := hfirst.test hp hkinds hoperators (by simp [Category.follow])
  have hends : TypeName.Ends (first :: rest) := by
    simp only [TypeName.Ends, List.head?_cons, Option.mem_some_iff, forall_eq']
    refine ⟨htest (p := (·.isOperator ['<'])) (fun _ => rfl) ?_ (by decide),
      hfirst.kind_ne (by decide) (by decide) (by decide), hfirst.kind_ne (by decide) (by decide) (by decide)⟩
    simp [delimiters, symbol, isOperator]
  have hname : first.isName = false := by
    refine htest (p := isName) (fun _ => rfl) ?_ (by decide)
    simp [delimiters, symbol, isName, isAnyWord]
  have htype : Passes testedType type.tokens (first :: rest) True := by
    intro c hc
    refine .step (r := cursor) rfl (.ite_false (by simp [not_final type hc]) ?_)
    refine (passes_unreportedType type hends (by simp) c hc).before fun _ d hd => ?_
    have hnot : d.here.isName = false := by rw [← isName_bare, hd.here_eq, hname]
    exact CompletesAt.here_bind (CompletesAt.ite_false (by simp [hnot]) (CompletesAt.pure_quiet hd))
  have hfollow : (Category.operation false).follow.Has (symbol .word "instanceof".toList) :=
    .inr (.inr (by decide))
  have hjoin := Proceeds.join
    (h levels (symbol .word "instanceof".toList) (type.tokens ++ first :: rest) hfollow)
    (fun c hc => operationRound_of_test (by rw [← isWord_bare, hc.here_eq]; rfl)) (by simp)
    (Proceeds.of_passes htype)
  rwa [and_true] at hjoin

end Operation

/-! ## Unary expressions -/

section Unary

variable {k : Reading Unit} {p : Prop} {Q : Cursor → Prop} {e : Phrase .unary} {operand : Phrase .unsigned}

theorem readsOn_operator {op : Text} (hop : op ∈ leadingOperators) (hps : ps ≠ [])
    (h : ReadsOn leading k ps p Q) : ReadsOn leading k (symbol .operator op :: ps) p Q := by
  have hmore := ReadsOn.more (p := True) (fun c hc => .of_completes ⟨[], true, c.advance,
    leading_of_operator (here_operator hop hc), nil_mem_quiets, rfl, hc.advance hps⟩) (by simp) hps h
  rwa [true_and] at hmore

theorem readsOn_cast {type : WholeType} {t : Token}
    (ht : ∀ p ∈ type.tokens.head?, t.startsCastOperand p.isPrimitive = true)
    (h : ReadsOn leading k (t :: rest) p Q) :
    ReadsOn leading k (openParen :: (type.tokens ++ closeParen :: t :: rest)) p Q := by
  have hround (c : Cursor) (hc : c.Faces (openParen :: (type.tokens ++ closeParen :: t :: rest))) :
      leading.Limited c True fun again d => again = true ∧ d.Faces (t :: rest) := by
    have hlength : castLength? c.tokens = some (type.tokens.length + 2) := by
      rw [← castLength?_bare, hc.tokens_eq, castLength?_cast type ht]
    have hall : c.Faces (openParen :: (type.tokens ++ [closeParen]) ++ t :: rest) := by simpa using hc
    exact .of_completes ⟨[], true, _, leading_of_cast (kind_of_faces hc) hlength, nil_mem_quiets, rfl,
      by simpa using hall.forward (by simp)⟩
  have hmore := ReadsOn.more hround (by simp; omega) (by simp) h
  rwa [true_and] at hmore

theorem isRead_signed {op : Text} (hop : op ∈ signs) (h : e.IsRead) : (Phrase.signed op hop e).IsRead := by
  intro levels first rest hfirst
  have hall : ∀ op ∈ signs, op ∈ leadingOperators := by decide
  exact readsOn_operator (hall op hop) (by simp) (h levels first rest hfirst)

theorem isRead_unsigned (h : operand.IsRead) : (Phrase.unsigned operand).IsRead := h

theorem isRead_inverted {op : Text} (hop : op ∈ inversions) (h : e.IsRead) :
    (Phrase.inverted op hop e).IsRead := by
  intro levels first rest hfirst
  have hall : ∀ op ∈ inversions, op ∈ leadingOperators := by decide
  exact readsOn_operator (hall op hop) (by simp) (h levels first rest hfirst)

theorem isRead_primitiveCast {type : WholeType} (htype : type.IsPrimitive) (h : e.IsRead) :
    (Phrase.primitiveCast type htype e).IsRead := by
  intro levels first rest hfirst
  have hrest := h levels first rest hfirst
  obtain ⟨t, ts, htokens, hstarts⟩ := e.exists_first
  simp only [Category.Reads, tokens, List.cons_append, List.append_assoc, htokens] at hrest ⊢
  exact readsOn_cast (fun p hp => by rw [htype p hp]; exact hstarts) hrest

theorem isRead_cast {type : WholeType} (h : operand.IsRead) : (Phrase.cast type operand).IsRead := by
  intro levels first rest hfirst
  have hrest := h levels first rest hfirst
  obtain ⟨t, ts, htokens, hstarts⟩ := operand.exists_first
  simp only [Category.Reads, tokens, List.cons_append, List.append_assoc, htokens] at hrest ⊢
  exact readsOn_cast (fun p _ => startsCastOperand_mono hstarts) hrest

end Unary

end Phrase

end CodeFrames
